import WSBridge.System.Links

/-!
# Callbacks and `tcp_abort`

lwIP may use a pcb after a callback unless the callback returns `ERR_ABRT`, and
`tcp_abort` frees the pcb at once. `tcp_recv_cb` passes client data to
`TunnelSession.handleData`, which closes the connection of a stream that is no
MTProto init: the callback goes on with `tcp_recved` on the pcb that has just
been freed, and returns `ERR_OK`.

Results:
* `disciplined_iff`: a run keeps all callbacks disciplined exactly when no
  session in a slot rejects the data it gets.
* `rejected_init`: a connection whose first 64 bytes are no init.
-/

namespace WSBridge

open WSBridge.Foundation

/-- The callback makes no call on its own pcb after `tcp_abort`, and returns
`ERR_ABRT` exactly when it has aborted the pcb. -/
structure Invocation.Disciplined (v : Invocation) : Prop where
  last : ∀ before after, v.ops = before ++ (v.pcb, .abort) :: after → ∀ op ∈ after, op.1 ≠ v.pcb
  abrt : v.ret = .abrt ↔ (v.pcb, .abort) ∈ v.ops

/-- Every callback until now was disciplined. -/
def Disciplined (s : System) : Prop := ∀ v ∈ s.invocations, v.Disciplined

/-- Data that reaches a session does not complete an init that it rejects. -/
def Acceptable (ks : Keystream) (s : System) : SystemEvent → Prop
  | .lwip (.recv id (some data) err malloc) =>
    err = 0 → malloc = true → ∀ p ∈ s.bridge.pcbs, p.id = id → ∀ r session,
      s.tunnel.swift.session? p.arg = some (r, session) → ¬ session.Rejects ks data
  | _ => True

/-! ## The calls of each callback -/

section

variable {L : Lwip} {b : Bridge}

theorem acceptInto_ops (p : Pcb) (slot : ℕ) :
    (b.acceptInto p slot).ops = b.ops ++ [(p.id, .arg), (p.id, .nagleDisable), (p.id, .recv),
      (p.id, .err), (p.id, .sent)] := by
  simp [Bridge.acceptInto, Bridge.enter, Bridge.attach, Bridge.tcpArg, Bridge.tcpNagleDisable,
    Bridge.tcpRecv, Bridge.tcpErr, Bridge.tcpSent, Bridge.logOp, Bridge.onPcb]

/-- The calls on a pcb when its connection is closed. -/
theorem lwipBridgeClose_ops (hs : Slots b) {p : Pcb} (hp : p ∈ b.pcbs)
    (hacc : p.accepted = true) :
    (b.lwipBridgeClose L p.arg).ops =
      b.ops ++ [(p.id, .recv), (p.id, .err), (p.id, .abort)] := by
  obtain ⟨c, hc, -, -, hpcb⟩ := hs.connOfId hp hacc
  unfold Bridge.lwipBridgeClose
  rw [hc]
  dsimp only
  rw [hpcb]
  exact Bridge.detachAbort_ops L _ p.id

end

section

variable {L : Lwip} {ks : Keystream} {w : Provider.Tunnel}

/-- Data that a session takes makes no call on a pcb. -/
theorem handleRecv_bridge (hl : Linked w) {slot : ℕ} {data : Bytes}
    (h : ∀ r session, w.swift.session? slot = some (r, session) → ¬ session.Rejects ks data) :
    (Provider.handleRecv L ks slot data w).bridge = w.bridge := by
  unfold Provider.handleRecv
  split
  · rename_i r session hsession
    obtain ⟨-, o, ho, rfl⟩ := Provider.session?_eq_some hsession
    obtain ⟨hharmless, -⟩ := TunnelSession.handleData_spec w.swift.log
      (h r o.session hsession) (hl.coherent r o ho)
    dsimp only
    rw [Provider.perform_harmless hharmless]
    rfl
  · rfl

/-- Data that a session rejects closes the connection in its slot. -/
theorem handleRecv_rejects (hl : Linked w) {slot r : ℕ} {data : Bytes} {session : TunnelSession}
    (hsession : w.swift.session? slot = some (r, session)) (h : session.Rejects ks data) :
    (Provider.handleRecv L ks slot data w).bridge = w.bridge.lwipBridgeClose L slot := by
  obtain ⟨hr, o, ho, rfl⟩ := Provider.session?_eq_some hsession
  obtain ⟨o', ho', rfl⟩ := hl.filed slot r hr
  obtain rfl := Option.some.inj (ho.symm.trans ho')
  obtain ⟨heffects, -⟩ := TunnelSession.handleData_rejects w.swift.log h
  unfold Provider.handleRecv
  rw [hsession]
  dsimp only
  rw [heffects]
  rfl

end

/-! ## One callback -/

theorem disciplined_of_no_abort {pcb : ℕ} {ops : List (ℕ × PcbOp)}
    (h : (pcb, PcbOp.abort) ∉ ops) : Invocation.Disciplined ⟨pcb, .ok, ops⟩ := by
  refine ⟨?_, iff_of_false nofun h⟩
  intro before after heq
  have hmem : (pcb, PcbOp.abort) ∈ before ++ (pcb, PcbOp.abort) :: after := by simp
  rw [← show ops = _ from heq] at hmem
  exact absurd hmem h

theorem disciplined_of_last {pcb : ℕ} {ops : List (ℕ × PcbOp)} (h : (pcb, PcbOp.abort) ∉ ops) :
    Invocation.Disciplined ⟨pcb, .abrt, ops ++ [(pcb, .abort)]⟩ := by
  refine ⟨?_, iff_of_true rfl (by simp)⟩
  intro before after heq
  rcases List.eq_nil_or_concat after with rfl | ⟨rest, op, rfl⟩
  · nofun
  · exfalso
    have hops : ops = before ++ (pcb, .abort) :: rest := by
      have heq' : ops ++ [(pcb, PcbOp.abort)] =
          (before ++ (pcb, .abort) :: rest) ++ [op] := by simpa using heq
      exact (List.append_inj' heq' rfl).1
    rw [hops] at h
    exact h (by simp)

/-- A pcb that is freed under its callback. -/
theorem not_disciplined_rejected (pcb len : ℕ) : ¬ Invocation.Disciplined
    ⟨pcb, .ok, [(pcb, .recv), (pcb, .err), (pcb, .abort), (pcb, .recved len)]⟩ := by
  intro h
  have habrt := h.abrt.mpr (by simp)
  cases habrt

theorem invoked_of_ops {before after : Bridge} (ops : List (ℕ × PcbOp))
    (h : after.ops = before.ops ++ ops) (pcb : ℕ) (ret : Err) :
    System.invoked before after (some ⟨some pcb, ret⟩) = [⟨pcb, ret, ops⟩] := by
  unfold System.invoked
  rw [h, List.drop_left]

/-- Data for a connection: the callback is disciplined unless a session rejects
the data. -/
theorem invoked_data {L : Lwip} {ks : Keystream} {w : Provider.Tunnel} (hl : Linked w) {p : Pcb}
    (hp : p ∈ w.bridge.pcbs) (hacc : p.accepted = true) (data : Bytes) (malloc : Bool) :
    (∀ v ∈ System.invoked w.bridge
        ((if malloc then Provider.handleRecv L ks p.arg data w else w).onBridge
          (·.tcpRecved p.id data.length)).bridge (some ⟨some p.id, .ok⟩), v.Disciplined) ↔
      (malloc = true → ∀ r session, w.swift.session? p.arg = some (r, session) →
        ¬ session.Rejects ks data) := by
  cases malloc with
  | false =>
    refine iff_of_true ?_ nofun
    rw [invoked_of_ops [(p.id, .recved data.length)] rfl]
    intro v hv
    obtain rfl := List.mem_singleton.mp hv
    exact disciplined_of_no_abort (by simp)
  | true =>
    rw [if_pos rfl]
    by_cases h : ∀ r session, w.swift.session? p.arg = some (r, session) →
        ¬ session.Rejects ks data
    · refine iff_of_true ?_ fun _ => h
      have hops : ((Provider.handleRecv L ks p.arg data w).onBridge
          (·.tcpRecved p.id data.length)).bridge.ops =
            w.bridge.ops ++ [(p.id, .recved data.length)] :=
        congrArg (fun b : Bridge => b.ops ++ [(p.id, PcbOp.recved data.length)])
          (handleRecv_bridge hl h)
      rw [invoked_of_ops _ hops]
      intro v hv
      obtain rfl := List.mem_singleton.mp hv
      exact disciplined_of_no_abort (by simp)
    · refine iff_of_false ?_ fun hC => h (hC rfl)
      simp only [not_forall, not_not] at h
      obtain ⟨r, session, hsession, hrejects⟩ := h
      have hops : ((Provider.handleRecv L ks p.arg data w).onBridge
          (·.tcpRecved p.id data.length)).bridge.ops = w.bridge.ops ++
            [(p.id, .recv), (p.id, .err), (p.id, .abort), (p.id, .recved data.length)] := by
        have hbridge := handleRecv_rejects (L := L) hl hsession hrejects
        show (Provider.handleRecv L ks p.arg data w).bridge.ops ++ _ = _
        rw [hbridge, lwipBridgeClose_ops hl.slots hp hacc]
        simp
      rw [invoked_of_ops _ hops]
      intro hall
      exact not_disciplined_rejected p.id data.length (hall _ (List.mem_singleton_self _))

/-- What the callbacks of one event of lwIP's do, from a state with links. -/
theorem invoked_disciplined {L : Lwip} {ks : Keystream} {s : System} (hl : Linked s.tunnel)
    {e : LwipEvent} {r : Provider.Tunnel × Option Returned}
    (hstep : lwipStep L (Provider.handlers L ks) s.tunnel e = some r) :
    (∀ v ∈ System.invoked s.bridge r.1.bridge r.2, v.Disciplined) ↔ Acceptable ks s (.lwip e) := by
  cases hl.effect hstep with
  | halfOpen => exact iff_of_true nofun trivial
  | accept p slot =>
    refine iff_of_true ?_ trivial
    intro v hv
    have hinvoked := invoked_of_ops _ (acceptInto_ops (b := s.bridge) p slot) p.id .ok
    obtain rfl := List.mem_singleton.mp (hinvoked ▸ hv)
    exact disciplined_of_no_abort (by simp)
  | acceptFailed => exact iff_of_true nofun trivial
  | @fin p c data err malloc hfin =>
    have hops : (((Provider.handlers L ks).close p.arg err s.tunnel).onBridge fun b =>
        ((b.dropNat c).detachAbort L p.id).clearConn p.arg).bridge.ops =
          s.bridge.ops ++ ([(p.id, .recv), (p.id, .err)] ++ [(p.id, .abort)]) := by
      show (((Provider.handleClose p.arg s.tunnel).bridge.dropNat c).detachAbort L p.id).ops = _
      rw [Bridge.detachAbort_ops, Provider.handleClose_bridge]
      rfl
    refine iff_of_true ?_ ?_
    · rw [invoked_of_ops _ hops]
      intro v hv
      obtain rfl := List.mem_singleton.mp hv
      exact disciplined_of_last (by simp)
    · match data, hfin with
      | none, _ => trivial
      | some _, hfin => exact fun herr => absurd (hfin.resolve_left nofun) (not_not.mpr herr)
  | data p d malloc hp hacc =>
    refine (invoked_data hl hp hacc d malloc).trans ⟨?_, fun hC hm => hC rfl hm p hp rfl⟩
    intro h _ hm q hq hid
    rw [hl.slots.eq_of_id hq hp hid]
    exact h hm
  | freed => exact iff_of_true nofun trivial
  | dropped => exact iff_of_true nofun trivial
  | sent => exact iff_of_true nofun trivial
  | emit => exact iff_of_true nofun trivial

/-! ## Runs -/

/-- One event of the tunnel keeps all callbacks disciplined exactly when its
data is acceptable. -/
theorem Disciplined.step {L : Lwip} {ks : Keystream} {s s' : System} (hl : Linked s.tunnel)
    (hd : Disciplined s) {e : SystemEvent} (hstep : s.step L ks e = some s') :
    Disciplined s' ↔ Acceptable ks s e := by
  have hsame (h : s'.invocations = s.invocations) : Disciplined s' := by
    unfold Disciplined
    rwa [h]
  cases System.effect hstep with
  | wsData => exact iff_of_true (hsame rfl) trivial
  | wsClose => exact iff_of_true (hsame rfl) trivial
  | stop => exact iff_of_true (hsame rfl) trivial
  | block => exact iff_of_true (hsame rfl) trivial
  | input => exact iff_of_true (hsame rfl) trivial
  | poll => exact iff_of_true (hsame rfl) trivial
  | done => exact iff_of_true (hsame rfl) trivial
  | lwip e r hlwip =>
    rw [← invoked_disciplined hl hlwip]
    unfold Disciplined
    simp only [List.forall_mem_append]
    exact and_iff_right hd

/-- A run of the tunnel keeps all callbacks disciplined exactly when no session
in a slot rejects the data it gets. -/
theorem disciplined_iff (L : Lwip) (ks : Keystream) (workerDomain : Option String)
    (events : List SystemEvent) :
    EveryState (System.step L ks) Disciplined (System.init workerDomain) events ↔
      EveryStep (System.step L ks) (Acceptable ks) (System.init workerDomain) events := by
  refine everyState_iff_everyStep (I := fun s => Linked s.tunnel) ?_ ?_ events _
    (linked_init workerDomain) nofun
  · intro s e s' hl hd hstep
    exact hd.step hl hstep
  · intro s e s' hl _ _ hstep
    exact (hl.step hstep).1

/-- A connection from 10.0.0.1:40000 to 149.154.167.51:443 whose first 64 bytes
are no init: the callback returns `ERR_OK` after a `tcp_recved` on the pcb that
was aborted. -/
theorem rejected_init :
    ¬ ∀ (L : Lwip) (ks : Keystream) (workerDomain : Option String) (events : List SystemEvent)
      (s : System),
      run (System.step L ks) (System.init workerDomain) events = some s → Disciplined s := by
  intro h
  have hrun : (run (System.step Lwip.ample fun _ _ _ => 0) (System.init none)
      (connection 0 (0x0A000001, 40000) (0x959AA733, 443) ++
        [.input (tcpPacket 0x18 (0x0A000001, 40000) (0x959AA733, 443) ++ List.replicate 64 0x11)
            true true,
          .lwip (.recv 0 (some (List.replicate 64 0x11)) 0 true)])).map (fun s => s.invocations) =
      some [⟨0, .ok, [(0, .arg), (0, .nagleDisable), (0, .recv), (0, .err), (0, .sent)]⟩,
        ⟨0, .ok, [(0, .recv), (0, .err), (0, .abort), (0, .recved 64)]⟩] := by
    decide +kernel
  obtain ⟨s, hs, hinvocations⟩ := Option.map_eq_some_iff.mp hrun
  refine not_disciplined_rejected 0 64 (h _ _ _ _ s hs _ ?_)
  rw [hinvocations]
  simp

end WSBridge
