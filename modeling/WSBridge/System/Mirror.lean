import WSBridge.System.Callbacks

/-!
# The dictionary and the slots

`PacketTunnelProvider.sessions` follows the slots of the bridge through
callbacks. They go one way: a connection the client or lwIP ends is reported to
`handleClose`, which takes its session out of the dictionary, while
`lwip_bridge_close` reports nothing, and a session that closes its own
connection stays in the dictionary until its slot is used again.

Results:
* `mirrors_iff`: until the tunnel stops, the dictionary has exactly the slots in
  use as long as no session closes its connection.
* `rejected_stays`: a session whose client sent no init stays in the dictionary.
-/

namespace WSBridge

open WSBridge.Foundation
open Provider (Tunnel)

/-- The dictionary has a session for each active slot, which is not dead, and no
other. -/
structure Mirrors (w : Tunnel) : Prop where
  entry : ∀ i, w.swift.sessions i ≠ none ↔ ∃ c, w.bridge.connOfId i = some c
  alive : ∀ i r, w.swift.sessions i = some r →
    ∃ o, w.swift.objects[r]? = some o ∧ o.session.dead = false

/-- No session closes its connection: none in a slot rejects its data, and a web
socket that closes finds its session dead or gone. -/
def KeepsOpen (ks : Keystream) (s : System) : SystemEvent → Prop
  | .lwip e => Acceptable ks s (.lwip e)
  | .block held => ∀ r queue session, s.tunnel.swift.queue = .wsClose r :: queue →
      s.tunnel.swift.weak held r = some session → session.dead = true
  | _ => True

section

variable {w w' : Tunnel} {slot : ℕ}

/-- Sessions in active slots are not dead. -/
theorem Linked.mirrors (hl : Linked w)
    (hentry : ∀ i, w.swift.sessions i ≠ none ↔ ∃ c, w.bridge.connOfId i = some c) :
    Mirrors w := by
  refine ⟨hentry, fun i r hr => ?_⟩
  obtain ⟨o, ho, -⟩ := hl.filed i r hr
  obtain ⟨c, hc⟩ := (hentry i).mp (by rw [hr]; exact nofun)
  exact ⟨o, ho, (hl.owner i r o hr ho c hc).2⟩

/-- Neither the dictionary nor the slots change. -/
theorem Mirrors.same (hm : Mirrors w) (hl' : Linked w')
    (hsessions : w'.swift.sessions = w.swift.sessions)
    (hconn : ∀ i, w'.bridge.connOfId i = w.bridge.connOfId i) : Mirrors w' := by
  refine hl'.mirrors fun i => ?_
  rw [hsessions, hconn]
  exact hm.entry i

/-- The slot of a connection is released, and its session taken out. -/
theorem Mirrors.ended (hm : Mirrors w) (hl' : Linked w')
    (hsessions : w'.swift.sessions = Function.update w.swift.sessions slot none)
    (hconn : ∀ i, w'.bridge.connOfId i = if i = slot then none else w.bridge.connOfId i) :
    Mirrors w' := by
  refine hl'.mirrors fun i => ?_
  rw [hsessions, hconn]
  by_cases hi : i = slot
  · subst hi
    rw [Function.update_self, if_pos rfl]
    exact iff_of_false (absurd rfl) nofun
  · rw [Function.update_of_ne hi, if_neg hi]
    exact hm.entry i

/-- The slot of a connection is released, but its session stays. -/
theorem Mirrors.not_released (hm : Mirrors w)
    (hsessions : w'.swift.sessions = w.swift.sessions)
    (hactive : ∃ c, w.bridge.connOfId slot = some c)
    (hreleased : w'.bridge.connOfId slot = none) : ¬ Mirrors w' := by
  intro hm'
  have hfiled := (hm.entry slot).mpr hactive
  rw [← hsessions] at hfiled
  obtain ⟨c, hc⟩ := (hm'.entry slot).mp hfiled
  rw [hreleased] at hc
  cases hc

/-- A connection gets a slot, and a session under its number. -/
theorem Mirrors.accepted (hm : Mirrors w) (hl' : Linked w') {r : ℕ} {c : Conn}
    (hsessions : w'.swift.sessions = Function.update w.swift.sessions slot (some r))
    (hconn : ∀ i, w'.bridge.connOfId i = if i = slot then some c else w.bridge.connOfId i) :
    Mirrors w' := by
  refine hl'.mirrors fun i => ?_
  rw [hsessions, hconn]
  by_cases hi : i = slot
  · subst hi
    rw [Function.update_self, if_pos rfl]
    exact iff_of_true nofun ⟨c, rfl⟩
  · rw [Function.update_of_ne hi, if_neg hi]
    exact hm.entry i

end

/-! ## The handlers of the provider -/

section

variable {L : Lwip} {ks : Keystream} {w : Tunnel} {r : ℕ} {o : SessionObject}

/-- The calls of a session leave the dictionary and the queue alone. -/
theorem Provider.perform_tables (r : ℕ) (effects : List Effect) (w : Tunnel) :
    (Provider.perform L r effects w).swift.sessions = w.swift.sessions ∧
      (Provider.perform L r effects w).swift.queue = w.swift.queue := by
  induction effects generalizing w with
  | nil => exact ⟨rfl, rfl⟩
  | cons e effects ih =>
    cases e with
    | bridgeClose slot => exact ih (Provider.bridgeClose L r slot w)
    | connect | startPipe | send | wsClose => exact ih w

/-- So does a handler that only writes, and the slots too. -/
theorem Provider.writing_tables {session : TunnelSession}
    {f : (Bytes → Tunnel → Bool × Tunnel) → TunnelSession.Down Tunnel → TunnelSession.Down Tunnel}
    (hf : ∀ u, Provider.Wrote L w r session.connId u.world →
      TunnelSession.OnlyWrites (Provider.Wrote L w r session.connId) u
        (f (Provider.bridgeWrite L r session.connId) u)) :
    (Provider.writing L w r session f).swift.sessions = w.swift.sessions ∧
      (Provider.writing L w r session f).swift.queue = w.swift.queue ∧
      ∀ i, (Provider.writing L w r session f).bridge.connOfId i = w.bridge.connOfId i := by
  obtain ⟨x, pending, log, hx, heq⟩ := Provider.writing_spec hf
  obtain ⟨calls, hswift, -⟩ := hx.swift
  rw [heq]
  refine ⟨?_, ?_, hx.quiet.connOfId⟩
  · show x.swift.sessions = _
    rw [hswift]
  · show x.swift.queue = _
    rw [hswift]

theorem Provider.handleSent_tables (slot : ℕ) (w : Tunnel) :
    (Provider.handleSent L slot w).swift.sessions = w.swift.sessions ∧
      (Provider.handleSent L slot w).swift.queue = w.swift.queue ∧
      ∀ i, (Provider.handleSent L slot w).bridge.connOfId i = w.bridge.connOfId i := by
  unfold Provider.handleSent
  split
  · exact Provider.writing_tables fun u hu =>
      TunnelSession.handleSent_onlyWrites (fun data x hx => hx.write data) u hu
  · exact ⟨rfl, rfl, fun _ => rfl⟩

theorem Provider.handleRecv_tables (slot : ℕ) (data : Bytes) (w : Tunnel) :
    (Provider.handleRecv L ks slot data w).swift.sessions = w.swift.sessions ∧
      (Provider.handleRecv L ks slot data w).swift.queue = w.swift.queue := by
  unfold Provider.handleRecv
  split
  · exact Provider.perform_tables _ _ _
  · exact ⟨rfl, rfl⟩

theorem Provider.wsData_tables (held : Bool) (w : Tunnel) (r : ℕ) (data : Bytes) :
    (Provider.runBlock L held w (.wsData r data)).swift.sessions = w.swift.sessions ∧
      (Provider.runBlock L held w (.wsData r data)).swift.queue = w.swift.queue ∧
      ∀ i, (Provider.runBlock L held w (.wsData r data)).bridge.connOfId i =
        w.bridge.connOfId i := by
  unfold Provider.runBlock
  dsimp only
  split
  · exact Provider.writing_tables fun u hu =>
      TunnelSession.wsDataBlock_onlyWrites (fun data x hx => hx.write data) u data hu
  · exact ⟨rfl, rfl, fun _ => rfl⟩

theorem Provider.runBlock_queue (held : Bool) (w : Tunnel) (block : Block) :
    (Provider.runBlock L held w block).swift.queue = w.swift.queue := by
  cases block with
  | wsData r data => exact (Provider.wsData_tables held w r data).2.1
  | wsClose r =>
    unfold Provider.runBlock
    dsimp only
    split
    · exact (Provider.perform_tables _ _ _).2
    · rfl
  | stop => rfl

/-- Whatever lwIP does, the queue stays. -/
theorem lwipStep_queue (hl : Linked w) {e : LwipEvent} {x : Tunnel × Option Returned}
    (hstep : lwipStep L (Provider.handlers L ks) w e = some x) :
    x.1.swift.queue = w.swift.queue := by
  cases hl.effect hstep with
  | halfOpen => rfl
  | accept => rfl
  | acceptFailed => rfl
  | fin p => exact (hl.handleClose_swift p.arg).2.2.1
  | data p d malloc =>
    cases malloc with
    | false => rfl
    | true => exact (Provider.handleRecv_tables p.arg d w).2
  | freed p => exact (hl.handleClose_swift p.arg).2.2.1
  | dropped => rfl
  | sent p => exact (Provider.handleSent_tables p.arg _).2.1
  | emit => rfl

/-- Client data for a slot keeps the tables in step unless its session rejects
the data. -/
theorem Mirrors.recv_iff (hm : Mirrors w) (hl : Linked w) {slot : ℕ} (data : Bytes)
    (hactive : ∃ c, w.bridge.connOfId slot = some c) :
    Mirrors (Provider.handleRecv L ks slot data w) ↔
      ∀ r session, w.swift.session? slot = some (r, session) → ¬ session.Rejects ks data := by
  obtain ⟨hl', -⟩ := hl.recv L ks slot data hactive
  have hsessions : (Provider.handleRecv L ks slot data w).swift.sessions = w.swift.sessions :=
    (Provider.handleRecv_tables slot data w).1
  by_cases h : ∀ r session, w.swift.session? slot = some (r, session) → ¬ session.Rejects ks data
  · refine iff_of_true (hm.same hl' hsessions fun i => ?_) h
    rw [handleRecv_bridge hl h]
  · refine iff_of_false ?_ h
    simp only [not_forall, not_not] at h
    obtain ⟨r, session, hsession, hrejects⟩ := h
    refine hm.not_released hsessions hactive ?_
    rw [handleRecv_rejects hl hsession hrejects, lwipBridgeClose_connOfId hl.slots, if_pos rfl]

/-- The block of the end of a web socket keeps them in step unless its session
is still alive. -/
theorem Mirrors.wsClose_iff (hm : Mirrors w) (hl : Linked w) (held : Bool)
    (hknown : w.swift.Known (.wsClose r)) :
    Mirrors (Provider.runBlock L held w (.wsClose r)) ↔
      ∀ session, w.swift.weak held r = some session → session.dead = true := by
  obtain ⟨hl', -⟩ := hl.wsClose L held hknown
  unfold Provider.runBlock at hl' ⊢
  dsimp only at hl' ⊢
  split
  · rename_i session hweak
    rw [hweak] at hl'
    dsimp only at hl'
    obtain ⟨o, ho, rfl⟩ := Provider.weak_eq_some hweak
    by_cases hdead : o.session.dead = true
    · have hskip : o.session.wsCloseBlock = (o.session, []) := if_pos hdead
      rw [hskip] at hl' ⊢
      refine iff_of_true (hm.same hl' rfl fun _ => rfl) ?_
      rintro session hsession
      obtain rfl := Option.some.inj (hweak.symm.trans hsession)
      exact hdead
    · have hclose : o.session.wsCloseBlock =
          ({ o.session with dead := true }, [.bridgeClose o.session.connId]) := if_neg hdead
      obtain ⟨-, hactive, -⟩ := hl.in_slot ho (eq_false_of_ne_true hdead) hknown
      rw [hclose]
      refine iff_of_false (hm.not_released rfl hactive ?_) fun h => hdead (h _ hweak)
      show (w.bridge.lwipBridgeClose L o.session.connId).connOfId o.session.connId = none
      rw [lwipBridgeClose_connOfId hl.slots, if_pos rfl]
  · rename_i hweak
    refine iff_of_true hm fun session hsession => ?_
    rw [hweak] at hsession
    cases hsession

/-- What lwIP does keeps the tables in step unless a session rejects its
data. -/
theorem Mirrors.lwip_iff {s : System} (hm : Mirrors s.tunnel) (hl : Linked s.tunnel)
    {e : LwipEvent} {x : Tunnel × Option Returned}
    (hstep : lwipStep L (Provider.handlers L ks) s.tunnel e = some x) :
    Mirrors x.1 ↔ KeepsOpen ks s (.lwip e) := by
  obtain ⟨hl', -⟩ := hl.lwip hstep
  have hended (p : Pcb) (f : Bridge → Bridge)
      (hl' : Linked ((Provider.handleClose p.arg s.tunnel).onBridge f))
      (hconn : ∀ i, (f s.tunnel.bridge).connOfId i =
        if i = p.arg then none else s.tunnel.bridge.connOfId i) :
      Mirrors ((Provider.handleClose p.arg s.tunnel).onBridge f) := by
    obtain ⟨-, hsessions, -⟩ := hl.handleClose_swift p.arg
    rw [Provider.handleClose_onBridge] at hl' ⊢
    exact hm.ended hl' hsessions hconn
  cases hl.effect hstep with
  | halfOpen given unclaimed => exact iff_of_true (hm.same hl' rfl fun _ => rfl) trivial
  | accept p slot hphase hp hhalf hslot =>
    obtain ⟨c₀, hc₀, -⟩ := findIdx?_inactive hslot
    have hlt := (List.getElem?_eq_some_iff.mp hc₀).1
    exact iff_of_true (hm.accepted hl' rfl fun i =>
      (accepted_acceptInto s.tunnel.bridge p slot).connOfId hlt i) trivial
  | acceptFailed => exact iff_of_true hm trivial
  | @fin p c data err malloc hfin hp hacc htorn =>
    refine iff_of_true (hended p (fun b =>
      ((b.dropNat c).detachAbort L p.id).clearConn p.arg) hl' htorn.connOfId) ?_
    match data, hfin with
    | none, _ => trivial
    | some _, hfin => exact fun herr => absurd (hfin.resolve_left nofun) (not_not.mpr herr)
  | data p d malloc hp hacc =>
    obtain ⟨c, hc, -⟩ := hl.slots.connOfId hp hacc
    have hkeeps : KeepsOpen ks s (.lwip (.recv p.id (some d) 0 malloc)) ↔
        (malloc = true → ∀ r session, s.tunnel.swift.session? p.arg = some (r, session) →
          ¬ session.Rejects ks d) := by
      refine ⟨fun h hmalloc => h rfl hmalloc p hp rfl, fun h _ hmalloc q hq hid => ?_⟩
      rw [hl.slots.eq_of_id hq hp hid]
      exact h hmalloc
    rw [hkeeps]
    cases malloc with
    | false => exact iff_of_true (hm.same hl' rfl fun _ => rfl) nofun
    | true =>
      obtain ⟨hl₀, -⟩ := hl.recv L ks p.arg d ⟨c, hc⟩
      have hsame : Mirrors ((Provider.handleRecv L ks p.arg d s.tunnel).onBridge
          (·.tcpRecved p.id d.length)) ↔ Mirrors (Provider.handleRecv L ks p.arg d s.tunnel) :=
        ⟨fun h => h.same hl₀ rfl fun _ => rfl, fun h => h.same hl' rfl fun _ => rfl⟩
      exact (hsame.trans (hm.recv_iff hl d ⟨c, hc⟩)).trans ⟨fun h _ => h, fun h => h rfl⟩
  | freed p c hp hacc htorn =>
    exact iff_of_true (hended p (fun b =>
      ((b.dropNat c).clearConn p.arg).freePcb p.id) hl' htorn.connOfId) trivial
  | dropped p hp hhalf => exact iff_of_true (hm.same hl' rfl fun _ => rfl) trivial
  | sent p len hp hacc =>
    obtain ⟨hsessions, -, hconn⟩ := Provider.handleSent_tables (L := L) p.arg
      (s.tunnel.onBridge (·.onPcb p.id fun p => { p with queued := p.queued - len }))
    exact iff_of_true (hm.same hl' hsessions hconn) trivial
  | emit p packet => exact iff_of_true (hm.same hl' rfl fun _ => rfl) trivial

end

/-! ## Runs -/

/-- The tunnel has not been told to stop. -/
def Running (s : System) : Prop := Linked s.tunnel ∧ Block.stop ∉ s.tunnel.swift.queue

section

variable {L : Lwip} {ks : Keystream} {s s' : System}

theorem Running.step (hr : Running s) {e : SystemEvent} (he : e ≠ .stop)
    (hstep : s.step L ks e = some s') : Running s' := by
  obtain ⟨hl, hqueue⟩ := hr
  refine ⟨(hl.step hstep).1, ?_⟩
  have hposted {block : Block} (hne : Block.stop ≠ block) :
      Block.stop ∉ s.tunnel.swift.queue ++ [block] := by
    intro hmem
    rcases List.mem_append.mp hmem with hmem | hmem
    · exact hqueue hmem
    · exact hne (List.mem_singleton.mp hmem)
  cases System.effect hstep with
  | stop => exact absurd rfl he
  | wsData => exact hposted nofun
  | wsClose => exact hposted nofun
  | block held block queue hq =>
    rw [hq] at hqueue
    show Block.stop ∉
      (Provider.runBlock L held { s.tunnel with swift.queue := queue } block).swift.queue
    rw [Provider.runBlock_queue]
    exact fun hmem => hqueue (List.mem_cons_of_mem _ hmem)
  | input => exact hqueue
  | poll => exact hqueue
  | done => exact hqueue
  | lwip e x hlwip =>
    rw [show _ = _ from lwipStep_queue hl hlwip]
    exact hqueue

/-- One event keeps the dictionary and the slots in step exactly when no session
closes its connection. -/
theorem Mirrors.step (hm : Mirrors s.tunnel) (hr : Running s) {e : SystemEvent} (he : e ≠ .stop)
    (hstep : s.step L ks e = some s') : Mirrors s'.tunnel ↔ KeepsOpen ks s e := by
  obtain ⟨hl, hqueue⟩ := hr
  obtain ⟨hl', -⟩ := hl.step hstep
  cases System.effect hstep with
  | stop => exact absurd rfl he
  | wsData => exact iff_of_true (hm.same hl' rfl fun _ => rfl) trivial
  | wsClose => exact iff_of_true (hm.same hl' rfl fun _ => rfl) trivial
  | block held block queue hq =>
    obtain ⟨hpop, hknown⟩ := hl.pop hq
    have hm' : Mirrors { s.tunnel with swift.queue := queue } := hm.same hpop rfl fun _ => rfl
    cases block with
    | wsData r data =>
      obtain ⟨hsessions, -, hconn⟩ := Provider.wsData_tables (L := L) held
        { s.tunnel with swift.queue := queue } r data
      refine iff_of_true (hm'.same hl' hsessions hconn) ?_
      intro r' queue' session hq'
      rw [hq] at hq'
      cases (List.cons.inj hq').1
    | wsClose r =>
      refine (hm'.wsClose_iff hpop held hknown).trans
        ⟨?_, fun h session hsession => h r queue session hq hsession⟩
      intro h r' queue' session hq' hsession
      rw [hq] at hq'
      obtain ⟨hr', -⟩ := List.cons.inj hq'
      obtain rfl := Block.wsClose.inj hr'
      exact h session hsession
    | stop =>
      rw [hq] at hqueue
      exact absurd List.mem_cons_self hqueue
  | input data malloc pbuf hrest =>
    refine iff_of_true (hm.same hl' rfl fun i => ?_) trivial
    cases input_effect (L := L) hrest data malloc pbuf with
    | quiet _ h => exact h.connOfId i
    | input _ _ h => exact congrArg (·[i]?.filter (·.active)) h.conns
  | poll => exact iff_of_true (hm.same hl' rfl fun _ => rfl) trivial
  | done => exact iff_of_true (hm.same hl' rfl fun _ => rfl) trivial
  | lwip e x hlwip => exact hm.lwip_iff hl hlwip

end

/-- Until the tunnel is told to stop, the dictionary has exactly the slots in use
as long as no session closes its connection. -/
theorem mirrors_iff (L : Lwip) (ks : Keystream) (workerDomain : Option String)
    (events : List SystemEvent) (hrun : .stop ∉ events) :
    EveryState (System.step L ks) (fun s => Mirrors s.tunnel) (System.init workerDomain) events ↔
      EveryStep (System.step L ks) (KeepsOpen ks) (System.init workerDomain) events := by
  refine everyState_iff_everyStep_of (I := Running) (Q := (· ≠ .stop)) ?_ ?_ events _ ?_
    ⟨linked_init workerDomain, nofun⟩ ?_
  · intro s e s' he hr hm hstep
    exact hm.step hr he hstep
  · intro s e s' he hr _ _ hstep
    exact hr.step he hstep
  · rintro e he rfl
    exact hrun he
  · refine (linked_init workerDomain).mirrors fun i => iff_of_false (absurd rfl) ?_
    rintro ⟨c, hc⟩
    obtain ⟨hslot, hactive⟩ := Bridge.connOfId_eq_some.mp hc
    have hidle := List.eq_of_mem_replicate (List.mem_of_getElem? hslot)
    rw [hidle] at hactive
    cases hactive

/-- A run that does not stop: one connection is opened. -/
theorem mirrors_iff_connection :
    SystemEvent.stop ∉ connection 0 (0x0A000001, 40000) (0x959AA733, 443) ∧
      (EveryState (System.step Lwip.ample fun _ _ _ => 0) (fun s => Mirrors s.tunnel)
          (System.init none) (connection 0 (0x0A000001, 40000) (0x959AA733, 443)) ↔
        EveryStep (System.step Lwip.ample fun _ _ _ => 0) (KeepsOpen fun _ _ _ => 0)
          (System.init none) (connection 0 (0x0A000001, 40000) (0x959AA733, 443))) :=
  ⟨by simp [connection], mirrors_iff _ _ _ _ (by simp [connection])⟩

/-- A connection from 10.0.0.1:40000 to 149.154.167.51:443 whose first 64 bytes
are no init: its slot is free again, and its session stays. -/
theorem rejected_stays :
    ¬ ∀ (L : Lwip) (ks : Keystream) (workerDomain : Option String) (events : List SystemEvent)
      (s : System), .stop ∉ events →
      run (System.step L ks) (System.init workerDomain) events = some s →
        s.bridge.phase = .rest → Mirrors s.tunnel := by
  intro h
  have hrun : (run (System.step Lwip.ample fun _ _ _ => 0) (System.init none)
      (connection 0 (0x0A000001, 40000) (0x959AA733, 443) ++
        [.input (tcpPacket 0x18 (0x0A000001, 40000) (0x959AA733, 443) ++ List.replicate 64 0x11)
            true true,
          .lwip (.recv 0 (some (List.replicate 64 0x11)) 0 true), .done])).map
        (fun s => (s.bridge.phase, s.tunnel.swift.sessions 0, s.bridge.connOfId 0)) =
      some (.rest, some 0, none) := by
    decide +kernel
  obtain ⟨s, hs, heq⟩ := Option.map_eq_some_iff.mp hrun
  obtain ⟨hrest, heq⟩ := Prod.mk.inj heq
  obtain ⟨hfiled, hfree⟩ := Prod.mk.inj heq
  have hm := h _ _ _ _ s (by simp [connection]) hs hrest
  obtain ⟨c, hc⟩ := (hm.entry 0).mp (by rw [hfiled]; exact nofun)
  exact nomatch hfree.symm.trans hc

end WSBridge
