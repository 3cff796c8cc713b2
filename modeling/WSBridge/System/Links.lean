import WSBridge.System.Provider
import WSBridge.Session.Calls
import WSBridge.Bridge.Slots

/-!
# Slots, sessions and blocks

What the handlers of the tunnel do to its tables, and the invariant that ties
the slots of the bridge, the dictionary `sessions` and the flags of the
sessions together.

Results:
* `Linked.step`: the links hold in every reachable state of the tunnel.
* `system_reaches`: every run of the tunnel is a run of the bridge, so that what
  holds in every run of the bridge holds in the tunnel.
-/

namespace WSBridge

open WSBridge.Foundation

/-! ## The bridge of the tunnel -/

/-- Events of the bridge lead from `b` to `b'`. -/
def Bridge.Reaches (L : Lwip) (b b' : Bridge) : Prop := ∃ es, run (Bridge.step L) b es = some b'

section

variable {L : Lwip} {b b' b'' : Bridge}

theorem Bridge.Reaches.refl (b : Bridge) : b.Reaches L b := ⟨[], rfl⟩

theorem Bridge.Reaches.of_step {e : BridgeEvent} (h : b.step L e = some b') : b.Reaches L b' :=
  ⟨[e], run_cons_eq_some.mpr ⟨b', h, rfl⟩⟩

theorem Bridge.Reaches.trans (h : b.Reaches L b') (h' : b'.Reaches L b'') : b.Reaches L b'' := by
  obtain ⟨es, hes⟩ := h
  obtain ⟨fs, hfs⟩ := h'
  refine ⟨es ++ fs, ?_⟩
  rw [run_append, hes]
  exact hfs

theorem Bridge.Reaches.slots (h : b.Reaches L b') (hs : Slots b) : Slots b' := by
  obtain ⟨es, hes⟩ := h
  exact invariant_run (fun _ _ _ hs hstep => slots_step hs hstep) es b b' hs hes

theorem Quiet.refl (b : Bridge) : Quiet b b := ⟨rfl, rfl, rfl, rfl, rfl, rfl⟩

theorem Quiet.trans (h : Quiet b b') (h' : Quiet b' b'') : Quiet b b'' :=
  ⟨h'.nat.trans h.nat, h'.conns.trans h.conns, h'.pcbs.trans h.pcbs, h'.nextPcb.trans h.nextPcb,
    h'.phase.trans h.phase, h'.out.trans h.out⟩

theorem Quiet.connOfId (h : Quiet b b') (i : ℕ) : b'.connOfId i = b.connOfId i := by
  unfold Bridge.connOfId
  rw [h.conns]

theorem Quiet.holder (h : Quiet b b') (i : ℕ) : b'.holder i = b.holder i := by
  unfold Bridge.holder
  rw [h.connOfId]

/-- A call on an inactive slot has no effect. -/
theorem lwipBridgeWrite_inactive {slot : ℕ} (h : b.holder slot = none) (data : Bytes) :
    b.lwipBridgeWrite L slot data = (false, b) := by
  unfold Bridge.lwipBridgeWrite
  rw [show (b.connOfId slot).bind (·.pcb) = none from h]

theorem lwipBridgeClose_inactive {slot : ℕ} (h : b.connOfId slot = none) :
    b.lwipBridgeClose L slot = b := by
  unfold Bridge.lwipBridgeClose
  rw [h]

/-- A close releases its slot and no other. -/
theorem lwipBridgeClose_connOfId (hs : Slots b) (slot i : ℕ) :
    (b.lwipBridgeClose L slot).connOfId i = if i = slot then none else b.connOfId i := by
  cases close_effect (L := L) hs slot with
  | quiet hpass h =>
    have hnone : b.connOfId slot = none := hpass
    rw [h.connOfId]
    split_ifs with hi
    · rw [hi, hnone]
    · rfl
  | close h => exact h.connOfId i

end

/-! ## Handlers of the tunnel -/

namespace Provider

open TunnelSession (Harmless OnlyWrites Down)

/-- The session `r` has only written to its slot since `w`. -/
structure Wrote (L : Lwip) (w : Tunnel) (r slot : ℕ) (x : Tunnel) : Prop where
  quiet : Quiet w.bridge x.bridge
  reaches : w.bridge.Reaches L x.bridge
  swift : ∃ calls, x.swift = { w.swift with calls := w.swift.calls ++ calls } ∧
    ∀ call ∈ calls, call.session = r ∧ call.holder = w.bridge.holder slot

section

variable {L : Lwip} {w : Tunnel} {r slot : ℕ}

theorem Wrote.refl (w : Tunnel) : Wrote L w r slot w :=
  ⟨Quiet.refl _, .refl _, [], by simp, nofun⟩

theorem Wrote.write {x : Tunnel} (h : Wrote L w r slot x) (data : Bytes) :
    Wrote L w r slot (bridgeWrite L r slot data x).2 := by
  obtain ⟨calls, hswift, hcalls⟩ := h.swift
  have hquiet := lwipBridgeWrite_quiet L x.bridge slot data
  have hstep : x.bridge.step L (.write slot data) = some (x.bridge.lwipBridgeWrite L slot data).2 :=
    rfl
  refine ⟨h.quiet.trans hquiet, h.reaches.trans (.of_step hstep),
    calls ++ [⟨r, .write data, x.bridge.holder slot⟩], ?_, ?_⟩
  · have hrecord : (bridgeWrite L r slot data x).2.swift =
        { x.swift with calls := x.swift.calls ++ [⟨r, .write data, x.bridge.holder slot⟩] } := rfl
    rw [hrecord, hswift]
    simp
  · intro call hcall
    rcases List.mem_append.mp hcall with hcall | hcall
    · exact hcalls call hcall
    · obtain rfl := List.mem_singleton.mp hcall
      exact ⟨rfl, h.quiet.holder slot⟩

/-- What a handler that writes does to the tunnel. -/
theorem writing_spec {session : TunnelSession}
    {f : (Bytes → Tunnel → Bool × Tunnel) → Down Tunnel → Down Tunnel}
    (hf : ∀ u, Wrote L w r session.connId u.world →
      OnlyWrites (Wrote L w r session.connId) u (f (bridgeWrite L r session.connId) u)) :
    ∃ x pending log, Wrote L w r session.connId x ∧
      writing L w r session f = update x r { session with pending } log := by
  obtain ⟨hworld, pending, hsession⟩ := hf ⟨session, w.swift.log, w⟩ (.refl w)
  refine ⟨_, pending, (f (bridgeWrite L r session.connId) ⟨session, w.swift.log, w⟩).log,
    hworld, ?_⟩
  unfold writing
  dsimp only
  rw [hsession]

theorem perform_harmless {effects : List Effect} (h : Harmless effects) :
    perform L r effects w = w := by
  induction effects with
  | nil => rfl
  | cons e effects ih =>
    have hrest : Harmless effects := fun slot hmem => h slot (List.mem_cons_of_mem _ hmem)
    cases e with
    | bridgeClose slot => exact absurd List.mem_cons_self (h slot)
    | connect | startPipe | send | wsClose => exact ih hrest

end

theorem session?_eq_some {p : Provider} {slot r : ℕ} {session : TunnelSession}
    (h : p.session? slot = some (r, session)) :
    p.sessions slot = some r ∧ ∃ o, p.objects[r]? = some o ∧ o.session = session := by
  obtain ⟨r', hr', h⟩ := Option.bind_eq_some_iff.mp h
  obtain ⟨o, ho, heq⟩ := Option.map_eq_some_iff.mp h
  obtain ⟨rfl, rfl⟩ := Prod.mk.inj heq
  exact ⟨hr', o, ho, rfl⟩

end Provider

/-! ## The invariant -/

open Provider (Tunnel)

/-- A block belongs to a session that has, or had, a web socket. -/
def Provider.Known (p : Provider) : Block → Prop
  | .wsData r _ | .wsClose r =>
    ∃ o, p.objects[r]? = some o ∧ (o.session.ws = true ∨ o.session.dead = true)
  | .stop => True

/-- The slots, the dictionary, the sessions and the queue fit together. -/
structure Linked (w : Tunnel) : Prop where
  slots : Slots w.bridge
  filed : ∀ i r, w.swift.sessions i = some r → ∃ o, w.swift.objects[r]? = some o ∧
    o.session.connId = i
  owner : ∀ i r o, w.swift.sessions i = some r → w.swift.objects[r]? = some o →
    ∀ c, w.bridge.connOfId i = some c → c.pcb = o.owner ∧ o.session.dead = false
  live : ∀ r o, w.swift.objects[r]? = some o → o.session.dead = false → o.session.ws = true →
    w.swift.sessions o.session.connId = some r ∧ ∃ c, w.bridge.connOfId o.session.connId = some c
  coherent : ∀ (r : ℕ) (o : SessionObject), w.swift.objects[r]? = some o → o.session.Coherent
  known : ∀ block ∈ w.swift.queue, w.swift.Known block
  calls : ∀ call ∈ w.swift.calls, ∃ o, w.swift.objects[call.session]? = some o ∧
    (call.holder = none ∨ call.holder = o.owner)

/-- The session `r` becomes `session`, and the bridge changes at its slot at
most. -/
structure Changes (w w' : Tunnel) (r : ℕ) (o : SessionObject) (session : TunnelSession) : Prop where
  slots : Slots w'.bridge
  found : w.swift.objects[r]? = some o
  objects : w'.swift.objects = w.swift.objects.modify r fun o => { o with session }
  sessions : w'.swift.sessions = w.swift.sessions
  queue : w'.swift.queue = w.swift.queue
  connId : session.connId = o.session.connId
  opened : o.session.ws = true ∨ o.session.dead = true → session.ws = true ∨ session.dead = true
  coherent : session.Coherent
  calls : ∃ calls, w'.swift.calls = w.swift.calls ++ calls ∧
    ∀ call ∈ calls, call.session = r ∧ (call.holder = none ∨ call.holder = o.owner)
  others : ∀ i, i ≠ session.connId → w'.bridge.connOfId i = w.bridge.connOfId i

section

variable {w w' : Tunnel} {r : ℕ} {o : SessionObject} {session : TunnelSession}

theorem Changes.object (h : Changes w w' r o session) (k : ℕ) :
    w'.swift.objects[k]? = if k = r then some { o with session } else w.swift.objects[k]? := by
  rw [h.objects]
  split_ifs with hk
  · rw [hk, List.getElem?_modify_eq, h.found]
    rfl
  · exact List.getElem?_modify_ne _ _ (Ne.symm hk)

/-- A change of one session keeps the links when its slot and its flags agree
afterwards. -/
theorem Linked.change (hl : Linked w) (session : TunnelSession) (h : Changes w w' r o session)
    (hslot : w'.bridge.connOfId session.connId = w.bridge.connOfId session.connId ∨
      w'.bridge.connOfId session.connId = none ∧ w.swift.sessions session.connId = some r)
    (hdead : ∀ c, w'.bridge.connOfId session.connId = some c →
      w.swift.sessions session.connId = some r → session.dead = false)
    (hlive : session.dead = false → session.ws = true →
      w.swift.sessions session.connId = some r ∧ ∃ c, w'.bridge.connOfId session.connId = some c) :
    Linked w' := by
  have hsame (i : ℕ) (c : Conn) (hc : w'.bridge.connOfId i = some c) :
      w.bridge.connOfId i = some c := by
    by_cases hi : i = session.connId
    · subst hi
      rcases hslot with hslot | ⟨hnone, -⟩
      · rwa [hslot] at hc
      · rw [hnone] at hc
        cases hc
    · rwa [h.others i hi] at hc
  refine ⟨h.slots, ?_, ?_, ?_, ?_, ?_, ?_⟩
  · intro i k hk
    rw [h.sessions] at hk
    obtain ⟨o', ho', hid⟩ := hl.filed i k hk
    rw [h.object]
    split_ifs with hkr
    · subst hkr
      obtain rfl := Option.some.inj (h.found.symm.trans ho')
      exact ⟨_, rfl, h.connId.trans hid⟩
    · exact ⟨o', ho', hid⟩
  · intro i k o' hk ho' c hc
    rw [h.sessions] at hk
    rw [h.object] at ho'
    have hc' := hsame i c hc
    split_ifs at ho' with hkr
    · subst hkr
      obtain rfl := Option.some.inj ho'
      obtain ⟨o₀, ho₀, hid⟩ := hl.filed i k hk
      obtain rfl := Option.some.inj (h.found.symm.trans ho₀)
      have hi : i = session.connId := hid.symm.trans h.connId.symm
      subst hi
      exact ⟨(hl.owner _ k o hk h.found c hc').1, hdead c hc hk⟩
    · exact hl.owner i k o' hk ho' c hc'
  · intro k o' ho' halive hws
    rw [h.sessions]
    rw [h.object] at ho'
    split_ifs at ho' with hkr
    · subst hkr
      obtain rfl := Option.some.inj ho'
      exact hlive halive hws
    · obtain ⟨hfiled, c, hc⟩ := hl.live k o' ho' halive hws
      refine ⟨hfiled, c, ?_⟩
      by_cases hi : o'.session.connId = session.connId
      · rw [hi] at hc hfiled ⊢
        rcases hslot with hslot | ⟨-, hr⟩
        · rwa [hslot]
        · exact absurd (Option.some.inj (hfiled.symm.trans hr)) hkr
      · rwa [h.others _ hi]
  · intro k o' ho'
    rw [h.object] at ho'
    split_ifs at ho' with hkr
    · obtain rfl := Option.some.inj ho'
      exact h.coherent
    · exact hl.coherent k o' ho'
  · have hknown (k : ℕ) (hk : ∃ o', w.swift.objects[k]? = some o' ∧
        (o'.session.ws = true ∨ o'.session.dead = true)) :
        ∃ o', w'.swift.objects[k]? = some o' ∧ (o'.session.ws = true ∨ o'.session.dead = true) := by
      obtain ⟨o', ho', hopen⟩ := hk
      rw [h.object]
      split_ifs with hkr
      · subst hkr
        obtain rfl := Option.some.inj (h.found.symm.trans ho')
        exact ⟨_, rfl, h.opened hopen⟩
      · exact ⟨o', ho', hopen⟩
    intro block hblock
    rw [h.queue] at hblock
    match block, hl.known block hblock with
    | .wsData k _, hk => exact hknown k hk
    | .wsClose k, hk => exact hknown k hk
    | .stop, _ => trivial
  · intro call hcall
    obtain ⟨calls, heq, hcalls⟩ := h.calls
    rw [heq] at hcall
    rw [h.object]
    rcases List.mem_append.mp hcall with hcall | hcall
    · obtain ⟨o', ho', hholder⟩ := hl.calls call hcall
      split_ifs with hkr
      · rw [hkr] at ho'
        obtain rfl := Option.some.inj (h.found.symm.trans ho')
        exact ⟨_, rfl, hholder⟩
      · exact ⟨o', ho', hholder⟩
    · obtain ⟨hr, hholder⟩ := hcalls call hcall
      rw [if_pos hr]
      exact ⟨_, rfl, hholder⟩

/-! ## One event -/

/-- The session of a slot was made for the connection in it. -/
theorem Linked.holder (hl : Linked w) {i : ℕ} (hr : w.swift.sessions i = some r)
    (ho : w.swift.objects[r]? = some o) :
    w.bridge.holder i = none ∨ w.bridge.holder i = o.owner := by
  unfold Bridge.holder
  cases hc : w.bridge.connOfId i with
  | none => exact Or.inl rfl
  | some c => exact Or.inr (hl.owner i r o hr ho c hc).1

theorem Linked.bridge (hl : Linked w) {b : Bridge} (hs : Slots b)
    (hconn : ∀ i, b.connOfId i = w.bridge.connOfId i) : Linked ⟨w.swift, b⟩ := by
  refine ⟨hs, hl.filed, ?_, ?_, hl.coherent, hl.known, hl.calls⟩
  · intro i r o hr ho c hc
    exact hl.owner i r o hr ho c ((hconn i).symm.trans hc)
  · intro r o ho halive hws
    obtain ⟨hfiled, c, hc⟩ := hl.live r o ho halive hws
    exact ⟨hfiled, c, (hconn _).trans hc⟩

theorem Linked.queue (hl : Linked w) {queue : List Block}
    (hknown : ∀ block ∈ queue, w.swift.Known block) : Linked { w with swift.queue := queue } :=
  ⟨hl.slots, hl.filed, hl.owner, hl.live, hl.coherent, hknown, hl.calls⟩

/-- A handler that only writes to a slot in which no other connection is. -/
theorem Linked.writing (hl : Linked w) {L : Lwip} (ho : w.swift.objects[r]? = some o)
    (hws : o.session.dead = false → o.session.ws = true)
    (hholder : w.bridge.holder o.session.connId = none ∨
      w.bridge.holder o.session.connId = o.owner)
    {f : (Bytes → Tunnel → Bool × Tunnel) → TunnelSession.Down Tunnel → TunnelSession.Down Tunnel}
    (hf : ∀ u, Provider.Wrote L w r o.session.connId u.world →
      TunnelSession.OnlyWrites (Provider.Wrote L w r o.session.connId) u
        (f (Provider.bridgeWrite L r o.session.connId) u)) :
    Linked (Provider.writing L w r o.session f) ∧
      w.bridge.Reaches L (Provider.writing L w r o.session f).bridge := by
  obtain ⟨x, pending, log, hx, heq⟩ := Provider.writing_spec hf
  obtain ⟨calls, hswift, hcalls⟩ := hx.swift
  rw [heq]
  refine ⟨?_, hx.reaches⟩
  have hconn (i : ℕ) := hx.quiet.connOfId i
  refine hl.change (r := r) (o := o) { o.session with pending } ?_
    (Or.inl (hconn _)) ?_ ?_
  · refine ⟨hl.slots.quiet hx.quiet, ho, ?_, ?_, ?_, rfl, fun h => h,
      ⟨(hl.coherent r o ho).parsed, fun halive _ => hws halive⟩, ⟨calls, ?_, ?_⟩,
      fun i _ => hconn i⟩
    · show x.swift.objects.modify r _ = _
      rw [hswift]
    · show x.swift.sessions = _
      rw [hswift]
    · show x.swift.queue = _
      rw [hswift]
    · show x.swift.calls = _
      rw [hswift]
    · intro call hcall
      obtain ⟨hr, hcall⟩ := hcalls call hcall
      exact ⟨hr, by rw [hcall]; exact hholder⟩
  · intro c hc hr
    exact (hl.owner _ r o hr ho c ((hconn _).symm.trans hc)).2
  · intro halive hws
    obtain ⟨hfiled, c, hc⟩ := hl.live r o ho halive hws
    exact ⟨hfiled, c, (hconn _).trans hc⟩

/-- A handler that changes nothing but the counters. -/
theorem Linked.unchanged (hl : Linked w) (ho : w.swift.objects[r]? = some o) (log : EventLog) :
    Linked (Provider.update w r o.session log) := by
  refine hl.change (r := r) (o := o) o.session ?_ (Or.inl rfl) ?_ ?_
  · exact ⟨hl.slots, ho, rfl, rfl, rfl, rfl, fun h => h, hl.coherent r o ho,
      ⟨[], (List.append_nil _).symm, nofun⟩, fun _ _ => rfl⟩
  · intro c hc hr
    exact (hl.owner _ r o hr ho c hc).2
  · exact hl.live r o ho

/-- `handleSent` on the session of a slot. -/
theorem Linked.sent (hl : Linked w) (L : Lwip) (slot : ℕ) :
    Linked (Provider.handleSent L slot w) ∧
      w.bridge.Reaches L (Provider.handleSent L slot w).bridge := by
  unfold Provider.handleSent
  split
  · rename_i r session hsession
    obtain ⟨hr, o, ho, rfl⟩ := Provider.session?_eq_some hsession
    obtain ⟨o', ho', hid⟩ := hl.filed slot r hr
    obtain rfl := Option.some.inj (ho.symm.trans ho')
    rw [← hid] at hr
    by_cases hpending : o.session.pending = none
    · have hskip : Provider.writing L w r o.session
          (fun write u => TunnelSession.handleSent write u) =
            Provider.update w r o.session
              { w.swift.log with sentCb := w.swift.log.sentCb + 1 } := by
        unfold Provider.writing TunnelSession.handleSent
        dsimp only
        rw [hpending]
      rw [hskip]
      exact ⟨hl.unchanged ho _, .refl _⟩
    · have hws (halive : o.session.dead = false) := (hl.coherent r o ho).paced halive hpending
      exact hl.writing ho hws (hl.holder hr ho) fun u hu =>
        TunnelSession.handleSent_onlyWrites (fun data x hx => hx.write data) u hu
  · exact ⟨hl, .refl _⟩

/-- A session closes the connection in its slot. -/
theorem Linked.closing (hl : Linked w) (L : Lwip) (session : TunnelSession)
    (ho : w.swift.objects[r]? = some o)
    (hr : w.swift.sessions o.session.connId = some r) (hconnId : session.connId = o.session.connId)
    (hopened : o.session.ws = true ∨ o.session.dead = true →
      session.ws = true ∨ session.dead = true)
    (hcoherent : session.Coherent) (hover : session.dead = true ∨ session.ws = false)
    (log : EventLog) :
    Linked (Provider.bridgeClose L r o.session.connId (Provider.update w r session log)) ∧
      w.bridge.Reaches L
        (Provider.bridgeClose L r o.session.connId (Provider.update w r session log)).bridge := by
  have hstep : w.bridge.step L (.close o.session.connId) =
      some (w.bridge.lwipBridgeClose L o.session.connId) := rfl
  have hconn (i : ℕ) := lwipBridgeClose_connOfId (L := L) hl.slots o.session.connId i
  have hnone : (w.bridge.lwipBridgeClose L o.session.connId).connOfId session.connId = none := by
    rw [hconn, if_pos hconnId]
  refine ⟨?_, .of_step hstep⟩
  refine hl.change (r := r) (o := o) session ?_ (Or.inr ⟨hnone, ?_⟩) ?_ ?_
  · refine ⟨slots_step hl.slots hstep, ho, rfl, rfl, rfl, hconnId, hopened, hcoherent,
      ⟨[⟨r, .close, w.bridge.holder o.session.connId⟩], rfl, ?_⟩, ?_⟩
    · intro call hcall
      obtain rfl := List.mem_singleton.mp hcall
      exact ⟨rfl, hl.holder hr ho⟩
    · intro i hi
      rw [hconnId] at hi
      exact (hconn i).trans (if_neg hi)
  · rw [hconnId]
    exact hr
  · intro c hc _
    exact absurd (hnone.symm.trans hc) nofun
  · intro halive hws
    rcases hover with hdead | hclosed
    · rw [hdead] at halive
      cases halive
    · rw [hclosed] at hws
      cases hws

theorem Provider.weak_eq_some {p : Provider} {held : Bool} {session : TunnelSession}
    (h : p.weak held r = some session) : ∃ o, p.objects[r]? = some o ∧ o.session = session := by
  obtain ⟨o, ho, h⟩ := Option.bind_eq_some_iff.mp h
  obtain ⟨-, h⟩ := Option.ite_none_right_eq_some.mp h
  exact ⟨o, ho, Option.some.inj h⟩

/-- A session that is not dead, and has a block in the queue, is in its slot. -/
theorem Linked.in_slot (hl : Linked w) (ho : w.swift.objects[r]? = some o)
    (halive : o.session.dead = false)
    (hknown : ∃ o, w.swift.objects[r]? = some o ∧ (o.session.ws = true ∨ o.session.dead = true)) :
    w.swift.sessions o.session.connId = some r ∧
      (∃ c, w.bridge.connOfId o.session.connId = some c) ∧ o.session.ws = true := by
  obtain ⟨o', ho', hopen⟩ := hknown
  obtain rfl := Option.some.inj (ho.symm.trans ho')
  have hws : o.session.ws = true := by
    refine hopen.resolve_right ?_
    rw [halive]
    exact Bool.false_ne_true
  obtain ⟨hr, hactive⟩ := hl.live r o ho halive hws
  exact ⟨hr, hactive, hws⟩

/-- The block of a message of the web socket. -/
theorem Linked.wsData (hl : Linked w) (L : Lwip) (held : Bool) {data : Bytes}
    (hknown : w.swift.Known (.wsData r data)) :
    Linked (Provider.runBlock L held w (.wsData r data)) ∧
      w.bridge.Reaches L (Provider.runBlock L held w (.wsData r data)).bridge := by
  unfold Provider.runBlock
  dsimp only
  split
  · rename_i session hweak
    obtain ⟨o, ho, rfl⟩ := Provider.weak_eq_some hweak
    by_cases hdead : o.session.dead = true
    · have hskip : Provider.writing L w r o.session
          (fun write u => TunnelSession.wsDataBlock write u data) =
            Provider.update w r o.session w.swift.log := by
        unfold Provider.writing TunnelSession.wsDataBlock
        dsimp only
        rw [if_pos hdead]
      rw [hskip]
      exact ⟨hl.unchanged ho _, .refl _⟩
    · obtain ⟨hr, -, hws⟩ := hl.in_slot ho (eq_false_of_ne_true hdead) hknown
      exact hl.writing ho (fun _ => hws) (hl.holder hr ho) fun u hu =>
        TunnelSession.wsDataBlock_onlyWrites (fun data x hx => hx.write data) u data hu
  · exact ⟨hl, .refl _⟩

/-- The block of the end of the web socket. -/
theorem Linked.wsClose (hl : Linked w) (L : Lwip) (held : Bool)
    (hknown : w.swift.Known (.wsClose r)) :
    Linked (Provider.runBlock L held w (.wsClose r)) ∧
      w.bridge.Reaches L (Provider.runBlock L held w (.wsClose r)).bridge := by
  unfold Provider.runBlock
  dsimp only
  split
  · rename_i session hweak
    obtain ⟨o, ho, rfl⟩ := Provider.weak_eq_some hweak
    by_cases hdead : o.session.dead = true
    · have hskip : o.session.wsCloseBlock = (o.session, []) := if_pos hdead
      rw [hskip]
      exact ⟨hl.unchanged ho _, .refl _⟩
    · have hclose : o.session.wsCloseBlock =
          ({ o.session with dead := true }, [.bridgeClose o.session.connId]) := if_neg hdead
      obtain ⟨hr, -⟩ := hl.in_slot ho (eq_false_of_ne_true hdead) hknown
      rw [hclose]
      exact hl.closing L { o.session with dead := true } ho hr rfl
        (fun _ => Or.inr rfl) ⟨(hl.coherent r o ho).parsed, nofun⟩ (Or.inl rfl) _
  · exact ⟨hl, .refl _⟩

/-- Data of the client for a slot. -/
theorem Linked.recv (hl : Linked w) (L : Lwip) (ks : Keystream) (slot : ℕ) (data : Bytes)
    (hactive : ∃ c, w.bridge.connOfId slot = some c) :
    Linked (Provider.handleRecv L ks slot data w) ∧
      w.bridge.Reaches L (Provider.handleRecv L ks slot data w).bridge := by
  unfold Provider.handleRecv
  split
  · rename_i r session hsession
    obtain ⟨hr, o, ho, rfl⟩ := Provider.session?_eq_some hsession
    obtain ⟨o', ho', rfl⟩ := hl.filed slot r hr
    obtain rfl := Option.some.inj (ho.symm.trans ho')
    dsimp only
    have hcoherent := hl.coherent r o ho
    by_cases hrejects : o.session.Rejects ks data
    · obtain ⟨heffects, hsession⟩ :=
        TunnelSession.handleData_rejects w.swift.log hrejects
      rw [heffects, hsession]
      have hclosed : o.session.ws = false := by
        by_contra hws
        have := hcoherent.parsed hrejects.1 (eq_true_of_ne_false hws)
        rw [hrejects.2.1] at this
        cases this
      exact hl.closing L { o.session with initBuffer := o.session.initBuffer ++ data }
        ho hr rfl (fun h => h) ⟨hcoherent.parsed, hcoherent.paced⟩ (Or.inr hclosed) _
    · obtain ⟨hharmless, hws, hcoherent'⟩ :=
        TunnelSession.handleData_spec w.swift.log hrejects hcoherent
      have hkept := TunnelSession.handleData_kept ks ⟨o.session, w.swift.log, []⟩ data
      generalize TunnelSession.handleData ks ⟨o.session, w.swift.log, []⟩ data = u at *
      have hconnId : u.session.connId = o.session.connId :=
        congrArg TunnelSession.Kept.connId hkept
      have hdead : u.session.dead = o.session.dead := congrArg TunnelSession.Kept.dead hkept
      rw [Provider.perform_harmless hharmless]
      refine ⟨?_, .refl _⟩
      refine hl.change (r := r) (o := o) u.session ?_ (Or.inl rfl) ?_ ?_
      · exact ⟨hl.slots, ho, rfl, rfl, rfl, hconnId, Or.imp hws hdead.trans, hcoherent',
          ⟨[], (List.append_nil _).symm, nofun⟩, fun _ _ => rfl⟩
      · intro c hc _
        rw [hconnId] at hc
        exact hdead.trans (hl.owner _ r o hr ho c hc).2
      · intro _ _
        rw [hconnId]
        exact ⟨hr, hactive⟩
  · exact ⟨hl, .refl _⟩

/-- Sessions are closed by `handleClose` and taken out of the dictionary. -/
theorem Linked.shut (hl : Linked w) (shut : ℕ → SessionObject → Prop) [∀ k o, Decidable (shut k o)]
    (hslots : Slots w'.bridge)
    (hobjects : ∀ k, w'.swift.objects[k]? = w.swift.objects[k]?.map fun o =>
      if shut k o then { o with session := o.session.handleClose.1 } else o)
    (hqueue : w'.swift.queue = w.swift.queue) (hcalls : w'.swift.calls = w.swift.calls)
    (hsessions : ∀ i k, w'.swift.sessions i = some k →
      w.swift.sessions i = some k ∧ ∀ o, w.swift.objects[k]? = some o → ¬ shut k o)
    (hconn : ∀ i c, w'.bridge.connOfId i = some c → w.bridge.connOfId i = some c)
    (hlive : ∀ k o c, ¬ shut k o → w.swift.objects[k]? = some o →
      w.swift.sessions o.session.connId = some k → w.bridge.connOfId o.session.connId = some c →
      w'.swift.sessions o.session.connId = some k ∧
        w'.bridge.connOfId o.session.connId = some c) : Linked w' := by
  have hobject {k : ℕ} {o' : SessionObject} (ho' : w'.swift.objects[k]? = some o') :
      ∃ o, w.swift.objects[k]? = some o ∧ o'.owner = o.owner ∧
        ((shut k o ∧ o'.session = o.session.handleClose.1) ∨ (¬ shut k o ∧ o' = o)) := by
    rw [hobjects] at ho'
    obtain ⟨o, ho, heq⟩ := Option.map_eq_some_iff.mp ho'
    refine ⟨o, ho, ?_⟩
    split_ifs at heq with hshut
    · subst heq
      exact ⟨rfl, Or.inl ⟨hshut, rfl⟩⟩
    · exact ⟨congrArg _ heq.symm, Or.inr ⟨hshut, heq.symm⟩⟩
  refine ⟨hslots, ?_, ?_, ?_, ?_, ?_, ?_⟩
  · intro i k hk
    obtain ⟨hk, hopen⟩ := hsessions i k hk
    obtain ⟨o, ho, hid⟩ := hl.filed i k hk
    refine ⟨o, ?_, hid⟩
    rw [hobjects, ho, Option.map_some, if_neg (hopen o ho)]
  · intro i k o' hk ho' c hc
    obtain ⟨hk, hopen⟩ := hsessions i k hk
    obtain ⟨o, ho, -, ⟨hshut, -⟩ | ⟨-, rfl⟩⟩ := hobject ho'
    · exact absurd hshut (hopen o ho)
    · exact hl.owner i k o' hk ho c (hconn i c hc)
  · intro k o' ho' halive hws
    obtain ⟨o, ho, -, ⟨-, hsession⟩ | ⟨hopen, rfl⟩⟩ := hobject ho'
    · rw [hsession] at halive
      cases halive
    · obtain ⟨hfiled, c, hc⟩ := hl.live k o' ho halive hws
      obtain ⟨hfiled', hc'⟩ := hlive k o' c hopen ho hfiled hc
      exact ⟨hfiled', c, hc'⟩
  · intro k o' ho'
    obtain ⟨o, ho, -, ⟨-, hsession⟩ | ⟨-, rfl⟩⟩ := hobject ho'
    · rw [hsession]
      exact ⟨fun _ hws => absurd hws Bool.false_ne_true, nofun⟩
    · exact hl.coherent k o' ho
  · have hknown (k : ℕ) (hk : ∃ o, w.swift.objects[k]? = some o ∧
        (o.session.ws = true ∨ o.session.dead = true)) :
        ∃ o, w'.swift.objects[k]? = some o ∧ (o.session.ws = true ∨ o.session.dead = true) := by
      obtain ⟨o, ho, hopen⟩ := hk
      rw [hobjects, ho, Option.map_some]
      split_ifs
      · exact ⟨_, rfl, Or.inr rfl⟩
      · exact ⟨o, rfl, hopen⟩
    intro block hblock
    rw [hqueue] at hblock
    match block, hl.known block hblock with
    | .wsData k _, hk => exact hknown k hk
    | .wsClose k, hk => exact hknown k hk
    | .stop, _ => trivial
  · intro call hcall
    rw [hcalls] at hcall
    obtain ⟨o, ho, hholder⟩ := hl.calls call hcall
    rw [hobjects, ho, Option.map_some]
    split_ifs
    · exact ⟨_, rfl, hholder⟩
    · exact ⟨o, rfl, hholder⟩

/-- `stopTunnel`. -/
theorem Linked.stop (hl : Linked w) : Linked { w with swift := w.swift.stopTunnel } := by
  refine hl.shut (fun k o => w.swift.sessions o.session.connId = some k) hl.slots ?_ rfl rfl nofun
    (fun _ _ hc => hc) ?_
  · intro k
    show (w.swift.objects.mapIdx _)[k]? = _
    rw [List.getElem?_mapIdx]
  · intro k o c hopen _ hfiled _
    exact absurd hfiled hopen

/-- What `handleClose` leaves of the provider. -/
theorem Linked.handleClose_swift (hl : Linked w) (slot : ℕ) :
    (∀ k, (Provider.handleClose slot w).swift.objects[k]? = w.swift.objects[k]?.map fun o =>
        if w.swift.sessions slot = some k then { o with session := o.session.handleClose.1 }
        else o) ∧
      (Provider.handleClose slot w).swift.sessions =
        Function.update w.swift.sessions slot none ∧
      (Provider.handleClose slot w).swift.queue = w.swift.queue ∧
      (Provider.handleClose slot w).swift.calls = w.swift.calls := by
  unfold Provider.handleClose
  cases hr : w.swift.sessions slot with
  | none =>
    have hnone : w.swift.session? slot = none := by simp [Provider.session?, hr]
    rw [hnone]
    exact ⟨fun k => by simp, rfl, rfl, rfl⟩
  | some r =>
    obtain ⟨o, ho, -⟩ := hl.filed slot r hr
    have hsome : w.swift.session? slot = some (r, o.session) := by
      simp [Provider.session?, hr, ho]
    rw [hsome]
    refine ⟨?_, rfl, rfl, rfl⟩
    intro k
    show (w.swift.objects.modify r _)[k]? = _
    by_cases hk : r = k
    · subst hk
      simp [ho]
    · simp [hk]

theorem Provider.handleClose_bridge (slot : ℕ) (w : Tunnel) :
    (Provider.handleClose slot w).bridge = w.bridge := by
  unfold Provider.handleClose
  cases w.swift.session? slot <;> rfl

theorem Provider.handleClose_onBridge (slot : ℕ) (w : Tunnel) (f : Bridge → Bridge) :
    (Provider.handleClose slot w).onBridge f =
      ⟨(Provider.handleClose slot w).swift, f w.bridge⟩ := by
  unfold World.onBridge
  rw [Provider.handleClose_bridge]

/-- `handleClose`, and the end of the connection in its slot. -/
theorem Linked.ended (hl : Linked w) {slot : ℕ} {f : Bridge → Bridge} (hs : Slots (f w.bridge))
    (hconn : ∀ i, (f w.bridge).connOfId i = if i = slot then none else w.bridge.connOfId i) :
    Linked ((Provider.handleClose slot w).onBridge f) := by
  rw [Provider.handleClose_onBridge]
  obtain ⟨hobjects, hsessions, hqueue, hcalls⟩ := hl.handleClose_swift slot
  refine hl.shut (fun k _ => w.swift.sessions slot = some k) hs hobjects hqueue hcalls ?_ ?_ ?_
  · intro i k hk
    rw [hsessions] at hk
    have hi : i ≠ slot := by
      rintro rfl
      rw [Function.update_self] at hk
      cases hk
    rw [Function.update_of_ne hi] at hk
    refine ⟨hk, fun o ho hk' => hi ?_⟩
    obtain ⟨o₁, ho₁, hid₁⟩ := hl.filed i k hk
    obtain ⟨o₂, ho₂, hid₂⟩ := hl.filed slot k hk'
    obtain rfl := Option.some.inj (ho₁.symm.trans ho₂)
    exact hid₁.symm.trans hid₂
  · intro i c hc
    rw [show _ = _ from hconn i] at hc
    split_ifs at hc
    exact hc
  · intro k o c hopen _ hfiled hc
    have hi : o.session.connId ≠ slot := by
      intro hi
      rw [hi] at hfiled
      exact hopen hfiled
    rw [hsessions, Function.update_of_ne hi]
    exact ⟨hfiled, by rw [hconn, if_neg hi]; exact hc⟩

theorem getElem?_concat_cases {α : Type*} {l : List α} {a b : α} {k : ℕ}
    (h : (l ++ [a])[k]? = some b) : l[k]? = some b ∨ k = l.length ∧ b = a := by
  rw [List.getElem?_append] at h
  split_ifs at h with hk
  · exact Or.inl h
  · right
    obtain ⟨hlt, heq⟩ := List.getElem?_eq_some_iff.mp h
    rw [List.length_singleton] at hlt
    rw [List.getElem_singleton] at heq
    exact ⟨by omega, heq.symm⟩

/-- A connection is accepted into a free slot. -/
theorem Linked.accept (hl : Linked w) {p : Pcb} {slot : ℕ} (hp : p ∈ w.bridge.pcbs)
    (hhalf : p.accepted = false) (hslot : w.bridge.conns.findIdx? (!·.active) = some slot) :
    Linked (Provider.handleAccept slot (w.onBridge (·.acceptInto p slot))) := by
  have haccepted := accepted_acceptInto w.bridge p slot
  obtain ⟨hlt, -⟩ := List.findIdx?_eq_some_iff_getElem.mp hslot
  obtain ⟨c₀, hc₀, hinactive⟩ := findIdx?_inactive hslot
  have hconn := haccepted.connOfId hlt
  have hold {i : ℕ} {c : Conn} (hc : w.bridge.connOfId i = some c) : i ≠ slot := by
    rintro rfl
    obtain ⟨hc, hactive⟩ := Bridge.connOfId_eq_some.mp hc
    obtain rfl := Option.some.inj (hc₀.symm.trans hc)
    rw [hinactive] at hactive
    cases hactive
  have hgrow {k : ℕ} {o : SessionObject} (ho : w.swift.objects[k]? = some o)
      (new : SessionObject) : (w.swift.objects ++ [new])[k]? = some o := by
    rw [List.getElem?_append_left (List.getElem?_eq_some_iff.mp ho).1]
    exact ho
  have hlast (new : SessionObject) :
      (w.swift.objects ++ [new])[w.swift.objects.length]? = some new :=
    List.getElem?_concat_length ..
  refine ⟨hl.slots.accept hp hhalf hslot haccepted, ?_, ?_, ?_, ?_, ?_, ?_⟩
  · intro i k hk
    by_cases hi : i = slot
    · subst hi
      have hk' : k = w.swift.objects.length := by
        have := Function.update_self i (some w.swift.objects.length) w.swift.sessions
        exact Option.some.inj (hk.symm.trans this)
      subst hk'
      exact ⟨_, hlast _, rfl⟩
    · obtain ⟨o, ho, hid⟩ := hl.filed i k ((Function.update_of_ne hi _ _).symm.trans hk)
      exact ⟨o, hgrow ho _, hid⟩
  · intro i k o hk ho c hc
    by_cases hi : i = slot
    · subst hi
      have hk' : k = w.swift.objects.length := by
        have := Function.update_self i (some w.swift.objects.length) w.swift.sessions
        exact Option.some.inj (hk.symm.trans this)
      subst hk'
      obtain rfl := Option.some.inj (ho.symm.trans (hlast _))
      refine ⟨?_, rfl⟩
      have hholder : (w.bridge.acceptInto p i).holder i = c.pcb := by
        unfold Bridge.holder
        rw [show (w.bridge.acceptInto p i).connOfId i = some c from hc]
        rfl
      exact hholder.symm
    · have hk' := (Function.update_of_ne hi _ _).symm.trans hk
      obtain ⟨o', ho', -⟩ := hl.filed i k hk'
      obtain rfl := Option.some.inj (ho.symm.trans (hgrow ho' _))
      exact hl.owner i k o hk' ho' c (((if_neg hi).symm.trans (hconn i).symm).trans hc)
  · intro k o ho halive hws
    rcases getElem?_concat_cases ho with ho | ⟨-, rfl⟩
    · obtain ⟨hfiled, c, hc⟩ := hl.live k o ho halive hws
      have hi := hold hc
      refine ⟨(Function.update_of_ne hi _ _).trans hfiled, c, ?_⟩
      exact (hconn _).trans ((if_neg hi).trans hc)
    · cases hws
  · intro k o ho
    rcases getElem?_concat_cases ho with ho | ⟨-, rfl⟩
    · exact hl.coherent k o ho
    · exact ⟨fun _ hws => absurd hws Bool.false_ne_true, fun _ hsome => absurd rfl hsome⟩
  · intro block hblock
    match block, hl.known block hblock with
    | .wsData k _, ⟨o, ho, hopen⟩ => exact ⟨o, hgrow ho _, hopen⟩
    | .wsClose k, ⟨o, ho, hopen⟩ => exact ⟨o, hgrow ho _, hopen⟩
    | .stop, _ => trivial
  · intro call hcall
    obtain ⟨o, ho, hholder⟩ := hl.calls call hcall
    exact ⟨o, hgrow ho _, hholder⟩

end

/-! ## Events of lwIP's in the tunnel -/

section

variable {σ : Type*} {L : Lwip} {h : Handlers σ} {w : World σ}

/-- The events in which lwIP calls `g_recv` or `g_sent`. -/
def LwipEvent.Yields : LwipEvent → Prop
  | .recv _ data err _ => ¬ (data = none ∨ err ≠ 0)
  | .sent _ _ => True
  | _ => False

/-- The FIN and error branch of `tcp_recv_cb`. -/
theorem tcpRecvCb_fin {data : Option Bytes} {err : ℤ} (hfin : data = none ∨ err ≠ 0)
    {arg pcb : ℕ} {malloc : Bool} :
    tcpRecvCb L h w arg pcb data err malloc =
      match (h.close arg err w).bridge.connOfId arg with
      | none => (h.close arg err w, .abrt)
      | some c =>
        let w := (h.close arg err w).onBridge (·.dropNat c)
        let w := match c.pcb with
          | some pcb => w.onBridge (·.detachAbort L pcb)
          | none => w
        (w.onBridge (·.clearConn arg), .abrt) := by
  unfold tcpRecvCb
  split
  · rename_i herr
    rcases hfin with hfin | hfin
    · cases hfin
    · exact absurd (of_decide_eq_true herr) hfin
  · rfl

/-- Handlers that leave the bridge alone might as well do nothing. -/
theorem lwipStep_idle (haccept : ∀ i (w : World σ), (h.accept i w).bridge = w.bridge)
    (hclose : ∀ i e (w : World σ), (h.close i e w).bridge = w.bridge) {e : LwipEvent}
    (he : ¬ e.Yields) :
    (lwipStep L h w e).map (·.1.bridge) =
      (lwipStep L idle ⟨(), w.bridge⟩ e).map (·.1.bridge) := by
  cases e with
  | halfOpen =>
    simp only [lwipStep]
    cases w.bridge.phase <;> try rfl
    dsimp only
    split_ifs <;> rfl
  | accept id =>
    have hcb (w : World σ) (p : Option Pcb) : (tcpAcceptCb L h w p).1.bridge =
        (tcpAcceptCb L idle ⟨(), w.bridge⟩ p).1.bridge := by
      cases p with
      | none => rfl
      | some p =>
        unfold tcpAcceptCb
        dsimp only
        cases w.bridge.conns.findIdx? (!·.active) with
        | none => rfl
        | some slot => exact haccept _ _
    simp only [lwipStep]
    cases w.bridge.phase <;> cases w.bridge.pcb? id <;> try rfl
    dsimp only
    split_ifs
    · exact congrArg some (hcb _ _)
    · rfl
  | acceptFailed =>
    simp only [lwipStep]
    cases w.bridge.phase <;> rfl
  | recv id data err malloc =>
    have hfin : data = none ∨ err ≠ 0 := not_not.mp he
    have hcb (arg : ℕ) : (tcpRecvCb L h w arg id data err malloc).1.bridge =
        (tcpRecvCb L idle ⟨(), w.bridge⟩ arg id data err malloc).1.bridge := by
      rw [tcpRecvCb_fin hfin, tcpRecvCb_fin hfin]
      dsimp only [idle]
      rw [hclose]
      cases w.bridge.connOfId arg with
      | none => exact hclose arg err w
      | some c =>
        have hdrop : ((h.close arg err w).onBridge (·.dropNat c)).bridge = w.bridge.dropNat c :=
          congrArg (Bridge.dropNat · c) (hclose arg err w)
        dsimp only
        cases c.pcb with
        | none => exact congrArg (Bridge.clearConn · arg) hdrop
        | some pcb =>
          exact congrArg (fun b => (Bridge.detachAbort L b pcb).clearConn arg) hdrop
    simp only [lwipStep]
    cases w.bridge.pcb? id with
    | none => rfl
    | some p =>
      dsimp only
      split_ifs
      · exact congrArg some (hcb _)
      · rfl
  | free id err =>
    have hcb (arg : ℕ) : (tcpErrCb h w arg err).bridge =
        (tcpErrCb idle ⟨(), w.bridge⟩ arg err).bridge := by
      unfold tcpErrCb
      dsimp only [idle]
      rw [hclose]
      cases w.bridge.connOfId arg with
      | none => exact hclose arg err w
      | some c => exact congrArg (fun b => (Bridge.dropNat b c).clearConn arg) (hclose arg err w)
    simp only [lwipStep]
    cases w.bridge.pcb? id with
    | none => rfl
    | some p =>
      dsimp only
      split_ifs
      · exact congrArg (fun b => some (Bridge.freePcb b id)) (hcb _)
      · rfl
      · rfl
  | sent id len => exact absurd trivial he
  | emit id packet =>
    simp only [lwipStep]
    cases w.bridge.pcb? id with
    | none => rfl
    | some p =>
      dsimp only
      split_ifs <;> rfl

/-- An ACK frees bytes in the bridge before `g_sent` is called. -/
theorem lwipStep_sent_idle {id len : ℕ} {r : World σ × Option Returned}
    (hstep : lwipStep L h w (.sent id len) = some r) :
    w.bridge.step L (.lwip (.sent id len)) =
      some (w.bridge.onPcb id fun p => { p with queued := p.queued - len }) := by
  simp only [lwipStep] at hstep
  unfold Bridge.step
  simp only [lwipStep]
  split at hstep
  · rename_i p hfind
    split_ifs at hstep with hguard
    rw [if_pos hguard]
    rfl
  · cases hstep

end

section

variable {L : Lwip} {ks : Keystream}

theorem Linked.effect {w : Tunnel} (hl : Linked w) {e : LwipEvent} {r : Tunnel × Option Returned}
    (hstep : lwipStep L (Provider.handlers L ks) w e = some r) :
    LwipEffect L (Provider.handlers L ks) w e r :=
  lwipStep_effect hl.slots (fun i _ w => Provider.handleClose_bridge i w) hstep

/-- What lwIP does keeps the links, and is a run of the bridge. -/
theorem Linked.lwip {w : Tunnel} (hl : Linked w) {e : LwipEvent} {r : Tunnel × Option Returned}
    (hstep : lwipStep L (Provider.handlers L ks) w e = some r) :
    Linked r.1 ∧ w.bridge.Reaches L r.1.bridge := by
  have hreach (he : ¬ e.Yields) : w.bridge.Reaches L r.1.bridge := by
    refine .of_step (e := .lwip e) ?_
    have hidle := lwipStep_idle (h := Provider.handlers L ks) (w := w) (L := L) (fun _ _ => rfl)
      (fun i _ w => Provider.handleClose_bridge i w) he
    exact hidle.symm.trans (congrArg (Option.map (·.1.bridge)) hstep)
  cases hl.effect hstep with
  | halfOpen given unclaimed =>
    have hr := hreach not_false
    exact ⟨hl.bridge (hr.slots hl.slots) fun _ => rfl, hr⟩
  | accept p slot hphase hp hhalf hslot => exact ⟨hl.accept hp hhalf hslot, hreach not_false⟩
  | acceptFailed => exact ⟨hl, .refl _⟩
  | fin p c hfin hp hacc htorn =>
    exact ⟨hl.ended (f := fun b => ((b.dropNat c).detachAbort L p.id).clearConn p.arg)
      (hl.slots.torn htorn) htorn.connOfId, hreach (not_not.mpr hfin)⟩
  | data p d malloc hp hacc =>
    obtain ⟨c, hc, -⟩ := hl.slots.connOfId hp hacc
    have hw : Linked (if malloc = true then Provider.handleRecv L ks p.arg d w else w) ∧
        w.bridge.Reaches L
          (if malloc = true then Provider.handleRecv L ks p.arg d w else w).bridge := by
      split_ifs
      · exact hl.recv L ks p.arg d ⟨c, hc⟩
      · exact ⟨hl, .refl _⟩
    have hrecved := Bridge.Reaches.of_step (L := L) (e := .recved p.id d.length)
      (b := (if malloc = true then Provider.handleRecv L ks p.arg d w else w).bridge) rfl
    exact ⟨hw.1.bridge (hrecved.slots hw.1.slots) fun _ => rfl, hw.2.trans hrecved⟩
  | freed p c hp hacc htorn =>
    exact ⟨hl.ended (f := fun b => ((b.dropNat c).clearConn p.arg).freePcb p.id)
      (hl.slots.torn htorn) htorn.connOfId, hreach not_false⟩
  | dropped p hp hhalf =>
    have hr := hreach not_false
    exact ⟨hl.bridge (hr.slots hl.slots) fun _ => rfl, hr⟩
  | sent p len hp hacc =>
    have hidle := lwipStep_sent_idle hstep
    have hw := hl.bridge (slots_step hl.slots hidle) fun _ => rfl
    obtain ⟨hl', hr'⟩ := hw.sent L p.arg
    exact ⟨hl', (Bridge.Reaches.of_step hidle).trans hr'⟩
  | emit p packet =>
    have hr := hreach not_false
    exact ⟨hl.bridge (hr.slots hl.slots) fun _ => rfl, hr⟩

end

/-! ## Runs -/

section

variable (L : Lwip) (ks : Keystream)

/-- `System.step` as a relation: what an event finds, and the tunnel after it. -/
inductive SystemEffect (s : System) : SystemEvent → System → Prop where
  | wsData (r : ℕ) (data : Bytes) (hopened : s.tunnel.swift.opened r = true) :
      SystemEffect s (.wsData r data) (s.post (.wsData r data))
  | wsClose (r : ℕ) (hopened : s.tunnel.swift.opened r = true) :
      SystemEffect s (.wsClose r) (s.post (.wsClose r))
  | stop : SystemEffect s .stop (s.post .stop)
  | block (held : Bool) (block : Block) (queue : List Block)
      (hqueue : s.tunnel.swift.queue = block :: queue) (hrest : s.bridge.phase = .rest) :
      SystemEffect s (.block held) { s with
        tunnel := Provider.runBlock L held { s.tunnel with swift.queue := queue } block }
  | input (data : Bytes) (malloc pbuf : Bool) (hrest : s.bridge.phase = .rest) :
      SystemEffect s (.input data malloc pbuf) (s.onBridge (·.lwipBridgeInput data malloc pbuf))
  | poll (hrest : s.bridge.phase = .rest) :
      SystemEffect s .poll (s.onBridge (·.lwipBridgePoll))
  | done (hcall : s.bridge.phase ≠ .rest) : SystemEffect s .done (s.onBridge (·.returns))
  | lwip (e : LwipEvent) (r : Tunnel × Option Returned)
      (hlwip : lwipStep L (Provider.handlers L ks) s.tunnel e = some r) :
      SystemEffect s (.lwip e)
        ⟨r.1, s.invocations ++ System.invoked s.bridge r.1.bridge r.2⟩

end

section

variable {L : Lwip} {ks : Keystream}

theorem System.effect {s s' : System} {e : SystemEvent} (hstep : s.step L ks e = some s') :
    SystemEffect L ks s e s' := by
  cases e with
  | wsData r data =>
    obtain ⟨hopened, heq⟩ := Option.ite_none_right_eq_some.mp hstep
    obtain rfl := Option.some.inj heq
    exact .wsData r data hopened
  | wsClose r =>
    obtain ⟨hopened, heq⟩ := Option.ite_none_right_eq_some.mp hstep
    obtain rfl := Option.some.inj heq
    exact .wsClose r hopened
  | stop =>
    obtain rfl := Option.some.inj hstep
    exact .stop
  | block held =>
    simp only [System.step] at hstep
    split at hstep
    · rename_i block queue hqueue
      obtain ⟨hrest, heq⟩ := Option.ite_none_right_eq_some.mp hstep
      obtain rfl := Option.some.inj heq
      exact .block held block queue hqueue hrest
    · cases hstep
  | input data malloc pbuf =>
    obtain ⟨hrest, heq⟩ := Option.ite_none_right_eq_some.mp hstep
    obtain rfl := Option.some.inj heq
    exact .input data malloc pbuf hrest
  | poll =>
    obtain ⟨hrest, heq⟩ := Option.ite_none_right_eq_some.mp hstep
    obtain rfl := Option.some.inj heq
    exact .poll hrest
  | done =>
    obtain ⟨hcall, heq⟩ := Option.ite_none_left_eq_some.mp hstep
    obtain rfl := Option.some.inj heq
    exact .done hcall
  | lwip e =>
    obtain ⟨r, hr, rfl⟩ := Option.map_eq_some_iff.mp hstep
    exact .lwip e r hr

/-- The next block has a session, and its turn leaves the links alone. -/
theorem Linked.pop {w : Tunnel} (hl : Linked w) {block : Block} {queue : List Block}
    (hqueue : w.swift.queue = block :: queue) :
    Linked { w with swift.queue := queue } ∧ w.swift.Known block := by
  have hknown (block' : Block) (h : block' ∈ block :: queue) : w.swift.Known block' := by
    rw [← hqueue] at h
    exact hl.known block' h
  exact ⟨hl.queue fun block' h => hknown block' (List.mem_cons_of_mem _ h),
    hknown block List.mem_cons_self⟩

/-- Every event of the tunnel keeps the links, and is a run of the bridge. -/
theorem Linked.step {s s' : System} (hl : Linked s.tunnel) {e : SystemEvent}
    (hstep : s.step L ks e = some s') : Linked s'.tunnel ∧ s.bridge.Reaches L s'.bridge := by
  have hopened {r : ℕ} (h : s.tunnel.swift.opened r = true) :
      ∃ o, s.tunnel.swift.objects[r]? = some o ∧
        (o.session.ws = true ∨ o.session.dead = true) := by
    unfold Provider.opened at h
    cases ho : s.tunnel.swift.objects[r]? with
    | none => simp [ho] at h
    | some o => exact ⟨o, rfl, by simpa [ho] using h⟩
  have hpost {block : Block} (hknown : s.tunnel.swift.Known block) :
      Linked (s.post block).tunnel ∧ s.bridge.Reaches L (s.post block).bridge := by
    refine ⟨hl.queue ?_, .refl _⟩
    intro block' hmem
    rcases List.mem_append.mp hmem with hmem | hmem
    · exact hl.known block' hmem
    · rw [List.mem_singleton.mp hmem]
      exact hknown
  cases System.effect hstep with
  | wsData r data h => exact hpost (hopened h)
  | wsClose r h => exact hpost (hopened h)
  | stop => exact hpost trivial
  | block held block queue hqueue =>
    obtain ⟨hpop, hknown⟩ := hl.pop hqueue
    cases block with
    | wsData r data => exact hpop.wsData L held hknown
    | wsClose r => exact hpop.wsClose L held hknown
    | stop => exact ⟨hpop.stop, .refl _⟩
  | input data malloc pbuf hrest =>
    have hr : s.bridge.Reaches L (s.bridge.lwipBridgeInput data malloc pbuf) :=
      .of_step (e := .input data malloc pbuf) (if_pos hrest)
    refine ⟨hl.bridge (hr.slots hl.slots) fun i => ?_, hr⟩
    cases input_effect (L := L) hrest data malloc pbuf with
    | quiet _ h => exact h.connOfId i
    | input _ _ h => exact congrArg (·[i]?.filter (·.active)) h.conns
  | poll hrest =>
    have hr : s.bridge.Reaches L s.bridge.lwipBridgePoll :=
      .of_step (e := .poll) (if_pos hrest)
    exact ⟨hl.bridge (hr.slots hl.slots) fun _ => rfl, hr⟩
  | done hcall =>
    have hr : s.bridge.Reaches L s.bridge.returns := .of_step (e := .done) (if_neg hcall)
    exact ⟨hl.bridge (hr.slots hl.slots) fun _ => rfl, hr⟩
  | lwip e r hlwip => exact hl.lwip hlwip

end

theorem linked_init (workerDomain : Option String) : Linked (System.init workerDomain).tunnel := by
  refine ⟨slots_init, nofun, nofun, ?_, ?_, nofun, nofun⟩
  · intro r o ho
    cases ho
  · intro r o ho
    cases ho

/-- The bridge of the tunnel goes through a run of its own. -/
theorem system_reaches {L : Lwip} {ks : Keystream} {workerDomain : Option String}
    {events : List SystemEvent} {s : System}
    (h : run (System.step L ks) (System.init workerDomain) events = some s) :
    Linked s.tunnel ∧ Bridge.init.Reaches L s.bridge := by
  have hinv : Linked (System.init workerDomain).tunnel ∧
      Bridge.init.Reaches L (System.init workerDomain).bridge :=
    ⟨linked_init workerDomain, .refl _⟩
  refine invariant_run (I := fun s => Linked s.tunnel ∧ Bridge.init.Reaches L s.bridge) ?_ events
    _ s hinv h
  intro s e s' hs hstep
  obtain ⟨hl, hr⟩ := hs.1.step hstep
  exact ⟨hl, hs.2.trans hr⟩

end WSBridge
