import WSBridge.System.Ledger

/-!
# Books that balance

What the history of a ledger says of each session and of each pcb, and what the
parts of an event do to it.

Results:
* `Accounted.change`: the books balance after an event when those of each
  session do, and the queues of lwIP have followed.
* `Accounted.writes`, `Accounted.received`, `Accounted.acked`: the events that
  move bytes.
* `Accounted.closed`: the events that move none.
-/

namespace WSBridge

open WSBridge.Foundation
open Provider (Tunnel)
open TunnelSession (Down Line logged accepted handleData wsDataBlock handleSent feed)

/-! ## Calls of a handler -/

/-- A pcb has more bytes queued. -/
def grow (pcbs : List Pcb) (id n : ℕ) : List Pcb :=
  pcbs.map fun p => if p.id = id then { p with queued := p.queued + n } else p

theorem grow_zero (pcbs : List Pcb) (id : ℕ) : grow pcbs id 0 = pcbs := by
  unfold grow
  simp

theorem grow_grow (pcbs : List Pcb) (id m n : ℕ) :
    grow (grow pcbs id m) id n = grow pcbs id (m + n) := by
  unfold grow
  rw [List.map_map]
  apply List.map_congr_left
  intro p _
  by_cases h : p.id = id
  · simp [h, Nat.add_assoc]
  · simp [h]

theorem mem_grow {pcbs : List Pcb} {id n : ℕ} {q : Pcb} (h : q ∈ grow pcbs id n) :
    ∃ p ∈ pcbs, p.id = q.id ∧ q.queued = p.queued + if p.id = id then n else 0 := by
  obtain ⟨p, hp, rfl⟩ := List.mem_map.mp h
  refine ⟨p, hp, ?_⟩
  split_ifs
  · exact ⟨rfl, rfl⟩
  · exact ⟨rfl, rfl⟩

/-- A write queues what it takes on the pcb in the slot. -/
theorem lwipBridgeWrite_grow {L : Lwip} {b : Bridge} (hs : Slots b) {slot id : ℕ}
    (hholder : b.holder slot = some id) (data : Bytes) :
    (b.lwipBridgeWrite L slot data).2.pcbs =
      grow b.pcbs id (if (b.lwipBridgeWrite L slot data).1 then data.length else 0) := by
  obtain ⟨c, hc, hpcb⟩ := Option.bind_eq_some_iff.mp hholder
  obtain ⟨p, hp, hpcb', -⟩ := hs.pcb_of_connOfId hc
  obtain rfl := Option.some.inj (hpcb'.symm.trans hpcb)
  obtain ⟨hanswer, hpcbs⟩ := lwipBridgeWrite_fst (L := L) hholder data
  rw [hanswer, hpcbs]
  rcases tcpWrite_spec (L := L) hs hp data.length with ⟨-, -, hok, h⟩ | ⟨-, hno, h⟩
  · rw [hok, h]
    rfl
  · rw [hno, h]
    exact (grow_zero _ _).symm

/-- The bytes a row of calls has queued. -/
theorem accepted_length_concat (calls : List (Bytes × Bool)) (data : Bytes) (ok : Bool) :
    (accepted (calls ++ [(data, ok)])).length =
      (accepted calls).length + if ok then data.length else 0 := by
  rw [TunnelSession.accepted_concat, List.length_append]
  cases ok <;> rfl

/-- A handler that stands between two writes of the session `r`: its calls so
far have queued on the pcb `id` what they took. -/
structure Logs (L : Lwip) (w : Tunnel) (r slot id : ℕ) (l : Line Tunnel) : Prop where
  wrote : Provider.Wrote L w r slot l.world
  pcbs : l.world.bridge.pcbs = grow w.bridge.pcbs id (accepted l.calls).length

section

variable {L : Lwip} {w : Tunnel} {r slot id : ℕ}

theorem Logs.write (hs : Slots w.bridge) (hholder : w.bridge.holder slot = some id)
    {l : Line Tunnel} (h : Logs L w r slot id l) (data : Bytes) :
    Logs L w r slot id (logged (Provider.bridgeWrite L r slot) data l).2 := by
  have hholder' : l.world.bridge.holder slot = some id :=
    (h.wrote.quiet.holder slot).trans hholder
  refine ⟨h.wrote.write data, ?_⟩
  have hgrow := lwipBridgeWrite_grow (L := L) (hs.quiet h.wrote.quiet) hholder' data
  rw [h.pcbs, grow_grow] at hgrow
  refine hgrow.trans (congrArg (grow w.bridge.pcbs id) ?_)
  exact (accepted_length_concat l.calls data _).symm

/-- What a handler that writes has done, when it took in `data`. -/
structure Recorded (L : Lwip) (w : Tunnel) (r id : ℕ) (session : TunnelSession) (data : Bytes)
    (u : Down (Line Tunnel)) : Prop where
  pending : ∃ pending, u.session = { session with pending }
  logs : Logs L w r session.connId id u.world
  delivered : accepted u.world.calls ++ u.session.pending.getD [] =
    session.pending.getD [] ++ data

theorem Logs.refl (w : Tunnel) : Logs L w r slot id { world := w } :=
  ⟨.refl w, (grow_zero _ _).symm⟩

theorem recorded_wsData (hs : Slots w.bridge) {session : TunnelSession}
    (hholder : w.bridge.holder session.connId = some id) (halive : session.dead = false)
    (data : Bytes) :
    Recorded L w r id session data
      (Ledger.recorded L w r session fun write u => wsDataBlock write u data) := by
  have hwrites := @TunnelSession.wsDataBlock_onlyWrites (Line Tunnel)
    (logged (Provider.bridgeWrite L r session.connId)) (Logs L w r session.connId id)
    (fun piece l hl => hl.write hs hholder piece)
    ⟨session, w.swift.log, { world := w }⟩ data (Logs.refl w)
  have hmoves := @TunnelSession.wsDataBlock_moves Tunnel (Provider.bridgeWrite L r session.connId)
    ⟨session, w.swift.log, { world := w }⟩ nofun data halive
  exact ⟨hwrites.session, hwrites.world, hmoves.delivered⟩

theorem recorded_sent (hs : Slots w.bridge) {session : TunnelSession}
    (hholder : w.bridge.holder session.connId = some id) :
    Recorded L w r id session []
      (Ledger.recorded L w r session fun write u => handleSent write u) := by
  have hwrites := @TunnelSession.handleSent_onlyWrites (Line Tunnel)
    (logged (Provider.bridgeWrite L r session.connId)) (Logs L w r session.connId id)
    (fun piece l hl => hl.write hs hholder piece)
    ⟨session, w.swift.log, { world := w }⟩ (Logs.refl w)
  have hmoves := @TunnelSession.handleSent_moves Tunnel (Provider.bridgeWrite L r session.connId)
    ⟨session, w.swift.log, { world := w }⟩ nofun
  refine ⟨hwrites.session, hwrites.world, ?_⟩
  rw [List.append_nil]
  exact hmoves.1

/-- The tunnel does what the handler did with its calls recorded. -/
theorem writing_wsData (session : TunnelSession) (data : Bytes) :
    let u := Ledger.recorded L w r session fun write u => wsDataBlock write u data
    Provider.writing L w r session (fun write u => wsDataBlock write u data) =
      Provider.update u.world.world r u.session u.log := by
  intro u
  have herase := @TunnelSession.wsDataBlock_erase Tunnel (Provider.bridgeWrite L r session.connId)
    ⟨session, w.swift.log, { world := w }⟩ data
  exact congrArg (fun v : Down Tunnel => Provider.update v.world r v.session v.log) herase.symm

theorem writing_sent (session : TunnelSession) :
    let u := Ledger.recorded L w r session fun write u => handleSent write u
    Provider.writing L w r session (fun write u => handleSent write u) =
      Provider.update u.world.world r u.session u.log := by
  intro u
  have herase := @TunnelSession.handleSent_erase Tunnel (Provider.bridgeWrite L r session.connId)
    ⟨session, w.swift.log, { world := w }⟩
  exact congrArg (fun v : Down Tunnel => Provider.update v.world r v.session v.log) herase.symm

end

/-! ## The books -/

/-- A session as `init` makes it. -/
def TunnelSession.fresh (s : TunnelSession) : TunnelSession :=
  .new s.connId s.dcIP s.workerDomain

/-- The messages of a session that wait in `lwipQueue`. -/
def waitingIn (queue : List Block) (r : ℕ) : List Bytes :=
  queue.filterMap fun
    | .wsData k data => if k = r then some data else none
    | .wsClose _ | .stop => none

/-- The books of the session `r`, made for the pcb `id`. -/
structure Books (ks : Keystream) (l : Ledger) (r : ℕ) (o : SessionObject) (id : ℕ) : Prop where
  asked : l.asked r = (feed ks ⟨o.session.fresh, {}, []⟩ (l.fed r)).effects
  fed : l.fed r <+: copies (l.received id)
  filed : l.tunnel.swift.sessions o.session.connId = some r → l.fed r = copies (l.received id) ∧
    (feed ks ⟨o.session.fresh, {}, []⟩ (l.fed r)).session.upstream = o.session.upstream
  delivered : accepted (l.written id) ++ o.session.pending.getD [] = (l.messages r).flatten
  messages : l.messages r <+: l.posted r
  alive : o.session.dead = false →
    l.posted r = l.messages r ++ waitingIn l.tunnel.swift.queue r

/-- The books of all sessions balance, and lwIP agrees with them. -/
structure Accounted (ks : Keystream) (l : Ledger) : Prop where
  linked : Linked l.tunnel
  owned : Owned l.tunnel
  books : ∀ r o id, l.tunnel.swift.objects[r]? = some o → o.owner = some id → Books ks l r o id
  unborn : ∀ r, l.tunnel.swift.objects.length ≤ r →
    l.fed r = [] ∧ l.asked r = [] ∧ l.posted r = [] ∧ l.messages r = []
  unowned : ∀ id, (∀ o ∈ l.tunnel.swift.objects, o.owner ≠ some id) →
    l.received id = [] ∧ l.written id = [] ∧ l.acked id = 0
  queued : ∀ p ∈ l.tunnel.bridge.pcbs,
    (accepted (l.written p.id)).length = p.queued + l.acked p.id

/-- The rows of a session and of its pcb are the same, but for segments that were
not copied. -/
structure SameRows (l l' : Ledger) (r id : ℕ) : Prop where
  received : copies (l'.received id) = copies (l.received id)
  written : l'.written id = l.written id
  fed : l'.fed r = l.fed r
  asked : l'.asked r = l.asked r
  posted : l'.posted r = l.posted r
  messages : l'.messages r = l.messages r

section

variable {ks : Keystream} {l l' : Ledger} {r id : ℕ} {o o' : SessionObject}

/-- What a session does not see leaves its books alone. -/
theorem Books.frame (h : Books ks l r o id) (hrows : SameRows l l' r id)
    (hfresh : o'.session.fresh = o.session.fresh)
    (hpending : o'.session.pending = o.session.pending)
    (hfiled : l'.tunnel.swift.sessions o'.session.connId = some r →
      l.tunnel.swift.sessions o.session.connId = some r ∧
        o'.session.upstream = o.session.upstream)
    (halive : o'.session.dead = false → o.session.dead = false ∧
      waitingIn l'.tunnel.swift.queue r = waitingIn l.tunnel.swift.queue r) :
    Books ks l' r o' id := by
  refine ⟨?_, ?_, ?_, ?_, ?_, ?_⟩
  · rw [hrows.asked, hrows.fed, hfresh]
    exact h.asked
  · rw [hrows.fed, hrows.received]
    exact h.fed
  · intro hr
    obtain ⟨hr, hup⟩ := hfiled hr
    rw [hrows.fed, hrows.received, hfresh, hup]
    exact h.filed hr
  · rw [hrows.written, hrows.messages, hpending]
    exact h.delivered
  · rw [hrows.messages, hrows.posted]
    exact h.messages
  · intro hdead
    obtain ⟨hdead, hwaiting⟩ := halive hdead
    rw [hrows.messages, hrows.posted, hwaiting]
    exact h.alive hdead

/-- The books balance again when those of each session do, and lwIP's queues
have followed. -/
theorem Accounted.change (h : Accounted ks l) (hlinked : Linked l'.tunnel)
    (howned : Owned l'.tunnel)
    (hlength : l'.tunnel.swift.objects.length = l.tunnel.swift.objects.length)
    (hbooks : ∀ r o', l'.tunnel.swift.objects[r]? = some o' →
      ∃ o, l.tunnel.swift.objects[r]? = some o ∧ o'.owner = o.owner ∧
        ∀ id, o.owner = some id → Books ks l' r o' id)
    (hunborn : ∀ r, l.tunnel.swift.objects.length ≤ r → l'.fed r = l.fed r ∧
      l'.asked r = l.asked r ∧ l'.posted r = l.posted r ∧ l'.messages r = l.messages r)
    (hunowned : ∀ id, (∀ o ∈ l.tunnel.swift.objects, o.owner ≠ some id) →
      l'.received id = l.received id ∧ l'.written id = l.written id ∧ l'.acked id = l.acked id)
    (hqueued : ∀ q ∈ l'.tunnel.bridge.pcbs, ∃ p ∈ l.tunnel.bridge.pcbs, p.id = q.id ∧
      (accepted (l'.written q.id)).length + p.queued + l.acked q.id =
        (accepted (l.written q.id)).length + q.queued + l'.acked q.id) :
    Accounted ks l' := by
  refine ⟨hlinked, howned, ?_, ?_, ?_, ?_⟩
  · intro r o' id ho' howner
    obtain ⟨o, -, hsame, hbook⟩ := hbooks r o' ho'
    exact hbook id (hsame ▸ howner)
  · intro r hr
    rw [hlength] at hr
    obtain ⟨h1, h2, h3, h4⟩ := hunborn r hr
    rw [h1, h2, h3, h4]
    exact h.unborn r hr
  · intro id hid
    have hid' : ∀ o ∈ l.tunnel.swift.objects, o.owner ≠ some id := by
      intro o ho
      obtain ⟨r, hr⟩ := List.mem_iff_getElem?.mp ho
      have hlt : r < l'.tunnel.swift.objects.length := by
        rw [hlength]
        exact (List.getElem?_eq_some_iff.mp hr).1
      obtain ⟨o₀, hr₀, hsame, -⟩ := hbooks r _ (List.getElem?_eq_getElem hlt)
      obtain rfl := Option.some.inj (hr.symm.trans hr₀)
      rw [← hsame]
      exact hid _ (List.getElem_mem hlt)
    obtain ⟨h1, h2, h3⟩ := hunowned id hid'
    rw [h1, h2, h3]
    exact h.unowned id hid'
  · intro q hq
    obtain ⟨p, hp, hid, hsum⟩ := hqueued q hq
    have hp' := h.queued p hp
    rw [hid] at hp'
    omega

end

/-! ## Events without a stream -/

theorem waitingIn_append (queue more : List Block) (r : ℕ) :
    waitingIn (queue ++ more) r = waitingIn queue r ++ waitingIn more r := by
  unfold waitingIn
  exact List.filterMap_append

theorem waitingIn_cons (r k : ℕ) (data : Bytes) (queue : List Block) :
    waitingIn (.wsData r data :: queue) k =
      (if r = k then [data] else []) ++ waitingIn queue k := by
  unfold waitingIn
  by_cases hk : r = k
  · simp [hk]
  · simp [hk]

/-- Some sessions may have been closed or taken out of the dictionary, and some
pcbs freed. -/
structure Closed (w w' : Tunnel) : Prop where
  length : w'.swift.objects.length = w.swift.objects.length
  objects : ∀ r o', w'.swift.objects[r]? = some o' → ∃ o, w.swift.objects[r]? = some o ∧
    o'.owner = o.owner ∧ o'.session.fresh = o.session.fresh ∧
    o'.session.pending = o.session.pending ∧
    (w'.swift.sessions o'.session.connId = some r →
      w.swift.sessions o.session.connId = some r ∧ o'.session.upstream = o.session.upstream) ∧
    (o'.session.dead = false → o.session.dead = false ∧
      waitingIn w'.swift.queue r = waitingIn w.swift.queue r)
  pcbs : ∀ q ∈ w'.bridge.pcbs, q ∈ w.bridge.pcbs

section

variable {w w' w'' : Tunnel} {r : ℕ} {o : SessionObject}

theorem Closed.of_bridge (hswift : w'.swift = w.swift)
    (hpcbs : ∀ q ∈ w'.bridge.pcbs, q ∈ w.bridge.pcbs) : Closed w w' := by
  refine ⟨by rw [hswift], fun r o ho => ?_, hpcbs⟩
  rw [hswift] at ho ⊢
  exact ⟨o, ho, rfl, rfl, rfl, fun h => ⟨h, rfl⟩, fun h => ⟨h, rfl⟩⟩

theorem Closed.trans (h : Closed w w') (h' : Closed w' w'') : Closed w w'' := by
  refine ⟨h'.length.trans h.length, fun r o'' ho'' => ?_, fun q hq => h.pcbs q (h'.pcbs q hq)⟩
  obtain ⟨o', ho', h1, h2, h3, h4, h5⟩ := h'.objects r o'' ho''
  obtain ⟨o, ho, g1, g2, g3, g4, g5⟩ := h.objects r o' ho'
  refine ⟨o, ho, h1.trans g1, h2.trans g2, h3.trans g3, fun hr => ?_, fun hdead => ?_⟩
  · obtain ⟨hr, hup⟩ := h4 hr
    obtain ⟨hr, hup'⟩ := g4 hr
    exact ⟨hr, hup.trans hup'⟩
  · obtain ⟨hdead, hwaiting⟩ := h5 hdead
    obtain ⟨hdead, hwaiting'⟩ := g5 hdead
    exact ⟨hdead, hwaiting.trans hwaiting'⟩

/-- The queue changes where no live session is concerned. -/
theorem Closed.queue (queue : List Block)
    (h : ∀ r o, w.swift.objects[r]? = some o → o.session.dead = false →
      waitingIn queue r = waitingIn w.swift.queue r) : Closed w { w with swift.queue := queue } :=
  ⟨rfl, fun r o ho => ⟨o, ho, rfl, rfl, rfl, fun hr => ⟨hr, rfl⟩,
    fun hdead => ⟨hdead, h r o ho hdead⟩⟩, fun _ hq => hq⟩

theorem update_object (ho : w.swift.objects[r]? = some o) (session : TunnelSession)
    (log : EventLog) (k : ℕ) : (Provider.update w r session log).swift.objects[k]? =
      if k = r then some { o with session } else w.swift.objects[k]? := by
  simp only [Provider.update]
  split_ifs with hk
  · rw [hk, List.getElem?_modify_eq, ho]
    rfl
  · exact List.getElem?_modify_ne _ _ (Ne.symm hk)

/-- A session is marked dead. -/
theorem Closed.update (ho : w.swift.objects[r]? = some o) {session : TunnelSession}
    (hup : session.upstream = o.session.upstream) (hpending : session.pending = o.session.pending)
    (hdead : session.dead = false → o.session.dead = false) (log : EventLog) :
    Closed w (Provider.update w r session log) := by
  have hconnId := congrArg TunnelSession.connId hup
  have hfresh := congrArg TunnelSession.fresh hup
  refine ⟨List.length_modify .., fun k o' ho' => ?_, fun _ hq => hq⟩
  rw [update_object ho] at ho'
  split_ifs at ho' with hk
  · subst hk
    obtain rfl := Option.some.inj ho'
    refine ⟨o, ho, rfl, hfresh, hpending, fun hr => ⟨?_, hup⟩, fun h => ⟨hdead h, rfl⟩⟩
    rwa [show session.connId = o.session.connId from hconnId] at hr
  · exact ⟨o', ho', rfl, rfl, rfl, fun hr => ⟨hr, rfl⟩, fun h => ⟨h, rfl⟩⟩

theorem lwipBridgeClose_subset {L : Lwip} {b : Bridge} (hs : Slots b) (slot : ℕ) :
    ∀ q ∈ (b.lwipBridgeClose L slot).pcbs, q ∈ b.pcbs := by
  intro q hq
  cases hc : b.connOfId slot with
  | none => rwa [lwipBridgeClose_inactive hc] at hq
  | some c =>
    cases close_effect (L := L) hs slot with
    | quiet hpass => exact absurd (hc.symm.trans hpass) nofun
    | close h =>
      rw [h.pcbs] at hq
      exact (List.mem_filter.mp hq).1

theorem Closed.perform {L : Lwip} (hs : Slots w.bridge) (r : ℕ) (effects : List Effect) :
    Closed w (Provider.perform L r effects w) := by
  induction effects generalizing w with
  | nil => exact .of_bridge rfl fun _ hq => hq
  | cons e effects ih =>
    cases e with
    | bridgeClose slot =>
      have hstep : w.bridge.step L (.close slot) = some (w.bridge.lwipBridgeClose L slot) := rfl
      have hclose : Closed w (Provider.bridgeClose L r slot w) :=
        ⟨rfl, fun k o ho => ⟨o, ho, rfl, rfl, rfl, fun hr => ⟨hr, rfl⟩, fun h => ⟨h, rfl⟩⟩,
          lwipBridgeClose_subset hs slot⟩
      exact hclose.trans (ih (slots_step hs hstep))
    | connect | startPipe | send | wsClose => exact ih hs

theorem perform_swift {L : Lwip} (r : ℕ) (effects : List Effect) (w : Tunnel) :
    (Provider.perform L r effects w).swift.sessions = w.swift.sessions ∧
      (Provider.perform L r effects w).swift.queue = w.swift.queue := by
  induction effects generalizing w with
  | nil => exact ⟨rfl, rfl⟩
  | cons e effects ih =>
    cases e with
    | bridgeClose slot => exact ih (Provider.bridgeClose L r slot w)
    | connect | startPipe | send | wsClose => exact ih w

theorem Closed.wsClose {L : Lwip} (hs : Slots w.bridge) (held : Bool) (r : ℕ) :
    Closed w (Provider.runBlock L held w (.wsClose r)) := by
  unfold Provider.runBlock
  dsimp only
  split
  · rename_i session hweak
    obtain ⟨o, ho, rfl⟩ := Provider.weak_eq_some hweak
    have hupdate : Closed w (Provider.update w r o.session.wsCloseBlock.1 w.swift.log) := by
      refine .update ho ?_ ?_ ?_ _
      all_goals
        unfold TunnelSession.wsCloseBlock
        split_ifs with hdead
      · rfl
      · rfl
      · rfl
      · rfl
      · exact fun h => h
      · exact nofun
    exact hupdate.trans (.perform (w := Provider.update w r _ _) hs r _)
  · exact .of_bridge rfl fun _ hq => hq

theorem Closed.stop : Closed w { w with swift := w.swift.stopTunnel } := by
  refine ⟨List.length_mapIdx .., fun r o' ho' => ?_, fun _ hq => hq⟩
  simp only [Provider.stopTunnel, List.getElem?_mapIdx] at ho'
  obtain ⟨o, ho, rfl⟩ := Option.map_eq_some_iff.mp ho'
  refine ⟨o, ho, ?_⟩
  split_ifs
  · exact ⟨rfl, rfl, rfl, (fun h => by cases h), fun h => by cases h⟩
  · exact ⟨rfl, rfl, rfl, (fun h => by cases h), fun h => ⟨h, rfl⟩⟩

/-- A connection ends. -/
theorem Linked.closed (hl : Linked w) {slot : ℕ} {b : Bridge}
    (hpcbs : ∀ q ∈ b.pcbs, q ∈ w.bridge.pcbs) :
    Closed w ⟨(Provider.handleClose slot w).swift, b⟩ := by
  obtain ⟨hobjects, hsessions, hqueue, -⟩ := hl.handleClose_swift slot
  refine ⟨?_, fun r o' ho' => ?_, hpcbs⟩
  · have hplaces := congrArg List.length (places_handleClose slot w)
    simpa only [Provider.places, List.length_map] using hplaces
  · rw [hobjects] at ho'
    obtain ⟨o, ho, rfl⟩ := Option.map_eq_some_iff.mp ho'
    rw [hsessions, hqueue]
    refine ⟨o, ho, ?_⟩
    split_ifs with hr
    · obtain ⟨o₀, ho₀, hid⟩ := hl.filed slot r hr
      obtain rfl := Option.some.inj (ho.symm.trans ho₀)
      refine ⟨rfl, rfl, rfl, fun hr' => ?_, fun h => by cases h⟩
      rw [show o.session.handleClose.1.connId = slot from hid, Function.update_self] at hr'
      cases hr'
    · refine ⟨rfl, rfl, rfl, fun hr' => ⟨?_, rfl⟩, fun h => ⟨h, rfl⟩⟩
      by_cases hid : o.session.connId = slot
      · rw [hid, Function.update_self] at hr'
        cases hr'
      · rwa [Function.update_of_ne hid] at hr'

end

section

variable {ks : Keystream} {l : Ledger} {s : System}

theorem Accounted.closed (h : Accounted ks l) (hlinked : Linked s.tunnel) (howned : Owned s.tunnel)
    (hclosed : Closed l.tunnel s.tunnel) : Accounted ks { l with system := s } := by
  refine h.change hlinked howned hclosed.length ?_ ?_ ?_ ?_
  · intro r o' ho'
    obtain ⟨o, ho, howner, hfresh, hpending, hfiled, halive⟩ := hclosed.objects r o' ho'
    refine ⟨o, ho, howner, fun id hid => ?_⟩
    exact (h.books r o id ho hid).frame ⟨rfl, rfl, rfl, rfl, rfl, rfl⟩ hfresh hpending hfiled halive
  · exact fun _ _ => ⟨rfl, rfl, rfl, rfl⟩
  · exact fun _ _ => ⟨rfl, rfl, rfl⟩
  · exact fun q hq => ⟨q, hclosed.pcbs q hq, rfl, rfl⟩

/-- Neither the Swift side nor a pcb changes. -/
theorem Accounted.still (h : Accounted ks l) (hlinked : Linked s.tunnel) (howned : Owned s.tunnel)
    (hswift : s.tunnel.swift = l.tunnel.swift)
    (hpcbs : s.tunnel.bridge.pcbs = l.tunnel.bridge.pcbs) : Accounted ks { l with system := s } :=
  h.closed hlinked howned (.of_bridge hswift fun _ hq => hpcbs ▸ hq)

/-! ## Events with a stream -/

@[simp]
theorem extend_nil {α : Type*} (f : ℕ → List α) (k : ℕ) : extend f k [] = f := by
  unfold extend
  rw [List.append_nil, Function.update_eq_self]

/-- A message of the web socket is queued. -/
theorem Accounted.posted (h : Accounted ks l) {r : ℕ} {data : Bytes}
    (hopened : l.tunnel.swift.opened r = true)
    (hlinked : Linked (l.system.post (.wsData r data)).tunnel)
    (howned : Owned (l.system.post (.wsData r data)).tunnel) :
    Accounted ks { l with posted := extend l.posted r [data]
                          system := l.system.post (.wsData r data) } := by
  have hwaiting (k : ℕ) : waitingIn (l.tunnel.swift.queue ++ [.wsData r data]) k =
      waitingIn l.tunnel.swift.queue k ++ if r = k then [data] else [] := by
    rw [waitingIn_append, waitingIn_cons]
    exact congrArg _ (List.append_nil _)
  refine h.change hlinked howned rfl ?_ ?_ (fun _ _ => ⟨rfl, rfl, rfl⟩)
    fun q hq => ⟨q, hq, rfl, rfl⟩
  · intro k o ho
    refine ⟨o, ho, rfl, fun id hid => ?_⟩
    have hbook := h.books k o id ho hid
    by_cases hk : k = r
    · subst hk
      refine ⟨hbook.asked, hbook.fed, hbook.filed, hbook.delivered, ?_, fun hdead => ?_⟩
      · show l.messages k <+: extend l.posted k [data] k
        rw [extend_self]
        exact hbook.messages.trans (List.prefix_append _ _)
      · show extend l.posted k [data] k =
          l.messages k ++ waitingIn (l.tunnel.swift.queue ++ [.wsData k data]) k
        rw [extend_self, hwaiting, if_pos rfl, hbook.alive hdead, List.append_assoc]
    · refine hbook.frame ⟨rfl, rfl, rfl, rfl, extend_of_ne hk .., rfl⟩ rfl rfl
        (fun hr => ⟨hr, rfl⟩) fun hdead => ⟨hdead, ?_⟩
      refine (hwaiting k).trans ?_
      rw [if_neg (Ne.symm hk), List.append_nil]
  · intro k hk
    have hne : k ≠ r := by
      rintro rfl
      unfold Provider.opened at hopened
      rw [List.getElem?_eq_none_iff.mpr hk] at hopened
      cases hopened
    exact ⟨rfl, rfl, extend_of_ne hne .., rfl⟩

/-- A handler of the session `r` has written, and taken in the messages `ms`
that waited first. -/
theorem Accounted.writes {L : Lwip} (h : Accounted ks l) {r id : ℕ} {o : SessionObject}
    (ho : l.tunnel.swift.objects[r]? = some o) (hid : o.owner = some id) {ms : List Bytes}
    {queue : List Block}
    (hqueue : waitingIn l.tunnel.swift.queue r = ms ++ waitingIn queue r)
    (hothers : ∀ k, k ≠ r → waitingIn queue k = waitingIn l.tunnel.swift.queue k)
    (hms : ms = [] ∨ o.session.dead = false) {u : Down (Line Tunnel)}
    (hu : Recorded L { l.tunnel with swift.queue := queue } r id o.session ms.flatten u)
    (hs : s.tunnel = Provider.update u.world.world r u.session u.log)
    (hlinked : Linked s.tunnel) (howned : Owned s.tunnel) :
    Accounted ks { l with written := extend l.written id u.world.calls
                          messages := extend l.messages r ms
                          system := s } := by
  obtain ⟨pending, hsession⟩ := hu.pending
  obtain ⟨calls, hswift, -⟩ := hu.logs.wrote.swift
  have hfound : u.world.world.swift.objects[r]? = some o := by
    rw [hswift]
    exact ho
  have hobject (k : ℕ) : s.tunnel.swift.objects[k]? =
      if k = r then some { o with session := u.session } else l.tunnel.swift.objects[k]? := by
    rw [hs, update_object hfound, hswift]
  have hsessions : s.tunnel.swift.sessions = l.tunnel.swift.sessions := by
    rw [hs, show (Provider.update u.world.world r u.session u.log).swift.sessions =
      u.world.world.swift.sessions from rfl, hswift]
  have hqueue' : s.tunnel.swift.queue = queue := by
    rw [hs, show (Provider.update u.world.world r u.session u.log).swift.queue =
      u.world.world.swift.queue from rfl, hswift]
  have hpcbs : s.tunnel.bridge.pcbs =
      grow l.tunnel.bridge.pcbs id (accepted u.world.calls).length := by
    rw [hs]
    exact hu.logs.pcbs
  refine h.change hlinked howned ?_ ?_ ?_ ?_ ?_
  · show s.tunnel.swift.objects.length = _
    rw [hs, show (Provider.update u.world.world r u.session u.log).swift.objects.length =
      u.world.world.swift.objects.length from List.length_modify .., hswift]
  · intro k o' ho'
    replace ho' := (hobject k).symm.trans ho'
    split_ifs at ho' with hk
    · subst hk
      obtain rfl := Option.some.inj ho'
      refine ⟨o, ho, rfl, fun id' hid' => ?_⟩
      obtain rfl := Option.some.inj (hid.symm.trans hid')
      have hbook := h.books k o id ho hid
      have hup : u.session.upstream = o.session.upstream := by rw [hsession]; rfl
      have hfresh : u.session.fresh = o.session.fresh := by rw [hsession]; rfl
      have hconnId : u.session.connId = o.session.connId := by rw [hsession]
      have hdead : u.session.dead = o.session.dead := by rw [hsession]
      have hrow : extend l.messages k ms k = l.messages k ++ ms := extend_self ..
      refine ⟨?_, hbook.fed, fun hr => ?_, ?_, ?_, fun halive => ?_⟩
      · show _ = (feed ks ⟨u.session.fresh, {}, []⟩ (l.fed k)).effects
        rw [hfresh]
        exact hbook.asked
      · show l.fed k = copies (l.received id) ∧
          (feed ks ⟨u.session.fresh, {}, []⟩ (l.fed k)).session.upstream = u.session.upstream
        rw [hfresh, hup]
        refine hbook.filed ?_
        rw [← hsessions, ← hconnId]
        exact hr
      · show accepted (extend l.written id u.world.calls id) ++ u.session.pending.getD [] =
          (extend l.messages k ms k).flatten
        rw [extend_self, hrow, List.flatten_append, ← hbook.delivered]
        rw [show accepted (l.written id ++ u.world.calls) =
          accepted (l.written id) ++ accepted u.world.calls from List.flatMap_append ..]
        rw [List.append_assoc, hu.delivered, List.append_assoc]
      · show extend l.messages k ms k <+: l.posted k
        rw [hrow]
        rcases hms with rfl | halive
        · rw [List.append_nil]
          exact hbook.messages
        · rw [hbook.alive halive, hqueue, ← List.append_assoc]
          exact List.prefix_append _ _
      · show l.posted k = extend l.messages k ms k ++ waitingIn s.tunnel.swift.queue k
        rw [hrow, hqueue', hbook.alive (hdead.symm.trans halive), hqueue, List.append_assoc]
    · refine ⟨o', ho', rfl, fun id' hid' => ?_⟩
      have hne : id' ≠ id := by
        rintro rfl
        exact hk (h.owned.eq_of_owner ho' ho (hid'.trans hid.symm))
      refine (h.books k o' id' ho' hid').frame
        ⟨rfl, extend_of_ne hne .., rfl, rfl, rfl, extend_of_ne hk ..⟩ rfl rfl (fun hr => ⟨?_, rfl⟩)
        fun hdead => ⟨hdead, ?_⟩
      · rw [← hsessions]
        exact hr
      · exact (congrArg (waitingIn · k) hqueue').trans (hothers k hk)
  · intro k hk
    have hne : k ≠ r := by
      rintro rfl
      exact absurd (List.getElem?_eq_some_iff.mp ho).1 (not_lt.mpr hk)
    exact ⟨rfl, rfl, rfl, extend_of_ne hne ..⟩
  · intro id' hid'
    have hne : id' ≠ id := by
      rintro rfl
      exact hid' o (List.mem_of_getElem? ho) hid
    exact ⟨rfl, extend_of_ne hne .., rfl⟩
  · intro q hq
    have hgrown : q ∈ grow l.tunnel.bridge.pcbs id (accepted u.world.calls).length := hpcbs ▸ hq
    obtain ⟨p, hp, hpid, hqueued⟩ := mem_grow hgrown
    refine ⟨p, hp, hpid, ?_⟩
    show (accepted (extend l.written id u.world.calls q.id)).length + _ + _ = _
    rw [hpid] at hqueued
    split_ifs at hqueued with hqid
    · subst hqid
      rw [extend_self, show accepted (l.written q.id ++ u.world.calls) =
        accepted (l.written q.id) ++ accepted u.world.calls from List.flatMap_append ..,
        List.length_append, hqueued]
      dsimp only
      omega
    · rw [extend_of_ne hqid, hqueued, Nat.add_zero]

/-- The client acknowledges bytes that were queued. -/
theorem Accounted.acked (h : Accounted ks l) {p : Pcb} (hp : p ∈ l.tunnel.bridge.pcbs)
    (hacc : p.accepted = true) {len : ℕ} (hlen : len ≤ p.queued)
    (hlinked : Linked (l.tunnel.onBridge (·.ack p.id len))) :
    Accounted ks { l with acked := Function.update l.acked p.id (l.acked p.id + len)
                          system.tunnel := l.tunnel.onBridge (·.ack p.id len) } := by
  have howned : Owned (l.tunnel.onBridge (·.ack p.id len)) :=
    h.owned.fewer rfl (l.tunnel.bridge.ack_quiet p.id len).fewer
  refine h.change hlinked howned rfl ?_ (fun _ _ => ⟨rfl, rfl, rfl, rfl⟩) ?_ ?_
  · intro k o ho
    refine ⟨o, ho, rfl, fun id hid => ?_⟩
    exact (h.books k o id ho hid).frame ⟨rfl, rfl, rfl, rfl, rfl, rfl⟩ rfl rfl
      (fun hr => ⟨hr, rfl⟩) fun hdead => ⟨hdead, rfl⟩
  · intro id hid
    have hne : id ≠ p.id := by
      rintro rfl
      obtain ⟨o, ho, howner⟩ := h.owned.session hp hacc
      exact hid o ho howner
    exact ⟨rfl, rfl, Function.update_of_ne hne ..⟩
  · intro q hq
    obtain ⟨q₀, hq₀, rfl⟩ := List.mem_map.mp hq
    refine ⟨q₀, hq₀, ?_⟩
    dsimp only
    split_ifs with hid
    · obtain rfl := h.linked.slots.eq_of_id hq₀ hp hid
      refine ⟨rfl, ?_⟩
      rw [Function.update_self]
      dsimp only
      omega
    · refine ⟨rfl, ?_⟩
      rw [Function.update_of_ne hid]

/-- The pcb in the slot of a session is the one it was made for. -/
theorem Linked.holder_owner {w : Tunnel} (hl : Linked w) (ho : Owned w) {r : ℕ} {o : SessionObject}
    (hr : w.swift.sessions o.session.connId = some r) (hobject : w.swift.objects[r]? = some o)
    {c : Conn} (hc : w.bridge.connOfId o.session.connId = some c) :
    ∃ id, o.owner = some id ∧ w.bridge.holder o.session.connId = some id := by
  obtain ⟨id, howner, -⟩ := ho.owner hobject
  refine ⟨id, howner, ?_⟩
  unfold Bridge.holder
  rw [hc, ← howner]
  exact (hl.owner _ r o hr hobject c hc).1

/-- What `handleSent` finds in the slot of an accepted pcb. -/
theorem Linked.session_of_pcb {w : Tunnel} (hl : Linked w) {p : Pcb} (hp : p ∈ w.bridge.pcbs)
    (hacc : p.accepted = true) {r : ℕ} {session : TunnelSession}
    (h : w.swift.session? p.arg = some (r, session)) :
    ∃ o c, w.swift.objects[r]? = some o ∧ o.session = session ∧ o.session.connId = p.arg ∧
      w.swift.sessions o.session.connId = some r ∧
      w.bridge.connOfId o.session.connId = some c ∧ o.owner = some p.id := by
  obtain ⟨hr, o, hobject, rfl⟩ := Provider.session?_eq_some h
  obtain ⟨o', hobject', hid⟩ := hl.filed p.arg r hr
  obtain rfl := Option.some.inj (hobject.symm.trans hobject')
  obtain ⟨c, hc, -, -, hpcb⟩ := hl.slots.connOfId hp hacc
  have howner := (hl.owner p.arg r o hr hobject c hc).1
  rw [← hid] at hr hc
  exact ⟨o, c, hobject, rfl, hid, hr, hc, howner.symm.trans hpcb⟩

/-- Data of the client. -/
theorem Accounted.received {L : Lwip} (h : Accounted ks l) {p : Pcb}
    (hp : p ∈ l.tunnel.bridge.pcbs) (hacc : p.accepted = true) {r : ℕ} {session : TunnelSession}
    (hsession : l.tunnel.swift.session? p.arg = some (r, session)) (data : Bytes) :
    let u := handleData ks ⟨session, l.tunnel.swift.log, []⟩ data
    ∀ s : System, s.tunnel = (Provider.perform L r u.effects
        (Provider.update l.tunnel r u.session u.log)).onBridge (·.tcpRecved p.id data.length) →
      Linked s.tunnel → Owned s.tunnel →
      Accounted ks { l with received := extend l.received p.id [(data, true)]
                            fed := extend l.fed r [data]
                            asked := extend l.asked r u.effects
                            system := s } := by
  intro u s hs hlinked howned
  obtain ⟨o, c, hobject, rfl, hid, hr, hc, howner⟩ :=
    h.linked.session_of_pcb hp hacc hsession
  have hbook := h.books r o p.id hobject howner
  obtain ⟨hall, hup⟩ := hbook.filed hr
  have hkept := TunnelSession.handleData_kept ks ⟨o.session, l.tunnel.swift.log, []⟩ data
  have hsame := @TunnelSession.handleData_same ks
    (feed ks ⟨o.session.fresh, {}, []⟩ (l.fed r)).effects
    (feed ks ⟨o.session.fresh, {}, []⟩ (l.fed r)) ⟨o.session, l.tunnel.swift.log, []⟩
    ⟨hup, (List.append_nil _).symm⟩ data
  rw [← TunnelSession.feed_concat] at hsame
  have hfresh : u.session.fresh = o.session.fresh := by
    have hconnId : u.session.connId = o.session.connId := congrArg TunnelSession.Kept.connId hkept
    have hdcIP : u.session.dcIP = o.session.dcIP := congrArg TunnelSession.Kept.dcIP hkept
    have hworker : u.session.workerDomain = o.session.workerDomain :=
      congrArg TunnelSession.Kept.workerDomain hkept
    unfold TunnelSession.fresh
    rw [hconnId, hdcIP, hworker]
  let w := Provider.update l.tunnel r u.session u.log
  obtain ⟨hsessions, hqueue⟩ := perform_swift (L := L) r u.effects w
  have hobjects : s.tunnel.swift.objects = w.swift.objects := by
    rw [hs]
    exact (Provider.perform_keeps r u.effects w).1
  have hobject' (k : ℕ) : s.tunnel.swift.objects[k]? =
      if k = r then some { o with session := u.session } else l.tunnel.swift.objects[k]? := by
    rw [hobjects]
    exact update_object hobject u.session u.log k
  have hsessions' : s.tunnel.swift.sessions = l.tunnel.swift.sessions := by
    rw [hs]
    exact hsessions
  have hqueue' : s.tunnel.swift.queue = l.tunnel.swift.queue := by
    rw [hs]
    exact hqueue
  refine h.change hlinked howned ?_ ?_ ?_ ?_ ?_
  · show s.tunnel.swift.objects.length = _
    rw [hobjects]
    exact List.length_modify ..
  · intro k o' ho'
    replace ho' := (hobject' k).symm.trans ho'
    split_ifs at ho' with hk
    · subst hk
      obtain rfl := Option.some.inj ho'
      refine ⟨o, hobject, rfl, fun id hid => ?_⟩
      obtain rfl := Option.some.inj (howner.symm.trans hid)
      refine ⟨?_, ?_, fun _ => ?_, ?_, hbook.messages, fun hdead => ?_⟩
      · show extend l.asked k u.effects k =
          (feed ks ⟨u.session.fresh, {}, []⟩ (extend l.fed k [data] k)).effects
        rw [extend_self, extend_self, hfresh, hsame.effects, hbook.asked]
      · show extend l.fed k [data] k <+: copies (extend l.received p.id [(data, true)] p.id)
        rw [extend_self, extend_self, copies_concat_copied, hall]
      · show extend l.fed k [data] k = copies (extend l.received p.id [(data, true)] p.id) ∧
          (feed ks ⟨u.session.fresh, {}, []⟩ (extend l.fed k [data] k)).session.upstream =
            u.session.upstream
        rw [extend_self, extend_self, copies_concat_copied, hfresh, hall]
        rw [hall] at hsame
        exact ⟨rfl, hsame.session⟩
      · rw [show u.session.pending = o.session.pending from
          congrArg TunnelSession.Kept.pending hkept]
        exact hbook.delivered
      · refine (hbook.alive ?_).trans (congrArg (l.messages k ++ waitingIn · k) hqueue'.symm)
        exact (congrArg TunnelSession.Kept.dead hkept).symm.trans hdead
    · refine ⟨o', ho', rfl, fun id hid => ?_⟩
      have hne : id ≠ p.id := by
        rintro rfl
        exact hk (h.owned.eq_of_owner ho' hobject (hid.trans howner.symm))
      refine (h.books k o' id ho' hid).frame
        ⟨congrArg copies (extend_of_ne hne ..), rfl, extend_of_ne hk .., extend_of_ne hk ..,
          rfl, rfl⟩ rfl rfl
        (fun hr => ⟨?_, rfl⟩) fun hdead => ⟨hdead, congrArg (waitingIn · k) hqueue'⟩
      rw [← hsessions']
      exact hr
  · intro k hk
    have hne : k ≠ r := by
      rintro rfl
      exact absurd (List.getElem?_eq_some_iff.mp hobject).1 (not_lt.mpr hk)
    exact ⟨extend_of_ne hne .., extend_of_ne hne .., rfl, rfl⟩
  · intro id hid
    have hne : id ≠ p.id := by
      rintro rfl
      exact hid o (List.mem_of_getElem? hobject) howner
    exact ⟨extend_of_ne hne .., rfl, rfl⟩
  · intro q hq
    have hbridge : s.tunnel.bridge.pcbs = (Provider.perform L r u.effects w).bridge.pcbs := by
      rw [hs]
      rfl
    have hq' : q ∈ (Provider.perform L r u.effects w).bridge.pcbs := hbridge ▸ hq
    exact ⟨q, (Closed.perform (w := w) h.linked.slots r u.effects).pcbs q hq', rfl, rfl⟩

/-- Data of the client that is not copied, or finds no session. -/
theorem Accounted.ignored (h : Accounted ks l) {p : Pcb} (hp : p ∈ l.tunnel.bridge.pcbs)
    (hacc : p.accepted = true) {malloc : Bool}
    (hsession : malloc = true → l.tunnel.swift.session? p.arg = none) (data : Bytes)
    (hlinked : Linked s.tunnel) (howned : Owned s.tunnel) (hswift : s.tunnel.swift = l.tunnel.swift)
    (hpcbs : s.tunnel.bridge.pcbs = l.tunnel.bridge.pcbs) :
    Accounted ks { l with received := extend l.received p.id [(data, malloc)], system := s } := by
  refine h.change hlinked howned ?_ ?_ (fun _ _ => ⟨rfl, rfl, rfl, rfl⟩) ?_ ?_
  · exact congrArg (·.objects.length) hswift
  · intro k o ho
    have hobject : l.tunnel.swift.objects[k]? = some o := hswift ▸ ho
    refine ⟨o, hobject, rfl, fun id hid => ?_⟩
    have hbook := h.books k o id hobject hid
    have hlost (hcopied : malloc = false ∨ id ≠ p.id) :
        copies (extend l.received p.id [(data, malloc)] id) = copies (l.received id) := by
      by_cases hid' : id = p.id
      · rw [hid', extend_self, hcopied.resolve_right (not_not.mpr hid'), copies_concat_lost]
      · rw [extend_of_ne hid']
    -- with a copy, the session made for the pcb is not in the dictionary any more
    have hfiled (hr : l.tunnel.swift.sessions o.session.connId = some k) :
        malloc = false ∨ id ≠ p.id := by
      by_contra hfound
      obtain ⟨hmalloc, hsame⟩ := not_or.mp hfound
      obtain rfl := not_not.mp hsame
      obtain ⟨id, howner, -, hpcb⟩ := h.owned.owner hobject
      obtain rfl := Option.some.inj (hid.symm.trans howner)
      have hnone := hsession (eq_true_of_ne_false hmalloc)
      rw [← (hpcb p hp rfl).2] at hr
      simp [Provider.session?, hr, hobject] at hnone
    refine ⟨hbook.asked, ?_, fun hr => ?_, hbook.delivered, hbook.messages, fun hdead => ?_⟩
    · refine hbook.fed.trans ?_
      show copies (l.received id) <+: copies (extend l.received p.id [(data, malloc)] id)
      by_cases hid' : id = p.id
      · rw [hid', extend_self]
        unfold copies
        rw [List.filter_append, List.map_append]
        exact List.prefix_append _ _
      · rw [extend_of_ne hid']
    · have hr' : l.tunnel.swift.sessions o.session.connId = some k := hswift ▸ hr
      obtain ⟨hall, hup⟩ := hbook.filed hr'
      exact ⟨hall.trans (hlost (hfiled hr')).symm, hup⟩
    · exact (hbook.alive hdead).trans
        (congrArg (fun p : Provider => l.messages k ++ waitingIn p.queue k) hswift.symm)
  · intro id hid
    have hne : id ≠ p.id := by
      rintro rfl
      obtain ⟨o, ho, howner⟩ := h.owned.session hp hacc
      exact hid o ho howner
    exact ⟨extend_of_ne hne .., rfl, rfl⟩
  · intro q hq
    have hq' : q ∈ l.tunnel.bridge.pcbs := hpcbs ▸ hq
    exact ⟨q, hq', rfl, rfl⟩

/-- Nothing waits for a session that does not exist yet. -/
theorem Linked.waitingIn_unborn {w : Tunnel} (hl : Linked w) {r : ℕ}
    (hr : w.swift.objects.length ≤ r) : waitingIn w.swift.queue r = [] := by
  unfold waitingIn
  rw [List.filterMap_eq_nil_iff]
  intro block hblock
  cases block with
  | wsData k data =>
    obtain ⟨o, ho, -⟩ := hl.known _ hblock
    have hne : k ≠ r := by
      rintro rfl
      exact absurd (List.getElem?_eq_some_iff.mp ho).1 (not_lt.mpr hr)
    exact if_neg hne
  | wsClose k => rfl
  | stop => rfl

/-- A SYN opens a pcb. -/
theorem Accounted.halfOpen (h : Accounted ks l) (given : NetifInput) (unclaimed : Option ClientKey)
    (hs : s.tunnel = l.tunnel.onBridge (·.halfOpen given unclaimed)) (hlinked : Linked s.tunnel)
    (howned : Owned s.tunnel) : Accounted ks { l with system := s } := by
  have hswift : s.tunnel.swift = l.tunnel.swift := by rw [hs]; rfl
  refine ⟨hlinked, howned, fun r o id ho hid => ?_, fun r hr => ?_, fun id hid => ?_,
    fun q hq => ?_⟩
  · have ho' : l.tunnel.swift.objects[r]? = some o := hswift ▸ ho
    refine (h.books r o id ho' hid).frame ⟨rfl, rfl, rfl, rfl, rfl, rfl⟩ rfl rfl
      (fun hr => ⟨hswift ▸ hr, rfl⟩) fun hdead => ⟨hdead, ?_⟩
    exact congrArg (fun p : Provider => waitingIn p.queue r) hswift
  · refine h.unborn r ?_
    rw [← hswift]
    exact hr
  · refine h.unowned id ?_
    rw [← hswift]
    exact hid
  · have hq' : q ∈ (l.tunnel.bridge.halfOpen given unclaimed).pcbs := by
      have hbridge : s.tunnel.bridge = l.tunnel.bridge.halfOpen given unclaimed := by rw [hs]; rfl
      exact hbridge ▸ hq
    rcases List.mem_append.mp hq' with hq' | hq'
    · exact h.queued q hq'
    · obtain rfl := List.mem_singleton.mp hq'
      -- nothing is known of a number that was never used
      have hfree : ∀ o ∈ l.tunnel.swift.objects,
          o.owner ≠ some (l.tunnel.bridge.newPcb given).id := by
        intro o ho heq
        obtain ⟨r, hr⟩ := List.mem_iff_getElem?.mp ho
        obtain ⟨id, howner, hlt, -⟩ := h.owned.owner hr
        obtain rfl := Option.some.inj (howner.symm.trans heq)
        exact absurd hlt (lt_irrefl _)
      obtain ⟨-, hwritten, hacked⟩ := h.unowned _ hfree
      show (accepted (l.written (l.tunnel.bridge.newPcb given).id)).length =
        0 + l.acked (l.tunnel.bridge.newPcb given).id
      rw [hwritten, hacked]
      rfl

/-- A connection is accepted into a free slot. -/
theorem Accounted.accept (h : Accounted ks l) {p : Pcb} {slot : ℕ}
    (hp : p ∈ l.tunnel.bridge.pcbs) (hhalf : p.accepted = false)
    (hs : s.tunnel = Provider.handleAccept slot (l.tunnel.onBridge (·.acceptInto p slot)))
    (hholder : (l.tunnel.bridge.acceptInto p slot).holder slot = some p.id)
    (hlinked : Linked s.tunnel) (howned : Owned s.tunnel) :
    Accounted ks { l with system := s } := by
  have hobjects : ∃ new : SessionObject, new.session.pending = none ∧
      new.session = new.session.fresh ∧ new.owner = some p.id ∧ new.session.connId = slot ∧
      s.tunnel.swift.objects = l.tunnel.swift.objects ++ [new] := by
    refine ⟨_, ?_, ?_, ?_, ?_, congrArg (·.swift.objects) hs⟩
    · rfl
    · rfl
    · exact hholder
    · rfl
  obtain ⟨new, hpending, hfresh, hnew, hconnId, hobjects⟩ := hobjects
  have hsessions : s.tunnel.swift.sessions =
      Function.update l.tunnel.swift.sessions slot (some l.tunnel.swift.objects.length) := by
    rw [hs]
    rfl
  have hqueue : s.tunnel.swift.queue = l.tunnel.swift.queue := by
    rw [hs]
    rfl
  have hfree : ∀ o ∈ l.tunnel.swift.objects, o.owner ≠ some p.id := by
    intro o ho heq
    obtain ⟨r, hr⟩ := List.mem_iff_getElem?.mp ho
    obtain ⟨id, howner, -, hpcb⟩ := h.owned.owner hr
    obtain rfl := Option.some.inj (howner.symm.trans heq)
    rw [(hpcb p hp rfl).1] at hhalf
    cases hhalf
  obtain ⟨hreceived, hwritten, hacked⟩ := h.unowned p.id hfree
  obtain ⟨hfed, hasked, hposted, hmessages⟩ := h.unborn _ le_rfl
  refine ⟨hlinked, howned, fun r o id ho hid => ?_, fun r hr => ?_, fun id hid => ?_,
    fun q hq => ?_⟩
  · have ho' : (l.tunnel.swift.objects ++ [new])[r]? = some o := hobjects ▸ ho
    rcases getElem?_concat_cases ho' with ho' | ⟨rfl, rfl⟩
    · have hlt := (List.getElem?_eq_some_iff.mp ho').1
      refine (h.books r o id ho' hid).frame ⟨rfl, rfl, rfl, rfl, rfl, rfl⟩ rfl rfl
        (fun hr => ⟨?_, rfl⟩) fun hdead => ⟨hdead, congrArg (waitingIn · r) hqueue⟩
      replace hr := (congrFun hsessions _).symm.trans hr
      by_cases hi : o.session.connId = slot
      · rw [hi, Function.update_self] at hr
        exact absurd (Option.some.inj hr) hlt.ne'
      · rwa [Function.update_of_ne hi] at hr
    · obtain rfl := Option.some.inj (hnew.symm.trans hid)
      refine ⟨?_, ?_, fun _ => ?_, ?_, ?_, fun _ => ?_⟩
      · show l.asked _ = (feed ks _ (l.fed _)).effects
        rw [hasked, hfed]
        rfl
      · show l.fed _ <+: copies (l.received p.id)
        rw [hfed]
        exact List.nil_prefix
      · show l.fed _ = copies (l.received p.id) ∧
          (feed ks ⟨o.session.fresh, {}, []⟩ (l.fed _)).session.upstream = o.session.upstream
        rw [hfed, hreceived]
        exact ⟨rfl, congrArg TunnelSession.upstream hfresh.symm⟩
      · show accepted (l.written p.id) ++ o.session.pending.getD [] = (l.messages _).flatten
        rw [hwritten, hmessages, hpending]
        rfl
      · show l.messages _ <+: l.posted _
        rw [hmessages]
        exact List.nil_prefix
      · show l.posted _ = l.messages _ ++ waitingIn s.tunnel.swift.queue _
        rw [hposted, hmessages, hqueue, h.linked.waitingIn_unborn le_rfl]
        rfl
  · have hlength := congrArg List.length hobjects
    rw [List.length_append, List.length_singleton] at hlength
    refine h.unborn r ?_
    have hr' : s.tunnel.swift.objects.length ≤ r := hr
    omega
  · refine h.unowned id fun o ho => hid o ?_
    show o ∈ s.tunnel.swift.objects
    rw [hobjects]
    exact List.mem_append_left _ ho
  · have hpcbs : s.tunnel.bridge.pcbs =
        l.tunnel.bridge.pcbs.map fun q => if q.id = p.id then p.inSlot slot else q := by
      rw [hs]
      exact (accepted_acceptInto l.tunnel.bridge p slot).pcbs
    have hq' := hpcbs ▸ hq
    obtain ⟨q₀, hq₀, rfl⟩ := List.mem_map.mp hq'
    split_ifs
    · exact h.queued p hp
    · exact h.queued q₀ hq₀

end

end WSBridge
