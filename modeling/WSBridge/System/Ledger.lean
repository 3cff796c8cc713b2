import WSBridge.Session.Erasure
import WSBridge.System.Backlog
import WSBridge.System.Stall

/-!
# The books of a tunnel

A `Ledger` is a tunnel with the history of its streams. It is kept by pcb where
lwIP is concerned (the segments `tcp_recv_cb` has got, what `tcp_write` has
answered, what the client has acknowledged), and by session where the Swift side
is (the data a session was given and what it asked for, the messages of its web
socket and those it has processed). The history decides nothing.

Results:
* `ledger_system`: the tunnel of a ledger runs as a tunnel does.
* `Owned.step`: every session was made for a pcb of its own, and as long as lwIP
  holds that pcb, its callback argument is the slot of the session.
-/

namespace WSBridge

open WSBridge.Foundation
open Provider (Tunnel)
open TunnelSession (Down Line logged accepted handleData wsDataBlock handleSent)

/-! ## The ledger -/

/-- A tunnel and the history of its streams. -/
structure Ledger where
  system : System
  /-- By pcb: the segments `tcp_recv_cb` has got, and whether its `malloc` has
  found memory for a copy (lines 258–270). -/
  received : ℕ → List (Bytes × Bool) := fun _ => []
  /-- By pcb: the bytes the client has acknowledged. -/
  acked : ℕ → ℕ := fun _ => 0
  /-- By pcb: the calls of `lwip_bridge_write`, with their answers. -/
  written : ℕ → List (Bytes × Bool) := fun _ => []
  /-- By session: the data handed to `handleData`. -/
  fed : ℕ → List Bytes := fun _ => []
  /-- By session: what `handleData` has asked for. -/
  asked : ℕ → List Effect := fun _ => []
  /-- By session: the messages of its web socket. -/
  posted : ℕ → List Bytes := fun _ => []
  /-- By session: the messages whose blocks have run on it while it lived. -/
  messages : ℕ → List Bytes := fun _ => []

/-- A row of a table grows. -/
def extend {α : Type*} (f : ℕ → List α) (k : ℕ) (more : List α) : ℕ → List α :=
  Function.update f k (f k ++ more)

@[simp]
theorem extend_self {α : Type*} (f : ℕ → List α) (k : ℕ) (more : List α) :
    extend f k more k = f k ++ more := Function.update_self ..

theorem extend_of_ne {α : Type*} {k j : ℕ} (h : j ≠ k) (f : ℕ → List α) (more : List α) :
    extend f k more j = f j := Function.update_of_ne h ..

/-- The segments of which `tcp_recv_cb` has made a copy. -/
def copies (segments : List (Bytes × Bool)) : List Bytes :=
  (segments.filter Prod.snd).map Prod.fst

@[simp]
theorem copies_concat_copied (segments : List (Bytes × Bool)) (data : Bytes) :
    copies (segments ++ [(data, true)]) = copies segments ++ [data] := by
  simp [copies]

@[simp]
theorem copies_concat_lost (segments : List (Bytes × Bool)) (data : Bytes) :
    copies (segments ++ [(data, false)]) = copies segments := by
  simp [copies]

/-- An ACK frees bytes of a pcb. -/
def Bridge.ack (b : Bridge) (id len : ℕ) : Bridge :=
  b.onPcb id fun p => { p with queued := p.queued - len }

theorem Bridge.ack_quiet (b : Bridge) (id len : ℕ) : Quiet b (b.ack id len) :=
  ⟨rfl, rfl, onPcb_view b id fun _ => rfl, rfl, rfl, rfl⟩

namespace Ledger

variable (L : Lwip) (ks : Keystream)

/-- The tunnel before its first event, with no history. -/
def init (workerDomain : Option String) : Ledger := { system := System.init workerDomain }

/-- The Swift side and the bridge. -/
def tunnel (l : Ledger) : Tunnel := l.system.tunnel

/-- The session in the slot of a pcb. -/
def sessionOf (w : Tunnel) (id : ℕ) : Option (ℕ × TunnelSession) :=
  (w.bridge.pcb? id).bind fun p => w.swift.session? p.arg

/-- A handler of the session `r` with its calls of `lwip_bridge_write` recorded. -/
def recorded (w : Tunnel) (r : ℕ) (session : TunnelSession)
    (f : (Bytes → Line Tunnel → Bool × Line Tunnel) → Down (Line Tunnel) → Down (Line Tunnel)) :
    Down (Line Tunnel) :=
  f (logged (Provider.bridgeWrite L r session.connId)) ⟨session, w.swift.log, { world := w }⟩

/-- The calls went to the pcb in the slot of the session. -/
def wrote (l : Ledger) (w : Tunnel) (session : TunnelSession) (calls : List (Bytes × Bool)) :
    Ledger :=
  match w.bridge.holder session.connId with
  | some id => { l with written := extend l.written id calls }
  | none => l

/-- The block of a message runs; `queue` is what it leaves. -/
def ran (l : Ledger) (held : Bool) (r : ℕ) (data : Bytes) (queue : List Block) : Ledger :=
  let w := { l.tunnel with swift.queue := queue }
  match w.swift.weak held r with
  | some session =>
    if session.dead then l
    else { l.wrote w session
        (recorded L w r session fun write u => wsDataBlock write u data).world.calls with
      messages := extend l.messages r [data] }
  | none => l

/-- A segment reaches `tcp_recv_cb`, which hands a copy of it to `g_recv` if
`malloc` finds memory. -/
def took (l : Ledger) (id : ℕ) (data : Bytes) (malloc : Bool) : Ledger :=
  let l := { l with received := extend l.received id [(data, malloc)] }
  if malloc then
    match sessionOf l.tunnel id with
    | some (r, session) => { l with
        fed := extend l.fed r [data]
        asked := extend l.asked r (handleData ks ⟨session, l.tunnel.swift.log, []⟩ data).effects }
    | none => l
  else l

/-- The client acknowledges bytes. -/
def freed (l : Ledger) (id len : ℕ) : Ledger :=
  let w := l.tunnel.onBridge (·.ack id len)
  let l := { l with acked := Function.update l.acked id (l.acked id + len) }
  match sessionOf w id with
  | some (r, session) =>
    l.wrote w session (recorded L w r session fun write u => handleSent write u).world.calls
  | none => l

/-- The history after an event that happens. -/
def note (l : Ledger) : SystemEvent → Ledger
  | .wsData r data => { l with posted := extend l.posted r [data] }
  | .block held =>
    match l.tunnel.swift.queue with
    | .wsData r data :: queue => l.ran L held r data queue
    | _ => l
  | .lwip (.recv id (some data) err malloc) =>
    if err = 0 then l.took ks id data malloc else l
  | .lwip (.sent id len) => l.freed L id len
  | _ => l

/-- A step of the tunnel, and the history after it. -/
def step (l : Ledger) (e : SystemEvent) : Option Ledger :=
  (l.system.step L ks e).map fun system => { l.note L ks e with system }

variable {L ks}

theorem step_eq_some {l l' : Ledger} {e : SystemEvent} (h : l.step L ks e = some l') :
    ∃ s, l.system.step L ks e = some s ∧ l' = { l.note L ks e with system := s } := by
  obtain ⟨s, hs, rfl⟩ := Option.map_eq_some_iff.mp h
  exact ⟨s, hs, rfl⟩

/-- The history decides nothing. -/
theorem ledger_system (events : List SystemEvent) (l : Ledger) :
    (run (Ledger.step L ks) l events).map Ledger.system =
      run (System.step L ks) l.system events := by
  induction events generalizing l with
  | nil => rfl
  | cons e events ih =>
    simp only [run, Ledger.step]
    cases l.system.step L ks e with
    | none => rfl
    | some s => exact ih { l.note L ks e with system := s }

end Ledger

/-! ## The owner of a session -/

/-- What a session has from the beginning. -/
def SessionObject.place (o : SessionObject) : Option ℕ × ℕ := (o.owner, o.session.connId)

/-- The owners and slots of all sessions. -/
def Provider.places (p : Provider) : List (Option ℕ × ℕ) := p.objects.map SessionObject.place

/-- A session made for this owner in this slot, as lwIP's pcbs have it. -/
def Bridge.Hosts (b : Bridge) (place : Option ℕ × ℕ) : Prop :=
  ∃ id, place.1 = some id ∧ id < b.nextPcb ∧
    ∀ p ∈ b.pcbs, p.id = id → p.accepted = true ∧ p.arg = place.2

/-- Every session was made for a pcb of its own, and every accepted pcb has had
one made for it. -/
structure Owned (w : Tunnel) : Prop where
  hosts : ∀ place ∈ w.swift.places, w.bridge.Hosts place
  apart : (w.swift.places.map Prod.fst).Nodup
  covers : ∀ p ∈ w.bridge.pcbs, p.accepted = true → ∃ place ∈ w.swift.places, place.1 = some p.id

/-- No pcb is new, and none has changed but for its buffers. -/
structure Fewer (b b' : Bridge) : Prop where
  nextPcb : b'.nextPcb = b.nextPcb
  pcbs : ∀ q ∈ b'.pcbs, ∃ p ∈ b.pcbs, p.id = q.id ∧ p.accepted = q.accepted ∧ p.arg = q.arg

section

variable {b b' b'' : Bridge} {w w' : Tunnel}

theorem Fewer.of_subset (hnext : b'.nextPcb = b.nextPcb) (h : ∀ q ∈ b'.pcbs, q ∈ b.pcbs) :
    Fewer b b' :=
  ⟨hnext, fun q hq => ⟨q, h q hq, rfl, rfl, rfl⟩⟩

theorem Fewer.refl (b : Bridge) : Fewer b b := .of_subset rfl fun _ h => h

theorem Fewer.trans (h : Fewer b b') (h' : Fewer b' b'') : Fewer b b'' := by
  refine ⟨h'.nextPcb.trans h.nextPcb, fun q hq => ?_⟩
  obtain ⟨p, hp, hid, hacc, harg⟩ := h'.pcbs q hq
  obtain ⟨p', hp', hid', hacc', harg'⟩ := h.pcbs p hp
  exact ⟨p', hp', hid'.trans hid, hacc'.trans hacc, harg'.trans harg⟩

theorem Quiet.fewer (h : Quiet b b') : Fewer b b' := by
  refine ⟨h.nextPcb, fun q hq => ?_⟩
  obtain ⟨p, hp, hview⟩ := h.mem hq
  obtain ⟨hid, hacc, harg, -⟩ := view_inj hview
  exact ⟨p, hp, hid, hacc, harg⟩

theorem Torn.fewer {slot : ℕ} {c : Conn} {p : Pcb} (h : Torn b b' slot c p) : Fewer b b' := by
  refine .of_subset h.nextPcb fun q hq => ?_
  rw [h.pcbs] at hq
  exact (List.mem_filter.mp hq).1

theorem lwipBridgeClose_fewer {L : Lwip} (hs : Slots b) (slot : ℕ) :
    Fewer b (b.lwipBridgeClose L slot) := by
  cases close_effect (L := L) hs slot with
  | quiet _ h => exact h.fewer
  | close h => exact h.fewer

theorem Bridge.Hosts.fewer {place : Option ℕ × ℕ} (hb : b.Hosts place) (h : Fewer b b') :
    b'.Hosts place := by
  obtain ⟨id, howner, hlt, hpcbs⟩ := hb
  refine ⟨id, howner, by rw [h.nextPcb]; exact hlt, fun q hq hid => ?_⟩
  obtain ⟨p, hp, hid', hacc, harg⟩ := h.pcbs q hq
  rw [← hacc, ← harg]
  exact hpcbs p hp (hid'.trans hid)

theorem Owned.fewer (ho : Owned w) (hplaces : w'.swift.places = w.swift.places)
    (h : Fewer w.bridge w'.bridge) : Owned w' := by
  refine ⟨fun place hplace => ?_, ?_, fun q hq hacc => ?_⟩
  · rw [hplaces] at hplace
    exact (ho.hosts place hplace).fewer h
  · rw [hplaces]
    exact ho.apart
  · obtain ⟨p, hp, hid, hacc', -⟩ := h.pcbs q hq
    rw [hplaces, ← hid]
    exact ho.covers p hp (hacc'.trans hacc)

theorem Owned.owner (ho : Owned w) {r : ℕ} {o : SessionObject}
    (hr : w.swift.objects[r]? = some o) :
    ∃ id, o.owner = some id ∧ id < w.bridge.nextPcb ∧
      ∀ p ∈ w.bridge.pcbs, p.id = id → p.accepted = true ∧ p.arg = o.session.connId :=
  ho.hosts o.place (List.mem_map_of_mem (List.mem_of_getElem? hr))

/-- The session that was made for an accepted pcb. -/
theorem Owned.session (ho : Owned w) {p : Pcb} (hp : p ∈ w.bridge.pcbs)
    (hacc : p.accepted = true) : ∃ o ∈ w.swift.objects, o.owner = some p.id := by
  obtain ⟨place, hplace, howner⟩ := ho.covers p hp hacc
  obtain ⟨o, hmem, rfl⟩ := List.mem_map.mp hplace
  exact ⟨o, hmem, howner⟩

/-- Two sessions have two owners. -/
theorem Owned.eq_of_owner (ho : Owned w) {r k : ℕ} {o o' : SessionObject}
    (hr : w.swift.objects[r]? = some o) (hk : w.swift.objects[k]? = some o')
    (h : o.owner = o'.owner) : r = k := by
  have hlt : r < (w.swift.places.map Prod.fst).length := by
    simp only [Provider.places, List.length_map]
    exact (List.getElem?_eq_some_iff.mp hr).1
  refine (List.getElem?_inj hlt ho.apart).mp ?_
  simp only [Provider.places, List.getElem?_map, hr, hk, Option.map_some, SessionObject.place, h]

/-! ## Handlers and places -/

theorem places_update (w : Tunnel) (r : ℕ) (session : TunnelSession) (log : EventLog)
    (h : ∀ o, w.swift.objects[r]? = some o → session.connId = o.session.connId) :
    (Provider.update w r session log).swift.places = w.swift.places := by
  apply List.ext_getElem?
  intro k
  simp only [Provider.places, Provider.update, List.getElem?_map, List.getElem?_modify]
  by_cases hk : r = k
  · subst hk
    cases ho : w.swift.objects[r]? with
    | none => rfl
    | some o => simp [SessionObject.place, h o ho]
  · simp [hk]

theorem places_stopTunnel (p : Provider) : p.stopTunnel.places = p.places := by
  apply List.ext_getElem?
  intro k
  simp only [Provider.places, Provider.stopTunnel, List.getElem?_map, List.getElem?_mapIdx]
  cases p.objects[k]? with
  | none => rfl
  | some o =>
    simp only [Option.map_some]
    split_ifs
    · rfl
    · rfl

theorem places_handleClose (slot : ℕ) (w : Tunnel) :
    (Provider.handleClose slot w).swift.places = w.swift.places := by
  unfold Provider.handleClose
  cases hsession : w.swift.session? slot with
  | none => rfl
  | some found =>
    obtain ⟨r, session⟩ := found
    obtain ⟨-, o, ho, rfl⟩ := Provider.session?_eq_some hsession
    refine places_update w r o.session.handleClose.1 w.swift.log fun o' ho' => ?_
    obtain rfl := Option.some.inj (ho.symm.trans ho')
    rfl

theorem perform_fewer {L : Lwip} (hs : Slots w.bridge) (r : ℕ) (effects : List Effect) :
    Fewer w.bridge (Provider.perform L r effects w).bridge := by
  induction effects generalizing w with
  | nil => exact .refl _
  | cons e effects ih =>
    cases e with
    | bridgeClose slot =>
      have hclose := lwipBridgeClose_fewer (L := L) hs slot
      have hstep : w.bridge.step L (.close slot) = some (w.bridge.lwipBridgeClose L slot) := rfl
      exact hclose.trans (ih (w := Provider.bridgeClose L r slot w) (slots_step hs hstep))
    | connect | startPipe | send | wsClose => exact ih hs

theorem perform_places {L : Lwip} (r : ℕ) (effects : List Effect) (w : Tunnel) :
    (Provider.perform L r effects w).swift.places = w.swift.places :=
  congrArg (List.map SessionObject.place) (Provider.perform_keeps r effects w).1

theorem handleRecv_owned {L : Lwip} {ks : Keystream} (hl : Linked w) (ho : Owned w) (slot : ℕ)
    (data : Bytes) : Owned (Provider.handleRecv L ks slot data w) := by
  unfold Provider.handleRecv
  split
  · rename_i r session hsession
    obtain ⟨-, o, hr, rfl⟩ := Provider.session?_eq_some hsession
    have hkept := TunnelSession.handleData_kept ks ⟨o.session, w.swift.log, []⟩ data
    refine ho.fewer ?_ (perform_fewer (w := Provider.update w r _ _) hl.slots r _)
    rw [perform_places]
    refine places_update w r _ _ fun o' ho' => ?_
    obtain rfl := Option.some.inj (hr.symm.trans ho')
    exact congrArg TunnelSession.Kept.connId hkept
  · exact ho

/-- A handler that only writes. -/
theorem writing_owned {L : Lwip} (ho : Owned w) {r : ℕ} {o : SessionObject}
    (hr : w.swift.objects[r]? = some o)
    {f : (Bytes → Tunnel → Bool × Tunnel) → Down Tunnel → Down Tunnel}
    (hf : ∀ u, Provider.Wrote L w r o.session.connId u.world →
      TunnelSession.OnlyWrites (Provider.Wrote L w r o.session.connId) u
        (f (Provider.bridgeWrite L r o.session.connId) u)) :
    Owned (Provider.writing L w r o.session f) := by
  obtain ⟨x, pending, log, hx, heq⟩ := Provider.writing_spec hf
  obtain ⟨calls, hswift, -⟩ := hx.swift
  rw [heq]
  refine ho.fewer ?_ hx.quiet.fewer
  rw [places_update]
  · rw [hswift]
    rfl
  · intro o' ho'
    rw [hswift] at ho'
    obtain rfl := Option.some.inj (hr.symm.trans ho')
    rfl

theorem handleSent_owned {L : Lwip} (ho : Owned w) (slot : ℕ) :
    Owned (Provider.handleSent L slot w) := by
  unfold Provider.handleSent
  split
  · rename_i r session hsession
    obtain ⟨-, o, hr, rfl⟩ := Provider.session?_eq_some hsession
    exact writing_owned ho hr fun u hu =>
      TunnelSession.handleSent_onlyWrites (fun data x hx => hx.write data) u hu
  · exact ho

theorem runBlock_owned {L : Lwip} (hs : Slots w.bridge) (ho : Owned w) (held : Bool)
    (block : Block) : Owned (Provider.runBlock L held w block) := by
  unfold Provider.runBlock
  cases block with
  | wsData r data =>
    dsimp only
    split
    · rename_i session hweak
      obtain ⟨o, hr, rfl⟩ := Provider.weak_eq_some hweak
      exact writing_owned ho hr fun u hu =>
        TunnelSession.wsDataBlock_onlyWrites (fun data x hx => hx.write data) u data hu
    · exact ho
  | wsClose r =>
    dsimp only
    split
    · rename_i session hweak
      obtain ⟨o, hr, rfl⟩ := Provider.weak_eq_some hweak
      refine ho.fewer ?_ (perform_fewer (w := Provider.update w r _ _) hs r _)
      rw [perform_places]
      refine places_update w r _ _ fun o' ho' => ?_
      obtain rfl := Option.some.inj (hr.symm.trans ho')
      unfold TunnelSession.wsCloseBlock
      split_ifs
      · rfl
      · rfl
    · exact ho
  | stop => exact ho.fewer (places_stopTunnel w.swift) (.refl _)

/-! ## Events -/

theorem Owned.halfOpen (ho : Owned w) (given : NetifInput)
    (unclaimed : Option ClientKey) : Owned (w.onBridge (·.halfOpen given unclaimed)) := by
  refine ⟨fun place hplace => ?_, ho.apart, fun q hq hacc => ?_⟩
  · obtain ⟨id, howner, hlt, hpcbs⟩ := ho.hosts place hplace
    refine ⟨id, howner, Nat.lt_succ_of_lt hlt, fun q hq hid => ?_⟩
    rcases List.mem_append.mp hq with hq | hq
    · exact hpcbs q hq hid
    · obtain rfl := List.mem_singleton.mp hq
      exact absurd hid hlt.ne'
  · rcases List.mem_append.mp hq with hq | hq
    · exact ho.covers q hq hacc
    · obtain rfl := List.mem_singleton.mp hq
      cases hacc

theorem Owned.accept (ho : Owned w) (hs : Slots w.bridge) {p : Pcb} {slot : ℕ}
    (hp : p ∈ w.bridge.pcbs) (hhalf : p.accepted = false)
    (hslot : w.bridge.conns.findIdx? (!·.active) = some slot) :
    Owned (Provider.handleAccept slot (w.onBridge (·.acceptInto p slot))) := by
  have haccepted := accepted_acceptInto w.bridge p slot
  obtain ⟨hlt, -⟩ := List.findIdx?_eq_some_iff_getElem.mp hslot
  have hmem {q : Pcb} (hq : q ∈ (w.bridge.acceptInto p slot).pcbs) :
      q = p.inSlot slot ∨ q ∈ w.bridge.pcbs ∧ q.id ≠ p.id := by
    rw [haccepted.pcbs] at hq
    obtain ⟨q₀, hq₀, rfl⟩ := List.mem_map.mp hq
    split_ifs with hid
    · exact Or.inl rfl
    · exact Or.inr ⟨hq₀, hid⟩
  have hholder : (w.bridge.acceptInto p slot).holder slot = some p.id := by
    unfold Bridge.holder
    rw [haccepted.connOfId hlt, if_pos rfl]
    rfl
  -- no session was made for a pcb that is half open
  have hnew : ∀ place ∈ w.swift.places, place.1 ≠ some p.id := by
    intro place hplace heq
    obtain ⟨id, howner, -, hpcbs⟩ := ho.hosts place hplace
    obtain rfl := Option.some.inj (howner.symm.trans heq)
    rw [(hpcbs p hp rfl).1] at hhalf
    cases hhalf
  have hplaces : (Provider.handleAccept slot
      (w.onBridge (·.acceptInto p slot))).swift.places = w.swift.places ++ [(some p.id, slot)] := by
    simp only [Provider.handleAccept, Provider.places, List.map_append, List.map_singleton]
    rw [show (w.onBridge (·.acceptInto p slot)).bridge.holder slot = some p.id from hholder]
    rfl
  refine ⟨fun place hplace => ?_, ?_, fun q hq hacc => ?_⟩
  · rw [hplaces] at hplace
    rcases List.mem_append.mp hplace with hplace | hplace
    · obtain ⟨id, howner, hlt', hpcbs⟩ := ho.hosts place hplace
      refine ⟨id, howner, hlt', fun q hq hid => ?_⟩
      rcases hmem hq with rfl | ⟨hq, -⟩
      · refine absurd ?_ (hnew place hplace)
        rw [howner, ← hid]
        rfl
      · exact hpcbs q hq hid
    · obtain rfl := List.mem_singleton.mp hplace
      refine ⟨p.id, rfl, hs.fresh p hp, fun q hq hid => ?_⟩
      rcases hmem hq with rfl | ⟨-, hne⟩
      · exact ⟨rfl, rfl⟩
      · exact absurd hid hne
  · rw [hplaces, List.map_append]
    refine ho.apart.append (List.nodup_singleton _) ?_
    rw [List.map_singleton, List.disjoint_singleton]
    intro hmem
    obtain ⟨place, hplace, heq⟩ := List.mem_map.mp hmem
    exact hnew place hplace heq
  · rw [hplaces]
    rcases hmem hq with rfl | ⟨hq, -⟩
    · exact ⟨(some p.id, slot), List.mem_append_right _ (List.mem_singleton_self _), rfl⟩
    · obtain ⟨place, hplace, howner⟩ := ho.covers q hq hacc
      exact ⟨place, List.mem_append_left _ hplace, howner⟩

/-- What lwIP does keeps the owners. -/
theorem Owned.lwip {L : Lwip} {ks : Keystream} (hl : Linked w) (ho : Owned w) {e : LwipEvent}
    {r : Tunnel × Option Returned}
    (hstep : lwipStep L (Provider.handlers L ks) w e = some r) : Owned r.1 := by
  cases hl.effect hstep with
  | halfOpen given unclaimed => exact ho.halfOpen given unclaimed
  | accept p slot hphase hp hhalf hslot => exact ho.accept hl.slots hp hhalf hslot
  | acceptFailed => exact ho
  | fin p c hfin hp hacc htorn =>
    rw [show (Provider.handlers L ks).close = fun slot _ w => Provider.handleClose slot w from rfl]
    dsimp only
    rw [Provider.handleClose_onBridge]
    exact ho.fewer (places_handleClose p.arg w) htorn.fewer
  | data p d malloc hp hacc =>
    have hrecv : Owned (if malloc then Provider.handleRecv L ks p.arg d w else w) := by
      split_ifs
      · exact handleRecv_owned hl ho p.arg d
      · exact ho
    exact hrecv.fewer rfl (.of_subset rfl fun _ h => h)
  | freed p c hp hacc htorn =>
    rw [show (Provider.handlers L ks).close = fun slot _ w => Provider.handleClose slot w from rfl]
    dsimp only
    rw [Provider.handleClose_onBridge]
    exact ho.fewer (places_handleClose p.arg w) htorn.fewer
  | dropped p hp hhalf =>
    refine ho.fewer rfl (.of_subset rfl fun q hq => ?_)
    exact (List.mem_filter.mp hq).1
  | sent p len hp hacc =>
    have hacked : Owned (w.onBridge (·.ack p.id len)) :=
      ho.fewer rfl (w.bridge.ack_quiet p.id len).fewer
    exact handleSent_owned hacked p.arg
  | emit p packet => exact ho.fewer rfl (.of_subset rfl fun _ h => h)

end

/-- Every event of the tunnel keeps the owners. -/
theorem Owned.step {L : Lwip} {ks : Keystream} {s s' : System} (hl : Linked s.tunnel)
    (ho : Owned s.tunnel) {e : SystemEvent} (hstep : s.step L ks e = some s') :
    Owned s'.tunnel := by
  cases System.effect hstep with
  | wsData => exact ho.fewer rfl (.refl _)
  | wsClose => exact ho.fewer rfl (.refl _)
  | stop => exact ho.fewer rfl (.refl _)
  | block held block queue =>
    have hpop : Owned { s.tunnel with swift.queue := queue } := ho.fewer rfl (.refl _)
    exact runBlock_owned (w := { s.tunnel with swift.queue := queue }) hl.slots hpop held block
  | input data malloc pbuf hrest =>
    refine ho.fewer rfl ?_
    cases input_effect (L := L) hrest data malloc pbuf with
    | quiet _ h => exact h.fewer
    | input _ _ h =>
      refine .of_subset h.nextPcb fun q hq => ?_
      exact h.pcbs ▸ hq
  | poll => exact ho.fewer rfl (.of_subset rfl fun _ h => h)
  | done => exact ho.fewer rfl (.of_subset rfl fun _ h => h)
  | lwip e r hlwip => exact ho.lwip hl hlwip

theorem owned_init (workerDomain : Option String) : Owned (System.init workerDomain).tunnel :=
  ⟨nofun, List.nodup_nil, nofun⟩

end WSBridge
