import WSBridge.Bridge.Steps

/-!
# Slots and pcbs

What an event can do to the tables of the bridge, and the invariant that ties
the slots of `g_conns` to the pcbs of lwIP: an active slot holds an accepted
pcb whose callback argument is the slot, and every accepted pcb has its slot.

Results:
* `effect_of_step`: the effect of every event, from a state with `Slots`.
* `slots_step`, `slots_run`: `Slots` holds in every reachable state.
* `exists_inactive`: an accept always finds a slot.
-/

namespace WSBridge

open WSBridge.Foundation

namespace Bridge

/-! ## Pcbs -/

theorem pcb?_eq_some {b : Bridge} {id : ℕ} {p : Pcb} (h : b.pcb? id = some p) :
    p ∈ b.pcbs ∧ p.id = id :=
  ⟨List.mem_of_find?_eq_some h, by simpa using List.find?_some h⟩

theorem connOfId_eq_some {b : Bridge} {i : ℕ} {c : Conn} :
    b.connOfId i = some c ↔ b.conns[i]? = some c ∧ c.active = true := by
  simp [connOfId, Option.filter_eq_some_iff]

theorem freePcb_onPcb (b : Bridge) (id : ℕ) {f : Pcb → Pcb} (hf : ∀ p : Pcb, (f p).id = p.id) :
    ((b.onPcb id f).freePcb id).pcbs = (b.freePcb id).pcbs := by
  unfold onPcb freePcb
  dsimp only
  induction b.pcbs with
  | nil => rfl
  | cons p ps ih =>
    by_cases h : p.id = id
    · simpa [h, hf] using ih
    · simpa [h] using ih

/-- The pcb found before a change is found after it, changed. -/
theorem pcb?_onPcb {b : Bridge} {id : ℕ} {p : Pcb} {f : Pcb → Pcb} (hf : ∀ p : Pcb, (f p).id = p.id)
    (h : b.pcb? id = some p) : (b.onPcb id f).pcb? id = some (f p) := by
  have hcomp : (fun q : Pcb => decide ((if q.id = id then f q else q).id = id)) =
      fun q => decide (q.id = id) := by
    funext q
    by_cases hq : q.id = id
    · simp [hq, hf]
    · simp [hq]
  have hid := (pcb?_eq_some h).2
  unfold pcb? at h
  unfold pcb? onPcb
  simp only [List.find?_map, Function.comp_def, hcomp, h, Option.map_some, hid, if_true]

end Bridge

/-- The slots of `g_conns` and the pcbs of lwIP fit together. -/
structure Slots (b : Bridge) : Prop where
  conns_length : b.conns.length = maxConns
  nodup : (b.pcbs.map Pcb.id).Nodup
  fresh : ∀ p ∈ b.pcbs, p.id < b.nextPcb
  bound : b.pcbs.length ≤ memNumTcpPcb
  idle : ∀ c ∈ b.conns, c.active = false → c.pcb = none
  conn : ∀ i c, b.conns[i]? = some c → c.active = true →
    ∃ p ∈ b.pcbs, c.pcb = some p.id ∧ p.accepted = true ∧ p.arg = i ∧ p.key = c.key
  pcb : ∀ p ∈ b.pcbs, p.accepted = true →
    p.err = true ∧ ∃ c, b.conns[p.arg]? = some c ∧ c.active = true ∧ c.pcb = some p.id
  half : ∀ p ∈ b.pcbs, p.accepted = false → p.err = false ∧ p.sent = false

section

variable {b : Bridge} (hs : Slots b)

include hs

theorem Slots.eq_of_id {p q : Pcb} (hp : p ∈ b.pcbs) (hq : q ∈ b.pcbs) (h : p.id = q.id) : p = q :=
  List.inj_on_of_nodup_map hs.nodup hp hq h

theorem Slots.pcb?_of_mem {p : Pcb} (hp : p ∈ b.pcbs) : b.pcb? p.id = some p := by
  cases h : b.pcb? p.id with
  | none =>
    have := List.find?_eq_none.mp h p hp
    simp at this
  | some q =>
    obtain ⟨hq, hid⟩ := Bridge.pcb?_eq_some h
    rw [hs.eq_of_id hp hq hid.symm]

/-- The slot of an accepted pcb. -/
theorem Slots.connOfId {p : Pcb} (hp : p ∈ b.pcbs) (hacc : p.accepted = true) :
    ∃ c, b.connOfId p.arg = some c ∧ b.conns[p.arg]? = some c ∧ c.active = true ∧
      c.pcb = some p.id := by
  obtain ⟨-, c, hc, hactive, hpcb⟩ := hs.pcb p hp hacc
  exact ⟨c, Bridge.connOfId_eq_some.mpr ⟨hc, hactive⟩, hc, hactive, hpcb⟩

/-- The pcb of a connection. -/
theorem Slots.pcb_of_connOfId {i : ℕ} {c : Conn} (h : b.connOfId i = some c) :
    ∃ p ∈ b.pcbs, c.pcb = some p.id ∧ p.accepted = true ∧ p.arg = i ∧ p.key = c.key := by
  obtain ⟨hc, hactive⟩ := Bridge.connOfId_eq_some.mp h
  exact hs.conn i c hc hactive

/-- lwIP has fewer pcbs than the bridge has slots. -/
theorem Slots.exists_inactive : ∃ slot, b.conns.findIdx? (!·.active) = some slot := by
  cases h : b.conns.findIdx? (!·.active) with
  | some slot => exact ⟨slot, rfl⟩
  | none =>
    exfalso
    have hall : ∀ i < maxConns, i ∈ b.pcbs.map Pcb.arg := by
      intro i hi
      rw [← hs.conns_length] at hi
      have hc : b.conns[i]? = some b.conns[i] := List.getElem?_eq_getElem hi
      have hactive := List.findIdx?_eq_none_iff.mp h b.conns[i] (List.getElem_mem hi)
      obtain ⟨p, hp, -, -, harg, -⟩ := hs.conn i _ hc (by simpa using hactive)
      exact List.mem_map.mpr ⟨p, hp, harg⟩
    have hle := (List.nodup_range.subperm fun i hi => hall i (List.mem_range.mp hi)).length_le
    have hbound := hs.bound
    rw [List.length_range, List.length_map] at hle
    unfold memNumTcpPcb at hbound
    unfold maxConns at hle
    omega

end

/-! ## What an event does -/

/-- A pcb up to what only `recv` and `write` touch. -/
def Pcb.view (p : Pcb) : Pcb := { p with recv := false, queued := 0 }

/-- No table changes. -/
structure Quiet (b b' : Bridge) : Prop where
  nat : b'.nat = b.nat
  conns : b'.conns = b.conns
  pcbs : b'.pcbs.map Pcb.view = b.pcbs.map Pcb.view
  nextPcb : b'.nextPcb = b.nextPcb
  phase : b'.phase = b.phase
  out : b'.out = b.out

/-- The pcb of a connection that has been accepted into a slot. -/
def Pcb.inSlot (p : Pcb) (slot : ℕ) : Pcb :=
  { p with accepted := true, arg := slot, recv := true, err := true, sent := true }

/-- A pcb gets a free slot. -/
structure Accepted (b b' : Bridge) (p : Pcb) (slot : ℕ) : Prop where
  nat : b'.nat = b.nat
  conns : b'.conns = b.conns.set slot ⟨some p.id, natLookup b.nat p.remoteIP p.remotePort,
    p.remoteIP, p.remotePort, true⟩
  pcbs : b'.pcbs = b.pcbs.map fun q => if q.id = p.id then p.inSlot slot else q
  nextPcb : b'.nextPcb = b.nextPcb
  phase : b'.phase = b.phase
  out : b'.out = b.out

/-- A connection ends: its NAT entry, its slot and its pcb are released. -/
structure Torn (b b' : Bridge) (slot : ℕ) (c : Conn) (p : Pcb) : Prop where
  conn : b.conns[slot]? = some c
  active : c.active = true
  pcb : c.pcb = some p.id
  mem : p ∈ b.pcbs
  nat : b'.nat = natRemove b.nat c.clientIP c.clientPort
  conns : b'.conns = b.conns.modify slot fun c => { c with active := false, pcb := none }
  pcbs : b'.pcbs = b.pcbs.filter fun q => q.id ≠ p.id
  nextPcb : b'.nextPcb = b.nextPcb
  phase : b'.phase = b.phase

theorem Torn.connOfId {b b' : Bridge} {slot : ℕ} {c : Conn} {p : Pcb} (h : Torn b b' slot c p)
    (i : ℕ) : b'.connOfId i = if i = slot then none else b.connOfId i := by
  unfold Bridge.connOfId
  rw [h.conns, List.getElem?_modify]
  split_ifs with hi hi' hi'
  · simp
  · exact absurd hi.symm hi'
  · exact absurd hi'.symm hi
  · simp

theorem Accepted.connOfId {b b' : Bridge} {p : Pcb} {slot : ℕ} (h : Accepted b b' p slot)
    (hlt : slot < b.conns.length) (i : ℕ) :
    b'.connOfId i = if i = slot then some ⟨some p.id, natLookup b.nat p.remoteIP p.remotePort,
      p.remoteIP, p.remotePort, true⟩ else b.connOfId i := by
  unfold Bridge.connOfId
  rw [h.conns]
  split_ifs with hi
  · rw [hi, List.getElem?_set_self hlt]
    rfl
  · rw [List.getElem?_set_ne (Ne.symm hi)]

/-- The one packet sent since `b` is a RST of the pcb, sent with the table `nat`. -/
def SentRst (L : Lwip) (b b' : Bridge) (p : Pcb) : Prop :=
  ∃ rst, Segment p rst ∧ b'.out = b.out ++ [⟨p.id, p.accepted, p.origDst, rst,
    if L.malloc b.out.length then some (rewriteOutput b'.nat rst) else none⟩]

/-- The packet gets its entry. -/
structure Entered (b b' : Bridge) (data : Bytes) : Prop where
  nat : b'.nat = natAdd b.nat (natKey data).1 (natKey data).2 (origDst data)
  conns : b'.conns = b.conns
  pcbs : b'.pcbs = b.pcbs
  nextPcb : b'.nextPcb = b.nextPcb
  out : b'.out = b.out

/-- The events that change no table. -/
def Bridge.Passes (b : Bridge) : BridgeEvent → Prop
  | .input data _ _ => data.length < 40
  | .close slot => b.connOfId slot = none
  | .write _ _ | .recved _ _ => True
  | .lwip (.recv _ data err _) => data ≠ none ∧ err = 0
  | .lwip (.sent _ _) | .lwip .acceptFailed => True
  | _ => False

/-- The effect of an event on the tables of the bridge. -/
inductive BridgeEffect (L : Lwip) (b : Bridge) : BridgeEvent → Bridge → Prop where
  | quiet {e b'} (hpass : b.Passes e) (h : Quiet b b') : BridgeEffect L b e b'
  | input {data malloc pbuf b'} (hrest : b.phase = .rest) (hlen : 40 ≤ data.length)
      (h : Entered b b' data)
      (hphase : b'.phase = if malloc = true ∧ pbuf = true then
        .input ⟨rewriteInput data, origDst data⟩
          (if b.pcbs.any (·.key = natKey data) then none else some (natKey data))
        else .rest) :
      BridgeEffect L b (.input data malloc pbuf) b'
  | poll (hrest : b.phase = .rest) : BridgeEffect L b .poll b.lwipBridgePoll
  | done : BridgeEffect L b .done b.returns
  | halfOpen {given unclaimed} (hphase : b.phase = .input given unclaimed)
      (hlen : b.pcbs.length < memNumTcpPcb) :
      BridgeEffect L b (.lwip .halfOpen) (b.halfOpen given unclaimed)
  | accept {given unclaimed p slot b'} (hphase : b.phase = .input given unclaimed)
      (hmem : p ∈ b.pcbs) (hhalf : p.accepted = false)
      (hslot : b.conns.findIdx? (!·.active) = some slot) (h : Accepted b b' p slot) :
      BridgeEffect L b (.lwip (.accept p.id)) b'
  | fin {p data err malloc c b'} (hfin : data = none ∨ err ≠ 0) (hacc : p.accepted = true)
      (h : Torn b b' p.arg c p) (hrst : SentRst L b b' p) :
      BridgeEffect L b (.lwip (.recv p.id data err malloc)) b'
  | ended {p err c b'} (hacc : p.accepted = true) (h : Torn b b' p.arg c p)
      (hout : b'.out = b.out) : BridgeEffect L b (.lwip (.free p.id err)) b'
  | dropped {p err} (hmem : p ∈ b.pcbs) (hhalf : p.accepted = false) :
      BridgeEffect L b (.lwip (.free p.id err)) (b.freePcb p.id)
  | emit {p packet} (hmem : p ∈ b.pcbs) (hsegment : Segment p packet) :
      BridgeEffect L b (.lwip (.emit p.id packet)) (b.netifOutput L p packet)
  | close {slot c p b'} (h : Torn b b' slot c p) (hacc : p.accepted = true)
      (hrst : SentRst L b b' p) : BridgeEffect L b (.close slot) b'

theorem onPcb_view (b : Bridge) (id : ℕ) {f : Pcb → Pcb} (hf : ∀ p : Pcb, (f p).view = p.view) :
    (b.onPcb id f).pcbs.map Pcb.view = b.pcbs.map Pcb.view := by
  unfold Bridge.onPcb
  rw [List.map_map]
  apply List.map_congr_left
  intro p _
  by_cases h : p.id = id
  · simp [h, hf]
  · simp [h]

theorem tcpWrite_quiet (L : Lwip) (b : Bridge) (id len : ℕ) : Quiet b (b.tcpWrite L id len).2 := by
  unfold Bridge.tcpWrite
  dsimp only
  split
  · split_ifs
    · exact ⟨rfl, rfl, onPcb_view _ id fun _ => rfl, rfl, rfl, rfl⟩
    · exact ⟨rfl, rfl, rfl, rfl, rfl, rfl⟩
  · exact ⟨rfl, rfl, rfl, rfl, rfl, rfl⟩

theorem lwipBridgeWrite_quiet (L : Lwip) (b : Bridge) (id : ℕ) (data : Bytes) :
    Quiet b (b.lwipBridgeWrite L id data).2 := by
  unfold Bridge.lwipBridgeWrite
  split
  · rename_i pcb _
    have h := tcpWrite_quiet L b pcb data.length
    split <;> rename_i heq <;> rw [heq] at h
    · exact ⟨h.nat, h.conns, h.pcbs, h.nextPcb, h.phase, h.out⟩
    · exact h
  · exact ⟨rfl, rfl, rfl, rfl, rfl, rfl⟩

/-- A pcb that lwIP holds is aborted: it is gone, and its RST has been sent. -/
structure Aborted (L : Lwip) (b b' : Bridge) (p : Pcb) : Prop where
  nat : b'.nat = b.nat
  conns : b'.conns = b.conns
  pcbs : b'.pcbs = b.pcbs.filter fun q => q.id ≠ p.id
  nextPcb : b'.nextPcb = b.nextPcb
  phase : b'.phase = b.phase
  rst : SentRst L b b' p

theorem tcpAbort_aborted (L : Lwip) {b : Bridge} {id : ℕ} {p : Pcb} (hp : b.pcb? id = some p) :
    Aborted L b (b.tcpAbort L id) p := by
  have hid := (Bridge.pcb?_eq_some hp).2
  have hfind : (b.logOp id .abort).pcb? id = some p := hp
  have habort : b.tcpAbort L id =
      ((b.logOp id .abort).netifOutput L p (L.rst b.out.length p)).freePcb id := by
    unfold Bridge.tcpAbort
    dsimp only
    rw [hfind]
    rfl
  rw [habort, ← hid]
  exact ⟨rfl, rfl, rfl, rfl, rfl, _, L.rst_segment b.out.length p, rfl⟩

theorem pcb?_tcpRecv {b : Bridge} {id : ℕ} {p : Pcb} (hp : b.pcb? id = some p) (set : Bool) :
    (b.tcpRecv id set).pcb? id = some { p with recv := set } :=
  Bridge.pcb?_onPcb (b := b.logOp id .recv) (f := ({ · with recv := set })) (fun _ => rfl) hp

theorem pcb?_tcpErr {b : Bridge} {id : ℕ} {p : Pcb} (hp : b.pcb? id = some p) (set : Bool) :
    (b.tcpErr id set).pcb? id = some { p with err := set } :=
  Bridge.pcb?_onPcb (b := b.logOp id .err) (f := ({ · with err := set })) (fun _ => rfl) hp

theorem freePcb_tcpRecv (b : Bridge) (id : ℕ) (set : Bool) :
    ((b.tcpRecv id set).freePcb id).pcbs = (b.freePcb id).pcbs :=
  Bridge.freePcb_onPcb (b.logOp id .recv) id (f := ({ · with recv := set })) fun _ => rfl

theorem freePcb_tcpErr (b : Bridge) (id : ℕ) (set : Bool) :
    ((b.tcpErr id set).freePcb id).pcbs = (b.freePcb id).pcbs :=
  Bridge.freePcb_onPcb (b.logOp id .err) id (f := ({ · with err := set })) fun _ => rfl

/-- `detachAbort` on a pcb lwIP holds. -/
theorem detachAbort_aborted (L : Lwip) {b : Bridge} {id : ℕ} {p : Pcb} (hp : b.pcb? id = some p) :
    Aborted L b (b.detachAbort L id) p := by
  obtain rfl := (Bridge.pcb?_eq_some hp).2
  have h := tcpAbort_aborted L (pcb?_tcpErr (pcb?_tcpRecv hp false) false)
  have hpcbs : ((b.tcpRecv p.id false).tcpErr p.id false).pcbs.filter (fun q => q.id ≠ p.id) =
      b.pcbs.filter fun q => q.id ≠ p.id :=
    (freePcb_tcpErr (b.tcpRecv p.id false) p.id false).trans (freePcb_tcpRecv b p.id false)
  obtain ⟨rst, ⟨h1, h2, h3, h4, h5, h6⟩, hout⟩ := h.rst
  exact ⟨h.nat, h.conns, h.pcbs.trans hpcbs, h.nextPcb, h.phase, rst,
    ⟨h1, h2, h3, h4, h5, h6⟩, hout⟩

theorem input_effect {L : Lwip} {b : Bridge} (hrest : b.phase = .rest) (data : Bytes)
    (malloc pbuf : Bool) :
    BridgeEffect L b (.input data malloc pbuf) (b.lwipBridgeInput data malloc pbuf) := by
  by_cases hlen : data.length < 40
  · have hsame : b.lwipBridgeInput data malloc pbuf = b := if_pos hlen
    rw [hsame]
    exact .quiet hlen ⟨rfl, rfl, rfl, rfl, rfl, rfl⟩
  · unfold Bridge.lwipBridgeInput
    rw [if_neg hlen]
    dsimp only
    cases malloc with
    | false => exact .input hrest (not_lt.mp hlen) ⟨rfl, rfl, rfl, rfl, rfl⟩ hrest
    | true =>
      cases pbuf with
      | false => exact .input hrest (not_lt.mp hlen) ⟨rfl, rfl, rfl, rfl, rfl⟩ hrest
      | true => exact .input hrest (not_lt.mp hlen) ⟨rfl, rfl, rfl, rfl, rfl⟩ rfl

section

variable {L : Lwip} {b : Bridge} (hs : Slots b)

include hs

/-- The end of a connection whose slot holds a pcb that is aborted. -/
theorem Slots.torn_abort {slot : ℕ} {c : Conn} {p : Pcb} (hc : b.conns[slot]? = some c)
    (hactive : c.active = true) (hpcb : c.pcb = some p.id) (hp : p ∈ b.pcbs) :
    Torn b (((b.dropNat c).detachAbort L p.id).clearConn slot) slot c p ∧
      SentRst L b (((b.dropNat c).detachAbort L p.id).clearConn slot) p := by
  have hfind : (b.dropNat c).pcb? p.id = some p := hs.pcb?_of_mem hp
  have h := detachAbort_aborted L hfind
  refine ⟨⟨hc, hactive, hpcb, hp, h.nat, ?_, h.pcbs, h.nextPcb, h.phase⟩, h.rst⟩
  exact congrArg (·.modify slot fun c => { c with active := false, pcb := none }) h.conns

theorem close_effect (slot : ℕ) : BridgeEffect L b (.close slot) (b.lwipBridgeClose L slot) := by
  unfold Bridge.lwipBridgeClose
  split
  · rename_i c hc
    obtain ⟨hslot, hactive⟩ := Bridge.connOfId_eq_some.mp hc
    obtain ⟨p, hp, hpcb, hacc, -, -⟩ := hs.conn slot c hslot hactive
    rw [hpcb]
    obtain ⟨htorn, hrst⟩ := hs.torn_abort hslot hactive hpcb hp
    exact .close htorn hacc hrst
  · rename_i hnone
    exact .quiet hnone ⟨rfl, rfl, rfl, rfl, rfl, rfl⟩

omit hs in
/-- The end of a connection whose pcb lwIP frees. -/
theorem torn_free {p : Pcb} (hp : p ∈ b.pcbs) {slot : ℕ} {c : Conn}
    (hc : b.conns[slot]? = some c) (hactive : c.active = true) (hpcb : c.pcb = some p.id) :
    Torn b (((b.dropNat c).clearConn slot).freePcb p.id) slot c p :=
  ⟨hc, hactive, hpcb, hp, rfl, rfl, rfl, rfl, rfl⟩

omit hs in
theorem attach_pcbs (b : Bridge) (p : Pcb) (slot : ℕ) :
    ((b.onPcb p.id fun _ => { p with accepted := true }).attach p.id slot).pcbs =
      b.pcbs.map fun q => if q.id = p.id then p.inSlot slot else q := by
  simp only [Bridge.attach, Bridge.tcpArg, Bridge.tcpNagleDisable, Bridge.tcpRecv, Bridge.tcpErr,
    Bridge.tcpSent, Bridge.onPcb, Bridge.logOp, List.map_map]
  apply List.map_congr_left
  intro q _
  by_cases h : q.id = p.id
  · simp [h, Pcb.inSlot]
  · simp [h]

end

/-! ## What a callback does -/

/-- `tcp_accept_cb` before it calls `g_accept`. -/
def Bridge.enter (b : Bridge) (p : Pcb) (slot : ℕ) : Bridge :=
  ({ b with conns := b.conns.set slot ⟨some p.id, natLookup b.nat p.remoteIP p.remotePort,
      p.remoteIP, p.remotePort, true⟩ }).attach p.id slot

/-- `tcp_accept_cb` on a pcb whose handshake has just been completed. -/
def Bridge.acceptInto (b : Bridge) (p : Pcb) (slot : ℕ) : Bridge :=
  (b.onPcb p.id fun _ => { p with accepted := true }).enter { p with accepted := true } slot

theorem accepted_acceptInto (b : Bridge) (p : Pcb) (slot : ℕ) :
    Accepted b (b.acceptInto p slot) p slot :=
  ⟨rfl, rfl, attach_pcbs b p slot, rfl, rfl, rfl⟩

section

variable {σ : Type*} {L : Lwip} {h : Handlers σ} {w : World σ} (hs : Slots w.bridge)

include hs

/-- The accept callback always finds a slot. -/
theorem lwipStep_accept {id : ℕ} {r : World σ × Option Returned}
    (hstep : lwipStep L h w (.accept id) = some r) :
    ∃ given unclaimed p slot, w.bridge.phase = .input given unclaimed ∧ p ∈ w.bridge.pcbs ∧
      p.id = id ∧ p.accepted = false ∧ tcpSource given.packet = p.key ∧
      w.bridge.conns.findIdx? (!·.active) = some slot ∧
      r = (h.accept slot (w.onBridge (·.acceptInto p slot)), some ⟨some id, .ok⟩) := by
  simp only [lwipStep] at hstep
  split at hstep
  · rename_i given unclaimed p hphase hfind
    split_ifs at hstep with hguard
    obtain ⟨hp, rfl⟩ := Bridge.pcb?_eq_some hfind
    obtain ⟨slot, hslot⟩ := hs.exists_inactive
    refine ⟨given, unclaimed, p, slot, hphase, hp, rfl, hguard.1, hguard.2.1, hslot, ?_⟩
    rw [← Option.some.inj hstep]
    unfold tcpAcceptCb
    dsimp only
    have hslot' :
        (w.onBridge (·.onPcb p.id fun _ => { p with accepted := true })).bridge.conns.findIdx?
          (!·.active) = some slot := hslot
    rw [hslot']
    rfl
  · cases hstep

/-- A FIN, or an error: the callback aborts its own pcb. -/
theorem lwipStep_fin (hclose : ∀ i e (w : World σ), (h.close i e w).bridge = w.bridge) {id : ℕ}
    {data : Option Bytes} {err : ℤ} (hfin : data = none ∨ err ≠ 0) {malloc : Bool}
    {r : World σ × Option Returned}
    (hstep : lwipStep L h w (.recv id data err malloc) = some r) :
    ∃ p ∈ w.bridge.pcbs, p.id = id ∧ p.accepted = true ∧ ∃ c, w.bridge.conns[p.arg]? = some c ∧
      c.active = true ∧ c.pcb = some id ∧
      r = ((h.close p.arg err w).onBridge
          (fun b => ((b.dropNat c).detachAbort L id).clearConn p.arg), some ⟨some id, .abrt⟩) := by
  simp only [lwipStep] at hstep
  split at hstep
  · rename_i p hfind
    split_ifs at hstep with hguard
    obtain ⟨hp, rfl⟩ := Bridge.pcb?_eq_some hfind
    obtain ⟨c, hconn, hslot, hactive, hpcb⟩ := hs.connOfId hp hguard.2.1
    refine ⟨p, hp, rfl, hguard.2.1, c, hslot, hactive, hpcb, ?_⟩
    rw [← Option.some.inj hstep]
    have hconn' : (h.close p.arg err w).bridge.connOfId p.arg = some c := by rwa [hclose]
    unfold tcpRecvCb
    split
    · rename_i herr
      rcases hfin with hfin | hfin
      · cases hfin
      · exact absurd (of_decide_eq_true herr) hfin
    · dsimp only
      rw [hconn']
      dsimp only
      rw [hpcb]
      rfl
  · cases hstep

/-- lwIP frees the pcb of a connection: the err callback is called. -/
theorem lwipStep_free (hclose : ∀ i e (w : World σ), (h.close i e w).bridge = w.bridge) {id : ℕ}
    {err : ℤ} {r : World σ × Option Returned}
    (hstep : lwipStep L h w (.free id err) = some r) :
    ∃ p ∈ w.bridge.pcbs, p.id = id ∧
      ((p.accepted = false ∧ r = (w.onBridge (·.freePcb id), none)) ∨
        (p.accepted = true ∧ ∃ c, w.bridge.conns[p.arg]? = some c ∧ c.active = true ∧
          c.pcb = some id ∧ r = ((h.close p.arg err w).onBridge
            (fun b => ((b.dropNat c).clearConn p.arg).freePcb id), none))) := by
  simp only [lwipStep] at hstep
  split at hstep
  · rename_i p hfind
    split_ifs at hstep with hguard herr
    · obtain ⟨hp, rfl⟩ := Bridge.pcb?_eq_some hfind
      have hacc : p.accepted = true := by
        by_contra hhalf
        rw [(hs.half p hp (eq_false_of_ne_true hhalf)).1] at herr
        cases herr
      obtain ⟨c, hconn, hslot, hactive, hpcb⟩ := hs.connOfId hp hacc
      refine ⟨p, hp, rfl, Or.inr ⟨hacc, c, hslot, hactive, hpcb, ?_⟩⟩
      rw [← Option.some.inj hstep]
      have hconn' : (h.close p.arg err w).bridge.connOfId p.arg = some c := by rwa [hclose]
      unfold tcpErrCb
      dsimp only
      rw [hconn']
      rfl
    · obtain ⟨hp, rfl⟩ := Bridge.pcb?_eq_some hfind
      have hhalf : p.accepted = false := by
        by_contra hacc
        exact herr (hs.pcb p hp (eq_true_of_ne_false hacc)).1
      exact ⟨p, hp, rfl, Or.inl ⟨hhalf, (Option.some.inj hstep).symm⟩⟩
  · cases hstep

omit hs in
/-- Data for a connection. -/
theorem lwipStep_data {id : ℕ} {data : Bytes} {malloc : Bool} {r : World σ × Option Returned}
    (hstep : lwipStep L h w (.recv id (some data) 0 malloc) = some r) :
    ∃ p ∈ w.bridge.pcbs, p.id = id ∧ p.accepted = true ∧
      r = ((if malloc then h.recv p.arg data w else w).onBridge (·.tcpRecved id data.length),
        some ⟨some id, .ok⟩) := by
  simp only [lwipStep] at hstep
  split at hstep
  · rename_i p hfind
    split_ifs at hstep with hguard
    obtain ⟨hp, rfl⟩ := Bridge.pcb?_eq_some hfind
    exact ⟨p, hp, rfl, hguard.2.1, (Option.some.inj hstep).symm⟩
  · cases hstep

/-- An ACK frees bytes of a connection. -/
theorem lwipStep_sent {id len : ℕ} {r : World σ × Option Returned}
    (hstep : lwipStep L h w (.sent id len) = some r) :
    ∃ p ∈ w.bridge.pcbs, p.id = id ∧ p.accepted = true ∧ 0 < len ∧ len ≤ p.queued ∧
      r = (h.sent p.arg (w.onBridge (·.onPcb id fun p => { p with queued := p.queued - len })),
        none) := by
  simp only [lwipStep] at hstep
  split at hstep
  · rename_i p hfind
    split_ifs at hstep with hguard
    obtain ⟨hp, rfl⟩ := Bridge.pcb?_eq_some hfind
    have hacc : p.accepted = true := by
      by_contra hhalf
      rw [(hs.half p hp (eq_false_of_ne_true hhalf)).2] at hguard
      exact Bool.false_ne_true hguard.2.1
    exact ⟨p, hp, rfl, hacc, hguard.2.2.1, hguard.2.2.2, (Option.some.inj hstep).symm⟩
  · cases hstep

omit hs in
theorem lwipStep_halfOpen {r : World σ × Option Returned}
    (hstep : lwipStep L h w .halfOpen = some r) :
    ∃ given unclaimed, w.bridge.phase = .input given unclaimed ∧
      w.bridge.pcbs.length < memNumTcpPcb ∧
      r = (w.onBridge (·.halfOpen given unclaimed), none) := by
  simp only [lwipStep] at hstep
  split at hstep
  · rename_i given unclaimed hphase
    split_ifs at hstep with hguard
    exact ⟨given, unclaimed, hphase, hguard.1, (Option.some.inj hstep).symm⟩
  · cases hstep

omit hs in
theorem lwipStep_acceptFailed {r : World σ × Option Returned}
    (hstep : lwipStep L h w .acceptFailed = some r) : r = (w, some ⟨none, .ok⟩) := by
  simp only [lwipStep] at hstep
  split at hstep
  · exact (Option.some.inj hstep).symm
  · cases hstep

omit hs in
theorem lwipStep_emit {id : ℕ} {packet : Bytes} {r : World σ × Option Returned}
    (hstep : lwipStep L h w (.emit id packet) = some r) :
    ∃ p ∈ w.bridge.pcbs, p.id = id ∧ Segment p packet ∧
      r = (w.onBridge (·.netifOutput L p packet), none) := by
  simp only [lwipStep] at hstep
  split at hstep
  · rename_i p hfind
    split_ifs at hstep with hsegment
    obtain ⟨hp, rfl⟩ := Bridge.pcb?_eq_some hfind
    exact ⟨p, hp, rfl, hsegment, (Option.some.inj hstep).symm⟩
  · cases hstep

end

/-! ## The effect of an event -/

section

variable {σ : Type*} (L : Lwip) (h : Handlers σ)

/-- `lwipStep` as a relation, on a bridge whose slots and pcbs agree: what an
event finds, and the world after it with what the callback returned. -/
inductive LwipEffect (w : World σ) : LwipEvent → World σ × Option Returned → Prop where
  | halfOpen (given : NetifInput) (unclaimed : Option ClientKey)
      (hphase : w.bridge.phase = .input given unclaimed)
      (hlen : w.bridge.pcbs.length < memNumTcpPcb) :
      LwipEffect w .halfOpen (w.onBridge (·.halfOpen given unclaimed), none)
  | accept (p : Pcb) (slot : ℕ) {given unclaimed}
      (hphase : w.bridge.phase = .input given unclaimed)
      (hp : p ∈ w.bridge.pcbs) (hhalf : p.accepted = false)
      (hslot : w.bridge.conns.findIdx? (!·.active) = some slot)
      (hkey : tcpSource given.packet = p.key) :
      LwipEffect w (.accept p.id)
        (h.accept slot (w.onBridge (·.acceptInto p slot)), some ⟨some p.id, .ok⟩)
  | acceptFailed : LwipEffect w .acceptFailed (w, some ⟨none, .ok⟩)
  | fin (p : Pcb) (c : Conn) {data err malloc} (hfin : data = none ∨ err ≠ 0)
      (hp : p ∈ w.bridge.pcbs) (hacc : p.accepted = true)
      (htorn : Torn w.bridge (((w.bridge.dropNat c).detachAbort L p.id).clearConn p.arg) p.arg c p)
      (hrst : SentRst L w.bridge (((w.bridge.dropNat c).detachAbort L p.id).clearConn p.arg) p) :
      LwipEffect w (.recv p.id data err malloc)
        ((h.close p.arg err w).onBridge
          (fun b => ((b.dropNat c).detachAbort L p.id).clearConn p.arg), some ⟨some p.id, .abrt⟩)
  | data (p : Pcb) (d : Bytes) (malloc : Bool) (hp : p ∈ w.bridge.pcbs)
      (hacc : p.accepted = true) :
      LwipEffect w (.recv p.id (some d) 0 malloc)
        ((if malloc then h.recv p.arg d w else w).onBridge (·.tcpRecved p.id d.length),
          some ⟨some p.id, .ok⟩)
  | freed (p : Pcb) (c : Conn) {err} (hp : p ∈ w.bridge.pcbs) (hacc : p.accepted = true)
      (htorn : Torn w.bridge (((w.bridge.dropNat c).clearConn p.arg).freePcb p.id) p.arg c p) :
      LwipEffect w (.free p.id err)
        ((h.close p.arg err w).onBridge
          (fun b => ((b.dropNat c).clearConn p.arg).freePcb p.id), none)
  | dropped (p : Pcb) {err} (hp : p ∈ w.bridge.pcbs) (hhalf : p.accepted = false) :
      LwipEffect w (.free p.id err) (w.onBridge (·.freePcb p.id), none)
  | sent (p : Pcb) (len : ℕ) (hp : p ∈ w.bridge.pcbs) (hacc : p.accepted = true)
      (hpos : 0 < len) (hlen : len ≤ p.queued) :
      LwipEffect w (.sent p.id len)
        (h.sent p.arg (w.onBridge (·.onPcb p.id fun p => { p with queued := p.queued - len })),
          none)
  | emit (p : Pcb) (packet : Bytes) (hp : p ∈ w.bridge.pcbs) (hsegment : Segment p packet) :
      LwipEffect w (.emit p.id packet) (w.onBridge (·.netifOutput L p packet), none)

variable {L h} {w : World σ}

/-- `g_close` leaves the bridge to the callback that calls it. -/
theorem lwipStep_effect (hs : Slots w.bridge)
    (hclose : ∀ i e (w : World σ), (h.close i e w).bridge = w.bridge) {e : LwipEvent}
    {r : World σ × Option Returned} (hstep : lwipStep L h w e = some r) :
    LwipEffect L h w e r := by
  cases e with
  | halfOpen =>
    obtain ⟨given, unclaimed, hphase, hlen, rfl⟩ := lwipStep_halfOpen hstep
    exact .halfOpen given unclaimed hphase hlen
  | accept id =>
    obtain ⟨given, unclaimed, p, slot, hphase, hp, rfl, hhalf, hkey, hslot, rfl⟩ :=
      lwipStep_accept hs hstep
    exact .accept p slot hphase hp hhalf hslot hkey
  | acceptFailed =>
    obtain rfl := lwipStep_acceptFailed hstep
    exact .acceptFailed
  | recv id data err malloc =>
    by_cases hfin : data = none ∨ err ≠ 0
    · obtain ⟨p, hp, rfl, hacc, c, hc, hactive, hpcb, rfl⟩ := lwipStep_fin hs hclose hfin hstep
      obtain ⟨htorn, hrst⟩ := hs.torn_abort hc hactive hpcb hp
      exact .fin p c hfin hp hacc htorn hrst
    · obtain ⟨hdata, herr⟩ := not_or.mp hfin
      obtain ⟨d, rfl⟩ := Option.ne_none_iff_exists'.mp hdata
      obtain rfl := not_not.mp herr
      obtain ⟨p, hp, rfl, hacc, rfl⟩ := lwipStep_data hstep
      exact .data p d malloc hp hacc
  | free id err =>
    obtain ⟨p, hp, rfl, ⟨hhalf, rfl⟩ | ⟨hacc, c, hc, hactive, hpcb, rfl⟩⟩ :=
      lwipStep_free hs hclose hstep
    · exact .dropped p hp hhalf
    · exact .freed p c hp hacc (torn_free hp hc hactive hpcb)
  | sent id len =>
    obtain ⟨p, hp, rfl, hacc, hpos, hlen, rfl⟩ := lwipStep_sent hs hstep
    exact .sent p len hp hacc hpos hlen
  | emit id packet =>
    obtain ⟨p, hp, rfl, hsegment, rfl⟩ := lwipStep_emit hstep
    exact .emit p packet hp hsegment

end

theorem lwip_effect {L : Lwip} {b b' : Bridge} (hs : Slots b) {e : LwipEvent}
    (hstep : b.step L (.lwip e) = some b') : BridgeEffect L b (.lwip e) b' := by
  obtain ⟨r, hr, rfl⟩ := Option.map_eq_some_iff.mp hstep
  have heffect : LwipEffect L idle ⟨(), b⟩ e r := lwipStep_effect hs (fun _ _ _ => rfl) hr
  cases heffect with
  | halfOpen given unclaimed hphase hlen => exact .halfOpen hphase hlen
  | accept p slot hphase hp hhalf hslot =>
    exact .accept hphase hp hhalf hslot (accepted_acceptInto b p slot)
  | acceptFailed => exact .quiet trivial ⟨rfl, rfl, rfl, rfl, rfl, rfl⟩
  | fin p c hfin hp hacc htorn hrst => exact .fin hfin hacc htorn hrst
  | data p d malloc hp hacc =>
    cases malloc <;> exact .quiet ⟨nofun, rfl⟩ ⟨rfl, rfl, rfl, rfl, rfl, rfl⟩
  | freed p c hp hacc htorn => exact .ended hacc htorn rfl
  | dropped p hp hhalf => exact .dropped hp hhalf
  | sent p len hp hacc =>
    exact .quiet trivial ⟨rfl, rfl, onPcb_view b p.id fun _ => rfl, rfl, rfl, rfl⟩
  | emit p packet hp hsegment => exact .emit hp hsegment

/-- The effect of every event. -/
theorem effect_of_step {L : Lwip} {b b' : Bridge} (hs : Slots b) {e : BridgeEvent}
    (hstep : b.step L e = some b') : BridgeEffect L b e b' := by
  cases e with
  | input data malloc pbuf =>
    obtain ⟨hrest, h⟩ := Option.ite_none_right_eq_some.mp hstep
    cases h
    exact input_effect hrest data malloc pbuf
  | poll =>
    obtain ⟨hrest, h⟩ := Option.ite_none_right_eq_some.mp hstep
    cases h
    exact .poll hrest
  | done =>
    obtain ⟨-, h⟩ := Option.ite_none_left_eq_some.mp hstep
    cases h
    exact .done
  | lwip e => exact lwip_effect hs hstep
  | write id data => cases hstep; exact .quiet trivial (lwipBridgeWrite_quiet L b id data)
  | close id => cases hstep; exact close_effect hs id
  | recved pcb len => cases hstep; exact .quiet trivial ⟨rfl, rfl, rfl, rfl, rfl, rfl⟩

/-! ## The invariant -/

theorem Slots.of_eq {b b' : Bridge} (hs : Slots b) (hconns : b'.conns = b.conns)
    (hpcbs : b'.pcbs = b.pcbs) (hnext : b'.nextPcb = b.nextPcb) : Slots b' := by
  refine ⟨?_, ?_, ?_, ?_, ?_, ?_, ?_, ?_⟩
  · rw [hconns]; exact hs.conns_length
  · rw [hpcbs]; exact hs.nodup
  · rw [hpcbs, hnext]; exact hs.fresh
  · rw [hpcbs]; exact hs.bound
  · rw [hconns]; exact hs.idle
  · rw [hconns, hpcbs]; exact hs.conn
  · rw [hconns, hpcbs]; exact hs.pcb
  · rw [hpcbs]; exact hs.half

/-- The pcbs after a quiet event are those before it, up to their views. -/
theorem Quiet.mem {b b' : Bridge} (hq : Quiet b b') {q : Pcb} (h : q ∈ b'.pcbs) :
    ∃ p ∈ b.pcbs, p.view = q.view := by
  have hmem : q.view ∈ b'.pcbs.map Pcb.view := List.mem_map_of_mem h
  rw [hq.pcbs] at hmem
  exact List.mem_map.mp hmem

theorem Quiet.mem' {b b' : Bridge} (hq : Quiet b b') {p : Pcb} (h : p ∈ b.pcbs) :
    ∃ q ∈ b'.pcbs, q.view = p.view := by
  have hmem : p.view ∈ b.pcbs.map Pcb.view := List.mem_map_of_mem h
  rw [← hq.pcbs] at hmem
  exact List.mem_map.mp hmem

theorem view_inj {p q : Pcb} (h : p.view = q.view) :
    p.id = q.id ∧ p.accepted = q.accepted ∧ p.arg = q.arg ∧ p.key = q.key ∧ p.err = q.err ∧
      p.sent = q.sent ∧ p.origDst = q.origDst := by
  simp only [Pcb.view, Pcb.mk.injEq] at h
  obtain ⟨hid, hip, hport, -, hdst, hacc, harg, -, herr, hsent, -⟩ := h
  exact ⟨hid, hacc, harg, Prod.ext hip hport, herr, hsent, hdst⟩

theorem Slots.quiet {b b' : Bridge} (hs : Slots b) (hq : Quiet b b') : Slots b' := by
  refine ⟨?_, ?_, ?_, ?_, ?_, ?_, ?_, ?_⟩
  · rw [hq.conns]; exact hs.conns_length
  · have hids : b'.pcbs.map Pcb.id = b.pcbs.map Pcb.id := by
      have := congrArg (List.map Pcb.id) hq.pcbs
      rwa [List.map_map, List.map_map] at this
    rw [hids]
    exact hs.nodup
  · intro q h
    obtain ⟨p, hp, hview⟩ := hq.mem h
    rw [← (view_inj hview).1, hq.nextPcb]
    exact hs.fresh p hp
  · have hlen := congrArg List.length hq.pcbs
    rw [List.length_map, List.length_map] at hlen
    rw [hlen]
    exact hs.bound
  · rw [hq.conns]; exact hs.idle
  · intro i c hc hactive
    rw [hq.conns] at hc
    obtain ⟨p, hp, hpcb, hacc, harg, hkey⟩ := hs.conn i c hc hactive
    obtain ⟨q, hmem, hview⟩ := hq.mem' hp
    obtain ⟨h1, h2, h3, h4, -⟩ := view_inj hview
    exact ⟨q, hmem, h1 ▸ hpcb, h2.trans hacc, h3.trans harg, h4.trans hkey⟩
  · intro q h hacc
    obtain ⟨p, hp, hview⟩ := hq.mem h
    obtain ⟨h1, h2, h3, -, h5, -⟩ := view_inj hview
    obtain ⟨herr, c, hc, hactive, hpcb⟩ := hs.pcb p hp (h2.trans hacc)
    rw [hq.conns, ← h3, ← h1, ← h5]
    exact ⟨herr, c, hc, hactive, hpcb⟩
  · intro q h hhalf
    obtain ⟨p, hp, hview⟩ := hq.mem h
    obtain ⟨-, h2, -, -, h5, h6, -⟩ := view_inj hview
    rw [← h5, ← h6]
    exact hs.half p hp (h2.trans hhalf)

theorem Slots.halfOpen {b : Bridge} (hs : Slots b) (hlen : b.pcbs.length < memNumTcpPcb)
    (given : NetifInput) (unclaimed : Option ClientKey) : Slots (b.halfOpen given unclaimed) := by
  have hmem {p : Pcb} (hp : p ∈ (b.halfOpen given unclaimed).pcbs) :
      p ∈ b.pcbs ∨ p = b.newPcb given := by
    simpa [Bridge.halfOpen] using hp
  refine ⟨hs.conns_length, ?_, ?_, ?_, hs.idle, ?_, ?_, ?_⟩
  · show ((b.pcbs ++ [b.newPcb given]).map Pcb.id).Nodup
    rw [List.map_append, List.map_singleton]
    refine List.Nodup.append hs.nodup (List.nodup_singleton _) ?_
    rw [List.disjoint_singleton]
    intro hid
    obtain ⟨p, hp, heq⟩ := List.mem_map.mp hid
    exact (hs.fresh p hp).ne heq
  · intro p hp
    rcases hmem hp with hp | rfl
    · exact Nat.lt_succ_of_lt (hs.fresh p hp)
    · exact Nat.lt_succ_self _
  · show (b.pcbs ++ [b.newPcb given]).length ≤ memNumTcpPcb
    rw [List.length_append, List.length_singleton]
    omega
  · intro i c hc hactive
    obtain ⟨p, hp, hrest⟩ := hs.conn i c hc hactive
    exact ⟨p, List.mem_append_left _ hp, hrest⟩
  · intro p hp hacc
    rcases hmem hp with hp | rfl
    · exact hs.pcb p hp hacc
    · cases hacc
  · intro p hp hhalf
    rcases hmem hp with hp | rfl
    · exact hs.half p hp hhalf
    · exact ⟨rfl, rfl⟩

/-- A slot found by the scan of `tcp_accept_cb` is inactive. -/
theorem findIdx?_inactive {conns : List Conn} {slot : ℕ}
    (h : conns.findIdx? (!·.active) = some slot) :
    ∃ c, conns[slot]? = some c ∧ c.active = false := by
  obtain ⟨hlt, hinactive, -⟩ := List.findIdx?_eq_some_iff_getElem.mp h
  exact ⟨conns[slot], List.getElem?_eq_getElem hlt, by simpa using hinactive⟩

theorem Slots.accept {b b' : Bridge} (hs : Slots b) {p : Pcb} {slot : ℕ} (hp : p ∈ b.pcbs)
    (hhalf : p.accepted = false) (hslot : b.conns.findIdx? (!·.active) = some slot)
    (h : Accepted b b' p slot) : Slots b' := by
  obtain ⟨c₀, hc₀, hinactive⟩ := findIdx?_inactive hslot
  have hlt : slot < b.conns.length := (List.getElem?_eq_some_iff.mp hc₀).1
  have hmem {q : Pcb} (hq : q ∈ b'.pcbs) : q = p.inSlot slot ∨ q ∈ b.pcbs := by
    rw [h.pcbs] at hq
    obtain ⟨q₀, hq₀, rfl⟩ := List.mem_map.mp hq
    split_ifs
    · exact Or.inl rfl
    · exact Or.inr hq₀
  have hnew : p.inSlot slot ∈ b'.pcbs := by
    rw [h.pcbs]
    exact List.mem_map.mpr ⟨p, hp, if_pos rfl⟩
  have hold {q : Pcb} (hq : q ∈ b.pcbs) (hacc : q.accepted = true) : q ∈ b'.pcbs := by
    have hne : q.id ≠ p.id := by
      intro hid
      obtain rfl := hs.eq_of_id hq hp hid
      rw [hhalf] at hacc
      cases hacc
    rw [h.pcbs]
    exact List.mem_map.mpr ⟨q, hq, if_neg hne⟩
  refine ⟨?_, ?_, ?_, ?_, ?_, ?_, ?_, ?_⟩
  · rw [h.conns, List.length_set]
    exact hs.conns_length
  · have hids : b'.pcbs.map Pcb.id = b.pcbs.map Pcb.id := by
      rw [h.pcbs, List.map_map]
      apply List.map_congr_left
      intro q _
      by_cases hid : q.id = p.id
      · simp [hid, Pcb.inSlot]
      · simp [hid]
    rw [hids]
    exact hs.nodup
  · intro q hq
    rw [h.nextPcb]
    rcases hmem hq with rfl | hq
    · exact hs.fresh p hp
    · exact hs.fresh q hq
  · rw [h.pcbs, List.length_map]
    exact hs.bound
  · intro c hc hidle
    rw [h.conns] at hc
    rcases List.mem_or_eq_of_mem_set hc with hc | rfl
    · exact hs.idle c hc hidle
    · cases hidle
  · intro i c hc hactive
    rw [h.conns] at hc
    rcases eq_or_ne slot i with rfl | hne
    · rw [List.getElem?_set_self hlt] at hc
      obtain rfl := Option.some.inj hc
      exact ⟨p.inSlot slot, hnew, rfl, rfl, rfl, rfl⟩
    · rw [List.getElem?_set_ne hne] at hc
      obtain ⟨q, hq, hpcb, hacc, hrest⟩ := hs.conn i c hc hactive
      exact ⟨q, hold hq hacc, hpcb, hacc, hrest⟩
  · intro q hq hacc
    rw [h.conns]
    rcases hmem hq with rfl | hq
    · exact ⟨rfl, _, List.getElem?_set_self hlt, rfl, rfl⟩
    · obtain ⟨herr, c, hc, hactive, hpcb⟩ := hs.pcb q hq hacc
      have hne : slot ≠ q.arg := by
        rintro rfl
        rw [hc₀] at hc
        obtain rfl := Option.some.inj hc
        rw [hinactive] at hactive
        cases hactive
      exact ⟨herr, c, (List.getElem?_set_ne hne).trans hc, hactive, hpcb⟩
  · intro q hq hhalf'
    rcases hmem hq with rfl | hq
    · cases hhalf'
    · exact hs.half q hq hhalf'

/-- A slot and its pcb are released together. -/
theorem Slots.torn {b b' : Bridge} (hs : Slots b) {slot : ℕ} {c : Conn} {p : Pcb}
    (h : Torn b b' slot c p) : Slots b' := by
  have hmem {q : Pcb} (hq : q ∈ b'.pcbs) : q ∈ b.pcbs ∧ q.id ≠ p.id := by
    rw [h.pcbs] at hq
    simpa using hq
  obtain ⟨p', hp', hpcb', hacc, harg, -⟩ := hs.conn slot c h.conn h.active
  obtain rfl : p' = p := hs.eq_of_id hp' h.mem (Option.some.inj (hpcb'.symm.trans h.pcb))
  refine ⟨?_, ?_, ?_, ?_, ?_, ?_, ?_, ?_⟩
  · rw [h.conns, List.length_modify]
    exact hs.conns_length
  · rw [h.pcbs]
    exact hs.nodup.sublist (List.Sublist.map _ List.filter_sublist)
  · intro q hq
    rw [h.nextPcb]
    exact hs.fresh q (hmem hq).1
  · rw [h.pcbs]
    exact (List.length_filter_le _ _).trans hs.bound
  · intro d hd hidle
    obtain ⟨j, hj⟩ := List.mem_iff_getElem?.mp hd
    rw [h.conns, List.getElem?_modify] at hj
    obtain ⟨d₀, hd₀, rfl⟩ := Option.map_eq_some_iff.mp hj
    split_ifs at hidle ⊢
    · rfl
    · exact hs.idle d₀ (List.mem_of_getElem? hd₀) hidle
  · intro i d hd hactive
    rw [h.conns] at hd
    rcases eq_or_ne slot i with rfl | hne
    · rw [List.getElem?_modify_eq, h.conn] at hd
      obtain rfl := Option.some.inj hd
      cases hactive
    · rw [List.getElem?_modify_ne _ _ hne] at hd
      obtain ⟨q, hq, hpcb, hacc', harg', hkey⟩ := hs.conn i d hd hactive
      refine ⟨q, ?_, hpcb, hacc', harg', hkey⟩
      rw [h.pcbs, List.mem_filter]
      refine ⟨hq, decide_eq_true ?_⟩
      intro hid
      obtain rfl := hs.eq_of_id hq h.mem hid
      exact hne (harg.symm.trans harg')
  · intro q hq hacc'
    obtain ⟨hq, hid⟩ := hmem hq
    obtain ⟨herr, d, hd, hactive, hpcb⟩ := hs.pcb q hq hacc'
    have hne : slot ≠ q.arg := by
      rintro rfl
      rw [h.conn] at hd
      obtain rfl := Option.some.inj hd
      exact hid (Option.some.inj (hpcb.symm.trans h.pcb))
    refine ⟨herr, d, ?_, hactive, hpcb⟩
    rw [h.conns, List.getElem?_modify_ne _ _ hne]
    exact hd
  · intro q hq hhalf
    exact hs.half q (hmem hq).1 hhalf

theorem Slots.dropped {b : Bridge} (hs : Slots b) {p : Pcb} (hp : p ∈ b.pcbs)
    (hhalf : p.accepted = false) : Slots (b.freePcb p.id) := by
  have hmem {q : Pcb} (hq : q ∈ (b.freePcb p.id).pcbs) : q ∈ b.pcbs :=
    (List.mem_filter.mp hq).1
  refine ⟨hs.conns_length, ?_, ?_, ?_, hs.idle, ?_, ?_, ?_⟩
  · exact hs.nodup.sublist (List.Sublist.map _ List.filter_sublist)
  · exact fun q hq => hs.fresh q (hmem hq)
  · exact (List.length_filter_le _ _).trans hs.bound
  · intro i c hc hactive
    obtain ⟨q, hq, hpcb, hacc, hrest⟩ := hs.conn i c hc hactive
    refine ⟨q, List.mem_filter.mpr ⟨hq, decide_eq_true ?_⟩, hpcb, hacc, hrest⟩
    intro hid
    obtain rfl := hs.eq_of_id hq hp hid
    rw [hhalf] at hacc
    cases hacc
  · exact fun q hq hacc => hs.pcb q (hmem hq) hacc
  · exact fun q hq hhalf' => hs.half q (hmem hq) hhalf'

theorem BridgeEffect.slots {L : Lwip} {b b' : Bridge} (hs : Slots b) {e : BridgeEvent}
    (h : BridgeEffect L b e b') : Slots b' := by
  cases h with
  | quiet _ h => exact hs.quiet h
  | input _ _ h => exact hs.of_eq h.conns h.pcbs h.nextPcb
  | poll => exact hs.of_eq rfl rfl rfl
  | done => exact hs.of_eq rfl rfl rfl
  | halfOpen _ hlen => exact hs.halfOpen hlen _ _
  | accept _ hmem hhalf hslot h => exact hs.accept hmem hhalf hslot h
  | fin _ _ h => exact hs.torn h
  | ended _ h => exact hs.torn h
  | dropped hmem hhalf => exact hs.dropped hmem hhalf
  | emit => exact hs.of_eq rfl rfl rfl
  | close h => exact hs.torn h

theorem slots_init : Slots Bridge.init := by
  have hinactive : ∀ c ∈ Bridge.init.conns, c = {} := fun c hc => List.eq_of_mem_replicate hc
  refine ⟨List.length_replicate, List.nodup_nil, nofun, Nat.zero_le _, ?_, ?_, nofun, nofun⟩
  · intro c hc _
    rw [hinactive c hc]
  · intro i c hc hactive
    rw [hinactive c (List.mem_of_getElem? hc)] at hactive
    cases hactive

theorem slots_step {L : Lwip} {b b' : Bridge} (hs : Slots b) {e : BridgeEvent}
    (hstep : b.step L e = some b') : Slots b' := (effect_of_step hs hstep).slots hs

theorem slots_run {L : Lwip} {b : Bridge} {events : List BridgeEvent}
    (h : run (Bridge.step L) Bridge.init events = some b) : Slots b :=
  invariant_run (fun _ _ _ hs hstep => slots_step hs hstep) events _ _ slots_init h

/-! ## The table -/

theorem BridgeEffect.distinct {L : Lwip} {b b' : Bridge} {e : BridgeEvent}
    (hd : NatDistinct b.nat) (h : BridgeEffect L b e b') : NatDistinct b'.nat := by
  cases h with
  | quiet _ h => rw [h.nat]; exact hd
  | input _ _ h => rw [h.nat]; exact hd.add _ _
  | poll => exact hd
  | done => exact hd
  | halfOpen => exact hd
  | accept _ _ _ _ h => rw [h.nat]; exact hd
  | fin _ _ h => rw [h.nat]; exact hd.remove (Conn.key _)
  | ended _ h => rw [h.nat]; exact hd.remove (Conn.key _)
  | dropped => exact hd
  | emit => exact hd
  | close h => rw [h.nat]; exact hd.remove (Conn.key _)

theorem natDistinct_init : NatDistinct Bridge.init.nat := by
  unfold NatDistinct Cells.Distinct
  rw [show natCells.keys Bridge.init.nat = [] from by decide]
  exact List.nodup_nil

end WSBridge
