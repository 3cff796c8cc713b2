import WSBridge.Bridge.Slots

/-!
# The mapping of a live connection

For every active slot, the NAT table and `g_conns[slot].dc_ip` should both have
the destination the client gave the connection. The table has one entry for a
client's address and port, so flows that differ only in their destination or
its port share it: the packets of one overwrite the mapping of the other, and
the end of one removes it.

Results:
* `mapped_iff`: a run keeps every mapping right exactly when the flows of live
  connections keep apart.
* `flows_clash`: two flows of one client port with different destinations.
-/

namespace WSBridge

open WSBridge.Foundation

/-- The table and the slots have the destinations the clients gave. -/
def Mapped (b : Bridge) : Prop :=
  ∀ i c, b.connOfId i = some c → ∀ p ∈ b.pcbs, c.pcb = some p.id →
    natLookup b.nat c.clientIP c.clientPort = c.dcIP ∧ c.dcIP = p.origDst

/-- No other connection has the client's address and port of the one in the
slot, except to 0.0.0.0. -/
def Alone (b : Bridge) (slot : ℕ) : Prop :=
  ∀ c, b.connOfId slot = some c →
    ∀ j d, j ≠ slot → b.connOfId j = some d → d.key = c.key → d.dcIP = 0

/-- A packet that is entered has the destination of the live connections of its
client's address and port; a handshake is completed while the table has its
destination; a connection that ends is alone. -/
def Apart (b : Bridge) : BridgeEvent → Prop
  | .input data _ _ => data.length < 40 ∨
      ∀ i c, b.connOfId i = some c → c.key = natKey data → NatRoom b.nat c.key →
        c.dcIP = origDst data
  | .lwip (.accept id) =>
      ∀ p ∈ b.pcbs, p.id = id → natLookup b.nat p.remoteIP p.remotePort = p.origDst
  | .lwip (.recv id data err _) =>
      data = none ∨ err ≠ 0 → ∀ p ∈ b.pcbs, p.id = id → Alone b p.arg
  | .lwip (.free id _) => ∀ p ∈ b.pcbs, p.id = id → p.accepted = true → Alone b p.arg
  | .close slot => Alone b slot
  | _ => True

section

variable {b b' : Bridge} (hs : Slots b) (hm : Mapped b)

include hm

/-- A change that leaves the table and the slots as they were. -/
theorem Mapped.same (hnat : b'.nat = b.nat) (hconns : b'.conns = b.conns)
    (hpcbs : ∀ q ∈ b'.pcbs, ∃ p ∈ b.pcbs, p.id = q.id ∧ p.origDst = q.origDst) : Mapped b' := by
  intro i c hc q hq hpcb
  obtain ⟨p, hp, hid, hdst⟩ := hpcbs q hq
  have hc' : b.connOfId i = some c := by
    unfold Bridge.connOfId at hc ⊢
    rwa [hconns] at hc
  rw [hnat, ← hdst]
  exact hm i c hc' p hp (by rw [hid]; exact hpcb)

include hs

/-- A packet sets the mapping of its client's address and port. -/
theorem Mapped.input {data : Bytes} (h : Entered b b' data) :
    Mapped b' ↔ ∀ i c, b.connOfId i = some c → c.key = natKey data → NatRoom b.nat c.key →
      c.dcIP = origDst data := by
  have hconn (i : ℕ) : b'.connOfId i = b.connOfId i := by
    unfold Bridge.connOfId
    rw [h.conns]
  have hset (c : Conn) (hkey : c.key = natKey data) (hroom : NatRoom b.nat c.key) :
      natLookup b'.nat c.clientIP c.clientPort = origDst data := by
    rw [h.nat, ← hkey]
    exact natLookup_add_self hroom _
  constructor
  · intro hm' i c hc hkey hroom
    obtain ⟨p, hp, hpcb, -⟩ := hs.pcb_of_connOfId hc
    rw [← h.pcbs] at hp
    rw [← (hm' i c ((hconn i).trans hc) p hp hpcb).1]
    exact hset c hkey hroom
  · intro hdst i c hc p hp hpcb
    rw [hconn] at hc
    rw [h.pcbs] at hp
    obtain ⟨hlook, horig⟩ := hm i c hc p hp hpcb
    refine ⟨?_, horig⟩
    by_cases hkey : c.key = natKey data
    · by_cases hroom : NatRoom b.nat c.key
      · rw [hset c hkey hroom, hdst i c hc hkey hroom]
      · rw [h.nat, ← hkey, natAdd_of_not_room hroom]
        exact hlook
    · rw [h.nat]
      exact (natLookup_add_of_ne hkey _).trans hlook

/-- A new pcb belongs to no connection yet. -/
theorem Mapped.halfOpen (given : NetifInput) (unclaimed : Option ClientKey) :
    Mapped (b.halfOpen given unclaimed) := by
  intro i c hc q hq hpcb
  rcases List.mem_append.mp hq with hq | hq
  · exact hm i c hc q hq hpcb
  · exfalso
    obtain rfl := List.mem_singleton.mp hq
    obtain ⟨p, hp, hpcb', -⟩ := hs.pcb_of_connOfId (b := b) hc
    have hid : p.id = b.nextPcb := Option.some.inj (hpcb'.symm.trans hpcb)
    exact (hs.fresh p hp).ne hid

/-- An accepted connection takes over what the table has at that moment. -/
theorem Mapped.accept {p : Pcb} (hp : p ∈ b.pcbs) (hhalf : p.accepted = false) {slot : ℕ}
    (hslot : b.conns.findIdx? (!·.active) = some slot) (h : Accepted b b' p slot) :
    Mapped b' ↔ natLookup b.nat p.remoteIP p.remotePort = p.origDst := by
  obtain ⟨hlt, -⟩ := List.findIdx?_eq_some_iff_getElem.mp hslot
  have hs' := hs.accept hp hhalf hslot h
  have hmem : p.inSlot slot ∈ b'.pcbs := by
    rw [h.pcbs]
    exact List.mem_map.mpr ⟨p, hp, if_pos rfl⟩
  have hnew := h.connOfId hlt slot
  rw [if_pos rfl] at hnew
  constructor
  · intro hm'
    exact (hm' slot _ hnew _ hmem rfl).2
  · intro hlook i c hc q hq hpcb
    rw [h.nat]
    by_cases hi : i = slot
    · subst hi
      rw [hnew] at hc
      obtain rfl := Option.some.inj hc
      obtain rfl := hs'.eq_of_id hmem hq (Option.some.inj hpcb)
      exact ⟨rfl, hlook⟩
    · rw [h.connOfId hlt, if_neg hi] at hc
      rw [h.pcbs] at hq
      obtain ⟨q₀, hq₀, rfl⟩ := List.mem_map.mp hq
      split_ifs at hpcb ⊢ with hid
      · exact hm i c hc p hp hpcb
      · exact hm i c hc q₀ hq₀ hpcb

/-- The end of a connection removes the mapping of its client's address and
port. -/
theorem Mapped.torn (hd : NatDistinct b.nat) {slot : ℕ} {c : Conn} {p : Pcb}
    (h : Torn b b' slot c p) : Mapped b' ↔ Alone b slot := by
  have hc := Bridge.connOfId_eq_some.mpr ⟨h.conn, h.active⟩
  have hsub {q : Pcb} (hq : q ∈ b'.pcbs) : q ∈ b.pcbs := by
    rw [h.pcbs] at hq
    exact (List.mem_filter.mp hq).1
  have hgone (d : Conn) (hkey : d.key = c.key) :
      natLookup b'.nat d.clientIP d.clientPort = 0 := by
    rw [h.nat]
    show natLookup (natRemove b.nat c.key.1 c.key.2) d.key.1 d.key.2 = 0
    rw [hkey]
    exact natLookup_remove_self hd c.key
  constructor
  · intro hm' c' hc' j d hj hdconn hkey
    rw [hc] at hc'
    obtain rfl := Option.some.inj hc'
    have hdconn' : b'.connOfId j = some d := by rw [h.connOfId, if_neg hj]; exact hdconn
    obtain ⟨q, hq, hpcb, -⟩ := (hs.torn h).pcb_of_connOfId hdconn'
    rw [← (hm' j d hdconn' q hq hpcb).1]
    exact hgone d hkey
  · intro halone j d hd' q hq hpcb
    rw [h.connOfId] at hd'
    split_ifs at hd' with hj
    obtain ⟨hlook, horig⟩ := hm j d hd' q (hsub hq) hpcb
    refine ⟨?_, horig⟩
    by_cases hkey : d.key = c.key
    · rw [hgone d hkey, halone c hc j d hj hd' hkey]
    · rw [h.nat]
      exact (natLookup_remove_of_ne hkey).trans hlook

end

/-! ## Runs -/

theorem quiet_apart {b : Bridge} {e : BridgeEvent} (h : b.Passes e) : Apart b e := by
  match e, h with
  | .input _ _ _, hlen => exact Or.inl hlen
  | .write _ _, _ => trivial
  | .close _, hnone => exact fun c hc => absurd (hnone.symm.trans hc) nofun
  | .recved _ _, _ => trivial
  | .lwip (.recv _ _ _ _), hdata =>
    intro hfin
    exact absurd hfin (not_or.mpr ⟨hdata.1, not_not.mpr hdata.2⟩)
  | .lwip (.sent _ _), _ => trivial
  | .lwip .acceptFailed, _ => trivial

/-- One event keeps every mapping exactly when it keeps the flows apart. -/
theorem Mapped.effect {L : Lwip} {b b' : Bridge} {e : BridgeEvent} (hs : Slots b)
    (hd : NatDistinct b.nat) (hm : Mapped b) (h : BridgeEffect L b e b') :
    Mapped b' ↔ Apart b e := by
  cases h with
  | quiet hpass h =>
    refine iff_of_true (hm.same h.nat h.conns ?_) (quiet_apart hpass)
    intro q hq
    obtain ⟨p, hp, hview⟩ := h.mem hq
    obtain ⟨hid, -, -, -, -, -, hdst⟩ := view_inj hview
    exact ⟨p, hp, hid, hdst⟩
  | input _ hlen h => exact (hm.input hs h).trans (or_iff_right (not_lt.mpr hlen)).symm
  | poll => exact iff_of_true (hm.same rfl rfl fun q hq => ⟨q, hq, rfl, rfl⟩) trivial
  | done => exact iff_of_true (hm.same rfl rfl fun q hq => ⟨q, hq, rfl, rfl⟩) trivial
  | halfOpen => exact iff_of_true (hm.halfOpen hs _ _) trivial
  | accept hphase hmem hhalf hslot h =>
    refine (hm.accept hs hmem hhalf hslot h).trans ⟨?_, fun hC => hC _ hmem rfl⟩
    intro hlook q hq hid
    rwa [hs.eq_of_id hq hmem hid]
  | fin hfin hacc h =>
    refine (hm.torn hs hd h).trans ⟨?_, fun hC => hC hfin _ h.mem rfl⟩
    intro halone _ q hq hid
    rwa [hs.eq_of_id hq h.mem hid]
  | ended hacc h =>
    refine (hm.torn hs hd h).trans ⟨?_, fun hC => hC _ h.mem rfl hacc⟩
    intro halone q hq hid _
    rwa [hs.eq_of_id hq h.mem hid]
  | dropped hmem hhalf =>
    refine iff_of_true (hm.same rfl rfl fun q hq => ⟨q, (List.mem_filter.mp hq).1, rfl, rfl⟩) ?_
    intro q hq hid hacc
    rw [hs.eq_of_id hq hmem hid, hhalf] at hacc
    cases hacc
  | emit => exact iff_of_true (hm.same rfl rfl fun q hq => ⟨q, hq, rfl, rfl⟩) trivial
  | close h => exact hm.torn hs hd h

theorem mapped_init : Mapped Bridge.init := by
  intro i c hc
  obtain ⟨hget, hactive⟩ := Bridge.connOfId_eq_some.mp hc
  obtain rfl := List.eq_of_mem_replicate (List.mem_of_getElem? hget)
  cases hactive

/-- A run of the bridge keeps the mapping of every live connection exactly when
each of its events keeps the flows of live connections apart. -/
theorem mapped_iff (L : Lwip) (events : List BridgeEvent) :
    EveryState (Bridge.step L) Mapped Bridge.init events ↔
      EveryStep (Bridge.step L) Apart Bridge.init events := by
  refine everyState_iff_everyStep (I := fun b => Slots b ∧ NatDistinct b.nat) ?_ ?_ events _
    ⟨slots_init, natDistinct_init⟩ mapped_init
  · intro b e b' hi hm h
    exact hm.effect hi.1 hi.2 (effect_of_step hi.1 h)
  · intro b e b' hi _ _ h
    have heff := effect_of_step hi.1 h
    exact ⟨heff.slots hi.1, heff.distinct hi.2⟩

/-- A connection from 10.0.0.1:40000 to 149.154.167.51:443, and a SYN from the
same port to 149.154.175.50:80: the table maps the live connection to the
second address. -/
theorem flows_clash :
    ¬ ∀ (L : Lwip) (events : List BridgeEvent) (b : Bridge),
      run (Bridge.step L) Bridge.init events = some b → Mapped b := by
  intro h
  have hrun : (run (Bridge.step Lwip.ample) Bridge.init
      (handshake 0 (0x0A000001, 40000) (0x959AA733, 443) ++
        [.input (tcpPacket 0x02 (0x0A000001, 40000) (0x959AAF32, 80)) true true])).map
      (fun b => (b.connOfId 0, b.pcbs.map Pcb.id, natLookup b.nat 0x0A000001 40000)) =
        some (some ⟨some 0, 0x959AA733, 0x0A000001, 40000, true⟩, [0], 0x959AAF32) := by
    decide +kernel
  obtain ⟨b, hb, heq⟩ := Option.map_eq_some_iff.mp hrun
  simp only [Prod.mk.injEq] at heq
  obtain ⟨hconn, hpcbs, hlook⟩ := heq
  obtain ⟨p, hp, hid⟩ := List.mem_map.mp (hpcbs ▸ List.mem_singleton_self 0)
  have hmapped := (h Lwip.ample _ b hb 0 _ hconn p hp (congrArg some hid.symm)).1
  exact absurd (hlook.symm.trans hmapped) (by decide)

end WSBridge
