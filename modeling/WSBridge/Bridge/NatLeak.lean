import WSBridge.Bridge.Slots

/-!
# Entries that nothing removes

An entry of the NAT table should belong to a pcb lwIP holds, so that the 128
entries suffice for the 32 pcbs. `lwip_bridge_input` makes the entry before
lwIP has looked at the packet, and a half-open pcb has no err callback: the
entry of a packet lwIP opens no pcb for stays, and that of a handshake that
is never completed.

Results:
* `noLeak_iff`: a run keeps every entry owned, and room for every client,
  exactly when each of its packets is claimed by a pcb.
* `input_leaks`: the shortest run that leaves an entry behind.
-/

namespace WSBridge

open WSBridge.Foundation

/-- The key of the packet lwIP is looking at, as long as it has no pcb. -/
def Phase.unclaimed : Phase → Option ClientKey
  | .input _ unclaimed => unclaimed
  | _ => none

/-- lwIP holds a pcb, half-open or accepted, of the client's address and port. -/
def Bridge.Holds (b : Bridge) (k : ClientKey) : Prop := ∃ p ∈ b.pcbs, p.key = k

/-- There are finitely many pcbs to look at. -/
instance (b : Bridge) (k : ClientKey) : Decidable (b.Holds k) :=
  inferInstanceAs (Decidable (∃ p ∈ b.pcbs, p.key = k))

/-- Every used entry has the key of a pcb lwIP holds, or of the packet it is
just looking at. -/
def NoLeak (b : Bridge) : Prop :=
  ∀ k ∈ natKeys b.nat, b.Holds k ∨ b.phase.unclaimed = some k

/-- A packet that is entered into the table gets to lwIP, and lwIP holds a pcb
for it in the end; a half-open pcb is freed only when its key has no entry, or
another pcb. -/
def Claimed (b : Bridge) : BridgeEvent → Prop
  | .input data malloc pbuf =>
    data.length < 40 ∨ b.Holds (natKey data) ∨ malloc = true ∧ pbuf = true
  | .done => b.phase.unclaimed = none
  | .lwip (.free id _) => ∀ p ∈ b.pcbs, p.id = id → p.accepted = false →
      p.key ∉ natKeys b.nat ∨ ∃ q ∈ b.pcbs, q.id ≠ p.id ∧ q.key = p.key
  | _ => True

/-- What every event keeps. -/
structure NatInv (b : Bridge) : Prop where
  slots : Slots b
  distinct : NatDistinct b.nat
  length : b.nat.length = natMax
  unheld : ∀ k, b.phase.unclaimed = some k → k ∈ natKeys b.nat ∧ ¬ b.Holds k

/-- With an owner for each entry the table has room for every client. -/
theorem NatInv.room {b : Bridge} (hi : NatInv b) (h : NoLeak b) (k : ClientKey) :
    NatRoom b.nat k := by
  apply natRoom_of_length_lt
  have hsub : natKeys b.nat ⊆ b.pcbs.map Pcb.key ++ b.phase.unclaimed.toList := by
    intro k hk
    rcases h k hk with ⟨p, hp, rfl⟩ | hk
    · exact List.mem_append_left _ (List.mem_map_of_mem hp)
    · exact List.mem_append_right _ (by simp [hk])
  have hle : (natKeys b.nat).length ≤ _ := (hi.distinct.subperm hsub).length_le
  have hone : b.phase.unclaimed.toList.length ≤ 1 := by
    cases b.phase.unclaimed <;> simp
  have hbound := hi.slots.bound
  rw [List.length_append, List.length_map] at hle
  rw [hi.length]
  unfold memNumTcpPcb at hbound
  unfold natMax
  omega

/-! ## Pcbs that are held -/

section

variable {b b' : Bridge}

theorem Quiet.holds (h : Quiet b b') (k : ClientKey) : b'.Holds k ↔ b.Holds k := by
  constructor
  · rintro ⟨q, hq, rfl⟩
    obtain ⟨p, hp, hview⟩ := h.mem hq
    exact ⟨p, hp, (view_inj hview).2.2.2.1⟩
  · rintro ⟨p, hp, rfl⟩
    obtain ⟨q, hq, hview⟩ := h.mem' hp
    exact ⟨q, hq, (view_inj hview).2.2.2.1⟩

theorem Accepted.holds {p : Pcb} {slot : ℕ} (hs : Slots b) (hp : p ∈ b.pcbs)
    (h : Accepted b b' p slot) (k : ClientKey) : b'.Holds k ↔ b.Holds k := by
  unfold Bridge.Holds
  rw [h.pcbs]
  constructor
  · rintro ⟨q', hq', rfl⟩
    obtain ⟨q, hq, rfl⟩ := List.mem_map.mp hq'
    split_ifs
    · exact ⟨p, hp, rfl⟩
    · exact ⟨q, hq, rfl⟩
  · rintro ⟨q, hq, rfl⟩
    refine ⟨_, List.mem_map_of_mem hq, ?_⟩
    split_ifs with hid
    · rw [hs.eq_of_id hq hp hid]
      rfl
    · rfl

theorem halfOpen_holds (given : NetifInput) (unclaimed : Option ClientKey) (k : ClientKey) :
    (b.halfOpen given unclaimed).Holds k ↔ b.Holds k ∨ (b.newPcb given).key = k := by
  unfold Bridge.Holds Bridge.halfOpen
  simp [or_and_right, exists_or]

/-- A client that had another pcb, or another key, still has a pcb. -/
theorem holds_of_ne {p : Pcb} (hpcbs : b'.pcbs = b.pcbs.filter fun q => q.id ≠ p.id)
    {k : ClientKey} (h : ∃ q ∈ b.pcbs, q.id ≠ p.id ∧ q.key = k) : b'.Holds k := by
  obtain ⟨q, hq, hid, hkey⟩ := h
  refine ⟨q, ?_, hkey⟩
  rw [hpcbs]
  exact List.mem_filter.mpr ⟨hq, decide_eq_true hid⟩

theorem holds_filter {p : Pcb} (hpcbs : b'.pcbs = b.pcbs.filter fun q => q.id ≠ p.id)
    {k : ClientKey} : b'.Holds k ↔ ∃ q ∈ b.pcbs, q.id ≠ p.id ∧ q.key = k := by
  constructor
  · rintro ⟨q, hq, hkey⟩
    rw [hpcbs] at hq
    obtain ⟨hq, hid⟩ := List.mem_filter.mp hq
    exact ⟨q, hq, of_decide_eq_true hid, hkey⟩
  · exact holds_of_ne hpcbs

/-! ## What an event does to the entries -/

/-- A change that leaves the table, and what is held, as they were. -/
theorem NatInv.same (hi : NatInv b) (hs : Slots b') (hnat : b'.nat = b.nat)
    (hholds : ∀ k, b'.Holds k ↔ b.Holds k)
    (hphase : b'.phase.unclaimed = b.phase.unclaimed) :
    NatInv b' ∧ (NoLeak b' ↔ NoLeak b) := by
  refine ⟨⟨hs, ?_, ?_, ?_⟩, ?_⟩
  · rw [hnat]; exact hi.distinct
  · rw [hnat]; exact hi.length
  · intro k
    rw [hnat, hphase, hholds]
    exact hi.unheld k
  · unfold NoLeak
    simp only [hnat, hphase, hholds]

theorem NatInv.done (hi : NatInv b) (hleak : NoLeak b) :
    NatInv b.returns ∧ (NoLeak b.returns ↔ b.phase.unclaimed = none) := by
  refine ⟨⟨hi.slots.of_eq rfl rfl rfl, hi.distinct, hi.length, nofun⟩, ?_, ?_⟩
  · intro h
    by_contra hsome
    obtain ⟨k, hk⟩ := Option.ne_none_iff_exists'.mp hsome
    obtain ⟨hmem, hunheld⟩ := hi.unheld k hk
    rcases h k hmem with h | h
    · exact hunheld h
    · exact absurd h nofun
  · intro hnone k hk
    rcases hleak k hk with h | h
    · exact Or.inl h
    · rw [hnone] at h
      exact absurd h nofun

theorem NatInv.input (hi : NatInv b) (hleak : NoLeak b) (hrest : b.phase = .rest) {data : Bytes}
    (h : Entered b b' data) {reaches : Prop} [Decidable reaches]
    (hphase : b'.phase = if reaches then
      .input ⟨rewriteInput data, origDst data⟩
        (if b.pcbs.any (·.key = natKey data) then none else some (natKey data))
      else .rest) :
    NatInv b' ∧ (NoLeak b' ↔ b.Holds (natKey data) ∨ reaches) := by
  have hroom := hi.room hleak (natKey data)
  have hholds (k : ClientKey) : b'.Holds k ↔ b.Holds k := by
    unfold Bridge.Holds
    rw [h.pcbs]
  have hany : b.pcbs.any (·.key = natKey data) = true ↔ b.Holds (natKey data) := by
    simp [Bridge.Holds]
  have hself : natKey data ∈ natKeys b'.nat := by
    rw [h.nat]
    exact mem_natKeys_add_self hroom _
  refine ⟨⟨hi.slots.of_eq h.conns h.pcbs h.nextPcb, ?_, ?_, ?_⟩, ?_, ?_⟩
  · rw [h.nat]
    exact hi.distinct.add _ _
  · rw [h.nat, natAdd_length]
    exact hi.length
  · intro k hk
    rw [hphase] at hk
    split_ifs at hk with hreach hheld
    · exact absurd hk nofun
    · obtain rfl := Option.some.inj hk
      exact ⟨hself, fun hk' => hheld (hany.mpr ((hholds _).mp hk'))⟩
    · exact absurd hk nofun
  · intro hleak'
    by_contra hnot
    obtain ⟨hunheld, hreach⟩ := not_or.mp hnot
    rcases hleak' _ hself with hk | hk
    · exact hunheld ((hholds _).mp hk)
    · rw [hphase, if_neg hreach] at hk
      exact absurd hk nofun
  · intro hclaimed k hk
    rw [h.nat] at hk
    rcases mem_natKeys_add hk with rfl | hk
    · rcases hclaimed with hheld | hreach
      · exact Or.inl ((hholds _).mpr hheld)
      · by_cases hheld : b.Holds (natKey data)
        · exact Or.inl ((hholds _).mpr hheld)
        · right
          rw [hphase, if_pos hreach, if_neg (mt hany.mp hheld)]
          rfl
    · rcases hleak k hk with hk | hk
      · exact Or.inl ((hholds _).mpr hk)
      · rw [hrest] at hk
        exact absurd hk nofun

theorem NatInv.halfOpen (hi : NatInv b) (hleak : NoLeak b) {given : NetifInput}
    {unclaimed : Option ClientKey} (hphase : b.phase = .input given unclaimed)
    (hlen : b.pcbs.length < memNumTcpPcb) :
    NatInv (b.halfOpen given unclaimed) ∧ NoLeak (b.halfOpen given unclaimed) := by
  have hunclaimed (k : ClientKey) : (b.halfOpen given unclaimed).phase.unclaimed = some k ↔
      b.phase.unclaimed = some k ∧ k ≠ (b.newPcb given).key := by
    rw [hphase]
    simp [Bridge.halfOpen, Phase.unclaimed, Option.filter_eq_some_iff]
  refine ⟨⟨hi.slots.halfOpen hlen given unclaimed, hi.distinct, hi.length, ?_⟩, ?_⟩
  · intro k hk
    obtain ⟨hk, hne⟩ := (hunclaimed k).mp hk
    obtain ⟨hmem, hunheld⟩ := hi.unheld k hk
    refine ⟨hmem, ?_⟩
    rw [halfOpen_holds]
    rintro (h | rfl)
    · exact hunheld h
    · exact hne rfl
  · intro k hk
    rw [halfOpen_holds, hunclaimed]
    by_cases hkey : (b.newPcb given).key = k
    · exact Or.inl (Or.inr hkey)
    · rcases hleak k hk with h | h
      · exact Or.inl (Or.inl h)
      · exact Or.inr ⟨h, Ne.symm hkey⟩

/-- The end of a connection takes its entry along. -/
theorem NatInv.torn (hi : NatInv b) (hleak : NoLeak b) {slot : ℕ} {c : Conn} {p : Pcb}
    (h : Torn b b' slot c p) : NatInv b' ∧ NoLeak b' := by
  obtain ⟨p', hp', hpcb', -, -, hkey⟩ := hi.slots.conn slot c h.conn h.active
  obtain rfl : p' = p :=
    hi.slots.eq_of_id hp' h.mem (Option.some.inj (hpcb'.symm.trans h.pcb))
  have hnat : b'.nat = natRemove b.nat p'.key.1 p'.key.2 := by
    rw [hkey]
    exact h.nat
  refine ⟨⟨hi.slots.torn h, ?_, ?_, ?_⟩, ?_⟩
  · rw [hnat]
    exact hi.distinct.remove _
  · rw [hnat, natRemove_length]
    exact hi.length
  · intro k hk
    rw [h.phase] at hk
    obtain ⟨hmem, hunheld⟩ := hi.unheld k hk
    rw [hnat, mem_natKeys_remove hi.distinct, holds_filter h.pcbs]
    refine ⟨⟨?_, hmem⟩, ?_⟩
    · rintro rfl
      exact hunheld ⟨p', hp', rfl⟩
    · rintro ⟨q, hq, -, rfl⟩
      exact hunheld ⟨q, hq, rfl⟩
  · intro k hk
    rw [hnat, mem_natKeys_remove hi.distinct] at hk
    rw [h.phase, holds_filter h.pcbs]
    rcases hleak k hk.2 with ⟨q, hq, rfl⟩ | h
    · refine Or.inl ⟨q, hq, ?_, rfl⟩
      intro hid
      obtain rfl := hi.slots.eq_of_id hq hp' hid
      exact hk.1 rfl
    · exact Or.inr h

/-- A half-open pcb leaves its entry behind. -/
theorem NatInv.dropped (hi : NatInv b) (hleak : NoLeak b) {p : Pcb} (hp : p ∈ b.pcbs)
    (hhalf : p.accepted = false) :
    NatInv (b.freePcb p.id) ∧ (NoLeak (b.freePcb p.id) ↔
      p.key ∉ natKeys b.nat ∨ ∃ q ∈ b.pcbs, q.id ≠ p.id ∧ q.key = p.key) := by
  have hholds (k : ClientKey) :
      (b.freePcb p.id).Holds k ↔ ∃ q ∈ b.pcbs, q.id ≠ p.id ∧ q.key = k := holds_filter rfl
  refine ⟨⟨hi.slots.dropped hp hhalf, hi.distinct, hi.length, ?_⟩, ?_, ?_⟩
  · intro k hk
    obtain ⟨hmem, hunheld⟩ := hi.unheld k hk
    refine ⟨hmem, ?_⟩
    rw [hholds]
    rintro ⟨q, hq, -, rfl⟩
    exact hunheld ⟨q, hq, rfl⟩
  · intro h
    by_contra hnot
    obtain ⟨hmem, hother⟩ := not_or.mp hnot
    rcases h p.key (not_not.mp hmem) with hk | hk
    · exact hother ((hholds _).mp hk)
    · exact (hi.unheld _ hk).2 ⟨p, hp, rfl⟩
  · intro h k hk
    rcases hleak k hk with ⟨q, hq, rfl⟩ | hk'
    · left
      rw [hholds]
      by_cases hid : q.id = p.id
      · obtain rfl := hi.slots.eq_of_id hq hp hid
        exact h.resolve_left (not_not.mpr hk)
      · exact ⟨q, hq, hid, rfl⟩
    · exact Or.inr hk'

end

/-! ## Runs -/

/-- One event keeps the entries owned exactly when it claims its packet. -/
theorem NatInv.effect {L : Lwip} {b b' : Bridge} {e : BridgeEvent} (hi : NatInv b)
    (hleak : NoLeak b) (h : BridgeEffect L b e b') : NatInv b' ∧ (NoLeak b' ↔ Claimed b e) := by
  have htrue {P : Prop} (h : NatInv b' ∧ P) : NatInv b' ∧ (P ↔ True) :=
    ⟨h.1, iff_true_intro h.2⟩
  cases h with
  | quiet hpass h =>
    obtain ⟨hi', hiff⟩ := hi.same (hi.slots.quiet h) h.nat h.holds
      (congrArg Phase.unclaimed h.phase)
    refine ⟨hi', iff_of_true (hiff.mpr hleak) ?_⟩
    match e, hpass with
    | .input _ _ _, hlen => exact Or.inl hlen
    | .write _ _, _ => trivial
    | .close _, _ => trivial
    | .recved _ _, _ => trivial
    | .lwip (.recv _ _ _ _), _ => trivial
    | .lwip (.sent _ _), _ => trivial
    | .lwip .acceptFailed, _ => trivial
  | input hrest hlen h hphase =>
    obtain ⟨hi', hiff⟩ := hi.input hleak hrest h hphase
    refine ⟨hi', hiff.trans ?_⟩
    exact (or_iff_right (not_lt.mpr hlen)).symm
  | poll hrest =>
    have hslots : Slots b.lwipBridgePoll := hi.slots.of_eq rfl rfl rfl
    obtain ⟨hi', hiff⟩ := hi.same hslots rfl (fun _ => Iff.rfl)
      (congrArg Phase.unclaimed hrest).symm
    exact htrue ⟨hi', hiff.mpr hleak⟩
  | done => exact hi.done hleak
  | halfOpen hphase hlen => exact htrue (hi.halfOpen hleak hphase hlen)
  | accept hphase hmem hhalf hslot h =>
    obtain ⟨hi', hiff⟩ := hi.same (hi.slots.accept hmem hhalf hslot h) h.nat
      (h.holds hi.slots hmem) (congrArg Phase.unclaimed h.phase)
    exact htrue ⟨hi', hiff.mpr hleak⟩
  | fin hfin hacc h => exact htrue (hi.torn hleak h)
  | @ended p err c _ hacc h =>
    obtain ⟨hi', hleak'⟩ := hi.torn hleak h
    refine ⟨hi', iff_of_true hleak' ?_⟩
    intro q hq hid hhalf
    rw [hi.slots.eq_of_id hq h.mem hid, hacc] at hhalf
    cases hhalf
  | @dropped p err hmem hhalf =>
    obtain ⟨hi', hiff⟩ := hi.dropped hleak hmem hhalf
    refine ⟨hi', hiff.trans ⟨?_, fun h => h p hmem rfl hhalf⟩⟩
    intro h q hq hid _
    rwa [hi.slots.eq_of_id hq hmem hid]
  | @emit p packet hmem =>
    have hslots : Slots (b.netifOutput L p packet) := hi.slots.of_eq rfl rfl rfl
    obtain ⟨hi', hiff⟩ := hi.same hslots rfl (fun _ => Iff.rfl) rfl
    exact htrue ⟨hi', hiff.mpr hleak⟩
  | close h => exact htrue (hi.torn hleak h)

theorem natInv_init : NatInv Bridge.init ∧ NoLeak Bridge.init := by
  have hkeys : natKeys Bridge.init.nat = [] := by decide
  refine ⟨⟨slots_init, natDistinct_init, List.length_replicate, nofun⟩, ?_⟩
  intro k hk
  rw [hkeys] at hk
  cases hk

/-- A run of the bridge keeps an owner for every entry, and room for every
client, exactly when each of its packets is claimed. -/
theorem noLeak_iff (L : Lwip) (events : List BridgeEvent) :
    EveryState (Bridge.step L) (fun b => NoLeak b ∧ ∀ k, NatRoom b.nat k) Bridge.init events ↔
      EveryStep (Bridge.step L) Claimed Bridge.init events := by
  obtain ⟨hi, hleak⟩ := natInv_init
  refine everyState_iff_everyStep ?_ ?_ events _ hi ⟨hleak, hi.room hleak⟩
  · intro b e b' hi hP h
    obtain ⟨hi', hiff⟩ := hi.effect hP.1 (effect_of_step hi.slots h)
    exact ⟨fun hP' => hiff.mp hP'.1, fun hC => ⟨hiff.mpr hC, hi'.room (hiff.mpr hC)⟩⟩
  · intro b e b' hi hP _ h
    exact (hi.effect hP.1 (effect_of_step hi.slots h)).1

/-- A SYN from 10.0.0.1:40000 to port 22 of 149.154.167.51. -/
def strayPacket : Bytes := tcpPacket 0x02 (0x0A000001, 40000) (0x959AA733, 22)

/-- lwIP answers a SYN to a port nobody listens on, and its entry stays. -/
theorem input_leaks :
    ¬ ∀ (L : Lwip) (events : List BridgeEvent) (b : Bridge),
      run (Bridge.step L) Bridge.init events = some b → NoLeak b := by
  intro h
  have hleak := h Lwip.ample [.input strayPacket true true, .done] _ rfl
  obtain ⟨p, hp, -⟩ | hphase := hleak (0x0A000001, 40000) (by decide +kernel)
  · revert p
    decide +kernel
  · revert hphase
    decide +kernel

end WSBridge
