import WSBridge.Foundation.Runs
import WSBridge.Bridge.NatTable

/-!
# The NAT table is a finite map (`Tunnel/lwip_bridge.c:21-72`)

The array `g_nat` beside the map it stands for, through any row of calls.

Results:
* `natRefines_run`: as long as the map has no more keys than the array has
  entries, the array holds the map and nothing else, a look-up answers what the
  map answers, and a call leaves the entries of all other keys alone.
-/

namespace WSBridge

open WSBridge.Foundation

/-! ## The map -/

/-- What the table is for: the address a client had addressed. -/
abbrev NatMap := Finmap fun _ : ClientKey => UInt32

/-- A call of `nat_add`, `nat_remove` or `nat_lookup`. -/
inductive NatOp where
  | add (k : ClientKey) (dcIP : UInt32)
  | remove (k : ClientKey)
  | lookup (k : ClientKey)
  deriving DecidableEq, Repr

/-- The key of a call. -/
def NatOp.key : NatOp → ClientKey
  | .add k _ | .remove k | .lookup k => k

/-- A call on the map, and its answer. -/
def NatMap.call (m : NatMap) : NatOp → NatMap × Option UInt32
  | .add k dcIP => (m.insert k dcIP, none)
  | .remove k => (m.erase k, none)
  | .lookup k => (m, some ((m.lookup k).getD 0))

/-- A call on the array, and its answer. -/
def natCall (nat : NatTable) : NatOp → NatTable × Option UInt32
  | .add k dcIP => (natAdd nat k.1 k.2 dcIP, none)
  | .remove k => (natRemove nat k.1 k.2, none)
  | .lookup k => (nat, some (natLookup nat k.1 k.2))

/-! ## Refinement -/

/-- The used entries of the array are the entries of the map. -/
structure NatRefines (nat : NatTable) (m : NatMap) : Prop where
  /-- No two used entries have the same key. -/
  distinct : NatDistinct nat
  entries : ∀ k dcIP, (∃ e ∈ nat, e.used = true ∧ (e.clientIP, e.clientPort) = k ∧ e.dcIP = dcIP) ↔
    m.lookup k = some dcIP
  lookup : ∀ k, natLookup nat k.1 k.2 = (m.lookup k).getD 0
  size : nat.countP (·.used) = m.keys.card

/-- The call leaves the used entries of all other keys alone. -/
def OwnKey (nat : NatTable) (op : NatOp) : Prop :=
  ∀ e : NatEntry, e.used = true → (e.clientIP, e.clientPort) ≠ op.key →
    (e ∈ (natCall nat op).1 ↔ e ∈ nat)

section

variable {nat : NatTable} {m : NatMap}

theorem natCells_key {e : NatEntry} {k : ClientKey} :
    natCells.key e = some k ↔ e.used = true ∧ (e.clientIP, e.clientPort) = k := by
  show (if e.used = true then some (e.clientIP, e.clientPort) else none) = some k ↔ _
  split_ifs with hu
  · simp [hu]
  · simp [hu]

theorem natKeys_length (nat : NatTable) : (natKeys nat).length = nat.countP (·.used) := by
  show (nat.filterMap natCells.key).length = _
  rw [List.length_filterMap_eq_countP]
  apply List.countP_congr
  intro e _
  cases hu : e.used <;> simp [natCells, hu]

theorem natRefines_of_cells (h : natCells.Refines nat m) : NatRefines nat m := by
  refine ⟨h.distinct, ?_, ?_, ?_⟩
  · intro k dcIP
    rw [← h.mem_iff k dcIP]
    constructor
    · rintro ⟨e, he, hu, hk, hdc⟩
      exact ⟨e, he, natCells_key.mpr ⟨hu, hk⟩, hdc⟩
    · rintro ⟨e, he, hkey, hdc⟩
      obtain ⟨hu, hk⟩ := natCells_key.mp hkey
      exact ⟨e, he, hu, hk, hdc⟩
  · intro k
    rw [natLookup_eq, ← h.look]
  · rw [← natKeys_length]
    exact h.size

theorem natCall_length (nat : NatTable) (op : NatOp) : (natCall nat op).1.length = nat.length := by
  cases op with
  | add k dcIP => exact natAdd_length nat k dcIP
  | remove k => exact natRemove_length nat k
  | lookup k => rfl

/-- A call keeps the refinement when the map it leads to fits. -/
theorem natCall_refines (h : natCells.Refines nat m) {op : NatOp}
    (hfits : (m.call op).1.keys.card ≤ nat.length) :
    natCells.Refines (natCall nat op).1 (m.call op).1 := by
  cases op with
  | add k dcIP =>
    show natCells.Refines (natAdd nat k.1 k.2 dcIP) _
    rw [natAdd_eq]
    exact h.add (h.room hfits)
  | remove k =>
    show natCells.Refines (natRemove nat k.1 k.2) _
    rw [natRemove_eq]
    exact h.remove k
  | lookup k => exact h

/-- The array answers what the map answers. -/
theorem natCall_answer (h : NatRefines nat m) (op : NatOp) :
    (natCall nat op).2 = (m.call op).2 := by
  cases op with
  | add | remove => rfl
  | lookup k => exact congrArg some (h.lookup k)

theorem ownKey (nat : NatTable) (op : NatOp) : OwnKey nat op := by
  intro e hu hne
  have hkey : natCells.key e = some (e.clientIP, e.clientPort) := natCells_key.mpr ⟨hu, rfl⟩
  cases op with
  | add k dcIP =>
    show e ∈ natAdd nat k.1 k.2 dcIP ↔ _
    rw [natAdd_eq]
    exact natCells.mem_add_of_ne hkey hne dcIP
  | remove k =>
    show e ∈ natRemove nat k.1 k.2 ↔ _
    rw [natRemove_eq]
    exact natCells.mem_remove_of_ne hkey hne
  | lookup k => exact Iff.rfl

end

/-! ## Runs -/

/-- The array, zeroed by `lwip_bridge_init` (line 308), and the empty map. -/
structure NatPair where
  table : NatTable := List.replicate natMax {}
  map : NatMap := ∅

/-- The same call on both. -/
def NatPair.step (p : NatPair) (op : NatOp) : Option NatPair :=
  some ⟨(natCall p.table op).1, (p.map.call op).1⟩

/-- The map has no more keys than the array has entries. -/
def NatPair.Fits (p : NatPair) : Prop := p.map.keys.card ≤ natMax

/-- As long as the map never has more than `NAT_MAX` keys, the array holds the
map, answers what it answers, and changes at the key of a call only. -/
theorem natRefines_run (ops : List NatOp) (hfits : EveryState NatPair.step NatPair.Fits {} ops) :
    EveryState NatPair.step (fun p => NatRefines p.table p.map) {} ops ∧
      EveryStep NatPair.step
        (fun p op => (natCall p.table op).2 = (p.map.call op).2 ∧ OwnKey p.table op) {} ops := by
  refine everyState_of_everyState
    (I := fun p => natCells.Refines p.table p.map ∧ p.table.length = natMax) ?_ ?_ ?_ ops _ ?_ hfits
  · rintro p op q ⟨href, hlen⟩ hq hstep
    obtain rfl := Option.some.inj hstep
    refine ⟨natCall_refines href ?_, (natCall_length p.table op).trans hlen⟩
    rw [hlen]
    exact hq
  · rintro p ⟨href, -⟩
    exact natRefines_of_cells href
  · rintro p op - ⟨href, -⟩ -
    exact ⟨natCall_answer (natRefines_of_cells href) op, ownKey p.table op⟩
  · refine ⟨Cells.Refines.empty ?_, List.length_replicate⟩
    intro e he
    rw [List.eq_of_mem_replicate he]
    rfl

theorem NatMap.card_call (m : NatMap) (op : NatOp) : (m.call op).1.keys.card ≤ m.keys.card + 1 := by
  cases op with
  | add k dcIP =>
    show (m.insert k dcIP).keys.card ≤ _
    rw [Cells.keys_insert]
    exact Finset.card_insert_le k m.keys
  | remove k =>
    show (m.erase k).keys.card ≤ _
    rw [Finmap.keys_erase]
    exact Nat.le_succ_of_le (Finset.card_erase_le)
  | lookup k => exact Nat.le_succ _

/-- A row of at most `NAT_MAX` calls always fits. -/
theorem natFits_of_length (ops : List NatOp) (p : NatPair)
    (h : p.map.keys.card + ops.length ≤ natMax) :
    EveryState NatPair.step NatPair.Fits p ops := by
  induction ops generalizing p with
  | nil => exact h
  | cons op ops ih =>
    rw [List.length_cons] at h
    refine ⟨?_, fun q hq => ih q ?_⟩
    · show p.map.keys.card ≤ natMax
      omega
    · obtain rfl := Option.some.inj hq
      have hcard := p.map.card_call op
      show (p.map.call op).1.keys.card + ops.length ≤ natMax
      omega

/-- An entry is removed, the one behind it updated, and the hole filled again. -/
theorem natRefines_run_hole :
    EveryState NatPair.step NatPair.Fits {}
        [.add (1, 1) 7, .add (2, 1) 8, .remove (1, 1), .add (2, 1) 9, .add (3, 1) 7] ∧
      EveryState NatPair.step (fun p => NatRefines p.table p.map) {}
        [.add (1, 1) 7, .add (2, 1) 8, .remove (1, 1), .add (2, 1) 9, .add (3, 1) 7] := by
  have hfits := natFits_of_length
    [.add (1, 1) 7, .add (2, 1) 8, .remove (1, 1), .add (2, 1) 9, .add (3, 1) 7] {} (by decide)
  exact ⟨hfits, (natRefines_run _ hfits).1⟩

end WSBridge
