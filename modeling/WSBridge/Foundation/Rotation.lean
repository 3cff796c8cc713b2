import Mathlib.Data.List.Rotate
import Mathlib.Data.Nat.Count
import Mathlib.Tactic

/-!
# Rotations of a list

A list that is read from a start that moves on by one each time. Over as many
rotations as the list has elements, every element is among the first `k` exactly
`k` times.

Results:
* `mem_take_rotate`: the rotations that have an element among the first `k`.
* `count_rotations`: how many of them there are in a round.
-/

namespace WSBridge.Foundation

/-! ## Counting a round -/

section

variable {p : ℕ → Prop} [DecidablePred p] {n : ℕ}

/-- A round counts the same from every start. -/
theorem count_shift (hp : Function.Periodic p n) (r : ℕ) :
    Nat.count (fun j => p (r + j)) n = Nat.count p n := by
  have hr := Nat.count_add p r n
  have hn := Nat.count_add p n r
  have hshift : Nat.count (fun j => p (n + j)) r = Nat.count p r := by
    congr 1
    funext j
    rw [Nat.add_comm n j, hp j]
  rw [hshift, Nat.add_comm n r, hr] at hn
  omega

theorem count_lt {k : ℕ} (hk : k ≤ n) : Nat.count (· < k) n = k := by
  have hall : Nat.count (· < k) k = k := Nat.count_iff_forall.mpr fun m hm => hm
  obtain ⟨more, rfl⟩ := Nat.exists_eq_add_of_le hk
  rw [Nat.count_add, hall]
  simp

end

/-! ## Rotations -/

section

variable {α : Type*} {l : List α} {i k : ℕ} {x : α}

/-- In the rotation by `r` the place `m` has the element of the place `m + r`. -/
theorem mem_take_rotate (hl : l.Nodup) (hx : l[i]? = some x) (hk : k ≤ l.length) (r : ℕ) :
    x ∈ (l.rotate r).take k ↔ ∃ m < k, (m + r) % l.length = i := by
  have hi := (List.getElem?_eq_some_iff.mp hx).1
  have hlt (m : ℕ) : (m + r) % l.length < l.length := Nat.mod_lt _ (Nat.zero_lt_of_lt hi)
  rw [List.mem_iff_getElem?]
  constructor
  · rintro ⟨m, hm⟩
    rw [List.getElem?_take] at hm
    split_ifs at hm with hmk
    rw [List.getElem?_rotate (hmk.trans_le hk)] at hm
    exact ⟨m, hmk, (List.getElem?_inj (hlt m) hl).mp (hm.trans hx.symm)⟩
  · rintro ⟨m, hmk, rfl⟩
    refine ⟨m, ?_⟩
    rw [List.getElem?_take, if_pos hmk, List.getElem?_rotate (hmk.trans_le hk)]
    exact hx

theorem periodic_rotations (l : List α) (k : ℕ) (x : α) :
    Function.Periodic (fun r => x ∈ (l.rotate r).take k) l.length := by
  intro r
  dsimp only
  rw [← List.rotate_mod l (r + l.length), Nat.add_mod_right, List.rotate_mod]

/-- The round that begins where the element comes in as the last of the first
`k`: it moves to the front, and is gone for the rest of the round. -/
theorem mem_take_rotate_from (hl : l.Nodup) (hx : l[i]? = some x) (hk : k ≤ l.length)
    {j : ℕ} (hj : j < l.length) :
    x ∈ (l.rotate (i + l.length + 1 - k + j)).take k ↔ j < k := by
  have hi := (List.getElem?_eq_some_iff.mp hx).1
  rw [mem_take_rotate hl hx hk]
  constructor
  · rintro ⟨m, hm, hplace⟩
    by_contra hjk
    have hsum : m + (i + l.length + 1 - k + j) = i + (m + 1 + j - k) + l.length := by omega
    rw [hsum, Nat.add_mod_right] at hplace
    by_cases hwrap : i + (m + 1 + j - k) < l.length
    · rw [Nat.mod_eq_of_lt hwrap] at hplace
      omega
    · rw [Nat.mod_eq_sub_mod (not_lt.mp hwrap), Nat.mod_eq_of_lt (by omega)] at hplace
      omega
  · intro hjk
    refine ⟨k - 1 - j, by omega, ?_⟩
    rw [show k - 1 - j + (i + l.length + 1 - k + j) = i + l.length by omega, Nat.add_mod_right,
      Nat.mod_eq_of_lt hi]

/-- In a round of rotations an element is among the first `k` exactly `k` times. -/
theorem count_rotations [DecidableEq α] (hl : l.Nodup) (hx : x ∈ l) (hk : k ≤ l.length) (r : ℕ) :
    Nat.count (fun j => x ∈ (l.rotate (r + j)).take k) l.length = k := by
  obtain ⟨i, hi⟩ := List.mem_iff_getElem?.mp hx
  have hperiodic := periodic_rotations l k x
  rw [count_shift hperiodic, ← count_shift hperiodic (i + l.length + 1 - k)]
  refine Eq.trans (le_antisymm ?_ ?_) (count_lt hk)
  · exact Nat.count_mono_left fun j hj => (mem_take_rotate_from hl hi hk hj).mp
  · exact Nat.count_mono_left fun j hj => (mem_take_rotate_from hl hi hk hj).mpr

end

end WSBridge.Foundation
