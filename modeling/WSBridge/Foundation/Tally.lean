import Mathlib.Tactic

/-!
# Sums over a row

How the sum of a quantity over the members of a row follows the changes of the
row: one member changes, one is appended, or each may change.

Results:
* `tally_modify`, `tally_concat`: what one change adds and takes away.
* `tally_mapIdx_eq_iff`: where no member grows, the sum stays exactly when every
  member does.
-/

namespace WSBridge.Foundation

variable {α : Type*}

/-- The sum of `g` over a row. -/
def tally (g : α → ℕ) (l : List α) : ℕ := (l.map g).sum

variable {g : α → ℕ} {l : List α}

theorem tally_cons (x : α) (l : List α) : tally g (x :: l) = g x + tally g l := rfl

theorem tally_concat (l : List α) (x : α) : tally g (l ++ [x]) = tally g l + g x := by
  unfold tally
  rw [List.map_append, List.sum_append, List.map_singleton, List.sum_singleton]

/-- One member is taken out. -/
theorem tally_eraseIdx {a : ℕ} {x : α} (h : l[a]? = some x) :
    tally g (l.eraseIdx a) + g x = tally g l := by
  induction l generalizing a with
  | nil => cases h
  | cons y l ih =>
    cases a with
    | zero =>
      obtain rfl := Option.some.inj h
      rw [List.eraseIdx_cons_zero, tally_cons, Nat.add_comm]
    | succ a =>
      have hrest := ih (a := a) h
      rw [List.eraseIdx_cons_succ, tally_cons, tally_cons]
      omega

theorem tally_eq_zero : tally g l = 0 ↔ ∀ x ∈ l, g x = 0 := by
  unfold tally
  rw [List.sum_eq_zero_iff]
  exact List.forall_mem_map

theorem le_tally {x : α} (h : x ∈ l) : g x ≤ tally g l :=
  List.single_le_sum (fun _ _ => Nat.zero_le _) _ (List.mem_map_of_mem h)

/-- One member changes. -/
theorem tally_modify {a : ℕ} {x : α} (h : l[a]? = some x) (f : α → α) :
    tally g (l.modify a f) + g x = tally g l + g (f x) := by
  induction l generalizing a with
  | nil => cases h
  | cons y l ih =>
    cases a with
    | zero =>
      obtain rfl := Option.some.inj h
      rw [List.modify_zero_cons, tally_cons, tally_cons]
      omega
    | succ a =>
      have hrest := ih (a := a) h
      rw [List.modify_succ_cons, tally_cons, tally_cons]
      omega

/-- A change of one member that does not touch the quantity. -/
theorem tally_modify_same {f : α → α} (h : ∀ x, g (f x) = g x) (l : List α) (a : ℕ) :
    tally g (l.modify a f) = tally g l := by
  cases hx : l[a]? with
  | none => rw [List.modify_eq_self (List.getElem?_eq_none_iff.mp hx)]
  | some x =>
    have hsum := tally_modify (g := g) hx f
    rw [h] at hsum
    omega

/-- All other members are zero exactly when the sum is what one of them has. -/
theorem tally_eq_self_iff {a : ℕ} {x : α} (h : l[a]? = some x) :
    tally g l = g x ↔ ∀ b y, b ≠ a → l[b]? = some y → g y = 0 := by
  induction l generalizing a with
  | nil => cases h
  | cons z l ih =>
    cases a with
    | zero =>
      obtain rfl := Option.some.inj h
      rw [tally_cons, Nat.add_eq_left, tally_eq_zero]
      constructor
      · intro hzero b y hb hy
        cases b with
        | zero => exact absurd rfl hb
        | succ b => exact hzero y (List.mem_of_getElem? hy)
      · intro hzero y hy
        obtain ⟨b, hb⟩ := List.mem_iff_getElem?.mp hy
        exact hzero (b + 1) y (Nat.succ_ne_zero b) hb
    | succ a =>
      have hx : l[a]? = some x := h
      have hle : g x ≤ tally g l := le_tally (List.mem_of_getElem? hx)
      have hrest := ih hx
      rw [tally_cons]
      constructor
      · intro hsum b y hb hy
        cases b with
        | zero =>
          obtain rfl := Option.some.inj hy
          omega
        | succ b => exact hrest.mp (by omega) b y (fun hba => hb (congrArg Nat.succ hba)) hy
      · intro hzero
        have hz : g z = 0 := hzero 0 z (Nat.succ_ne_zero a).symm rfl
        have hsum := hrest.mpr fun b y hb hy =>
          hzero (b + 1) y (fun hba => hb (Nat.succ.inj hba)) hy
        omega

/-- Each member may change, but none grows. -/
theorem tally_mapIdx_le {f : ℕ → α → α} (h : ∀ i x, g (f i x) ≤ g x) (l : List α) :
    tally g (l.mapIdx f) ≤ tally g l := by
  induction l generalizing f with
  | nil => exact le_rfl
  | cons x l ih =>
    have hrest := ih (f := fun i => f (i + 1)) fun i x => h (i + 1) x
    have hx := h 0 x
    rw [List.mapIdx_cons, tally_cons, tally_cons]
    exact Nat.add_le_add hx hrest

theorem tally_mapIdx_eq_iff {f : ℕ → α → α} (h : ∀ i x, g (f i x) ≤ g x) (l : List α) :
    tally g (l.mapIdx f) = tally g l ↔ ∀ i x, l[i]? = some x → g (f i x) = g x := by
  induction l generalizing f with
  | nil => exact iff_of_true rfl nofun
  | cons x l ih =>
    have hrest := ih (f := fun i => f (i + 1)) fun i x => h (i + 1) x
    have hle := tally_mapIdx_le (f := fun i => f (i + 1)) (fun i x => h (i + 1) x) l
    have hx := h 0 x
    rw [List.mapIdx_cons, tally_cons, tally_cons]
    constructor
    · intro hsum i y hy
      cases i with
      | zero =>
        obtain rfl := Option.some.inj hy
        omega
      | succ i => exact hrest.mp (by omega) i y hy
    · intro hsame
      have hhead := hsame 0 x rfl
      have htail := hrest.mpr fun i y hy => hsame (i + 1) y hy
      omega

end WSBridge.Foundation
