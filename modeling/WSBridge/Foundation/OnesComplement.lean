import Mathlib.Algebra.BigOperators.Group.Finset.Basic
import Mathlib.Algebra.Order.BigOperators.Group.Finset
import Mathlib.Tactic

/-!
# Ones'-complement sums

Sums of words below a radix `r`, whose carries are added back in at the end. A
row of words is checked by adding all of them, one being a field with the
complement of the sum taken while the field was zero.

Results:
* `endAround_modEq`, `endAround_lt`, `endAround_pos`: the folded sum is the one
  representative modulo `r - 1` that is below `r`, and not zero if the sum is
  not.
* `endAround_eq_top_iff`: which sums check.
* `endAround_total_update`: with the complement in its field, a row checks.
-/

namespace WSBridge.Foundation

/-! ## Folding the carries -/

theorem carry_back_lt {r n : ℕ} (hr : 2 ≤ r) (hn : r ≤ n) : n % r + n / r < n := by
  have hdiv := Nat.div_add_mod n r
  have hpos : 0 < n / r := Nat.div_pos hn (by omega)
  have hmul : 2 * (n / r) ≤ r * (n / r) := Nat.mul_le_mul_right _ hr
  omega

/-- What is over the lowest digit of `n` is added to it, until nothing is. -/
def endAround (r n : ℕ) : ℕ := if 2 ≤ r ∧ r ≤ n then endAround r (n % r + n / r) else n
termination_by n
decreasing_by exact carry_back_lt (by tauto) (by tauto)

section

variable {r : ℕ}

theorem endAround_of_lt {n : ℕ} (h : n < r) : endAround r n = n := by
  rw [endAround, if_neg]
  omega

theorem endAround_of_le {n : ℕ} (hr : 2 ≤ r) (h : r ≤ n) :
    endAround r n = endAround r (n % r + n / r) := by
  rw [endAround, if_pos ⟨hr, h⟩]

theorem endAround_lt (hr : 2 ≤ r) (n : ℕ) : endAround r n < r := by
  induction n using endAround.induct r with
  | case1 n h ih =>
    rw [endAround_of_le hr h.2]
    exact ih
  | case2 n h =>
    have hlt : n < r := by
      by_contra hge
      exact h ⟨hr, Nat.not_lt.mp hge⟩
    rwa [endAround_of_lt hlt]

/-- A carry is worth as much at the bottom as at the top, modulo `r - 1`. -/
theorem carry_back_modEq {n : ℕ} (hr : 2 ≤ r) : n % r + n / r ≡ n [MOD r - 1] := by
  have hone : 1 ≡ r [MOD r - 1] := by
    rw [Nat.modEq_iff_dvd' (by omega)]
  calc n % r + n / r = n % r + 1 * (n / r) := by rw [Nat.one_mul]
    _ ≡ n % r + r * (n / r) [MOD r - 1] := (hone.mul_right _).add_left _
    _ = n := Nat.mod_add_div n r

theorem endAround_modEq (hr : 2 ≤ r) (n : ℕ) : endAround r n ≡ n [MOD r - 1] := by
  induction n using endAround.induct r with
  | case1 n h ih =>
    rw [endAround_of_le hr h.2]
    exact ih.trans (carry_back_modEq hr)
  | case2 n h =>
    rw [endAround, if_neg h]

theorem endAround_pos {n : ℕ} (h : 0 < n) : 0 < endAround r n := by
  induction n using endAround.induct r with
  | case1 n hc ih =>
    rw [endAround_of_le hc.1 hc.2]
    exact ih (Nat.add_pos_right _ (Nat.div_pos hc.2 (by omega)))
  | case2 n hc =>
    rwa [endAround, if_neg hc]

/-- The sums that check are the multiples of `r - 1`, without zero. -/
theorem endAround_eq_top_iff (hr : 2 ≤ r) {n : ℕ} :
    endAround r n = r - 1 ↔ 0 < n ∧ r - 1 ∣ n := by
  have hmod := endAround_modEq hr n
  constructor
  · intro h
    rw [h] at hmod
    refine ⟨?_, (Nat.modEq_zero_iff_dvd.mp (hmod.symm.trans ?_))⟩
    · by_contra hzero
      obtain rfl : n = 0 := by omega
      rw [endAround_of_lt (by omega)] at h
      omega
    · exact Nat.modEq_zero_iff_dvd.mpr (dvd_refl _)
  · rintro ⟨hpos, hdvd⟩
    have hlt := endAround_lt hr n
    have hpos' := endAround_pos (r := r) hpos
    have hdvd' := Nat.modEq_zero_iff_dvd.mp (hmod.trans (Nat.modEq_zero_iff_dvd.mpr hdvd))
    have hle := Nat.le_of_dvd hpos' hdvd'
    omega

/-- A sum and the complement of what it folds to check together. -/
theorem endAround_add_compl (hr : 2 ≤ r) (n : ℕ) :
    endAround r (n + (r - 1 - endAround r n)) = r - 1 := by
  have hlt := endAround_lt hr n
  rw [endAround_eq_top_iff hr]
  constructor
  · rcases Nat.eq_zero_or_pos n with rfl | hpos
    · rw [endAround_of_lt (by omega)]
      omega
    · omega
  · rw [← Nat.modEq_zero_iff_dvd]
    calc n + (r - 1 - endAround r n)
        ≡ endAround r n + (r - 1 - endAround r n) [MOD r - 1] :=
          (endAround_modEq hr n).symm.add_right _
      _ = r - 1 := by omega
      _ ≡ 0 [MOD r - 1] := Nat.modEq_zero_iff_dvd.mpr (dvd_refl _)

end

/-! ## Rows of words -/

/-- The sum of the first `n` words of a row. -/
def total (word : ℕ → ℕ) (n : ℕ) : ℕ := ∑ k ∈ Finset.range n, word k

section

variable {word word' : ℕ → ℕ}

theorem total_succ (word : ℕ → ℕ) (n : ℕ) : total word (n + 1) = total word n + word n :=
  Finset.sum_range_succ word n

theorem total_congr {n : ℕ} (h : ∀ k < n, word k = word' k) : total word n = total word' n :=
  Finset.sum_congr rfl fun k hk => h k (Finset.mem_range.mp hk)

theorem total_add (word : ℕ → ℕ) (m n : ℕ) :
    total word (m + n) = total word m + total (fun k => word (m + k)) n :=
  Finset.sum_range_add word m n

theorem total_le {r : ℕ} (h : ∀ k, word k < r) (n : ℕ) : total word n ≤ n * (r - 1) := by
  induction n with
  | zero => simp [total]
  | succ n ih =>
    have hn := h n
    rw [total_succ, Nat.succ_mul]
    omega

/-- One word is exchanged for another. -/
theorem total_update {k n : ℕ} (hk : k < n) (x : ℕ) :
    total (Function.update word k x) n + word k = total word n + x := by
  have hmem : k ∈ Finset.range n := Finset.mem_range.mpr hk
  unfold total
  rw [Finset.sum_update_of_mem hmem, ← Finset.add_sum_erase _ word hmem,
    Finset.sdiff_singleton_eq_erase]
  omega

/-- A row, and whatever `s` is summed with it, checks when the field `k` of the
row gets the complement of the sum taken while it was zero. -/
theorem endAround_total_update {r : ℕ} (hr : 2 ≤ r) {k n : ℕ} (hk : k < n) (hzero : word k = 0)
    (s : ℕ) :
    endAround r (s + total (Function.update word k (r - 1 - endAround r (s + total word n))) n) =
      r - 1 := by
  have hupdate := @total_update word k n hk (r - 1 - endAround r (s + total word n))
  rw [hzero, Nat.add_zero] at hupdate
  rw [hupdate, ← Nat.add_assoc]
  exact endAround_add_compl hr _

end

end WSBridge.Foundation
