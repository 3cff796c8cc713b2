import Mathlib.Tactic

/-!
# Length-delimited framing of a stream

A stream is a sequence of packets, each of which announces its own length in
its first symbols. `Framing` is the announcement: `len l` looks at a buffer
`l` that starts at a packet boundary and answers `none` (not decidable yet),
`some 0` (malformed) or `some n` (a packet of `n` symbols is complete). `cut`
is the greedy offline parse.

Results:
* `cut_append`: parsing `a ++ b` is parsing `a` and going on from what it left
  over, so a parse does not depend on how the stream was cut into chunks.
* `cut_stopped_iff`, `cut_len_rest`: what a parse leaves.
* `cut_join`: packets and remainder together are the stream.
-/

namespace WSBridge.Foundation

/-- A packet announces its length. An answer is final: more symbols do not
change it. -/
structure Framing (α : Type*) where
  len : List α → Option ℕ
  len_le : ∀ {l n}, len l = some n → n ≤ l.length
  len_append : ∀ {l n}, len l = some n → ∀ r, len (l ++ r) = some n

/-- The result of a parse: the packets, what is left, and whether the parse
stopped at a malformed announcement (which `rest` then starts with). -/
structure Cut (α : Type*) where
  packets : List (List α)
  rest : List α
  stopped : Bool

namespace Framing

variable {α : Type*} (F : Framing α)

/-- The greedy parse. -/
def cut (l : List α) : Cut α :=
  if l = [] then ⟨[], [], false⟩
  else
    match F.len l with
    | none => ⟨[], l, false⟩
    | some 0 => ⟨[], l, true⟩
    | some (n + 1) =>
      let c := cut (l.drop (n + 1))
      ⟨l.take (n + 1) :: c.packets, c.rest, c.stopped⟩
termination_by l.length
decreasing_by
  simp only [List.length_drop]
  have := List.length_pos_iff.mpr ‹_›
  omega

@[simp] theorem cut_nil : F.cut [] = ⟨[], [], false⟩ := by
  rw [cut]; simp

variable {F}

theorem cut_none {l : List α} (h : F.len l = none) : F.cut l = ⟨[], l, false⟩ := by
  rw [cut]
  split_ifs with hl
  · simp [hl]
  · simp [h]

theorem cut_zero {l : List α} (hl : l ≠ []) (h : F.len l = some 0) : F.cut l = ⟨[], l, true⟩ := by
  rw [cut]; simp [hl, h]

theorem cut_packet {l : List α} {n : ℕ} (hn : 0 < n) (h : F.len l = some n) :
    F.cut l = ⟨l.take n :: (F.cut (l.drop n)).packets, (F.cut (l.drop n)).rest,
      (F.cut (l.drop n)).stopped⟩ := by
  have hl : l ≠ [] := by
    rintro rfl
    have := F.len_le h
    simp at this
    omega
  obtain ⟨m, rfl⟩ : ∃ m, n = m + 1 := ⟨n - 1, by omega⟩
  rw [cut]
  simp [hl, h]

/-- Induction along the parse: one case for each answer of `len`. -/
theorem cut_induct {motive : List α → Prop} (nil : motive [])
    (more : ∀ l, l ≠ [] → F.len l = none → motive l)
    (malformed : ∀ l, l ≠ [] → F.len l = some 0 → motive l)
    (packet : ∀ l n, 0 < n → F.len l = some n → motive (l.drop n) → motive l)
    (l : List α) : motive l := by
  induction hk : l.length using Nat.strongRecOn generalizing l with
  | _ k ih =>
    subst hk
    by_cases hl : l = []
    · exact hl ▸ nil
    · cases h : F.len l with
      | none => exact more l hl h
      | some n =>
        rcases Nat.eq_zero_or_pos n with rfl | hn
        · exact malformed l hl h
        · refine packet l n hn h (ih _ ?_ _ rfl)
          have := List.length_pos_iff.mpr hl
          simp only [List.length_drop]
          omega

/-- A parse stops at a malformed announcement, and nowhere else. -/
theorem cut_stopped_iff (l : List α) :
    (F.cut l).stopped = true ↔ (F.cut l).rest ≠ [] ∧ F.len (F.cut l).rest = some 0 := by
  induction l using F.cut_induct with
  | nil => simp
  | more l _ hl => simp [cut_none hl, hl]
  | malformed l hne hl => simp [cut_zero hne hl, hne, hl]
  | packet l n hn hl ih =>
    rw [cut_packet hn hl]
    exact ih

/-- What a parse that was not stopped leaves announces no packet yet. -/
theorem cut_len_rest {l : List α} (h : (F.cut l).stopped = false) (hne : (F.cut l).rest ≠ []) :
    F.len (F.cut l).rest = none := by
  induction l using F.cut_induct with
  | nil => simp at hne
  | more l _ hl => rwa [cut_none hl]
  | malformed l hne' hl => rw [cut_zero hne' hl] at h; simp at h
  | packet l n hn hl ih =>
    rw [cut_packet hn hl] at h hne ⊢
    exact ih h hne

theorem cut_append (a b : List α) :
    F.cut (a ++ b) =
      if (F.cut a).stopped then ⟨(F.cut a).packets, (F.cut a).rest ++ b, true⟩
      else ⟨(F.cut a).packets ++ (F.cut ((F.cut a).rest ++ b)).packets,
        (F.cut ((F.cut a).rest ++ b)).rest, (F.cut ((F.cut a).rest ++ b)).stopped⟩ := by
  induction a using F.cut_induct with
  | nil => simp
  | more a _ ha => simp [cut_none ha]
  | malformed a hne ha =>
    rw [cut_zero hne ha, cut_zero (by simp [hne]) (F.len_append ha b)]
    simp
  | packet a n hn ha ih =>
    rw [cut_packet hn (F.len_append ha b), cut_packet hn ha,
      List.take_append_of_le_length (F.len_le ha), List.drop_append_of_le_length (F.len_le ha), ih]
    split_ifs <;> simp

/-- Once a parse has stopped, it stays stopped on every longer stream. -/
theorem cut_stopped_append {a : List α} (h : (F.cut a).stopped = true) (b : List α) :
    (F.cut (a ++ b)).stopped = true := by
  rw [cut_append, if_pos h]

theorem cut_not_stopped_of_append {a b : List α} (h : (F.cut (a ++ b)).stopped = false) :
    (F.cut a).stopped = false := by
  by_contra hs
  rw [Bool.not_eq_false] at hs
  rw [cut_stopped_append hs] at h
  simp at h

/-- Going on from the remainder of a parse that was not stopped. -/
theorem cut_append_of_not_stopped {a : List α} (h : (F.cut a).stopped = false) (b : List α) :
    F.cut (a ++ b) = ⟨(F.cut a).packets ++ (F.cut ((F.cut a).rest ++ b)).packets,
      (F.cut ((F.cut a).rest ++ b)).rest, (F.cut ((F.cut a).rest ++ b)).stopped⟩ := by
  rw [cut_append, if_neg (by simp [h])]

theorem cut_join (l : List α) : (F.cut l).packets.flatten ++ (F.cut l).rest = l := by
  induction l using F.cut_induct with
  | nil => simp
  | more l _ hl => simp [cut_none hl]
  | malformed l hne hl => simp [cut_zero hne hl]
  | packet l n hn hl ih =>
    rw [cut_packet hn hl]
    simp only [List.flatten_cons, List.append_assoc]
    rw [ih, List.take_append_drop]

end Framing

end WSBridge.Foundation
