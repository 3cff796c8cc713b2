import Mathlib.Tactic

/-!
# Stream ciphers applied in pieces

A counter-mode cipher combines symbol number `p` of a stream with element `p`
of a keystream. `streamMap f ks p l` is the part `l` of the stream that starts
at position `p`.

Results:
* `streamMap_append`: processing a stream in pieces, each from the position
  the previous one ended at, is processing it whole.
* `streamMap_drop`: the end of a processed stream.
* `streamMap_involutive`: when `f` undoes itself, so does the cipher.
-/

namespace WSBridge.Foundation

variable {α κ : Type*} (f : α → κ → α) (ks : ℕ → κ)

/-- The stream segment `l`, which starts at stream position `p`, combined with
the keystream. -/
def streamMap : ℕ → List α → List α
  | _, [] => []
  | p, a :: l => f a (ks p) :: streamMap (p + 1) l

@[simp] theorem streamMap_nil (p : ℕ) : streamMap f ks p [] = [] := rfl

@[simp] theorem streamMap_length (p : ℕ) (l : List α) : (streamMap f ks p l).length = l.length := by
  induction l generalizing p with
  | nil => rfl
  | cons a l ih => simp [streamMap, ih]

theorem streamMap_append (p : ℕ) (l r : List α) :
    streamMap f ks p (l ++ r) = streamMap f ks p l ++ streamMap f ks (p + l.length) r := by
  induction l generalizing p with
  | nil => simp
  | cons a l ih =>
    simp only [List.cons_append, streamMap, ih, List.length_cons]
    rw [show p + 1 + l.length = p + (l.length + 1) by ring]

theorem streamMap_drop (p n : ℕ) (l : List α) :
    (streamMap f ks p l).drop n = streamMap f ks (p + n) (l.drop n) := by
  induction l generalizing p n with
  | nil => simp
  | cons a l ih =>
    cases n with
    | zero => simp
    | succ n =>
      simp only [streamMap, List.drop_succ_cons, ih]
      rw [show p + 1 + n = p + (n + 1) by ring]

theorem streamMap_involutive (hf : ∀ a k, f (f a k) k = a) (p : ℕ) (l : List α) :
    streamMap f ks p (streamMap f ks p l) = l := by
  induction l generalizing p with
  | nil => rfl
  | cons a l ih => simp [streamMap, hf, ih]

theorem streamMap_getElem? (p i : ℕ) (l : List α) :
    (streamMap f ks p l)[i]? = (l[i]?).map fun a => f a (ks (p + i)) := by
  induction l generalizing p i with
  | nil => simp
  | cons a l ih =>
    cases i with
    | zero => simp [streamMap]
    | succ i =>
      simp only [streamMap, List.getElem?_cons_succ, ih]
      rw [show p + 1 + i = p + (i + 1) by ring]

end WSBridge.Foundation
