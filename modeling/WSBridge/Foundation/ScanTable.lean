import Mathlib.Data.Finmap
import Mathlib.Tactic

/-!
# Fixed tables searched from the front

A table is a row of cells, each free or holding a key and a value. Look-up,
insertion and removal scan for the first cell that fits, as loops over a C
array do. As long as no key is held twice, the table is a finite map.

Results:
* `look_add_self`, `look_add_of_ne`, `look_remove_self`, `look_remove_of_ne`:
  insertion and removal change the map at their own key only.
* `mem_keys_add`, `mem_keys_remove`: what they do to the keys held.
* `Distinct.add`, `Distinct.remove`: no key is ever held twice.
* `exists_free`: a table with fewer keys than cells has a free cell.
* `Refines.add`, `Refines.remove`, `Refines.size`: the table refines a finite
  map, as long as the map is no larger than the table.
-/

namespace WSBridge.Foundation

/-! ## The first cell that fits -/

section UpdateFirst

variable {ε : Type*} {p : ε → Bool} {f : ε → ε}

/-- Change the first cell that meets `p`, if there is one. -/
def updateFirst (p : ε → Bool) (f : ε → ε) : List ε → Option (List ε)
  | [] => none
  | e :: t => if p e then some (f e :: t) else (updateFirst p f t).map (e :: ·)

theorem updateFirst_eq_none {t : List ε} :
    updateFirst p f t = none ↔ ∀ e ∈ t, ¬ p e = true := by
  induction t with
  | nil => simp [updateFirst]
  | cons e t ih =>
    rw [updateFirst]
    split_ifs with h
    · simp [h]
    · simp [h, ih]

/-- The cell changed is the first one that meets `p`. -/
theorem updateFirst_eq_some {t t' : List ε} (h : updateFirst p f t = some t') :
    ∃ a e b, t = a ++ e :: b ∧ t' = a ++ f e :: b ∧ p e = true ∧ ∀ x ∈ a, ¬ p x = true := by
  induction t generalizing t' with
  | nil => cases h
  | cons e t ih =>
    rw [updateFirst] at h
    split_ifs at h with hp
    · obtain rfl := Option.some.inj h
      exact ⟨[], e, t, rfl, rfl, hp, nofun⟩
    · obtain ⟨u, hu, rfl⟩ := Option.map_eq_some_iff.mp h
      obtain ⟨a, x, b, rfl, rfl, hx, ha⟩ := ih hu
      refine ⟨e :: a, x, b, rfl, rfl, hx, ?_⟩
      intro y hy
      rcases List.mem_cons.mp hy with rfl | hy
      · exact hp
      · exact ha y hy

end UpdateFirst

/-! ## Tables -/

/-- How a cell holds a key and a value. -/
structure Cells (ε κ ν : Type*) where
  key : ε → Option κ
  val : ε → ν
  set : ν → ε → ε
  fill : κ → ν → ε
  clear : ε → ε
  key_set : ∀ v e, key (set v e) = key e
  val_set : ∀ v e, val (set v e) = v
  key_fill : ∀ k v, key (fill k v) = some k
  val_fill : ∀ k v, val (fill k v) = v
  key_clear : ∀ e, key (clear e) = none

namespace Cells

variable {ε κ ν : Type*} (C : Cells ε κ ν)

/-! ### The keys held -/

/-- The keys held, in the order of the cells. -/
def keys (t : List ε) : List κ := t.filterMap C.key

/-- No key is held twice. -/
def Distinct (t : List ε) : Prop := (C.keys t).Nodup

theorem keys_append_cons (a b : List ε) (e : ε) :
    C.keys (a ++ e :: b) = C.keys a ++ ((C.key e).toList ++ C.keys b) := by
  unfold keys
  rw [List.filterMap_append, List.filterMap_cons]
  cases C.key e <;> rfl

theorem mem_keys {t : List ε} {k : κ} : k ∈ C.keys t ↔ ∃ e ∈ t, C.key e = some k :=
  List.mem_filterMap

/-- A cell of a table without double keys is the only one with its key. -/
theorem Distinct.notMem {a b : List ε} {e : ε} {k : κ} (h : C.Distinct (a ++ e :: b))
    (he : C.key e = some k) : k ∉ C.keys a ∧ k ∉ C.keys b := by
  have hnodup : (C.keys a ++ (k :: C.keys b)).Nodup := by
    have := h
    rwa [Distinct, keys_append_cons, he] at this
  have hsplit := List.nodup_append.mp hnodup
  refine ⟨fun ha => hsplit.2.2 k ha k List.mem_cons_self rfl, ?_⟩
  exact (List.nodup_cons.mp hsplit.2.1).1

theorem exists_free {t : List ε} (h : (C.keys t).length < t.length) : ∃ e ∈ t, C.key e = none := by
  by_contra hnot
  push Not at hnot
  have hlen : (C.keys t).length = t.length := by
    clear h
    induction t with
    | nil => rfl
    | cons e t ih =>
      obtain ⟨k, hk⟩ := Option.ne_none_iff_exists'.mp (hnot e List.mem_cons_self)
      have ht := ih fun x hx => hnot x (List.mem_cons_of_mem e hx)
      unfold keys at ht ⊢
      rw [List.filterMap_cons_some hk, List.length_cons, List.length_cons, ht]
  omega

theorem ne_of_key {e x : ε} {k k' : κ} (he : C.key e = some k') (hx : C.key x = some k)
    (h : k' ≠ k) : e ≠ x := by
  rintro rfl
  exact h (Option.some.inj (he.symm.trans hx))

theorem ne_of_free {e x : ε} {k : κ} (he : C.key e = some k) (hx : C.key x = none) : e ≠ x := by
  rintro rfl
  rw [he] at hx
  cases hx

/-- The other members of a row of which one cell changes. -/
theorem mem_change {a b : List ε} {e x y : ε} (hx : e ≠ x) (hy : e ≠ y) :
    e ∈ a ++ y :: b ↔ e ∈ a ++ x :: b := by
  simp [hx, hy]

/-! ### The three scans -/

variable [DecidableEq κ]

/-- The cell holds the key. -/
def has (k : κ) (e : ε) : Bool := C.key e = some k

/-- The cell holds no key. -/
def free (e : ε) : Bool := C.key e = none

/-- The value of the first cell that holds the key. -/
def look (t : List ε) (k : κ) : Option ν := (t.find? (C.has k)).map C.val

/-- Overwrite the first cell that holds the key, else fill the first free cell;
a full table stays as it is. -/
def add (t : List ε) (k : κ) (v : ν) : List ε :=
  match updateFirst (C.has k) (C.set v) t with
  | some t' => t'
  | none => (updateFirst C.free (fun _ => C.fill k v) t).getD t

/-- Free the first cell that holds the key. -/
def remove (t : List ε) (k : κ) : List ε := (updateFirst (C.has k) C.clear t).getD t

/-! ### Look-up -/

theorem look_eq_none {t : List ε} {k : κ} : C.look t k = none ↔ k ∉ C.keys t := by
  simp [look, has, mem_keys]

theorem look_skip {a b : List ε} {e : ε} {k : κ} (h : C.key e ≠ some k) :
    C.look (a ++ e :: b) k = C.look (a ++ b) k := by
  simp [look, has, List.find?_append, h]

theorem look_hit {a b : List ε} {e : ε} {k : κ} (ha : k ∉ C.keys a) (he : C.key e = some k) :
    C.look (a ++ e :: b) k = some (C.val e) := by
  have hnone : a.find? (C.has k) = none := by
    simpa [look] using C.look_eq_none.mpr ha
  rw [look, List.find?_append, hnone, Option.none_or, List.find?_cons_of_pos (by simp [has, he])]
  rfl

/-! ### Insertion -/

/-- What insertion does: overwrite, fill, or nothing when the table is full. -/
theorem add_cases (t : List ε) (k : κ) (v : ν) :
    (∃ a e b, t = a ++ e :: b ∧ C.key e = some k ∧ k ∉ C.keys a ∧
        C.add t k v = a ++ C.set v e :: b) ∨
      (k ∉ C.keys t ∧ ∃ a e b, t = a ++ e :: b ∧ C.key e = none ∧
        C.add t k v = a ++ C.fill k v :: b) ∨
      (k ∉ C.keys t ∧ (∀ e ∈ t, C.key e ≠ none) ∧ C.add t k v = t) := by
  unfold add
  split
  · rename_i t' h
    obtain ⟨a, e, b, rfl, rfl, he, ha⟩ := updateFirst_eq_some h
    refine Or.inl ⟨a, e, b, rfl, by simpa [has] using he, ?_, rfl⟩
    rw [mem_keys]
    rintro ⟨x, hx, hkey⟩
    exact ha x hx (by simp [has, hkey])
  · rename_i h
    have hk : k ∉ C.keys t := by
      rw [mem_keys]
      rintro ⟨x, hx, hkey⟩
      exact updateFirst_eq_none.mp h x hx (by simp [has, hkey])
    cases hfree : updateFirst C.free (fun _ => C.fill k v) t with
    | none =>
      refine Or.inr (Or.inr ⟨hk, ?_, rfl⟩)
      intro e he hnone
      exact updateFirst_eq_none.mp hfree e he (by simp [free, hnone])
    | some t' =>
      obtain ⟨a, e, b, rfl, rfl, he, -⟩ := updateFirst_eq_some hfree
      exact Or.inr (Or.inl ⟨hk, a, e, b, rfl, by simpa [free] using he, rfl⟩)

theorem add_length (t : List ε) (k : κ) (v : ν) : (C.add t k v).length = t.length := by
  obtain ⟨a, e, b, rfl, -, -, h⟩ | ⟨-, a, e, b, rfl, -, h⟩ | ⟨-, -, h⟩ := C.add_cases t k v
  · rw [h]; simp
  · rw [h]; simp
  · rw [h]

/-- There is room for the key: it is held, or a cell is free. -/
def Room (t : List ε) (k : κ) : Prop := k ∈ C.keys t ∨ ∃ e ∈ t, C.key e = none

theorem look_add_self {t : List ε} {k : κ} (h : C.Room t k) (v : ν) :
    C.look (C.add t k v) k = some v := by
  obtain ⟨a, e, b, rfl, he, ha, heq⟩ | ⟨hk, a, e, b, rfl, he, heq⟩ | ⟨hk, hfull, -⟩ :=
    C.add_cases t k v
  · rw [heq, C.look_hit ha ((C.key_set v e).trans he), C.val_set]
  · have ha : k ∉ C.keys a := by
      rw [keys_append_cons] at hk
      exact fun h => hk (List.mem_append_left _ h)
    rw [heq, C.look_hit ha (C.key_fill k v), C.val_fill]
  · rcases h with h | ⟨e, he, hnone⟩
    · exact absurd h hk
    · exact absurd hnone (hfull e he)

theorem look_add_of_ne (t : List ε) {k k' : κ} (h : k' ≠ k) (v : ν) :
    C.look (C.add t k v) k' = C.look t k' := by
  have hne : ∀ {x : ε}, C.key x = some k → C.key x ≠ some k' := by
    intro x hx hx'
    exact h (Option.some.inj (hx'.symm.trans hx))
  obtain ⟨a, e, b, rfl, he, -, heq⟩ | ⟨-, a, e, b, rfl, he, heq⟩ | ⟨-, -, heq⟩ :=
    C.add_cases t k v
  · rw [heq, C.look_skip (hne he), C.look_skip (hne ((C.key_set v e).trans he))]
  · rw [heq, C.look_skip (hne (C.key_fill k v)), C.look_skip (by rw [he]; exact nofun)]
  · rw [heq]

/-- Insertion without room does nothing. -/
theorem add_of_not_room {t : List ε} {k : κ} (h : ¬ C.Room t k) (v : ν) : C.add t k v = t := by
  obtain ⟨a, e, b, rfl, he, -, -⟩ | ⟨-, a, e, b, rfl, he, -⟩ | ⟨-, -, heq⟩ := C.add_cases t k v
  · exact absurd (Or.inl (C.mem_keys.mpr ⟨e, by simp, he⟩)) h
  · exact absurd (Or.inr ⟨e, by simp, he⟩) h
  · exact heq

theorem mem_keys_add {t : List ε} {k k' : κ} {v : ν} (h : k' ∈ C.keys (C.add t k v)) :
    k' = k ∨ k' ∈ C.keys t := by
  by_contra hnot
  obtain ⟨hne, hk'⟩ := not_or.mp hnot
  have hlook := C.look_add_of_ne t hne v
  rw [C.look_eq_none.mpr hk'] at hlook
  exact C.look_eq_none.mp hlook h

/-- Insertion with room adds its key. -/
theorem mem_keys_add_self {t : List ε} {k : κ} (h : C.Room t k) (v : ν) :
    k ∈ C.keys (C.add t k v) := by
  by_contra hnot
  have hnone := C.look_eq_none.mpr hnot
  rw [C.look_add_self h] at hnone
  cases hnone

theorem Distinct.add {t : List ε} (h : C.Distinct t) (k : κ) (v : ν) :
    C.Distinct (C.add t k v) := by
  obtain ⟨a, e, b, rfl, he, -, heq⟩ | ⟨hk, a, e, b, rfl, he, heq⟩ | ⟨-, -, heq⟩ :=
    C.add_cases t k v
  · rw [heq]
    unfold Distinct at h ⊢
    rw [keys_append_cons] at h ⊢
    rwa [C.key_set]
  · rw [heq]
    unfold Distinct at h ⊢
    rw [keys_append_cons, he] at h hk
    rw [keys_append_cons, C.key_fill]
    exact List.nodup_middle.mpr (List.nodup_cons.mpr ⟨hk, h⟩)
  · rwa [heq]

/-- The cells of other keys stay as they are. -/
theorem mem_add_of_ne {t : List ε} {k k' : κ} {e : ε} (he : C.key e = some k') (h : k' ≠ k)
    (v : ν) : e ∈ C.add t k v ↔ e ∈ t := by
  obtain ⟨a, x, b, rfl, hx, -, heq⟩ | ⟨-, a, x, b, rfl, hx, heq⟩ | ⟨-, -, heq⟩ :=
    C.add_cases t k v
  · rw [heq]
    exact mem_change (C.ne_of_key he hx h) (C.ne_of_key he ((C.key_set v x).trans hx) h)
  · rw [heq]
    exact mem_change (C.ne_of_free he hx) (C.ne_of_key he (C.key_fill k v) h)
  · rw [heq]

/-! ### Removal -/

/-- What removal does: free a cell, or nothing when the key is not held. -/
theorem remove_cases (t : List ε) (k : κ) :
    (∃ a e b, t = a ++ e :: b ∧ C.key e = some k ∧ C.remove t k = a ++ C.clear e :: b) ∨
      (k ∉ C.keys t ∧ C.remove t k = t) := by
  unfold remove
  cases h : updateFirst (C.has k) C.clear t with
  | none =>
    refine Or.inr ⟨?_, rfl⟩
    rw [mem_keys]
    rintro ⟨x, hx, hkey⟩
    exact updateFirst_eq_none.mp h x hx (by simp [has, hkey])
  | some t' =>
    obtain ⟨a, e, b, rfl, rfl, he, -⟩ := updateFirst_eq_some h
    exact Or.inl ⟨a, e, b, rfl, by simpa [has] using he, rfl⟩

theorem remove_length (t : List ε) (k : κ) : (C.remove t k).length = t.length := by
  obtain ⟨a, e, b, rfl, -, h⟩ | ⟨-, h⟩ := C.remove_cases t k
  · rw [h]; simp
  · rw [h]

theorem look_remove_of_ne (t : List ε) {k k' : κ} (h : k' ≠ k) :
    C.look (C.remove t k) k' = C.look t k' := by
  obtain ⟨a, e, b, rfl, he, heq⟩ | ⟨-, heq⟩ := C.remove_cases t k
  · have hne : C.key e ≠ some k' := fun he' => h (Option.some.inj (he'.symm.trans he))
    rw [heq, C.look_skip hne, C.look_skip (by rw [C.key_clear]; exact nofun)]
  · rw [heq]

theorem look_remove_self {t : List ε} (h : C.Distinct t) (k : κ) :
    C.look (C.remove t k) k = none := by
  rw [look_eq_none]
  obtain ⟨a, e, b, rfl, he, heq⟩ | ⟨hk, heq⟩ := C.remove_cases t k
  · obtain ⟨ha, hb⟩ := h.notMem C he
    rw [heq, keys_append_cons, C.key_clear]
    exact fun hmem => (List.mem_append.mp hmem).elim ha hb
  · rwa [heq]

/-- Removal is an update of the map. -/
theorem look_remove {t : List ε} (h : C.Distinct t) (k : κ) :
    C.look (C.remove t k) = Function.update (C.look t) k none := by
  funext k'
  by_cases hk : k' = k
  · subst hk
    rw [C.look_remove_self h, Function.update_self]
  · rw [C.look_remove_of_ne t hk, Function.update_of_ne hk]

theorem mem_keys_remove {t : List ε} (h : C.Distinct t) {k k' : κ} :
    k' ∈ C.keys (C.remove t k) ↔ k' ≠ k ∧ k' ∈ C.keys t := by
  rw [← not_iff_not, ← look_eq_none, C.look_remove h]
  by_cases hk : k' = k
  · subst hk
    simp
  · rw [Function.update_of_ne hk, look_eq_none]
    simp [hk]

theorem Distinct.remove {t : List ε} (h : C.Distinct t) (k : κ) : C.Distinct (C.remove t k) := by
  obtain ⟨a, e, b, rfl, he, heq⟩ | ⟨-, heq⟩ := C.remove_cases t k
  · rw [heq]
    unfold Distinct at h ⊢
    rw [keys_append_cons] at h ⊢
    rw [C.key_clear]
    exact h.sublist (List.Sublist.append_left (List.sublist_append_right _ _) _)
  · rwa [heq]

theorem mem_remove_of_ne {t : List ε} {k k' : κ} {e : ε} (he : C.key e = some k') (h : k' ≠ k) :
    e ∈ C.remove t k ↔ e ∈ t := by
  obtain ⟨a, x, b, rfl, hx, heq⟩ | ⟨-, heq⟩ := C.remove_cases t k
  · rw [heq]
    exact mem_change (C.ne_of_key he hx h) (C.ne_of_free he (C.key_clear x))
  · rw [heq]

/-! ### The table as a finite map -/

/-- The table holds the finite map: each key once, with the value of the map. -/
structure Refines (t : List ε) (m : Finmap fun _ : κ => ν) : Prop where
  distinct : C.Distinct t
  look : ∀ k, C.look t k = m.lookup k

section

variable {C} {t : List ε} {m : Finmap fun _ : κ => ν}

/-- A table of free cells holds nothing. -/
theorem Refines.empty (h : ∀ e ∈ t, C.key e = none) : C.Refines t ∅ := by
  have hkeys : C.keys t = [] := List.filterMap_eq_nil_iff.mpr h
  refine ⟨?_, ?_⟩
  · show (C.keys t).Nodup
    rw [hkeys]
    exact List.nodup_nil
  · intro k
    rw [Finmap.lookup_empty, look_eq_none, hkeys]
    exact List.not_mem_nil

theorem Refines.mem_keys (h : C.Refines t m) (k : κ) : k ∈ C.keys t ↔ k ∈ m := by
  rw [← not_iff_not, ← look_eq_none, h.look, Finmap.lookup_eq_none]

/-- As many cells are in use as the map has keys. -/
theorem Refines.size (h : C.Refines t m) : (C.keys t).length = m.keys.card := by
  rw [← List.toFinset_card_of_nodup h.distinct]
  congr 1
  ext k
  rw [List.mem_toFinset, Finmap.mem_keys]
  exact h.mem_keys k

theorem keys_insert (m : Finmap fun _ : κ => ν) (k : κ) (v : ν) :
    (m.insert k v).keys = insert k m.keys := by
  ext k'
  rw [Finmap.mem_keys, Finmap.mem_insert, Finset.mem_insert, Finmap.mem_keys]

/-- There is room for a key as long as the map with it is no larger than the
table. -/
theorem Refines.room (h : C.Refines t m) {k : κ} {v : ν}
    (hfits : (m.insert k v).keys.card ≤ t.length) : C.Room t k := by
  by_cases hk : k ∈ C.keys t
  · exact Or.inl hk
  · refine Or.inr (C.exists_free ?_)
    have hnew : k ∉ m.keys := by
      rw [Finmap.mem_keys, ← h.mem_keys]
      exact hk
    rw [keys_insert, Finset.card_insert_of_notMem hnew, ← h.size] at hfits
    omega

theorem Refines.add (h : C.Refines t m) {k : κ} {v : ν} (hroom : C.Room t k) :
    C.Refines (C.add t k v) (m.insert k v) := by
  refine ⟨h.distinct.add C k v, ?_⟩
  intro k'
  by_cases hk : k' = k
  · subst hk
    rw [C.look_add_self hroom, Finmap.lookup_insert]
  · rw [C.look_add_of_ne t hk, Finmap.lookup_insert_of_ne m hk, h.look]

theorem Refines.remove (h : C.Refines t m) (k : κ) : C.Refines (C.remove t k) (m.erase k) := by
  refine ⟨h.distinct.remove C k, ?_⟩
  intro k'
  by_cases hk : k' = k
  · subst hk
    rw [C.look_remove_self h.distinct, Finmap.lookup_erase]
  · rw [C.look_remove_of_ne t hk, Finmap.lookup_erase_ne hk, h.look]

/-- The cells in use are the entries of the map. -/
theorem Refines.mem_iff (h : C.Refines t m) (k : κ) (v : ν) :
    (∃ e ∈ t, C.key e = some k ∧ C.val e = v) ↔ m.lookup k = some v := by
  rw [← h.look]
  constructor
  · rintro ⟨e, he, hkey, rfl⟩
    obtain ⟨a, b, rfl⟩ := List.append_of_mem he
    obtain ⟨ha, -⟩ := h.distinct.notMem C hkey
    exact C.look_hit ha hkey
  · intro hlook
    obtain ⟨e, hfind, rfl⟩ := Option.map_eq_some_iff.mp hlook
    have hhas := List.find?_some hfind
    exact ⟨e, List.mem_of_find?_eq_some hfind, by simpa [has] using hhas, rfl⟩

end

end Cells

end WSBridge.Foundation
