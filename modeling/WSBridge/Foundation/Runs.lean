import Mathlib.Tactic

/-!
# Runs of a labelled system

A system is a partial function `step : σ → ε → Option σ`: the state an event
leads to, where the event can happen. A run is a row of events.

Results:
* `invariant_run`: what every step preserves holds after every run.
* `run_countP_le`: how many events of a kind a run can have.
* `everyState_iff`: `EveryState` speaks about the states the run's prefixes
  lead to.
* `everyState_of_invariant`, `everyStep_of_invariant`: what good states have, and
  what every step from a good state meets.
* `everyState_of_everyStep`: a property of the states of a run whose steps meet
  a condition.
* `everyState_of_everyState`: the same where a property of the states is the
  condition.
* `everyState_iff_everyStep_of`: a property that each step keeps exactly under a
  condition `C` holds in every state of a run exactly when every step of the
  run meets `C`.
* `everyStep_iff_everyStep`: the same for two properties of the steps.
-/

namespace WSBridge.Foundation

variable {σ ε : Type*} (step : σ → ε → Option σ)

/-- The state a row of events leads to. -/
def run : σ → List ε → Option σ
  | s, [] => some s
  | s, e :: es => (step s e).bind fun t => run t es

/-- `P` holds in every state of the run. -/
def EveryState (P : σ → Prop) : σ → List ε → Prop
  | s, [] => P s
  | s, e :: es => P s ∧ ∀ t, step s e = some t → EveryState P t es

/-- `C` holds of every event of the run and the state before it. -/
def EveryStep (C : σ → ε → Prop) : σ → List ε → Prop
  | _, [] => True
  | s, e :: es => ∀ t, step s e = some t → C s e ∧ EveryStep C t es

variable {step}

theorem run_cons_eq_some {s t : σ} {e : ε} {es : List ε} :
    run step s (e :: es) = some t ↔ ∃ m, step s e = some m ∧ run step m es = some t := by
  simp [run, Option.bind_eq_some_iff]

theorem run_append (s : σ) (es fs : List ε) :
    run step s (es ++ fs) = (run step s es).bind fun t => run step t fs := by
  induction es generalizing s with
  | nil => rfl
  | cons e es ih =>
    simp only [List.cons_append, run]
    cases step s e with
    | none => rfl
    | some m => exact ih m

/-- An invariant of the steps is an invariant of the runs. -/
theorem invariant_run {I : σ → Prop} (hstep : ∀ s e t, I s → step s e = some t → I t) :
    ∀ (es : List ε) (s t : σ), I s → run step s es = some t → I t := by
  intro es
  induction es with
  | nil => intro s t hs h; cases h; exact hs
  | cons e es ih =>
    intro s t hs h
    obtain ⟨m, hm, hrun⟩ := run_cons_eq_some.mp h
    exact ih m t (hstep s e m hs hm) hrun

/-- A measure that every step at least keeps, and the events that count use up,
bounds how many of them a run has. -/
theorem run_countP_le {I : σ → Prop} {p : ε → Bool} {g : σ → ℕ}
    (hstep : ∀ s e t, I s → step s e = some t → I t ∧ g t + (p e).toNat ≤ g s) :
    ∀ (es : List ε) (s t : σ), I s → run step s es = some t → g t + es.countP p ≤ g s := by
  intro es
  induction es with
  | nil =>
    intro s t _ h
    cases h
    simp
  | cons e es ih =>
    intro s t hs h
    obtain ⟨m, hm, hrun⟩ := run_cons_eq_some.mp h
    obtain ⟨hI, hle⟩ := hstep s e m hs hm
    have hrest := ih m t hI hrun
    rw [List.countP_cons]
    cases hp : p e <;> simp [hp] at hle ⊢ <;> omega

theorem EveryState.head {P : σ → Prop} {s : σ} {es : List ε} (h : EveryState step P s es) :
    P s := by
  cases es with
  | nil => exact h
  | cons e es => exact h.1

/-- `EveryState` is about the states the beginnings of the run lead to. -/
theorem everyState_iff {P : σ → Prop} (s : σ) (es : List ε) :
    EveryState step P s es ↔ ∀ fs t, fs <+: es → run step s fs = some t → P t := by
  induction es generalizing s with
  | nil =>
    constructor
    · rintro h fs t hfs hrun
      rw [List.prefix_nil] at hfs
      subst hfs
      cases hrun
      exact h
    · intro h
      exact h [] s (List.nil_prefix) rfl
  | cons e es ih =>
    constructor
    · rintro ⟨hs, h⟩ fs t hfs hrun
      cases fs with
      | nil => cases hrun; exact hs
      | cons f fs =>
        obtain ⟨rfl, htail⟩ := List.cons_prefix_cons.mp hfs
        obtain ⟨m, hm, hrun⟩ := run_cons_eq_some.mp hrun
        exact (ih m).mp (h m hm) fs t htail hrun
    · intro h
      refine ⟨h [] s List.nil_prefix rfl, fun m hm => (ih m).mpr fun fs t hfs hrun => ?_⟩
      exact h (e :: fs) t (List.cons_prefix_cons.mpr ⟨rfl, hfs⟩)
        (run_cons_eq_some.mpr ⟨m, hm, hrun⟩)

/-- What good states have, every state of a run from a good state has. -/
theorem everyState_of_invariant {I P : σ → Prop}
    (hstep : ∀ s e t, I s → step s e = some t → I t) (hP : ∀ s, I s → P s) (es : List ε) (s : σ)
    (hs : I s) : EveryState step P s es := by
  rw [everyState_iff]
  intro fs t _ hrun
  exact hP t (invariant_run hstep fs s t hs hrun)

/-- `EveryStep` is about each step of the run. -/
theorem EveryStep.after {C : σ → ε → Prop} {es fs : List ε} {e : ε} {s m t : σ}
    (h : EveryStep step C s (es ++ e :: fs)) (hrun : run step s es = some m)
    (ht : step m e = some t) : C m e := by
  induction es generalizing s with
  | nil =>
    cases hrun
    exact (h t ht).1
  | cons f es ih =>
    obtain ⟨n, hn, hrun⟩ := run_cons_eq_some.mp hrun
    exact ih (h n hn).2 hrun

/-- What every event of the run has, every step of it meets. -/
theorem everyStep_of_forall {Q : ε → Prop} :
    ∀ (es : List ε) (s : σ), (∀ e ∈ es, Q e) → EveryStep step (fun _ e => Q e) s es := by
  intro es
  induction es with
  | nil => exact fun _ _ => trivial
  | cons e es ih =>
    intro s h t _
    exact ⟨h e List.mem_cons_self, ih t fun f hf => h f (List.mem_cons_of_mem e hf)⟩

/-- What every step from a good state meets, every step of a run meets. -/
theorem everyStep_of_invariant {I : σ → Prop} {C : σ → ε → Prop}
    (hstep : ∀ s e t, I s → step s e = some t → C s e ∧ I t) :
    ∀ (es : List ε) (s : σ), I s → EveryStep step C s es := by
  intro es
  induction es with
  | nil => exact fun _ _ => trivial
  | cons e es ih =>
    intro s hI t ht
    obtain ⟨hC, hI'⟩ := hstep s e t hI ht
    exact ⟨hC, ih t hI'⟩

/-- When steps under the condition `C` keep states good, and good states have
`P`, a run whose steps meet `C` has `P` in every state. -/
theorem everyState_of_everyStep {I P : σ → Prop} {C : σ → ε → Prop}
    (hstep : ∀ s e t, I s → C s e → step s e = some t → I t) (hP : ∀ s, I s → P s) :
    ∀ (es : List ε) (s : σ), I s → EveryStep step C s es → EveryState step P s es := by
  intro es
  induction es with
  | nil => exact fun s hI _ => hP s hI
  | cons e es ih =>
    intro s hI h
    refine ⟨hP s hI, fun t ht => ?_⟩
    obtain ⟨hC, hes⟩ := h t ht
    exact ih t (hstep s e t hI hC ht) hes

/-- When steps to states with `P` keep states good, a run all whose states have
`P` has in its states what good states have, and in its steps what steps from
good states have. -/
theorem everyState_of_everyState {I P Q : σ → Prop} {C : σ → ε → Prop}
    (hstep : ∀ s e t, I s → P t → step s e = some t → I t) (hQ : ∀ s, I s → Q s)
    (hC : ∀ s e t, I s → step s e = some t → C s e) :
    ∀ (es : List ε) (s : σ), I s → EveryState step P s es →
      EveryState step Q s es ∧ EveryStep step C s es := by
  intro es
  induction es with
  | nil => exact fun s hI _ => ⟨hQ s hI, trivial⟩
  | cons e es ih =>
    intro s hI h
    have htail (t : σ) (ht : step s e = some t) : EveryState step Q t es ∧ EveryStep step C t es :=
      ih t (hstep s e t hI (h.2 t ht).head ht) (h.2 t ht)
    refine ⟨⟨hQ s hI, fun t ht => (htail t ht).1⟩, fun t ht => ?_⟩
    exact ⟨hC s e t hI ht, (htail t ht).2⟩

/-- When each step from a good state keeps `P` exactly under the condition `C`,
and good states stay good as long as it does, a run keeps `P` exactly as long
as its steps meet `C`. The events of the run may be restricted to `Q`. -/
theorem everyState_iff_everyStep_of {P I : σ → Prop} {C : σ → ε → Prop} {Q : ε → Prop}
    (hstep : ∀ s e t, Q e → I s → P s → step s e = some t → (P t ↔ C s e))
    (hinv : ∀ s e t, Q e → I s → P s → C s e → step s e = some t → I t) :
    ∀ (es : List ε) (s : σ), (∀ e ∈ es, Q e) → I s → P s →
      (EveryState step P s es ↔ EveryStep step C s es) := by
  intro es
  induction es with
  | nil => intro s _ _ hP; exact ⟨fun _ => trivial, fun _ => hP⟩
  | cons e es ih =>
    intro s hQ hI hP
    have hQe := hQ e List.mem_cons_self
    have hQes (f : ε) (hf : f ∈ es) := hQ f (List.mem_cons_of_mem e hf)
    constructor
    · rintro ⟨_, h⟩ t ht
      have hC := (hstep s e t hQe hI hP ht).mp (h t ht).head
      exact ⟨hC, (ih t hQes (hinv s e t hQe hI hP hC ht) (h t ht).head).mp (h t ht)⟩
    · intro h
      refine ⟨hP, fun t ht => ?_⟩
      obtain ⟨hC, hes⟩ := h t ht
      have hPt := (hstep s e t hQe hI hP ht).mpr hC
      exact (ih t hQes (hinv s e t hQe hI hP hC ht) hPt).mpr hes

theorem everyState_iff_everyStep {P I : σ → Prop} {C : σ → ε → Prop}
    (hstep : ∀ s e t, I s → P s → step s e = some t → (P t ↔ C s e))
    (hinv : ∀ s e t, I s → P s → C s e → step s e = some t → I t) (es : List ε) (s : σ)
    (hI : I s) (hP : P s) : EveryState step P s es ↔ EveryStep step C s es :=
  everyState_iff_everyStep_of (Q := fun _ => True) (fun s e t _ => hstep s e t)
    (fun s e t _ => hinv s e t) es s (fun _ _ => trivial) hI hP

/-- Two properties of a step that agree in good states agree on runs, when the
second keeps states good. -/
theorem everyStep_iff_everyStep {I : σ → Prop} {P C : σ → ε → Prop}
    (hstep : ∀ s e t, I s → step s e = some t → (P s e ↔ C s e))
    (hinv : ∀ s e t, I s → C s e → step s e = some t → I t) :
    ∀ (es : List ε) (s : σ), I s → (EveryStep step P s es ↔ EveryStep step C s es) := by
  intro es
  induction es with
  | nil => intro s _; exact Iff.rfl
  | cons e es ih =>
    intro s hI
    constructor
    · intro h t ht
      obtain ⟨hP, hes⟩ := h t ht
      have hC := (hstep s e t hI ht).mp hP
      exact ⟨hC, (ih t (hinv s e t hI hC ht)).mp hes⟩
    · intro h t ht
      obtain ⟨hC, hes⟩ := h t ht
      exact ⟨(hstep s e t hI ht).mpr hC, (ih t (hinv s e t hI hC ht)).mpr hes⟩

end WSBridge.Foundation
