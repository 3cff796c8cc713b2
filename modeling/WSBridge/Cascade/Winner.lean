import WSBridge.Cascade.Progress

/-!
# One endpoint wins

The completion of a first receive claims its attempt, but goes on whether or
not the claim succeeds, and `receiveLoop` reads whichever task is current. A
message that comes after the timer has given its attempt up is passed on all
the same, and starts a second receive on the task of the next endpoint.

Results:
* `oneWins_iff`: in every step of a run one endpoint wins exactly when no
  receive of an attempt that is claimed completes with success (or all it would
  bring is no data, and no task is there to receive from).
* `late_message`: a message of the first task after its timer.
-/

namespace WSBridge.Cascade

open WSBridge.Foundation
open Client (tryConnect_ok)

/-- The attempt whose callback runs. -/
def Event.attempt? : Event → Option ℕ
  | .initSent a _ | .received a _ | .receiveFailed a | .timer a | .loopReceived a _
    | .loopFailed a => some a
  | _ => none

/-- The cascade has gone on from the attempt's endpoint to the next one. -/
def Client.Abandoned (c : Client) (t : Attempt) : Prop :=
  t.index + 1 ∈ c.entering ∨ t.index + 1 ∈ c.tried

/-- The receives outstanding on the attempt's task. -/
def Attempt.receives (t : Attempt) : ℕ := t.recvPending.toNat + t.loopPending

/-- A step in which no endpoint speaks but the one that has won. -/
structure OneWins (c : Client) (e : Event) (d : Client) : Prop where
  /-- An abandoned attempt passes nothing on and starts no receive loop. -/
  abandoned : ∀ a t, e.attempt? = some a → c.attempts[a]? = some t → c.Abandoned t →
    d.messages = c.messages ∧ ∀ (b : ℕ) (u v : Attempt),
      c.attempts[b]? = some u → d.attempts[b]? = some v → v.loopPending ≤ u.loopPending
  /-- After a first message no endpoint is tried, and no other task speaks. -/
  winner : ∀ m ∈ c.messages, d.tried = c.tried ∧ ∀ m' ∈ d.messages, m'.1 = m.1
  /-- What is passed on is the message of the receive that has completed. -/
  order : d.messages = c.messages ∨ ∃ a data, d.messages = c.messages ++ [(a, data)] ∧
    (e = .received a (some data) ∨ e = .loopReceived a (some data))
  single : ∀ t ∈ d.attempts, t.receives ≤ 1

/-- The receive that completes with success belongs to an attempt that nothing
has claimed yet, or it brings no data while there is no task. -/
def OnTime (c : Client) : Event → Prop
  | .received a message => ∀ t, c.attempts[a]? = some t →
      t.claimed = false ∨ (message = none ∧ c.task = none)
  | _ => True

/-! ## The invariant -/

/-- The attempt has won: its first receive is over, and nothing will be tried
after it. -/
structure Won (p : Progress) (a : ℕ) (s : Stage) : Prop where
  claimed : s.claimed = true
  started : s.started = true
  recvDone : s.recvPending = false
  entering : p.entering = []
  last : a + 1 = p.stages.length
  index : s.index + 1 = p.tried.length
  task : p.task = some a ∨ p.task = none

/-- What holds of the course of a cascade as long as every first receive is on
time. -/
structure Tracked (p : Progress) : Prop where
  linear : Linear p
  fresh : ∀ s ∈ p.stages, s.started = false →
    s.claimed = false ∧ s.recvPending = false ∧ s.timerPending = false
  /-- An attempt that is claimed before its first receive is abandoned. -/
  gone : ∀ s ∈ p.stages, s.claimed = true → s.recvPending = true →
    s.index + 1 ∈ p.entering ∨ s.index + 1 ∈ p.tried
  task_lt : ∀ a, p.task = some a → a < p.stages.length
  current : ∀ a s, p.stages[a]? = some s → s.claimed = false → p.task = some a ∨ p.task = none
  loop : ∀ a s, p.stages[a]? = some s → 0 < s.loopPending → s.loopPending = 1 ∧ Won p a s
  message : ∀ m ∈ p.messages, ∃ s, p.stages[m.1]? = some s ∧ Won p m.1 s

/-- No attempt has won yet. -/
structure Undecided (p : Progress) : Prop where
  messages : p.messages = []
  loops : ∀ s ∈ p.stages, s.loopPending = 0

/-- A change of one stage that starts nothing but receives of the loop. -/
structure Stage.Calmer (s t : Stage) : Prop where
  index : t.index = s.index
  claimed : t.claimed = s.claimed
  started : t.started = s.started
  recvPending : t.recvPending = true → s.recvPending = true
  timerPending : t.timerPending = true → s.timerPending = true

/-- `OnTime`, of the course of the cascade. -/
def Progress.Timely (p : Progress) (e : Event) : Prop :=
  ∀ a message s, e = .received a message → p.stages[a]? = some s →
    s.claimed = false ∨ (message = none ∧ p.task = none)

section

variable {p q : Progress}

/-- While an attempt is not claimed, or the next one is about to begin, there
is no winner. -/
theorem Tracked.undecided (ht : Tracked p) (hno : ∀ a s, p.stages[a]? = some s → ¬ Won p a s) :
    Undecided p := by
  refine ⟨?_, ?_⟩
  · by_contra hne
    obtain ⟨m, rest, hcons⟩ := List.exists_cons_of_ne_nil hne
    obtain ⟨s, hs, hwon⟩ := ht.message m (hcons ▸ List.mem_cons_self)
    exact hno _ s hs hwon
  · intro s hs
    by_contra hne
    obtain ⟨a, ha⟩ := List.mem_iff_getElem?.mp hs
    exact hno a s ha (ht.loop a s ha (Nat.pos_of_ne_zero hne)).2

theorem Tracked.undecided_of_open (ht : Tracked p) {a : ℕ} {s : Stage}
    (hs : p.stages[a]? = some s) (hopen : s.claimed = false) : Undecided p := by
  refine ht.undecided fun b t hb hwon => ?_
  obtain ⟨-, hlast, -⟩ := ht.linear.open_last a s hs hopen
  have hlast' := hwon.last
  obtain rfl : a = b := by omega
  obtain rfl := Option.some.inj (hs.symm.trans hb)
  rw [hwon.claimed] at hopen
  cases hopen

theorem Tracked.undecided_of_entering (ht : Tracked p) {k index : ℕ}
    (hk : p.entering[k]? = some index) : Undecided p := by
  refine ht.undecided fun b t _ hwon => ?_
  rw [hwon.entering] at hk
  cases hk

/-- Two attempts that have won are the same. -/
theorem Won.unique {a b : ℕ} {s t : Stage} (h : Won p a s) (h' : Won p b t) : a = b := by
  have := h.last
  have := h'.last
  omega

theorem Won.calm {a b : ℕ} {s t : Stage} {f : Stage → Stage} (h : Won p a s)
    (hcalm : s.Calmer t) : Won (p.onStage b f) a t := by
  refine ⟨hcalm.claimed.trans h.claimed, hcalm.started.trans h.started, ?_, h.entering, ?_, ?_,
    h.task⟩
  · by_contra hrecv
    have := hcalm.recvPending (eq_true_of_ne_false hrecv)
    rw [h.recvDone] at this
    cases this
  · show a + 1 = (p.stages.modify b f).length
    rw [List.length_modify]
    exact h.last
  · rw [hcalm.index]
    exact h.index

theorem Stage.Calmer.refl (s : Stage) : s.Calmer s := ⟨rfl, rfl, rfl, id, id⟩

/-- A change of one stage keeps the invariant, when receives of the loop are
started by the winner only, and one at a time. -/
theorem Tracked.calm (ht : Tracked p) {a : ℕ} {s : Stage} (hs : p.stages[a]? = some s)
    {f : Stage → Stage} (hcalm : s.Calmer (f s))
    (hloop : 0 < (f s).loopPending → (f s).loopPending = 1 ∧ Won p a s) :
    Tracked (p.onStage a f) := by
  have hlen : (p.onStage a f).stages.length = p.stages.length := List.length_modify ..
  have hold {b : ℕ} {t : Stage} (hb : (p.onStage a f).stages[b]? = some t) :
      ∃ t₀, p.stages[b]? = some t₀ ∧ t₀.Calmer t := by
    obtain ⟨t₀, ht₀, rfl⟩ := onStage_getElem? hb
    refine ⟨t₀, ht₀, ?_⟩
    split_ifs with hab
    · subst hab
      obtain rfl := Option.some.inj (hs.symm.trans ht₀)
      exact hcalm
    · exact .refl t₀
  have hmem {t : Stage} (hmem : t ∈ (p.onStage a f).stages) : ∃ t₀ ∈ p.stages, t₀.Calmer t := by
    obtain ⟨b, hb⟩ := List.mem_iff_getElem?.mp hmem
    obtain ⟨t₀, ht₀, h⟩ := hold hb
    exact ⟨t₀, List.mem_of_getElem? ht₀, h⟩
  have hcall (b : Bool) (h : ¬ b = true) : b = false := eq_false_of_ne_true h
  refine ⟨⟨ht.linear.tried, ht.linear.entering, ?_, ?_⟩, ?_, ?_, ?_, ?_, ?_, ?_⟩
  · intro t hmem'
    obtain ⟨t₀, ht₀, h⟩ := hmem hmem'
    rw [h.index]
    exact ht.linear.index_lt t₀ ht₀
  · intro b t hb hopen
    obtain ⟨t₀, ht₀, h⟩ := hold hb
    rw [hlen, h.index]
    exact ht.linear.open_last b t₀ ht₀ (h.claimed.symm.trans hopen)
  · intro t hmem' hnew
    obtain ⟨t₀, ht₀, h⟩ := hmem hmem'
    obtain ⟨h1, h2, h3⟩ := ht.fresh t₀ ht₀ (h.started.symm.trans hnew)
    refine ⟨h.claimed.trans h1, hcall _ fun hrecv => ?_, hcall _ fun htimer => ?_⟩
    · have := h.recvPending hrecv
      rw [h2] at this
      cases this
    · have := h.timerPending htimer
      rw [h3] at this
      cases this
  · intro t hmem' hclaimed hrecv
    obtain ⟨t₀, ht₀, h⟩ := hmem hmem'
    rw [h.index]
    exact ht.gone t₀ ht₀ (h.claimed.symm.trans hclaimed) (h.recvPending hrecv)
  · intro b hb
    rw [hlen]
    exact ht.task_lt b hb
  · intro b t hb hopen
    obtain ⟨t₀, ht₀, h⟩ := hold hb
    exact ht.current b t₀ ht₀ (h.claimed.symm.trans hopen)
  · intro b t hb hpos
    obtain ⟨t₀, ht₀, rfl⟩ := onStage_getElem? hb
    split_ifs at hpos ⊢ with hab
    · subst hab
      obtain rfl := Option.some.inj (hs.symm.trans ht₀)
      obtain ⟨hone, hwon⟩ := hloop hpos
      exact ⟨hone, hwon.calm hcalm⟩
    · obtain ⟨hone, hwon⟩ := ht.loop b t₀ ht₀ hpos
      exact ⟨hone, hwon.calm (.refl t₀)⟩
  · intro m hm
    obtain ⟨t₀, ht₀, hwon⟩ := ht.message m hm
    refine ⟨_, onStage_of_some ht₀ f, ?_⟩
    split_ifs with hab
    · subst hab
      obtain rfl := Option.some.inj (hs.symm.trans ht₀)
      exact hwon.calm hcalm
    · exact hwon.calm (.refl t₀)

theorem Undecided.tracked (hl : Linear q)
    (hfresh : ∀ s ∈ q.stages, s.started = false →
      s.claimed = false ∧ s.recvPending = false ∧ s.timerPending = false)
    (hgone : ∀ s ∈ q.stages, s.claimed = true → s.recvPending = true →
      s.index + 1 ∈ q.entering ∨ s.index + 1 ∈ q.tried)
    (htask : ∀ a, q.task = some a → a < q.stages.length)
    (hcurrent : ∀ a s, q.stages[a]? = some s → s.claimed = false → q.task = some a ∨ q.task = none)
    (hu : Undecided q) : Tracked q := by
  refine ⟨hl, hfresh, hgone, htask, hcurrent, ?_, ?_⟩
  · intro a s hs hpos
    rw [hu.loops s (List.mem_of_getElem? hs)] at hpos
    exact absurd hpos (Nat.lt_irrefl 0)
  · intro m hm
    rw [hu.messages] at hm
    cases hm

/-- A receive or a timer is outstanding on started attempts only. -/
theorem Tracked.started (ht : Tracked p) {a : ℕ} {s : Stage} (hs : p.stages[a]? = some s)
    (h : s.recvPending = true ∨ s.timerPending = true) : s.started = true := by
  by_contra hnew
  obtain ⟨-, hrecv, htimer⟩ := ht.fresh s (List.mem_of_getElem? hs) (eq_false_of_ne_true hnew)
  rcases h with h | h
  · rw [hrecv] at h
    cases h
  · rw [htimer] at h
    cases h

/-- A change that starts nothing at all. -/
theorem Tracked.fewer (ht : Tracked p) {a : ℕ} {s : Stage} (hs : p.stages[a]? = some s)
    {f : Stage → Stage} (hcalm : s.Calmer (f s)) (hle : (f s).loopPending ≤ s.loopPending) :
    Tracked (p.onStage a f) := by
  refine ht.calm hs hcalm fun hpos => ?_
  obtain ⟨hone, hwon⟩ := ht.loop a s hs (by omega)
  exact ⟨by omega, hwon⟩

theorem Tracked.clearTask (ht : Tracked p) : Tracked { p with task := none } := by
  have hwon {a : ℕ} {s : Stage} (h : Won p a s) : Won { p with task := none } a s :=
    ⟨h.claimed, h.started, h.recvDone, h.entering, h.last, h.index, Or.inr rfl⟩
  refine ⟨ht.linear.setTask _ _, ht.fresh, ht.gone, nofun, fun _ _ _ _ => Or.inr rfl, ?_, ?_⟩
  · intro a s hs hpos
    obtain ⟨hone, h⟩ := ht.loop a s hs hpos
    exact ⟨hone, hwon h⟩
  · intro m hm
    obtain ⟨s, hs, h⟩ := ht.message m hm
    exact ⟨s, hs, hwon h⟩

/-- One stage changes, while no attempt has won. -/
theorem Tracked.changed (ht : Tracked p) {a : ℕ} {s : Stage} (hs : p.stages[a]? = some s)
    (hu : Undecided p) {f : Stage → Stage} (hl : Linear q)
    (hstages : q.stages = (p.onStage a f).stages) (hmessages : q.messages = p.messages)
    (htask : q.task = p.task ∨ q.task = none)
    (hahead : ∀ i, i ∈ p.entering ∨ i ∈ p.tried → i ∈ q.entering ∨ i ∈ q.tried)
    (hstarted : (f s).started = true)
    (hgone : (f s).claimed = true → (f s).recvPending = true →
      (f s).index + 1 ∈ q.entering ∨ (f s).index + 1 ∈ q.tried)
    (hclaimed : (f s).claimed = false → s.claimed = false)
    (hloop : (f s).loopPending = s.loopPending) : Tracked q := by
  have hchanged {t : Stage} (hmem : t ∈ q.stages) : t ∈ p.stages ∨ t = f s := by
    rw [hstages] at hmem
    rcases mem_modify hmem with hmem | ⟨t₀, ht₀, rfl⟩
    · exact Or.inl hmem
    · obtain rfl := Option.some.inj (hs.symm.trans ht₀)
      exact Or.inr rfl
  have hlen : q.stages.length = p.stages.length := by
    rw [hstages]
    exact List.length_modify ..
  refine Undecided.tracked hl ?_ ?_ ?_ ?_ ⟨hmessages.trans hu.messages, ?_⟩
  · intro t hmem hnew
    rcases hchanged hmem with hmem | rfl
    · exact ht.fresh t hmem hnew
    · exact absurd (hstarted.symm.trans hnew) nofun
  · intro t hmem hcl hrecv
    rcases hchanged hmem with hmem | rfl
    · exact hahead _ (ht.gone t hmem hcl hrecv)
    · exact hgone hcl hrecv
  · intro b hb
    rw [hlen]
    rcases htask with htask | htask
    · exact ht.task_lt b (htask ▸ hb)
    · exact absurd (htask.symm.trans hb) nofun
  · intro b t hb hopen
    rcases htask with htask | htask
    · rw [hstages] at hb
      obtain ⟨t₀, ht₀, rfl⟩ := onStage_getElem? hb
      rw [htask]
      refine ht.current b t₀ ht₀ ?_
      split_ifs at hopen with hab
      · subst hab
        obtain rfl := Option.some.inj (hs.symm.trans ht₀)
        exact hclaimed hopen
      · exact hopen
    · exact Or.inr htask
  · intro t hmem
    rcases hchanged hmem with hmem | rfl
    · exact hu.loops t hmem
    · exact hloop.trans (hu.loops s (List.mem_of_getElem? hs))

/-- An attempt that gives up. -/
theorem Tracked.gaveUp (ht : Tracked p) {a : ℕ} {s : Stage} (hs : p.stages[a]? = some s)
    (hopen : s.claimed = false) (hstarted : s.started = true) :
    Tracked (p.giveUp a s.index) := by
  have hl := ht.linear.giveUp hs hopen
  have hu := ht.undecided_of_open hs hopen
  refine ht.changed hs hu hl rfl rfl (Or.inr rfl) ?_ hstarted ?_ nofun rfl
  · exact fun i h => h.imp_left (List.mem_append_left _)
  · exact fun _ _ => Or.inl (List.mem_append_right _ (List.mem_singleton_self _))

/-- A task is opened, or its endpoint is skipped, while no attempt has won. -/
theorem Tracked.entered (ht : Tracked p) {k index : ℕ} (hk : p.entering[k]? = some index)
    (hl : Linear q) (hmessages : q.messages = p.messages)
    (hstages : (q.stages = p.stages ∧ q.task = p.task) ∨
      (q.stages = p.stages ++ [({ index } : Stage)] ∧ q.task = some p.stages.length))
    (htried : q.tried = p.tried ++ [index]) : Tracked q := by
  have hu := ht.undecided_of_entering hk
  obtain ⟨-, -, hclaimed⟩ := ht.linear.entered hk
  have hmem {t : Stage} (hmem : t ∈ q.stages) : t ∈ p.stages ∨ t = ({ index } : Stage) := by
    rcases hstages with ⟨hstages, -⟩ | ⟨hstages, -⟩
    · exact Or.inl (hstages ▸ hmem)
    · rw [hstages] at hmem
      exact (List.mem_append.mp hmem).imp_right List.mem_singleton.mp
  refine Undecided.tracked hl ?_ ?_ ?_ ?_ ⟨hmessages.trans hu.messages, ?_⟩
  · intro t ht' hnew
    rcases hmem ht' with ht' | rfl
    · exact ht.fresh t ht' hnew
    · exact ⟨rfl, rfl, rfl⟩
  · intro t ht' hcl hrecv
    rcases hmem ht' with ht' | rfl
    · right
      rw [htried]
      rcases ht.gone t ht' hcl hrecv with h | h
      · have hentering := ht.linear.entering
        obtain ⟨hindex, -⟩ := ht.linear.entered hk
        rcases hentering with hnone | hone
        · rw [hnone] at h
          cases h
        · rw [hone, List.mem_singleton] at h
          rw [h, hindex]
          exact List.mem_append_right _ (List.mem_singleton_self _)
      · exact List.mem_append_left _ h
    · cases hcl
  · intro a ha
    rcases hstages with ⟨hstages, htask⟩ | ⟨hstages, htask⟩
    · rw [hstages]
      exact ht.task_lt a (htask ▸ ha)
    · rw [htask] at ha
      rw [hstages, List.length_append, List.length_singleton, ← Option.some.inj ha]
      exact Nat.lt_succ_self _
  · intro a t hs hopen
    rcases hstages with ⟨hstages, htask⟩ | ⟨hstages, htask⟩
    · rw [hstages] at hs
      rw [hclaimed t (List.mem_of_getElem? hs)] at hopen
      cases hopen
    · left
      obtain ⟨-, hlast, -⟩ := hl.open_last a t hs hopen
      rw [hstages, List.length_append, List.length_singleton] at hlast
      rw [htask]
      congr 1
      omega
  · intro t ht'
    rcases hmem ht' with ht' | rfl
    · exact hu.loops t ht'
    · rfl

/-- The winner passes a message on and receives again. -/
theorem Tracked.speaks (ht : Tracked p) {a : ℕ} {s : Stage} (hs : p.stages[a]? = some s)
    (hwon : Won p a s) (hzero : s.loopPending = 0) (message : Option Bytes) :
    Tracked (p.deliver a message).receiveLoop := by
  have hdeliver {b : ℕ} {t : Stage} (h : Won p b t) : Won (p.deliver a message) b t :=
    ⟨h.claimed, h.started, h.recvDone, h.entering, h.last, h.index, h.task⟩
  have htracked : Tracked (p.deliver a message) := by
    refine ⟨ht.linear.setTask _ p.task, ht.fresh, ht.gone, ht.task_lt, ht.current, ?_, ?_⟩
    · intro b t hb hpos
      obtain ⟨hone, h⟩ := ht.loop b t hb hpos
      exact ⟨hone, hdeliver h⟩
    · intro m hm
      rcases List.mem_append.mp hm with hm | hm
      · obtain ⟨t, hb, h⟩ := ht.message m hm
        exact ⟨t, hb, hdeliver h⟩
      · obtain ⟨data, -, rfl⟩ := Option.map_eq_some_iff.mp (Option.mem_toList.mp hm)
        exact ⟨s, hs, hdeliver hwon⟩
  unfold Progress.receiveLoop
  split
  · rename_i b htask
    have hb : b = a := by
      rcases hwon.task with h | h
      · exact Option.some.inj (htask.symm.trans h)
      · exact absurd (htask.symm.trans h) nofun
    subst hb
    refine htracked.calm hs ⟨rfl, rfl, rfl, id, id⟩ fun _ => ⟨?_, hdeliver hwon⟩
    show s.loopPending + 1 = 1
    rw [hzero]
  · exact htracked

/-- An attempt is claimed whose first receive is over. -/
theorem Tracked.claimed (ht : Tracked p) {a : ℕ} {s : Stage} (hs : p.stages[a]? = some s)
    (hopen : s.claimed = false) (hstarted : s.started = true) (hrecv : s.recvPending = false) :
    Tracked (p.onStage a .claim) := by
  have hu := ht.undecided_of_open hs hopen
  have hl := ht.linear.onStage a (f := .claim) (fun _ => rfl) fun _ _ => rfl
  refine ht.changed hs hu hl rfl rfl (Or.inl rfl) (fun _ h => h) hstarted ?_ nofun rfl
  exact fun _ hrecv' => absurd (hrecv.symm.trans hrecv') nofun

/-- The first receive of an attempt completes with success, on time. -/
theorem Tracked.received (ht : Tracked p) {a : ℕ} {s : Stage} (hs : p.stages[a]? = some s)
    (hrecv : s.recvPending = true) (hopen : s.claimed = false) (message : Option Bytes) :
    Tracked (((p.onStage a fun s => s.recvDone.claim).deliver a message).receiveLoop) := by
  have hu := ht.undecided_of_open hs hopen
  obtain ⟨hentering, hlast, hindex⟩ := ht.linear.open_last a s hs hopen
  have hstarted := ht.started hs (Or.inl hrecv)
  have hdone := ht.fewer hs (f := .recvDone) ⟨rfl, rfl, rfl, nofun, id⟩ (le_refl _)
  have hclaimed := hdone.claimed (s := s.recvDone) (onStage_self hs .recvDone) hopen hstarted rfl
  rw [onStage_onStage] at hclaimed
  refine hclaimed.speaks (onStage_self hs (Stage.claim ∘ Stage.recvDone))
    ⟨rfl, hstarted, rfl, hentering, ?_, hindex, ht.current a s hs hopen⟩ ?_ message
  · show a + 1 = (p.stages.modify a _).length
    rw [List.length_modify]
    exact hlast
  · exact hu.loops s (List.mem_of_getElem? hs)

/-- A late receive that brings nothing while there is no task. -/
theorem Tracked.late (ht : Tracked p) {a : ℕ} {s : Stage} (hs : p.stages[a]? = some s)
    (hclaimed : s.claimed = true) (htask : p.task = none) :
    Tracked (((p.onStage a fun s => s.recvDone.claim).deliver a none).receiveLoop) := by
  have hsame : ((p.onStage a fun s => s.recvDone.claim).deliver a none).receiveLoop =
      p.onStage a fun s => s.recvDone.claim := by
    have htask' : ((p.onStage a fun s => s.recvDone.claim).deliver a none).task = none := htask
    unfold Progress.receiveLoop
    rw [htask']
    show Progress.mk _ _ _ (p.messages ++ []) _ = _
    rw [List.append_nil]
    rfl
  rw [hsame]
  exact ht.fewer hs ⟨rfl, hclaimed.symm, rfl, nofun, id⟩ (le_refl _)

/-- Every move that is on time keeps the invariant. -/
theorem Tracked.move (ht : Tracked p) {e : Event} (hm : Moves p e q) (hon : p.Timely e) :
    Tracked q := by
  have hl := ht.linear.move hm
  cases hm with
  | quiet htask _ =>
    rcases htask with rfl | rfl
    · exact ht
    · exact ht.clearTask
  | opened hk => exact ht.entered hk hl rfl (Or.inr ⟨rfl, rfl⟩) rfl
  | skipped hk _ => exact ht.entered hk hl rfl (Or.inl ⟨rfl, rfl⟩) rfl
  | @started a s hs hnew =>
    obtain ⟨hopen, -⟩ := ht.fresh s (List.mem_of_getElem? hs) hnew
    have hu := ht.undecided_of_open hs hopen
    refine ht.changed hs hu hl rfl rfl (Or.inl rfl) (fun _ h => h) rfl ?_ (fun h => h) rfl
    exact fun hclaimed _ => absurd (hopen.symm.trans hclaimed) nofun
  | @received a s hs hrecv message =>
    rcases hon a message s rfl hs with hopen | ⟨rfl, htask⟩
    · exact ht.received hs hrecv hopen message
    · by_cases hclaimed : s.claimed = true
      · exact ht.late hs hclaimed htask
      · exact ht.received hs hrecv (eq_false_of_ne_true hclaimed) none
  | recvDone hs _ => exact ht.fewer hs ⟨rfl, rfl, rfl, nofun, id⟩ (le_refl _)
  | @failed a s hs hopen hrecv =>
    have hstarted := ht.started hs (Or.inl hrecv)
    have hdone := ht.fewer hs (f := .recvDone) ⟨rfl, rfl, rfl, nofun, id⟩ (le_refl _)
    exact (hdone.claimed (s := s.recvDone) (onStage_self hs .recvDone) hopen hstarted
      rfl).clearTask
  | @advanced a s hs hopen hrecv =>
    have hstarted := ht.started hs (Or.inl hrecv)
    have hdone := ht.fewer hs (f := .recvDone) ⟨rfl, rfl, rfl, nofun, id⟩ (le_refl _)
    exact hdone.gaveUp (s := s.recvDone) (onStage_self hs .recvDone) hopen
      hstarted
  | timerDone hs => exact ht.fewer hs ⟨rfl, rfl, rfl, id, nofun⟩ (le_refl _)
  | @timedOut a s hs hopen htimer =>
    have hstarted := ht.started hs (Or.inr htimer)
    have hdone := ht.fewer hs (f := .timerDone) ⟨rfl, rfl, rfl, id, nofun⟩ (le_refl _)
    exact hdone.gaveUp (s := s.timerDone) (onStage_self hs .timerDone) hopen
      hstarted
  | @looped a s hs hloop message =>
    obtain ⟨hone, hwon⟩ := ht.loop a s hs hloop
    have hcalm : s.Calmer s.loopDone := ⟨rfl, rfl, rfl, id, id⟩
    have hdone := ht.fewer hs (f := .loopDone) hcalm (Nat.sub_le _ _)
    refine hdone.speaks (onStage_self hs .loopDone) (hwon.calm hcalm) ?_ message
    show s.loopPending - 1 = 0
    omega
  | loopDone hs _ _ => exact ht.fewer hs ⟨rfl, rfl, rfl, id, id⟩ (Nat.sub_le _ _)

/-! ## One step -/

/-- A move passes at most one message on, that of the receive that completes. -/
theorem Moves.messages {e : Event} (hm : Moves p e q) :
    q.messages = p.messages ∨ ∃ a data, q.messages = p.messages ++ [(a, data)] ∧
      (e = .received a (some data) ∨ e = .loopReceived a (some data)) := by
  cases hm with
  | quiet | opened | skipped | started | recvDone | failed | advanced | timerDone | timedOut
    | loopDone => exact Or.inl rfl
  | @received a s _ _ message =>
    rw [receiveLoop_messages]
    cases message with
    | none => exact Or.inl (List.append_nil _)
    | some data => exact Or.inr ⟨a, data, rfl, Or.inl rfl⟩
  | @looped a s _ _ message =>
    rw [receiveLoop_messages]
    cases message with
    | none => exact Or.inl (List.append_nil _)
    | some data => exact Or.inr ⟨a, data, rfl, Or.inr rfl⟩

/-- Nothing is tried but what is about to be. -/
theorem Moves.tried {e : Event} (hm : Moves p e q) : q.tried = p.tried ∨ p.entering ≠ [] := by
  cases hm with
  | quiet | started | recvDone | failed | advanced | timerDone | timedOut | loopDone =>
    exact Or.inl rfl
  | opened hk =>
    right
    rintro hnone
    rw [hnone] at hk
    cases hk
  | skipped hk =>
    right
    rintro hnone
    rw [hnone] at hk
    cases hk
  | received => exact Or.inl (receiveLoop_tried _)
  | looped => exact Or.inl (receiveLoop_tried _)

theorem onStage_loops {a b : ℕ} {f : Stage → Stage} {u v : Stage} (hu : p.stages[b]? = some u)
    (hv : (p.onStage a f).stages[b]? = some v) (hf : ∀ s, (f s).loopPending ≤ s.loopPending) :
    v.loopPending ≤ u.loopPending := by
  obtain ⟨u₀, hu₀, rfl⟩ := onStage_getElem? hv
  obtain rfl := Option.some.inj (hu.symm.trans hu₀)
  split_ifs
  · exact hf u
  · exact le_refl _

/-- Only a receive that completes with success starts another one, and on the
current task. -/
theorem Moves.loops {e : Event} (hm : Moves p e q)
    (hno : ∀ a message,
      (e = .received a message → p.task = none) ∧ e ≠ .loopReceived a message)
    {b : ℕ} {u v : Stage}
    (hu : p.stages[b]? = some u) (hv : q.stages[b]? = some v) : v.loopPending ≤ u.loopPending := by
  have hsame (h : p.stages[b]? = some v) : v.loopPending ≤ u.loopPending := by
    rw [Option.some.inj (hu.symm.trans h)]
  have htwice {a : ℕ} (f g : Stage → Stage) (hle : ∀ s, (g (f s)).loopPending ≤ s.loopPending)
      (h : ((p.onStage a f).onStage a g).stages[b]? = some v) : v.loopPending ≤ u.loopPending := by
    rw [onStage_onStage] at h
    exact onStage_loops hu h hle
  cases hm with
  | quiet => exact hsame hv
  | opened =>
    refine hsame ?_
    have hlt : b < p.stages.length := (List.getElem?_eq_some_iff.mp hu).1
    rwa [show (p.stages ++ [_])[b]? = p.stages[b]? from List.getElem?_append_left hlt] at hv
  | skipped => exact hsame hv
  | started => exact onStage_loops hu hv fun _ => le_refl _
  | @received a _ _ _ message =>
    have htask : ((p.onStage a fun s => s.recvDone.claim).deliver a message).task = none :=
      (hno a message).1 rfl
    unfold Progress.receiveLoop at hv
    rw [htask] at hv
    exact onStage_loops hu hv fun _ => le_refl _
  | recvDone => exact onStage_loops hu hv fun _ => le_refl _
  | failed => exact htwice .recvDone .claim (fun _ => le_refl _) hv
  | advanced => exact htwice .recvDone .claim (fun _ => le_refl _) hv
  | timerDone => exact onStage_loops hu hv fun _ => le_refl _
  | timedOut => exact htwice .timerDone .claim (fun _ => le_refl _) hv
  | @looped a _ _ _ message => exact absurd rfl (hno a message).2
  | loopDone => exact onStage_loops hu hv fun _ => Nat.sub_le _ _

/-- An attempt with its first receive outstanding. -/
theorem Moves.first {a : ℕ} {message : Option Bytes} (hm : Moves p (.received a message) q) :
    ∃ s, p.stages[a]? = some s ∧ s.recvPending = true := by
  cases hm with
  | quiet _ he => exact absurd rfl (he a message).1
  | received hs hrecv => exact ⟨_, hs, hrecv⟩
  | loopDone _ _ he => rcases he with ⟨_, he⟩ | he <;> cases he

/-- A first receive that passes nothing on and starts no receive brings nothing,
while there is no task. -/
theorem Moves.silent (ht : Tracked p) {a : ℕ} {message : Option Bytes}
    (hm : Moves p (.received a message) q) (hmessages : q.messages = p.messages)
    (hloops : ∀ (b : ℕ) (u v : Stage), p.stages[b]? = some u → q.stages[b]? = some v →
      v.loopPending ≤ u.loopPending) : message = none ∧ p.task = none := by
  cases hm with
  | quiet _ he => exact absurd rfl (he a message).1
  | @received a s hs hrecv =>
    refine ⟨?_, ?_⟩
    · rw [receiveLoop_messages] at hmessages
      cases message with
      | none => rfl
      | some data => exact absurd (List.append_right_eq_self.mp hmessages) nofun
    · by_contra hne
      obtain ⟨b, hb⟩ := Option.ne_none_iff_exists'.mp hne
      obtain ⟨u, hu⟩ : ∃ u, p.stages[b]? = some u :=
        ⟨_, List.getElem?_eq_getElem (ht.task_lt b hb)⟩
      have hmid := onStage_of_some hu (a := a) fun s => s.recvDone.claim
      have hv := onStage_self hmid .loopMore
      have hsame : ((p.onStage a fun s => s.recvDone.claim).deliver a message).receiveLoop =
          (((p.onStage a fun s => s.recvDone.claim).deliver a message).onStage b .loopMore) := by
        unfold Progress.receiveLoop
        rw [show ((p.onStage a _).deliver a message).task = some b from hb]
      have hle := hloops b u _ hu (by rw [hsame]; exact hv)
      have hgrown : (Stage.loopMore (if a = b then u.recvDone.claim else u)).loopPending =
          u.loopPending + 1 := by
        split_ifs <;> rfl
      omega
  | loopDone _ _ he => rcases he with ⟨_, he⟩ | he <;> cases he

/-- An attempt with a receive of the loop outstanding. -/
theorem Moves.loopReceived {a : ℕ} {message : Option Bytes}
    (hm : Moves p (.loopReceived a message) q) :
    ∃ s, p.stages[a]? = some s ∧ 0 < s.loopPending := by
  cases hm with
  | quiet _ he => exact absurd rfl (he a message).2
  | looped hs hloop => exact ⟨_, hs, hloop⟩
  | loopDone hs hloop he =>
    rcases he with ⟨m, he⟩ | he
    · obtain ⟨rfl, -⟩ := Event.loopReceived.inj he
      exact ⟨_, hs, hloop⟩
    · cases he

/-- The last attempt is not abandoned. -/
theorem Linear.not_abandoned (hl : Linear p) {index : ℕ} (hentering : p.entering = [])
    (hindex : index + 1 = p.tried.length) : ¬ (index + 1 ∈ p.entering ∨ index + 1 ∈ p.tried) := by
  rintro (h | h)
  · rw [hentering] at h
    cases h
  · rw [hl.tried, List.mem_range] at h
    omega

/-- What was passed on came from one attempt. -/
theorem Tracked.one_sender (ht : Tracked p) {m m' : ℕ × Bytes} (hm : m ∈ p.messages)
    (hm' : m' ∈ p.messages) : m'.1 = m.1 := by
  obtain ⟨s, -, hwon⟩ := ht.message m hm
  obtain ⟨s', -, hwon'⟩ := ht.message m' hm'
  exact hwon'.unique hwon

/-- An attempt whose receive completes with a message is the last one, and either
nothing is decided yet or it has won. -/
theorem Moves.speaker {e : Event} (ht : Tracked p) (hm : Moves p e q)
    (hon : p.Timely e)
    {a : ℕ} {data : Bytes} (he : e = .received a (some data) ∨ e = .loopReceived a (some data)) :
    ∃ s, p.stages[a]? = some s ∧ p.entering = [] ∧ s.index + 1 = p.tried.length ∧
      (Undecided p ∨ Won p a s) := by
  rcases he with rfl | rfl
  · obtain ⟨s, hs, -⟩ := hm.first
    have hopen := (hon a (some data) s rfl hs).resolve_right nofun
    obtain ⟨hentering, -, hindex⟩ := ht.linear.open_last a s hs hopen
    exact ⟨s, hs, hentering, hindex, Or.inl (ht.undecided_of_open hs hopen)⟩
  · obtain ⟨s, hs, hpos⟩ := hm.loopReceived
    obtain ⟨-, hwon⟩ := ht.loop a s hs hpos
    exact ⟨s, hs, hwon.entering, hwon.index, Or.inr hwon⟩

/-- An abandoned attempt passes nothing on and starts no receive loop. -/
theorem Moves.abandoned {e : Event} (ht : Tracked p) (hm : Moves p e q)
    (hon : p.Timely e)
    {a : ℕ} {s : Stage} (he : e.attempt? = some a) (hs : p.stages[a]? = some s)
    (hgone : s.index + 1 ∈ p.entering ∨ s.index + 1 ∈ p.tried) :
    q.messages = p.messages ∧ ∀ (b : ℕ) (u v : Stage),
      p.stages[b]? = some u → q.stages[b]? = some v → v.loopPending ≤ u.loopPending := by
  have hlast {t : Stage} (ht' : p.stages[a]? = some t) (hentering : p.entering = [])
      (hindex : t.index + 1 = p.tried.length) : False := by
    obtain rfl := Option.some.inj (hs.symm.trans ht')
    exact ht.linear.not_abandoned hentering hindex hgone
  refine ⟨?_, ?_⟩
  · rcases hm.messages with hsame | ⟨b, data, -, hcases⟩
    · exact hsame
    · obtain rfl : a = b := by
        rcases hcases with rfl | rfl <;> exact (Option.some.inj he).symm
      obtain ⟨t, ht', hentering, hindex, -⟩ := hm.speaker ht hon hcases
      exact (hlast ht' hentering hindex).elim
  · intro b u v hu hv
    refine hm.loops (fun a' message => ⟨?_, ?_⟩) hu hv
    · rintro rfl
      obtain rfl := Option.some.inj he
      rcases hon a' message s rfl hs with hopen | ⟨-, htask⟩
      · obtain ⟨hentering, -, hindex⟩ := ht.linear.open_last a' s hs hopen
        exact (hlast hs hentering hindex).elim
      · exact htask
    · rintro rfl
      obtain rfl := Option.some.inj he
      obtain ⟨t, ht', hpos⟩ := hm.loopReceived
      obtain ⟨-, hwon⟩ := ht.loop a' t ht' hpos
      exact hlast ht' hwon.entering hwon.index

/-- After a first message no endpoint is tried, and no other task speaks. -/
theorem Moves.winner {e : Event} (ht : Tracked p) (hm : Moves p e q)
    (hon : p.Timely e)
    {m : ℕ × Bytes} (hmem : m ∈ p.messages) :
    q.tried = p.tried ∧ ∀ m' ∈ q.messages, m'.1 = m.1 := by
  obtain ⟨s, hs, hwon⟩ := ht.message m hmem
  refine ⟨hm.tried.resolve_right (absurd hwon.entering), ?_⟩
  intro m' hmem'
  rcases hm.messages with hsame | ⟨a, data, hnew, hcases⟩
  · rw [hsame] at hmem'
    exact ht.one_sender hmem hmem'
  · rw [hnew] at hmem'
    rcases List.mem_append.mp hmem' with hold | hlast
    · exact ht.one_sender hmem hold
    · obtain rfl := List.mem_singleton.mp hlast
      obtain ⟨s', -, -, -, hdecided⟩ := hm.speaker ht hon hcases
      rcases hdecided with hundecided | hwon'
      · rw [hundecided.messages] at hmem
        cases hmem
      · exact hwon'.unique hwon

end

section

variable {c d : Client} {e : Event}

theorem attempt_of_stage {a : ℕ} {s : Stage} (hs : c.progress.stages[a]? = some s) :
    ∃ t, c.attempts[a]? = some t ∧ t.stage = s := by
  have hs' : (c.attempts.map Attempt.stage)[a]? = some s := hs
  rw [List.getElem?_map] at hs'
  exact Option.map_eq_some_iff.mp hs'

/-- `OnTime`, read off the course of the cascade. -/
theorem OnTime.timely (hon : OnTime c e) : c.progress.Timely e := by
  intro a message s he hs
  subst he
  obtain ⟨t, ht, rfl⟩ := attempt_of_stage hs
  exact hon t ht

/-- No attempt has two receives outstanding. -/
theorem Tracked.receives_le (ht : Tracked c.progress) {t : Attempt} (hmem : t ∈ c.attempts) :
    t.receives ≤ 1 := by
  obtain ⟨a, ha⟩ := List.mem_iff_getElem?.mp hmem
  unfold Attempt.receives
  by_cases hpos : 0 < t.loopPending
  · obtain ⟨hone, hwon⟩ := ht.loop a t.stage (stages_getElem? ha) hpos
    have hrecv : t.recvPending = false := hwon.recvDone
    have hone' : t.loopPending = 1 := hone
    rw [hrecv, hone']
    exact le_refl _
  · have := t.recvPending.toNat_le
    omega

/-- A step that is on time has one winner. -/
theorem oneWins_of_onTime (ht : Tracked c.progress) (hm : Moves c.progress e d.progress)
    (hon : OnTime c e) : OneWins c e d := by
  have ht' : Tracked d.progress := ht.move hm hon.timely
  refine ⟨?_, ?_, hm.messages, ?_⟩
  · intro a t he hat hgone
    obtain ⟨hmessages, hloops⟩ := hm.abandoned ht hon.timely he (stages_getElem? hat) hgone
    refine ⟨hmessages, ?_⟩
    intro b u v hu hv
    exact hloops b u.stage v.stage (stages_getElem? hu) (stages_getElem? hv)
  · intro m hmem
    exact hm.winner ht hon.timely hmem
  · intro t hmem
    exact ht'.receives_le hmem

/-- A step with one winner is on time. -/
theorem onTime_of_oneWins (ht : Tracked c.progress) (hm : Moves c.progress e d.progress)
    (hwins : OneWins c e d) : OnTime c e := by
  cases e with
  | received a message =>
    intro t hat
    have hs := stages_getElem? hat
    by_cases hclaimed : t.claimed = true
    · right
      obtain ⟨s, hs', hrecv⟩ := hm.first
      obtain rfl := Option.some.inj (hs.symm.trans hs')
      have hgone : c.Abandoned t := ht.gone t.stage (List.mem_of_getElem? hs) hclaimed hrecv
      obtain ⟨hmessages, hloops⟩ := hwins.abandoned a t rfl hat hgone
      refine hm.silent ht hmessages fun b u v hu hv => ?_
      obtain ⟨u', hu', rfl⟩ := attempt_of_stage hu
      obtain ⟨v', hv', rfl⟩ := attempt_of_stage hv
      exact hloops b u' v' hu' hv'
    · exact Or.inl (eq_false_of_ne_true hclaimed)
  | enter | start | initSent | receiveFailed | timer | loopReceived | loopFailed | send | close
    | release => trivial

end

/-! ## Runs -/

theorem tracked_first (n : ℕ) : Tracked ⟨[Stage.first n], List.range (n + 1), [], [], some 0⟩ := by
  have hmem {s : Stage} (hs : s ∈ [Stage.first n]) : s = Stage.first n := List.mem_singleton.mp hs
  refine Undecided.tracked (linear_first n) ?_ ?_ ?_ ?_ ⟨rfl, ?_⟩
  · intro s hs hnew
    obtain rfl := hmem hs
    cases hnew
  · intro s hs hclaimed
    obtain rfl := hmem hs
    cases hclaimed
  · intro a ha
    obtain rfl := Option.some.inj ha
    exact Nat.one_pos
  · intro a s hs _
    obtain ⟨rfl, -⟩ := stage_of_singleton hs
    exact Or.inl rfl
  · intro s hs
    obtain rfl := hmem hs
    rfl

theorem tracked_connect (urlOk : String → Bool) (endpoints : List Endpoint) (initFrame : Bytes) :
    Tracked (Client.connect urlOk endpoints initFrame).progress := by
  have hl := linear_connect urlOk endpoints initFrame
  obtain ⟨n, h | h⟩ := connect_progress urlOk endpoints initFrame
  · rw [h] at hl ⊢
    exact ⟨hl, nofun, nofun, nofun, nofun, nofun, nofun⟩
  · rw [h]
    exact tracked_first n

/-- Every step of a run has one winner. -/
abbrev EveryWin (urlOk : String → Bool) (late : Bool) : Client → List Event → Prop :=
  EveryStep (Client.step urlOk late) fun c e =>
    ∀ d, c.step urlOk late e = some d → OneWins c e d

/-- Every step of a run has one winner exactly when no receive of a claimed
attempt completes with success, where it brings anything or there is a task. -/
theorem oneWins_iff (urlOk : String → Bool) (late : Bool) (endpoints : List Endpoint)
    (initFrame : Bytes) (events : List Event) :
    EveryWin urlOk late (Client.connect urlOk endpoints initFrame) events ↔
      EveryStep (Client.step urlOk late) OnTime (Client.connect urlOk endpoints initFrame)
        events := by
  refine everyStep_iff_everyStep (I := fun c => Tracked c.progress) ?_ ?_ events _
    (tracked_connect urlOk endpoints initFrame)
  · intro c e d ht hstep
    have hm := step_moves hstep
    refine ⟨fun h => onTime_of_oneWins ht hm (h d hstep), fun hon d' hd' => ?_⟩
    exact oneWins_of_onTime ht (step_moves hd') hon
  · intro c e d ht hon hstep
    exact ht.move (step_moves hstep) hon.timely

/-- Two endpoints. The timer of the first gives it up, then a message of its
task arrives, is passed on, and starts a receive on the second task. -/
theorem late_message :
    ¬ ∀ (urlOk : String → Bool) (late : Bool) (endpoints : List Endpoint) (initFrame : Bytes)
      (events : List Event),
      EveryWin urlOk late (Client.connect urlOk endpoints initFrame) events := by
  intro h
  have hrun := h (fun _ => true) true [⟨"149.154.167.220", none⟩, ⟨"149.154.175.205", none⟩]
    (List.replicate 64 0x11) [.timer 0, .enter 0, .start 1, .received 0 (some [1, 2])]
  rw [Client.connect, tryConnect_ok _ rfl rfl] at hrun
  obtain ⟨-, hrun⟩ := hrun _ rfl
  obtain ⟨-, hrun⟩ := hrun _ rfl
  obtain ⟨-, hrun⟩ := hrun _ rfl
  obtain ⟨hwins, -⟩ := hrun _ rfl
  have hsame := ((hwins _ rfl).abandoned 0 _ rfl rfl (Or.inr (by decide))).1
  revert hsame
  decide

end WSBridge.Cascade
