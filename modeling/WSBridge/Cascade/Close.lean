import WSBridge.Foundation.Runs
import WSBridge.Cascade.WSClient

/-!
# What a closed client still does

`close()` cancels the current task and clears `task`. The callbacks of the
attempts made so far stay outstanding, and none of them asks whether the client
has been closed.

Results:
* `quiet_iff_settled`: nothing more is seen of a client, in whatever order its
  outstanding callbacks run, exactly when it is `Settled`.
* `closed_quiet_iff`: a closed client does nothing more, in whatever order its
  outstanding callbacks run, exactly when it was `Settled`.
* `close_not_quiet`: a client that is closed before its first task answers goes
  on to the next endpoint and bans the first one.
-/

namespace WSBridge.Cascade

open WSBridge.Foundation
open Client (callback_eq_some)

/-- What can be seen of a client: for each task it has created, how often the
init frame was queued on it; the hosts it has banned; the `onMessage` and
`onClose` calls it has made. -/
structure Observed where
  inits : List ℕ
  marked : List String
  messages : List (ℕ × Bytes)
  closes : ℕ
  deriving DecidableEq

/-- The init frames on the attempt's task. -/
def Attempt.inits (t : Attempt) : ℕ :=
  t.frames.countP fun | .init _ => true | .data _ _ => false

/-- What can be seen of a client now. -/
def Client.observed (c : Client) : Observed :=
  ⟨c.attempts.map Attempt.inits, c.marked, c.messages, c.closes⟩

/-- No outstanding callback does anything but end. -/
structure Settled (c : Client) : Prop where
  entering : c.entering = []
  started : ∀ t ∈ c.attempts, t.started = true
  receive : ∀ t ∈ c.attempts, t.recvPending = true →
    t.cancelled = true ∧ t.claimed = true ∧ c.firstRecv = true
  loop : c.alive = true → ∀ t ∈ c.attempts, t.loopPending = 0
  timer : ∀ t ∈ c.attempts, t.timerPending = true → t.delivered = true ∨ t.claimed = true

/-! ## A settled client stays quiet -/

/-- `u` waits for no more than `t`, and its flags are set where those of `t` are. -/
structure Attempt.Calmer (t u : Attempt) : Prop where
  inits : u.inits = t.inits
  started : u.started = t.started
  cancelled : t.cancelled = true → u.cancelled = true
  claimed : t.claimed = true → u.claimed = true
  delivered : t.delivered = true → u.delivered = true
  initPending : u.initPending = true → t.initPending = true
  recvPending : u.recvPending = true → t.recvPending = true
  timerPending : u.timerPending = true → t.timerPending = true
  loopPending : u.loopPending ≤ t.loopPending

theorem Attempt.Calmer.holds {t u : Attempt} (h : t.Calmer u) (hu : u.holds = true) :
    t.holds = true := by
  simp only [Attempt.holds, Bool.or_eq_true, h.started] at hu ⊢
  exact hu.imp (Or.imp (Or.imp id h.initPending) h.recvPending) h.timerPending

section

variable {c : Client} {f : Attempt → Attempt} (hf : ∀ t : Attempt, t.Calmer (f t))

include hf

theorem alive_onAttempt {a : ℕ} (h : (c.onAttempt a f).alive = true) : c.alive = true := by
  simp only [Client.alive, Bool.or_eq_true, List.any_eq_true] at h ⊢
  refine h.imp_right ?_
  rintro ⟨t, ht, hold⟩
  rcases mem_modify ht with ht | ⟨u, hu, rfl⟩
  · exact ⟨t, ht, hold⟩
  · exact ⟨u, List.mem_of_getElem? hu, (hf u).holds hold⟩

theorem Settled.onAttempt (hs : Settled c) (a : ℕ) : Settled (c.onAttempt a f) := by
  refine ⟨hs.entering, ?_, ?_, ?_, ?_⟩
  · intro t ht
    rcases mem_modify ht with ht | ⟨u, hu, rfl⟩
    · exact hs.started t ht
    · exact (hf u).started.trans (hs.started u (List.mem_of_getElem? hu))
  · intro t ht hrecv
    rcases mem_modify ht with ht | ⟨u, hu, rfl⟩
    · exact hs.receive t ht hrecv
    · have := hs.receive u (List.mem_of_getElem? hu) ((hf u).recvPending hrecv)
      exact ⟨(hf u).cancelled this.1, (hf u).claimed this.2.1, this.2.2⟩
  · intro halive t ht
    have hloop := hs.loop (alive_onAttempt hf halive)
    rcases mem_modify ht with ht | ⟨u, hu, rfl⟩
    · exact hloop t ht
    · exact Nat.le_zero.mp ((hf u).loopPending.trans (hloop u (List.mem_of_getElem? hu)).le)
  · intro t ht htimer
    rcases mem_modify ht with ht | ⟨u, hu, rfl⟩
    · exact hs.timer t ht htimer
    · have := hs.timer u (List.mem_of_getElem? hu) ((hf u).timerPending htimer)
      exact this.imp (hf u).delivered (hf u).claimed

theorem observed_onAttempt (c : Client) (a : ℕ) : (c.onAttempt a f).observed = c.observed := by
  have h := c.onAttempt_map a Attempt.inits id fun t => (hf t).inits
  rw [List.modify_id] at h
  exact congrArg (Observed.mk · c.marked c.messages c.closes) h

end

theorem calmer_initSent (ok : Bool) (t : Attempt) :
    t.Calmer { t with initPending := false, delivered := t.delivered || ok } :=
  ⟨rfl, rfl, id, id, fun h => Bool.or_eq_true_iff.mpr (Or.inl h), nofun, id, id, le_refl _⟩

theorem calmer_recvDone (t : Attempt) : t.Calmer { t with recvPending := false } :=
  ⟨rfl, rfl, id, id, id, id, nofun, id, le_refl _⟩

theorem calmer_timerDone (t : Attempt) : t.Calmer { t with timerPending := false } :=
  ⟨rfl, rfl, id, id, id, id, id, nofun, le_refl _⟩

theorem calmer_loopDone (t : Attempt) : t.Calmer { t with loopPending := t.loopPending - 1 } :=
  ⟨rfl, rfl, id, id, id, id, id, id, Nat.sub_le _ _⟩

theorem calmer_cancel (t : Attempt) : t.Calmer { t with cancelled := true } :=
  ⟨rfl, rfl, fun _ => rfl, id, id, id, id, id, le_refl _⟩

theorem calmer_data (seq : ℕ) (data : Bytes) (t : Attempt) :
    t.Calmer { t with frames := t.frames ++ [.data seq data] } := by
  refine ⟨?_, rfl, id, id, id, id, id, id, le_refl _⟩
  simp [Attempt.inits]

/-- `d` is settled and has done nothing since `c`. -/
def StillQuiet (c d : Client) : Prop := Settled d ∧ d.observed = c.observed

theorem quiet_onAttempt {c : Client} (hs : Settled c) {f : Attempt → Attempt}
    (hf : ∀ t : Attempt, t.Calmer (f t)) (a : ℕ) : StillQuiet c (c.onAttempt a f) :=
  ⟨hs.onAttempt hf a, observed_onAttempt hf c a⟩

theorem quiet_onTask {c : Client} (hs : Settled c) {f : Attempt → Attempt}
    (hf : ∀ t : Attempt, t.Calmer (f t)) : StillQuiet c (c.onTask f) :=
  c.onTask_rule f ⟨hs, rfl⟩ fun a => quiet_onAttempt hs hf a

theorem StillQuiet.setFlags {c d : Client} (h : StillQuiet c d) (connected upPosted : Bool)
    (task : Option ℕ) (frames : List Frame) :
    StillQuiet c { d with connected, upPosted, task, frames } :=
  ⟨⟨h.1.entering, h.1.started, h.1.receive, h.1.loop, h.1.timer⟩, h.2⟩

theorem quiet_release {c : Client} (hs : Settled c) : StillQuiet c c.release := by
  refine ⟨⟨hs.entering, hs.started, hs.receive, fun h => hs.loop ?_, hs.timer⟩, rfl⟩
  simp only [Client.alive, Client.release, Bool.or_eq_true] at h ⊢
  exact h.imp_left (Or.imp_left nofun)

/-- One more event leaves a settled client settled, and nothing is seen of it. -/
theorem settled_step {urlOk : String → Bool} {c d : Client} {e : Event} (hs : Settled c)
    (h : c.step urlOk false e = some d) : StillQuiet c d := by
  cases Client.effect_of_step h with
  | enter k index hk =>
    rw [hs.entering, List.getElem?_nil] at hk
    cases hk
  | start a t ht hnew =>
    rw [hs.started t (List.mem_of_getElem? ht)] at hnew
    cases hnew
  | initSent a ok =>
    have hq := quiet_onAttempt hs (calmer_initSent ok) a
    show StillQuiet c (if _ then _ else _)
    split_ifs
    · exact hq.setFlags _ true _ _
    · exact hq
  | received a message t ht hp hcan =>
    have hcancelled := (hs.receive t (List.mem_of_getElem? ht) hp).1
    simp [Attempt.canReceive, hcancelled] at hcan
  | receiveFailed a t ht hp =>
    obtain ⟨-, hclaimed, hfirst⟩ := hs.receive t (List.mem_of_getElem? ht) hp
    show StillQuiet c (if c.firstRecv = true then _ else _)
    rw [if_pos hfirst, Client.fail, if_pos hclaimed]
    exact quiet_onAttempt hs calmer_recvDone a
  | timer a t ht hp =>
    show StillQuiet c (if _ then _ else _)
    rw [if_pos (hs.timer t (List.mem_of_getElem? ht) hp)]
    exact quiet_onAttempt hs calmer_timerDone a
  | loopReceived a message t ht hp =>
    unfold Client.loopReceived
    split_ifs with halive
    · exact absurd (hs.loop halive t (List.mem_of_getElem? ht)) hp.ne'
    · exact quiet_onAttempt hs calmer_loopDone a
  | loopFailed a t ht hp =>
    unfold Client.loopFailed
    split_ifs with halive
    · exact absurd (hs.loop halive t (List.mem_of_getElem? ht)) hp.ne'
    · exact quiet_onAttempt hs calmer_loopDone a
  | send data => exact (quiet_onTask hs (calmer_data _ data)).setFlags _ _ _ _
  | close => exact (quiet_onTask hs calmer_cancel).setFlags false _ none _
  | release => exact quiet_release hs

theorem settled_run {urlOk : String → Bool} {c d : Client} (hs : Settled c) {events : List Event}
    (h : run (Client.step urlOk false) c events = some d) : d.observed = c.observed := by
  have hinv : ∀ s e t, StillQuiet c s → Client.step urlOk false s e = some t → StillQuiet c t := by
    intro s e t hq hstep
    have := settled_step hq.1 hstep
    exact ⟨this.1, this.2.trans hq.2⟩
  exact (invariant_run hinv events c d ⟨hs, rfl⟩ h).2

/-! ## A client that stays quiet is settled -/

/-- Nothing is seen of the client in any order of the events to come. -/
def Quiet (urlOk : String → Bool) (c : Client) : Prop :=
  ∀ events d, run (Client.step urlOk false) c events = some d → d.observed = c.observed

section

variable {urlOk : String → Bool} {c : Client}

theorem Quiet.step (hq : Quiet urlOk c) {e : Event} {d : Client}
    (h : c.step urlOk false e = some d) : d.observed = c.observed :=
  hq [e] d (by rw [run, h]; rfl)

theorem Quiet.callback (hq : Quiet urlOk c) {e : Event} {a : ℕ} {t : Attempt}
    {p : Attempt → Bool} {f : Attempt → Client} (hstep : c.step urlOk false e = c.callback a p f)
    (ht : c.attempts[a]? = some t) (hp : p t = true) : (f t).observed = c.observed :=
  hq.step (hstep.trans (callback_eq_some.mpr ⟨t, ht, hp, rfl⟩))

theorem Quiet.next (hq : Quiet urlOk c) {e : Event} {d : Client}
    (h : c.step urlOk false e = some d) : Quiet urlOk d := by
  intro events f hrun
  have hf := hq (e :: events) f (run_cons_eq_some.mpr ⟨d, h, hrun⟩)
  exact hf.trans (hq.step h).symm

/-- An activation of `tryConnect` ends in a new task or in `onClose`. -/
theorem not_quiet_of_entering {n k index : ℕ} (hk : c.entering[k]? = some index)
    (hn : c.endpoints.length ≤ index + n) : ¬ Quiet urlOk c := by
  induction n generalizing c k index with
  | zero =>
    intro hq
    have hnone : c.endpoints[index]? = none := List.getElem?_eq_none hn
    have hstep : c.step urlOk false (.enter k) =
        some (({ c with entering := c.entering.eraseIdx k }).exhausted index) := by
      simp only [Client.step, hk, Client.tryEnter, hnone]
    have hcloses := congrArg Observed.closes (hq.step hstep)
    exact Nat.succ_ne_self c.closes hcloses
  | succ n ih =>
    intro hq
    have hstep : c.step urlOk false (.enter k) =
        some (({ c with entering := c.entering.eraseIdx k }).tryEnter urlOk index) := by
      simp only [Client.step, hk]
    unfold Client.tryEnter at hstep
    split at hstep
    · have hcloses := congrArg Observed.closes (hq.step hstep)
      exact Nat.succ_ne_self c.closes hcloses
    · split_ifs at hstep with hok
      · have hinits := congrArg (List.length ∘ Observed.inits) (hq.step hstep)
        simp [Client.observed, Client.openTask] at hinits
      · have hlast : (c.entering.eraseIdx k ++ [index + 1])[(c.entering.eraseIdx k).length]? =
            some (index + 1) := List.getElem?_concat_length
        refine ih hlast ?_ (hq.next hstep)
        show c.endpoints.length ≤ index + 1 + n
        omega

theorem length_ne_concat {α : Type*} (l : List α) (x : α) : l ++ [x] ≠ l := by
  intro h
  have := congrArg List.length h
  simp at this

theorem onTask_messages (c : Client) (f : Attempt → Attempt) :
    (c.onTask f).messages = c.messages :=
  c.onTask_rule f (R := fun d => d.messages = c.messages) rfl fun _ => rfl

theorem advance_marked (c : Client) (a : ℕ) (t : Attempt) : (c.advance a t).marked = c.marked := by
  unfold Client.advance
  split_ifs <;> rfl

theorem receiveFailed_marked {a : ℕ} {t : Attempt} (h : ¬ c.firstRecv = true) :
    (c.receiveFailed a t).marked = c.marked ++ [t.host] := by
  show (if c.firstRecv = true then _ else _ : Client).marked = _
  rw [if_neg h]
  exact advance_marked _ a t

theorem receiveFailed_closes {a : ℕ} {t : Attempt} (h : c.firstRecv = true)
    (hopen : ¬ t.claimed = true) : (c.receiveFailed a t).closes = c.closes + 1 := by
  show (if c.firstRecv = true then _ else _ : Client).closes = _
  rw [if_pos h, Client.fail, if_neg hopen]
  rfl

theorem timer_marked {a : ℕ} {t : Attempt} (h : ¬ (t.delivered = true ∨ t.claimed = true)) :
    (c.timer a t).marked = c.marked ++ [t.host] := by
  show (if _ then _ else _ : Client).marked = _
  rw [if_neg h]
  rfl

theorem Quiet.started (hq : Quiet urlOk c) {a : ℕ} {t : Attempt} (ha : c.attempts[a]? = some t) :
    t.started = true := by
  by_contra hnew
  have hseen := hq.callback (e := .start a) rfl ha (by simpa using hnew)
  have hinits := congrArg (·.inits[a]?) hseen
  simp [Client.observed, Client.startTask, Client.onAttempt, ha, Attempt.inits] at hinits

theorem Quiet.receive (hq : Quiet urlOk c) {a : ℕ} {t : Attempt} (ha : c.attempts[a]? = some t)
    (hrecv : t.recvPending = true) :
    t.cancelled = true ∧ t.claimed = true ∧ c.firstRecv = true := by
  have hfailed := hq.callback (e := .receiveFailed a) rfl ha hrecv
  have hfirst : c.firstRecv = true := by
    by_contra h
    have hmarked := congrArg Observed.marked hfailed
    exact length_ne_concat _ _ ((receiveFailed_marked h).symm.trans hmarked)
  refine ⟨?_, ?_, hfirst⟩
  · by_contra h
    have hp : (t.recvPending && t.canReceive false) = true := by
      simp [hrecv, Attempt.canReceive, eq_false_of_ne_true h]
    have hseen := hq.callback (e := .received a (some [])) rfl ha hp
    have hmessages := congrArg Observed.messages hseen
    exact length_ne_concat _ _ ((onTask_messages _ _).symm.trans hmessages)
  · by_contra h
    have hcloses := congrArg Observed.closes hfailed
    exact Nat.succ_ne_self _ ((receiveFailed_closes hfirst h).symm.trans hcloses)

theorem Quiet.loop (hq : Quiet urlOk c) (halive : c.alive = true) {a : ℕ} {t : Attempt}
    (ha : c.attempts[a]? = some t) : t.loopPending = 0 := by
  by_contra h
  have hseen := hq.callback (e := .loopFailed a) rfl ha (by simpa using Nat.pos_of_ne_zero h)
  rw [Client.loopFailed, if_pos halive] at hseen
  exact Nat.succ_ne_self c.closes (congrArg Observed.closes hseen)

theorem Quiet.timer (hq : Quiet urlOk c) {a : ℕ} {t : Attempt} (ha : c.attempts[a]? = some t)
    (htimer : t.timerPending = true) : t.delivered = true ∨ t.claimed = true := by
  by_contra h
  have hseen := hq.callback (e := .timer a) rfl ha htimer
  have hmarked := congrArg Observed.marked hseen
  exact length_ne_concat _ _ ((timer_marked h).symm.trans hmarked)

theorem Quiet.settled (hq : Quiet urlOk c) : Settled c := by
  have hattempt : ∀ t ∈ c.attempts, ∃ a, c.attempts[a]? = some t :=
    fun t ht => List.mem_iff_getElem?.mp ht
  refine ⟨?_, ?_, ?_, ?_, ?_⟩
  · by_contra hne
    obtain ⟨index, rest, hcons⟩ := List.exists_cons_of_ne_nil hne
    have hk : c.entering[0]? = some index := by rw [hcons]; rfl
    exact not_quiet_of_entering hk (Nat.le_add_left _ index) hq
  · intro t ht
    obtain ⟨a, ha⟩ := hattempt t ht
    exact hq.started ha
  · intro t ht
    obtain ⟨a, ha⟩ := hattempt t ht
    exact hq.receive ha
  · intro halive t ht
    obtain ⟨a, ha⟩ := hattempt t ht
    exact hq.loop halive ha
  · intro t ht
    obtain ⟨a, ha⟩ := hattempt t ht
    exact hq.timer ha

end

theorem quiet_iff_settled (urlOk : String → Bool) (c : Client) : Quiet urlOk c ↔ Settled c :=
  ⟨Quiet.settled, fun hs _ _ h => settled_run hs h⟩

/-- For every client and every order of the events after `close()`: no task is
created, no init frame sent, no host banned and no callback of the session
called exactly if the closed client was settled. -/
theorem closed_quiet_iff (urlOk : String → Bool) (c : Client) :
    (∀ events d, run (Client.step urlOk false) c.close events = some d →
      d.observed = c.close.observed) ↔ Settled c.close :=
  quiet_iff_settled urlOk c.close

/-- A client with two endpoints is closed before the first one answers. The
cancelled receive fails: the first host is banned, a task for the second one is
created and the init frame sent on it. -/
theorem close_not_quiet :
    ¬ ∀ (urlOk : String → Bool) (endpoints : List Endpoint) (initFrame : Bytes)
      (events later : List Event) (c d : Client),
      run (Client.step urlOk false) (Client.connect urlOk endpoints initFrame) events = some c →
        run (Client.step urlOk false) c.close later = some d → d.observed = c.close.observed := by
  intro h
  have hrun := h (fun _ => true) [⟨"149.154.167.220", none⟩, ⟨"149.154.175.205", none⟩]
    (List.replicate 64 0x11) [.send [1, 2]] [.receiveFailed 0, .enter 0, .start 1]
  rw [Client.connect, Client.tryConnect_ok _ rfl rfl] at hrun
  have hobserved := hrun _ _ rfl rfl
  revert hobserved
  decide

end WSBridge.Cascade
