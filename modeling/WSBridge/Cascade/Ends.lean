import WSBridge.Foundation.Runs
import WSBridge.Foundation.Tally
import WSBridge.Cascade.WSClient

/-!
# The ends of a cascade

`onClose` is called by a receive of the loop that fails, by an attempt that
fails after the first data, and by the entry into `tryConnect` that finds no
endpoint left. An attempt that nothing has claimed, an entry to come and an
outstanding receive of the loop are each one chance of an end, and one becomes
the other; only a first receive of a claimed attempt that starts a receive on
the current task adds a chance.

Results:
* `step_ends`: no other event adds one.
* `connect_ends`: a new cascade has one.
-/

namespace WSBridge.Cascade

open WSBridge.Foundation
open Client (tryConnect_none tryConnect_ok tryConnect_bad)

/-- What may still come of an attempt to end the cascade: its failure, as long
as nothing has claimed it, and the failure of a receive of the loop. -/
def Attempt.ends (t : Attempt) : ℕ := t.loopPending + (!t.claimed).toNat

/-- The calls of `onClose`, and what may still lead to one. -/
def Client.ends (c : Client) : ℕ := c.closes + c.entering.length + tally Attempt.ends c.attempts

/-- A first receive that completes with success starts no receive on a task that
is not its own: its attempt is not claimed yet, or there is no task. -/
def OwnTask (c : Client) : Event → Prop
  | .received a _ => ∀ t, c.attempts[a]? = some t → t.claimed = false ∨ c.task = none
  | _ => True

section

variable {c d : Client}

theorem onAttempt_ends {a : ℕ} {t : Attempt} (ht : c.attempts[a]? = some t)
    (f : Attempt → Attempt) :
    (c.onAttempt a f).ends + t.ends = c.ends + (f t).ends := by
  have hsum := tally_modify (g := Attempt.ends) ht f
  show c.closes + c.entering.length + tally Attempt.ends (c.attempts.modify a f) + t.ends =
    c.closes + c.entering.length + tally Attempt.ends c.attempts + (f t).ends
  omega

theorem onAttempt_ends_same (c : Client) (a : ℕ) {f : Attempt → Attempt}
    (h : ∀ t, (f t).ends = t.ends) : (c.onAttempt a f).ends = c.ends := by
  show c.closes + c.entering.length + tally Attempt.ends (c.attempts.modify a f) = _
  rw [tally_modify_same h]
  rfl

theorem onAttempt_self {a : ℕ} {t : Attempt} (ht : c.attempts[a]? = some t)
    (f : Attempt → Attempt) : (c.onAttempt a f).attempts[a]? = some (f t) := by
  show (c.attempts.modify a f)[a]? = _
  rw [List.getElem?_modify_eq, ht]
  rfl

theorem onTask_ends_same (c : Client) {f : Attempt → Attempt} (h : ∀ t, (f t).ends = t.ends) :
    (c.onTask f).ends = c.ends :=
  c.onTask_rule f (R := fun d => d.ends = c.ends) rfl fun a => onAttempt_ends_same c a h

/-- One more receive on the current task, if there is one. -/
theorem receiveLoop_tally {g : Attempt → ℕ}
    (hg : ∀ t, g { t with loopPending := t.loopPending + 1 } = g t + 1) (c : Client) :
    tally g c.receiveLoop.attempts ≤ tally g c.attempts + 1 := by
  unfold Client.receiveLoop Client.onTask
  split
  · rename_i b _
    show tally g (c.attempts.modify b fun t => { t with loopPending := t.loopPending + 1 }) ≤ _
    cases hb : c.attempts[b]? with
    | none =>
      rw [List.modify_eq_self (List.getElem?_eq_none_iff.mp hb)]
      exact Nat.le_succ _
    | some t =>
      have hsum := tally_modify (g := g) hb fun t => { t with loopPending := t.loopPending + 1 }
      rw [hg] at hsum
      omega
  · exact Nat.le_succ _

/-- A receive of the loop is over. -/
theorem loopDone_tally {g : Attempt → ℕ} {a : ℕ} {t : Attempt} (ht : c.attempts[a]? = some t)
    (hg : g { t with loopPending := t.loopPending - 1 } + 1 = g t) :
    tally g (c.loopDone a).attempts + 1 = tally g c.attempts := by
  have hsum := tally_modify (g := g) ht fun t => { t with loopPending := t.loopPending - 1 }
  show tally g (c.attempts.modify a fun t => { t with loopPending := t.loopPending - 1 }) + 1 = _
  omega

theorem receiveLoop_ends (c : Client) : c.receiveLoop.ends ≤ c.ends + 1 := by
  have hmore := receiveLoop_tally (g := Attempt.ends) (fun t => by
    unfold Attempt.ends
    dsimp only
    omega) c
  have hrest : c.receiveLoop.closes = c.closes ∧ c.receiveLoop.entering = c.entering :=
    c.onTask_rule _ (R := fun d => d.closes = c.closes ∧ d.entering = c.entering) ⟨rfl, rfl⟩
      fun _ => ⟨rfl, rfl⟩
  unfold Client.ends
  rw [hrest.1, hrest.2]
  omega

theorem receiveLoop_ends_of_none (h : c.task = none) : c.receiveLoop.ends = c.ends := by
  unfold Client.receiveLoop Client.onTask
  rw [h]

theorem deliver_ends (c : Client) (a : ℕ) (message : Option Bytes) :
    (c.deliver a message).ends = c.ends := by
  cases message <;> rfl

theorem deliver_task (c : Client) (a : ℕ) (message : Option Bytes) :
    (c.deliver a message).task = c.task := by
  cases message <;> rfl

theorem claim_tally {a : ℕ} {t : Attempt} (ht : c.attempts[a]? = some t)
    (hopen : t.claimed = false) :
    tally Attempt.ends (c.attempts.modify a ({ · with claimed := true })) + 1 =
      tally Attempt.ends c.attempts := by
  have hsum := tally_modify (g := Attempt.ends) ht ({ · with claimed := true })
  have hclaim : Attempt.ends { t with claimed := true } + 1 = t.ends := by
    unfold Attempt.ends
    rw [hopen]
    rfl
  omega

/-- An attempt that gives up leaves its chance to the next entry. -/
theorem giveUp_ends {a : ℕ} {t t' : Attempt} (ht : c.attempts[a]? = some t')
    (hopen : t'.claimed = false) : (c.giveUp a t).ends = c.ends := by
  have hclaim := claim_tally ht hopen
  show c.closes + (c.entering ++ [t.index + 1]).length +
      tally Attempt.ends (c.attempts.modify a ({ · with claimed := true })) =
    c.closes + c.entering.length + tally Attempt.ends c.attempts
  rw [List.length_append, List.length_singleton]
  omega

theorem advance_ends {a : ℕ} {t : Attempt} (ht : ∃ t', c.attempts[a]? = some t' ∧
    t'.claimed = t.claimed) : (c.advance a t).ends = c.ends := by
  obtain ⟨t', ht', hclaimed⟩ := ht
  unfold Client.advance
  split_ifs with h
  · rfl
  · exact giveUp_ends ht' (hclaimed.trans (eq_false_of_ne_true h))

theorem fail_ends {a : ℕ} {t : Attempt} (ht : ∃ t', c.attempts[a]? = some t' ∧
    t'.claimed = t.claimed) : (c.fail a t).ends = c.ends := by
  obtain ⟨t', ht', hclaimed⟩ := ht
  unfold Client.fail
  split_ifs with h
  · rfl
  · have hclaim := claim_tally ht' (hclaimed.trans (eq_false_of_ne_true h))
    show c.closes + 1 + c.entering.length +
        tally Attempt.ends (c.attempts.modify a ({ · with claimed := true })) =
      c.closes + c.entering.length + tally Attempt.ends c.attempts
    omega

theorem loopDone_ends {a : ℕ} {t : Attempt} (ht : c.attempts[a]? = some t)
    (hloop : 0 < t.loopPending) : (c.loopDone a).ends + 1 = c.ends := by
  have hless := loopDone_tally (g := Attempt.ends) ht (by
    unfold Attempt.ends
    dsimp only
    omega)
  show c.closes + c.entering.length + tally Attempt.ends (c.loopDone a).attempts + 1 =
    c.closes + c.entering.length + tally Attempt.ends c.attempts
  omega

/-- The first receive of an attempt that nothing has claimed, or while there is
no task. -/
theorem received_ends {a : ℕ} {t : Attempt} (ht : c.attempts[a]? = some t)
    (hown : t.claimed = false ∨ c.task = none) (message : Option Bytes) :
    (c.received a message).ends ≤ c.ends := by
  let f : Attempt → Attempt := fun t => { t with recvPending := false, claimed := true }
  let p : Client := { c.onAttempt a f with connected := true }
  have hsum : p.ends + t.ends = c.ends + (f t).ends := onAttempt_ends ht f
  have hdeliver := deliver_ends p a message
  show ((p.deliver a message).receiveLoop).ends ≤ c.ends
  by_cases htask : c.task = none
  · have hnone : (p.deliver a message).task = none := (deliver_task p a message).trans htask
    have hle : (f t).ends ≤ t.ends := by
      show t.loopPending + 0 ≤ t.loopPending + _
      omega
    rw [receiveLoop_ends_of_none hnone]
    omega
  · have hmore := receiveLoop_ends (p.deliver a message)
    have hopen := hown.resolve_right htask
    have hless : (f t).ends + 1 = t.ends := by
      unfold Attempt.ends
      rw [hopen]
      rfl
    omega

theorem receiveFailed_ends {a : ℕ} {t : Attempt} (ht : c.attempts[a]? = some t) :
    (c.receiveFailed a t).ends = c.ends := by
  have hself := onAttempt_self ht ({ · with recvPending := false })
  have hsame := onAttempt_ends_same c a (f := ({ · with recvPending := false })) fun _ => rfl
  unfold Client.receiveFailed
  dsimp only
  split_ifs
  · exact (fail_ends (t := t) ⟨_, hself, rfl⟩).trans hsame
  · let p := (c.onAttempt a ({ · with recvPending := false })).markDead t.host
    exact (advance_ends (c := p) (t := t) ⟨_, hself, rfl⟩).trans hsame

theorem timer_ends {a : ℕ} {t : Attempt} (ht : c.attempts[a]? = some t) :
    (c.timer a t).ends = c.ends := by
  have hsame := onAttempt_ends_same c a (f := ({ · with timerPending := false })) fun _ => rfl
  unfold Client.timer
  dsimp only
  split_ifs with hover
  · exact hsame
  · let p := (c.onAttempt a ({ · with timerPending := false })).markDead t.host
    have hself := onAttempt_self (c := p) (onAttempt_self ht ({ · with timerPending := false }))
      ({ · with cancelled := true })
    have hcancel := onAttempt_ends_same p a (f := ({ · with cancelled := true })) fun _ => rfl
    rw [giveUp_ends hself (eq_false_of_ne_true (not_or.mp hover).2), hcancel]
    exact hsame

theorem loopReceived_ends {a : ℕ} {t : Attempt} (ht : c.attempts[a]? = some t)
    (hloop : 0 < t.loopPending) (message : Option Bytes) :
    (c.loopReceived a message).ends ≤ c.ends := by
  have hdone := loopDone_ends ht hloop
  unfold Client.loopReceived
  split_ifs
  · let p : Client := { c.loopDone a with
      firstRecv := true
      upPosted := (c.loopDone a).upPosted || !(c.loopDone a).firstRecv }
    have hmore := receiveLoop_ends (p.deliver a message)
    have hdeliver := deliver_ends p a message
    have hflags : p.ends = (c.loopDone a).ends := rfl
    show ((p.deliver a message).receiveLoop).ends ≤ c.ends
    omega
  · omega

theorem loopFailed_ends {a : ℕ} {t : Attempt} (ht : c.attempts[a]? = some t)
    (hloop : 0 < t.loopPending) : (c.loopFailed a).ends ≤ c.ends := by
  have hdone := loopDone_ends ht hloop
  unfold Client.loopFailed
  split_ifs
  · show c.closes + 1 + c.entering.length + tally Attempt.ends (c.loopDone a).attempts ≤ c.ends
    have hparts : (c.loopDone a).ends =
        c.closes + c.entering.length + tally Attempt.ends (c.loopDone a).attempts := rfl
    omega
  · omega

theorem exhausted_ends (c : Client) (index : ℕ) : (c.exhausted index).ends = c.ends + 1 := by
  show c.closes + 1 + c.entering.length + tally Attempt.ends c.attempts =
    c.closes + c.entering.length + tally Attempt.ends c.attempts + 1
  omega

theorem openTask_ends (c : Client) (index : ℕ) (ep : Endpoint) :
    (c.openTask index ep).ends = c.ends + 1 := by
  have hone : Attempt.ends { index, host := ep.host, base := c.frames.length } = 1 := rfl
  show c.closes + c.entering.length + tally Attempt.ends (c.attempts ++ [_]) =
    c.closes + c.entering.length + tally Attempt.ends c.attempts + 1
  rw [tally_concat, hone]
  rfl

theorem startTask_ends (c : Client) (a : ℕ) : (c.startTask a).ends = c.ends :=
  onAttempt_ends_same c a
    (f := fun t => { t with
      frames := t.frames ++ [.init c.initFrame], started := true, initPending := true,
      recvPending := true, timerPending := true }) fun _ => rfl

/-- An entry into `tryConnect` opens a task, goes on to the next entry, or
reports the end. -/
theorem enter_ends (urlOk : String → Bool) {k index : ℕ} (hk : c.entering[k]? = some index) :
    (({ c with entering := c.entering.eraseIdx k }).tryEnter urlOk index).ends = c.ends := by
  let p : Client := { c with entering := c.entering.eraseIdx k }
  have hlt : k < c.entering.length := (List.getElem?_eq_some_iff.mp hk).1
  have hlen : (c.entering.eraseIdx k).length = c.entering.length - 1 :=
    List.length_eraseIdx_of_lt hlt
  have hless : p.ends + 1 = c.ends := by
    show c.closes + (c.entering.eraseIdx k).length + tally Attempt.ends c.attempts + 1 =
      c.closes + c.entering.length + tally Attempt.ends c.attempts
    omega
  show (p.tryEnter urlOk index).ends = c.ends
  unfold Client.tryEnter
  split
  · rw [exhausted_ends, hless]
  · split_ifs
    · rw [openTask_ends, hless]
    · rw [← hless]
      show p.closes + (p.entering ++ [index + 1]).length + tally Attempt.ends p.attempts =
        p.closes + p.entering.length + tally Attempt.ends p.attempts + 1
      rw [List.length_append, List.length_singleton]
      omega

/-- No event adds a way to end, as long as first receives keep to their own
task. -/
theorem step_ends {urlOk : String → Bool} {late : Bool} {e : Event}
    (h : c.step urlOk late e = some d) (hown : OwnTask c e) : d.ends ≤ c.ends := by
  cases Client.effect_of_step h with
  | enter k index hk => exact (enter_ends urlOk hk).le
  | start a => exact (startTask_ends c a).le
  | initSent a ok =>
    have hsame := onAttempt_ends_same c a
      (f := fun t => { t with initPending := false, delivered := t.delivered || ok }) fun _ => rfl
    unfold Client.initSent
    split_ifs
    · exact hsame.le
    · exact hsame.le
  | received a message t ht => exact received_ends ht (hown t ht) message
  | receiveFailed a t ht => exact (receiveFailed_ends ht).le
  | timer a t ht => exact (timer_ends ht).le
  | loopReceived a message t ht hp => exact loopReceived_ends ht hp message
  | loopFailed a t ht hp => exact loopFailed_ends ht hp
  | send data =>
    have hsame := onTask_ends_same c
      (f := fun t => { t with frames := t.frames ++ [.data c.frames.length data] }) fun _ => rfl
    exact hsame.le
  | close =>
    have hsame := onTask_ends_same c (f := ({ · with cancelled := true })) fun _ => rfl
    exact hsame.le
  | release => exact le_rfl

end

theorem closes_le_ends (c : Client) : c.closes ≤ c.ends := by
  unfold Client.ends
  omega

end WSBridge.Cascade
