import WSBridge.Cascade.Ends
import WSBridge.Cascade.Indices

/-!
# The cascade comes to an end (`Tunnel/WSClient.swift`, `connect`)

An endpoint that does not answer costs at most an entry into `tryConnect`, the
start of its task and three callbacks. These are the turns of a cascade; a
message that arrives and a call of the session are none.

An entry, a start and the 5 s timer come of themselves. The completion of a send
or of a receive is up to the endpoint, and nothing says that it ever comes: a
client whose endpoint has taken the init frame, or sent a message, may wait for
its next message forever.

Results:
* `run_turns`: no run has more than five turns for each endpoint.
* `cascade_ends`: until the session closes, the client has called `onClose`, can
  go on of itself, or waits for an endpoint that has answered. So a client that
  no endpoint answers calls `onClose`, by its own timers alone.
-/

namespace WSBridge.Cascade

open WSBridge.Foundation
open Client (tryConnect_none tryConnect_ok tryConnect_bad)

/-- The cascade goes on, without a message and without the session. -/
def Event.isTurn : Event → Bool
  | .enter _ | .start _ | .initSent _ _ | .receiveFailed _ | .timer _ | .loopFailed _ => true
  | .received _ _ | .loopReceived _ _ | .send _ | .close | .release => false

/-- The client goes on of itself, whatever the endpoints do. -/
def Event.isOwn : Event → Bool
  | .enter _ | .start _ | .timer _ => true
  | .initSent _ _ | .received _ _ | .receiveFailed _ | .loopReceived _ _ | .loopFailed _
  | .send _ | .close | .release => false

/-- An endpoint takes the init frame or sends a message. -/
def Event.answers : Event → Bool
  | .initSent _ ok => ok
  | .received _ _ | .loopReceived _ _ => true
  | .enter _ | .start _ | .receiveFailed _ | .timer _ | .loopFailed _ | .send _ | .close
  | .release => false

/-- The endpoint of the current task has taken the init frame or sent a message,
and its next message is awaited. -/
def Client.Awaits (c : Client) : Prop :=
  ∃ a t, c.task = some a ∧ c.attempts[a]? = some t ∧
    (t.delivered = true ∧ t.recvPending = true ∨ t.claimed = true ∧ 0 < t.loopPending)

/-! ## The turns that are left -/

/-- The turns that an entry at an index leads to at most, with `n` endpoints. -/
def entryTurns (n index : ℕ) : ℕ := 5 * (n - index) + 1

/-- The turns of an attempt: its start and its callbacks, and those of the entry
that it may still give up to. -/
def Attempt.turns (n : ℕ) (t : Attempt) : ℕ :=
  4 * (!t.started).toNat + t.initPending.toNat + t.recvPending.toNat + t.timerPending.toNat +
    t.loopPending + if t.claimed then 0 else entryTurns n (t.index + 1)

/-- The turns that are left to a client at most. -/
def Client.turns (n : ℕ) (c : Client) : ℕ :=
  tally (entryTurns n) c.entering + tally (Attempt.turns n) c.attempts

section

variable {n : ℕ} {c d : Client} {a : ℕ} {t : Attempt}

/-- One attempt changes. -/
theorem onAttempt_turns (ht : c.attempts[a]? = some t) (f : Attempt → Attempt) :
    (c.onAttempt a f).turns n + t.turns n = c.turns n + (f t).turns n := by
  have hsum := tally_modify (g := Attempt.turns n) ht f
  show tally (entryTurns n) c.entering + tally (Attempt.turns n) (c.attempts.modify a f) + _ =
    tally (entryTurns n) c.entering + tally (Attempt.turns n) c.attempts + _
  omega

theorem onTask_turns_same {f : Attempt → Attempt} (h : ∀ t, (f t).turns n = t.turns n) :
    (c.onTask f).turns n = c.turns n := by
  refine c.onTask_rule f (R := fun d => d.turns n = c.turns n) rfl fun a => ?_
  show _ + tally (Attempt.turns n) (c.attempts.modify a f) = _
  rw [tally_modify_same h]
  rfl

theorem receiveLoop_turns : c.receiveLoop.turns n ≤ c.turns n + 1 := by
  have hmore := receiveLoop_tally (g := Attempt.turns n) (fun t => by
    unfold Attempt.turns
    dsimp only
    omega) c
  have hrest : c.receiveLoop.entering = c.entering :=
    c.onTask_rule _ (R := fun d => d.entering = c.entering) rfl fun _ => rfl
  unfold Client.turns
  rw [hrest]
  omega

theorem deliver_turns (message : Option Bytes) : (c.deliver a message).turns n = c.turns n := by
  cases message <;> rfl

/-- An attempt that gives up leaves its turns to the next entry. -/
theorem giveUp_turns (ht : c.attempts[a]? = some t) (hopen : t.claimed = false) :
    (c.giveUp a t).turns n = c.turns n := by
  have hsum := tally_modify (g := Attempt.turns n) ht ({ · with claimed := true })
  have hclaim : Attempt.turns n { t with claimed := true } + entryTurns n (t.index + 1) =
      t.turns n := by
    unfold Attempt.turns
    rw [hopen]
    rfl
  show tally (entryTurns n) (c.entering ++ [t.index + 1]) +
      tally (Attempt.turns n) (c.attempts.modify a ({ · with claimed := true })) =
    tally (entryTurns n) c.entering + tally (Attempt.turns n) c.attempts
  rw [tally_concat]
  omega

theorem advance_turns (ht : c.attempts[a]? = some t) : (c.advance a t).turns n = c.turns n := by
  unfold Client.advance
  split_ifs with h
  · rfl
  · exact giveUp_turns ht (eq_false_of_ne_true h)

theorem fail_turns (ht : c.attempts[a]? = some t) : (c.fail a t).turns n ≤ c.turns n := by
  unfold Client.fail
  split_ifs with h
  · exact le_rfl
  · have hsum := tally_modify (g := Attempt.turns n) ht ({ · with claimed := true })
    have hclaim : Attempt.turns n { t with claimed := true } ≤ t.turns n := by
      unfold Attempt.turns
      dsimp only
      split_ifs <;> omega
    show tally (entryTurns n) c.entering +
        tally (Attempt.turns n) (c.attempts.modify a ({ · with claimed := true })) ≤
      tally (entryTurns n) c.entering + tally (Attempt.turns n) c.attempts
    omega

/-! ## What each event uses up -/

theorem initSent_turns (ht : c.attempts[a]? = some t) (hp : t.initPending = true) (ok : Bool) :
    (c.initSent a ok).turns n + 1 = c.turns n := by
  have hsum := onAttempt_turns (n := n) ht fun t =>
    { t with initPending := false, delivered := t.delivered || ok }
  have hless : Attempt.turns n
      { t with initPending := false, delivered := t.delivered || ok } + 1 = t.turns n := by
    unfold Attempt.turns
    rw [hp]
    dsimp only [Bool.toNat_true, Bool.toNat_false]
    omega
  have hflags : (c.initSent a ok).turns n = (c.onAttempt a fun t =>
      { t with initPending := false, delivered := t.delivered || ok }).turns n := by
    unfold Client.initSent
    split_ifs <;> rfl
  omega

/-- The first receive of an attempt is over. -/
theorem recvDone_turns (ht : c.attempts[a]? = some t) (hp : t.recvPending = true) :
    (c.onAttempt a ({ · with recvPending := false })).turns n + 1 = c.turns n := by
  have hsum := onAttempt_turns (n := n) ht ({ · with recvPending := false })
  have hless : Attempt.turns n { t with recvPending := false } + 1 = t.turns n := by
    unfold Attempt.turns
    rw [hp]
    dsimp only [Bool.toNat_true, Bool.toNat_false]
    omega
  omega

theorem receiveFailed_turns (ht : c.attempts[a]? = some t) (hp : t.recvPending = true) :
    (c.receiveFailed a t).turns n + 1 ≤ c.turns n := by
  have hdone := recvDone_turns (n := n) ht hp
  have hself := onAttempt_self ht ({ · with recvPending := false })
  unfold Client.receiveFailed
  dsimp only
  split_ifs
  · have hfail := fail_turns (n := n) hself
    exact (Nat.succ_le_succ hfail).trans hdone.le
  · let p := (c.onAttempt a ({ · with recvPending := false })).markDead t.host
    have hadvance := advance_turns (n := n) (c := p) hself
    exact (congrArg Nat.succ hadvance).le.trans hdone.le

theorem timer_turns (ht : c.attempts[a]? = some t) (hp : t.timerPending = true) :
    (c.timer a t).turns n + 1 = c.turns n := by
  have hsum := onAttempt_turns (n := n) ht ({ · with timerPending := false })
  have hless : Attempt.turns n { t with timerPending := false } + 1 = t.turns n := by
    unfold Attempt.turns
    rw [hp]
    dsimp only [Bool.toNat_true, Bool.toNat_false]
    omega
  have hdone : (c.onAttempt a ({ · with timerPending := false })).turns n + 1 = c.turns n := by
    omega
  unfold Client.timer
  dsimp only
  split_ifs with hover
  · exact hdone
  · let p := (c.onAttempt a ({ · with timerPending := false })).markDead t.host
    have hself : p.attempts[a]? = some { t with timerPending := false } :=
      onAttempt_self ht ({ · with timerPending := false })
    have hcancelled := onAttempt_self hself ({ · with cancelled := true })
    have hcancel := onAttempt_turns (n := n) hself ({ · with cancelled := true })
    have hgiveUp := giveUp_turns (n := n) hcancelled (eq_false_of_ne_true (not_or.mp hover).2)
    exact (congrArg Nat.succ (hgiveUp.trans (Nat.add_right_cancel hcancel))).trans hdone

/-- The first receive succeeds: the attempt is claimed, and its turn is a receive
of the loop. -/
theorem received_turns (ht : c.attempts[a]? = some t) (hp : t.recvPending = true)
    (message : Option Bytes) : (c.received a message).turns n ≤ c.turns n := by
  let f : Attempt → Attempt := fun t => { t with recvPending := false, claimed := true }
  let p : Client := { c.onAttempt a f with connected := true }
  have hsum : p.turns n + t.turns n = c.turns n + (f t).turns n := onAttempt_turns ht f
  have hless : (f t).turns n + 1 ≤ t.turns n := by
    show Attempt.turns n { t with recvPending := false, claimed := true } + 1 ≤ _
    unfold Attempt.turns
    simp only [hp, Bool.toNat_true, Bool.toNat_false, if_true]
    omega
  have hdeliver : (p.deliver a message).turns n = p.turns n := deliver_turns message
  have hmore : ((p.deliver a message).receiveLoop).turns n ≤ (p.deliver a message).turns n + 1 :=
    receiveLoop_turns
  show ((p.deliver a message).receiveLoop).turns n ≤ c.turns n
  omega

theorem loopDone_turns (ht : c.attempts[a]? = some t) (hloop : 0 < t.loopPending) :
    (c.loopDone a).turns n + 1 = c.turns n := by
  have hless := loopDone_tally (g := Attempt.turns n) ht (by
    unfold Attempt.turns
    dsimp only
    omega)
  show tally (entryTurns n) c.entering + tally (Attempt.turns n) (c.loopDone a).attempts + 1 =
    tally (entryTurns n) c.entering + tally (Attempt.turns n) c.attempts
  omega

theorem loopReceived_turns (ht : c.attempts[a]? = some t) (hloop : 0 < t.loopPending)
    (message : Option Bytes) : (c.loopReceived a message).turns n ≤ c.turns n := by
  have hdone := loopDone_turns (n := n) ht hloop
  unfold Client.loopReceived
  split_ifs
  · let p : Client := { c.loopDone a with
      firstRecv := true
      upPosted := (c.loopDone a).upPosted || !(c.loopDone a).firstRecv }
    have hdeliver : (p.deliver a message).turns n = p.turns n := deliver_turns message
    have hmore : ((p.deliver a message).receiveLoop).turns n ≤ (p.deliver a message).turns n + 1 :=
      receiveLoop_turns
    have hflags : p.turns n = (c.loopDone a).turns n := rfl
    show ((p.deliver a message).receiveLoop).turns n ≤ c.turns n
    omega
  · omega

theorem loopFailed_turns (ht : c.attempts[a]? = some t) (hloop : 0 < t.loopPending) :
    (c.loopFailed a).turns n + 1 = c.turns n := by
  have hdone := loopDone_turns (n := n) ht hloop
  unfold Client.loopFailed
  split_ifs
  · exact hdone
  · exact hdone

/-- A task for the endpoint of an index. -/
theorem openTask_turns (index : ℕ) (ep : Endpoint) (hindex : index < n) :
    (c.openTask index ep).turns n + 1 = c.turns n + entryTurns n index := by
  have hnew : Attempt.turns n { index, host := ep.host, base := c.frames.length } + 1 =
      entryTurns n index := by
    show 4 * 1 + 0 + 0 + 0 + 0 + entryTurns n (index + 1) + 1 = _
    unfold entryTurns
    omega
  show tally (entryTurns n) c.entering + tally (Attempt.turns n) (c.attempts ++ [_]) + 1 =
    tally (entryTurns n) c.entering + tally (Attempt.turns n) c.attempts + _
  rw [tally_concat]
  omega

theorem startTask_turns (ht : c.attempts[a]? = some t) (hnew : t.started = false) :
    (c.startTask a).turns n + 1 ≤ c.turns n := by
  have hsum := onAttempt_turns (n := n) ht fun t =>
    { t with
      frames := t.frames ++ [.init c.initFrame], started := true, initPending := true,
      recvPending := true, timerPending := true }
  have hless : Attempt.turns n
      { t with
        frames := t.frames ++ [.init c.initFrame], started := true, initPending := true,
        recvPending := true, timerPending := true } + 1 ≤ t.turns n := by
    unfold Attempt.turns
    simp only [hnew, Bool.not_true, Bool.not_false, Bool.toNat_true, Bool.toNat_false]
    omega
  unfold Client.startTask
  omega

/-- An entry into `tryConnect`. -/
theorem enter_turns (urlOk : String → Bool) (hn : c.endpoints.length = n) {k index : ℕ}
    (hk : c.entering[k]? = some index) :
    (({ c with entering := c.entering.eraseIdx k }).tryEnter urlOk index).turns n + 1 ≤
      c.turns n := by
  let p : Client := { c with entering := c.entering.eraseIdx k }
  have herase := tally_eraseIdx (g := entryTurns n) hk
  have hless : p.turns n + entryTurns n index = c.turns n := by
    show tally (entryTurns n) (c.entering.eraseIdx k) + tally (Attempt.turns n) c.attempts + _ =
      tally (entryTurns n) c.entering + tally (Attempt.turns n) c.attempts
    omega
  have hpos : 1 ≤ entryTurns n index := Nat.le_add_left _ _
  show (p.tryEnter urlOk index).turns n + 1 ≤ c.turns n
  unfold Client.tryEnter
  split
  · show p.turns n + 1 ≤ c.turns n
    omega
  · rename_i ep hep
    have hindex : index < n := hn ▸ (List.getElem?_eq_some_iff.mp hep).1
    split_ifs
    · have hopen := openTask_turns (c := p) index ep hindex
      omega
    · have hnext : entryTurns n (index + 1) + 1 ≤ entryTurns n index := by
        unfold entryTurns
        omega
      show tally (entryTurns n) (p.entering ++ [index + 1]) +
        tally (Attempt.turns n) p.attempts + 1 ≤ c.turns n
      have hp : tally (entryTurns n) p.entering + tally (Attempt.turns n) p.attempts +
        entryTurns n index = c.turns n := hless
      rw [tally_concat]
      omega

/-- Every step keeps to the turns that are left, and a turn uses up one. -/
theorem step_turns {urlOk : String → Bool} {late : Bool} {e : Event}
    (hn : c.endpoints.length = n) (h : c.step urlOk late e = some d) :
    d.turns n + e.isTurn.toNat ≤ c.turns n := by
  cases Client.effect_of_step h with
  | enter k index hk => exact enter_turns urlOk hn hk
  | start a t ht hnew => exact startTask_turns ht hnew
  | initSent a ok t ht hp => exact (initSent_turns ht hp ok).le
  | received a message t ht hp => exact received_turns ht hp message
  | receiveFailed a t ht hp => exact receiveFailed_turns ht hp
  | timer a t ht hp => exact (timer_turns ht hp).le
  | loopReceived a message t ht hp => exact loopReceived_turns ht hp message
  | loopFailed a t ht hp => exact (loopFailed_turns ht hp).le
  | send data =>
    exact (onTask_turns_same
      (f := fun t => { t with frames := t.frames ++ [.data c.frames.length data] })
      fun _ => rfl).le
  | close => exact (onTask_turns_same (f := ({ · with cancelled := true })) fun _ => rfl).le
  | release => exact le_rfl

theorem tryConnect_turns (urlOk : String → Bool) (c : Client) (index : ℕ) :
    (c.tryConnect urlOk index).turns c.endpoints.length ≤
      c.turns c.endpoints.length + 5 * (c.endpoints.length - index) := by
  induction c, index using Client.tryConnect.induct urlOk with
  | case1 c index hnone =>
    rw [tryConnect_none urlOk c hnone]
    exact Nat.le_add_right _ _
  | case2 c index ep hep hok =>
    have hindex : index < c.endpoints.length := (List.getElem?_eq_some_iff.mp hep).1
    have hopen := openTask_turns (c := c) index ep hindex
    have hlast : (c.openTask index ep).attempts[c.attempts.length]? =
        some { index, host := ep.host, base := c.frames.length } := List.getElem?_concat_length
    have hstart := startTask_turns (n := c.endpoints.length) hlast rfl
    have hentry : entryTurns c.endpoints.length index =
        5 * (c.endpoints.length - index) + 1 := rfl
    rw [tryConnect_ok c hep hok]
    omega
  | case3 c index ep hep hbad ih =>
    rw [tryConnect_bad c hep hbad]
    have hrest : Client.turns c.endpoints.length
        (Client.tryConnect urlOk { c with tried := c.tried ++ [index] } (index + 1)) ≤
      c.turns c.endpoints.length + 5 * (c.endpoints.length - (index + 1)) := ih
    omega

theorem tryConnect_endpoints (urlOk : String → Bool) (c : Client) (index : ℕ) :
    (c.tryConnect urlOk index).endpoints = c.endpoints := by
  induction c, index using Client.tryConnect.induct urlOk with
  | case1 c index hnone =>
    rw [tryConnect_none urlOk c hnone]
    rfl
  | case2 c index ep hep hok =>
    rw [tryConnect_ok c hep hok]
    rfl
  | case3 c index ep hep hbad ih =>
    rw [tryConnect_bad c hep hbad]
    exact ih

/-- No run of a cascade has more than five turns for each endpoint. -/
theorem run_turns (urlOk : String → Bool) (late : Bool) (endpoints : List Endpoint)
    (initFrame : Bytes) (events : List Event) {c : Client}
    (h : run (Client.step urlOk late) (Client.connect urlOk endpoints initFrame) events = some c) :
    events.countP Event.isTurn ≤ 5 * endpoints.length := by
  have hstart := tryConnect_turns urlOk { endpoints, initFrame } 0
  have hrun := run_countP_le (I := fun c : Client => c.endpoints.length = endpoints.length)
    (p := Event.isTurn) (g := Client.turns endpoints.length)
    (fun s e t hn hstep => ⟨(congrArg List.length (step_endpoints hstep)).trans hn,
      step_turns hn hstep⟩) events _ c (congrArg List.length (tryConnect_endpoints ..)) h
  have hnone : Client.turns endpoints.length { endpoints, initFrame } = 0 := rfl
  unfold Client.connect at hrun
  dsimp only at hstart
  omega

end

/-! ## A turn is left -/

/-- The current task is about to be started, or has its first receive
outstanding, and the timer too unless the init frame is out, or a receive of the
loop, unless `onClose` has been called. -/
structure Attempt.Current (t : Attempt) (closes : ℕ) : Prop where
  fresh : t.started = false → t.claimed = false ∧ t.recvPending = false
  waits : t.started = true → t.claimed = false →
    t.recvPending = true ∧ (t.timerPending = true ∨ t.delivered = true)
  loops : t.claimed = true → t.recvPending = false ∧ (0 < t.loopPending ∨ 0 < closes)

/-- What keeps a client going that the session holds. -/
structure Client.Driven (c : Client) : Prop where
  held : c.held = true
  current : ∀ a, c.task = some a → ∃ t, c.attempts[a]? = some t ∧ t.Current c.closes
  idle : c.task = none → c.entering ≠ [] ∨ 0 < c.closes

section

variable {c d : Client} {a : ℕ} {t : Attempt}

theorem Attempt.Current.closes_le (h : t.Current c.closes) (hle : c.closes ≤ d.closes) :
    t.Current d.closes :=
  ⟨h.fresh, h.waits, fun hclaimed =>
    (h.loops hclaimed).imp_right fun hloop => hloop.imp_right fun hpos => hpos.trans_le hle⟩

/-- One more receive of the loop. -/
theorem Attempt.Current.more {closes : ℕ} (h : t.Current closes) :
    Attempt.Current { t with loopPending := t.loopPending + 1 } closes :=
  ⟨h.fresh, h.waits, fun hclaimed => ⟨(h.loops hclaimed).1, Or.inl (Nat.succ_pos _)⟩⟩

/-- A change of one attempt that the current task may have undergone. -/
theorem Client.Driven.onAttempt (h : c.Driven) (a : ℕ) {f : Attempt → Attempt}
    (hf : ∀ t, c.attempts[a]? = some t → t.Current c.closes → (f t).Current c.closes) :
    (c.onAttempt a f).Driven := by
  refine ⟨h.held, fun b hb => ?_, h.idle⟩
  obtain ⟨t, ht, hcurrent⟩ := h.current b hb
  refine ⟨if a = b then f t else t, ?_, ?_⟩
  · show (c.attempts.modify a f)[b]? = _
    rw [List.getElem?_modify, ht]
    rfl
  · split_ifs with hab
    · subst hab
      exact hf t ht hcurrent
    · exact hcurrent

/-- A client without a task that has something to enter, or has called
`onClose`. -/
theorem driven_of_none (hheld : c.held = true) (htask : c.task = none)
    (h : c.entering ≠ [] ∨ 0 < c.closes) : c.Driven :=
  ⟨hheld, fun a ha => absurd (htask.symm.trans ha) (by simp), fun _ => h⟩

/-- The loop goes on, on the current task. -/
theorem driven_receiveLoop (hheld : c.held = true)
    (hcurrent : ∀ b, c.task = some b → ∃ t, c.attempts[b]? = some t ∧
      Attempt.Current { t with loopPending := t.loopPending + 1 } c.closes)
    (hidle : c.task = none → c.entering ≠ [] ∨ 0 < c.closes) : c.receiveLoop.Driven := by
  unfold Client.receiveLoop Client.onTask
  cases htask : c.task with
  | none => exact driven_of_none hheld htask (hidle htask)
  | some b =>
    obtain ⟨t, ht, hmore⟩ := hcurrent b htask
    refine ⟨hheld, fun a ha => ?_, fun hnone => absurd (htask.symm.trans hnone) (by simp)⟩
    obtain rfl : b = a := Option.some.inj (htask.symm.trans ha)
    refine ⟨_, onAttempt_self ht _, hmore⟩

theorem Client.Driven.initSent (h : c.Driven) (a : ℕ) (ok : Bool) : (c.initSent a ok).Driven := by
  have hsent := h.onAttempt a
    (f := fun t => { t with initPending := false, delivered := t.delivered || ok })
    fun _ _ hc => ⟨hc.fresh, fun hstarted hopen =>
      (hc.waits hstarted hopen).imp_right fun hout => hout.imp_right fun hdelivered =>
        Bool.or_eq_true_iff.mpr (Or.inl hdelivered), hc.loops⟩
  unfold Client.initSent
  split_ifs
  · exact ⟨hsent.held, hsent.current, hsent.idle⟩
  · exact hsent

theorem deliver_fields (c : Client) (a : ℕ) (message : Option Bytes) :
    (c.deliver a message).held = c.held ∧ (c.deliver a message).task = c.task ∧
      (c.deliver a message).attempts = c.attempts ∧
      (c.deliver a message).entering = c.entering ∧
      (c.deliver a message).closes = c.closes := by
  cases message <;> exact ⟨rfl, rfl, rfl, rfl, rfl⟩

/-- The first receive succeeds. -/
theorem Client.Driven.received (h : c.Driven) (ht : c.attempts[a]? = some t)
    (hp : t.recvPending = true) (message : Option Bytes) : (c.received a message).Driven := by
  let f : Attempt → Attempt := fun t => { t with recvPending := false, claimed := true }
  obtain ⟨hheld, htask, hattempts, hentering, hcloses⟩ :=
    deliver_fields { c.onAttempt a f with connected := true } a message
  refine driven_receiveLoop (hheld.trans h.held) (fun b hb => ?_) fun hnone => ?_
  · obtain ⟨s, hs, hcurrent⟩ := h.current b (htask.symm.trans hb)
    rw [hattempts, hcloses]
    refine ⟨if a = b then f s else s, ?_, ?_⟩
    · show (c.attempts.modify a f)[b]? = _
      rw [List.getElem?_modify, hs]
      rfl
    · split_ifs with hab
      · subst hab
        obtain rfl : t = s := Option.some.inj (ht.symm.trans hs)
        have hstarted : t.started = true := by
          by_contra hnew
          exact absurd (hp.symm.trans (hcurrent.fresh (eq_false_of_ne_true hnew)).2) (by simp)
        exact ⟨fun hnew => absurd (hstarted.symm.trans hnew) (by simp),
          fun _ hopen => (by cases hopen), fun _ => ⟨rfl, Or.inl (Nat.succ_pos _)⟩⟩
      · exact hcurrent.more
  · rw [hentering, hcloses]
    exact h.idle (htask.symm.trans hnone)

/-- The first receive fails. -/
theorem Client.Driven.receiveFailed (h : c.Driven) (ht : c.attempts[a]? = some t)
    (hp : t.recvPending = true) : (c.receiveFailed a t).Driven := by
  unfold Client.receiveFailed
  dsimp only
  by_cases hclaimed : t.claimed = true
  · -- A claimed attempt is not the current one.
    have hother (b : ℕ) (hb : c.task = some b) : a ≠ b := by
      rintro rfl
      obtain ⟨s, hs, hcurrent⟩ := h.current a hb
      obtain rfl : t = s := Option.some.inj (ht.symm.trans hs)
      exact absurd (hp.symm.trans (hcurrent.loops hclaimed).1) (by simp)
    have hdone : (c.onAttempt a ({ · with recvPending := false })).Driven := by
      refine ⟨h.held, fun b hb => ?_, h.idle⟩
      obtain ⟨s, hs, hcurrent⟩ := h.current b hb
      refine ⟨s, ?_, hcurrent⟩
      show (c.attempts.modify a _)[b]? = _
      rw [List.getElem?_modify_ne _ _ (hother b hb)]
      exact hs
    unfold Client.fail Client.advance
    rw [if_pos hclaimed, if_pos hclaimed]
    split_ifs
    · exact hdone
    · exact ⟨hdone.held, hdone.current, hdone.idle⟩
  · unfold Client.fail Client.advance
    rw [if_neg hclaimed, if_neg hclaimed]
    split_ifs
    · exact driven_of_none h.held rfl (Or.inr (Nat.succ_pos _))
    · exact driven_of_none h.held rfl (Or.inl (by simp [Client.giveUp]))

/-- The timer goes off: it does nothing on an attempt whose init frame is out or
that something has claimed. -/
theorem Client.Driven.timer (h : c.Driven) (ht : c.attempts[a]? = some t) :
    (c.timer a t).Driven := by
  unfold Client.timer
  dsimp only
  split_ifs with hover
  · refine h.onAttempt a fun s hs hc => ⟨hc.fresh, fun hstarted hopen => ?_, hc.loops⟩
    obtain rfl : t = s := Option.some.inj (ht.symm.trans hs)
    have hdelivered : t.delivered = true :=
      hover.resolve_right fun hclaimed => absurd (hopen.symm.trans hclaimed) (by simp)
    exact ⟨(hc.waits hstarted hopen).1, Or.inr hdelivered⟩
  · exact driven_of_none h.held rfl (Or.inl (by simp [Client.giveUp]))

theorem Client.Driven.alive (h : c.Driven) : c.alive = true := by
  simp [Client.alive, h.held]

/-- A receive of the loop succeeds, and the loop goes on. -/
theorem Client.Driven.loopReceived (h : c.Driven) (a : ℕ) (message : Option Bytes) :
    (c.loopReceived a message).Driven := by
  unfold Client.loopReceived
  rw [if_pos h.alive]
  dsimp only
  obtain ⟨hheld, htask, hattempts, hentering, hcloses⟩ := deliver_fields
    { c.loopDone a with
      firstRecv := true
      upPosted := (c.loopDone a).upPosted || !(c.loopDone a).firstRecv } a message
  refine driven_receiveLoop (hheld.trans h.held) (fun b hb => ?_) fun hnone => ?_
  · obtain ⟨s, hs, hcurrent⟩ := h.current b (htask.symm.trans hb)
    rw [hattempts, hcloses]
    refine ⟨if a = b then { s with loopPending := s.loopPending - 1 } else s, ?_, ?_⟩
    · show (c.attempts.modify a fun t => { t with loopPending := t.loopPending - 1 })[b]? = _
      rw [List.getElem?_modify, hs]
      rfl
    · split_ifs
      · exact ⟨hcurrent.fresh, hcurrent.waits, fun hclaimed =>
          ⟨(hcurrent.loops hclaimed).1, Or.inl (Nat.succ_pos _)⟩⟩
      · exact hcurrent.more
  · rw [hentering, hcloses]
    exact h.idle (htask.symm.trans hnone)

/-- A receive of the loop fails, and `onClose` is called. -/
theorem Client.Driven.loopFailed (h : c.Driven) (a : ℕ) : (c.loopFailed a).Driven := by
  unfold Client.loopFailed
  rw [if_pos h.alive]
  refine ⟨h.held, fun b hb => ?_, fun _ => Or.inr (Nat.succ_pos _)⟩
  obtain ⟨s, hs, hcurrent⟩ := h.current b hb
  refine ⟨if a = b then { s with loopPending := s.loopPending - 1 } else s, ?_, ?_⟩
  · show (c.attempts.modify a fun t => { t with loopPending := t.loopPending - 1 })[b]? = _
    rw [List.getElem?_modify, hs]
    rfl
  · have hclosed (loopPending : ℕ) : Attempt.Current { s with loopPending } (c.closes + 1) :=
      ⟨hcurrent.fresh, hcurrent.waits, fun hclaimed =>
        ⟨(hcurrent.loops hclaimed).1, Or.inr (Nat.succ_pos _)⟩⟩
    split_ifs
    · exact hclosed _
    · exact hclosed s.loopPending

theorem Client.Driven.send (h : c.Driven) (data : Bytes) : (c.send data).Driven := by
  have hsent := c.onTask_rule (f := fun t =>
    { t with frames := t.frames ++ [.data c.frames.length data] }) (R := Client.Driven) h
    fun a => h.onAttempt a fun _ _ hc => ⟨hc.fresh, hc.waits, hc.loops⟩
  exact ⟨hsent.held, hsent.current, hsent.idle⟩

/-- A new task. -/
theorem Client.Driven.openTask (hheld : c.held = true) (index : ℕ) (ep : Endpoint) :
    (c.openTask index ep).Driven := by
  refine ⟨hheld, fun a ha => ?_, fun hnone => by cases hnone⟩
  obtain rfl : c.attempts.length = a := Option.some.inj ha
  exact ⟨_, List.getElem?_concat_length, fun _ => ⟨rfl, rfl⟩, fun hs => (by cases hs),
    fun hclaimed => by cases hclaimed⟩

/-- The start of a task that has not started. -/
theorem Client.Driven.startTask (h : c.Driven) (ht : c.attempts[a]? = some t)
    (hnew : t.started = false) : (c.startTask a).Driven := by
  refine ⟨h.held, fun b hb => ?_, h.idle⟩
  obtain ⟨s, hs, hcurrent⟩ := h.current b hb
  refine ⟨if a = b then { s with
      frames := s.frames ++ [.init c.initFrame], started := true, initPending := true,
      recvPending := true, timerPending := true } else s, ?_, ?_⟩
  · show (c.attempts.modify a fun t => { t with
      frames := t.frames ++ [.init c.initFrame], started := true, initPending := true,
      recvPending := true, timerPending := true })[b]? = _
    rw [List.getElem?_modify, hs]
    rfl
  · split_ifs with hab
    · subst hab
      obtain rfl : t = s := Option.some.inj (ht.symm.trans hs)
      have hopen := (hcurrent.fresh hnew).1
      exact ⟨fun hs => (by cases hs), fun _ _ => ⟨rfl, Or.inl rfl⟩,
        fun hclaimed => absurd (hopen.symm.trans hclaimed) (by simp)⟩
    · exact hcurrent

/-- An entry into `tryConnect`. -/
theorem Client.Driven.enter (h : c.Driven) (urlOk : String → Bool) (k index : ℕ) :
    (({ c with entering := c.entering.eraseIdx k }).tryEnter urlOk index).Driven := by
  unfold Client.tryEnter
  split
  · refine ⟨h.held, fun a ha => ?_, fun _ => Or.inr (Nat.succ_pos _)⟩
    obtain ⟨t, ht, hcurrent⟩ := h.current a ha
    exact ⟨t, ht, hcurrent.closes_le (d := { c with closes := c.closes + 1 }) (Nat.le_succ _)⟩
  · split_ifs
    · exact Client.Driven.openTask (c := { c with entering := c.entering.eraseIdx k }) h.held
        index _
    · exact ⟨h.held, h.current, fun _ => Or.inl (by simp)⟩

/-- Every step of a client that the session holds on to. -/
theorem Client.Driven.step (h : c.Driven) {urlOk : String → Bool} {late : Bool} {e : Event}
    (hopen : e ≠ .close ∧ e ≠ .release) (hstep : c.step urlOk late e = some d) : d.Driven := by
  cases Client.effect_of_step hstep with
  | enter k index => exact h.enter urlOk k index
  | start a t ht hnew => exact h.startTask ht hnew
  | initSent a ok => exact h.initSent a ok
  | received a message t ht hp => exact h.received ht hp message
  | receiveFailed a t ht hp => exact h.receiveFailed ht hp
  | timer a t ht => exact h.timer ht
  | loopReceived a message => exact h.loopReceived a message
  | loopFailed a => exact h.loopFailed a
  | send data => exact h.send data
  | close => exact absurd rfl hopen.1
  | release => exact absurd rfl hopen.2

theorem tryConnect_driven (urlOk : String → Bool) (c : Client) (index : ℕ)
    (hheld : c.held = true) (htask : c.task = none) : (c.tryConnect urlOk index).Driven := by
  induction c, index using Client.tryConnect.induct urlOk with
  | case1 c index hnone =>
    rw [tryConnect_none urlOk c hnone]
    exact driven_of_none hheld htask (Or.inr (Nat.succ_pos _))
  | case2 c index ep hep hok =>
    rw [tryConnect_ok c hep hok]
    exact (Client.Driven.openTask hheld index ep).startTask List.getElem?_concat_length rfl
  | case3 c index ep hep hbad ih =>
    rw [tryConnect_bad c hep hbad]
    exact ih hheld htask

/-- A client that is driven on has called `onClose`, waits for an endpoint that
has answered, or goes on of itself. -/
theorem Client.Driven.turn (h : c.Driven) (urlOk : String → Bool) (late : Bool) :
    0 < c.closes ∨ c.Awaits ∨ ∃ e, Event.isOwn e = true ∧ (c.step urlOk late e).isSome := by
  have hcallback {a : ℕ} {t : Attempt} {p : Attempt → Bool} (f : Attempt → Client)
      (ht : c.attempts[a]? = some t) (hp : p t = true) : (c.callback a p f).isSome := by
    unfold Client.callback
    rw [ht]
    dsimp only
    rw [if_pos hp]
    rfl
  cases htask : c.task with
  | none =>
    refine (h.idle htask).symm.imp_right fun hentering => Or.inr ?_
    obtain ⟨index, rest, hcons⟩ := List.exists_cons_of_ne_nil hentering
    refine ⟨.enter 0, rfl, ?_⟩
    simp [Client.step, hcons]
  | some a =>
    obtain ⟨t, ht, hcurrent⟩ := h.current a htask
    by_cases hstarted : t.started = true
    · by_cases hclaimed : t.claimed = true
      · rcases (hcurrent.loops hclaimed).2 with hloop | hclosed
        · exact Or.inr (Or.inl ⟨a, t, htask, ht, Or.inr ⟨hclaimed, hloop⟩⟩)
        · exact Or.inl hclosed
      · obtain ⟨hrecv, hout⟩ := hcurrent.waits hstarted (eq_false_of_ne_true hclaimed)
        rcases hout with htimer | hdelivered
        · exact Or.inr (Or.inr ⟨.timer a, rfl, hcallback _ ht htimer⟩)
        · exact Or.inr (Or.inl ⟨a, t, htask, ht, Or.inl ⟨hdelivered, hrecv⟩⟩)
    · exact Or.inr (Or.inr ⟨.start a, rfl, hcallback _ ht (by simpa using hstarted)⟩)

/-! ## No endpoint answers -/

/-- The init frame is not out, and no message has started the loop. -/
def Attempt.Unanswered (t : Attempt) : Prop := t.delivered = false ∧ t.loopPending = 0

/-- No endpoint has answered. -/
def Client.Unanswered (c : Client) : Prop := ∀ t ∈ c.attempts, t.Unanswered

theorem Client.Unanswered.not_awaits (h : c.Unanswered) : ¬ c.Awaits := by
  rintro ⟨a, t, -, ht, hwaits⟩
  obtain ⟨hdelivered, hloop⟩ := h t (List.mem_of_getElem? ht)
  rcases hwaits with ⟨hout, -⟩ | ⟨-, hpos⟩
  · exact absurd (hdelivered.symm.trans hout) (by simp)
  · omega

/-- A change that neither delivers the init frame nor starts a receive of the
loop. -/
theorem Client.Unanswered.onAttempt (h : c.Unanswered) (a : ℕ) {f : Attempt → Attempt}
    (hf : ∀ t : Attempt, t.Unanswered → (f t).Unanswered) : (c.onAttempt a f).Unanswered := by
  intro t ht
  rcases mem_modify ht with ht | ⟨s, hs, rfl⟩
  · exact h t ht
  · exact hf s (h s (List.mem_of_getElem? hs))

theorem Client.Unanswered.onTask (h : c.Unanswered) {f : Attempt → Attempt}
    (hf : ∀ t : Attempt, t.Unanswered → (f t).Unanswered) : (c.onTask f).Unanswered :=
  c.onTask_rule f h fun a => h.onAttempt a hf

theorem Client.Unanswered.openTask (h : c.Unanswered) (index : ℕ) (ep : Endpoint) :
    (c.openTask index ep).Unanswered := by
  intro t ht
  rcases List.mem_append.mp ht with ht | hnew
  · exact h t ht
  · obtain rfl := List.mem_singleton.mp hnew
    exact ⟨rfl, rfl⟩

theorem Client.Unanswered.startTask (h : c.Unanswered) (a : ℕ) : (c.startTask a).Unanswered :=
  h.onAttempt a fun _ ht => ht

theorem Client.Unanswered.giveUp (h : c.Unanswered) (a : ℕ) (t : Attempt) :
    (c.giveUp a t).Unanswered :=
  h.onAttempt a fun _ ht => ht

theorem Client.Unanswered.receiveFailed (h : c.Unanswered) (a : ℕ) (t : Attempt) :
    (c.receiveFailed a t).Unanswered := by
  have hdone := h.onAttempt a (f := ({ · with recvPending := false })) fun _ ht => ht
  unfold Client.receiveFailed Client.fail Client.advance
  dsimp only
  split_ifs
  · exact hdone
  · exact hdone.onAttempt a fun _ ht => ht
  · exact hdone
  · exact Client.Unanswered.giveUp (c := (c.onAttempt a _).markDead t.host) hdone a t

theorem Client.Unanswered.timer (h : c.Unanswered) (a : ℕ) (t : Attempt) :
    (c.timer a t).Unanswered := by
  have hdone := h.onAttempt a (f := ({ · with timerPending := false })) fun _ ht => ht
  unfold Client.timer
  dsimp only
  split_ifs
  · exact hdone
  · have hcancelled := Client.Unanswered.onAttempt (c := (c.onAttempt a _).markDead t.host) hdone a
      (f := ({ · with cancelled := true })) fun _ ht => ht
    exact hcancelled.giveUp a t

theorem Client.Unanswered.loopFailed (h : c.Unanswered) (a : ℕ) : (c.loopFailed a).Unanswered := by
  have hdone : (c.loopDone a).Unanswered := by
    refine h.onAttempt a fun t ht => ⟨ht.1, ?_⟩
    simp [ht.2]
  unfold Client.loopFailed
  split_ifs
  · exact hdone
  · exact hdone

theorem Client.Unanswered.tryEnter (h : c.Unanswered) (urlOk : String → Bool) (index : ℕ) :
    (c.tryEnter urlOk index).Unanswered := by
  unfold Client.tryEnter
  split
  · exact h
  · split_ifs
    · exact h.openTask index _
    · exact h

/-- An event that is no answer leaves the client unanswered. -/
theorem Client.Unanswered.step (h : c.Unanswered) {urlOk : String → Bool} {late : Bool} {e : Event}
    (hsilent : e.answers = false) (hstep : c.step urlOk late e = some d) : d.Unanswered := by
  cases Client.effect_of_step hstep with
  | enter k index =>
    exact Client.Unanswered.tryEnter (c := { c with entering := c.entering.eraseIdx k }) h urlOk
      index
  | start a => exact h.startTask a
  | initSent a ok =>
    obtain rfl : ok = false := hsilent
    exact h.onAttempt a fun t ht => ⟨(Bool.or_false t.delivered).trans ht.1, ht.2⟩
  | received a message => cases hsilent
  | receiveFailed a t => exact h.receiveFailed a t
  | timer a t => exact h.timer a t
  | loopReceived a message => cases hsilent
  | loopFailed a => exact h.loopFailed a
  | send data => exact h.onTask fun _ ht => ht
  | close => exact h.onTask fun _ ht => ht
  | release => exact h

theorem tryConnect_unanswered (urlOk : String → Bool) (c : Client) (index : ℕ)
    (h : c.Unanswered) : (c.tryConnect urlOk index).Unanswered := by
  induction c, index using Client.tryConnect.induct urlOk with
  | case1 c index hnone =>
    rw [tryConnect_none urlOk c hnone]
    exact h
  | case2 c index ep hep hok =>
    rw [tryConnect_ok c hep hok]
    exact (h.openTask index ep).startTask _
  | case3 c index ep hep hbad ih =>
    rw [tryConnect_bad c hep hbad]
    exact ih h

/-- A client waits only for an endpoint that has answered. -/
theorem run_awaits (urlOk : String → Bool) (late : Bool) (endpoints : List Endpoint)
    (initFrame : Bytes) (events : List Event)
    (h : run (Client.step urlOk late) (Client.connect urlOk endpoints initFrame) events = some c)
    (hawaits : c.Awaits) : ∃ e ∈ events, e.answers = true := by
  by_contra hsilent
  push Not at hsilent
  have hstart := tryConnect_unanswered urlOk { endpoints, initFrame } 0 fun t ht => by cases ht
  have hrun : EveryState (Client.step urlOk late) Client.Unanswered
      (Client.connect urlOk endpoints initFrame) events :=
    everyState_of_everyStep (fun _ _ _ hc he hstep => hc.step he hstep) (fun _ hc => hc) events _
      hstart (everyStep_of_forall (Q := fun e : Event => e.answers = false) events _
        fun e he => eq_false_of_ne_true (hsilent e he))
  exact ((everyState_iff _ _).mp hrun events c List.prefix_rfl h).not_awaits hawaits

end

/-- As long as the session holds on to its client, no run has more than five
turns for each endpoint. After every run the client has called `onClose`, waits
for an endpoint that has answered, or goes on of itself; and it waits only if
one has. -/
theorem cascade_ends (urlOk : String → Bool) (late : Bool) (endpoints : List Endpoint)
    (initFrame : Bytes) {events : List Event} (hopen : ∀ e ∈ events, e ≠ .close ∧ e ≠ .release)
    {c : Client}
    (h : run (Client.step urlOk late) (Client.connect urlOk endpoints initFrame) events = some c) :
    events.countP Event.isTurn ≤ 5 * endpoints.length ∧
      (0 < c.closes ∨ c.Awaits ∨ ∃ e, Event.isOwn e = true ∧ (c.step urlOk late e).isSome) ∧
      (c.Awaits → ∃ e ∈ events, e.answers = true) := by
  refine ⟨run_turns urlOk late endpoints initFrame events h, ?_,
    run_awaits urlOk late endpoints initFrame events h⟩
  have hstart := tryConnect_driven urlOk { endpoints, initFrame } 0 rfl rfl
  have hdriven : EveryState (Client.step urlOk late) Client.Driven
      (Client.connect urlOk endpoints initFrame) events :=
    everyState_of_everyStep (fun _ _ _ hc hheld hstep => Client.Driven.step hc hheld hstep)
      (fun _ hc => hc) events _ hstart
      (everyStep_of_forall (Q := fun e : Event => e ≠ .close ∧ e ≠ .release) events _ hopen)
  exact ((everyState_iff _ _).mp hdriven events c List.prefix_rfl h).turn urlOk late

/-- One endpoint that does not open in 5 s. -/
theorem cascade_ends_sample :
    ∃ c, run (Client.step (fun _ => true) false)
        (Client.connect (fun _ => true) [⟨"149.154.167.220", none⟩] (List.replicate 64 0x11))
        [.timer 0, .enter 0] = some c ∧
      [Event.timer 0, .enter 0].countP Event.isTurn ≤ 5 * 1 ∧
      (0 < c.closes ∨ c.Awaits ∨
        ∃ e, Event.isOwn e = true ∧ (c.step (fun _ => true) false e).isSome) ∧
      (c.Awaits → ∃ e ∈ [Event.timer 0, .enter 0], e.answers = true) := by
  have hrun (c : Client) (h : run (Client.step (fun _ => true) false)
      (Client.connect (fun _ => true) [⟨"149.154.167.220", none⟩] (List.replicate 64 0x11))
      [.timer 0, .enter 0] = some c) :=
    cascade_ends (fun _ => true) false [⟨"149.154.167.220", none⟩] (List.replicate 64 0x11)
      (by intro e he; fin_cases he <;> simp) h
  rw [Client.connect, tryConnect_ok _ rfl rfl] at hrun ⊢
  exact ⟨_, rfl, hrun _ rfl⟩

end WSBridge.Cascade
