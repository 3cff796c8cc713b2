import WSBridge.Foundation.Runs
import WSBridge.Cascade.WSClient

/-!
# The course of the cascade

What the cascade of a client depends on, without the frames it sends, the hosts
it bans and the journal: how far each attempt is, the indices tried, the
messages passed on, and the current task. `Moves` says what each event does to
it.

Results:
* `step_moves`: every step of a client is a move.
* `Linear.move`: the indices are tried one after the other, and only the last
  attempt can be unclaimed.
-/

namespace WSBridge.Cascade

open WSBridge.Foundation
open Client (tryConnect_none tryConnect_ok tryConnect_bad)

/-- How far an attempt is. -/
structure Stage where
  index : ℕ
  claimed : Bool := false
  started : Bool := false
  recvPending : Bool := false
  timerPending : Bool := false
  loopPending : ℕ := 0
  deriving DecidableEq

/-- How far an attempt of a client is. -/
def Attempt.stage (t : Attempt) : Stage :=
  ⟨t.index, t.claimed, t.started, t.recvPending, t.timerPending, t.loopPending⟩

/-- The course of a cascade. -/
structure Progress where
  stages : List Stage
  tried : List ℕ
  entering : List ℕ
  messages : List (ℕ × Bytes)
  task : Option ℕ

/-- The course of a client's cascade until now. -/
def Client.progress (c : Client) : Progress :=
  ⟨c.attempts.map Attempt.stage, c.tried, c.entering, c.messages, c.task⟩

/-! ## Moves -/

namespace Stage

/-- The receive and the timer are queued. -/
def start (s : Stage) : Stage :=
  { s with started := true, recvPending := true, timerPending := true }

/-- The attempt is claimed, by whoever comes first. -/
def claim (s : Stage) : Stage := { s with claimed := true }

/-- The first receive is over. -/
def recvDone (s : Stage) : Stage := { s with recvPending := false }

/-- The timer has gone off. -/
def timerDone (s : Stage) : Stage := { s with timerPending := false }

/-- A receive of the loop is queued. -/
def loopMore (s : Stage) : Stage := { s with loopPending := s.loopPending + 1 }

/-- A receive of the loop is over. -/
def loopDone (s : Stage) : Stage := { s with loopPending := s.loopPending - 1 }

end Stage

namespace Progress

/-- Change the stage of attempt number `a`. -/
def onStage (p : Progress) (a : ℕ) (f : Stage → Stage) : Progress :=
  { p with stages := p.stages.modify a f }

/-- One more receive on the current task. -/
def receiveLoop (p : Progress) : Progress :=
  match p.task with
  | some b => p.onStage b .loopMore
  | none => p

/-- `onMessage` for a message from attempt `a`, if it is binary data. -/
def deliver (p : Progress) (a : ℕ) (message : Option Bytes) : Progress :=
  { p with messages := p.messages ++ (message.map fun data => (a, data)).toList }

/-- An attempt is claimed, and the cascade goes on to the next index. -/
def giveUp (p : Progress) (a index : ℕ) : Progress :=
  { p.onStage a .claim with entering := p.entering ++ [index + 1], task := none }

end Progress

theorem receiveLoop_messages (p : Progress) : p.receiveLoop.messages = p.messages := by
  unfold Progress.receiveLoop
  split <;> rfl

theorem receiveLoop_tried (p : Progress) : p.receiveLoop.tried = p.tried := by
  unfold Progress.receiveLoop
  split <;> rfl

theorem receiveLoop_entering (p : Progress) : p.receiveLoop.entering = p.entering := by
  unfold Progress.receiveLoop
  split <;> rfl

/-- What an event does to the course of a cascade. -/
inductive Moves (p : Progress) : Event → Progress → Prop
  | quiet {e : Event} {task : Option ℕ} (htask : task = p.task ∨ task = none)
      (he : ∀ a message, e ≠ .received a message ∧ e ≠ .loopReceived a message) :
      Moves p e { p with task }
  | opened {k index : ℕ} (hk : p.entering[k]? = some index) :
      Moves p (.enter k) { p with
        stages := p.stages ++ [{ index }]
        tried := p.tried ++ [index]
        entering := p.entering.eraseIdx k
        task := some p.stages.length }
  | skipped {k index : ℕ} (hk : p.entering[k]? = some index) {next : List ℕ}
      (hnext : next = [] ∨ next = [index + 1]) :
      Moves p (.enter k) { p with
        tried := p.tried ++ [index]
        entering := p.entering.eraseIdx k ++ next }
  | started {a : ℕ} {s : Stage} (hs : p.stages[a]? = some s) (hnew : s.started = false) :
      Moves p (.start a) (p.onStage a .start)
  | received {a : ℕ} {s : Stage} (hs : p.stages[a]? = some s) (hrecv : s.recvPending = true)
      (message : Option Bytes) :
      Moves p (.received a message)
        (((p.onStage a fun s => s.recvDone.claim).deliver a message).receiveLoop)
  | recvDone {a : ℕ} {s : Stage} (hs : p.stages[a]? = some s) (hclaimed : s.claimed = true) :
      Moves p (.receiveFailed a) (p.onStage a .recvDone)
  | failed {a : ℕ} {s : Stage} (hs : p.stages[a]? = some s) (hopen : s.claimed = false)
      (hrecv : s.recvPending = true) :
      Moves p (.receiveFailed a) { (p.onStage a .recvDone).onStage a .claim with task := none }
  | advanced {a : ℕ} {s : Stage} (hs : p.stages[a]? = some s) (hopen : s.claimed = false)
      (hrecv : s.recvPending = true) :
      Moves p (.receiveFailed a) ((p.onStage a .recvDone).giveUp a s.index)
  | timerDone {a : ℕ} {s : Stage} (hs : p.stages[a]? = some s) :
      Moves p (.timer a) (p.onStage a .timerDone)
  | timedOut {a : ℕ} {s : Stage} (hs : p.stages[a]? = some s) (hopen : s.claimed = false)
      (htimer : s.timerPending = true) :
      Moves p (.timer a) ((p.onStage a .timerDone).giveUp a s.index)
  | looped {a : ℕ} {s : Stage} (hs : p.stages[a]? = some s) (hloop : 0 < s.loopPending)
      (message : Option Bytes) :
      Moves p (.loopReceived a message) (((p.onStage a .loopDone).deliver a message).receiveLoop)
  | loopDone {e : Event} {a : ℕ} {s : Stage} (hs : p.stages[a]? = some s)
      (hloop : 0 < s.loopPending)
      (he : (∃ message, e = .loopReceived a message) ∨ e = .loopFailed a) :
      Moves p e (p.onStage a .loopDone)

/-! ## The steps of a client -/

section

variable {c d : Client}

theorem onAttempt_progress (c : Client) (a : ℕ) {f : Attempt → Attempt} (g : Stage → Stage)
    (h : ∀ t, (f t).stage = g t.stage) : (c.onAttempt a f).progress = c.progress.onStage a g := by
  have hstages := c.onAttempt_map a Attempt.stage g h
  show Progress.mk _ _ _ _ _ = _
  rw [hstages]
  rfl

theorem onAttempt_progress_same (c : Client) (a : ℕ) {f : Attempt → Attempt}
    (h : ∀ t, (f t).stage = t.stage) : (c.onAttempt a f).progress = c.progress := by
  rw [onAttempt_progress c a id h]
  unfold Progress.onStage
  rw [List.modify_id]

theorem onTask_progress_same (c : Client) {f : Attempt → Attempt}
    (h : ∀ t, (f t).stage = t.stage) : (c.onTask f).progress = c.progress :=
  c.onTask_rule f (R := fun d => d.progress = c.progress) rfl fun a =>
    onAttempt_progress_same c a h

theorem receiveLoop_progress (c : Client) : c.receiveLoop.progress = c.progress.receiveLoop := by
  have htask : c.progress.task = c.task := rfl
  unfold Client.receiveLoop Client.onTask Progress.receiveLoop
  rw [htask]
  cases c.task with
  | none => rfl
  | some b =>
    have hmore (t : Attempt) :
        Attempt.stage { t with loopPending := t.loopPending + 1 } = t.stage.loopMore := rfl
    exact onAttempt_progress c b .loopMore hmore

theorem deliver_progress (c : Client) (a : ℕ) (message : Option Bytes) :
    (c.deliver a message).progress = c.progress.deliver a message := by
  cases message with
  | none =>
    show c.progress = Progress.mk _ _ _ (c.messages ++ []) _
    rw [List.append_nil]
    rfl
  | some data => rfl

theorem giveUp_progress (c : Client) (a : ℕ) (t : Attempt) :
    (c.giveUp a t).progress = c.progress.giveUp a t.index := by
  have h := onAttempt_progress c a (f := ({ · with claimed := true })) .claim fun _ => rfl
  show ({ (c.onAttempt a ({ · with claimed := true })).progress with
    entering := c.entering ++ [t.index + 1], task := none } : Progress) = _
  rw [h]
  rfl

theorem stages_getElem? {a : ℕ} {t : Attempt} (ht : c.attempts[a]? = some t) :
    c.progress.stages[a]? = some t.stage := by
  show (c.attempts.map Attempt.stage)[a]? = _
  rw [List.getElem?_map, ht]
  rfl

theorem exhausted_progress (c : Client) (index : ℕ) :
    (c.exhausted index).progress = { c.progress with tried := c.tried ++ [index] } := rfl

theorem openTask_progress (c : Client) (index : ℕ) (ep : Endpoint) :
    (c.openTask index ep).progress = { c.progress with
      stages := c.progress.stages ++ [{ index }]
      tried := c.tried ++ [index]
      task := some c.progress.stages.length } := by
  have hlen : c.progress.stages.length = c.attempts.length := List.length_map _
  rw [hlen]
  unfold Client.progress Client.openTask
  dsimp only
  rw [List.map_append]
  rfl

theorem startTask_progress (c : Client) (a : ℕ) :
    (c.startTask a).progress = c.progress.onStage a .start :=
  onAttempt_progress c a .start fun _ => rfl

theorem initSent_progress (c : Client) (a : ℕ) (ok : Bool) :
    (c.initSent a ok).progress = c.progress := by
  have h := onAttempt_progress_same c a
    (f := fun t => { t with initPending := false, delivered := t.delivered || ok }) fun _ => rfl
  unfold Client.initSent
  split_ifs
  · exact h
  · exact h

theorem received_progress (c : Client) (a : ℕ) (message : Option Bytes) :
    (c.received a message).progress =
      ((c.progress.onStage a fun s => s.recvDone.claim).deliver a message).receiveLoop := by
  have h := onAttempt_progress c a (f := fun t => { t with recvPending := false, claimed := true })
    (fun s => s.recvDone.claim) fun _ => rfl
  unfold Client.received
  dsimp only
  rw [receiveLoop_progress, deliver_progress, ← h]
  rfl

theorem loopDone_progress (c : Client) (a : ℕ) :
    (c.loopDone a).progress = c.progress.onStage a .loopDone :=
  onAttempt_progress c a .loopDone fun _ => rfl

theorem send_progress (c : Client) (data : Bytes) : (c.send data).progress = c.progress :=
  onTask_progress_same c (f := fun t => { t with
    frames := t.frames ++ [.data c.frames.length data] }) fun _ => rfl

theorem close_progress (c : Client) : c.close.progress = { c.progress with task := none } := by
  have h := onTask_progress_same c (f := ({ · with cancelled := true })) fun _ => rfl
  show ({ (c.onTask ({ · with cancelled := true })).progress with task := none } : Progress) = _
  rw [h]

theorem fail_progress (c : Client) (a : ℕ) (t : Attempt) :
    (c.fail a t).progress =
      if t.claimed then c.progress else { c.progress.onStage a .claim with task := none } := by
  have h := onAttempt_progress c a (f := ({ · with claimed := true })) .claim fun _ => rfl
  unfold Client.fail
  split_ifs
  · rfl
  · rw [← h]
    rfl

theorem advance_progress (c : Client) (a : ℕ) (t : Attempt) :
    (c.advance a t).progress = if t.claimed then c.progress else c.progress.giveUp a t.index := by
  unfold Client.advance
  split_ifs
  · rfl
  · exact giveUp_progress c a t

/-- The first receive fails. -/
theorem receiveFailed_moves {a : ℕ} {t : Attempt} (ht : c.attempts[a]? = some t)
    (hrecv : t.recvPending = true) :
    Moves c.progress (.receiveFailed a) (c.receiveFailed a t).progress := by
  have hs := stages_getElem? ht
  have hdone := onAttempt_progress c a (f := ({ · with recvPending := false })) .recvDone
    fun _ => rfl
  have hfail := fail_progress (c.onAttempt a ({ · with recvPending := false })) a t
  have hadvance := advance_progress ((c.onAttempt a ({ · with recvPending := false })).markDead
    t.host) a t
  have hmark : ((c.onAttempt a ({ · with recvPending := false })).markDead t.host).progress =
      c.progress.onStage a .recvDone := hdone
  rw [hdone] at hfail
  rw [hmark] at hadvance
  show Moves c.progress _ (Client.progress (if c.firstRecv = true then _ else _))
  by_cases hclaimed : t.claimed = true
  · rw [if_pos hclaimed] at hfail hadvance
    split_ifs
    · rw [hfail]
      exact .recvDone hs hclaimed
    · rw [hadvance]
      exact .recvDone hs hclaimed
  · have hopen := eq_false_of_ne_true hclaimed
    rw [if_neg hclaimed] at hfail hadvance
    split_ifs
    · rw [hfail]
      exact .failed hs hopen hrecv
    · rw [hadvance]
      exact .advanced hs hopen hrecv

/-- The timer runs out. -/
theorem timer_moves {a : ℕ} {t : Attempt} (ht : c.attempts[a]? = some t)
    (htimer : t.timerPending = true) :
    Moves c.progress (.timer a) (c.timer a t).progress := by
  have hs := stages_getElem? ht
  have hdone := onAttempt_progress c a (f := ({ · with timerPending := false })) .timerDone
    fun _ => rfl
  show Moves c.progress _ (Client.progress (if t.delivered = true ∨ t.claimed = true then _ else _))
  split_ifs with hover
  · rw [hdone]
    exact .timerDone hs
  · have hopen := eq_false_of_ne_true (not_or.mp hover).2
    have hcancel := onAttempt_progress_same
      ((c.onAttempt a ({ · with timerPending := false })).markDead t.host) a
      (f := ({ · with cancelled := true })) fun _ => rfl
    have hmark : ((c.onAttempt a ({ · with timerPending := false })).markDead t.host).progress =
        c.progress.onStage a .timerDone := hdone
    rw [giveUp_progress, hcancel, hmark]
    exact .timedOut hs hopen htimer

theorem loopReceived_moves {a : ℕ} {t : Attempt} (ht : c.attempts[a]? = some t)
    (hloop : 0 < t.loopPending) (message : Option Bytes) :
    Moves c.progress (.loopReceived a message) (c.loopReceived a message).progress := by
  have hs := stages_getElem? ht
  have hdone := loopDone_progress c a
  unfold Client.loopReceived
  split_ifs
  · dsimp only
    rw [receiveLoop_progress, deliver_progress]
    have hflags (d : Client) (up : Bool) :
        ({ d with firstRecv := true, upPosted := up } : Client).progress = d.progress := rfl
    rw [hflags, hdone]
    exact .looped hs hloop message
  · rw [hdone]
    exact .loopDone hs hloop (Or.inl ⟨message, rfl⟩)

theorem loopFailed_moves {a : ℕ} {t : Attempt} (ht : c.attempts[a]? = some t)
    (hloop : 0 < t.loopPending) :
    Moves c.progress (.loopFailed a) (c.loopFailed a).progress := by
  have hs := stages_getElem? ht
  have hdone : (c.loopFailed a).progress = c.progress.onStage a .loopDone := by
    have h := loopDone_progress c a
    unfold Client.loopFailed
    split_ifs
    · exact h
    · exact h
  rw [hdone]
  exact .loopDone hs hloop (Or.inr rfl)

/-- An entry into `tryConnect`. -/
theorem enter_moves (urlOk : String → Bool) {k index : ℕ} (hk : c.entering[k]? = some index) :
    Moves c.progress (.enter k)
      (({ c with entering := c.entering.eraseIdx k }).tryEnter urlOk index).progress := by
  have hskip (next : List ℕ) (hnext : next = [] ∨ next = [index + 1]) :=
    Moves.skipped (p := c.progress) hk hnext
  unfold Client.tryEnter
  split
  · have hnone := hskip [] (Or.inl rfl)
    rw [List.append_nil] at hnone
    exact hnone
  · split_ifs
    · rw [openTask_progress]
      exact .opened hk
    · exact hskip [index + 1] (Or.inr rfl)

/-- Every step of a client is a move of its cascade. -/
theorem step_moves {urlOk : String → Bool} {late : Bool} {e : Event}
    (h : c.step urlOk late e = some d) : Moves c.progress e d.progress := by
  have hquiet {e : Event} (hsame : d.progress = c.progress)
      (he : ∀ a message, e ≠ .received a message ∧ e ≠ .loopReceived a message) :
      Moves c.progress e d.progress := by
    rw [hsame]
    exact .quiet (Or.inl rfl) he
  cases Client.effect_of_step h with
  | enter k index hk => exact enter_moves urlOk hk
  | start a t ht hnew =>
    rw [startTask_progress]
    exact .started (stages_getElem? ht) hnew
  | initSent a ok => exact hquiet (initSent_progress c a ok) fun _ _ => ⟨nofun, nofun⟩
  | received a message t ht hp =>
    rw [received_progress]
    exact .received (stages_getElem? ht) hp message
  | receiveFailed a t ht hp => exact receiveFailed_moves ht hp
  | timer a t ht hp => exact timer_moves ht hp
  | loopReceived a message t ht hp => exact loopReceived_moves ht hp message
  | loopFailed a t ht hp => exact loopFailed_moves ht hp
  | send data => exact hquiet (send_progress c data) fun _ _ => ⟨nofun, nofun⟩
  | close =>
    rw [close_progress]
    exact .quiet (Or.inr rfl) fun _ _ => ⟨nofun, nofun⟩
  | release => exact hquiet rfl fun _ _ => ⟨nofun, nofun⟩

end

/-! ## The cascade is linear -/

/-- The indices have been tried in order, one at most is about to be tried, and
an attempt that is not claimed is the last one, with nothing about to be
tried. -/
structure Linear (p : Progress) : Prop where
  tried : p.tried = List.range p.tried.length
  entering : p.entering = [] ∨ p.entering = [p.tried.length]
  index_lt : ∀ s ∈ p.stages, s.index < p.tried.length
  open_last : ∀ a s, p.stages[a]? = some s → s.claimed = false →
    p.entering = [] ∧ a + 1 = p.stages.length ∧ s.index + 1 = p.tried.length

section

variable {p q : Progress}

/-- A stage after a change of one stage. -/
theorem onStage_getElem? {a b : ℕ} {f : Stage → Stage} {s : Stage}
    (h : (p.onStage a f).stages[b]? = some s) :
    ∃ s₀, p.stages[b]? = some s₀ ∧ s = if a = b then f s₀ else s₀ := by
  have h' : (p.stages.modify a f)[b]? = some s := h
  rw [List.getElem?_modify] at h'
  obtain ⟨s₀, hs₀, rfl⟩ := Option.map_eq_some_iff.mp h'
  refine ⟨s₀, hs₀, ?_⟩
  split_ifs <;> rfl

theorem onStage_of_some {a b : ℕ} {s : Stage} (hs : p.stages[b]? = some s) (f : Stage → Stage) :
    (p.onStage a f).stages[b]? = some (if a = b then f s else s) := by
  show (p.stages.modify a f)[b]? = _
  rw [List.getElem?_modify, hs]
  rfl

theorem onStage_onStage (p : Progress) (a : ℕ) (f g : Stage → Stage) :
    (p.onStage a f).onStage a g = p.onStage a (g ∘ f) := by
  unfold Progress.onStage
  rw [List.modify_modify_eq]

theorem onStage_self {a : ℕ} {s : Stage} (hs : p.stages[a]? = some s) (f : Stage → Stage) :
    (p.onStage a f).stages[a]? = some (f s) := by
  rw [onStage_of_some hs, if_pos rfl]

/-- Flags may change, but a claim is for good. -/
theorem Linear.onStage (hl : Linear p) (a : ℕ) {f : Stage → Stage}
    (hindex : ∀ s, (f s).index = s.index) (hclaim : ∀ s, s.claimed = true → (f s).claimed = true) :
    Linear (p.onStage a f) := by
  refine ⟨hl.tried, hl.entering, ?_, ?_⟩
  · intro s hs
    rcases mem_modify hs with hs | ⟨s₀, hs₀, rfl⟩
    · exact hl.index_lt s hs
    · rw [hindex]
      exact hl.index_lt s₀ (List.mem_of_getElem? hs₀)
  · intro b s hs hopen
    obtain ⟨s₀, hs₀, rfl⟩ := onStage_getElem? hs
    have hlen : (p.onStage a f).stages.length = p.stages.length := List.length_modify ..
    rw [hlen]
    split_ifs at hopen ⊢
    · have hopen₀ : s₀.claimed = false := by
        by_contra h
        rw [hclaim s₀ (eq_true_of_ne_false h)] at hopen
        cases hopen
      rw [hindex]
      exact hl.open_last b s₀ hs₀ hopen₀
    · exact hl.open_last b s₀ hs₀ hopen

theorem Linear.setTask (hl : Linear p) (messages : List (ℕ × Bytes)) (task : Option ℕ) :
    Linear { p with messages, task } := ⟨hl.tried, hl.entering, hl.index_lt, hl.open_last⟩

theorem Linear.receiveLoop (hl : Linear p) : Linear p.receiveLoop := by
  unfold Progress.receiveLoop
  split
  · exact hl.onStage _ (fun _ => rfl) fun _ h => h
  · exact hl

/-- An attempt that is not claimed gives up: the next index is about to be
tried, and no attempt is left unclaimed. -/
theorem Linear.giveUp (hl : Linear p) {a : ℕ} {s : Stage} (hs : p.stages[a]? = some s)
    (hopen : s.claimed = false) : Linear (p.giveUp a s.index) := by
  obtain ⟨hentering, hlast, hindex⟩ := hl.open_last a s hs hopen
  have hclaimed := hl.onStage a (f := .claim) (fun _ => rfl) fun _ _ => rfl
  refine ⟨hl.tried, Or.inr ?_, hclaimed.index_lt, ?_⟩
  · show p.entering ++ [s.index + 1] = [p.tried.length]
    rw [hentering, hindex]
    rfl
  · intro b s' hs' hopen'
    obtain ⟨-, hlast', -⟩ := hclaimed.open_last b s' hs' hopen'
    obtain ⟨s₀, -, rfl⟩ := onStage_getElem? hs'
    have hlen : (p.onStage a .claim).stages.length = p.stages.length := List.length_modify ..
    rw [hlen] at hlast'
    rw [if_pos (by omega)] at hopen'
    cases hopen'

/-- The index that is about to be tried is the next one, and every attempt is
claimed. -/
theorem Linear.entered (hl : Linear p) {k index : ℕ} (hk : p.entering[k]? = some index) :
    index = p.tried.length ∧ p.entering.eraseIdx k = [] ∧ ∀ s ∈ p.stages, s.claimed = true := by
  rcases hl.entering with hnone | hone
  · rw [hnone] at hk
    cases hk
  · have hk' : k = 0 ∧ index = p.tried.length := by
      rw [hone, List.getElem?_singleton] at hk
      split_ifs at hk with h
      exact ⟨h, (Option.some.inj hk).symm⟩
    refine ⟨hk'.2, ?_, ?_⟩
    · rw [hone, hk'.1]
      rfl
    · intro s hs
      by_contra hopen
      obtain ⟨a, ha⟩ := List.mem_iff_getElem?.mp hs
      obtain ⟨hnone, -⟩ := hl.open_last a s ha (eq_false_of_ne_true hopen)
      rw [hnone] at hone
      cases hone

theorem range_concat (n : ℕ) : List.range n ++ [n] = List.range (n + 1) := List.range_succ.symm

/-- Every move keeps the cascade linear. -/
theorem Linear.move (hl : Linear p) {e : Event} (hm : Moves p e q) : Linear q := by
  cases hm with
  | quiet htask he => exact hl.setTask p.messages _
  | opened hk =>
    obtain ⟨rfl, herase, hclaimed⟩ := hl.entered hk
    refine ⟨?_, Or.inl herase, ?_, ?_⟩
    · show p.tried ++ [p.tried.length] = List.range (p.tried ++ [p.tried.length]).length
      rw [List.length_append, List.length_singleton, ← range_concat, ← hl.tried]
    · intro s hs
      show s.index < (p.tried ++ [p.tried.length]).length
      rw [List.length_append, List.length_singleton]
      rcases List.mem_append.mp hs with hs | hs
      · exact Nat.lt_succ_of_lt (hl.index_lt s hs)
      · rw [List.mem_singleton.mp hs]
        exact Nat.lt_succ_self _
    · intro a s hs hopen
      refine ⟨herase, ?_⟩
      have hs' : (p.stages ++ [{ index := p.tried.length }])[a]? = some s := hs
      show a + 1 = (p.stages ++ [_]).length ∧ s.index + 1 = (p.tried ++ [p.tried.length]).length
      rw [List.length_append, List.length_append, List.length_singleton, List.length_singleton]
      rw [List.getElem?_append] at hs'
      split_ifs at hs' with hlt
      · rw [hclaimed s (List.mem_of_getElem? hs')] at hopen
        cases hopen
      · rw [List.getElem?_singleton] at hs'
        split_ifs at hs' with hzero
        obtain rfl := Option.some.inj hs'
        exact ⟨by omega, rfl⟩
  | @skipped k index hk next hnext =>
    obtain ⟨rfl, herase, hclaimed⟩ := hl.entered hk
    have hlen : (p.tried ++ [p.tried.length]).length = p.tried.length + 1 := by simp
    refine ⟨?_, ?_, ?_, ?_⟩
    · show p.tried ++ [p.tried.length] = List.range (p.tried ++ [p.tried.length]).length
      rw [hlen, ← range_concat, ← hl.tried]
    · show p.entering.eraseIdx k ++ next = [] ∨
        p.entering.eraseIdx k ++ next = [(p.tried ++ [p.tried.length]).length]
      rw [herase, hlen]
      exact hnext
    · intro s hs
      show s.index < (p.tried ++ [p.tried.length]).length
      rw [hlen]
      exact Nat.lt_succ_of_lt (hl.index_lt s hs)
    · intro a s hs hopen
      rw [hclaimed s (List.mem_of_getElem? hs)] at hopen
      cases hopen
  | started hs hnew => exact hl.onStage _ (fun _ => rfl) fun _ h => h
  | @received a _ _ _ message =>
    have hclaim := hl.onStage a (f := fun s => s.recvDone.claim) (fun _ => rfl) fun _ _ => rfl
    exact (hclaim.setTask _ p.task).receiveLoop
  | recvDone hs hclaimed => exact hl.onStage _ (fun _ => rfl) fun _ h => h
  | @failed a _ _ _ _ =>
    have hdone := hl.onStage a (f := .recvDone) (fun _ => rfl) fun _ h => h
    have hclaim := hdone.onStage a (f := .claim) (fun _ => rfl) fun _ _ => rfl
    exact hclaim.setTask p.messages none
  | @advanced a s hs hopen _ =>
    have hdone := hl.onStage a (f := .recvDone) (fun _ => rfl) fun _ h => h
    exact hdone.giveUp (s := s.recvDone) (onStage_self hs .recvDone) hopen
  | timerDone hs => exact hl.onStage _ (fun _ => rfl) fun _ h => h
  | @timedOut a s hs hopen _ =>
    have hdone := hl.onStage a (f := .timerDone) (fun _ => rfl) fun _ h => h
    exact hdone.giveUp (s := s.timerDone) (onStage_self hs .timerDone) hopen
  | @looped a _ _ _ message =>
    have hdone := hl.onStage a (f := .loopDone) (fun _ => rfl) fun _ h => h
    exact (hdone.setTask _ p.task).receiveLoop
  | loopDone hs hloop he => exact hl.onStage _ (fun _ => rfl) fun _ h => h

end

/-! ## The start -/

/-- The first stage of a cascade: its callbacks are queued. -/
def Stage.first (index : ℕ) : Stage := Stage.start { index }

theorem tryConnect_progress (urlOk : String → Bool) (c : Client) (index : ℕ)
    (h : c.progress = ⟨[], List.range index, [], [], none⟩) :
    ∃ n, (c.tryConnect urlOk index).progress = ⟨[], List.range (n + 1), [], [], none⟩ ∨
      (c.tryConnect urlOk index).progress =
        ⟨[Stage.first n], List.range (n + 1), [], [], some 0⟩ := by
  have htried : c.tried = List.range index := congrArg Progress.tried h
  induction c, index using Client.tryConnect.induct urlOk with
  | case1 c index hnone =>
    refine ⟨index, Or.inl ?_⟩
    rw [tryConnect_none urlOk c hnone, exhausted_progress, h, htried, range_concat]
  | case2 c index ep hep hok =>
    refine ⟨index, Or.inr ?_⟩
    have hlen : c.attempts.length = 0 := by
      have := congrArg (·.stages.length) h
      simpa [Client.progress] using this
    rw [tryConnect_ok c hep hok, startTask_progress, openTask_progress, h, htried, range_concat,
      hlen]
    rfl
  | case3 c index ep hep hbad ih =>
    rw [tryConnect_bad c hep hbad]
    refine ih ?_ ?_
    · show ({ c.progress with tried := c.tried ++ [index] } : Progress) = _
      rw [h, htried, range_concat]
    · show c.tried ++ [index] = _
      rw [htried, range_concat]

/-- `connect` has tried the indices up to some `n`, whose task is open if there
is an endpoint left. -/
theorem connect_progress (urlOk : String → Bool) (endpoints : List Endpoint) (initFrame : Bytes) :
    ∃ n, (Client.connect urlOk endpoints initFrame).progress =
        ⟨[], List.range (n + 1), [], [], none⟩ ∨
      (Client.connect urlOk endpoints initFrame).progress =
        ⟨[Stage.first n], List.range (n + 1), [], [], some 0⟩ :=
  tryConnect_progress urlOk { endpoints, initFrame } 0 rfl

theorem stage_of_singleton {a : ℕ} {s s₀ : Stage} (hs : [s₀][a]? = some s) : a = 0 ∧ s = s₀ := by
  rw [List.getElem?_singleton] at hs
  split_ifs at hs with ha
  exact ⟨ha, (Option.some.inj hs).symm⟩

theorem linear_first (n : ℕ) : Linear ⟨[Stage.first n], List.range (n + 1), [], [], some 0⟩ := by
  refine ⟨?_, Or.inl rfl, ?_, ?_⟩
  · exact congrArg List.range List.length_range.symm
  · intro s hs
    obtain rfl := List.mem_singleton.mp hs
    show n < (List.range (n + 1)).length
    rw [List.length_range]
    exact Nat.lt_succ_self n
  · intro a s hs _
    obtain ⟨rfl, rfl⟩ := stage_of_singleton hs
    exact ⟨rfl, rfl, List.length_range.symm⟩

theorem linear_connect (urlOk : String → Bool) (endpoints : List Endpoint) (initFrame : Bytes) :
    Linear (Client.connect urlOk endpoints initFrame).progress := by
  obtain ⟨n, h | h⟩ := connect_progress urlOk endpoints initFrame
  · rw [h]
    exact ⟨congrArg List.range List.length_range.symm, Or.inl rfl, nofun, nofun⟩
  · rw [h]
    exact linear_first n

end WSBridge.Cascade
