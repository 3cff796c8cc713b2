import WSBridge.Upstream.AESCTR

/-!
# The endpoint cascade (`Tunnel/WSClient.swift`, `connect`)

`tryConnect` opens a web-socket task per endpoint until one answers. Its three
callbacks (completion of the init send, first receive, 5 s timer), the receive
loop, and the session's `send` and `close` run on different queues, so a client
is a state and an `Event` for each piece that runs without interruption. A
failover is three of them: the callback that gives the endpoint up and sets
`task` to `nil`, the entry into `tryConnect` that sets `task` to the next task
(`enter`), and the part of `tryConnect` that queues the init frame, the receive
and the timer (`start`).

Assumed of URLSession: a callback runs once, and only for a call that was made.
A cancelled task completes its pending receive with failure; the parameter
`late` says whether a message that was under way may come instead.
`URL(string:)` is the parameter `urlOk`.

The client lives as long as the session holds it or a closure does. The init
completion and the timer capture it strongly, and so does the first receive,
through `advance` and `fail`; the receives of the loop only have `[weak self]`
and do nothing once the client is gone.

A session frame carries the number of the `send` call it came from, so that
equal byte strings are told apart. The fields under "history" are not in the
code; they record what it has done.
-/

namespace WSBridge.Cascade

/-- An entry of the cascade (`WSClient.swift:122-125`). -/
structure Endpoint where
  host : String
  hostHeader : Option String
  deriving DecidableEq, Repr

/-- A frame enqueued on a web-socket task. -/
inductive Frame where
  | init (bytes : Bytes)
  | data (seq : ℕ) (bytes : Bytes)
  deriving DecidableEq, Repr

/-- One activation of `tryConnect` that created a task: the task, its
`TryState` (lines 232–242) and its outstanding callbacks. -/
structure Attempt where
  index : ℕ
  host : String
  /-- The frames enqueued on the task. -/
  frames : List Frame := []
  cancelled : Bool := false
  claimed : Bool := false
  delivered : Bool := false
  /-- `tryConnect` has queued the init frame, the receive and the timer. -/
  started : Bool := false
  initPending : Bool := false
  recvPending : Bool := false
  timerPending : Bool := false
  /-- Receives of `receiveLoop` outstanding on the task. -/
  loopPending : ℕ := 0
  /-- History: how many frames the session had sent when the task was created. -/
  base : ℕ := 0
  deriving DecidableEq, Repr

/-- A receive on the task can complete with a message. -/
def Attempt.canReceive (late : Bool) (t : Attempt) : Bool := late || !t.cancelled

/-- The running `tryConnect` or one of its closures holds the client. -/
def Attempt.holds (t : Attempt) : Bool :=
  !t.started || t.initPending || t.recvPending || t.timerPending

/-- A `WSClient` in `connect` mode. -/
structure Client where
  endpoints : List Endpoint
  initFrame : Bytes
  /-- `task`, as the number of the attempt that created it. -/
  task : Option ℕ := none
  connected : Bool := false
  firstRecv : Bool := false
  upPosted : Bool := false
  attempts : List Attempt := []
  /-- The session holds the client. -/
  held : Bool := true
  /-- Activations of `tryConnect` about to look at the endpoint of this index. -/
  entering : List ℕ := []
  /-- History: the indices `tryConnect` was entered with. -/
  tried : List ℕ := []
  /-- History: the frames the session has sent. -/
  frames : List Frame := []
  /-- History: the `onMessage` calls, with the task each message came from. -/
  messages : List (ℕ × Bytes) := []
  /-- History: the number of `onClose` calls. -/
  closes : ℕ := 0
  /-- History: the hosts passed to `markDead`. -/
  marked : List String := []
  deriving DecidableEq, Repr

/-- What happens next. `attempt` is the number of the attempt whose callback
runs; a message is `none` where it is not binary data. -/
inductive Event where
  | enter (k : ℕ)
  | start (attempt : ℕ)
  | initSent (attempt : ℕ) (ok : Bool)
  | received (attempt : ℕ) (message : Option Bytes)
  | receiveFailed (attempt : ℕ)
  | timer (attempt : ℕ)
  | loopReceived (attempt : ℕ) (message : Option Bytes)
  | loopFailed (attempt : ℕ)
  | send (data : Bytes)
  | close
  | release
  deriving DecidableEq, Repr

theorem mem_modify {α : Type*} {f : α → α} {l : List α} {i : ℕ} {x : α} (h : x ∈ l.modify i f) :
    x ∈ l ∨ ∃ y, l[i]? = some y ∧ x = f y := by
  obtain ⟨j, hj⟩ := List.mem_iff_getElem?.mp h
  rw [List.getElem?_modify] at hj
  obtain ⟨y, hy, rfl⟩ := Option.map_eq_some_iff.mp hj
  split_ifs with hij
  · exact Or.inr ⟨y, hij ▸ hy, rfl⟩
  · exact Or.inl (List.mem_of_getElem? hy)

namespace Client

/-- `self` is not `nil` in a closure that holds it weakly. -/
def alive (c : Client) : Bool := c.held || !c.entering.isEmpty || c.attempts.any (·.holds)

/-- Change attempt number `a`. -/
def onAttempt (c : Client) (a : ℕ) (f : Attempt → Attempt) : Client :=
  { c with attempts := c.attempts.modify a f }

theorem onAttempt_map {β : Type*} (c : Client) (a : ℕ) {f : Attempt → Attempt} (g : Attempt → β)
    (f' : β → β) (h : ∀ t, g (f t) = f' (g t)) :
    (c.onAttempt a f).attempts.map g = (c.attempts.map g).modify a f' := by
  apply List.ext_getElem?
  intro j
  simp only [onAttempt, List.getElem?_map, List.getElem?_modify]
  cases c.attempts[j]? with
  | none => rfl
  | some t =>
    simp only [Option.map_eq_map, Option.map_some]
    split_ifs
    · rw [h]
    · rfl

/-- Change the attempt `task` belongs to, if any (`task?.…`). -/
def onTask (c : Client) (f : Attempt → Attempt) : Client :=
  match c.task with
  | some a => c.onAttempt a f
  | none => c

/-- What holds of the client, and however its attempt number `a` changes, holds
after a change of the current task. -/
theorem onTask_rule {R : Client → Prop} (c : Client) (f : Attempt → Attempt) (hself : R c)
    (hattempt : ∀ a, R (c.onAttempt a f)) : R (c.onTask f) := by
  unfold onTask
  split
  · exact hattempt _
  · exact hself

/-! ## `tryConnect` -/

/-- Lines 135–140: no endpoint is left. -/
def exhausted (c : Client) (index : ℕ) : Client :=
  { c with tried := c.tried ++ [index], closes := c.closes + 1 }

/-- Lines 149–155: a task for the endpoint, and `task` set to it. -/
def openTask (c : Client) (index : ℕ) (ep : Endpoint) : Client :=
  { c with
    tried := c.tried ++ [index]
    attempts := c.attempts ++ [{ index, host := ep.host, base := c.frames.length }]
    task := some c.attempts.length }

/-- Lines 176–227: the init frame, the receive and the timer. -/
def startTask (c : Client) (a : ℕ) : Client :=
  c.onAttempt a fun t =>
    { t with frames := t.frames ++ [.init c.initFrame], started := true, initPending := true,
             recvPending := true, timerPending := true }

/-- The entry into `tryConnect(index:)` (lines 134–155). An endpoint whose URL
does not parse is skipped by a call with the next index. -/
def tryEnter (urlOk : String → Bool) (c : Client) (index : ℕ) : Client :=
  match c.endpoints[index]? with
  | none => c.exhausted index
  | some ep =>
    if urlOk ep.host then c.openTask index ep
    else { c with tried := c.tried ++ [index], entering := c.entering ++ [index + 1] }

/-- `tryConnect` as `connect` calls it: the whole recursion runs before
`connect` returns. -/
def tryConnect (urlOk : String → Bool) (c : Client) (index : ℕ) : Client :=
  match h : c.endpoints[index]? with
  | none => c.exhausted index
  | some ep =>
    if urlOk ep.host then (c.openTask index ep).startTask c.attempts.length
    else tryConnect urlOk { c with tried := c.tried ++ [index] } (index + 1)
termination_by c.endpoints.length - index
decreasing_by
  have := (List.getElem?_eq_some_iff.mp h).1
  omega

theorem tryConnect_none (urlOk : String → Bool) (c : Client) {index : ℕ}
    (h : c.endpoints[index]? = none) : c.tryConnect urlOk index = c.exhausted index := by
  rw [Client.tryConnect]
  split
  · rfl
  · rename_i ep hep
    rw [h] at hep
    cases hep

theorem tryConnect_ok {urlOk : String → Bool} (c : Client) {index : ℕ} {ep : Endpoint}
    (h : c.endpoints[index]? = some ep) (hok : urlOk ep.host = true) :
    c.tryConnect urlOk index = (c.openTask index ep).startTask c.attempts.length := by
  rw [Client.tryConnect]
  split
  · rename_i hnone
    rw [h] at hnone
    cases hnone
  · rename_i ep' hep
    obtain rfl : ep = ep' := Option.some.inj (h.symm.trans hep)
    rw [if_pos hok]

theorem tryConnect_bad {urlOk : String → Bool} (c : Client) {index : ℕ} {ep : Endpoint}
    (h : c.endpoints[index]? = some ep) (hbad : ¬ urlOk ep.host = true) :
    c.tryConnect urlOk index =
      Client.tryConnect urlOk { c with tried := c.tried ++ [index] } (index + 1) := by
  rw [Client.tryConnect]
  split
  · rename_i hnone
    rw [h] at hnone
    cases hnone
  · rename_i ep' hep
    obtain rfl : ep = ep' := Option.some.inj (h.symm.trans hep)
    rw [if_neg hbad]

/-- `connect(dc:isMedia:isTestDC:initFrame:onMessage:onClose:)` (lines 111–132)
on a new client, for the endpoint list it has built. -/
def connect (urlOk : String → Bool) (endpoints : List Endpoint) (initFrame : Bytes) : Client :=
  tryConnect urlOk { endpoints, initFrame } 0

/-! ## Callbacks -/

/-- `advance()` (lines 163–167) of attempt `a`, and the end of the timer
closure (lines 221–226). -/
def giveUp (c : Client) (a : ℕ) (t : Attempt) : Client :=
  { c.onAttempt a ({ · with claimed := true }) with
    task := none
    entering := c.entering ++ [t.index + 1] }

/-- `advance()` (lines 163–167). -/
def advance (c : Client) (a : ℕ) (t : Attempt) : Client := if t.claimed then c else c.giveUp a t

/-- `fail()` (lines 168–173). -/
def fail (c : Client) (a : ℕ) (t : Attempt) : Client :=
  if t.claimed then c
  else
    { c.onAttempt a ({ · with claimed := true }) with
      task := none
      closes := c.closes + 1 }

/-- `markDead(_:)` (lines 90–93). -/
def markDead (c : Client) (host : String) : Client := { c with marked := c.marked ++ [host] }

/-- `onMessage(data)` for a message from attempt `a`. -/
def deliver (c : Client) (a : ℕ) : Option Bytes → Client
  | some data => { c with firstRecv := true, messages := c.messages ++ [(a, data)] }
  | none => c

/-- `receiveLoop` (lines 285–286): one more receive on the current task. -/
def receiveLoop (c : Client) : Client :=
  c.onTask fun t => { t with loopPending := t.loopPending + 1 }

/-- The completion of the init send (lines 179–189). -/
def initSent (c : Client) (a : ℕ) (ok : Bool) : Client :=
  let c := c.onAttempt a fun t => { t with initPending := false, delivered := t.delivered || ok }
  if ok then { c with upPosted := true } else c

/-- The first receive succeeds (lines 194–202). -/
def received (c : Client) (a : ℕ) (message : Option Bytes) : Client :=
  let c := c.onAttempt a fun t => { t with recvPending := false, claimed := true }
  (({ c with connected := true }).deliver a message).receiveLoop

/-- The first receive fails (lines 203–213). -/
def receiveFailed (c : Client) (a : ℕ) (t : Attempt) : Client :=
  let c := c.onAttempt a ({ · with recvPending := false })
  if c.firstRecv then c.fail a t else (c.markDead t.host).advance a t

/-- The timer closure (lines 219–227). -/
def timer (c : Client) (a : ℕ) (t : Attempt) : Client :=
  let c := c.onAttempt a ({ · with timerPending := false })
  if t.delivered ∨ t.claimed then c
  else ((c.markDead t.host).onAttempt a ({ · with cancelled := true })).giveUp a t

/-- A receive of the loop ends. -/
def loopDone (c : Client) (a : ℕ) : Client :=
  c.onAttempt a fun t => { t with loopPending := t.loopPending - 1 }

/-- A receive of the loop succeeds (lines 287–300). -/
def loopReceived (c : Client) (a : ℕ) (message : Option Bytes) : Client :=
  if c.alive then
    let c := c.loopDone a
    let c := { c with firstRecv := true, upPosted := c.upPosted || !c.firstRecv }
    (c.deliver a message).receiveLoop
  else c.loopDone a

/-- A receive of the loop fails (lines 287, 301–308). -/
def loopFailed (c : Client) (a : ℕ) : Client :=
  if c.alive then { c.loopDone a with connected := false, closes := c.closes + 1 } else c.loopDone a

/-! ## The session's calls -/

/-- `send(_:)` without a relay connection (lines 324–332). -/
def send (c : Client) (data : Bytes) : Client :=
  let frame := Frame.data c.frames.length data
  { c.onTask fun t => { t with frames := t.frames ++ [frame] } with frames := c.frames ++ [frame] }

/-- `close()` without a relay connection (lines 340, 346–347). -/
def close (c : Client) : Client :=
  { c.onTask ({ · with cancelled := true }) with
    connected := false
    task := none }

/-- The session lets go of the client (`ws = nil`, or the session's own end). -/
def release (c : Client) : Client := { c with held := false }

/-! ## Steps -/

/-- Run `f` on attempt `a` if its callback `p` is outstanding. -/
def callback (c : Client) (a : ℕ) (p : Attempt → Bool) (f : Attempt → Client) : Option Client :=
  match c.attempts[a]? with
  | some t => if p t then some (f t) else none
  | none => none

theorem callback_eq_some {c d : Client} {a : ℕ} {p : Attempt → Bool} {f : Attempt → Client} :
    c.callback a p f = some d ↔ ∃ t, c.attempts[a]? = some t ∧ p t = true ∧ d = f t := by
  unfold Client.callback
  cases c.attempts[a]? with
  | none => simp
  | some t =>
    simp only [Option.some.injEq, exists_eq_left']
    split_ifs with hp
    · simp [hp, eq_comm]
    · simp [hp]

/-- The state an event leads to, where it can happen. -/
def step (urlOk : String → Bool) (late : Bool) (c : Client) : Event → Option Client
  | .enter k =>
    match c.entering[k]? with
    | some index => some (({ c with entering := c.entering.eraseIdx k }).tryEnter urlOk index)
    | none => none
  | .start a => c.callback a (!·.started) fun _ => c.startTask a
  | .initSent a ok => c.callback a (·.initPending) fun _ => c.initSent a ok
  | .received a message =>
    c.callback a (fun t => t.recvPending && t.canReceive late) fun _ => c.received a message
  | .receiveFailed a => c.callback a (·.recvPending) fun t => c.receiveFailed a t
  | .timer a => c.callback a (·.timerPending) fun t => c.timer a t
  | .loopReceived a message =>
    c.callback a (fun t => 0 < t.loopPending && t.canReceive late) fun _ =>
      c.loopReceived a message
  | .loopFailed a => c.callback a (0 < ·.loopPending) fun _ => c.loopFailed a
  | .send data => if c.held then some (c.send data) else none
  | .close => if c.held then some c.close else none
  | .release => some c.release

/-- `step` as a relation: what an event finds, and the client after it. -/
inductive Effect (urlOk : String → Bool) (late : Bool) (c : Client) : Event → Client → Prop where
  | enter (k index : ℕ) (hk : c.entering[k]? = some index) :
      Effect urlOk late c (.enter k)
        (({ c with entering := c.entering.eraseIdx k }).tryEnter urlOk index)
  | start (a : ℕ) (t : Attempt) (ht : c.attempts[a]? = some t) (hnew : t.started = false) :
      Effect urlOk late c (.start a) (c.startTask a)
  | initSent (a : ℕ) (ok : Bool) (t : Attempt) (ht : c.attempts[a]? = some t)
      (hp : t.initPending = true) : Effect urlOk late c (.initSent a ok) (c.initSent a ok)
  | received (a : ℕ) (message : Option Bytes) (t : Attempt) (ht : c.attempts[a]? = some t)
      (hp : t.recvPending = true) (hcan : t.canReceive late = true) :
      Effect urlOk late c (.received a message) (c.received a message)
  | receiveFailed (a : ℕ) (t : Attempt) (ht : c.attempts[a]? = some t)
      (hp : t.recvPending = true) : Effect urlOk late c (.receiveFailed a) (c.receiveFailed a t)
  | timer (a : ℕ) (t : Attempt) (ht : c.attempts[a]? = some t) (hp : t.timerPending = true) :
      Effect urlOk late c (.timer a) (c.timer a t)
  | loopReceived (a : ℕ) (message : Option Bytes) (t : Attempt) (ht : c.attempts[a]? = some t)
      (hp : 0 < t.loopPending) (hcan : t.canReceive late = true) :
      Effect urlOk late c (.loopReceived a message) (c.loopReceived a message)
  | loopFailed (a : ℕ) (t : Attempt) (ht : c.attempts[a]? = some t) (hp : 0 < t.loopPending) :
      Effect urlOk late c (.loopFailed a) (c.loopFailed a)
  | send (data : Bytes) (hheld : c.held = true) : Effect urlOk late c (.send data) (c.send data)
  | close (hheld : c.held = true) : Effect urlOk late c .close c.close
  | release : Effect urlOk late c .release c.release

theorem effect_of_step {urlOk : String → Bool} {late : Bool} {c d : Client} {e : Event}
    (h : c.step urlOk late e = some d) : Effect urlOk late c e d := by
  cases e with
  | enter k =>
    simp only [step] at h
    split at h
    · rename_i index hk
      obtain rfl := Option.some.inj h
      exact .enter k index hk
    · cases h
  | start a =>
    obtain ⟨t, ht, hnew, rfl⟩ := callback_eq_some.mp h
    exact .start a t ht (by simpa using hnew)
  | initSent a ok =>
    obtain ⟨t, ht, hp, rfl⟩ := callback_eq_some.mp h
    exact .initSent a ok t ht hp
  | received a message =>
    obtain ⟨t, ht, hp, rfl⟩ := callback_eq_some.mp h
    obtain ⟨hp, hcan⟩ := Bool.and_eq_true_iff.mp hp
    exact .received a message t ht hp hcan
  | receiveFailed a =>
    obtain ⟨t, ht, hp, rfl⟩ := callback_eq_some.mp h
    exact .receiveFailed a t ht hp
  | timer a =>
    obtain ⟨t, ht, hp, rfl⟩ := callback_eq_some.mp h
    exact .timer a t ht hp
  | loopReceived a message =>
    obtain ⟨t, ht, hp, rfl⟩ := callback_eq_some.mp h
    obtain ⟨hp, hcan⟩ := Bool.and_eq_true_iff.mp hp
    exact .loopReceived a message t ht (of_decide_eq_true hp) hcan
  | loopFailed a =>
    obtain ⟨t, ht, hp, rfl⟩ := callback_eq_some.mp h
    exact .loopFailed a t ht (of_decide_eq_true hp)
  | send data =>
    obtain ⟨hheld, hd⟩ := Option.ite_none_right_eq_some.mp h
    obtain rfl := Option.some.inj hd
    exact .send data hheld
  | close =>
    obtain ⟨hheld, hd⟩ := Option.ite_none_right_eq_some.mp h
    obtain rfl := Option.some.inj hd
    exact .close hheld
  | release =>
    obtain rfl := Option.some.inj h
    exact .release

end Client

end WSBridge.Cascade
