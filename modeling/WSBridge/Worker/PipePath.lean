import WSBridge.Cascade.Pipe
import WSBridge.Cascade.Shares
import WSBridge.Session.PipeMode
import WSBridge.Worker.Worker

/-!
# From the session to the DC and back

In pipe mode a session hands what its client sends to a web socket as it comes,
the worker writes it to the DC, and the DC's bytes come back as messages. A
`PipePath` is one session with its `WSClient` and its worker; the frames and
messages in flight are those one side has sent and the other not yet received.

Assumed of the web socket: what arrives is a beginning of what was sent, in
order, and a binary message reaches the worker as an array buffer, so that its
handler awaits no promise.

Results:
* `pipe_end_to_end`: the DC is given a beginning of what the client sent, the
  session a beginning of what the DC sent, and while the web socket and the
  stream to the DC are up, nothing is missing in between.
-/

namespace WSBridge

open WSBridge.Foundation
open Cascade (Frame Pipe Client Idle SameStreams)
open TunnelSession (Up handleData)

/-- A session in pipe mode, its client, and the worker at the other end. -/
structure PipePath where
  session : TunnelSession
  log : EventLog := {}
  /-- `ws`, and the client that a closed session has let go of. -/
  pipe : Option Pipe := none
  worker : Worker := {}
  /-- How many frames of the worker the client has received. -/
  returned : ℕ := 0
  /-- History: the data from lwIP. -/
  fed : List Bytes := []
  deriving DecidableEq, Repr

/-- What happens next to a session, to its client or to the worker. -/
inductive PathEvent where
  /-- lwIP has data for a session that has not closed. -/
  | data (data : Bytes)
  | pinged (ok : Bool)
  | watchdog
  | receiveFailed
  /-- The next frame of the client reaches the worker. -/
  | arrive
  /-- The next frame of the worker reaches the client. -/
  | answer
  /-- A callback of the worker other than "message". -/
  | worker (e : WorkerEvent)
  /-- The block that `handleWSClose` has queued. -/
  | wsClose
  /-- `handleClose(reason:)` -/
  | sessionClosed
  deriving DecidableEq, Repr

/-- The frames enqueued on the one task of a pipe. -/
def Cascade.Pipe.wire (p : Pipe) : List Frame := (p.client.streams[0]?.map (·.frames)).getD []

namespace PipePath

/-- A session for a new connection. -/
def init (connId : ℕ) (dcIP : UInt32) (workerDomain : String) : PipePath :=
  { session := .new connId dcIP (some workerDomain) }

/-- A change of the pipe's client, if there is one. -/
def onClient (s : PipePath) (f : Client → Client) : PipePath :=
  { s with pipe := s.pipe.map fun p => { p with client := f p.client } }

/-- A call that a handler of the session asked for. Where `startPipe` takes the
branch of lines 105–107 there is a relay and no worker. -/
def perform (urlOk : String → String → Bool) (s : PipePath) : Effect → PipePath
  | .startPipe workerDomain dcIP =>
    match relayAddress workerDomain with
    | none => { s with pipe := some (Pipe.connectPipe urlOk workerDomain (dottedQuad dcIP)) }
    | some _ => s
  | .send data => s.onClient (·.send data)
  | .wsClose => s.onClient (·.close)
  | .connect .. => s
  | .bridgeClose _ => s

/-- The pipe takes an event. -/
def onPipe (late : Bool) (s : PipePath) (e : Cascade.PipeEvent) : Option PipePath :=
  s.pipe.bind fun p => (p.step late e).map fun p => { s with pipe := some p }

/-- The state an event leads to, where it can happen. -/
def step (ks : Keystream) (urlOk : String → String → Bool) (late : Bool) (s : PipePath) :
    PathEvent → Option PipePath
  | .data data =>
    if s.session.dead then none
    else
      let u := handleData ks ⟨s.session, s.log, []⟩ data
      some (u.effects.foldl (perform urlOk)
        { s with session := u.session, log := u.log, fed := s.fed ++ [data] })
  | .pinged ok => s.onPipe late (.pinged ok)
  | .watchdog => s.onPipe late .watchdog
  | .receiveFailed => s.onPipe late .receiveFailed
  | .arrive =>
    s.pipe.bind fun p => p.wire[s.worker.received.length]?.bind fun frame =>
      (s.worker.step (.message frame.bytes false)).map ({ s with worker := · })
  | .answer =>
    s.worker.sent[s.returned]?.bind fun message =>
      ({ s with returned := s.returned + 1 } : PipePath).onPipe late (.received (some message))
  | .worker (.message _ _) => none
  | .worker e =>
    if s.pipe.isSome then (s.worker.step e).map ({ s with worker := · }) else none
  | .wsClose =>
    let (session, effects) := s.session.wsCloseBlock
    some (effects.foldl (perform urlOk) { s with session })
  | .sessionClosed =>
    let (session, effects) := s.session.handleClose
    some ((effects.foldl (perform urlOk) { s with session }).onClient (·.release))

end PipePath

/-! ## The worker's streams -/

namespace Worker

variable {w w' : Worker}

/-- While the stream takes writes, every message has been taken or converts. -/
theorem Flushing.received_eq (h : w.Flushing) (hopen : w.refuses = false) :
    w.received = w.taken.map Prod.snd ++ w.converting.map Converting.bytes := by
  obtain ⟨hrow, hle, -⟩ := h.waiting hopen
  -- with no message lost, the row has no gaps
  have hseqs : w.converting.map Converting.seq =
      List.range' w.taken.length (w.received.length - w.taken.length) := by
    rw [hrow]
    simp [row, h.lost]
  have hconverting : w.converting.map Converting.bytes = w.received.drop w.taken.length := by
    apply List.ext_getElem?
    intro k
    rw [List.getElem?_map, List.getElem?_drop]
    have hseq := congrArg (·[k]?) hseqs
    simp only [List.getElem?_map] at hseq
    cases hc : w.converting[k]? with
    | none =>
      have hlength := congrArg List.length hseqs
      rw [List.length_map, List.length_range'] at hlength
      have hk := List.getElem?_eq_none_iff.mp hc
      rw [List.getElem?_eq_none (by omega)]
      rfl
    | some c =>
      have hk := (List.getElem?_eq_some_iff.mp hc).1
      have hlength := congrArg List.length hseqs
      rw [List.length_map, List.length_range'] at hlength
      rw [hc, List.getElem?_range' (by omega), one_mul] at hseq
      have hdata := h.tagged.converting c (List.mem_of_getElem? hc)
      rw [show c.seq = w.taken.length + k from Option.some.inj hseq] at hdata
      exact hdata.symm
  rw [h.upstream.inOrder.taken h.tagged, hconverting, List.take_append_drop]

/-- The loop sends what it reads, up to a chunk whose send throws. -/
structure Sends (w : Worker) : Prop where
  sent : w.sent <+: w.read
  reading : w.reading = true → w.sent = w.read

theorem Sends.step (h : w.Sends) {e : WorkerEvent} (hstep : w.step e = some w') : w'.Sends := by
  cases effect_of_step hstep with
  | resume =>
    unfold Worker.write
    split_ifs
    · exact ⟨h.sent, h.reading⟩
    · exact ⟨h.sent, h.reading⟩
  | streamFailed n =>
    unfold Worker.streamFailed
    split_ifs
    · exact ⟨h.sent, h.reading⟩
    · exact ⟨h.sent, h.reading⟩
  | value chunk throws hreading =>
    unfold Worker.value
    split_ifs
    · exact ⟨h.sent.trans (List.prefix_append _ _), fun hr => by simp [finishReading] at hr⟩
    · have hsame : w.sent ++ [chunk] = w.read ++ [chunk] := by rw [h.reading hreading]
      exact ⟨⟨[], by rw [List.append_nil]; exact hsame⟩, fun _ => hsame⟩
  | readEnded => exact ⟨h.sent, fun hr => by simp [finishReading] at hr⟩
  | message => exact ⟨h.sent, h.reading⟩
  | rejected => exact ⟨h.sent, h.reading⟩
  | wrote => exact ⟨h.sent, h.reading⟩
  | opened => exact ⟨h.sent, h.reading⟩
  | notOpened => exact ⟨h.sent, h.reading⟩
  | timeout => exact ⟨h.sent, h.reading⟩
  | close => exact ⟨h.sent, h.reading⟩
  | closed => exact ⟨h.sent, h.reading⟩

/-- What is sent stays sent, and only a message is received. -/
theorem step_histories {e : WorkerEvent} (hstep : w.step e = some w') :
    w.sent <+: w'.sent ∧ ((∀ data promise, e ≠ .message data promise) →
      w'.received = w.received) := by
  cases effect_of_step hstep with
  | message data promise =>
    exact ⟨List.prefix_rfl, fun hother => absurd rfl (hother data promise)⟩
  | resume =>
    unfold Worker.write
    split_ifs
    · exact ⟨List.prefix_rfl, fun _ => rfl⟩
    · exact ⟨List.prefix_rfl, fun _ => rfl⟩
  | streamFailed n =>
    unfold Worker.streamFailed
    split_ifs
    · exact ⟨List.prefix_rfl, fun _ => rfl⟩
    · exact ⟨List.prefix_rfl, fun _ => rfl⟩
  | value chunk throws =>
    unfold Worker.value
    split_ifs
    · exact ⟨List.prefix_rfl, fun _ => rfl⟩
    · exact ⟨List.prefix_append _ _, fun _ => rfl⟩
  | rejected => exact ⟨List.prefix_rfl, fun _ => rfl⟩
  | wrote => exact ⟨List.prefix_rfl, fun _ => rfl⟩
  | opened => exact ⟨List.prefix_rfl, fun _ => rfl⟩
  | notOpened => exact ⟨List.prefix_rfl, fun _ => rfl⟩
  | timeout => exact ⟨List.prefix_rfl, fun _ => rfl⟩
  | readEnded => exact ⟨List.prefix_rfl, fun _ => rfl⟩
  | close => exact ⟨List.prefix_rfl, fun _ => rfl⟩
  | closed => exact ⟨List.prefix_rfl, fun _ => rfl⟩

end Worker

namespace Cascade

/-! ## The client's streams -/

section

variable {c d : Client} {p q : Pipe} {late : Bool}

theorem wire_of_same (h : SameStreams p.client q.client) : q.wire = p.wire := by
  unfold Pipe.wire
  rw [h.streams]

/-- A pipe after an event that neither sends nor hears. -/
structure Silent (p q : Pipe) : Prop where
  streams : SameStreams p.client q.client
  idle : Idle q.client
  held : q.client.held = true → p.client.held = true
  messages : q.client.messages = p.client.messages

theorem onTask_silent (hidle : Idle p.client) {f : Attempt → Attempt}
    (hstream : ∀ t, (f t).stream = t.stream) (hholds : ∀ t, (f t).holds = t.holds) :
    Silent p { p with client := p.client.onTask f } := by
  refine ⟨onTask_same _ f hstream, hidle.onTask hholds, fun h => ?_, ?_⟩
  · exact (onTask_fields p.client f).1.symm.trans h
  · exact p.client.onTask_rule f (R := fun d => d.messages = p.client.messages) rfl fun _ => rfl

theorem close_silent (hidle : Idle p.client) :
    Silent p { p with client := p.client.close } := by
  have h := onTask_silent (f := ({ · with cancelled := true })) hidle (fun _ => rfl) fun _ => rfl
  exact ⟨close_same _, ⟨h.idle.entering, h.idle.holds⟩, h.held, h.messages⟩

theorem watchdog_silent (hidle : Idle p.client) : Silent p p.watchdog := by
  have h := onTask_silent (f := ({ · with cancelled := true })) hidle (fun _ => rfl) fun _ => rfl
  unfold Pipe.watchdog
  dsimp only
  split_ifs
  · exact ⟨h.streams.trans ⟨rfl, rfl, rfl, Or.inr rfl⟩, ⟨h.idle.entering, h.idle.holds⟩, h.held,
      h.messages⟩
  · exact ⟨.refl _, hidle, id, rfl⟩

theorem loopFailed_silent (hidle : Idle p.client) (a : ℕ) :
    Silent p { p with client := p.client.loopFailed a } := by
  have hdone : Idle (p.client.loopDone a) := hidle.onAttempt a fun _ => rfl
  refine ⟨loopFailed_same _ a, ?_, ?_, ?_⟩
  all_goals unfold Client.loopFailed; split_ifs
  · exact ⟨hdone.entering, hdone.holds⟩
  · exact hdone
  · exact id
  · exact id
  · rfl
  · rfl

/-- What the client does with a message of the loop. -/
theorem loopReceived_messages (hidle : Idle c) (a : ℕ) (data : Bytes) :
    (c.loopReceived a (some data)).held = c.held ∧
      (c.loopReceived a (some data)).messages =
        if c.held then c.messages ++ [(a, data)] else c.messages := by
  unfold Client.loopReceived
  rw [hidle.alive]
  split_ifs
  · refine ⟨?_, ?_⟩
    · exact Client.onTask_rule _ _ (R := fun d => d.held = c.held) rfl fun _ => rfl
    · exact Client.onTask_rule _ _ (R := fun d => d.messages = c.messages ++ [(a, data)]) rfl
        fun _ => rfl
  · exact ⟨rfl, rfl⟩

end

end Cascade

/-! ## What is on the way -/

section

variable {s : PipePath} {p q : Pipe}

/-- The pipe and the worker of a session have what it was fed, and what the
worker has sent. -/
structure Carried (s : PipePath) (p : Pipe) : Prop where
  idle : Idle p.client
  frames : p.client.frames.map Frame.bytes = s.fed
  wire : p.wire <+: p.client.frames
  task : p.client.task = none ∨ p.client.task = some 0
  current : p.client.task = some 0 → p.client.streams ≠ [] ∧ p.wire = p.client.frames
  arrived : s.worker.received <+: p.wire.map Frame.bytes
  returned : s.returned ≤ s.worker.sent.length
  messages : p.client.messages.map Prod.snd <+: s.worker.sent.take s.returned
  heard : p.client.held = true →
    p.client.messages.map Prod.snd = s.worker.sent.take s.returned

/-- Only the worker and the two histories matter. -/
theorem Carried.congr (h : Carried s p) {s' : PipePath} (hworker : s'.worker = s.worker)
    (hreturned : s'.returned = s.returned) (hfed : s'.fed = s.fed) : Carried s' p := by
  refine ⟨h.idle, ?_, h.wire, h.task, h.current, ?_, ?_, ?_, ?_⟩
  · rw [hfed]
    exact h.frames
  all_goals rw [hworker]
  · exact h.arrived
  · rw [hreturned]
    exact h.returned
  · rw [hreturned]
    exact h.messages
  · rw [hreturned]
    exact h.heard

/-- An event of the client that neither sends nor hears. -/
theorem Carried.silent (h : Carried s p) (hq : Cascade.Silent p q) : Carried s q := by
  have hwire := Cascade.wire_of_same hq.streams
  refine ⟨hq.idle, ?_, ?_, ?_, fun ht => ?_, ?_, h.returned, ?_, fun hheld => ?_⟩
  · rw [hq.streams.frames]
    exact h.frames
  · rw [hwire, hq.streams.frames]
    exact h.wire
  · rcases hq.streams.task with ht | ht
    · rw [ht]
      exact h.task
    · exact Or.inl ht
  · rw [hq.streams.streams, hwire, hq.streams.frames]
    rcases hq.streams.task with ht' | ht'
    · exact h.current (ht'.symm.trans ht)
    · exact absurd (ht'.symm.trans ht) (by simp)
  · rw [hwire]
    exact h.arrived
  · rw [hq.messages]
    exact h.messages
  · rw [hq.messages]
    exact h.heard (hq.held hheld)

/-- The session sends. -/
theorem Carried.send (h : Carried s p) (data : Bytes) :
    Carried { s with fed := s.fed ++ [data] } { p with client := p.client.send data } := by
  have hidle := (h.idle.send data).idle
  have hframes : (p.client.send data).frames =
      p.client.frames ++ [.data p.client.frames.length data] := rfl
  have hmessages : (p.client.send data).messages = p.client.messages :=
    p.client.onTask_rule _ (R := fun d => d.messages = p.client.messages) rfl fun _ => rfl
  have hheld : (p.client.send data).held = p.client.held := (Cascade.onTask_fields p.client _).1
  have htask : (p.client.send data).task = p.client.task := Cascade.send_task p.client data
  have hwire : ({ p with client := p.client.send data } : Pipe).wire <+:
        (p.client.send data).frames ∧ p.wire <+: ({ p with client := p.client.send data } :
        Pipe).wire ∧ (p.client.task = some 0 → (p.client.send data).streams ≠ [] ∧
        ({ p with client := p.client.send data } : Pipe).wire = (p.client.send data).frames) := by
    rcases h.task with ht | ht
    · have hsame : ({ p with client := p.client.send data } : Pipe).wire = p.wire := by
        unfold Pipe.wire
        rw [Cascade.send_streams_of_none ht]
      rw [hsame, hframes]
      refine ⟨h.wire.trans (List.prefix_append _ _), List.prefix_rfl, fun ht' => ?_⟩
      exact absurd (ht.symm.trans ht') (by simp)
    · obtain ⟨hsome, hall⟩ := h.current ht
      obtain ⟨stream, rest, hstreams⟩ := List.exists_cons_of_ne_nil hsome
      have hpush : ({ p with client := p.client.send data } : Pipe).wire =
          p.wire ++ [.data p.client.frames.length data] := by
        unfold Pipe.wire
        rw [Cascade.send_streams ht, hstreams]
        rfl
      have hboth : ({ p with client := p.client.send data } : Pipe).wire =
          (p.client.send data).frames := by rw [hpush, hall, hframes]
      refine ⟨hboth ▸ List.prefix_rfl, hpush ▸ List.prefix_append _ _, fun _ => ⟨?_, hboth⟩⟩
      rw [Cascade.send_streams ht, hstreams]
      simp
  refine ⟨hidle, ?_, hwire.1, ?_, fun ht => hwire.2.2 (htask.symm.trans ht), ?_, h.returned, ?_,
    fun hh => ?_⟩
  · show (p.client.send data).frames.map Frame.bytes = s.fed ++ [data]
    rw [hframes, List.map_append, h.frames]
    rfl
  · rw [htask]
    exact h.task
  · exact h.arrived.trans (hwire.2.1.map _)
  · rw [hmessages]
    exact h.messages
  · rw [hmessages]
    exact h.heard (hheld.symm.trans hh)

/-- The next frame of the worker reaches the client. -/
theorem Carried.answer (h : Carried s p) {message : Bytes}
    (hmessage : s.worker.sent[s.returned]? = some message) {t : Cascade.Attempt}
    (ht : p.client.attempts[0]? = some t) (hloop : 0 < t.loopPending) :
    Carried { s with returned := s.returned + 1 }
      { p with client := p.client.loopReceived 0 (some message) } := by
  obtain ⟨hheld, hmessages⟩ := Cascade.loopReceived_messages h.idle 0 message
  have hstreams := Cascade.loopReceived_same p.client 0 (some message)
  have hwire : ({ p with client := p.client.loopReceived 0 (some message) } : Pipe).wire = p.wire :=
    Cascade.wire_of_same hstreams
  have hnext : s.worker.sent.take (s.returned + 1) =
      s.worker.sent.take s.returned ++ [message] := by
    rw [List.take_add_one, hmessage]
    rfl
  refine ⟨(h.idle.received ht hloop _).idle, ?_, ?_, ?_, fun htask => ?_, ?_, ?_, ?_, fun hh => ?_⟩
  · exact (congrArg _ hstreams.frames).trans h.frames
  · rw [hwire, hstreams.frames]
    exact h.wire
  · rcases hstreams.task with htask | htask
    · rw [htask]
      exact h.task
    · exact Or.inl htask
  · rw [hstreams.streams, hwire, hstreams.frames]
    rcases hstreams.task with htask' | htask'
    · exact h.current (htask'.symm.trans htask)
    · exact absurd (htask'.symm.trans htask) (by simp)
  · rw [hwire]
    exact h.arrived
  · exact (List.getElem?_eq_some_iff.mp hmessage).1
  · rw [hmessages, hnext]
    split_ifs with hh
    · rw [List.map_append, h.heard hh]
      exact List.prefix_rfl
    · exact h.messages.trans (List.prefix_append _ _)
  · have hh' : p.client.held = true := hheld.symm.trans hh
    rw [hmessages, hnext, if_pos hh', List.map_append, h.heard hh']
    rfl

/-- The worker steps. -/
theorem Carried.worker (h : Carried s p) {w : Worker}
    (hreceived : w.received <+: p.wire.map Frame.bytes) (hsent : s.worker.sent <+: w.sent) :
    Carried { s with worker := w } p := by
  have htake : w.sent.take s.returned = s.worker.sent.take s.returned := by
    obtain ⟨more, hmore⟩ := hsent
    rw [← hmore, List.take_append_of_le_length h.returned]
  refine ⟨h.idle, h.frames, h.wire, h.task, h.current, hreceived,
    h.returned.trans hsent.length_le, ?_, fun hh => ?_⟩
  · rw [htake]
    exact h.messages
  · rw [htake]
    exact h.heard hh

/-- A new pipe. -/
theorem carried_connectPipe (urlOk : String → String → Bool) (workerDomain dst : String)
    (hworker : s.worker = {}) (hfed : s.fed = []) (hreturned : s.returned = 0) :
    Carried s (Pipe.connectPipe urlOk workerDomain dst) := by
  have hidle := (Cascade.connectPipe_sound urlOk workerDomain dst).1.idle
  unfold Pipe.connectPipe at hidle ⊢
  split_ifs at hidle ⊢
  · refine ⟨hidle, ?_, List.prefix_rfl, Or.inr rfl, fun _ => ⟨?_, rfl⟩, ?_, ?_, ?_, fun _ => ?_⟩
    all_goals simp [hworker, hfed, hreturned, Client.receiveLoop, Client.onTask, Client.onAttempt,
      Client.streams]
  · refine ⟨hidle, ?_, List.prefix_rfl, Or.inl rfl, fun ht => ?_, ?_, ?_, ?_, fun _ => ?_⟩
    · simp [hfed]
    · exact absurd ht (by simp)
    all_goals simp [hworker, hreturned]

end

/-! ## The path -/

/-- What holds along a pipe. -/
structure PipePath.Sound (s : PipePath) : Prop where
  flushing : s.worker.Flushing
  sends : s.worker.Sends
  before : s.pipe = none → s.fed = [] ∧ s.worker = {} ∧ s.returned = 0
  carried : ∀ p, s.pipe = some p → Carried s p
  session : s.session.dead = false → Piped s.session none s.pipe.isSome

section

variable {s s' : PipePath} {p q : Pipe} {ks : Keystream} {urlOk : String → String → Bool}
  {late : Bool}

/-- The pipe changes, and nothing else does. -/
theorem PipePath.Sound.silent (h : s.Sound) (hp : s.pipe = some p) (hq : Cascade.Silent p q) :
    ({ s with pipe := some q } : PipePath).Sound := by
  refine ⟨h.flushing, h.sends, fun hnone => by simp at hnone, fun r hr => ?_, fun hdead => ?_⟩
  · obtain rfl := Option.some.inj hr
    have hcarried := (h.carried p hp).silent hq
    exact hcarried.congr rfl rfl rfl
  · have hsession := h.session hdead
    rw [hp] at hsession
    exact hsession

/-- The session is fed. -/
theorem PipePath.Sound.data (h : s.Sound) (hdead : s.session.dead = false) (data : Bytes) :
    ((handleData ks ⟨s.session, s.log, []⟩ data).effects.foldl (PipePath.perform urlOk)
      { s with
        session := (handleData ks ⟨s.session, s.log, []⟩ data).session
        log := (handleData ks ⟨s.session, s.log, []⟩ data).log
        fed := s.fed ++ [data] }).Sound := by
  obtain ⟨hpiped, -, workerDomain, haddress, heffects⟩ := (h.session hdead).handleData ks s.log data
  generalize handleData ks ⟨s.session, s.log, []⟩ data = u at *
  -- The session has a pipe by now, and has sent the data.
  have hsent (p : Pipe) (hcarried : Carried { s with fed := s.fed ++ [data] } p) :
      ({ s with
        session := u.session
        log := u.log
        pipe := some p
        fed := s.fed ++ [data] } : PipePath).Sound := by
    refine ⟨h.flushing, h.sends, fun hnone => by simp at hnone, fun r hr => ?_, fun _ => hpiped⟩
    obtain rfl := Option.some.inj hr
    exact hcarried.congr rfl rfl rfl
  rw [heffects]
  cases hp : s.pipe with
  | none =>
    obtain ⟨hfed, hworker, hreturned⟩ := h.before hp
    have hnew := carried_connectPipe urlOk workerDomain (dottedQuad s.session.dcIP) hworker hfed
      hreturned
    have hsound := hsent _ (hnew.send data)
    simpa [PipePath.perform, haddress, PipePath.onClient] using hsound
  | some p =>
    have hsound := hsent _ ((h.carried p hp).send data)
    simpa [PipePath.perform, PipePath.onClient, hp] using hsound

/-- The worker steps. -/
theorem PipePath.Sound.onWorker (h : s.Sound) (hp : s.pipe = some p) {w : Worker} {e : WorkerEvent}
    (hstep : s.worker.step e = some w) (hhand : Worker.AtHand e)
    (hreceived : w.received <+: p.wire.map Frame.bytes) :
    ({ s with worker := w } : PipePath).Sound := by
  refine ⟨h.flushing.step hhand hstep, h.sends.step hstep, fun hnone => ?_, fun r hr => ?_,
    h.session⟩
  · exact absurd (hp.symm.trans hnone) (by simp)
  · obtain rfl := Option.some.inj (hp.symm.trans hr)
    exact (h.carried p hp).worker hreceived (Worker.step_histories hstep).1

theorem PipePath.onPipe_eq_some {e : Cascade.PipeEvent} :
    s.onPipe late e = some s' ↔
      ∃ p q, s.pipe = some p ∧ p.step late e = some q ∧ { s with pipe := some q } = s' := by
  unfold PipePath.onPipe
  rw [Option.bind_eq_some_iff]
  constructor
  · rintro ⟨p, hp, hq⟩
    obtain ⟨q, hq, heq⟩ := Option.map_eq_some_iff.mp hq
    exact ⟨p, q, hp, hq, heq⟩
  · rintro ⟨p, q, hp, hq, heq⟩
    exact ⟨p, hp, Option.map_eq_some_iff.mpr ⟨q, hq, heq⟩⟩

theorem begins_concat {α : Type*} {l m : List α} {x : α} (h : l <+: m)
    (hx : m[l.length]? = some x) : l ++ [x] <+: m := by
  obtain ⟨more, rfl⟩ := h
  rw [List.getElem?_append_right le_rfl, Nat.sub_self] at hx
  obtain ⟨rest, rfl⟩ := List.head?_eq_some_iff.mp (List.head?_eq_getElem? .. ▸ hx)
  exact ⟨rest, by simp⟩

/-- The session has closed. -/
theorem PipePath.Sound.ended (h : s.Sound) {session : TunnelSession}
    (hdead : session.dead = true) : ({ s with session } : PipePath).Sound := by
  refine ⟨h.flushing, h.sends, h.before, fun p hp => ?_, fun halive => ?_⟩
  · have hcarried := h.carried p hp
    exact hcarried.congr rfl rfl rfl
  · exact absurd (hdead.symm.trans halive) (by simp)

/-- The client, if there is one, does something silent. -/
theorem PipePath.Sound.onClient (h : s.Sound) {f : Client → Client}
    (hf : ∀ p : Pipe, Idle p.client → Cascade.Silent p { p with client := f p.client }) :
    (s.onClient f).Sound := by
  unfold PipePath.onClient
  cases hp : s.pipe with
  | none =>
    have hsame : ({ s with pipe := none } : PipePath) = s := by rw [← hp]
    exact hsame ▸ h
  | some p => exact h.silent hp (hf p (h.carried p hp).idle)

/-- One event. -/
theorem PipePath.Sound.step (h : s.Sound) {e : PathEvent}
    (hstep : s.step ks urlOk late e = some s') : s'.Sound := by
  cases e with
  | data data =>
    obtain ⟨hdead, ⟨⟩⟩ := Option.ite_none_left_eq_some.mp hstep
    exact h.data (by simpa using hdead) data
  | pinged ok =>
    obtain ⟨p, q, hp, hq, rfl⟩ := PipePath.onPipe_eq_some.mp hstep
    obtain ⟨-, ⟨⟩⟩ := Option.ite_none_right_eq_some.mp hq
    exact h.silent hp ⟨.refl _, (h.carried p hp).idle, id, rfl⟩
  | watchdog =>
    obtain ⟨p, q, hp, hq, rfl⟩ := PipePath.onPipe_eq_some.mp hstep
    obtain ⟨-, ⟨⟩⟩ := Option.ite_none_right_eq_some.mp hq
    exact h.silent hp (Cascade.watchdog_silent (h.carried p hp).idle)
  | receiveFailed =>
    obtain ⟨p, q, hp, hq, rfl⟩ := PipePath.onPipe_eq_some.mp hstep
    obtain ⟨d, hd, rfl⟩ := Pipe.onClient_eq_some.mp hq
    cases Client.effect_of_step hd with
    | loopFailed => exact h.silent hp (Cascade.loopFailed_silent (h.carried p hp).idle 0)
  | arrive =>
    obtain ⟨p, hp, hnext⟩ := Option.bind_eq_some_iff.mp hstep
    obtain ⟨frame, hframe, hmap⟩ := Option.bind_eq_some_iff.mp hnext
    obtain ⟨w, hw, rfl⟩ := Option.map_eq_some_iff.mp hmap
    refine h.onWorker hp hw rfl ?_
    cases Worker.effect_of_step hw with
    | message =>
      refine begins_concat (h.carried p hp).arrived ?_
      rw [List.getElem?_map, hframe]
      rfl
  | answer =>
    obtain ⟨message, hmessage, hnext⟩ := Option.bind_eq_some_iff.mp hstep
    obtain ⟨p, q, hp, hq, rfl⟩ := PipePath.onPipe_eq_some.mp hnext
    obtain ⟨d, hd, rfl⟩ := Pipe.onClient_eq_some.mp hq
    have hp' : s.pipe = some p := hp
    cases Client.effect_of_step hd with
    | loopReceived a m t ht hloop =>
      have hcarried := (h.carried p hp').answer hmessage ht hloop
      refine ⟨h.flushing, h.sends, fun hnone => by simp at hnone, fun r hr => ?_, fun hdead => ?_⟩
      · obtain rfl := Option.some.inj hr
        exact hcarried.congr rfl rfl rfl
      · have hsession := h.session hdead
        rw [hp'] at hsession
        exact hsession
  | worker e =>
    have hother : (∀ data promise, e ≠ .message data promise) ∧ s.pipe.isSome ∧
        ∃ w, s.worker.step e = some w ∧ { s with worker := w } = s' := by
      cases e with
      | message data promise => cases hstep
      | _ =>
        obtain ⟨hsome, hmap⟩ := Option.ite_none_right_eq_some.mp hstep
        exact ⟨by simp, hsome, Option.map_eq_some_iff.mp hmap⟩
    obtain ⟨hother, hsome, w, hw, rfl⟩ := hother
    obtain ⟨p, hp⟩ := Option.isSome_iff_exists.mp hsome
    refine h.onWorker hp hw ?_ ?_
    · cases e with
      | message data promise => exact absurd rfl (hother data promise)
      | _ => trivial
    · rw [(Worker.step_histories hw).2 hother]
      exact (h.carried p hp).arrived
  | wsClose =>
    unfold PipePath.step TunnelSession.wsCloseBlock at hstep
    dsimp only at hstep
    split_ifs at hstep
    · cases hstep
      exact h
    · cases hstep
      exact h.ended rfl
  | sessionClosed =>
    have hended : ({ s with session := s.session.handleClose.1 } : PipePath).Sound := h.ended rfl
    have hclosed := hended.onClient fun p hidle => Cascade.close_silent hidle
    have hrelease (p : Pipe) (hidle : Idle p.client) :
        Cascade.Silent p { p with client := p.client.release } :=
      ⟨⟨rfl, rfl, rfl, Or.inl rfl⟩, ⟨hidle.entering, hidle.holds⟩, fun hh => Bool.noConfusion hh,
        rfl⟩
    unfold PipePath.step TunnelSession.handleClose at hstep
    dsimp only at hstep
    split_ifs at hstep
    · cases hstep
      exact hclosed.onClient hrelease
    · cases hstep
      exact hended.onClient hrelease

end

/-! ## Both directions -/

namespace PipePath

/-- The messages the session has been handed. -/
def messages (s : PipePath) : List Bytes :=
  (s.pipe.map fun p => p.client.messages.map Prod.snd).getD []

/-- The frames the worker has not got yet. -/
def inFlight (s : PipePath) : List Bytes :=
  ((s.pipe.map fun p => p.wire.map Frame.bytes).getD []).drop s.worker.received.length

/-- The client has its task, or has not started. -/
def up (s : PipePath) : Bool := (s.pipe.map fun p => p.client.task.isSome).getD true

/-- What both ends can rely on. -/
structure EndToEnd (s : PipePath) : Prop where
  upstream : s.worker.written <+: s.fed.flatten
  downstream : s.messages <+: s.worker.read
  /-- While both sockets are up, what the DC has not got is on its way. -/
  conserved : s.up = true → s.worker.refuses = false →
    s.fed.flatten = s.worker.written ++ s.worker.writing.flatten ++
      (s.worker.converting.map Converting.bytes).flatten ++ s.inFlight.flatten

theorem Sound.endToEnd {s : PipePath} (h : s.Sound) : s.EndToEnd := by
  cases hp : s.pipe with
  | none =>
    obtain ⟨hfed, hworker, -⟩ := h.before hp
    refine ⟨?_, ?_, fun _ _ => ?_⟩
    all_goals simp [hfed, hworker, messages, inFlight, hp]
  | some p =>
    have hcarried := h.carried p hp
    have hwire := hcarried.wire.map Frame.bytes
    rw [hcarried.frames] at hwire
    have hreceived : s.worker.received <+: s.fed := hcarried.arrived.trans hwire
    refine ⟨?_, ?_, fun hup hwrites => ?_⟩
    · obtain ⟨more, hmore⟩ := hreceived
      rw [← hmore, List.flatten_append]
      exact h.flushing.upstream.begins.trans (List.prefix_append _ _)
    · have hsent := (List.take_prefix s.returned s.worker.sent).trans h.sends.sent
      unfold messages
      rw [hp]
      exact hcarried.messages.trans hsent
    · have htask : p.client.task = some 0 := by
        unfold up at hup
        rw [hp] at hup
        rcases hcarried.task with ht | ht
        · simp [ht] at hup
        · exact ht
      have hall : s.worker.received ++ s.inFlight = s.fed := by
        unfold inFlight
        rw [hp, Option.map_some, Option.getD_some, ← hcarried.frames,
          ← (hcarried.current htask).2]
        obtain ⟨more, hmore⟩ := hcarried.arrived
        rw [← hmore, List.drop_left]
      have hgood : s.worker.errored = false := by
        unfold Worker.refuses at hwrites
        simp only [Bool.or_eq_false_iff] at hwrites
        exact hwrites.2
      calc s.fed.flatten
          = s.worker.received.flatten ++ s.inFlight.flatten := by
            rw [← hall, List.flatten_append]
        _ = s.worker.handed ++ (s.worker.converting.map Converting.bytes).flatten ++
              s.inFlight.flatten := by
            rw [h.flushing.received_eq hwrites, List.flatten_append]
            rfl
        _ = _ := by rw [← h.flushing.tagged.flow hgood]

theorem sound_init {connId : ℕ} {dcIP : UInt32} {workerDomain : String}
    (haddress : relayAddress workerDomain = none) : (init connId dcIP workerDomain).Sound :=
  ⟨Worker.flushing_init, ⟨List.prefix_rfl, fun _ => rfl⟩, fun _ => ⟨rfl, rfl, rfl⟩,
    (fun p hp => by cases hp), fun _ => ⟨⟨workerDomain, rfl, haddress⟩, rfl, rfl, rfl⟩⟩

end PipePath

/-- In every order of the callbacks on both sides, the DC is given a beginning of
what the client sent, and the session a beginning of what the DC sent. -/
theorem pipe_end_to_end (ks : Keystream) (urlOk : String → String → Bool) (late : Bool)
    (connId : ℕ) (dcIP : UInt32) {workerDomain : String}
    (haddress : relayAddress workerDomain = none) (events : List PathEvent) :
    EveryState (PipePath.step ks urlOk late) PipePath.EndToEnd
      (PipePath.init connId dcIP workerDomain) events :=
  everyState_of_invariant (fun _ _ _ h hstep => PipePath.Sound.step h hstep)
    (fun _ h => h.endToEnd) events _ (PipePath.sound_init haddress)

/-- A question and its answer. -/
theorem pipe_end_to_end_sample :
    EveryState (PipePath.step (fun _ _ _ => 0) (fun _ _ => true) false) PipePath.EndToEnd
      (PipePath.init 1 2509940583 "worker.example.com")
      [.data [1, 2], .worker (.opened true), .arrive, .worker (.resume 0), .worker .wrote,
        .worker (.value [3] false), .answer] :=
  pipe_end_to_end _ _ _ _ _ (by decide) _

end WSBridge
