import WSBridge.Foundation.Runs
import WSBridge.Cascade.WSClient

/-!
# What failover does to the client's stream

The gateway's CTR position follows the frames it gets, so every task should
get the init frame and then the session's frames from the first on. A failover
sends the init frame again and goes on with the next frame, whatever has been
sent before; a frame sent while `task` is `nil` is lost, and one sent between
the creation of a task and its init frame comes before it.

Results:
* `quiet_step`: all events but `enter`, `start` and `send` leave the streams of
  all tasks alone.
* `whole_iff_sendInOrder`: a run keeps every stream whole exactly when the
  session only ever sends to a started task that was created before its first
  frame (or to none).
* `failover_skips`: the shortest run that breaks a stream.
-/

namespace WSBridge.Cascade

open WSBridge.Foundation
open Client (tryConnect_none tryConnect_ok tryConnect_bad)

/-- The frames enqueued on each task are the beginning of the init frame
followed by the session's frames. -/
def Client.Whole (c : Client) : Prop :=
  ∀ t ∈ c.attempts, t.frames <+: .init c.initFrame :: c.frames

/-- A frame is sent to a started task that was created when the session had
sent none, or while there is no task. -/
def SendInOrder (c : Client) : Event → Prop
  | .send _ => ∀ a t, c.task = some a → c.attempts[a]? = some t → t.started = true ∧ t.base = 0
  | _ => True

/-! ## The streams of a client -/

/-- The part of an attempt that its stream depends on. -/
structure Stream where
  frames : List Frame
  base : ℕ
  started : Bool

/-- The stream part of an attempt. -/
def Attempt.stream (t : Attempt) : Stream := ⟨t.frames, t.base, t.started⟩

/-- The streams of the tasks a client has created, in the order of their creation. -/
def Client.streams (c : Client) : List Stream := c.attempts.map Attempt.stream

theorem whole_iff (c : Client) :
    c.Whole ↔ ∀ s ∈ c.streams, s.frames <+: .init c.initFrame :: c.frames := by
  simp [Client.Whole, Client.streams, Attempt.stream]

theorem sendInOrder_iff (c : Client) (data : Bytes) :
    SendInOrder c (.send data) ↔
      ∀ a s, c.task = some a → c.streams[a]? = some s → s.started = true ∧ s.base = 0 := by
  constructor
  · intro h a s ha hs
    rw [Client.streams, List.getElem?_map, Option.map_eq_some_iff] at hs
    obtain ⟨t, ht, rfl⟩ := hs
    exact h a t ha ht
  · intro h a t ha ht
    exact h a t.stream ha (by simp [Client.streams, ht])

/-- Frames are numbered in the order they were sent. -/
def Numbered (frames : List Frame) : Prop :=
  ∀ i f, frames[i]? = some f → ∃ b, f = Frame.data i b

theorem Numbered.concat {frames : List Frame} (h : Numbered frames) (data : Bytes) :
    Numbered (frames ++ [.data frames.length data]) := by
  intro i f hf
  rw [List.getElem?_append] at hf
  split_ifs at hf with hlt
  · exact h i f hf
  · rw [List.getElem?_singleton] at hf
    split_ifs at hf with hz
    obtain rfl : frames.length = i := by omega
    exact ⟨data, (Option.some.inj hf).symm⟩

/-- A later part of numbered frames is not a beginning of them. -/
theorem Numbered.of_drop {frames : List Frame} (h : Numbered frames) {k : ℕ}
    (hk : k < frames.length) (hpre : frames.drop k <+: frames) : k = 0 := by
  obtain ⟨b, hb⟩ := h k frames[k] (List.getElem?_eq_getElem hk)
  have hhead : frames[0]? = some frames[k] := by
    obtain ⟨rest, hrest⟩ := hpre
    rw [List.drop_eq_getElem_cons hk, List.cons_append] at hrest
    exact (congrArg (·[0]?) hrest).symm
  obtain ⟨b', hb'⟩ := h 0 _ hhead
  rw [hb] at hb'
  exact (Frame.data.inj hb').1

/-- What holds of the streams as long as frames are sent in order. -/
structure Streams (c : Client) : Prop where
  seq : Numbered c.frames
  fresh : ∀ s ∈ c.streams, s.started = false → s.frames = []
  base_le : ∀ s ∈ c.streams, s.base ≤ c.frames.length
  /-- The current task has every frame since it was created. -/
  current : ∀ a s, c.task = some a → c.streams[a]? = some s →
    (s.started = false → s.base = c.frames.length) ∧
    (s.started = true → s.frames = .init c.initFrame :: c.frames.drop s.base)

/-! ## Events that leave the streams alone -/

/-- No task has got a frame, and `task` has at most been cleared. -/
structure SameStreams (c d : Client) : Prop where
  streams : d.streams = c.streams
  frames : d.frames = c.frames
  initFrame : d.initFrame = c.initFrame
  task : d.task = c.task ∨ d.task = none

theorem SameStreams.refl (c : Client) : SameStreams c c := ⟨rfl, rfl, rfl, Or.inl rfl⟩

theorem SameStreams.trans {c d e : Client} (h : SameStreams c d) (h' : SameStreams d e) :
    SameStreams c e := by
  refine ⟨h'.streams.trans h.streams, h'.frames.trans h.frames, h'.initFrame.trans h.initFrame, ?_⟩
  rcases h'.task with ht | ht
  · exact ht ▸ h.task
  · exact Or.inr ht

theorem onAttempt_streams (c : Client) (a : ℕ) {f : Attempt → Attempt} (g : Stream → Stream)
    (h : ∀ t, (f t).stream = g t.stream) : (c.onAttempt a f).streams = c.streams.modify a g :=
  c.onAttempt_map a Attempt.stream g h

theorem onAttempt_same (c : Client) (a : ℕ) (f : Attempt → Attempt)
    (h : ∀ t, (f t).stream = t.stream) : SameStreams c (c.onAttempt a f) :=
  ⟨(onAttempt_streams c a id h).trans (List.modify_id _ _), rfl, rfl, Or.inl rfl⟩

theorem onTask_same (c : Client) (f : Attempt → Attempt) (h : ∀ t, (f t).stream = t.stream) :
    SameStreams c (c.onTask f) :=
  c.onTask_rule f (.refl c) fun a => onAttempt_same c a f h

theorem giveUp_same (c : Client) (a : ℕ) (t : Attempt) : SameStreams c (c.giveUp a t) := by
  have h := onAttempt_same c a ({ · with claimed := true }) fun _ => rfl
  exact h.trans ⟨rfl, rfl, rfl, Or.inr rfl⟩

theorem advance_same (c : Client) (a : ℕ) (t : Attempt) : SameStreams c (c.advance a t) := by
  unfold Client.advance
  split_ifs
  · exact .refl c
  · exact giveUp_same c a t

theorem fail_same (c : Client) (a : ℕ) (t : Attempt) : SameStreams c (c.fail a t) := by
  have h := onAttempt_same c a ({ · with claimed := true }) fun _ => rfl
  unfold Client.fail
  split_ifs
  · exact .refl c
  · exact h.trans ⟨rfl, rfl, rfl, Or.inr rfl⟩

theorem deliver_same (c : Client) (a : ℕ) (message : Option Bytes) :
    SameStreams c (c.deliver a message) := by
  cases message <;> exact ⟨rfl, rfl, rfl, Or.inl rfl⟩

theorem receiveLoop_same (c : Client) : SameStreams c c.receiveLoop :=
  onTask_same c _ fun _ => rfl

theorem initSent_same (c : Client) (a : ℕ) (ok : Bool) : SameStreams c (c.initSent a ok) := by
  have h := onAttempt_same c a
    (fun t => { t with initPending := false, delivered := t.delivered || ok }) fun _ => rfl
  unfold Client.initSent
  split_ifs
  · exact h.trans ⟨rfl, rfl, rfl, Or.inl rfl⟩
  · exact h

theorem received_same (c : Client) (a : ℕ) (message : Option Bytes) :
    SameStreams c (c.received a message) := by
  have h := onAttempt_same c a (fun t => { t with recvPending := false, claimed := true })
    fun _ => rfl
  have h' : SameStreams c { c.onAttempt a fun t => { t with recvPending := false, claimed := true }
      with connected := true } := h.trans ⟨rfl, rfl, rfl, Or.inl rfl⟩
  exact (h'.trans (deliver_same _ a message)).trans (receiveLoop_same _)

theorem markDead_same (c : Client) (host : String) : SameStreams c (c.markDead host) :=
  ⟨rfl, rfl, rfl, Or.inl rfl⟩

theorem receiveFailed_same (c : Client) (a : ℕ) (t : Attempt) :
    SameStreams c (c.receiveFailed a t) := by
  have h := onAttempt_same c a ({ · with recvPending := false }) fun _ => rfl
  show SameStreams c (if _ then _ else _)
  split_ifs
  · exact h.trans (fail_same _ a t)
  · exact (h.trans (markDead_same _ t.host)).trans (advance_same _ a t)

theorem timer_same (c : Client) (a : ℕ) (t : Attempt) : SameStreams c (c.timer a t) := by
  have h := onAttempt_same c a ({ · with timerPending := false }) fun _ => rfl
  show SameStreams c (if _ then _ else _)
  split_ifs
  · exact h
  · have hm := h.trans (markDead_same _ t.host)
    have hc := hm.trans (onAttempt_same _ a ({ · with cancelled := true }) fun _ => rfl)
    exact hc.trans (giveUp_same _ a t)

theorem loopDone_same (c : Client) (a : ℕ) : SameStreams c (c.loopDone a) :=
  onAttempt_same c a _ fun _ => rfl

theorem loopReceived_same (c : Client) (a : ℕ) (message : Option Bytes) :
    SameStreams c (c.loopReceived a message) := by
  have h := loopDone_same c a
  have hup (d : Client) (up : Bool) : SameStreams d { d with firstRecv := true, upPosted := up } :=
    ⟨rfl, rfl, rfl, Or.inl rfl⟩
  unfold Client.loopReceived
  split_ifs
  · exact ((h.trans (hup _ _)).trans (deliver_same _ a message)).trans (receiveLoop_same _)
  · exact h

theorem loopFailed_same (c : Client) (a : ℕ) : SameStreams c (c.loopFailed a) := by
  have h := loopDone_same c a
  unfold Client.loopFailed
  split_ifs
  · exact h.trans ⟨rfl, rfl, rfl, Or.inl rfl⟩
  · exact h

theorem close_same (c : Client) : SameStreams c c.close := by
  have h := onTask_same c ({ · with cancelled := true }) fun _ => rfl
  exact h.trans ⟨rfl, rfl, rfl, Or.inr rfl⟩

/-- The events that touch a stream. -/
def Event.Loud : Event → Prop
  | .enter _ | .start _ | .send _ => True
  | _ => False

theorem quiet_step {urlOk : String → Bool} {late : Bool} {c d : Client} {e : Event} (hq : ¬ e.Loud)
    (h : c.step urlOk late e = some d) : SameStreams c d := by
  cases Client.effect_of_step h with
  | enter | start | send => exact absurd trivial hq
  | initSent a ok => exact initSent_same c a ok
  | received a m => exact received_same c a m
  | receiveFailed a t => exact receiveFailed_same c a t
  | timer a t => exact timer_same c a t
  | loopReceived a m => exact loopReceived_same c a m
  | loopFailed a => exact loopFailed_same c a
  | close => exact close_same c
  | release => exact ⟨rfl, rfl, rfl, Or.inl rfl⟩

theorem SameStreams.whole {c d : Client} (h : SameStreams c d) (hw : c.Whole) : d.Whole := by
  rw [whole_iff] at hw ⊢
  rwa [h.streams, h.frames, h.initFrame]

theorem SameStreams.inv {c d : Client} (h : SameStreams c d) (hi : Streams c) : Streams d := by
  refine ⟨h.frames ▸ hi.seq, h.streams ▸ hi.fresh, ?_, ?_⟩
  · rw [h.streams, h.frames]
    exact hi.base_le
  · rw [h.streams, h.frames, h.initFrame]
    intro a s ha hs
    rcases h.task with ht | ht
    · exact hi.current a s (ht ▸ ha) hs
    · rw [ht] at ha
      cases ha

/-! ## Events that touch a stream -/

/-- `tryConnect` queues the init frame. -/
def Stream.start (s : Stream) (bytes : Bytes) : Stream :=
  { s with frames := s.frames ++ [.init bytes], started := true }

/-- A frame is enqueued. -/
def Stream.push (s : Stream) (f : Frame) : Stream := { s with frames := s.frames ++ [f] }

theorem openTask_streams (c : Client) (index : ℕ) (ep : Endpoint) :
    (c.openTask index ep).streams = c.streams ++ [⟨[], c.frames.length, false⟩] := by
  simp [Client.streams, Client.openTask, Attempt.stream]

theorem startTask_streams (c : Client) (a : ℕ) :
    (c.startTask a).streams = c.streams.modify a (·.start c.initFrame) :=
  onAttempt_streams c a _ fun _ => rfl

theorem send_streams {c : Client} {a : ℕ} (h : c.task = some a) (data : Bytes) :
    (c.send data).streams = c.streams.modify a (·.push (.data c.frames.length data)) := by
  unfold Client.send Client.onTask
  rw [h]
  exact onAttempt_streams c a _ fun _ => rfl

theorem send_streams_of_none {c : Client} (h : c.task = none) (data : Bytes) :
    (c.send data).streams = c.streams := by
  unfold Client.send Client.onTask
  rw [h]
  rfl

@[simp] theorem onTask_task (c : Client) (f : Attempt → Attempt) : (c.onTask f).task = c.task :=
  c.onTask_rule f (R := fun d => d.task = c.task) rfl fun _ => rfl

@[simp] theorem onTask_initFrame (c : Client) (f : Attempt → Attempt) :
    (c.onTask f).initFrame = c.initFrame :=
  c.onTask_rule f (R := fun d => d.initFrame = c.initFrame) rfl fun _ => rfl

theorem send_task (c : Client) (data : Bytes) : (c.send data).task = c.task := onTask_task c _

theorem send_initFrame (c : Client) (data : Bytes) : (c.send data).initFrame = c.initFrame :=
  onTask_initFrame c _

theorem send_frames (c : Client) (data : Bytes) :
    (c.send data).frames = c.frames ++ [.data c.frames.length data] := rfl

theorem openTask_inv {c : Client} (hi : Streams c) (index : ℕ) (ep : Endpoint) :
    Streams (c.openTask index ep) := by
  have hlen : c.streams.length = c.attempts.length := List.length_map _
  constructor
  · exact hi.seq
  · intro s hs
    rw [openTask_streams, List.mem_append, List.mem_singleton] at hs
    rcases hs with hs | rfl
    · exact hi.fresh s hs
    · exact fun _ => rfl
  · intro s hs
    rw [openTask_streams, List.mem_append, List.mem_singleton] at hs
    rcases hs with hs | rfl
    · exact hi.base_le s hs
    · exact le_refl _
  · intro a s ha hs
    obtain rfl : c.attempts.length = a := Option.some.inj ha
    rw [openTask_streams, ← hlen, List.getElem?_concat_length] at hs
    obtain rfl := Option.some.inj hs
    exact ⟨fun _ => rfl, nofun⟩

theorem openTask_whole {c : Client} (hw : c.Whole) (index : ℕ) (ep : Endpoint) :
    (c.openTask index ep).Whole := by
  rw [whole_iff] at hw ⊢
  intro s hs
  rw [openTask_streams, List.mem_append, List.mem_singleton] at hs
  rcases hs with hs | rfl
  · exact hw s hs
  · exact List.nil_prefix

theorem startTask_inv {c : Client} {a : ℕ} {s : Stream} (hi : Streams c)
    (hs : c.streams[a]? = some s) (hnew : s.started = false) : Streams (c.startTask a) := by
  constructor
  · exact hi.seq
  · intro r hr
    rw [startTask_streams] at hr
    rcases mem_modify hr with hr | ⟨y, hy, rfl⟩
    · exact hi.fresh r hr
    · exact nofun
  · intro r hr
    rw [startTask_streams] at hr
    rcases mem_modify hr with hr | ⟨y, hy, rfl⟩
    · exact hi.base_le r hr
    · exact hi.base_le y (List.mem_of_getElem? hy)
  · intro b r hb hr
    rw [startTask_streams] at hr
    have hb' : c.task = some b := hb
    rcases eq_or_ne a b with rfl | hab
    · rw [List.getElem?_modify_eq, hs] at hr
      obtain rfl := Option.some.inj hr
      refine ⟨nofun, fun _ => ?_⟩
      have hbase := (hi.current a s hb' hs).1 hnew
      show s.frames ++ [.init c.initFrame] = .init c.initFrame :: c.frames.drop s.base
      rw [hi.fresh s (List.mem_of_getElem? hs) hnew, hbase, List.drop_length, List.nil_append]
    · rw [List.getElem?_modify_ne _ _ hab] at hr
      exact hi.current b r hb' hr

theorem startTask_whole {c : Client} {a : ℕ} {s : Stream} (hi : Streams c) (hw : c.Whole)
    (hs : c.streams[a]? = some s) (hnew : s.started = false) : (c.startTask a).Whole := by
  rw [whole_iff] at hw ⊢
  intro r hr
  rw [startTask_streams] at hr
  rcases mem_modify hr with hr | ⟨y, hy, rfl⟩
  · exact hw r hr
  · obtain rfl : s = y := Option.some.inj (hs.symm.trans hy)
    show s.frames ++ [.init c.initFrame] <+: .init c.initFrame :: c.frames
    rw [hi.fresh s (List.mem_of_getElem? hs) hnew]
    exact List.cons_prefix_cons.mpr ⟨rfl, List.nil_prefix⟩

/-- What `send` does to a task that has had every frame. -/
theorem push_of_ordered {c : Client} (hi : Streams c) {a : ℕ} {s : Stream} (ha : c.task = some a)
    (hs : c.streams[a]? = some s) (hstarted : s.started = true) (f : Frame) :
    (s.push f).frames = .init c.initFrame :: (c.frames ++ [f]).drop s.base := by
  have hle := hi.base_le s (List.mem_of_getElem? hs)
  rw [List.drop_append_of_le_length hle]
  show s.frames ++ [f] = _
  rw [(hi.current a s ha hs).2 hstarted, List.cons_append]

theorem send_inv {c : Client} (hi : Streams c) (data : Bytes)
    (hord : SendInOrder c (.send data)) : Streams (c.send data) := by
  rw [sendInOrder_iff] at hord
  have hseq : Numbered (c.send data).frames := hi.seq.concat data
  cases ha : c.task with
  | none =>
    have hsame := send_streams_of_none ha data
    refine ⟨hseq, hsame ▸ hi.fresh, ?_, ?_⟩
    · intro s hs
      exact (hi.base_le s (hsame ▸ hs)).trans (by simp [send_frames])
    · intro a s hs
      rw [send_task, ha] at hs
      cases hs
  | some a =>
    have hpush := send_streams ha data
    refine ⟨hseq, ?_, ?_, ?_⟩
    · intro r hr
      rcases mem_modify (hpush ▸ hr) with hr | ⟨s, hs, rfl⟩
      · exact hi.fresh r hr
      · intro hnew
        exact absurd (hord a s ha hs).1 (ne_true_of_eq_false hnew)
    · intro r hr
      rw [send_frames, List.length_append]
      rcases mem_modify (hpush ▸ hr) with hr | ⟨s, hs, rfl⟩
      · exact (hi.base_le r hr).trans (Nat.le_add_right _ _)
      · exact (hi.base_le s (List.mem_of_getElem? hs)).trans (Nat.le_add_right _ _)
    · intro b r hb hr
      obtain rfl : a = b := Option.some.inj (ha.symm.trans ((send_task c data).symm.trans hb))
      rw [hpush, List.getElem?_modify_eq] at hr
      obtain ⟨s, hs, rfl⟩ := Option.map_eq_some_iff.mp hr
      have hstarted := (hord a s ha hs).1
      refine ⟨fun h => absurd hstarted (ne_true_of_eq_false h), fun _ => ?_⟩
      rw [send_initFrame, send_frames]
      exact push_of_ordered hi ha hs hstarted _

theorem send_whole {c : Client} (hi : Streams c) (hw : c.Whole) (data : Bytes)
    (hord : SendInOrder c (.send data)) : (c.send data).Whole := by
  rw [sendInOrder_iff] at hord
  rw [whole_iff] at hw ⊢
  rw [send_initFrame, send_frames]
  have hgrow (s : Stream) (hs : s ∈ c.streams) :
      s.frames <+: .init c.initFrame :: (c.frames ++ [.data c.frames.length data]) :=
    (hw s hs).trans (List.prefix_append (.init c.initFrame :: c.frames) _)
  intro r hr
  cases ha : c.task with
  | none => exact hgrow r (send_streams_of_none ha data ▸ hr)
  | some a =>
    rcases mem_modify (send_streams ha data ▸ hr) with hr | ⟨s, hs, rfl⟩
    · exact hgrow r hr
    · obtain ⟨hstarted, hbase⟩ := hord a s ha hs
      rw [push_of_ordered hi ha hs hstarted, hbase, List.drop_zero]

/-- Conversely: a frame on a task that has not got its init frame, or that was
created after the session's first frame, is out of place. -/
theorem sendInOrder_of_whole {c : Client} (hi : Streams c) (data : Bytes)
    (hw : (c.send data).Whole) : SendInOrder c (.send data) := by
  rw [sendInOrder_iff]
  intro a s ha hs
  have hpush : s.push (.data c.frames.length data) ∈ (c.send data).streams := by
    rw [send_streams ha data]
    exact List.mem_of_getElem? (by rw [List.getElem?_modify_eq, hs]; rfl)
  have hpre := (whole_iff _).mp hw _ hpush
  rw [send_initFrame, send_frames] at hpre
  by_cases hstarted : s.started = true
  · refine ⟨hstarted, ?_⟩
    rw [push_of_ordered hi ha hs hstarted] at hpre
    refine (hi.seq.concat data).of_drop ?_ (List.cons_prefix_cons.mp hpre).2
    have := hi.base_le s (List.mem_of_getElem? hs)
    rw [List.length_append, List.length_singleton]
    omega
  · have hnew := eq_false_of_ne_true hstarted
    rw [Stream.push, hi.fresh s (List.mem_of_getElem? hs) hnew] at hpre
    cases (List.cons_prefix_cons.mp hpre).1

/-! ## Runs -/

theorem exhausted_same (c : Client) (index : ℕ) : SameStreams c (c.exhausted index) :=
  ⟨rfl, rfl, rfl, Or.inl rfl⟩

theorem skip_same (c : Client) (tried entering : List ℕ) :
    SameStreams c { c with tried, entering } := ⟨rfl, rfl, rfl, Or.inl rfl⟩

/-- An entry into `tryConnect` opens a task or leaves the streams alone. -/
theorem tryEnter_cases (urlOk : String → Bool) (c : Client) (index : ℕ) :
    (∃ ep, c.tryEnter urlOk index = c.openTask index ep) ∨
      SameStreams c (c.tryEnter urlOk index) := by
  unfold Client.tryEnter
  split
  · exact Or.inr (exhausted_same c index)
  · split_ifs
    · exact Or.inl ⟨_, rfl⟩
    · exact Or.inr (skip_same c _ _)

theorem tryEnter_inv {urlOk : String → Bool} {c : Client} (hi : Streams c) (hw : c.Whole)
    (index : ℕ) : Streams (c.tryEnter urlOk index) ∧ (c.tryEnter urlOk index).Whole := by
  obtain ⟨ep, h⟩ | h := tryEnter_cases urlOk c index
  · rw [h]
    exact ⟨openTask_inv hi index ep, openTask_whole hw index ep⟩
  · exact ⟨h.inv hi, h.whole hw⟩

theorem startTask_ok {c : Client} {a : ℕ} {t : Attempt} (hi : Streams c) (hw : c.Whole)
    (ht : c.attempts[a]? = some t) (hnew : t.started = false) :
    Streams (c.startTask a) ∧ (c.startTask a).Whole := by
  have hs : c.streams[a]? = some t.stream := by simp [Client.streams, ht]
  exact ⟨startTask_inv hi hs hnew, startTask_whole hi hw hs hnew⟩

theorem step_inv {urlOk : String → Bool} {late : Bool} {c d : Client} {e : Event} (hi : Streams c)
    (hw : c.Whole) (hord : SendInOrder c e) (h : c.step urlOk late e = some d) :
    Streams d ∧ d.Whole := by
  by_cases hq : e.Loud
  · cases Client.effect_of_step h with
    | enter k index =>
      have hsame := skip_same c c.tried (c.entering.eraseIdx k)
      exact tryEnter_inv (hsame.inv hi) (hsame.whole hw) _
    | start a t ht hnew => exact startTask_ok hi hw ht hnew
    | send data => exact ⟨send_inv hi data hord, send_whole hi hw data hord⟩
    | initSent | received | receiveFailed | timer | loopReceived | loopFailed | close | release =>
      exact hq.elim
  · have hsame := quiet_step hq h
    exact ⟨hsame.inv hi, hsame.whole hw⟩

theorem sendInOrder_of_step {urlOk : String → Bool} {late : Bool} {c d : Client} {e : Event}
    (hi : Streams c)
    (h : c.step urlOk late e = some d) (hw : d.Whole) : SendInOrder c e := by
  cases Client.effect_of_step h with
  | send data => exact sendInOrder_of_whole hi data hw
  | enter | start | initSent | received | receiveFailed | timer | loopReceived | loopFailed | close
    | release => trivial

theorem tryConnect_inv (urlOk : String → Bool) (c : Client) (index : ℕ) (hi : Streams c)
    (hw : c.Whole) : Streams (c.tryConnect urlOk index) ∧ (c.tryConnect urlOk index).Whole := by
  induction c, index using Client.tryConnect.induct urlOk with
  | case1 c index hnone =>
    rw [tryConnect_none urlOk c hnone]
    exact ⟨(exhausted_same c index).inv hi, (exhausted_same c index).whole hw⟩
  | case2 c index ep hep hok =>
    rw [tryConnect_ok c hep hok]
    exact startTask_ok (openTask_inv hi index ep) (openTask_whole hw index ep)
      List.getElem?_concat_length rfl
  | case3 c index ep hep hbad ih =>
    rw [tryConnect_bad c hep hbad]
    have hsame := skip_same c (c.tried ++ [index]) c.entering
    exact ih (hsame.inv hi) (hsame.whole hw)

theorem connect_inv (urlOk : String → Bool) (endpoints : List Endpoint) (initFrame : Bytes) :
    Streams (Client.connect urlOk endpoints initFrame) ∧
      (Client.connect urlOk endpoints initFrame).Whole := by
  refine tryConnect_inv urlOk _ 0 ⟨?_, ?_, ?_, ?_⟩ ?_
  · exact fun i f hf => by cases hf
  · exact fun s hs => by cases hs
  · exact fun s hs => by cases hs
  · exact fun a s ha => by cases ha
  · exact fun t ht => by cases ht

/-- For every client, every endpoint list and every order of events: each task
gets the init frame followed by the session's frames from the first on exactly
in the runs where no frame is sent to a task created after the session's first
frame, or before its init frame. -/
theorem whole_iff_sendInOrder (urlOk : String → Bool) (late : Bool) (endpoints : List Endpoint)
    (initFrame : Bytes) (events : List Event) :
    EveryState (Client.step urlOk late) Client.Whole
        (Client.connect urlOk endpoints initFrame) events ↔
      EveryStep (Client.step urlOk late) SendInOrder
        (Client.connect urlOk endpoints initFrame) events := by
  obtain ⟨hi, hw⟩ := connect_inv urlOk endpoints initFrame
  refine everyState_iff_everyStep ?_ ?_ events _ hi hw
  · intro s e t hi hw h
    exact ⟨sendInOrder_of_step hi h, fun hord => (step_inv hi hw hord h).2⟩
  · intro s e t hi hw hord h
    exact (step_inv hi hw hord h).1

/-- There are finitely many tasks to look at. -/
instance (c : Client) : Decidable c.Whole :=
  inferInstanceAs (Decidable (∀ t ∈ c.attempts, t.frames <+: .init c.initFrame :: c.frames))

/-- A frame goes out on the first task, which does not open in 5 s; the second
task gets the init frame and then the second frame. -/
theorem failover_skips :
    ¬ ∀ (urlOk : String → Bool) (late : Bool) (endpoints : List Endpoint) (initFrame : Bytes)
      (events : List Event) (c : Client),
      run (Client.step urlOk late) (Client.connect urlOk endpoints initFrame) events = some c →
        c.Whole := by
  intro h
  have hrun := h (fun _ => true) false [⟨"149.154.167.220", none⟩, ⟨"149.154.175.205", none⟩]
    (List.replicate 64 0x11) [.send [1, 2], .timer 0, .enter 0, .start 1, .send [3, 4]]
  rw [Client.connect, tryConnect_ok _ rfl rfl] at hrun
  have hwhole := hrun _ rfl
  revert hwhole
  decide

end WSBridge.Cascade
