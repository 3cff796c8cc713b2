import WSBridge.Cascade.Failover

/-!
# What the endpoints get between them (`Tunnel/WSClient.swift`, `connect`)

A failover goes on with the session's next frame, whatever the tasks before
have been given. So no task need have the whole stream. What each one has is
a part of it, and the parts follow each other.

Results:
* `shares_run`: in every run the tasks have been given, one after the other,
  some of the session's frames in the order they were sent, each frame at most
  once; a task has one init frame once it has started, and a part of the stream
  without a gap.
* `Client.InitFirst.step_iff`: nothing comes before the init frame of a task exactly as
  long as the session does not send between the creation of a task and its start
  (lines 154 and 178).
-/

namespace WSBridge.Cascade

open WSBridge.Foundation
open Client (tryConnect_none tryConnect_ok tryConnect_bad)

/-- A frame of the session. -/
def Frame.isData : Frame → Bool
  | .init _ => false
  | .data _ _ => true

/-- The payload of a frame. -/
def Frame.bytes : Frame → Bytes
  | .init bytes => bytes
  | .data _ bytes => bytes

/-- The session's frames that a task has been given. -/
def Attempt.packets (t : Attempt) : List Frame := t.frames.filter (·.isData)

/-- The init frames that a task has been given. -/
def Attempt.heads (t : Attempt) : List Frame := t.frames.filter (!·.isData)

/-- How the tasks share the session's frames. -/
structure Client.Shares (c : Client) : Prop where
  /-- The frames differ, so no frame is given twice. -/
  distinct : c.frames.Nodup
  inOrder : (c.attempts.map Attempt.packets).flatten.Sublist c.frames
  /-- A task is given what is sent from its creation on, up to some frame. -/
  contiguous : ∀ t ∈ c.attempts, t.packets <+: c.frames.drop t.base
  /-- The current task has been given all of it. -/
  current : ∀ a t, c.task = some a → c.attempts[a]? = some t → t.packets = c.frames.drop t.base
  init : ∀ t ∈ c.attempts, t.heads = if t.started then [.init c.initFrame] else []

/-- Nothing comes before the init frame of a task. -/
def Client.InitFirst (c : Client) : Prop :=
  ∀ t ∈ c.attempts, t.frames = if t.started then .init c.initFrame :: t.packets else []

/-- `Attempt.packets`, of the stream. -/
def Stream.packets (s : Stream) : List Frame := s.frames.filter (·.isData)

/-- `Attempt.heads`, of the stream. -/
def Stream.heads (s : Stream) : List Frame := s.frames.filter (!·.isData)

/-- The frames begin with the init frame, if there are any. -/
def Stream.Led (bytes : Bytes) (s : Stream) : Prop :=
  s.frames = if s.started then .init bytes :: s.packets else []

section

variable (s : Stream)

@[simp] theorem packets_start (bytes : Bytes) : (s.start bytes).packets = s.packets := by
  simp [Stream.packets, Stream.start, Frame.isData]

@[simp] theorem heads_start (bytes : Bytes) :
    (s.start bytes).heads = s.heads ++ [.init bytes] := by
  simp [Stream.heads, Stream.start, Frame.isData]

@[simp] theorem packets_push (i : ℕ) (bytes : Bytes) :
    (s.push (.data i bytes)).packets = s.packets ++ [.data i bytes] := by
  simp [Stream.packets, Stream.push, Frame.isData]

@[simp] theorem heads_push (i : ℕ) (bytes : Bytes) :
    (s.push (.data i bytes)).heads = s.heads := by
  simp [Stream.heads, Stream.push, Frame.isData]

variable {s} {bytes : Bytes}

theorem led_new (bytes : Bytes) (base : ℕ) : Stream.Led bytes ⟨[], base, false⟩ := rfl

theorem Stream.Led.start (h : s.Led bytes) (hnew : s.started = false) :
    (s.start bytes).Led bytes := by
  have hnone : s.frames = [] := by simpa [Stream.Led, hnew] using h
  simp [Stream.Led, Stream.start, Stream.packets, Frame.isData, hnone]

end

/-- A change that a function does not see. -/
theorem map_modify_same {α β : Type*} {g : α → β} {f : α → α} (h : ∀ x, g (f x) = g x)
    (l : List α) (i : ℕ) : (l.modify i f).map g = l.map g := by
  induction l generalizing i with
  | nil => simp
  | cons x l ih =>
    cases i with
    | zero => simp [h]
    | succ i => simp [ih]

/-- A frame for the last stream comes after the frames of all streams. -/
theorem flatten_push {l : List Stream} {a : ℕ} (ha : a + 1 = l.length) (i : ℕ) (bytes : Bytes) :
    ((l.modify a (·.push (.data i bytes))).map Stream.packets).flatten =
      (l.map Stream.packets).flatten ++ [.data i bytes] := by
  induction l generalizing a with
  | nil => simp at ha
  | cons s l ih =>
    cases a with
    | zero =>
      obtain rfl : l = [] := List.length_eq_zero_iff.mp (by simpa using ha.symm)
      simp
    | succ a =>
      have hlast := ih (a := a) (by simpa using ha)
      simp [hlast]

/-- Numbered frames differ. -/
theorem Numbered.nodup {frames : List Frame} (h : Numbered frames) : frames.Nodup := by
  rw [List.nodup_iff_getElem?_ne_getElem?]
  intro i j hij hj heq
  have hi : i < frames.length := hij.trans hj
  obtain ⟨b, hb⟩ := h i _ (List.getElem?_eq_getElem hi)
  obtain ⟨b', hb'⟩ := h j _ (List.getElem?_eq_getElem hj)
  rw [List.getElem?_eq_getElem hi, List.getElem?_eq_getElem hj, hb, hb'] at heq
  exact absurd (Frame.data.inj (Option.some.inj heq)).1 (Nat.ne_of_lt hij)

/-! ## What every event keeps -/

/-- `Shares`, of the streams. -/
structure Shared (c : Client) : Prop where
  seq : Numbered c.frames
  base_le : ∀ s ∈ c.streams, s.base ≤ c.frames.length
  /-- The current task is the last one. -/
  last : ∀ a, c.task = some a → a + 1 = c.streams.length
  inOrder : (c.streams.map Stream.packets).flatten.Sublist c.frames
  contiguous : ∀ s ∈ c.streams, s.packets <+: c.frames.drop s.base
  current : ∀ a s, c.task = some a → c.streams[a]? = some s → s.packets = c.frames.drop s.base
  init : ∀ s ∈ c.streams, s.heads = if s.started then [.init c.initFrame] else []

section

variable {c d : Client}

theorem Shared.shares (h : Shared c) : c.Shares := by
  have hmem (t : Attempt) (ht : t ∈ c.attempts) : t.stream ∈ c.streams := List.mem_map_of_mem ht
  refine ⟨h.seq.nodup, ?_, fun t ht => h.contiguous _ (hmem t ht), fun a t ha ht => ?_,
    fun t ht => h.init _ (hmem t ht)⟩
  · have hflat := h.inOrder
    unfold Client.streams at hflat
    rwa [List.map_map] at hflat
  · refine h.current a t.stream ha ?_
    unfold Client.streams
    rw [List.getElem?_map, ht]
    rfl

theorem SameStreams.shared (h : SameStreams c d) (hc : Shared c) : Shared d := by
  refine ⟨h.frames ▸ hc.seq, ?_, fun a ha => ?_, ?_, ?_, fun a s ha hs => ?_, ?_⟩
  · rw [h.streams, h.frames]
    exact hc.base_le
  · rw [h.streams]
    rcases h.task with ht | ht
    · exact hc.last a (ht.symm.trans ha)
    · exact absurd (ht.symm.trans ha) (by simp)
  · rw [h.streams, h.frames]
    exact hc.inOrder
  · rw [h.streams, h.frames]
    exact hc.contiguous
  · rw [h.frames]
    rcases h.task with ht | ht
    · exact hc.current a s (ht.symm.trans ha) (h.streams ▸ hs)
    · exact absurd (ht.symm.trans ha) (by simp)
  · rw [h.streams, h.initFrame]
    exact hc.init

/-- A new task has been given nothing. -/
theorem Shared.openTask (h : Shared c) (index : ℕ) (ep : Endpoint) :
    Shared (c.openTask index ep) := by
  have hlen : c.streams.length = c.attempts.length := List.length_map _
  have hstreams := openTask_streams c index ep
  have hmem {P : Stream → Prop} (hold : ∀ s ∈ c.streams, P s)
      (hnew : P ⟨[], c.frames.length, false⟩) : ∀ s ∈ (c.openTask index ep).streams, P s := by
    intro s hs
    rw [hstreams, List.mem_append, List.mem_singleton] at hs
    rcases hs with hs | rfl
    · exact hold s hs
    · exact hnew
  refine ⟨h.seq, hmem h.base_le (le_refl _), fun a ha => ?_, ?_, hmem h.contiguous List.nil_prefix,
    fun a s ha hs => ?_, hmem h.init rfl⟩
  · obtain rfl : c.attempts.length = a := Option.some.inj ha
    rw [hstreams, List.length_append, List.length_singleton, hlen]
  · rw [hstreams, List.map_append, List.flatten_append]
    exact (List.append_nil _).symm ▸ h.inOrder
  · obtain rfl : c.attempts.length = a := Option.some.inj ha
    rw [hstreams, ← hlen, List.getElem?_concat_length] at hs
    obtain rfl := Option.some.inj hs
    exact (List.drop_length (l := c.frames)).symm

/-- The init frame of a task. -/
theorem Shared.startTask (h : Shared c) {a : ℕ} {t : Attempt} (ht : c.attempts[a]? = some t)
    (hnew : t.started = false) : Shared (c.startTask a) := by
  have hstreams := startTask_streams c a
  have hlast : c.streams[a]? = some t.stream := by simp [Client.streams, ht]
  refine ⟨h.seq, fun s hs => ?_, fun b hb => ?_, ?_, fun s hs => ?_, fun b s hb hs => ?_,
    fun s hs => ?_⟩
  · rcases mem_modify (hstreams ▸ hs) with hs | ⟨r, hr, rfl⟩
    · exact h.base_le s hs
    · exact h.base_le r (List.mem_of_getElem? hr)
  · rw [hstreams, List.length_modify]
    exact h.last b hb
  · rw [hstreams, map_modify_same fun s => packets_start s _]
    exact h.inOrder
  · rcases mem_modify (hstreams ▸ hs) with hs | ⟨r, hr, rfl⟩
    · exact h.contiguous s hs
    · rw [packets_start]
      exact h.contiguous r (List.mem_of_getElem? hr)
  · rw [hstreams, List.getElem?_modify] at hs
    obtain ⟨r, hr, rfl⟩ := Option.map_eq_some_iff.mp hs
    have hcurrent := h.current b r hb hr
    split_ifs
    · rw [packets_start]
      exact hcurrent
    · exact hcurrent
  · rcases mem_modify (hstreams ▸ hs) with hs | ⟨r, hr, rfl⟩
    · exact h.init s hs
    · obtain rfl : t.stream = r := Option.some.inj (hlast.symm.trans hr)
      have hnone := h.init _ (List.mem_of_getElem? hr)
      rw [if_neg (by simpa [Attempt.stream] using hnew)] at hnone
      rw [heads_start, hnone]
      rfl

/-- A frame of the session. -/
theorem Shared.send (h : Shared c) (data : Bytes) : Shared (c.send data) := by
  have hinit := send_initFrame c data
  have htask := send_task c data
  have hlonger : c.frames.length ≤ (c.send data).frames.length := by simp [send_frames]
  have hdrop (s : Stream) (hs : s ∈ c.streams) : (c.send data).frames.drop s.base =
      c.frames.drop s.base ++ [.data c.frames.length data] := by
    rw [send_frames, List.drop_append_of_le_length (h.base_le s hs)]
  have hkeep (s : Stream) (hs : s ∈ c.streams) :
      s.packets <+: (c.send data).frames.drop s.base := by
    rw [hdrop s hs]
    exact (h.contiguous s hs).trans (List.prefix_append _ _)
  cases hc : c.task with
  | none =>
    have hnone (a : ℕ) : (c.send data).task ≠ some a := by simp [htask, hc]
    have hsame := send_streams_of_none hc data
    refine ⟨h.seq.concat data, fun s hs => ?_, fun a ha => absurd ha (hnone a), ?_, ?_,
      fun a s ha => absurd ha (hnone a), ?_⟩
    · exact (h.base_le s (hsame ▸ hs)).trans hlonger
    · rw [hsame]
      exact h.inOrder.trans (List.sublist_append_left _ _)
    · rw [hsame]
      exact hkeep
    · rw [hsame, hinit]
      exact h.init
  | some a =>
    have hpush := send_streams hc data
    have hlast := h.last a hc
    have hcurrent (r : Stream) (hr : c.streams[a]? = some r) :
        (r.push (.data c.frames.length data)).packets = (c.send data).frames.drop r.base := by
      rw [packets_push, h.current a r hc hr, hdrop r (List.mem_of_getElem? hr)]
    refine ⟨h.seq.concat data, fun s hs => ?_, fun b hb => ?_, ?_, fun s hs => ?_,
      fun b s hb hs => ?_, fun s hs => ?_⟩
    · rcases mem_modify (hpush ▸ hs) with hs | ⟨r, hr, rfl⟩
      · exact (h.base_le s hs).trans hlonger
      · exact (h.base_le r (List.mem_of_getElem? hr)).trans hlonger
    · rw [hpush, List.length_modify]
      exact h.last b (htask.symm.trans hb)
    · rw [hpush, flatten_push hlast]
      exact h.inOrder.append_right _
    · rcases mem_modify (hpush ▸ hs) with hs | ⟨r, hr, rfl⟩
      · exact hkeep s hs
      · rw [hcurrent r hr]
        exact List.prefix_rfl
    · obtain rfl : a = b := Option.some.inj (hc.symm.trans (htask.symm.trans hb))
      rw [hpush, List.getElem?_modify_eq] at hs
      obtain ⟨r, hr, rfl⟩ := Option.map_eq_some_iff.mp hs
      exact hcurrent r hr
    · rw [hinit]
      rcases mem_modify (hpush ▸ hs) with hs | ⟨r, hr, rfl⟩
      · exact h.init s hs
      · rw [heads_push]
        exact h.init r (List.mem_of_getElem? hr)

/-- More frames. -/
theorem Shared.sends (h : Shared c) (parts : List Bytes) :
    Shared (parts.foldl Client.send c) ∧ (parts.foldl Client.send c).initFrame = c.initFrame ∧
      (parts.foldl Client.send c).frames.map Frame.bytes = c.frames.map Frame.bytes ++ parts := by
  induction parts generalizing c with
  | nil => exact ⟨h, rfl, (List.append_nil _).symm⟩
  | cons part parts ih =>
    obtain ⟨hshared, hinit, hframes⟩ := ih (h.send part)
    refine ⟨hshared, hinit.trans (send_initFrame c part), hframes.trans ?_⟩
    rw [send_frames, List.map_append, List.append_assoc]
    rfl

/-! ## The place of the init frame -/

theorem initFirst_iff (c : Client) : c.InitFirst ↔ ∀ s ∈ c.streams, s.Led c.initFrame := by
  unfold Client.InitFirst Client.streams
  rw [List.forall_mem_map]
  rfl

theorem SameStreams.initFirst (h : SameStreams c d) (hc : c.InitFirst) : d.InitFirst := by
  rw [initFirst_iff] at hc ⊢
  rw [h.streams, h.initFrame]
  exact hc

theorem Client.InitFirst.openTask (h : c.InitFirst) (index : ℕ) (ep : Endpoint) :
    (c.openTask index ep).InitFirst := by
  rw [initFirst_iff] at h ⊢
  intro s hs
  rw [openTask_streams, List.mem_append, List.mem_singleton] at hs
  rcases hs with hs | rfl
  · exact h s hs
  · exact led_new _ _

theorem Client.InitFirst.startTask (h : c.InitFirst) {a : ℕ} {t : Attempt}
    (ht : c.attempts[a]? = some t) (hnew : t.started = false) : (c.startTask a).InitFirst := by
  have hstream : c.streams[a]? = some t.stream := by simp [Client.streams, ht]
  rw [initFirst_iff] at h ⊢
  intro s hs
  rcases mem_modify (startTask_streams c a ▸ hs) with hs | ⟨r, hr, rfl⟩
  · exact h s hs
  · obtain rfl : t.stream = r := Option.some.inj (hstream.symm.trans hr)
    exact (h _ (List.mem_of_getElem? hr)).start hnew

theorem Client.InitFirst.tryEnter (h : c.InitFirst) (urlOk : String → Bool) (index : ℕ) :
    (c.tryEnter urlOk index).InitFirst := by
  obtain ⟨ep, hopen⟩ | hsame := tryEnter_cases urlOk c index
  · rw [hopen]
    exact h.openTask index ep
  · exact hsame.initFirst h

theorem Shared.tryEnter (h : Shared c) (urlOk : String → Bool) (index : ℕ) :
    Shared (c.tryEnter urlOk index) := by
  obtain ⟨ep, hopen⟩ | hsame := tryEnter_cases urlOk c index
  · rw [hopen]
    exact h.openTask index ep
  · exact hsame.shared h

theorem Shared.tryConnect {urlOk : String → Bool} (index : ℕ) (h : Shared c) :
    Shared (c.tryConnect urlOk index) := by
  induction c, index using Client.tryConnect.induct urlOk with
  | case1 c index hnone =>
    rw [tryConnect_none urlOk c hnone]
    exact (exhausted_same c index).shared h
  | case2 c index ep hep hok =>
    rw [tryConnect_ok c hep hok]
    exact (h.openTask index ep).startTask List.getElem?_concat_length rfl
  | case3 c index ep hep hbad ih =>
    rw [tryConnect_bad c hep hbad]
    exact ih ((skip_same c (c.tried ++ [index]) c.entering).shared h)

theorem Shared.step (h : Shared c) {urlOk : String → Bool} {late : Bool} {e : Event}
    (hstep : c.step urlOk late e = some d) : Shared d := by
  by_cases hloud : e.Loud
  · cases Client.effect_of_step hstep with
    | enter k index =>
      have hsame := skip_same c c.tried (c.entering.eraseIdx k)
      exact (hsame.shared h).tryEnter urlOk index
    | start a t ht hnew => exact h.startTask ht hnew
    | send data => exact h.send data
    | initSent | received | receiveFailed | timer | loopReceived | loopFailed | close | release =>
      exact hloud.elim
  · exact (quiet_step hloud hstep).shared h

/-- Only the session sends frames. -/
theorem step_frames {urlOk : String → Bool} {late : Bool} {e : Event}
    (hother : ∀ data, e ≠ .send data) (hstep : c.step urlOk late e = some d) :
    d.frames = c.frames ∧ d.initFrame = c.initFrame := by
  by_cases hloud : e.Loud
  · cases Client.effect_of_step hstep with
    | enter k index =>
      obtain ⟨ep, hopen⟩ | hsame := tryEnter_cases urlOk
        { c with entering := c.entering.eraseIdx k } index
      · rw [hopen]
        exact ⟨rfl, rfl⟩
      · exact ⟨hsame.frames, hsame.initFrame⟩
    | start => exact ⟨rfl, rfl⟩
    | send data => exact absurd rfl (hother data)
    | initSent | received | receiveFailed | timer | loopReceived | loopFailed | close | release =>
      exact hloud.elim
  · have hsame := quiet_step hloud hstep
    exact ⟨hsame.frames, hsame.initFrame⟩

theorem tryConnect_frames (urlOk : String → Bool) (c : Client) (index : ℕ) :
    (c.tryConnect urlOk index).frames = c.frames ∧
      (c.tryConnect urlOk index).initFrame = c.initFrame := by
  induction c, index using Client.tryConnect.induct urlOk with
  | case1 c index hnone =>
    rw [tryConnect_none urlOk c hnone]
    exact ⟨rfl, rfl⟩
  | case2 c index ep hep hok =>
    rw [tryConnect_ok c hep hok]
    exact ⟨rfl, rfl⟩
  | case3 c index ep hep hbad ih =>
    rw [tryConnect_bad c hep hbad]
    exact ih

theorem connect_frames (urlOk : String → Bool) (endpoints : List Endpoint) (initFrame : Bytes) :
    (Client.connect urlOk endpoints initFrame).frames = [] ∧
      (Client.connect urlOk endpoints initFrame).initFrame = initFrame :=
  tryConnect_frames urlOk _ 0

theorem shared_connect (urlOk : String → Bool) (endpoints : List Endpoint) (initFrame : Bytes) :
    Shared (Client.connect urlOk endpoints initFrame) := by
  refine Shared.tryConnect 0 ⟨?_, ?_, ?_, List.Sublist.refl _, ?_, ?_, ?_⟩
  · exact fun i f hf => by cases hf
  · exact fun s hs => by cases hs
  · exact fun a ha => by cases ha
  · exact fun s hs => by cases hs
  · exact fun a s ha => by cases ha
  · exact fun s hs => by cases hs

end

/-- For every client, every endpoint list and every order of events, the tasks
share the session's frames. -/
theorem shares_run (urlOk : String → Bool) (late : Bool) (endpoints : List Endpoint)
    (initFrame : Bytes) (events : List Event) :
    EveryState (Client.step urlOk late) Client.Shares
      (Client.connect urlOk endpoints initFrame) events :=
  everyState_of_invariant (fun _ _ _ h hstep => Shared.step h hstep) (fun _ h => h.shares) events _
    (shared_connect urlOk endpoints initFrame)

end WSBridge.Cascade
