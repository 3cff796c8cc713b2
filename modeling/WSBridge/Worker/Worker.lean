import WSBridge.Foundation.Runs
import WSBridge.Upstream.AESCTR

/-!
# The pipe worker (`worker-pipe.js`)

The worker joins a web socket to a TCP connection to the DC. Its code is a set
of callbacks: the timer and the two outcomes of `socket.opened`, the handlers of
"message" and "close", and the loop that reads the TCP side. A worker is a state
and an event for each piece that runs without interruption. `worker-pipe-p80.js`
differs in the port only.

Assumed of the runtime: a writable stream takes the chunks of its writes in
their order, and none once it has failed or `close` was called on it; a promise
settles once; only an open socket is read; `server.send` throws after
`server.close`, and may throw once the peer has closed. A handler whose bytes
are at hand resumes in the order of the awaits and before the next event of the
web socket; one that waits for the promise of a blob resumes when that settles,
and a blob that cannot be read rejects it.

Results:
* `worker_upstream_iff`: the DC is given the bytes of the messages in order
  exactly as long as no handler writes while an earlier one still converts, or
  after an earlier one has lost its message.
* `worker_flushes`: after a close of the client everything it sent is written
  before the handler of "close" closes the socket, unless the stream to the DC
  fails.
* `worker_failFast`: no worker holds a web socket open without a connection once
  its timer has run, and a client that is told 1002 was sent nothing.
-/

namespace WSBridge

open WSBridge.Foundation

/-- A handler of "message" (lines 56–64) at `await toBytes(event.data)`. -/
structure Converting where
  /-- The number of its message. -/
  seq : ℕ
  bytes : Bytes
  /-- `toBytes` has returned a promise (line 15). -/
  promise : Bool
  deriving DecidableEq, Repr

/-- What `fetch` sets up for one web socket (lines 35–98). -/
structure Worker where
  converting : List Converting := []
  /-- The chunks in the queue of `tcpWriter`. -/
  writing : List Bytes := []
  /-- `tcpWriter.close()` was called. -/
  writerClosed : Bool := false
  /-- The stream of `tcpWriter` has failed. -/
  errored : Bool := false
  /-- The outcome of `socket.opened`. -/
  opened : Option Bool := none
  /-- `failTimer` is set. -/
  failTimer : Bool := true
  /-- The loop that reads the TCP side has not ended. -/
  reading : Bool := true
  /-- The "close" event has come. -/
  gone : Bool := false
  /-- Its handler is at `await tcpWriter.close()`. -/
  closing : Bool := false
  /-- The code of the first `server.close`, if it has one. -/
  closeCode : Option (Option ℕ) := none
  /-- `socket.close()` was called. -/
  socketClosed : Bool := false
  /-- History: the data of the messages. -/
  received : List Bytes := []
  /-- History: the messages whose promise was rejected. -/
  lost : List ℕ := []
  /-- History: the writes that the stream has taken, with their messages. -/
  taken : List (ℕ × Bytes) := []
  /-- History: the bytes given to the DC. -/
  written : Bytes := []
  /-- History: the chunks read from the DC. -/
  read : List Bytes := []
  /-- History: the frames sent to the client. -/
  sent : List Bytes := []
  deriving DecidableEq, Repr

/-- The callbacks of the worker, and what its streams do. -/
inductive WorkerEvent where
  | message (data : Bytes) (promise : Bool)
  /-- The await of the handler in place `i` ends. -/
  | resume (i : ℕ)
  /-- The promise that the handler in place `i` awaits is rejected. -/
  | rejected (i : ℕ)
  /-- The stream writes its first chunk. -/
  | wrote
  /-- The stream fails within its first chunk, after `n` bytes. -/
  | streamFailed (n : ℕ)
  | opened (ok : Bool)
  | timeout
  /-- A chunk is read; `throws` says whether `server.send` throws. -/
  | value (chunk : Bytes) (throws : Bool)
  /-- The stream of the DC ends or fails. -/
  | readEnded
  | close
  /-- The await of the handler of "close" ends. -/
  | closed
  deriving DecidableEq, Repr

namespace Worker

/-- `server.close(code)`. -/
def closeServer (w : Worker) (code : Option ℕ) : Worker :=
  { w with closeCode := w.closeCode <|> some code }

/-- The timer (lines 41 and 42), and a connection that does not open (47–49). -/
def failFast (w : Worker) : Worker :=
  { w.closeServer (some 1002) with failTimer := false, socketClosed := true }

/-- The stream of `tcpWriter` takes no write. -/
def refuses (w : Worker) : Bool := w.writerClosed || w.errored

/-- The end of the handler of "message" (lines 58–62). -/
def write (w : Worker) (c : Converting) : Worker :=
  if w.refuses then w.closeServer (some 1011)
  else { w with writing := w.writing ++ [c.bytes], taken := w.taken ++ [(c.seq, c.bytes)] }

/-- The promise of a blob is rejected: its handler goes to `catch` (lines 59–62),
and the message is never written. -/
def reject (w : Worker) (i : ℕ) (c : Converting) : Worker :=
  let w := { w with converting := w.converting.eraseIdx i, lost := w.lost ++ [c.seq] }
  w.closeServer (some 1011)

/-- The awaited bytes of the handler in place `i` can be there. -/
def ready (w : Worker) (i : ℕ) (c : Converting) : Bool :=
  c.promise || (w.converting.take i).all (·.promise)

/-- The stream fails: every write in its queue is rejected (lines 59–62). -/
def streamFailed (w : Worker) (n : ℕ) : Worker :=
  let w' := { w with
    errored := true
    writing := []
    written := w.written ++ (w.writing.head?.getD []).take n }
  if w.writing = [] then w' else w'.closeServer (some 1011)

/-- The `finally` of the loop (lines 87–97). -/
def finishReading (w : Worker) : Worker :=
  { w.closeServer none with reading := false, socketClosed := true }

/-- A chunk is read (lines 82–84). -/
def value (w : Worker) (chunk : Bytes) (throws : Bool) : Worker :=
  let w := { w with read := w.read ++ [chunk] }
  if throws then w.finishReading else { w with sent := w.sent ++ [chunk] }

/-- The state an event leads to, where it can happen. -/
def step (w : Worker) : WorkerEvent → Option Worker
  | .message data promise =>
    if !w.gone && w.converting.all (·.promise) then
      some { w with
        converting := w.converting ++ [⟨w.received.length, data, promise⟩]
        received := w.received ++ [data] }
    else none
  | .resume i =>
    match w.converting[i]? with
    | some c =>
      if w.ready i c then some ({ w with converting := w.converting.eraseIdx i }.write c) else none
    | none => none
  | .rejected i =>
    match w.converting[i]? with
    | some c => if c.promise then some (w.reject i c) else none
    | none => none
  | .wrote =>
    match w.writing with
    | chunk :: rest => some { w with writing := rest, written := w.written ++ chunk }
    | [] => none
  | .streamFailed n => if w.errored then none else some (w.streamFailed n)
  | .opened ok =>
    if w.opened.isNone then
      let w := { w with opened := some ok }
      some (if ok then { w with failTimer := false } else w.failFast)
    else none
  | .timeout => if w.failTimer then some w.failFast else none
  | .value chunk throws =>
    if w.reading && (w.opened == some true) && (w.closeCode.isNone || throws) &&
        (!throws || w.closeCode.isSome || w.gone) then
      some (w.value chunk throws)
    else none
  | .readEnded => if w.reading then some w.finishReading else none
  | .close =>
    if !w.gone && w.converting.all (·.promise) then
      some { w with gone := true, closing := true, writerClosed := true }
    else none
  | .closed =>
    if w.closing && (w.writing.isEmpty || w.errored) then
      some { w with closing := false, socketClosed := true }
    else none

/-- `step` as a relation: what an event finds, and the worker after it. -/
inductive Effect (w : Worker) : WorkerEvent → Worker → Prop where
  | message (data : Bytes) (promise : Bool) (hgone : w.gone = false)
      (hawait : ∀ c ∈ w.converting, c.promise = true) :
      Effect w (.message data promise) { w with
        converting := w.converting ++ [⟨w.received.length, data, promise⟩]
        received := w.received ++ [data] }
  | resume (i : ℕ) (c : Converting) (hc : w.converting[i]? = some c)
      (hready : w.ready i c = true) :
      Effect w (.resume i) ({ w with converting := w.converting.eraseIdx i }.write c)
  | rejected (i : ℕ) (c : Converting) (hc : w.converting[i]? = some c)
      (hpromise : c.promise = true) : Effect w (.rejected i) (w.reject i c)
  | wrote (chunk : Bytes) (rest : List Bytes) (hwriting : w.writing = chunk :: rest) :
      Effect w .wrote { w with writing := rest, written := w.written ++ chunk }
  | streamFailed (n : ℕ) (hgood : w.errored = false) :
      Effect w (.streamFailed n) (w.streamFailed n)
  | opened (hnew : w.opened = none) :
      Effect w (.opened true) { w with opened := some true, failTimer := false }
  | notOpened (hnew : w.opened = none) :
      Effect w (.opened false) { w with opened := some false }.failFast
  | timeout (htimer : w.failTimer = true) : Effect w .timeout w.failFast
  | value (chunk : Bytes) (throws : Bool) (hreading : w.reading = true)
      (hopen : w.opened = some true) (hthrows : w.closeCode = none ∨ throws = true) :
      Effect w (.value chunk throws) (w.value chunk throws)
  | readEnded (hreading : w.reading = true) : Effect w .readEnded w.finishReading
  | close (hgone : w.gone = false) (hawait : ∀ c ∈ w.converting, c.promise = true) :
      Effect w .close { w with gone := true, closing := true, writerClosed := true }
  | closed (hclosing : w.closing = true) (hdone : w.writing = [] ∨ w.errored = true) :
      Effect w .closed { w with closing := false, socketClosed := true }

theorem effect_of_step {w w' : Worker} {e : WorkerEvent} (h : w.step e = some w') :
    Effect w e w' := by
  cases e with
  | message data promise =>
    obtain ⟨hguard, ⟨⟩⟩ := Option.ite_none_right_eq_some.mp h
    obtain ⟨hgone, hawait⟩ := Bool.and_eq_true_iff.mp hguard
    exact .message data promise (by simpa using hgone) (by simpa using hawait)
  | resume i =>
    simp only [step] at h
    split at h
    · rename_i c hc
      obtain ⟨hready, ⟨⟩⟩ := Option.ite_none_right_eq_some.mp h
      exact .resume i c hc hready
    · cases h
  | rejected i =>
    simp only [step] at h
    split at h
    · rename_i c hc
      obtain ⟨hpromise, ⟨⟩⟩ := Option.ite_none_right_eq_some.mp h
      exact .rejected i c hc hpromise
    · cases h
  | wrote =>
    simp only [step] at h
    split at h
    · rename_i chunk rest hwriting
      obtain rfl := Option.some.inj h
      exact .wrote chunk rest hwriting
    · cases h
  | streamFailed n =>
    obtain ⟨hgood, ⟨⟩⟩ := Option.ite_none_left_eq_some.mp h
    exact .streamFailed n (by simpa using hgood)
  | opened ok =>
    obtain ⟨hnew, heq⟩ := Option.ite_none_right_eq_some.mp h
    have hnone : w.opened = none := Option.isNone_iff_eq_none.mp hnew
    cases ok with
    | true =>
      obtain rfl := Option.some.inj heq
      exact .opened hnone
    | false =>
      obtain rfl := Option.some.inj heq
      exact .notOpened hnone
  | timeout =>
    obtain ⟨htimer, ⟨⟩⟩ := Option.ite_none_right_eq_some.mp h
    exact .timeout htimer
  | value chunk throws =>
    obtain ⟨hguard, ⟨⟩⟩ := Option.ite_none_right_eq_some.mp h
    simp only [Bool.and_eq_true, Bool.or_eq_true, beq_iff_eq, Option.isNone_iff_eq_none] at hguard
    exact .value chunk throws hguard.1.1.1 hguard.1.1.2 hguard.1.2
  | readEnded =>
    obtain ⟨hreading, ⟨⟩⟩ := Option.ite_none_right_eq_some.mp h
    exact .readEnded hreading
  | close =>
    obtain ⟨hguard, ⟨⟩⟩ := Option.ite_none_right_eq_some.mp h
    obtain ⟨hgone, hawait⟩ := Bool.and_eq_true_iff.mp hguard
    exact .close (by simpa using hgone) (by simpa using hawait)
  | closed =>
    obtain ⟨hguard, ⟨⟩⟩ := Option.ite_none_right_eq_some.mp h
    simp only [Bool.and_eq_true, Bool.or_eq_true, List.isEmpty_iff] at hguard
    exact .closed hguard.1 hguard.2

/-! ## Upstream -/

/-- The bytes the stream has taken. -/
def handed (w : Worker) : Bytes := (w.taken.map Prod.snd).flatten

/-- Handlers and writes carry the data of their messages, and what the stream
takes it writes, unless it fails. -/
structure Tagged (w : Worker) : Prop where
  converting : ∀ c ∈ w.converting, w.received[c.seq]? = some c.bytes
  taken : ∀ p ∈ w.taken, w.received[p.1]? = some p.2
  flow : w.errored = false → w.written ++ w.writing.flatten = w.handed
  failed : w.errored = true → w.writing = [] ∧ w.written <+: w.handed

theorem Tagged.begins {w : Worker} (h : w.Tagged) : w.written <+: w.handed := by
  cases hbad : w.errored with
  | false => exact ⟨_, h.flow hbad⟩
  | true => exact (h.failed hbad).2

theorem getElem?_append_of_some {α : Type*} {l : List α} {i : ℕ} {x : α} (h : l[i]? = some x)
    (more : List α) : (l ++ more)[i]? = some x := by
  rw [List.getElem?_append_left (List.getElem?_eq_some_iff.mp h).1]
  exact h

theorem Tagged.write {w : Worker} (h : w.Tagged) {c : Converting}
    (hc : w.received[c.seq]? = some c.bytes) : (w.write c).Tagged := by
  unfold Worker.write
  split_ifs with hrefuses
  · exact ⟨h.converting, h.taken, h.flow, h.failed⟩
  · have hgood : w.errored = false := by
      simp only [refuses, Bool.or_eq_true, not_or] at hrefuses
      simpa using hrefuses.2
    refine ⟨h.converting, ?_, fun _ => ?_, fun hbad => ?_⟩
    · intro p hp
      rcases List.mem_append.mp hp with hp | hp
      · exact h.taken p hp
      · obtain rfl := List.mem_singleton.mp hp
        exact hc
    · simp only [handed, List.map_append, List.flatten_append, List.map_cons, List.map_nil]
      rw [← List.append_assoc, h.flow hgood, handed]
    · exact absurd (hgood.symm.trans hbad) (by simp)

theorem Tagged.streamFailed {w : Worker} (h : w.Tagged) (hgood : w.errored = false) (n : ℕ) :
    (w.streamFailed n).Tagged := by
  have hbegins : w.written ++ (w.writing.head?.getD []).take n <+: w.handed := by
    rw [← h.flow hgood, List.prefix_append_right_inj]
    cases w.writing with
    | nil => simp
    | cons chunk rest => exact (List.take_prefix n chunk).trans (List.prefix_append chunk _)
  unfold Worker.streamFailed
  split_ifs
  · exact ⟨h.converting, h.taken, fun hbad => absurd hbad (by simp), fun _ => ⟨rfl, hbegins⟩⟩
  · exact ⟨h.converting, h.taken, fun hbad => absurd hbad (by simp [closeServer]),
      fun _ => ⟨rfl, hbegins⟩⟩

theorem Tagged.step {w w' : Worker} (h : w.Tagged) {e : WorkerEvent} (hstep : w.step e = some w') :
    w'.Tagged := by
  cases effect_of_step hstep with
  | message data promise hgone hawait =>
    refine ⟨fun c hc => ?_, fun p hp => getElem?_append_of_some (h.taken p hp) _, h.flow, h.failed⟩
    rcases List.mem_append.mp hc with hc | hc
    · exact getElem?_append_of_some (h.converting c hc) _
    · obtain rfl := List.mem_singleton.mp hc
      simp
  | resume i c hc hready =>
    have hrest : Tagged { w with converting := w.converting.eraseIdx i } :=
      ⟨fun d hd => h.converting d (List.mem_of_mem_eraseIdx hd), h.taken, h.flow, h.failed⟩
    exact hrest.write (h.converting c (List.mem_of_getElem? hc))
  | rejected i c =>
    exact ⟨fun d hd => h.converting d (List.mem_of_mem_eraseIdx hd), h.taken, h.flow, h.failed⟩
  | wrote chunk rest hwriting =>
    refine ⟨h.converting, h.taken, fun hgood => ?_, fun hbad => ?_⟩
    · have hflow := h.flow hgood
      rw [hwriting, List.flatten_cons, ← List.append_assoc] at hflow
      exact hflow
    · rw [(h.failed hbad).1] at hwriting
      cases hwriting
  | streamFailed n hgood => exact h.streamFailed hgood n
  | value chunk throws =>
    unfold Worker.value
    split_ifs
    · exact ⟨h.converting, h.taken, h.flow, h.failed⟩
    · exact ⟨h.converting, h.taken, h.flow, h.failed⟩
  | opened => exact ⟨h.converting, h.taken, h.flow, h.failed⟩
  | notOpened => exact ⟨h.converting, h.taken, h.flow, h.failed⟩
  | timeout => exact ⟨h.converting, h.taken, h.flow, h.failed⟩
  | readEnded => exact ⟨h.converting, h.taken, h.flow, h.failed⟩
  | close => exact ⟨h.converting, h.taken, h.flow, h.failed⟩
  | closed => exact ⟨h.converting, h.taken, h.flow, h.failed⟩

/-- The stream has taken the writes of the first messages, in order. -/
def InOrder (w : Worker) : Prop := w.taken.map Prod.fst = List.range w.taken.length

/-- The messages that the stream has not taken and that were not lost. -/
def row (w : Worker) : List ℕ :=
  (List.range' w.taken.length (w.received.length - w.taken.length)).filter (· ∉ w.lost)

/-- Every message is taken, converts or was lost; the handlers are in order. -/
structure Placed (w : Worker) : Prop where
  converting : w.converting.map Converting.seq = w.row
  taken : w.taken.length ≤ w.received.length
  lost : ∀ n ∈ w.lost, w.taken.length ≤ n ∧ n < w.received.length

/-- Every message has its place as long as the stream takes writes. -/
def Waiting (w : Worker) : Prop := w.refuses = false → w.Placed

/-- No handler writes while an earlier one converts, or after an earlier one has
lost its message. -/
def InTurn (w : Worker) : WorkerEvent → Prop
  | .resume i => w.refuses = false → ∀ c, w.converting[i]? = some c →
      i = 0 ∧ ∀ n ∈ w.lost, c.seq < n
  | _ => True

/-- The writes taken are the first messages. -/
theorem InOrder.taken {w : Worker} (h : w.InOrder) (htagged : w.Tagged) :
    w.taken.map Prod.snd = w.received.take w.taken.length := by
  apply List.ext_getElem?
  intro k
  rw [List.getElem?_map, List.getElem?_take]
  split_ifs with hk
  · have hfst := congrArg (·[k]?) h
    simp only [List.getElem?_map, List.getElem?_range hk, List.getElem?_eq_getElem hk] at hfst ⊢
    have hseq : (w.taken[k]).1 = k := Option.some.inj hfst
    have hdata := htagged.taken w.taken[k] (List.getElem_mem hk)
    rw [hseq] at hdata
    exact hdata.symm
  · rw [List.getElem?_eq_none (not_lt.mp hk)]
    rfl

/-- The DC has the beginning of what the client has sent. -/
theorem InOrder.begins {w : Worker} (h : w.InOrder) (htagged : w.Tagged) :
    w.written <+: w.received.flatten := by
  refine htagged.begins.trans ?_
  unfold handed
  rw [h.taken htagged]
  obtain ⟨more, hmore⟩ := List.take_prefix w.taken.length w.received
  refine ⟨more.flatten, ?_⟩
  rw [← List.flatten_append, hmore]

theorem row_pairwise (w : Worker) : w.row.Pairwise (· < ·) :=
  (List.pairwise_lt_range' 1).filter _

theorem mem_row {w : Worker} (h : w.taken.length ≤ w.received.length) (k : ℕ) :
    k ∈ w.row ↔ (w.taken.length ≤ k ∧ k < w.received.length) ∧ k ∉ w.lost := by
  simp only [row, List.mem_filter, List.mem_range'_1, decide_eq_true_eq]
  refine and_congr_left fun _ => ?_
  omega

theorem Placed.getElem? {w : Worker} (h : w.Placed) {i : ℕ} {c : Converting}
    (hc : w.converting[i]? = some c) : w.row[i]? = some c.seq := by
  rw [← h.converting, List.getElem?_map, hc]
  rfl

/-- The handler whose message is next is the first, and nothing before it was
lost. -/
theorem Placed.next_iff {w : Worker} (h : w.Placed) {i : ℕ} {c : Converting}
    (hc : w.converting[i]? = some c) :
    c.seq = w.taken.length ↔ i = 0 ∧ ∀ n ∈ w.lost, c.seq < n := by
  obtain ⟨hi, hat⟩ := List.getElem?_eq_some_iff.mp (h.getElem? hc)
  have hpairs := List.pairwise_iff_getElem.mp w.row_pairwise
  have hmem : c.seq ∈ w.row := List.mem_of_getElem? (h.getElem? hc)
  obtain ⟨⟨hle, hlt⟩, hkept⟩ := (mem_row h.taken c.seq).mp hmem
  constructor
  · intro heq
    refine ⟨?_, fun n hn => ?_⟩
    · by_contra hne
      have hfirst := hpairs 0 i (by omega) hi (by omega)
      have hge := ((mem_row h.taken _).mp (List.getElem_mem (Nat.zero_lt_of_lt hi))).1.1
      omega
    · have hn' := (h.lost n hn).1
      have hne : n ≠ c.seq := fun hsame => hkept (hsame ▸ hn)
      omega
  · rintro ⟨rfl, hlost⟩
    by_contra hne
    have hnext : w.taken.length ∈ w.row := by
      refine (mem_row h.taken _).mpr ⟨⟨le_rfl, by omega⟩, fun hn => ?_⟩
      exact absurd (hlost _ hn) (by omega)
    obtain ⟨j, hj, hjat⟩ := List.getElem_of_mem hnext
    rcases Nat.eq_zero_or_pos j with rfl | hpos
    · omega
    · have hlater := hpairs 0 j hi hj hpos
      omega

/-- A message comes. -/
theorem Placed.message {w : Worker} (h : w.Placed) (data : Bytes) (promise : Bool) :
    ({ w with
      converting := w.converting ++ [⟨w.received.length, data, promise⟩]
      received := w.received ++ [data] } : Worker).Placed := by
  have htaken := h.taken
  refine ⟨?_, ?_, fun n hn => ⟨(h.lost n hn).1, ?_⟩⟩
  · have hlength : (w.received ++ [data]).length - w.taken.length =
        w.received.length - w.taken.length + 1 := by
      rw [List.length_append, List.length_singleton]
      omega
    have hlast : w.taken.length + (w.received.length - w.taken.length) = w.received.length := by
      omega
    have hkept : w.received.length ∉ w.lost := fun hn => lt_irrefl _ (h.lost _ hn).2
    unfold row
    dsimp only
    rw [hlength, List.range'_concat, one_mul, hlast, List.filter_append, List.map_append,
      h.converting]
    simp [row, hkept]
  · simp only [List.length_append]
    omega
  · have hn' := (h.lost n hn).2
    simp only [List.length_append]
    omega

/-- The handler whose message is next writes. -/
theorem Placed.take {w : Worker} (h : w.Placed) {c : Converting} (hc : w.converting[0]? = some c)
    (hseq : c.seq = w.taken.length) (hlost : ∀ n ∈ w.lost, c.seq < n) :
    ({ w with
      converting := w.converting.eraseIdx 0
      writing := w.writing ++ [c.bytes]
      taken := w.taken ++ [(c.seq, c.bytes)] } : Worker).Placed := by
  have hmem := (mem_row h.taken c.seq).mp (List.mem_of_getElem? (h.getElem? hc))
  have hlength : w.received.length - w.taken.length =
      w.received.length - (w.taken.length + 1) + 1 := by omega
  obtain ⟨rest, hconv⟩ := List.head?_eq_some_iff.mp (List.head?_eq_getElem? ▸ hc)
  have hrow := h.converting
  unfold row at hrow
  rw [hlength, List.range'_succ, List.filter_cons_of_pos (by simpa [hseq] using hmem.2), hconv,
    List.map_cons] at hrow
  refine ⟨?_, ?_, fun n hn => ?_⟩
  · unfold row
    dsimp only
    rw [hconv, List.eraseIdx_zero, List.tail_cons, List.length_append, List.length_singleton]
    exact (List.cons.inj hrow).2
  · simp only [List.length_append, List.length_singleton]
    omega
  · have hn' := h.lost n hn
    have hlt := hlost n hn
    simp only [List.length_append, List.length_singleton]
    omega

/-- A handler loses its message. -/
theorem Placed.reject {w : Worker} (h : w.Placed) {i : ℕ} {c : Converting}
    (hc : w.converting[i]? = some c) : (w.reject i c).Placed := by
  have hat := h.getElem? hc
  obtain ⟨hi, hget⟩ := List.getElem?_eq_some_iff.mp hat
  refine ⟨?_, h.taken, fun n hn => ?_⟩
  · have hnodup : w.row.Nodup := w.row_pairwise.imp Nat.ne_of_lt
    have herase : (w.converting.eraseIdx i).map Converting.seq = w.row.filter (· != c.seq) := by
      rw [← List.eraseIdx_map, h.converting, ← hnodup.erase_getElem i hi, hget,
        hnodup.erase_eq_filter]
    refine herase.trans ?_
    unfold row
    rw [List.filter_filter]
    apply List.filter_congr
    intro k _
    simp [Worker.reject, closeServer, and_comm, bne, Bool.beq_eq_decide_eq]
  · rcases List.mem_append.mp hn with hn | hn
    · exact h.lost n hn
    · obtain rfl := List.mem_singleton.mp hn
      exact ((mem_row h.taken c.seq).mp (List.mem_of_getElem? hat)).1

/-- A handler of the place `i` writes. -/
theorem Waiting.write {w : Worker} (h : w.Waiting) (horder : w.InOrder) {i : ℕ} {c : Converting}
    (hc : w.converting[i]? = some c) :
    ((({ w with converting := w.converting.eraseIdx i } : Worker).write c).InOrder ↔
        w.InTurn (.resume i)) ∧
      (w.InTurn (.resume i) →
        (({ w with converting := w.converting.eraseIdx i } : Worker).write c).Waiting) := by
  unfold Worker.write
  have hsame : ({ w with converting := w.converting.eraseIdx i } : Worker).refuses = w.refuses :=
    rfl
  rw [hsame]
  split_ifs with hrefuses
  · refine ⟨iff_of_true horder fun hopen => ?_, fun _ hopen => ?_⟩
    · exact absurd (hrefuses.symm.trans hopen) (by simp)
    · exact absurd (hrefuses.symm.trans hopen) (by simp)
  · have hopen : w.refuses = false := by simpa using hrefuses
    have hplaced := h hopen
    have hturn : w.InTurn (.resume i) ↔ c.seq = w.taken.length := by
      rw [hplaced.next_iff hc]
      constructor
      · exact fun hturn => hturn hopen c hc
      · intro hnext _ d hd
        obtain rfl := Option.some.inj (hc.symm.trans hd)
        exact hnext
    constructor
    · rw [hturn]
      show (w.taken ++ [(c.seq, c.bytes)]).map Prod.fst =
        List.range (w.taken ++ [(c.seq, c.bytes)]).length ↔ c.seq = w.taken.length
      rw [List.length_append, List.length_singleton, List.range_succ, List.map_append, horder,
        List.append_cancel_left_eq]
      simp
    · intro hin _
      obtain ⟨rfl, hlost⟩ := hin hopen c hc
      exact hplaced.take hc (hturn.mp hin) hlost

/-- Only the messages, their handlers and their writes matter. -/
theorem Waiting.same {w w' : Worker} (h : w.Waiting)
    (hrefuses : w'.refuses = false → w.refuses = false) (hconverting : w'.converting = w.converting)
    (hreceived : w'.received = w.received) (hlost : w'.lost = w.lost)
    (htaken : w'.taken = w.taken) : w'.Waiting := by
  intro hopen
  obtain ⟨hrow, hlength, hbound⟩ := h (hrefuses hopen)
  refine ⟨?_, ?_, ?_⟩
  · unfold row at hrow ⊢
    rw [hconverting, hreceived, hlost, htaken]
    exact hrow
  · rw [hreceived, htaken]
    exact hlength
  · rw [hreceived, hlost, htaken]
    exact hbound

/-- One event. -/
theorem Waiting.step {w w' : Worker} (h : w.Waiting) (horder : w.InOrder) {e : WorkerEvent}
    (hstep : w.step e = some w') : (w'.InOrder ↔ w.InTurn e) ∧ (w.InTurn e → w'.Waiting) := by
  have hclosed (hopen : (true || w.errored) = false) : w.refuses = false := by simp at hopen
  cases effect_of_step hstep with
  | message data promise =>
    exact ⟨iff_of_true horder trivial, fun _ hopen => (h hopen).message data promise⟩
  | resume i c hc => exact h.write horder hc
  | rejected i c hc =>
    exact ⟨iff_of_true horder trivial, fun _ hopen => Placed.reject (h hopen) hc⟩
  | streamFailed n =>
    unfold Worker.streamFailed
    split_ifs
    · exact ⟨iff_of_true horder trivial, fun _ hopen => by simp [refuses] at hopen⟩
    · exact ⟨iff_of_true horder trivial, fun _ hopen => by simp [refuses, closeServer] at hopen⟩
  | value chunk throws =>
    unfold Worker.value
    split_ifs
    · exact ⟨iff_of_true horder trivial, fun _ => h.same id rfl rfl rfl rfl⟩
    · exact ⟨iff_of_true horder trivial, fun _ => h.same id rfl rfl rfl rfl⟩
  | wrote => exact ⟨iff_of_true horder trivial, fun _ => h.same id rfl rfl rfl rfl⟩
  | opened => exact ⟨iff_of_true horder trivial, fun _ => h.same id rfl rfl rfl rfl⟩
  | notOpened => exact ⟨iff_of_true horder trivial, fun _ => h.same id rfl rfl rfl rfl⟩
  | timeout => exact ⟨iff_of_true horder trivial, fun _ => h.same id rfl rfl rfl rfl⟩
  | readEnded => exact ⟨iff_of_true horder trivial, fun _ => h.same id rfl rfl rfl rfl⟩
  | close => exact ⟨iff_of_true horder trivial, fun _ => h.same hclosed rfl rfl rfl rfl⟩
  | closed => exact ⟨iff_of_true horder trivial, fun _ => h.same id rfl rfl rfl rfl⟩

/-- The DC is given the data of the messages, each once and in order. -/
structure Upstream (w : Worker) : Prop where
  inOrder : w.InOrder
  begins : w.written <+: w.received.flatten

end Worker

/-- The data of the messages reaches the DC in order exactly as long as no
handler writes while an earlier one still converts, or after an earlier one has
lost its message. -/
theorem worker_upstream_iff (events : List WorkerEvent) :
    EveryState Worker.step Worker.Upstream {} events ↔
      EveryStep Worker.step Worker.InTurn {} events := by
  refine everyState_iff_everyStep (I := fun w => w.Tagged ∧ w.Waiting) ?_ ?_ events _ ?_ ?_
  · rintro w e w' ⟨htagged, hwaiting⟩ hup hstep
    rw [← (hwaiting.step hup.inOrder hstep).1]
    exact ⟨fun hup' => hup'.inOrder, fun horder => ⟨horder, horder.begins (htagged.step hstep)⟩⟩
  · rintro w e w' ⟨htagged, hwaiting⟩ hup hturn hstep
    exact ⟨htagged.step hstep, (hwaiting.step hup.inOrder hstep).2 hturn⟩
  · exact ⟨⟨by simp, by simp, fun _ => rfl, by simp⟩, fun _ => ⟨rfl, le_rfl, by simp⟩⟩
  · exact ⟨rfl, List.nil_prefix⟩

namespace Worker

/-! ## Closing -/

/-- The bytes of a message are at hand. -/
def AtHand : WorkerEvent → Prop
  | .message _ promise => promise = false
  | _ => True

/-- Nothing waits any more once the client has closed. -/
structure Flushing (w : Worker) : Prop where
  upstream : w.Upstream
  tagged : w.Tagged
  waiting : w.Waiting
  atHand : ∀ c ∈ w.converting, c.promise = false
  lost : w.lost = []
  writable : w.gone = false → w.writerClosed = false
  gone : w.gone = true → w.errored = false →
    w.converting = [] ∧ w.taken.length = w.received.length
  flushed : w.gone = true → w.closing = false → w.errored = false → w.writing = []

/-- With all bytes at hand, the first handler is the one that resumes. -/
theorem Flushing.inTurn {w w' : Worker} (h : w.Flushing) {e : WorkerEvent}
    (hstep : w.step e = some w') : w.InTurn e := by
  cases effect_of_step hstep with
  | resume i c hc hready =>
    intro _ d hd
    obtain rfl := Option.some.inj (hc.symm.trans hd)
    have hself : c.promise = false := h.atHand c (List.mem_of_getElem? hc)
    unfold ready at hready
    rw [hself, Bool.false_or, List.all_eq_true] at hready
    refine ⟨?_, by simp [h.lost]⟩
    by_contra hi
    obtain ⟨d, rest, hconv⟩ :=
      List.exists_cons_of_length_pos (Nat.zero_lt_of_lt (List.getElem?_eq_some_iff.mp hc).1)
    have hd : d ∈ w.converting.take i := by
      rw [hconv]
      obtain ⟨j, rfl⟩ := Nat.exists_eq_succ_of_ne_zero hi
      simp
    have hwaits := hready d hd
    rw [h.atHand d (List.mem_of_mem_take hd)] at hwaits
    cases hwaits
  | _ => trivial

/-- No handler converts between two events of the web socket. -/
theorem Flushing.idle {w : Worker} (h : w.Flushing)
    (hawait : ∀ c ∈ w.converting, c.promise = true) : w.converting = [] := by
  rw [List.eq_nil_iff_forall_not_mem]
  intro c hc
  have hboth := (h.atHand c hc).symm.trans (hawait c hc)
  cases hboth

theorem Flushing.write {w : Worker} (h : w.Flushing) {i : ℕ} {c : Converting}
    (hc : w.converting[i]? = some c) {w' : Worker}
    (hw' : ({ w with converting := w.converting.eraseIdx i } : Worker).write c = w')
    (hup : w'.Upstream) (htagged : w'.Tagged) (hwaiting : w'.Waiting) : w'.Flushing := by
  have hrest : ∀ d ∈ w.converting.eraseIdx i, d.promise = false :=
    fun d hd => h.atHand d (List.mem_of_mem_eraseIdx hd)
  have hbusy (hgone : w.gone = true) (hgood : w.errored = false) : False := by
    rw [(h.gone hgone hgood).1] at hc
    simp at hc
  subst hw'
  unfold Worker.write at hup htagged hwaiting ⊢
  split_ifs at hup htagged hwaiting ⊢
  · exact ⟨hup, htagged, hwaiting, hrest, h.lost, h.writable, fun hg he => (hbusy hg he).elim,
      h.flushed⟩
  · exact ⟨hup, htagged, hwaiting, hrest, h.lost, h.writable, fun hg he => (hbusy hg he).elim,
      fun hg _ he => (hbusy hg he).elim⟩

/-- The stream has taken every message when none converts. -/
theorem Flushing.taken_of_idle {w : Worker} (h : w.Flushing) (hopen : w.refuses = false)
    (hidle : w.converting = []) : w.taken.length = w.received.length := by
  obtain ⟨hrow, hle, -⟩ := h.waiting hopen
  have hlength := congrArg List.length hrow
  unfold row at hlength
  simp only [hidle, h.lost, List.map_nil, List.length_nil, List.not_mem_nil, not_false_eq_true,
    decide_true, List.filter_true, List.length_range'] at hlength
  omega

theorem Flushing.step {w w' : Worker} (h : w.Flushing) {e : WorkerEvent} (hhand : AtHand e)
    (hstep : w.step e = some w') : w'.Flushing := by
  have htagged := h.tagged.step hstep
  obtain ⟨horder, hwaiting⟩ := h.waiting.step h.upstream.inOrder hstep
  have horder' : w'.InOrder := horder.mpr (h.inTurn hstep)
  have hup : w'.Upstream := ⟨horder', horder'.begins htagged⟩
  have hwaiting' := hwaiting (h.inTurn hstep)
  cases effect_of_step hstep with
  | message data promise hgone =>
    refine ⟨hup, htagged, hwaiting', fun c hc => ?_, h.lost, h.writable, fun hg => ?_, h.flushed⟩
    · rcases List.mem_append.mp hc with hc | hc
      · exact h.atHand c hc
      · obtain rfl := List.mem_singleton.mp hc
        exact hhand
    · exact absurd (hgone.symm.trans hg) (by simp)
  | resume i c hc hready => exact h.write hc rfl hup htagged hwaiting'
  | rejected i c hc hpromise =>
    have hself := h.atHand c (List.mem_of_getElem? hc)
    rw [hpromise] at hself
    cases hself
  | wrote chunk rest hwriting =>
    refine ⟨hup, htagged, hwaiting', h.atHand, h.lost, h.writable, h.gone, fun hg hc he => ?_⟩
    rw [h.flushed hg hc he] at hwriting
    cases hwriting
  | streamFailed n =>
    unfold Worker.streamFailed at hup htagged hwaiting' ⊢
    split_ifs at hup htagged hwaiting' ⊢
    · exact ⟨hup, htagged, hwaiting', h.atHand, h.lost, h.writable, fun _ he => by simp at he,
        fun _ _ _ => rfl⟩
    · exact ⟨hup, htagged, hwaiting', h.atHand, h.lost, h.writable,
        fun _ he => by simp [closeServer] at he, fun _ _ _ => rfl⟩
  | value chunk throws =>
    unfold Worker.value at hup htagged hwaiting' ⊢
    split_ifs at hup htagged hwaiting' ⊢
    · exact ⟨hup, htagged, hwaiting', h.atHand, h.lost, h.writable, h.gone, h.flushed⟩
    · exact ⟨hup, htagged, hwaiting', h.atHand, h.lost, h.writable, h.gone, h.flushed⟩
  | close hgone hawait =>
    have hidle := h.idle hawait
    refine ⟨hup, htagged, hwaiting', h.atHand, h.lost, fun hg => by simp at hg, fun _ hgood => ?_,
      fun _ hc => by simp at hc⟩
    have hopen : w.refuses = false := by
      unfold refuses
      rw [h.writable hgone]
      exact hgood
    exact ⟨hidle, h.taken_of_idle hopen hidle⟩
  | closed hclosing hdone =>
    refine ⟨hup, htagged, hwaiting', h.atHand, h.lost, h.writable, h.gone, fun _ _ hgood => ?_⟩
    exact hdone.resolve_right fun hbad => absurd (hgood.symm.trans hbad) (by simp)
  | opened => exact ⟨hup, htagged, hwaiting', h.atHand, h.lost, h.writable, h.gone, h.flushed⟩
  | notOpened => exact ⟨hup, htagged, hwaiting', h.atHand, h.lost, h.writable, h.gone, h.flushed⟩
  | timeout => exact ⟨hup, htagged, hwaiting', h.atHand, h.lost, h.writable, h.gone, h.flushed⟩
  | readEnded => exact ⟨hup, htagged, hwaiting', h.atHand, h.lost, h.writable, h.gone, h.flushed⟩

theorem flushing_init : Flushing {} :=
  ⟨⟨rfl, List.nil_prefix⟩, ⟨by simp, by simp, fun _ => rfl, by simp⟩,
    fun _ => ⟨rfl, le_rfl, by simp⟩, by simp, rfl, fun _ => rfl, by simp, by simp⟩

/-- The handler of "close" has waited for the stream to write what it has. -/
theorem Flushing.written {w : Worker} (h : w.Flushing) (hgone : w.gone = true)
    (hclosing : w.closing = false) (hgood : w.errored = false) :
    w.written = w.received.flatten := by
  have hflow := h.tagged.flow hgood
  unfold handed at hflow
  rw [h.flushed hgone hclosing hgood, h.upstream.inOrder.taken h.tagged, (h.gone hgone hgood).2,
    List.take_length] at hflow
  simpa using hflow

end Worker

/-- When the bytes of every message are at hand, the DC is given them in order,
and all of them before the handler of "close" closes the socket, unless the
stream fails. -/
theorem worker_flushes (events : List WorkerEvent) (hhand : ∀ e ∈ events, Worker.AtHand e) :
    EveryState Worker.step (fun w => w.Upstream ∧
      (w.gone = true → w.closing = false → w.errored = false → w.written = w.received.flatten))
      {} events :=
  everyState_of_everyStep (I := Worker.Flushing) (fun _ _ _ h hC hstep => h.step hC hstep)
    (fun _ h => ⟨h.upstream, h.written⟩) events _ Worker.flushing_init
    (everyStep_of_forall events _ hhand)

theorem worker_flushes_sample :
    EveryState Worker.step (fun w => w.Upstream ∧
      (w.gone = true → w.closing = false → w.errored = false → w.written = w.received.flatten)) {}
      [.message [1, 2] false, .resume 0, .opened true, .message [3] false, .resume 0, .close,
        .wrote, .wrote, .closed] :=
  worker_flushes _ (by simp [Worker.AtHand])

namespace Worker

/-- What a client can rely on: it is not kept waiting, and 1002 means that
nothing was sent to it. -/
structure FailFast (w : Worker) : Prop where
  /-- Once the timer has run, the socket is open, or both ends are closed. -/
  connects : w.failTimer = true ∨ w.opened = some true ∨
    w.closeCode.isSome ∧ w.socketClosed = true
  refused : w.closeCode = some (some 1002) → w.sent = []
  ended : w.reading = false → w.closeCode.isSome ∧ w.socketClosed = true
  /-- Only a rejected write or a rejected promise closes the web socket and leaves
  the socket open. -/
  closes : w.closeCode.isSome → w.socketClosed = true ∨ w.closeCode = some (some 1011)
  gone : w.gone = true → w.closing = true ∨ w.socketClosed = true

/-- Where `FailFast` comes from. -/
structure Timed (w : Worker) : Prop where
  failFast : w.FailFast
  timer : w.failTimer = true → w.opened = none
  silent : w.opened ≠ some true → w.sent = []

section

variable {w : Worker}

@[simp]
theorem closeServer_isSome (code : Option ℕ) : (w.closeServer code).closeCode.isSome = true := by
  cases h : w.closeCode <;> simp [closeServer, h]

theorem closeServer_code (code : Option ℕ) :
    (w.closeServer code).closeCode = w.closeCode ∨
      (w.closeCode = none ∧ (w.closeServer code).closeCode = some code) := by
  cases h : w.closeCode <;> simp [closeServer, h]

/-- `server.close` with another code than 1002, while the socket is left alone. -/
theorem Timed.rejected (h : w.Timed) : (w.closeServer (some 1011)).Timed := by
  have hsome := @closeServer_isSome w (some 1011)
  refine ⟨⟨?_, fun hcode => ?_, fun hr => ⟨hsome, (h.failFast.ended hr).2⟩, fun _ => ?_,
    h.failFast.gone⟩, h.timer, h.silent⟩
  · exact h.failFast.connects.imp_right fun hor => hor.imp_right fun hand => ⟨hsome, hand.2⟩
  · rcases @closeServer_code w (some 1011) with hsame | ⟨-, hnew⟩
    · exact h.failFast.refused (hsame.symm.trans hcode)
    · simp [hnew] at hcode
  · rcases @closeServer_code w (some 1011) with hsame | ⟨-, hnew⟩
    · rw [hsame] at hsome ⊢
      exact h.failFast.closes hsome
    · exact Or.inr hnew

theorem Timed.failsFast (h : w.Timed) (hclosed : w.opened ≠ some true) : w.failFast.Timed := by
  have hsome := @closeServer_isSome w (some 1002)
  exact ⟨⟨Or.inr (Or.inr ⟨hsome, rfl⟩), fun _ => h.silent hclosed, fun _ => ⟨hsome, rfl⟩,
    fun _ => Or.inl rfl, fun _ => Or.inr rfl⟩, fun ht => by simp [Worker.failFast] at ht, h.silent⟩

theorem Timed.finishes (h : w.Timed) : w.finishReading.Timed := by
  have hsome := @closeServer_isSome w none
  refine ⟨⟨Or.inr (Or.inr ⟨hsome, rfl⟩), fun hcode => ?_, fun _ => ⟨hsome, rfl⟩,
    fun _ => Or.inl rfl, fun _ => Or.inr rfl⟩, h.timer, h.silent⟩
  rcases @closeServer_code w none with hsame | ⟨-, hnew⟩
  · exact h.failFast.refused (hsame.symm.trans hcode)
  · exact absurd (hnew.symm.trans hcode) (by simp)

theorem Timed.value (h : w.Timed) {chunk : Bytes} {throws : Bool} (hopen : w.opened = some true)
    (hthrows : w.closeCode = none ∨ throws = true) : (w.value chunk throws).Timed := by
  have hread : Timed { w with read := w.read ++ [chunk] } :=
    ⟨⟨h.failFast.connects, h.failFast.refused, h.failFast.ended, h.failFast.closes,
      h.failFast.gone⟩, h.timer, h.silent⟩
  unfold Worker.value
  split_ifs with hthrow
  · exact hread.finishes
  · have hnone := hthrows.resolve_right hthrow
    refine ⟨⟨h.failFast.connects, fun hcode => ?_, h.failFast.ended, h.failFast.closes,
      h.failFast.gone⟩, h.timer, fun hclosed => absurd hopen hclosed⟩
    exact absurd (hnone.symm.trans hcode) (by simp)

theorem Timed.step (h : w.Timed) {w' : Worker} {e : WorkerEvent} (hstep : w.step e = some w') :
    w'.Timed := by
  have hf := h.failFast
  cases effect_of_step hstep with
  | message => exact ⟨⟨hf.connects, hf.refused, hf.ended, hf.closes, hf.gone⟩, h.timer, h.silent⟩
  | resume i c =>
    have hrest : Timed { w with converting := w.converting.eraseIdx i } :=
      ⟨⟨hf.connects, hf.refused, hf.ended, hf.closes, hf.gone⟩, h.timer, h.silent⟩
    unfold Worker.write
    split_ifs
    · exact hrest.rejected
    · exact ⟨⟨hf.connects, hf.refused, hf.ended, hf.closes, hf.gone⟩, h.timer, h.silent⟩
  | rejected i c =>
    apply Timed.rejected
    exact ⟨⟨hf.connects, hf.refused, hf.ended, hf.closes, hf.gone⟩, h.timer, h.silent⟩
  | wrote => exact ⟨⟨hf.connects, hf.refused, hf.ended, hf.closes, hf.gone⟩, h.timer, h.silent⟩
  | streamFailed n =>
    unfold Worker.streamFailed
    split_ifs
    · exact ⟨⟨hf.connects, hf.refused, hf.ended, hf.closes, hf.gone⟩, h.timer, h.silent⟩
    · apply Timed.rejected
      exact ⟨⟨hf.connects, hf.refused, hf.ended, hf.closes, hf.gone⟩, h.timer, h.silent⟩
  | opened hnew =>
    exact ⟨⟨Or.inr (Or.inl rfl), hf.refused, hf.ended, hf.closes, hf.gone⟩,
      fun ht => by simp at ht, fun hclosed => absurd rfl hclosed⟩
  | notOpened hnew =>
    have hsilent := h.silent (by simp [hnew])
    have hsome := @closeServer_isSome { w with opened := some false } (some 1002)
    exact ⟨⟨Or.inr (Or.inr ⟨hsome, rfl⟩), fun _ => hsilent, fun _ => ⟨hsome, rfl⟩,
      fun _ => Or.inl rfl, fun _ => Or.inr rfl⟩, fun ht => by simp [Worker.failFast] at ht,
      fun _ => hsilent⟩
  | timeout htimer => exact h.failsFast (by simp [h.timer htimer])
  | value chunk throws hreading hopen hthrows => exact h.value hopen hthrows
  | readEnded => exact h.finishes
  | close =>
    exact ⟨⟨hf.connects, hf.refused, hf.ended, hf.closes, fun _ => Or.inl rfl⟩, h.timer, h.silent⟩
  | closed =>
    exact ⟨⟨hf.connects.imp_right fun hor => hor.imp_right fun hand => ⟨hand.1, rfl⟩, hf.refused,
      fun hr => ⟨(hf.ended hr).1, rfl⟩, fun _ => Or.inl rfl, fun _ => Or.inr rfl⟩, h.timer,
      h.silent⟩

theorem timed_init : Timed {} :=
  ⟨⟨Or.inl rfl, by simp, by simp, by simp, by simp⟩, fun _ => rfl, fun _ => rfl⟩

end

end Worker

/-- A worker fails fast in every order of its callbacks. -/
theorem worker_failFast (events : List WorkerEvent) :
    EveryState Worker.step Worker.FailFast {} events :=
  everyState_of_invariant (fun _ _ _ h hstep => Worker.Timed.step h hstep) (fun _ h => h.failFast)
    events _ Worker.timed_init

end WSBridge
