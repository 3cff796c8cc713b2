import WSBridge.Foundation.Runs
import WSBridge.Session.Downstream

/-!
# The close of a web socket

`handleWSData(_:)` and `handleWSClose()` run on a thread of the web socket and
queue a block each. The blocks run on `lwipQueue` in that order, between the
callbacks of the bridge. The block of a close aborts the client's connection at
once, whatever `pending` holds.

Results:
* `writeOrQueue_waits`, `handleSent_waits`: `pending` is empty exactly when the
  last `tcp_write` was accepted.
* `untruncated_iff`: the abort finds `pending` empty and every byte received
  before the close accepted, exactly when it does not come between a refused
  `tcp_write` and its repetition.
* `close_truncates`: a close while a message waits for space in the send buffer.
-/

namespace WSBridge.TunnelSession

open WSBridge.Foundation

/-! ## Refused writes -/

/-- The last write was refused. -/
def lastRefused (calls : List (Bytes × Bool)) : Bool := calls.getLast?.any fun call => !call.2

theorem lastRefused_concat (calls : List (Bytes × Bool)) (data : Bytes) (ok : Bool) :
    lastRefused (calls ++ [(data, ok)]) = !ok := by
  simp [lastRefused]

/-- What is pending after `calls`: bytes whose write was refused, and nothing
when the last write was accepted. -/
def Waits (calls : List (Bytes × Bool)) : Option Bytes → Prop
  | none => lastRefused calls = false
  | some p => p ≠ [] ∧ lastRefused calls = true

theorem Waits.eq_none_iff {calls : List (Bytes × Bool)} {pending : Option Bytes}
    (h : Waits calls pending) : pending = none ↔ lastRefused calls = false := by
  cases pending with
  | none => exact iff_of_true rfl h
  | some p =>
    refine iff_of_false nofun ?_
    rw [h.2]
    exact nofun

/-- A session whose `pending` is what its last write has left. -/
def Down.Waits {σ : Type*} (u : Down (Line σ)) : Prop :=
  TunnelSession.Waits u.world.calls u.session.pending

section

variable {σ : Type*} {write : Bytes → σ → Bool × σ}

theorem logged_lastRefused {data : Bytes} {l l' : Line σ} {ok : Bool}
    (h : logged write data l = (ok, l')) : lastRefused l'.calls = !ok := by
  obtain ⟨hok, rfl⟩ := Prod.mk.inj h
  rw [lastRefused_concat, hok]

/-- The loop ends after an accepted write, or leaves bytes after a refused one. -/
theorem writeLoop_waits (d : Bytes) (l : Line σ) (hd : d = [] → lastRefused l.calls = false) :
    Waits (writeLoop (logged write) d 0 l).2.calls (writeLoop (logged write) d 0 l).1 := by
  have hloop := writeLoop_rule (logged write) (d := d)
    (I := fun off l' => 0 < off ∨ d = [] → lastRefused l'.calls = false)
    (R := fun _ l' => lastRefused l'.calls = true)
    (fun off l' l'' _ _ hw _ => logged_lastRefused hw)
    (fun off l' l'' _ _ hw => logged_lastRefused hw)
    0 l (Nat.zero_le _) (fun h => hd (h.resolve_left (Nat.lt_irrefl 0)))
  match hend : writeLoop (logged write) d 0 l, hloop with
  | (none, l'), h =>
    refine h ?_
    cases d with
    | nil => exact Or.inr rfl
    | cons x d => exact Or.inl (Nat.succ_pos _)
  | (some rest, l'), ⟨k, hk, hrest, h⟩ =>
    refine ⟨?_, h⟩
    rw [hrest]
    exact List.drop_eq_nil_iff.not.mpr (Nat.not_le.mpr hk)

/-- A write to a session with nothing pending. -/
theorem writeOrQueue_fresh {u : Down (Line σ)} (hnone : u.session.pending = none) {data : Bytes}
    (hdata : data = [] → lastRefused u.world.calls = false) :
    (writeOrQueue (logged write) u data).2.Waits := by
  have hloop := @writeLoop_waits σ write data u.world hdata
  unfold writeOrQueue
  rw [hnone]
  dsimp only
  split <;> rename_i heq <;> rw [heq] at hloop
  · exact hloop
  · show TunnelSession.Waits _ u.session.pending
    rw [hnone]
    exact hloop

theorem writeOrQueue_waits {u : Down (Line σ)} (hu : u.Waits) (data : Bytes) :
    (writeOrQueue (logged write) u data).2.Waits := by
  cases hp : u.session.pending with
  | none => exact writeOrQueue_fresh hp fun _ => hu.eq_none_iff.mp hp
  | some p =>
    unfold Down.Waits at hu
    rw [hp] at hu
    unfold writeOrQueue
    rw [hp]
    exact ⟨fun h => hu.1 (List.append_eq_nil_iff.mp h).1, hu.2⟩

theorem wsDataBlock_waits {u : Down (Line σ)} (hu : u.Waits) (data : Bytes) :
    (wsDataBlock (logged write) u data).Waits := by
  unfold wsDataBlock
  split_ifs
  · exact hu
  · exact @writeOrQueue_waits σ write { u with log.wsDown := u.log.wsDown + data.length } hu data

/-- A sent callback writes what was refused once more. -/
theorem handleSent_waits {u : Down (Line σ)} (hu : u.Waits) :
    (handleSent (logged write) u).Waits := by
  unfold handleSent
  dsimp only
  split
  · exact hu
  · rename_i p hp
    have hp' : u.session.pending = some p := hp
    unfold Down.Waits at hu
    rw [hp'] at hu
    exact writeOrQueue_fresh rfl fun h => absurd h hu.1

theorem Life.step_waits (ks : Keystream) {s : Life σ} (h : s.down.Waits) (e : SessionEvent σ) :
    (s.step ks write e).down.Waits := by
  cases e with
  | data chunk =>
    have hpending := congrArg Kept.pending
      (handleData_kept ks ⟨s.down.session, s.down.log, []⟩ chunk)
    show TunnelSession.Waits s.down.world.calls
      (handleData ks ⟨s.down.session, s.down.log, []⟩ chunk).session.kept.pending
    rw [hpending]
    exact h
  | wsData message => exact wsDataBlock_waits h message
  | sent => exact handleSent_waits h
  | wsClose =>
    show TunnelSession.Waits s.down.world.calls (wsCloseBlock s.down.session).1.pending
    unfold wsCloseBlock
    split_ifs <;> exact h
  | close => exact h
  | world w => exact h

end

/-! ## Blocks -/

/-- A block of `handleWSData(_:)` or `handleWSClose()`. -/
inductive Queued where
  | data (message : Bytes)
  | close
  deriving DecidableEq, Repr

/-- A session and its blocks in `lwipQueue`. `posted` is history: every block
ever queued. -/
structure Socket (σ : Type*) where
  life : Life σ
  queue : List Queued := []
  posted : List Queued := []

/-- What happens next to a session and its blocks. -/
inductive SocketEvent (σ : Type*) where
  /-- `handleWSData(_:)` and `handleWSClose()`, on a thread of the web socket. -/
  | wsData (message : Bytes)
  | wsClose
  /-- The next block runs. -/
  | block
  /-- The callbacks of the bridge, and `world` for whatever else happens. -/
  | data (chunk : Bytes)
  | sent
  | close
  | world (w : σ)

namespace Socket

variable {σ : Type*}

/-- A block is queued. -/
def post (s : Socket σ) (block : Queued) : Socket σ :=
  { s with queue := s.queue ++ [block], posted := s.posted ++ [block] }

/-- The session has, or had, a `WSClient`. -/
def opened (s : Socket σ) : Bool := s.life.down.session.ws || s.life.down.session.dead

section

variable (ks : Keystream) (write : Bytes → σ → Bool × σ)

/-- The session takes an event, on `lwipQueue`. -/
def handle (s : Socket σ) (e : SessionEvent σ) : Socket σ :=
  { s with life := s.life.step ks write e }

/-- The state an event leads to, where it can happen. -/
def step (s : Socket σ) : SocketEvent σ → Option (Socket σ)
  | .wsData message => if s.opened then some (s.post (.data message)) else none
  | .wsClose => if s.opened then some (s.post .close) else none
  | .block =>
    match s.queue with
    | .data message :: queue => some ({ s with queue }.handle ks write (.wsData message))
    | .close :: queue => some ({ s with queue }.handle ks write .wsClose)
    | [] => none
  | .data chunk => some (s.handle ks write (.data chunk))
  | .sent => some (s.handle ks write .sent)
  | .close => some (s.handle ks write .close)
  | .world w => some (s.handle ks write (.world w))

end

/-- A session that has just been created. -/
def new (connId : ℕ) (dcIP : UInt32) (workerDomain : Option String) (log : EventLog) (w : σ) :
    Socket σ :=
  { life := Life.new connId dcIP workerDomain log w }

/-! ## The abort -/

/-- The bytes received before the first close. -/
def received : List Queued → Bytes
  | .data message :: posted => message ++ received posted
  | _ => []

/-- The event is the block of a close, and it aborts the client's connection. -/
def Aborts (s : Socket σ) (e : SocketEvent σ) : Prop :=
  e = .block ∧ s.queue.head? = some .close ∧
    .bridgeClose s.life.down.session.connId ∈ (wsCloseBlock s.life.down.session).2

/-- An abort finds `pending` empty, and lwIP has accepted every byte received
before the close. -/
def Untruncated (s : Socket σ) (e : SocketEvent σ) : Prop :=
  s.Aborts e → s.life.down.session.pending = none ∧
    accepted s.life.down.world.calls = received s.posted

/-- An abort comes after an accepted `tcp_write`, or before the first. -/
def Settled (s : Socket σ) (e : SocketEvent σ) : Prop :=
  s.Aborts e → lastRefused s.life.down.world.calls = false

/-- As long as the session lives, its messages and its queue are what was
posted. -/
structure InOrder (s : Socket σ) : Prop where
  fifo : s.life.Fifo
  waits : s.life.down.Waits
  posted : s.life.down.session.dead = false →
    s.posted = s.life.messages.map Queued.data ++ s.queue

theorem received_data (messages : List Bytes) (posted : List Queued) :
    received (messages.map Queued.data ++ posted) = messages.flatten ++ received posted := by
  induction messages with
  | nil => rfl
  | cons message messages ih =>
    rw [List.map_cons, List.cons_append, List.flatten_cons, List.append_assoc, ← ih]
    rfl

theorem aborts_iff {s : Socket σ} {e : SocketEvent σ} :
    s.Aborts e ↔ e = .block ∧ s.queue.head? = some .close ∧ s.life.down.session.dead = false := by
  unfold Aborts wsCloseBlock
  split_ifs with hdead <;> simp [hdead]

/-- At an abort, everything received before the close has been processed. -/
theorem InOrder.received {s : Socket σ} (h : s.InOrder) {e : SocketEvent σ} (he : s.Aborts e) :
    Socket.received s.posted = s.life.messages.flatten := by
  obtain ⟨-, hhead, halive⟩ := aborts_iff.mp he
  obtain ⟨queue, hqueue⟩ := List.head?_eq_some_iff.mp hhead
  rw [h.posted halive, hqueue, received_data]
  exact List.append_nil _

/-- One event: an abort truncates nothing exactly when it is settled. -/
theorem InOrder.untruncated {s : Socket σ} (h : s.InOrder) (e : SocketEvent σ) :
    s.Untruncated e ↔ s.Settled e := by
  refine forall_congr' fun he => ?_
  rw [← h.waits.eq_none_iff, and_iff_left_iff_imp]
  intro hnone
  have hdelivered := h.fifo.delivered
  unfold Down.delivered at hdelivered
  rw [hnone] at hdelivered
  rw [h.received he, ← hdelivered]
  exact (List.append_nil _).symm

/-! ## Steps -/

section

variable {ks : Keystream} {write : Bytes → σ → Bool × σ} {s t : Socket σ}

/-- A handler of the session has run, and `queue` is left. -/
theorem InOrder.after (h : s.InOrder) (e : SessionEvent σ) (queue : List Queued)
    (hposted : (s.life.step ks write e).down.session.dead = false →
      s.posted = (s.life.step ks write e).messages.map Queued.data ++ queue) :
    ({ s with queue }.handle ks write e).InOrder :=
  ⟨@Life.Fifo.step σ ks write s.life h.fifo e, @Life.step_waits σ write ks s.life h.waits e,
    hposted⟩

/-- A callback of the bridge: it takes no message, and a dead session stays
dead. -/
theorem InOrder.callback (h : s.InOrder) (e : SessionEvent σ)
    (hdead : (s.life.step ks write e).down.session.dead = false → s.life.down.session.dead = false)
    (hmessages : (s.life.step ks write e).messages = s.life.messages) :
    (s.handle ks write e).InOrder := by
  refine h.after e s.queue fun halive => ?_
  rw [hmessages]
  exact h.posted (hdead halive)

theorem InOrder.post (h : s.InOrder) (block : Queued) : (s.post block).InOrder := by
  refine ⟨h.fifo, h.waits, fun halive => ?_⟩
  show s.posted ++ [block] = s.life.messages.map Queued.data ++ (s.queue ++ [block])
  rw [h.posted halive, List.append_assoc]

/-- The block of a message, which a live session takes. -/
theorem InOrder.data {message : Bytes} {queue : List Queued} (h : s.InOrder)
    (hqueue : s.queue = .data message :: queue) :
    ({ s with queue }.handle ks write (.wsData message)).InOrder := by
  refine h.after (.wsData message) queue fun halive => ?_
  have hs : s.life.down.session.dead = false := by
    by_contra hdead
    have hsame := @wsDataBlock_dead σ write s.life.down message (eq_true_of_ne_false hdead)
    have hdead' : (wsDataBlock (logged write) s.life.down message).session.dead = false := halive
    rw [hsame] at hdead'
    exact hdead hdead'
  have hmessages : (s.life.step ks write (.wsData message)).messages =
      s.life.messages ++ [message] := if_neg (by rw [hs]; exact Bool.false_ne_true)
  rw [hmessages, h.posted hs, hqueue, List.map_append, List.append_assoc]
  rfl

/-- The block of a close leaves the session dead. -/
theorem InOrder.close {queue : List Queued} (h : s.InOrder) :
    ({ s with queue }.handle ks write .wsClose).InOrder := by
  refine h.after .wsClose queue fun halive => ?_
  have hdead : (wsCloseBlock s.life.down.session).1.dead = true := by
    unfold wsCloseBlock
    split_ifs with hdead
    · exact hdead
    · rfl
  exact absurd (hdead.symm.trans halive) nofun

theorem InOrder.step (h : s.InOrder) {e : SocketEvent σ} (hstep : s.step ks write e = some t) :
    t.InOrder := by
  cases e with
  | wsData message =>
    obtain ⟨-, heq⟩ := Option.ite_none_right_eq_some.mp hstep
    rw [← Option.some.inj heq]
    exact h.post _
  | wsClose =>
    obtain ⟨-, heq⟩ := Option.ite_none_right_eq_some.mp hstep
    rw [← Option.some.inj heq]
    exact h.post _
  | block =>
    unfold Socket.step at hstep
    dsimp only at hstep
    split at hstep
    · rename_i message queue hqueue
      rw [← Option.some.inj hstep]
      exact h.data hqueue
    · rw [← Option.some.inj hstep]
      exact h.close
    · exact absurd hstep nofun
  | data chunk =>
    have hdead := congrArg Kept.dead
      (handleData_kept ks ⟨s.life.down.session, s.life.down.log, []⟩ chunk)
    rw [← Option.some.inj hstep]
    exact h.callback (.data chunk) (fun halive => hdead.symm.trans halive) rfl
  | sent =>
    have hdead : (handleSent (logged write) s.life.down).session.dead =
        s.life.down.session.dead := by
      unfold handleSent writeOrQueue
      dsimp only
      split
      · rfl
      · split <;> rfl
    rw [← Option.some.inj hstep]
    exact h.callback .sent (fun halive => hdead.symm.trans halive) rfl
  | close =>
    rw [← Option.some.inj hstep]
    exact h.callback .close (fun halive => absurd halive nofun) rfl
  | world w =>
    rw [← Option.some.inj hstep]
    exact h.callback (.world w) (fun halive => halive) rfl

end

end Socket

/-- In every run of a session, with every way of answering `tcp_write`: every
abort on a close of the web socket finds `pending` empty and every byte received
before the close accepted, exactly when the last `tcp_write` before every abort
was accepted. -/
theorem untruncated_iff {σ : Type*} (ks : Keystream) (write : Bytes → σ → Bool × σ) (connId : ℕ)
    (dcIP : UInt32) (workerDomain : Option String) (log : EventLog) (w : σ)
    (events : List (SocketEvent σ)) :
    EveryStep (Socket.step ks write) Socket.Untruncated
        (Socket.new connId dcIP workerDomain log w) events ↔
      EveryStep (Socket.step ks write) Socket.Settled
        (Socket.new connId dcIP workerDomain log w) events := by
  have hnew : (Socket.new connId dcIP workerDomain log w).InOrder :=
    ⟨⟨rfl, nofun⟩, rfl, fun _ => rfl⟩
  exact everyStep_iff_everyStep (I := Socket.InOrder) (fun s e t h _ => h.untruncated e)
    (fun s e t h _ hstep => h.step hstep) events _ hnew

/-- A send buffer with room for `room` bytes. -/
def sendBuffer (data : Bytes) (room : ℕ) : Bool × ℕ :=
  if data.length ≤ room then (true, room - data.length) else (false, room)

/-- Of two messages the second waits for room when the web socket is closed: the
abort drops it. -/
theorem close_truncates :
    ¬ ∀ (ks : Keystream) (connId : ℕ) (dcIP : UInt32) (workerDomain : Option String)
      (log : EventLog) (room : ℕ) (events : List (SocketEvent ℕ)),
      EveryStep (Socket.step ks sendBuffer) Socket.Untruncated
        (Socket.new connId dcIP workerDomain log room) events := by
  intro h
  have hrun : (run (Socket.step (fun _ _ _ => 0) sendBuffer)
      (Socket.new 0 0 (some "worker") {} 4)
      [.data [0], .wsData [1, 2, 3], .wsData [4, 5], .wsClose, .block, .block]).map
        (fun s => (s.queue, s.life.down.session.pending, s.life.down.session.dead)) =
      some ([.close], some [4, 5], false) := by
    decide +kernel
  obtain ⟨s, hs, hstate⟩ := Option.map_eq_some_iff.mp hrun
  obtain ⟨hqueue, hsession⟩ := Prod.mk.inj hstate
  obtain ⟨hpending, halive⟩ := Prod.mk.inj hsession
  have hlast := h (fun _ _ _ => 0) 0 0 (some "worker") {} 4
    ([.data [0], .wsData [1, 2, 3], .wsData [4, 5], .wsClose, .block, .block] ++ [.block])
  have hclose := hlast.after hs (by unfold Socket.step; rw [hqueue])
  have hempty := (hclose (Socket.aborts_iff.mpr ⟨rfl, by rw [hqueue]; rfl, halive⟩)).1
  exact absurd (hpending.symm.trans hempty) nofun

end WSBridge.TunnelSession
