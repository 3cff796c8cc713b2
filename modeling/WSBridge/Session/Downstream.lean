import WSBridge.Session.TunnelSession

/-!
# From the gateway to the client

What a session does with the messages of its web socket: each is written to
lwIP in pieces of at most 65535 bytes, and what a refused write leaves waits in
`pending` for the next sent callback.

Results:
* `writeLoop_rule`: the rule for the loop of `writeOrQueue`, with an invariant
  `I` of the offset and a postcondition `R` of a refused write.
* `writeOrQueue_moves`, `handleSent_moves`, `wsDataBlock_moves`: each handler
  moves bytes from its message through `pending` to the accepted writes and
  drops none.
* `downstream_fifo`: over a whole life of the session, the accepted bytes
  followed by `pending` are the messages processed so far.
-/

namespace WSBridge.TunnelSession

/-! ## The loop of `writeOrQueue` -/

theorem subdata_length (d : Bytes) {off stop : ℕ} (h : stop ≤ d.length) :
    (subdata d off stop).length = stop - off := by
  simp only [subdata, List.length_take, List.length_drop]
  omega

theorem take_append_subdata (d : Bytes) {off stop : ℕ} (h : off ≤ stop) :
    d.take off ++ subdata d off stop = d.take stop := by
  have hstop : stop = off + (stop - off) := by omega
  rw [hstop, List.take_add, subdata]
  simp

/-- The piece the loop writes at `off`. -/
def piece (d : Bytes) (off : ℕ) : Bytes := subdata d off (min (off + 65535) d.length)

theorem piece_length (d : Bytes) {off : ℕ} (h : off < d.length) :
    1 ≤ (piece d off).length ∧ (piece d off).length ≤ 65535 := by
  rw [piece, subdata_length d (min_le_right _ _)]
  omega

section

variable {σ : Type*} {write : Bytes → σ → Bool × σ}

theorem writeLoop_accepted {d : Bytes} {off : ℕ} {w w' : σ} (h : off < d.length)
    (hw : write (piece d off) w = (true, w')) :
    writeLoop write d off w = writeLoop write d (min (off + 65535) d.length) w' := by
  have hpiece : write (subdata d off (min (off + 65535) d.length)) w = (true, w') := hw
  rw [writeLoop, if_pos h]
  dsimp only
  rw [hpiece]

theorem writeLoop_refused {d : Bytes} {off : ℕ} {w w' : σ} (h : off < d.length)
    (hw : write (piece d off) w = (false, w')) :
    writeLoop write d off w = (some (d.drop off), w') := by
  have hrest : subdata d off d.length = d.drop off :=
    List.take_of_length_le (List.length_drop ..).le
  have hpiece : write (subdata d off (min (off + 65535) d.length)) w = (false, w') := hw
  rw [writeLoop, if_pos h]
  dsimp only
  rw [hpiece, hrest]

/-- How the loop over `d` ends: with everything written and `I` at its end, or
with the rest from some offset on and `R` there. -/
def LoopEnds (d : Bytes) (I R : ℕ → σ → Prop) : Option Bytes × σ → Prop
  | (none, w) => I d.length w
  | (some rest, w) => ∃ k < d.length, rest = d.drop k ∧ R k w

/-- An accepted piece takes `I` from its offset to the next one, a refused one
takes `I` to `R`. -/
theorem writeLoop_rule (write : Bytes → σ → Bool × σ) {d : Bytes} {I R : ℕ → σ → Prop}
    (hok : ∀ off w w', off < d.length → I off w → write (piece d off) w = (true, w') →
      I (min (off + 65535) d.length) w')
    (hno : ∀ off w w', off < d.length → I off w → write (piece d off) w = (false, w') → R off w')
    (off : ℕ) (w : σ) (hoff : off ≤ d.length) (hI : I off w) :
    LoopEnds d I R (writeLoop write d off w) := by
  induction off, w using writeLoop.induct write d with
  | case1 off w hlt stop w' hw ih =>
    rw [writeLoop_accepted hlt hw]
    exact ih (min_le_right _ _) (hok off w w' hlt hI hw)
  | case2 off w hlt stop w' hw =>
    rw [writeLoop_refused hlt hw]
    exact ⟨off, hlt, rfl, hno off w w' hlt hI hw⟩
  | case3 off w hge =>
    rw [writeLoop, if_neg hge]
    have hend : off = d.length := by omega
    subst hend
    exact hI

/-! ## Conservation -/

/-- The world, and the `LWIPBridge.write` calls made on it with their results. -/
structure Line (σ : Type*) where
  world : σ
  calls : List (Bytes × Bool) := []

/-- `write`, with the call recorded. -/
def logged (write : Bytes → σ → Bool × σ) (data : Bytes) (l : Line σ) : Bool × Line σ :=
  let (ok, world) := write data l.world
  (ok, ⟨world, l.calls ++ [(data, ok)]⟩)

/-- The bytes of the accepted calls, in order. -/
def accepted (calls : List (Bytes × Bool)) : Bytes :=
  calls.flatMap fun call => if call.2 then call.1 else []

/-- Every call fits the `UInt16` length of `lwip_bridge_write` and has a byte. -/
def Sized (calls : List (Bytes × Bool)) : Prop :=
  ∀ call ∈ calls, 1 ≤ call.1.length ∧ call.1.length ≤ 65535

theorem accepted_concat (calls : List (Bytes × Bool)) (data : Bytes) (ok : Bool) :
    accepted (calls ++ [(data, ok)]) = accepted calls ++ if ok then data else [] := by
  simp [accepted]

theorem Sized.concat {calls : List (Bytes × Bool)} (h : Sized calls) {data : Bytes}
    (hdata : 1 ≤ data.length ∧ data.length ≤ 65535) (ok : Bool) :
    Sized (calls ++ [(data, ok)]) := by
  intro call hcall
  rcases List.mem_append.mp hcall with hcall | hcall
  · exact h call hcall
  · obtain rfl := List.mem_singleton.mp hcall
    exact hdata

/-- Where the loop over `d` stands that began after `calls`: the bytes before
`off` are accepted. -/
structure Written (calls : List (Bytes × Bool)) (d : Bytes) (off : ℕ) (l : Line σ) : Prop where
  accepted : accepted l.calls = accepted calls ++ d.take off
  sized : Sized l.calls
  aligned : l.calls.length * 65535 = calls.length * 65535 + off ∨ off = d.length
  calls_lt : l.calls.length * 65535 < calls.length * 65535 + off + 65535

/-- What a refused write at `off` leaves. -/
structure Refused (calls : List (Bytes × Bool)) (d : Bytes) (off : ℕ) (l : Line σ) : Prop where
  accepted : accepted l.calls = accepted calls ++ d.take off
  sized : Sized l.calls
  calls_lt : l.calls.length * 65535 < calls.length * 65535 + d.length + 65535

theorem Written.next {calls : List (Bytes × Bool)} {d : Bytes} {off : ℕ} {l l' : Line σ}
    (h : Written calls d off l) (hlt : off < d.length)
    (hw : logged write (piece d off) l = (true, l')) :
    Written calls d (min (off + 65535) d.length) l' := by
  obtain ⟨hok, rfl⟩ := Prod.mk.inj hw
  have haligned := h.aligned.resolve_right hlt.ne
  refine ⟨?_, ?_, ?_, ?_⟩
  · rw [accepted_concat, hok, if_pos rfl, h.accepted, List.append_assoc, piece,
      take_append_subdata d (by omega)]
  · exact h.sized.concat (piece_length d hlt) _
  · rw [List.length_append, List.length_singleton]
    omega
  · rw [List.length_append, List.length_singleton]
    omega

theorem Written.refused {calls : List (Bytes × Bool)} {d : Bytes} {off : ℕ} {l l' : Line σ}
    (h : Written calls d off l) (hlt : off < d.length)
    (hw : logged write (piece d off) l = (false, l')) : Refused calls d off l' := by
  obtain ⟨hok, rfl⟩ := Prod.mk.inj hw
  have haligned := h.aligned.resolve_right hlt.ne
  refine ⟨?_, h.sized.concat (piece_length d hlt) _, ?_⟩
  · rw [accepted_concat, hok, if_neg Bool.false_ne_true, List.append_nil, h.accepted]
  · rw [List.length_append, List.length_singleton]
    omega

theorem writeLoop_written (d : Bytes) (l : Line σ) (hl : Sized l.calls) :
    LoopEnds d (Written l.calls d) (Refused l.calls d) (writeLoop (logged write) d 0 l) := by
  refine writeLoop_rule _ ?_ ?_ 0 l (Nat.zero_le _) ?_
  · intro off l' l'' hlt h hw
    exact h.next hlt hw
  · intro off l' l'' hlt h hw
    exact h.refused hlt hw
  · exact ⟨by simp, hl, by omega, by omega⟩

/-- The bytes a session has got rid of, and those it still holds. -/
def Down.delivered (u : Down (Line σ)) : Bytes :=
  accepted u.world.calls ++ u.session.pending.getD []

/-- A handler has taken `data` in: it has been written or is pending. -/
structure Moves (u v : Down (Line σ)) (data : Bytes) : Prop where
  delivered : v.delivered = u.delivered ++ data
  sized : Sized v.world.calls
  calls_lt : v.world.calls.length * 65535 < u.world.calls.length * 65535 + data.length + 65535

theorem writeOrQueue_moves (u : Down (Line σ)) (hu : Sized u.world.calls) (data : Bytes) :
    Moves u (writeOrQueue (logged write) u data).2 data := by
  unfold writeOrQueue
  split
  · rename_i p hp
    refine ⟨?_, hu, ?_⟩
    · simp [Down.delivered, hp]
    · show u.world.calls.length * 65535 < _
      omega
  · rename_i hnone
    have hloop := @writeLoop_written σ write data u.world hu
    split <;> rename_i heq <;> rw [heq] at hloop
    · obtain ⟨k, hk, rfl, h⟩ := hloop
      refine ⟨?_, h.sized, h.calls_lt⟩
      simp [Down.delivered, hnone, h.accepted]
    · refine ⟨?_, hloop.sized, hloop.calls_lt⟩
      simp [Down.delivered, hnone, hloop.accepted]

theorem wsDataBlock_moves (u : Down (Line σ)) (hu : Sized u.world.calls) (data : Bytes)
    (halive : u.session.dead = false) : Moves u (wsDataBlock (logged write) u data) data := by
  have hmoves := @writeOrQueue_moves σ write
    { u with log.wsDown := u.log.wsDown + data.length } hu data
  unfold wsDataBlock
  rw [if_neg (by simp [halive])]
  exact ⟨hmoves.delivered, hmoves.sized, hmoves.calls_lt⟩

theorem wsDataBlock_dead (u : Down (Line σ)) (data : Bytes) (hdead : u.session.dead = true) :
    wsDataBlock (logged write) u data = u := if_pos hdead

theorem handleSent_moves (u : Down (Line σ)) (hu : Sized u.world.calls) :
    (handleSent (logged write) u).delivered = u.delivered ∧
      Sized (handleSent (logged write) u).world.calls := by
  unfold handleSent
  dsimp only
  split
  · exact ⟨rfl, hu⟩
  · rename_i p hp
    have hmoves := @writeOrQueue_moves σ write
      { session := { u.session with pending := none }
        log := { u.log with sentCb := u.log.sentCb + 1, pendCur := 0 }
        world := u.world } hu p
    refine ⟨?_, hmoves.sized⟩
    rw [hmoves.delivered]
    have hp' : u.session.pending = some p := hp
    simp [Down.delivered, hp']

end

/-! ## The life of a session -/

/-- The handlers of a session, and `world` for whatever else happens to the
world it writes to. -/
inductive SessionEvent (σ : Type*) where
  | data (chunk : Bytes)
  | wsData (message : Bytes)
  | sent
  | wsClose
  | close
  | world (w : σ)

/-- A session with the messages it has processed. -/
structure Life (σ : Type*) where
  down : Down (Line σ)
  messages : List Bytes := []

namespace Life

variable {σ : Type*} (ks : Keystream) (write : Bytes → σ → Bool × σ)

/-- A new session, before its first write. -/
def new (connId : ℕ) (dcIP : UInt32) (workerDomain : Option String) (log : EventLog) (w : σ) :
    Life σ :=
  { down := ⟨TunnelSession.new connId dcIP workerDomain, log, { world := w }⟩ }

/-- A session takes an event. -/
def step (s : Life σ) : SessionEvent σ → Life σ
  | .data chunk =>
    let u := handleData ks ⟨s.down.session, s.down.log, []⟩ chunk
    { s with down := { s.down with session := u.session, log := u.log } }
  | .wsData message =>
    { down := wsDataBlock (logged write) s.down message
      messages := if s.down.session.dead then s.messages else s.messages ++ [message] }
  | .sent => { s with down := handleSent (logged write) s.down }
  | .wsClose => { s with down := { s.down with session := (wsCloseBlock s.down.session).1 } }
  | .close => { s with down := { s.down with session := (handleClose s.down.session).1 } }
  | .world w => { s with down.world.world := w }

/-- The bytes the session has taken are those of its messages. -/
structure Fifo (s : Life σ) : Prop where
  delivered : s.down.delivered = s.messages.flatten
  sized : Sized s.down.world.calls

variable {ks write}

theorem Fifo.of_same {s t : Life σ} (h : s.Fifo) (hcalls : t.down.world.calls = s.down.world.calls)
    (hpending : t.down.session.pending = s.down.session.pending)
    (hmessages : t.messages = s.messages) : t.Fifo := by
  refine ⟨?_, hcalls ▸ h.sized⟩
  rw [Down.delivered, hcalls, hpending, hmessages]
  exact h.delivered

theorem Fifo.wsData {s : Life σ} (h : s.Fifo) (message : Bytes) :
    (s.step ks write (.wsData message)).Fifo := by
  show Fifo ⟨wsDataBlock (logged write) s.down message, _⟩
  by_cases hdead : s.down.session.dead = true
  · rw [wsDataBlock_dead _ _ hdead, if_pos hdead]
    exact h
  · have halive := eq_false_of_ne_true hdead
    have hmoves := @wsDataBlock_moves σ write s.down h.sized message halive
    rw [if_neg hdead]
    refine ⟨?_, hmoves.sized⟩
    rw [List.flatten_concat, ← h.delivered]
    exact hmoves.delivered

theorem Fifo.step {s : Life σ} (h : s.Fifo) (e : SessionEvent σ) : (s.step ks write e).Fifo := by
  cases e with
  | data chunk => exact h.of_same rfl (congrArg Kept.pending (handleData_kept ks _ chunk)) rfl
  | wsData message => exact h.wsData message
  | sent =>
    obtain ⟨hdelivered, hsized⟩ := @handleSent_moves σ write s.down h.sized
    exact ⟨hdelivered.trans h.delivered, hsized⟩
  | wsClose =>
    refine h.of_same rfl ?_ rfl
    show (wsCloseBlock s.down.session).1.pending = _
    unfold wsCloseBlock
    split_ifs <;> rfl
  | close => exact h.of_same rfl rfl rfl
  | world w => exact h.of_same rfl rfl rfl

theorem Fifo.run {s : Life σ} (h : s.Fifo) (events : List (SessionEvent σ)) :
    (events.foldl (Life.step ks write) s).Fifo := by
  induction events generalizing s with
  | nil => exact h
  | cons e events ih => exact ih (h.step e)

end Life

/-- For every session, every world with every way of answering `write`, and
every order of the session's handlers: the accepted bytes followed by `pending`
are the messages processed so far, each write has 1 to 65535 bytes, and
`writeOrQueue` ends after at most one write for each 65535 bytes begun. -/
theorem downstream_fifo {σ : Type*} (ks : Keystream) (write : Bytes → σ → Bool × σ) (connId : ℕ)
    (dcIP : UInt32) (workerDomain : Option String) (log : EventLog) (w : σ)
    (events : List (SessionEvent σ)) :
    let s := events.foldl (Life.step ks write) (Life.new connId dcIP workerDomain log w)
    accepted s.down.world.calls ++ s.down.session.pending.getD [] = s.messages.flatten ∧
      (∀ call ∈ s.down.world.calls, 1 ≤ call.1.length ∧ call.1.length ≤ 65535) ∧
      ∀ data, (writeOrQueue (logged write) s.down data).2.world.calls.length * 65535 <
        s.down.world.calls.length * 65535 + data.length + 65535 := by
  have hstart : (Life.new connId dcIP workerDomain log w).Fifo := ⟨rfl, nofun⟩
  intro s
  have hs : s.Fifo := hstart.run events
  exact ⟨hs.delivered, hs.sized, fun data => (writeOrQueue_moves s.down hs.sized data).calls_lt⟩

end WSBridge.TunnelSession
