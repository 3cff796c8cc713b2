import WSBridge.Cascade.Relay

/-!
# The end of a relay connection (`Tunnel/WSClient.swift`, `connectRelay`)

Three callbacks report the end of a relay connection: its state handler, its
receive, and a timer that gives a connection up that is not ready after 5 s. All
call `finishOnce`, which asks a flag first. The callbacks run on global queues
and the flag has no lock, so a call of `finishOnce` is two events: the callback
that finds the flag clear, and the rest of the call (`finish`).

The handler, the receive and the timer all hold `finishOnce`, and it holds the
client: none of them ever finds it gone.

Results:
* `RelayClient.Once.step`: as long as no callback calls `finishOnce` while
  another is in it, one call of `finishOnce` at most gets past its guard.
-/

namespace WSBridge.Cascade

open WSBridge.Foundation

/-- A `WSClient` in relay mode, with the callbacks of its connection. -/
structure RelayClient where
  relay : Relay
  /-- There is a connection: the port is valid. -/
  started : Bool := true
  firstRecv : Bool := false
  upPosted : Bool := false
  finished : Bool := false
  timerPending : Bool := true
  /-- Receives outstanding on the connection. -/
  receives : ℕ := 0
  /-- Calls of `finishOnce` that have found `finished` clear. -/
  finishing : ℕ := 0
  /-- History: the `onMessage` calls. -/
  messages : List Bytes := []
  /-- History: the number of `onClose` calls. -/
  closes : ℕ := 0
  deriving DecidableEq, Repr

/-- What happens next: an event of the connection or of the session's calls, the
completion of a receive, or the rest of a call of `finishOnce`. A receive without
data (`nil` or empty) has `[]`; `ended` says that it is complete or has an error. -/
inductive RelayClientEvent where
  | relay (e : RelayEvent)
  | received (data : Bytes) (ended : Bool)
  | finish
  deriving DecidableEq, Repr

namespace RelayClient

/-- `connectRelay(host:port:dst:onMessage:onClose:)` (lines 353–397) on a new
client. Whether `NWEndpoint.Port` takes the port is the parameter `portOk`. -/
def connectRelay (portOk : UInt16 → Bool) (port : UInt16) (dst : String) : RelayClient :=
  if portOk port then { relay := Relay.connectRelay dst }
  else
    { relay := { Relay.connectRelay dst with relayConn := false }
      started := false
      timerPending := false
      closes := 1 }

/-- The guard of `finishOnce` (line 364). -/
def finishOnce (r : RelayClient) : RelayClient :=
  if r.finished then r else { r with finishing := r.finishing + 1 }

/-- `finishOnce` after its guard (lines 365–367). -/
def finish (r : RelayClient) : RelayClient :=
  { r with
    finishing := r.finishing - 1
    finished := true
    relay := { r.relay with relayConn := false }
    closes := r.closes + 1 }

/-- `relayReceive` (lines 399–400): one more receive on the connection. -/
def relayReceive (r : RelayClient) : RelayClient :=
  if r.relay.relayConn then { r with receives := r.receives + 1 } else r

/-- A receive completes (lines 401–417). -/
def received (r : RelayClient) (data : Bytes) (ended : Bool) : RelayClient :=
  let r := { r with receives := r.receives - 1 }
  if data ≠ [] then
    ({ r with
      firstRecv := true
      upPosted := r.upPosted || !r.firstRecv
      messages := r.messages ++ [data] }).relayReceive
  else if ended then r.finishOnce
  else r

/-- The timer closure (lines 391–396). -/
def slow (r : RelayClient) : RelayClient :=
  let r := { r with timerPending := false }
  if r.relay.relayConn && !r.relay.relayReady then r.finishOnce else r

/-- An event that changes the connection only. -/
def onRelay (r : RelayClient) (e : RelayEvent) : Option RelayClient :=
  (r.relay.step e).map ({ r with relay := · })

/-- The state an event leads to, where it can happen. The state handler runs
only where there is a connection, and ends with the first receive once it has
sent the line. -/
def step (r : RelayClient) : RelayClientEvent → Option RelayClient
  | .relay .ready => if r.started then r.onRelay .ready else none
  | .relay .sendHead => (r.onRelay .sendHead).map relayReceive
  | .relay .slow => if r.timerPending then some r.slow else none
  | .relay .failed => if r.started then some r.finishOnce else none
  | .relay e => r.onRelay e
  | .received data ended => if 0 < r.receives then some (r.received data ended) else none
  | .finish => if 0 < r.finishing then some r.finish else none

/-- The callback calls `finishOnce`. -/
def callsFinish (r : RelayClient) : RelayClientEvent → Bool
  | .relay .slow => r.relay.relayConn && !r.relay.relayReady
  | .relay .failed => true
  | .received data ended => data.isEmpty && ended
  | _ => false

end RelayClient

/-- No other call of `finishOnce` is past its guard where a callback calls it. -/
def Alone (r : RelayClient) (e : RelayClientEvent) : Prop :=
  r.callsFinish e = true → r.finishing = 0

/-- Who may still report the end. -/
structure RelayClient.Once (r : RelayClient) : Prop where
  one : r.closes + r.finishing ≤ 1
  /-- The flag is set where the end has been reported. -/
  flagged : r.started = true → r.finished = false → r.closes = 0
  /-- Without a connection nothing is outstanding. -/
  idle : r.started = false →
    r.relay.handler = .waiting ∧ r.timerPending = false ∧ r.receives = 0 ∧ r.finishing = 0

section

variable {r s : RelayClient}

/-- Only the connection's getting ready starts its handler. -/
theorem Relay.step_waiting {relay relay' : Relay} {e : RelayEvent} (he : e ≠ .ready)
    (hwaiting : relay.handler = .waiting) (hstep : relay.step e = some relay') :
    relay'.handler = .waiting := by
  cases e with
  | ready => exact absurd rfl he
  | readPending | clearPending | sendHead =>
    simp only [Relay.step, hwaiting] at hstep
    cases hstep
  | send data =>
    simp only [Relay.step] at hstep
    split at hstep
    · cases hstep
      exact hwaiting
    · cases hstep
  | act =>
    simp only [Relay.step] at hstep
    split at hstep
    · rename_i branch data _
      cases hstep
      cases branch <;> exact hwaiting
    · cases hstep
  | slow =>
    obtain ⟨-, heq⟩ := Option.ite_none_right_eq_some.mp hstep
    cases heq
    exact hwaiting
  | failed | close =>
    cases hstep
    exact hwaiting

theorem RelayClient.onRelay_eq_some {e : RelayEvent} :
    r.onRelay e = some s ↔ ∃ relay, r.relay.step e = some relay ∧ { r with relay } = s :=
  Option.map_eq_some_iff

/-- With a connection, only the calls of `finishOnce` count. -/
theorem RelayClient.Once.of_started (hstarted : r.started = true)
    (hone : r.closes + r.finishing ≤ 1) (hflagged : r.finished = false → r.closes = 0) :
    r.Once := by
  refine ⟨hone, fun _ => hflagged, fun hbad => ?_⟩
  rw [hstarted] at hbad
  cases hbad

/-- Something is outstanding, so there is a connection. -/
theorem RelayClient.Once.connected (h : r.Once)
    (hbusy : ¬ (r.relay.handler = .waiting ∧ r.timerPending = false ∧ r.receives = 0 ∧
      r.finishing = 0)) : r.started = true := by
  by_contra hbad
  exact hbusy (h.idle (eq_false_of_ne_true hbad))

/-- A change of the connection that starts no receive. -/
theorem RelayClient.Once.relay (h : r.Once) {e : RelayEvent} (he : r.started = true ∨ e ≠ .ready)
    (hstep : r.onRelay e = some s) : s.Once := by
  obtain ⟨relay, hrelay, rfl⟩ := RelayClient.onRelay_eq_some.mp hstep
  refine ⟨h.one, h.flagged, fun hbad => ?_⟩
  have hbad' : r.started = false := hbad
  have hne : e ≠ .ready := by
    rcases he with hstarted | hne
    · rw [hstarted] at hbad'
      cases hbad'
    · exact hne
  obtain ⟨hwaiting, hrest⟩ := h.idle hbad'
  exact ⟨Relay.step_waiting hne hwaiting hrelay, hrest⟩

theorem RelayClient.Once.finishOnce (h : r.Once) (hstarted : r.started = true)
    (halone : r.finishing = 0) : r.finishOnce.Once := by
  unfold RelayClient.finishOnce
  split_ifs with hfinished
  · exact h
  · have hnone := h.flagged hstarted (eq_false_of_ne_true hfinished)
    refine .of_started hstarted ?_ fun _ => hnone
    show r.closes + (r.finishing + 1) ≤ 1
    omega

theorem RelayClient.Once.finish (h : r.Once) (hfinishing : 0 < r.finishing) :
    r.finish.Once := by
  have hone := h.one
  have hstarted := h.connected fun hidle => hfinishing.ne' hidle.2.2.2
  refine .of_started hstarted ?_ fun hclear => Bool.noConfusion hclear
  show r.closes + 1 + (r.finishing - 1) ≤ 1
  omega

theorem RelayClient.Once.relayReceive (h : r.Once) (hstarted : r.started = true) :
    r.relayReceive.Once := by
  unfold RelayClient.relayReceive
  split_ifs
  · exact .of_started hstarted h.one (h.flagged hstarted)
  · exact h

theorem RelayClient.Once.received (h : r.Once) {data : Bytes} {ended : Bool}
    (hreceives : 0 < r.receives) (halone : Alone r (.received data ended)) :
    (r.received data ended).Once := by
  have hstarted := h.connected fun hidle => hreceives.ne' hidle.2.2.1
  have hdone : ({ r with receives := r.receives - 1 } : RelayClient).Once :=
    .of_started hstarted h.one (h.flagged hstarted)
  unfold RelayClient.received
  dsimp only
  split_ifs with hdata hended
  · exact RelayClient.Once.relayReceive ⟨hdone.one, hdone.flagged, hdone.idle⟩ hstarted
  · refine hdone.finishOnce hstarted (halone ?_)
    rw [not_ne_iff.mp hdata, hended]
    rfl
  · exact hdone

theorem RelayClient.Once.slow (h : r.Once) (htimer : r.timerPending = true)
    (halone : Alone r (.relay .slow)) : r.slow.Once := by
  have hstarted := h.connected fun hidle => Bool.noConfusion (htimer.symm.trans hidle.2.1)
  have hdone : ({ r with timerPending := false } : RelayClient).Once :=
    .of_started hstarted h.one (h.flagged hstarted)
  unfold RelayClient.slow
  dsimp only
  split_ifs with hguard
  · exact hdone.finishOnce hstarted (halone hguard)
  · exact hdone

theorem RelayClient.Once.sendHead (h : r.Once) (hstep : r.step (.relay .sendHead) = some s) :
    s.Once := by
  obtain ⟨q, hq, rfl⟩ := Option.map_eq_some_iff.mp hstep
  have hstarted : r.started = true := by
    refine h.connected fun hidle => ?_
    obtain ⟨relay, hrelay, -⟩ := RelayClient.onRelay_eq_some.mp hq
    simp only [Relay.step, hidle.1] at hrelay
    cases hrelay
  have hsame : q.started = r.started := by
    obtain ⟨relay, -, rfl⟩ := RelayClient.onRelay_eq_some.mp hq
    rfl
  exact (h.relay (Or.inl hstarted) hq).relayReceive (hsame.trans hstarted)

/-- One event. -/
theorem RelayClient.Once.step (h : r.Once) {e : RelayClientEvent} (halone : Alone r e)
    (hstep : r.step e = some s) : s.Once := by
  cases e with
  | relay e =>
    cases e with
    | ready =>
      obtain ⟨hstarted, hrelay⟩ := Option.ite_none_right_eq_some.mp hstep
      exact h.relay (Or.inl hstarted) hrelay
    | sendHead => exact h.sendHead hstep
    | slow =>
      obtain ⟨htimer, heq⟩ := Option.ite_none_right_eq_some.mp hstep
      cases heq
      exact h.slow htimer halone
    | failed =>
      obtain ⟨hstarted, heq⟩ := Option.ite_none_right_eq_some.mp hstep
      cases heq
      exact h.finishOnce hstarted (halone rfl)
    | readPending => exact h.relay (e := .readPending) (Or.inr nofun) hstep
    | clearPending => exact h.relay (e := .clearPending) (Or.inr nofun) hstep
    | send data => exact h.relay (e := .send data) (Or.inr nofun) hstep
    | act => exact h.relay (e := .act) (Or.inr nofun) hstep
    | close => exact h.relay (e := .close) (Or.inr nofun) hstep
  | received data ended =>
    obtain ⟨hreceives, heq⟩ := Option.ite_none_right_eq_some.mp hstep
    cases heq
    exact h.received hreceives halone
  | finish =>
    obtain ⟨hfinishing, heq⟩ := Option.ite_none_right_eq_some.mp hstep
    cases heq
    exact h.finish hfinishing

end

end WSBridge.Cascade
