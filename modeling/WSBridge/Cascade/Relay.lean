import WSBridge.Foundation.Runs
import WSBridge.Upstream.AESCTR

/-!
# The relay connection (`Tunnel/WSClient.swift`, `connectRelay`)

In relay mode the client sends over one `NWConnection`. Until the connection is
ready `send` collects the data in `relayPending`; the ready handler sends the
line with the secret and the destination, and what was collected, as one piece.
The handler runs on a global queue and `send` on `lwipQueue`, so the handler is
four events, and a call of `send` two: it looks at `relayConn` and `relayReady`,
and then acts on what it saw. The session makes one call at a time.

Assumed of Network.framework: a connection becomes ready at most once, and
takes the data of its `send` calls in their order.

Results:
* `intact_of_inTurn`: the stream is whole as long as no call appends to
  `relayPending` after the handler has read it, or sends before the handler
  has.
* `send_overtakes`: a call between the first two steps of the handler.
-/

namespace WSBridge.Cascade

open WSBridge.Foundation

/-- `relaySecret` (line 63). -/
def relaySecret : String := "wsb1"

/-- The line the handler begins with (line 375). -/
def relayHead (dst : String) : Bytes := (relaySecret ++ " " ++ dst ++ "\n").toUTF8.data.toList

/-- How far the ready handler (lines 373–378) is. `head` is its local variable. -/
inductive ReadyHandler where
  | waiting
  | flagged
  | read (head : Bytes)
  | cleared (head : Bytes)
  | finished
  deriving DecidableEq, Repr

/-- The branch a call of `send` (lines 315–323) has taken. -/
inductive SendBranch where
  /-- `rc.send(content: data)` -/
  | direct
  /-- `relayPending.append(data)` -/
  | pending
  /-- `relayConn` is `nil`, and so is `task`. -/
  | task
  deriving DecidableEq, Repr

/-- A `WSClient` in relay mode. -/
structure Relay where
  dst : String
  /-- `relayConn` is set: the connection has not ended. -/
  relayConn : Bool := true
  relayReady : Bool := false
  relayPending : Bytes := []
  handler : ReadyHandler := .waiting
  /-- The call of `send` under way. -/
  call : Option (SendBranch × Bytes) := none
  /-- The bytes handed to the connection. -/
  handed : Bytes := []
  /-- History: the data of all calls of `send`. -/
  sent : Bytes := []
  /-- History: the data of the calls that have returned. -/
  returned : Bytes := []
  deriving DecidableEq, Repr

/-- What happens next to the relay connection: each part of the handler of `.ready`
and of a call of `send` that runs without interruption, the timer, and the end. -/
inductive RelayEvent where
  | ready
  | readPending
  | clearPending
  | sendHead
  | send (data : Bytes)
  | act
  /-- The 5 s timer (lines 391–396). -/
  | slow
  /-- The connection fails, is cancelled, or its stream ends. -/
  | failed
  | close
  deriving DecidableEq, Repr

namespace Relay

/-- `connectRelay(host:port:dst:onMessage:onClose:)` (lines 353–397), up to
`conn.start`. -/
def connectRelay (dst : String) : Relay := { dst }

/-- The branch that `send` takes (lines 315–323). -/
def branch (r : Relay) : SendBranch :=
  if r.relayConn then if r.relayReady then .direct else .pending else .task

/-- A call of `send` acts. -/
def act (r : Relay) (branch : SendBranch) (data : Bytes) : Relay :=
  let r := { r with call := none, returned := r.returned ++ data }
  match branch with
  | .direct => { r with handed := r.handed ++ data }
  | .pending => { r with relayPending := r.relayPending ++ data }
  | .task => r

/-- The state an event leads to, where it can happen. -/
def step (r : Relay) : RelayEvent → Option Relay
  | .ready =>
    match r.handler with
    | .waiting => some { r with relayReady := true, handler := .flagged }
    | _ => none
  | .readPending =>
    match r.handler with
    | .flagged => some { r with handler := .read (relayHead r.dst ++ r.relayPending) }
    | _ => none
  | .clearPending =>
    match r.handler with
    | .read head => some { r with relayPending := [], handler := .cleared head }
    | _ => none
  | .sendHead =>
    match r.handler with
    | .cleared head => some { r with handed := r.handed ++ head, handler := .finished }
    | _ => none
  | .send data =>
    match r.call with
    | none => some { r with call := some (r.branch, data), sent := r.sent ++ data }
    | some _ => none
  | .act =>
    match r.call with
    | some (branch, data) => some (r.act branch data)
    | none => none
  | .slow => if r.relayConn ∧ ¬ r.relayReady then some { r with relayConn := false } else none
  | .failed | .close => some { r with relayConn := false }

end Relay

/-- Until the connection ends, it has been handed the beginning of the line and
the data sent, and once the handler has finished, all of it. -/
def Relay.Intact (r : Relay) : Prop :=
  r.relayConn = true →
    r.handed <+: relayHead r.dst ++ r.sent ∧
      (r.handler = .finished → r.handed = relayHead r.dst ++ r.returned)

/-- The handler has not read `relayPending`. -/
def ReadyHandler.Collecting : ReadyHandler → Prop
  | .waiting | .flagged => True
  | _ => False

/-- A call with data acts in its turn: on `relayPending` before the handler has
read it, on the connection after the handler has. -/
def InTurn (r : Relay) : RelayEvent → Prop
  | .act => r.relayConn = true → ∀ branch data, r.call = some (branch, data) → data = [] ∨
      (branch = .pending ∧ r.handler.Collecting) ∨ (branch = .direct ∧ r.handler = .finished)
  | _ => True

/-! ## The invariant -/

/-- Where the data of the calls that have returned is. -/
def Relay.Holds (r : Relay) : ReadyHandler → Prop
  | .waiting | .flagged => r.handed = [] ∧ r.relayPending = r.returned
  | .read head | .cleared head => r.handed = [] ∧ head = relayHead r.dst ++ r.returned
  | .finished => r.handed = relayHead r.dst ++ r.returned

/-- No byte of the calls of `send` is lost or out of place. -/
structure Relay.Whole (r : Relay) : Prop where
  holds : r.Holds r.handler
  sent : r.sent = r.returned ++ (r.call.map Prod.snd).getD []

section

variable {r r' : Relay}

theorem Relay.Whole.intact (h : r.Whole) : r.Intact := by
  have hholds := h.holds
  intro _
  rw [h.sent]
  cases hhandler : r.handler with
  | waiting | flagged | read head | cleared head =>
    rw [hhandler] at hholds
    rw [hholds.1]
    exact ⟨List.nil_prefix, nofun⟩
  | finished =>
    rw [hhandler] at hholds
    have hhanded : r.handed = relayHead r.dst ++ r.returned := hholds
    rw [hhanded, ← List.append_assoc]
    exact ⟨List.prefix_append _ _, fun _ => rfl⟩

/-- A call without data changes nothing. -/
theorem Relay.Holds.act_nil {handler : ReadyHandler} (h : r.Holds handler) (branch : SendBranch) :
    (r.act branch []).Holds handler := by
  have hact : (r.act branch []).handed = r.handed ∧
      (r.act branch []).relayPending = r.relayPending ∧
      (r.act branch []).returned = r.returned ∧ (r.act branch []).dst = r.dst := by
    cases branch <;> simp [Relay.act]
  obtain ⟨hhanded, hpending, hreturned, hdst⟩ := hact
  cases handler <;> simpa [Relay.Holds, hhanded, hpending, hreturned, hdst] using h

theorem Relay.Whole.act (h : r.Whole) {branch : SendBranch} {data : Bytes}
    (hcall : r.call = some (branch, data))
    (hturn : data = [] ∨ (branch = .pending ∧ r.handler.Collecting) ∨
      (branch = .direct ∧ r.handler = .finished)) : (r.act branch data).Whole := by
  have hholds := h.holds
  refine ⟨?_, ?_⟩
  · have hhandler : (r.act branch data).handler = r.handler := by cases branch <;> rfl
    rw [hhandler]
    rcases hturn with rfl | ⟨rfl, hcollecting⟩ | ⟨rfl, hfinished⟩
    · exact hholds.act_nil branch
    · cases hr : r.handler with
      | waiting | flagged =>
        rw [hr] at hholds
        obtain ⟨hhanded, hpending⟩ := hholds
        exact ⟨hhanded, congrArg (· ++ data) hpending⟩
      | read | cleared | finished =>
        rw [hr] at hcollecting
        exact hcollecting.elim
    · rw [hfinished] at hholds ⊢
      have hhanded : r.handed = relayHead r.dst ++ r.returned := hholds
      show r.handed ++ data = relayHead r.dst ++ (r.returned ++ data)
      rw [hhanded, List.append_assoc]
  · have hsent := h.sent
    rw [hcall] at hsent
    have hsame : (r.act branch data).sent = r.sent ∧ (r.act branch data).call = none ∧
        (r.act branch data).returned = r.returned ++ data := by
      cases branch <;> exact ⟨rfl, rfl, rfl⟩
    obtain ⟨hs, hc, hret⟩ := hsame
    rw [hs, hc, hret, hsent]
    simp

/-- Every event in its turn keeps the stream whole. -/
theorem Relay.Whole.step (h : r.relayConn = true → r.Whole) {e : RelayEvent} (hturn : InTurn r e)
    (hstep : r.step e = some r') : r'.relayConn = true → r'.Whole := by
  intro hconn
  cases e with
  | ready =>
    simp only [Relay.step] at hstep
    split at hstep
    · rename_i hhandler
      cases hstep
      have hholds := (h hconn).holds
      rw [hhandler] at hholds
      exact ⟨hholds, (h hconn).sent⟩
    · cases hstep
  | readPending =>
    simp only [Relay.step] at hstep
    split at hstep
    · rename_i hhandler
      cases hstep
      have hholds := (h hconn).holds
      rw [hhandler] at hholds
      obtain ⟨hhanded, hpending⟩ := hholds
      exact ⟨⟨hhanded, congrArg (relayHead r.dst ++ ·) hpending⟩, (h hconn).sent⟩
    · cases hstep
  | clearPending =>
    simp only [Relay.step] at hstep
    split at hstep
    · rename_i head hhandler
      cases hstep
      have hholds := (h hconn).holds
      rw [hhandler] at hholds
      exact ⟨hholds, (h hconn).sent⟩
    · cases hstep
  | sendHead =>
    simp only [Relay.step] at hstep
    split at hstep
    · rename_i head hhandler
      cases hstep
      have hholds := (h hconn).holds
      rw [hhandler] at hholds
      obtain ⟨hhanded, hhead⟩ := hholds
      refine ⟨?_, (h hconn).sent⟩
      show r.handed ++ head = relayHead r.dst ++ r.returned
      rw [hhanded, hhead]
      rfl
    · cases hstep
  | send data =>
    simp only [Relay.step] at hstep
    split at hstep
    · rename_i hcall
      cases hstep
      have hsent := (h hconn).sent
      rw [hcall] at hsent
      refine ⟨(h hconn).holds, ?_⟩
      show r.sent ++ data = r.returned ++ data
      rw [hsent]
      simp
    · cases hstep
  | act =>
    simp only [Relay.step] at hstep
    split at hstep
    · rename_i branch data hcall
      cases hstep
      have hconn' : r.relayConn = true := by cases branch <;> exact hconn
      exact (h hconn').act hcall (hturn hconn' branch data hcall)
    · cases hstep
  | slow =>
    obtain ⟨-, heq⟩ := Option.ite_none_right_eq_some.mp hstep
    cases heq
    cases hconn
  | failed | close =>
    cases hstep
    cases hconn

end

/-- The stream is whole in every state of a run whose calls act in their
turn. -/
theorem intact_of_inTurn (dst : String) (events : List RelayEvent)
    (hturn : EveryStep Relay.step InTurn (Relay.connectRelay dst) events) :
    EveryState Relay.step Relay.Intact (Relay.connectRelay dst) events := by
  refine everyState_of_everyStep (I := fun r => r.relayConn = true → r.Whole) ?_ ?_ events _
    (fun _ => ⟨⟨rfl, rfl⟩, rfl⟩) hturn
  · intro r e r' h hC hstep
    exact Relay.Whole.step h hC hstep
  · intro r h hconn
    exact (h hconn).intact hconn

/-- Calls before the handler begins and after it has finished. -/
theorem intact_calls :
    EveryStep Relay.step InTurn (Relay.connectRelay "149.154.167.51") [.send [1], .act, .ready,
        .readPending, .clearPending, .sendHead, .send [2], .act] ∧
      EveryState Relay.step Relay.Intact (Relay.connectRelay "149.154.167.51") [.send [1], .act,
        .ready, .readPending, .clearPending, .sendHead, .send [2], .act] := by
  have hturn : EveryStep Relay.step InTurn (Relay.connectRelay "149.154.167.51") [.send [1], .act,
      .ready, .readPending, .clearPending, .sendHead, .send [2], .act] := by
    intro _ h₁
    obtain rfl := Option.some.inj h₁
    refine ⟨trivial, fun _ h₂ => ?_⟩
    obtain rfl := Option.some.inj h₂
    refine ⟨?_, fun _ h₃ => ?_⟩
    · rintro - branch data hcall
      obtain ⟨rfl, rfl⟩ := Prod.mk.inj (Option.some.inj hcall)
      exact Or.inr (Or.inl ⟨rfl, trivial⟩)
    obtain rfl := Option.some.inj h₃
    refine ⟨trivial, fun _ h₄ => ?_⟩
    obtain rfl := Option.some.inj h₄
    refine ⟨trivial, fun _ h₅ => ?_⟩
    obtain rfl := Option.some.inj h₅
    refine ⟨trivial, fun _ h₆ => ?_⟩
    obtain rfl := Option.some.inj h₆
    refine ⟨trivial, fun _ h₇ => ?_⟩
    obtain rfl := Option.some.inj h₇
    refine ⟨trivial, fun _ h₈ => ?_⟩
    obtain rfl := Option.some.inj h₈
    refine ⟨?_, trivial⟩
    rintro - branch data hcall
    obtain ⟨rfl, rfl⟩ := Prod.mk.inj (Option.some.inj hcall)
    exact Or.inr (Or.inr ⟨rfl, rfl⟩)
  exact ⟨hturn, intact_of_inTurn _ _ hturn⟩

/-- A call of `send` sees the flag that the handler has just set: its data goes
before the line. -/
theorem send_overtakes :
    ¬ ∀ (dst : String) (events : List RelayEvent) (r : Relay),
      run Relay.step (Relay.connectRelay dst) events = some r → r.Intact := by
  intro h
  have hintact := h "149.154.167.51" [.ready, .send [1], .act] _ rfl
  revert hintact
  unfold Relay.Intact
  decide

end WSBridge.Cascade
