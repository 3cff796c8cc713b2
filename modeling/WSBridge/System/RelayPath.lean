import WSBridge.Cascade.RelayClient
import WSBridge.Session.PipeMode

/-!
# From the session to a relay and back

With the address of a relay in its settings a session opens one connection to
it, which begins with a line that names the DC. A `RelayPath` is one session
with its `WSClient`. A call of `send` is made on `lwipQueue`, so no handler of
the session runs before it has acted.

Assumed of Network.framework: a receive is given the next bytes of the stream,
65536 at most.

Results:
* `relayHead_injective`: what a relay gets tells it the DC and the stream.
* `relay_path_run`: as long as the calls act in their turn, the relay gets the
  line and the client's stream, and the session the relay's.
-/

namespace WSBridge

open WSBridge.Foundation
open Cascade (Relay RelayEvent RelayClient RelayClientEvent relayHead relaySecret)
open TunnelSession (handleData)

/-! ## The line -/

/-- A line feed is the only character whose encoding has one. -/
theorem newline_notMem {l : List Char} (h : ∀ c ∈ l, c.toNat < 128 ∧ c ≠ '\n') :
    (10 : UInt8) ∉ l.utf8Encode.data.toList := by
  induction l with
  | nil => simp
  | cons c l ih =>
    obtain ⟨hascii, hc⟩ := h c List.mem_cons_self
    have hv : c.val.toNat ≤ 127 := Nat.le_of_lt_succ hascii
    have hne : c.val.toNat ≠ 10 := by
      intro heq
      apply hc
      apply Char.ext
      apply UInt32.toNat_inj.mp
      exact heq
    have hbyte : (10 : UInt8) ≠ UInt8.ofNat c.val.toNat := by
      intro heq
      have hnat : 10 = c.val.toNat % 2 ^ 8 :=
        (congrArg UInt8.toNat heq).trans UInt8.toNat_ofNat'
      omega
    rw [List.utf8Encode_cons, ByteArray.data_append, Array.toList_append, List.mem_append,
      List.utf8Encode_singleton]
    have hchar : String.utf8EncodeChar c = [UInt8.ofNat c.val.toNat] := if_pos hv
    rw [hchar]
    rintro (hmem | hmem)
    · exact hbyte (by simpa using hmem)
    · exact ih (fun d hd => h d (List.mem_cons_of_mem _ hd)) hmem

theorem relayHead_eq (dst : String) :
    relayHead dst = ("wsb1 ".toList ++ dst.toList).utf8Encode.data.toList ++ [10] := by
  have hstring : relaySecret ++ " " ++ dst ++ "\n" =
      String.ofList (("wsb1 ".toList ++ dst.toList) ++ ['\n']) := by
    apply String.toList_inj.mp
    simp [relaySecret]
  have hnewline : ['\n'].utf8Encode.data.toList = [10] := by decide
  unfold relayHead
  rw [hstring, String.toUTF8_eq_toByteArray, String.toByteArray_ofList, List.utf8Encode_append,
    ByteArray.data_append, Array.toList_append, hnewline]

/-- What a relay gets tells it the address of the DC and the client's stream. -/
theorem relayHead_injective :
    Function.Injective fun sent : UInt32 × Bytes => relayHead (dottedQuad sent.1) ++ sent.2 := by
  have hsecret (c : Char) (hc : c ∈ "wsb1 ".toList) : c.toNat < 128 ∧ c ≠ '\n' := by
    have hlist : "wsb1 ".toList = ['w', 's', 'b', '1', ' '] := rfl
    rw [hlist] at hc
    fin_cases hc <;> decide
  have hascii (ip : UInt32) : ∀ c ∈ "wsb1 ".toList ++ (dottedQuad ip).toList,
      c.toNat < 128 ∧ c ≠ '\n' := by
    intro c hc
    rcases List.mem_append.mp hc with hc | hc
    · exact hsecret c hc
    · rcases mem_dottedQuad hc with hdigit | rfl
      · obtain ⟨-, hle⟩ := Char.isDigit_iff_toNat.mp hdigit
        exact ⟨hle.trans_lt (by decide), fun heq => by simp [heq] at hdigit⟩
      · decide
  rintro ⟨ip, stream⟩ ⟨ip', stream'⟩ h
  dsimp only at h
  rw [relayHead_eq, relayHead_eq, List.append_assoc, List.append_assoc] at h
  obtain ⟨hline, hstream⟩ := cut_at (newline_notMem (hascii ip)) (newline_notMem (hascii ip')) h
  have hbytes := ByteArray.ext (Array.toList_inj.mp hline)
  rw [← String.toByteArray_ofList, ← String.toByteArray_ofList] at hbytes
  have htext := String.ofList_inj.mp (String.toByteArray_inj.mp hbytes)
  have hquad := String.toList_inj.mp (List.append_cancel_left htext)
  exact Prod.ext (dottedQuad_injective hquad) hstream

/-! ## The path -/

/-- A session in relay mode, its client, and the stream of the relay. -/
structure RelayPath where
  session : TunnelSession
  log : EventLog := {}
  /-- `ws`, and the client that a closed session has let go of. -/
  client : Option RelayClient := none
  /-- What the relay has sent. -/
  stream : Bytes := []
  /-- How much of it the client has received. -/
  taken : ℕ := 0
  /-- History: the data from lwIP. -/
  fed : Bytes := []
  deriving DecidableEq, Repr

/-- What happens next to a session, to its client or to the relay. -/
inductive RelayPathEvent where
  /-- lwIP has data for a session that has not closed. -/
  | data (data : Bytes)
  /-- An event of the client that is no call of the session and no receive. -/
  | client (e : RelayClientEvent)
  /-- The relay sends. -/
  | answer (data : Bytes)
  /-- A receive completes, with `count` bytes if there are as many. -/
  | receive (count : ℕ) (ended : Bool)
  /-- The block that `handleWSClose` has queued. -/
  | wsClose
  /-- `handleClose(reason:)` -/
  | sessionClosed
  deriving DecidableEq, Repr

/-- A call of the session on its client, or the completion of a receive. -/
def Cascade.RelayClientEvent.isInput : RelayClientEvent → Bool
  | .relay (.send _) | .relay .close | .received _ _ => true
  | _ => false

namespace RelayPath

/-- A session for a new connection. -/
def init (connId : ℕ) (dcIP : UInt32) (workerDomain : String) : RelayPath :=
  { session := .new connId dcIP (some workerDomain) }

/-- No call of `send` is under way: `lwipQueue` is free. -/
def idle (s : RelayPath) : Bool := s.client.all (·.relay.call.isNone)

/-- A call on the client. -/
def onClient (s : RelayPath) (e : RelayEvent) : RelayPath :=
  { s with client := s.client.map fun r => (r.step (.relay e)).getD r }

/-- A call that a handler of the session asked for. Where `startPipe` takes the
branch of lines 107–109 there is a worker and no relay. -/
def perform (portOk : UInt16 → Bool) (s : RelayPath) : Effect → RelayPath
  | .startPipe workerDomain dcIP =>
    match relayAddress workerDomain with
    | some (_, port) =>
      { s with client := some (RelayClient.connectRelay portOk port (dottedQuad dcIP)) }
    | none => s
  | .send data => s.onClient (.send data)
  | .wsClose => s.onClient .close
  | .connect .. => s
  | .bridgeClose _ => s

/-- The state an event leads to, where it can happen. -/
def step (ks : Keystream) (portOk : UInt16 → Bool) (s : RelayPath) :
    RelayPathEvent → Option RelayPath
  | .data data =>
    if s.session.dead || !s.idle then none
    else
      let u := handleData ks ⟨s.session, s.log, []⟩ data
      some (u.effects.foldl (perform portOk)
        { s with session := u.session, log := u.log, fed := s.fed ++ data })
  | .client e =>
    if e.isInput then none
    else s.client.bind fun r => (r.step e).map ({ s with client := some · })
  | .answer data => some { s with stream := s.stream ++ data }
  | .receive count ended =>
    let data := (s.stream.drop s.taken).take (min count 65536)
    s.client.bind fun r => (r.step (.received data ended)).map fun r =>
      { s with client := some r, taken := s.taken + data.length }
  | .wsClose =>
    if s.idle then
      let (session, effects) := s.session.wsCloseBlock
      some (effects.foldl (perform portOk) { s with session })
    else none
  | .sessionClosed =>
    if s.idle then
      let (session, effects) := s.session.handleClose
      some (effects.foldl (perform portOk) { s with session })
    else none

/-- The client's calls act in their turn. -/
def InTurn (s : RelayPath) : RelayPathEvent → Prop
  | .client (.relay e) => ∀ r, s.client = some r → Cascade.InTurn r.relay e
  | _ => True

/-- What both ends have got. -/
structure Relayed (s : RelayPath) : Prop where
  unstarted : s.client = none → s.fed = []
  /-- As long as it is connected, the relay has got a beginning of the line and
  the client's stream, and all of both once the handler has finished and no call
  is under way. -/
  upstream : ∀ r, s.client = some r → r.relay.relayConn = true →
    r.relay.handed <+: relayHead (dottedQuad s.session.dcIP) ++ s.fed ∧
      (r.relay.handler = .finished → r.relay.call = none →
        r.relay.handed = relayHead (dottedQuad s.session.dcIP) ++ s.fed)
  /-- The session has got the beginning of the relay's stream, in pieces that
  come one after the other. -/
  downstream : ∀ r, s.client = some r → r.messages.flatten = s.stream.take s.taken ∧
    (∀ m ∈ r.messages, m ≠ [] ∧ m.length ≤ 65536) ∧ r.receives ≤ 1

end RelayPath

/-! ## The client -/

namespace Cascade

/-- The data of a call of `send`. -/
def RelayEvent.data : RelayEvent → Bytes
  | .send data => data
  | _ => []

/-- A client that has been sent `fed` and has passed on `heard`. -/
structure RelayClient.Relaying (r : RelayClient) (dst : String) (fed heard : Bytes) : Prop where
  dst : r.relay.dst = dst
  sent : r.relay.sent = fed
  whole : r.relay.relayConn = true → r.relay.Whole
  /-- The handler starts the first receive, and each receive the next one. -/
  receives : r.receives ≤ if r.relay.handler = .finished then 1 else 0
  heard : r.messages.flatten = heard
  sizes : ∀ m ∈ r.messages, m ≠ [] ∧ m.length ≤ 65536

section

variable {relay relay' : Relay} {r s : RelayClient} {dst : String} {fed heard : Bytes}

/-- What an event of the connection leaves alone. -/
theorem Relay.step_frame {e : RelayEvent} (hstep : relay.step e = some relay') :
    relay'.dst = relay.dst ∧ relay'.sent = relay.sent ++ e.data ∧
      (relay.handler = .finished → relay'.handler = .finished) := by
  have hnil : relay.sent = relay.sent ++ [] := (List.append_nil _).symm
  cases e with
  | ready | readPending | clearPending | sendHead =>
    simp only [Relay.step] at hstep
    split at hstep
    · rename_i hhandler
      cases hstep
      exact ⟨rfl, hnil, fun hfinished => by simp [hhandler] at hfinished⟩
    · cases hstep
  | send data =>
    simp only [Relay.step] at hstep
    split at hstep
    · cases hstep
      exact ⟨rfl, rfl, id⟩
    · cases hstep
  | act =>
    simp only [Relay.step] at hstep
    split at hstep
    · rename_i branch data _
      cases hstep
      cases branch <;> exact ⟨rfl, hnil, id⟩
    · cases hstep
  | slow =>
    obtain ⟨-, heq⟩ := Option.ite_none_right_eq_some.mp hstep
    cases heq
    exact ⟨rfl, hnil, id⟩
  | failed | close =>
    cases hstep
    exact ⟨rfl, hnil, id⟩

namespace RelayClient

/-- A change of the connection that starts no receive. -/
theorem Relaying.onRelay (h : r.Relaying dst fed heard) {e : RelayEvent} (hturn : InTurn r.relay e)
    (hstep : r.onRelay e = some s) : s.Relaying dst (fed ++ e.data) heard := by
  obtain ⟨relay, hrelay, rfl⟩ := onRelay_eq_some.mp hstep
  obtain ⟨hdst, hsent, hfinished⟩ := Relay.step_frame hrelay
  refine ⟨hdst.trans h.dst, ?_, Relay.Whole.step h.whole hturn hrelay, ?_, h.heard, h.sizes⟩
  · rw [hsent, h.sent]
  · have hle := h.receives
    split_ifs at hle with hhandler
    · simpa [hfinished hhandler] using hle
    · exact hle.trans (Nat.zero_le _)

/-- The connection is let go of. -/
theorem Relaying.cut (h : r.Relaying dst fed heard) {finishing closes : ℕ} {finished : Bool} :
    ({ r with
      finishing
      finished
      relay := { r.relay with relayConn := false }
      closes } : RelayClient).Relaying dst fed heard :=
  ⟨h.dst, h.sent, fun hconn => Bool.noConfusion hconn, h.receives, h.heard, h.sizes⟩

theorem Relaying.finishOnce (h : r.Relaying dst fed heard) :
    r.finishOnce.Relaying dst fed heard := by
  unfold RelayClient.finishOnce
  split_ifs
  · exact h
  · exact ⟨h.dst, h.sent, h.whole, h.receives, h.heard, h.sizes⟩

/-- The next receive, after the last one. -/
theorem Relaying.relayReceive (h : r.Relaying dst fed heard)
    (hfinished : r.relay.handler = .finished) (hnone : r.receives = 0) :
    r.relayReceive.Relaying dst fed heard := by
  unfold RelayClient.relayReceive
  split_ifs
  · refine ⟨h.dst, h.sent, h.whole, ?_, h.heard, h.sizes⟩
    show r.receives + 1 ≤ if r.relay.handler = .finished then 1 else 0
    rw [hnone, if_pos hfinished]
  · exact h

theorem Relaying.sendHead (h : r.Relaying dst fed heard)
    (hstep : r.step (.relay .sendHead) = some s) : s.Relaying dst fed heard := by
  obtain ⟨q, hq, rfl⟩ := Option.map_eq_some_iff.mp hstep
  have hnil : fed ++ RelayEvent.sendHead.data = fed := List.append_nil fed
  have hsent := h.onRelay (e := .sendHead) trivial hq
  rw [hnil] at hsent
  obtain ⟨relay, hrelay, rfl⟩ := onRelay_eq_some.mp hq
  simp only [Relay.step] at hrelay
  split at hrelay
  · rename_i head hhandler
    cases hrelay
    have hnone := h.receives
    rw [if_neg (by simp [hhandler])] at hnone
    exact hsent.relayReceive rfl (Nat.le_zero.mp hnone)
  · cases hrelay

/-- An event that is no call and no receive. -/
theorem Relaying.step (h : r.Relaying dst fed heard) {e : RelayClientEvent}
    (hinput : e.isInput = false) (hturn : ∀ e', e = .relay e' → InTurn r.relay e')
    (hstep : r.step e = some s) : s.Relaying dst fed heard := by
  have hrelay (e' : RelayEvent) (hdata : e'.data = []) (hturn : InTurn r.relay e')
      (hstep : r.onRelay e' = some s) : s.Relaying dst fed heard := by
    have hs := h.onRelay hturn hstep
    rwa [hdata, List.append_nil] at hs
  cases e with
  | relay e =>
    cases e with
    | ready =>
      obtain ⟨-, hready⟩ := Option.ite_none_right_eq_some.mp hstep
      exact hrelay .ready rfl trivial hready
    | readPending => exact hrelay .readPending rfl trivial hstep
    | clearPending => exact hrelay .clearPending rfl trivial hstep
    | act => exact hrelay .act rfl (hturn .act rfl) hstep
    | sendHead => exact h.sendHead hstep
    | slow =>
      obtain ⟨-, heq⟩ := Option.ite_none_right_eq_some.mp hstep
      cases heq
      have htimer : ({ r with timerPending := false } : RelayClient).Relaying dst fed heard :=
        ⟨h.dst, h.sent, h.whole, h.receives, h.heard, h.sizes⟩
      unfold RelayClient.slow
      dsimp only
      split_ifs
      · exact htimer.finishOnce
      · exact htimer
    | failed =>
      obtain ⟨-, heq⟩ := Option.ite_none_right_eq_some.mp hstep
      cases heq
      exact h.finishOnce
    | send | close => cases hinput
  | received => cases hinput
  | finish =>
    obtain ⟨-, heq⟩ := Option.ite_none_right_eq_some.mp hstep
    cases heq
    exact h.cut

/-- A call of the session, while no other is under way. -/
theorem Relaying.call (h : r.Relaying dst fed heard) {e : RelayEvent}
    (hcall : e = .close ∨ r.relay.call = none ∧ ∃ data, e = .send data) :
    ((r.step (.relay e)).getD r).Relaying dst (fed ++ e.data) heard := by
  rcases hcall with rfl | ⟨hnone, data, rfl⟩
  · exact h.onRelay (e := .close) trivial rfl
  · have hsend : r.relay.step (.send data) = some { r.relay with
        call := some (r.relay.branch, data), sent := r.relay.sent ++ data } := by
      simp only [Relay.step, hnone]
    have hstep : r.step (.relay (.send data)) = some { r with relay := { r.relay with
        call := some (r.relay.branch, data), sent := r.relay.sent ++ data } } :=
      onRelay_eq_some.mpr ⟨_, hsend, rfl⟩
    rw [hstep]
    exact h.onRelay (e := .send data) trivial hstep

/-- A receive completes. -/
theorem Relaying.received (h : r.Relaying dst fed heard) {data : Bytes} {ended : Bool}
    (hlen : data.length ≤ 65536) (hstep : r.step (.received data ended) = some s) :
    s.Relaying dst fed (heard ++ data) := by
  obtain ⟨hreceives, heq⟩ := Option.ite_none_right_eq_some.mp hstep
  cases heq
  have hle := h.receives
  have hfinished : r.relay.handler = .finished := by
    by_contra hbad
    rw [if_neg hbad] at hle
    omega
  rw [if_pos hfinished] at hle
  have hone : r.receives - 1 = 0 := by omega
  have hdone : ({ r with receives := r.receives - 1 } : RelayClient).Relaying dst fed heard := by
    refine ⟨h.dst, h.sent, h.whole, ?_, h.heard, h.sizes⟩
    show r.receives - 1 ≤ _
    rw [hone]
    exact Nat.zero_le _
  unfold RelayClient.received
  dsimp only
  split_ifs with hdata hended
  · refine Relaying.relayReceive ⟨hdone.dst, hdone.sent, hdone.whole, hdone.receives, ?_, ?_⟩
      hfinished hone
    · show (r.messages ++ [data]).flatten = heard ++ data
      rw [List.flatten_concat, h.heard]
    · intro m hm
      rcases List.mem_append.mp hm with hm | hm
      · exact h.sizes m hm
      · obtain rfl := List.mem_singleton.mp hm
        exact ⟨hdata, hlen⟩
  · rw [not_ne_iff.mp hdata, List.append_nil]
    exact hdone.finishOnce
  · rw [not_ne_iff.mp hdata, List.append_nil]
    exact hdone

end RelayClient

/-- A new client. -/
theorem connectRelay_relaying (portOk : UInt16 → Bool) (port : UInt16) (dst : String) :
    (RelayClient.connectRelay portOk port dst).Relaying dst [] [] := by
  unfold RelayClient.connectRelay
  split_ifs
  · exact ⟨rfl, rfl, fun _ => ⟨⟨rfl, rfl⟩, rfl⟩, Nat.zero_le _, rfl, by simp⟩
  · exact ⟨rfl, rfl, fun hconn => Bool.noConfusion hconn, Nat.zero_le _, rfl, by simp⟩

end

end Cascade

/-! ## The steps -/

namespace RelayPath

/-- What holds along a path. -/
structure Sound (s : RelayPath) : Prop where
  before : s.client = none → s.fed = [] ∧ s.taken = 0
  relaying : ∀ r, s.client = some r →
    r.Relaying (dottedQuad s.session.dcIP) s.fed (s.stream.take s.taken)
  taken : s.taken ≤ s.stream.length
  session : s.session.dead = false → ∃ address, Piped s.session (some address) s.client.isSome

section

variable {s s' : RelayPath} {r : RelayClient} {ks : Keystream} {portOk : UInt16 → Bool}

theorem Sound.relayed (h : s.Sound) : s.Relayed := by
  refine ⟨fun hnone => (h.before hnone).1, fun r hr hconn => ?_, fun r hr => ?_⟩
  · have hr := h.relaying r hr
    obtain ⟨hbegins, hall⟩ := (hr.whole hconn).intact hconn
    rw [hr.dst, hr.sent] at hbegins
    refine ⟨hbegins, fun hfinished hnone => ?_⟩
    have hsent := (hr.whole hconn).sent
    rw [hnone, Option.map_none, Option.getD_none, List.append_nil, hr.sent] at hsent
    rw [hall hfinished, hr.dst, hsent]
  · have hr := h.relaying r hr
    refine ⟨hr.heard, hr.sizes, hr.receives.trans ?_⟩
    split_ifs <;> omega

/-- The session is fed. -/
theorem Sound.data (h : s.Sound) (hdead : s.session.dead = false) (hidle : s.idle = true)
    (data : Bytes) :
    ((handleData ks ⟨s.session, s.log, []⟩ data).effects.foldl (perform portOk)
      { s with
        session := (handleData ks ⟨s.session, s.log, []⟩ data).session
        log := (handleData ks ⟨s.session, s.log, []⟩ data).log
        fed := s.fed ++ data }).Sound := by
  obtain ⟨⟨host, port⟩, hpiped⟩ := h.session hdead
  obtain ⟨hpiped', hip, workerDomain, haddress, heffects⟩ := hpiped.handleData ks s.log data
  generalize handleData ks ⟨s.session, s.log, []⟩ data = u at *
  -- The session has a client by now, and calls it.
  have hcalled (r : RelayClient) (hcall : r.relay.call = none)
      (hr : r.Relaying (dottedQuad s.session.dcIP) s.fed (s.stream.take s.taken)) :
      ({ s with
        session := u.session
        log := u.log
        fed := s.fed ++ data
        client := some ((r.step (.relay (.send data))).getD r) } : RelayPath).Sound := by
    refine ⟨fun hnone => by simp at hnone, fun q hq => ?_, h.taken, fun _ => ⟨_, hpiped'⟩⟩
    obtain rfl := Option.some.inj hq
    show Cascade.RelayClient.Relaying _ (dottedQuad u.session.dcIP) _ _
    rw [hip]
    exact hr.call (Or.inr ⟨hcall, data, rfl⟩)
  rw [heffects]
  cases hclient : s.client with
  | none =>
    obtain ⟨hfed, htaken⟩ := h.before hclient
    have hnew := Cascade.connectRelay_relaying portOk port (dottedQuad s.session.dcIP)
    have hnone : (RelayClient.connectRelay portOk port (dottedQuad s.session.dcIP)).relay.call =
        none := by
      unfold RelayClient.connectRelay
      split_ifs <;> rfl
    have hsound := hcalled _ hnone (by simpa [hfed, htaken] using hnew)
    simpa [perform, haddress, onClient] using hsound
  | some r =>
    have hnone : r.relay.call = none := by simpa [idle, hclient] using hidle
    have hsound := hcalled r hnone (h.relaying r hclient)
    simpa [perform, onClient, hclient] using hsound

/-- The client changes, and has been sent and has heard no more. -/
theorem Sound.quiet (h : s.Sound) (hr : s.client = some r) {q : RelayClient}
    (hq : q.Relaying (dottedQuad s.session.dcIP) s.fed (s.stream.take s.taken)) :
    ({ s with client := some q } : RelayPath).Sound := by
  refine ⟨fun hnone => by simp at hnone, fun p hp => ?_, h.taken, fun hdead => ?_⟩
  · obtain rfl := Option.some.inj hp
    exact hq
  · have hsession := h.session hdead
    rw [hr] at hsession
    exact hsession

/-- The session has closed. -/
theorem Sound.ended (h : s.Sound) {session : TunnelSession} (hdead : session.dead = true)
    (hip : session.dcIP = s.session.dcIP) : ({ s with session } : RelayPath).Sound := by
  refine ⟨h.before, fun r hr => ?_, h.taken, fun halive => ?_⟩
  · show r.Relaying (dottedQuad session.dcIP) _ _
    rw [hip]
    exact h.relaying r hr
  · exact absurd (hdead.symm.trans halive) (by simp)

theorem Sound.closed (h : s.Sound) : (s.onClient .close).Sound := by
  unfold onClient
  cases hr : s.client with
  | none =>
    have hsame : ({ s with client := none } : RelayPath) = s := by rw [← hr]
    exact hsame ▸ h
  | some r =>
    have hclose := (h.relaying r hr).call (e := .close) (Or.inl rfl)
    exact h.quiet hr (by simpa [Cascade.RelayEvent.data] using hclose)

/-- One event. -/
theorem Sound.step (h : s.Sound) {e : RelayPathEvent} (hturn : s.InTurn e)
    (hstep : s.step ks portOk e = some s') : s'.Sound := by
  cases e with
  | data data =>
    obtain ⟨hguard, ⟨⟩⟩ := Option.ite_none_left_eq_some.mp hstep
    simp only [Bool.or_eq_true, Bool.not_eq_true', not_or, Bool.not_eq_true,
      Bool.not_eq_false] at hguard
    exact h.data hguard.1 hguard.2 data
  | client e =>
    obtain ⟨hinput, hnext⟩ := Option.ite_none_left_eq_some.mp hstep
    obtain ⟨r, hr, hmap⟩ := Option.bind_eq_some_iff.mp hnext
    obtain ⟨q, hq, rfl⟩ := Option.map_eq_some_iff.mp hmap
    refine h.quiet hr ((h.relaying r hr).step (eq_false_of_ne_true hinput) ?_ hq)
    rintro e' rfl
    exact hturn r hr
  | answer data =>
    cases hstep
    refine ⟨h.before, fun r hr => ?_, ?_, h.session⟩
    · show r.Relaying _ _ ((s.stream ++ data).take s.taken)
      rw [List.take_append_of_le_length h.taken]
      exact h.relaying r hr
    · show s.taken ≤ (s.stream ++ data).length
      rw [List.length_append]
      exact h.taken.trans (Nat.le_add_right _ _)
  | receive count ended =>
    obtain ⟨r, hr, hmap⟩ := Option.bind_eq_some_iff.mp hstep
    obtain ⟨q, hq, rfl⟩ := Option.map_eq_some_iff.mp hmap
    have hlen : ((s.stream.drop s.taken).take (min count 65536)).length ≤ 65536 := by
      rw [List.length_take]
      omega
    have hheard : s.stream.take s.taken ++ (s.stream.drop s.taken).take (min count 65536) =
        s.stream.take (s.taken + ((s.stream.drop s.taken).take (min count 65536)).length) := by
      rw [List.take_add, List.length_take, List.take_eq_take_min (i := min count 65536)]
    have hreceived := (h.relaying r hr).received hlen hq
    rw [hheard] at hreceived
    refine ⟨fun hnone => by simp at hnone, fun p hp => ?_, ?_, fun hdead => ?_⟩
    · obtain rfl := Option.some.inj hp
      exact hreceived
    · have htaken := h.taken
      simp only [List.length_take, List.length_drop]
      omega
    · have hsession := h.session hdead
      rw [hr] at hsession
      exact hsession
  | wsClose =>
    unfold RelayPath.step TunnelSession.wsCloseBlock at hstep
    dsimp only at hstep
    split_ifs at hstep
    · cases hstep
      exact h
    · cases hstep
      exact h.ended rfl rfl
  | sessionClosed =>
    have hended : ({ s with session := s.session.handleClose.1 } : RelayPath).Sound :=
      h.ended rfl rfl
    unfold RelayPath.step TunnelSession.handleClose at hstep
    dsimp only at hstep
    split_ifs at hstep
    · cases hstep
      exact hended.closed
    · cases hstep
      exact hended

theorem sound_init {connId : ℕ} {dcIP : UInt32} {workerDomain : String}
    {address : String × UInt16} (haddress : relayAddress workerDomain = some address) :
    (init connId dcIP workerDomain).Sound :=
  ⟨fun _ => ⟨rfl, rfl⟩, fun r hr => (by cases hr), Nat.zero_le _,
    fun _ => ⟨address, ⟨workerDomain, rfl, haddress⟩, rfl, rfl, rfl⟩⟩

end

end RelayPath

/-- With a relay in its settings, a session whose calls act in their turn brings
the client's stream to the relay, and the relay's back. -/
theorem relay_path_run (ks : Keystream) (portOk : UInt16 → Bool) (connId : ℕ) (dcIP : UInt32)
    {workerDomain host : String} {port : UInt16}
    (haddress : relayAddress workerDomain = some (host, port)) (events : List RelayPathEvent)
    (hturn : EveryStep (RelayPath.step ks portOk) RelayPath.InTurn
      (RelayPath.init connId dcIP workerDomain) events) :
    EveryState (RelayPath.step ks portOk) RelayPath.Relayed
      (RelayPath.init connId dcIP workerDomain) events :=
  everyState_of_everyStep (fun _ _ _ h hturn hstep => RelayPath.Sound.step h hturn hstep)
    (fun _ h => h.relayed) events _ (RelayPath.sound_init haddress) hturn

/-- A call before the handler has begun, and an answer. -/
theorem relay_path_sample :
    EveryState (RelayPath.step (fun _ _ _ => 0) fun _ => true) RelayPath.Relayed
      (RelayPath.init 1 2509940583 ("203.0.113.7" ++ ":" ++ toString (443 : UInt16)))
      [.data [1], .client (.relay .act), .client (.relay .ready), .client (.relay .readPending),
        .client (.relay .clearPending), .client (.relay .sendHead), .answer [5, 6],
        .receive 1 false] := by
  have haddress : relayAddress ("203.0.113.7" ++ ":" ++ toString (443 : UInt16)) =
      some ("203.0.113.7", 443) := relayAddress_hostPort 443 (by decide) (by decide)
  refine relay_path_run (fun _ _ _ => 0) (fun _ => true) 1 2509940583 haddress _ ?_
  generalize "203.0.113.7" ++ ":" ++ toString (443 : UInt16) = workerDomain at haddress
  intro s hs
  refine ⟨trivial, fun s' _ => ⟨fun r hr _ branch data hcall => ?_, ?_⟩⟩
  · simp [RelayPath.step, RelayPath.init, RelayPath.idle, TunnelSession.new, handleData,
      TunnelSession.startPipe, TunnelSession.forwardToWS, RelayPath.perform, haddress,
      RelayPath.onClient, RelayClient.connectRelay, Relay.connectRelay, RelayClient.step,
      RelayClient.onRelay, Relay.step, Relay.branch] at hs
    subst hs
    simp at hr
    subst hr
    simp at hcall
    exact Or.inr (Or.inl ⟨hcall.1.symm, trivial⟩)
  · exact fun _ _ => ⟨fun _ _ => trivial, fun _ _ => ⟨fun _ _ => trivial, fun _ _ =>
      ⟨fun _ _ => trivial, fun _ _ => ⟨fun _ _ => trivial, fun _ _ => ⟨trivial, fun _ _ =>
        ⟨trivial, trivial⟩⟩⟩⟩⟩⟩

end WSBridge
