import WSBridge.Upstream.MsgSplitter

/-!
# One connection (`Tunnel/TunnelSession.swift`)

The handlers of `TunnelSession`. What a handler asks of its `WSClient` and of
the bridge without reading an answer is returned as a list of `Effect`s, in
order. `LWIPBridge.write` answers, so `writeOrQueue` is written over an
arbitrary state `σ` of the world and the function `write` that performs the
call on it.

The journal (`postEvent`, `NSLog`) is left out with the fields that only feed
it (`dataSent`, `headLogged`, `upHeadLogged`, `recvCount`, `bytesDown`,
`createdAt`, `wfailLogged`); its counters (`Tunnel/EventLog.swift:21-31`) are
`EventLog`.
-/

namespace WSBridge

/-- The counters of `enum EventLog` that a session changes. -/
structure EventLog where
  wsDown : ℕ := 0
  writeFails : ℕ := 0
  upBytes : ℕ := 0
  rxBytes : ℕ := 0
  pendCur : ℕ := 0
  sentCb : ℕ := 0
  deriving DecidableEq, Repr

/-- `class TunnelSession` (lines 8–36). `ws` says whether the session holds a
`WSClient`. -/
structure TunnelSession where
  connId : ℕ
  dcIP : UInt32
  workerDomain : Option String
  ws : Bool := false
  splitter : Option MsgSplitter := none
  initBuffer : Bytes := []
  initParsed : Bool := false
  wsConnected : Bool := false
  pending : Option Bytes := none
  dead : Bool := false
  deriving DecidableEq, Repr

/-- Calls a session makes without reading an answer. `startPipe` stands for
`connectPipe` or `connectRelay`, chosen by the form of `workerDomain`. -/
inductive Effect where
  | connect (dc : ℕ) (isMedia isTestDC : Bool) (initFrame : Bytes)
  | startPipe (workerDomain : String) (dcIP : UInt32)
  | send (frame : Bytes)
  | wsClose
  | bridgeClose (connId : ℕ)
  deriving DecidableEq, Repr

namespace TunnelSession

/-- `init(connId:dcIP:workerDomain:bridge:queue:)` (lines 30–36). -/
def new (connId : ℕ) (dcIP : UInt32) (workerDomain : Option String) : TunnelSession :=
  { connId, dcIP, workerDomain }

/-! ## Upstream -/

/-- What an upstream handler threads through: the session, the counters and
the calls made so far. -/
structure Up where
  session : TunnelSession
  log : EventLog
  effects : List Effect
  deriving DecidableEq, Repr

/-- `WSClient.sendBatch(_:)` is one `send` per part (`WSClient.swift:335-337`);
`forwardToWS` calls `send` itself for a single part. -/
def sendBatch (parts : List Bytes) : List Effect := parts.map .send

/-- `forwardToWS(_:)` (lines 123–142). -/
def forwardToWS (ks : Keystream) (u : Up) (data : Bytes) : Up :=
  if u.session.wsConnected ∧ u.session.ws then
    let log := { u.log with upBytes := u.log.upBytes + data.length }
    match u.session.splitter with
    | some splitter =>
      let (parts, splitter) := splitter.split ks data
      { session := { u.session with splitter := some splitter }
        log
        effects := u.effects ++ sendBatch parts }
    | none => { u with log, effects := u.effects ++ [.send data] }
  else u

/-- `startWS(parsed:)` (lines 73–93). -/
def startWS (ks : Keystream) (u : Up) (parsed : InitParser.ParsedInit) : Up :=
  { u with
    session := { u.session with
      splitter := MsgSplitter.init? ks parsed.key parsed.iv parsed.protoTag
      ws := true
      wsConnected := true }
    effects := u.effects ++ [.connect parsed.dcId parsed.isMedia parsed.isTestDC
      (u.session.initBuffer.take InitParser.handshakeLen)] }

/-- `startPipe()` (lines 95–111). -/
def startPipe (u : Up) (workerDomain : String) : Up :=
  { u with
    session := { u.session with ws := true, wsConnected := true }
    effects := u.effects ++ [.startPipe workerDomain u.session.dcIP] }

/-- `handleData(_:)` (lines 38–71). -/
def handleData (ks : Keystream) (u : Up) (data : Bytes) : Up :=
  let u := { u with log.rxBytes := u.log.rxBytes + data.length }
  match u.session.workerDomain with
  | some workerDomain =>
    let u := if u.session.wsConnected then u else startPipe u workerDomain
    forwardToWS ks u data
  | none =>
    if u.session.initParsed then forwardToWS ks u data
    else
      let initBuffer := u.session.initBuffer ++ data
      let u := { u with session.initBuffer := initBuffer }
      if InitParser.handshakeLen ≤ initBuffer.length then
        match InitParser.parse ks (initBuffer.take InitParser.handshakeLen) with
        | some parsed =>
          let u := startWS ks { u with session.initParsed := true } parsed
          let rest := initBuffer.drop InitParser.handshakeLen
          if rest = [] then u else forwardToWS ks u rest
        | none => { u with effects := u.effects ++ [.bridgeClose u.session.connId] }
      else u

/-- The fields no upstream handler touches. -/
structure Kept where
  connId : ℕ
  dcIP : UInt32
  workerDomain : Option String
  pending : Option Bytes
  dead : Bool

/-- The values of these fields. -/
def kept (s : TunnelSession) : Kept := ⟨s.connId, s.dcIP, s.workerDomain, s.pending, s.dead⟩

theorem forwardToWS_kept (ks : Keystream) (u : Up) (data : Bytes) :
    (forwardToWS ks u data).session.kept = u.session.kept := by
  unfold forwardToWS
  split_ifs
  · cases u.session.splitter <;> rfl
  · rfl

theorem startWS_kept (ks : Keystream) (u : Up) (parsed : InitParser.ParsedInit) :
    (startWS ks u parsed).session.kept = u.session.kept := rfl

theorem startPipe_kept (u : Up) (workerDomain : String) :
    (startPipe u workerDomain).session.kept = u.session.kept := rfl

theorem handleData_kept (ks : Keystream) (u : Up) (data : Bytes) :
    (handleData ks u data).session.kept = u.session.kept := by
  unfold handleData
  dsimp only
  split
  · rw [forwardToWS_kept]
    split_ifs
    · rfl
    · exact startPipe_kept _ _
  · by_cases hparsed : u.session.initParsed = true
    · rw [if_pos hparsed]
      exact forwardToWS_kept _ _ _
    rw [if_neg hparsed]
    by_cases hlen : InitParser.handshakeLen ≤ (u.session.initBuffer ++ data).length
    · rw [if_pos hlen]
      split
      · rename_i parsed hparse
        split_ifs
        · exact startWS_kept ks _ parsed
        · exact (forwardToWS_kept _ _ _).trans (startWS_kept ks _ parsed)
      · rfl
    · rw [if_neg hlen]
      rfl

/-! ## Downstream -/

section Downstream

variable {σ : Type*} (write : Bytes → σ → Bool × σ)

/-- `d.subdata(in: off..<stop)`. -/
def subdata (d : Bytes) (off stop : ℕ) : Bytes := (d.drop off).take (stop - off)

/-- The `while off < d.count` loop of `writeOrQueue` (lines 183–201): the rest
the first refused write leaves, if any. -/
def writeLoop (d : Bytes) (off : ℕ) (w : σ) : Option Bytes × σ :=
  if off < d.length then
    let stop := min (off + 65535) d.length
    match write (subdata d off stop) w with
    | (true, w) => writeLoop d stop w
    | (false, w) => (some (subdata d off d.length), w)
  else (none, w)
termination_by d.length - off

/-- A session, the counters and the world `write` acts on. -/
structure Down (σ : Type*) where
  session : TunnelSession
  log : EventLog
  world : σ

/-- `writeOrQueue(_:)` (lines 176–203), without the `wfail` journal line. -/
def writeOrQueue (u : Down σ) (data : Bytes) : Bool × Down σ :=
  match u.session.pending with
  | some p =>
    (false, { u with session.pending := some (p ++ data)
                     log.pendCur := u.log.pendCur + data.length })
  | none =>
    match writeLoop write data 0 u.world with
    | (some rest, world) =>
      (false, { session := { u.session with pending := some rest }
                log := { u.log with writeFails := u.log.writeFails + 1
                                    pendCur := u.log.pendCur + rest.length }
                world })
    | (none, world) => (true, { u with world })

/-- The block `handleWSData(_:)` queues (lines 160–166). -/
def wsDataBlock (u : Down σ) (data : Bytes) : Down σ :=
  if u.session.dead then u
  else (writeOrQueue write { u with log.wsDown := u.log.wsDown + data.length } data).2

/-- `handleSent()` (lines 206–212). -/
def handleSent (u : Down σ) : Down σ :=
  let u := { u with log.sentCb := u.log.sentCb + 1 }
  match u.session.pending with
  | none => u
  | some p => (writeOrQueue write { u with session.pending := none, log.pendCur := 0 } p).2

end Downstream

/-! ## Teardown -/

/-- The block `handleWSClose()` queues (lines 216–222). -/
def wsCloseBlock (s : TunnelSession) : TunnelSession × List Effect :=
  if s.dead then (s, []) else ({ s with dead := true }, [.bridgeClose s.connId])

/-- `handleClose(reason:)` (lines 227–234). -/
def handleClose (s : TunnelSession) : TunnelSession × List Effect :=
  ({ s with dead := true, ws := false, wsConnected := false }, if s.ws then [.wsClose] else [])

end TunnelSession

end WSBridge
