import WSBridge.Session.TunnelSession
import WSBridge.Bridge.Steps

/-!
# The tunnel (`Tunnel/PacketTunnelProvider.swift`, `Tunnel/LWIPBridge.swift`)

All sessions of a tunnel on one bridge. `lwipQueue` is serial: the packets, the
timers and the blocks of the web sockets run one after the other, while the
web sockets may queue blocks at any time. A packet or a timer of the source is
several events here, between `input` or `poll` and `done`, with what lwIP does
in between; no block runs there.

Sessions are numbered in the order of their creation. A block holds its session
weakly: it finds the session while `sessions` has it, or while some other
thread still holds it.

Left out: reading and writing of the packet flow, the counters of packets, the
journal, and what a session asks of its `WSClient`.
-/

namespace WSBridge

open WSBridge.Foundation

/-- A session object. `owner` is history: the pcb of the accept it was made
for. -/
structure SessionObject where
  session : TunnelSession
  owner : Option ℕ
  deriving DecidableEq, Repr

/-- What a session calls on its `LWIPBridge`. -/
inductive LwipCall where
  | write (data : Bytes)
  | close
  deriving DecidableEq, Repr

/-- A call of a session on the bridge, and the pcb in the slot at that moment. -/
structure SessionCall where
  session : ℕ
  call : LwipCall
  holder : Option ℕ
  deriving DecidableEq, Repr

/-- A block that waits in `lwipQueue`. -/
inductive Block where
  | wsData (session : ℕ) (data : Bytes)
  | wsClose (session : ℕ)
  | stop
  deriving DecidableEq, Repr

/-- `class PacketTunnelProvider` and `lwipQueue`. `objects` has every session
ever created; `calls` is history. -/
structure Provider where
  workerDomain : Option String
  sessions : ℕ → Option ℕ := fun _ => none
  objects : List SessionObject := []
  log : EventLog := {}
  queue : List Block := []
  calls : List SessionCall := []

/-- The pcb in an active slot. -/
def Bridge.holder (b : Bridge) (slot : ℕ) : Option ℕ := (b.connOfId slot).bind (·.pcb)

namespace Provider

/-- The Swift side over the bridge. -/
abbrev Tunnel := World Provider

section

variable (L : Lwip) (ks : Keystream)

/-! ## Calls of a session on the bridge -/

/-- A call of the session `r` on the bridge, with the pcb its slot has then. -/
def record (w : Tunnel) (r slot : ℕ) (call : LwipCall) : Tunnel :=
  { w with swift.calls := w.swift.calls ++ [⟨r, call, w.bridge.holder slot⟩] }

/-- `LWIPBridge.write(connId:data:)` (lines 84–89), by the session `r`. -/
def bridgeWrite (r slot : ℕ) (data : Bytes) (w : Tunnel) : Bool × Tunnel :=
  let w := record w r slot (.write data)
  let (ok, bridge) := w.bridge.lwipBridgeWrite L slot data
  (ok, { w with bridge })

/-- `LWIPBridge.close(connId:)` (lines 91–93), by the session `r`. -/
def bridgeClose (r slot : ℕ) (w : Tunnel) : Tunnel :=
  (record w r slot .close).onBridge (·.lwipBridgeClose L slot)

/-- The calls a handler of the session `r` asked for. -/
def perform (r : ℕ) : List Effect → Tunnel → Tunnel
  | [], w => w
  | .bridgeClose slot :: effects, w => perform r effects (bridgeClose L r slot w)
  | _ :: effects, w => perform r effects w

/-- The session `r` has become `session`. -/
def update (w : Tunnel) (r : ℕ) (session : TunnelSession) (log : EventLog) : Tunnel :=
  { w with
    swift.objects := w.swift.objects.modify r fun o => { o with session }
    swift.log := log }

/-- `sessions[connId]`. -/
def session? (p : Provider) (connId : ℕ) : Option (ℕ × TunnelSession) :=
  (p.sessions connId).bind fun r => p.objects[r]?.map fun o => (r, o.session)

/-! ## The callbacks (lines 137–151) -/

/-- `handleAccept(connId:dcIP:)`. -/
def handleAccept (slot : ℕ) (w : Tunnel) : Tunnel :=
  let dcIP := w.bridge.lwipBridgeGetDstIP slot
  let session := TunnelSession.new slot dcIP w.swift.workerDomain
  { w with
    swift.sessions := Function.update w.swift.sessions slot (some w.swift.objects.length)
    swift.objects := w.swift.objects ++ [⟨session, w.bridge.holder slot⟩] }

/-- `handleRecv(connId:data:)`. -/
def handleRecv (slot : ℕ) (data : Bytes) (w : Tunnel) : Tunnel :=
  match w.swift.session? slot with
  | some (r, session) =>
    let u := TunnelSession.handleData ks ⟨session, w.swift.log, []⟩ data
    perform L r u.effects (update w r u.session u.log)
  | none => w

/-- `handleClose(connId:reason:)`. -/
def handleClose (slot : ℕ) (w : Tunnel) : Tunnel :=
  let w := match w.swift.session? slot with
    | some (r, session) => update w r session.handleClose.1 w.swift.log
    | none => w
  { w with swift.sessions := Function.update w.swift.sessions slot none }

/-- A handler of the session `r` that writes. -/
def writing (w : Tunnel) (r : ℕ) (session : TunnelSession)
    (f : (Bytes → Tunnel → Bool × Tunnel) → TunnelSession.Down Tunnel → TunnelSession.Down Tunnel) :
    Tunnel :=
  let u := f (bridgeWrite L r session.connId) ⟨session, w.swift.log, w⟩
  update u.world r u.session u.log

/-- `sessions[connId]?.handleSent()` (lines 99–101). -/
def handleSent (slot : ℕ) (w : Tunnel) : Tunnel :=
  match w.swift.session? slot with
  | some (r, session) => writing L w r session fun write => TunnelSession.handleSent write
  | none => w

/-- The closures of `setupLWIP()` (lines 85–103). -/
def handlers : Handlers Provider where
  accept slot w := handleAccept slot w
  recv slot data w := handleRecv L ks slot data w
  close slot _ w := handleClose slot w
  sent slot w := handleSent L slot w

/-! ## Blocks -/

/-- The session of a block, if the block still finds it. -/
def weak (p : Provider) (held : Bool) (r : ℕ) : Option TunnelSession :=
  p.objects[r]?.bind fun o =>
    if p.sessions o.session.connId = some r ∨ held = true then some o.session else none

/-- The block of `stopTunnel` (lines 219–222). `handleAccept` files a session
under its own `connId`. -/
def stopTunnel (p : Provider) : Provider :=
  { p with
    sessions := fun _ => none
    objects := p.objects.mapIdx fun r o =>
      if p.sessions o.session.connId = some r then { o with session := o.session.handleClose.1 }
      else o }

/-- The next block of `lwipQueue` runs. A session that is gone is skipped
(`[weak self]`). -/
def runBlock (held : Bool) (w : Tunnel) : Block → Tunnel
  | .wsData r data =>
    match w.swift.weak held r with
    | some session => writing L w r session fun write u => TunnelSession.wsDataBlock write u data
    | none => w
  | .wsClose r =>
    match w.swift.weak held r with
    | some session =>
      let (session, effects) := session.wsCloseBlock
      perform L r effects (update w r session w.swift.log)
    | none => w
  | .stop => { w with swift := w.swift.stopTunnel }

end

/-- The session has, or had, a `WSClient`. -/
def opened (p : Provider) (r : ℕ) : Bool :=
  p.objects[r]?.any fun o => o.session.ws || o.session.dead

/-- A block is queued on `lwipQueue`. -/
def post (p : Provider) (block : Block) : Provider := { p with queue := p.queue ++ [block] }

end Provider

/-! ## Runs of the tunnel -/

/-- A callback of the bridge with a pcb of lwIP's: what it returned, and the
calls made on pcbs until then. -/
structure Invocation where
  pcb : ℕ
  ret : Err
  ops : List (ℕ × PcbOp)
  deriving DecidableEq, Repr

/-- The tunnel. `invocations` is history. -/
structure System where
  tunnel : Provider.Tunnel
  invocations : List Invocation := []

/-- What happens next: a block is queued or runs, the provider calls the bridge, or
lwIP does something during such a call. -/
inductive SystemEvent where
  /-- `handleWSData(_:)` and `handleWSClose()` of a session, on any thread. -/
  | wsData (session : ℕ) (data : Bytes)
  | wsClose (session : ℕ)
  | stop
  /-- The next block runs; `held` says whether another thread holds its
  session. -/
  | block (held : Bool)
  | input (data : Bytes) (malloc pbuf : Bool)
  | poll
  | done
  | lwip (e : LwipEvent)
  deriving DecidableEq, Repr

namespace System

variable (L : Lwip) (ks : Keystream)

/-- A tunnel that has just been started. -/
def init (workerDomain : Option String) : System := { tunnel := ⟨{ workerDomain }, Bridge.init⟩ }

/-- The bridge of the tunnel. -/
def bridge (s : System) : Bridge := s.tunnel.bridge

/-- A block is queued on `lwipQueue`. -/
def post (s : System) (block : Block) : System :=
  { s with tunnel.swift := s.tunnel.swift.post block }

/-- A call of the provider on the bridge. -/
def onBridge (s : System) (f : Bridge → Bridge) : System :=
  { s with tunnel := s.tunnel.onBridge f }

/-- The callback that an event of lwIP's has called. -/
def invoked (before after : Bridge) : Option Returned → List Invocation
  | some ⟨some pcb, ret⟩ => [⟨pcb, ret, after.ops.drop before.ops.length⟩]
  | _ => []

/-- The state an event leads to, where it can happen. Everything but the queueing
of a block runs on `lwipQueue`, so no block runs during a call of the bridge. -/
def step (s : System) : SystemEvent → Option System
  | .wsData r data => if s.tunnel.swift.opened r then some (s.post (.wsData r data)) else none
  | .wsClose r => if s.tunnel.swift.opened r then some (s.post (.wsClose r)) else none
  | .stop => some (s.post .stop)
  | .block held =>
    match s.tunnel.swift.queue with
    | block :: queue =>
      if s.bridge.phase = .rest then
        some { s with
          tunnel := Provider.runBlock L held { s.tunnel with swift.queue := queue } block }
      else none
    | [] => none
  | .input data malloc pbuf =>
    if s.bridge.phase = .rest then some (s.onBridge (·.lwipBridgeInput data malloc pbuf)) else none
  | .poll => if s.bridge.phase = .rest then some (s.onBridge (·.lwipBridgePoll)) else none
  | .done => if s.bridge.phase = .rest then none else some (s.onBridge (·.returns))
  | .lwip e =>
    (lwipStep L (Provider.handlers L ks) s.tunnel e).map fun (tunnel, returned) =>
      ⟨tunnel, s.invocations ++ invoked s.bridge tunnel.bridge returned⟩

end System

/-- A connection is opened, as events of the tunnel. -/
def connection (pcb : ℕ) (client : ClientKey) (server : UInt32 × UInt16) : List SystemEvent :=
  [.input (tcpPacket 0x02 client server) true true, .lwip .halfOpen, .done,
    .input (tcpPacket 0x10 client server) true true, .lwip (.accept pcb), .done]

end WSBridge
