import WSBridge.Foundation.Runs
import WSBridge.Bridge.LwipBridge

/-!
# Runs of the bridge

What lwIP does while it handles a packet or its timers is a row of
`LwipEvent`s. The bridge alone is a labelled system whose other events are
calls of its functions: the Swift side may call `lwip_bridge_write` and
`lwip_bridge_close` at any time, from within a callback too.

Assumed of lwIP: it holds at most `MEMP_NUM_TCP_PCB` connection pcbs; it opens
one for a SYN to a listening port from a client it has no pcb for on that port;
the accept callback is called while it handles the packet that completes the
handshake; callbacks are called only for pcbs it holds; a pcb is freed by
`tcp_abort`, or by lwIP itself with the err callback where one is set; the sent
callback follows an ACK of bytes that were queued.
-/

namespace WSBridge

open WSBridge.Foundation

/-- `listen_ports` (line 324). -/
def listenPorts : List UInt16 := [443, 80, 5222]

/-- What lwIP does of its own accord. -/
inductive LwipEvent where
  /-- A SYN opens a pcb. -/
  | halfOpen
  /-- A handshake is completed. -/
  | accept (pcb : ℕ)
  /-- `tcp_listen_input` finds no memory for a pcb. -/
  | acceptFailed
  | recv (pcb : ℕ) (data : Option Bytes) (err : ℤ) (malloc : Bool)
  /-- The pcb is freed: by a RST, a timer, or for a new connection. -/
  | free (pcb : ℕ) (err : ℤ)
  | sent (pcb len : ℕ)
  /-- A packet of the pcb is handed to `netif->output`. -/
  | emit (pcb : ℕ) (packet : Bytes)
  deriving DecidableEq, Repr

/-- A callback that lwIP called with a pcb of its own, and what it returned. -/
structure Returned where
  pcb : Option ℕ
  err : Err
  deriving DecidableEq, Repr

/-- lwIP has a pcb for the client and the port. -/
def Bridge.hasPcb (b : Bridge) (key : ClientKey) (localPort : UInt16) : Bool :=
  b.pcbs.any fun p => p.key = key ∧ p.localPort = localPort

/-- The pcb of a SYN. -/
def Bridge.newPcb (b : Bridge) (given : NetifInput) : Pcb :=
  { id := b.nextPcb
    remoteIP := (tcpSource given.packet).1
    remotePort := (tcpSource given.packet).2
    localPort := tcpDestPort given.packet
    origDst := given.origDst }

/-- A SYN opens a pcb, which claims the key of its client. -/
def Bridge.halfOpen (b : Bridge) (given : NetifInput) (unclaimed : Option ClientKey) : Bridge :=
  { b with
    pcbs := b.pcbs ++ [b.newPcb given]
    nextPcb := b.nextPcb + 1
    phase := .input given (unclaimed.filter (· ≠ (b.newPcb given).key)) }

section

variable {σ : Type*} (L : Lwip) (h : Handlers σ)

/-- The world after an event of lwIP's, with what a callback returned. -/
def lwipStep (w : World σ) : LwipEvent → Option (World σ × Option Returned)
  | .halfOpen =>
    match w.bridge.phase with
    | .input given unclaimed =>
      let p := w.bridge.newPcb given
      if w.bridge.pcbs.length < memNumTcpPcb ∧ p.localPort ∈ listenPorts ∧
          ¬ w.bridge.hasPcb p.key p.localPort then
        some (w.onBridge (·.halfOpen given unclaimed), none)
      else none
    | _ => none
  | .accept id =>
    match w.bridge.phase, w.bridge.pcb? id with
    | .input given _, some p =>
      if p.accepted = false ∧ tcpSource given.packet = p.key ∧
          tcpDestPort given.packet = p.localPort then
        let p := { p with accepted := true }
        let (w, err) := tcpAcceptCb L h (w.onBridge (·.onPcb id fun _ => p)) (some p)
        some (w, some ⟨some id, err⟩)
      else none
    | _, _ => none
  | .acceptFailed =>
    match w.bridge.phase with
    | .input _ _ =>
      let (w, err) := tcpAcceptCb L h w none
      some (w, some ⟨none, err⟩)
    | _ => none
  | .recv id data err malloc =>
    match w.bridge.pcb? id with
    | some p =>
      if w.bridge.phase ≠ .rest ∧ p.accepted = true ∧ p.recv = true then
        let (w, ret) := tcpRecvCb L h w p.arg id data err malloc
        some (w, some ⟨some id, ret⟩)
      else none
    | none => none
  | .free id err =>
    match w.bridge.pcb? id with
    | some p =>
      if w.bridge.phase ≠ .rest then
        let w := if p.err then tcpErrCb h w p.arg err else w
        some (w.onBridge (·.freePcb id), none)
      else none
    | none => none
  | .sent id len =>
    match w.bridge.pcb? id with
    | some p =>
      if w.bridge.phase ≠ .rest ∧ p.sent = true ∧ 0 < len ∧ len ≤ p.queued then
        let w := w.onBridge (·.onPcb id fun p => { p with queued := p.queued - len })
        some ((tcpSentCb h w p.arg).1, none)
      else none
    | none => none
  | .emit id packet =>
    match w.bridge.pcb? id with
    | some p =>
      if Segment p packet then some (w.onBridge (·.netifOutput L p packet), none) else none
    | none => none

end

/-! ## The bridge alone -/

/-- Swift functions that do nothing: what they do are events of their own. -/
def idle : Handlers Unit := ⟨fun _ w => w, fun _ _ w => w, fun _ _ w => w, fun _ w => w⟩

/-- A call of the bridge, or what lwIP does while one is under way. -/
inductive BridgeEvent where
  | input (data : Bytes) (malloc pbuf : Bool)
  | poll
  /-- `lwip_bridge_input` or `lwip_bridge_poll` returns. -/
  | done
  | lwip (e : LwipEvent)
  | write (id : ℕ) (data : Bytes)
  | close (id : ℕ)
  /-- `tcp_recved` on a pointer that may be stale. -/
  | recved (pcb len : ℕ)
  deriving DecidableEq, Repr

namespace Bridge

/-- `lwip_bridge_init` (lines 294–334). -/
def init : Bridge := {}

/-- `lwip_bridge_poll` (lines 399–401) is called. -/
def lwipBridgePoll (b : Bridge) : Bridge := { b with phase := .poll }

/-- A call of the bridge returns. -/
def returns (b : Bridge) : Bridge := { b with phase := .rest }

/-- The state an event leads to, where it can happen. lwIP does something only
during a call of the bridge. -/
def step (L : Lwip) (b : Bridge) : BridgeEvent → Option Bridge
  | .input data malloc pbuf =>
    if b.phase = .rest then some (b.lwipBridgeInput data malloc pbuf) else none
  | .poll => if b.phase = .rest then some b.lwipBridgePoll else none
  | .done => if b.phase = .rest then none else some b.returns
  | .lwip e => (lwipStep L idle ⟨(), b⟩ e).map (·.1.bridge)
  | .write id data => some (b.lwipBridgeWrite L id data).2
  | .close id => some (b.lwipBridgeClose L id)
  | .recved pcb len => some (b.tcpRecved pcb len)

end Bridge

/-- A connection is opened: a SYN, and the ACK that completes the handshake. -/
def handshake (pcb : ℕ) (client : ClientKey) (server : UInt32 × UInt16) : List BridgeEvent :=
  [.input (tcpPacket 0x02 client server) true true, .lwip .halfOpen, .done,
    .input (tcpPacket 0x10 client server) true true, .lwip (.accept pcb), .done]

end WSBridge
