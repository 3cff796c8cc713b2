import WSBridge.Bridge.Packet

/-!
# The bridge (`Tunnel/lwip_bridge.c`)

The C functions of the bridge over the part of lwIP they use: the connection
pcbs lwIP holds, the calls on a pcb, and `netif->output`. A pcb is named by a
number that is never used again, so that a call on a pcb that lwIP has freed
can be told from a call on its successor.

The callbacks of the bridge call function pointers of the Swift side. They are
`Handlers` over a state `σ` of that side.

Assumed of lwIP, through `Lwip`: `tcp_write` takes all of the data or none, and
takes none when the send buffer, or the memory shared by all connections, has
no room; `tcp_abort` sends a RST through `netif->output` and frees the pcb
before it returns.

Left out: the diagnostics (`g_dbg_*`, `g_last_write_err`,
`lwip_bridge_snd_dbg`, `lwip_bridge_conn_stats`, `lwip_bridge_dbg_nat`), which
only the journal reads.
-/

namespace WSBridge

/-! ## lwIP -/

/-- A connection pcb lwIP holds. `queued` counts the bytes queued or
unacknowledged; `origDst` is history: the destination the client had given the
SYN. -/
structure Pcb where
  id : ℕ
  remoteIP : UInt32
  remotePort : UInt16
  localPort : UInt16
  origDst : UInt32
  /-- The accept callback has been called. -/
  accepted : Bool := false
  arg : ℕ := 0
  recv : Bool := false
  err : Bool := false
  sent : Bool := false
  queued : ℕ := 0
  deriving DecidableEq, Repr

/-- The client's address and port. -/
def Pcb.key (p : Pcb) : ClientKey := (p.remoteIP, p.remotePort)

/-- `MEMP_NUM_TCP_PCB` (`lwipopts.h:19`). -/
def memNumTcpPcb : ℕ := 32

/-- `TCP_SND_BUF` (`lwipopts.h:35`). -/
def tcpSndBuf : ℕ := 65535

/-- The calls the bridge makes on a pcb. `recved` has the length it is called
with. -/
inductive PcbOp where
  | arg | nagleDisable | recv | err | sent
  | recved (len : ℕ)
  | write | output | abort
  deriving DecidableEq, Repr

/-- A packet lwIP sends on a connection. -/
structure Segment (p : Pcb) (packet : Bytes) : Prop where
  length_ge : 40 ≤ packet.length
  length_lt : packet.length < 65536
  proto : packet.getD 9 0 = protoTCP
  source : be32 packet 12 = netifIP
  dest : be32 packet 16 = p.remoteIP
  port : be16 packet 22 = p.remotePort

theorem segment_iff (p : Pcb) (packet : Bytes) :
    Segment p packet ↔
      40 ≤ packet.length ∧ packet.length < 65536 ∧ packet.getD 9 0 = protoTCP ∧
        be32 packet 12 = netifIP ∧ be32 packet 16 = p.remoteIP ∧ be16 packet 22 = p.remotePort :=
  ⟨fun h => ⟨h.1, h.2, h.3, h.4, h.5, h.6⟩,
    fun ⟨h1, h2, h3, h4, h5, h6⟩ => ⟨h1, h2, h3, h4, h5, h6⟩⟩

/-- A segment is recognised by its bytes. -/
instance (p : Pcb) (packet : Bytes) : Decidable (Segment p packet) :=
  decidable_of_iff _ (segment_iff p packet).symm

/-- What the bridge cannot foresee of lwIP and of the C library. -/
structure Lwip where
  /-- The `tcp_write` of this number finds memory, for a pcb and a length. -/
  fits : ℕ → List Pcb → ℕ → ℕ → Bool
  /-- The `malloc` of `netif_output` for the packet of this number succeeds. -/
  malloc : ℕ → Bool
  /-- The RST of `tcp_abort`, as the packet of this number. -/
  rst : ℕ → Pcb → Bytes
  rst_segment : ∀ n p, Segment p (rst n p)

/-- The RST of `tcp_rst`. -/
def rstPacket (p : Pcb) : Bytes :=
  tcpPacket 0x14 (netifIP, p.localPort) (p.remoteIP, p.remotePort)

theorem rstPacket_segment (p : Pcb) : Segment p (rstPacket p) := by
  unfold rstPacket
  refine ⟨?_, ?_, tcpPacket_proto .., tcpPacket_source .., tcpPacket_dest .., tcpPacket_destPort ..⟩
  · rw [tcpPacket_length]
  · rw [tcpPacket_length]
    omega

/-- An lwIP whose `tcp_write` finds memory as `fits` says. -/
def Lwip.withMemory (fits : ℕ → List Pcb → ℕ → ℕ → Bool) : Lwip where
  fits := fits
  malloc _ := true
  rst _ := rstPacket
  rst_segment _ := rstPacket_segment

/-- An lwIP that never runs out of memory. -/
def Lwip.ample : Lwip := Lwip.withMemory fun _ _ _ _ => true

/-- A packet of a pcb that went through `netif_output`, and what `g_output` got
of it. -/
structure Emission where
  pcb : ℕ
  accepted : Bool
  origDst : UInt32
  packet : Bytes
  output : Option Bytes
  deriving DecidableEq, Repr

/-! ## The state of the bridge -/

/-- `conn_t` (lines 76–82). -/
structure Conn where
  pcb : Option ℕ := none
  dcIP : UInt32 := 0
  clientIP : UInt32 := 0
  clientPort : UInt16 := 0
  active : Bool := false
  deriving DecidableEq, Repr

/-- The client's address and port, as the slot keeps them. -/
def Conn.key (c : Conn) : ClientKey := (c.clientIP, c.clientPort)

/-- `MAX_CONNS` (line 75). -/
def maxConns : ℕ := 64

/-- What `g_netif.input` is given. `origDst` is history: the destination the
client had given the packet. -/
structure NetifInput where
  packet : Bytes
  origDst : UInt32
  deriving DecidableEq, Repr

/-- Where the lwIP queue stands: between calls of the bridge, in
`g_netif.input` (lines 396 and 397), or in `lwip_bridge_poll`. `unclaimed` is
history: the key of the packet, as long as lwIP holds no pcb for it. -/
inductive Phase where
  | rest
  | input (given : NetifInput) (unclaimed : Option ClientKey)
  | poll
  deriving DecidableEq, Repr

/-- The globals of the bridge and the pcbs of lwIP. `ops` and `out` are
history: the calls made on pcbs, and the packets sent. -/
structure Bridge where
  nat : NatTable := List.replicate natMax {}
  conns : List Conn := List.replicate maxConns {}
  inmemDrops : ℕ := 0
  phase : Phase := .rest
  pcbs : List Pcb := []
  nextPcb : ℕ := 0
  writes : ℕ := 0
  ops : List (ℕ × PcbOp) := []
  out : List Emission := []
  deriving DecidableEq, Repr

/-- What a callback of the bridge returns to lwIP. -/
inductive Err where
  | ok
  | abrt
  deriving DecidableEq, Repr

namespace Bridge

/-! ## Calls on a pcb -/

/-- The pcb of a number, while lwIP holds it. -/
def pcb? (b : Bridge) (id : ℕ) : Option Pcb := b.pcbs.find? fun p => p.id = id

/-- Change the pcb of a number, if lwIP holds it. -/
def onPcb (b : Bridge) (id : ℕ) (f : Pcb → Pcb) : Bridge :=
  { b with pcbs := b.pcbs.map fun p => if p.id = id then f p else p }

/-- lwIP frees a pcb. -/
def freePcb (b : Bridge) (id : ℕ) : Bridge :=
  { b with pcbs := b.pcbs.filter fun p => p.id ≠ id }

/-- A call on a pcb, or on a pointer to a freed one, is recorded. -/
def logOp (b : Bridge) (id : ℕ) (op : PcbOp) : Bridge := { b with ops := b.ops ++ [(id, op)] }

/-- `netif_output` (lines 98–178), for a packet of the pcb. -/
def netifOutput (L : Lwip) (b : Bridge) (p : Pcb) (packet : Bytes) : Bridge :=
  let output := if L.malloc b.out.length then some (rewriteOutput b.nat packet) else none
  { b with out := b.out ++ [⟨p.id, p.accepted, p.origDst, packet, output⟩] }

/-- `tcp_arg`: the slot the callbacks of the pcb get. -/
def tcpArg (b : Bridge) (id slot : ℕ) : Bridge :=
  (b.logOp id .arg).onPcb id ({ · with arg := slot })

/-- `tcp_nagle_disable`. -/
def tcpNagleDisable (b : Bridge) (id : ℕ) : Bridge := b.logOp id .nagleDisable

/-- `tcp_recv`, with `tcp_recv_cb` or with `NULL`. -/
def tcpRecv (b : Bridge) (id : ℕ) (set : Bool) : Bridge :=
  (b.logOp id .recv).onPcb id ({ · with recv := set })

/-- `tcp_err`, with `tcp_err_cb` or with `NULL`. -/
def tcpErr (b : Bridge) (id : ℕ) (set : Bool) : Bridge :=
  (b.logOp id .err).onPcb id ({ · with err := set })

/-- `tcp_sent`, with `tcp_sent_cb` or with `NULL`. -/
def tcpSent (b : Bridge) (id : ℕ) (set : Bool) : Bridge :=
  (b.logOp id .sent).onPcb id ({ · with sent := set })

/-- `tcp_recved`: the window opens by `len` bytes. -/
def tcpRecved (b : Bridge) (id len : ℕ) : Bridge := b.logOp id (.recved len)

/-- `tcp_output`. -/
def tcpOutput (b : Bridge) (id : ℕ) : Bridge := b.logOp id .output

/-- `tcp_abort`: a RST goes through `netif_output`, then the pcb is gone. The call on
a freed pcb is only recorded. -/
def tcpAbort (L : Lwip) (b : Bridge) (id : ℕ) : Bridge :=
  let b := b.logOp id .abort
  match b.pcb? id with
  | some p => (b.netifOutput L p (L.rst b.out.length p)).freePcb id
  | none => b

/-- `tcp_write` with `TCP_WRITE_FLAG_COPY`; `true` is `ERR_OK`. -/
def tcpWrite (L : Lwip) (b : Bridge) (id len : ℕ) : Bool × Bridge :=
  let b := b.logOp id .write
  match b.pcb? id with
  | some p =>
    let ok := p.queued + len ≤ tcpSndBuf ∧ L.fits b.writes b.pcbs id len = true
    let b := { b with writes := b.writes + 1 }
    if ok then (true, b.onPcb id fun p => { p with queued := p.queued + len }) else (false, b)
  | none => (false, b)

/-! ## The functions the Swift side calls -/

/-- `conn_of_id` (lines 91–94). -/
def connOfId (b : Bridge) (id : ℕ) : Option Conn := b.conns[id]?.filter (·.active)

/-- `c->active = 0; c->pcb = NULL`. -/
def clearConn (b : Bridge) (id : ℕ) : Bridge :=
  { b with conns := b.conns.modify id fun c => { c with active := false, pcb := none } }

/-- `nat_remove(c->client_ip, c->client_port)`. -/
def dropNat (b : Bridge) (c : Conn) : Bridge :=
  { b with nat := natRemove b.nat c.clientIP c.clientPort }

/-- `lwip_bridge_input` (lines 336–397), up to the call of `g_netif.input`. The
flags are the results of `malloc` and `pbuf_alloc`. -/
def lwipBridgeInput (b : Bridge) (data : Bytes) (malloc pbuf : Bool) : Bridge :=
  if data.length < 40 then b
  else
    let (srcIP, srcPort) := natKey data
    let unclaimed := if b.pcbs.any (·.key = natKey data) then none else some (natKey data)
    let b := { b with nat := natAdd b.nat srcIP srcPort (origDst data) }
    if !malloc then b
    else if !pbuf then { b with inmemDrops := b.inmemDrops + 1 }
    else { b with phase := .input ⟨rewriteInput data, origDst data⟩ unclaimed }

/-- `lwip_bridge_write` (lines 403–413); `true` is 0. -/
def lwipBridgeWrite (L : Lwip) (b : Bridge) (id : ℕ) (data : Bytes) : Bool × Bridge :=
  match (b.connOfId id).bind (·.pcb) with
  | some pcb =>
    match b.tcpWrite L pcb data.length with
    | (true, b) => (true, b.tcpOutput pcb)
    | (false, b) => (false, b)
  | none => (false, b)

/-- `tcp_recv(pcb, NULL); tcp_err(pcb, NULL); tcp_abort(pcb)`. -/
def detachAbort (L : Lwip) (b : Bridge) (pcb : ℕ) : Bridge :=
  ((b.tcpRecv pcb false).tcpErr pcb false).tcpAbort L pcb

theorem detachAbort_ops (L : Lwip) (b : Bridge) (pcb : ℕ) :
    (b.detachAbort L pcb).ops = b.ops ++ [(pcb, .recv), (pcb, .err), (pcb, .abort)] := by
  unfold detachAbort tcpAbort
  dsimp only
  split <;> simp [netifOutput, freePcb, logOp, tcpErr, tcpRecv, onPcb]

/-- `lwip_bridge_close` (lines 415–426). -/
def lwipBridgeClose (L : Lwip) (b : Bridge) (id : ℕ) : Bridge :=
  match b.connOfId id with
  | some c =>
    match c.pcb with
    | some pcb => ((b.dropNat c).detachAbort L pcb).clearConn id
    | none => b
  | none => b

/-- `lwip_bridge_get_dst_ip` (lines 428–432). -/
def lwipBridgeGetDstIP (b : Bridge) (id : ℕ) : UInt32 :=
  match b.connOfId id with
  | some c => c.dcIP
  | none => 0

end Bridge

/-! ## Callbacks -/

/-- The Swift side and the bridge. -/
structure World (σ : Type*) where
  swift : σ
  bridge : Bridge

/-- A change of the bridge alone. -/
def World.onBridge {σ : Type*} (w : World σ) (f : Bridge → Bridge) : World σ :=
  { w with bridge := f w.bridge }

/-- The function pointers `g_accept`, `g_recv`, `g_close` and `g_sent`. -/
structure Handlers (σ : Type*) where
  accept : ℕ → World σ → World σ
  recv : ℕ → Bytes → World σ → World σ
  close : ℕ → ℤ → World σ → World σ
  sent : ℕ → World σ → World σ

section Callbacks

variable {σ : Type*} (L : Lwip) (h : Handlers σ)

/-- The callbacks set on a new connection (lines 227–231). -/
def Bridge.attach (b : Bridge) (pcb slot : ℕ) : Bridge :=
  ((((b.tcpArg pcb slot).tcpNagleDisable pcb).tcpRecv pcb true).tcpErr pcb true).tcpSent pcb true

/-- `tcp_accept_cb` (lines 191–235). `newpcb` is `none` where lwIP passes an
error. -/
def tcpAcceptCb (w : World σ) (newpcb : Option Pcb) : World σ × Err :=
  match newpcb with
  | none => (w, .ok)
  | some p =>
    let dcIP := natLookup w.bridge.nat p.remoteIP p.remotePort
    match w.bridge.conns.findIdx? (!·.active) with
    | none => (w.onBridge (·.tcpAbort L p.id), .ok)
    | some slot =>
      let conn := { pcb := some p.id, dcIP, clientIP := p.remoteIP, clientPort := p.remotePort,
                    active := true }
      let w := w.onBridge fun b => { b with conns := b.conns.set slot conn }
      (h.accept slot (w.onBridge (·.attach p.id slot)), .ok)

/-- `tcp_recv_cb` (lines 237–272): `p` is `none` for a FIN, and `malloc` the
result of the `malloc` of line 260. -/
def tcpRecvCb (w : World σ) (arg pcb : ℕ) (p : Option Bytes) (err : ℤ) (malloc : Bool) :
    World σ × Err :=
  match p, decide (err = 0) with
  | some data, true =>
    let w := if malloc then h.recv arg data w else w
    (w.onBridge (·.tcpRecved pcb data.length), .ok)
  | _, _ =>
    let w := h.close arg err w
    match w.bridge.connOfId arg with
    | none => (w, .abrt)
    | some c =>
      let w := w.onBridge (·.dropNat c)
      let w := match c.pcb with
        | some pcb => w.onBridge (·.detachAbort L pcb)
        | none => w
      (w.onBridge (·.clearConn arg), .abrt)

/-- `tcp_err_cb` (lines 274–283). -/
def tcpErrCb (w : World σ) (arg : ℕ) (err : ℤ) : World σ :=
  let w := h.close arg err w
  match w.bridge.connOfId arg with
  | none => w
  | some c => (w.onBridge (·.dropNat c)).onBridge (·.clearConn arg)

/-- `tcp_sent_cb` (lines 285–290). -/
def tcpSentCb (w : World σ) (arg : ℕ) : World σ × Err := (h.sent arg w, .ok)

end Callbacks

end WSBridge
