import WSBridge.Session.TunnelSession

/-!
# From the client to the gateway

The client side of the MTProto transports, and what a kws-mode session (no
`workerDomain`) does with the client's stream however TCP cuts it into chunks.

Results:
* `packetLen_encode`: a transport's encoding of a message announces its own
  length.
* `handleData_tracks`: one chunk extends the parse of the stream after the
  init packet.
* `handleData_frames`: over a whole stream of messages the session connects
  once, with the 64 init bytes, and then sends one frame per message.
-/

namespace WSBridge

open WSBridge.Foundation MsgSplitter

/-! ## The client: messages on the wire -/

/-- A message as a transport carries it. -/
structure Message where
  payload : Bytes
  quickAck : Bool

namespace Message

/-- `(q & 0xFFFFFF).to_bytes(3, 'little')`. -/
def pack24 (q : ℕ) : Bytes := [UInt8.ofNat q, UInt8.ofNat (q / 2 ^ 8), UInt8.ofNat (q / 2 ^ 16)]

/-- `struct.pack('<I', n)`. -/
def pack32 (n : ℕ) : Bytes :=
  [UInt8.ofNat n, UInt8.ofNat (n / 2 ^ 8), UInt8.ofNat (n / 2 ^ 16), UInt8.ofNat (n / 2 ^ 24)]

/-- The messages a transport can carry: abridged counts the payload in words
of four bytes. -/
def Valid (m : Message) : Transport → Prop
  | .abridged => ∃ q, 1 ≤ q ∧ q < 2 ^ 24 ∧ m.payload.length = 4 * q
  | .intermediate | .paddedIntermediate => 1 ≤ m.payload.length ∧ m.payload.length ≤ 2 ^ 31 - 1

/-- The quick-ack flag of a one-byte header. -/
def flag (quickAck : Bool) : Byte := if quickAck then 0x80 else 0

/-- The header of a message (`tools/test_pipe.py:23-34`), with the quick-ack
flag in its top bit. -/
def header (m : Message) : Transport → Bytes
  | .abridged =>
    let q := m.payload.length / 4
    if q ≤ 0x7e then [UInt8.ofNat q ||| flag m.quickAck]
    else (0x7F ||| flag m.quickAck) :: pack24 q
  | .intermediate | .paddedIntermediate => pack32 (m.payload.length ||| m.quickAck.toNat <<< 31)

/-- The bytes of a message on a transport. -/
def encode (m : Message) (t : Transport) : Bytes := m.header t ++ m.payload

/-! ### A message announces its own length -/

theorem encode_ne_nil (m : Message) (t : Transport) : m.encode t ≠ [] := by
  cases t
  · unfold encode header
    simp only
    split_ifs <;> simp
  all_goals simp [encode, header, pack32]

theorem shortHeader (q : Fin 127) (quickAck : Bool) :
    let b := UInt8.ofNat q ||| flag quickAck
    b ≠ 0x7F ∧ b ≠ 0xFF ∧ (b &&& 0x7F).toNat = q := by
  decide +revert

theorem longHeader (quickAck : Bool) :
    0x7F ||| flag quickAck = 0x7F ∨ 0x7F ||| flag quickAck = 0xFF := by
  decide +revert

theorem toNat_pack24 {q : ℕ} (h : q < 2 ^ 24) :
    (UInt8.ofNat q).toNat ||| (UInt8.ofNat (q / 2 ^ 8)).toNat <<< 8 |||
      (UInt8.ofNat (q / 2 ^ 16)).toNat <<< 16 = q := by
  simp only [UInt8.toNat_ofNat']
  rw [or_shiftLeft_eq_add (n := 8) (by omega), or_shiftLeft_eq_add (n := 16) (by omega)]
  omega

theorem toNat_pack32 {n : ℕ} (h : n < 2 ^ 32) :
    (UInt8.ofNat n).toNat ||| (UInt8.ofNat (n / 2 ^ 8)).toNat <<< 8 |||
      (UInt8.ofNat (n / 2 ^ 16)).toNat <<< 16 ||| (UInt8.ofNat (n / 2 ^ 24)).toNat <<< 24 = n := by
  simp only [UInt8.toNat_ofNat']
  rw [or_shiftLeft_eq_add (n := 8) (by omega), or_shiftLeft_eq_add (n := 16) (by omega),
    or_shiftLeft_eq_add (n := 24) (by omega)]
  omega

theorem checkAvail_exact {headerLen payloadLen : ℕ} (h : 0 < payloadLen) :
    checkAvail headerLen payloadLen (headerLen + payloadLen) = some (headerLen + payloadLen) := by
  unfold checkAvail
  rw [if_neg (by omega), if_neg (by omega)]

theorem packetLen_abridged {m : Message} (hm : m.Valid .abridged) :
    packetLen Transport.abridged.tag (m.encode .abridged) = some (m.encode .abridged).length := by
  obtain ⟨q, h1, h2, hq⟩ := hm
  have hdiv : m.payload.length / 4 = q := by omega
  have hne := List.length_pos_iff.mpr (m.encode_ne_nil .abridged)
  unfold packetLen nextPacketLen
  rw [if_neg (by omega), if_pos (by decide)]
  unfold nextAbridgedLen encode header
  simp only [hdiv]
  by_cases hshort : q ≤ 0x7e
  · obtain ⟨hne, hne', hlen⟩ := shortHeader ⟨q, by omega⟩ m.quickAck
    simp only at hne hne' hlen
    simp only [if_pos hshort, List.singleton_append, List.getD_cons_zero, List.length_cons]
    rw [if_neg (by tauto), hlen, show m.payload.length + 1 = 1 + q * 4 by omega]
    exact checkAvail_exact (by omega)
  · simp only [if_neg hshort, pack24, List.cons_append, List.nil_append, List.getD_cons_zero,
      List.length_cons]
    rw [if_pos (longHeader m.quickAck), if_neg (by omega)]
    simp only [Nat.zero_add, List.getD_cons_succ, List.getD_cons_zero]
    rw [toNat_pack24 h2, show m.payload.length + 1 + 1 + 1 + 1 = 4 + q * 4 by omega]
    exact checkAvail_exact (by omega)

theorem packetLen_intermediate {m : Message} (h1 : 1 ≤ m.payload.length)
    (h2 : m.payload.length ≤ 2 ^ 31 - 1) :
    nextIntermediateLen (m.encode .intermediate) 0 (m.encode .intermediate).length =
      some (m.encode .intermediate).length := by
  have hflag : m.payload.length ||| m.quickAck.toNat <<< 31 =
      m.payload.length + 2 ^ 31 * m.quickAck.toNat := or_shiftLeft_eq_add (by omega) _
  have hbit := m.quickAck.toNat_le
  unfold nextIntermediateLen encode header
  simp only [pack32, List.cons_append, List.nil_append, List.length_cons, Nat.zero_add,
    List.getD_cons_zero, List.getD_cons_succ]
  rw [if_neg (by omega), hflag, toNat_pack32 (by omega),
    show (0x7FFFFFFF : ℕ) = 2 ^ 31 - 1 from rfl, Nat.and_two_pow_sub_one_eq_mod,
    Nat.add_mul_mod_self_left, Nat.mod_eq_of_lt (by omega),
    show m.payload.length + 1 + 1 + 1 + 1 = 4 + m.payload.length by omega]
  exact checkAvail_exact (by omega)

/-- A transport's encoding of a message announces its own length. -/
theorem packetLen_encode {m : Message} {t : Transport} (hm : m.Valid t) :
    packetLen t.tag (m.encode t) = some (m.encode t).length := by
  cases t with
  | abridged => exact packetLen_abridged hm
  | intermediate | paddedIntermediate =>
    unfold packetLen nextPacketLen
    rw [if_neg (by simp [encode, header, pack32]), if_neg (by decide), if_pos (by decide)]
    exact packetLen_intermediate hm.1 hm.2

end Message

/-! ## The client: encryption -/

/-- The ciphertext of each of a row of messages, from keystream position `p`
on. -/
def sealFrom (k : ℕ → Byte) : ℕ → List Bytes → List Bytes
  | _, [] => []
  | p, m :: ms => ctr k p m :: sealFrom k (p + m.length) ms

/-- The parse of a sealed row of messages. -/
theorem cut_sealFrom {tag : UInt32} (k : ℕ → Byte) (p : ℕ) {ms : List Bytes}
    (h : ∀ m ∈ ms, m ≠ [] ∧ packetLen tag m = some m.length) :
    let c := (packetFraming tag).cut (cells k p (ctr k p ms.flatten))
    c.packets.map wire = sealFrom k p ms ∧ c.stopped = false := by
  induction ms generalizing p with
  | nil => simp [cells, sealFrom]
  | cons m ms ih =>
    obtain ⟨hne, hlen⟩ := h m (by simp)
    obtain ⟨ih1, ih2⟩ := ih (p + m.length) fun m' hm' => h m' (by simp [hm'])
    have hlen' : (packetFraming tag).len (cells k p (ctr k p m)) = some m.length := by
      simp only [packetFraming, plain_cells, ctr_ctr, hlen]
    have hpos : 0 < m.length := List.length_pos_iff.mpr hne
    rw [List.flatten_cons, ctr_append, cells_append, ctr_length]
    intro c
    have hc : c = _ := Framing.cut_packet hpos (Framing.len_append _ hlen' _)
    rw [List.take_left' (by simp), List.drop_left' (by simp)] at hc
    rw [hc]
    simp only [List.map_cons, wire_cells, sealFrom]
    exact ⟨by rw [ih1], ih2⟩

namespace TunnelSession

/-! ## The session past the init packet -/

/-- The session has connected, its calls were `calls` until then, and it has
forwarded the packets of the stream `d` that followed the init packet. -/
structure Forwarding (ks : Keystream) (key iv : Bytes) (tag : UInt32) (calls : List Effect)
    (d : Bytes) (u : Up) : Prop where
  kws : u.session.workerDomain = none
  parsed : u.session.initParsed = true
  connected : u.session.wsConnected = true ∧ u.session.ws = true
  splitter : ∃ sp, u.session.splitter = some sp ∧ sp.Aligned ∧ sp.disabled = false ∧
    sp.protoTag = tag ∧ sp.cipher = ⟨key, iv, 64 + d.length⟩ ∧
    sp.held = ((packetFraming tag).cut (cells (ks key iv) 64 d)).rest
  effects : u.effects =
    calls ++ sendBatch (((packetFraming tag).cut (cells (ks key iv) 64 d)).packets.map wire)

section Forwarding

variable {ks : Keystream} {key iv : Bytes} {tag : UInt32} {calls : List Effect} {d : Bytes} {u : Up}

/-- One more chunk. -/
theorem forwardToWS_forwarding (h : Forwarding ks key iv tag calls d u) {chunk : Bytes}
    (hne : chunk ≠ [])
    (hs : ((packetFraming tag).cut (cells (ks key iv) 64 (d ++ chunk))).stopped = false) :
    Forwarding ks key iv tag calls (d ++ chunk) (forwardToWS ks u chunk) := by
  obtain ⟨hkws, hparsed, hconn, ⟨sp, hsp, hal, hdis, htag, hciph, hheld⟩, heff⟩ := h
  rw [cells_append] at hs
  have hs0 := Framing.cut_not_stopped_of_append hs
  have hcut := Framing.cut_append_of_not_stopped hs0 (cells (ks key iv) (64 + d.length) chunk)
  have hs1 : ((packetFraming tag).cut (((packetFraming tag).cut (cells (ks key iv) 64 d)).rest ++
      cells (ks key iv) (64 + d.length) chunk)).stopped = false := by
    rw [hcut] at hs
    exact hs
  have hsplit := split_spec ks hal hdis hne
  simp only [hciph, htag, hheld, hs1, Bool.false_eq_true, if_false, List.append_nil] at hsplit
  unfold forwardToWS
  rw [if_pos hconn, hsp]
  simp only [hsplit]
  refine ⟨hkws, hparsed, hconn, ⟨_, rfl, ?_, rfl, rfl, ?_, ?_⟩, ?_⟩
  · simp [Aligned, wire]
  · simp [Nat.add_assoc]
  · rw [cells_append, hcut]
    simp only [held, wire]
    exact (List.zip_of_prod rfl rfl).symm
  · rw [cells_append, hcut, heff]
    simp [sendBatch]

/-- `startWS` on a full init buffer. -/
theorem startWS_forwarding {parsed : InitParser.ParsedInit} {init : Bytes}
    (hkey : parsed.key.length = 32) (hkws : u.session.workerDomain = none)
    (hpars : u.session.initParsed = true) (hbuf : u.session.initBuffer.take 64 = init)
    (heff : u.effects = []) :
    Forwarding ks parsed.key parsed.iv parsed.protoTag
      [.connect parsed.dcId parsed.isMedia parsed.isTestDC init] [] (startWS ks u parsed) := by
  refine ⟨hkws, hpars, ⟨rfl, rfl⟩, ⟨⟨⟨parsed.key, parsed.iv, 64⟩, parsed.protoTag, [], [], false⟩,
    ?_, rfl, rfl, rfl, rfl, ?_⟩, ?_⟩
  · simp [startWS, MsgSplitter.init?, AESCTR.init?_of_length hkey]
  · simp [cells, held]
  · simp [startWS, cells, sendBatch, InitParser.handshakeLen, heff, hbuf]

end Forwarding

/-! ## The whole stream -/

/-- The handling of a row of chunks. -/
def feed (ks : Keystream) (u : Up) (chunks : List Bytes) : Up := chunks.foldl (handleData ks) u

/-- What a kws-mode session has done with the bytes `b` of a stream whose first
64 bytes are `init`: while fewer have arrived it waits and makes no call; then
it forwards. -/
def Tracks (ks : Keystream) (parsed : InitParser.ParsedInit) (init b : Bytes) (u : Up) : Prop :=
  if b.length < 64 then
    u.session.workerDomain = none ∧ u.session.initParsed = false ∧ u.session.initBuffer = b ∧
      u.effects = []
  else
    Forwarding ks parsed.key parsed.iv parsed.protoTag
      [.connect parsed.dcId parsed.isMedia parsed.isTestDC init] (b.drop 64) u

section Stream

variable {ks : Keystream} {parsed : InitParser.ParsedInit} {init : Bytes}

theorem handleData_tracks (hkey : parsed.key.length = 32)
    (hparse : InitParser.parse ks init = some parsed) {b chunk : Bytes} {u : Up}
    (h : Tracks ks parsed init b u) (hne : chunk ≠ [])
    (hpre : 64 ≤ (b ++ chunk).length → (b ++ chunk).take 64 = init)
    (hs : ((packetFraming parsed.protoTag).cut
      (cells (ks parsed.key parsed.iv) 64 ((b ++ chunk).drop 64))).stopped = false) :
    Tracks ks parsed init (b ++ chunk) (handleData ks u chunk) := by
  unfold Tracks at h ⊢
  by_cases hb : b.length < 64
  · rw [if_pos hb] at h
    obtain ⟨hkws, hpars, hbuf, heff⟩ := h
    unfold handleData
    simp only [hkws, hpars, Bool.false_eq_true, if_false, InitParser.handshakeLen, hbuf]
    by_cases hlen : 64 ≤ (b ++ chunk).length
    · -- The init packet is complete.
      rw [if_pos hlen, if_neg (by omega), hpre hlen, hparse]
      simp only
      split_ifs with hrest
      · rw [hrest]
        exact startWS_forwarding hkey rfl rfl (hpre hlen) heff
      · refine forwardToWS_forwarding (startWS_forwarding hkey ?_ ?_ ?_ ?_) hrest
          (by simpa using hs)
        · rfl
        · rfl
        · exact hpre hlen
        · exact heff
    · rw [if_neg hlen, if_pos (by omega)]
      exact ⟨rfl, rfl, rfl, heff⟩
  · rw [if_neg hb] at h
    have hdrop : (b ++ chunk).drop 64 = b.drop 64 ++ chunk :=
      List.drop_append_of_le_length (by omega)
    rw [if_neg (by simp; omega), hdrop]
    rw [hdrop] at hs
    unfold handleData
    simp only [h.kws, h.parsed, if_true]
    refine forwardToWS_forwarding ?_ hne hs
    exact ⟨h.kws, h.parsed, h.connected, h.splitter, h.effects⟩

/-- The run over all chunks of a stream whose parse does not stop. -/
theorem feed_tracks (hkey : parsed.key.length = 32) (hinit : init.length = 64)
    (hparse : InitParser.parse ks init = some parsed) {d : Bytes}
    (hs : ((packetFraming parsed.protoTag).cut (cells (ks parsed.key parsed.iv) 64 d)).stopped =
      false) :
    ∀ (chunks : List Bytes) (b : Bytes) (u : Up), (∀ c ∈ chunks, c ≠ []) →
      b ++ chunks.flatten = init ++ d → Tracks ks parsed init b u →
      Tracks ks parsed init (init ++ d) (feed ks u chunks) := by
  intro chunks
  induction chunks with
  | nil =>
    intro b u _ hb h
    rw [List.flatten_nil, List.append_nil] at hb
    exact hb ▸ h
  | cons c cs ih =>
    intro b u hne hb h
    rw [List.flatten_cons, ← List.append_assoc] at hb
    have hpre : 64 ≤ (b ++ c).length → (b ++ c).take 64 = init := by
      intro hlen
      have htake : ((b ++ c) ++ cs.flatten).take 64 = (b ++ c).take 64 :=
        List.take_append_of_le_length hlen
      rw [← htake, hb, List.take_left' hinit]
    have hstop : ((packetFraming parsed.protoTag).cut
        (cells (ks parsed.key parsed.iv) 64 ((b ++ c).drop 64))).stopped = false := by
      by_cases hlen : 64 ≤ (b ++ c).length
      · -- A chunk boundary splits `d`, and a longer stream parses without a stop.
        have hd : (b ++ c).drop 64 ++ cs.flatten = d := by
          rw [← List.drop_append_of_le_length hlen, hb, List.drop_left' hinit]
        rw [← hd, cells_append] at hs
        exact Framing.cut_not_stopped_of_append hs
      · have : (b ++ c).drop 64 = [] := by rw [List.drop_eq_nil_iff]; omega
        rw [this]
        simp [cells]
    exact ih _ _ (fun c' hc' => hne c' (by simp [hc'])) hb
      (handleData_tracks hkey hparse h (hne c (by simp)) hpre hstop)

end Stream

/-- **End-to-end framing.** A client sends an init packet and a row of messages
of its transport, encrypted from keystream position 64 on. However the stream
is cut into chunks, a new kws-mode session connects once, with the 64 init
bytes as `initFrame`, and then sends one frame per message, the ciphertext of
its header and payload, and makes no other call. -/
theorem handleData_frames (ks : Keystream) (t : Transport) (dcIdx : Int16) (rnd pad : Bytes)
    (hrnd : rnd.length = 64) (hpad : pad.length = 2) (msgs : List Message)
    (hmsgs : ∀ m ∈ msgs, m.Valid t) (chunks : List Bytes) (hne : ∀ c ∈ chunks, c ≠ [])
    (hcut : chunks.flatten =
      let init := makeInit ks rnd dcIdx t.tagBytes pad
      init ++ ctr (ks (InitParser.keyOf init) (InitParser.ivOf init)) 64
        (msgs.flatMap fun m => m.encode t))
    (connId : ℕ) (dcIP : UInt32) (log : EventLog) :
    let init := makeInit ks rnd dcIdx t.tagBytes pad
    (feed ks ⟨new connId dcIP none, log, []⟩ chunks).effects =
      .connect dcIdx.toInt.natAbs (dcIdx.toInt < 0) (10000 ≤ dcIdx.toInt.natAbs) init ::
        (sealFrom (ks (InitParser.keyOf init) (InitParser.ivOf init)) 64
          (msgs.map fun m => m.encode t)).map .send := by
  intro init
  have hlen : init.length = 64 := makeInit_length ks dcIdx t hrnd hpad
  have hparse := parse_makeInit ks dcIdx t hrnd hpad
  have hkey : InitParser.keyOf init = InitParser.keyOf rnd := makeInit_keyOf ks dcIdx t hrnd hpad
  have hiv : InitParser.ivOf init = InitParser.ivOf rnd := makeInit_ivOf ks dcIdx t hrnd hpad
  change chunks.flatten = init ++ ctr (ks (InitParser.keyOf init) (InitParser.ivOf init)) 64
    (msgs.flatMap fun m => m.encode t) at hcut
  rw [hkey, hiv] at hcut ⊢
  rw [List.flatMap_def] at hcut
  set parsed : InitParser.ParsedInit :=
    { dcId := dcIdx.toInt.natAbs, isMedia := dcIdx.toInt < 0,
      isTestDC := 10000 ≤ dcIdx.toInt.natAbs, protoTag := t.tag,
      key := InitParser.keyOf rnd, iv := InitParser.ivOf rnd } with hparsed
  have hlens : ∀ e ∈ msgs.map (fun m => m.encode t),
      e ≠ [] ∧ packetLen t.tag e = some e.length := by
    intro e he
    obtain ⟨m, hm, rfl⟩ := List.mem_map.mp he
    exact ⟨m.encode_ne_nil t, Message.packetLen_encode (hmsgs m hm)⟩
  obtain ⟨hpk, hstop⟩ := cut_sealFrom (ks (InitParser.keyOf rnd) (InitParser.ivOf rnd)) 64 hlens
  have hkeylen : parsed.key.length = 32 := by simp [hparsed, InitParser.keyOf, hrnd]
  have htracks := feed_tracks hkeylen hlen hparse hstop chunks [] ⟨new connId dcIP none, log, []⟩
    hne (by simpa using hcut) (by simp [Tracks, new])
  unfold Tracks at htracks
  rw [if_neg (by simp [hlen]), List.drop_left' hlen] at htracks
  rw [htracks.effects, hpk]
  rfl

/-- 80 bytes of the AES-256-CTR keystream for the key `9 … 40` and the counter
block `41 … 56`. -/
def sampleKeystream : Keystream := fun _ _ p =>
  List.getD [37, 113, 80, 76, 124, 239, 81, 195, 108, 203, 153, 221, 238, 191, 100, 232,
    22, 234, 50, 79, 85, 140, 73, 221, 51, 25, 183, 251, 30, 2, 226, 210,
    46, 8, 61, 165, 55, 53, 95, 9, 243, 122, 162, 142, 109, 237, 185, 243,
    104, 0, 235, 132, 90, 48, 16, 27, 221, 83, 122, 106, 243, 251, 113, 122,
    221, 0, 77, 42, 157, 74, 238, 220, 60, 153, 239, 250, 107, 86, 121, 250] p 0

/-- The random bytes `1 … 64`. -/
def sampleRnd : Bytes := (List.range' 1 64).map UInt8.ofNat

/-- One abridged message of one word, cut inside the init packet and inside the
message. -/
theorem handleData_frames_sample :
    (feed sampleKeystream ⟨new 0 0 none, {}, []⟩
      [sampleRnd.take 56 ++ [50, 188], [149, 133, 13, 4, 118, 115, 220, 10],
        [89, 52, 181]]).effects =
      [.connect 2 true false (sampleRnd.take 56 ++ [50, 188, 149, 133, 13, 4, 118, 115]),
        .send [220, 10, 89, 52, 181]] := by
  have h := handleData_frames sampleKeystream .abridged (-2) sampleRnd [7, 9] (by decide)
    (by decide)
    [⟨[10, 20, 30, 40], false⟩] (by
      intro m hm
      rw [List.mem_singleton] at hm
      exact hm ▸ ⟨1, by decide, by decide, rfl⟩)
    [sampleRnd.take 56 ++ [50, 188], [149, 133, 13, 4, 118, 115, 220, 10], [89, 52, 181]]
    (by decide) (by decide) 0 0 {}
  exact h.trans (by decide)

end TunnelSession

end WSBridge
