import WSBridge.Bridge.NatTable

/-!
# Packets (`Tunnel/lwip_bridge.c:98-178, 336-397`)

The bytes of IPv4/TCP packets as `lwip_bridge_input` and `netif_output` read
and rewrite them. Both put an address in place and compute the two checksums
anew, with the same code. The accumulators are `uint32_t`.

Results:
* `be32_put32`: an address that is written is read back.
* `rewriteOutput_source`: the source address `netif_output` gives a packet of
  lwIP's, for every table.
-/

namespace WSBridge

/-! ## Fields -/

/-- `((uint16_t)d[i] << 8) | d[i+1]`; a byte past the end counts as zero. -/
def be16 (d : Bytes) (i : ℕ) : UInt16 := (d.getD i 0).toUInt16 <<< 8 ||| (d.getD (i + 1) 0).toUInt16

/-- `((uint32_t)d[i] << 24) | … | d[i+3]`. -/
def be32 (d : Bytes) (i : ℕ) : UInt32 :=
  (d.getD i 0).toUInt32 <<< 24 ||| (d.getD (i + 1) 0).toUInt32 <<< 16 |||
    (d.getD (i + 2) 0).toUInt32 <<< 8 ||| (d.getD (i + 3) 0).toUInt32

/-- `d[i] = x >> 8; d[i+1] = x`. -/
def put16 (d : Bytes) (i : ℕ) (x : UInt16) : Bytes :=
  (d.set i (x >>> 8).toUInt8).set (i + 1) x.toUInt8

/-- `d[i] = x >> 24; …; d[i+3] = x`. -/
def put32 (d : Bytes) (i : ℕ) (x : UInt32) : Bytes :=
  (((d.set i (x >>> 24).toUInt8).set (i + 1) (x >>> 16).toUInt8).set (i + 2)
    (x >>> 8).toUInt8).set (i + 3) x.toUInt8

@[simp] theorem put16_length (d : Bytes) (i : ℕ) (x : UInt16) :
    (put16 d i x).length = d.length := by
  simp [put16]

@[simp] theorem put32_length (d : Bytes) (i : ℕ) (x : UInt32) :
    (put32 d i x).length = d.length := by
  simp [put32]

theorem getD_set_of_ne (d : Bytes) {i j : ℕ} (h : i ≠ j) (b : Byte) :
    (d.set i b).getD j 0 = d.getD j 0 := by
  simp [List.getD_eq_getElem?_getD, h]

theorem getD_set_self {d : Bytes} {i : ℕ} (h : i < d.length) (b : Byte) :
    (d.set i b).getD i 0 = b := by
  simp [List.getD_eq_getElem?_getD, h]

theorem getD_put16 (d : Bytes) {i j : ℕ} (x : UInt16) (h : j < i ∨ i + 2 ≤ j) :
    (put16 d i x).getD j 0 = d.getD j 0 := by
  unfold put16
  rw [getD_set_of_ne _ (by omega), getD_set_of_ne _ (by omega)]

theorem getD_put32 (d : Bytes) {i j : ℕ} (x : UInt32) (h : j < i ∨ i + 4 ≤ j) :
    (put32 d i x).getD j 0 = d.getD j 0 := by
  unfold put32
  rw [getD_set_of_ne _ (by omega), getD_set_of_ne _ (by omega), getD_set_of_ne _ (by omega),
    getD_set_of_ne _ (by omega)]

theorem be32_put16 (d : Bytes) {i j : ℕ} (x : UInt16) (h : j + 4 ≤ i ∨ i + 2 ≤ j) :
    be32 (put16 d i x) j = be32 d j := by
  unfold be32
  rw [getD_put16 d x (by omega), getD_put16 d x (by omega), getD_put16 d x (by omega),
    getD_put16 d x (by omega)]

theorem be32_put32_of_ne (d : Bytes) {i j : ℕ} (x : UInt32) (h : j + 4 ≤ i ∨ i + 4 ≤ j) :
    be32 (put32 d i x) j = be32 d j := by
  unfold be32
  rw [getD_put32 d x (by omega), getD_put32 d x (by omega), getD_put32 d x (by omega),
    getD_put32 d x (by omega)]

theorem getLsbD_low_byte (x : BitVec 32) (i : ℕ) :
    (x % 256#32).getLsbD i = (x.getLsbD i && decide (i < 8)) := by
  have hmask : x % 256#32 = x &&& 255#32 := by
    apply BitVec.eq_of_toNat_eq
    rw [BitVec.toNat_umod, BitVec.toNat_and]
    exact (Nat.and_two_pow_sub_one_eq_mod x.toNat 8).symm
  have hbits : ∀ j < 32, (255#32).getLsbD j = decide (j < 8) := by decide
  by_cases h : i < 32
  · rw [hmask, BitVec.getLsbD_and, hbits i h]
  · rw [BitVec.getLsbD_of_ge _ i (by omega), BitVec.getLsbD_of_ge _ i (by omega), Bool.false_and]

theorem bytes_of_uint32 (x : UInt32) :
    (x >>> 24).toUInt8.toUInt32 <<< 24 ||| (x >>> 16).toUInt8.toUInt32 <<< 16 |||
      (x >>> 8).toUInt8.toUInt32 <<< 8 ||| x.toUInt8.toUInt32 = x := by
  apply UInt32.toBitVec_inj.mp
  apply BitVec.eq_of_getLsbD_eq
  intro i hi
  have hshift : ∀ n, (x.toBitVec >>> n).getLsbD (i - n) = x.toBitVec.getLsbD (n + (i - n)) :=
    fun n => BitVec.getLsbD_ushiftRight ..
  have hbyte : i < 8 ∨ (8 ≤ i ∧ i < 16) ∨ (16 ≤ i ∧ i < 24) ∨ 24 ≤ i := by omega
  rcases hbyte with h | ⟨h, h'⟩ | ⟨h, h'⟩ | h
  · have h1 : i < 16 := by omega
    have h2 : i < 24 := by omega
    simp [getLsbD_low_byte, h, h1, h2]
  · have h1 : ¬ i < 8 := by omega
    have h2 : i < 24 := by omega
    have h3 : i - 8 < 8 := by omega
    have h4 : 8 + (i - 8) = i := by omega
    simp [-BitVec.getLsbD_eq_getElem, getLsbD_low_byte, hshift, h', h1, h2, h3, h4, hi]
  · have h1 : ¬ i < 8 := by omega
    have h2 : ¬ i < 16 := by omega
    have h3 : i - 16 < 8 := by omega
    have h4 : ¬ i - 8 < 8 := by omega
    have h5 : 16 + (i - 16) = i := by omega
    simp [-BitVec.getLsbD_eq_getElem, getLsbD_low_byte, hshift, h', h1, h2, h3, h4, h5, hi]
  · have h1 : ¬ i < 8 := by omega
    have h2 : ¬ i < 16 := by omega
    have h3 : ¬ i < 24 := by omega
    have h4 : ¬ i - 8 < 8 := by omega
    have h5 : ¬ i - 16 < 8 := by omega
    have h6 : i - 24 < 8 := by omega
    have h7 : 24 + (i - 24) = i := by omega
    simp [-BitVec.getLsbD_eq_getElem, getLsbD_low_byte, hshift, h1, h2, h3, h4, h5, h6, h7, hi]

theorem be32_put32 {d : Bytes} {i : ℕ} (h : i + 4 ≤ d.length) (x : UInt32) :
    be32 (put32 d i x) i = x := by
  unfold be32 put32
  rw [getD_set_self (by simp; omega), getD_set_of_ne _ (by omega), getD_set_of_ne _ (by omega),
    getD_set_of_ne _ (by omega), getD_set_self (by omega), getD_set_of_ne _ (by omega),
    getD_set_of_ne _ (by omega), getD_set_self (by simp; omega), getD_set_of_ne _ (by omega),
    getD_set_self (by simp; omega)]
  exact bytes_of_uint32 x

theorem bytes_of_uint16 (x : UInt16) :
    (x >>> 8).toUInt8.toUInt16 <<< 8 ||| x.toUInt8.toUInt16 = x := by
  have hx := x.toNat_lt
  apply UInt16.toNat_inj.mp
  simp only [UInt16.toNat_or, UInt16.toNat_shiftLeft, UInt8.toNat_toUInt16, UInt16.toNat_toUInt8,
    UInt16.toNat_shiftRight, Nat.shiftRight_eq_div_pow, show UInt16.toNat 8 % 16 = 8 from rfl]
  have hhi : (x.toNat / 2 ^ 8 % 2 ^ 8) <<< 8 < 2 ^ 16 := by rw [Nat.shiftLeft_eq]; omega
  rw [Nat.mod_eq_of_lt hhi, ← Nat.shiftLeft_add_eq_or_of_lt (by omega), Nat.shiftLeft_eq]
  omega

theorem be16_put16 {d : Bytes} {i : ℕ} (h : i + 2 ≤ d.length) (x : UInt16) :
    be16 (put16 d i x) i = x := by
  unfold be16 put16
  rw [getD_set_of_ne _ (by omega), getD_set_self (by omega), getD_set_self (by simp; omega)]
  exact bytes_of_uint16 x

/-! ## Checksums -/

/-- `for (i = start; …; i += 2) sum += word(i)`, `n` times. -/
def wordSum (d : Bytes) (start n : ℕ) (sum : UInt32) : UInt32 :=
  (List.range n).foldl (fun sum k => sum + (be16 d (start + 2 * k)).toUInt32) sum

theorem carry_toNat (sum : UInt32) :
    ((sum &&& (0xFFFF : UInt32)) + (sum >>> 16)).toNat = sum.toNat % 65536 + sum.toNat / 65536 := by
  have hlow : sum.toNat &&& 65535 = sum.toNat % 65536 := Nat.and_two_pow_sub_one_eq_mod sum.toNat 16
  have hhigh : sum.toNat >>> 16 = sum.toNat / 65536 := Nat.shiftRight_eq_div_pow sum.toNat 16
  have hlt := sum.toNat_lt
  simp only [UInt32.toNat_add, UInt32.toNat_and, UInt32.toNat_shiftRight, UInt32.reduceToNat,
    Nat.reduceMod, hlow, hhigh]
  omega

theorem carry_lt {sum : UInt32} (h : ¬ sum >>> 16 = 0) :
    ((sum &&& (0xFFFF : UInt32)) + (sum >>> 16)).toNat < sum.toNat := by
  have hhigh : ¬ sum.toNat / 65536 = 0 := by
    intro hzero
    apply h
    apply UInt32.toNat_inj.mp
    rw [UInt32.toNat_shiftRight]
    exact (Nat.shiftRight_eq_div_pow sum.toNat 16).trans hzero
  rw [carry_toNat]
  omega

/-- `while (sum >> 16) sum = (sum & 0xFFFF) + (sum >> 16)`. -/
def foldCarry (sum : UInt32) : UInt32 :=
  if sum >>> 16 = 0 then sum else foldCarry ((sum &&& (0xFFFF : UInt32)) + (sum >>> 16))
termination_by sum.toNat
decreasing_by
  exact carry_lt ‹_›

/-- The IP header checksum (lines 133–141 and 356–364). -/
def ipChecksum (buf : Bytes) : Bytes :=
  let buf := put16 buf 10 0
  put16 buf 10 (~~~ (foldCarry (wordSum buf 0 10 0)).toUInt16)

/-- The TCP checksum (lines 147–168 and 369–388). An odd last byte is padded. -/
def tcpChecksum (buf : Bytes) : Bytes :=
  let buf := put16 buf 36 0
  let tcpLen := UInt16.ofNat (buf.length - 20)
  let sum := wordSum buf 12 4 0 + (buf.getD 9 0).toUInt32 + tcpLen.toUInt32
  let sum := wordSum buf 20 ((buf.length - 20 + 1) / 2) sum
  put16 buf 36 (~~~ (foldCarry sum).toUInt16)

@[simp] theorem ipChecksum_length (buf : Bytes) : (ipChecksum buf).length = buf.length := by
  simp [ipChecksum]

theorem be32_ipChecksum (buf : Bytes) {j : ℕ} (h : j + 4 ≤ 10 ∨ 12 ≤ j) :
    be32 (ipChecksum buf) j = be32 buf j := by
  unfold ipChecksum
  rw [be32_put16 _ _ h, be32_put16 _ _ h]

theorem be32_tcpChecksum (buf : Bytes) {j : ℕ} (h : j + 4 ≤ 36 ∨ 38 ≤ j) :
    be32 (tcpChecksum buf) j = be32 buf j := by
  unfold tcpChecksum
  rw [be32_put16 _ _ h, be32_put16 _ _ h]

/-! ## Rewriting -/

/-- 198.18.0.2, the address of `g_netif`. -/
def netifIP : UInt32 := 0xC6120002

/-- `IPPROTO_TCP`. -/
def protoTCP : Byte := 6

/-- The checksums after a change of address. -/
def renewChecksums (buf : Bytes) : Bytes :=
  let buf := ipChecksum buf
  if buf.getD 9 0 = protoTCP ∧ 40 ≤ buf.length then tcpChecksum buf else buf

/-- The packet `lwip_bridge_input` hands to lwIP (lines 350–389). -/
def rewriteInput (data : Bytes) : Bytes := renewChecksums (put32 data 16 netifIP)

/-- The address `netif_output` looks up for a packet, zero if there is none
(lines 112–125). -/
def outputSource (nat : NatTable) (buf : Bytes) : UInt32 :=
  let dstIP := be32 buf 16
  let dcIP := if 40 ≤ buf.length then natLookup nat dstIP (be16 buf 22) else 0
  if dcIP = 0 then natLookup nat dstIP 0 else dcIP

/-- The packet `netif_output` hands to `g_output` (lines 108–175). -/
def rewriteOutput (nat : NatTable) (buf : Bytes) : Bytes :=
  if 20 ≤ buf.length ∧ be32 buf 12 = netifIP then
    let dcIP := outputSource nat buf
    if dcIP = 0 then buf else renewChecksums (put32 buf 12 dcIP)
  else buf

theorem be32_renewChecksums (buf : Bytes) : be32 (renewChecksums buf) 12 = be32 buf 12 := by
  have hip := be32_ipChecksum buf (j := 12) (Or.inr (le_refl _))
  unfold renewChecksums
  dsimp only
  split_ifs
  · rw [be32_tcpChecksum _ (Or.inl (by omega)), hip]
  · exact hip

/-- The source address of a packet of lwIP's after `netif_output`. -/
theorem rewriteOutput_source (nat : NatTable) {buf : Bytes} (hlen : 20 ≤ buf.length)
    (hsrc : be32 buf 12 = netifIP) :
    be32 (rewriteOutput nat buf) 12 =
      if outputSource nat buf = 0 then netifIP else outputSource nat buf := by
  unfold rewriteOutput
  rw [if_pos ⟨hlen, hsrc⟩]
  dsimp only
  split_ifs with h
  · exact hsrc
  · rw [be32_renewChecksums, be32_put32 (by omega)]

/-! ## What the packets say -/

/-- The key `lwip_bridge_input` files a packet under: the source address, and
the bytes where the TCP source port is when the IP header has no options
(lines 342–344). -/
def natKey (data : Bytes) : ClientKey := (be32 data 12, be16 data 20)

/-- The destination the client gave a packet (lines 340–341). -/
def origDst (data : Bytes) : UInt32 := be32 data 16

/-- The length of the IP header. -/
def headerLen (data : Bytes) : ℕ := 4 * ((data.getD 0 0).toNat % 16)

/-- The client's address and TCP port, as lwIP reads them. -/
def tcpSource (data : Bytes) : ClientKey := (be32 data 12, be16 data (headerLen data))

/-- The TCP destination port, as lwIP reads it. -/
def tcpDestPort (data : Bytes) : UInt16 := be16 data (headerLen data + 2)

/-! ## Packets without data -/

/-- An IP and a TCP header without options, addresses, ports and checksums. -/
def tcpHeader (flags : Byte) : Bytes :=
  [0x45, 0, 0, 40, 0, 0, 0, 0, 255, protoTCP, 0, 0] ++ List.replicate 20 0 ++
    [0x50, flags, 0xFF, 0xFF, 0, 0, 0, 0]

/-- A packet without data between two endpoints, for the sample runs. -/
def tcpPacket (flags : Byte) (src dst : UInt32 × UInt16) : Bytes :=
  put16 (put16 (put32 (put32 (tcpHeader flags) 12 src.1) 16 dst.1) 20 src.2) 22 dst.2

section

variable (flags : Byte) (src dst : UInt32 × UInt16)

theorem tcpPacket_length : (tcpPacket flags src dst).length = 40 := by
  simp [tcpPacket, tcpHeader]

theorem tcpPacket_proto : (tcpPacket flags src dst).getD 9 0 = protoTCP := by
  unfold tcpPacket
  rw [getD_put16 _ _ (by omega), getD_put16 _ _ (by omega), getD_put32 _ _ (by omega),
    getD_put32 _ _ (by omega)]
  rfl

theorem tcpPacket_source : be32 (tcpPacket flags src dst) 12 = src.1 := by
  unfold tcpPacket
  rw [be32_put16 _ _ (by omega), be32_put16 _ _ (by omega), be32_put32_of_ne _ _ (by omega)]
  apply be32_put32
  simp [tcpHeader]

theorem tcpPacket_dest : be32 (tcpPacket flags src dst) 16 = dst.1 := by
  unfold tcpPacket
  rw [be32_put16 _ _ (by omega), be32_put16 _ _ (by omega)]
  apply be32_put32
  simp [tcpHeader]

theorem tcpPacket_destPort : be16 (tcpPacket flags src dst) 22 = dst.2 := by
  unfold tcpPacket
  apply be16_put16
  simp [tcpHeader]

end

end WSBridge
