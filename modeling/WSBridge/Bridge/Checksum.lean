import WSBridge.Foundation.OnesComplement
import WSBridge.Bridge.Packet

/-!
# The two checksums

What a receiver adds up to check a packet: the words of its IP header, and the
words of the pseudo-header and of the TCP segment, an odd last byte padded. The
loops of `lwip_bridge_input` and `netif_output` compute the complements in
`uint32_t` accumulators, for a header of 20 bytes.

Results:
* `wordSum_exact`, `foldCarry_toNat`: the loops, as sums of natural numbers.
* `ipChecksum_checks`, `tcpChecksum_checks`: the fields the loops fill check.
* `sumsExact_of_length`: no accumulator overflows.
* `readdressed`: a packet with a new address and new checksums.
-/

namespace WSBridge

open WSBridge.Foundation

/-! ## What a receiver checks -/

/-- The 16-bit words of a packet from a byte on. -/
def words (d : Bytes) (start : ℕ) : ℕ → ℕ := fun k => (be16 d (start + 2 * k)).toNat

/-- The pseudo-header: both addresses, the protocol and the length of the
segment, which begins at `start`. -/
def pseudoHeader (d : Bytes) (start : ℕ) : ℕ :=
  total (words d 12) 4 + (d.getD 9 0).toNat + (d.length - start)

/-- The pseudo-header and the segment. -/
def segmentTotal (d : Bytes) (start : ℕ) : ℕ :=
  pseudoHeader d start + total (words d start) ((d.length - start + 1) / 2)

/-- The checksum of the IP header verifies. -/
def HeaderChecks (d : Bytes) : Prop :=
  endAround 65536 (total (words d 0) (headerLen d / 2)) = 0xFFFF

/-- The TCP checksum verifies. -/
def SegmentChecks (d : Bytes) : Prop := endAround 65536 (segmentTotal d (headerLen d)) = 0xFFFF

theorem words_lt (d : Bytes) (start k : ℕ) : words d start k < 65536 := UInt16.toNat_lt _

theorem words_add (d : Bytes) (start m : ℕ) :
    (fun k => words d start (m + k)) = words d (start + 2 * m) := by
  funext k
  unfold words
  congr 2
  omega

/-- The words of a row that begins in another. -/
theorem total_words_add (d : Bytes) (start m n : ℕ) :
    total (words d start) (m + n) =
      total (words d start) m + total (words d (start + 2 * m)) n := by
  rw [total_add, words_add]

theorem words_congr {d d' : Bytes} {start k : ℕ}
    (hhi : d'.getD (start + 2 * k) 0 = d.getD (start + 2 * k) 0)
    (hlo : d'.getD (start + 2 * k + 1) 0 = d.getD (start + 2 * k + 1) 0) :
    words d' start k = words d start k := by
  unfold words be16
  rw [hhi, hlo]

theorem words_put16_of_ne (d : Bytes) {i start k : ℕ} (x : UInt16)
    (h : start + 2 * k + 2 ≤ i ∨ i + 2 ≤ start + 2 * k) :
    words (put16 d i x) start k = words d start k :=
  words_congr (getD_put16 d x (by omega)) (getD_put16 d x (by omega))

/-- A word of the row is overwritten. -/
theorem words_put16 {d : Bytes} {start k : ℕ} (h : start + 2 * k + 2 ≤ d.length) (x : UInt16) :
    words (put16 d (start + 2 * k) x) start = Function.update (words d start) k x.toNat := by
  funext j
  by_cases hj : j = k
  · subst hj
    rw [Function.update_self]
    exact congrArg UInt16.toNat (be16_put16 h x)
  · rw [Function.update_of_ne hj]
    exact words_put16_of_ne d x (by omega)

/-! ## The loops -/

theorem toNat_add_word (sum : UInt32) (w : UInt16) :
    (sum + w.toUInt32).toNat = (sum.toNat + w.toNat) % 2 ^ 32 := by
  rw [UInt32.toNat_add, UInt16.toNat_toUInt32]

theorem wordSum_succ (d : Bytes) (start n : ℕ) (sum : UInt32) :
    wordSum d start (n + 1) sum = wordSum d start n sum + (be16 d (start + 2 * n)).toUInt32 := by
  unfold wordSum
  rw [List.range_succ, List.foldl_append]
  rfl

/-- The accumulator has the exact sum, as long as that fits. -/
theorem wordSum_exact {d : Bytes} {start n : ℕ} {sum : UInt32}
    (h : sum.toNat + total (words d start) n < 2 ^ 32) :
    (wordSum d start n sum).toNat = sum.toNat + total (words d start) n := by
  induction n with
  | zero => rfl
  | succ n ih =>
    rw [total_succ] at h ⊢
    rw [wordSum_succ, toNat_add_word, ih (by omega)]
    have hword : words d start n = (be16 d (start + 2 * n)).toNat := rfl
    rw [hword] at h ⊢
    rw [Nat.mod_eq_of_lt (by omega)]
    omega

theorem shiftRight_16_eq_zero (sum : UInt32) : sum >>> 16 = 0 ↔ sum.toNat < 65536 := by
  rw [← UInt32.toNat_inj, UInt32.toNat_shiftRight]
  show sum.toNat >>> 16 = 0 ↔ _
  rw [Nat.shiftRight_eq_div_pow]
  omega

theorem foldCarry_toNat (sum : UInt32) : (foldCarry sum).toNat = endAround 65536 sum.toNat := by
  induction sum using foldCarry.induct with
  | case1 sum h =>
    rw [foldCarry, if_pos h, endAround_of_lt ((shiftRight_16_eq_zero sum).mp h)]
  | case2 sum h ih =>
    have hle : 65536 ≤ sum.toNat := Nat.not_lt.mp fun hlt => h ((shiftRight_16_eq_zero sum).mpr hlt)
    rw [foldCarry, if_neg h, ih, carry_toNat, endAround_of_le (by omega) hle]

/-- `(uint16_t)~sum`, after the fold. -/
theorem complement_toNat (sum : UInt32) :
    (~~~ (foldCarry sum).toUInt16).toNat = 65536 - 1 - endAround 65536 sum.toNat := by
  have hlt := endAround_lt (r := 65536) (by omega) sum.toNat
  have hnot : ∀ x : UInt16, (~~~ x).toNat = 65536 - 1 - x.toNat := UInt16.toNat_not
  rw [hnot, UInt32.toNat_toUInt16, foldCarry_toNat]
  omega

/-- With the complement of its sum in the field at `k`, a row checks, and what
was summed with it. -/
theorem put_complement_checks {d : Bytes} {start k n s : ℕ} {sum : UInt32}
    (hlen : start + 2 * k + 2 ≤ d.length) (hk : k < n) (hzero : words d start k = 0)
    (hsum : sum.toNat = s + total (words d start) n) :
    endAround 65536 (s + total
      (words (put16 d (start + 2 * k) (~~~ (foldCarry sum).toUInt16)) start) n) = 65535 := by
  rw [words_put16 hlen, complement_toNat, hsum]
  exact endAround_total_update (by omega) hk hzero s

/-! ## The fields they fill -/

theorem getD_ipChecksum (d : Bytes) {j : ℕ} (h : j < 10 ∨ 12 ≤ j) :
    (ipChecksum d).getD j 0 = d.getD j 0 := by
  unfold ipChecksum
  rw [getD_put16 _ _ h, getD_put16 _ _ h]

theorem getD_tcpChecksum (d : Bytes) {j : ℕ} (h : j < 36 ∨ 38 ≤ j) :
    (tcpChecksum d).getD j 0 = d.getD j 0 := by
  unfold tcpChecksum
  rw [getD_put16 _ _ h, getD_put16 _ _ h]

@[simp] theorem tcpChecksum_length (d : Bytes) : (tcpChecksum d).length = d.length := by
  simp [tcpChecksum]

theorem total_words_le (d : Bytes) (start n : ℕ) : total (words d start) n ≤ n * 65535 :=
  total_le (words_lt d start) n

/-- The first 20 bytes check. -/
theorem ipChecksum_checks {d : Bytes} (h : 20 ≤ d.length) :
    endAround 65536 (total (words (ipChecksum d) 0) 10) = 65535 := by
  have hlen : 0 + 2 * 5 + 2 ≤ (put16 d 10 0).length := by
    rw [put16_length]
    omega
  have hzero : words (put16 d 10 0) 0 5 = 0 :=
    congrArg UInt16.toNat (be16_put16 (i := 10) (by omega) 0)
  have hbound := total_words_le (put16 d 10 0) 0 10
  have hsum : (wordSum (put16 d 10 0) 0 10 0).toNat = 0 + total (words (put16 d 10 0) 0) 10 :=
    @wordSum_exact (put16 d 10 0) 0 10 0 (by simp only [UInt32.toNat_zero]; omega)
  have hchecks := put_complement_checks hlen (by omega) hzero hsum
  rwa [Nat.zero_add] at hchecks

/-- The accumulator of the TCP checksum before the loop (lines 150–158 and
370–378). -/
def tcpStart (d : Bytes) : UInt32 :=
  wordSum d 12 4 0 + (d.getD 9 0).toUInt32 + (UInt16.ofNat (d.length - 20)).toUInt32

theorem tcpStart_toNat {d : Bytes} (h : d.length < 65536) :
    (tcpStart d).toNat = pseudoHeader d 20 := by
  have hbound := total_words_le d 12 4
  have hproto : (d.getD 9 0).toNat < 256 := UInt8.toNat_lt _
  have hsum : (wordSum d 12 4 0).toNat = 0 + total (words d 12) 4 :=
    @wordSum_exact d 12 4 0 (by simp only [UInt32.toNat_zero]; omega)
  unfold tcpStart pseudoHeader
  rw [toNat_add_word, UInt32.toNat_add, hsum, UInt8.toNat_toUInt32, UInt16.toNat_ofNat']
  omega

theorem tcpChecksum_eq (d : Bytes) :
    tcpChecksum d = put16 (put16 d 36 0) 36 (~~~ (foldCarry (wordSum (put16 d 36 0) 20
      ((d.length - 20 + 1) / 2) (tcpStart (put16 d 36 0)))).toUInt16) := by
  unfold tcpChecksum tcpStart
  simp only [put16_length]

theorem pseudoHeader_congr {d d' : Bytes} (hlen : d'.length = d.length)
    (h : ∀ j < 20, d'.getD j 0 = d.getD j 0) (start : ℕ) :
    pseudoHeader d' start = pseudoHeader d start := by
  unfold pseudoHeader
  rw [hlen, h 9 (by omega),
    total_congr fun k hk => words_congr (h (12 + 2 * k) (by omega)) (h (12 + 2 * k + 1) (by omega))]

theorem segment_lt {d : Bytes} (h : d.length < 65536) :
    segmentTotal d 20 < 2 ^ 32 := by
  have hpseudo := total_words_le d 12 4
  have hsegment := total_words_le d 20 ((d.length - 20 + 1) / 2)
  have hproto : (d.getD 9 0).toNat < 256 := UInt8.toNat_lt _
  unfold segmentTotal pseudoHeader
  omega

/-- The pseudo-header and the bytes from 20 on check. -/
theorem tcpChecksum_checks {d : Bytes} (hge : 40 ≤ d.length) (hlt : d.length < 65536) :
    endAround 65536 (segmentTotal (tcpChecksum d) 20) = 65535 := by
  have hlen : (put16 d 36 0).length = d.length := put16_length d 36 0
  have hfield : 20 + 2 * 8 + 2 ≤ (put16 d 36 0).length := by omega
  have hzero : words (put16 d 36 0) 20 8 = 0 :=
    congrArg UInt16.toNat (be16_put16 (i := 36) (by omega) 0)
  have hstart := tcpStart_toNat (d := put16 d 36 0) (by omega)
  have hbound := segment_lt (d := put16 d 36 0) (by omega)
  unfold segmentTotal at hbound
  rw [hlen] at hbound
  have hsum := @wordSum_exact (put16 d 36 0) 20 ((d.length - 20 + 1) / 2)
    (tcpStart (put16 d 36 0)) (by rw [hstart]; exact hbound)
  rw [hstart] at hsum
  have hpseudo : pseudoHeader (tcpChecksum d) 20 = pseudoHeader (put16 d 36 0) 20 := by
    refine pseudoHeader_congr ((tcpChecksum_length d).trans hlen.symm) (fun j hj => ?_) 20
    rw [getD_tcpChecksum d (by omega), getD_put16 d _ (by omega)]
  unfold segmentTotal
  rw [hpseudo, tcpChecksum_length, tcpChecksum_eq]
  have hchecks := put_complement_checks hfield
    (show 8 < (d.length - 20 + 1) / 2 by omega) hzero hsum
  exact hchecks

/-! ## Overflow -/

/-- The accumulators of the two loops over a packet with its new address hold the
exact sums, at every turn. -/
structure SumsExact (d : Bytes) : Prop where
  ip : ∀ n ≤ 10, (wordSum (put16 d 10 0) 0 n 0).toNat = total (words (put16 d 10 0) 0) n
  start : (tcpStart (put16 (ipChecksum d) 36 0)).toNat = pseudoHeader (put16 (ipChecksum d) 36 0) 20
  tcp : ∀ n ≤ (d.length - 20 + 1) / 2,
    (wordSum (put16 (ipChecksum d) 36 0) 20 n (tcpStart (put16 (ipChecksum d) 36 0))).toNat =
      pseudoHeader (put16 (ipChecksum d) 36 0) 20 + total (words (put16 (ipChecksum d) 36 0) 20) n

theorem sumsExact_of_length {d : Bytes} (h : d.length < 65536) : SumsExact d := by
  have hlen : (put16 (ipChecksum d) 36 0).length = d.length := by
    rw [put16_length, ipChecksum_length]
  have hstart := tcpStart_toNat (d := put16 (ipChecksum d) 36 0) (by omega)
  refine ⟨fun n hn => ?_, hstart, fun n hn => ?_⟩
  · have hbound := total_words_le (put16 d 10 0) 0 n
    have hsum := @wordSum_exact (put16 d 10 0) 0 n 0 (by simp only [UInt32.toNat_zero]; omega)
    rw [hsum, UInt32.toNat_zero, Nat.zero_add]
  · have hpseudo := total_words_le (put16 (ipChecksum d) 36 0) 12 4
    have hsegment := total_words_le (put16 (ipChecksum d) 36 0) 20 n
    have hproto : ((put16 (ipChecksum d) 36 0).getD 9 0).toNat < 256 := UInt8.toNat_lt _
    rw [wordSum_exact, hstart]
    rw [hstart]
    unfold pseudoHeader
    omega

/-! ## A new address -/

/-- `after` is the packet `before` with `ip` as the address at `addr` and new
checksums. -/
structure Readdressed (before : Bytes) (addr : ℕ) (ip : UInt32) (after : Bytes) : Prop where
  length : after.length = before.length
  address : be32 after addr = ip
  frame : ∀ j, j < addr ∨ addr + 4 ≤ j → j < 10 ∨ 12 ≤ j →
    j < headerLen before + 16 ∨ headerLen before + 18 ≤ j → after.getD j 0 = before.getD j 0
  header : HeaderChecks after
  segment : SegmentChecks after

theorem headerLen_congr {d d' : Bytes} (h : d'.getD 0 0 = d.getD 0 0) :
    headerLen d' = headerLen d := by
  unfold headerLen
  rw [h]

theorem renewChecksums_tcp {d : Bytes} (hproto : d.getD 9 0 = protoTCP) (hlen : 40 ≤ d.length) :
    renewChecksums d = tcpChecksum (ipChecksum d) := by
  unfold renewChecksums
  dsimp only
  rw [getD_ipChecksum d (by omega), ipChecksum_length, if_pos ⟨hproto, hlen⟩]

/-- With new checksums the first 20 bytes check, and so do the pseudo-header and
the bytes after them. -/
theorem renewChecksums_checks {d : Bytes} (hproto : d.getD 9 0 = protoTCP) (hge : 40 ≤ d.length)
    (hlt : d.length < 65536) :
    endAround 65536 (total (words (renewChecksums d) 0) 10) = 65535 ∧
      endAround 65536 (segmentTotal (renewChecksums d) 20) = 65535 := by
  rw [renewChecksums_tcp hproto hge]
  constructor
  · rw [total_congr fun k hk => words_congr (getD_tcpChecksum (ipChecksum d) (by omega))
      (getD_tcpChecksum (ipChecksum d) (by omega))]
    exact ipChecksum_checks (by omega)
  · refine tcpChecksum_checks ?_ ?_
    · rwa [ipChecksum_length]
    · rwa [ipChecksum_length]

/-- A packet without IP options gets a new source or destination. -/
theorem readdressed {before : Bytes} {addr : ℕ} (haddr : addr = 12 ∨ addr = 16) (ip : UInt32)
    (hproto : before.getD 9 0 = protoTCP) (hge : 40 ≤ before.length) (hlt : before.length < 65536)
    (hheader : headerLen before = 20) :
    Readdressed before addr ip (renewChecksums (put32 before addr ip)) := by
  have hlen := put32_length before addr ip
  have hproto' : (put32 before addr ip).getD 9 0 = protoTCP := by
    rw [getD_put32 before ip (by omega), hproto]
  obtain ⟨hip, htcp⟩ := renewChecksums_checks hproto' (by omega) (by omega)
  have hrenew := renewChecksums_tcp hproto' (by omega)
  have hafter : headerLen (renewChecksums (put32 before addr ip)) = 20 := by
    rw [← hheader, hrenew]
    apply headerLen_congr
    rw [getD_tcpChecksum _ (by omega), getD_ipChecksum _ (by omega), getD_put32 _ _ (by omega)]
  refine ⟨?_, ?_, fun j haddr' hj hj' => ?_, ?_, ?_⟩
  · rw [hrenew, tcpChecksum_length, ipChecksum_length, hlen]
  · rw [hrenew, be32_tcpChecksum _ (by omega), be32_ipChecksum _ (by omega),
      be32_put32 (by omega)]
  · rw [hheader] at hj'
    rw [hrenew, getD_tcpChecksum _ (by omega), getD_ipChecksum _ (by omega),
      getD_put32 _ _ (by omega)]
  · unfold HeaderChecks
    rw [hafter]
    exact hip
  · unfold SegmentChecks
    rw [hafter]
    exact htcp

end WSBridge
