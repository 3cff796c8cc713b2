import WSBridge.Upstream.MsgSplitter

/-!
# The splitter on any stream

What a splitter does to a stream that comes in any chunks, well formed or not,
against a parse of the whole decrypted stream whose headers are read as the
transports define them.

`splitChecked` is `split` with the bounds checks of Swift: `none` where an index
or a range of `cipherBuf` or `plainBuf` is out of bounds.

Results:
* `packetFraming_eq`: the code reads the headers of the transports.
* `splitChecked_eq`: no check fails while the buffers have equal lengths.
* `splitAll_spec`: the parts returned, the buffers and the `disabled` flag after
  any row of chunks.
-/

namespace WSBridge

open WSBridge.Foundation

/-! ## Headers -/

/-- The length of a packet header, and the payload length it announces. -/
structure Header where
  length : ℕ
  payload : ℕ
  deriving DecidableEq, Repr

namespace Transport

/-- The transport of a tag. -/
def ofTag? (protoTag : UInt32) : Option Transport :=
  [abridged, intermediate, paddedIntermediate].find? fun t => t.tag = protoTag

/-- An abridged header: a byte of payload words, or 127 and three bytes of them.
The top bit of the first byte is the client's. -/
def abridgedHeader? : Bytes → Option Header
  | [] => none
  | b :: plain =>
    if b.toNat % 128 < 127 then some ⟨1, 4 * (b.toNat % 128)⟩
    else
      match plain with
      | b0 :: b1 :: b2 :: _ =>
        some ⟨4, 4 * (b0.toNat + 2 ^ 8 * b1.toNat + 2 ^ 16 * b2.toNat)⟩
      | _ => none

/-- An intermediate header: four bytes of payload length, whose top bit is the
client's. -/
def intermediateHeader? : Bytes → Option Header
  | b0 :: b1 :: b2 :: b3 :: _ =>
    some ⟨4, (b0.toNat + 2 ^ 8 * b1.toNat + 2 ^ 16 * b2.toNat + 2 ^ 24 * b3.toNat) % 2 ^ 31⟩
  | _ => none

/-- The header at the front of a plaintext, once all of it is there. -/
def header? : Transport → Bytes → Option Header
  | abridged => abridgedHeader?
  | intermediate | paddedIntermediate => intermediateHeader?

end Transport

/-- The length of the packet at the front of a plaintext: `none` while it is not
complete, 0 where the tag names no transport or the header announces nothing. -/
def referenceLen (protoTag : UInt32) (plain : Bytes) : Option ℕ :=
  if plain = [] then none
  else
    match Transport.ofTag? protoTag with
    | none => some 0
    | some t =>
      match t.header? plain with
      | none => none
      | some h =>
        if h.payload = 0 then some 0
        else if plain.length < h.length + h.payload then none
        else some (h.length + h.payload)

/-- No packet can begin a plaintext: the tag names no transport, or the header
announces nothing. -/
def Malformed (protoTag : UInt32) (plain : Bytes) : Prop :=
  plain ≠ [] ∧
    ∀ t, Transport.ofTag? protoTag = some t → ∃ h, t.header? plain = some h ∧ h.payload = 0

theorem referenceLen_eq_zero_iff (protoTag : UInt32) (plain : Bytes) :
    referenceLen protoTag plain = some 0 ↔ Malformed protoTag plain := by
  unfold referenceLen Malformed
  split_ifs with hne
  · simp [hne]
  · cases Transport.ofTag? protoTag with
    | none => simp [hne]
    | some t =>
      cases hheader : t.header? plain with
      | none => simp [hne, hheader]
      | some h =>
        by_cases hzero : h.payload = 0
        · simp [hne, hheader, hzero]
        · simp only [hheader, hzero, if_false]
          split_ifs
          · simp [hheader, hzero]
          · simp [hheader, hzero]

namespace MsgSplitter

/-! ## The code reads these headers -/

theorem long_iff (b : Byte) : (b = 0x7F ∨ b = 0xFF) ↔ ¬ b.toNat % 128 < 127 := by
  have hlt := b.toNat_lt
  rw [← UInt8.toNat_inj, ← UInt8.toNat_inj, show (0x7F : Byte).toNat = 127 from rfl,
    show (0xFF : Byte).toNat = 255 from rfl]
  omega

theorem toNat_and_7F (b : Byte) : (b &&& 0x7F).toNat = b.toNat % 128 := by
  rw [UInt8.toNat_and]
  exact Nat.and_two_pow_sub_one_eq_mod b.toNat 7

theorem bytes24 (b0 b1 b2 : Byte) :
    b0.toNat ||| b1.toNat <<< 8 ||| b2.toNat <<< 16 =
      b0.toNat + 2 ^ 8 * b1.toNat + 2 ^ 16 * b2.toNat := by
  have h0 := b0.toNat_lt
  have h1 := b1.toNat_lt
  rw [or_shiftLeft_eq_add (n := 8) (by omega), or_shiftLeft_eq_add (n := 16) (by omega)]

theorem bytes32 (b0 b1 b2 b3 : Byte) :
    b0.toNat ||| b1.toNat <<< 8 ||| b2.toNat <<< 16 ||| b3.toNat <<< 24 =
      b0.toNat + 2 ^ 8 * b1.toNat + 2 ^ 16 * b2.toNat + 2 ^ 24 * b3.toNat := by
  have h0 := b0.toNat_lt
  have h1 := b1.toNat_lt
  have h2 := b2.toNat_lt
  rw [bytes24, or_shiftLeft_eq_add (n := 24) (by omega)]

theorem nextAbridgedLen_eq {plain : Bytes} (hne : plain ≠ []) :
    nextAbridgedLen plain 0 plain.length = (Transport.abridgedHeader? plain).bind fun h =>
      checkAvail h.length h.payload plain.length := by
  cases plain with
  | nil => exact absurd rfl hne
  | cons b plain =>
    have hfirst : (b :: plain).getD 0 0 = b := rfl
    unfold nextAbridgedLen
    simp only [hfirst]
    by_cases hshort : b.toNat % 128 < 127
    · have hlong : ¬ (b = 0x7F ∨ b = 0xFF) := fun h => (long_iff b).mp h hshort
      rw [if_neg hlong, toNat_and_7F, mul_comm]
      unfold Transport.abridgedHeader?
      dsimp only
      rw [if_pos hshort]
      rfl
    · rw [if_pos ((long_iff b).mpr hshort)]
      unfold Transport.abridgedHeader?
      dsimp only
      rw [if_neg hshort]
      match plain with
      | [] | [_] | [_, _] => rfl
      | b0 :: b1 :: b2 :: rest =>
        have hlen : ¬ (b :: b0 :: b1 :: b2 :: rest).length < 4 := by simp
        rw [if_neg hlen]
        have hbytes := bytes24 b0 b1 b2
        show checkAvail 4 ((b0.toNat ||| b1.toNat <<< 8 ||| b2.toNat <<< 16) * 4) _ = _
        rw [hbytes, mul_comm]
        rfl

theorem nextIntermediateLen_eq (plain : Bytes) :
    nextIntermediateLen plain 0 plain.length = (Transport.intermediateHeader? plain).bind fun h =>
      checkAvail h.length h.payload plain.length := by
  unfold nextIntermediateLen
  match plain with
  | [] | [_] | [_, _] | [_, _, _] => rfl
  | b0 :: b1 :: b2 :: b3 :: rest =>
    have hlen : ¬ (b0 :: b1 :: b2 :: b3 :: rest).length < 4 := by simp
    rw [if_neg hlen]
    show checkAvail 4 ((b0.toNat ||| b1.toNat <<< 8 ||| b2.toNat <<< 16 ||| b3.toNat <<< 24) &&&
      0x7FFFFFFF) _ = _
    rw [bytes32, show (0x7FFFFFFF : ℕ) = 2 ^ 31 - 1 from rfl, Nat.and_two_pow_sub_one_eq_mod]
    rfl

/-- The announcements of the code are those of the transports. -/
theorem packetLen_eq (protoTag : UInt32) (plain : Bytes) :
    packetLen protoTag plain = referenceLen protoTag plain := by
  have hanswer {t : Transport} (ht : Transport.ofTag? protoTag = some t) (hne : plain ≠ []) :
      referenceLen protoTag plain = (t.header? plain).bind fun h =>
        checkAvail h.length h.payload plain.length := by
    unfold referenceLen checkAvail
    rw [if_neg hne, ht]
    dsimp only
    cases t.header? plain <;> rfl
  unfold packetLen nextPacketLen
  by_cases hne : plain = []
  · subst hne
    rfl
  rw [if_neg (mt List.length_eq_zero_iff.mp hne)]
  split_ifs with habridged hother
  · subst habridged
    rw [hanswer (t := .abridged) rfl hne, nextAbridgedLen_eq hne]
    rfl
  · rcases hother with rfl | rfl
    · rw [hanswer (t := .intermediate) rfl hne, nextIntermediateLen_eq]
      rfl
    · rw [hanswer (t := .paddedIntermediate) rfl hne, nextIntermediateLen_eq]
      rfl
  · have hnone : Transport.ofTag? protoTag = none := by
      obtain ⟨hintermediate, hpadded⟩ := not_or.mp hother
      refine List.find?_eq_none.mpr fun t _ => ?_
      rw [decide_eq_true_eq]
      cases t with
      | abridged => exact Ne.symm habridged
      | intermediate => exact Ne.symm hintermediate
      | paddedIntermediate => exact Ne.symm hpadded
    unfold referenceLen
    rw [if_neg hne, hnone]

/-- The framing of the transports. -/
def referenceFraming (protoTag : UInt32) : Framing Cell where
  len l := referenceLen protoTag (l.map Prod.snd)
  len_le h := by
    rw [← packetLen_eq] at h
    simpa using packetLen_le h
  len_append h r := by
    rw [← packetLen_eq] at h ⊢
    rw [List.map_append]
    exact packetLen_append h _

theorem packetFraming_eq (protoTag : UInt32) :
    packetFraming protoTag = referenceFraming protoTag := by
  have hlen : (packetFraming protoTag).len = (referenceFraming protoTag).len := by
    funext l
    exact packetLen_eq protoTag (l.map Prod.snd)
  unfold packetFraming referenceFraming at hlen ⊢
  congr

/-! ## Bounds checks -/

/-- `a[i...]`, and what `a.removeFirst(i)` leaves. -/
def from? (l : Bytes) (i : ℕ) : Option Bytes := if i ≤ l.length then some (l.drop i) else none

/-- `a[i..<j]`. -/
def slice? (l : Bytes) (i j : ℕ) : Option Bytes :=
  if i ≤ j ∧ j ≤ l.length then some ((l.drop i).take (j - i)) else none

/-- `nextAbridgedLen` (lines 80–98), every subscript checked. -/
def nextAbridgedLenChecked (plainBuf : Bytes) (offset avail : ℕ) : Option (Option ℕ) := do
  let first ← plainBuf[offset]?
  if first = 0x7F ∨ first = 0xFF then
    if avail < 4 then return none
    else
      let b1 ← plainBuf[offset + 1]?
      let b2 ← plainBuf[offset + 2]?
      let b3 ← plainBuf[offset + 3]?
      return checkAvail 4 ((b1.toNat ||| b2.toNat <<< 8 ||| b3.toNat <<< 16) * 4) avail
  else return checkAvail 1 ((first &&& 0x7F).toNat * 4) avail

/-- `nextIntermediateLen` (lines 100–110), every subscript checked. -/
def nextIntermediateLenChecked (plainBuf : Bytes) (offset avail : ℕ) : Option (Option ℕ) :=
  if avail < 4 then some none
  else do
    let b0 ← plainBuf[offset]?
    let b1 ← plainBuf[offset + 1]?
    let b2 ← plainBuf[offset + 2]?
    let b3 ← plainBuf[offset + 3]?
    return checkAvail 4 ((b0.toNat ||| b1.toNat <<< 8 ||| b2.toNat <<< 16 |||
      b3.toNat <<< 24) &&& 0x7FFFFFFF) avail

/-- `nextPacketLen` (lines 69–78), every subscript checked. -/
def nextPacketLenChecked (protoTag : UInt32) (plainBuf : Bytes) (offset avail : ℕ) :
    Option (Option ℕ) :=
  if avail = 0 then some none
  else if protoTag = 0xEFEFEFEF then nextAbridgedLenChecked plainBuf offset avail
  else if protoTag = 0xEEEEEEEE ∨ protoTag = 0xDDDDDDDD then
    nextIntermediateLenChecked plainBuf offset avail
  else some (some 0)

/-- The loop of `split`, every slice checked. -/
def splitLoopChecked (protoTag : UInt32) (cipherBuf plainBuf : Bytes) (offset : ℕ) :
    Option (List Bytes × ℕ × Bool) :=
  if offset < cipherBuf.length then
    match nextPacketLenChecked protoTag plainBuf offset (cipherBuf.length - offset) with
    | none => none
    | some none => some ([], offset, false)
    | some (some 0) => (from? cipherBuf offset).map fun part => ([part], cipherBuf.length, true)
    | some (some (n + 1)) =>
      match slice? cipherBuf offset (offset + (n + 1)) with
      | none => none
      | some part =>
        (splitLoopChecked protoTag cipherBuf plainBuf (offset + (n + 1))).map fun r =>
          (part :: r.1, r.2)
  else some ([], offset, false)
termination_by cipherBuf.length - offset

/-- `split` (lines 28–58), every slice and every `removeFirst` checked. -/
def splitChecked (ks : Keystream) (s : MsgSplitter) (chunk : Bytes) :
    Option (List Bytes × MsgSplitter) :=
  if chunk = [] then some ([], s)
  else if s.disabled then some ([chunk], s)
  else
    let cipherBuf := s.cipherBuf ++ chunk
    let (plain, cipher) := s.cipher.update ks chunk
    let plainBuf := match plain with
      | some plain => s.plainBuf ++ plain
      | none => s.plainBuf
    match splitLoopChecked s.protoTag cipherBuf plainBuf 0 with
    | none => none
    | some (parts, offset, disabled) => do
      let cipherBuf ← from? cipherBuf offset
      let plainBuf ← from? plainBuf offset
      return (parts, { s with cipher, cipherBuf, plainBuf, disabled })

theorem getElem?_eq_getD {l : Bytes} {i : ℕ} (h : i < l.length) : l[i]? = some (l.getD i 0) := by
  rw [List.getD_eq_getElem?_getD, List.getElem?_eq_getElem h]
  rfl

section

variable {plainBuf : Bytes} {offset avail : ℕ}

theorem nextAbridgedLenChecked_eq (hpos : 0 < avail) (h : offset + avail ≤ plainBuf.length) :
    nextAbridgedLenChecked plainBuf offset avail =
      some (nextAbridgedLen plainBuf offset avail) := by
  unfold nextAbridgedLenChecked nextAbridgedLen
  rw [getElem?_eq_getD (by omega)]
  simp only [Option.bind_eq_bind, Option.bind_some]
  split_ifs with hlong hshort
  · rfl
  · rw [getElem?_eq_getD (by omega), getElem?_eq_getD (by omega), getElem?_eq_getD (by omega)]
    rfl
  · rfl

theorem nextIntermediateLenChecked_eq (h : offset + avail ≤ plainBuf.length) :
    nextIntermediateLenChecked plainBuf offset avail =
      some (nextIntermediateLen plainBuf offset avail) := by
  unfold nextIntermediateLenChecked nextIntermediateLen
  split_ifs with hshort
  · rfl
  · rw [getElem?_eq_getD (by omega), getElem?_eq_getD (by omega), getElem?_eq_getD (by omega),
      getElem?_eq_getD (by omega)]
    rfl

theorem nextPacketLenChecked_eq (protoTag : UInt32) (h : offset + avail ≤ plainBuf.length) :
    nextPacketLenChecked protoTag plainBuf offset avail =
      some (nextPacketLen protoTag plainBuf offset avail) := by
  unfold nextPacketLenChecked nextPacketLen
  split_ifs with hzero
  · rfl
  · exact nextAbridgedLenChecked_eq (Nat.pos_of_ne_zero hzero) h
  · exact nextIntermediateLenChecked_eq h
  · rfl

end

/-- The loop stays inside buffers of equal lengths. -/
theorem splitLoopChecked_eq (protoTag : UInt32) {cipherBuf plainBuf : Bytes}
    (hlen : plainBuf.length = cipherBuf.length) (offset : ℕ) (hoffset : offset ≤ cipherBuf.length) :
    splitLoopChecked protoTag cipherBuf plainBuf offset =
        some (splitLoop protoTag cipherBuf plainBuf offset) ∧
      (splitLoop protoTag cipherBuf plainBuf offset).2.1 ≤ cipherBuf.length := by
  induction hk : cipherBuf.length - offset using Nat.strongRecOn generalizing offset with
  | _ k ih =>
    subst hk
    rw [splitLoopChecked, splitLoop]
    split_ifs with hlt
    · rw [nextPacketLenChecked_eq protoTag (by omega)]
      cases hn : nextPacketLen protoTag plainBuf offset (cipherBuf.length - offset) with
      | none => exact ⟨rfl, hoffset⟩
      | some n =>
        cases n with
        | zero =>
          refine ⟨?_, le_refl _⟩
          show (from? cipherBuf offset).map _ = _
          unfold from?
          rw [if_pos hoffset]
          rfl
        | succ n =>
          have hle := (nextPacketLen_mono hn le_rfl).1
          have hnext : offset + (n + 1) ≤ cipherBuf.length := by omega
          obtain ⟨hchecked, hend⟩ := ih _ (by omega) (offset + (n + 1)) hnext rfl
          refine ⟨?_, hend⟩
          have hslice : slice? cipherBuf offset (offset + (n + 1)) =
              some ((cipherBuf.drop offset).take (n + 1)) := by
            unfold slice?
            rw [if_pos ⟨Nat.le_add_right _ _, hnext⟩, Nat.add_sub_cancel_left]
          dsimp only
          rw [hslice, hchecked]
          rfl
    · exact ⟨rfl, hoffset⟩

/-- No index and no range of `split` is out of bounds. -/
theorem splitChecked_eq (ks : Keystream) {s : MsgSplitter} (ha : s.Aligned) (chunk : Bytes) :
    splitChecked ks s chunk = some (split ks s chunk) := by
  unfold splitChecked split
  split_ifs with hnil hdisabled
  · rfl
  · rfl
  · have hlen : (s.plainBuf ++ ctr (ks s.cipher.key s.cipher.iv) s.cipher.pos chunk).length =
        (s.cipherBuf ++ chunk).length := by
      unfold Aligned at ha
      simp [ha]
    obtain ⟨hchecked, hend⟩ := splitLoopChecked_eq s.protoTag hlen 0 (Nat.zero_le _)
    simp only [AESCTR.update]
    rw [hchecked]
    dsimp only
    unfold from?
    rw [if_pos hend, if_pos (hlen ▸ hend)]
    rfl

/-! ## Runs -/

/-- Successive calls of `split`: all parts returned, and the splitter. -/
def splitAll (ks : Keystream) (s : MsgSplitter) (chunks : List Bytes) :
    List Bytes × MsgSplitter :=
  chunks.foldl (fun r chunk => (r.1 ++ (split ks r.2 chunk).1, (split ks r.2 chunk).2)) ([], s)

/-- Successive calls of `split` with the checks. -/
def splitAllChecked (ks : Keystream) (s : MsgSplitter) (chunks : List Bytes) :
    Option (List Bytes × MsgSplitter) :=
  chunks.foldlM (fun r chunk => (splitChecked ks r.2 chunk).map fun r' => (r.1 ++ r'.1, r'.2))
    ([], s)

/-- The parse of a stream after the init, and of its decryption. -/
def reference (k : ℕ → Byte) (protoTag : UInt32) (stream : Bytes) : Cut Cell :=
  (referenceFraming protoTag).cut (cells k 64 stream)

/-- What a splitter has returned and what it holds, after a stream. -/
structure Splits (k : ℕ → Byte) (protoTag : UInt32) (stream : Bytes) (parts : List Bytes)
    (s : MsgSplitter) : Prop where
  conserved : parts.flatten ++ s.cipherBuf = stream
  aligned : s.plainBuf.length = s.cipherBuf.length
  decrypted : s.plainBuf = ctr k (64 + parts.flatten.length) s.cipherBuf
  /-- First the packets, then, once disabled, everything else. -/
  packets : ∃ passed, parts = (reference k protoTag stream).packets.map wire ++ passed ∧
    (s.disabled = false → passed = []) ∧
    (s.disabled = true → passed.flatten = wire (reference k protoTag stream).rest)
  /-- Neither a complete packet nor a malformed header is left. -/
  front : referenceLen protoTag s.plainBuf = none
  disabled : s.disabled = true ↔
    Malformed protoTag ((reference k protoTag stream).rest.map Prod.snd)

/-- The splitter is where the parse of the stream is. -/
structure Parses (key iv : Bytes) (c : Cut Cell) (length : ℕ) (parts : List Bytes)
    (s : MsgSplitter) : Prop where
  cipher : s.disabled = false → s.cipher = ⟨key, iv, 64 + length⟩
  aligned : s.Aligned
  disabled : s.disabled = c.stopped
  held : s.held = if c.stopped then [] else c.rest
  parts : ∃ passed, parts = c.packets.map wire ++ passed ∧
    passed.flatten = (if c.stopped then wire c.rest else []) ∧ (c.stopped = false → passed = [])

section

variable {ks : Keystream} {key iv : Bytes} {protoTag : UInt32} {stream : Bytes}
  {parts : List Bytes} {s : MsgSplitter}

theorem split_protoTag (ks : Keystream) (s : MsgSplitter) (chunk : Bytes) :
    (split ks s chunk).2.protoTag = s.protoTag := by
  unfold split
  split_ifs <;> rfl

section

variable (k : ℕ → Byte) (protoTag : UInt32) (stream : Bytes)

/-- The packets and the rest are the stream. -/
theorem reference_join :
    ((reference k protoTag stream).packets.map wire).flatten ++
      wire (reference k protoTag stream).rest = stream := by
  have hjoin : (reference k protoTag stream).packets.flatten ++
      (reference k protoTag stream).rest = cells k 64 stream := Framing.cut_join _
  have hwire := congrArg wire hjoin
  rw [wire_cells] at hwire
  refine Eq.trans ?_ hwire
  unfold wire
  rw [List.map_append, List.map_flatten]

/-- The plaintext of the rest is its decryption. -/
theorem reference_plain :
    (reference k protoTag stream).rest.map Prod.snd =
      ctr k (64 + ((reference k protoTag stream).packets.map wire).flatten.length)
        (wire (reference k protoTag stream).rest) := by
  have hjoin : (reference k protoTag stream).packets.flatten ++
      (reference k protoTag stream).rest = cells k 64 stream := Framing.cut_join _
  have hlen : ((reference k protoTag stream).packets.map wire).flatten.length =
      (reference k protoTag stream).packets.flatten.length := by
    unfold wire
    rw [show (fun l : List Cell => l.map Prod.fst) = List.map Prod.fst from rfl,
      ← List.map_flatten, List.length_map]
  have hrest : (reference k protoTag stream).rest = (cells k 64 stream).drop
      (reference k protoTag stream).packets.flatten.length := by
    rw [← hjoin, List.drop_left']
    rfl
  rw [hlen]
  generalize (reference k protoTag stream).packets.flatten.length = n at hrest
  unfold wire
  rw [hrest, List.map_drop, List.map_drop, plain_cells, ctr_drop]
  exact congrArg (fun l => ctr k (64 + n) (l.drop n)) (wire_cells k 64 stream).symm

theorem reference_stopped_iff :
    (reference k protoTag stream).stopped = true ↔
      Malformed protoTag ((reference k protoTag stream).rest.map Prod.snd) := by
  refine (Framing.cut_stopped_iff _).trans ?_
  rw [← referenceLen_eq_zero_iff]
  refine and_iff_right_of_imp fun hzero hne => ?_
  have hempty : (referenceFraming protoTag).len ([] : List Cell) = some 0 := hne ▸ hzero
  exact nomatch hempty

/-- Neither a packet nor a malformed header is left by a parse that goes on. -/
theorem reference_front (h : (reference k protoTag stream).stopped = false) :
    referenceLen protoTag ((reference k protoTag stream).rest.map Prod.snd) = none := by
  by_cases hne : (reference k protoTag stream).rest = []
  · rw [hne]
    rfl
  · exact Framing.cut_len_rest (F := referenceFraming protoTag) h hne

end

theorem reference_append_of_stopped {k : ℕ → Byte}
    (h : (reference k protoTag stream).stopped = true) (chunk : Bytes) :
    reference k protoTag (stream ++ chunk) = ⟨(reference k protoTag stream).packets,
      (reference k protoTag stream).rest ++ cells k (64 + stream.length) chunk, true⟩ := by
  unfold reference at h ⊢
  rw [cells_append, Framing.cut_append, if_pos h]

theorem reference_append {k : ℕ → Byte} (h : (reference k protoTag stream).stopped = false)
    (chunk : Bytes) :
    let c := (referenceFraming protoTag).cut
      ((reference k protoTag stream).rest ++ cells k (64 + stream.length) chunk)
    reference k protoTag (stream ++ chunk) =
      ⟨(reference k protoTag stream).packets ++ c.packets, c.rest, c.stopped⟩ := by
  unfold reference at h ⊢
  rw [cells_append]
  exact Framing.cut_append_of_not_stopped h _

/-- One call goes on with the parse. -/
theorem Parses.split (h : Parses key iv (reference (ks key iv) s.protoTag stream) stream.length
    parts s) (chunk : Bytes) :
    Parses key iv (reference (ks key iv) s.protoTag (stream ++ chunk)) (stream ++ chunk).length
      (parts ++ (split ks s chunk).1) (split ks s chunk).2 := by
  by_cases hne : chunk = []
  · subst hne
    rw [split_nil, List.append_nil, List.append_nil]
    exact h
  obtain ⟨passed, hparts, hpassed, hnone⟩ := h.parts
  by_cases hdisabled : s.disabled = true
  · have hstopped : (reference (ks key iv) s.protoTag stream).stopped = true :=
      h.disabled.symm.trans hdisabled
    have hheld := h.held
    rw [if_pos hstopped] at hheld hpassed
    rw [split_disabled ks hdisabled hne, reference_append_of_stopped hstopped]
    refine ⟨fun henabled => absurd (hdisabled.symm.trans henabled) nofun, h.aligned, hdisabled,
      hheld, passed ++ [chunk], ?_, ?_, nofun⟩
    · rw [hparts, List.append_assoc]
    · rw [if_pos rfl, List.flatten_append, hpassed, List.flatten_singleton]
      unfold wire
      rw [List.map_append]
      exact congrArg (_ ++ ·) (wire_cells (ks key iv) _ chunk).symm
  · have henabled := eq_false_of_ne_true hdisabled
    have hrunning : (reference (ks key iv) s.protoTag stream).stopped = false :=
      h.disabled.symm.trans henabled
    have hheld := h.held
    rw [hrunning, if_neg Bool.false_ne_true] at hheld
    have hspec := split_spec ks h.aligned henabled hne
    rw [h.cipher henabled, packetFraming_eq, hheld] at hspec
    rw [hspec, reference_append hrunning, hparts, hnone hrunning, List.append_nil]
    generalize (referenceFraming s.protoTag).cut ((reference (ks key iv) s.protoTag stream).rest ++
      cells (ks key iv) (64 + stream.length) chunk) = c
    refine ⟨fun _ => ?_, ?_, rfl, ?_, if c.stopped then [wire c.rest] else [], ?_, ?_, ?_⟩
    · rw [List.length_append, Nat.add_assoc]
    · unfold Aligned wire
      cases c.stopped <;> simp
    · show (if c.stopped then [] else wire c.rest).zip
        (if c.stopped then [] else c.rest.map Prod.snd) = if c.stopped then [] else c.rest
      split_ifs
      · rfl
      · exact (List.zip_of_prod rfl rfl).symm
    · rw [List.map_append, List.append_assoc]
    · cases c.stopped <;> simp
    · intro hstop
      have hstop' : c.stopped = false := hstop
      rw [hstop', if_neg Bool.false_ne_true]

/-- What the parse says about the parts, the buffers and the flag. -/
theorem Parses.splits {length : ℕ} {k : ℕ → Byte}
    (h : Parses key iv (reference k s.protoTag stream) length parts s) :
    Splits k s.protoTag stream parts s := by
  obtain ⟨passed, hparts, hpassed, hnone⟩ := h.parts
  have hcipher : s.cipherBuf = wire s.held := (wire_held h.aligned).symm
  have hplain : s.plainBuf = s.held.map Prod.snd :=
    (List.map_snd_zip (le_of_eq h.aligned)).symm
  have hjoin := reference_join k s.protoTag stream
  have hdecrypted := reference_plain k s.protoTag stream
  have hfront := reference_front k s.protoTag stream
  have hstopped := reference_stopped_iff k s.protoTag stream
  have hdisabled := h.disabled
  have hheld := h.held
  by_cases hs : (reference k s.protoTag stream).stopped = true
  · rw [if_pos hs] at hpassed hheld
    rw [hheld] at hcipher hplain
    refine ⟨?_, h.aligned, ?_, ⟨passed, hparts, ?_, fun _ => hpassed⟩, ?_, ?_⟩
    · rw [hcipher, hparts, List.flatten_append, hpassed]
      exact (List.append_nil _).trans hjoin
    · rw [hplain, hcipher]
      rfl
    · intro henabled
      exact absurd ((hdisabled.trans hs).symm.trans henabled) nofun
    · rw [hplain]
      rfl
    · exact iff_of_true (hdisabled.trans hs) (hstopped.mp hs)
  · have hrunning := eq_false_of_ne_true hs
    rw [if_neg hs] at hpassed hheld
    rw [hheld] at hcipher hplain
    obtain rfl := hnone hrunning
    rw [List.append_nil] at hparts
    refine ⟨?_, h.aligned, ?_, ⟨[], ?_, fun _ => rfl, ?_⟩, ?_, ?_⟩
    · rw [hcipher, hparts]
      exact hjoin
    · rw [hplain, hcipher, hparts]
      exact hdecrypted
    · rw [hparts, List.append_nil]
    · intro hd
      exact absurd ((hdisabled.trans hrunning).symm.trans hd) nofun
    · rw [hplain]
      exact hfront hrunning
    · rw [hdisabled]
      exact hstopped

/-- The calls of a row of chunks, from a splitter that is where the parse is. -/
theorem foldl_parses (h : Parses key iv (reference (ks key iv) s.protoTag stream) stream.length
    parts s) (chunks : List Bytes) :
    ∃ r : List Bytes × MsgSplitter,
      chunks.foldl (fun r chunk => (r.1 ++ (MsgSplitter.split ks r.2 chunk).1,
        (MsgSplitter.split ks r.2 chunk).2)) (parts, s) = r ∧
      chunks.foldlM (fun r chunk =>
        (splitChecked ks r.2 chunk).map fun r' => (r.1 ++ r'.1, r'.2)) (parts, s) = some r ∧
      r.2.protoTag = s.protoTag ∧
      Parses key iv (reference (ks key iv) r.2.protoTag (stream ++ chunks.flatten))
        (stream ++ chunks.flatten).length r.1 r.2 := by
  induction chunks generalizing stream parts s with
  | nil =>
    refine ⟨(parts, s), rfl, rfl, rfl, ?_⟩
    rw [List.flatten_nil, List.append_nil]
    exact h
  | cons chunk chunks ih =>
    have hstep := h.split chunk
    rw [← split_protoTag ks s chunk] at hstep
    obtain ⟨r, hr, hchecked, htag, hparses⟩ := ih hstep
    refine ⟨r, hr, ?_, htag.trans (split_protoTag ks s chunk), ?_⟩
    · rw [List.foldlM_cons, splitChecked_eq ks h.aligned]
      exact hchecked
    · rw [List.flatten_cons, ← List.append_assoc]
      exact hparses

end

/-- Whatever the stream and its chunks, the splitter returns the packets of the
parse of the whole stream and, from a header it cannot use on, everything. No
index of it is out of bounds. -/
theorem splitAll_spec (ks : Keystream) {key iv : Bytes} {protoTag : UInt32} {s : MsgSplitter}
    (hs : init? ks key iv protoTag = some s) (chunks : List Bytes) :
    Splits (ks key iv) protoTag chunks.flatten (splitAll ks s chunks).1 (splitAll ks s chunks).2 ∧
      splitAllChecked ks s chunks = some (splitAll ks s chunks) := by
  have hinit : s = ⟨⟨key, iv, 64⟩, protoTag, [], [], false⟩ := by
    unfold init? AESCTR.init? at hs
    split_ifs at hs
    simpa using hs.symm
  have hempty : reference (ks key iv) s.protoTag [] = ⟨[], [], false⟩ := Framing.cut_nil _
  have hparses : Parses key iv (reference (ks key iv) s.protoTag []) ([] : Bytes).length [] s := by
    rw [hempty]
    subst hinit
    exact ⟨fun _ => rfl, rfl, rfl, rfl, [], rfl, rfl, fun _ => rfl⟩
  obtain ⟨r, hr, hchecked, htag, hlast⟩ := foldl_parses hparses chunks
  have hsplit : splitAll ks s chunks = r := hr
  have htag' : r.2.protoTag = protoTag := htag.trans (by rw [hinit])
  rw [hsplit]
  refine ⟨?_, hchecked⟩
  rw [List.nil_append] at hlast
  rw [← htag']
  exact hlast.splits

/-- A message of one word, and a header that announces nothing. -/
theorem splitAll_spec_abridged :
    ∃ s, init? (fun _ _ _ => 0) (List.replicate 32 0) (List.replicate 16 0) 0xEFEFEFEF = some s ∧
      Splits (fun _ => 0) 0xEFEFEFEF [1, 2, 3, 4, 5, 0, 9]
        (splitAll (fun _ _ _ => 0) s [[1, 2], [3, 4, 5, 0, 9]]).1
        (splitAll (fun _ _ _ => 0) s [[1, 2], [3, 4, 5, 0, 9]]).2 ∧
      splitAllChecked (fun _ _ _ => 0) s [[1, 2], [3, 4, 5, 0, 9]] =
        some (splitAll (fun _ _ _ => 0) s [[1, 2], [3, 4, 5, 0, 9]]) := by
  refine ⟨⟨⟨List.replicate 32 0, List.replicate 16 0, 64⟩, 0xEFEFEFEF, [], [], false⟩, rfl, ?_⟩
  have hs : init? (fun _ _ _ => 0) (List.replicate 32 0) (List.replicate 16 0) 0xEFEFEFEF =
      some ⟨⟨List.replicate 32 0, List.replicate 16 0, 64⟩, 0xEFEFEFEF, [], [], false⟩ := rfl
  exact splitAll_spec (fun _ _ _ => 0) hs [[1, 2], [3, 4, 5, 0, 9]]

end MsgSplitter

end WSBridge
