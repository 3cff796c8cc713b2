import WSBridge.Upstream.AESCTR

/-!
# The obfuscated init packet

`InitParser.parse` (`Tunnel/InitParser.swift`) and the client side it is
written for, `make_init` with an empty secret (`tools/test_gateway.py`).
The loop of `make_init` that draws 64 random bytes again while they start with
a reserved word is left out: the results hold for all 64 bytes.

Results:
* `parse_makeInit`: the parser returns what the client put into the init
  packet, for every keystream, random bytes, transport tag and `dc_idx`.
* `parse_take`: the result depends on the first 64 bytes only.
-/

namespace WSBridge

/-! ## Little-endian integers -/

theorem or_shiftLeft_eq_add {n a : ℕ} (h : a < 2 ^ n) (b : ℕ) : a ||| b <<< n = a + 2 ^ n * b := by
  rw [Nat.or_comm, ← Nat.shiftLeft_add_eq_or_of_lt h, Nat.shiftLeft_eq]
  ring

/-- `UInt16(lo) | (UInt16(hi) << 8)`. -/
def le16 (lo hi : Byte) : UInt16 := lo.toUInt16 ||| hi.toUInt16 <<< 8

/-- `struct.pack('<h', x)`. -/
def pack16 (x : Int16) : Bytes := [x.toUInt16.toUInt8, (x.toUInt16 >>> 8).toUInt8]

theorem le16_pack (x : UInt16) : le16 x.toUInt8 (x >>> 8).toUInt8 = x := by
  have hx := x.toNat_lt
  apply UInt16.toNat_inj.mp
  simp only [le16, UInt16.toNat_or, UInt16.toNat_shiftLeft, UInt8.toNat_toUInt16,
    UInt16.toNat_toUInt8, UInt16.toNat_shiftRight, Nat.shiftRight_eq_div_pow,
    show UInt16.toNat 8 % 16 = 8 from rfl]
  have hhi : (x.toNat / 2 ^ 8 % 2 ^ 8) <<< 8 < 2 ^ 16 := by rw [Nat.shiftLeft_eq]; omega
  rw [Nat.mod_eq_of_lt hhi, or_shiftLeft_eq_add (by omega)]
  omega

/-- `UInt32(b0) | (UInt32(b1) << 8) | (UInt32(b2) << 16) | (UInt32(b3) << 24)`. -/
def le32 (b0 b1 b2 b3 : Byte) : UInt32 :=
  b0.toUInt32 ||| b1.toUInt32 <<< 8 ||| b2.toUInt32 <<< 16 ||| b3.toUInt32 <<< 24

/-! ## Transports -/

/-- The three transports a client can ask for. -/
inductive Transport where
  | abridged
  | intermediate
  | paddedIntermediate
  deriving DecidableEq, Repr

namespace Transport

/-- The tag constants of `InitParser.swift:42-44` and `MsgSplitter.swift:17-19`. -/
def tag : Transport → UInt32
  | abridged => 0xEFEFEFEF
  | intermediate => 0xEEEEEEEE
  | paddedIntermediate => 0xDDDDDDDD

/-- `proto_tag` as the four bytes a client sends. -/
def tagBytes : Transport → Bytes
  | abridged => [0xEF, 0xEF, 0xEF, 0xEF]
  | intermediate => [0xEE, 0xEE, 0xEE, 0xEE]
  | paddedIntermediate => [0xDD, 0xDD, 0xDD, 0xDD]

@[simp] theorem tagBytes_length (t : Transport) : t.tagBytes.length = 4 := by cases t <;> rfl

theorem le32_tagBytes (t : Transport) :
    le32 (t.tagBytes.getD 0 0) (t.tagBytes.getD 1 0) (t.tagBytes.getD 2 0)
      (t.tagBytes.getD 3 0) = t.tag := by
  cases t <;> decide

end Transport

/-! ## `InitParser` -/

namespace InitParser

/-- The length of the init (line 7). -/
def handshakeLen : ℕ := 64
/-- Where the key begins (line 8). -/
def skipLen : ℕ := 8
/-- The length of the key (line 9). -/
def prekeyLen : ℕ := 32
/-- The length of the initial counter block (line 10). -/
def ivLen : ℕ := 16
/-- Where the transport tag begins (line 11). -/
def protoTagPos : ℕ := 56
/-- Where the number of the DC begins (line 12). -/
def dcIdxPos : ℕ := 60

/-- `struct ParsedInit` (lines 14–21). -/
structure ParsedInit where
  dcId : ℕ
  isMedia : Bool
  isTestDC : Bool
  protoTag : UInt32
  key : Bytes
  iv : Bytes
  deriving DecidableEq, Repr

/-- `parse(_:)` (lines 24–55). The reads of `dec` are in range: `update`
returns as many bytes as it gets. -/
def parse (ks : Keystream) (data : Bytes) : Option ParsedInit :=
  if data.length < handshakeLen then none
  else
    let bytes := data.take handshakeLen
    let key := (bytes.drop skipLen).take prekeyLen
    let iv := (bytes.drop (skipLen + prekeyLen)).take ivLen
    match AESCTR.init? key iv with
    | none => none
    | some cipher =>
      match (cipher.update ks bytes).1 with
      | none => none
      | some dec =>
        let protoTag := le32 (dec.getD protoTagPos 0) (dec.getD (protoTagPos + 1) 0)
          (dec.getD (protoTagPos + 2) 0) (dec.getD (protoTagPos + 3) 0)
        if protoTag = 0xEFEFEFEF ∨ protoTag = 0xEEEEEEEE ∨ protoTag = 0xDDDDDDDD then
          let dcIdxRaw := (le16 (dec.getD dcIdxPos 0) (dec.getD (dcIdxPos + 1) 0)).toInt16
          let dcId := dcIdxRaw.toInt.natAbs
          some { dcId, isMedia := dcIdxRaw.toInt < 0, isTestDC := 10000 ≤ dcId, protoTag, key, iv }
        else none

/-- `init[8:40]`. -/
def keyOf (init : Bytes) : Bytes := (init.drop 8).take 32

/-- `init[40:56]`. -/
def ivOf (init : Bytes) : Bytes := (init.drop 40).take 16

/-- The parser on a buffer of at least 64 bytes, with the cipher unfolded. -/
theorem parse_eq (ks : Keystream) {data : Bytes} (h : 64 ≤ data.length) :
    parse ks data =
      let init := data.take 64
      let dec := ctr (ks (keyOf init) (ivOf init)) 0 init
      let protoTag := le32 (dec.getD 56 0) (dec.getD 57 0) (dec.getD 58 0) (dec.getD 59 0)
      let dcIdx := (le16 (dec.getD 60 0) (dec.getD 61 0)).toInt16
      if protoTag = 0xEFEFEFEF ∨ protoTag = 0xEEEEEEEE ∨ protoTag = 0xDDDDDDDD then
        some { dcId := dcIdx.toInt.natAbs, isMedia := dcIdx.toInt < 0,
               isTestDC := 10000 ≤ dcIdx.toInt.natAbs, protoTag,
               key := keyOf init, iv := ivOf init }
      else none := by
  unfold parse
  rw [if_neg (by simp [handshakeLen]; omega)]
  simp only [handshakeLen, skipLen, prekeyLen, ivLen]
  rw [AESCTR.init?_of_length (by simp; omega)]
  rfl

/-- The result depends on the first 64 bytes only. -/
theorem parse_take (ks : Keystream) {data : Bytes} (h : 64 ≤ data.length) :
    parse ks (data.take 64) = parse ks data := by
  rw [parse_eq ks h, parse_eq ks (by simp; omega)]
  simp only [List.take_take, min_self]

theorem length_of_parse {ks : Keystream} {data : Bytes} {parsed : ParsedInit}
    (h : parse ks data = some parsed) : 64 ≤ data.length := by
  by_contra hlen
  unfold parse at h
  rw [show handshakeLen = 64 from rfl, if_pos (Nat.lt_of_not_le hlen)] at h
  cases h

theorem key_length_of_parse {ks : Keystream} {data : Bytes} {parsed : ParsedInit}
    (h : parse ks data = some parsed) : parsed.key.length = 32 := by
  have hlen := length_of_parse h
  rw [parse_eq ks hlen] at h
  obtain ⟨-, h⟩ := Option.ite_none_right_eq_some.mp h
  rw [← Option.some.inj h]
  simp only [keyOf, List.length_take, List.length_drop]
  omega

end InitParser

/-! ## `make_init` -/

/-- `make_init(dc_idx, proto_tag)` with an empty secret
(`tools/test_gateway.py:5-26`) for the random bytes `rnd` and the two trailing
random bytes `pad`: the keystream bytes 56–63 are read off an encryption of
`rnd`, and the tail is XORed with them. -/
def makeInit (ks : Keystream) (rnd : Bytes) (dcIdx : Int16) (protoTag pad : Bytes) : Bytes :=
  let prekey := (rnd.drop 8).take 32
  let iv := (rnd.drop 40).take 16
  let encrypted := ctr (ks prekey iv) 0 rnd
  let keystream := (List.range' 56 8).map fun i => encrypted.getD i 0 ^^^ rnd.getD i 0
  let tailPlain := protoTag ++ pack16 dcIdx ++ pad
  let tail := List.zipWith (· ^^^ ·) tailPlain keystream
  rnd.take 56 ++ tail

section makeInit

variable (ks : Keystream) {rnd pad : Bytes} (dcIdx : Int16) (t : Transport)

/-- The keystream `make_init` reads off is the cipher's keystream. -/
theorem makeInit_keystream (k : ℕ → Byte) (hrnd : rnd.length = 64) :
    ((List.range' 56 8).map fun i => (ctr k 0 rnd).getD i 0 ^^^ rnd.getD i 0) =
      (List.range' 56 8).map k := by
  apply List.map_congr_left
  intro i hi
  have hi : i < 64 := by simp at hi; omega
  rw [List.getD_eq_getElem?_getD, List.getD_eq_getElem?_getD, ctr,
    Foundation.streamMap_getElem?, List.getElem?_eq_getElem (by omega)]
  simp only [Option.map_some, Option.getD_some, Nat.zero_add]
  rw [UInt8.xor_comm, ← UInt8.xor_assoc, UInt8.xor_self, UInt8.zero_xor]

/-- XOR with a keystream written as a list. -/
theorem zipWith_keystream (k : ℕ → Byte) (p : ℕ) (l : Bytes) :
    List.zipWith (· ^^^ ·) l ((List.range' p l.length).map k) = ctr k p l := by
  induction l generalizing p with
  | nil => rfl
  | cons a l ih =>
    rw [List.length_cons, List.range'_succ, List.map_cons, List.zipWith_cons_cons, ih]
    rfl

/-- An init packet is the first 56 random bytes and the encryption of tag,
`dc_idx` and padding from position 56 on. -/
theorem makeInit_eq (hrnd : rnd.length = 64) (hpad : pad.length = 2) :
    makeInit ks rnd dcIdx t.tagBytes pad =
      rnd.take 56 ++ ctr (ks (InitParser.keyOf rnd) (InitParser.ivOf rnd)) 56
        (t.tagBytes ++ pack16 dcIdx ++ pad) := by
  unfold makeInit
  simp only [makeInit_keystream _ hrnd]
  rw [show 8 = (t.tagBytes ++ pack16 dcIdx ++ pad).length by simp [pack16, hpad],
    zipWith_keystream]
  simp [InitParser.keyOf, InitParser.ivOf, pack16, hpad]

theorem makeInit_length (hrnd : rnd.length = 64) (hpad : pad.length = 2) :
    (makeInit ks rnd dcIdx t.tagBytes pad).length = 64 := by
  rw [makeInit_eq ks dcIdx t hrnd hpad]
  simp [hrnd, hpad, pack16]

theorem take_drop_take {l : Bytes} {i n m : ℕ} (h : i + n ≤ m) :
    ((l.take m).drop i).take n = (l.drop i).take n := by
  rw [List.drop_take, List.take_take, min_eq_left (by omega)]

theorem makeInit_keyOf (hrnd : rnd.length = 64) (hpad : pad.length = 2) :
    InitParser.keyOf (makeInit ks rnd dcIdx t.tagBytes pad) = InitParser.keyOf rnd := by
  unfold InitParser.keyOf
  rw [makeInit_eq ks dcIdx t hrnd hpad, List.drop_append_of_le_length (by simp [hrnd]),
    List.take_append_of_le_length (by simp [hrnd]), take_drop_take (by norm_num)]

theorem makeInit_ivOf (hrnd : rnd.length = 64) (hpad : pad.length = 2) :
    InitParser.ivOf (makeInit ks rnd dcIdx t.tagBytes pad) = InitParser.ivOf rnd := by
  unfold InitParser.ivOf
  rw [makeInit_eq ks dcIdx t hrnd hpad, List.drop_append_of_le_length (by simp [hrnd]),
    List.take_append_of_le_length (by simp [hrnd]), take_drop_take (by norm_num)]

/-- Decrypting an init packet from position 56 on gives tag, `dc_idx` and
padding. -/
theorem makeInit_decrypted (hrnd : rnd.length = 64) (hpad : pad.length = 2) :
    (ctr (ks (InitParser.keyOf rnd) (InitParser.ivOf rnd)) 0
      (makeInit ks rnd dcIdx t.tagBytes pad)).drop 56 = t.tagBytes ++ pack16 dcIdx ++ pad := by
  rw [ctr_drop, makeInit_eq ks dcIdx t hrnd hpad, List.drop_left' (by simp [hrnd]), ctr_ctr]

theorem getD_of_drop (l : Bytes) (n i : ℕ) : l.getD (n + i) 0 = (l.drop n).getD i 0 := by
  simp [List.getD_eq_getElem?_getD]

/-- The parser returns what the client put into the init packet. -/
theorem parse_makeInit (hrnd : rnd.length = 64) (hpad : pad.length = 2) :
    InitParser.parse ks (makeInit ks rnd dcIdx t.tagBytes pad) =
      some { dcId := dcIdx.toInt.natAbs, isMedia := dcIdx.toInt < 0,
             isTestDC := 10000 ≤ dcIdx.toInt.natAbs, protoTag := t.tag,
             key := InitParser.keyOf rnd, iv := InitParser.ivOf rnd } := by
  have hlen := makeInit_length ks dcIdx t hrnd hpad
  rw [InitParser.parse_eq ks (by omega)]
  simp only
  rw [List.take_of_length_le (by omega), makeInit_keyOf ks dcIdx t hrnd hpad,
    makeInit_ivOf ks dcIdx t hrnd hpad]
  have hdec := makeInit_decrypted ks dcIdx t hrnd hpad
  generalize ctr (ks (InitParser.keyOf rnd) (InitParser.ivOf rnd)) 0
    (makeInit ks rnd dcIdx t.tagBytes pad) = dec at hdec ⊢
  -- The tail of `dec`, byte by byte.
  have hget : ∀ i, dec.getD (56 + i) 0 = (t.tagBytes ++ pack16 dcIdx ++ pad).getD i 0 := by
    intro i
    rw [getD_of_drop, hdec]
  have htag : le32 (dec.getD 56 0) (dec.getD 57 0) (dec.getD 58 0) (dec.getD 59 0) = t.tag := by
    rw [hget 0, hget 1, hget 2, hget 3, ← t.le32_tagBytes]
    cases t <;> rfl
  have hdc : (le16 (dec.getD 60 0) (dec.getD 61 0)).toInt16 = dcIdx := by
    rw [hget 4, hget 5]
    have : le16 ((t.tagBytes ++ pack16 dcIdx ++ pad).getD 4 0)
        ((t.tagBytes ++ pack16 dcIdx ++ pad).getD 5 0) = dcIdx.toUInt16 := by
      rw [← le16_pack dcIdx.toUInt16]
      cases t <;> rfl
    rw [this]
    rfl
  rw [htag, hdc, if_pos (by cases t <;> decide)]

end makeInit

end WSBridge
