import WSBridge.Foundation.Keystream

/-!
# The AES-CTR object (`Tunnel/AESCTR.swift`)

Byte strings (`Data`, `[UInt8]`) are `Bytes := List UInt8`. CommonCrypto is
not part of the repository: its AES-CTR keystream is the parameter
`ks key iv p`, byte number `p` of the keystream of `key` and `iv`.
`CCCryptorCreateWithMode` accepts AES keys of 16, 24 and 32 bytes;
`CCCryptorUpdate` in counter mode writes as many bytes as it reads and does not
fail on an output buffer one block larger than its input.
-/

namespace WSBridge

open WSBridge.Foundation

/-- A byte. -/
abbrev Byte := UInt8
/-- A byte string. -/
abbrev Bytes := List Byte

/-- The keystream of the cipher for each key and initial counter block. -/
abbrev Keystream := Bytes → Bytes → ℕ → Byte

/-- XOR of the stream segment `data`, which starts at position `p`, with the
keystream `k`. -/
def ctr (k : ℕ → Byte) (p : ℕ) (data : Bytes) : Bytes := streamMap (· ^^^ ·) k p data

section ctr

variable (k : ℕ → Byte) (p : ℕ)

@[simp] theorem ctr_nil : ctr k p [] = [] := rfl

@[simp] theorem ctr_length (l : Bytes) : (ctr k p l).length = l.length :=
  streamMap_length _ _ _ _

theorem ctr_append (l r : Bytes) : ctr k p (l ++ r) = ctr k p l ++ ctr k (p + l.length) r :=
  streamMap_append _ _ _ _ _

theorem ctr_drop (n : ℕ) (l : Bytes) : (ctr k p l).drop n = ctr k (p + n) (l.drop n) :=
  streamMap_drop _ _ _ _ _

/-- CTR is symmetric: encrypting is decrypting. -/
theorem ctr_ctr (l : Bytes) : ctr k p (ctr k p l) = l :=
  streamMap_involutive _ _ (fun a b => by rw [UInt8.xor_assoc, UInt8.xor_self, UInt8.xor_zero]) p l

end ctr

/-- `class AESCTR` (lines 6–53): the key and the counter block the cryptor was
created with, and the keystream position it has reached. -/
structure AESCTR where
  key : Bytes
  iv : Bytes
  pos : ℕ
  deriving DecidableEq, Repr

namespace AESCTR

/-- `init?(key:iv:)` (lines 9–26). -/
def init? (key iv : Bytes) : Option AESCTR :=
  if key.length = 16 ∨ key.length = 24 ∨ key.length = 32 then some ⟨key, iv, 0⟩ else none

/-- `update(_:)` (lines 33–46). -/
def update (ks : Keystream) (c : AESCTR) (data : Bytes) : Option Bytes × AESCTR :=
  (some (ctr (ks c.key c.iv) c.pos data), { c with pos := c.pos + data.length })

/-- `fastForward(_:)` (lines 49–52): `count` zero bytes go through the cipher. -/
def fastForward (ks : Keystream) (c : AESCTR) (count : ℕ) : AESCTR :=
  (c.update ks (List.replicate count 0)).2

theorem init?_of_length {key : Bytes} (h : key.length = 32) (iv : Bytes) :
    init? key iv = some ⟨key, iv, 0⟩ := by
  simp [init?, h]

@[simp] theorem fastForward_eq (ks : Keystream) (c : AESCTR) (count : ℕ) :
    c.fastForward ks count = { c with pos := c.pos + count } := by
  simp [fastForward, update]

end AESCTR

end WSBridge
