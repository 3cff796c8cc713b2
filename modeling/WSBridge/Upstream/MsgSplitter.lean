import WSBridge.Foundation.Framing
import WSBridge.Upstream.InitParser

/-!
# The packet splitter (`Tunnel/MsgSplitter.swift`)

`split` buffers ciphertext and its decryption side by side, reads the packet
lengths from the plaintext and cuts the ciphertext at the packet boundaries.

Lengths and offsets are Swift `Int`s that are never negative and stay below
`2^32`, so they are modelled in `ℕ`. The model reads `plainBuf` with `getD`;
every read of the code is below `offset + avail`, the length of the buffer
(`nextAbridgedLen_congr`, `nextIntermediateLen_congr`).

Results:
* `packetFraming`: the length announcements of the three transports are a
  `Framing` of the stream of (ciphertext, plaintext) byte pairs.
* `split_spec`: one `split` is the greedy parse of the buffered pairs and the
  new chunk.
-/

namespace WSBridge

open WSBridge.Foundation

/-- `class MsgSplitter` (lines 9–14). -/
structure MsgSplitter where
  cipher : AESCTR
  protoTag : UInt32
  cipherBuf : Bytes
  plainBuf : Bytes
  disabled : Bool
  deriving DecidableEq, Repr

namespace MsgSplitter

/-! ## Model -/

/-- `init?(key:iv:protoTag:)` (lines 20–25). -/
def init? (ks : Keystream) (key iv : Bytes) (protoTag : UInt32) : Option MsgSplitter :=
  match AESCTR.init? key iv with
  | none => none
  | some cipher => some ⟨cipher.fastForward ks 64, protoTag, [], [], false⟩

/-- The common end of the two functions below (lines 94–97 and 106–109). -/
def checkAvail (headerLen payloadLen avail : ℕ) : Option ℕ :=
  if payloadLen = 0 then some 0
  else if avail < headerLen + payloadLen then none
  else some (headerLen + payloadLen)

/-- `nextAbridgedLen(offset:avail:)` (lines 80–98). -/
def nextAbridgedLen (plainBuf : Bytes) (offset avail : ℕ) : Option ℕ :=
  let first := plainBuf.getD offset 0
  if first = 0x7F ∨ first = 0xFF then
    if avail < 4 then none
    else
      let payloadLen := ((plainBuf.getD (offset + 1) 0).toNat |||
        (plainBuf.getD (offset + 2) 0).toNat <<< 8 |||
        (plainBuf.getD (offset + 3) 0).toNat <<< 16) * 4
      checkAvail 4 payloadLen avail
  else checkAvail 1 ((first &&& 0x7F).toNat * 4) avail

/-- `nextIntermediateLen(offset:avail:)` (lines 100–110). -/
def nextIntermediateLen (plainBuf : Bytes) (offset avail : ℕ) : Option ℕ :=
  if avail < 4 then none
  else
    let payloadLen := ((plainBuf.getD offset 0).toNat |||
      (plainBuf.getD (offset + 1) 0).toNat <<< 8 |||
      (plainBuf.getD (offset + 2) 0).toNat <<< 16 |||
      (plainBuf.getD (offset + 3) 0).toNat <<< 24) &&& 0x7FFFFFFF
    checkAvail 4 payloadLen avail

/-- `nextPacketLen(offset:avail:)` (lines 69–78). -/
def nextPacketLen (protoTag : UInt32) (plainBuf : Bytes) (offset avail : ℕ) : Option ℕ :=
  if avail = 0 then none
  else if protoTag = 0xEFEFEFEF then nextAbridgedLen plainBuf offset avail
  else if protoTag = 0xEEEEEEEE ∨ protoTag = 0xDDDDDDDD then
    nextIntermediateLen plainBuf offset avail
  else some 0

/-- The `while offset < bufLen` loop of `split` (lines 40–51): the packets cut
off from `offset` on, the offset it ends at, and whether it set `disabled`. -/
def splitLoop (protoTag : UInt32) (cipherBuf plainBuf : Bytes) (offset : ℕ) :
    List Bytes × ℕ × Bool :=
  if offset < cipherBuf.length then
    match nextPacketLen protoTag plainBuf offset (cipherBuf.length - offset) with
    | none => ([], offset, false)
    | some 0 => ([cipherBuf.drop offset], cipherBuf.length, true)
    | some (n + 1) =>
      let r := splitLoop protoTag cipherBuf plainBuf (offset + (n + 1))
      ((cipherBuf.drop offset).take (n + 1) :: r.1, r.2)
  else ([], offset, false)
termination_by cipherBuf.length - offset

/-- `split(_:)` (lines 28–58). -/
def split (ks : Keystream) (s : MsgSplitter) (chunk : Bytes) : List Bytes × MsgSplitter :=
  if chunk = [] then ([], s)
  else if s.disabled then ([chunk], s)
  else
    let cipherBuf := s.cipherBuf ++ chunk
    let (plain, cipher) := s.cipher.update ks chunk
    let plainBuf := match plain with
      | some plain => s.plainBuf ++ plain
      | none => s.plainBuf
    let (parts, offset, disabled) := splitLoop s.protoTag cipherBuf plainBuf 0
    (parts, { s with cipher, cipherBuf := cipherBuf.drop offset,
                     plainBuf := plainBuf.drop offset, disabled })

/-! ## The announcements only look at the buffer they are asked about -/

theorem getD_drop (l : Bytes) (n i : ℕ) : (l.drop n).getD i 0 = l.getD (n + i) 0 :=
  (getD_of_drop l n i).symm

theorem getD_append_of_lt {l : Bytes} {i : ℕ} (h : i < l.length) (r : Bytes) :
    (l ++ r).getD i 0 = l.getD i 0 := by
  simp [List.getD_eq_getElem?_getD, List.getElem?_append_left h]

/-- No read is at or past `offset + avail`. -/
theorem nextAbridgedLen_congr {p q : Bytes} {offset offset' avail : ℕ} (hpos : 0 < avail)
    (h : ∀ i < avail, p.getD (offset + i) 0 = q.getD (offset' + i) 0) :
    nextAbridgedLen p offset avail = nextAbridgedLen q offset' avail := by
  have h0 := h 0 hpos
  simp only [Nat.add_zero] at h0
  unfold nextAbridgedLen
  simp only [h0]
  split_ifs with h1 h4
  · rfl
  · rw [h 1 (by omega), h 2 (by omega), h 3 (by omega)]
  · rfl

/-- No read is at or past `offset + avail`. -/
theorem nextIntermediateLen_congr {p q : Bytes} {offset offset' avail : ℕ}
    (h : ∀ i < avail, p.getD (offset + i) 0 = q.getD (offset' + i) 0) :
    nextIntermediateLen p offset avail = nextIntermediateLen q offset' avail := by
  unfold nextIntermediateLen
  split_ifs with h4
  · rfl
  · have h0 := h 0 (by omega)
    simp only [Nat.add_zero] at h0
    rw [h0, h 1 (by omega), h 2 (by omega), h 3 (by omega)]

theorem nextPacketLen_congr {protoTag : UInt32} {p q : Bytes} {offset offset' avail : ℕ}
    (h : ∀ i < avail, p.getD (offset + i) 0 = q.getD (offset' + i) 0) :
    nextPacketLen protoTag p offset avail = nextPacketLen protoTag q offset' avail := by
  unfold nextPacketLen
  split_ifs with h0
  · rfl
  · exact nextAbridgedLen_congr (by omega) h
  · exact nextIntermediateLen_congr h
  · rfl

/-- The announcement at the front of a plaintext buffer. -/
def packetLen (protoTag : UInt32) (plain : Bytes) : Option ℕ :=
  nextPacketLen protoTag plain 0 plain.length

theorem nextPacketLen_eq_packetLen (protoTag : UInt32) (plain : Bytes) (offset : ℕ) :
    nextPacketLen protoTag plain offset (plain.length - offset) =
      packetLen protoTag (plain.drop offset) := by
  unfold packetLen
  rw [List.length_drop]
  apply nextPacketLen_congr
  intro i _
  rw [getD_drop, Nat.zero_add]

/-! ## An answer is in range and final -/

theorem checkAvail_mono {headerLen payloadLen avail n : ℕ}
    (h : checkAvail headerLen payloadLen avail = some n) {avail' : ℕ} (ha : avail ≤ avail') :
    n ≤ avail ∧ checkAvail headerLen payloadLen avail' = some n := by
  unfold checkAvail at h ⊢
  split_ifs at h with h0 h1
  · cases h
    exact ⟨Nat.zero_le _, if_pos h0⟩
  · cases h
    exact ⟨by omega, by rw [if_neg h0, if_neg (by omega)]⟩

theorem nextAbridgedLen_mono {p : Bytes} {offset avail n : ℕ}
    (h : nextAbridgedLen p offset avail = some n) {avail' : ℕ} (ha : avail ≤ avail') :
    n ≤ avail ∧ nextAbridgedLen p offset avail' = some n := by
  unfold nextAbridgedLen at h ⊢
  simp only at h ⊢
  split_ifs at h ⊢ with h1 h4
  · omega
  · exact checkAvail_mono h ha
  · exact checkAvail_mono h ha

theorem nextIntermediateLen_mono {p : Bytes} {offset avail n : ℕ}
    (h : nextIntermediateLen p offset avail = some n) {avail' : ℕ} (ha : avail ≤ avail') :
    n ≤ avail ∧ nextIntermediateLen p offset avail' = some n := by
  unfold nextIntermediateLen at h ⊢
  split_ifs at h ⊢ with h4
  · omega
  · exact checkAvail_mono h ha

theorem nextPacketLen_mono {protoTag : UInt32} {p : Bytes} {offset avail n : ℕ}
    (h : nextPacketLen protoTag p offset avail = some n) {avail' : ℕ} (ha : avail ≤ avail') :
    n ≤ avail ∧ nextPacketLen protoTag p offset avail' = some n := by
  unfold nextPacketLen at h ⊢
  split_ifs at h with h0 h1 h2
  · rw [if_neg (by omega), if_pos h1]
    exact nextAbridgedLen_mono h ha
  · rw [if_neg (by omega), if_neg h1, if_pos h2]
    exact nextIntermediateLen_mono h ha
  · rw [if_neg (by omega), if_neg h1, if_neg h2]
    cases h
    exact ⟨Nat.zero_le _, rfl⟩

theorem packetLen_le {protoTag : UInt32} {p : Bytes} {n : ℕ} (h : packetLen protoTag p = some n) :
    n ≤ p.length :=
  (nextPacketLen_mono h le_rfl).1

theorem packetLen_append {protoTag : UInt32} {p : Bytes} {n : ℕ}
    (h : packetLen protoTag p = some n) (r : Bytes) : packetLen protoTag (p ++ r) = some n := by
  have hp : nextPacketLen protoTag p 0 p.length = nextPacketLen protoTag (p ++ r) 0 p.length := by
    apply nextPacketLen_congr
    intro i hi
    rw [getD_append_of_lt (by omega)]
  unfold packetLen at h ⊢
  rw [hp] at h
  exact (nextPacketLen_mono h (by simp)).2

/-! ## The framing of the stream -/

/-- A stream byte as the client encrypted it and as it decrypts. -/
abbrev Cell := Byte × Byte

/-- The announcements of a transport, read from the plaintext of each cell. -/
def packetFraming (protoTag : UInt32) : Framing Cell where
  len l := packetLen protoTag (l.map Prod.snd)
  len_le h := by simpa using packetLen_le h
  len_append h r := by
    rw [List.map_append]
    exact packetLen_append h _

/-- The ciphertext of a row of cells. -/
def wire (l : List Cell) : Bytes := l.map Prod.fst

/-- The cells of a ciphertext segment that starts at keystream position `p`. -/
def cells (k : ℕ → Byte) (p : ℕ) (data : Bytes) : List Cell := data.zip (ctr k p data)

@[simp] theorem cells_length (k : ℕ → Byte) (p : ℕ) (data : Bytes) :
    (cells k p data).length = data.length := by
  simp [cells]

@[simp] theorem wire_cells (k : ℕ → Byte) (p : ℕ) (data : Bytes) : wire (cells k p data) = data :=
  List.map_fst_zip (by simp)

theorem plain_cells (k : ℕ → Byte) (p : ℕ) (data : Bytes) :
    (cells k p data).map Prod.snd = ctr k p data :=
  List.map_snd_zip (by simp)

theorem cells_append (k : ℕ → Byte) (p : ℕ) (l r : Bytes) :
    cells k p (l ++ r) = cells k p l ++ cells k (p + l.length) r := by
  unfold cells
  rw [ctr_append, List.zip_append (by simp)]

/-- The cells the splitter is holding. -/
def held (s : MsgSplitter) : List Cell := s.cipherBuf.zip s.plainBuf

/-- The two buffers run side by side. -/
def Aligned (s : MsgSplitter) : Prop := s.plainBuf.length = s.cipherBuf.length

theorem wire_held {s : MsgSplitter} (h : s.Aligned) : wire s.held = s.cipherBuf :=
  List.map_fst_zip (by unfold Aligned at h; omega)

/-! ## `split` is the greedy parse -/

/-- The loop on buffers that hold the cells `l`, from `offset` on. -/
theorem splitLoop_eq (protoTag : UInt32) (l : List Cell) (offset : ℕ) (h : offset ≤ l.length) :
    splitLoop protoTag (wire l) (l.map Prod.snd) offset =
      let c := (packetFraming protoTag).cut (l.drop offset)
      (c.packets.map wire ++ (if c.stopped then [wire c.rest] else []),
        if c.stopped then l.length else l.length - c.rest.length, c.stopped) := by
  have hw : ∀ m : List Cell, (wire m).length = m.length := fun m => by simp [wire]
  induction hk : l.length - offset using Nat.strongRecOn generalizing offset with
  | _ k ih =>
    subst hk
    rw [splitLoop, hw]
    split_ifs with hlt
    · have hne : l.drop offset ≠ [] := by
        rw [← List.length_pos_iff, List.length_drop]
        omega
      have hlen : nextPacketLen protoTag (l.map Prod.snd) offset (l.length - offset) =
          (packetFraming protoTag).len (l.drop offset) := by
        have := nextPacketLen_eq_packetLen protoTag (l.map Prod.snd) offset
        rw [List.length_map] at this
        rw [this, ← List.map_drop]
        rfl
      rw [hlen]
      cases hl : (packetFraming protoTag).len (l.drop offset) with
      | none =>
        rw [Framing.cut_none hl]
        simp
        omega
      | some n =>
        cases n with
        | zero =>
          rw [Framing.cut_zero hne hl]
          simp [wire, List.map_drop]
        | succ n =>
          have hle := Framing.len_le _ hl
          rw [List.length_drop] at hle
          simp only
          rw [ih (l.length - (offset + (n + 1))) (by omega) _ (by omega) rfl,
            Framing.cut_packet (Nat.succ_pos n) hl, List.drop_drop]
          simp [wire, List.map_take, List.map_drop]
    · have : l.drop offset = [] := by rw [List.drop_eq_nil_iff]; omega
      rw [this]
      simp
      omega

/-- The cells after a chunk: those held, then the chunk's. -/
theorem held_append_chunk {s : MsgSplitter} (h : s.Aligned) (k : ℕ → Byte) (chunk : Bytes) :
    s.held ++ cells k s.cipher.pos chunk =
      (s.cipherBuf ++ chunk).zip (s.plainBuf ++ ctr k s.cipher.pos chunk) := by
  unfold held cells
  rw [List.zip_append h.symm]

/-- **One call.** On an enabled splitter, `split` parses the held cells
followed by those of the chunk: it returns the packets, then, where the parse
stopped at a malformed header, everything from that header on; it keeps the
rest, and the cipher has moved on by the chunk. -/
theorem split_spec (ks : Keystream) {s : MsgSplitter} (ha : s.Aligned) (hd : s.disabled = false)
    {chunk : Bytes} (hne : chunk ≠ []) :
    let c := (packetFraming s.protoTag).cut
      (s.held ++ cells (ks s.cipher.key s.cipher.iv) s.cipher.pos chunk)
    split ks s chunk =
      (c.packets.map wire ++ (if c.stopped then [wire c.rest] else []),
        { cipher := { s.cipher with pos := s.cipher.pos + chunk.length }
          protoTag := s.protoTag
          cipherBuf := if c.stopped then [] else wire c.rest
          plainBuf := if c.stopped then [] else c.rest.map Prod.snd
          disabled := c.stopped }) := by
  intro c
  set k := ks s.cipher.key s.cipher.iv
  set l := s.held ++ cells k s.cipher.pos chunk with hl
  have hzip := held_append_chunk ha k chunk
  have hlen : (s.plainBuf ++ ctr k s.cipher.pos chunk).length = (s.cipherBuf ++ chunk).length := by
    unfold Aligned at ha
    simp [ha]
  have hw : s.cipherBuf ++ chunk = wire l := by
    rw [hl, hzip]
    exact (List.map_fst_zip (by omega)).symm
  have hp : s.plainBuf ++ ctr k s.cipher.pos chunk = l.map Prod.snd := by
    rw [hl, hzip]
    exact (List.map_snd_zip (by omega)).symm
  have hc : (packetFraming s.protoTag).cut l = c := rfl
  have hloop := splitLoop_eq s.protoTag l 0 (Nat.zero_le _)
  rw [List.drop_zero, hc] at hloop
  -- What the loop leaves is the end of the buffer.
  have hrest : l.drop (l.length - c.rest.length) = c.rest := by
    have hj : c.packets.flatten ++ c.rest = l := Framing.cut_join l
    rw [← hj, List.length_append, Nat.add_sub_cancel, List.drop_left']
    rfl
  clear_value c
  unfold split
  rw [if_neg hne, if_neg (by simp [hd])]
  simp only [AESCTR.update]
  rw [hw, hp, hloop]
  by_cases hs : c.stopped = true
  · simp [hs, wire]
  · rw [Bool.not_eq_true] at hs
    simp only [hs, Bool.false_eq_true, if_false]
    have hwr : (wire l).drop (l.length - c.rest.length) = wire c.rest := by
      unfold wire
      rw [← List.map_drop, hrest]
    rw [hwr, ← List.map_drop, hrest]

theorem split_nil (ks : Keystream) (s : MsgSplitter) : split ks s [] = ([], s) := by
  simp [split]

/-- A disabled splitter passes every chunk through. -/
theorem split_disabled (ks : Keystream) {s : MsgSplitter} (hd : s.disabled = true) {chunk : Bytes}
    (hne : chunk ≠ []) : split ks s chunk = ([chunk], s) := by
  simp [split, hd, hne]

end MsgSplitter

end WSBridge
