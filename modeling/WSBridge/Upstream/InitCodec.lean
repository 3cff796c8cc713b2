import WSBridge.Upstream.InitParser

/-!
# Which packets are init packets

`InitParser.parse` accepts exactly the packets whose tag, once decrypted, is one
of the three, and these are exactly the packets `make_init` builds.

Results:
* `le32_inj`, `pack16_le16`: bytes and little-endian integers determine each
  other.
* `parse_isSome_iff`, `exists_makeInit`: acceptance, and what is accepted.
* `init_codec`: the round trip both ways.
-/

namespace WSBridge

/-! ## Little-endian integers -/

theorem le16_toNat (lo hi : Byte) : (le16 lo hi).toNat = lo.toNat + 256 * hi.toNat := by
  have hlo := lo.toNat_lt
  have hhi := hi.toNat_lt
  simp only [le16, UInt16.toNat_or, UInt16.toNat_shiftLeft, UInt8.toNat_toUInt16,
    show UInt16.toNat 8 % 16 = 8 from rfl]
  have hshift : hi.toNat <<< 8 < 2 ^ 16 := by rw [Nat.shiftLeft_eq]; omega
  rw [Nat.mod_eq_of_lt hshift, or_shiftLeft_eq_add hlo]
  rfl

theorem le32_toNat (b0 b1 b2 b3 : Byte) :
    (le32 b0 b1 b2 b3).toNat =
      b0.toNat + 256 * b1.toNat + 65536 * b2.toNat + 16777216 * b3.toNat := by
  have h0 := b0.toNat_lt
  have h1 := b1.toNat_lt
  have h2 := b2.toNat_lt
  have h3 := b3.toNat_lt
  simp only [le32, UInt32.toNat_or, UInt32.toNat_shiftLeft, UInt8.toNat_toUInt32,
    UInt32.reduceToNat, Nat.reduceMod]
  have hs1 : b1.toNat <<< 8 < 2 ^ 32 := by rw [Nat.shiftLeft_eq]; omega
  have hs2 : b2.toNat <<< 16 < 2 ^ 32 := by rw [Nat.shiftLeft_eq]; omega
  have hs3 : b3.toNat <<< 24 < 2 ^ 32 := by rw [Nat.shiftLeft_eq]; omega
  have hlow : b0.toNat ||| b1.toNat <<< 8 = b0.toNat + 2 ^ 8 * b1.toNat := or_shiftLeft_eq_add h0 _
  rw [Nat.mod_eq_of_lt hs1, Nat.mod_eq_of_lt hs2, Nat.mod_eq_of_lt hs3, hlow,
    or_shiftLeft_eq_add (n := 16) (by omega), or_shiftLeft_eq_add (n := 24) (by omega)]
  rfl

/-- A little-endian integer determines its bytes. -/
theorem le32_inj {a0 a1 a2 a3 b0 b1 b2 b3 : Byte} (h : le32 a0 a1 a2 a3 = le32 b0 b1 b2 b3) :
    [a0, a1, a2, a3] = [b0, b1, b2, b3] := by
  have hnat := congrArg UInt32.toNat h
  rw [le32_toNat, le32_toNat] at hnat
  have hlt : ∀ b : Byte, b.toNat < 256 := UInt8.toNat_lt
  have ha0 := hlt a0
  have ha1 := hlt a1
  have ha2 := hlt a2
  have ha3 := hlt a3
  have hb0 := hlt b0
  have hb1 := hlt b1
  have hb2 := hlt b2
  have hb3 := hlt b3
  simp only [List.cons.injEq, ← UInt8.toNat_inj, and_true]
  omega

/-- Two bytes are what their integer packs to. -/
theorem pack16_le16 (lo hi : Byte) : pack16 (le16 lo hi).toInt16 = [lo, hi] := by
  have hlo := lo.toNat_lt
  have hhi := hi.toNat_lt
  have hcast : (le16 lo hi).toInt16.toUInt16 = le16 lo hi := rfl
  unfold pack16
  rw [hcast]
  simp only [List.cons.injEq, ← UInt8.toNat_inj, and_true, UInt16.toNat_toUInt8,
    UInt16.toNat_shiftRight, le16_toNat, Nat.shiftRight_eq_div_pow,
    show UInt16.toNat 8 % 16 = 8 from rfl]
  omega

theorem eq_getD_four {l : Bytes} (h : l.length = 4) :
    l = [l.getD 0 0, l.getD 1 0, l.getD 2 0, l.getD 3 0] := by
  match l, h with
  | [_, _, _, _], _ => rfl

theorem Transport.tag_cases (x : UInt32) :
    x = 0xEFEFEFEF ∨ x = 0xEEEEEEEE ∨ x = 0xDDDDDDDD ↔ ∃ t : Transport, x = t.tag := by
  constructor
  · rintro (h | h | h)
    · exact ⟨.abridged, h⟩
    · exact ⟨.intermediate, h⟩
    · exact ⟨.paddedIntermediate, h⟩
  · rintro ⟨t, rfl⟩
    cases t
    · exact Or.inl rfl
    · exact Or.inr (Or.inl rfl)
    · exact Or.inr (Or.inr rfl)

/-! ## Acceptance -/

namespace InitParser

/-- The first 64 bytes, decrypted. -/
def decrypted (ks : Keystream) (data : Bytes) : Bytes :=
  ctr (ks (keyOf (data.take 64)) (ivOf (data.take 64))) 0 (data.take 64)

/-- The decrypted bytes 56 to 59 are the tag of a transport. -/
def Tagged (ks : Keystream) (data : Bytes) : Prop :=
  ∃ t : Transport, ((decrypted ks data).drop 56).take 4 = t.tagBytes

section

variable {ks : Keystream} {data : Bytes}

theorem decrypted_length (h : 64 ≤ data.length) : (decrypted ks data).length = 64 := by
  unfold decrypted
  rw [ctr_length, List.length_take]
  omega

theorem tagField (h : 64 ≤ data.length) :
    ((decrypted ks data).drop 56).take 4 = [(decrypted ks data).getD 56 0,
      (decrypted ks data).getD 57 0, (decrypted ks data).getD 58 0,
      (decrypted ks data).getD 59 0] := by
  have hlen : (((decrypted ks data).drop 56).take 4).length = 4 := by
    rw [List.length_take, List.length_drop, decrypted_length h]
    rfl
  have htake : ∀ i < 4, (((decrypted ks data).drop 56).take 4).getD i 0 =
      (decrypted ks data).getD (56 + i) 0 := by
    intro i hi
    rw [getD_of_drop, List.getD_eq_getElem?_getD, List.getElem?_take_of_lt hi,
      List.getD_eq_getElem?_getD]
  rw [eq_getD_four hlen, htake 0 (by omega), htake 1 (by omega), htake 2 (by omega),
    htake 3 (by omega)]

/-- The integer the parser compares is a tag exactly when its bytes are. -/
theorem tagged_iff (h : 64 ≤ data.length) :
    Tagged ks data ↔ ∃ t : Transport, le32 ((decrypted ks data).getD 56 0)
      ((decrypted ks data).getD 57 0) ((decrypted ks data).getD 58 0)
      ((decrypted ks data).getD 59 0) = t.tag := by
  refine exists_congr fun t => ?_
  have ht := eq_getD_four t.tagBytes_length
  rw [tagField h, ← t.le32_tagBytes]
  constructor
  · intro heq
    rw [ht] at heq
    simp only [List.cons.injEq, and_true] at heq
    obtain ⟨h0, h1, h2, h3⟩ := heq
    rw [h0, h1, h2, h3]
  · intro heq
    rw [ht]
    exact le32_inj heq

/-- The parser accepts exactly the packets with the tag of a transport. -/
theorem parse_isSome_iff : (parse ks data).isSome = true ↔ 64 ≤ data.length ∧ Tagged ks data := by
  by_cases h : 64 ≤ data.length
  · rw [and_iff_right h, tagged_iff h, ← Transport.tag_cases, parse_eq ks h]
    show (if _ then _ else _ : Option ParsedInit).isSome = true ↔ _
    split_ifs with htag
    · exact iff_of_true rfl htag
    · exact iff_of_false nofun htag
  · refine iff_of_false (fun hsome => ?_) fun hdata => h hdata.1
    obtain ⟨parsed, hparsed⟩ := Option.isSome_iff_exists.mp hsome
    exact h (length_of_parse hparsed)

/-- The result depends on the first 64 bytes only. -/
theorem parse_congr {data' : Bytes} (h : data.take 64 = data'.take 64) :
    parse ks data = parse ks data' := by
  have hshort : ∀ l : Bytes, ¬ 64 ≤ l.length → parse ks l = none := by
    intro l hl
    by_contra hsome
    obtain ⟨parsed, hparsed⟩ := Option.ne_none_iff_exists'.mp hsome
    exact hl (length_of_parse hparsed)
  have hlen := congrArg List.length h
  rw [List.length_take, List.length_take] at hlen
  by_cases hdata : 64 ≤ data.length
  · rw [← parse_take ks hdata, h, parse_take ks (by omega)]
  · rw [hshort data hdata, hshort data' (by omega)]

end

end InitParser

/-! ## What is accepted -/

section

variable {ks : Keystream} {data : Bytes}

/-- An accepted packet is one that `make_init` builds, from the packet itself
as the random bytes. -/
theorem exists_makeInit (hlen : data.length = 64) (h : InitParser.Tagged ks data) :
    ∃ rnd dcIdx, ∃ t : Transport, ∃ pad, rnd.length = 64 ∧ pad.length = 2 ∧
      data = makeInit ks rnd dcIdx t.tagBytes pad := by
  obtain ⟨t, htag⟩ := h
  have hfull : data.take 64 = data := List.take_of_length_le (le_of_eq hlen)
  have htail : (InitParser.decrypted ks data).drop 56 =
      ctr (ks (InitParser.keyOf data) (InitParser.ivOf data)) 56 (data.drop 56) := by
    unfold InitParser.decrypted
    rw [ctr_drop, hfull]
  have htaillen : ((InitParser.decrypted ks data).drop 56).length = 8 := by
    rw [htail, ctr_length, List.length_drop, hlen]
  -- The tail is a tag, two bytes for `dc_idx` and two for the padding.
  obtain ⟨lo, hi, pad, hrest⟩ : ∃ lo hi pad,
      ((InitParser.decrypted ks data).drop 56).drop 4 = lo :: hi :: pad := by
    match hd : ((InitParser.decrypted ks data).drop 56).drop 4 with
    | lo :: hi :: pad => exact ⟨lo, hi, pad, rfl⟩
    | [] | [_] =>
      have hlen' := congrArg List.length hd
      rw [List.length_drop, htaillen] at hlen'
      simp at hlen'
  have hpad : pad.length = 2 := by
    have hlen' := congrArg List.length hrest
    rw [List.length_drop, htaillen, List.length_cons, List.length_cons] at hlen'
    omega
  have hplain : t.tagBytes ++ pack16 (le16 lo hi).toInt16 ++ pad =
      (InitParser.decrypted ks data).drop 56 := by
    rw [← htag, pack16_le16, List.append_assoc]
    show _ ++ lo :: hi :: pad = _
    rw [← hrest, List.take_append_drop]
  refine ⟨data, (le16 lo hi).toInt16, t, pad, hlen, hpad, ?_⟩
  rw [makeInit_eq ks _ t hlen hpad, hplain, htail, ctr_ctr, List.take_append_drop]

end

/-- The parser returns what `make_init` was given. It accepts exactly the data
that begins with 64 bytes whose tag is one of the three, looks at nothing else,
and every 64 bytes it accepts are made by `make_init`. -/
theorem init_codec (ks : Keystream) :
    (∀ (rnd : Bytes) (dcIdx : Int16) (t : Transport) (pad : Bytes), rnd.length = 64 →
      pad.length = 2 →
        InitParser.parse ks (makeInit ks rnd dcIdx t.tagBytes pad) =
          some { dcId := dcIdx.toInt.natAbs
                 isMedia := dcIdx.toInt < 0
                 isTestDC := 10000 ≤ dcIdx.toInt.natAbs
                 protoTag := t.tag
                 key := ((makeInit ks rnd dcIdx t.tagBytes pad).drop 8).take 32
                 iv := ((makeInit ks rnd dcIdx t.tagBytes pad).drop 40).take 16 }) ∧
      (∀ data, (InitParser.parse ks data).isSome = true ↔
        64 ≤ data.length ∧ InitParser.Tagged ks data) ∧
      (∀ data data', data.take 64 = data'.take 64 →
        InitParser.parse ks data = InitParser.parse ks data') ∧
      ∀ data, data.length = 64 → (InitParser.parse ks data).isSome = true →
        ∃ rnd dcIdx, ∃ t : Transport, ∃ pad, rnd.length = 64 ∧ pad.length = 2 ∧
          data = makeInit ks rnd dcIdx t.tagBytes pad := by
  refine ⟨fun rnd dcIdx t pad hrnd hpad => ?_, fun data => InitParser.parse_isSome_iff,
    fun data data' h => InitParser.parse_congr h, fun data hlen haccept => ?_⟩
  · have hkey := makeInit_keyOf ks dcIdx t hrnd hpad
    have hiv := makeInit_ivOf ks dcIdx t hrnd hpad
    unfold InitParser.keyOf at hkey
    unfold InitParser.ivOf at hiv
    rw [parse_makeInit ks dcIdx t hrnd hpad, hkey, hiv]
    rfl
  · exact exists_makeInit hlen (InitParser.parse_isSome_iff.mp haccept).2

/-- The least `dc_idx`, and a packet that is accepted. -/
theorem init_codec_sample :
    InitParser.parse (fun _ _ _ => 7) (makeInit (fun _ _ _ => 7) (List.replicate 64 0x11) (-32768)
        Transport.abridged.tagBytes [1, 2]) =
      some { dcId := 32768
             isMedia := true
             isTestDC := true
             protoTag := 0xEFEFEFEF
             key := List.replicate 32 0x11
             iv := List.replicate 16 0x11 } ∧
      ∃ rnd dcIdx, ∃ t : Transport, ∃ pad, rnd.length = 64 ∧ pad.length = 2 ∧
        List.replicate 56 0x11 ++ [0xE9, 0xE9, 0xE9, 0xE9, 1, 2, 3, 4] =
          makeInit (fun _ _ _ => 7) rnd dcIdx t.tagBytes pad := by
  obtain ⟨hround, -, -, hmade⟩ := init_codec fun _ _ _ => 7
  constructor
  · have hparsed := hround (List.replicate 64 0x11) (-32768) .abridged [1, 2] rfl rfl
    rw [hparsed]
    decide
  · exact hmade _ (by decide) (by decide)

end WSBridge
