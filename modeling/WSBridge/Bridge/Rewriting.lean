import WSBridge.Bridge.Checksum
import WSBridge.Bridge.Slots

/-!
# Rewriting a packet

`lwip_bridge_input` gives a client's packet the address of the netif as its
destination, `netif_output` gives lwIP's answer the client's destination as its
source. Both take the IP header to have 20 bytes: the client's port is read at
20, the header is summed up to 20, the TCP checksum is put at 36.

Results:
* `inputRight_iff`: a client's packet is rewritten as it should be exactly when
  its IP header has no options.
* `options_overwritten`: a packet with options.
* `output_right`: lwIP's packets leave from the address the table has, with
  checksums that verify; the answers to a client's packet leave from the address
  it was sent to, as long as the table has it.
-/

namespace WSBridge

open WSBridge.Foundation

/-! ## To lwIP -/

/-- A packet that `readLoop` passes on and `lwip_bridge_input` accepts, with its
TCP header in it. -/
structure ClientPacket (data : Bytes) : Prop where
  proto : data.getD 9 0 = protoTCP
  length_ge : 40 ≤ data.length
  length_lt : data.length < 65536
  header_ge : 20 ≤ headerLen data
  inside : headerLen data + 20 ≤ data.length

/-- What `lwip_bridge_input` should do with a packet: lwIP gets it with the
address of the netif and new checksums, and its entry has the client's address
and TCP port. -/
structure InputRight (b : Bridge) (data : Bytes) : Prop where
  delivered : ∃ given unclaimed, (b.lwipBridgeInput data true true).phase = .input given unclaimed ∧
    Readdressed data 16 netifIP given.packet
  exact : SumsExact (put32 data 16 netifIP)
  recorded : ∀ malloc pbuf, (b.lwipBridgeInput data malloc pbuf).nat =
    natAdd b.nat (tcpSource data).1 (tcpSource data).2 (origDst data)

theorem natKey_eq_tcpSource {data : Bytes} (h : headerLen data = 20) :
    natKey data = tcpSource data := by
  unfold natKey tcpSource
  rw [h]

theorem lwipBridgeInput_nat (b : Bridge) {data : Bytes} (hlen : 40 ≤ data.length)
    (malloc pbuf : Bool) : (b.lwipBridgeInput data malloc pbuf).nat =
      natAdd b.nat (natKey data).1 (natKey data).2 (origDst data) := by
  unfold Bridge.lwipBridgeInput
  rw [if_neg (by omega)]
  dsimp only
  split_ifs <;> rfl

theorem lwipBridgeInput_phase (b : Bridge) {data : Bytes} (hlen : 40 ≤ data.length) :
    ∃ unclaimed, (b.lwipBridgeInput data true true).phase =
      .input ⟨rewriteInput data, origDst data⟩ unclaimed := by
  unfold Bridge.lwipBridgeInput
  rw [if_neg (by omega)]
  exact ⟨_, rfl⟩

/-- What lwIP is given is the packet as it is rewritten. -/
theorem InputRight.rewritten {b : Bridge} {data : Bytes} (h : InputRight b data)
    (hlen : 40 ≤ data.length) : Readdressed data 16 netifIP (rewriteInput data) := by
  obtain ⟨given, unclaimed, hphase, hgiven⟩ := h.delivered
  obtain ⟨unclaimed', hphase'⟩ := lwipBridgeInput_phase b hlen
  rw [hphase'] at hphase
  cases hphase
  exact hgiven

theorem headerLen_even (d : Bytes) : ∃ h, headerLen d = 2 * h ∧ h ≤ 30 := by
  refine ⟨2 * ((d.getD 0 0).toNat % 16), ?_, by omega⟩
  unfold headerLen
  omega

theorem dvd_of_checks {n : ℕ} (h : endAround 65536 n = 65535) : 65535 ∣ n :=
  ((endAround_eq_top_iff (r := 65536) (by omega)).mp h).2

/-- Options add `o` to the header, and the segment without them is `s` and up to
forty bytes shorter: they cannot cancel. -/
theorem no_options {a o p s len h : ℕ} (hge : 20 ≤ h) (hle : h ≤ 60) (hlen : h ≤ len)
    (hip : 65535 ∣ a) (hip' : 65535 ∣ a + o) (htcp : 65535 ∣ p + (len - 20) + (o + s))
    (htcp' : 65535 ∣ p + (len - h) + s) : h = 20 := by
  have ho : 65535 ∣ o := (Nat.dvd_add_right hip).mp hip'
  have hsum : p + (len - 20) + (o + s) = p + (len - h) + s + o + (h - 20) := by omega
  rw [hsum] at htcp
  have hrest : 65535 ∣ h - 20 := (Nat.dvd_add_right (Nat.dvd_add htcp' ho)).mp htcp
  have hzero := Nat.eq_zero_of_dvd_of_lt hrest (by omega)
  omega

/-- With options, a packet whose first 20 bytes check, and whose segment checks
as if it began there, does not check. -/
theorem header_of_checks {data out : Bytes} (h : ClientPacket data)
    (hlen : out.length = data.length) (hheader : headerLen out = headerLen data)
    (hip : endAround 65536 (total (words out 0) 10) = 65535)
    (htcp : endAround 65536 (segmentTotal out 20) = 65535)
    (hchecks : HeaderChecks out) (hsegment : SegmentChecks out) : headerLen data = 20 := by
  obtain ⟨m, hm, hle⟩ := headerLen_even data
  have hge := h.header_ge
  have hinside := h.inside
  -- The options are the words from `10` to `m` of the header.
  have hoptions : total (words out 0) (headerLen out / 2) =
      total (words out 0) 10 + total (words out 20) (m - 10) := by
    rw [show headerLen out / 2 = 10 + (m - 10) by omega, total_words_add]
  have hbytes : total (words out 20) ((out.length - 20 + 1) / 2) = total (words out 20) (m - 10) +
      total (words out (headerLen out)) ((out.length - headerLen out + 1) / 2) := by
    have hstart : headerLen out = 20 + 2 * (m - 10) := by omega
    have hcount : (out.length - 20 + 1) / 2 =
        m - 10 + (out.length - headerLen out + 1) / 2 := by omega
    rw [hcount, total_words_add, ← hstart]
  have hip' := dvd_of_checks hchecks
  have htcp' := dvd_of_checks hsegment
  have hsum := dvd_of_checks htcp
  rw [hoptions] at hip'
  unfold segmentTotal pseudoHeader at htcp' hsum
  rw [hbytes] at hsum
  rw [← hheader]
  exact no_options (by omega) (by omega) (by omega) (dvd_of_checks hip) hip' hsum htcp'

/-- A client's packet is rewritten as it should be exactly when its IP header
has no options. -/
theorem inputRight_iff (b : Bridge) {data : Bytes} (h : ClientPacket data) :
    InputRight b data ↔ headerLen data = 20 := by
  have hge := h.length_ge
  have hlt := h.length_lt
  constructor
  · intro hright
    have hproto : (put32 data 16 netifIP).getD 9 0 = protoTCP := by
      rw [getD_put32 data _ (by omega), h.proto]
    have hlen := put32_length data 16 netifIP
    obtain ⟨hip, htcp⟩ := renewChecksums_checks hproto (by omega) (by omega)
    have hwords := hright.rewritten hge
    have hheader : headerLen (rewriteInput data) = headerLen data :=
      headerLen_congr (hwords.frame 0 (by omega) (by omega) (by omega))
    exact header_of_checks h hwords.length hheader hip htcp hwords.header hwords.segment
  · intro hheader
    obtain ⟨unclaimed, hphase⟩ := lwipBridgeInput_phase b hge
    refine ⟨⟨_, unclaimed, hphase, ?_⟩, ?_, fun malloc pbuf => ?_⟩
    · exact readdressed (Or.inr rfl) netifIP h.proto hge hlt hheader
    · apply sumsExact_of_length
      rw [put32_length]
      exact hlt
    · rw [lwipBridgeInput_nat b hge, natKey_eq_tcpSource hheader]

/-- A SYN from 10.0.0.1:40000 to 149.154.167.51:443. -/
def syn : Bytes := tcpPacket 0x02 (0x0A000001, 40000) (0x959AA733, 443)

theorem inputRight_iff_syn :
    ClientPacket syn ∧ (InputRight Bridge.init syn ↔ headerLen syn = 20) := by
  have h : ClientPacket syn := ⟨by decide, by decide, by decide, by decide, by decide⟩
  exact ⟨h, inputRight_iff Bridge.init h⟩

/-- The same with four bytes of IP options. -/
def optionPacket : Bytes :=
  [0x46, 0, 0, 44, 0, 0, 0, 0, 64, 6, 48, 253, 10, 0, 0, 1, 149, 154, 167, 51, 1, 1, 1, 0,
    0x9C, 0x40, 1, 187, 0, 0, 0, 1, 0, 0, 0, 0, 0x50, 2, 255, 255, 203, 23, 0, 0]

/-- The new checksum lands in the window of the TCP header. -/
theorem options_overwritten :
    ¬ ∀ (b : Bridge) (data : Bytes), ClientPacket data → InputRight b data := by
  intro h
  have hpacket : ClientPacket optionPacket :=
    ⟨by decide, by decide, by decide, by decide, by decide⟩
  have hrewritten := (h Bridge.init optionPacket hpacket).rewritten (by decide)
  have hframe := hrewritten.frame 36 (by decide) (by decide) (by decide)
  revert hframe
  decide +kernel

/-! ## From lwIP -/

/-- A packet of lwIP's without IP options. -/
structure LwipPacket (packet : Bytes) : Prop where
  proto : packet.getD 9 0 = protoTCP
  source : be32 packet 12 = netifIP
  length_ge : 40 ≤ packet.length
  length_lt : packet.length < 65536
  header : headerLen packet = 20

/-- The client a packet of lwIP's is for. -/
def addressee (packet : Bytes) : ClientKey := (be32 packet 16, tcpDestPort packet)

/-- What `g_output` gets, if it gets the packet, is the packet with `ip` as its
source. -/
def Emission.LeavesFrom (e : Emission) (ip : UInt32) : Prop :=
  ∀ out, e.output = some out → Readdressed e.packet 12 ip out

theorem rewriteOutput_mapped {nat : NatTable} {packet : Bytes} (h : LwipPacket packet)
    (hmapped : natLookup nat (addressee packet).1 (addressee packet).2 ≠ 0) :
    rewriteOutput nat packet = renewChecksums
      (put32 packet 12 (natLookup nat (addressee packet).1 (addressee packet).2)) := by
  have hge := h.length_ge
  have hport : be16 packet 22 = (addressee packet).2 := by
    unfold addressee tcpDestPort
    rw [h.header]
  have hsource : outputSource nat packet =
      natLookup nat (addressee packet).1 (addressee packet).2 := by
    unfold outputSource
    dsimp only
    rw [if_pos hge, hport]
    exact if_neg hmapped
  unfold rewriteOutput
  rw [if_pos ⟨by omega, h.source⟩, hsource]
  exact if_neg hmapped

theorem readdressed_output {nat : NatTable} {packet : Bytes} (h : LwipPacket packet)
    (hmapped : natLookup nat (addressee packet).1 (addressee packet).2 ≠ 0) :
    Readdressed packet 12 (natLookup nat (addressee packet).1 (addressee packet).2)
      (rewriteOutput nat packet) := by
  rw [rewriteOutput_mapped h hmapped]
  exact readdressed (Or.inl rfl) _ h.proto h.length_ge h.length_lt h.header

/-- The table has the address for the client. -/
def Stands (k : ClientKey) (ip : UInt32) (b : Bridge) : Prop := natLookup b.nat k.1 k.2 = ip

/-- A packet for the client, which lwIP sends with the address mapped. -/
theorem leavesFrom_of_stands {nat : NatTable} {k : ClientKey} {ip : UInt32}
    (hmapped : natLookup nat k.1 k.2 = ip) (hip : ip ≠ 0) {e : Emission} {malloc : Bool}
    (hout : e.output = if malloc then some (rewriteOutput nat e.packet) else none)
    (h : LwipPacket e.packet) (hk : addressee e.packet = k) : e.LeavesFrom ip := by
  subst hk hmapped
  intro out heq
  rw [hout] at heq
  split_ifs at heq
  rw [← Option.some.inj heq]
  exact readdressed_output h hip

/-- One event sends the client's packets from the address mapped, if the table
has it before and after the event. -/
theorem emissions_of_step {L : Lwip} {b b' : Bridge} (hs : Slots b) {e : BridgeEvent}
    (hstep : b.step L e = some b') {k : ClientKey} {ip : UInt32} (hip : ip ≠ 0)
    (hbefore : Stands k ip b) (hafter : Stands k ip b') :
    ∃ sent, b'.out = b.out ++ sent ∧
      ∀ x ∈ sent, LwipPacket x.packet → addressee x.packet = k → x.LeavesFrom ip := by
  have hnone : b'.out = b.out → ∃ sent, b'.out = b.out ++ sent ∧
      ∀ x ∈ sent, LwipPacket x.packet → addressee x.packet = k → x.LeavesFrom ip :=
    fun hout => ⟨[], by rw [hout, List.append_nil], nofun⟩
  -- The RST of a connection is sent after its entry is removed.
  have hrst : ∀ p, SentRst L b b' p → ∃ sent, b'.out = b.out ++ sent ∧
      ∀ x ∈ sent, LwipPacket x.packet → addressee x.packet = k → x.LeavesFrom ip := by
    rintro p ⟨rst, -, hout⟩
    refine ⟨_, hout, fun x hx hpacket hk => ?_⟩
    obtain rfl := List.mem_singleton.mp hx
    exact leavesFrom_of_stands hafter hip rfl hpacket hk
  cases effect_of_step hs hstep with
  | quiet _ h => exact hnone h.out
  | input _ _ h => exact hnone h.out
  | poll => exact hnone rfl
  | done => exact hnone rfl
  | halfOpen => exact hnone rfl
  | accept _ _ _ _ h => exact hnone h.out
  | fin _ _ _ h => exact hrst _ h
  | ended _ _ hout => exact hnone hout
  | dropped => exact hnone rfl
  | emit =>
    refine ⟨_, rfl, fun x hx hpacket hk => ?_⟩
    obtain rfl := List.mem_singleton.mp hx
    exact leavesFrom_of_stands hbefore hip rfl hpacket hk
  | close _ _ h => exact hrst _ h

/-- A row of events, with the address mapped all the time. -/
theorem emissions_of_run {L : Lwip} {b b' : Bridge} (hs : Slots b) {events : List BridgeEvent}
    (hrun : run (Bridge.step L) b events = some b') {k : ClientKey} {ip : UInt32} (hip : ip ≠ 0)
    (hstands : EveryState (Bridge.step L) (Stands k ip) b events) :
    ∃ sent, b'.out = b.out ++ sent ∧
      ∀ x ∈ sent, LwipPacket x.packet → addressee x.packet = k → x.LeavesFrom ip := by
  induction events generalizing b with
  | nil =>
    cases hrun
    exact ⟨[], (List.append_nil _).symm, nofun⟩
  | cons e events ih =>
    obtain ⟨m, hm, hrun⟩ := run_cons_eq_some.mp hrun
    have htail := hstands.2 m hm
    obtain ⟨first, hfirst, hgood⟩ := emissions_of_step hs hm hip hstands.head htail.head
    obtain ⟨rest, hrest, hgood'⟩ := ih (slots_step hs hm) hrun htail
    refine ⟨first ++ rest, ?_, fun x hx => ?_⟩
    · rw [hrest, hfirst, List.append_assoc]
    · exact (List.mem_append.mp hx).elim (hgood x) (hgood' x)

/-- A packet of lwIP's for which the table has an address leaves from there, with
checksums that verify, unless `malloc` fails. -/
def SendsFrom (L : Lwip) (b : Bridge) (p : Pcb) (packet : Bytes) (ip : UInt32) : Prop :=
  ∃ e, (b.netifOutput L p packet).out = b.out ++ [e] ∧ e.packet = packet ∧
    e.output.isSome = L.malloc b.out.length ∧ e.LeavesFrom ip ∧ SumsExact (put32 packet 12 ip)

/-- `nat_lookup` for a client. -/
def lookup (b : Bridge) (k : ClientKey) : UInt32 := natLookup b.nat k.1 k.2

/-- The answers to a client's packet leave from where the packet was sent, as
long as the entry that `lwip_bridge_input` has made for it stands. -/
def AnswersFrom (L : Lwip) (data : Bytes) (malloc pbuf : Bool) (before after : List BridgeEvent) :
    Prop :=
  ∀ b b', run (Bridge.step L) Bridge.init before = some b →
    NatRoom b.nat (tcpSource data) →
    EveryState (Bridge.step L)
      (Stands (tcpSource data) (lookup (b.lwipBridgeInput data malloc pbuf) (tcpSource data)))
      (b.lwipBridgeInput data malloc pbuf) after →
    run (Bridge.step L) b (.input data malloc pbuf :: after) = some b' →
    ∀ e ∈ b'.out.drop b.out.length, LwipPacket e.packet → addressee e.packet = tcpSource data →
      e.LeavesFrom (origDst data)

theorem sendsFrom_of_mapped (L : Lwip) (b : Bridge) (p : Pcb) {packet : Bytes}
    (h : LwipPacket packet)
    (hmapped : natLookup b.nat (addressee packet).1 (addressee packet).2 ≠ 0) :
    SendsFrom L b p packet (natLookup b.nat (addressee packet).1 (addressee packet).2) := by
  refine ⟨_, rfl, rfl, ?_, leavesFrom_of_stands rfl hmapped rfl h rfl, ?_⟩
  · cases hmalloc : L.malloc b.out.length <;> rfl
  · apply sumsExact_of_length
    rw [put32_length]
    exact h.length_lt

theorem answersFrom (L : Lwip) {data : Bytes} (hlen : 40 ≤ data.length)
    (hheader : headerLen data = 20) (hdst : origDst data ≠ 0) (malloc pbuf : Bool)
    (before after : List BridgeEvent) : AnswersFrom L data malloc pbuf before after := by
  intro b b' hbefore hroom hstands hrun e he
  obtain ⟨m, hm, hafter⟩ := run_cons_eq_some.mp hrun
  have hs := slots_run hbefore
  obtain ⟨-, heq⟩ := Option.ite_none_right_eq_some.mp hm
  have hinput := Option.some.inj heq
  rw [← hinput] at hafter hm
  have hslots := slots_step hs hm
  have hentry : lookup (b.lwipBridgeInput data malloc pbuf) (tcpSource data) = origDst data := by
    unfold lookup
    rw [lwipBridgeInput_nat b hlen, natKey_eq_tcpSource hheader]
    exact natLookup_add_self hroom (origDst data)
  rw [hentry] at hstands
  obtain ⟨sent, hsent, hgood⟩ := emissions_of_run hslots hafter hdst hstands
  have hout : (b.lwipBridgeInput data malloc pbuf).out = b.out := by
    unfold Bridge.lwipBridgeInput
    dsimp only
    split_ifs <;> rfl
  rw [hsent, hout, List.drop_left] at he
  exact hgood e he

/-- For every packet of lwIP's without IP options, and every table with an
address for the client it is for: `netif_output` sends it from that address with
checksums that verify. So the answers to a client's packet without IP options
leave from where it was sent, as long as its entry stands. -/
theorem output_right (L : Lwip) :
    (∀ (b : Bridge) (p : Pcb) (packet : Bytes), LwipPacket packet →
      natLookup b.nat (addressee packet).1 (addressee packet).2 ≠ 0 →
        SendsFrom L b p packet (natLookup b.nat (addressee packet).1 (addressee packet).2)) ∧
      ∀ (data : Bytes) (malloc pbuf : Bool) (before after : List BridgeEvent),
        40 ≤ data.length → headerLen data = 20 → origDst data ≠ 0 →
          AnswersFrom L data malloc pbuf before after :=
  ⟨fun b p _ h hmapped => sendsFrom_of_mapped L b p h hmapped,
    fun _ malloc pbuf before after hlen hheader hdst =>
      answersFrom L hlen hheader hdst malloc pbuf before after⟩

theorem stands_of_nat {b b' : Bridge} (h : b'.nat = b.nat) {k : ClientKey} :
    Stands k (lookup b k) b' := by
  unfold Stands lookup
  rw [h]

theorem BridgeEffect.nat_halfOpen {L : Lwip} {b b' : Bridge}
    (h : BridgeEffect L b (.lwip .halfOpen) b') : b'.nat = b.nat := by
  cases h with
  | quiet hpass _ => exact hpass.elim
  | halfOpen => rfl

theorem BridgeEffect.nat_emit {L : Lwip} {b b' : Bridge} {id : ℕ} {packet : Bytes}
    (h : BridgeEffect L b (.lwip (.emit id packet)) b') : b'.nat = b.nat := by
  cases h with
  | quiet hpass _ => exact hpass.elim
  | emit => rfl

/-- lwIP's answer to `syn`. -/
def synAck : Bytes := tcpPacket 0x12 (netifIP, 443) (0x0A000001, 40000)

theorem output_right_synAck :
    SendsFrom Lwip.ample (Bridge.init.lwipBridgeInput syn true true)
        { id := 0, remoteIP := 0x0A000001, remotePort := 40000, localPort := 443
          origDst := 0x959AA733 } synAck
        (natLookup (Bridge.init.lwipBridgeInput syn true true).nat (addressee synAck).1
          (addressee synAck).2) ∧
      ∃ b', run (Bridge.step Lwip.ample) Bridge.init
          [.input syn true true, .lwip .halfOpen, .lwip (.emit 0 synAck)] = some b' ∧
        ∀ e ∈ b'.out.drop 0, LwipPacket e.packet → addressee e.packet = tcpSource syn →
          e.LeavesFrom (origDst syn) := by
  have hpacket : LwipPacket synAck := ⟨by decide, by decide, by decide, by decide, by decide⟩
  have hrun : (run (Bridge.step Lwip.ample) Bridge.init
      [.input syn true true, .lwip .halfOpen, .lwip (.emit 0 synAck)]).isSome = true := by
    decide +kernel
  obtain ⟨b', hb'⟩ := Option.isSome_iff_exists.mp hrun
  have hstands : EveryState (Bridge.step Lwip.ample)
      (Stands (tcpSource syn) (lookup (Bridge.init.lwipBridgeInput syn true true) (tcpSource syn)))
      (Bridge.init.lwipBridgeInput syn true true) [.lwip .halfOpen, .lwip (.emit 0 synAck)] := by
    have hinput : Bridge.init.step Lwip.ample (.input syn true true) =
        some (Bridge.init.lwipBridgeInput syn true true) := by
      unfold Bridge.step
      exact if_pos rfl
    have hs := slots_step slots_init hinput
    refine ⟨stands_of_nat rfl, fun t ht => ?_⟩
    have hnat := (effect_of_step hs ht).nat_halfOpen
    refine ⟨stands_of_nat hnat, fun u hu => ?_⟩
    have hnat' := (effect_of_step (slots_step hs ht) hu).nat_emit
    exact stands_of_nat (hnat'.trans hnat)
  refine ⟨(output_right Lwip.ample).1 _ _ synAck hpacket (by decide +kernel), b', hb', ?_⟩
  exact (output_right Lwip.ample).2 syn true true [] _ (by decide) (by decide) (by decide)
    Bridge.init b' rfl (natRoom_of_length_lt _ (by decide +kernel)) hstands hb'

end WSBridge
