import WSBridge.System.Links

/-!
# Downstream data that nothing wakes

What a refused write leaves in `pending` is tried again by `handleSent` only,
when an ACK frees bytes of the session's own pcb. So whenever a live session
has something pending, its pcb should have bytes queued. A write is refused
when the pcb's own send buffer is full, which is fine, but also when memory
that all connections share runs out: then a session whose pcb is idle waits for
an ACK that never comes.

Results:
* `awake_iff`: a run keeps every session awake exactly when memory is found
  for the first piece on every idle pcb.
* `pool_exhausted`: two connections take up the pool of segments, and a third
  stalls.
-/

namespace WSBridge

open WSBridge.Foundation
open Provider (Tunnel)

/-- The pcb has a byte that is queued or not acknowledged. -/
def Bridge.Busy (b : Bridge) (owner : Option ℕ) : Prop :=
  ∃ p ∈ b.pcbs, owner = some p.id ∧ 0 < p.queued

/-- The session `r`, made for the pcb `owner`, lives and has something
pending. -/
def Provider.Waits (p : Provider) (r : ℕ) (owner : Option ℕ) : Prop :=
  ∃ o, p.objects[r]? = some o ∧ o.owner = owner ∧ p.sessions o.session.connId = some r ∧
    o.session.dead = false ∧ o.session.pending ≠ none

/-- An ACK is to come for every session that waits. -/
def Awake (w : Tunnel) : Prop := ∀ r owner, w.swift.Waits r owner → w.bridge.Busy owner

/-- If the pcb in the slot is idle, memory is found for the first piece of the
data. -/
def FirstFits (L : Lwip) (b : Bridge) (slot : ℕ) (data : Bytes) : Prop :=
  ∀ p ∈ b.pcbs, b.holder slot = some p.id → p.queued = 0 →
    L.fits b.writes b.pcbs p.id (min 65535 data.length) = true

/-- A live session that starts to write, with a message or after an ACK, finds
memory for its first piece if its pcb is idle. -/
def Supplied (L : Lwip) (s : System) : SystemEvent → Prop
  | .block held =>
    match s.tunnel.swift.queue with
    | .wsData r data :: _ => ∀ session, s.tunnel.swift.weak held r = some session →
        session.dead = false → session.pending = none → data ≠ [] →
          FirstFits L s.bridge session.connId data
    | _ => True
  | .lwip (.sent id len) => ∀ p ∈ s.bridge.pcbs, p.id = id → ∀ r session data,
      s.tunnel.swift.session? p.arg = some (r, session) → session.pending = some data →
        data ≠ [] →
          FirstFits L (s.bridge.onPcb id fun p => { p with queued := p.queued - len }) p.arg data
  | _ => True

/-! ## Bytes that are queued -/

section

variable {L : Lwip} {b b' : Bridge} {owner : Option ℕ}

theorem Bridge.Busy.of_pcbs (h : b.Busy owner)
    (hpcbs : ∀ p ∈ b.pcbs, owner = some p.id →
      ∃ q ∈ b'.pcbs, q.id = p.id ∧ (0 < p.queued → 0 < q.queued)) : b'.Busy owner := by
  obtain ⟨p, hp, hid, hqueued⟩ := h
  obtain ⟨q, hq, hid', hmore⟩ := hpcbs p hp hid
  exact ⟨q, hq, by rw [hid, hid'], hmore hqueued⟩

theorem Bridge.Busy.same (h : b.Busy owner) (hpcbs : b'.pcbs = b.pcbs) : b'.Busy owner := by
  refine h.of_pcbs fun p hp _ => ⟨p, ?_, rfl, id⟩
  rw [hpcbs]
  exact hp

theorem Bridge.Busy.map (h : b.Busy owner) {f : Pcb → Pcb} (hpcbs : b'.pcbs = b.pcbs.map f)
    (hf : ∀ p ∈ b.pcbs, owner = some p.id → (f p).id = p.id ∧ (0 < p.queued → 0 < (f p).queued)) :
    b'.Busy owner := by
  refine h.of_pcbs fun p hp hid => ⟨f p, ?_, hf p hp hid⟩
  rw [hpcbs]
  exact List.mem_map_of_mem hp

theorem Bridge.Busy.filter (h : b.Busy owner) {p : Pcb}
    (hpcbs : b'.pcbs = b.pcbs.filter fun q => q.id ≠ p.id) (hne : owner ≠ some p.id) :
    b'.Busy owner := by
  refine h.of_pcbs fun q hq hid => ⟨q, ?_, rfl, id⟩
  rw [hpcbs, List.mem_filter]
  refine ⟨hq, decide_eq_true fun heq => hne ?_⟩
  rw [hid, heq]

/-- `tcp_write` takes all of the data or none. -/
theorem tcpWrite_spec (hs : Slots b) {p : Pcb} (hp : p ∈ b.pcbs) (len : ℕ) :
    (p.queued + len ≤ tcpSndBuf ∧ L.fits b.writes b.pcbs p.id len = true ∧
        (b.tcpWrite L p.id len).1 = true ∧
        (b.tcpWrite L p.id len).2.pcbs = b.pcbs.map fun q =>
          if q.id = p.id then { q with queued := q.queued + len } else q) ∨
      (¬ (p.queued + len ≤ tcpSndBuf ∧ L.fits b.writes b.pcbs p.id len = true) ∧
        (b.tcpWrite L p.id len).1 = false ∧ (b.tcpWrite L p.id len).2.pcbs = b.pcbs) := by
  have hfind : (b.logOp p.id .write).pcb? p.id = some p := hs.pcb?_of_mem hp
  unfold Bridge.tcpWrite
  dsimp only
  rw [hfind]
  dsimp only
  by_cases hok : p.queued + len ≤ tcpSndBuf ∧ L.fits b.writes b.pcbs p.id len = true
  · rw [if_pos (show _ ∧ L.fits (b.logOp p.id .write).writes (b.logOp p.id .write).pcbs _ _ = _
      from hok)]
    exact Or.inl ⟨hok.1, hok.2, rfl, rfl⟩
  · rw [if_neg (show ¬ (_ ∧ L.fits (b.logOp p.id .write).writes (b.logOp p.id .write).pcbs _ _ = _)
      from hok)]
    exact Or.inr ⟨hok, rfl, rfl⟩

theorem lwipBridgeWrite_fst {slot pcb : ℕ} (hholder : b.holder slot = some pcb) (data : Bytes) :
    (b.lwipBridgeWrite L slot data).1 = (b.tcpWrite L pcb data.length).1 ∧
      (b.lwipBridgeWrite L slot data).2.pcbs = (b.tcpWrite L pcb data.length).2.pcbs := by
  unfold Bridge.lwipBridgeWrite
  rw [show (b.connOfId slot).bind (·.pcb) = some pcb from hholder]
  dsimp only
  split <;> rename_i heq <;> rw [heq] <;> exact ⟨rfl, rfl⟩

theorem busy_write (hs : Slots b) (h : b.Busy owner) (slot : ℕ) (data : Bytes) :
    (b.lwipBridgeWrite L slot data).2.Busy owner := by
  cases hholder : b.holder slot with
  | none =>
    rw [lwipBridgeWrite_inactive hholder]
    exact h
  | some pcb =>
    obtain ⟨c, hc, hpcb⟩ := Option.bind_eq_some_iff.mp hholder
    obtain ⟨p, hp, hpcb', -⟩ := hs.pcb_of_connOfId hc
    obtain rfl := Option.some.inj (hpcb'.symm.trans hpcb)
    obtain ⟨-, hpcbs⟩ := lwipBridgeWrite_fst (L := L) hholder data
    rcases tcpWrite_spec (L := L) hs hp data.length with ⟨-, -, -, h'⟩ | ⟨-, -, h'⟩
    · refine h.map (hpcbs.trans h') fun q hq _ => ?_
      split_ifs
      · exact ⟨rfl, fun hqueued => Nat.add_pos_left hqueued _⟩
      · exact ⟨rfl, id⟩
    · exact h.same (hpcbs.trans h')

/-! ## The first piece -/

theorem firstPiece_length (data : Bytes) :
    (TunnelSession.piece data 0).length = min 65535 data.length := by
  rw [TunnelSession.piece, TunnelSession.subdata_length data (min_le_right _ _)]
  omega

theorem writeOrQueue_of_none {σ : Type*} (write : Bytes → σ → Bool × σ)
    {u : TunnelSession.Down σ} (hpending : u.session.pending = none) (data : Bytes) :
    (TunnelSession.writeOrQueue write u data).2.session.pending =
        (TunnelSession.writeLoop write data 0 u.world).1 ∧
      (TunnelSession.writeOrQueue write u data).2.world =
        (TunnelSession.writeLoop write data 0 u.world).2 := by
  unfold TunnelSession.writeOrQueue
  rw [hpending]
  dsimp only
  split <;> rename_i heq <;> rw [heq]
  · exact ⟨rfl, rfl⟩
  · exact ⟨hpending, rfl⟩

section

variable {u : TunnelSession.Down Tunnel} (hs : Slots u.world.bridge)
  (hpending : u.session.pending = none) {r slot : ℕ} {p : Pcb} (hp : p ∈ u.world.bridge.pcbs)
  (hholder : u.world.bridge.holder slot = some p.id) {data : Bytes}

include hs hpending hp hholder

/-- A session without pending data begins to write. -/
theorem writeOrQueue_wakes (hfits : data ≠ [] → FirstFits L u.world.bridge slot data)
    (hsome : (TunnelSession.writeOrQueue (Provider.bridgeWrite L r slot) u data).2.session.pending ≠
      none) :
    (TunnelSession.writeOrQueue (Provider.bridgeWrite L r slot) u data).2.world.bridge.Busy
      (some p.id) := by
  obtain ⟨hpending', hworld⟩ := writeOrQueue_of_none (Provider.bridgeWrite L r slot) hpending
    data
  have hkeep (data : Bytes) (x : Tunnel) (hx : Slots x.bridge ∧ x.bridge.Busy (some p.id)) :
      Slots (Provider.bridgeWrite L r slot data x).2.bridge ∧
        (Provider.bridgeWrite L r slot data x).2.bridge.Busy (some p.id) :=
    ⟨hx.1.quiet (lwipBridgeWrite_quiet L x.bridge slot data), busy_write hx.1 hx.2 slot data⟩
  obtain ⟨hok, hpcbs⟩ := lwipBridgeWrite_fst (L := L) hholder (TunnelSession.piece data 0)
  have hspec := tcpWrite_spec (L := L) hs hp (TunnelSession.piece data 0).length
  have hloop := TunnelSession.writeLoop_rule (Provider.bridgeWrite L r slot) (d := data)
    (I := fun off x => off = 0 ∧ x = u.world ∨ Slots x.bridge ∧ x.bridge.Busy (some p.id))
    (R := fun _ x => x.bridge.Busy (some p.id)) ?_ ?_ 0 u.world (Nat.zero_le _)
    (Or.inl ⟨rfl, rfl⟩)
  · rw [hpending'] at hsome
    rw [hworld]
    match hend : TunnelSession.writeLoop (Provider.bridgeWrite L r slot) data 0 u.world,
      hsome, hloop with
    | (some rest, x), _, ⟨_, _, _, h⟩ => exact h
    | (none, x), h, _ => exact absurd rfl h
  · rintro off x x' hlt (⟨rfl, rfl⟩ | hx) hwrite
    · right
      have hfst : (u.world.bridge.lwipBridgeWrite L slot (TunnelSession.piece data 0)).1 = true :=
        congrArg Prod.fst hwrite
      have hbridge : (u.world.bridge.lwipBridgeWrite L slot (TunnelSession.piece data 0)).2 =
          x'.bridge := congrArg (·.2.bridge) hwrite
      rcases hspec with ⟨-, -, -, hmap⟩ | ⟨-, hno, -⟩
      · rw [← hbridge]
        refine ⟨hs.quiet (lwipBridgeWrite_quiet L _ slot _),
          { p with queued := p.queued + (TunnelSession.piece data 0).length }, ?_, rfl, ?_⟩
        · rw [hpcbs, hmap]
          exact List.mem_map.mpr ⟨p, hp, if_pos rfl⟩
        · exact Nat.add_pos_right _ (TunnelSession.piece_length data hlt).1
      · rw [hok, hno] at hfst
        cases hfst
    · right
      have := hkeep (TunnelSession.piece data off) x hx
      rwa [hwrite] at this
  · rintro off x x' hlt (⟨rfl, rfl⟩ | hx) hwrite
    · have hfst : (u.world.bridge.lwipBridgeWrite L slot (TunnelSession.piece data 0)).1 = false :=
        congrArg Prod.fst hwrite
      have hbridge : (u.world.bridge.lwipBridgeWrite L slot (TunnelSession.piece data 0)).2 =
          x'.bridge := congrArg (·.2.bridge) hwrite
      rcases hspec with ⟨-, -, hyes, -⟩ | ⟨hno, -, hsame⟩
      · rw [hok, hyes] at hfst
        cases hfst
      · -- An idle pcb has room for any piece, so only shared memory can be short.
        have hqueued : 0 < p.queued := by
          by_contra hidle
          have hzero : p.queued = 0 := by omega
          have hfits' := hfits (List.ne_nil_of_length_pos hlt) p hp hholder hzero
          rw [firstPiece_length, hzero] at hno
          refine hno ⟨?_, hfits'⟩
          unfold tcpSndBuf
          omega
        have hbusy : u.world.bridge.Busy (some p.id) := ⟨p, hp, rfl, hqueued⟩
        rw [← hbridge]
        exact hbusy.same (hpcbs.trans hsame)
    · have := hkeep (TunnelSession.piece data off) x hx
      rw [hwrite] at this
      exact this.2

/-- An idle pcb for which no memory is found: the first piece is refused, and
with it everything. -/
theorem writeOrQueue_stalls (hdata : data ≠ []) (hidle : p.queued = 0)
    (hfits :
      ¬ L.fits u.world.bridge.writes u.world.bridge.pcbs p.id (min 65535 data.length) = true) :
    (TunnelSession.writeOrQueue (Provider.bridgeWrite L r slot) u data).2.session.pending ≠ none ∧
      ¬ (TunnelSession.writeOrQueue (Provider.bridgeWrite L r slot) u data).2.world.bridge.Busy
        (some p.id) := by
  obtain ⟨hpending', hworld⟩ := writeOrQueue_of_none (Provider.bridgeWrite L r slot) hpending
    data
  have hlt : 0 < data.length := List.length_pos_iff.mpr hdata
  obtain ⟨hok, hpcbs⟩ := lwipBridgeWrite_fst (L := L) hholder (TunnelSession.piece data 0)
  rcases tcpWrite_spec (L := L) hs hp (TunnelSession.piece data 0).length with
    ⟨-, h, -⟩ | ⟨-, hno, hsame⟩
  · rw [firstPiece_length] at h
    exact absurd h hfits
  · have hrefused : Provider.bridgeWrite L r slot (TunnelSession.piece data 0) u.world =
        (false, (Provider.bridgeWrite L r slot (TunnelSession.piece data 0) u.world).2) :=
      Prod.ext (hok.trans hno) rfl
    rw [TunnelSession.writeLoop_refused hlt hrefused] at hpending' hworld
    rw [hpending', hworld]
    refine ⟨nofun, ?_⟩
    rintro ⟨q, hq, hid, hqueued⟩
    have hq' : q ∈ u.world.bridge.pcbs := by
      rw [← hsame, ← hpcbs]
      exact hq
    rw [← hs.eq_of_id hp hq' (Option.some.inj hid), hidle] at hqueued
    exact Nat.lt_irrefl 0 hqueued

end

end

/-! ## Sessions that wait -/

section

variable {w w' : Tunnel} {r : ℕ} {o : SessionObject} {owner : Option ℕ}

/-- A session that waits is in its slot. -/
theorem Linked.own_pcb (hl : Linked w) (hw : w.swift.Waits r owner) :
    ∃ p ∈ w.bridge.pcbs,
      owner = some p.id ∧ p.accepted = true ∧ w.swift.sessions p.arg = some r := by
  obtain ⟨o, ho, rfl, hr, halive, hsome⟩ := hw
  have hws := (hl.coherent r o ho).paced halive hsome
  obtain ⟨-, c, hc⟩ := hl.live r o ho halive hws
  obtain ⟨p, hp, hpcb, hacc, harg, -⟩ := hl.slots.pcb_of_connOfId hc
  exact ⟨p, hp, (hl.owner _ r o hr ho c hc).1.symm.trans hpcb, hacc, harg ▸ hr⟩

theorem Linked.waits_arg (hl : Linked w) {p : Pcb} (hp : p ∈ w.bridge.pcbs)
    (hw : w.swift.Waits r (some p.id)) :
    p.accepted = true ∧ w.swift.sessions p.arg = some r := by
  obtain ⟨q, hq, hid, hacc, hr⟩ := hl.own_pcb hw
  obtain rfl := hl.slots.eq_of_id hp hq (Option.some.inj hid)
  exact ⟨hacc, hr⟩

theorem Awake.of_waits (ha : Awake w)
    (hwaits : ∀ k owner, w'.swift.Waits k owner → w.swift.Waits k owner)
    (hbusy : ∀ k owner, w'.swift.Waits k owner → w.bridge.Busy owner → w'.bridge.Busy owner) :
    Awake w' :=
  fun k owner h => hbusy k owner h (ha k owner (hwaits k owner h))

/-- Who waits after a change of the session `r`. -/
theorem update_waits {session : TunnelSession} (hobjects : w'.swift.objects =
      w.swift.objects.modify r fun o => { o with session })
    (hsessions : w'.swift.sessions = w.swift.sessions) (ho : w.swift.objects[r]? = some o)
    (k : ℕ) (owner : Option ℕ) :
    w'.swift.Waits k owner ↔ (k ≠ r ∧ w.swift.Waits k owner) ∨
      (k = r ∧ o.owner = owner ∧ w.swift.sessions session.connId = some r ∧
        session.dead = false ∧ session.pending ≠ none) := by
  unfold Provider.Waits
  rw [hobjects, hsessions]
  by_cases hk : k = r
  · subst hk
    rw [List.getElem?_modify_eq, ho]
    constructor
    · rintro ⟨o', ho', howner, hrest⟩
      obtain rfl := Option.some.inj ho'
      exact Or.inr ⟨rfl, howner, hrest⟩
    · rintro (⟨hne, -⟩ | ⟨-, howner, hrest⟩)
      · exact absurd rfl hne
      · exact ⟨_, rfl, howner, hrest⟩
  · rw [List.getElem?_modify_ne _ _ (Ne.symm hk)]
    constructor
    · exact fun h => Or.inl ⟨hk, h⟩
    · rintro (⟨-, h⟩ | ⟨heq, -⟩)
      · exact h
      · exact absurd heq hk

/-- A session that has as much to wait for as before. -/
theorem Awake.update (ha : Awake w) (ho : w.swift.objects[r]? = some o) {session : TunnelSession}
    (hconnId : session.connId = o.session.connId) (hdead : session.dead = o.session.dead)
    (hpending : session.pending = o.session.pending) (log : EventLog) :
    Awake (Provider.update w r session log) := by
  refine ha.of_waits ?_ fun k owner _ hbusy => hbusy
  intro k owner h
  have hobjects : (Provider.update w r session log).swift.objects =
      w.swift.objects.modify r fun o => { o with session } := rfl
  rcases (update_waits hobjects rfl ho k owner).mp h with ⟨-, h⟩ | ⟨rfl, howner, hrest⟩
  · exact h
  · rw [hconnId, hdead, hpending] at hrest
    exact ⟨o, ho, howner, hrest⟩

/-- A session closes the connection in its slot, and waits no longer. -/
theorem Awake.closing (hl : Linked w) (ha : Awake w) (L : Lwip) {session : TunnelSession}
    (ho : w.swift.objects[r]? = some o) (hr : w.swift.sessions o.session.connId = some r)
    (hover : session.dead = true ∨ session.pending = none) (log : EventLog) :
    Awake (Provider.bridgeClose L r o.session.connId (Provider.update w r session log)) := by
  have hwaits (k : ℕ) (owner : Option ℕ) (h : Provider.Waits (Provider.bridgeClose L r
      o.session.connId (Provider.update w r session log)).swift k owner) :
      k ≠ r ∧ w.swift.Waits k owner := by
    have hobjects : (Provider.bridgeClose L r o.session.connId
        (Provider.update w r session log)).swift.objects =
          w.swift.objects.modify r fun o => { o with session } := rfl
    rcases (update_waits hobjects rfl ho k owner).mp h with h | ⟨-, -, -, halive, hsome⟩
    · exact h
    · rcases hover with hdead | hnone
      · rw [hdead] at halive
        cases halive
      · exact absurd hnone hsome
  refine ha.of_waits (fun k owner h => (hwaits k owner h).2) ?_
  intro k owner h hbusy
  obtain ⟨hk, hw⟩ := hwaits k owner h
  show (w.bridge.lwipBridgeClose L o.session.connId).Busy owner
  cases close_effect (L := L) hl.slots o.session.connId with
  | quiet hpass _ =>
    rw [lwipBridgeClose_inactive hpass]
    exact hbusy
  | @close _ c p _ htorn =>
    refine hbusy.filter htorn.pcbs ?_
    rintro rfl
    obtain ⟨p', hp', hpcb, -, harg, -⟩ := hl.slots.conn _ c htorn.conn htorn.active
    obtain rfl := hl.slots.eq_of_id hp' htorn.mem (Option.some.inj (hpcb.symm.trans htorn.pcb))
    obtain ⟨-, hk'⟩ := hl.waits_arg htorn.mem hw
    rw [harg, hr] at hk'
    exact hk (Option.some.inj hk').symm

/-- The connection in a slot ends. -/
theorem Awake.ended (hl : Linked w) (ha : Awake w) {p : Pcb} (hp : p ∈ w.bridge.pcbs)
    {f : Bridge → Bridge} (hpcbs : (f w.bridge).pcbs = w.bridge.pcbs.filter fun q => q.id ≠ p.id) :
    Awake ((Provider.handleClose p.arg w).onBridge f) := by
  rw [Provider.handleClose_onBridge]
  obtain ⟨hobjects, hsessions, -, -⟩ := hl.handleClose_swift p.arg
  have hwaits (k : ℕ) (owner : Option ℕ)
      (h : (Provider.handleClose p.arg w).swift.Waits k owner) :
      w.swift.sessions p.arg ≠ some k ∧ w.swift.Waits k owner := by
    obtain ⟨o', ho', howner, hr, halive, hsome⟩ := h
    rw [hobjects] at ho'
    obtain ⟨o, ho, heq⟩ := Option.map_eq_some_iff.mp ho'
    split_ifs at heq with hshut
    · subst heq
      cases halive
    · subst heq
      rw [hsessions] at hr
      have hi : o.session.connId ≠ p.arg := by
        intro hi
        rw [hi, Function.update_self] at hr
        cases hr
      rw [Function.update_of_ne hi] at hr
      exact ⟨hshut, o, ho, howner, hr, halive, hsome⟩
  refine ha.of_waits (fun k owner h => (hwaits k owner h).2) ?_
  intro k owner h hbusy
  obtain ⟨hk, hw⟩ := hwaits k owner h
  show (f w.bridge).Busy owner
  refine hbusy.filter hpcbs ?_
  rintro rfl
  exact hk (hl.waits_arg hp hw).2

/-- A session in its slot writes: the others stay awake, and it does when it
has bytes queued afterwards or nothing pending. -/
theorem writing_awake {L : Lwip} (hs : Slots w.bridge) (ho : w.swift.objects[r]? = some o)
    (hr : w.swift.sessions o.session.connId = some r) (halive : o.session.dead = false)
    (hothers : ∀ k owner, k ≠ r → w.swift.Waits k owner → w.bridge.Busy owner)
    {f : (Bytes → Tunnel → Bool × Tunnel) → TunnelSession.Down Tunnel → TunnelSession.Down Tunnel}
    (hf : ∀ (Q : Tunnel → Prop),
      (∀ data x, Q x → Q (Provider.bridgeWrite L r o.session.connId data x).2) → Q w →
      TunnelSession.OnlyWrites Q ⟨o.session, w.swift.log, w⟩
        (f (Provider.bridgeWrite L r o.session.connId) ⟨o.session, w.swift.log, w⟩))
    {v : TunnelSession.Down Tunnel}
    (hv : f (Provider.bridgeWrite L r o.session.connId) ⟨o.session, w.swift.log, w⟩ = v) :
    Awake (Provider.writing L w r o.session f) ↔
      (v.session.pending ≠ none → v.world.bridge.Busy o.owner) := by
  rw [hv] at hf
  have hwriting : Provider.writing L w r o.session f =
      Provider.update v.world r v.session v.log := by
    unfold Provider.writing
    dsimp only
    rw [hv]
  rw [hwriting]
  obtain ⟨⟨hobjects, hsessions⟩, pending, hsession⟩ := hf
    (fun x => x.swift.objects = w.swift.objects ∧ x.swift.sessions = w.swift.sessions)
    (fun _ _ h => h) ⟨rfl, rfl⟩
  have hwaits (k : ℕ) (owner : Option ℕ) :
      (Provider.update v.world r v.session v.log).swift.Waits k owner ↔
        (k ≠ r ∧ w.swift.Waits k owner) ∨
          (k = r ∧ o.owner = owner ∧ v.session.pending ≠ none) := by
    have hmodify : (Provider.update v.world r v.session v.log).swift.objects =
        w.swift.objects.modify r fun o => { o with session := v.session } :=
      congrArg (List.modify · r _) hobjects
    rw [update_waits hmodify hsessions ho]
    have hconnId : v.session.connId = o.session.connId := by
      rw [show v.session = _ from hsession]
    have hdead : v.session.dead = o.session.dead := by
      rw [show v.session = _ from hsession]
    rw [hconnId, hdead]
    simp [hr, halive]
  constructor
  · intro ha hsome
    exact ha r o.owner ((hwaits r o.owner).mpr (Or.inr ⟨rfl, rfl, hsome⟩))
  · intro hself k owner h
    rcases (hwaits k owner).mp h with ⟨hk, h⟩ | ⟨-, rfl, hsome⟩
    · have hkeep := hf (fun x => Slots x.bridge ∧ x.bridge.Busy owner)
        (fun data x hx => ⟨hx.1.quiet (lwipBridgeWrite_quiet L x.bridge _ data),
          busy_write hx.1 hx.2 _ data⟩) ⟨hs, hothers k owner hk h⟩
      exact hkeep.world.2
    · exact hself hsome

/-- A session in its slot starts to write `data`: all are awake afterwards
exactly when memory is found. -/
theorem starting_awake {L : Lwip} (hl : Linked w) (ho : w.swift.objects[r]? = some o)
    (hr : w.swift.sessions o.session.connId = some r) (halive : o.session.dead = false)
    (hactive : ∃ c, w.bridge.connOfId o.session.connId = some c)
    (hothers : ∀ k owner, k ≠ r → w.swift.Waits k owner → w.bridge.Busy owner)
    {f : (Bytes → Tunnel → Bool × Tunnel) → TunnelSession.Down Tunnel → TunnelSession.Down Tunnel}
    (hf : ∀ (Q : Tunnel → Prop),
      (∀ data x, Q x → Q (Provider.bridgeWrite L r o.session.connId data x).2) → Q w →
      TunnelSession.OnlyWrites Q ⟨o.session, w.swift.log, w⟩
        (f (Provider.bridgeWrite L r o.session.connId) ⟨o.session, w.swift.log, w⟩))
    {session : TunnelSession} {log : EventLog} {data : Bytes} (hpending : session.pending = none)
    (hstart : f (Provider.bridgeWrite L r o.session.connId) ⟨o.session, w.swift.log, w⟩ =
      (TunnelSession.writeOrQueue (Provider.bridgeWrite L r o.session.connId)
        ⟨session, log, w⟩ data).2) :
    Awake (Provider.writing L w r o.session f) ↔
      (data ≠ [] → FirstFits L w.bridge o.session.connId data) := by
  obtain ⟨c, hc⟩ := hactive
  obtain ⟨p, hp, hpcb, -⟩ := hl.slots.pcb_of_connOfId hc
  have howner : o.owner = some p.id := (hl.owner _ r o hr ho c hc).1.symm.trans hpcb
  have hholder : w.bridge.holder o.session.connId = some p.id := by
    unfold Bridge.holder
    rw [hc]
    exact hpcb
  rw [writing_awake hl.slots ho hr halive hothers hf hstart, howner]
  constructor
  · intro hbusy hdata q hq hslot hidle
    obtain rfl := hl.slots.eq_of_id hp hq (Option.some.inj (hholder.symm.trans hslot))
    by_contra hfits
    obtain ⟨hsome, hstalled⟩ := writeOrQueue_stalls (L := L) (r := r)
      (u := ⟨session, log, w⟩) hl.slots hpending hp hholder hdata hidle hfits
    exact hstalled (hbusy hsome)
  · intro hfits hsome
    exact writeOrQueue_wakes (u := ⟨session, log, w⟩) hl.slots hpending hp hholder hfits hsome

/-! ## Blocks -/

/-- The block of a message. -/
theorem Awake.wsData (hl : Linked w) (ha : Awake w) (L : Lwip) (held : Bool) {data : Bytes}
    (hknown : w.swift.Known (.wsData r data)) :
    Awake (Provider.runBlock L held w (.wsData r data)) ↔
      ∀ session, w.swift.weak held r = some session → session.dead = false →
        session.pending = none → data ≠ [] → FirstFits L w.bridge session.connId data := by
  unfold Provider.runBlock
  dsimp only
  cases hweak : w.swift.weak held r with
  | none => exact iff_of_true ha nofun
  | some session =>
    obtain ⟨o, ho, rfl⟩ := Provider.weak_eq_some hweak
    dsimp only
    by_cases hdead : o.session.dead = true
    · refine iff_of_true ?_ ?_
      · have hskip : Provider.writing L w r o.session
            (fun write u => TunnelSession.wsDataBlock write u data) =
              Provider.update w r o.session w.swift.log := by
          unfold Provider.writing TunnelSession.wsDataBlock
          dsimp only
          rw [if_pos hdead]
        rw [hskip]
        exact ha.update ho rfl rfl rfl _
      · intro session heq halive
        obtain rfl := Option.some.inj heq
        rw [hdead] at halive
        cases halive
    · have halive := eq_false_of_ne_true hdead
      obtain ⟨hr, hactive, -⟩ := hl.in_slot ho halive hknown
      have hf (Q : Tunnel → Prop)
          (hQ : ∀ data x, Q x → Q (Provider.bridgeWrite L r o.session.connId data x).2)
          (hw : Q w) :=
        TunnelSession.wsDataBlock_onlyWrites hQ ⟨o.session, w.swift.log, w⟩ data hw
      have hblock : TunnelSession.wsDataBlock (Provider.bridgeWrite L r o.session.connId)
          ⟨o.session, w.swift.log, w⟩ data =
            (TunnelSession.writeOrQueue (Provider.bridgeWrite L r o.session.connId)
              ⟨o.session, { w.swift.log with wsDown := w.swift.log.wsDown + data.length }, w⟩
              data).2 := if_neg hdead
      have hothers (k : ℕ) (owner : Option ℕ) (_ : k ≠ r) (h : w.swift.Waits k owner) :
          w.bridge.Busy owner := ha k owner h
      by_cases hpending : o.session.pending = none
      · rw [starting_awake hl ho hr halive hactive hothers
          (f := fun write u => TunnelSession.wsDataBlock write u data) hf hpending hblock]
        constructor
        · rintro hfits session heq - -
          obtain rfl := Option.some.inj heq
          exact hfits
        · exact fun h => h o.session rfl halive hpending
      · refine iff_of_true ?_ ?_
        · -- What is pending only grows, and the ACK that it waits for is still to come.
          rw [writing_awake hl.slots ho hr halive hothers
            (f := fun write u => TunnelSession.wsDataBlock write u data) hf hblock]
          obtain ⟨pending, hsome⟩ := Option.ne_none_iff_exists'.mp hpending
          intro _
          have hworld : (TunnelSession.writeOrQueue (Provider.bridgeWrite L r o.session.connId)
              ⟨o.session, { w.swift.log with wsDown := w.swift.log.wsDown + data.length }, w⟩
              data).2.world = w := by
            unfold TunnelSession.writeOrQueue
            dsimp only
            rw [hsome]
          rw [hworld]
          exact ha r o.owner ⟨o, ho, rfl, hr, halive, hpending⟩
        · intro session heq _ hnone
          obtain rfl := Option.some.inj heq
          exact absurd hnone hpending

/-- The block of the end of the web socket. -/
theorem Awake.wsClose (hl : Linked w) (ha : Awake w) (L : Lwip) (held : Bool)
    (hknown : w.swift.Known (.wsClose r)) : Awake (Provider.runBlock L held w (.wsClose r)) := by
  unfold Provider.runBlock
  dsimp only
  split
  · rename_i session hweak
    obtain ⟨o, ho, rfl⟩ := Provider.weak_eq_some hweak
    by_cases hdead : o.session.dead = true
    · have hskip : o.session.wsCloseBlock = (o.session, []) := if_pos hdead
      rw [hskip]
      exact ha.update ho rfl rfl rfl _
    · have hclose : o.session.wsCloseBlock =
          ({ o.session with dead := true }, [.bridgeClose o.session.connId]) := if_neg hdead
      obtain ⟨hr, -⟩ := hl.in_slot ho (eq_false_of_ne_true hdead) hknown
      rw [hclose]
      exact Awake.closing hl ha L ho hr (Or.inl rfl) _
  · exact ha

/-- After `stopTunnel` no session is in a slot. -/
theorem Awake.stop (w : Tunnel) : Awake { w with swift := w.swift.stopTunnel } := by
  rintro k owner ⟨o, -, -, hr, -⟩
  cases hr

/-! ## Events of lwIP's -/

theorem Awake.bridge (ha : Awake w) {b : Bridge}
    (hbusy : ∀ k owner, w.swift.Waits k owner → w.bridge.Busy owner → b.Busy owner) :
    Awake ⟨w.swift, b⟩ :=
  ha.of_waits (fun _ _ h => h) hbusy

/-- Data of the client never makes a session wait. -/
theorem Awake.recv (hl : Linked w) (ha : Awake w) (L : Lwip) (ks : Keystream) (slot : ℕ)
    (data : Bytes) : Awake (Provider.handleRecv L ks slot data w) := by
  unfold Provider.handleRecv
  split
  · rename_i r session hsession
    obtain ⟨hr, o, ho, rfl⟩ := Provider.session?_eq_some hsession
    obtain ⟨o', ho', rfl⟩ := hl.filed slot r hr
    obtain rfl := Option.some.inj (ho.symm.trans ho')
    dsimp only
    have hcoherent := hl.coherent r o ho
    by_cases hrejects : o.session.Rejects ks data
    · obtain ⟨heffects, hsession⟩ :=
        TunnelSession.handleData_rejects w.swift.log hrejects
      rw [heffects, hsession]
      -- A stream without an init has no web socket, so nothing came for it.
      let session := { o.session with initBuffer := o.session.initBuffer ++ data }
      have hover : session.dead = true ∨ session.pending = none := by
        by_contra hwaits
        obtain ⟨halive, hsome⟩ := not_or.mp hwaits
        have hws := hcoherent.paced (eq_false_of_ne_true halive) hsome
        have hparsed := hcoherent.parsed hrejects.1 hws
        rw [hrejects.2.1] at hparsed
        cases hparsed
      exact Awake.closing hl ha L ho hr hover _
    · obtain ⟨hharmless, -⟩ :=
        TunnelSession.handleData_spec w.swift.log hrejects hcoherent
      have hkept := TunnelSession.handleData_kept ks ⟨o.session, w.swift.log, []⟩ data
      rw [Provider.perform_harmless hharmless]
      exact ha.update ho (congrArg TunnelSession.Kept.connId hkept)
        (congrArg TunnelSession.Kept.dead hkept) (congrArg TunnelSession.Kept.pending hkept) _
  · exact ha

/-- An ACK: the sessions of other pcbs still wait for theirs. -/
theorem Linked.busy_others (hl : Linked w) (ha : Awake w) {p : Pcb} (hp : p ∈ w.bridge.pcbs)
    (len k : ℕ) (owner : Option ℕ) (hk : w.swift.sessions p.arg ≠ some k)
    (h : w.swift.Waits k owner) :
    (w.bridge.onPcb p.id fun p => { p with queued := p.queued - len }).Busy owner := by
  refine (ha k owner h).map rfl fun q _ hid => ?_
  rw [if_neg]
  · exact ⟨rfl, id⟩
  · intro heq
    rw [heq] at hid
    subst hid
    exact hk (hl.waits_arg hp h).2

/-- The sent callback of a pcb. -/
theorem Awake.sent (hl : Linked w) (ha : Awake w) (L : Lwip) {p : Pcb} (hp : p ∈ w.bridge.pcbs)
    (hacc : p.accepted = true) (len : ℕ) {b : Bridge}
    (hb : b = w.bridge.onPcb p.id fun p => { p with queued := p.queued - len })
    (hl' : Linked ⟨w.swift, b⟩) :
    Awake (Provider.handleSent L p.arg ⟨w.swift, b⟩) ↔
      ∀ r session data, w.swift.session? p.arg = some (r, session) → session.pending = some data →
        data ≠ [] → FirstFits L b p.arg data := by
  have hbusy (k : ℕ) (owner : Option ℕ) (hk : w.swift.sessions p.arg ≠ some k)
      (h : w.swift.Waits k owner) : b.Busy owner := by
    rw [hb]
    exact hl.busy_others ha hp len k owner hk h
  unfold Provider.handleSent
  dsimp only
  cases hsession : w.swift.session? p.arg with
  | none =>
    refine iff_of_true (ha.bridge fun k owner h _ => hbusy k owner ?_ h) nofun
    intro hk
    obtain ⟨o, ho, -⟩ := hl.filed _ k hk
    unfold Provider.session? at hsession
    rw [hk, Option.bind_some, ho] at hsession
    cases hsession
  | some found =>
    obtain ⟨r, session⟩ := found
    obtain ⟨hr, o, ho, rfl⟩ := Provider.session?_eq_some hsession
    obtain ⟨o', ho', hid⟩ := hl.filed p.arg r hr
    obtain rfl := Option.some.inj (ho.symm.trans ho')
    dsimp only
    cases hpending : o.session.pending with
    | none =>
      refine iff_of_true ?_ ?_
      · have hskip : Provider.writing L ⟨w.swift, b⟩ r o.session
            (fun write u => TunnelSession.handleSent write u) =
              Provider.update ⟨w.swift, b⟩ r o.session
                { w.swift.log with sentCb := w.swift.log.sentCb + 1 } := by
          unfold Provider.writing TunnelSession.handleSent
          dsimp only
          rw [hpending]
        rw [hskip]
        have hawake : Awake ⟨w.swift, b⟩ := ha.bridge fun k owner h _ => hbusy k owner (by
          rintro hk
          obtain rfl := Option.some.inj (hr.symm.trans hk)
          obtain ⟨o', ho', -, -, -, hsome⟩ := h
          obtain rfl := Option.some.inj (ho.symm.trans ho')
          exact hsome hpending) h
        exact hawake.update ho rfl rfl rfl _
      · intro r' session' data heq hsome
        obtain ⟨rfl, rfl⟩ := Prod.mk.inj (Option.some.inj heq)
        rw [hpending] at hsome
        cases hsome
    | some data =>
      obtain ⟨c, hc, -⟩ := hl'.slots.connOfId (p := { p with queued := p.queued - len }) (by
        rw [show (⟨w.swift, b⟩ : Tunnel).bridge = _ from hb]
        exact List.mem_map.mpr ⟨p, hp, if_pos rfl⟩) hacc
      have halive := (hl'.owner _ r o hr ho c hc).2
      have hr' : w.swift.sessions o.session.connId = some r := by rw [hid, hr]
      have hf (Q : Tunnel → Prop)
          (hQ : ∀ data x, Q x → Q (Provider.bridgeWrite L r o.session.connId data x).2)
          (hw : Q ⟨w.swift, b⟩) :=
        TunnelSession.handleSent_onlyWrites hQ ⟨o.session, w.swift.log, ⟨w.swift, b⟩⟩ hw
      have hstart : TunnelSession.handleSent (Provider.bridgeWrite L r o.session.connId)
          ⟨o.session, w.swift.log, ⟨w.swift, b⟩⟩ =
            (TunnelSession.writeOrQueue (Provider.bridgeWrite L r o.session.connId)
              ⟨{ o.session with pending := none },
                { w.swift.log with sentCb := w.swift.log.sentCb + 1, pendCur := 0 },
                ⟨w.swift, b⟩⟩ data).2 := by
        unfold TunnelSession.handleSent
        dsimp only
        rw [hpending]
      rw [starting_awake hl' ho hr' halive ⟨c, hid.symm ▸ hc⟩
        (fun k owner hk h => hbusy k owner (fun hk' => hk (Option.some.inj (hk'.symm.trans hr))) h)
        (f := fun write u => TunnelSession.handleSent write u) hf rfl hstart, hid]
      constructor
      · intro hfits r' session' data' heq hsome
        obtain ⟨rfl, rfl⟩ := Prod.mk.inj (Option.some.inj heq)
        obtain rfl := Option.some.inj (hpending.symm.trans hsome)
        exact hfits
      · exact fun h => h r o.session data rfl hpending

/-- A connection is accepted: its session has nothing pending. -/
theorem Awake.accept (hl : Linked w) (ha : Awake w) {p : Pcb} (hp : p ∈ w.bridge.pcbs)
    (slot : ℕ) : Awake (Provider.handleAccept slot (w.onBridge (·.acceptInto p slot))) := by
  refine ha.of_waits ?_ ?_
  · rintro k owner ⟨o, ho, howner, hr, halive, hsome⟩
    rcases getElem?_concat_cases ho with ho | ⟨-, rfl⟩
    · refine ⟨o, ho, howner, ?_, halive, hsome⟩
      have hi : o.session.connId ≠ slot := by
        rintro rfl
        have hlast := Function.update_self o.session.connId (some w.swift.objects.length)
          w.swift.sessions
        have hk : k < w.swift.objects.length := (List.getElem?_eq_some_iff.mp ho).1
        have heq := Option.some.inj (hlast.symm.trans hr)
        omega
      exact (Function.update_of_ne hi _ _).symm.trans hr
    · exact absurd rfl hsome
  · intro k owner _ hbusy
    refine hbusy.map (accepted_acceptInto w.bridge p slot).pcbs fun q hq _ => ?_
    split_ifs with hid
    · rw [hl.slots.eq_of_id hq hp hid]
      exact ⟨rfl, id⟩
    · exact ⟨rfl, id⟩

/-- What lwIP does leaves all awake, unless it acknowledges data of a session
that finds no memory to go on. -/
theorem Awake.lwip {s : System} (hl : Linked s.tunnel) (ha : Awake s.tunnel) {L : Lwip}
    {ks : Keystream} {e : LwipEvent} {r : Tunnel × Option Returned}
    (hstep : lwipStep L (Provider.handlers L ks) s.tunnel e = some r) :
    Awake r.1 ↔ Supplied L s (.lwip e) := by
  cases hl.effect hstep with
  | halfOpen given unclaimed =>
    refine iff_of_true (ha.bridge fun _ _ _ hbusy => ?_) trivial
    exact hbusy.of_pcbs fun p hp _ => ⟨p, List.mem_append_left _ hp, rfl, id⟩
  | accept p slot hphase hp => exact iff_of_true (Awake.accept hl ha hp slot) trivial
  | acceptFailed => exact iff_of_true ha trivial
  | fin p c hfin hp hacc htorn => exact iff_of_true (Awake.ended hl ha hp htorn.pcbs) trivial
  | data p d malloc =>
    have hrecv : Awake (if malloc = true then Provider.handleRecv L ks p.arg d s.tunnel
        else s.tunnel) := by
      split_ifs
      · exact Awake.recv hl ha L ks p.arg d
      · exact ha
    exact iff_of_true (hrecv.bridge fun _ _ _ hbusy => hbusy.same rfl) trivial
  | freed p c hp hacc htorn => exact iff_of_true (Awake.ended hl ha hp htorn.pcbs) trivial
  | dropped p hp hhalf =>
    refine iff_of_true (ha.bridge fun k owner h hbusy => hbusy.filter rfl ?_) trivial
    rintro rfl
    rw [(hl.waits_arg hp h).1] at hhalf
    cases hhalf
  | sent p len hp hacc =>
    have hl' := hl.bridge (slots_step hl.slots (lwipStep_sent_idle hstep)) fun _ => rfl
    refine (Awake.sent hl ha L hp hacc len rfl hl').trans ⟨?_, fun h => h p hp rfl⟩
    intro h q hq hid
    rw [hl.slots.eq_of_id hq hp hid]
    exact h
  | emit p packet =>
    exact iff_of_true (ha.bridge fun _ _ _ hbusy => hbusy.same rfl) trivial

end

/-! ## Runs -/

section

variable {L : Lwip} {ks : Keystream}

theorem lwipBridgeInput_pcbs (b : Bridge) (data : Bytes) (malloc pbuf : Bool) :
    (b.lwipBridgeInput data malloc pbuf).pcbs = b.pcbs := by
  unfold Bridge.lwipBridgeInput
  dsimp only
  split_ifs <;> rfl

/-- One event of the tunnel leaves all sessions awake exactly when they are
supplied. -/
theorem Awake.step {s s' : System} (hl : Linked s.tunnel) (ha : Awake s.tunnel)
    {e : SystemEvent} (hstep : s.step L ks e = some s') :
    Awake s'.tunnel ↔ Supplied L s e := by
  have hpost (block : Block) : Awake (s.post block).tunnel :=
    ha.of_waits (fun _ _ h => h) fun _ _ _ hbusy => hbusy
  cases System.effect hstep with
  | wsData => exact iff_of_true (hpost _) trivial
  | wsClose => exact iff_of_true (hpost _) trivial
  | stop => exact iff_of_true (hpost _) trivial
  | block held block queue hqueue =>
    obtain ⟨hpop, hknown⟩ := hl.pop hqueue
    have hawake : Awake { s.tunnel with swift.queue := queue } :=
      ha.of_waits (fun _ _ h => h) fun _ _ _ hbusy => hbusy
    unfold Supplied
    rw [hqueue]
    cases block with
    | wsData r data => exact Awake.wsData hpop hawake L held hknown
    | wsClose r => exact iff_of_true (Awake.wsClose hpop hawake L held hknown) trivial
    | stop => exact iff_of_true (Awake.stop _) trivial
  | input data malloc pbuf =>
    refine iff_of_true (ha.bridge fun _ _ _ hbusy => hbusy.same ?_) trivial
    exact lwipBridgeInput_pcbs s.bridge data malloc pbuf
  | poll => exact iff_of_true (ha.bridge fun _ _ _ hbusy => hbusy.same rfl) trivial
  | done => exact iff_of_true (ha.bridge fun _ _ _ hbusy => hbusy.same rfl) trivial
  | lwip e r hlwip => exact ha.lwip hl hlwip

end

/-- In every state of a run an ACK is to come for each session that waits,
exactly when sessions that start to write on an idle pcb find memory. -/
theorem awake_iff (L : Lwip) (ks : Keystream) (workerDomain : Option String)
    (events : List SystemEvent) :
    EveryState (System.step L ks) (fun s => Awake s.tunnel) (System.init workerDomain) events ↔
      EveryStep (System.step L ks) (Supplied L) (System.init workerDomain) events := by
  refine everyState_iff_everyStep (I := fun s => Linked s.tunnel) ?_ ?_ events _
    (linked_init workerDomain) ?_
  · intro s e s' hl ha hstep
    exact ha.step hl hstep
  · intro s e s' hl _ _ hstep
    exact (hl.step hstep).1
  · rintro r owner ⟨o, ho, -⟩
    cases ho

/-- The segments of a row of bytes on a connection whose SYN had no MSS option:
they have 536 bytes, whatever `TCP_MSS` is. -/
def segments (len : ℕ) : ℕ := (len + 535) / 536

/-- An lwIP with the pool of `lwipopts.h`: `MEMP_NUM_TCP_SEG` segments for all
pcbs (line 21). -/
def segmentPool : Lwip :=
  Lwip.withMemory fun _ pcbs _ len =>
    (pcbs.map fun p => segments p.queued).sum + segments len ≤ 256

/-- A connection is opened, sends a byte, and gets 65535 bytes that the client
does not acknowledge. -/
def download (k : ℕ) : List SystemEvent :=
  let client := (0x0A000001, 40000 + k.toUInt16)
  let server := (0x959AA733, 443)
  connection k client server ++
    [.input (tcpPacket 0x18 client server ++ [1]) true true, .lwip (.recv k (some [1]) 0 true),
      .done, .wsData k (List.replicate 65535 0), .block false]

set_option synthInstance.maxSize 256 in
/-- Three connections to a worker: two take 246 of the 256 segments, the third
needs 123, is refused, and has nothing in flight that an ACK could be for. -/
theorem pool_exhausted :
    ¬ ∀ (L : Lwip) (ks : Keystream) (workerDomain : Option String) (events : List SystemEvent)
      (s : System),
      run (System.step L ks) (System.init workerDomain) events = some s → Awake s.tunnel := by
  intro h
  have hrun : (run (System.step segmentPool fun _ _ _ => 0) (System.init (some "worker"))
      ((List.range 3).flatMap download)).map (fun s =>
        (s.tunnel.swift.objects[2]?.map fun o => (o.owner, s.tunnel.swift.sessions o.session.connId,
          o.session.dead, o.session.pending.isSome),
          (s.tunnel.bridge.pcbs.filter fun p => some 2 = some p.id).map (·.queued))) =
      some (some (some 2, some 2, false, true), [0]) := by
    decide +kernel
  obtain ⟨s, hs, hstate⟩ := Option.map_eq_some_iff.mp hrun
  obtain ⟨hobject, hpcbs⟩ := Prod.mk.inj hstate
  obtain ⟨o, ho, hsession⟩ := Option.map_eq_some_iff.mp hobject
  simp only [Prod.mk.injEq] at hsession
  obtain ⟨howner, hslot, halive, hsome⟩ := hsession
  have hwaits : s.tunnel.swift.Waits 2 (some 2) :=
    ⟨o, ho, howner, hslot, halive, Option.isSome_iff_ne_none.mp hsome⟩
  obtain ⟨p, hp, hid, hqueued⟩ := h _ _ _ _ s hs 2 (some 2) hwaits
  have hmem : p.queued ∈ [0] := by
    rw [← hpcbs]
    exact List.mem_map_of_mem (List.mem_filter.mpr ⟨hp, decide_eq_true hid⟩)
  rw [List.mem_singleton] at hmem
  omega

end WSBridge
