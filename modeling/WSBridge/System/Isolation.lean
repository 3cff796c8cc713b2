import WSBridge.System.Books

/-!
# Streams of a tunnel

All connections share one bridge, one queue and one dictionary, and slots are
used again. The books of a ledger say that this cannot be seen from the streams:
every session works as if it were alone with its client.

Results:
* `Accounted.step`: the books balance in every reachable state.
* `upstream_isolated`: a session has asked for exactly what a session of its own
  would ask for that is given the segments of its pcb, but for those that were
  lost because `malloc` found no memory for a copy.
* `downstream_isolated`: what `tcp_write` has taken for a pcb, followed by what
  is pending, is what the messages of its session were, in order; and lwIP has
  queued what the client has not acknowledged.
-/

namespace WSBridge

open WSBridge.Foundation
open Provider (Tunnel)
open TunnelSession (Down Line accepted wsDataBlock handleSent feed)

/-! ## Events -/

section

variable {L : Lwip} {ks : Keystream} {l l' : Ledger}

/-- The block of a message runs. -/
theorem Accounted.ran (h : Accounted ks l) {r : ℕ} {data : Bytes} {queue : List Block}
    (hqueue : l.tunnel.swift.queue = .wsData r data :: queue) (held : Bool) {s : System}
    (hs : s.tunnel =
      Provider.runBlock L held { l.tunnel with swift.queue := queue } (.wsData r data))
    (hlinked : Linked s.tunnel) (howned : Owned s.tunnel) :
    Accounted ks { l.ran L held r data queue with system := s } := by
  obtain ⟨hpop, hknown⟩ := h.linked.pop hqueue
  have hothers (k : ℕ) (hk : k ≠ r) : waitingIn queue k = waitingIn l.tunnel.swift.queue k := by
    rw [hqueue, waitingIn_cons, if_neg (Ne.symm hk), List.nil_append]
  have hfirst : waitingIn l.tunnel.swift.queue r = [data] ++ waitingIn queue r := by
    rw [hqueue, waitingIn_cons, if_pos rfl]
  -- a session that lives is found, so that a block without a session concerns a dead one
  have hskip (hdead : ∀ o, l.tunnel.swift.objects[r]? = some o → o.session.dead = true) :
      Closed l.tunnel { l.tunnel with swift.queue := queue } := by
    refine .queue queue fun k o ho halive => ?_
    by_cases hk : k = r
    · subst hk
      rw [hdead o ho] at halive
      cases halive
    · exact hothers k hk
  unfold Ledger.ran
  dsimp only
  unfold Provider.runBlock at hs
  dsimp only at hs
  cases hweak : ({ l.tunnel.swift with queue := queue } : Provider).weak held r with
  | none =>
    rw [hweak] at hs
    refine h.closed hlinked howned ?_
    rw [hs]
    refine hskip fun o ho => ?_
    by_contra hdead
    obtain ⟨hr, -⟩ := h.linked.in_slot ho (eq_false_of_ne_true hdead) hknown
    simp [Provider.weak, ho, hr] at hweak
  | some session =>
    rw [hweak] at hs
    obtain ⟨o, ho, rfl⟩ := Provider.weak_eq_some hweak
    by_cases hdead : o.session.dead = true
    · have hwriting : Provider.writing L { l.tunnel with swift.queue := queue } r o.session
          (fun write u => wsDataBlock write u data) =
            Provider.update { l.tunnel with swift.queue := queue } r o.session
              l.tunnel.swift.log := by
        unfold Provider.writing TunnelSession.wsDataBlock
        dsimp only
        rw [if_pos hdead]
      dsimp only at hs ⊢
      rw [hwriting] at hs
      rw [if_pos hdead]
      refine h.closed hlinked howned ?_
      rw [hs]
      refine (hskip fun o' ho' => ?_).trans
        (.update (w := { l.tunnel with swift.queue := queue }) ho rfl rfl (fun h => h) _)
      obtain rfl := Option.some.inj (ho.symm.trans ho')
      exact hdead
    · have halive := eq_false_of_ne_true hdead
      obtain ⟨hr, ⟨c, hc⟩, -⟩ := h.linked.in_slot ho halive hknown
      obtain ⟨id, howner, hholder⟩ := h.linked.holder_owner h.owned hr ho hc
      have hu := recorded_wsData (L := L) (r := r)
        (w := { l.tunnel with swift.queue := queue }) h.linked.slots hholder halive data
      dsimp only at hs ⊢
      rw [writing_wsData] at hs
      rw [if_neg hdead]
      unfold Ledger.wrote
      dsimp only
      rw [hholder]
      refine h.writes (L := L) ho howner hfirst hothers (Or.inr halive) ?_ hs hlinked howned
      rw [List.flatten_singleton]
      exact hu

/-- The next block runs. -/
theorem Accounted.block (h : Accounted ks l) {held : Bool} {s : System}
    (hstep : l.system.step L ks (.block held) = some s) (hlinked : Linked s.tunnel)
    (howned : Owned s.tunnel) :
    Accounted ks { l.note L ks (.block held) with system := s } := by
  cases System.effect hstep with
  | block held block queue hqueue hrest =>
    have hqueue' : l.tunnel.swift.queue = block :: queue := hqueue
    have hslots : Slots l.tunnel.bridge := h.linked.slots
    have hpop (hnone : ∀ r, waitingIn [block] r = []) :
        Closed l.tunnel { l.tunnel with swift.queue := queue } := by
      refine .queue queue fun r o ho halive => ?_
      rw [hqueue', ← List.singleton_append, waitingIn_append, hnone, List.nil_append]
    simp only [Ledger.note]
    rw [hqueue']
    cases block with
    | wsData r data => exact h.ran hqueue' held rfl hlinked howned
    | wsClose r =>
      refine h.closed hlinked howned ((hpop fun _ => rfl).trans ?_)
      exact .wsClose (w := { l.tunnel with swift.queue := queue }) hslots held r
    | stop =>
      exact h.closed hlinked howned ((hpop fun _ => rfl).trans .stop)

/-- Data of which `g_recv` gets a copy. -/
theorem Accounted.took (h : Accounted ks l) {p : Pcb} (hp : p ∈ l.tunnel.bridge.pcbs)
    (hacc : p.accepted = true) (data : Bytes) {s : System}
    (hs : s.tunnel =
      (Provider.handleRecv L ks p.arg data l.tunnel).onBridge (·.tcpRecved p.id data.length))
    (hlinked : Linked s.tunnel) (howned : Owned s.tunnel) :
    Accounted ks { l.took ks p.id data true with system := s } := by
  unfold Ledger.took Ledger.sessionOf
  dsimp only
  rw [if_pos rfl, show ({ l with received := extend l.received p.id [(data, true)] } :
    Ledger).tunnel = l.tunnel from rfl, h.linked.slots.pcb?_of_mem hp, Option.bind_some]
  unfold Provider.handleRecv at hs
  cases hsession : l.tunnel.swift.session? p.arg with
  | none =>
    rw [hsession] at hs
    exact h.ignored hp hacc (fun _ => hsession) data hlinked howned (by rw [hs]; rfl)
      (by rw [hs]; rfl)
  | some found =>
    obtain ⟨r, session⟩ := found
    rw [hsession] at hs
    exact h.received hp hacc hsession data s hs hlinked howned

/-- An ACK that reaches `g_sent`. -/
theorem Accounted.freed (h : Accounted ks l) {p : Pcb} (hp : p ∈ l.tunnel.bridge.pcbs)
    (hacc : p.accepted = true) {len : ℕ} (hlen : len ≤ p.queued) {s : System}
    (hs : s.tunnel = Provider.handleSent L p.arg (l.tunnel.onBridge (·.ack p.id len)))
    (hidle : Linked (l.tunnel.onBridge (·.ack p.id len))) (hlinked : Linked s.tunnel)
    (howned : Owned s.tunnel) : Accounted ks { l.freed L p.id len with system := s } := by
  have hacked := h.acked hp hacc hlen hidle
  have hfind : (l.tunnel.onBridge (·.ack p.id len)).bridge.pcb? p.id =
      some { p with queued := p.queued - len } :=
    Bridge.pcb?_onPcb (f := fun p => { p with queued := p.queued - len }) (fun _ => rfl)
      (h.linked.slots.pcb?_of_mem hp)
  have hp' := (Bridge.pcb?_eq_some hfind).1
  unfold Ledger.freed Ledger.sessionOf
  dsimp only
  rw [hfind, Option.bind_some]
  unfold Provider.handleSent at hs
  cases hsession : (l.tunnel.onBridge (·.ack p.id len)).swift.session? p.arg with
  | none =>
    rw [hsession] at hs
    exact hacked.still hlinked howned (congrArg World.swift hs) (congrArg (·.bridge.pcbs) hs)
  | some found =>
    obtain ⟨r, session⟩ := found
    obtain ⟨o, c, ho, rfl, hid, hr, hc, howner⟩ := hidle.session_of_pcb hp' hacc hsession
    obtain ⟨id, howner', hholder⟩ := hidle.holder_owner hacked.owned hr ho hc
    obtain rfl := Option.some.inj (howner.symm.trans howner')
    rw [hsession] at hs
    dsimp only at hs ⊢
    rw [writing_sent] at hs
    unfold Ledger.wrote
    dsimp only
    rw [hholder]
    have hu := recorded_sent (L := L) (r := r) hidle.slots hholder
    have hwrites := @Accounted.writes _ _ _ _ hacked _ _ _ ho howner [] l.tunnel.swift.queue
      (List.nil_append _).symm (fun _ _ => rfl) (Or.inl rfl) _ hu hs hlinked howned
    rw [extend_nil] at hwrites
    exact hwrites

/-- What lwIP does keeps the books. -/
theorem Accounted.lwip (h : Accounted ks l) {e : LwipEvent} {r : Tunnel × Option Returned}
    (hlwip : lwipStep L (Provider.handlers L ks) l.tunnel e = some r) {s : System}
    (hs : s.tunnel = r.1) (hlinked : Linked s.tunnel) (howned : Owned s.tunnel) :
    Accounted ks { l.note L ks (.lwip e) with system := s } := by
  cases h.linked.effect hlwip with
  | halfOpen given unclaimed => exact h.halfOpen given unclaimed hs hlinked howned
  | accept p slot hphase hp hhalf hslot =>
    obtain ⟨hlt, -⟩ := List.findIdx?_eq_some_iff_getElem.mp hslot
    refine h.accept hp hhalf hs ?_ hlinked howned
    unfold Bridge.holder
    rw [(accepted_acceptInto l.tunnel.bridge p slot).connOfId hlt, if_pos rfl]
    rfl
  | acceptFailed => exact h.still hlinked howned (by rw [hs]) (by rw [hs])
  | @fin p c data err malloc hfin hp hacc htorn =>
    have hnote : l.note L ks (.lwip (.recv p.id data err malloc)) = l := by
      cases data with
      | none => rfl
      | some d =>
        have herr : err ≠ 0 := hfin.resolve_left nofun
        exact if_neg herr
    rw [hnote]
    refine h.closed hlinked howned ?_
    rw [hs]
    dsimp only
    rw [show (Provider.handlers L ks).close p.arg err l.tunnel =
      Provider.handleClose p.arg l.tunnel from rfl, Provider.handleClose_onBridge]
    refine h.linked.closed fun q hq => ?_
    rw [htorn.pcbs] at hq
    exact (List.mem_filter.mp hq).1
  | data p d malloc hp hacc =>
    have hnote : l.note L ks (.lwip (.recv p.id (some d) 0 malloc)) = l.took ks p.id d malloc := by
      simp only [Ledger.note, if_true]
    rw [hnote]
    cases malloc with
    | false =>
      have hlost : false = true → l.tunnel.swift.session? p.arg = none := nofun
      exact h.ignored hp hacc hlost d hlinked howned (by rw [hs]; rfl) (by rw [hs]; rfl)
    | true => exact h.took hp hacc d hs hlinked howned
  | freed p c hp hacc htorn =>
    refine h.closed hlinked howned ?_
    rw [hs]
    dsimp only
    rw [show (Provider.handlers L ks).close p.arg _ l.tunnel =
      Provider.handleClose p.arg l.tunnel from rfl, Provider.handleClose_onBridge]
    refine h.linked.closed fun q hq => ?_
    rw [htorn.pcbs] at hq
    exact (List.mem_filter.mp hq).1
  | dropped p hp hhalf =>
    refine h.closed hlinked howned (.of_bridge (by rw [hs]; rfl) ?_)
    rw [hs]
    exact fun q hq => (List.mem_filter.mp hq).1
  | sent p len hp hacc hpos hlen =>
    have hslots := slots_step h.linked.slots (lwipStep_sent_idle hlwip)
    have hidle := h.linked.bridge hslots fun _ => rfl
    exact h.freed hp hacc hlen hs hidle hlinked howned
  | emit p packet =>
    exact h.still hlinked howned (by rw [hs]; rfl) (by rw [hs]; rfl)

/-- Every event keeps the books. -/
theorem Accounted.step (h : Accounted ks l) {e : SystemEvent} (hstep : l.step L ks e = some l') :
    Accounted ks l' := by
  obtain ⟨s, hs, rfl⟩ := Ledger.step_eq_some hstep
  have hlinked := (h.linked.step hs).1
  have howned := h.owned.step h.linked hs
  have hposted {block : Block} (hnone : ∀ r, waitingIn [block] r = []) :
      Closed l.tunnel (l.system.post block).tunnel := by
    refine .queue (l.tunnel.swift.queue ++ [block]) fun r o _ _ => ?_
    rw [waitingIn_append, hnone, List.append_nil]
  cases System.effect hs with
  | wsData r data hopened => exact h.posted hopened hlinked howned
  | wsClose r => exact h.closed hlinked howned (hposted fun _ => rfl)
  | stop => exact h.closed hlinked howned (hposted fun _ => rfl)
  | block held block queue hqueue hrest => exact h.block hs hlinked howned
  | input data malloc pbuf hrest =>
    refine h.still hlinked howned rfl ?_
    show (l.system.bridge.lwipBridgeInput data malloc pbuf).pcbs = l.system.bridge.pcbs
    unfold Bridge.lwipBridgeInput
    split_ifs <;> rfl
  | poll => exact h.still hlinked howned rfl rfl
  | done => exact h.still hlinked howned rfl rfl
  | lwip e r hlwip => exact h.lwip hlwip rfl hlinked howned

end

theorem accounted_init (ks : Keystream) (workerDomain : Option String) :
    Accounted ks (Ledger.init workerDomain) := by
  refine ⟨linked_init workerDomain, owned_init workerDomain, ?_, ?_, ?_, nofun⟩
  · intro r o id ho
    cases ho
  · exact fun _ _ => ⟨rfl, rfl, rfl, rfl⟩
  · exact fun _ _ => ⟨rfl, rfl, rfl⟩

/-! ## Isolation -/

/-- The session `r` was made for the pcb `id`, and no other session was. -/
def MadeFor (l : Ledger) (r id : ℕ) : Prop :=
  ∀ k o, l.tunnel.swift.objects[k]? = some o → (o.owner = some id ↔ k = r)

/-- Upstream: the session was given the segments of its client that were copied,
in order, all of them as long as the dictionary has the session, and has asked
for what a session alone in the tunnel would have asked for. A segment for which
`malloc` found no memory is acknowledged and lost. -/
def UpstreamIsolated (ks : Keystream) (l : Ledger) : Prop :=
  ∀ r o, l.tunnel.swift.objects[r]? = some o → ∃ id, MadeFor l r id ∧
    l.fed r <+: copies (l.received id) ∧
    (l.tunnel.swift.sessions o.session.connId = some r → l.fed r = copies (l.received id)) ∧
    l.asked r = (feed ks ⟨.new o.session.connId o.session.dcIP o.session.workerDomain, {}, []⟩
      (l.fed r)).effects

/-- Downstream: the messages of the web socket are processed in order, all but
those that still wait as long as the session lives; what `tcp_write` has taken
for its pcb and what is pending are their bytes; and lwIP holds what the client
has not acknowledged of them. -/
def DownstreamIsolated (l : Ledger) : Prop :=
  ∀ r o, l.tunnel.swift.objects[r]? = some o → ∃ id, MadeFor l r id ∧
    l.messages r <+: l.posted r ∧
    (o.session.dead = false →
      l.posted r = l.messages r ++ waitingIn l.tunnel.swift.queue r) ∧
    accepted (l.written id) ++ o.session.pending.getD [] = (l.messages r).flatten ∧
    ∀ p ∈ l.tunnel.bridge.pcbs, p.id = id →
      (accepted (l.written id)).length = l.acked id + p.queued

theorem Accounted.madeFor {ks : Keystream} {l : Ledger} (h : Accounted ks l) {r id : ℕ}
    {o : SessionObject} (ho : l.tunnel.swift.objects[r]? = some o) (hid : o.owner = some id) :
    MadeFor l r id := by
  intro k o' ho'
  constructor
  · intro hid'
    exact h.owned.eq_of_owner ho' ho (hid'.trans hid.symm)
  · rintro rfl
    obtain rfl := Option.some.inj (ho.symm.trans ho')
    exact hid

/-- In every state of a run, every session has worked on the client's side as if
it were alone. -/
theorem upstream_isolated (L : Lwip) (ks : Keystream) (workerDomain : Option String)
    (events : List SystemEvent) :
    EveryState (Ledger.step L ks) (UpstreamIsolated ks) (Ledger.init workerDomain) events := by
  refine everyState_of_invariant (I := Accounted ks) (fun _ _ _ h hstep => h.step hstep) ?_ events _
    (accounted_init ks workerDomain)
  intro l h r o ho
  obtain ⟨id, hid, -⟩ := h.owned.owner ho
  have hbook := h.books r o id ho hid
  exact ⟨id, h.madeFor ho hid, hbook.fed, fun hr => (hbook.filed hr).1, hbook.asked⟩

/-- In every state of a run, every client has been sent the messages of its own
web socket. -/
theorem downstream_isolated (L : Lwip) (ks : Keystream) (workerDomain : Option String)
    (events : List SystemEvent) :
    EveryState (Ledger.step L ks) DownstreamIsolated (Ledger.init workerDomain) events := by
  refine everyState_of_invariant (I := Accounted ks) (fun _ _ _ h hstep => h.step hstep) ?_ events _
    (accounted_init ks workerDomain)
  intro l h r o ho
  obtain ⟨id, hid, -⟩ := h.owned.owner ho
  have hbook := h.books r o id ho hid
  refine ⟨id, h.madeFor ho hid, hbook.messages, hbook.alive, hbook.delivered, fun p hp hpid => ?_⟩
  have hqueued := h.queued p hp
  rw [hpid] at hqueued
  omega

end WSBridge
