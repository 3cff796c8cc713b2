import WSBridge.Foundation.Tally
import WSBridge.System.Links

/-!
# The counter of pending bytes (`Tunnel/EventLog.swift`, `pendCur`)

The journal reports the bytes that wait in `pending`, all sessions together. The
sessions keep one counter for it: `writeOrQueue` adds what it queues,
`handleSent` sets the counter to 0 before it writes again, and the end of a
session leaves it alone. That is right for one session that never ends.

Results:
* `exact_iff`: in every state of a run the counter is the sum over the live
  sessions exactly as long as no sent callback finds data pending while another
  session has a backlog, and no session ends with one.
* `closed_counted`: a client closes its connection while a byte is pending.
-/

namespace WSBridge

open WSBridge.Foundation
open Provider (Tunnel)

/-- The bytes in `pending`. -/
def TunnelSession.waiting (s : TunnelSession) : ℕ := (s.pending.getD []).length

/-- The bytes a live session has pending. -/
def TunnelSession.backlog (s : TunnelSession) : ℕ := if s.dead then 0 else s.waiting

/-- The bytes that all live sessions have pending. -/
def Provider.backlog (p : Provider) : ℕ := tally (fun o => o.session.backlog) p.objects

/-- `EventLog.pendCur` is exact. -/
def Exact (p : Provider) : Prop := p.log.pendCur = p.backlog

/-- `P` holds of the session in the slot of a pcb. -/
def InSlot (w : Tunnel) (id : ℕ) (P : ℕ → TunnelSession → Prop) : Prop :=
  ∀ p ∈ w.bridge.pcbs, p.id = id → p.accepted = true →
    ∀ r session, w.swift.session? p.arg = some (r, session) → P r session

/-- No session but `r` has a backlog. -/
def Provider.OnlyBacklog (p : Provider) (r : ℕ) : Prop :=
  ∀ k o, k ≠ r → p.objects[k]? = some o → o.session.backlog = 0

/-- The counter can follow: when a sent callback reaches a session with data
pending, no other session has a backlog, and when a session ends, it has
none. -/
def Follows (s : System) : SystemEvent → Prop
  | .lwip (.sent id _) => InSlot s.tunnel id fun r session =>
      session.pending ≠ none → s.tunnel.swift.OnlyBacklog r
  | .lwip (.recv id data err _) => data = none ∨ err ≠ 0 →
      InSlot s.tunnel id fun _ session => session.backlog = 0
  | .lwip (.free id _) => InSlot s.tunnel id fun _ session => session.backlog = 0
  | .block held =>
    match s.tunnel.swift.queue with
    | .wsClose r :: _ => ∀ session, s.tunnel.swift.weak held r = some session →
        session.backlog = 0
    | .stop :: _ => ∀ r o, s.tunnel.swift.objects[r]? = some o →
        s.tunnel.swift.sessions o.session.connId = some r → o.session.backlog = 0
    | _ => True
  | _ => True

/-! ## Handlers of a session -/

namespace TunnelSession

theorem backlog_of_alive {s : TunnelSession} (h : s.dead = false) : s.backlog = s.waiting := by
  unfold backlog
  rw [h]
  rfl

theorem backlog_of_dead {s : TunnelSession} (h : s.dead = true) : s.backlog = 0 := if_pos h

section

variable {σ : Type*} (write : Bytes → σ → Bool × σ)

/-- A handler adds to the counter what it adds to `pending`. -/
structure Counts (u v : Down σ) : Prop where
  dead : v.session.dead = u.session.dead
  pendCur : v.log.pendCur + u.session.waiting = u.log.pendCur + v.session.waiting

theorem writeOrQueue_counts (u : Down σ) (data : Bytes) :
    Counts u (writeOrQueue write u data).2 := by
  unfold writeOrQueue
  split
  · rename_i p hpending
    refine ⟨rfl, ?_⟩
    have hwaiting : u.session.waiting = p.length := by
      unfold waiting
      rw [hpending]
      rfl
    show u.log.pendCur + data.length + u.session.waiting = u.log.pendCur + (p ++ data).length
    rw [hwaiting, List.length_append]
    omega
  · rename_i hpending
    have hwaiting : u.session.waiting = 0 := by
      unfold waiting
      rw [hpending]
      rfl
    split
    · rename_i rest world _
      refine ⟨rfl, ?_⟩
      show u.log.pendCur + rest.length + u.session.waiting = u.log.pendCur + rest.length
      omega
    · exact ⟨rfl, rfl⟩

theorem wsDataBlock_counts (u : Down σ) (data : Bytes) : Counts u (wsDataBlock write u data) := by
  unfold wsDataBlock
  split_ifs
  · exact ⟨rfl, rfl⟩
  · have hcounts := writeOrQueue_counts write
      { u with log.wsDown := u.log.wsDown + data.length } data
    exact ⟨hcounts.dead, hcounts.pendCur⟩

/-- Without pending data, the sent callback only counts itself. -/
theorem handleSent_none {u : Down σ} (hpending : u.session.pending = none) :
    (handleSent write u).session = u.session ∧
      (handleSent write u).log.pendCur = u.log.pendCur := by
  unfold handleSent
  dsimp only
  rw [hpending]
  exact ⟨rfl, rfl⟩

/-- With pending data, the counter is set to what is pending afterwards. -/
theorem handleSent_some {u : Down σ} {p : Bytes} (hpending : u.session.pending = some p) :
    (handleSent write u).session.dead = u.session.dead ∧
      (handleSent write u).log.pendCur = (handleSent write u).session.waiting := by
  have hcounts := writeOrQueue_counts write
    { session := { u.session with pending := none }
      log := { u.log with sentCb := u.log.sentCb + 1, pendCur := 0 }
      world := u.world } p
  have hpendCur := hcounts.pendCur.trans (Nat.zero_add _)
  unfold handleSent
  dsimp only
  rw [hpending]
  exact ⟨hcounts.dead, hpendCur⟩

end

theorem forwardToWS_pendCur (ks : Keystream) (u : Up) (data : Bytes) :
    (forwardToWS ks u data).log.pendCur = u.log.pendCur := by
  unfold forwardToWS
  split_ifs
  · cases u.session.splitter <;> rfl
  · rfl

theorem handleData_pendCur (ks : Keystream) (u : Up) (data : Bytes) :
    (handleData ks u data).log.pendCur = u.log.pendCur := by
  unfold handleData
  dsimp only
  split
  · rw [forwardToWS_pendCur]
    split_ifs <;> rfl
  · by_cases hparsed : u.session.initParsed = true
    · rw [if_pos hparsed]
      exact forwardToWS_pendCur _ _ _
    rw [if_neg hparsed]
    by_cases hlen : InitParser.handshakeLen ≤ (u.session.initBuffer ++ data).length
    · rw [if_pos hlen]
      split
      · split_ifs
        · rfl
        · exact forwardToWS_pendCur _ _ _
      · rfl
    · rw [if_neg hlen]

end TunnelSession

/-! ## Handlers of the tunnel -/

section

variable {L : Lwip} {ks : Keystream} {w w' : Tunnel} {p p' : Provider} {r : ℕ} {o : SessionObject}
  {session : TunnelSession}

/-- One session changes. -/
theorem backlog_modify (ho : p.objects[r]? = some o)
    (hobjects : p'.objects = p.objects.modify r fun o => { o with session }) :
    p'.backlog + o.session.backlog = p.backlog + session.backlog := by
  unfold Provider.backlog
  rw [hobjects]
  exact tally_modify ho _

theorem onlyBacklog_iff (ho : p.objects[r]? = some o) :
    p.OnlyBacklog r ↔ p.backlog = o.session.backlog :=
  (tally_eq_self_iff ho).symm

/-- A change that leaves the backlog of the session. -/
theorem Exact.kept (he : Exact p) (ho : p.objects[r]? = some o)
    (hobjects : p'.objects = p.objects.modify r fun o => { o with session })
    (hpendCur : p'.log.pendCur = p.log.pendCur)
    (hsame : session.backlog = o.session.backlog) : Exact p' := by
  have hsum := backlog_modify ho hobjects
  have hexact : p.log.pendCur = p.backlog := he
  show p'.log.pendCur = p'.backlog
  omega

/-- A session ends, and the counter stays. -/
theorem Exact.over (he : Exact p) (ho : p.objects[r]? = some o)
    (hobjects : p'.objects = p.objects.modify r fun o => { o with session })
    (hpendCur : p'.log.pendCur = p.log.pendCur) (hdead : session.dead = true) :
    Exact p' ↔ o.session.backlog = 0 := by
  have hsum := backlog_modify ho hobjects
  have hexact : p.log.pendCur = p.backlog := he
  rw [TunnelSession.backlog_of_dead hdead] at hsum
  show p'.log.pendCur = p'.backlog ↔ _
  omega

/-- A handler that adds to the counter what it adds to `pending`. -/
theorem Exact.counted (he : Exact p) (ho : p.objects[r]? = some o)
    (halive : o.session.dead = false)
    (hobjects : p'.objects = p.objects.modify r fun o => { o with session })
    (hdead : session.dead = o.session.dead)
    (hpendCur : p'.log.pendCur + o.session.waiting = p.log.pendCur + session.waiting) :
    Exact p' := by
  have hsum := backlog_modify ho hobjects
  have hexact : p.log.pendCur = p.backlog := he
  rw [TunnelSession.backlog_of_alive halive,
    TunnelSession.backlog_of_alive (hdead.trans halive)] at hsum
  show p'.log.pendCur = p'.backlog
  omega

/-- A handler that sets the counter to what its session has pending. -/
theorem exact_of_reset (ho : p.objects[r]? = some o)
    (hobjects : p'.objects = p.objects.modify r fun o => { o with session })
    (halive : session.dead = false) (hpendCur : p'.log.pendCur = session.waiting) :
    Exact p' ↔ p.OnlyBacklog r := by
  have hsum := backlog_modify ho hobjects
  rw [TunnelSession.backlog_of_alive halive] at hsum
  rw [onlyBacklog_iff ho]
  show p'.log.pendCur = p'.backlog ↔ _
  omega

theorem Provider.perform_keeps (r : ℕ) (effects : List Effect) (w : Tunnel) :
    (Provider.perform L r effects w).swift.objects = w.swift.objects ∧
      (Provider.perform L r effects w).swift.log = w.swift.log := by
  induction effects generalizing w with
  | nil => exact ⟨rfl, rfl⟩
  | cons e effects ih =>
    cases e with
    | bridgeClose slot => exact ih (Provider.bridgeClose L r slot w)
    | connect | startPipe | send | wsClose => exact ih w

/-- What a handler that writes leaves of the sessions. -/
theorem writing_objects (w : Tunnel) (r : ℕ) (session : TunnelSession)
    {f : (Bytes → Tunnel → Bool × Tunnel) → TunnelSession.Down Tunnel → TunnelSession.Down Tunnel}
    (hf : ∀ (Q : Tunnel → Prop),
      (∀ data x, Q x → Q (Provider.bridgeWrite L r session.connId data x).2) → Q w →
      TunnelSession.OnlyWrites Q ⟨session, w.swift.log, w⟩
        (f (Provider.bridgeWrite L r session.connId) ⟨session, w.swift.log, w⟩)) :
    (Provider.writing L w r session f).swift.objects = w.swift.objects.modify r fun o =>
      { o with session := (f (Provider.bridgeWrite L r session.connId)
          ⟨session, w.swift.log, w⟩).session } := by
  have hworld := (hf (fun x => x.swift.objects = w.swift.objects) (fun _ _ h => h) rfl).world
  exact congrArg (List.modify · r _) hworld

/-- The block of a message. -/
theorem Exact.wsData (he : Exact w.swift) (held : Bool) (data : Bytes) :
    Exact (Provider.runBlock L held w (.wsData r data)).swift := by
  unfold Provider.runBlock
  dsimp only
  split
  · rename_i session hweak
    obtain ⟨o, ho, rfl⟩ := Provider.weak_eq_some hweak
    have hobjects := writing_objects (L := L) w r o.session
      (f := fun write u => TunnelSession.wsDataBlock write u data) fun Q hQ hw =>
        TunnelSession.wsDataBlock_onlyWrites hQ ⟨o.session, w.swift.log, w⟩ data hw
    have hcounts := TunnelSession.wsDataBlock_counts
      (Provider.bridgeWrite L r o.session.connId) ⟨o.session, w.swift.log, w⟩ data
    by_cases hdead : o.session.dead = true
    · have hskip : TunnelSession.wsDataBlock (Provider.bridgeWrite L r o.session.connId)
          ⟨o.session, w.swift.log, w⟩ data = ⟨o.session, w.swift.log, w⟩ := if_pos hdead
      rw [hskip] at hobjects
      refine he.kept ho hobjects ?_ rfl
      exact congrArg (·.log.pendCur) hskip
    · exact he.counted ho (eq_false_of_ne_true hdead) hobjects hcounts.dead hcounts.pendCur
  · exact he

/-- The sent callback of a slot. -/
theorem Exact.sent (hl : Linked w) (he : Exact w.swift) {slot : ℕ}
    (hactive : ∃ c, w.bridge.connOfId slot = some c) :
    Exact (Provider.handleSent L slot w).swift ↔
      ∀ r session, w.swift.session? slot = some (r, session) → session.pending ≠ none →
        w.swift.OnlyBacklog r := by
  unfold Provider.handleSent
  cases hsession : w.swift.session? slot with
  | none => exact iff_of_true he nofun
  | some found =>
    obtain ⟨r, session⟩ := found
    obtain ⟨hr, o, ho, rfl⟩ := Provider.session?_eq_some hsession
    obtain ⟨c, hc⟩ := hactive
    have halive := (hl.owner slot r o hr ho c hc).2
    have hobjects := writing_objects (L := L) w r o.session
      (f := fun write u => TunnelSession.handleSent write u) fun Q hQ hw =>
        TunnelSession.handleSent_onlyWrites hQ ⟨o.session, w.swift.log, w⟩ hw
    dsimp only
    have honly : (∀ k session, some (r, o.session) = some (k, session) →
        session.pending ≠ none → w.swift.OnlyBacklog k) ↔
          (o.session.pending ≠ none → w.swift.OnlyBacklog r) := by
      constructor
      · exact fun h => h r o.session rfl
      · rintro h k session heq
        obtain ⟨rfl, rfl⟩ := Prod.mk.inj (Option.some.inj heq)
        exact h
    rw [honly]
    cases hpending : o.session.pending with
    | none =>
      obtain ⟨hsame, hpendCur⟩ := TunnelSession.handleSent_none
        (Provider.bridgeWrite L r o.session.connId) (u := ⟨o.session, w.swift.log, w⟩) hpending
      refine iff_of_true (he.kept ho hobjects hpendCur ?_) (absurd rfl)
      exact congrArg TunnelSession.backlog hsame
    | some data =>
      obtain ⟨hdead, hpendCur⟩ := TunnelSession.handleSent_some
        (Provider.bridgeWrite L r o.session.connId) (u := ⟨o.session, w.swift.log, w⟩) hpending
      rw [show Exact _ ↔ _ from exact_of_reset ho hobjects (hdead.trans halive) hpendCur]
      exact ⟨fun h _ => h, fun h => h nofun⟩

/-- Data of the client. -/
theorem Exact.recv (he : Exact w.swift) (slot : ℕ) (data : Bytes) :
    Exact (Provider.handleRecv L ks slot data w).swift := by
  unfold Provider.handleRecv
  split
  · rename_i r session hsession
    obtain ⟨-, o, ho, rfl⟩ := Provider.session?_eq_some hsession
    let u := TunnelSession.handleData ks ⟨o.session, w.swift.log, []⟩ data
    have hkept := TunnelSession.handleData_kept ks ⟨o.session, w.swift.log, []⟩ data
    obtain ⟨hobjects, hlog⟩ := Provider.perform_keeps (L := L) r u.effects
      (Provider.update w r u.session u.log)
    have hsame : u.session.backlog = o.session.backlog := by
      have hdead : u.session.dead = o.session.dead := congrArg TunnelSession.Kept.dead hkept
      have hpending : u.session.pending = o.session.pending :=
        congrArg TunnelSession.Kept.pending hkept
      unfold TunnelSession.backlog TunnelSession.waiting
      rw [hdead, hpending]
    refine he.kept ho hobjects ?_ hsame
    exact (congrArg EventLog.pendCur hlog).trans (TunnelSession.handleData_pendCur ks _ data)
  · exact he

/-- `handleClose` of a slot. -/
theorem Exact.handleClose (he : Exact w.swift) (slot : ℕ) :
    Exact (Provider.handleClose slot w).swift ↔
      ∀ r session, w.swift.session? slot = some (r, session) → session.backlog = 0 := by
  unfold Provider.handleClose
  cases hsession : w.swift.session? slot with
  | none => exact iff_of_true he nofun
  | some found =>
    obtain ⟨r, session⟩ := found
    obtain ⟨-, o, ho, rfl⟩ := Provider.session?_eq_some hsession
    let closed := Provider.update w r o.session.handleClose.1 w.swift.log
    have hover : Exact { closed.swift with
        sessions := Function.update w.swift.sessions slot none } ↔ o.session.backlog = 0 :=
      he.over ho rfl rfl rfl
    refine hover.trans ⟨?_, fun h => h r o.session rfl⟩
    rintro h k session heq
    obtain ⟨rfl, rfl⟩ := Prod.mk.inj (Option.some.inj heq)
    exact h

/-- The block of the end of a web socket. -/
theorem Exact.wsClose (he : Exact w.swift) (held : Bool) :
    Exact (Provider.runBlock L held w (.wsClose r)).swift ↔
      ∀ session, w.swift.weak held r = some session → session.backlog = 0 := by
  unfold Provider.runBlock
  dsimp only
  cases hweak : w.swift.weak held r with
  | none => exact iff_of_true he nofun
  | some session =>
    obtain ⟨o, ho, rfl⟩ := Provider.weak_eq_some hweak
    have hone : (∀ session, some o.session = some session → session.backlog = 0) ↔
        o.session.backlog = 0 := by
      constructor
      · exact fun h => h _ rfl
      · rintro h session heq
        obtain rfl := Option.some.inj heq
        exact h
    rw [hone]
    dsimp only
    obtain ⟨hobjects, hlog⟩ := Provider.perform_keeps (L := L) r o.session.wsCloseBlock.2
      (Provider.update w r o.session.wsCloseBlock.1 w.swift.log)
    have hpendCur := congrArg EventLog.pendCur hlog
    by_cases hdead : o.session.dead = true
    · have hskip : o.session.wsCloseBlock.1 = o.session := by
        unfold TunnelSession.wsCloseBlock
        rw [if_pos hdead]
      refine iff_of_true (he.kept ho hobjects hpendCur ?_) (TunnelSession.backlog_of_dead hdead)
      rw [hskip]
    · refine he.over ho hobjects hpendCur ?_
      unfold TunnelSession.wsCloseBlock
      rw [if_neg hdead]

/-- The block of `stopTunnel`. -/
theorem Exact.stop (he : Exact p) :
    Exact p.stopTunnel ↔ ∀ r o, p.objects[r]? = some o → p.sessions o.session.connId = some r →
      o.session.backlog = 0 := by
  let shut (r : ℕ) (o : SessionObject) : SessionObject :=
    if p.sessions o.session.connId = some r then { o with session := o.session.handleClose.1 }
    else o
  have hshut (r : ℕ) (o : SessionObject) : (shut r o).session.backlog =
      if p.sessions o.session.connId = some r then 0 else o.session.backlog := by
    show TunnelSession.backlog (SessionObject.session (if _ then _ else _)) = _
    split_ifs <;> rfl
  have hexact : p.log.pendCur = p.backlog := he
  have hiff := tally_mapIdx_eq_iff (g := fun o => o.session.backlog) (f := shut)
    (fun r o => by
      rw [hshut]
      split_ifs
      · exact Nat.zero_le _
      · exact le_rfl) p.objects
  show p.log.pendCur = tally (fun o => o.session.backlog) (p.objects.mapIdx shut) ↔ _
  rw [hexact, eq_comm]
  refine hiff.trans ⟨?_, ?_⟩
  · intro h r o ho hr
    have hsame := h r o ho
    rw [hshut, if_pos hr] at hsame
    exact hsame.symm
  · intro h r o ho
    rw [hshut]
    split_ifs with hr
    · exact (h r o ho hr).symm
    · rfl

end

/-! ## Events -/

section

variable {L : Lwip} {ks : Keystream}

/-- A pcb of a number is the one in the slots. -/
theorem Linked.inSlot_iff {w : Tunnel} (hl : Linked w) {p : Pcb} (hp : p ∈ w.bridge.pcbs)
    (hacc : p.accepted = true) {P : ℕ → TunnelSession → Prop} :
    InSlot w p.id P ↔ ∀ r session, w.swift.session? p.arg = some (r, session) → P r session := by
  refine ⟨fun h => h p hp rfl hacc, fun h q hq hid _ => ?_⟩
  rw [hl.slots.eq_of_id hq hp hid]
  exact h

/-- What lwIP does. -/
theorem Exact.lwip {s : System} (hl : Linked s.tunnel) (he : Exact s.tunnel.swift) {e : LwipEvent}
    {x : Tunnel × Option Returned}
    (hstep : lwipStep L (Provider.handlers L ks) s.tunnel e = some x) :
    Exact x.1.swift ↔ Follows s (.lwip e) := by
  cases hl.effect hstep with
  | halfOpen given unclaimed => exact iff_of_true he trivial
  | accept p slot =>
    refine iff_of_true ?_ trivial
    have hnew : Provider.backlog (Provider.handleAccept slot
        (s.tunnel.onBridge (·.acceptInto p slot))).swift = s.tunnel.swift.backlog :=
      tally_concat _ _
    have hexact : s.tunnel.swift.log.pendCur = s.tunnel.swift.backlog := he
    exact hexact.trans hnew.symm
  | acceptFailed => exact iff_of_true he trivial
  | fin p c hfin hp hacc =>
    refine (he.handleClose p.arg).trans ((hl.inSlot_iff hp hacc).symm.trans ?_)
    exact ⟨fun h _ => h, fun h => h hfin⟩
  | data p d malloc =>
    refine iff_of_true ?_ fun hfin => absurd hfin (by simp)
    cases malloc with
    | false => exact he
    | true => exact he.recv p.arg d
  | freed p c hp hacc => exact (he.handleClose p.arg).trans (hl.inSlot_iff hp hacc).symm
  | dropped p hp hhalf =>
    refine iff_of_true he fun q hq hid hacc => ?_
    rw [hl.slots.eq_of_id hq hp hid, hhalf] at hacc
    cases hacc
  | sent p len hp hacc =>
    have hl' := hl.bridge (slots_step hl.slots (lwipStep_sent_idle hstep)) fun _ => rfl
    obtain ⟨c, hc, -⟩ := hl.slots.connOfId hp hacc
    exact (Exact.sent hl' he ⟨c, hc⟩).trans (hl.inSlot_iff hp hacc).symm
  | emit p packet => exact iff_of_true he trivial

/-- One event of the tunnel keeps the counter exact exactly when it can follow. -/
theorem Exact.step {s s' : System} (hl : Linked s.tunnel) (he : Exact s.tunnel.swift)
    {e : SystemEvent} (hstep : s.step L ks e = some s') :
    Exact s'.tunnel.swift ↔ Follows s e := by
  cases System.effect hstep with
  | wsData => exact iff_of_true he trivial
  | wsClose => exact iff_of_true he trivial
  | stop => exact iff_of_true he trivial
  | block held block queue hqueue =>
    have hpop : Exact ({ s.tunnel.swift with queue } : Provider) := he
    unfold Follows
    rw [hqueue]
    cases block with
    | wsData r data => exact iff_of_true (Exact.wsData (w := ⟨_, s.bridge⟩) hpop held data) trivial
    | wsClose r => exact Exact.wsClose (w := ⟨_, s.bridge⟩) hpop held
    | stop => exact hpop.stop
  | input => exact iff_of_true he trivial
  | poll => exact iff_of_true he trivial
  | done => exact iff_of_true he trivial
  | lwip e x hlwip => exact he.lwip hl hlwip

end

/-- In every state of a run the counter is exact, exactly as long as it can
follow the events. -/
theorem exact_iff (L : Lwip) (ks : Keystream) (workerDomain : Option String)
    (events : List SystemEvent) :
    EveryState (System.step L ks) (fun s => Exact s.tunnel.swift) (System.init workerDomain)
        events ↔
      EveryStep (System.step L ks) Follows (System.init workerDomain) events := by
  refine everyState_iff_everyStep (I := fun s => Linked s.tunnel) ?_ ?_ events _
    (linked_init workerDomain) rfl
  · intro s e s' hl he hstep
    exact he.step hl hstep
  · intro s e s' hl _ _ hstep
    exact (hl.step hstep).1

/-- Memory is found for a single segment. A message of two is refused and stays
in `pending`, and the client closes its connection. -/
theorem closed_counted :
    ¬ ∀ (L : Lwip) (ks : Keystream) (workerDomain : Option String) (events : List SystemEvent)
      (s : System), run (System.step L ks) (System.init workerDomain) events = some s →
        Exact s.tunnel.swift := by
  intro h
  have hrun : (run (System.step (Lwip.withMemory fun _ _ _ len => len ≤ 1460) fun _ _ _ => 0)
      (System.init (some "worker"))
      (connection 0 (0x0A000001, 40000) (0x959AA733, 443) ++
        [.input (tcpPacket 0x18 (0x0A000001, 40000) (0x959AA733, 443) ++ [1]) true true,
          .lwip (.recv 0 (some [1]) 0 true), .done, .wsData 0 (List.replicate 2920 0),
          .block false, .input (tcpPacket 0x11 (0x0A000001, 40000) (0x959AA733, 443)) true true,
          .lwip (.recv 0 none 0 true), .done])).map
        (fun s => (s.tunnel.swift.log.pendCur, s.tunnel.swift.backlog)) = some (2920, 0) := by
    decide +kernel
  obtain ⟨s, hs, heq⟩ := Option.map_eq_some_iff.mp hrun
  obtain ⟨hpendCur, hbacklog⟩ := Prod.mk.inj heq
  have hexact : s.tunnel.swift.log.pendCur = s.tunnel.swift.backlog := h _ _ _ _ s hs
  rw [hpendCur, hbacklog] at hexact
  cases hexact

end WSBridge
