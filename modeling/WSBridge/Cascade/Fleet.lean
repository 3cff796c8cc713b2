import Mathlib.Data.Rat.Defs
import WSBridge.Cascade.Fronts
import WSBridge.Cascade.Indices
import WSBridge.Foundation.Rotation

/-!
# Clients of one process (`Tunnel/WSClient.swift`)

All cascades share the list of fronts, the place `rrStart` where the next one
begins, and the table `deadUntil` of endpoints that have failed. A `Fleet` is
the shared state with the clients of all cascades; a callback of a client may
pass a verdict on the host of its attempt, and `connect` reads the table.

Assumed of the clock: it is not set back. Times are in seconds. The fields under
"history" are not in the code.

Results:
* `cascade_by_verdicts`: a cascade leaves out exactly the candidates whose last
  verdict is a failure of the last ten minutes, unless that is all of them.
* `fleet_aims`: every attempt goes to a candidate of its cascade, its
  certificate is checked against other names exactly where it has a `Host`
  header, and only hosts of attempts are ever out.
* `fronts_fair`: over as many cascades as there are fronts, every front is
  among the first six of six of them.
-/

namespace WSBridge.Cascade

open WSBridge.Foundation

/-! ## What a client aims at -/

/-- The endpoint an attempt was created for. -/
def Attempt.aim (t : Attempt) : ℕ × String := (t.index, t.host)

/-- The endpoints a client has created tasks for, in order. -/
def Client.aims (c : Client) : List (ℕ × String) := c.attempts.map Attempt.aim

/-- The hosts that the callback of an event passes to `markAlive` (lines 199 and
207). -/
def Client.vouched (c : Client) : Event → List String
  | .received a (some _) => (c.attempts[a]?.map (·.host)).toList
  | .receiveFailed a => if c.firstRecv then (c.attempts[a]?.map (·.host)).toList else []
  | _ => []

/-- The attempts of `d` and its failed hosts, from those of `c`. -/
structure Aims (c d : Client) : Prop where
  endpoints : d.endpoints = c.endpoints
  aims : d.aims = c.aims ∨ ∃ index ep, c.endpoints[index]? = some ep ∧
    d.aims = c.aims ++ [(index, ep.host)]
  marked : ∃ more, d.marked = c.marked ++ more ∧ ∀ host ∈ more, host ∈ c.aims.map Prod.snd

section

variable {c d : Client}

theorem onAttempt_aims (c : Client) (a : ℕ) {f : Attempt → Attempt}
    (hf : ∀ t, (f t).aim = t.aim) : (c.onAttempt a f).aims = c.aims :=
  (c.onAttempt_map a Attempt.aim id hf).trans (List.modify_id _ _)

theorem onTask_aims (c : Client) (f : Attempt → Attempt) (hf : ∀ t, (f t).aim = t.aim) :
    (c.onTask f).aims = c.aims ∧ (c.onTask f).marked = c.marked :=
  c.onTask_rule f (R := fun d => d.aims = c.aims ∧ d.marked = c.marked) ⟨rfl, rfl⟩
    fun a => ⟨onAttempt_aims c a hf, rfl⟩

theorem receiveLoop_aims (c : Client) :
    c.receiveLoop.aims = c.aims ∧ c.receiveLoop.marked = c.marked := onTask_aims c _ fun _ => rfl

theorem deliver_aims (c : Client) (a : ℕ) (message : Option Bytes) :
    (c.deliver a message).aims = c.aims ∧ (c.deliver a message).marked = c.marked := by
  cases message <;> exact ⟨rfl, rfl⟩

theorem giveUp_aims (c : Client) (a : ℕ) (t : Attempt) :
    (c.giveUp a t).aims = c.aims ∧ (c.giveUp a t).marked = c.marked :=
  ⟨onAttempt_aims c a fun _ => rfl, rfl⟩

theorem advance_aims (c : Client) (a : ℕ) (t : Attempt) :
    (c.advance a t).aims = c.aims ∧ (c.advance a t).marked = c.marked := by
  unfold Client.advance
  split_ifs
  · exact ⟨rfl, rfl⟩
  · exact giveUp_aims c a t

theorem fail_aims (c : Client) (a : ℕ) (t : Attempt) :
    (c.fail a t).aims = c.aims ∧ (c.fail a t).marked = c.marked := by
  unfold Client.fail
  split_ifs
  · exact ⟨rfl, rfl⟩
  · exact ⟨onAttempt_aims c a fun _ => rfl, rfl⟩

/-- The attempts stay, and no host is passed to `markDead`. -/
theorem Aims.same (hendpoints : d.endpoints = c.endpoints) (haims : d.aims = c.aims)
    (hmarked : d.marked = c.marked) : Aims c d :=
  ⟨hendpoints, Or.inl haims, [], by simp [hmarked], by simp⟩

/-- The attempts stay, and the host of one of them is passed to `markDead`. -/
theorem Aims.failed (hendpoints : d.endpoints = c.endpoints) (haims : d.aims = c.aims)
    {a : ℕ} {t : Attempt} (ht : c.attempts[a]? = some t)
    (hmarked : d.marked = c.marked ++ [t.host]) : Aims c d := by
  refine ⟨hendpoints, Or.inl haims, [t.host], hmarked, fun host hhost => ?_⟩
  obtain rfl := List.mem_singleton.mp hhost
  exact List.mem_map_of_mem (List.mem_map_of_mem (List.mem_of_getElem? ht))

theorem aims_of_step {urlOk : String → Bool} {late : Bool} {e : Event}
    (h : c.step urlOk late e = some d) : Aims c d := by
  have hendpoints := step_endpoints h
  cases Client.effect_of_step h with
  | enter k index hk =>
    unfold Client.tryEnter
    split
    · exact .same rfl rfl rfl
    · rename_i ep hep
      split_ifs
      · refine ⟨rfl, Or.inr ⟨index, ep, hep, ?_⟩, [], by simp [Client.openTask], by simp⟩
        simp [Client.aims, Client.openTask, Attempt.aim]
      · exact .same rfl rfl rfl
  | start a => exact .same rfl (onAttempt_aims c a fun _ => rfl) rfl
  | initSent a ok =>
    have haims := onAttempt_aims c a
      (f := fun t => { t with initPending := false, delivered := t.delivered || ok }) fun _ => rfl
    unfold Client.initSent
    split_ifs
    · exact .same rfl haims rfl
    · exact .same rfl haims rfl
  | received a message =>
    have haims := onAttempt_aims c a
      (f := fun t => { t with recvPending := false, claimed := true }) fun _ => rfl
    obtain ⟨hloop, hloopMarked⟩ := receiveLoop_aims (Client.deliver
      { c.onAttempt a (fun t => { t with recvPending := false, claimed := true }) with
        connected := true } a message)
    obtain ⟨hdeliver, hdeliverMarked⟩ := deliver_aims
      { c.onAttempt a (fun t => { t with recvPending := false, claimed := true }) with
        connected := true } a message
    exact .same hendpoints (hloop.trans (hdeliver.trans haims))
      (hloopMarked.trans hdeliverMarked)
  | receiveFailed a t ht =>
    have haims := onAttempt_aims c a (f := ({ · with recvPending := false })) fun _ => rfl
    unfold Client.receiveFailed at hendpoints ⊢
    dsimp only at hendpoints ⊢
    split_ifs at hendpoints ⊢
    · obtain ⟨hfail, hmarked⟩ := fail_aims (c.onAttempt a ({ · with recvPending := false })) a t
      exact .same hendpoints (hfail.trans haims) hmarked
    · obtain ⟨hadvance, hmarked⟩ :=
        advance_aims ((c.onAttempt a ({ · with recvPending := false })).markDead t.host) a t
      exact .failed hendpoints (hadvance.trans haims) ht hmarked
  | timer a t ht =>
    have haims := onAttempt_aims c a (f := ({ · with timerPending := false })) fun _ => rfl
    unfold Client.timer at hendpoints ⊢
    dsimp only at hendpoints ⊢
    split_ifs at hendpoints ⊢
    · exact .same hendpoints haims rfl
    · have hcancel := onAttempt_aims ((c.onAttempt a ({ · with timerPending := false })).markDead
        t.host) a (f := ({ · with cancelled := true })) fun _ => rfl
      obtain ⟨hgive, hmarked⟩ := giveUp_aims (((c.onAttempt a
        ({ · with timerPending := false })).markDead t.host).onAttempt a
          ({ · with cancelled := true })) a t
      exact .failed hendpoints (hgive.trans (hcancel.trans haims)) ht hmarked
  | loopReceived a message =>
    have haims := onAttempt_aims c a
      (f := fun t => { t with loopPending := t.loopPending - 1 }) fun _ => rfl
    unfold Client.loopReceived at hendpoints ⊢
    split_ifs at hendpoints ⊢
    · obtain ⟨hloop, hloopMarked⟩ := receiveLoop_aims (Client.deliver
        { c.loopDone a with
          firstRecv := true
          upPosted := (c.loopDone a).upPosted || !(c.loopDone a).firstRecv } a message)
      obtain ⟨hdeliver, hdeliverMarked⟩ := deliver_aims
        { c.loopDone a with
          firstRecv := true
          upPosted := (c.loopDone a).upPosted || !(c.loopDone a).firstRecv } a message
      exact .same hendpoints (hloop.trans (hdeliver.trans haims))
        (hloopMarked.trans hdeliverMarked)
    · exact .same rfl haims rfl
  | loopFailed a =>
    have haims := onAttempt_aims c a
      (f := fun t => { t with loopPending := t.loopPending - 1 }) fun _ => rfl
    unfold Client.loopFailed
    split_ifs
    · exact .same rfl haims rfl
    · exact .same rfl haims rfl
  | send data =>
    obtain ⟨haims, hmarked⟩ := onTask_aims c
      (fun t => { t with frames := t.frames ++ [.data c.frames.length data] }) fun _ => rfl
    exact .same hendpoints haims hmarked
  | close =>
    obtain ⟨haims, hmarked⟩ := onTask_aims c ({ · with cancelled := true }) fun _ => rfl
    exact .same hendpoints haims hmarked
  | release => exact .same rfl rfl rfl

end

/-- Every attempt was created for an endpoint of the cascade, and every host that
failed is one of an attempt. -/
structure Client.Aimed (c : Client) : Prop where
  aims : ∀ p ∈ c.aims, ∃ ep, c.endpoints[p.1]? = some ep ∧ ep.host = p.2
  marked : ∀ host ∈ c.marked, host ∈ c.aims.map Prod.snd

theorem Client.Aimed.step {c d : Client} (h : c.Aimed) (hd : Aims c d) : d.Aimed := by
  obtain ⟨hendpoints, haims, more, hmarked, hmore⟩ := hd
  have hsub : ∀ p ∈ c.aims, p ∈ d.aims := by
    intro p hp
    rcases haims with hsame | ⟨index, ep, -, hnew⟩
    · exact hsame ▸ hp
    · exact hnew ▸ List.mem_append_left _ hp
  constructor
  · intro p hp
    rw [hendpoints]
    rcases haims with hsame | ⟨index, ep, hep, hnew⟩
    · exact h.aims p (hsame ▸ hp)
    · rw [hnew] at hp
      rcases List.mem_append.mp hp with hp | hp
      · exact h.aims p hp
      · obtain rfl := List.mem_singleton.mp hp
        exact ⟨ep, hep, rfl⟩
  · intro host hhost
    have hold : host ∈ c.aims.map Prod.snd := by
      rw [hmarked] at hhost
      rcases List.mem_append.mp hhost with hhost | hhost
      · exact h.marked host hhost
      · exact hmore host hhost
    obtain ⟨p, hp, rfl⟩ := List.mem_map.mp hold
    exact List.mem_map_of_mem (hsub p hp)

theorem tryConnect_aimed (urlOk : String → Bool) (c : Client) (index : ℕ) (haims : c.aims = [])
    (hmarked : c.marked = []) : (c.tryConnect urlOk index).Aimed ∧
      (c.tryConnect urlOk index).endpoints = c.endpoints := by
  induction c, index using Client.tryConnect.induct urlOk with
  | case1 c index hnone =>
    rw [Client.tryConnect_none urlOk c hnone]
    refine ⟨⟨fun p hp => ?_, fun host hhost => ?_⟩, rfl⟩
    · rw [show (c.exhausted index).aims = c.aims from rfl, haims] at hp
      cases hp
    · rw [show (c.exhausted index).marked = c.marked from rfl, hmarked] at hhost
      cases hhost
  | case2 c index ep hep hok =>
    rw [Client.tryConnect_ok c hep hok]
    have hopened : (c.openTask index ep).aims = [(index, ep.host)] := by
      have happend : (c.openTask index ep).aims = c.aims ++ [(index, ep.host)] := by
        simp [Client.aims, Client.openTask, Attempt.aim]
      rw [happend, haims, List.nil_append]
    have hstarted : ((c.openTask index ep).startTask c.attempts.length).aims =
        [(index, ep.host)] := by
      refine Eq.trans (onAttempt_aims (c.openTask index ep) c.attempts.length (f := fun t =>
        { t with frames := t.frames ++ [.init c.initFrame], started := true, initPending := true,
                 recvPending := true, timerPending := true }) fun _ => rfl) hopened
    refine ⟨⟨fun p hp => ?_, fun host hhost => ?_⟩, rfl⟩
    · rw [hstarted] at hp
      obtain rfl := List.mem_singleton.mp hp
      exact ⟨ep, hep, rfl⟩
    · rw [show ((c.openTask index ep).startTask c.attempts.length).marked = c.marked from rfl,
        hmarked] at hhost
      cases hhost
  | case3 c index ep hep hbad ih =>
    rw [Client.tryConnect_bad c hep hbad]
    exact ih haims hmarked

theorem connect_aimed (urlOk : String → Bool) (endpoints : List Endpoint) (initFrame : Bytes) :
    (Client.connect urlOk endpoints initFrame).Aimed ∧
      (Client.connect urlOk endpoints initFrame).endpoints = endpoints :=
  tryConnect_aimed urlOk _ 0 rfl rfl

/-! ## The shared state -/

/-- What a callback says about a host. -/
structure Verdict where
  host : String
  dead : Bool
  time : ℚ
  deriving DecidableEq, Repr

/-- The static fields of `CFDomains` and `WSClient`, and all clients. -/
structure Fleet where
  /-- `_bases` -/
  newBases : Option (List String) := none
  rrStart : ℕ := 0
  deadUntil : String → Option ℚ := fun _ => none
  clients : List Client := []
  /-- The time of the last event. -/
  clock : ℚ := 0
  /-- History: the calls of `markDead` and `markAlive`. -/
  verdicts : List Verdict := []
  /-- History: the DC of each cascade, and the hosts of its first six candidates. -/
  rows : List (ℕ × List String) := []

/-- An update of the domains, a new connection, or an event of a client. -/
inductive FleetEvent where
  | update (newBases : List String)
  | connect (dc : ℕ) (isMedia : Bool) (initFrame : Bytes) (now : ℚ)
  /-- An event of the client number `k`. -/
  | client (k : ℕ) (e : Event) (now : ℚ)
  deriving DecidableEq

/-- The DC of the cascade that the event starts. -/
def FleetEvent.dc? : FleetEvent → Option ℕ
  | .connect dc .. => some dc
  | _ => none

/-- `aliveOnly(_:)` (lines 100–109): what it returns, and the table after it. -/
def aliveOnly (now : ℚ) : List Endpoint → (String → Option ℚ) →
    List Endpoint × (String → Option ℚ)
  | [], deadUntil => ([], deadUntil)
  | ep :: eps, deadUntil =>
    match deadUntil ep.host with
    | none =>
      let (healthy, deadUntil) := aliveOnly now eps deadUntil
      (ep :: healthy, deadUntil)
    | some until_ =>
      if now < until_ then aliveOnly now eps deadUntil
      else
        let (healthy, deadUntil) := aliveOnly now eps (Function.update deadUntil ep.host none)
        (ep :: healthy, deadUntil)

namespace Fleet

/-- `bases` (`CFDomains.swift:41-44`). -/
def bases (f : Fleet) : List String := f.newBases.getD builtinBases

/-- `markDead(_:)` (lines 90–93). -/
def markDead (now : ℚ) (f : Fleet) (host : String) : Fleet :=
  { f with
    deadUntil := Function.update f.deadUntil host (some (now + 600))
    verdicts := f.verdicts ++ [⟨host, true, now⟩] }

/-- `markAlive(_:)` (lines 95–98). -/
def markAlive (now : ℚ) (f : Fleet) (host : String) : Fleet :=
  { f with
    deadUntil := Function.update f.deadUntil host none
    verdicts := f.verdicts ++ [⟨host, false, now⟩] }

/-- `rrStart` of the next cascade (line 121). -/
def nextStart (f : Fleet) : ℕ := (f.rrStart + 1) % f.bases.length

/-- The candidates of the next cascade. -/
def next (f : Fleet) (dc : ℕ) (isMedia : Bool) : List Endpoint :=
  candidates f.bases f.nextStart dc isMedia

/-- `connect(dc:isMedia:…)` (lines 111–132). -/
def connect (urlOk : String → Bool) (f : Fleet) (dc : ℕ) (isMedia : Bool) (initFrame : Bytes)
    (now : ℚ) : Fleet :=
  let endpoints := f.next dc isMedia
  let (healthy, deadUntil) := aliveOnly now endpoints f.deadUntil
  { f with
    rrStart := f.nextStart
    deadUntil
    clients := f.clients ++
      [Client.connect urlOk (if healthy = [] then endpoints else healthy) initFrame]
    clock := now
    rows := f.rows ++ [(dc, (endpoints.take 6).map (·.host))] }

/-- The verdicts of the event `e`, which has made `d` of the client `c`. -/
def judge (now : ℚ) (f : Fleet) (c d : Client) (e : Event) : Fleet :=
  (d.marked.drop c.marked.length).foldl (markDead now) ((c.vouched e).foldl (markAlive now) f)

/-- A callback or call of the client number `k`. -/
def onClient (urlOk : String → Bool) (late : Bool) (f : Fleet) (k : ℕ) (e : Event) (now : ℚ) :
    Option Fleet :=
  f.clients[k]?.bind fun c => (c.step urlOk late e).map fun d =>
    { f.judge now c d e with clients := f.clients.set k d, clock := now }

/-- The state an event leads to, where it can happen. -/
def step (urlOk : String → Bool) (late : Bool) (f : Fleet) : FleetEvent → Option Fleet
  | .update newBases => some { f with newBases := updateBases f.newBases newBases }
  | .connect dc isMedia initFrame now =>
    if f.clock ≤ now then some (f.connect urlOk dc isMedia initFrame now) else none
  | .client k e now => if f.clock ≤ now then f.onClient urlOk late k e now else none

end Fleet

/-! ## The table and the verdicts -/

/-- The table has the host as failed. -/
def out (deadUntil : String → Option ℚ) (now : ℚ) (host : String) : Bool :=
  (deadUntil host).any (now < ·)

/-- The last verdict on the host is a failure of the last ten minutes. -/
def quarantined (verdicts : List Verdict) (now : ℚ) (host : String) : Bool :=
  match verdicts.reverse.find? (·.host == host) with
  | some v => v.dead && decide (now < v.time + 600)
  | none => false

section

variable {deadUntil : String → Option ℚ} {now : ℚ}

/-- An entry that has run out is not missed. -/
theorem out_purged {host : String} {limit : ℚ} (h : deadUntil host = some limit)
    (hlimit : ¬ now < limit) {now' : ℚ} (hnow : now ≤ now') (host' : String) :
    out (Function.update deadUntil host none) now' host' = out deadUntil now' host' := by
  by_cases heq : host' = host
  · subst heq
    have hpast : ¬ now' < limit := fun hlt => hlimit (hnow.trans_lt hlt)
    simp [out, h, hpast]
  · simp [out, Function.update_of_ne heq]

/-- `aliveOnly` keeps the endpoints that the table does not have as failed, and
nobody sees what it removes. -/
theorem aliveOnly_spec (eps : List Endpoint) :
    (aliveOnly now eps deadUntil).1 = eps.filter (fun ep => !out deadUntil now ep.host) ∧
      ∀ now', now ≤ now' → ∀ host,
        out (aliveOnly now eps deadUntil).2 now' host = out deadUntil now' host := by
  induction eps generalizing deadUntil with
  | nil => exact ⟨rfl, fun _ _ _ => rfl⟩
  | cons ep eps ih =>
    unfold aliveOnly
    cases hentry : deadUntil ep.host with
    | none =>
      have hin : out deadUntil now ep.host = false := by simp [out, hentry]
      refine ⟨?_, ih.2⟩
      rw [List.filter_cons_of_pos (by simp [hin])]
      exact congrArg _ ih.1
    | some limit =>
      dsimp only
      split_ifs with hlimit
      · have hout : out deadUntil now ep.host = true := by simp [out, hentry, hlimit]
        refine ⟨?_, ih.2⟩
        rw [List.filter_cons_of_neg (by simp [hout])]
        exact ih.1
      · have hin : out deadUntil now ep.host = false := by simp [out, hentry, hlimit]
        have hpurged := @out_purged deadUntil now ep.host limit hentry hlimit
        refine ⟨?_, fun now' hnow host => (ih.2 now' hnow host).trans (hpurged hnow host)⟩
        rw [List.filter_cons_of_pos (by simp [hin])]
        refine congrArg _ (ih.1.trans ?_)
        simp only [hpurged le_rfl]

end

namespace Fleet

/-- From now on the table answers as the last verdicts do. -/
def Faithful (f : Fleet) : Prop :=
  ∀ now, f.clock ≤ now → ∀ host, out f.deadUntil now host = quarantined f.verdicts now host

section

variable {f g : Fleet} {urlOk : String → Bool} {late : Bool} {now : ℚ}

theorem Faithful.markDead (h : f.Faithful) (host : String) : (f.markDead now host).Faithful := by
  intro now' hnow host'
  by_cases heq : host' = host
  · subst heq
    simp [out, quarantined, Fleet.markDead]
  · have hother : quarantined (f.markDead now host).verdicts now' host' =
        quarantined f.verdicts now' host' := by
      simp [quarantined, Fleet.markDead, Ne.symm heq]
    rw [hother, ← h now' hnow host']
    simp [out, Fleet.markDead, Function.update_of_ne heq]

theorem Faithful.markAlive (h : f.Faithful) (host : String) : (f.markAlive now host).Faithful := by
  intro now' hnow host'
  by_cases heq : host' = host
  · subst heq
    simp [out, quarantined, Fleet.markAlive]
  · have hother : quarantined (f.markAlive now host).verdicts now' host' =
        quarantined f.verdicts now' host' := by
      simp [quarantined, Fleet.markAlive, Ne.symm heq]
    rw [hother, ← h now' hnow host']
    simp [out, Fleet.markAlive, Function.update_of_ne heq]

/-- What both marks keep, the verdicts of an event keep. -/
theorem judge_rule {P : Fleet → Prop} (halive : ∀ f host, P f → P (Fleet.markAlive now f host))
    (hdead : ∀ f host, P f → P (Fleet.markDead now f host)) (c d : Client) (e : Event) (hf : P f) :
    P (f.judge now c d e) := by
  have hfold (mark : Fleet → String → Fleet) (hmark : ∀ f host, P f → P (mark f host))
      (hosts : List String) : ∀ f, P f → P (hosts.foldl mark f) := by
    induction hosts with
    | nil => exact fun f hf => hf
    | cons host hosts ih => exact fun f hf => ih (mark f host) (hmark f host hf)
  exact hfold _ hdead _ _ (hfold _ halive _ f hf)

theorem onClient_eq_some {k : ℕ} {e : Event} :
    f.onClient urlOk late k e now = some g ↔
      ∃ c d, f.clients[k]? = some c ∧ c.step urlOk late e = some d ∧
        { f.judge now c d e with clients := f.clients.set k d, clock := now } = g := by
  unfold Fleet.onClient
  rw [Option.bind_eq_some_iff]
  constructor
  · rintro ⟨c, hc, hd⟩
    obtain ⟨d, hd, heq⟩ := Option.map_eq_some_iff.mp hd
    exact ⟨c, d, hc, hd, heq⟩
  · rintro ⟨c, d, hc, hd, heq⟩
    exact ⟨c, hc, Option.map_eq_some_iff.mpr ⟨d, hd, heq⟩⟩

theorem Faithful.step (h : f.Faithful) {e : FleetEvent} (hstep : f.step urlOk late e = some g) :
    g.Faithful := by
  cases e with
  | update newBases =>
    obtain rfl := Option.some.inj hstep
    exact h
  | connect dc isMedia initFrame now =>
    obtain ⟨hclock, ⟨⟩⟩ := Option.ite_none_right_eq_some.mp hstep
    intro now' hnow host
    exact ((aliveOnly_spec _).2 now' hnow host).trans (h now' (hclock.trans hnow) host)
  | client k e now =>
    obtain ⟨hclock, hclient⟩ := Option.ite_none_right_eq_some.mp hstep
    obtain ⟨c, d, -, -, rfl⟩ := onClient_eq_some.mp hclient
    have hmarks := @judge_rule f now ( fun g => g.Faithful ∧ g.clock = f.clock)
      (fun g host hg => ⟨hg.1.markAlive host, hg.2⟩) (fun g host hg => ⟨hg.1.markDead host, hg.2⟩)
      c d e ⟨h, rfl⟩
    intro now' hnow host
    exact hmarks.1 now' (hmarks.2.trans_le (hclock.trans hnow)) host

/-- The cascade of a new client: the candidates that the verdicts allow, or all
of them where they allow none. -/
def ByVerdicts (urlOk : String → Bool) (f : Fleet) : FleetEvent → Prop
  | .connect dc isMedia initFrame now =>
    ∃ c, (f.connect urlOk dc isMedia initFrame now).clients = f.clients ++ [c] ∧
      c.endpoints =
        let allowed := (f.next dc isMedia).filter (!quarantined f.verdicts now ·.host)
        if allowed = [] then f.next dc isMedia else allowed
  | _ => True

theorem Faithful.byVerdicts (h : f.Faithful) {e : FleetEvent}
    (hstep : f.step urlOk late e = some g) : ByVerdicts urlOk f e := by
  cases e with
  | connect dc isMedia initFrame now =>
    obtain ⟨hclock, -⟩ := Option.ite_none_right_eq_some.mp hstep
    refine ⟨_, rfl, ?_⟩
    rw [(connect_aimed urlOk _ initFrame).2, (aliveOnly_spec (f.next dc isMedia)).1]
    simp only [h now hclock]
  | _ => trivial

end

end Fleet

/-- A cascade leaves out the candidates whose last verdict is a failure of the
last ten minutes, unless that leaves none. -/
theorem cascade_by_verdicts (urlOk : String → Bool) (late : Bool) (events : List FleetEvent) :
    EveryStep (Fleet.step urlOk late) (Fleet.ByVerdicts urlOk) {} events :=
  everyStep_of_invariant (fun _ _ _ h hstep => ⟨h.byVerdicts hstep, Fleet.Faithful.step h hstep⟩)
    events _ fun _ _ _ => rfl

namespace Fleet

/-! ## The clients -/

/-- Where the attempts of a fleet go, and which hosts may be out. -/
structure FleetAims (f : Fleet) : Prop where
  /-- The certificate of an attempt is checked against other names than its host
  exactly where its request carries a `Host` header. -/
  attempts : ∀ c ∈ f.clients, ∀ t ∈ c.attempts, ∃ ep, c.endpoints[t.index]? = some ep ∧
    ep.host = t.host ∧ isIPv4 t.host = ep.hostHeader.isSome
  /-- Only a host that an attempt of some client has failed on is out. -/
  failed : ∀ host limit, f.deadUntil host = some limit →
    ∃ c ∈ f.clients, host ∈ c.marked ∧ ∃ t ∈ c.attempts, t.host = host

/-- What every event keeps. -/
structure Aimed (f : Fleet) : Prop where
  clients : ∀ c ∈ f.clients, c.Aimed ∧
    ∀ ep ∈ c.endpoints, isIPv4 ep.host = ep.hostHeader.isSome
  failed : ∀ host limit, f.deadUntil host = some limit → ∃ c ∈ f.clients, host ∈ c.marked

section

variable {f g : Fleet} {urlOk : String → Bool} {late : Bool}

theorem aliveOnly_subset (now : ℚ) (eps : List Endpoint) (deadUntil : String → Option ℚ) :
    (aliveOnly now eps deadUntil).1 ⊆ eps ∧ ∀ host limit,
      (aliveOnly now eps deadUntil).2 host = some limit → deadUntil host = some limit := by
  refine ⟨?_, ?_⟩
  · rw [(aliveOnly_spec eps).1]
    exact List.filter_subset_self eps
  · induction eps generalizing deadUntil with
    | nil => exact fun _ _ h => h
    | cons ep eps ih =>
      intro host limit h
      unfold aliveOnly at h
      split at h
      · exact ih deadUntil host limit h
      · split_ifs at h
        · exact ih deadUntil host limit h
        · have hpurged := ih (Function.update deadUntil ep.host none) host limit h
          by_cases heq : host = ep.host
          · subst heq
            simp at hpurged
          · rwa [Function.update_of_ne heq] at hpurged

theorem Aimed.connect (h : f.Aimed) (dc : ℕ) (isMedia : Bool) (initFrame : Bytes) (now : ℚ) :
    (f.connect urlOk dc isMedia initFrame now).Aimed := by
  obtain ⟨hsub, hdead⟩ := aliveOnly_subset now (f.next dc isMedia) f.deadUntil
  let list := if (aliveOnly now (f.next dc isMedia) f.deadUntil).1 = [] then f.next dc isMedia
    else (aliveOnly now (f.next dc isMedia) f.deadUntil).1
  have hlist : list ⊆ f.next dc isMedia := by
    unfold list
    split_ifs
    · exact List.Subset.refl _
    · exact hsub
  obtain ⟨haimed, hendpoints⟩ := connect_aimed urlOk list initFrame
  constructor
  · intro c hc
    rcases List.mem_append.mp hc with hc | hc
    · exact h.clients c hc
    · obtain rfl := List.mem_singleton.mp hc
      refine ⟨haimed, fun ep hep => ?_⟩
      rw [hendpoints] at hep
      exact isIPv4_candidates (hlist hep)
  · intro host limit hhost
    obtain ⟨c, hc, hmarked⟩ := h.failed host limit (hdead host limit hhost)
    exact ⟨c, List.mem_append_left _ hc, hmarked⟩

/-- An entry that an event has left or made. -/
theorem judge_deadUntil {now : ℚ} {c d : Client} {e : Event} {host : String} {limit : ℚ}
    (h : (f.judge now c d e).deadUntil host = some limit) :
    host ∈ d.marked.drop c.marked.length ∨ f.deadUntil host = some limit := by
  have halive (hosts : List String) : ∀ f : Fleet,
      (hosts.foldl (Fleet.markAlive now) f).deadUntil host = some limit →
        f.deadUntil host = some limit := by
    induction hosts with
    | nil => exact fun _ h => h
    | cons alive hosts ih =>
      intro f h
      have hnext := ih _ h
      by_cases heq : host = alive
      · subst heq
        simp [Fleet.markAlive] at hnext
      · exact (Function.update_of_ne heq _ _).symm.trans hnext
  have hdead (hosts : List String) : ∀ f : Fleet,
      (hosts.foldl (Fleet.markDead now) f).deadUntil host = some limit →
        host ∈ hosts ∨ f.deadUntil host = some limit := by
    induction hosts with
    | nil => exact fun _ h => Or.inr h
    | cons failed hosts ih =>
      intro f h
      rcases ih _ h with hmem | hnext
      · exact Or.inl (List.mem_cons_of_mem _ hmem)
      · by_cases heq : host = failed
        · exact Or.inl (heq ▸ List.mem_cons_self)
        · exact Or.inr ((Function.update_of_ne heq _ _).symm.trans hnext)
  exact (hdead _ _ h).imp_right (halive _ f)

theorem Aimed.client (h : f.Aimed) {k : ℕ} {e : Event} {now : ℚ}
    (hclient : f.onClient urlOk late k e now = some g) : g.Aimed := by
  obtain ⟨c, d, hc, hd, rfl⟩ := onClient_eq_some.mp hclient
  have haims := aims_of_step hd
  have hold := h.clients c (List.mem_of_getElem? hc)
  have hdmem : d ∈ f.clients.set k d :=
    List.mem_set (List.getElem?_eq_some_iff.mp hc).1 d
  have hkept : ∀ host, (∃ b ∈ f.clients, host ∈ b.marked) →
      ∃ b ∈ f.clients.set k d, host ∈ b.marked := by
    rintro host ⟨b, hb, hhost⟩
    obtain ⟨j, hj⟩ := List.mem_iff_getElem?.mp hb
    by_cases hjk : j = k
    · subst hjk
      obtain rfl := Option.some.inj (hj.symm.trans hc)
      obtain ⟨more, hmore, -⟩ := haims.marked
      exact ⟨d, hdmem, hmore ▸ List.mem_append_left _ hhost⟩
    · refine ⟨b, List.mem_iff_getElem?.mpr ⟨j, ?_⟩, hhost⟩
      rw [List.getElem?_set_ne (Ne.symm hjk)]
      exact hj
  constructor
  · intro b hb
    rcases List.mem_or_eq_of_mem_set hb with hb | rfl
    · exact h.clients b hb
    · refine ⟨hold.1.step haims, ?_⟩
      rw [haims.endpoints]
      exact hold.2
  · intro host limit hlimit
    rcases judge_deadUntil hlimit with hfailed | hlimit
    · exact ⟨d, hdmem, List.mem_of_mem_drop hfailed⟩
    · exact hkept host (h.failed host limit hlimit)

theorem Aimed.step (h : f.Aimed) {e : FleetEvent} (hstep : f.step urlOk late e = some g) :
    g.Aimed := by
  cases e with
  | update newBases =>
    obtain rfl := Option.some.inj hstep
    exact ⟨h.clients, h.failed⟩
  | connect dc isMedia initFrame now =>
    obtain ⟨-, ⟨⟩⟩ := Option.ite_none_right_eq_some.mp hstep
    exact h.connect dc isMedia initFrame now
  | client k e now => exact h.client (Option.ite_none_right_eq_some.mp hstep).2

theorem Aimed.fleetAims (h : f.Aimed) : f.FleetAims := by
  constructor
  · intro c hc t ht
    obtain ⟨haimed, htrust⟩ := h.clients c hc
    obtain ⟨ep, hep, hhost⟩ := haimed.aims t.aim (List.mem_map_of_mem ht)
    refine ⟨ep, hep, hhost, ?_⟩
    rw [← htrust ep (List.mem_of_getElem? hep), hhost]
    rfl
  · intro host limit hlimit
    obtain ⟨c, hc, hmarked⟩ := h.failed host limit hlimit
    have hhost := (h.clients c hc).1.marked host hmarked
    rw [Client.aims, List.map_map, List.mem_map] at hhost
    obtain ⟨t, ht, heq⟩ := hhost
    exact ⟨c, hc, hmarked, t, ht, heq⟩

end

end Fleet

/-- In every order of the events of all clients, every attempt goes to an
endpoint of its cascade, under the trust that fits it. -/
theorem fleet_aims (urlOk : String → Bool) (late : Bool) (events : List FleetEvent) :
    EveryState (Fleet.step urlOk late) Fleet.FleetAims {} events :=
  everyState_of_invariant (fun _ _ _ h hstep => Fleet.Aimed.step h hstep)
    (fun _ h => h.fleetAims) events _ ⟨by simp, by simp⟩

namespace Fleet

/-! ## The fronts -/

/-- The fronts of the next cascade are a rotation of a list that begins with the
built-in ones and has none twice. -/
structure Fronted (f : Fleet) : Prop where
  nodup : f.bases.Nodup
  builtin : builtinBases <+: f.bases

section

variable {f g : Fleet} {urlOk : String → Bool} {late : Bool}

theorem Fronted.length (h : f.Fronted) : 20 ≤ f.bases.length := h.builtin.length_le

theorem fronted_init : Fronted {} := ⟨builtinBases_nodup, List.prefix_rfl⟩

theorem judge_fronts (now : ℚ) (c d : Client) (e : Event) :
    (f.judge now c d e).newBases = f.newBases ∧ (f.judge now c d e).rrStart = f.rrStart ∧
      (f.judge now c d e).rows = f.rows :=
  @judge_rule f now (fun g => g.newBases = f.newBases ∧ g.rrStart = f.rrStart ∧ g.rows = f.rows)
    (fun _ _ hg => hg) (fun _ _ hg => hg) c d e ⟨rfl, rfl, rfl⟩

/-- What an event other than `update` does to the fronts. -/
theorem step_fronts {e : FleetEvent} (h : f.Fronted) (hstep : f.step urlOk late e = some g)
    (he : ∀ newBases, e ≠ .update newBases) :
    g.newBases = f.newBases ∧
      (∀ dc, e.dc? = some dc → g.rrStart = f.nextStart ∧
        g.rows = f.rows ++ [(dc, ((rotated f.bases f.nextStart).take 6).map (front dc))]) ∧
      (e.dc? = none → g.rrStart = f.rrStart ∧ g.rows = f.rows) := by
  cases e with
  | update newBases => exact absurd rfl (he newBases)
  | connect dc isMedia initFrame now =>
    obtain ⟨-, ⟨⟩⟩ := Option.ite_none_right_eq_some.mp hstep
    have hlength := h.length
    have hfirst := candidates_fronts (show 6 ≤ f.bases.length by omega) f.nextStart dc isMedia
    refine ⟨rfl, fun dc' hdc => ?_, fun hdc => by cases hdc⟩
    obtain rfl := Option.some.inj hdc
    refine ⟨rfl, ?_⟩
    show f.rows ++ [(dc, ((f.next dc isMedia).take 6).map (·.host))] = _
    rw [← hfirst]
    rfl
  | client k e now =>
    obtain ⟨c, d, -, -, rfl⟩ := onClient_eq_some.mp (Option.ite_none_right_eq_some.mp hstep).2
    have hsame := @judge_fronts f now c d e
    exact ⟨hsame.1, fun dc hdc => (by cases hdc), fun _ => hsame.2⟩

theorem Fronted.step (h : f.Fronted) {e : FleetEvent} (hstep : f.step urlOk late e = some g) :
    g.Fronted := by
  by_cases he : ∃ newBases, e = .update newBases
  · obtain ⟨newBases, rfl⟩ := he
    obtain rfl := Option.some.inj hstep
    by_cases hcount : 3 ≤ newBases.length
    · obtain ⟨hnodup, ⟨more, hmore, -⟩, -⟩ := merge_spec builtinBases_nodup newBases
      have hbases : ({ f with newBases := updateBases f.newBases newBases } : Fleet).bases =
          merge builtinBases newBases := by
        unfold bases updateBases
        rw [if_pos hcount, Option.getD_some]
      exact ⟨hbases ▸ hnodup, hbases ▸ hmore ▸ List.prefix_append _ _⟩
    · have hsame : updateBases f.newBases newBases = f.newBases := if_neg hcount
      rw [hsame]
      exact h
  · obtain ⟨hbases, -⟩ := step_fronts h hstep fun newBases hnew => he ⟨newBases, hnew⟩
    have hsame : g.bases = f.bases := congrArg (·.getD builtinBases) hbases
    exact ⟨hsame ▸ h.nodup, hsame ▸ h.builtin⟩

/-- The rows of the next cascades, for these DCs. -/
def upcoming (f : Fleet) (dcs : List ℕ) : List (ℕ × List String) :=
  dcs.mapIdx fun j dc => (dc, ((f.bases.rotate (f.rrStart + 1 + j)).take 6).map (front dc))

theorem upcoming_cons (dc : ℕ) (dcs : List ℕ) (hg : g.bases = f.bases)
    (hstart : g.rrStart % f.bases.length = (f.rrStart + 1) % f.bases.length) :
    f.upcoming (dc :: dcs) =
      (dc, ((f.bases.rotate (f.rrStart + 1)).take 6).map (front dc)) :: g.upcoming dcs := by
  unfold upcoming
  rw [List.mapIdx_cons, hg]
  refine congrArg _ (congrArg (List.mapIdx · dcs) ?_)
  funext j dc
  have hmod : (g.rrStart + (1 + j)) % f.bases.length =
      (f.rrStart + 1 + (1 + j)) % f.bases.length := Nat.ModEq.add_right (1 + j) hstart
  have hrotate : f.bases.rotate (f.rrStart + 1 + (j + 1)) = f.bases.rotate (g.rrStart + 1 + j) := by
    rw [← List.rotate_mod f.bases (f.rrStart + 1 + (j + 1)),
      ← List.rotate_mod f.bases (g.rrStart + 1 + j), Nat.add_assoc g.rrStart, hmod,
      Nat.add_comm j 1]
  rw [hrotate]

/-- The rows of a run without an update. -/
theorem rows_run (h : f.Fronted) (events : List FleetEvent)
    (hupdate : ∀ e ∈ events, ∀ newBases, e ≠ .update newBases)
    (hrun : run (Fleet.step urlOk late) f events = some g) :
    g.rows = f.rows ++ f.upcoming (events.filterMap (·.dc?)) := by
  induction events generalizing f with
  | nil =>
    cases hrun
    simp [upcoming]
  | cons e events ih =>
    obtain ⟨m, hm, hrun⟩ := run_cons_eq_some.mp hrun
    obtain ⟨hbases, hfronts⟩ := step_fronts h hm (hupdate e List.mem_cons_self)
    have hsame : m.bases = f.bases := congrArg (·.getD builtinBases) hbases
    rw [ih (h.step hm) (fun e he => hupdate e (List.mem_cons_of_mem _ he)) hrun]
    cases hdc : e.dc? with
    | some dc =>
      obtain ⟨hstart, hrows⟩ := hfronts.1 dc hdc
      have hlength := h.length
      have hnext : f.nextStart < f.bases.length := Nat.mod_lt _ (by omega)
      rw [List.filterMap_cons_some hdc, upcoming_cons dc _ hsame
        (by rw [hstart]; exact Nat.mod_mod _ _), hrows, List.append_assoc, rotated_eq hnext.le]
      unfold nextStart
      rw [List.rotate_mod]
      rfl
    | none =>
      obtain ⟨hstart, hrows⟩ := hfronts.2 hdc
      rw [List.filterMap_cons_none hdc, hrows]
      unfold upcoming
      rw [hsame, hstart]

/-- A property of the rows that does not depend on the DC, counted by the places
where the cascades begin. -/
theorem countP_upcoming (f : Fleet) (dcs : List ℕ) {P : ℕ → List String → Bool}
    {Q : List String → Prop} [DecidablePred Q]
    (hP : ∀ dc row, P dc (row.map (front dc)) = decide (Q row)) :
    (f.upcoming dcs).countP (fun row => P row.1 row.2) =
      Nat.count (fun j => Q ((f.bases.rotate (f.rrStart + 1 + j)).take 6)) dcs.length := by
  have hfrom (start : ℕ) : (dcs.mapIdx fun j dc =>
      (dc, ((f.bases.rotate (start + j)).take 6).map (front dc))).countP
        (fun row => P row.1 row.2) =
      Nat.count (fun j => Q ((f.bases.rotate (start + j)).take 6)) dcs.length := by
    induction dcs generalizing start with
    | nil => simp
    | cons dc dcs ih =>
      have hrest := ih (start + 1)
      simp only [Nat.add_assoc, Nat.add_comm 1] at hrest
      rw [List.mapIdx_cons, List.countP_cons, hrest, List.length_cons, Nat.count_succ', hP]
      simp
  exact hfrom (f.rrStart + 1)

end

end Fleet

theorem head?_take_eq_some {α : Type*} (l : List α) (k : ℕ) (x : α) :
    (l.take (k + 1)).head? = some x ↔ x ∈ l.take 1 := by
  cases l with
  | nil => simp
  | cons y l => simp [eq_comm]

/-- In a round of cascades, whichever DCs they are for and whatever happens in
between, every front is first once, and among the first six in six of them. -/
theorem fronts_fair (urlOk : String → Bool) (late : Bool) (before events : List FleetEvent)
    {f g : Fleet} (hbefore : run (Fleet.step urlOk late) {} before = some f)
    (hupdate : ∀ e ∈ events, ∀ newBases, e ≠ .update newBases)
    (hround : (events.filterMap (·.dc?)).length = f.bases.length)
    (hrun : run (Fleet.step urlOk late) f events = some g) :
    ∃ round, g.rows = f.rows ++ round ∧ ∀ base ∈ f.bases,
      round.countP (fun row => front row.1 base ∈ row.2) = 6 ∧
        round.countP (fun row => row.2.head? = some (front row.1 base)) = 1 := by
  have hfronted : f.Fronted :=
    invariant_run (fun _ _ _ h hstep => Fleet.Fronted.step h hstep) before _ f
      Fleet.fronted_init hbefore
  have hlength := hfronted.length
  refine ⟨_, Fleet.rows_run hfronted events hupdate hrun, fun base hbase => ?_⟩
  have hcount (k : ℕ) (hk : k ≤ 20) := count_rotations hfronted.nodup hbase (hk.trans hlength)
    (f.rrStart + 1)
  constructor
  · refine (f.countP_upcoming _ (P := fun dc row => front dc base ∈ row) (Q := (base ∈ ·))
      fun dc row => ?_).trans ?_
    · simp [List.mem_map_of_injective (front_injective dc)]
    · rw [hround]
      exact hcount 6 (by decide)
  · refine (f.countP_upcoming _ (P := fun dc row => row.head? = some (front dc base))
      (Q := (·.head? = some base)) fun dc row => ?_).trans ?_
    · rw [List.head?_map]
      cases row.head? with
      | none => simp
      | some base' => simp [(front_injective dc).eq_iff]
    · rw [hround]
      simp only [head?_take_eq_some]
      exact hcount 1 (by decide)

theorem run_connects (urlOk : String → Bool) (late : Bool) (dc n : ℕ) {f : Fleet}
    (h : f.clock ≤ 0) :
    ∃ g, run (Fleet.step urlOk late) f (List.replicate n (.connect dc false [] 0)) = some g := by
  induction n generalizing f with
  | zero => exact ⟨f, rfl⟩
  | succ n ih =>
    obtain ⟨g, hg⟩ := @ih (f.connect urlOk dc false [] 0) le_rfl
    refine ⟨g, run_cons_eq_some.mpr ⟨_, ?_, hg⟩⟩
    exact if_pos h

/-- Twenty cascades for DC 2. -/
theorem fronts_fair_sample : ∃ g round, run (Fleet.step (fun _ => true) false) {}
      (List.replicate 20 (.connect 2 false [] 0)) = some g ∧
    g.rows = ({} : Fleet).rows ++ round ∧ ∀ base ∈ ({} : Fleet).bases,
      round.countP (fun row => front row.1 base ∈ row.2) = 6 ∧
        round.countP (fun row => row.2.head? = some (front row.1 base)) = 1 := by
  obtain ⟨g, hg⟩ := @run_connects (fun _ => true) false 2 20 {} le_rfl
  obtain ⟨round, hround⟩ := fronts_fair (fun _ => true) false [] _ rfl
    (fun e he newBases => by rw [List.eq_of_mem_replicate he]; simp) (by rfl) hg
  exact ⟨g, round, hg, hround⟩

end WSBridge.Cascade
