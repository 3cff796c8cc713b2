import WSBridge.Cascade.Ends

/-!
# The pipe (`Tunnel/WSClient.swift`, `connectPipe`)

In pipe mode the client has one web-socket task, to the worker. Besides the
receive loop there are two callbacks: the pong, and a watchdog that after 7 s
tears down a task that has not opened. Nothing records that `onClose` has been
called: the watchdog asks for a message or a pong, the receive loop for nothing.

All closures hold the client weakly, so it lives as long as the session holds
it. The receive loop, `send` and `close` are those of the cascade.

Results:
* `pipe_closes_iff`: `onClose` is called once at most exactly as long as the
  watchdog finds the first receive outstanding where it tears the task down, and
  no receive fails after that on a client still alive.
-/

namespace WSBridge.Cascade

open WSBridge.Foundation

/-- A `WSClient` in pipe mode. -/
structure Pipe where
  client : Client
  pingOK : Bool := false
  pingPending : Bool := true
  watchdogPending : Bool := true
  /-- History: the watchdog has torn the task down. -/
  cut : Bool := false
  deriving DecidableEq, Repr

/-- What happens next. A message is `none` where it is not binary data. -/
inductive PipeEvent where
  /-- The completion of the ping, with a pong or an error. -/
  | pinged (ok : Bool)
  | watchdog
  | received (message : Option Bytes)
  | receiveFailed
  | send (data : Bytes)
  | close
  | release
  deriving DecidableEq, Repr

namespace Pipe

/-- `connectPipe(workerDomain:dst:onMessage:onClose:)` (lines 247–283) on a new
client. Whether `URLComponents` makes a URL is the parameter `urlOk`. -/
def connectPipe (urlOk : String → String → Bool) (workerDomain dst : String) : Pipe :=
  let client : Client := { endpoints := [], initFrame := [] }
  if urlOk workerDomain dst then
    let wsTask : Attempt := { index := 0, host := workerDomain, started := true }
    { client := ({ client with attempts := [wsTask], task := some 0 }).receiveLoop }
  else
    { client := { client with closes := client.closes + 1 }
      pingPending := false
      watchdogPending := false }

/-- The completion of the ping (lines 265–269). -/
def pinged (p : Pipe) (ok : Bool) : Pipe :=
  { p with pingOK := p.pingOK || (p.client.alive && ok), pingPending := false }

/-- The guard of the watchdog (line 277). -/
def unopened (p : Pipe) : Bool :=
  p.client.alive && p.client.task.isSome && !p.client.firstRecv && !p.pingOK

/-- The watchdog (lines 276–282). -/
def watchdog (p : Pipe) : Pipe :=
  let p := { p with watchdogPending := false }
  if p.unopened then
    let client := p.client.onTask ({ · with cancelled := true })
    { p with client := { client with task := none, closes := client.closes + 1 }, cut := true }
  else p

/-- An event that a pipe has like the cascade. -/
def onClient (late : Bool) (p : Pipe) (e : Event) : Option Pipe :=
  (p.client.step (fun _ => true) late e).map ({ p with client := · })

/-- The state an event leads to, where it can happen. -/
def step (late : Bool) (p : Pipe) : PipeEvent → Option Pipe
  | .pinged ok => if p.pingPending then some (p.pinged ok) else none
  | .watchdog => if p.watchdogPending then some p.watchdog else none
  | .received message => p.onClient late (.loopReceived 0 message)
  | .receiveFailed => p.onClient late (.loopFailed 0)
  | .send data => p.onClient late (.send data)
  | .close => p.onClient late .close
  | .release => p.onClient late .release

theorem onClient_eq_some {late : Bool} {p q : Pipe} {e : Event} :
    p.onClient late e = some q ↔
      ∃ d, p.client.step (fun _ => true) late e = some d ∧ { p with client := d } = q :=
  Option.map_eq_some_iff

end Pipe

/-- The receives of the loop outstanding on the client's tasks. -/
def Client.receives (c : Client) : ℕ := tally Attempt.loopPending c.attempts

/-- The end is reported by one callback: where the watchdog tears the task down,
a receive is outstanding, and none that fails has a client left once it has. -/
def OneEnd (p : Pipe) : PipeEvent → Prop
  | .watchdog => p.unopened = true → 0 < p.client.receives
  | .receiveFailed => p.client.alive = true → p.cut = false
  | _ => True

/-! ## The client under the pipe -/

/-- No cascade is under way in the client. -/
structure Idle (c : Client) : Prop where
  entering : c.entering = []
  holds : ∀ t ∈ c.attempts, t.holds = false

/-- `d` is `c` after an event that does not report the end. -/
structure After (c d : Client) : Prop where
  idle : Idle d
  held : d.held = true → c.held = true
  task : c.task = none → d.task = none
  closes : d.closes = c.closes
  receives : d.receives ≤ c.receives
  /-- Only a message ends a receive of a client that is held. -/
  waiting : d.held = true → d.firstRecv = false → c.firstRecv = false ∧ d.receives = c.receives

section

variable {c d : Client}

theorem Idle.alive (h : Idle c) : c.alive = c.held := by
  have hnone : c.attempts.any (·.holds) = false := by
    rw [List.any_eq_false]
    intro t ht
    rw [h.holds t ht]
    exact Bool.false_ne_true
  unfold Client.alive
  rw [h.entering, hnone]
  exact (Bool.or_false _).trans (Bool.or_false _)

theorem Idle.onAttempt (h : Idle c) (a : ℕ) {f : Attempt → Attempt}
    (hf : ∀ t, (f t).holds = t.holds) : Idle (c.onAttempt a f) := by
  refine ⟨h.entering, fun t ht => ?_⟩
  rcases mem_modify ht with ht | ⟨u, hu, rfl⟩
  · exact h.holds t ht
  · rw [hf]
    exact h.holds u (List.mem_of_getElem? hu)

theorem onTask_fields (c : Client) (f : Attempt → Attempt) :
    (c.onTask f).held = c.held ∧ (c.onTask f).task = c.task ∧
      (c.onTask f).firstRecv = c.firstRecv ∧ (c.onTask f).closes = c.closes :=
  c.onTask_rule f (R := fun d => d.held = c.held ∧ d.task = c.task ∧
    d.firstRecv = c.firstRecv ∧ d.closes = c.closes) ⟨rfl, rfl, rfl, rfl⟩
      fun _ => ⟨rfl, rfl, rfl, rfl⟩

theorem Idle.onTask (h : Idle c) {f : Attempt → Attempt} (hf : ∀ t, (f t).holds = t.holds) :
    Idle (c.onTask f) :=
  c.onTask_rule f h fun a => h.onAttempt a hf

theorem onTask_receives (c : Client) {f : Attempt → Attempt}
    (hf : ∀ t, (f t).loopPending = t.loopPending) : (c.onTask f).receives = c.receives :=
  c.onTask_rule f (R := fun d => d.receives = c.receives) rfl fun _ => tally_modify_same hf _ _

/-- A call of the session that does not touch the receives. -/
theorem Idle.called (h : Idle c) {f : Attempt → Attempt} (hholds : ∀ t, (f t).holds = t.holds)
    (hloop : ∀ t, (f t).loopPending = t.loopPending) : After c (c.onTask f) := by
  obtain ⟨hheld, htask, hfirst, hcloses⟩ := onTask_fields c f
  have hreceives := onTask_receives c hloop
  refine ⟨h.onTask hholds, fun hd => ?_, fun hd => ?_, hcloses, hreceives.le,
    fun _ hd => ⟨?_, hreceives⟩⟩
  · exact hheld.symm.trans hd
  · exact htask.trans hd
  · exact hfirst.symm.trans hd

theorem Idle.send (h : Idle c) (data : Bytes) : After c (c.send data) := by
  have hcalled := h.called (f := fun t => { t with
    frames := t.frames ++ [.data c.frames.length data] }) (fun _ => rfl) fun _ => rfl
  exact ⟨⟨hcalled.idle.entering, hcalled.idle.holds⟩, hcalled.held, hcalled.task, hcalled.closes,
    hcalled.receives, hcalled.waiting⟩

theorem Idle.close (h : Idle c) : After c c.close := by
  have hcalled := h.called (f := ({ · with cancelled := true })) (fun _ => rfl) fun _ => rfl
  exact ⟨⟨hcalled.idle.entering, hcalled.idle.holds⟩, hcalled.held, fun _ => rfl, hcalled.closes,
    hcalled.receives, hcalled.waiting⟩

theorem Idle.release (h : Idle c) : After c c.release :=
  ⟨⟨h.entering, h.holds⟩, fun hd => Bool.noConfusion hd, id, rfl, le_rfl,
    fun hd _ => Bool.noConfusion hd⟩

theorem loopDone_receives {a : ℕ} {t : Attempt} (ht : c.attempts[a]? = some t)
    (hloop : 0 < t.loopPending) : (c.loopDone a).receives + 1 = c.receives :=
  loopDone_tally (g := Attempt.loopPending) ht (Nat.sub_add_cancel hloop)

/-- A receive that ends without a client. -/
theorem Idle.dropped (h : Idle c) (hheld : c.held = false) {a : ℕ} {t : Attempt}
    (ht : c.attempts[a]? = some t) (hloop : 0 < t.loopPending) : After c (c.loopDone a) := by
  have hless := loopDone_receives ht hloop
  refine ⟨h.onAttempt a fun _ => rfl, id, id, rfl, by omega, fun hheld' => ?_⟩
  have hheld'' : c.held = true := hheld'
  rw [hheld] at hheld''
  cases hheld''

/-- A message, and the next receive. -/
theorem Idle.received (h : Idle c) {a : ℕ} {t : Attempt} (ht : c.attempts[a]? = some t)
    (hloop : 0 < t.loopPending) (message : Option Bytes) : After c (c.loopReceived a message) := by
  have hless := loopDone_receives ht hloop
  unfold Client.loopReceived
  split_ifs with halive
  · let p : Client := { c.loopDone a with
      firstRecv := true
      upPosted := (c.loopDone a).upPosted || !(c.loopDone a).firstRecv }
    let q : Client := p.deliver a message
    have hidle : Idle (c.loopDone a) := h.onAttempt a fun _ => rfl
    have hq : Idle q ∧ q.held = c.held ∧ q.task = c.task ∧ q.closes = c.closes ∧
        q.firstRecv = true ∧ q.receives = (c.loopDone a).receives := by
      cases message <;> exact ⟨⟨hidle.entering, hidle.holds⟩, rfl, rfl, rfl, rfl, rfl⟩
    obtain ⟨hidleq, hheld, htask, hcloses, hfirst, hreceives⟩ := hq
    obtain ⟨hheld', htask', hfirst', hcloses'⟩ :=
      onTask_fields q fun t => { t with loopPending := t.loopPending + 1 }
    have hmore : q.receiveLoop.receives ≤ q.receives + 1 :=
      receiveLoop_tally (g := Attempt.loopPending) (fun _ => rfl) q
    show After c q.receiveLoop
    refine ⟨hidleq.onTask fun _ => rfl, fun hd => ?_, fun hd => ?_, ?_, by omega,
      fun _ hnone => ?_⟩
    · exact hheld.symm.trans (hheld'.symm.trans hd)
    · exact htask'.trans (htask.trans hd)
    · exact hcloses'.trans hcloses
    · have hnone' : true = false := hfirst.symm.trans (hfirst'.symm.trans hnone)
      cases hnone'
  · rw [h.alive] at halive
    exact h.dropped (eq_false_of_ne_true halive) ht hloop

end

/-! ## The invariant -/

/-- Who has reported the end. -/
structure Pipe.Sound (p : Pipe) : Prop where
  idle : Idle p.client
  one : p.client.receives ≤ 1
  cut : p.cut = true → p.client.task = none ∧ p.watchdogPending = false
  /-- While a receive is outstanding, only the watchdog has reported. -/
  waiting : 0 < p.client.receives → p.client.closes = p.cut.toNat
  /-- The first receive has failed. -/
  failed : p.client.held = true → p.client.firstRecv = false → p.client.receives = 0 →
    p.client.closes = p.cut.toNat + 1

section

variable {p q : Pipe} {late : Bool}

theorem Pipe.Sound.after (h : p.Sound) {d : Client} (hd : After p.client d) :
    ({ p with client := d } : Pipe).Sound := by
  refine ⟨hd.idle, hd.receives.trans h.one, fun hcut => ?_, fun hmore => ?_,
    fun hheld hfirst hnone => ?_⟩
  · exact ⟨hd.task (h.cut hcut).1, (h.cut hcut).2⟩
  · exact hd.closes.trans (h.waiting (hmore.trans_le hd.receives))
  · obtain ⟨hfirst', hsame⟩ := hd.waiting hheld hfirst
    exact hd.closes.trans (h.failed (hd.held hheld) hfirst' (hsame.symm.trans hnone))

theorem Pipe.Sound.pinged (h : p.Sound) (ok : Bool) : (p.pinged ok).Sound :=
  ⟨h.idle, h.one, h.cut, h.waiting, h.failed⟩

/-- A receive that fails with the client alive. -/
theorem Pipe.Sound.loopFailed (h : p.Sound) {a : ℕ} {t : Attempt}
    (ht : p.client.attempts[a]? = some t) (hloop : 0 < t.loopPending)
    (halive : p.client.alive = true) :
    ({ p with client := p.client.loopFailed a } : Pipe).Sound ∧
      (p.client.loopFailed a).closes = p.cut.toNat + 1 := by
  have hone := h.one
  have hless := loopDone_receives ht hloop
  have hwaiting := h.waiting (by omega)
  have hfailed : p.client.loopFailed a =
      { p.client.loopDone a with connected := false, closes := p.client.closes + 1 } := by
    unfold Client.loopFailed
    rw [if_pos halive]
  have hnone : (p.client.loopFailed a).receives = 0 := by
    rw [hfailed]
    show (p.client.loopDone a).receives = 0
    omega
  have hcloses : (p.client.loopFailed a).closes = p.cut.toNat + 1 := by
    rw [hfailed, ← hwaiting]
  have hidle : Idle (p.client.loopFailed a) := by
    have hdone : Idle (p.client.loopDone a) := h.idle.onAttempt a fun _ => rfl
    rw [hfailed]
    exact ⟨hdone.entering, hdone.holds⟩
  have htask : (p.client.loopFailed a).task = p.client.task := by
    rw [hfailed]
    rfl
  refine ⟨⟨hidle, hnone.le.trans (Nat.zero_le 1), fun hcut => ?_, fun hmore => ?_,
    fun _ _ _ => hcloses⟩, hcloses⟩
  · exact ⟨htask.trans (h.cut hcut).1, (h.cut hcut).2⟩
  · exact absurd hmore hnone.not_gt

/-- The watchdog tears the task down. -/
theorem Pipe.Sound.watchdog (h : p.Sound) (hpending : p.watchdogPending = true)
    (hopen : p.unopened = true) :
    p.watchdog.Sound ∧ p.watchdog.client.closes = p.client.closes + 1 ∧ p.cut = false := by
  have hcut : p.cut = false := by
    by_contra hcut
    rw [(h.cut (eq_true_of_ne_false hcut)).2] at hpending
    cases hpending
  let client := p.client.onTask ({ · with cancelled := true })
  obtain ⟨hheld, -, hfirst, hcloses⟩ := onTask_fields p.client ({ · with cancelled := true })
  have hreceives : client.receives = p.client.receives := onTask_receives p.client fun _ => rfl
  have hidle : Idle client := h.idle.onTask fun _ => rfl
  have hwatchdog : p.watchdog = { p with
      watchdogPending := false
      client := { client with task := none, closes := client.closes + 1 }
      cut := true } := by
    unfold Pipe.watchdog
    exact if_pos hopen
  rw [hwatchdog]
  refine ⟨⟨⟨hidle.entering, hidle.holds⟩, hreceives.le.trans h.one, fun _ => ⟨rfl, rfl⟩,
    fun hmore => ?_, fun hd hdfirst hnone => ?_⟩, congrArg (· + 1) hcloses, hcut⟩
  · have hmore' : 0 < client.receives := hmore
    have hwaiting := h.waiting (hreceives ▸ hmore')
    show client.closes + 1 = true.toNat
    rw [hcloses, hwaiting, hcut]
    rfl
  · have hfailed := h.failed (hheld.symm.trans hd) (hfirst.symm.trans hdfirst)
      (hreceives.symm.trans hnone)
    show client.closes + 1 = true.toNat + 1
    rw [hcloses, hfailed, hcut]
    rfl

theorem Pipe.watchdog_opened (h : ¬ p.unopened = true) :
    p.watchdog = { p with watchdogPending := false } := by
  unfold Pipe.watchdog
  exact if_neg h

/-- An event that does not report the end keeps to the condition. -/
theorem Pipe.Sound.silent (h : p.Sound) {d : Client} (hd : After p.client d)
    (hclosed : p.client.closes ≤ 1) {C : Prop} (hC : C) :
    ({ p with client := d } : Pipe).Sound ∧ (d.closes ≤ 1 ↔ C) :=
  ⟨h.after hd, iff_of_true (hd.closes.le.trans hclosed) hC⟩

/-- One event. -/
theorem Pipe.Sound.step (h : p.Sound) (hclosed : p.client.closes ≤ 1) {e : PipeEvent}
    (hstep : p.step late e = some q) : q.Sound ∧ (q.client.closes ≤ 1 ↔ OneEnd p e) := by
  cases e with
  | pinged ok =>
    obtain ⟨-, heq⟩ := Option.ite_none_right_eq_some.mp hstep
    cases heq
    exact ⟨h.pinged ok, iff_of_true hclosed trivial⟩
  | watchdog =>
    obtain ⟨hpending, heq⟩ := Option.ite_none_right_eq_some.mp hstep
    cases heq
    by_cases hopen : p.unopened = true
    · obtain ⟨hsound, hcloses, hcut⟩ := h.watchdog hpending hopen
      refine ⟨hsound, ?_⟩
      rw [hcloses]
      have hguard := hopen
      unfold Pipe.unopened at hguard
      simp only [h.idle.alive, Bool.and_eq_true, Bool.not_eq_true'] at hguard
      obtain ⟨⟨⟨hheld, -⟩, hfirst⟩, -⟩ := hguard
      constructor
      · intro hone _
        by_contra hnone
        have hfailed := h.failed hheld hfirst (by omega)
        omega
      · intro hmore
        have hwaiting := h.waiting (hmore hopen)
        rw [hcut] at hwaiting
        rw [hwaiting]
        exact le_rfl
    · rw [Pipe.watchdog_opened hopen]
      refine ⟨⟨h.idle, h.one, fun hcut => ⟨(h.cut hcut).1, rfl⟩, h.waiting, h.failed⟩, ?_⟩
      exact iff_of_true hclosed fun hopen' => absurd hopen' hopen
  | received message =>
    obtain ⟨d, hd, rfl⟩ := Pipe.onClient_eq_some.mp hstep
    cases Client.effect_of_step hd with
    | loopReceived _ _ t ht hp => exact h.silent (h.idle.received ht hp message) hclosed trivial
  | receiveFailed =>
    obtain ⟨d, hd, rfl⟩ := Pipe.onClient_eq_some.mp hstep
    cases Client.effect_of_step hd with
    | loopFailed _ t ht hloop =>
      by_cases halive : p.client.alive = true
      · obtain ⟨hsound, hcloses⟩ := h.loopFailed ht hloop halive
        refine ⟨hsound, ?_⟩
        show (p.client.loopFailed 0).closes ≤ 1 ↔ (p.client.alive = true → p.cut = false)
        rw [hcloses]
        cases p.cut with
        | false => exact iff_of_true le_rfl fun _ => rfl
        | true => exact iff_of_false (by decide) fun hcut => Bool.noConfusion (hcut halive)
      · have hdropped : p.client.loopFailed 0 = p.client.loopDone 0 := by
          unfold Client.loopFailed
          exact if_neg halive
        rw [hdropped]
        have hheld : p.client.held = false := by
          rw [← h.idle.alive]
          exact eq_false_of_ne_true halive
        exact h.silent (h.idle.dropped hheld ht hloop) hclosed fun halive' => absurd halive' halive
  | send data =>
    obtain ⟨d, hd, rfl⟩ := Pipe.onClient_eq_some.mp hstep
    cases Client.effect_of_step hd
    exact h.silent (h.idle.send data) hclosed trivial
  | close =>
    obtain ⟨d, hd, rfl⟩ := Pipe.onClient_eq_some.mp hstep
    cases Client.effect_of_step hd
    exact h.silent h.idle.close hclosed trivial
  | release =>
    obtain ⟨d, hd, rfl⟩ := Pipe.onClient_eq_some.mp hstep
    cases Client.effect_of_step hd
    exact h.silent h.idle.release hclosed trivial

end

/-- A new pipe waits for its first receive, or has reported that there is no
URL. -/
theorem connectPipe_sound (urlOk : String → String → Bool) (workerDomain dst : String) :
    (Pipe.connectPipe urlOk workerDomain dst).Sound ∧
      (Pipe.connectPipe urlOk workerDomain dst).client.closes ≤ 1 := by
  unfold Pipe.connectPipe
  split_ifs
  · refine ⟨⟨⟨rfl, ?_⟩, le_rfl, nofun, fun _ => rfl, nofun⟩, Nat.zero_le 1⟩
    intro t ht
    obtain rfl := List.mem_singleton.mp ht
    rfl
  · exact ⟨⟨⟨rfl, nofun⟩, Nat.zero_le 1, nofun, nofun, fun _ _ _ => rfl⟩, le_rfl⟩

/-- A pipe calls `onClose` once at most exactly as long as one callback reports
the end. -/
theorem pipe_closes_iff (urlOk : String → String → Bool) (late : Bool) (workerDomain dst : String)
    (events : List PipeEvent) :
    EveryState (Pipe.step late) (fun p => p.client.closes ≤ 1)
        (Pipe.connectPipe urlOk workerDomain dst) events ↔
      EveryStep (Pipe.step late) OneEnd (Pipe.connectPipe urlOk workerDomain dst) events := by
  obtain ⟨hsound, hclosed⟩ := connectPipe_sound urlOk workerDomain dst
  refine everyState_iff_everyStep (I := Pipe.Sound) ?_ ?_ events _ hsound hclosed
  · intro p e q h hclosed hstep
    exact (h.step hclosed hstep).2
  · intro p e q h hclosed _ hstep
    exact (h.step hclosed hstep).1

end WSBridge.Cascade
