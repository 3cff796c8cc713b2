import WSBridge.Cascade.Progress

/-!
# One endpoint after the other

Each attempt leaves three callbacks behind that may go on to the next endpoint,
and the callbacks of old attempts are still to come while later ones run. The
cascade goes through the endpoints in order all the same.

Results:
* `oneByOne_run`: in every state of every run the indices tried are 0, 1, 2, …,
  at most one attempt is not claimed, no endpoint has two tasks, and the end of
  the list has been reported once at most.
-/

namespace WSBridge.Cascade

open WSBridge.Foundation
open Client (tryConnect_none tryConnect_ok tryConnect_bad)

/-- How often `tryConnect` has reported that no endpoint is left: once for each
entry that its guard (line 135) turns away. -/
def Client.reports (c : Client) : ℕ := c.tried.countP fun index => ¬ index < c.endpoints.length

/-- Each of these entries calls `onClose`. -/
theorem reports_exhausted {c : Client} {index : ℕ} (h : c.endpoints[index]? = none) :
    (c.exhausted index).reports = c.reports + 1 ∧
      (c.exhausted index).closes = c.closes + 1 := by
  have hnot : ¬ index < c.endpoints.length := by
    have hle := List.getElem?_eq_none_iff.mp h
    omega
  have hadd : (c.tried ++ [index]).countP (fun index => ¬ index < c.endpoints.length) =
      c.tried.countP (fun index => ¬ index < c.endpoints.length) + 1 := by
    rw [List.countP_append, List.countP_singleton, if_pos (decide_eq_true hnot)]
  exact ⟨hadd, rfl⟩

/-- The cascade has gone through its endpoints one by one. -/
structure OneByOne (endpoints : List Endpoint) (c : Client) : Prop where
  same : c.endpoints = endpoints
  /-- `tryConnect` was entered with 0, 1, 2, … -/
  tried : c.tried = List.range c.tried.length
  /-- An attempt that a later one follows is claimed. -/
  claimed : ∀ t ∈ c.attempts, ∀ u ∈ c.attempts, t.index < u.index → t.claimed = true
  unclaimed : ∀ (a b : ℕ) (t u : Attempt), c.attempts[a]? = some t → c.attempts[b]? = some u →
    t.claimed = false → u.claimed = false → a = b
  tasks : c.attempts.length ≤ endpoints.length
  /-- The last index that can be tried is `endpoints.count`. -/
  tried_le : ∀ index ∈ c.tried, index ≤ endpoints.length
  reports : c.reports ≤ 1

/-- `tryConnect` is entered with the next index, when every attempt is
claimed. -/
def InOrder (c : Client) : Event → Prop
  | .enter k => ∀ index, c.entering[k]? = some index →
      index = c.tried.length ∧ ∀ t ∈ c.attempts, t.claimed = true
  | _ => True

/-! ## The bounds -/

/-- The cascade is within a list of `n` endpoints. -/
structure Within (n : ℕ) (p : Progress) : Prop where
  tried_le : p.tried.length ≤ n + 1
  entering : p.entering ≠ [] → p.tried.length ≤ n
  index_lt : ∀ index ∈ p.stages.map (·.index), index < n
  ordered : (p.stages.map (·.index)).Pairwise (· < ·)

section

variable {p q : Progress} {n : ℕ}

theorem onStage_index (p : Progress) (a : ℕ) {f : Stage → Stage}
    (h : ∀ s, (f s).index = s.index) :
    (p.onStage a f).stages.map (·.index) = p.stages.map (·.index) := by
  apply List.ext_getElem?
  intro j
  show ((p.stages.modify a f).map (·.index))[j]? = _
  simp only [List.getElem?_map, List.getElem?_modify]
  cases p.stages[j]? with
  | none => rfl
  | some s =>
    simp only [Option.map_eq_map, Option.map_some]
    split_ifs
    · rw [h]
    · rfl

theorem receiveLoop_index (p : Progress) :
    p.receiveLoop.stages.map (·.index) = p.stages.map (·.index) := by
  unfold Progress.receiveLoop
  split
  · exact onStage_index p _ fun _ => rfl
  · rfl

/-- Only an entry into `tryConnect` changes the indices, and only an attempt
that was not claimed leads to one. -/
theorem Moves.indices {e : Event} (hm : Moves p e q) (he : ∀ k, e ≠ .enter k) :
    q.tried = p.tried ∧ q.stages.map (·.index) = p.stages.map (·.index) ∧
      (q.entering = p.entering ∨
        ∃ (a : ℕ) (s : Stage), p.stages[a]? = some s ∧ s.claimed = false) := by
  cases hm with
  | quiet => exact ⟨rfl, rfl, Or.inl rfl⟩
  | opened | skipped => exact absurd rfl (he _)
  | started | recvDone | timerDone | loopDone =>
    exact ⟨rfl, onStage_index p _ fun _ => rfl, Or.inl rfl⟩
  | @received a s _ _ message =>
    have hindex := onStage_index p a (f := fun s => s.recvDone.claim) fun _ => rfl
    exact ⟨receiveLoop_tried _, (receiveLoop_index _).trans hindex,
      Or.inl (receiveLoop_entering _)⟩
  | @looped a s _ _ message =>
    have hindex := onStage_index p a (f := .loopDone) fun _ => rfl
    exact ⟨receiveLoop_tried _, (receiveLoop_index _).trans hindex,
      Or.inl (receiveLoop_entering _)⟩
  | @failed a =>
    have hdone := onStage_index p a (f := .recvDone) fun _ => rfl
    exact ⟨rfl, (onStage_index _ a (f := .claim) fun _ => rfl).trans hdone, Or.inl rfl⟩
  | @advanced a s hs hopen =>
    have hdone := onStage_index p a (f := .recvDone) fun _ => rfl
    exact ⟨rfl, (onStage_index _ a (f := .claim) fun _ => rfl).trans hdone,
      Or.inr ⟨a, s, hs, hopen⟩⟩
  | @timedOut a s hs hopen =>
    have hdone := onStage_index p a (f := .timerDone) fun _ => rfl
    exact ⟨rfl, (onStage_index _ a (f := .claim) fun _ => rfl).trans hdone,
      Or.inr ⟨a, s, hs, hopen⟩⟩

/-- An event that is no entry keeps the cascade within its endpoints. -/
theorem Within.move (hw : Within n p) (hl : Linear p) {e : Event} (hm : Moves p e q)
    (he : ∀ k, e ≠ .enter k) : Within n q := by
  obtain ⟨htried, hindices, hentering⟩ := hm.indices he
  refine ⟨?_, ?_, ?_, ?_⟩
  · rw [htried]
    exact hw.tried_le
  · intro hne
    rw [htried]
    rcases hentering with hsame | ⟨a, s, hs, hopen⟩
    · rw [hsame] at hne
      exact hw.entering hne
    · -- The attempt that gives up is the last one, and it has an endpoint.
      obtain ⟨-, -, hlast⟩ := hl.open_last a s hs hopen
      have hlt := hw.index_lt s.index (List.mem_map_of_mem (List.mem_of_getElem? hs))
      omega
  · rw [hindices]
    exact hw.index_lt
  · rw [hindices]
    exact hw.ordered

end

/-! ## Entries -/

section

variable {urlOk : String → Bool} {c d : Client}

/-- The task of the next endpoint. -/
theorem Within.opened {p : Progress} {n index : ℕ} (hw : Within n p)
    (hbelow : ∀ i ∈ p.stages.map (·.index), i < index) (hlen : p.tried.length = index)
    (hlt : index < n) {entering : List ℕ} {messages : List (ℕ × Bytes)} {task : Option ℕ} :
    Within n ⟨p.stages ++ [({ index } : Stage)], p.tried ++ [index], entering, messages, task⟩ := by
  have htried : (p.tried ++ [index]).length = index + 1 := by simp [hlen]
  refine ⟨?_, ?_, ?_, ?_⟩
  · show (p.tried ++ [index]).length ≤ n + 1
    omega
  · intro _
    show (p.tried ++ [index]).length ≤ n
    omega
  · intro i hi
    rw [List.map_append] at hi
    rcases List.mem_append.mp hi with hi | hi
    · exact hw.index_lt i hi
    · obtain rfl := List.mem_singleton.mp hi
      exact hlt
  · show ((p.stages ++ [({ index } : Stage)]).map (·.index)).Pairwise (· < ·)
    rw [List.map_append, List.pairwise_append]
    refine ⟨hw.ordered, List.pairwise_singleton _ _, ?_⟩
    intro i hi j hj
    obtain rfl := List.mem_singleton.mp hj
    exact hbelow i hi

/-- An entry that opens no task: the endpoint's URL does not parse, or there is
no endpoint. -/
theorem Within.skipped {p : Progress} {n index : ℕ} (hw : Within n p)
    (hlen : p.tried.length = index) (hle : index ≤ n) {entering : List ℕ}
    (hentering : entering ≠ [] → index < n) {task : Option ℕ} :
    Within n ⟨p.stages, p.tried ++ [index], entering, p.messages, task⟩ := by
  have htried : (p.tried ++ [index]).length = index + 1 := by simp [hlen]
  refine ⟨?_, ?_, hw.index_lt, hw.ordered⟩
  · show (p.tried ++ [index]).length ≤ n + 1
    omega
  · intro hne
    have hlt := hentering hne
    show (p.tried ++ [index]).length ≤ n
    omega

theorem Linear.below {p : Progress} (hl : Linear p) {i : ℕ} (hi : i ∈ p.stages.map (·.index)) :
    i < p.tried.length := by
  obtain ⟨s, hs, rfl⟩ := List.mem_map.mp hi
  exact hl.index_lt s hs

/-- An entry into `tryConnect` keeps the cascade within its endpoints. -/
theorem Within.entered (hw : Within c.endpoints.length c.progress) (hl : Linear c.progress)
    {k index : ℕ} (hk : c.entering[k]? = some index) :
    Within c.endpoints.length
      (({ c with entering := c.entering.eraseIdx k }).tryEnter urlOk index).progress := by
  obtain ⟨hindex, herase, -⟩ := hl.entered hk
  have herase' : c.entering.eraseIdx k = [] := herase
  have hlen : c.progress.tried.length = index := hindex.symm
  have hle : index ≤ c.endpoints.length := by
    rw [← hlen]
    refine hw.entering fun hnone => ?_
    have hnone' : c.entering = [] := hnone
    rw [hnone'] at hk
    cases hk
  unfold Client.tryEnter
  split
  · rw [exhausted_progress]
    exact hw.skipped hlen hle fun hne => absurd herase' hne
  · rename_i ep hep
    have hlt : index < c.endpoints.length := (List.getElem?_eq_some_iff.mp hep).1
    split_ifs
    · rw [openTask_progress]
      exact hw.opened (fun i hi => hlen ▸ hl.below hi) hlen hlt
    · exact hw.skipped hlen hle fun _ => hlt

theorem onTask_endpoints (c : Client) (f : Attempt → Attempt) :
    (c.onTask f).endpoints = c.endpoints :=
  c.onTask_rule f (R := fun d => d.endpoints = c.endpoints) rfl fun _ => rfl

theorem received_endpoints (c : Client) (a : ℕ) (message : Option Bytes) :
    ((c.deliver a message).receiveLoop).endpoints = c.endpoints := by
  refine (onTask_endpoints _ _).trans ?_
  cases message <;> rfl

theorem fail_endpoints (c : Client) (a : ℕ) (t : Attempt) :
    (c.fail a t).endpoints = c.endpoints := by
  unfold Client.fail
  split_ifs <;> rfl

theorem advance_endpoints (c : Client) (a : ℕ) (t : Attempt) :
    (c.advance a t).endpoints = c.endpoints := by
  unfold Client.advance
  split_ifs <;> rfl

/-- The list of endpoints never changes. -/
theorem step_endpoints {late : Bool} {e : Event} (h : c.step urlOk late e = some d) :
    d.endpoints = c.endpoints := by
  cases Client.effect_of_step h with
  | enter k index =>
    unfold Client.tryEnter
    split
    · rfl
    · split_ifs <;> rfl
  | start => rfl
  | initSent a ok =>
    unfold Client.initSent
    split_ifs <;> rfl
  | received a message => exact received_endpoints _ a message
  | receiveFailed a t =>
    unfold Client.receiveFailed
    dsimp only
    split_ifs
    · exact fail_endpoints _ a t
    · exact advance_endpoints _ a t
  | timer =>
    unfold Client.timer
    split_ifs <;> rfl
  | loopReceived a message =>
    unfold Client.loopReceived
    split_ifs
    · exact received_endpoints _ a message
    · rfl
  | loopFailed =>
    unfold Client.loopFailed
    split_ifs <;> rfl
  | send => exact onTask_endpoints c _
  | close => exact onTask_endpoints c _
  | release => rfl

end

/-! ## Runs -/

/-- What every event keeps. -/
structure Course (endpoints : List Endpoint) (c : Client) : Prop where
  same : c.endpoints = endpoints
  linear : Linear c.progress
  within : Within endpoints.length c.progress

section

variable {urlOk : String → Bool} {late : Bool} {endpoints : List Endpoint} {c d : Client}

theorem Course.step (h : Course endpoints c) {e : Event} (hstep : c.step urlOk late e = some d) :
    Course endpoints d := by
  have hm := step_moves hstep
  refine ⟨(step_endpoints hstep).trans h.same, h.linear.move hm, ?_⟩
  by_cases he : ∃ k, e = .enter k
  · obtain ⟨k, rfl⟩ := he
    simp only [Client.step] at hstep
    split at hstep
    · rename_i index hk
      cases hstep
      rw [← h.same]
      exact Within.entered (by rw [h.same]; exact h.within) h.linear hk
    · cases hstep
  · exact h.within.move h.linear hm fun k hk => he ⟨k, hk⟩

theorem tryConnect_within (urlOk : String → Bool) (c : Client) (index : ℕ)
    (h : c.progress = ⟨[], List.range index, [], [], none⟩) (hle : index ≤ c.endpoints.length) :
    (c.tryConnect urlOk index).endpoints = c.endpoints ∧
      Within c.endpoints.length (c.tryConnect urlOk index).progress := by
  have htried : c.tried = List.range index := congrArg Progress.tried h
  have hlen : c.progress.tried.length = index := by
    rw [h]
    exact List.length_range
  have hw : Within c.endpoints.length c.progress := by
    rw [h]
    refine ⟨?_, fun hne => absurd rfl hne, nofun, List.Pairwise.nil⟩
    show (List.range index).length ≤ _
    rw [List.length_range]
    omega
  have hentering : c.entering = [] := congrArg Progress.entering h
  induction c, index using Client.tryConnect.induct urlOk with
  | case1 c index hnone =>
    rw [tryConnect_none urlOk c hnone, exhausted_progress]
    exact ⟨rfl, hw.skipped hlen hle fun hne => absurd hentering hne⟩
  | case2 c index ep hep hok =>
    have hlt : index < c.endpoints.length := (List.getElem?_eq_some_iff.mp hep).1
    have hopened : Within c.endpoints.length (c.openTask index ep).progress := by
      rw [openTask_progress]
      refine hw.opened ?_ hlen hlt
      rw [h]
      exact nofun
    rw [tryConnect_ok c hep hok, startTask_progress]
    exact ⟨rfl, hopened.tried_le, hopened.entering, by
      rw [onStage_index _ _ (f := .start) fun _ => rfl]
      exact hopened.index_lt, by
      rw [onStage_index _ _ (f := .start) fun _ => rfl]
      exact hopened.ordered⟩
  | case3 c index ep hep hbad ih =>
    have hlt : index < c.endpoints.length := (List.getElem?_eq_some_iff.mp hep).1
    rw [tryConnect_bad c hep hbad]
    have hnext : c.tried ++ [index] = List.range (index + 1) := by rw [htried, range_concat]
    have hprogress : ({ c with tried := c.tried ++ [index] } : Client).progress =
        ⟨[], List.range (index + 1), [], [], none⟩ := by
      show ({ c.progress with tried := c.tried ++ [index] } : Progress) = _
      rw [h, hnext]
    refine ih hprogress hlt hnext ?_ ?_ hentering
    · rw [hprogress]
      exact List.length_range
    · exact hw.skipped hlen hle fun hne => absurd hentering hne

theorem course_connect (urlOk : String → Bool) (endpoints : List Endpoint) (initFrame : Bytes) :
    Course endpoints (Client.connect urlOk endpoints initFrame) := by
  obtain ⟨hsame, hw⟩ := tryConnect_within urlOk { endpoints, initFrame } 0 rfl (Nat.zero_le _)
  exact ⟨hsame, linear_connect urlOk endpoints initFrame, hw⟩

/-- Indices tried one after the other leave the list once at most. -/
theorem countP_range_le {n m : ℕ} (h : m ≤ n + 1) :
    (List.range m).countP (fun index => ¬ index < n) ≤ 1 := by
  have hzero {k : ℕ} (hk : k ≤ n) : (List.range k).countP (fun index => ¬ index < n) = 0 := by
    refine List.countP_eq_zero.mpr fun index hindex => ?_
    have hlt := List.mem_range.mp hindex
    simp only [decide_not, Bool.not_eq_true', decide_eq_false_iff_not, not_not]
    omega
  by_cases hm : m ≤ n
  · rw [hzero hm]
    exact Nat.zero_le 1
  · obtain rfl : m = n + 1 := by omega
    rw [List.range_succ, List.countP_append, hzero le_rfl, Nat.zero_add]
    exact List.countP_le_length

/-- Strictly increasing indices below `n`. -/
theorem length_le_of_ordered {l : List ℕ} {n : ℕ} (hlt : ∀ i ∈ l, i < n)
    (hordered : l.Pairwise (· < ·)) : l.length ≤ n := by
  have hnodup : l.Nodup := hordered.imp fun h => h.ne
  rw [← List.toFinset_card_of_nodup hnodup, ← Finset.card_range n]
  refine Finset.card_le_card fun i hi => ?_
  rw [List.mem_toFinset] at hi
  exact Finset.mem_range.mpr (hlt i hi)

theorem Course.oneByOne (h : Course endpoints c) : OneByOne endpoints c := by
  have htried := h.linear.tried
  have htried_le := h.within.tried_le
  refine ⟨h.same, htried, ?_, ?_, ?_, ?_, ?_⟩
  · intro t ht u hu hlt
    by_contra hopen
    obtain ⟨a, ha⟩ := List.mem_iff_getElem?.mp ht
    obtain ⟨-, -, hlast⟩ :=
      h.linear.open_last a t.stage (stages_getElem? ha) (eq_false_of_ne_true hopen)
    have hbelow := h.linear.index_lt u.stage (List.mem_map_of_mem hu)
    have hlast' : t.index + 1 = c.progress.tried.length := hlast
    have hbelow' : u.index < c.progress.tried.length := hbelow
    omega
  · intro a b t u ha hb ht hu
    obtain ⟨-, hlast, -⟩ := h.linear.open_last a t.stage (stages_getElem? ha) ht
    obtain ⟨-, hlast', -⟩ := h.linear.open_last b u.stage (stages_getElem? hb) hu
    omega
  · have hlen := length_le_of_ordered h.within.index_lt h.within.ordered
    rw [List.length_map] at hlen
    exact (List.length_map Attempt.stage) ▸ hlen
  · intro index hindex
    have htried' : c.tried = List.range c.tried.length := htried
    rw [htried', List.mem_range] at hindex
    have hle : c.tried.length ≤ endpoints.length + 1 := htried_le
    omega
  · have htried' : c.tried = List.range c.tried.length := htried
    unfold Client.reports
    rw [htried', h.same]
    exact countP_range_le htried_le

theorem Course.inOrder (h : Course endpoints c) (e : Event) : InOrder c e := by
  cases e with
  | enter k =>
    intro index hk
    obtain ⟨hindex, -, hclaimed⟩ := h.linear.entered hk
    exact ⟨hindex, fun t ht => hclaimed t.stage (List.mem_map_of_mem ht)⟩
  | start | initSent | received | receiveFailed | timer | loopReceived | loopFailed | send
    | close | release => trivial

end

/-- Every run goes through the endpoints one by one. -/
theorem oneByOne_run (urlOk : String → Bool) (late : Bool) (endpoints : List Endpoint)
    (initFrame : Bytes) (events : List Event) :
    EveryState (Client.step urlOk late) (OneByOne endpoints)
        (Client.connect urlOk endpoints initFrame) events ∧
      EveryStep (Client.step urlOk late) InOrder (Client.connect urlOk endpoints initFrame)
        events := by
  have hstart := course_connect urlOk endpoints initFrame
  refine ⟨everyState_of_invariant (I := Course endpoints) ?_ ?_ events _ hstart,
    everyStep_of_invariant (I := Course endpoints) ?_ events _ hstart⟩
  · intro c e d hc hstep
    exact hc.step hstep
  · intro c hc
    exact hc.oneByOne
  · intro c e d hc hstep
    exact ⟨hc.inOrder e, hc.step hstep⟩

end WSBridge.Cascade
