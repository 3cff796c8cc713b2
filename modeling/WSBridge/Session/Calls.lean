import WSBridge.Session.Downstream

/-!
# What a session asks of the bridge

The calls on the bridge that the handlers of a session make: `handleData`
closes the connection of a stream that is no MTProto init, the handlers of the
gateway's side write.

Results:
* `handleData_rejects`, `handleData_spec`: when `handleData` closes.
* `wsDataBlock_onlyWrites`, `handleSent_onlyWrites`: what every write keeps is
  kept, and only `pending` changes.
-/

namespace WSBridge.TunnelSession

/-! ## Closing -/

/-- The data completes the first 64 bytes of a stream that is no MTProto init. -/
def Rejects (ks : Keystream) (s : TunnelSession) (data : Bytes) : Prop :=
  s.workerDomain = none ∧ s.initParsed = false ∧
    InitParser.handshakeLen ≤ (s.initBuffer ++ data).length ∧
    InitParser.parse ks ((s.initBuffer ++ data).take InitParser.handshakeLen) = none

/-- Whether a session rejects data can be computed. -/
instance (ks : Keystream) (s : TunnelSession) (data : Bytes) : Decidable (s.Rejects ks data) :=
  inferInstanceAs (Decidable (_ ∧ _ ∧ _ ∧ _))

/-- No call on the bridge is among the effects. -/
def Harmless (effects : List Effect) : Prop := ∀ slot, Effect.bridgeClose slot ∉ effects

/-- In kws mode a session opens its web socket when it has parsed the init; only
a session with a web socket has something to deliver. -/
structure Coherent (s : TunnelSession) : Prop where
  parsed : s.workerDomain = none → s.ws = true → s.initParsed = true
  paced : s.dead = false → s.pending ≠ none → s.ws = true

theorem Harmless.append {effects more : List Effect} (h : Harmless effects)
    (h' : Harmless more) : Harmless (effects ++ more) := by
  intro slot hmem
  exact (List.mem_append.mp hmem).elim (h slot) (h' slot)

theorem forwardToWS_spec (ks : Keystream) (u : Up) (data : Bytes) (h : Harmless u.effects) :
    Harmless (forwardToWS ks u data).effects ∧ (forwardToWS ks u data).session.ws = u.session.ws ∧
      (forwardToWS ks u data).session.initParsed = u.session.initParsed := by
  unfold forwardToWS
  split_ifs
  · cases u.session.splitter with
    | none => exact ⟨h.append (by intro slot; simp), rfl, rfl⟩
    | some splitter => exact ⟨h.append (by intro slot; simp [sendBatch]), rfl, rfl⟩
  · exact ⟨h, rfl, rfl⟩

/-- `handleData` asks the bridge to close exactly when it rejects the stream. -/
theorem handleData_rejects {ks : Keystream} {s : TunnelSession} (log : EventLog) {data : Bytes}
    (h : s.Rejects ks data) :
    (handleData ks ⟨s, log, []⟩ data).effects = [.bridgeClose s.connId] ∧
      (handleData ks ⟨s, log, []⟩ data).session =
        { s with initBuffer := s.initBuffer ++ data } := by
  obtain ⟨hworker, hparsed, hlen, hparse⟩ := h
  unfold handleData
  dsimp only
  rw [hworker]
  dsimp only
  rw [if_neg (by rw [hparsed]; exact Bool.false_ne_true), if_pos hlen, hparse]
  exact ⟨rfl, rfl⟩

theorem handleData_accepts {ks : Keystream} {s : TunnelSession} (log : EventLog) {data : Bytes}
    (h : ¬ s.Rejects ks data) (hc : s.Coherent) :
    Harmless (handleData ks ⟨s, log, []⟩ data).effects ∧
      (s.ws = true → (handleData ks ⟨s, log, []⟩ data).session.ws = true) ∧
      (s.workerDomain = none → (handleData ks ⟨s, log, []⟩ data).session.ws = true →
        (handleData ks ⟨s, log, []⟩ data).session.initParsed = true) := by
  have hnil : Harmless [] := fun _ => List.not_mem_nil
  unfold handleData
  dsimp only
  cases hworker : s.workerDomain with
  | some domain =>
    dsimp only
    split_ifs with hconnected
    · obtain ⟨h1, h2, -⟩ := forwardToWS_spec ks
        ⟨s, { log with rxBytes := log.rxBytes + data.length }, []⟩ data hnil
      exact ⟨h1, fun hws => h2.trans hws, nofun⟩
    · obtain ⟨h1, h2, -⟩ := forwardToWS_spec ks
        (startPipe ⟨s, { log with rxBytes := log.rxBytes + data.length }, []⟩ domain) data
        (hnil.append (by intro slot; simp))
      exact ⟨h1, fun _ => h2, nofun⟩
  | none =>
    dsimp only
    by_cases hparsed : s.initParsed = true
    · rw [if_pos hparsed]
      obtain ⟨h1, h2, h3⟩ := forwardToWS_spec ks
        ⟨s, { log with rxBytes := log.rxBytes + data.length }, []⟩ data hnil
      exact ⟨h1, fun hws => h2.trans hws, fun _ _ => h3.trans hparsed⟩
    · rw [if_neg hparsed]
      by_cases hlen : InitParser.handshakeLen ≤ (s.initBuffer ++ data).length
      · rw [if_pos hlen]
        cases hparse :
            InitParser.parse ks ((s.initBuffer ++ data).take InitParser.handshakeLen) with
        | none => exact absurd ⟨hworker, eq_false_of_ne_true hparsed, hlen, hparse⟩ h
        | some parsed =>
          dsimp only
          split_ifs
          · exact ⟨hnil.append (by intro slot; simp), fun _ => rfl, fun _ _ => rfl⟩
          · obtain ⟨h1, h2, h3⟩ := forwardToWS_spec ks (startWS ks
              ⟨{ s with
                  workerDomain := none, initBuffer := s.initBuffer ++ data, initParsed := true },
                { log with rxBytes := log.rxBytes + data.length }, []⟩ parsed)
              ((s.initBuffer ++ data).drop InitParser.handshakeLen)
              (hnil.append (by intro slot; simp))
            exact ⟨h1, fun _ => h2, fun _ _ => h3⟩
      · rw [if_neg hlen]
        exact ⟨hnil, fun hws => hws, fun _ hws => absurd (hc.parsed hworker hws) hparsed⟩

/-- Data that is not rejected. -/
theorem handleData_spec {ks : Keystream} {s : TunnelSession} (log : EventLog) {data : Bytes}
    (h : ¬ s.Rejects ks data) (hc : s.Coherent) :
    Harmless (handleData ks ⟨s, log, []⟩ data).effects ∧
      (s.ws = true → (handleData ks ⟨s, log, []⟩ data).session.ws = true) ∧
      (handleData ks ⟨s, log, []⟩ data).session.Coherent := by
  obtain ⟨hharmless, hws, hparsed⟩ := handleData_accepts log h hc
  have hkept := handleData_kept ks ⟨s, log, []⟩ data
  generalize handleData ks ⟨s, log, []⟩ data = u at *
  have hworker : u.session.workerDomain = s.workerDomain := congrArg Kept.workerDomain hkept
  have hdead : u.session.dead = s.dead := congrArg Kept.dead hkept
  have hpending : u.session.pending = s.pending := congrArg Kept.pending hkept
  refine ⟨hharmless, hws, ?_, ?_⟩
  · rw [hworker]
    exact hparsed
  · rw [hdead, hpending]
    exact fun halive hsome => hws (hc.paced halive hsome)

/-! ## Handlers that write -/

section

variable {σ : Type*} {write : Bytes → σ → Bool × σ} {Q : σ → Prop}

/-- A handler that only writes: it keeps what each write keeps, and changes
only `pending`. -/
structure OnlyWrites (Q : σ → Prop) (u v : Down σ) : Prop where
  world : Q v.world
  session : ∃ pending, v.session = { u.session with pending }

theorem writeLoop_keeps (hQ : ∀ data w, Q w → Q (write data w).2) (d : Bytes) (w : σ) (hw : Q w) :
    Q (writeLoop write d 0 w).2 := by
  have hloop := writeLoop_rule write (d := d) (I := fun _ => Q) (R := fun _ => Q)
    (fun off w w' _ h hwrite => by have := hQ (piece d off) w h; rwa [hwrite] at this)
    (fun off w w' _ h hwrite => by have := hQ (piece d off) w h; rwa [hwrite] at this)
    0 w (Nat.zero_le _) hw
  match hend : writeLoop write d 0 w, hloop with
  | (none, w'), h => exact h
  | (some rest, w'), ⟨_, _, _, h⟩ => exact h

theorem writeOrQueue_onlyWrites (hQ : ∀ data w, Q w → Q (write data w).2) (u : Down σ)
    (data : Bytes) (hu : Q u.world) : OnlyWrites Q u (writeOrQueue write u data).2 := by
  have hloop := writeLoop_keeps hQ data u.world hu
  unfold writeOrQueue
  split
  · exact ⟨hu, _, rfl⟩
  · split <;> rename_i heq <;> rw [heq] at hloop
    · exact ⟨hloop, _, rfl⟩
    · exact ⟨hloop, u.session.pending, rfl⟩

theorem wsDataBlock_onlyWrites (hQ : ∀ data w, Q w → Q (write data w).2) (u : Down σ)
    (data : Bytes) (hu : Q u.world) : OnlyWrites Q u (wsDataBlock write u data) := by
  unfold wsDataBlock
  split_ifs
  · exact ⟨hu, u.session.pending, rfl⟩
  · obtain ⟨h, pending, hsession⟩ := writeOrQueue_onlyWrites hQ
      { u with log.wsDown := u.log.wsDown + data.length } data hu
    exact ⟨h, pending, hsession⟩

theorem handleSent_onlyWrites (hQ : ∀ data w, Q w → Q (write data w).2) (u : Down σ)
    (hu : Q u.world) : OnlyWrites Q u (handleSent write u) := by
  unfold handleSent
  dsimp only
  split
  · exact ⟨hu, u.session.pending, rfl⟩
  · obtain ⟨h, pending, hsession⟩ := writeOrQueue_onlyWrites hQ
      { session := { u.session with pending := none }
        log := { u.log with sentCb := u.log.sentCb + 1, pendCur := 0 }
        world := u.world } _ hu
    exact ⟨h, pending, hsession⟩

end

end WSBridge.TunnelSession
