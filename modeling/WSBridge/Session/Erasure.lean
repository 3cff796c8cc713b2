import WSBridge.Session.Upstream
import WSBridge.Session.Downstream

/-!
# What the handlers of a session do not look at

The two directions of a session share one object. `handleData` reads neither
what is pending for the client nor the counters, and the handlers that write do
not read the calls that were made before.

Results:
* `handleData_same`: sessions that agree on their upstream half handle data
  alike.
* `wsDataBlock_erase`, `handleSent_erase`: a handler does the same with its
  calls recorded.
-/

namespace WSBridge.TunnelSession

/-! ## Upstream -/

/-- The fields that upstream handlers read and write. -/
def upstream (s : TunnelSession) : TunnelSession := { s with pending := none, dead := false }

/-- Two handlers stand at the same point, the first with `calls` made before. -/
structure Same (calls : List Effect) (u v : Up) : Prop where
  session : u.session.upstream = v.session.upstream
  effects : u.effects = calls ++ v.effects

section

variable {ks : Keystream} {calls : List Effect} {u v : Up}

theorem Same.fields (h : Same calls u v) :
    u.session.connId = v.session.connId ∧ u.session.dcIP = v.session.dcIP ∧
      u.session.workerDomain = v.session.workerDomain ∧ u.session.ws = v.session.ws ∧
      u.session.splitter = v.session.splitter ∧ u.session.initBuffer = v.session.initBuffer ∧
      u.session.initParsed = v.session.initParsed ∧
      u.session.wsConnected = v.session.wsConnected := by
  have hsession := h.session
  simp only [upstream, TunnelSession.mk.injEq] at hsession
  obtain ⟨h1, h2, h3, h4, h5, h6, h7, h8, -, -⟩ := hsession
  exact ⟨h1, h2, h3, h4, h5, h6, h7, h8⟩

theorem upstream_eq {s t : TunnelSession} (h1 : s.connId = t.connId) (h2 : s.dcIP = t.dcIP)
    (h3 : s.workerDomain = t.workerDomain) (h4 : s.ws = t.ws) (h5 : s.splitter = t.splitter)
    (h6 : s.initBuffer = t.initBuffer) (h7 : s.initParsed = t.initParsed)
    (h8 : s.wsConnected = t.wsConnected) : s.upstream = t.upstream := by
  simp only [upstream, h1, h2, h3, h4, h5, h6, h7, h8]

theorem forwardToWS_same (h : Same calls u v) (data : Bytes) :
    Same calls (forwardToWS ks u data) (forwardToWS ks v data) := by
  obtain ⟨h1, h2, h3, h4, h5, h6, h7, h8⟩ := h.fields
  unfold forwardToWS
  rw [h4, h8]
  split_ifs
  · rw [h5]
    cases v.session.splitter with
    | none =>
      refine ⟨h.session, ?_⟩
      simp only [h.effects, List.append_assoc]
    | some splitter =>
      refine ⟨upstream_eq h1 h2 h3 h4 rfl h6 h7 h8, ?_⟩
      simp only [h.effects, List.append_assoc]
  · exact h

theorem startPipe_same (h : Same calls u v) (workerDomain : String) :
    Same calls (startPipe u workerDomain) (startPipe v workerDomain) := by
  obtain ⟨h1, h2, h3, h4, h5, h6, h7, h8⟩ := h.fields
  refine ⟨upstream_eq h1 h2 h3 rfl h5 h6 h7 rfl, ?_⟩
  simp only [startPipe, h.effects, h2, List.append_assoc]

theorem startWS_same (h : Same calls u v) (parsed : InitParser.ParsedInit) :
    Same calls (startWS ks u parsed) (startWS ks v parsed) := by
  obtain ⟨h1, h2, h3, h4, h5, h6, h7, h8⟩ := h.fields
  refine ⟨upstream_eq h1 h2 h3 rfl rfl h6 h7 rfl, ?_⟩
  simp only [startWS, h.effects, h6, List.append_assoc]

/-- Sessions that agree on their upstream half handle data alike. -/
theorem handleData_same (h : Same calls u v) (data : Bytes) :
    Same calls (handleData ks u data) (handleData ks v data) := by
  obtain ⟨h1, h2, h3, h4, h5, h6, h7, h8⟩ := h.fields
  have hcount : Same calls { u with log.rxBytes := u.log.rxBytes + data.length }
      { v with log.rxBytes := v.log.rxBytes + data.length } := ⟨h.session, h.effects⟩
  unfold handleData
  dsimp only
  rw [h3]
  cases v.session.workerDomain with
  | some workerDomain =>
    dsimp only
    rw [h8]
    split_ifs
    · exact forwardToWS_same hcount data
    · exact forwardToWS_same (startPipe_same hcount workerDomain) data
  | none =>
    dsimp only
    rw [h7, h6]
    by_cases hparsed : v.session.initParsed = true
    · rw [if_pos hparsed, if_pos hparsed]
      exact forwardToWS_same hcount data
    · rw [if_neg hparsed, if_neg hparsed]
      by_cases hlen : InitParser.handshakeLen ≤ (v.session.initBuffer ++ data).length
      · rw [if_pos hlen, if_pos hlen]
        cases InitParser.parse ks
            ((v.session.initBuffer ++ data).take InitParser.handshakeLen) with
        | none =>
          refine ⟨upstream_eq h1 h2 rfl h4 h5 rfl rfl h8, ?_⟩
          simp only [h.effects, h1, List.append_assoc]
        | some parsed =>
          dsimp only
          have hstart := @startWS_same ks calls
            { session := { u.session with
                workerDomain := none
                initBuffer := v.session.initBuffer ++ data
                initParsed := true }
              log := { u.log with rxBytes := u.log.rxBytes + data.length }
              effects := u.effects }
            { session := { v.session with
                workerDomain := none
                initBuffer := v.session.initBuffer ++ data
                initParsed := true }
              log := { v.log with rxBytes := v.log.rxBytes + data.length }
              effects := v.effects }
            ⟨upstream_eq h1 h2 rfl h4 h5 rfl rfl h8, h.effects⟩ parsed
          split_ifs
          · exact hstart
          · exact forwardToWS_same hstart _
      · rw [if_neg hlen, if_neg hlen]
        exact ⟨upstream_eq h1 h2 rfl h4 h5 rfl rfl h8, h.effects⟩

theorem feed_concat (ks : Keystream) (u : Up) (chunks : List Bytes) (chunk : Bytes) :
    feed ks u (chunks ++ [chunk]) = handleData ks (feed ks u chunks) chunk :=
  List.foldl_concat ..

end

/-! ## Downstream -/

section

variable {σ : Type*} {write : Bytes → σ → Bool × σ}

/-- Without the record of its calls. -/
def Down.erase (u : Down (Line σ)) : Down σ := ⟨u.session, u.log, u.world.world⟩

theorem writeLoop_erase (d : Bytes) (off : ℕ) (l : Line σ) :
    (writeLoop (logged write) d off l).1 = (writeLoop write d off l.world).1 ∧
      (writeLoop (logged write) d off l).2.world = (writeLoop write d off l.world).2 := by
  induction off, l using writeLoop.induct (logged write) d with
  | case1 off l hlt stop l' hw ih =>
    have hplain : write (piece d off) l.world = (true, l'.world) := by
      obtain ⟨hok, rfl⟩ := Prod.mk.inj hw
      exact Prod.ext hok rfl
    rw [writeLoop_accepted hlt hw, writeLoop_accepted hlt hplain]
    exact ih
  | case2 off l hlt stop l' hw =>
    have hplain : write (piece d off) l.world = (false, l'.world) := by
      obtain ⟨hok, rfl⟩ := Prod.mk.inj hw
      exact Prod.ext hok rfl
    rw [writeLoop_refused hlt hw, writeLoop_refused hlt hplain]
    exact ⟨rfl, rfl⟩
  | case3 off l hge =>
    rw [writeLoop, if_neg hge, writeLoop, if_neg hge]
    exact ⟨rfl, rfl⟩

theorem writeOrQueue_erase (u : Down (Line σ)) (data : Bytes) :
    (writeOrQueue (logged write) u data).2.erase = (writeOrQueue write u.erase data).2 := by
  obtain ⟨hrest, hworld⟩ := @writeLoop_erase σ write data 0 u.world
  unfold writeOrQueue Down.erase
  dsimp only
  cases u.session.pending with
  | some p => rfl
  | none =>
    dsimp only
    rw [← Prod.eta (writeLoop write data 0 u.world.world), ← hrest, ← hworld]
    rcases writeLoop (logged write) data 0 u.world with ⟨_ | rest, l⟩
    · rfl
    · rfl

/-- The block of a message does the same with its calls recorded. -/
theorem wsDataBlock_erase (u : Down (Line σ)) (data : Bytes) :
    (wsDataBlock (logged write) u data).erase = wsDataBlock write u.erase data := by
  unfold wsDataBlock
  rw [show u.erase.session = u.session from rfl]
  split_ifs
  · rfl
  · exact writeOrQueue_erase _ data

/-- The sent callback does the same with its calls recorded. -/
theorem handleSent_erase (u : Down (Line σ)) :
    (handleSent (logged write) u).erase = handleSent write u.erase := by
  unfold handleSent
  dsimp only
  rw [show u.erase.session.pending = u.session.pending from rfl]
  cases u.session.pending with
  | none => rfl
  | some p => exact writeOrQueue_erase _ p

end

end WSBridge.TunnelSession
