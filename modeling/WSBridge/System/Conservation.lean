import WSBridge.Foundation.Runs
import WSBridge.Session.Upstream
import WSBridge.Upstream.Reference
import WSBridge.System.Provider

/-!
# What a connection acknowledges and what it forwards

The life of a kws-mode connection on its client's side: segments for
`tcp_recv_cb`, and a FIN. The callback acknowledges every segment with
`tcp_recved`; it hands the segment to the session only if `malloc` finds memory
for a copy. The session gathers the init packet, and then the splitter holds back
what is not a whole packet yet. Nothing calls `MsgSplitter.flush`.

Results:
* `conserved_iff`: what has been acknowledged has been forwarded when the session
  is closed, exactly when no `malloc` has failed and the stream ends between two
  packets (or where the splitter passes everything through).
* `trailing_lost`: a FIN after the beginning of a packet.
-/

namespace WSBridge

open WSBridge.Foundation
open TunnelSession MsgSplitter

/-- A segment for `tcp_recv_cb`, and the result of its `malloc`. -/
structure Arrival where
  data : Bytes
  malloc : Bool
  deriving DecidableEq, Repr

/-- The stream of the client. -/
def arrived (arrivals : List Arrival) : Bytes := (arrivals.map Arrival.data).flatten

/-- The bytes `tcp_recved` has been called for on a pcb. -/
def recvedLen (pcb : ℕ) (ops : List (ℕ × PcbOp)) : ℕ :=
  (ops.map fun
    | (id, .recved len) => if id = pcb then len else 0
    | _ => 0).sum

/-- What `tcp_recved` has acknowledged of the stream since the bridge was `b`. -/
def acknowledged (b b' : Bridge) (pcb : ℕ) (arrivals : List Arrival) : Bytes :=
  (arrived arrivals).take (recvedLen pcb (b'.ops.drop b.ops.length))

/-- The init frame and the frames handed to `WSClient.send`. -/
def forwarded (effects : List Effect) : Bytes :=
  effects.flatMap fun
    | .connect _ _ _ initFrame => initFrame
    | .send frame => frame
    | _ => []

/-- The closures of `setupLWIP()` for one session. -/
def sessionHandlers (L : Lwip) (ks : Keystream) : Handlers Up where
  accept _ w := w
  recv slot data w :=
    let u := handleData ks w.swift data
    ⟨u, if .bridgeClose slot ∈ u.effects then w.bridge.lwipBridgeClose L slot else w.bridge⟩
  close _ _ w :=
    { w with
      swift.session := w.swift.session.handleClose.1
      swift.effects := w.swift.effects ++ w.swift.session.handleClose.2 }
  sent _ w := w

section

variable (L : Lwip) (ks : Keystream) (slot pcb : ℕ)

/-- lwIP calls `tcp_recv_cb` with a segment, as long as it holds the pcb. -/
def deliver (w : World Up) (a : Arrival) : Option (World Up) :=
  if w.bridge.holder slot = some pcb then
    some (tcpRecvCb L (sessionHandlers L ks) w slot pcb (some a.data) 0 a.malloc).1
  else none

/-- lwIP calls it for a FIN. -/
def deliverFin (w : World Up) : Option (World Up) :=
  if w.bridge.holder slot = some pcb then
    some (tcpRecvCb L (sessionHandlers L ks) w slot pcb none 0 true).1
  else none

/-- The life of a connection. -/
def life (w : World Up) (arrivals : List Arrival) : Option (World Up) :=
  (run (deliver L ks slot pcb) w arrivals).bind (deliverFin L ks slot pcb)

end

/-- The stream ends between two packets, or the splitter passes everything
through. -/
def Drained (ks : Keystream) (parsed : InitParser.ParsedInit) (stream : Bytes) : Prop :=
  (reference (ks parsed.key parsed.iv) parsed.protoTag (stream.drop 64)).stopped = true ∨
    (reference (ks parsed.key parsed.iv) parsed.protoTag (stream.drop 64)).rest = []

/-! ## What is acknowledged -/

/-- The calls from one bridge to another acknowledge `n` bytes of the pcb. -/
def Recved (pcb n : ℕ) (b b' : Bridge) : Prop :=
  ∃ ops, b'.ops = b.ops ++ ops ∧ recvedLen pcb ops = n

section

variable {L : Lwip} {ks : Keystream} {slot pcb m n : ℕ} {b b' b'' : Bridge}

theorem Recved.refl (b : Bridge) : Recved pcb 0 b b := ⟨[], (List.append_nil _).symm, rfl⟩

theorem Recved.trans (h : Recved pcb m b b') (h' : Recved pcb n b' b'') :
    Recved pcb (m + n) b b'' := by
  obtain ⟨ops, hops, rfl⟩ := h
  obtain ⟨more, hmore, rfl⟩ := h'
  refine ⟨ops ++ more, ?_, ?_⟩
  · rw [hmore, hops, List.append_assoc]
  · simp [recvedLen]

theorem Recved.detachAbort (b : Bridge) (id : ℕ) : Recved pcb 0 b (b.detachAbort L id) :=
  ⟨_, b.detachAbort_ops L id, rfl⟩

theorem Recved.close (b : Bridge) (slot : ℕ) : Recved pcb 0 b (b.lwipBridgeClose L slot) := by
  unfold Bridge.lwipBridgeClose
  split
  · rename_i c _
    split
    · exact .detachAbort (b.dropNat c) _
    · exact .refl b
  · exact .refl b

/-- The callback acknowledges a segment whether it was copied or not. -/
theorem deliver_recved {w w' : World Up} {a : Arrival}
    (hstep : deliver L ks slot pcb w a = some w') :
    Recved pcb a.data.length w.bridge w'.bridge := by
  obtain ⟨-, heq⟩ := Option.ite_none_right_eq_some.mp hstep
  have hhanded : Recved pcb 0 w.bridge
      (if a.malloc then (sessionHandlers L ks).recv slot a.data w else w).bridge := by
    unfold sessionHandlers
    split_ifs
    · dsimp only
      split_ifs
      · exact .close w.bridge slot
      · exact .refl w.bridge
    · exact .refl w.bridge
  have hrecved (c : Bridge) : Recved pcb a.data.length c (c.tcpRecved pcb a.data.length) :=
    ⟨[(pcb, .recved a.data.length)], rfl, by simp [recvedLen]⟩
  rw [← Option.some.inj heq, ← Nat.zero_add a.data.length]
  exact hhanded.trans (hrecved _)

/-- All segments are acknowledged. -/
theorem run_recved {arrivals : List Arrival} {w w' : World Up}
    (hrun : run (deliver L ks slot pcb) w arrivals = some w') :
    Recved pcb (arrived arrivals).length w.bridge w'.bridge := by
  induction arrivals generalizing w with
  | nil =>
    cases hrun
    exact .refl _
  | cons a arrivals ih =>
    obtain ⟨m, hm, hrun⟩ := run_cons_eq_some.mp hrun
    have hlen : (arrived (a :: arrivals)).length = a.data.length + (arrived arrivals).length := by
      unfold arrived
      rw [List.map_cons, List.flatten_cons, List.length_append]
    rw [hlen]
    exact (deliver_recved hm).trans (ih hrun)

theorem deliverFin_recved {w w' : World Up} (hstep : deliverFin L ks slot pcb w = some w') :
    Recved pcb 0 w.bridge w'.bridge := by
  obtain ⟨-, heq⟩ := Option.ite_none_right_eq_some.mp hstep
  rw [← Option.some.inj heq]
  unfold tcpRecvCb
  dsimp only
  split
  · exact .refl w.bridge
  · rename_i c _
    cases c.pcb with
    | none => exact .refl w.bridge
    | some id => exact .detachAbort (w.bridge.dropNat c) id

/-- The whole stream is acknowledged, and nothing more. -/
theorem life_acknowledged {arrivals : List Arrival} {w w' : World Up}
    (hlife : life L ks slot pcb w arrivals = some w') :
    acknowledged w.bridge w'.bridge pcb arrivals = arrived arrivals := by
  obtain ⟨m, hrun, hfin⟩ := Option.bind_eq_some_iff.mp hlife
  obtain ⟨ops, hops, hlen⟩ := (run_recved hrun).trans (deliverFin_recved hfin)
  unfold acknowledged
  rw [hops, List.drop_left, hlen, Nat.add_zero, List.take_length]

end

/-! ## The course of a session -/

/-- What a kws-mode session has done with the bytes it has got. -/
inductive Course (ks : Keystream) (seen : Bytes) (u : Up) : Prop where
  | waiting (hlen : seen.length < 64) (hkws : u.session.workerDomain = none)
      (hparsed : u.session.initParsed = false) (hbuf : u.session.initBuffer = seen)
      (heffects : u.effects = [])
  | forwarding {parsed : InitParser.ParsedInit} {parts : List Bytes} {splitter : MsgSplitter}
      (hlen : 64 ≤ seen.length) (hparse : InitParser.parse ks seen = some parsed)
      (hkws : u.session.workerDomain = none) (hparsed : u.session.initParsed = true)
      (hconnected : u.session.wsConnected = true ∧ u.session.ws = true)
      (hsplitter : u.session.splitter = some splitter)
      (htag : splitter.protoTag = parsed.protoTag)
      (hparses : Parses parsed.key parsed.iv (reference (ks parsed.key parsed.iv)
        splitter.protoTag (seen.drop 64)) (seen.drop 64).length parts splitter)
      (heffects : u.effects = .connect parsed.dcId parsed.isMedia parsed.isTestDC (seen.take 64) ::
        sendBatch parts)

section

variable {ks : Keystream} {seen : Bytes} {u : Up}

theorem forwarded_connect (dc : ℕ) (isMedia isTestDC : Bool) (init : Bytes)
    (parts : List Bytes) :
    forwarded (.connect dc isMedia isTestDC init :: sendBatch parts) = init ++ parts.flatten := by
  unfold forwarded sendBatch
  rw [List.flatMap_cons, List.flatMap_map, List.flatMap_id']

/-- What the splitter holds is what has not been forwarded. -/
theorem Course.forwarding_eq {parsed : InitParser.ParsedInit} {parts : List Bytes}
    {splitter : MsgSplitter}
    (hparses : Parses parsed.key parsed.iv (reference (ks parsed.key parsed.iv)
      splitter.protoTag (seen.drop 64)) (seen.drop 64).length parts splitter) :
    seen.take 64 ++ parts.flatten ++ splitter.cipherBuf = seen := by
  have hconserved := hparses.splits.conserved
  rw [List.append_assoc, hconserved, List.take_append_drop]

/-- The splitter is empty when the stream ends between two packets, or is passed
through. -/
theorem Course.drained_iff {parsed : InitParser.ParsedInit} {parts : List Bytes}
    {splitter : MsgSplitter} (htag : splitter.protoTag = parsed.protoTag)
    (hparses : Parses parsed.key parsed.iv (reference (ks parsed.key parsed.iv)
      splitter.protoTag (seen.drop 64)) (seen.drop 64).length parts splitter) :
    splitter.cipherBuf = [] ↔ Drained ks parsed seen := by
  have hcipher := wire_held hparses.aligned
  have hheld := hparses.held
  rw [htag] at hheld
  unfold Drained
  rw [← hcipher, hheld]
  split_ifs with hstopped
  · exact iff_of_true rfl (Or.inl hstopped)
  · rw [or_iff_right hstopped]
    exact List.map_eq_nil_iff

/-- A session has forwarded no more than it has got. -/
theorem Course.length_le (h : Course ks seen u) : (forwarded u.effects).length ≤ seen.length := by
  cases h with
  | waiting _ _ _ _ heffects =>
    rw [heffects]
    exact Nat.zero_le _
  | forwarding _ _ _ _ _ _ _ hparses heffects =>
    have hlen := congrArg List.length (Course.forwarding_eq hparses)
    rw [List.length_append] at hlen
    rw [heffects, forwarded_connect]
    omega

/-- It has forwarded all of it exactly when its splitter is empty. -/
theorem Course.forwarded_iff (h : Course ks seen u) {parsed : InitParser.ParsedInit}
    (hparse : InitParser.parse ks seen = some parsed) :
    forwarded u.effects = seen ↔ Drained ks parsed seen := by
  cases h with
  | waiting hlen =>
    exact absurd (InitParser.length_of_parse hparse) (Nat.not_le.mpr hlen)
  | forwarding _ hparse' _ _ _ _ htag hparses heffects =>
    obtain rfl := Option.some.inj (hparse'.symm.trans hparse)
    rw [← Course.drained_iff htag hparses, heffects, forwarded_connect]
    have heq := Course.forwarding_eq hparses
    constructor
    · intro hall
      rw [hall] at heq
      exact List.append_right_eq_self.mp heq
    · intro hempty
      rwa [hempty, List.append_nil] at heq

/-! ## One segment -/

/-- `forwardToWS` on a session that forwards. -/
theorem forwardToWS_parts {splitter : MsgSplitter}
    (hconnected : u.session.wsConnected = true ∧ u.session.ws = true)
    (hsplitter : u.session.splitter = some splitter) (data : Bytes) :
    (forwardToWS ks u data).effects = u.effects ++ sendBatch (splitter.split ks data).1 ∧
      (forwardToWS ks u data).session =
        { u.session with splitter := some (splitter.split ks data).2 } := by
  unfold forwardToWS
  rw [if_pos hconnected, hsplitter]
  exact ⟨rfl, rfl⟩

/-- More of the stream for a session that forwards. -/
theorem Course.forwardToWS (h : Course ks seen u) (hlen : 64 ≤ seen.length) (data : Bytes) :
    Course ks (seen ++ data) (TunnelSession.forwardToWS ks u data) := by
  cases h with
  | waiting hshort => exact absurd hlen (Nat.not_le.mpr hshort)
  | @forwarding parsed parts splitter _ hparse hkws hparsed hconnected hsplitter htag hparses
      heffects =>
    obtain ⟨heffects', hsession⟩ := @forwardToWS_parts ks u splitter hconnected hsplitter data
    have hlong : 64 ≤ (seen ++ data).length := by
      rw [List.length_append]
      omega
    have hnext := hparses.split data
    rw [← split_protoTag ks splitter data, ← List.drop_append_of_le_length hlen] at hnext
    refine @Course.forwarding ks _ _ parsed (parts ++ (splitter.split ks data).1)
      (splitter.split ks data).2 hlong ?_ ?_ ?_ ?_ (by rw [hsession])
      ((split_protoTag ks splitter data).trans htag) hnext ?_
    · rw [← InitParser.parse_take ks hlong, List.take_append_of_le_length hlen,
        InitParser.parse_take ks hlen, hparse]
    · rw [hsession]
      exact hkws
    · rw [hsession]
      exact hparsed
    · rw [hsession]
      exact hconnected
    · rw [heffects', heffects, List.take_append_of_le_length hlen]
      unfold sendBatch
      rw [List.map_append]
      rfl

/-- The init packet is complete: the session connects. -/
theorem Course.startWS {parsed : InitParser.ParsedInit} (hlen : 64 ≤ seen.length)
    (hparse : InitParser.parse ks seen = some parsed) (hkws : u.session.workerDomain = none)
    (hparsed : u.session.initParsed = true) (hbuf : u.session.initBuffer.take 64 = seen.take 64)
    (heffects : u.effects = []) : Course ks (seen.take 64) (TunnelSession.startWS ks u parsed) := by
  have htake : (seen.take 64).length = 64 := by
    rw [List.length_take]
    omega
  have hdrop : (seen.take 64).drop 64 = [] := List.drop_eq_nil_iff.mpr (le_of_eq htake)
  have hkey := InitParser.key_length_of_parse hparse
  refine @Course.forwarding ks _ _ parsed [] ⟨⟨parsed.key, parsed.iv, 64⟩, parsed.protoTag, [], [],
    false⟩ (le_of_eq htake.symm) ?_ hkws hparsed ⟨rfl, rfl⟩ ?_ rfl ?_ ?_
  · rw [InitParser.parse_take ks hlen, hparse]
  · show MsgSplitter.init? ks parsed.key parsed.iv parsed.protoTag = _
    unfold MsgSplitter.init?
    rw [AESCTR.init?_of_length hkey]
    dsimp only
    rw [AESCTR.fastForward_eq]
  · rw [hdrop]
    have hempty : reference (ks parsed.key parsed.iv) parsed.protoTag [] = ⟨[], [], false⟩ :=
      Framing.cut_nil _
    rw [hempty]
    exact ⟨fun _ => rfl, rfl, rfl, rfl, [], rfl, rfl, fun _ => rfl⟩
  · rw [List.take_take, min_self, ← hbuf]
    show u.effects ++ _ = _
    rw [heffects]
    rfl

/-- The handling of a segment goes on, or the session closes the connection of
a stream that is no init. -/
theorem Course.handleData (h : Course ks seen u) (data : Bytes) :
    Course ks (seen ++ data) (TunnelSession.handleData ks u data) ∨
      .bridgeClose u.session.connId ∈ (TunnelSession.handleData ks u data).effects := by
  cases h with
  | waiting hlen hkws hparsed hbuf heffects =>
    unfold TunnelSession.handleData
    dsimp only
    rw [hkws]
    dsimp only
    rw [hparsed, if_neg Bool.false_ne_true, hbuf]
    by_cases hfull : InitParser.handshakeLen ≤ (seen ++ data).length
    · have htake : InitParser.parse ks ((seen ++ data).take InitParser.handshakeLen) =
          InitParser.parse ks (seen ++ data) := InitParser.parse_take ks hfull
      rw [if_pos hfull, htake]
      cases hparse : InitParser.parse ks (seen ++ data) with
      | none => exact Or.inr (List.mem_append_right _ (List.mem_singleton_self _))
      | some parsed =>
        left
        have hjoin : (seen ++ data).take 64 ++ (seen ++ data).drop 64 = seen ++ data :=
          List.take_append_drop _ _
        have hlong : 64 ≤ ((seen ++ data).take 64).length := by
          rw [List.length_take]
          exact le_min (le_refl _) hfull
        have hstart := Course.startWS (u := ⟨{ u.session with
            workerDomain := none, initBuffer := seen ++ data, initParsed := true },
          { u.log with rxBytes := u.log.rxBytes + data.length }, u.effects⟩)
          hfull hparse rfl rfl rfl heffects
        dsimp only
        split_ifs with hrest
        · rw [show (seen ++ data).drop 64 = [] from hrest, List.append_nil] at hjoin
          rw [hjoin] at hstart
          exact hstart
        · have hforward := hstart.forwardToWS hlong ((seen ++ data).drop 64)
          rw [hjoin] at hforward
          exact hforward
    · rw [if_neg hfull]
      exact Or.inl (.waiting (Nat.lt_of_not_le hfull) rfl rfl rfl heffects)
  | forwarding hlen hparse hkws hparsed hconnected hsplitter htag hparses heffects =>
    have hlog := Course.forwarding (u := { u with log.rxBytes := u.log.rxBytes + data.length }) hlen
      hparse hkws hparsed hconnected hsplitter htag hparses heffects
    unfold TunnelSession.handleData
    dsimp only
    rw [hkws]
    dsimp only
    rw [if_pos hparsed]
    exact Or.inl (hlog.forwardToWS hlen data)

end

/-! ## The life of a connection -/

/-- The bytes of the segments the session has got a copy of. -/
def copied (arrivals : List Arrival) : Bytes :=
  ((arrivals.filter Arrival.malloc).map Arrival.data).flatten

/-- Every segment that is not empty has been copied. -/
def AllCopied (arrivals : List Arrival) : Prop := ∀ a ∈ arrivals, a.data = [] ∨ a.malloc = true

theorem copied_of_all {arrivals : List Arrival} (h : AllCopied arrivals) :
    copied arrivals = arrived arrivals := by
  induction arrivals with
  | nil => rfl
  | cons a arrivals ih =>
    have ih := ih fun b hb => h b (List.mem_cons_of_mem a hb)
    unfold copied arrived at ih ⊢
    rw [List.map_cons, List.flatten_cons, ← ih, List.filter_cons]
    split_ifs with hmalloc
    · rw [List.map_cons, List.flatten_cons]
    · rw [(h a List.mem_cons_self).resolve_right hmalloc, List.nil_append]

/-- A segment that is lost is missing. -/
theorem copied_length_lt {arrivals : List Arrival} (h : ¬ AllCopied arrivals) :
    (copied arrivals).length < (arrived arrivals).length := by
  induction arrivals with
  | nil => exact absurd (fun a ha => absurd ha List.not_mem_nil) h
  | cons a arrivals ih =>
    have harrived : arrived (a :: arrivals) = a.data ++ arrived arrivals := rfl
    rw [harrived, List.length_append]
    by_cases hall : AllCopied arrivals
    · have hlost : a.data ≠ [] ∧ a.malloc = false := by
        by_contra hgood
        refine h fun b hb => ?_
        rcases List.mem_cons.mp hb with rfl | hb
        · by_contra hbad
          obtain ⟨hne, hmalloc⟩ := not_or.mp hbad
          exact hgood ⟨hne, eq_false_of_ne_true hmalloc⟩
        · exact hall b hb
      have hskip : copied (a :: arrivals) = copied arrivals := by
        unfold copied
        rw [List.filter_cons_of_neg (by rw [hlost.2]; exact Bool.false_ne_true)]
      have hpos := List.length_pos_iff.mpr hlost.1
      rw [hskip, copied_of_all hall]
      omega
    · have ih := ih hall
      have hle : (copied (a :: arrivals)).length ≤ a.data.length + (copied arrivals).length := by
        unfold copied
        rw [List.filter_cons]
        split_ifs
        · rw [List.map_cons, List.flatten_cons, List.length_append]
        · exact Nat.le_add_left _ _
      omega

theorem copied_concat (arrivals : List Arrival) (a : Arrival) :
    copied (arrivals ++ [a]) = copied arrivals ++ if a.malloc then a.data else [] := by
  unfold copied
  rw [List.filter_append, List.map_append, List.flatten_append]
  cases hmalloc : a.malloc <;> simp [hmalloc]

section

variable {L : Lwip} {ks : Keystream} {slot pcb : ℕ} {w w' : World Up}

/-- `lwip_bridge_close` leaves nothing in the slot. -/
theorem lwipBridgeClose_holder (b : Bridge) (slot : ℕ) :
    (b.lwipBridgeClose L slot).holder slot = none := by
  unfold Bridge.lwipBridgeClose
  split
  · rename_i c hc
    split
    · unfold Bridge.holder Bridge.connOfId Bridge.clearConn
      rw [List.getElem?_modify_eq]
      cases (((b.dropNat c).detachAbort L _).conns)[slot]? <;> rfl
    · rename_i hpcb
      unfold Bridge.holder
      rw [hc]
      exact hpcb
  · rename_i hc
    unfold Bridge.holder
    rw [hc]
    rfl

/-- The session is in its slot, and where its data has taken it. -/
structure Living (ks : Keystream) (slot : ℕ) (seen : Bytes) (w : World Up) : Prop where
  connId : w.swift.session.connId = slot
  course : w.bridge.holder slot = none ∨ Course ks seen w.swift

/-- One segment. -/
theorem Living.deliver {arrivals : List Arrival} (h : Living ks slot (copied arrivals) w)
    {a : Arrival} (hstep : WSBridge.deliver L ks slot pcb w a = some w') :
    Living ks slot (copied (arrivals ++ [a])) w' := by
  obtain ⟨hholder, heq⟩ := Option.ite_none_right_eq_some.mp hstep
  have hcourse := h.course.resolve_left (by rw [hholder]; exact nofun)
  rw [← Option.some.inj heq, copied_concat]
  cases hmalloc : a.malloc with
  | false =>
    rw [if_neg Bool.false_ne_true, List.append_nil]
    exact ⟨h.connId, Or.inr hcourse⟩
  | true =>
    rw [if_pos rfl]
    have hkept := handleData_kept ks w.swift a.data
    refine ⟨(congrArg TunnelSession.Kept.connId hkept).trans h.connId, ?_⟩
    rcases hcourse.handleData a.data with hnext | hclose
    · exact Or.inr hnext
    · left
      rw [h.connId] at hclose
      show Bridge.holder (if Effect.bridgeClose slot ∈ (TunnelSession.handleData ks w.swift
        a.data).effects then w.bridge.lwipBridgeClose L slot else w.bridge) slot = none
      rw [if_pos hclose, lwipBridgeClose_holder]

/-- A row of segments. -/
theorem Living.run {arrivals : List Arrival} (before : List Arrival)
    (h : Living ks slot (copied before) w)
    (hrun : Foundation.run (WSBridge.deliver L ks slot pcb) w arrivals = some w') :
    Living ks slot (copied (before ++ arrivals)) w' := by
  induction arrivals generalizing before w with
  | nil =>
    cases hrun
    rwa [List.append_nil]
  | cons a arrivals ih =>
    obtain ⟨m, hm, hrun⟩ := run_cons_eq_some.mp hrun
    have hnext := ih (before ++ [a]) (h.deliver hm) hrun
    rwa [List.append_assoc] at hnext

/-- The FIN forwards nothing. -/
theorem deliverFin_forwarded (hstep : deliverFin L ks slot pcb w = some w') :
    w.bridge.holder slot = some pcb ∧ forwarded w'.swift.effects = forwarded w.swift.effects := by
  obtain ⟨hholder, heq⟩ := Option.ite_none_right_eq_some.mp hstep
  refine ⟨hholder, ?_⟩
  have hswift : w'.swift.effects = w.swift.effects ++ w.swift.session.handleClose.2 := by
    rw [← Option.some.inj heq]
    unfold tcpRecvCb
    dsimp only
    split
    · rfl
    · rename_i c _
      cases c.pcb <;> rfl
  rw [hswift]
  unfold forwarded
  rw [List.flatMap_append]
  unfold TunnelSession.handleClose
  dsimp only
  split_ifs <;> exact List.append_nil _

end

/-- The bytes of a connection that starts with a valid init have all been
forwarded when the FIN has closed the session, exactly when every segment was
copied and the stream has left nothing in the splitter. -/
theorem conserved_iff (L : Lwip) (ks : Keystream) {b : Bridge} {slot pcb : ℕ} (dcIP : UInt32)
    (log : EventLog)
    {arrivals : List Arrival} {parsed : InitParser.ParsedInit}
    (hinit : InitParser.parse ks (arrived arrivals) = some parsed) {w : World Up}
    (hlife : life L ks slot pcb ⟨⟨new slot dcIP none, log, []⟩, b⟩ arrivals = some w) :
    forwarded w.swift.effects = acknowledged b w.bridge pcb arrivals ↔
      AllCopied arrivals ∧ Drained ks parsed (arrived arrivals) := by
  rw [show acknowledged b w.bridge pcb arrivals = arrived arrivals from life_acknowledged hlife]
  obtain ⟨m, hrun, hfin⟩ := Option.bind_eq_some_iff.mp hlife
  obtain ⟨hopen, hforwarded⟩ := deliverFin_forwarded hfin
  have hnew : Living ks slot (copied []) ⟨⟨new slot dcIP none, log, []⟩, b⟩ :=
    ⟨rfl, Or.inr (.waiting (by decide) rfl rfl rfl rfl)⟩
  have hlast := hnew.run [] hrun
  rw [List.nil_append] at hlast
  have hcourse := hlast.course.resolve_left (by rw [hopen]; exact nofun)
  rw [hforwarded]
  by_cases hall : AllCopied arrivals
  · rw [copied_of_all hall] at hcourse
    rw [and_iff_right hall]
    exact hcourse.forwarded_iff hinit
  · refine iff_of_false (fun heq => ?_) fun h => hall h.1
    have hle := hcourse.length_le
    have hlt := copied_length_lt hall
    rw [heq] at hle
    omega

/-- A bridge with one connection, from 10.0.0.1:40000 to 149.154.167.51:443. -/
def oneConnection : Bridge :=
  { conns := (List.replicate maxConns {}).set 0 ⟨some 0, 0x959AA733, 0x0A000001, 40000, true⟩
    pcbs := [{ id := 0, remoteIP := 0x0A000001, remotePort := 40000, localPort := 443
               origDst := 0x959AA733, accepted := true, recv := true, err := true, sent := true }]
    nextPcb := 1 }

/-- An init packet and the first `n` bytes of a message of five. -/
def sampleArrivals (n : ℕ) : List Arrival :=
  [⟨sampleRnd.take 56 ++ [50, 188], true⟩, ⟨[149, 133, 13, 4, 118, 115], true⟩,
    ⟨[220, 10, 89, 52, 181].take n, true⟩]

theorem conserved_sample :
    ∃ parsed w, InitParser.parse sampleKeystream (arrived (sampleArrivals 5)) = some parsed ∧
      life Lwip.ample sampleKeystream 0 0 ⟨⟨new 0 0 none, {}, []⟩, oneConnection⟩
        (sampleArrivals 5) = some w ∧
      (forwarded w.swift.effects = acknowledged oneConnection w.bridge 0 (sampleArrivals 5) ↔
        AllCopied (sampleArrivals 5) ∧
          Drained sampleKeystream parsed (arrived (sampleArrivals 5))) := by
  obtain ⟨parsed, hparse⟩ := Option.isSome_iff_exists.mp (show (InitParser.parse sampleKeystream
    (arrived (sampleArrivals 5))).isSome = true by decide)
  obtain ⟨w, hlife⟩ := Option.isSome_iff_exists.mp (show (life Lwip.ample sampleKeystream 0 0
    ⟨⟨new 0 0 none, {}, []⟩, oneConnection⟩ (sampleArrivals 5)).isSome = true by decide +kernel)
  exact ⟨parsed, w, hparse, hlife, conserved_iff _ _ _ _ hparse hlife⟩

/-- The client ends its stream after two bytes of a message: they are
acknowledged, and never forwarded. -/
theorem trailing_lost :
    ¬ ∀ (L : Lwip) (ks : Keystream) (b : Bridge) (slot pcb : ℕ) (dcIP : UInt32) (log : EventLog)
      (arrivals : List Arrival) (parsed : InitParser.ParsedInit) (w : World Up),
      InitParser.parse ks (arrived arrivals) = some parsed →
      life L ks slot pcb ⟨⟨new slot dcIP none, log, []⟩, b⟩ arrivals = some w →
        forwarded w.swift.effects = acknowledged b w.bridge pcb arrivals := by
  intro h
  have hrun : (life Lwip.ample sampleKeystream 0 0 ⟨⟨new 0 0 none, {}, []⟩, oneConnection⟩
      (sampleArrivals 2)).map (fun w => forwarded w.swift.effects) =
        some (arrived (sampleArrivals 0)) := by
    decide +kernel
  obtain ⟨parsed, hparse⟩ := Option.isSome_iff_exists.mp (show (InitParser.parse sampleKeystream
    (arrived (sampleArrivals 2))).isSome = true by decide)
  obtain ⟨w, hlife, hforwarded⟩ := Option.map_eq_some_iff.mp hrun
  have hall := h _ _ _ _ _ _ _ _ _ _ hparse hlife
  rw [hforwarded, life_acknowledged hlife] at hall
  revert hall
  decide

end WSBridge
