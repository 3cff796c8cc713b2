import Mathlib.Data.Set.Function
import WSBridge.System.Links

/-!
# The slots and the pcbs are paired

`g_conns[slot].pcb` names each accepted pcb of lwIP once, and the callback
argument of the pcb leads back to the slot. Four paths end a connection (a FIN
or an error of `tcp_recv_cb`, `tcp_err_cb`, `lwip_bridge_close`), the last also
from within a callback; each releases the slot and the pcb together.

Results:
* `paired_run`: `Paired` holds in every state of a run of the bridge, with its
  functions called in any order, and of a run of the tunnel; and a callback of
  a pcb leaves the other connections as they are.
-/

namespace WSBridge

open WSBridge.Foundation

/-- The slots `conn_of_id` finds. -/
def Bridge.activeSlots (b : Bridge) : Set ℕ := {slot | ∃ c, b.connOfId slot = some c}

/-- The pcbs lwIP holds whose accept callback has been called. -/
def Bridge.acceptedPcbs (b : Bridge) : Set (Option ℕ) :=
  {o | ∃ p ∈ b.pcbs, p.accepted = true ∧ o = some p.id}

/-- The slots of `g_conns` and the pcbs of lwIP, one to one. -/
structure Paired (b : Bridge) : Prop where
  bijection : Set.BijOn b.holder b.activeSlots b.acceptedPcbs
  /-- The callback argument of an accepted pcb is its slot. -/
  argument : ∀ p ∈ b.pcbs, p.accepted = true → b.holder p.arg = some p.id
  /-- Only an accepted pcb has an err or a sent callback. -/
  callbacks : ∀ p ∈ b.pcbs, p.err = true ∨ p.sent = true → p.accepted = true
  idle : ∀ c ∈ b.conns, c.active = false → c.pcb = none
  /-- `tcp_accept_cb` would find a slot. -/
  room : ∃ slot, b.conns.findIdx? (!·.active) = some slot

/-- The pcb whose recv, err or sent callback lwIP calls. -/
def LwipEvent.callee? : LwipEvent → Option ℕ
  | .recv id _ _ _ | .free id _ | .sent id _ => some id
  | _ => none

/-- A callback of a pcb leaves the slots and pcbs of other connections alone. -/
def OwnConnection (b b' : Bridge) : BridgeEvent → Prop
  | .lwip e => ∀ id, e.callee? = some id →
    (∀ slot, b.holder slot ≠ some id → b'.conns[slot]? = b.conns[slot]?) ∧
      ∀ p ∈ b.pcbs, p.id ≠ id → ∃ p' ∈ b'.pcbs, p'.view = p.view
  | _ => True

section

variable {b b' : Bridge}

theorem Slots.holder_eq_some (hs : Slots b) {slot id : ℕ} :
    b.holder slot = some id ↔ ∃ p ∈ b.pcbs, p.accepted = true ∧ p.arg = slot ∧ p.id = id := by
  constructor
  · intro h
    obtain ⟨c, hc, hpcb⟩ := Option.bind_eq_some_iff.mp h
    obtain ⟨p, hp, hid, hacc, harg, -⟩ := hs.pcb_of_connOfId hc
    exact ⟨p, hp, hacc, harg, Option.some.inj (hid.symm.trans hpcb)⟩
  · rintro ⟨p, hp, hacc, rfl, rfl⟩
    obtain ⟨c, hc, -, -, hpcb⟩ := hs.connOfId hp hacc
    exact Option.bind_eq_some_iff.mpr ⟨c, hc, hpcb⟩

theorem Slots.bijOn (hs : Slots b) : Set.BijOn b.holder b.activeSlots b.acceptedPcbs := by
  refine ⟨?_, ?_, ?_⟩
  · rintro slot ⟨c, hc⟩
    obtain ⟨p, hp, hid, hacc, -⟩ := hs.pcb_of_connOfId hc
    exact ⟨p, hp, hacc, Option.bind_eq_some_iff.mpr ⟨c, hc, hid⟩⟩
  · rintro slot ⟨c, hc⟩ slot' ⟨c', hc'⟩ heq
    obtain ⟨p, hp, hid, hacc, rfl, -⟩ := hs.pcb_of_connOfId hc
    have hholder : b.holder slot' = some p.id :=
      heq.symm.trans (Option.bind_eq_some_iff.mpr ⟨c, hc, hid⟩)
    obtain ⟨p', hp', -, rfl, hid'⟩ := hs.holder_eq_some.mp hholder
    rw [hs.eq_of_id hp hp' hid'.symm]
  · rintro o ⟨p, hp, hacc, rfl⟩
    obtain ⟨c, hc, -, -, hpcb⟩ := hs.connOfId hp hacc
    exact ⟨p.arg, ⟨c, hc⟩, Option.bind_eq_some_iff.mpr ⟨c, hc, hpcb⟩⟩

theorem Slots.paired (hs : Slots b) : Paired b := by
  refine ⟨hs.bijOn, ?_, ?_, hs.idle, hs.exists_inactive⟩
  · intro p hp hacc
    exact hs.holder_eq_some.mpr ⟨p, hp, hacc, rfl, rfl⟩
  · intro p hp hset
    by_contra hhalf
    obtain ⟨herr, hsent⟩ := hs.half p hp (eq_false_of_ne_true hhalf)
    rcases hset with h | h
    · exact Bool.false_ne_true (herr.symm.trans h)
    · exact Bool.false_ne_true (hsent.symm.trans h)

/-- The end of a connection changes its own slot and its own pcb. -/
theorem Torn.ownConnection {c : Conn} {p : Pcb} (h : Torn b b' p.arg c p) :
    (∀ slot, b.holder slot ≠ some p.id → b'.conns[slot]? = b.conns[slot]?) ∧
      ∀ q ∈ b.pcbs, q.id ≠ p.id → ∃ q' ∈ b'.pcbs, q'.view = q.view := by
  have hholder : b.holder p.arg = some p.id := by
    refine Option.bind_eq_some_iff.mpr ⟨c, ?_, h.pcb⟩
    exact Bridge.connOfId_eq_some.mpr ⟨h.conn, h.active⟩
  refine ⟨?_, ?_⟩
  · intro slot hother
    have hne : p.arg ≠ slot := by
      rintro rfl
      exact hother hholder
    rw [h.conns, List.getElem?_modify]
    simp only [if_neg hne]
    exact Option.map_id_apply
  · intro q hq hne
    refine ⟨q, ?_, rfl⟩
    rw [h.pcbs, List.mem_filter]
    exact ⟨hq, by simpa using hne⟩

theorem Quiet.ownConnection (h : Quiet b b') (id : ℕ) :
    (∀ slot, b.holder slot ≠ some id → b'.conns[slot]? = b.conns[slot]?) ∧
      ∀ p ∈ b.pcbs, p.id ≠ id → ∃ p' ∈ b'.pcbs, p'.view = p.view := by
  refine ⟨fun slot _ => by rw [h.conns], fun p hp _ => ?_⟩
  exact h.mem' hp

theorem BridgeEffect.ownConnection {L : Lwip} {e : BridgeEvent} (h : BridgeEffect L b e b') :
    OwnConnection b b' e := by
  cases h with
  | @quiet e _ _ hq =>
    cases e with
    | lwip e => exact fun id _ => hq.ownConnection id
    | input | poll | done | write | close | recved => trivial
  | input | poll | done | close => trivial
  | halfOpen | accept | emit => exact nofun
  | @fin p data err malloc c _ _ _ htorn =>
    intro id hid
    obtain rfl := Option.some.inj hid
    exact htorn.ownConnection
  | @ended p err c _ _ htorn =>
    intro id hid
    obtain rfl := Option.some.inj hid
    exact htorn.ownConnection
  | @dropped p err =>
    intro id hid
    obtain rfl := Option.some.inj hid
    refine ⟨fun _ _ => rfl, fun q hq hne => ⟨q, ?_, rfl⟩⟩
    exact List.mem_filter.mpr ⟨hq, by simpa using hne⟩

end

/-- Slots and pcbs are paired in every state of a run, in whatever order lwIP
calls the callbacks and the Swift side the functions of the bridge. -/
theorem paired_run (L : Lwip) :
    (∀ events : List BridgeEvent,
      EveryState (Bridge.step L) Paired Bridge.init events ∧
      EveryStep (Bridge.step L) (fun b e => ∀ b', b.step L e = some b' → OwnConnection b b' e)
        Bridge.init events) ∧
    ∀ (ks : Keystream) (workerDomain : Option String) (events : List SystemEvent),
      EveryState (System.step L ks) (fun s => Paired s.bridge) (System.init workerDomain)
        events := by
  refine ⟨fun events => ⟨?_, ?_⟩, fun ks workerDomain events => ?_⟩
  · rw [everyState_iff]
    intro before b _ hrun
    exact (slots_run hrun).paired
  · refine everyStep_of_invariant (I := Slots) ?_ events _ slots_init
    intro b e b' hs hstep
    refine ⟨fun b'' hstep' => ?_, slots_step hs hstep⟩
    exact (effect_of_step hs hstep').ownConnection
  · rw [everyState_iff]
    intro before s _ hrun
    obtain ⟨-, hreaches⟩ := system_reaches hrun
    exact (hreaches.slots slots_init).paired

end WSBridge
