import WSBridge.System.Links

/-!
# Slots that are used again

A slot is given to the next connection while blocks of the previous one still
wait in `lwipQueue`. What keeps them apart is the flag `dead`: a block that
finds its session not dead finds it in its slot, by the links.

Results:
* `noCrossTalk`: in every reachable state of the tunnel, a session has only
  called the bridge for its own connection, or for an inactive slot.
* `lwipBridgeWrite_inactive`, `lwipBridgeClose_inactive` (in `Links`): a call
  for an inactive slot has no effect.
-/

namespace WSBridge

open WSBridge.Foundation

/-- Whenever a session called `write` or `close`, its slot was inactive or had
the connection the session was made for. -/
def NoCrossTalk (s : System) : Prop :=
  ∀ call ∈ s.tunnel.swift.calls, ∃ o, s.tunnel.swift.objects[call.session]? = some o ∧
    (call.holder = none ∨ call.holder = o.owner)

/-- No session ever reaches the connection of another, in any order of accepts,
client data, FINs, errors, rejected streams, blocks of web sockets, sent
callbacks and stops. -/
theorem noCrossTalk (L : Lwip) (ks : Keystream) (workerDomain : Option String)
    (events : List SystemEvent) :
    EveryState (System.step L ks) NoCrossTalk (System.init workerDomain) events := by
  rw [everyState_iff]
  intro past s _ hrun
  exact (system_reaches hrun).1.calls

end WSBridge
