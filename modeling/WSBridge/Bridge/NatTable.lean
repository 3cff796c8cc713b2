import WSBridge.Foundation.ScanTable
import WSBridge.Upstream.AESCTR

/-!
# The NAT table (`Tunnel/lwip_bridge.c:21-72`)

The table maps a client's address and port to the address the client had
addressed. It is keyed by the client alone, so all its connections from one
port share an entry.

Results:
* `natLookup_add_self`, `natLookup_add_of_ne`, `natLookup_remove_self`,
  `natLookup_remove_of_ne`: what the table answers after a change.
* `mem_natKeys_add`, `mem_natKeys_remove`: which keys have a used entry.
-/

namespace WSBridge

open WSBridge.Foundation

/-- `nat_entry_t` (lines 23–28). -/
structure NatEntry where
  clientIP : UInt32 := 0
  clientPort : UInt16 := 0
  dcIP : UInt32 := 0
  used : Bool := false
  deriving DecidableEq, Repr

/-- `g_nat` (line 29). -/
abbrev NatTable := List NatEntry

/-- `NAT_MAX` (line 22). -/
def natMax : ℕ := 128

/-- The test of the three scans. -/
def NatEntry.isFor (clientIP : UInt32) (clientPort : UInt16) (e : NatEntry) : Bool :=
  e.used && e.clientIP == clientIP && e.clientPort == clientPort

/-- `nat_add` (lines 37–54). -/
def natAdd (nat : NatTable) (clientIP : UInt32) (clientPort : UInt16) (dcIP : UInt32) : NatTable :=
  match updateFirst (NatEntry.isFor clientIP clientPort) (fun e => { e with dcIP }) nat with
  | some nat => nat
  | none => (updateFirst (!·.used) (fun _ => ⟨clientIP, clientPort, dcIP, true⟩) nat).getD nat

/-- `nat_lookup` (lines 56–63). -/
def natLookup (nat : NatTable) (clientIP : UInt32) (clientPort : UInt16) : UInt32 :=
  match nat.find? (NatEntry.isFor clientIP clientPort) with
  | some e => e.dcIP
  | none => 0

/-- `nat_remove` (lines 65–72). -/
def natRemove (nat : NatTable) (clientIP : UInt32) (clientPort : UInt16) : NatTable :=
  (updateFirst (NatEntry.isFor clientIP clientPort) (fun e => { e with used := false }) nat).getD
    nat

/-! ## The table as a map -/

/-- A client's address and port. -/
abbrev ClientKey := UInt32 × UInt16

/-- The entries as cells of a scanned table. -/
def natCells : Cells NatEntry ClientKey UInt32 where
  key e := if e.used then some (e.clientIP, e.clientPort) else none
  val e := e.dcIP
  set v e := { e with dcIP := v }
  fill k v := ⟨k.1, k.2, v, true⟩
  clear e := { e with used := false }
  key_set _ _ := rfl
  val_set _ _ := rfl
  key_fill _ _ := rfl
  val_fill _ _ := rfl
  key_clear _ := rfl

theorem natCells_has (ip : UInt32) (port : UInt16) :
    natCells.has (ip, port) = NatEntry.isFor ip port := by
  funext e
  cases hu : e.used <;> simp [Cells.has, natCells, NatEntry.isFor, hu, beq_eq_decide]

theorem natCells_free : natCells.free = fun e => !e.used := by
  funext e
  cases hu : e.used <;> simp [Cells.free, natCells, hu]

theorem natAdd_eq (nat : NatTable) (ip : UInt32) (port : UInt16) (dcIP : UInt32) :
    natAdd nat ip port dcIP = natCells.add nat (ip, port) dcIP := by
  unfold natAdd Cells.add
  rw [natCells_has, natCells_free]
  have hset : natCells.set dcIP = fun e => { e with dcIP } := rfl
  rw [hset]
  cases updateFirst (NatEntry.isFor ip port) (fun e => { e with dcIP }) nat <;> rfl

theorem natRemove_eq (nat : NatTable) (ip : UInt32) (port : UInt16) :
    natRemove nat ip port = natCells.remove nat (ip, port) := by
  unfold natRemove Cells.remove
  rw [natCells_has]
  rfl

theorem natLookup_eq (nat : NatTable) (ip : UInt32) (port : UInt16) :
    natLookup nat ip port = (natCells.look nat (ip, port)).getD 0 := by
  unfold natLookup Cells.look
  rw [natCells_has]
  cases nat.find? (NatEntry.isFor ip port) <;> rfl

/-- The keys of the used entries. -/
def natKeys (nat : NatTable) : List ClientKey := natCells.keys nat

/-- No two used entries have the same key. -/
def NatDistinct (nat : NatTable) : Prop := natCells.Distinct nat

/-- The table has an entry for the key, or a free one. -/
def NatRoom (nat : NatTable) (k : ClientKey) : Prop := natCells.Room nat k

section

variable {nat : NatTable} {k k' : ClientKey}

theorem NatDistinct.add (h : NatDistinct nat) (k : ClientKey) (dcIP : UInt32) :
    NatDistinct (natAdd nat k.1 k.2 dcIP) := by
  rw [natAdd_eq]
  exact Cells.Distinct.add natCells h _ _

theorem NatDistinct.remove (h : NatDistinct nat) (k : ClientKey) :
    NatDistinct (natRemove nat k.1 k.2) := by
  rw [natRemove_eq]
  exact Cells.Distinct.remove natCells h _

theorem natAdd_length (nat : NatTable) (k : ClientKey) (dcIP : UInt32) :
    (natAdd nat k.1 k.2 dcIP).length = nat.length := by
  rw [natAdd_eq]
  exact natCells.add_length _ _ _

theorem natRemove_length (nat : NatTable) (k : ClientKey) :
    (natRemove nat k.1 k.2).length = nat.length := by
  rw [natRemove_eq]
  exact natCells.remove_length _ _

theorem natLookup_add_self (h : NatRoom nat k) (dcIP : UInt32) :
    natLookup (natAdd nat k.1 k.2 dcIP) k.1 k.2 = dcIP := by
  rw [natLookup_eq, natAdd_eq, natCells.look_add_self h]
  rfl

/-- A mapping is dropped silently when the table is full. -/
theorem natAdd_of_not_room (h : ¬ NatRoom nat k) (dcIP : UInt32) :
    natAdd nat k.1 k.2 dcIP = nat := by
  rw [natAdd_eq]
  exact natCells.add_of_not_room h _

theorem natLookup_add_of_ne (h : k' ≠ k) (dcIP : UInt32) :
    natLookup (natAdd nat k.1 k.2 dcIP) k'.1 k'.2 = natLookup nat k'.1 k'.2 := by
  rw [natLookup_eq, natLookup_eq, natAdd_eq, natCells.look_add_of_ne _ h]

theorem natLookup_remove_self (h : NatDistinct nat) (k : ClientKey) :
    natLookup (natRemove nat k.1 k.2) k.1 k.2 = 0 := by
  rw [natLookup_eq, natRemove_eq, Cells.look_remove_self natCells h]
  rfl

theorem natLookup_remove_of_ne (h : k' ≠ k) :
    natLookup (natRemove nat k.1 k.2) k'.1 k'.2 = natLookup nat k'.1 k'.2 := by
  rw [natLookup_eq, natLookup_eq, natRemove_eq, natCells.look_remove_of_ne _ h]

theorem mem_natKeys_add {dcIP : UInt32} (h : k' ∈ natKeys (natAdd nat k.1 k.2 dcIP)) :
    k' = k ∨ k' ∈ natKeys nat := by
  rw [natAdd_eq] at h
  exact natCells.mem_keys_add h

theorem mem_natKeys_add_self (h : NatRoom nat k) (dcIP : UInt32) :
    k ∈ natKeys (natAdd nat k.1 k.2 dcIP) := by
  rw [natAdd_eq]
  exact natCells.mem_keys_add_self h _

theorem mem_natKeys_remove (h : NatDistinct nat) :
    k' ∈ natKeys (natRemove nat k.1 k.2) ↔ k' ≠ k ∧ k' ∈ natKeys nat := by
  rw [natRemove_eq]
  exact natCells.mem_keys_remove h

theorem natRoom_of_length_lt (k : ClientKey) (h : (natKeys nat).length < nat.length) :
    NatRoom nat k := Or.inr (natCells.exists_free h)

end

end WSBridge
