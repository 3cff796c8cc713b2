import WSBridge.Session.TunnelSession

/-!
# A session with a worker or a relay (`Tunnel/TunnelSession.swift`, `startPipe`)

Where the user has named a worker of his own, a session passes the client's
stream on as it comes. `startPipe` formats the DC's address, and takes a field
of the form `host:port` as the address of a relay.

Swift compares characters and the model scalars: the two differ only where a
combining mark follows a colon or a digit.

Results:
* `relayAddress_iff`: which fields name a relay; `relayAddress_hostPort`: a host
  and a port are read back.
* `dottedQuad_injective`: the formatted address tells the DC.
* `Piped.handleData`: what such a session does with data.
-/

namespace WSBridge

open TunnelSession (handleData)

/-! ## The address of the DC -/

/-- The address that `startPipe` formats (`TunnelSession.swift:97`). -/
def dottedQuad (ip : UInt32) : String :=
  let part (shift : UInt32) := toString ((ip >>> shift) &&& 255)
  part 24 ++ "." ++ part 16 ++ "." ++ part 8 ++ "." ++ toString (ip &&& 255)

/-- The parts of an address, as characters. -/
def quadDigits (ip : UInt32) (shift : UInt32) : List Char :=
  Nat.toDigits 10 ((ip >>> shift) &&& 255).toNat

theorem isDigit_of_quadDigits {ip shift : UInt32} {c : Char} (h : c ∈ quadDigits ip shift) :
    c.isDigit :=
  Nat.isDigit_of_mem_toDigits (by decide) (by decide) h

theorem toList_dottedQuad (ip : UInt32) : (dottedQuad ip).toList =
    quadDigits ip 24 ++ '.' :: (quadDigits ip 16 ++ '.' :: (quadDigits ip 8 ++
      '.' :: quadDigits ip 0)) := by
  have hstring (n : UInt32) : (toString n).toList = Nat.toDigits 10 n.toNat := Nat.toList_repr
  have hlast : ip >>> 0 = ip := by
    apply UInt32.toNat_inj.mp
    simp
  simp [dottedQuad, quadDigits, hstring, hlast]

theorem mem_dottedQuad {ip : UInt32} {c : Char} (h : c ∈ (dottedQuad ip).toList) :
    c.isDigit ∨ c = '.' := by
  have hdigit (shift : UInt32) (hc : c ∈ quadDigits ip shift) : c.isDigit :=
    isDigit_of_quadDigits hc
  rw [toList_dottedQuad] at h
  simp only [List.mem_append, List.mem_cons] at h
  rcases h with h | rfl | h | rfl | h | rfl | h
  · exact Or.inl (hdigit 24 h)
  · exact Or.inr rfl
  · exact Or.inl (hdigit 16 h)
  · exact Or.inr rfl
  · exact Or.inl (hdigit 8 h)
  · exact Or.inr rfl
  · exact Or.inl (hdigit 0 h)

/-- Texts that end at the first `c` are told apart by what follows them. -/
theorem cut_at {α : Type*} {c : α} {x y z w : List α} (hx : c ∉ x) (hy : c ∉ y)
    (h : x ++ c :: z = y ++ c :: w) : x = y ∧ z = w := by
  induction x generalizing y with
  | nil =>
    cases y with
    | nil => exact ⟨rfl, (List.cons.inj h).2⟩
    | cons b y =>
      obtain ⟨rfl, -⟩ := List.cons.inj h
      exact absurd List.mem_cons_self hy
  | cons a x ih =>
    cases y with
    | nil =>
      obtain ⟨rfl, -⟩ := List.cons.inj h
      exact absurd List.mem_cons_self hx
    | cons b y =>
      obtain ⟨rfl, htail⟩ := List.cons.inj h
      obtain ⟨rfl, rfl⟩ := ih (fun hc => hx (List.mem_cons_of_mem _ hc))
        (fun hc => hy (List.mem_cons_of_mem _ hc)) htail
      exact ⟨rfl, rfl⟩

theorem dot_notMem_quadDigits (ip shift : UInt32) : '.' ∉ quadDigits ip shift := by
  intro h
  exact absurd (isDigit_of_quadDigits h) (by decide)

theorem quad_toNat (ip shift : UInt32) (h : shift.toNat < 32) :
    ((ip >>> shift) &&& 255).toNat = ip.toNat / 2 ^ shift.toNat % 256 := by
  rw [UInt32.toNat_and, UInt32.toNat_shiftRight, Nat.mod_eq_of_lt h, Nat.shiftRight_eq_div_pow]
  exact Nat.and_two_pow_sub_one_eq_mod _ 8

theorem quadDigits_inj {ip ip' shift : UInt32} (hshift : shift.toNat < 32)
    (h : quadDigits ip shift = quadDigits ip' shift) :
    ip.toNat / 2 ^ shift.toNat % 256 = ip'.toNat / 2 ^ shift.toNat % 256 := by
  have hvalue := congrArg (Nat.ofDigitChars 10 · 0) h
  simpa [quadDigits, quad_toNat _ _ hshift] using hvalue

theorem dottedQuad_injective : Function.Injective dottedQuad := by
  intro ip ip' h
  have hlist := congrArg String.toList h
  rw [toList_dottedQuad, toList_dottedQuad] at hlist
  obtain ⟨h24, hlist⟩ := cut_at (dot_notMem_quadDigits _ _) (dot_notMem_quadDigits _ _) hlist
  obtain ⟨h16, hlist⟩ := cut_at (dot_notMem_quadDigits _ _) (dot_notMem_quadDigits _ _) hlist
  obtain ⟨h8, h0⟩ := cut_at (dot_notMem_quadDigits _ _) (dot_notMem_quadDigits _ _) hlist
  have h24 : ip.toNat / 2 ^ 24 % 256 = ip'.toNat / 2 ^ 24 % 256 := quadDigits_inj (by decide) h24
  have h16 : ip.toNat / 2 ^ 16 % 256 = ip'.toNat / 2 ^ 16 % 256 := quadDigits_inj (by decide) h16
  have h8 : ip.toNat / 2 ^ 8 % 256 = ip'.toNat / 2 ^ 8 % 256 := quadDigits_inj (by decide) h8
  have h0 : ip.toNat / 2 ^ 0 % 256 = ip'.toNat / 2 ^ 0 % 256 := quadDigits_inj (by decide) h0
  have hlt := ip.toNat_lt
  have hlt' := ip'.toNat_lt
  apply UInt32.toNat_inj.mp
  omega

/-! ## The address of a relay -/

/-- `workerDomain.split(separator: ":", maxSplits: 1)`: empty pieces are left
out, and do not count as splits. -/
def splitColon (text : List Char) : List (List Char) :=
  let text := text.dropWhile (· = ':')
  [text.takeWhile (· ≠ ':'), (text.dropWhile (· ≠ ':')).drop 1].filter (· ≠ [])

/-- The digits of `UInt16(_:)`, behind its sign. -/
def digits? (text : List Char) : Option ℕ :=
  if text ≠ [] ∧ text.all Char.isDigit then some (Nat.ofDigitChars 10 text 0) else none

/-- `UInt16(_:)` of a text: `nil` where it is no number or too large. -/
def uint16? (text : List Char) : Option UInt16 :=
  let value :=
    match text with
    | '-' :: digits => (digits? digits).filter (· = 0)
    | '+' :: digits => digits? digits
    | digits => digits? digits
  (value.filter (· < 65536)).map UInt16.ofNat

/-- The relay that `workerDomain` names (lines 104–106), if any. -/
def relayAddress (workerDomain : String) : Option (String × UInt16) :=
  match splitColon workerDomain.toList with
  | [host, port] => (uint16? port).map (String.ofList host, ·)
  | _ => none

/-- A text is colons, a piece without colons, and what a colon behind it leaves. -/
theorem exists_pieces (text : List Char) : ∃ colons piece, ':' ∉ piece ∧
    (text = List.replicate colons ':' ++ piece ∨
      piece ≠ [] ∧ ∃ rest, text = List.replicate colons ':' ++ (piece ++ ':' :: rest)) := by
  induction text with
  | nil => exact ⟨0, [], by simp, Or.inl rfl⟩
  | cons c text ih =>
    by_cases hc : c = ':'
    · obtain ⟨colons, piece, hpiece, rfl | ⟨hne, rest, rfl⟩⟩ := ih
      · exact ⟨colons + 1, piece, hpiece, Or.inl (by simp [hc, List.replicate_succ])⟩
      · exact ⟨colons + 1, piece, hpiece, Or.inr ⟨hne, rest, by simp [hc, List.replicate_succ]⟩⟩
    · by_cases hmem : ':' ∈ text
      · obtain ⟨piece, rest, rfl, hpiece⟩ := List.eq_append_cons_of_mem hmem
        exact ⟨0, c :: piece, by simp [Ne.symm hc, hpiece], Or.inr ⟨by simp, rest, by simp⟩⟩
      · exact ⟨0, c :: text, by simp [Ne.symm hc, hmem], Or.inl (by simp)⟩

theorem splitColon_cut (colons : ℕ) {piece rest : List Char} (hpiece : ':' ∉ piece)
    (hne : piece ≠ []) (hrest : rest.head? = some ':' ∨ rest = []) :
    splitColon (List.replicate colons ':' ++ (piece ++ rest)) =
      [piece, rest.drop 1].filter (· ≠ []) := by
  have hskip : (List.replicate colons ':' ++ (piece ++ rest)).dropWhile (· = ':') =
      piece ++ rest := by
    rw [List.dropWhile_append_of_pos (by simp)]
    obtain ⟨c, piece, rfl⟩ := List.exists_cons_of_ne_nil hne
    have hc : c ≠ ':' := fun hc => hpiece (by simp [hc])
    simp [hc]
  have hall (c : Char) (hc : c ∈ piece) : decide (c ≠ ':') = true := by
    simpa using fun heq : c = ':' => hpiece (heq ▸ hc)
  have hstop : rest.takeWhile (· ≠ ':') = [] ∧ rest.dropWhile (· ≠ ':') = rest := by
    cases rest with
    | nil => simp
    | cons c rest => simp_all
  unfold splitColon
  dsimp only
  rw [hskip, List.takeWhile_append_of_pos hall, List.dropWhile_append_of_pos hall, hstop.1, hstop.2,
    List.append_nil]

theorem splitColon_colons (colons : ℕ) : splitColon (List.replicate colons ':') = [] := by
  have hskip : (List.replicate colons ':').dropWhile (· = ':') = [] := by simp
  unfold splitColon
  rw [hskip]
  rfl

/-- Two pieces are what stands before and behind the first colon after a
non-empty piece. -/
theorem splitColon_eq {text host port : List Char} : splitColon text = [host, port] ↔
    ∃ colons, text = List.replicate colons ':' ++ (host ++ ':' :: port) ∧ host ≠ [] ∧
      ':' ∉ host ∧ port ≠ [] := by
  constructor
  · intro h
    obtain ⟨colons, piece, hpiece, rfl | ⟨hne, rest, rfl⟩⟩ := exists_pieces text
    · by_cases hne : piece = []
      · rw [hne, List.append_nil, splitColon_colons] at h
        cases h
      · have hone := @splitColon_cut colons piece [] hpiece hne (Or.inr rfl)
        rw [List.append_nil] at hone
        simp [hone, hne] at h
    · rw [splitColon_cut colons hpiece hne (Or.inl rfl)] at h
      by_cases hrest : rest = []
      · simp [hne, hrest] at h
      · simp only [List.drop_succ_cons, List.drop_zero, ne_eq, hne, hrest, not_false_eq_true,
          decide_true, List.filter_cons_of_pos, List.filter_nil, List.cons.injEq, and_true] at h
        obtain ⟨rfl, rfl⟩ := h
        exact ⟨colons, rfl, hne, hpiece, hrest⟩
  · rintro ⟨colons, rfl, hhost, hcolon, hport⟩
    rw [splitColon_cut colons hcolon hhost (Or.inl rfl)]
    simp [hhost, hport]

/-- A field names a relay where a colon stands between a host and a port; colons
before the host do not count. -/
theorem relayAddress_iff {workerDomain host : String} {port : UInt16} :
    relayAddress workerDomain = some (host, port) ↔
      ∃ colons text, workerDomain.toList =
          List.replicate colons ':' ++ (host.toList ++ ':' :: text) ∧
        host ≠ "" ∧ ':' ∉ host.toList ∧ uint16? text = some port := by
  have hempty : uint16? [] = none := rfl
  constructor
  · intro h
    unfold relayAddress at h
    split at h
    · rename_i first text hsplit
      obtain ⟨colons, htext, hfirst, hcolon, -⟩ := splitColon_eq.mp hsplit
      obtain ⟨port', hport, heq⟩ := Option.map_eq_some_iff.mp h
      obtain ⟨rfl, rfl⟩ := Prod.mk.inj heq
      refine ⟨colons, text, ?_, ?_, ?_, hport⟩
      · rw [htext, String.toList_ofList]
      · intro hempty
        apply hfirst
        rw [← String.toList_ofList (l := first), hempty, String.toList_empty]
      · rwa [String.toList_ofList]
    · cases h
  · rintro ⟨colons, text, htext, hhost, hcolon, hport⟩
    have hsplit : splitColon workerDomain.toList = [host.toList, text] := by
      refine splitColon_eq.mpr ⟨colons, htext, ?_, hcolon, ?_⟩
      · exact fun hempty => hhost (String.toList_inj.mp hempty)
      · rintro rfl
        rw [hempty] at hport
        cases hport
    unfold relayAddress
    rw [hsplit]
    simp [hport]

theorem uint16?_toDigits (port : UInt16) :
    uint16? (Nat.toDigits 10 port.toNat) = some port := by
  have hdigit (c : Char) (hc : c ∈ Nat.toDigits 10 port.toNat) : c.isDigit :=
    Nat.isDigit_of_mem_toDigits (by decide) (by decide) hc
  have hdigits : digits? (Nat.toDigits 10 port.toNat) = some port.toNat := by
    unfold digits?
    rw [if_pos ⟨Nat.toDigits_ne_nil, List.all_eq_true.mpr hdigit⟩, Nat.ofDigitChars_ten_toDigits]
  unfold uint16?
  split
  · rename_i digits heq
    exact absurd (hdigit '-' (by simp [heq])) (by decide)
  · rename_i digits heq
    exact absurd (hdigit '+' (by simp [heq])) (by decide)
  · have hlt : port.toNat < 65536 := port.toNat_lt
    dsimp only
    rw [hdigits, Option.filter_some, if_pos (decide_eq_true hlt), Option.map_some,
      UInt16.ofNat_toNat]

/-- The address of a relay is read back. -/
theorem relayAddress_hostPort {host : String} (port : UInt16) (hhost : host ≠ "")
    (hcolon : ':' ∉ host.toList) :
    relayAddress (host ++ ":" ++ toString port) = some (host, port) := by
  refine relayAddress_iff.mpr ⟨0, Nat.toDigits 10 port.toNat, ?_, hhost, hcolon,
    uint16?_toDigits port⟩
  have hport : (toString port).toList = Nat.toDigits 10 port.toNat := Nat.toList_repr
  simp [hport]

example : relayAddress "worker.example.com" = none := by decide

/-! ## The data of the client -/

/-- A session with a relay at `address`, or with a worker, that has started its
pipe exactly where `started`. -/
structure Piped (session : TunnelSession) (address : Option (String × UInt16)) (started : Bool) :
    Prop where
  worker : ∃ workerDomain, session.workerDomain = some workerDomain ∧
    relayAddress workerDomain = address
  splitter : session.splitter = none
  connected : session.wsConnected = started
  ws : session.ws = started

/-- What such a session does with data. -/
theorem Piped.handleData {session : TunnelSession} {address : Option (String × UInt16)}
    {started : Bool} (h : Piped session address started) (ks : Keystream) (log : EventLog)
    (data : Bytes) :
    Piped (handleData ks ⟨session, log, []⟩ data).session address true ∧
      (handleData ks ⟨session, log, []⟩ data).session.dcIP = session.dcIP ∧
      ∃ workerDomain, relayAddress workerDomain = address ∧
        (handleData ks ⟨session, log, []⟩ data).effects =
          if started then [.send data]
          else [.startPipe workerDomain session.dcIP, .send data] := by
  obtain ⟨workerDomain, hworker, haddress⟩ := h.worker
  unfold TunnelSession.handleData
  dsimp only
  rw [hworker]
  cases started with
  | false =>
    simp only [h.connected, Bool.false_eq_true, if_false, TunnelSession.startPipe,
      TunnelSession.forwardToWS, and_self, if_true, h.splitter]
    exact ⟨⟨h.worker, rfl, rfl, rfl⟩, trivial, workerDomain, haddress, rfl⟩
  | true =>
    simp only [h.connected, h.ws, if_true, TunnelSession.forwardToWS, and_self, h.splitter]
    exact ⟨⟨h.worker, h.splitter, h.connected, h.ws⟩, trivial, workerDomain, haddress, rfl⟩

end WSBridge
