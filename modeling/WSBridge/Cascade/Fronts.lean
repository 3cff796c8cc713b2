import Mathlib.Data.List.Rotate
import WSBridge.Cascade.WSClient

/-!
# Fronts and endpoints (`Tunnel/CFDomains.swift`, `Tunnel/WSClient.swift`)

A cascade tries Cloudflare fronts, then the addresses of the gateway, then its
name. The fronts are the built-in ones and those of the last list the app has
passed on. An endpoint that is an address carries a `Host` header, and its
certificate is checked against the gateway's names instead of the address.

Results:
* `merge_spec`: a merged list begins with the built-in fronts, has no front
  twice, and none that is in neither list.
* `isIPv4_candidates`: the hosts that `GatewayTrust` takes for an address are
  those of the endpoints that carry a `Host` header.
-/

namespace WSBridge.Cascade

/-! ## `CFDomains` -/

/-- `builtinBases` (lines 13–34). -/
def builtinBases : List String :=
  ["pclead.co.uk", "offshor.co.uk", "cakeisalie.co.uk", "noskomnadzor.co.uk", "lovetrue.co.uk",
    "sorokdva.co.uk", "pyatdesyatdva.co.uk", "kartoshka.co.uk", "sorokodin.co.uk",
    "pyatdesyatodin.co.uk", "notelega.co.uk", "ebally.co.uk", "nebally.co.uk",
    "havegreatday.co.uk", "pomogite.co.uk", "fixtelega.co.uk", "sadnews.co.uk",
    "onedaychamp.co.uk", "stopblocking.co.uk", "nothingthere.co.uk"]

/-- The loop of `update` (lines 56–58). -/
def merge (merged newBases : List String) : List String :=
  newBases.foldl (fun merged d => if d ∈ merged then merged else merged ++ [d]) merged

/-- `update(_:)` (lines 52–60). -/
def updateBases (bases : Option (List String)) (newBases : List String) : Option (List String) :=
  if 3 ≤ newBases.length then some (merge builtinBases newBases) else bases

/-- The name of a front for a DC. -/
def front (dc : ℕ) (base : String) : String := "kws" ++ toString dc ++ "." ++ base

/-- `domains(dc:)` (lines 63–65). -/
def domains (bases : List String) (dc : ℕ) : List String := bases.map (front dc)

theorem front_injective (dc : ℕ) : Function.Injective (front dc) := by
  intro base base' h
  exact (String.append_right_inj _).mp h

/-- What `update` keeps of the two lists. -/
structure Merged (old newBases merged : List String) : Prop where
  nodup : merged.Nodup
  /-- The new fronts follow, in the order of their list. -/
  tail : ∃ more, merged = old ++ more ∧ more.Sublist newBases
  mem : ∀ base, base ∈ merged ↔ base ∈ old ∨ base ∈ newBases

theorem merge_spec {merged : List String} (h : merged.Nodup) (newBases : List String) :
    Merged merged newBases (merge merged newBases) := by
  induction newBases generalizing merged with
  | nil => exact ⟨h, ⟨[], by simp [merge], List.Sublist.refl _⟩, by simp [merge]⟩
  | cons d rest ih =>
    unfold merge
    rw [List.foldl_cons]
    split_ifs with hd
    · obtain ⟨hnodup, ⟨more, heq, hsub⟩, hmem⟩ := ih h
      refine ⟨hnodup, ⟨more, heq, hsub.cons d⟩, fun base => ?_⟩
      refine (hmem base).trans ?_
      rw [List.mem_cons]
      constructor
      · exact fun hor => hor.imp_right Or.inr
      · rintro (hold | rfl | hnew)
        · exact Or.inl hold
        · exact Or.inl hd
        · exact Or.inr hnew
    · have hconcat : (merged ++ [d]).Nodup := List.nodup_append.mpr
        ⟨h, List.nodup_singleton d, fun a ha b hb => by
          rw [List.mem_singleton] at hb
          rintro rfl
          exact hd (hb ▸ ha)⟩
      obtain ⟨hnodup, ⟨more, heq, hsub⟩, hmem⟩ := ih hconcat
      refine ⟨hnodup, ⟨d :: more, ?_, hsub.cons_cons d⟩, fun base => ?_⟩
      · exact heq.trans (by simp)
      · refine (hmem base).trans ?_
        simp only [List.mem_append, List.mem_cons, List.not_mem_nil, or_false, or_assoc]

/-! ## `connect` -/

/-- `gatewayIPs` (lines 24–26). -/
def gatewayIPs : List String :=
  ["149.154.167.220", "149.154.175.205", "149.154.167.99", "149.154.174.100"]

/-- `gwHost` (line 116). -/
def gwHost (dc : ℕ) (isMedia : Bool) : String :=
  "kws" ++ toString dc ++ (if isMedia then "-1.web.telegram.org" else ".web.telegram.org")

/-- `fronts` from place `start` on, round (line 123). -/
def rotated {α : Type*} (fronts : List α) (start : ℕ) : List α :=
  fronts.drop start ++ fronts.take start

/-- `endpoints` (lines 120–128 of `connect`), for the `rrStart` it begins with. -/
def candidates (bases : List String) (start dc : ℕ) (isMedia : Bool) : List Endpoint :=
  ((rotated (domains bases dc) start).take 6).map (⟨·, none⟩) ++
    gatewayIPs.map (⟨·, some (gwHost dc isMedia)⟩) ++ [⟨gwHost dc isMedia, none⟩]

/-! ## `GatewayTrust` -/

/-- The value of a row of decimal digits. -/
def decimal (digits : List Char) : ℕ :=
  digits.foldl (fun n c => 10 * n + (c.toNat - '0'.toNat)) 0

/-- `Int(_:)` does not return `nil`: a sign or none, then digits, within 64 bits. -/
def isInt : List Char → Bool
  | '-' :: digits => !digits.isEmpty && digits.all (·.isDigit) && decide (decimal digits ≤ 2 ^ 63)
  | '+' :: digits => !digits.isEmpty && digits.all (·.isDigit) && decide (decimal digits < 2 ^ 63)
  | digits => !digits.isEmpty && digits.all (·.isDigit) && decide (decimal digits < 2 ^ 63)

/-- `isIPv4` (lines 35–36). `split` leaves empty parts out. -/
def isIPv4 (host : String) : Bool :=
  let parts := (host.toList.splitOn '.').filter (· ≠ [])
  parts.length == 4 && parts.all isInt

/-- A host that begins with a letter is no address. -/
theorem isIPv4_of_letter {host : String} {rest : List Char} (h : host.toList = 'k' :: rest) :
    isIPv4 host = false := by
  have hcons : ('k' :: rest).splitOn '.' = (rest.splitOn '.').modifyHead ('k' :: ·) := by
    rw [List.splitOn_cons_eq_if_modifyHead, if_neg (by decide)]
  obtain ⟨part, parts, hparts⟩ := List.exists_cons_of_ne_nil (List.splitOn_ne_nil '.' rest)
  unfold isIPv4
  dsimp only
  rw [h, hcons, hparts, List.modifyHead_cons, List.filter_cons_of_pos (by simp), List.all_cons]
  have hletter : isInt ('k' :: part) = false := by simp [isInt]
  rw [hletter, Bool.false_and, Bool.and_false]

theorem isIPv4_gatewayIPs : ∀ host ∈ gatewayIPs, isIPv4 host = true := by decide

theorem isIPv4_domains {bases : List String} {dc : ℕ} {host : String}
    (h : host ∈ domains bases dc) : isIPv4 host = false := by
  obtain ⟨base, -, rfl⟩ := List.mem_map.mp h
  have hletter : (front dc base).toList =
      'k' :: 'w' :: 's' :: ((toString dc).toList ++ '.' :: base.toList) := by simp [front]
  exact isIPv4_of_letter hletter

theorem isIPv4_gwHost (dc : ℕ) (isMedia : Bool) : isIPv4 (gwHost dc isMedia) = false := by
  have hletter : (gwHost dc isMedia).toList = 'k' :: 'w' :: 's' :: ((toString dc).toList ++
      (if isMedia then "-1.web.telegram.org" else ".web.telegram.org").toList) := by
    simp [gwHost]
  exact isIPv4_of_letter hletter

theorem mem_rotated {α : Type*} {fronts : List α} {start : ℕ} {x : α} :
    x ∈ rotated fronts start ↔ x ∈ fronts := by
  unfold rotated
  rw [List.mem_append, or_comm, ← List.mem_append, List.take_append_drop]

/-- The certificate is checked against other names than the host exactly where
the request carries a `Host` header. -/
theorem isIPv4_candidates {bases : List String} {start dc : ℕ} {isMedia : Bool} {ep : Endpoint}
    (h : ep ∈ candidates bases start dc isMedia) : isIPv4 ep.host = ep.hostHeader.isSome := by
  unfold candidates at h
  rw [List.mem_append, List.mem_append, List.mem_singleton, List.mem_map, List.mem_map] at h
  rcases h with (⟨host, hhost, rfl⟩ | ⟨host, hhost, rfl⟩) | rfl
  · exact isIPv4_domains (mem_rotated.mp (List.mem_of_mem_take hhost))
  · exact isIPv4_gatewayIPs host hhost
  · exact isIPv4_gwHost dc isMedia

/-! ## The order of the fronts -/

/-- `rotated` is a rotation. -/
theorem rotated_eq {α : Type*} {fronts : List α} {start : ℕ} (h : start ≤ fronts.length) :
    rotated fronts start = fronts.rotate start :=
  (List.rotate_eq_drop_append_take h).symm

/-- A cascade begins with the fronts of six bases. -/
theorem candidates_fronts {bases : List String} (h : 6 ≤ bases.length) (start dc : ℕ)
    (isMedia : Bool) : ((candidates bases start dc isMedia).take 6).map (·.host) =
      ((rotated bases start).take 6).map (front dc) := by
  have hmap : rotated (domains bases dc) start = (rotated bases start).map (front dc) := by
    simp [rotated, domains]
  have hlength : (rotated bases start).length = bases.length := by
    simp only [rotated, List.length_append, List.length_drop, List.length_take]
    omega
  unfold candidates
  rw [hmap, List.append_assoc, List.take_append_of_le_length (by simp; omega),
    List.take_of_length_le (by simp), ← List.map_take, List.map_map, List.map_map]
  rfl

theorem builtinBases_nodup : builtinBases.Nodup := by decide

end WSBridge.Cascade
