import WSBridge.Foundation.Runs

/-!
# The journal (`Tunnel/EventLog.swift`)

The extension keeps its last 200 lines, and writes them to a file after every
20th and on request. After a crash the next process reads the file before its
first line and hands it out in front of its own. A `Journal` is the file with
the static fields of the process that runs.

Assumed of the file system: a write replaces the whole file or does nothing
(`atomically`), and a crash leaves the file alone. `fmt` is the date formatter.

Results:
* `journal_run`: in every run, crashes included, the journal shows the last 200
  lines of the process behind what one earlier flush wrote, the file is what
  one flush wrote of one process, and a crash loses fewer than 20 lines unless
  the last write has failed.
-/

namespace WSBridge

open WSBridge.Foundation

/-- A line: its name, and when it was appended. -/
abbrev LogLine : Type := String × ℕ

/-- The last 200 of a row. -/
def last200 (lines : List LogLine) : List LogLine := lines.drop (lines.length - 200)

/-- `entries.map { … }.joined(separator: "\n")` (lines 56 and 62). -/
def render (fmt : ℕ → String) (lines : List LogLine) : String :=
  "\n".intercalate (lines.map fun line => fmt line.2 ++ " " ++ line.1)

/-- The text of a run behind that of an earlier one (lines 63–64). -/
def bothRuns (prevRun cur : String) : String :=
  if prevRun.isEmpty then cur
  else "=== PREV RUN ===\n" ++ prevRun ++ "\n=== CURRENT RUN ===\n" ++ cur

/-- The journal of a process, its file, and what became of earlier processes. -/
structure Journal where
  entries : List LogLine := []
  prevRun : String := ""
  unflushed : ℕ := 0
  /-- The contents of `fileURL`, if there is a file. -/
  file : Option String := none
  /-- History: the number of this process. -/
  process : ℕ := 0
  /-- History: the lines each process has appended. -/
  logs : ℕ → List LogLine := fun _ => []
  /-- History: the process that has written the file, and after how many lines. -/
  stored : Option (ℕ × ℕ) := none
  /-- History: the same of the file that `prevRun` was read from. -/
  loaded : Option (ℕ × ℕ) := none
  /-- History: the last write of this process has failed. -/
  failed : Bool := false

/-- A call of the journal, or the death of its process. -/
inductive JournalEvent where
  /-- `loadPrevious()`; `ok` says whether the file can be read. -/
  | loadPrevious (ok : Bool)
  /-- `append(_:)` at a time; `ok` says whether a write succeeds. -/
  | append (name : String) (date : ℕ) (ok : Bool)
  | flush (ok : Bool)
  /-- The process dies, and another one starts. -/
  | crash
  deriving DecidableEq, Repr

namespace Journal

/-- `flushLocked()` (lines 54–58). -/
def flushLocked (fmt : ℕ → String) (j : Journal) (ok : Bool) : Journal :=
  let j := { j with unflushed := 0, failed := !ok }
  if ok then
    { j with
      file := some (render fmt j.entries)
      stored := some (j.process, (j.logs j.process).length) }
  else j

/-- `append(_:)` (lines 39–47). -/
def append (fmt : ℕ → String) (j : Journal) (name : String) (date : ℕ) (ok : Bool) : Journal :=
  let entries := j.entries ++ [(name, date)]
  let j := { j with
    entries := if 200 < entries.length then entries.drop (entries.length - 200) else entries
    unflushed := j.unflushed + 1
    logs := Function.update j.logs j.process (j.logs j.process ++ [(name, date)]) }
  if 20 ≤ j.unflushed then j.flushLocked fmt ok else j

/-- `loadPrevious()` (lines 34–37). -/
def loadPrevious (j : Journal) (ok : Bool) : Journal :=
  if ok then { j with prevRun := j.file.getD "", loaded := j.stored }
  else { j with prevRun := "", loaded := none }

/-- `journal()` (lines 60–65). -/
def journal (fmt : ℕ → String) (j : Journal) : String :=
  bothRuns j.prevRun (render fmt j.entries)

/-- A process dies. -/
def crash (j : Journal) : Journal :=
  { file := j.file, process := j.process + 1, logs := j.logs, stored := j.stored }

/-- The state an event leads to; every event can always happen. -/
def step (fmt : ℕ → String) (j : Journal) : JournalEvent → Option Journal
  | .loadPrevious ok => some (j.loadPrevious ok)
  | .append name date ok => some (j.append fmt name date ok)
  | .flush ok => some (j.flushLocked fmt ok)
  | .crash => some j.crash

/-- What a flush of a process wrote, for the two numbers in `stored`. -/
def textOf (fmt : ℕ → String) (j : Journal) (flush : ℕ × ℕ) : String :=
  render fmt (last200 ((j.logs flush.1).take flush.2))

/-- The number of lines of this process that its last flush has seen. -/
def saved (j : Journal) : ℕ :=
  match j.stored with
  | some (p, n) => if p = j.process then n else 0
  | none => 0

/-- What a reader of the journal and of its file can rely on. -/
structure Kept (fmt : ℕ → String) (j : Journal) : Prop where
  /-- The last 200 lines of this process, behind what an earlier flush has written. -/
  text : j.journal fmt = bothRuns ((j.loaded.map (j.textOf fmt)).getD "")
    (render fmt (last200 (j.logs j.process)))
  /-- The file is what one flush of one process has written. -/
  file : j.file = j.stored.map (j.textOf fmt)
  /-- A crash now loses fewer than 20 lines, if the last write has not failed. -/
  lost : j.failed = false → (j.logs j.process).length < j.saved + 20

/-- What also holds between the two parts of `append`. -/
structure Sound (fmt : ℕ → String) (j : Journal) : Prop where
  entries : j.entries = last200 (j.logs j.process)
  file : j.file = j.stored.map (j.textOf fmt)
  prevRun : j.prevRun = (j.loaded.map (j.textOf fmt)).getD ""
  unflushed : j.failed = false → (j.logs j.process).length = j.saved + j.unflushed
  stored : ∀ p n, j.stored = some (p, n) → p ≤ j.process ∧ n ≤ (j.logs p).length
  loaded : ∀ p n, j.loaded = some (p, n) → n ≤ (j.logs p).length
  later : ∀ p, j.process < p → j.logs p = []

end Journal

/-- Appending to the last 200 lines and dropping what is too much. -/
theorem last200_concat (lines : List LogLine) (line : LogLine) :
    last200 (lines ++ [line]) =
      if 200 < (last200 lines ++ [line]).length then
        (last200 lines ++ [line]).drop ((last200 lines ++ [line]).length - 200)
      else last200 lines ++ [line] := by
  have hlength : (last200 lines ++ [line]).length = lines.length - (lines.length - 200) + 1 := by
    simp [last200]
  have hall : last200 (lines ++ [line]) = lines.drop (lines.length + 1 - 200) ++ [line] := by
    unfold last200
    rw [List.length_append, List.length_singleton, List.drop_append_of_le_length (by omega)]
  rw [hlength, hall]
  unfold last200
  split_ifs with h
  · rw [List.drop_append_of_le_length (by rw [List.length_drop]; omega), List.drop_drop]
    have hcount : lines.length + 1 - 200 =
        lines.length - 200 + (lines.length - (lines.length - 200) + 1 - 200) := by omega
    rw [hcount]
  · have hcount : lines.length + 1 - 200 = lines.length - 200 := by omega
    rw [hcount]

namespace Journal

section

variable {fmt : ℕ → String} {j j' : Journal}

/-- A flush of an earlier time reads the same lines after one more was appended. -/
theorem textOf_append {p n : ℕ} (h : n ≤ (j.logs p).length) (line : LogLine)
    (hlogs : j'.logs = Function.update j.logs j.process (j.logs j.process ++ [line])) :
    j'.textOf fmt (p, n) = j.textOf fmt (p, n) := by
  unfold textOf
  rw [hlogs]
  by_cases hp : p = j.process
  · subst hp
    rw [Function.update_self, List.take_append_of_le_length h]
  · rw [Function.update_of_ne hp]

theorem saved_own {n : ℕ} (h : j.stored = some (j.process, n)) : j.saved = n := by
  unfold saved
  rw [h]
  exact if_pos rfl

theorem saved_other (h : ∀ p n, j.stored = some (p, n) → p ≠ j.process) : j.saved = 0 := by
  unfold saved
  cases hstored : j.stored with
  | none => rfl
  | some flush => exact if_neg (h flush.1 flush.2 hstored)

theorem Sound.flushLocked (h : j.Sound fmt) (ok : Bool) :
    (j.flushLocked fmt ok).Sound fmt ∧ (j.flushLocked fmt ok).unflushed < 20 := by
  unfold Journal.flushLocked
  dsimp only
  split_ifs with hok
  · refine ⟨⟨h.entries, ?_, h.prevRun, fun _ => ?_, ?_, h.loaded, h.later⟩, Nat.zero_lt_succ _⟩
    · show some (render fmt j.entries) =
        some (render fmt (last200 ((j.logs j.process).take (j.logs j.process).length)))
      rw [List.take_length, h.entries]
    · rw [saved_own rfl]
      rfl
    · intro p n hpn
      obtain ⟨rfl, rfl⟩ := Prod.mk.inj (Option.some.inj hpn)
      exact ⟨le_rfl, le_rfl⟩
  · refine ⟨⟨h.entries, h.file, h.prevRun, fun hfailed => ?_, h.stored, h.loaded, h.later⟩,
      Nat.zero_lt_succ _⟩
    exact absurd (Bool.not_eq_eq_eq_not.mp hfailed) hok

/-- A line is appended, and not flushed yet. -/
theorem Sound.grow (h : j.Sound fmt) (line : LogLine) {entries : List LogLine}
    (hentries : entries = last200 (j.logs j.process ++ [line])) :
    ({ j with
      entries, unflushed := j.unflushed + 1
      logs := Function.update j.logs j.process (j.logs j.process ++ [line]) } : Journal).Sound
        fmt := by
  have hself : Function.update j.logs j.process (j.logs j.process ++ [line]) j.process =
      j.logs j.process ++ [line] := Function.update_self ..
  have hlonger (p : ℕ) : (j.logs p).length ≤
      (Function.update j.logs j.process (j.logs j.process ++ [line]) p).length := by
    by_cases hp : p = j.process
    · subst hp
      simp
    · rw [Function.update_of_ne hp]
  have htext (flush : Option (ℕ × ℕ)) (hbound : ∀ p n, flush = some (p, n) → n ≤ (j.logs p).length)
      (j' : Journal)
      (hlogs : j'.logs = Function.update j.logs j.process (j.logs j.process ++ [line])) :
      flush.map (j'.textOf fmt) = flush.map (j.textOf fmt) := by
    cases flush with
    | none => simp only [Option.map_none]
    | some flush => exact congrArg some (textOf_append (hbound _ _ rfl) line hlogs)
  refine ⟨?_, ?_, ?_, fun hfailed => ?_, ?_, ?_, ?_⟩
  · show entries =
      last200 (Function.update j.logs j.process (j.logs j.process ++ [line]) j.process)
    rw [hself, hentries]
  · rw [htext j.stored (fun p n hpn => (h.stored p n hpn).2) _ rfl]
    exact h.file
  · rw [htext j.loaded h.loaded _ rfl]
    exact h.prevRun
  · show (Function.update j.logs j.process (j.logs j.process ++ [line]) j.process).length =
      j.saved + (j.unflushed + 1)
    rw [hself, List.length_append, List.length_singleton, h.unflushed hfailed, Nat.add_assoc]
  · exact fun p n hpn => (h.stored p n hpn).imp_right fun hn => hn.trans (hlonger p)
  · exact fun p n hpn => (h.loaded p n hpn).trans (hlonger p)
  · intro p hp
    have hne : p ≠ j.process := fun heq => absurd heq (Nat.ne_of_gt hp)
    show Function.update j.logs j.process (j.logs j.process ++ [line]) p = []
    rw [Function.update_of_ne hne]
    exact h.later p hp

theorem Sound.append (h : j.Sound fmt) (name : String) (date : ℕ) (ok : Bool) :
    (j.append fmt name date ok).Sound fmt ∧ (j.append fmt name date ok).unflushed < 20 := by
  have hentries := last200_concat (j.logs j.process) (name, date)
  rw [← h.entries] at hentries
  have hgrown := h.grow (name, date) hentries.symm
  unfold Journal.append
  dsimp only
  by_cases hfull : 20 ≤ j.unflushed + 1
  · rw [if_pos hfull]
    exact hgrown.flushLocked ok
  · rw [if_neg hfull]
    exact ⟨hgrown, not_le.mp hfull⟩

theorem Sound.loadPrevious (h : j.Sound fmt) (ok : Bool) : (j.loadPrevious ok).Sound fmt := by
  unfold Journal.loadPrevious
  split_ifs
  · exact ⟨h.entries, h.file, congrArg (·.getD "") h.file, h.unflushed, h.stored,
      fun p n hpn => (h.stored p n hpn).2, h.later⟩
  · exact ⟨h.entries, h.file, rfl, h.unflushed, h.stored, fun p n hpn => (by cases hpn), h.later⟩

theorem Sound.crash (h : j.Sound fmt) : j.crash.Sound fmt := by
  have hnew : j.logs (j.process + 1) = [] := h.later _ (Nat.lt_succ_self _)
  refine ⟨?_, h.file, rfl, fun _ => ?_, fun p n hpn => ?_, fun p n hpn => (by cases hpn),
    fun p hp => h.later p (Nat.lt_of_succ_lt hp)⟩
  · show [] = last200 (j.logs (j.process + 1))
    rw [hnew]
    rfl
  · have hsaved : j.crash.saved = 0 := saved_other fun p n hpn =>
      Nat.ne_of_lt (Nat.lt_succ_of_le (h.stored p n hpn).1)
    rw [hsaved]
    show (j.logs (j.process + 1)).length = 0
    rw [hnew, List.length_nil]
  · exact (h.stored p n hpn).imp_left Nat.le_succ_of_le

theorem Sound.step (h : j.Sound fmt) (hfew : j.unflushed < 20) {e : JournalEvent}
    (hstep : j.step fmt e = some j') : j'.Sound fmt ∧ j'.unflushed < 20 := by
  cases e with
  | loadPrevious ok =>
    obtain rfl := Option.some.inj hstep
    refine ⟨h.loadPrevious ok, ?_⟩
    unfold Journal.loadPrevious
    split_ifs
    · exact hfew
    · exact hfew
  | append name date ok =>
    obtain rfl := Option.some.inj hstep
    exact h.append name date ok
  | flush ok =>
    obtain rfl := Option.some.inj hstep
    exact h.flushLocked ok
  | crash =>
    obtain rfl := Option.some.inj hstep
    exact ⟨h.crash, Nat.zero_lt_succ _⟩

theorem sound_init (fmt : ℕ → String) : Sound fmt {} :=
  ⟨rfl, rfl, rfl, fun _ => rfl, fun _ _ h => (by cases h), fun _ _ h => (by cases h),
    fun _ _ => rfl⟩

end

end Journal

/-- In every run, crashes and failed writes included, the journal keeps what it
promises. -/
theorem journal_run (fmt : ℕ → String) (events : List JournalEvent) :
    EveryState (Journal.step fmt) (Journal.Kept fmt) {} events :=
  everyState_of_invariant (I := fun j => j.Sound fmt ∧ j.unflushed < 20)
    (fun _ _ _ h hstep => Journal.Sound.step h.1 h.2 hstep)
    (fun _ h => ⟨congrArg₂ bothRuns h.1.prevRun (congrArg (render fmt) h.1.entries), h.1.file,
      fun hfailed => (h.1.unflushed hfailed).trans_lt (Nat.add_lt_add_left h.2 _)⟩) events _
    ⟨Journal.sound_init fmt, Nat.zero_lt_succ _⟩

end WSBridge
