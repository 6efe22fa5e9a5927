import Mathlib
import Dt.Jobs.StatusBatch

/-!
# Probe output that is cut off

The output of a probe can end anywhere. Up to the end of the mark nothing of it is read; behind it,
a missing line counts as one of its own, `LOST` for the token and `UNKNOWN` for the others, and the
last line is read as far as it goes.
-/

namespace Dt.Jobs

open Dt.Lib Dt.Dispatch Dt.Shell

/-! ## The text of a cut stream -/

/-- The first bytes of a text, decoded with `errors="replace"`: a letter the cut goes through is
replaced. -/
def cutText : List Char → Nat → List Char
  | [], _ => []
  | c :: cs, n =>
    if n = 0 then []
    else if c.utf8Size ≤ n then c :: cutText cs (n - c.utf8Size)
    else ['\uFFFD']

@[simp] theorem cutText_zero (l : List Char) : cutText l 0 = [] := by
  cases l <;> rfl

theorem cutText_ascii {l : List Char} (h : ∀ c ∈ l, c.utf8Size = 1) (rest : List Char) (n : Nat) :
    cutText (l ++ rest) n = if n ≤ l.length then l.take n else l ++ cutText rest (n - l.length) := by
  induction l generalizing n with
  | nil =>
    split
    · rename_i hle
      rw [Nat.le_zero.mp hle, cutText_zero]
      rfl
    · rfl
  | cons c l ih =>
    have hc : c.utf8Size = 1 := h c List.mem_cons_self
    have hl := ih fun c hc => h c (List.mem_cons_of_mem _ hc)
    cases n with
    | zero => rw [cutText_zero, if_pos (Nat.zero_le _), List.take_zero]
    | succ n =>
      rw [List.cons_append, cutText, if_neg n.succ_ne_zero, hc, if_pos (Nat.le_add_left 1 n),
        Nat.add_sub_cancel, hl]
      simp only [List.length_cons, Nat.add_le_add_iff_right, Nat.add_sub_add_right,
        List.take_succ_cons, List.cons_append, apply_ite (List.cons c)]

/-- A cut within the first line of a text, or behind its newline. -/
theorem cutText_line {l : List Char} (h : ∀ c ∈ l, c.utf8Size = 1) (rest : List Char) (n : Nat) :
    cutText (l ++ '\n' :: rest) n = l.take n ∧ n ≤ l.length ∨
      ∃ m, n = l.length + 1 + m ∧ cutText (l ++ '\n' :: rest) n = l ++ '\n' :: cutText rest m := by
  rw [cutText_ascii h]
  split
  · rename_i hle
    exact .inl ⟨rfl, hle⟩
  · rename_i hlt
    obtain ⟨m, rfl⟩ : ∃ m, n = l.length + 1 + m := ⟨n - l.length - 1, by omega⟩
    refine .inr ⟨m, rfl, ?_⟩
    have hrest : l.length + 1 + m - l.length = m + 1 := by omega
    have hnew : Char.utf8Size '\n' = 1 := by decide
    rw [hrest, cutText, if_neg m.succ_ne_zero, hnew, if_pos (Nat.le_add_left 1 m),
      Nat.add_sub_cancel]

theorem splitlines_take_line {l : List Char} (h : IsLine l) (n : Nat) :
    splitlines (l.take n) = if l.take n = [] then [] else [l.take n] := by
  split
  · rename_i hnil
    rw [hnil]
    rfl
  · rename_i hne
    exact splitlines_last (fun c hc => h c (List.mem_of_mem_take hc)) hne

/-! ## The record of a cut section -/

/-- The two callers of the parser: the probe of one job strips its output, a batch does not. -/
inductive Reader where
  | alone
  | batch
  deriving DecidableEq

def Reader.lines : Reader → List Char → List (List Char)
  | .alone, output => splitlines (strip output)
  | .batch, output => splitlines output

/-- The lines behind the mark. -/
def Reader.body (r : Reader) (text : List Char) : List (List Char) :=
  match r with
  | .alone => trimLines (splitlines text)
  | .batch => splitlines text

/-- Where the mark of a section ends. -/
def ProbeSection.markEnd (s : ProbeSection) : Nat := s.bootText.length + 1 + statusMark.length

/-- What stands behind the mark of a section that is cut after `n` bytes. -/
def ProbeSection.tail (s : ProbeSection) (n : Nat) : List Char :=
  cutText (unlines s.texts) (n - (s.markEnd + 1))

theorem ProbeSection.output_eq (s : ProbeSection) :
    s.output = s.bootText ++ '\n' :: (statusMark ++ '\n' :: unlines s.texts) := by
  simp [output, printed, unlines]

theorem ProbeSection.bootText_class (s : ProbeSection) :
    ∀ c ∈ s.bootText, (isAlnum c || c = '-') = true := by
  have hvalid := isBootId_bootText s
  simp only [isBootId, classRun, Bool.and_eq_true, List.all_eq_true] at hvalid
  exact hvalid.2

theorem ProbeSection.bootText_plain (s : ProbeSection) : '@' ∉ s.bootText :=
  fun hat => absurd (s.bootText_class _ hat) (by decide)

theorem ProbeSection.bootText_ascii (s : ProbeSection) : ∀ c ∈ s.bootText, c.utf8Size = 1 := by
  intro c hc
  have hclass := s.bootText_class c hc
  have hle : c.val ≤ 0x7f := by
    simp only [isAlnum, isDigit, Bool.or_eq_true, Bool.and_eq_true, decide_eq_true_eq, Char.le_def]
      at hclass
    rcases hclass with ((⟨-, h⟩ | ⟨-, h⟩) | ⟨-, h⟩) | rfl
    · exact UInt32.le_trans h (by decide)
    · exact UInt32.le_trans h (by decide)
    · exact UInt32.le_trans h (by decide)
    · decide
  exact Char.utf8Size_eq_one_iff.mpr hle

theorem statusMark_solid : ∀ c ∈ statusMark, isSpace c = false := by
  have hall : statusMark.all (fun c => !isSpace c) = true := by decide +kernel
  intro c hc
  simpa using List.all_eq_true.mp hall c hc

theorem statusMark_ascii : ∀ c ∈ statusMark, c.utf8Size = 1 := by
  have hall : statusMark.all (fun c => c.utf8Size = 1) = true := by decide +kernel
  intro c hc
  simpa using List.all_eq_true.mp hall c hc

/-- The lines of a cut section: they have the mark when the cut is behind it. -/
theorem ProbeSection.splitlines_cut (s : ProbeSection) (n : Nat) :
    (n < s.markEnd ∧
        ∀ l ∈ splitlines (cutText s.output n), l ≠ statusMark ∧ ∀ c ∈ l, isSpace c = false) ∨
      s.markEnd ≤ n ∧
        splitlines (cutText s.output n) = s.bootText :: statusMark :: splitlines (s.tail n) := by
  have hboot := isLine_bootText s
  have hmark : IsLine statusMark := by decide
  rw [s.output_eq]
  rcases cutText_line s.bootText_ascii (statusMark ++ '\n' :: unlines s.texts) n with
    ⟨htake, hle⟩ | ⟨m, rfl, htake⟩
  · refine .inl ⟨?_, fun l hl => ?_⟩
    · unfold markEnd
      omega
    · rw [htake, splitlines_take_line hboot] at hl
      split at hl
      · cases hl
      · rw [List.mem_singleton.mp hl]
        refine ⟨fun heq => ?_, fun c hc => s.bootText_solid c (List.mem_of_mem_take hc)⟩
        -- the identity of a boot does not begin like the mark
        have hat : '@' ∈ s.bootText.take n := heq ▸ (by decide : '@' ∈ statusMark)
        exact s.bootText_plain (List.mem_of_mem_take hat)
  · have hfirst : ∀ rest, splitlines (s.bootText ++ '\n' :: rest) = s.bootText :: splitlines rest :=
      fun rest => splitlines_line hboot rest
    rw [htake, hfirst]
    rcases cutText_line statusMark_ascii (unlines s.texts) m with ⟨htake', hle⟩ | ⟨k, rfl, htake'⟩
    · rw [htake', splitlines_take_line hmark]
      by_cases hend : m = statusMark.length
      · subst hend
        have hnil : s.tail (s.bootText.length + 1 + statusMark.length) = [] := by
          simp [tail, markEnd]
        refine .inr ⟨Nat.le_refl _, ?_⟩
        rw [List.take_length, if_neg (by decide), hnil]
        rfl
      · refine .inl ⟨?_, fun l hl => ?_⟩
        · unfold markEnd
          omega
        · rcases List.mem_cons.mp hl with rfl | hl
          · exact ⟨bootText_ne_mark s, s.bootText_solid⟩
          · split at hl
            · cases hl
            · rw [List.mem_singleton.mp hl]
              refine ⟨fun heq => ?_, fun c hc => statusMark_solid c (List.mem_of_mem_take hc)⟩
              have hlen := congrArg List.length heq
              rw [List.length_take] at hlen
              omega
    · have htail : s.tail (s.bootText.length + 1 + (statusMark.length + 1 + k)) =
          cutText (unlines s.texts) k := by
        unfold tail markEnd
        congr 1
        omega
      refine .inr ⟨?_, ?_⟩
      · unfold markEnd
        omega
      · rw [htake', htail, splitlines_line hmark]

/-- The lines of the whole section. -/
theorem ProbeSection.splitlines_output (s : ProbeSection) :
    splitlines s.output = s.bootText :: statusMark :: splitlines (unlines s.texts) := by
  have hmark : IsLine statusMark := by decide
  rw [s.output_eq, splitlines_line (isLine_bootText s), splitlines_line hmark]

theorem parseStatusProbe_none {float : List Char → Option Time} {tokens : List (List Char)}
    (h : statusMark ∉ tokens) : parseStatusProbe float tokens = none := by
  have hfind : tokens.findIdx? (· = statusMark) = none := by
    rw [List.findIdx?_eq_none_iff]
    exact fun l hl => decide_eq_false fun heq => h (heq ▸ hl)
  rw [parseStatusProbe, hfind]

theorem rstrip_solid {l : List Char} (h : ∀ c ∈ l, isSpace c = false) : rstrip l = l := by
  have hsame : l.reverse.dropWhile isSpace = l.reverse := by
    cases hrev : l.reverse with
    | nil => rfl
    | cons c rest =>
      have hc := h c (List.mem_reverse.mp (hrev ▸ List.mem_cons_self))
      rw [List.dropWhile_cons_of_neg (by simp [hc])]
  rw [rstrip, hsame, List.reverse_reverse]

theorem mem_of_trimLines {ls : List (List Char)} (h : ∀ l ∈ ls, ∀ c ∈ l, isSpace c = false)
    {l : List Char} (hl : l ∈ trimLines ls) : l ∈ ls := by
  induction ls with
  | nil => exact hl
  | cons x ls ih =>
    have hx := rstrip_solid (h x List.mem_cons_self)
    rw [trimLines, hx] at hl
    split at hl
    · split at hl
      · cases hl
      · rw [List.mem_singleton.mp hl]
        exact List.mem_cons_self
    · rcases List.mem_cons.mp hl with rfl | hl
      · exact List.mem_cons_self
      · exact List.mem_cons_of_mem _ (ih (fun l hl => h l (List.mem_cons_of_mem _ hl)) hl)

theorem strip_of_bootText (s : ProbeSection) (rest : List Char) :
    strip (s.bootText ++ rest) = rstrip (s.bootText ++ rest) := by
  obtain ⟨c, boot, hboot, hspace⟩ := s.bootText_head
  rw [hboot, List.cons_append]
  exact strip_of_head hspace _

/-- A cut section begins like the boot of the node. -/
theorem strip_cut (s : ProbeSection) (n : Nat) :
    strip (cutText s.output n) = rstrip (cutText s.output n) := by
  rw [s.output_eq, cutText_ascii s.bootText_ascii]
  split
  · obtain ⟨c, boot, hboot, hspace⟩ := s.bootText_head
    cases n with
    | zero => rfl
    | succ n =>
      rw [hboot, List.take_succ_cons]
      exact strip_of_head hspace _
  · exact strip_of_bootText s _

/-- Stripping drops no line before a mark. -/
theorem trimLines_marked (boot : List Char) (body : List (List Char)) :
    trimLines (boot :: statusMark :: body) = boot :: statusMark :: trimLines body := by
  have hmark : rstrip statusMark = statusMark := rstrip_solid statusMark_solid
  have hne : statusMark ≠ [] := by decide
  rw [trimLines, trimLines, hmark]
  by_cases hnil : trimLines body = []
  · rw [if_pos hnil, if_neg hne, if_neg (by simp), hnil]
  · rw [if_neg hnil, if_neg (by simp)]

/-- What both callers parse of a cut section. -/
theorem Reader.lines_cut (r : Reader) (s : ProbeSection) (n : Nat) :
    (n < s.markEnd ∧ statusMark ∉ r.lines (cutText s.output n)) ∨
      s.markEnd ≤ n ∧
        r.lines (cutText s.output n) = s.bootText :: statusMark :: r.body (s.tail n) := by
  cases r with
  | batch =>
    rcases s.splitlines_cut n with ⟨hlt, hlines⟩ | h
    · exact .inl ⟨hlt, fun hmem => (hlines _ hmem).1 rfl⟩
    · exact .inr h
  | alone =>
    rw [lines, strip_cut, splitlines_rstrip]
    rcases s.splitlines_cut n with ⟨hlt, hlines⟩ | ⟨hle, hlines⟩
    · refine .inl ⟨hlt, fun hmem => ?_⟩
      exact (hlines _ (mem_of_trimLines (fun l hl => (hlines l hl).2) hmem)).1 rfl
    · refine .inr ⟨hle, ?_⟩
      rw [hlines, trimLines_marked, body]

/-- What both callers parse of the whole section. -/
theorem Reader.lines_output (r : Reader) (s : ProbeSection) :
    r.lines s.output = s.bootText :: statusMark :: r.body (unlines s.texts) := by
  cases r with
  | batch => exact s.splitlines_output
  | alone =>
    have hstrip : strip s.output = rstrip s.output := by
      rw [s.output_eq]
      exact strip_of_bootText s _
    rw [lines, hstrip, splitlines_rstrip, s.splitlines_output, trimLines_marked, body]

variable {float : List Char → Option Time}

/-- What the lines of a section say that arrive of its first `n` bytes. -/
def ProbeSection.left (float : List Char → Option Time) (r : Reader) (s : ProbeSection) (n : Nat) :
    StatusProbe :=
  recordOf float s.bootText (r.body (s.tail n))

/-- What all lines of a section say. -/
def ProbeSection.full (float : List Char → Option Time) (r : Reader) (s : ProbeSection) :
    StatusProbe :=
  recordOf float s.bootText (r.body (unlines s.texts))

theorem parse_cut (r : Reader) (s : ProbeSection) (n : Nat) :
    parseStatusProbe float (r.lines (cutText s.output n)) =
      if n < s.markEnd then none else some (s.left float r n) := by
  rcases r.lines_cut s n with ⟨hlt, hnone⟩ | ⟨hle, hlines⟩
  · rw [if_pos hlt, parseStatusProbe_none hnone]
  · rw [if_neg (Nat.not_lt.mpr hle), hlines, parseStatusProbe_lines (bootText_ne_mark s),
      ProbeSection.left]

theorem parse_output (r : Reader) (s : ProbeSection) :
    parseStatusProbe float (r.lines s.output) = some (s.full float r) := by
  rw [r.lines_output, parseStatusProbe_lines (bootText_ne_mark s), ProbeSection.full]

/-! ## What a record does to a row -/

/-- The token is a verdict on the process; any other one is the text of an exit code. -/
def StatusProbe.live (p : StatusProbe) : Bool :=
  p.token = "RUNNING" || p.token = "LOST" || p.token = "STALE" || p.token = "UNVERIFIED"

def StatusProbe.exitCode (p : StatusProbe) : Option Int :=
  (pyInt p.token.toList).filter fun code => 0 ≤ code && code ≤ 255

/-- The row is lost for good. -/
def finalized (e : JobEntry) : Bool := e.status = .lost && e.terminalFinalizedAt.isSome

theorem dependencySettled_lost {e : JobEntry} (h : finalized e = false) :
    (e.status = .lost && dependencySettled e) = false := by
  cases hstatus : decide (e.status = .lost) with
  | false => rfl
  | true =>
    have hlost := of_decide_eq_true hstatus
    have hnone : e.terminalFinalizedAt.isSome = false := by simpa [finalized, hlost] using h
    rw [Bool.true_and, dependencySettled]
    split
    · rfl
    · split
      · rfl
      · split
        · contradiction
        · exact hnone

/-- `applyStatusProbe` by the kinds of evidence. -/
theorem applyStatusProbe_eq (e : JobEntry) (p : StatusProbe) (stateDir : String) (now : Time) :
    applyStatusProbe e p stateDir now =
      if finalized e then none
      else if p.live = false then p.exitCode.map (markFinishedFromProbe e p · now)
      else if rebooted e p then
        some (markRebootedFromProbe e (e.bootId.getD "") (p.bootId.getD "") now)
      else if p.token = "RUNNING" then markRunningFromProbe e p.startedAt
      else if p.token = "UNVERIFIED" then none
      else markLostFromProbe e p.token stateDir now := by
  unfold applyStatusProbe
  split
  · rename_i hfinal
    exact (if_pos hfinal).symm
  · rename_i hfinal
    have hfinal' : finalized e = false := by simpa [finalized] using hfinal
    rw [hfinal', if_neg Bool.false_ne_true]
    split
    · rename_i hlive
      have hlive' : p.live = false := by simpa [StatusProbe.live] using hlive
      rw [if_pos hlive', StatusProbe.exitCode]
      cases pyInt p.token.toList with
      | none => rfl
      | some code =>
        cases hrange : (decide (0 ≤ code) && decide (code ≤ 255)) with
        | true => simp only [hrange, if_true, Option.filter_some, Option.map_some]
        | false => simp [hrange, Option.filter_some]
    · rename_i hlive
      have hlive' : ¬p.live = false := by simpa [StatusProbe.live] using hlive
      rw [if_neg hlive', dependencySettled_lost hfinal', if_neg Bool.false_ne_true]

/-- The result a finished row gets. -/
def finishedResult (code : Int) (p : StatusProbe) : ResultState :=
  (ResultState.ofText p.result).getD (if code = 0 then .success else .executionFailure)

/-- Two records finish a row in the same way. -/
structure SameFinish (e : JobEntry) (now : Time) (code : Int) (left full : StatusProbe) : Prop where
  started : left.startedAt.or e.startedAt = full.startedAt.or e.startedAt
  finished : orTime left.finishedAt now = orTime full.finishedAt now
  result : finishedResult code left = finishedResult code full

/-- A running row that live evidence does not change. -/
structure Unchanged (e : JobEntry) (left : StatusProbe) : Prop where
  status : e.status = .running
  started : left.startedAt.or e.startedAt = e.startedAt
  reason : e.reason = none ∨ startsWith (e.reason.getD "") cancelUnverifiedPrefix = true
  cleared : e.exitCode = none ∧ e.resultState = none ∧ e.finishedAt = none

/-- What the row is changed by is left of the record, or nothing that it is changed by. -/
inductive CutHarmless (e : JobEntry) (now : Time) (left full : StatusProbe) : Prop
  | finalized : finalized e = true → CutHarmless e now left full
  | garbled : left.live = false → left.exitCode = none → CutHarmless e now left full
  | exited (code : Int) : left.live = false → left.exitCode = some code → full.live = false →
      full.exitCode = some code → SameFinish e now code left full → CutHarmless e now left full
  | rebooted : left.live = true → rebooted e left = true → full.live = true →
      CutHarmless e now left full
  | unverified : rebooted e left = false → left.token = "UNVERIFIED" → CutHarmless e now left full
  | still : rebooted e left = false → left.token = "RUNNING" → Unchanged e left →
      CutHarmless e now left full
  | running : rebooted e left = false → left.token = "RUNNING" → full.token = "RUNNING" →
      left.startedAt.or e.startedAt = full.startedAt.or e.startedAt → CutHarmless e now left full
  | known : rebooted e left = false → left.token = "LOST" ∨ left.token = "STALE" →
      e.status = .lost → truthy e.reason = true → e.resultState = some .infraFailure →
      CutHarmless e now left full
  | lost : rebooted e left = false → left.token = "LOST" ∨ left.token = "STALE" →
      full.token = "LOST" ∨ full.token = "STALE" →
      left.token = full.token ∨ e.status = .lost ∧ truthy e.reason = true →
      CutHarmless e now left full

theorem started_or (p e : Option Time) : (if p.isSome then p else e) = p.or e := by
  cases p <;> rfl

theorem markFinished_eq_iff {e : JobEntry} {left full : StatusProbe} {code code' : Int} {now : Time} :
    markFinishedFromProbe e left code now = markFinishedFromProbe e full code' now ↔
      code = code' ∧ SameFinish e now code left full := by
  constructor
  · intro h
    have hcode : code = code' := Option.some.inj (congrArg JobEntry.exitCode h)
    subst hcode
    refine ⟨rfl, ?_, Option.some.inj (congrArg JobEntry.finishedAt h),
      Option.some.inj (congrArg JobEntry.resultState h)⟩
    rw [← started_or, ← started_or]
    exact congrArg JobEntry.startedAt h
  · rintro ⟨rfl, hstarted, hfinished, hresult⟩
    rw [← started_or, ← started_or] at hstarted
    unfold markFinishedFromProbe
    rw [hstarted, hfinished]
    unfold finishedResult at hresult
    rw [hresult]

theorem runningFromProbe_eq_self {e : JobEntry} {left : StatusProbe} :
    runningFromProbe e left.startedAt = e ↔ Unchanged e left := by
  constructor
  · intro h
    have hstatus : .running = e.status := congrArg JobEntry.status h
    have hreason := congrArg JobEntry.reason h
    simp only [runningFromProbe, ← hstatus, ne_eq, not_true_eq_false, if_false] at hreason
    refine ⟨hstatus.symm, ?_, ?_, (congrArg JobEntry.exitCode h).symm,
      (congrArg JobEntry.resultState h).symm, (congrArg JobEntry.finishedAt h).symm⟩
    · rw [← started_or]
      exact congrArg JobEntry.startedAt h
    · split at hreason
      · rename_i hprefix
        exact .inr hprefix
      · exact .inl hreason.symm
  · rintro ⟨hstatus, hstarted, hreason, hexit, hresult, hfinish⟩
    have hreason' : (if e.status ≠ .running then none
        else if startsWith (e.reason.getD "") cancelUnverifiedPrefix then e.reason else none) =
        e.reason := by
      rw [hstatus, if_neg (by simp)]
      rcases hreason with hnone | hprefix
      · rw [hnone]
        split <;> rfl
      · rw [if_pos hprefix]
    unfold runningFromProbe
    rw [started_or, hstarted, hreason', ← hstatus, ← hexit, ← hresult, ← hfinish]

theorem runningFromProbe_eq_iff {e : JobEntry} {left full : Option Time} :
    runningFromProbe e left = runningFromProbe e full ↔ left.or e.startedAt = full.or e.startedAt := by
  unfold runningFromProbe
  rw [started_or, started_or]
  exact ⟨fun h => congrArg JobEntry.startedAt h, fun h => by rw [h]⟩

/-- The two texts of a loss differ. -/
theorem lostReason_eq_iff (e : JobEntry) (stateDir token token' : String) :
    lostReason e token stateDir = lostReason e token' stateDir ↔
      (token = "STALE" ↔ token' = "STALE") := by
  have hne : lostReason e "STALE" stateDir ≠ lostReason e "LOST" stateDir := by
    intro h
    have hchars := congrArg String.toList h
    simp [lostReason, String.toList_append] at hchars
  have hother : ∀ t, t ≠ "STALE" → lostReason e t stateDir = lostReason e "LOST" stateDir := by
    intro t ht
    rw [lostReason, if_neg ht]
    exact (if_neg (by decide)).symm
  by_cases hleft : token = "STALE"
  · by_cases hright : token' = "STALE"
    · simp [hleft, hright]
    · rw [hleft, hother token' hright]
      exact iff_of_false hne fun h => hright (h.mp rfl)
  · by_cases hright : token' = "STALE"
    · rw [hright, hother token hleft]
      exact iff_of_false hne.symm fun h => hleft (h.mpr rfl)
    · rw [hother token hleft, hother token' hright]
      simp [hleft, hright]

def lossTokens (p : StatusProbe) : Prop := p.token = "LOST" ∨ p.token = "STALE"

theorem lossTokens_stale {left full : StatusProbe} (hleft : lossTokens left) (hfull : lossTokens full) :
    (left.token = "STALE" ↔ full.token = "STALE") ↔ left.token = full.token := by
  rcases hleft with hl | hl <;> rcases hfull with hf | hf <;> simp [hl, hf]

theorem markLost_eq_none_iff {e : JobEntry} {token stateDir : String} {now : Time} :
    markLostFromProbe e token stateDir now = none ↔
      e.status = .lost ∧ truthy e.reason = true ∧ e.resultState = some .infraFailure := by
  unfold markLostFromProbe
  split
  · rename_i hlost
    split
    · rename_i hknown
      simp only [Bool.and_eq_true, decide_eq_true_eq] at hknown
      exact iff_of_true rfl ⟨hlost, hknown⟩
    · rename_i hknown
      simp only [Bool.and_eq_true, decide_eq_true_eq] at hknown
      exact iff_of_false nofun fun h => hknown h.2
  · rename_i hlost
    exact iff_of_false nofun fun h => hlost h.1

/-- When two losses are reported in the same words. -/
theorem markLost_eq_iff {e e' : JobEntry} {stateDir : String} {now : Time} {left full : StatusProbe}
    (hleft : lossTokens left) (hfull : lossTokens full)
    (h : markLostFromProbe e left.token stateDir now = some e') :
    markLostFromProbe e full.token stateDir now = some e' ↔
      left.token = full.token ∨ e.status = .lost ∧ truthy e.reason = true := by
  have hreason := lostReason_eq_iff e stateDir left.token full.token
  rw [lossTokens_stale hleft hfull] at hreason
  rw [← h]
  have hnew : ¬(e.status = .lost ∧ truthy e.reason = true ∧ e.resultState = some .infraFailure) :=
    fun hknown => absurd (markLost_eq_none_iff.mpr hknown) (by rw [h]; nofun)
  unfold markLostFromProbe
  by_cases hlost : e.status = .lost
  · have hfresh : ¬(truthy e.reason && decide (e.resultState = some .infraFailure)) = true := by
      simpa [hlost] using hnew
    rw [if_pos hlost, if_pos hlost, if_neg hfresh, if_neg hfresh, Option.some.injEq]
    constructor
    · intro hrow
      have htext := congrArg JobEntry.reason hrow
      simp only [repairLost] at htext
      split at htext
      · rename_i htruthy
        exact .inr ⟨hlost, htruthy⟩
      · exact .inl (hreason.mp (Option.some.inj htext.symm))
    · rintro (htoken | ⟨-, htruthy⟩)
      · rw [htoken]
      · simp [repairLost, htruthy]
  · rw [if_neg hlost, if_neg hlost, Option.some.injEq]
    constructor
    · intro hrow
      exact .inl (hreason.mp (Option.some.inj (congrArg JobEntry.reason hrow.symm)))
    · rintro (htoken | ⟨h, -⟩)
      · rw [htoken]
      · exact absurd h hlost

theorem live_token {p : StatusProbe} (h : p.live = true) :
    p.token = "RUNNING" ∨ p.token = "UNVERIFIED" ∨ lossTokens p := by
  simp only [StatusProbe.live, Bool.or_eq_true, decide_eq_true_eq] at h
  unfold lossTokens
  tauto

theorem live_of_token {p : StatusProbe}
    (h : p.token = "RUNNING" ∨ p.token = "UNVERIFIED" ∨ lossTokens p) : p.live = true := by
  simp only [StatusProbe.live, Bool.or_eq_true, decide_eq_true_eq]
  unfold lossTokens at h
  tauto

/-- The status of the row that evidence of each kind leaves. -/
theorem applied_status {e e' : JobEntry} {p : StatusProbe} {stateDir : String} {now : Time}
    (hfinal : finalized e = false) (h : applyStatusProbe e p stateDir now = some e') :
    (p.live = false ∧ e'.status = .finished) ∨
      (p.token = "RUNNING" ∧ rebooted e p = false ∧ e'.status = .running) ∨
      (p.live = true ∧ (rebooted e p = true ∨ lossTokens p) ∧ e'.status = .lost) := by
  rw [applyStatusProbe_eq, if_neg (by rw [hfinal]; exact Bool.false_ne_true)] at h
  split at h
  · rename_i hlive
    obtain ⟨code, -, rfl⟩ := Option.map_eq_some_iff.mp h
    exact .inl ⟨hlive, rfl⟩
  · rename_i hlive
    rw [Bool.not_eq_false] at hlive
    split at h
    · rename_i hboot
      cases h
      exact .inr (.inr ⟨hlive, .inl hboot, rfl⟩)
    · rename_i hboot
      rw [Bool.not_eq_true] at hboot
      split at h
      · rename_i hrunning
        rw [markRunningFromProbe] at h
        split at h
        · cases h
        · cases h
          exact .inr (.inl ⟨hrunning, hboot, rfl⟩)
      · rename_i hrunning
        split at h
        · cases h
        · rename_i hunverified
          rcases live_token hlive with ht | ht | ht
          · exact absurd ht hrunning
          · exact absurd ht hunverified
          · refine .inr (.inr ⟨hlive, .inr ht, ?_⟩)
            rw [markLostFromProbe] at h
            split at h
            · rename_i hlost
              split at h
              · cases h
              · cases h
                exact hlost
            · cases h
              rfl

/-- Evidence of a running process. -/
theorem applied_running {e : JobEntry} {p : StatusProbe} {stateDir : String} {now : Time}
    (hfinal : finalized e = false) (hboot : rebooted e p = false) (h : p.token = "RUNNING") :
    applyStatusProbe e p stateDir now = markRunningFromProbe e p.startedAt := by
  have hlive := live_of_token (.inl h)
  rw [applyStatusProbe_eq, if_neg (by simp [hfinal]), if_neg (by simp [hlive]),
    if_neg (by simp [hboot]), if_pos h]

/-- Evidence of a loss. -/
theorem applied_loss {e : JobEntry} {p : StatusProbe} {stateDir : String} {now : Time}
    (hfinal : finalized e = false) (hboot : rebooted e p = false) (h : lossTokens p) :
    applyStatusProbe e p stateDir now = markLostFromProbe e p.token stateDir now := by
  have hlive := live_of_token (.inr (.inr h))
  have hne : p.token ≠ "RUNNING" ∧ p.token ≠ "UNVERIFIED" := by
    rcases h with h | h <;> simp [h]
  rw [applyStatusProbe_eq, if_neg (by simp [hfinal]), if_neg (by simp [hlive]),
    if_neg (by simp [hboot]), if_neg hne.1, if_neg hne.2]

/-- Evidence of another boot. -/
theorem applied_rebooted {e : JobEntry} {p : StatusProbe} {stateDir : String} {now : Time}
    (hfinal : finalized e = false) (hlive : p.live = true) (hboot : rebooted e p = true) :
    applyStatusProbe e p stateDir now =
      some (markRebootedFromProbe e (e.bootId.getD "") (p.bootId.getD "") now) := by
  rw [applyStatusProbe_eq, if_neg (by simp [hfinal]), if_neg (by simp [hlive]), if_pos hboot]

/-- Evidence of an exit. -/
theorem applied_exited {e : JobEntry} {p : StatusProbe} {stateDir : String} {now : Time}
    (hfinal : finalized e = false) (hlive : p.live = false) :
    applyStatusProbe e p stateDir now = p.exitCode.map (markFinishedFromProbe e p · now) := by
  rw [applyStatusProbe_eq, if_neg (by simp [hfinal]), if_pos hlive]

/-- What a record that keeps the row, or does what the complete one does, looks like. -/
theorem harmless_of_applied {e : JobEntry} {left full : StatusProbe} {stateDir : String} {now : Time}
    (hfinal : finalized e = false) (hsame : rebooted e left = rebooted e full)
    (h : applyStatusProbe e left stateDir now = none ∨
      applyStatusProbe e left stateDir now = applyStatusProbe e full stateDir now) :
    CutHarmless e now left full := by
  cases hlive : left.live with
  | false =>
    rw [applied_exited hfinal hlive] at h
    cases hcode : left.exitCode with
    | none => exact .garbled hlive hcode
    | some code =>
      rw [hcode, Option.map_some] at h
      have hfull := (h.resolve_left nofun).symm
      have hdead : full.live = false := by
        rcases applied_status hfinal hfull with hexit | ⟨-, -, hst⟩ | ⟨-, -, hst⟩
        · exact hexit.1
        · cases hst
        · cases hst
      rw [applied_exited hfinal hdead] at hfull
      obtain ⟨code', hcode', hrow⟩ := Option.map_eq_some_iff.mp hfull
      obtain ⟨rfl, hfinish⟩ := markFinished_eq_iff.mp hrow.symm
      exact .exited code hlive hcode hdead hcode' hfinish
  | true =>
    cases hboot : rebooted e left with
    | true =>
      rw [applied_rebooted hfinal hlive hboot] at h
      have hfull := (h.resolve_left nofun).symm
      rcases applied_status hfinal hfull with ⟨-, hst⟩ | ⟨-, -, hst⟩ | ⟨hlive', -, -⟩
      · cases hst
      · cases hst
      · exact .rebooted hlive hboot hlive'
    | false =>
      rcases live_token hlive with ht | ht | ht
      · rw [applied_running hfinal hboot ht] at h
        by_cases hstill : runningFromProbe e left.startedAt = e
        · exact .still hboot ht (runningFromProbe_eq_self.mp hstill)
        · have hleft : markRunningFromProbe e left.startedAt =
              some (runningFromProbe e left.startedAt) := if_neg hstill
          rw [hleft] at h
          have hfull := (h.resolve_left nofun).symm
          rcases applied_status hfinal hfull with ⟨-, hst⟩ | ⟨ht', -, -⟩ | ⟨-, -, hst⟩
          · cases hst
          · rw [applied_running hfinal (hsame ▸ hboot) ht', markRunningFromProbe] at hfull
            split at hfull
            · cases hfull
            · exact .running hboot ht ht'
                (runningFromProbe_eq_iff.mp (Option.some.inj hfull).symm)
          · cases hst
      · exact .unverified hboot ht
      · rw [applied_loss hfinal hboot ht] at h
        cases hleft : markLostFromProbe e left.token stateDir now with
        | none =>
          obtain ⟨hlost, hreason, hresult⟩ := markLost_eq_none_iff.mp hleft
          exact .known hboot ht hlost hreason hresult
        | some e' =>
          rw [hleft] at h
          have hfull := (h.resolve_left nofun).symm
          have hst : e'.status = .lost := by
            have hrow := (applied_loss hfinal hboot ht).trans hleft
            rcases applied_status hfinal hrow with ⟨hdead, -⟩ | ⟨hrun, -, -⟩ | ⟨-, -, hst⟩
            · rw [hdead] at hlive
              cases hlive
            · rcases ht with ht | ht <;> simp [ht] at hrun
            · exact hst
          rcases applied_status hfinal hfull with ⟨-, hst'⟩ | ⟨-, -, hst'⟩ | ⟨-, hkind, -⟩
          · rw [hst] at hst'
            cases hst'
          · rw [hst] at hst'
            cases hst'
          · have ht' : lossTokens full := hkind.resolve_left (by simp [← hsame, hboot])
            rw [applied_loss hfinal (hsame ▸ hboot) ht'] at hfull
            exact .lost hboot ht ht' ((markLost_eq_iff ht ht' hleft).mp hfull)

/-- A cut record keeps the row or does what the complete one does, exactly when it is harmless. -/
theorem cut_harmless_iff {e : JobEntry} {left full : StatusProbe} (stateDir : String) (now : Time)
    (hboot : left.bootId = full.bootId) :
    (applyStatusProbe e left stateDir now = none ∨
        applyStatusProbe e left stateDir now = applyStatusProbe e full stateDir now) ↔
      CutHarmless e now left full := by
  have hsame : rebooted e left = rebooted e full := by rw [rebooted, rebooted, hboot]
  cases hfinal : finalized e with
  | true =>
    have hnone : applyStatusProbe e left stateDir now = none := by
      rw [applyStatusProbe_eq, if_pos hfinal]
    exact iff_of_true (.inl hnone) (.finalized hfinal)
  | false =>
    refine ⟨harmless_of_applied hfinal hsame, fun h => ?_⟩
    cases h with
    | finalized h => exact absurd (hfinal.symm.trans h) Bool.false_ne_true
    | garbled hlive hcode =>
      refine .inl ?_
      rw [applied_exited hfinal hlive, hcode, Option.map_none]
    | exited code hlive hcode hlive' hcode' hfinish =>
      refine .inr ?_
      rw [applied_exited hfinal hlive, applied_exited hfinal hlive', hcode, hcode', Option.map_some,
        Option.map_some, markFinished_eq_iff.mpr ⟨rfl, hfinish⟩]
    | rebooted hlive hb hlive' =>
      refine .inr ?_
      rw [applied_rebooted hfinal hlive hb, applied_rebooted hfinal hlive' (hsame ▸ hb), hboot]
    | unverified hb ht =>
      refine .inl ?_
      have hlive := live_of_token (.inr (.inl ht))
      rw [applyStatusProbe_eq, if_neg (by simp [hfinal]), if_neg (by simp [hlive]),
        if_neg (by simp [hb]), if_neg (by simp [ht]), if_pos ht]
    | still hb ht hkeep =>
      refine .inl ?_
      rw [applied_running hfinal hb ht, markRunningFromProbe,
        if_pos (runningFromProbe_eq_self.mpr hkeep)]
    | running hb ht ht' hstarted =>
      refine .inr ?_
      rw [applied_running hfinal hb ht, applied_running hfinal (hsame ▸ hb) ht',
        markRunningFromProbe, markRunningFromProbe, runningFromProbe_eq_iff.mpr hstarted]
    | known hb ht hlost hreason hresult =>
      refine .inl ?_
      rw [applied_loss hfinal hb ht]
      exact markLost_eq_none_iff.mpr ⟨hlost, hreason, hresult⟩
    | lost hb ht ht' hwords =>
      rw [applied_loss hfinal hb ht, applied_loss hfinal (hsame ▸ hb) ht']
      cases hleft : markLostFromProbe e left.token stateDir now with
      | none => exact .inl rfl
      | some e' => exact .inr ((markLost_eq_iff ht ht' hleft).mpr hwords).symm

/-! ## A section that is cut off -/

/-- The transition that a parsed text makes; `none` leaves the row as it is. -/
def applied (e : JobEntry) (stateDir : String) (now : Time) (probe : Option StatusProbe) :
    Option JobEntry :=
  probe.bind fun p => applyStatusProbe e p stateDir now

/-- A section that is cut off keeps the row, or makes the transition of the whole section, exactly
when the cut is before the end of the mark or harmless to the row. -/
theorem cut_safe_iff (float : List Char → Option Time) (r : Reader) (s : ProbeSection) (n : Nat)
    (e : JobEntry) (stateDir : String) (now : Time) :
    (applied e stateDir now (parseStatusProbe float (r.lines (cutText s.output n))) = none ∨
        applied e stateDir now (parseStatusProbe float (r.lines (cutText s.output n))) =
          applied e stateDir now (parseStatusProbe float (r.lines s.output))) ↔
      n < s.markEnd ∨ CutHarmless e now (s.left float r n) (s.full float r) := by
  rw [parse_cut, parse_output]
  by_cases hmark : n < s.markEnd
  · rw [if_pos hmark]
    exact iff_of_true (.inl rfl) (.inl hmark)
  · rw [if_neg hmark]
    simp only [hmark, false_or, applied, Option.bind_some]
    exact cut_harmless_iff stateDir now rfl

/-- A job that runs. -/
def ProbeSection.sampleRunning : ProbeSection where
  identity := .owned
  live := .live
  files := { startedAt := some "1100".toList }

/-- A running row loses its job when the stream ends behind the mark. -/
theorem cut_loses_running :
    ¬ ∀ (float : List Char → Option Time) (r : Reader) (s : ProbeSection) (n : Nat) (e : JobEntry)
        (stateDir : String) (now : Time), e.status = .running ∨ e.status = .lost →
        applied e stateDir now (parseStatusProbe float (r.lines (cutText s.output n))) = none ∨
          applied e stateDir now (parseStatusProbe float (r.lines (cutText s.output n))) =
            applied e stateDir now (parseStatusProbe float (r.lines s.output)) := by
  intro h
  have hcut := h (fun _ => none) .batch .sampleRunning 24
    { JobEntry.sample "job-1" with status := .running, node := "n1", pgid := some 7 }
    "~/dt/jobs/job-1/state" 2000 (.inl rfl)
  revert hcut
  decide +kernel

end Dt.Jobs
