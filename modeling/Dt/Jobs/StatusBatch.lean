import Mathlib
import Dt.Lib.Lines
import Dt.Jobs.Status
import Dt.Dispatch.RemoteProof
import Dt.Shell.Termination

/-!
# Batched status probes

One status probe asks a node about many jobs. Its script prints a section for each job, opened by a
delimiter that carries a nonce, and the head cuts the output at the delimiters and reads each
section like the output of a probe for one job.

The sections hold texts that the jobs have written. A text is one line of the script's output, yet
`str.splitlines()` may see several in it; as long as no text holds the nonce, none of its lines opens
a section, so each section is read as it was printed. The probe for one job strips its output before
it reads it and the batch does not: that is the only difference between the two.
-/

namespace Dt.Jobs

open Dt.Lib Dt.Dispatch Dt.Shell

/-! ## What the script prints -/

def statusMark : List Char := "@@DT_STATUS_V2@@".toList

/-- `dt_probe_field` of a file; it is the program of `dt_recover_field`. -/
def probeField (file : Option (List Char)) : Field := recoverField file

/-- The files of a job that a section prints; `none` is not a regular file. -/
structure StateFiles where
  exitCode : Option (List Char) := none
  startedAt : Option (List Char) := none
  finishedAt : Option (List Char) := none
  resultState : Option (List Char) := none

/-- What one section is about: the boot of the node, the verdicts of `dt_process_owned` and
`dt_job_live_state` on the job, and the files of the job. -/
structure ProbeSection where
  boot : Option BootId := none
  identity : Owner
  live : Liveness
  files : StateFiles

namespace ProbeSection

def bootText (s : ProbeSection) : List Char := s.boot.elim unknown BootId.text

/-- The job has left an exit code, and nothing of it is alive. -/
def finished (s : ProbeSection) : Bool := s.files.exitCode.isSome && s.live = .dead

/-- What the process table says about a job that is not finished. -/
def livenessToken (s : ProbeSection) : List Char :=
  if s.identity = .unproven then "UNVERIFIED".toList
  else match s.live with
  | .live => "RUNNING".toList
  | .unproven => "UNVERIFIED".toList
  | .dead => "LOST".toList

/-- The texts after the mark. -/
def texts (s : ProbeSection) : List (List Char) :=
  if s.finished then
    [(probeField s.files.exitCode).text, (probeField s.files.startedAt).text,
      (probeField s.files.finishedAt).text, (probeField s.files.resultState).text]
  else
    [s.livenessToken, (probeField s.files.startedAt).text, unknown,
      (probeField s.files.resultState).text]

/-- All texts of a section. -/
def printed (s : ProbeSection) : List (List Char) := s.bootText :: statusMark :: s.texts

/-- The output of `_status_probe_section`. -/
def output (s : ProbeSection) : List Char := unlines s.printed

end ProbeSection

/-- `secrets.token_hex(8)` -/
structure Nonce where
  text : List Char
  valid : classRun isHex 16 16 text = true

/-- The delimiter of a batch. -/
def Nonce.delimiter (nonce : Nonce) : List Char :=
  "@@DT_PROBE_".toList ++ (nonce.text ++ "@@".toList)

/-- The line that opens a section. -/
def opening (delimiter : List Char) (index : Nat) : List Char :=
  delimiter ++ ' ' :: (toString index).toList

/-- The texts of `_batched_status_probe_script`; the first section has the number `index`. -/
def batchTexts (delimiter : List Char) : Nat → List ProbeSection → List (List Char)
  | _, [] => []
  | index, s :: rest => opening delimiter index :: s.printed ++ batchTexts delimiter (index + 1) rest

/-! ## What the head reads -/

/-- The section a line opens, of `count` sections. -/
def openedSection (delimiter : List Char) (count : Nat) (line : List Char) : Option Nat :=
  match pyInt (line.drop (delimiter.length + 1)) with
  | some index => if 0 ≤ index ∧ index < count then some index.toNat else none
  | none => none

/-- The sections read so far, and the one that is open. -/
structure SectionReader where
  sections : List (List (List Char))
  current : Option Nat := none

def SectionReader.read (delimiter : List Char) (count : Nat) (r : SectionReader)
    (line : List Char) : SectionReader :=
  if (delimiter ++ [' ']).isPrefixOf line then
    { r with current := openedSection delimiter count line }
  else match r.current with
  | some index => { r with sections := r.sections.modify index (· ++ [line]) }
  | none => r

/-- `_split_probe_sections` -/
def splitProbeSections (delimiter : List Char) (count : Nat) (lines : List (List Char)) :
    List (List (List Char)) :=
  (lines.foldl (SectionReader.read delimiter count)
    { sections := List.replicate count [] }).sections

section

-- Python's `float(value)`, when that is a finite number
variable (float : List Char → Option Time)

def positiveTimestamp (value : List Char) : Option Time := (float value).filter (0 < ·)

/-- `_parse_status_probe`; `none` keeps the row. -/
def parseStatusProbe (tokens : List (List Char)) : Option StatusProbe :=
  match tokens.findIdx? (· = statusMark) with
  | none => none
  | some marker =>
    let fieldAfter offset (default : String) := tokens.getD (marker + offset) default.toList
    some
      { token := String.ofList (fieldAfter 1 "LOST")
        bootId := if marker = 0 then none else some (String.ofList (tokens.getD (marker - 1) []))
        startedAt := positiveTimestamp float (fieldAfter 2 "UNKNOWN")
        finishedAt := positiveTimestamp float (fieldAfter 3 "UNKNOWN")
        result := String.ofList (fieldAfter 4 "UNKNOWN") }

/-- The record `_run_status_probe` reads from the probe of one job. -/
def aloneRecord (s : ProbeSection) : Option StatusProbe :=
  parseStatusProbe float (splitlines (strip s.output))

/-- The records `refresh_statuses` reads from one batch. -/
def batchRecords (nonce : Nonce) (batch : List ProbeSection) : List (Option StatusProbe) :=
  (splitProbeSections nonce.delimiter batch.length
    (splitlines (unlines (batchTexts nonce.delimiter 0 batch)))).map (parseStatusProbe float)

end

/-! ## Cutting the output -/

variable {delimiter : List Char} {count : Nat} {nonce : Nonce} {s : ProbeSection}

/-- A line that opens a section, or closes the open one. -/
def Opens (delimiter line : List Char) : Prop := delimiter ++ [' '] <+: line

theorem opens_opening (delimiter : List Char) (index : Nat) :
    Opens delimiter (opening delimiter index) := by
  have h : opening delimiter index = (delimiter ++ [' ']) ++ (toString index).toList := by
    simp [opening]
  unfold Opens
  rw [h]
  exact List.prefix_append _ _

theorem openedSection_opening {index : Nat} (h : index < count) :
    openedSection delimiter count (opening delimiter index) = some index := by
  have hdrop : (opening delimiter index).drop (delimiter.length + 1) = (toString index).toList := by
    have heq : opening delimiter index = (delimiter ++ [' ']) ++ (toString index).toList := by
      simp [opening]
    rw [heq]
    exact List.drop_left' (by simp)
  unfold openedSection
  rw [hdrop, pyInt_toString]
  simp [h]

/-- Lines that open no section are added to the open one. -/
theorem foldl_read_body {lines : List (List Char)} (hlines : ∀ l ∈ lines, ¬ Opens delimiter l)
    {r : SectionReader} {index : Nat} (hcurrent : r.current = some index) :
    lines.foldl (SectionReader.read delimiter count) r =
      { r with sections := r.sections.modify index (· ++ lines) } := by
  induction lines generalizing r with
  | nil =>
    have hsame : r.sections.modify index (· ++ []) = r.sections := by
      simp only [List.append_nil]
      exact List.modify_id index r.sections
    rw [List.foldl_nil, hsame]
  | cons l lines ih =>
    have hl : ¬ (delimiter ++ [' ']).isPrefixOf l = true := by
      rw [List.isPrefixOf_iff_prefix]
      exact hlines l (by simp)
    have hread : SectionReader.read delimiter count r l =
        { r with sections := r.sections.modify index (· ++ [l]) } := by
      unfold SectionReader.read
      rw [if_neg hl, hcurrent]
    rw [List.foldl_cons, hread, ih (fun m hm => hlines m (List.mem_cons_of_mem _ hm))]
    · simp [List.modify_modify_eq, Function.comp_def]
    · exact hcurrent

/-- The lines of a section. -/
def ProbeSection.lines (s : ProbeSection) : List (List Char) := splitlines s.output

theorem modify_middle {α : Type} (before after : List α) (a : α) (f : α → α) :
    (before ++ a :: after).modify before.length f = before ++ f a :: after := by
  induction before with
  | nil => simp
  | cons b before ih => simpa using ih

theorem read_opening {index : Nat} (h : index < count) (r : SectionReader) :
    SectionReader.read delimiter count r (opening delimiter index) = { r with current := some index } := by
  unfold SectionReader.read
  rw [if_pos (List.isPrefixOf_iff_prefix.mpr (opens_opening delimiter index)),
    openedSection_opening h]

theorem splitlines_batchTexts (hline : ∀ i, IsLine (opening delimiter i)) (index : Nat)
    (s : ProbeSection) (rest : List ProbeSection) :
    splitlines (unlines (batchTexts delimiter index (s :: rest))) =
      opening delimiter index :: (s.lines ++
        splitlines (unlines (batchTexts delimiter (index + 1) rest))) := by
  simp only [ProbeSection.lines, ProbeSection.output, splitlines_unlines_eq, batchTexts,
    List.cons_append, List.flatMap_cons, List.flatMap_append, linesOf_line (hline index),
    List.nil_append]

/-- The sections before the open one are left alone, and those after it are still empty. -/
theorem foldl_read_batch (hline : ∀ i, IsLine (opening delimiter i)) (batch : List ProbeSection)
    (hbatch : ∀ s ∈ batch, ∀ l ∈ s.lines, ¬ Opens delimiter l)
    (before : List (List (List Char))) (current : Option Nat)
    (hcount : count = before.length + batch.length) :
    ((splitlines (unlines (batchTexts delimiter before.length batch))).foldl
        (SectionReader.read delimiter count)
        ⟨before ++ List.replicate batch.length [], current⟩).sections =
      before ++ batch.map ProbeSection.lines := by
  induction batch generalizing before current with
  | nil => simp [batchTexts, unlines, splitlines, splitlinesAux]
  | cons s rest ih =>
    have hindex : before.length < count := by
      rw [hcount, List.length_cons]
      omega
    have hmodify : (before ++ List.replicate (s :: rest).length ([] : List (List Char))).modify
        before.length (· ++ s.lines) = (before ++ [s.lines]) ++ List.replicate rest.length [] := by
      rw [List.length_cons, List.replicate_succ, modify_middle]
      simp
    have hih := ih (fun t ht => hbatch t (List.mem_cons_of_mem s ht)) (before ++ [s.lines])
      (some before.length) (by rw [hcount]; simp; omega)
    rw [splitlines_batchTexts hline, List.foldl_cons, read_opening hindex, List.foldl_append,
      foldl_read_body (hbatch s (by simp)) rfl, hmodify]
    rw [List.length_append, List.length_singleton] at hih
    rw [hih]
    simp

/-! ## No text opens a section -/

/-- The files of a section do not hold the nonce. -/
def ProbeSection.Avoids (s : ProbeSection) (nonce : Nonce) : Prop :=
  ∀ file ∈ [s.files.exitCode, s.files.startedAt, s.files.finishedAt, s.files.resultState],
    ¬ nonce.text <:+: (probeField file).text

instance (s : ProbeSection) (nonce : Nonce) : Decidable (s.Avoids nonce) :=
  List.decidableBAll _ _

theorem Nonce.isHex_of_mem (nonce : Nonce) {c : Char} (hc : c ∈ nonce.text) : isHex c = true := by
  have h := nonce.valid
  simp only [classRun, Bool.and_eq_true, List.all_eq_true] at h
  exact h.2 c hc

theorem Nonce.length_text (nonce : Nonce) : nonce.text.length = 16 := by
  have h := nonce.valid
  simp only [classRun, Bool.and_eq_true, decide_eq_true_eq] at h
  omega

/-- A line that opens a section holds the nonce. -/
theorem Nonce.infix_of_opens {nonce : Nonce} {line : List Char} (h : Opens nonce.delimiter line) :
    nonce.text <:+: line := by
  have hdelimiter : nonce.text <:+: nonce.delimiter := List.infix_append' _ _ _
  exact hdelimiter.trans ((List.prefix_append _ _).isInfix.trans (List.IsPrefix.isInfix h))

theorem Nonce.head_of_opens {nonce : Nonce} {line : List Char} (h : Opens nonce.delimiter line) :
    "@@DT_PROBE_".toList <+: line :=
  (List.prefix_append _ _).trans ((List.prefix_append _ _).trans h)

/-- A newline is not part of a nonce. -/
theorem Nonce.infix_text {nonce : Nonce} {text : List Char} (h : nonce.text <:+: text ++ ['\n']) :
    nonce.text <:+: text := by
  rcases List.infix_concat_iff.mp h with hsuffix | hinfix
  · exfalso
    have hne : nonce.text ≠ [] := by
      intro hnil
      have := nonce.length_text
      simp [hnil] at this
    rcases List.suffix_concat_iff.mp hsuffix with hnil | ⟨t, ht, -⟩
    · exact hne hnil
    · have := nonce.isHex_of_mem (show '\n' ∈ nonce.text by simp [ht])
      exact absurd this (by decide)
  · exact hinfix

theorem not_opens_of_text {text : List Char} (h : ¬ nonce.text <:+: text) :
    ∀ l ∈ linesOf text, ¬ Opens nonce.delimiter l := by
  intro l hl hopens
  have hinfix : l <:+: text ++ ['\n'] := splitlinesAux_infix hl
  exact h (Nonce.infix_text ((Nonce.infix_of_opens hopens).trans hinfix))

/-- A text of the script has less than the length of a nonce. -/
theorem not_opens_of_short {text : List Char} (h : text.length < 16) :
    ∀ l ∈ linesOf text, ¬ Opens nonce.delimiter l := by
  refine not_opens_of_text fun hinfix => ?_
  have := hinfix.length_le
  rw [nonce.length_text] at this
  omega

theorem isLine_bootText (s : ProbeSection) : IsLine s.bootText := by
  unfold ProbeSection.bootText
  cases s.boot with
  | none => decide
  | some b => exact isLine_of_isBootId b.valid

theorem isBootId_bootText (s : ProbeSection) : isBootId s.bootText = true := by
  unfold ProbeSection.bootText
  cases s.boot with
  | none => decide
  | some b => exact b.valid

theorem not_opens_of_boot (s : ProbeSection) :
    ∀ l ∈ linesOf s.bootText, ¬ Opens nonce.delimiter l := by
  intro l hl hopens
  rw [linesOf_line (isLine_bootText s), List.mem_singleton] at hl
  subst hl
  have hboot := isBootId_bootText s
  simp only [isBootId, classRun, Bool.and_eq_true, List.all_eq_true] at hboot
  have := hboot.2 '@' ((Nonce.head_of_opens hopens).subset (by simp))
  exact absurd this (by decide)

theorem not_opens_of_mark : ∀ l ∈ linesOf statusMark, ¬ Opens nonce.delimiter l := by
  intro l hl hopens
  rw [linesOf_line (by decide), List.mem_singleton] at hl
  subst hl
  exact absurd (Nonce.head_of_opens hopens) (by decide)

theorem length_livenessToken (s : ProbeSection) : s.livenessToken.length < 16 := by
  unfold ProbeSection.livenessToken
  split
  · decide
  · cases s.live <;> decide

theorem not_opens_of_section (h : s.Avoids nonce) :
    ∀ l ∈ s.lines, ¬ Opens nonce.delimiter l := by
  have htexts : ∀ text ∈ s.texts, ∀ l ∈ linesOf text, ¬ Opens nonce.delimiter l := by
    intro text htext
    unfold ProbeSection.texts at htext
    split at htext
    · simp only [List.mem_cons, List.not_mem_nil, or_false] at htext
      rcases htext with rfl | rfl | rfl | rfl <;> exact not_opens_of_text (h _ (by simp))
    · simp only [List.mem_cons, List.not_mem_nil, or_false] at htext
      rcases htext with rfl | rfl | rfl | rfl
      · exact not_opens_of_short (length_livenessToken s)
      · exact not_opens_of_text (h _ (by simp))
      · exact not_opens_of_short (by decide)
      · exact not_opens_of_text (h _ (by simp))
  intro l hl
  rw [ProbeSection.lines, ProbeSection.output, splitlines_unlines_eq, List.mem_flatMap] at hl
  obtain ⟨text, htext, hl⟩ := hl
  simp only [ProbeSection.printed, List.mem_cons] at htext
  rcases htext with rfl | rfl | htext
  · exact not_opens_of_boot s l hl
  · exact not_opens_of_mark l hl
  · exact htexts text htext l hl

theorem isLineEnd_of_isAlnum {c : Char} (h : isAlnum c = true) : isLineEnd c = false := by
  have hboot : isBootId [c] = true := by simp [isBootId, classRun, h]
  exact isLine_of_isBootId hboot c (by simp)

theorem Nonce.isLine (nonce : Nonce) : IsLine nonce.text := by
  intro c hc
  have h := nonce.isHex_of_mem hc
  refine isLineEnd_of_isAlnum ?_
  simp only [isHex, isAlnum, Bool.or_eq_true, Bool.and_eq_true, decide_eq_true_eq] at h ⊢
  rcases h with h | h
  · exact .inl (.inl h)
  · exact .inl (.inr ⟨h.1, h.2.trans (by decide)⟩)

theorem isLine_opening (nonce : Nonce) (index : Nat) : IsLine (opening nonce.delimiter index) := by
  have hdelimiter : IsLine nonce.delimiter :=
    IsLine.append (by decide) (IsLine.append nonce.isLine (by decide))
  have hindex : IsLine (toString index).toList := by
    rw [Nat.toString_eq_repr, Nat.toList_repr]
    exact isLine_of_isDigit fun c hc => Nat.isDigit_of_mem_toDigits (by decide) (by decide) hc
  have hblank : IsLine [' '] := by decide
  exact hdelimiter.append (hblank.append hindex)

/-- The record a section stands for. -/
def sectionRecord (float : List Char → Option Time) (s : ProbeSection) : Option StatusProbe :=
  parseStatusProbe float s.lines

/-- A batch is read section by section. -/
theorem batchRecords_eq (float : List Char → Option Time) {batch : List ProbeSection}
    (h : ∀ s ∈ batch, s.Avoids nonce) :
    batchRecords float nonce batch = batch.map (sectionRecord float) := by
  have hread := foldl_read_batch (isLine_opening nonce) batch
    (fun s hs => not_opens_of_section (h s hs)) [] none (Nat.zero_add batch.length).symm
  unfold batchRecords splitProbeSections
  rw [List.nil_append, List.nil_append] at hread
  rw [List.length_nil] at hread
  rw [hread, List.map_map]
  rfl

/-! ## One section, read in two ways -/

variable {float : List Char → Option Time}

/-- The lines after the mark. -/
def ProbeSection.body (s : ProbeSection) : List (List Char) := s.texts.flatMap linesOf

theorem ProbeSection.lines_eq (s : ProbeSection) : s.lines = s.bootText :: statusMark :: s.body := by
  have hmark : IsLine statusMark := by decide
  simp only [lines, output, printed, splitlines_unlines_eq, List.flatMap_cons,
    linesOf_line (isLine_bootText s), linesOf_line hmark, List.cons_append, List.nil_append]
  rfl

/-- The identity of a boot has no spaces. -/
theorem ProbeSection.bootText_solid (s : ProbeSection) : ∀ c ∈ s.bootText, isSpace c = false := by
  have hboot := isBootId_bootText s
  simp only [isBootId, classRun, Bool.and_eq_true, List.all_eq_true, decide_eq_true_eq] at hboot
  intro c hmem
  have hc := hboot.2 c hmem
  simp only [isAlnum, isDigit, Bool.or_eq_true, Bool.and_eq_true, decide_eq_true_eq,
    Char.le_def, UInt32.le_iff_toNat_le] at hc
  have hrange : 45 ≤ c.toNat ∧ c.toNat ≤ 122 := by
    rcases hc with ((h | h) | h) | rfl
    · exact ⟨le_trans (by decide) h.1, le_trans h.2 (by decide)⟩
    · exact ⟨le_trans (by decide) h.1, le_trans h.2 (by decide)⟩
    · exact ⟨le_trans (by decide) h.1, le_trans h.2 (by decide)⟩
    · decide
  simp [isSpace]
  omega

theorem ProbeSection.bootText_head (s : ProbeSection) :
    ∃ c rest, s.bootText = c :: rest ∧ isSpace c = false := by
  have hboot := isBootId_bootText s
  simp only [isBootId, classRun, Bool.and_eq_true, decide_eq_true_eq] at hboot
  cases htext : s.bootText with
  | nil => simp [htext] at hboot
  | cons c rest => exact ⟨c, rest, rfl, s.bootText_solid c (by simp [htext])⟩

/-- The probe of one job loses the end of its output. -/
theorem splitlines_strip_output (s : ProbeSection) :
    splitlines (strip s.output) = s.bootText :: statusMark :: trimLines s.body := by
  obtain ⟨c, rest, hboot, hspace⟩ := s.bootText_head
  have hstrip : strip s.output = rstrip s.output := by
    have hout : s.output = c :: (rest ++ '\n' :: unlines (statusMark :: s.texts)) := by
      simp [ProbeSection.output, ProbeSection.printed, unlines, hboot]
    rw [hout]
    exact strip_of_head hspace _
  have hmark : trimLines (statusMark :: s.body) = statusMark :: trimLines s.body := by
    have hkeep : rstrip statusMark = statusMark := by decide
    rw [trimLines, hkeep]
    split
    · rename_i hnil
      rw [hnil]
      rfl
    · rfl
  rw [hstrip, splitlines_rstrip]
  have hlines := s.lines_eq
  unfold ProbeSection.lines at hlines
  rw [hlines, trimLines, hmark, if_neg (by simp)]

/-- The record of a section whose lines after the mark are `body`. -/
def recordOf (float : List Char → Option Time) (boot : List Char) (body : List (List Char)) :
    StatusProbe where
  token := String.ofList (body.getD 0 "LOST".toList)
  bootId := some (String.ofList boot)
  startedAt := positiveTimestamp float (body.getD 1 "UNKNOWN".toList)
  finishedAt := positiveTimestamp float (body.getD 2 "UNKNOWN".toList)
  result := String.ofList (body.getD 3 "UNKNOWN".toList)

theorem parseStatusProbe_lines {boot : List Char} (hboot : boot ≠ statusMark)
    (body : List (List Char)) :
    parseStatusProbe float (boot :: statusMark :: body) = some (recordOf float boot body) := by
  have hfind : (boot :: statusMark :: body).findIdx? (· = statusMark) = some 1 := by
    simp [List.findIdx?_cons, hboot]
  unfold parseStatusProbe
  rw [hfind]
  rfl

theorem bootText_ne_mark (s : ProbeSection) : s.bootText ≠ statusMark := by
  intro h
  have := isBootId_bootText s
  rw [h] at this
  exact absurd this (by decide)

theorem sectionRecord_eq (s : ProbeSection) :
    sectionRecord float s = some (recordOf float s.bootText s.body) := by
  unfold sectionRecord
  rw [s.lines_eq, parseStatusProbe_lines (bootText_ne_mark s)]

theorem aloneRecord_eq (s : ProbeSection) :
    aloneRecord float s = some (recordOf float s.bootText (trimLines s.body)) := by
  unfold aloneRecord
  rw [splitlines_strip_output, parseStatusProbe_lines (bootText_ne_mark s)]

theorem length_flatMap_linesOf (texts : List (List Char)) :
    texts.length ≤ (texts.flatMap linesOf).length := by
  induction texts with
  | nil => exact le_rfl
  | cons text texts ih =>
    have := List.length_pos_iff.mpr (linesOf_ne_nil text)
    rw [List.flatMap_cons, List.length_append, List.length_cons]
    omega

/-- Four texts are at least four lines. -/
theorem body_cases (s : ProbeSection) :
    ∃ token started done result rest, s.body = token :: started :: done :: result :: rest := by
  have hlength : 4 ≤ s.body.length := by
    have htexts : s.texts.length = 4 := by
      unfold ProbeSection.texts
      split <;> rfl
    exact htexts ▸ length_flatMap_linesOf s.texts
  cases hb : s.body with
  | nil => simp [hb] at hlength
  | cons token l₁ => cases l₁ with
    | nil => simp [hb] at hlength
    | cons started l₂ => cases l₂ with
      | nil => simp [hb] at hlength
      | cons done l₃ => cases l₃ with
        | nil => simp [hb] at hlength
        | cons result rest => exact ⟨token, started, done, result, rest, rfl⟩

/-- The line of the result reaches both readers: it does not end in a space, or something stands
after it. -/
def ProbeSection.ResultSeen (s : ProbeSection) : Prop :=
  (s.body.getD 3 [] ≠ [] ∧ rstrip (s.body.getD 3 []) = s.body.getD 3 []) ∨
    ∃ l ∈ s.body.drop 4, rstrip l ≠ []

theorem aloneRecord_eq_iff (s : ProbeSection) :
    sectionRecord float s = aloneRecord float s ↔ s.ResultSeen := by
  obtain ⟨token, started, done, result, rest, hbody⟩ := body_cases s
  have hsplit : s.body = [token, started, done] ++ result :: rest := hbody
  rw [sectionRecord_eq, aloneRecord_eq, Option.some.injEq, ProbeSection.ResultSeen, hsplit,
    trimLines_append]
  by_cases hrest : ∃ l ∈ rest, rstrip l ≠ []
  · -- a later line keeps the result whole
    have htrim : trimLines (result :: rest) = result :: trimLines rest := by
      rw [trimLines, if_neg (trimLines_ne_nil.mpr hrest)]
    rw [htrim]
    exact iff_of_true rfl (.inr hrest)
  · have hnil : trimLines rest = [] := by
      by_contra hne
      exact hrest (trimLines_ne_nil.mp hne)
    have htrim : trimLines (result :: rest) = if rstrip result = [] then [] else [rstrip result] := by
      rw [trimLines, if_pos hnil]
    rw [htrim]
    by_cases hblank : rstrip result = []
    · -- a blank result is read as an unknown one
      rw [if_pos hblank, if_pos rfl]
      refine iff_of_false (fun heq => ?_) ?_
      · have hlength : (trimLines [token, started, done]).length ≤ 3 := length_trimLines_le _
        have hres : result = "UNKNOWN".toList := by
          have := String.ofList_injective (congrArg StatusProbe.result heq)
          rw [List.getD_eq_default _ _ hlength] at this
          exact this
        rw [hres] at hblank
        exact absurd hblank (by decide)
      · rintro (⟨hne, hkeep⟩ | hlater)
        · exact hne (hkeep.symm.trans hblank)
        · exact hrest hlater
    · rw [if_neg hblank, if_neg (by simp)]
      constructor
      · intro heq
        have hres : result = rstrip result :=
          String.ofList_injective (congrArg StatusProbe.result heq)
        exact .inl ⟨fun hnil' => hblank (hres.symm.trans hnil'), hres.symm⟩
      · rintro (⟨-, hkeep⟩ | hlater)
        · have hkeep : rstrip result = result := hkeep
          rw [hkeep]
          rfl
        · exact absurd hlater hrest

/-! ## Isolation -/

/-- What isolates the jobs of a batch from each other. -/
structure Isolated (float : List Char → Option Time) (nonce : Nonce) (batch : List ProbeSection) :
    Prop where
  /-- each job gets the record of a probe of its own -/
  alone : batchRecords float nonce batch = batch.map (aloneRecord float)
  /-- the files and the processes of the other jobs do not matter -/
  others : ∀ batch' : List ProbeSection, (∀ s ∈ batch', s.Avoids nonce) →
    ∀ i : Nat, batch'[i]? = batch[i]? →
      (batchRecords float nonce batch')[i]? = (batchRecords float nonce batch)[i]?
  /-- its own files change the token of a job only through the exit code of a dead one -/
  token : ∀ (i : Nat) (s : ProbeSection), batch[i]? = some s →
    ∃ r, (batchRecords float nonce batch)[i]? = some (some r) ∧ (s.finished = false ∧ r.token = String.ofList s.livenessToken ∨
      s.finished = true ∧ some r.token =
        ((linesOf (probeField s.files.exitCode).text).head?.map String.ofList))

theorem isLine_livenessToken (s : ProbeSection) : IsLine s.livenessToken := by
  unfold ProbeSection.livenessToken
  split
  · decide
  · cases s.live <;> decide

/-- The token is the first line after the mark, and it is printed before any other file. -/
theorem token_recordOf (s : ProbeSection) :
    s.finished = false ∧ (recordOf float s.bootText s.body).token = String.ofList s.livenessToken ∨
      s.finished = true ∧ some (recordOf float s.bootText s.body).token =
        ((linesOf (probeField s.files.exitCode).text).head?.map String.ofList) := by
  cases hf : s.finished with
  | false =>
    refine .inl ⟨rfl, ?_⟩
    simp [recordOf, ProbeSection.body, ProbeSection.texts, hf,
      linesOf_line (isLine_livenessToken s)]
  | true =>
    refine .inr ⟨rfl, ?_⟩
    obtain ⟨first, others, hlines⟩ := List.exists_cons_of_ne_nil
      (linesOf_ne_nil (probeField s.files.exitCode).text)
    simp [recordOf, ProbeSection.body, ProbeSection.texts, hf, hlines]

/-- A batch isolates its jobs exactly when the result of each of them is seen by both readers. -/
theorem isolated_iff (float : List Char → Option Time) (nonce : Nonce) (batch : List ProbeSection)
    (h : ∀ s ∈ batch, s.Avoids nonce) :
    Isolated float nonce batch ↔ ∀ s ∈ batch, s.ResultSeen := by
  constructor
  · intro hisolated s hs
    have halone := hisolated.alone
    rw [batchRecords_eq float h] at halone
    exact (aloneRecord_eq_iff s).mp (List.map_inj_left.mp halone s hs)
  · intro hseen
    refine ⟨?_, fun batch' h' i hi => ?_, fun i s hs => ?_⟩
    · rw [batchRecords_eq float h]
      exact List.map_congr_left fun s hs => (aloneRecord_eq_iff s).mpr (hseen s hs)
    · rw [batchRecords_eq float h, batchRecords_eq float h', List.getElem?_map, List.getElem?_map,
        hi]
    · refine ⟨recordOf float s.bootText s.body, ?_, token_recordOf s⟩
      rw [batchRecords_eq float h, List.getElem?_map, hs, Option.map_some, sectionRecord_eq]

/-- A nonce. -/
def Nonce.sample : Nonce := ⟨"0123456789abcdef".toList, by decide⟩

/-- A job that is dead and has left an exit code and a result. -/
def ProbeSection.sample (result : String) : ProbeSection where
  identity := .gone
  live := .dead
  files := { exitCode := some "3\n".toList, resultState := some result.toList }

theorem isolated_sample :
    Isolated (fun _ => none) .sample [.sample "success", .sample "scientific_reject"] := by
  refine (isolated_iff _ .sample [.sample "success", .sample "scientific_reject"] ?_).mpr ?_
  · decide +kernel
  · simp only [List.forall_mem_cons]
    exact ⟨.inl (by decide +kernel), .inl (by decide +kernel), nofun⟩

/-- A result that ends in a space: alone the job is read as rejected, in a batch its result is not
known. -/
theorem trailing_space_not_isolated :
    ¬ Isolated (fun _ => none) .sample [.sample "scientific_reject "] := by
  intro h
  have halone : batchRecords (fun _ => none) .sample [.sample "scientific_reject "] ≠
      [ProbeSection.sample "scientific_reject "].map (aloneRecord fun _ => none) := by
    decide +kernel
  exact halone h.alone

end Dt.Jobs
