import Mathlib
import Dt.Lib.LastLines
import Dt.Operations.Validated

/-!
# The operation journal

A record is one line of JSON. What an interrupted write leaves is a line without its end; it is
found from the end of the file and cut off before the next write. A query reads the generations from
the current one on, each from its end in blocks, and lists the events of the lines it can read.
-/

namespace Dt.Operations

open Dt.Lib

/-- `json.dumps` writes ASCII: a character is a byte. -/
abbrev Bytes := List Char

/-- `OperationsCfg` -/
structure OperationsCfg where
  maxFileMib : Nat
  keepFiles : Nat
  maxFileMib_range : 1 ≤ maxFileMib ∧ maxFileMib ≤ 256
  keepFiles_range : 1 ≤ keepFiles ∧ keepFiles ≤ 32

def OperationsCfg.limit (cfg : OperationsCfg) : Nat := cfg.maxFileMib * 1024 * 1024

section
variable (F : Type) [FloatText F]

/-- A number has a text when it has at most 4300 digits. -/
def printable : Json F → Bool
  | .int n => n.natAbs < 10 ^ 4300
  | _ => true

/-- `json.dumps(event, sort_keys=True, separators=(",", ":"))` and a newline. -/
def encode (w : Write) : Option Bytes :=
  if (w.event : Event F).all fun p => printable F p.2 then
    some ((Json.obj (w.event : Event F)).sorted.render .compact ++ ['\n'])
  else none

end

/-! ## The torn tail -/

/-- The search of `_repair_torn_tail` for the last newline, in blocks from the end; it gives the
position behind it. -/
def tailBoundary (file : Bytes) (cursor : Nat) : Nat :=
  if cursor = 0 then 0
  else
    let width := min 8192 cursor
    let chunk := (file.drop (cursor - width)).take width
    match rfind '\n' chunk with
    | some newline => cursor - width + newline + 1
    | none => tailBoundary file (cursor - width)
termination_by cursor
decreasing_by omega

/-- `_repair_torn_tail` -/
def repairTornTail (file : Bytes) : Bytes :=
  if file = [] ∨ file.getLast? = some '\n' then file
  else file.take (tailBoundary file file.length)

/-! ## Reading backwards -/

/-- One block of `_iter_reverse_lines` is put before the line whose end was read before it. -/
def readBlock (block remainder : Bytes) : List (Option Bytes) × Bytes × Bool :=
  let lines := splitOn '\n' (block ++ remainder)
  (keepLines maxEventBytes lines.tail,
    if maxEventBytes < lines.headI.length then ([], true) else (lines.headI, false))

/-- `oversized` says that the line of which `remainder` is the end is too long already: nothing is
kept of it up to the newline before it. -/
def reverseStep (block remainder : Bytes) (oversized : Bool) : List (Option Bytes) × Bytes × Bool :=
  if oversized then
    match rfind '\n' block with
    | none => ([], remainder, true)
    | some boundary =>
      let r := readBlock (block.take boundary) remainder
      (none :: r.1, r.2)
  else readBlock block remainder

/-- `chunk_size` -/
def chunkSize : Nat := 64 * 1024

/-- The loop of `_iter_reverse_lines`, from `position` down. -/
def reverseLinesFrom (file : Bytes) (position : Nat) (remainder : Bytes) (oversized : Bool) :
    List (Option Bytes) :=
  if position = 0 then
    if oversized then [none] else if remainder = [] then [] else [some remainder]
  else
    let amount := min chunkSize position
    let r := reverseStep ((file.drop (position - amount)).take amount) remainder oversized
    r.1 ++ reverseLinesFrom file (position - amount) r.2.1 r.2.2
termination_by position
decreasing_by
  have : 0 < chunkSize := by decide
  omega

/-- `_iter_reverse_lines` -/
def iterReverseLines (file : Bytes) : List (Option Bytes) :=
  reverseLinesFrom file file.length [] false

/-- A number of bytes that is read at once. -/
abbrev ChunkSize := {n : Nat // 0 < n}

/-- The loop of `_iter_reverse_lines` for blocks of another size. -/
def reverseLinesBy (chunk : ChunkSize) (file : Bytes) (position : Nat) (remainder : Bytes) (oversized : Bool) :
    List (Option Bytes) :=
  if position = 0 then
    if oversized then [none] else if remainder = [] then [] else [some remainder]
  else
    let amount := min chunk.1 position
    let r := reverseStep ((file.drop (position - amount)).take amount) remainder oversized
    r.1 ++ reverseLinesBy chunk file (position - amount) r.2.1 r.2.2
termination_by position
decreasing_by
  have := chunk.2
  omega

/-- `_iter_reverse_lines` with a `chunk_size` -/
def iterReverseLinesBy (chunk : ChunkSize) (file : Bytes) : List (Option Bytes) :=
  reverseLinesBy chunk file file.length [] false

theorem reverseLinesFrom_eq (file : Bytes) (position : Nat) (remainder : Bytes) (oversized : Bool) :
    reverseLinesFrom file position remainder oversized =
      reverseLinesBy ⟨chunkSize, by decide⟩ file position remainder oversized := by
  have hchunk : 0 < chunkSize := by decide
  induction position using Nat.strongRecOn generalizing remainder oversized with
  | ind position ih =>
    rw [reverseLinesFrom, reverseLinesBy]
    split
    · rfl
    · dsimp only
      rw [ih _ (by omega)]

theorem lastLines_long {line : Bytes} (hlong : maxEventBytes < line.length) (h : '\n' ∉ line) :
    lastLines maxEventBytes line = [none] := by
  have hne : line ≠ [] := by
    rintro rfl
    exact absurd hlong (by decide)
  rw [lastLines_line maxEventBytes hne h, boundLine, if_neg (Nat.not_le_of_gt hlong)]

section

variable (chunk : ChunkSize)

/-- A block is read right when the text before it is, whatever line of it reaches into the block. -/
theorem readBlock_lines {file : Bytes} {position : Nat} {before : Bytes}
    (h : ∀ first, '\n' ∉ first →
      (if maxEventBytes < first.length then reverseLinesBy chunk file position [] true
        else reverseLinesBy chunk file position first false) =
      lastLines maxEventBytes (before ++ first)) (block remainder : Bytes) :
    (readBlock block remainder).1 ++ reverseLinesBy chunk file position (readBlock block remainder).2.1
        (readBlock block remainder).2.2 =
      lastLines maxEventBytes (before ++ (block ++ remainder)) := by
  obtain ⟨first, others, hsplit, hfirst, hothers⟩ := splitOn_head '\n' (block ++ remainder)
  have hloop : reverseLinesBy chunk file position (readBlock block remainder).2.1
      (readBlock block remainder).2.2 = lastLines maxEventBytes (before ++ first) := by
    rw [← h first hfirst]
    simp only [readBlock, hsplit, List.headI_cons]
    split <;> rfl
  have hemitted : (readBlock block remainder).1 = keepLines maxEventBytes others := by
    simp only [readBlock, hsplit, List.tail_cons]
  rw [hloop, hemitted]
  rcases hothers with ⟨rfl, htext⟩ | ⟨rest, htext, rfl⟩
  · rw [htext]
    rfl
  · rw [htext, ← List.append_assoc, lastLines_cut]
    rfl

/-- The reader lists the lines of the file from its end, whatever its blocks cut apart. -/
theorem reverseLinesBy_lines (file : Bytes) (position : Nat) :
    (∀ remainder, '\n' ∉ remainder → remainder.length ≤ maxEventBytes →
      reverseLinesBy chunk file position remainder false =
        lastLines maxEventBytes (file.take position ++ remainder)) ∧
    ∀ long, '\n' ∉ long → maxEventBytes < long.length →
      reverseLinesBy chunk file position [] true =
        lastLines maxEventBytes (file.take position ++ long) := by
  induction position using Nat.strongRecOn with
  | ind position ih =>
    by_cases hzero : position = 0
    · subst hzero
      constructor
      · intro remainder hmark hlen
        rw [reverseLinesBy, if_pos rfl, if_neg Bool.false_ne_true, List.take_zero, List.nil_append]
        split
        · rename_i hnil
          rw [hnil, lastLines_nil]
        · rename_i hne
          rw [lastLines_line maxEventBytes hne hmark, boundLine, if_pos hlen]
      · intro long hmark hlong
        rw [reverseLinesBy, if_pos rfl, if_pos rfl, List.take_zero, List.nil_append,
          lastLines_long hlong hmark]
    · have hchunk := chunk.2
      have hlt : position - min chunk.1 position < position := by omega
      obtain ⟨hshort, hlong⟩ := ih _ hlt
      have htake : file.take position = file.take (position - min chunk.1 position) ++
          (file.drop (position - min chunk.1 position)).take (min chunk.1 position) := by
        rw [← List.take_add]
        congr 1
        omega
      have hunfold : ∀ remainder oversized, reverseLinesBy chunk file position remainder oversized =
          (reverseStep ((file.drop (position - min chunk.1 position)).take (min chunk.1 position))
            remainder oversized).1 ++
          reverseLinesBy chunk file (position - min chunk.1 position)
            (reverseStep ((file.drop (position - min chunk.1 position)).take
              (min chunk.1 position)) remainder oversized).2.1
            (reverseStep ((file.drop (position - min chunk.1 position)).take
              (min chunk.1 position)) remainder oversized).2.2 := by
        intro remainder oversized
        rw [reverseLinesBy, if_neg hzero]
      generalize position - min chunk.1 position = before at *
      generalize (file.drop before).take (min chunk.1 position) = block at *
      have hnext : ∀ first, '\n' ∉ first →
          (if maxEventBytes < first.length then reverseLinesBy chunk file before [] true
            else reverseLinesBy chunk file before first false) =
          lastLines maxEventBytes (file.take before ++ first) := by
        intro first hfirst
        split
        · rename_i hlen
          exact hlong first hfirst hlen
        · rename_i hlen
          exact hshort first hfirst (Nat.le_of_not_lt hlen)
      constructor
      · intro remainder hmark hlen
        rw [hunfold, htake, List.append_assoc]
        exact readBlock_lines chunk hnext block remainder
      · intro long hmark hlen
        rw [hunfold, htake, List.append_assoc]
        rcases rfind_cases '\n' block with ⟨hblock, hfind⟩ | ⟨a, b, rfl, hb, hfind⟩
        · have hstep : reverseStep block [] true = ([], [], true) := by simp [reverseStep, hfind]
          rw [hstep, List.nil_append, hlong (block ++ long) (by simp [hblock, hmark])
            (by rw [List.length_append]; omega)]
        · have hstep : reverseStep (a ++ '\n' :: b) [] true =
              (none :: (readBlock a []).1, (readBlock a []).2) := by
            simp [reverseStep, hfind]
          have hread := readBlock_lines chunk hnext a []
          have hline : lastLines maxEventBytes (b ++ long) = [none] :=
            lastLines_long (by rw [List.length_append]; omega) (by simp [hb, hmark])
          rw [List.append_nil] at hread
          rw [hstep, List.cons_append, hread, List.append_assoc, List.cons_append, ← List.append_assoc,
            lastLines_cut, hline]
          rfl

theorem iterReverseLinesBy_eq (file : Bytes) :
    iterReverseLinesBy chunk file = lastLines maxEventBytes file := by
  have h := (reverseLinesBy_lines chunk file file.length).1 [] (by simp) (by simp)
  rwa [List.take_length, List.append_nil] at h

end

theorem iterReverseLines_eq (file : Bytes) :
    iterReverseLines file = lastLines maxEventBytes file := by
  rw [iterReverseLines, reverseLinesFrom_eq]
  exact iterReverseLinesBy_eq _ file

/-- Read in blocks of any size, a file gives its lines, last one first. -/
theorem reverse_lines (chunk : ChunkSize) (file : Bytes) :
    iterReverseLinesBy chunk file =
      ((splitOn '\n' file).reverse.filter fun line => line ≠ []).map
        (fun line => if line.length ≤ maxEventBytes then some line else none) ∧
      ∀ other, iterReverseLinesBy other file = iterReverseLinesBy chunk file := by
  refine ⟨iterReverseLinesBy_eq chunk file, fun other => ?_⟩
  rw [iterReverseLinesBy_eq, iterReverseLinesBy_eq]

/-! ## The torn tail is found -/

theorem tailBoundary_eq {whole torn : Bytes} (hwhole : whole = [] ∨ ∃ front, whole = front ++ ['\n'])
    (htorn : '\n' ∉ torn) : ∀ cursor, whole.length ≤ cursor → cursor ≤ (whole ++ torn).length →
      tailBoundary (whole ++ torn) cursor = whole.length := by
  intro cursor
  induction cursor using Nat.strongRecOn with
  | ind cursor ih =>
    intro hlo hhi
    by_cases hzero : cursor = 0
    · subst hzero
      rw [tailBoundary, if_pos rfl]
      omega
    · rw [tailBoundary, if_neg hzero]
      dsimp only
      by_cases hinside : whole.length ≤ cursor - min 8192 cursor
      · -- the block lies in the torn part, which has no newline
        have hfind : rfind '\n' (((whole ++ torn).drop (cursor - min 8192 cursor)).take
            (min 8192 cursor)) = none := by
          refine rfind_of_notMem fun hmem => ?_
          have hdrop := List.mem_of_mem_take hmem
          rw [List.drop_append, List.drop_eq_nil_of_le hinside, List.nil_append] at hdrop
          exact htorn (List.mem_of_mem_drop hdrop)
        rw [hfind]
        exact ih _ (by omega) hinside (by omega)
      · obtain ⟨front, rfl⟩ : ∃ front, whole = front ++ ['\n'] := by
          rcases hwhole with rfl | h
          · simp at hinside
          · exact h
        have hblock : (((front ++ ['\n']) ++ torn).drop (cursor - min 8192 cursor)).take
            (min 8192 cursor) = front.drop (cursor - min 8192 cursor) ++
              '\n' :: torn.take (cursor - (front.length + 1)) := by
          simp only [List.length_append, List.length_cons, List.length_nil] at hlo hinside
          have hdrop : ((front ++ ['\n']) ++ torn).drop (cursor - min 8192 cursor) =
              front.drop (cursor - min 8192 cursor) ++ '\n' :: torn := by
            rw [List.append_assoc, List.drop_append_of_le_length (by omega)]
            rfl
          have hrest : min 8192 cursor - (front.drop (cursor - min 8192 cursor)).length =
              cursor - (front.length + 1) + 1 := by
            rw [List.length_drop]
            omega
          rw [hdrop, List.take_append, hrest, List.take_succ_cons,
            List.take_of_length_le (by rw [List.length_drop]; omega)]
        have hclear : '\n' ∉ torn.take (cursor - (front.length + 1)) :=
          fun hmem => htorn (List.mem_of_mem_take hmem)
        have hfind := rfind_cut (front.drop (cursor - min 8192 cursor)) hclear
        rw [hblock, hfind]
        simp only [List.length_drop, List.length_append, List.length_cons, List.length_nil] at *
        omega

theorem repairTornTail_whole {file : Bytes} (h : file = [] ∨ ∃ front, file = front ++ ['\n']) :
    repairTornTail file = file := by
  refine if_pos ?_
  rcases h with rfl | ⟨front, rfl⟩
  · exact .inl rfl
  · exact .inr (by simp)

theorem repairTornTail_torn {whole torn : Bytes}
    (hwhole : whole = [] ∨ ∃ front, whole = front ++ ['\n']) (hne : torn ≠ []) (htorn : '\n' ∉ torn) :
    repairTornTail (whole ++ torn) = whole := by
  have hlast : (whole ++ torn).getLast? ≠ some '\n' := by
    rw [List.getLast?_append_of_ne_nil _ hne]
    exact fun h => htorn (List.mem_of_getLast? h)
  have hcond : ¬(whole ++ torn = [] ∨ (whole ++ torn).getLast? = some '\n') := by
    rintro (hnil | hmark)
    · exact hne (List.append_eq_nil_iff.mp hnil).2
    · exact hlast hmark
  rw [repairTornTail, if_neg hcond, tailBoundary_eq hwhole htorn _ (by simp) (Nat.le_refl _),
    List.take_left]

/-! ## Queries -/

/-- The optional arguments of `query`. -/
structure Selection where
  issuesOnly : Bool := false
  operationId : Option String := none
  requestId : Option String := none
  jobId : Option String := none
  excludeOperationId : Option String := none

variable {F : Type}

/-- `v == s` -/
def equals (v : Json F) (s : String) : Bool := anyStr (· = s) v

/-- The tests that an event has to pass to be listed. -/
def Selection.selects (sel : Selection) (event : Event F) : Bool :=
  sel.operationId.all (equals (get event "operation_id")) &&
  sel.requestId.all (equals (get event "request_id")) &&
  sel.jobId.all (equals (get event "job_id")) &&
  !(match sel.excludeOperationId with
    | none => isNone (get event "operation_id")
    | some id => equals (get event "operation_id") id) &&
  !(sel.issuesOnly && (!equals (get event "phase") "finish" ||
    (equals (get event "status") "success" && !(match get event "problem" with
      | .obj _ => true
      | _ => false))))

/-- The checks of the arguments. -/
def Selection.valid (sel : Selection) (limit : Nat) : Bool :=
  (1 ≤ limit && limit ≤ 1000) && sel.operationId.all isOperationId &&
    sel.requestId.all isRequestId && sel.jobId.all Dt.Jobs.validJobId &&
    sel.excludeOperationId.all isOperationId

/-- What a query has found so far. -/
structure Found (F : Type) where
  events : List (Event F) := []
  truncated : Bool := false
  corruptRecords : Nat := 0
  filesScanned : Nat := 0

/-- The event of one line, if it is one. -/
def lineEvent [FloatText F] : Option Bytes → Except String (Option (Event F))
  | none => .ok none
  | some line =>
    match loadsBy .default line with
    | none => .ok none
    | some raw => validatedEvent raw

/-- The lines of one file. -/
def scanLines [FloatText F] (sel : Selection) (limit : Nat) :
    List (Option Bytes) → Found F → Except String (Found F)
  | [], found => .ok found
  | line :: lines, found =>
    match lineEvent line with
    | .error e => .error e
    | .ok none => scanLines sel limit lines { found with corruptRecords := found.corruptRecords + 1 }
    | .ok (some event) =>
      if sel.selects event then
        let events := found.events ++ [event]
        if limit < events.length then
          .ok { found with events := events.take limit, truncated := true }
        else scanLines sel limit lines { found with events }
      else scanLines sel limit lines found

def scanFiles [FloatText F] (sel : Selection) (limit : Nat) :
    List Bytes → Found F → Except String (Found F)
  | [], found => .ok found
  | file :: files, found =>
    match scanLines sel limit (iterReverseLines file)
      { found with filesScanned := found.filesScanned + 1 } with
    | .error e => .error e
    | .ok found => if found.truncated then .ok found else scanFiles sel limit files found

/-- `_journal_files` -/
def journalFiles (cfg : OperationsCfg) (files : Nat → Option Bytes) : List Bytes :=
  (List.range cfg.keepFiles).filterMap files

/-- `query` -/
def query [FloatText F] (cfg : OperationsCfg) (files : Nat → Option Bytes) (sel : Selection)
    (limit : Nat) : Except String (Found F) :=
  if sel.valid limit then scanFiles sel limit (journalFiles cfg files) {}
  else .error "ValueError"

end Dt.Operations
