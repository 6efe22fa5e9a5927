import Dt.Telemetry.Tail

/-!
# The lines of a telemetry window

The reader of a window takes it in chunks and gives its lines one by one, each in bounded memory: a line
that is too long is only marked. The state between two chunks is that of the line that is not finished.
-/

namespace Dt.Telemetry

open Dt.Lib

/-- `pending`, `oversized` and `line_bytes` -/
structure LineState where
  pending : Bytes := []
  oversized : Bool := false
  lineBytes : Nat := 0

/-- A fragment of a line; `ended` when a line feed follows it. -/
def LineState.add (s : LineState) (fragment : Bytes) (ended : Bool) : LineState :=
  let s := { s with lineBytes := s.lineBytes + fragment.length + if ended then 1 else 0 }
  if s.oversized then s
  else if s.pending.length + fragment.length ≤ maxLineBytes then
    { s with pending := s.pending ++ fragment }
  else { s with oversized := true, pending := [] }

def LineState.emit (s : LineState) : Option Bytes × Nat :=
  (if s.oversized then none else some s.pending, s.lineBytes)

/-- The loop over the lines of a chunk; each pass takes a byte at least. -/
def splitChunk : Nat → LineState → Bytes → List (Option Bytes × Nat) × LineState
  | 0, s, _ => ([], s)
  | passes + 1, s, chunk =>
    match chunk.dropWhile (· ≠ newline) with
    | [] => ([], s.add chunk false)
    | _ :: rest =>
      let r := splitChunk passes {} rest
      ((s.add (chunk.takeWhile (· ≠ newline)) true).emit :: r.1, r.2)

/-- What `_bounded_lines` yields at the end. -/
def LineState.rest (s : LineState) : List (Option Bytes × Nat) :=
  if s.lineBytes ≠ 0 ∨ s.pending ≠ [] ∨ s.oversized then [s.emit] else []

/-- `_bounded_lines`, from a state; an empty chunk is the end. -/
def boundedLines : LineState → List Bytes → List (Option Bytes × Nat)
  | s, [] => s.rest
  | s, chunk :: chunks =>
    if chunk = [] then s.rest
    else
      let r := splitChunk (chunk.length + 1) s chunk
      r.1 ++ boundedLines r.2 chunks

/-! ## The lines -/

/-- A line without its end. -/
def body (line : Bytes) : Bytes := if line.getLast? = some newline then line.dropLast else line

/-- A line as it is yielded: its body, unless that is too long, and its length. -/
def bounded (line : Bytes) : Option Bytes × Nat :=
  (if (body line).length ≤ maxLineBytes then some (body line) else none, line.length)

/-- The state in a line, after a part of it. -/
def stateOf (part : Bytes) : LineState :=
  if part.length ≤ maxLineBytes then ⟨part, false, part.length⟩ else ⟨[], true, part.length⟩

theorem body_ended (part : Bytes) : body (part ++ [newline]) = part := by
  simp [body]

theorem body_open {part : Bytes} (h : newline ∉ part) : body part = part :=
  if_neg fun hlast => h (List.mem_of_getLast? hlast)

theorem stateOf_add (part fragment : Bytes) (ended : Bool) : (stateOf part).add fragment ended =
    { stateOf (part ++ fragment) with
      lineBytes := (part ++ fragment).length + if ended then 1 else 0 } := by
  unfold stateOf LineState.add
  rw [List.length_append]
  by_cases hpart : part.length ≤ maxLineBytes
  · rw [if_pos hpart]
    by_cases hboth : part.length + fragment.length ≤ maxLineBytes
    · simp [hboth]
    · simp [hboth]
  · have hboth : ¬part.length + fragment.length ≤ maxLineBytes := by omega
    simp [hpart, hboth]

theorem stateOf_emit (part : Bytes) (n : Nat) : ({ stateOf part with lineBytes := n } : LineState).emit =
    (if part.length ≤ maxLineBytes then some part else none, n) := by
  unfold stateOf LineState.emit
  split <;> rfl

theorem stateOf_rest {part : Bytes} (h : newline ∉ part) :
    (stateOf part).rest = (cutAfter newline part).map bounded := by
  by_cases hne : part = []
  · rw [hne]
    rfl
  · have hlength : (stateOf part).lineBytes = part.length := by
      unfold stateOf
      split <;> rfl
    have hsome : (stateOf part).lineBytes ≠ 0 := by
      rw [hlength]
      exact mt List.length_eq_zero_iff.mp hne
    have hemit := stateOf_emit part part.length
    rw [← hlength] at hemit
    rw [LineState.rest, if_pos (.inl hsome), cutAfter_last h hne, List.map_singleton, bounded,
      body_open h, ← hlength]
    exact congrArg ([·]) hemit

/-- A chunk gives the lines that end in it and leaves the part of the one that does not. -/
theorem splitChunk_spec (passes : Nat) {part chunk : Bytes} (hpasses : chunk.length < passes)
    (hpart : newline ∉ part) : ∃ lines part', newline ∉ part' ∧
      splitChunk passes (stateOf part) chunk = (lines.map bounded, stateOf part') ∧
      ∀ more, cutAfter newline (part ++ chunk ++ more) = lines ++ cutAfter newline (part' ++ more) := by
  induction passes generalizing part chunk with
  | zero => exact absurd hpasses (Nat.not_lt_zero _)
  | succ passes ih =>
    have htake : newline ∉ chunk.takeWhile (· ≠ newline) := fun hm => by
      simpa using List.mem_takeWhile_imp hm
    rw [splitChunk]
    cases hdrop : chunk.dropWhile (· ≠ newline) with
    | nil =>
      have hchunk : newline ∉ chunk := fun hm => by
        simpa using List.dropWhile_eq_nil_iff.mp hdrop newline hm
      refine ⟨[], part ++ chunk, fun hm => ?_, ?_, fun more => rfl⟩
      · exact (List.mem_append.mp hm).elim hpart hchunk
      · simp only
        rw [stateOf_add]
        unfold stateOf
        split <;> rfl
    | cons c rest =>
      obtain rfl : c = newline := by
        have hhead := List.head?_dropWhile_not (· ≠ newline) chunk
        rw [hdrop] at hhead
        simpa using hhead
      have hsplit : chunk = chunk.takeWhile (· ≠ newline) ++ newline :: rest := by
        rw [← hdrop, List.takeWhile_append_dropWhile]
      have hlength := congrArg List.length hsplit
      rw [List.length_append, List.length_cons] at hlength
      obtain ⟨lines, part', hpart', hrun, hlines⟩ :=
        @ih [] rest (by omega) List.not_mem_nil
      have hline : newline ∉ part ++ chunk.takeWhile (· ≠ newline) := fun hm =>
        (List.mem_append.mp hm).elim hpart htake
      refine ⟨(part ++ chunk.takeWhile (· ≠ newline) ++ [newline]) :: lines, part', hpart', ?_,
        fun more => ?_⟩
      · change (_ :: (splitChunk passes (stateOf []) rest).1, (splitChunk passes (stateOf []) rest).2) = _
        rw [hrun, stateOf_add, stateOf_emit, List.map_cons, bounded, body_ended]
        simp [Nat.add_assoc]
      · conv_lhs => rw [hsplit]
        have hcut := cutAfter_line hline (rest ++ more)
        rw [List.cons_append, ← hlines more, List.nil_append, ← hcut]
        simp

/-- **The lines do not depend on the chunks.** -/
theorem boundedLines_eq {chunks : List Bytes} (hchunks : ∀ chunk ∈ chunks, chunk ≠ []) {part : Bytes}
    (hpart : newline ∉ part) : boundedLines (stateOf part) chunks =
      (cutAfter newline (part ++ chunks.flatten)).map bounded := by
  induction chunks generalizing part with
  | nil =>
    rw [boundedLines, stateOf_rest hpart, List.flatten_nil, List.append_nil]
  | cons chunk chunks ih =>
    obtain ⟨lines, part', hpart', hrun, hlines⟩ :=
      splitChunk_spec (chunk.length + 1) (Nat.lt_succ_self chunk.length) hpart
    have hrest := ih (fun c hc => hchunks c (List.mem_cons_of_mem _ hc)) hpart'
    rw [boundedLines, if_neg (hchunks chunk List.mem_cons_self), hrun]
    simp only
    rw [hrest, List.flatten_cons, ← List.append_assoc, hlines, List.map_append]

/-- The window that `_tail_start` finds, and the lines that are read from it. -/
theorem telemetry_tail (content : Bytes) {tail : Nat} (htail : 1 ≤ tail) :
    ((tailStart content tail).exact = true → content.drop (tailStart content tail).start =
        ((physicalLines content).rtake (min tail (physicalLines content).length)).flatten) ∧
      ((tailStart content tail).exact = false → ∃ k, content.drop (tailStart content tail).start =
        ((physicalLines content).rtake k).flatten) ∧
      ∀ chunks : List Bytes, (∀ chunk ∈ chunks, chunk ≠ []) → chunks.flatten = content →
        boundedLines {} chunks = (physicalLines content).map bounded := by
  obtain ⟨hexact, hpart⟩ := tailStart_window content htail
  refine ⟨hexact, hpart, fun chunks hchunks hcontent => ?_⟩
  rw [← hcontent]
  exact @boundedLines_eq chunks hchunks [] List.not_mem_nil

/-- The last line of two. -/
theorem telemetry_tail_sample :
    (tailStart [97, 10, 98] 1).exact = true ∧
      ((tailStart [97, 10, 98] 1).exact = true → [97, 10, 98].drop (tailStart [97, 10, 98] 1).start =
        ((physicalLines [97, 10, 98]).rtake (min 1 (physicalLines [97, 10, 98]).length)).flatten) :=
  ⟨by decide, (telemetry_tail [97, 10, 98] (by decide)).1⟩

end Dt.Telemetry
