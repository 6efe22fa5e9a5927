import Mathlib
import Dt.Lib.CutLines

/-!
# The tail of a telemetry file

A summary of the last records of a job looks for the beginning of its window from the end of the file,
block by block and within a budget of bytes, and then reads the window line by line in bounded memory.
A file that ends with a line feed has no empty line behind it.
-/

namespace Dt.Telemetry

open Dt.Lib

abbrev Bytes := List UInt8

def newline : UInt8 := 0x0a

def maxLineBytes : Nat := 1024 * 1024

def maxTailScanBytes : Nat := 8 * 1024 * 1024

/-- `block_size` -/
def blockSize : Nat := 64 * 1024

/-- What `_tail_start` returns. -/
structure Window where
  start : Nat
  totalKnown : Bool
  bytesRead : Nat
  exact : Bool

/-! ## The scan -/

/-- What the scan of a block comes to: the window, or the delimiters seen and the oldest one. -/
inductive Scan where
  | found (start : Nat)
  | more (seen : Nat) (oldest : Option Nat)

/-- The loop over the offsets of a block, from the given one down. -/
def scanBlock (needed start : Nat) (block : Bytes) : Nat → Nat → Option Nat → Scan
  | 0, seen, oldest => .more seen oldest
  | offset + 1, seen, oldest =>
    if block[offset]? ≠ some newline then scanBlock needed start block offset seen oldest
    else if seen + 1 = needed then .found (start + offset + 1)
    else scanBlock needed start block offset (seen + 1) (some (start + offset))

/-- What follows the loop over the blocks. -/
def afterScan (content : Bytes) (cursor bytesRead : Nat) (oldest : Option Nat) : Window :=
  if cursor = 0 then ⟨0, true, bytesRead, true⟩
  else ⟨oldest.elim content.length (· + 1), false, bytesRead, false⟩

/-- The loop over the blocks; each pass moves the cursor, so the fuel is enough when it is the cursor. -/
def scanBlocks (content : Bytes) (needed : Nat) : Nat → Nat → Nat → Nat → Option Nat → Window
  | 0, cursor, bytesRead, _, oldest => afterScan content cursor bytesRead oldest
  | fuel + 1, cursor, bytesRead, seen, oldest =>
    if cursor ≠ 0 ∧ bytesRead < maxTailScanBytes then
      let budget := maxTailScanBytes - bytesRead
      let start := cursor - min blockSize budget
      let block := (content.drop start).take (cursor - start)
      match scanBlock needed start block block.length seen oldest with
      | .found p => ⟨p, false, bytesRead + block.length, true⟩
      | .more seen oldest => scanBlocks content needed fuel start (bytesRead + block.length) seen oldest
    else afterScan content cursor bytesRead oldest

def delimitersNeeded (content : Bytes) (tail : Nat) : Nat :=
  tail + if content[content.length - 1]? = some newline then 1 else 0

/-- `_tail_start` -/
def tailStart (content : Bytes) (tail : Nat) : Window :=
  if content.length = 0 then ⟨0, true, 0, true⟩
  else scanBlocks content (delimitersNeeded content tail) content.length content.length 1 0 none

/-- The physical lines of a file. -/
def physicalLines (content : Bytes) : List Bytes := cutAfter newline content

/-- What is behind the cursor: fewer delimiters than needed. -/
structure Scanned (content : Bytes) (needed cursor seen : Nat) (oldest : Option Nat) : Prop where
  inside : cursor ≤ content.length
  count : seen = (content.drop cursor).count newline
  few : seen < needed
  delimiter : ∀ p, oldest = some p → content[p]? = some newline

/-- The last delimiter that is needed is right before the window. -/
def Starts (content : Bytes) (needed start : Nat) : Prop :=
  ∃ q, start = q + 1 ∧ content[q]? = some newline ∧ (content.drop start).count newline + 1 = needed

section

variable {content : Bytes} {needed start : Nat}

theorem drop_of_getElem? {q : Nat} {b : UInt8} (h : content[q]? = some b) :
    content.drop q = b :: content.drop (q + 1) := by
  obtain ⟨hlt, hb⟩ := List.getElem?_eq_some_iff.mp h
  rw [List.drop_eq_getElem_cons hlt, hb]

/-- The byte in front of the cursor. -/
theorem scanned_byte {cursor seen : Nat} {oldest : Option Nat} {b : UInt8}
    (h : Scanned content needed (cursor + 1) seen oldest) (hb : content[cursor]? = some b) :
    (content.drop cursor).count newline = seen + if b = newline then 1 else 0 := by
  rw [drop_of_getElem? hb, List.count_cons, ← h.count]
  simp

/-- A block: the window starts in it, or all of it is scanned. -/
theorem scanBlock_spec {block : Bytes} (hblock : ∀ k < block.length, block[k]? = content[start + k]?)
    (hinside : start + block.length ≤ content.length) (offset : Nat) (hoffset : offset ≤ block.length)
    {seen : Nat} {oldest : Option Nat} (h : Scanned content needed (start + offset) seen oldest) :
    (∃ p, scanBlock needed start block offset seen oldest = .found p ∧ Starts content needed p) ∨
      ∃ seen' oldest', scanBlock needed start block offset seen oldest = .more seen' oldest' ∧
        Scanned content needed start seen' oldest' := by
  induction offset generalizing seen oldest with
  | zero => exact .inr ⟨seen, oldest, rfl, h⟩
  | succ offset ih =>
    have hlt : start + offset < content.length := by omega
    obtain ⟨b, hb⟩ : ∃ b, content[start + offset]? = some b := ⟨_, List.getElem?_eq_getElem hlt⟩
    have hcount := scanned_byte h hb
    rw [scanBlock, hblock offset (by omega), hb]
    by_cases hnew : b = newline
    · rw [if_neg (by simp [hnew])]
      rw [if_pos hnew] at hcount
      split
      · rename_i hneeded
        refine .inl ⟨_, rfl, start + offset, rfl, hnew ▸ hb, ?_⟩
        rw [Nat.add_assoc, ← h.count, hneeded]
      · rename_i hneeded
        refine ih (by omega) ⟨hlt.le, hcount.symm, ?_, fun p hp => ?_⟩
        · have := h.few
          omega
        · obtain rfl := Option.some.inj hp
          exact hnew ▸ hb
    · rw [if_pos (by simpa using hnew)]
      rw [if_neg hnew] at hcount
      exact ih (by omega) ⟨hlt.le, hcount.symm, h.few, h.delimiter⟩

/-- The window starts behind a needed delimiter, is the whole file with fewer of them, or starts behind
some line. -/
inductive WindowOk (content : Bytes) (needed : Nat) : Window → Prop where
  | found {w : Window} (hexact : w.exact = true) (h : Starts content needed w.start) :
      WindowOk content needed w
  | whole {w : Window} (hexact : w.exact = true) (hstart : w.start = 0)
      (hfew : content.count newline < needed) : WindowOk content needed w
  | line {w : Window} {p : Nat} (hexact : w.exact = false) (hstart : w.start = p + 1)
      (hp : content[p]? = some newline) : WindowOk content needed w
  | nothing {w : Window} (hexact : w.exact = false) (hstart : w.start = content.length) :
      WindowOk content needed w

theorem afterScan_ok {cursor bytesRead seen : Nat} {oldest : Option Nat}
    (h : Scanned content needed cursor seen oldest) :
    WindowOk content needed (afterScan content cursor bytesRead oldest) := by
  unfold afterScan
  split
  · rename_i hzero
    refine .whole rfl rfl ?_
    have hfew := h.few
    rwa [h.count, hzero, List.drop_zero] at hfew
  · cases hold : oldest with
    | none => exact .nothing rfl rfl
    | some p => exact .line rfl rfl (h.delimiter p hold)

theorem scanBlocks_ok (fuel : Nat) {cursor bytesRead seen : Nat} {oldest : Option Nat}
    (h : Scanned content needed cursor seen oldest) :
    WindowOk content needed (scanBlocks content needed fuel cursor bytesRead seen oldest) := by
  induction fuel generalizing cursor bytesRead seen oldest with
  | zero => exact afterScan_ok h
  | succ fuel ih =>
    rw [scanBlocks]
    split
    · obtain ⟨first, hfirst⟩ : ∃ first,
          first = cursor - min blockSize (maxTailScanBytes - bytesRead) := ⟨_, rfl⟩
      obtain ⟨block, hblock⟩ : ∃ block, block = (content.drop first).take (cursor - first) := ⟨_, rfl⟩
      have hcursor := h.inside
      have hlength : block.length = cursor - first := by
        rw [hblock, List.length_take, List.length_drop]
        omega
      have hget : ∀ k < block.length, block[k]? = content[first + k]? := by
        rintro k hk
        rw [hblock, List.getElem?_take_of_lt (hlength ▸ hk), List.getElem?_drop]
      simp only [← hfirst, ← hblock]
      have hscan := @scanBlock_spec content needed first block hget (by omega) block.length le_rfl
        seen oldest (by rwa [hlength, Nat.add_sub_cancel' (by omega)])
      rcases hscan with ⟨p, hp, hstarts⟩ | ⟨seen', oldest', hp, hscanned⟩
      · rw [hp]
        exact .found rfl hstarts
      · rw [hp]
        exact ih hscanned
    · exact afterScan_ok h

end

theorem tailStart_ok (content : Bytes) {tail : Nat} (htail : 1 ≤ tail) (hne : content ≠ []) :
    WindowOk content (delimitersNeeded content tail) (tailStart content tail) := by
  rw [tailStart, if_neg (mt List.length_eq_zero_iff.mp hne)]
  refine scanBlocks_ok _ ⟨le_rfl, ?_, ?_, fun p hp => ?_⟩
  · rw [List.drop_length]
    rfl
  · exact htail.trans (Nat.le_add_right _ _)
  · cases hp

/-! ## The lines of the window -/

section

variable {content : Bytes} {tail : Nat}

/-- What is behind a delimiter is the last lines. -/
theorem drop_eq_rtake {q : Nat} (hq : content[q]? = some newline) :
    content.drop (q + 1) =
        ((physicalLines content).rtake (physicalLines (content.drop (q + 1))).length).flatten ∧
      (physicalLines (content.drop (q + 1))).length ≤ (physicalLines content).length := by
  have hsplit : content = content.take q ++ newline :: content.drop (q + 1) := by
    rw [← drop_of_getElem? hq, List.take_append_drop]
  have hlines : physicalLines content =
      cutAfter newline (content.take q ++ [newline]) ++ physicalLines (content.drop (q + 1)) := by
    conv_lhs => rw [hsplit]
    exact cutAfter_append _ _
  constructor
  · rw [hlines, rtake_append, rtake_of_length_le le_rfl, Nat.sub_self, List.rtake_zero, List.nil_append,
      physicalLines, cutAfter_flatten]
  · rw [hlines, List.length_append]
    exact Nat.le_add_left _ _

/-- The number of lines of the file, or of an end of it, from its delimiters. -/
theorem length_physicalLines {start : Nat} (h : content.drop start ≠ []) :
    (physicalLines (content.drop start)).length = (content.drop start).count newline +
      if content[content.length - 1]? = some newline then 0 else 1 := by
  have hlast : (content.drop start).getLast? = content[content.length - 1]? := by
    rw [List.getLast?_drop, if_neg (by simpa using h), List.getLast?_eq_getElem?]
  rw [physicalLines, length_cutAfter, hlast]
  simp only [h, false_or]

theorem drop_ne_nil_of_starts {start : Nat} (htail : 1 ≤ tail)
    (h : Starts content (delimitersNeeded content tail) start) : content.drop start ≠ [] := by
  obtain ⟨q, rfl, hq, hcount⟩ := h
  intro hnil
  rw [hnil, delimitersNeeded] at hcount
  have hlast : q = content.length - 1 := by
    have hlt := (List.getElem?_eq_some_iff.mp hq).1
    have hle := List.drop_eq_nil_iff.mp hnil
    omega
  rw [← hlast, if_pos hq, List.count_nil] at hcount
  omega

/-- **The window**: the last lines of the file when it is reported exact, and else whole lines. -/
theorem tailStart_window (content : Bytes) (htail : 1 ≤ tail) :
    ((tailStart content tail).exact = true → content.drop (tailStart content tail).start =
        ((physicalLines content).rtake (min tail (physicalLines content).length)).flatten) ∧
      ((tailStart content tail).exact = false → ∃ k, content.drop (tailStart content tail).start =
        ((physicalLines content).rtake k).flatten) := by
  by_cases hne : content = []
  · subst hne
    refine ⟨fun _ => ?_, fun hexact => ?_⟩
    · simp [physicalLines, cutAfter, List.rtake]
    · cases hexact
  have hok := tailStart_ok content htail hne
  generalize tailStart content tail = w at hok ⊢
  have hall := @length_physicalLines content 0 (by simpa using hne)
  rw [List.drop_zero] at hall
  cases hok with
  | found hexact hstarts =>
    refine ⟨fun _ => ?_, fun hf => absurd (hexact.symm.trans hf) (by decide)⟩
    have hlength := length_physicalLines (drop_ne_nil_of_starts htail hstarts)
    obtain ⟨q, hq, hnew, hcount⟩ := hstarts
    have htotal : (physicalLines (content.drop w.start)).length = tail := by
      rw [hlength]
      rw [delimitersNeeded] at hcount
      split <;> rename_i hlast
      · rw [if_pos hlast] at hcount
        omega
      · rw [if_neg hlast] at hcount
        omega
    obtain ⟨hdrop, hle⟩ := drop_eq_rtake hnew
    rw [← hq, htotal] at hdrop hle
    rw [Nat.min_eq_left hle]
    exact hdrop
  | whole hexact hstart hfew =>
    refine ⟨fun _ => ?_, fun hf => absurd (hexact.symm.trans hf) (by decide)⟩
    have hle : (physicalLines content).length ≤ tail := by
      rw [hall]
      rw [delimitersNeeded] at hfew
      split <;> rename_i hlast
      · rw [if_pos hlast] at hfew
        omega
      · rw [if_neg hlast] at hfew
        omega
    rw [hstart, List.drop_zero, Nat.min_eq_right hle, rtake_of_length_le le_rfl, physicalLines,
      cutAfter_flatten]
  | line hexact hstart hp =>
    refine ⟨fun ht => absurd (hexact.symm.trans ht) (by decide), fun _ => ?_⟩
    rw [hstart]
    exact ⟨_, (drop_eq_rtake hp).1⟩
  | nothing hexact hstart =>
    refine ⟨fun ht => absurd (hexact.symm.trans ht) (by decide), fun _ => ⟨0, ?_⟩⟩
    rw [hstart, List.drop_length, List.rtake_zero, List.flatten_nil]

end

end Dt.Telemetry
