import Dt.Lib.Tails
import Dt.Logs.Capture

/-!
# The tail of a captured log

The reader goes back from the newest generation until its byte budget is used up, and takes the last
lines of what it has read. What it gives is the tail of all retained bytes, wherever the boundaries
between the files are.
-/

namespace Dt.Logs

open Dt.Lib

/-- `s[-n:]` -/
def lastItems {α : Type} (n : Nat) (s : List α) : List α := if n = 0 then s else s.rtake n

/-- `_read_suffix_at` -/
def readSuffixAt (dir : Dir) (name maxBytes : Nat) : Bytes := ((dir name).getD []).rtake maxBytes

/-- The loop of `tail` over the names: the chunks, newest first. -/
def newestFirst (dir : Dir) : List Nat → Nat → List Bytes
  | [], _ => []
  | name :: names, remaining =>
    let chunk := readSuffixAt dir name remaining
    let rest := remaining - chunk.length
    (if chunk = [] then [] else [chunk]) ++ if rest = 0 then [] else newestFirst dir names rest

/-- The last bytes of the last lines. -/
def tailOf (lines maxBytes : Nat) (logical : Bytes) : Bytes :=
  lastItems maxBytes (lastItems lines (splitKeepEnds logical)).flatten

def tail (dir : Dir) (lines maxBytes : Nat) : Bytes :=
  tailOf lines maxBytes (newestFirst dir (List.range maxKeepFiles) maxBytes).reverse.flatten

/-- The retained bytes, oldest first. -/
def retained (dir : Dir) : Bytes :=
  ((List.range maxKeepFiles).map fun name => (dir name).getD []).reverse.flatten

theorem flatten_newestFirst (dir : Dir) (names : List Nat) (n : Nat) :
    (newestFirst dir names n).reverse.flatten =
      ((names.map fun name => (dir name).getD []).reverse.flatten).rtake n := by
  induction names generalizing n with
  | nil => simp [newestFirst, List.rtake]
  | cons name names ih =>
    have hchunk : ∀ chunk : Bytes, (if chunk = [] then [] else [chunk]).flatten = chunk := by
      intro chunk
      split
      · rename_i hnil
        rw [hnil]
        rfl
      · exact List.append_nil _
    have hlen := length_rtake n ((dir name).getD [])
    have hsingle : ∀ chunk : Bytes, (if chunk = [] then [] else [chunk]).reverse =
        if chunk = [] then [] else [chunk] := by
      intro chunk
      split <;> rfl
    rw [newestFirst, List.reverse_append, List.flatten_append, hsingle, hchunk, List.map_cons,
      List.reverse_cons, List.flatten_append, rtake_append, List.flatten_singleton]
    congr 1
    rw [readSuffixAt, hlen]
    split
    · -- the budget is used up
      rename_i hzero
      have hnone : n - ((dir name).getD []).length = 0 := by omega
      rw [hnone]
      simp [List.rtake]
    · have hrest : n - min n ((dir name).getD []).length = n - ((dir name).getD []).length := by omega
      rw [ih, hrest]

/-- The reader gives the tail of all retained bytes. -/
theorem tail_eq (dir : Dir) {lines maxBytes : Nat} (hlines : 1 ≤ lines) (hbytes : 1 ≤ maxBytes) :
    tail dir lines maxBytes = tailOf lines maxBytes (retained dir) := by
  have hl : lines ≠ 0 := Nat.one_le_iff_ne_zero.mp hlines
  have hb : maxBytes ≠ 0 := Nat.one_le_iff_ne_zero.mp hbytes
  have htail : ∀ s, tailOf lines maxBytes s = (lastOf splitKeepEnds lines s).rtake maxBytes := by
    intro s
    rw [tailOf, lastItems, lastItems, if_neg hl, if_neg hb]
    rfl
  rw [tail, flatten_newestFirst, htail, htail]
  exact rtake_lastOf_rtake splits_splitKeepEnds lines maxBytes (retained dir)

theorem map_getD_range {gens : List Bytes} {k : Nat} (h : gens.length ≤ k) :
    (List.range k).map (fun n => gens[n]?.getD []) = gens ++ List.replicate (k - gens.length) [] := by
  refine List.ext_getElem (by simp [h]) fun n hn _ => ?_
  rw [List.getElem_map, List.getElem_range, List.getElem_append]
  split
  · rename_i hlt
    rw [List.getElem?_eq_getElem hlt]
    rfl
  · rename_i hge
    rw [List.getElem?_eq_none (not_lt.mp hge), List.getElem_replicate]
    rfl

theorem Holds.retained {dir : Dir} {gens : List Bytes} (h : Holds dir gens)
    (hlen : gens.length ≤ maxKeepFiles) : Logs.retained dir = gens.reverse.flatten := by
  have hfiles : (List.range maxKeepFiles).map (fun name => (dir name).getD []) =
      gens ++ List.replicate (maxKeepFiles - gens.length) [] := by
    rw [← map_getD_range hlen]
    exact List.map_congr_left fun n _ => congrArg (Option.getD · []) (h n)
  rw [Logs.retained, hfiles, List.reverse_append, List.reverse_replicate, List.flatten_append,
    List.flatten_replicate_nil, List.nil_append]

/-! ## Every run -/

/-- The files of a log keep the limits, and what they retain is the end of `written`, of which only
whole generations are lost, and these only from a full set. -/
structure WellKept (l : Limits) (dir : Dir) (written : Bytes) : Prop where
  bounded : ∀ n bytes, dir n = some bytes → bytes.length ≤ l.maxBytes
  few : ∀ n, l.keepFiles ≤ n → dir n = none
  suffix : ∃ lost : List Bytes, (∀ g ∈ lost, g.length = l.maxBytes) ∧
    (lost ≠ [] → ∀ n < l.keepFiles, (dir n).isSome) ∧ written = lost.flatten ++ retained dir

theorem Kept.wellKept {l : Limits} {dir : Dir} {gens lost : List Bytes} {written : Bytes}
    (h : Kept l dir gens lost written) : WellKept l dir written where
  bounded n bytes hn := by
    rw [h.holds] at hn
    exact h.bound bytes (List.mem_of_getElem? hn)
  few n hn := by
    rw [h.holds]
    exact List.getElem?_eq_none (h.count.trans hn)
  suffix := by
    refine ⟨lost, h.lostFull, fun hne n hn => ?_, ?_⟩
    · rw [h.holds, Option.isSome_iff_exists]
      exact ⟨_, List.getElem?_eq_getElem (hn.trans_eq (h.lostLate hne).symm)⟩
    · rw [h.holds.retained (h.count.trans l.keepFiles_bounds.2)]
      exact h.stream

/-- After each write of a capture the log is well kept and its tail is the tail of what it retains;
the capture of every stream goes through to its end. -/
theorem log_capture_tail (l : Limits) (blocks : List Bytes) :
    (∀ s, Reach (step l) (Starts blocks) s →
      s.written ++ s.view ++ s.blocks.flatten = blocks.flatten ∧ WellKept l s.dir s.written ∧
        ∀ lines maxBytes, 1 ≤ lines → 1 ≤ maxBytes →
          tail s.dir lines maxBytes = tailOf lines maxBytes (retained s.dir)) ∧
    ∃ dir, capture l (fun _ => none) blocks = .ok dir ∧
      Reach (step l) (Starts blocks) ⟨dir, [], [], blocks.flatten⟩ := by
  refine ⟨fun s hs => ?_, capture_run l blocks⟩
  obtain ⟨⟨gens, lost, hkept⟩, hstream⟩ := inv_of_reach hs
  exact ⟨hstream, hkept.wellKept, fun lines maxBytes hlines hbytes => tail_eq s.dir hlines hbytes⟩

/-- Two files of two bytes. -/
def smallLimits : Limits := ⟨2, 2, by decide, by decide⟩

/-- Five bytes in two blocks: the first file is lost. -/
theorem log_capture_tail_sample :
    ∃ dir, capture smallLimits (fun _ => none) [[97, 10, 98], [99, 10]] = .ok dir ∧
      WellKept smallLimits dir [97, 10, 98, 99, 10] ∧
        tail dir 1 2 = tailOf 1 2 (retained dir) := by
  obtain ⟨hstates, dir, hcapture, hreach⟩ := log_capture_tail smallLimits [[97, 10, 98], [99, 10]]
  obtain ⟨-, hkept, htail⟩ := hstates _ hreach
  exact ⟨dir, hcapture, hkept, htail 1 2 (by decide) (by decide)⟩

end Dt.Logs
