import Dt.Lib.Machine
import Mathlib.Data.List.DropRight
import Mathlib.Logic.Function.Basic

/-!
# Bounded capture of a log

The output of a job goes into a current file and at most `keep_files - 1` rotated generations of it.
A full file is rotated before the next byte is written: the oldest generation is unlinked and the
others move up by one.

The directory stands for a list of generations, newest first (`Holds`). All but the newest one are
full, and rotating drops the oldest one of a full set, so what is retained is the end of the stream
from a boundary between generations on.
-/

namespace Dt.Logs

open Dt.Lib

abbrev Bytes := List UInt8

def maxFileBytes : Nat := 256 * 1024 * 1024

def maxKeepFiles : Nat := 16

/-- The limits of a capture, as the command line checks them. -/
structure Limits where
  maxBytes : Nat
  keepFiles : Nat
  maxBytes_bounds : 1 ≤ maxBytes ∧ maxBytes ≤ maxFileBytes
  keepFiles_bounds : 1 ≤ keepFiles ∧ keepFiles ≤ maxKeepFiles

/-- The log: `0` is the current file and `n` is its generation with the suffix `.n`. -/
abbrev Dir := Nat → Option Bytes

/-! ## Rotation -/

/-- `_unlink_regular_at` -/
def unlinkRegularAt (dir : Dir) (generation : Nat) : Dir := Function.update dir generation none

/-- `os.replace` -/
def replace (dir : Dir) (source destination : Nat) : Dir :=
  Function.update (Function.update dir destination (dir source)) source none

/-- One pass of the loop of `_rotate`. -/
def moveUp (dir : Dir) (generation : Nat) : Dir :=
  if (dir generation).isNone then dir
  else replace (unlinkRegularAt dir (generation + 1)) generation (generation + 1)

/-- `_rotate` -/
def rotate (keepFiles : Nat) (dir : Dir) : Dir :=
  if (dir 0).isNone then dir
  else if keepFiles = 1 then unlinkRegularAt dir 0
  else replace ((List.range' 1 (keepFiles - 2)).reverse.foldl moveUp
    (unlinkRegularAt dir (keepFiles - 1))) 0 1

/-! ## Writing -/

/-- `os.fstat(output_fd).st_size` -/
def size (dir : Dir) : Nat := ((dir 0).getD []).length

/-- `_open_output`: a missing file is created. -/
def openOutput (l : Limits) (dir : Dir) : Except String Dir :=
  if l.maxBytes < size dir then .error "unsafe oversized current log"
  else .ok (Function.update dir 0 (some ((dir 0).getD [])))

/-- The checks before a write: the output still has its name, and it is not full. -/
def ready (l : Limits) (dir : Dir) : Except String Dir := do
  let dir ← if (dir 0).isSome then .ok dir else openOutput l dir
  if l.maxBytes ≤ size dir then openOutput l (rotate l.keepFiles dir) else .ok dir

/-- `os.write` at the end of the current file. -/
def append (dir : Dir) (bytes : Bytes) : Dir :=
  Function.update dir 0 (some ((dir 0).getD [] ++ bytes))

/-- The inner loop of `capture`: each pass writes a byte at least, so that a block needs at most as
many passes as it has bytes. -/
def writeBlock (l : Limits) : Nat → Dir → Bytes → Except String Dir
  | 0, dir, _ => .ok dir
  | passes + 1, dir, view =>
    if view = [] then .ok dir
    else do
      let dir ← ready l dir
      let take := min view.length (l.maxBytes - size dir)
      writeBlock l passes (append dir (view.take take)) (view.drop take)

/-- `capture` of the blocks of a stream. -/
def capture (l : Limits) (dir : Dir) (blocks : List Bytes) : Except String Dir := do
  let dir ← openOutput l dir
  blocks.foldlM (fun dir block => writeBlock l block.length dir block) dir

/-! ## Runs -/

/-- A capture between two writes; `written` is all that was written so far. -/
structure Capture where
  dir : Dir
  view : Bytes
  blocks : List Bytes
  written : Bytes

/-- The next block is read, or some bytes of the block are written; a write may be short. -/
inductive Op where
  | read
  | write (count : Nat)

def step (l : Limits) (s : Capture) : Op → Option Capture
  | .read =>
    match s.view, s.blocks with
    | [], block :: blocks => some { s with view := block, blocks := blocks }
    | _, _ => none
  | .write count =>
    match ready l s.dir with
    | .error _ => none
    | .ok dir =>
      if 1 ≤ count ∧ count ≤ min s.view.length (l.maxBytes - size dir) then
        some { s with
          dir := append dir (s.view.take count)
          view := s.view.drop count
          written := s.written ++ s.view.take count }
      else none

/-- An empty log and a stream that is not read yet. -/
def Starts (blocks : List Bytes) (s : Capture) : Prop :=
  s = ⟨fun n => if n = 0 then some [] else none, [], blocks, []⟩

/-! ## Generations -/

/-- The files of the directory are these generations, newest first. -/
def Holds (dir : Dir) (gens : List Bytes) : Prop := ∀ n, dir n = gens[n]?

theorem moveUp_apply (dir : Dir) (g n : Nat) (hfree : dir (g + 1) = none) :
    moveUp dir g n = if n = g + 1 then dir g else if n = g then none else dir n := by
  unfold moveUp
  split
  · rename_i hnone
    have hg : dir g = none := Option.isNone_iff_eq_none.mp hnone
    split
    · rename_i hn
      rw [hn, hfree, hg]
    · split
      · rename_i hn
        rw [hn, hg]
      · rfl
  · simp only [replace, unlinkRegularAt, Function.update_apply]
    by_cases hn : n = g + 1
    · subst hn
      simp
    · simp [hn]

/-- The loop moves the generations below a free one up. -/
theorem foldl_moveUp (m : Nat) (dir : Dir) (hfree : dir (m + 1) = none) (n : Nat) :
    (List.range' 1 m).reverse.foldl moveUp dir n =
      if n = 1 then none else if 2 ≤ n ∧ n ≤ m + 1 then dir (n - 1) else dir n := by
  induction m generalizing dir with
  | zero =>
    rw [List.range'_zero, List.reverse_nil, List.foldl_nil]
    split
    · rename_i hn
      rw [hn, hfree]
    · rw [if_neg (by omega)]
  | succ m ih =>
    have hrange : (List.range' 1 (m + 1)).reverse = (m + 1) :: (List.range' 1 m).reverse := by
      rw [List.range'_concat, List.reverse_append]
      simp [Nat.add_comm]
    have hmoved := fun k => moveUp_apply dir (m + 1) k hfree
    have hfree' : moveUp dir (m + 1) (m + 1) = none := by rw [hmoved, if_neg (by omega), if_pos rfl]
    rw [hrange, List.foldl_cons, ih (moveUp dir (m + 1)) hfree', hmoved, hmoved]
    by_cases h1 : n = 1
    · rw [if_pos h1, if_pos h1]
    rw [if_neg h1, if_neg h1]
    by_cases hlow : 2 ≤ n ∧ n ≤ m + 1
    · have h2 : ¬ n - 1 = m + 1 + 1 := by omega
      have h3 : ¬ n - 1 = m + 1 := by omega
      have h4 : 2 ≤ n ∧ n ≤ m + 1 + 1 := by omega
      simp only [if_pos hlow, if_neg h2, if_neg h3, if_pos h4]
    · rw [if_neg hlow]
      by_cases hm : n = m + 1 + 1
      · have h2 : 2 ≤ n ∧ n ≤ m + 1 + 1 := by omega
        rw [if_pos hm, if_pos h2, hm]
        rfl
      · have h2 : ¬ n = m + 1 := by omega
        have h3 : ¬ (2 ≤ n ∧ n ≤ m + 1 + 1) := by omega
        simp only [if_neg hm, if_neg h2, if_neg h3]

/-- Where the files are after a rotation. -/
theorem rotate_apply {keepFiles : Nat} (hkeep : 1 ≤ keepFiles) {dir : Dir} (h0 : (dir 0).isSome)
    (n : Nat) : rotate keepFiles dir n =
      if n = 0 then none else if n < keepFiles then dir (n - 1) else dir n := by
  unfold rotate
  rw [if_neg (by rw [Option.isNone_iff_eq_none, ← ne_eq, Option.ne_none_iff_isSome]; exact h0)]
  split
  · rename_i hone
    rw [unlinkRegularAt, Function.update_apply]
    split
    · rfl
    · rw [if_neg (by omega)]
  · have hfree : unlinkRegularAt dir (keepFiles - 1) (keepFiles - 2 + 1) = none := by
      rw [unlinkRegularAt, Function.update_apply, if_pos (by omega)]
    rw [replace, Function.update_apply, Function.update_apply, foldl_moveUp _ _ hfree,
      foldl_moveUp _ _ hfree]
    simp only [unlinkRegularAt, Function.update_apply]
    by_cases hn : n = 0
    · rw [if_pos hn, if_pos hn]
    rw [if_neg hn, if_neg hn]
    by_cases h1 : n = 1
    · have hpos : 1 < keepFiles := by omega
      have hlast : ¬ 0 = keepFiles - 1 := by omega
      simp [h1, hpos, hlast]
    · rw [if_neg h1, if_neg h1]
      by_cases hlow : n < keepFiles
      · have hrange : 2 ≤ n ∧ n ≤ keepFiles - 2 + 1 := by omega
        rw [if_pos hrange, if_pos hlow, if_neg (by omega)]
      · have hrange : ¬ (2 ≤ n ∧ n ≤ keepFiles - 2 + 1) := by omega
        rw [if_neg hrange, if_neg hlow, if_neg (by omega)]

variable {l : Limits} {dir : Dir} {gens : List Bytes} {g : Bytes}

theorem Holds.size (h : Holds dir (g :: gens)) : size dir = g.length := by
  rw [Logs.size, h 0]
  rfl

theorem Holds.rotate (h : Holds dir (g :: gens)) (hlen : (g :: gens).length ≤ l.keepFiles) :
    ∀ n, Logs.rotate l.keepFiles dir n =
      if n = 0 then none else ((g :: gens).take (l.keepFiles - 1))[n - 1]? := by
  intro n
  have h0 : (dir 0).isSome := by rw [h 0]; rfl
  rw [rotate_apply l.keepFiles_bounds.1 h0]
  by_cases hn : n = 0
  · rw [if_pos hn, if_pos hn]
  rw [if_neg hn, if_neg hn]
  by_cases hlow : n < l.keepFiles
  · rw [if_pos hlow, h, List.getElem?_take_of_lt (by omega)]
  · have hnone : (g :: gens)[n]? = none := List.getElem?_eq_none (by omega)
    have htake : ((g :: gens).take (l.keepFiles - 1))[n - 1]? = none :=
      List.getElem?_eq_none (by rw [List.length_take]; omega)
    rw [if_neg hlow, h, hnone, htake]

/-! ## What a capture keeps -/

/-- The directory after `written`: all generations but the newest are full, and what is not retained
are whole generations. -/
structure Kept (l : Limits) (dir : Dir) (gens lost : List Bytes) (written : Bytes) : Prop where
  holds : Holds dir gens
  ne_nil : gens ≠ []
  count : gens.length ≤ l.keepFiles
  bound : ∀ g ∈ gens, g.length ≤ l.maxBytes
  full : ∀ g ∈ gens.tail, g.length = l.maxBytes
  lostFull : ∀ g ∈ lost, g.length = l.maxBytes
  lostLate : lost ≠ [] → gens.length = l.keepFiles
  stream : written = lost.flatten ++ gens.reverse.flatten

variable {lost : List Bytes} {written : Bytes}

theorem kept_start (l : Limits) : Kept l (fun n => if n = 0 then some [] else none) [[]] [] [] where
  holds n := by cases n <;> rfl
  ne_nil := List.cons_ne_nil _ _
  count := l.keepFiles_bounds.1
  bound g hg := by
    rw [List.mem_singleton.mp hg]
    exact Nat.zero_le _
  full _ hg := absurd hg List.not_mem_nil
  lostFull _ hg := absurd hg List.not_mem_nil
  lostLate h := absurd rfl h
  stream := rfl

/-- A full log is rotated: the oldest generation of a full set is lost. -/
theorem Kept.rotated (h : Kept l dir (g :: gens) lost written) (hfull : l.maxBytes ≤ g.length) :
    Kept l (Function.update (rotate l.keepFiles dir) 0 (some []))
      ([] :: (g :: gens).take (l.keepFiles - 1))
      (lost ++ ((g :: gens).drop (l.keepFiles - 1)).reverse) written := by
  have hkeep := l.keepFiles_bounds.1
  have hcount := h.count
  have hall : ∀ x ∈ g :: gens, x.length = l.maxBytes := by
    refine List.forall_mem_cons.mpr ⟨?_, h.full⟩
    exact le_antisymm (h.bound g List.mem_cons_self) hfull
  constructor
  · intro n
    rw [Function.update_apply, h.holds.rotate h.count]
    cases n with
    | zero => rfl
    | succ n => rfl
  · exact List.cons_ne_nil _ _
  · rw [List.length_cons, List.length_take]
    omega
  · refine List.forall_mem_cons.mpr ⟨Nat.zero_le _, fun x hx => ?_⟩
    exact (hall x (List.mem_of_mem_take hx)).le
  · exact fun x hx => hall x (List.mem_of_mem_take hx)
  · intro x hx
    rcases List.mem_append.mp hx with hx | hx
    · exact h.lostFull x hx
    · exact hall x (List.mem_of_mem_drop (List.mem_reverse.mp hx))
  · intro hne
    rw [List.length_cons, List.length_take]
    by_cases hlost : lost = []
    · have hdrop : (g :: gens).drop (l.keepFiles - 1) ≠ [] := by
        intro hnil
        rw [hlost, hnil] at hne
        exact hne rfl
      have hlong : ¬ (g :: gens).length ≤ l.keepFiles - 1 := fun hle =>
        hdrop (List.drop_eq_nil_of_le hle)
      omega
    · have hlen := h.lostLate hlost
      omega
  · have hparts : (g :: gens).reverse.flatten = ((g :: gens).drop (l.keepFiles - 1)).reverse.flatten ++
        ((g :: gens).take (l.keepFiles - 1)).reverse.flatten := by
      rw [← List.flatten_append, ← List.reverse_append, List.take_append_drop]
    rw [h.stream, hparts, List.reverse_cons, List.flatten_append, List.flatten_append]
    simp

/-- The checks before a write go through, and leave room. -/
theorem Kept.ready (h : Kept l dir gens lost written) :
    ∃ dir' gens' lost', Logs.ready l dir = .ok dir' ∧ Kept l dir' gens' lost' written ∧
      size dir' < l.maxBytes := by
  obtain ⟨g, gens, rfl⟩ := List.exists_cons_of_ne_nil h.ne_nil
  have h0 : (dir 0).isSome := by rw [h.holds 0]; rfl
  have hsize := h.holds.size
  have hready : Logs.ready l dir =
      if l.maxBytes ≤ size dir then openOutput l (rotate l.keepFiles dir) else .ok dir := by
    simp only [Logs.ready, h0, if_true]
    rfl
  rw [hready, hsize]
  split
  · rename_i hfull
    have hnone : rotate l.keepFiles dir 0 = none := by rw [h.holds.rotate h.count, if_pos rfl]
    have hopen : openOutput l (rotate l.keepFiles dir) =
        .ok (Function.update (rotate l.keepFiles dir) 0 (some [])) := by
      unfold openOutput Logs.size
      rw [hnone]
      exact if_neg (Nat.not_lt_zero _)
    refine ⟨_, _, _, hopen, h.rotated hfull, ?_⟩
    rw [Logs.size, Function.update_apply, if_pos rfl]
    exact l.maxBytes_bounds.1
  · rename_i hroom
    exact ⟨dir, g :: gens, lost, rfl, h, by rw [hsize]; exact not_le.mp hroom⟩

/-- A write that there is room for. -/
theorem Kept.append (h : Kept l dir gens lost written) {bytes : Bytes}
    (hroom : size dir + bytes.length ≤ l.maxBytes) :
    ∃ gens', Kept l (Logs.append dir bytes) gens' lost (written ++ bytes) := by
  obtain ⟨g, gens, rfl⟩ := List.exists_cons_of_ne_nil h.ne_nil
  rw [h.holds.size] at hroom
  refine ⟨(g ++ bytes) :: gens, ?_, List.cons_ne_nil _ _, h.count, ?_, h.full, h.lostFull, h.lostLate, ?_⟩
  · intro n
    rw [Logs.append, Function.update_apply, h.holds 0]
    cases n with
    | zero => rfl
    | succ n => exact h.holds (n + 1)
  · refine List.forall_mem_cons.mpr ⟨?_, fun x hx => h.bound x (List.mem_cons_of_mem _ hx)⟩
    rwa [List.length_append]
  · rw [h.stream]
    simp

/-- What holds between two writes of a capture. -/
def Inv (l : Limits) (stream : Bytes) (s : Capture) : Prop :=
  (∃ gens lost, Kept l s.dir gens lost s.written) ∧ s.written ++ s.view ++ s.blocks.flatten = stream

theorem step_inv {stream : Bytes} {s s' : Capture} {a : Op} (h : Inv l stream s)
    (hs : step l s a = some s') : Inv l stream s' := by
  obtain ⟨⟨gens, lost, hkept⟩, hstream⟩ := h
  cases a with
  | read =>
    simp only [step] at hs
    split at hs
    · rename_i block blocks hview hblocks
      obtain rfl := Option.some.inj hs
      refine ⟨⟨gens, lost, hkept⟩, ?_⟩
      rw [← hstream, hview, hblocks]
      simp
    · cases hs
  | write count =>
    obtain ⟨dir, gens', lost', hready, hkept', hsize⟩ := hkept.ready
    simp only [step, hready] at hs
    split at hs
    · rename_i hcount
      obtain rfl := Option.some.inj hs
      have hbytes : size dir + (s.view.take count).length ≤ l.maxBytes := by
        rw [List.length_take]
        omega
      obtain ⟨gens'', hnext⟩ := hkept'.append hbytes
      refine ⟨⟨gens'', lost', hnext⟩, ?_⟩
      rw [← hstream]
      simp only [List.append_assoc]
      rw [← List.append_assoc (s.view.take count), List.take_append_drop]
    · cases hs

theorem inv_of_reach {blocks : List Bytes} {s : Capture} (h : Reach (step l) (Starts blocks) s) :
    Inv l blocks.flatten s := by
  refine reach_inv (fun s₀ hs₀ => ?_) (fun s a s' hs hstep => step_inv hs hstep) h
  rw [hs₀]
  exact ⟨⟨_, _, kept_start l⟩, rfl⟩

/-! ## The loop of the code -/

/-- The loop writes a block to its end, and its passes are writes of a run. -/
theorem writeBlock_run {stream : Bytes} {passes : Nat} {s : Capture} (h : Inv l stream s)
    (hpasses : s.view.length ≤ passes) : ∃ dir as, writeBlock l passes s.dir s.view = .ok dir ∧
      run (step l) s as = some ⟨dir, [], s.blocks, s.written ++ s.view⟩ := by
  induction passes generalizing s with
  | zero =>
    have hview : s.view = [] := List.length_eq_zero_iff.mp (Nat.le_zero.mp hpasses)
    refine ⟨s.dir, [], rfl, ?_⟩
    rw [run_nil, hview, List.append_nil, ← hview]
  | succ passes ih =>
    by_cases hview : s.view = []
    · refine ⟨s.dir, [], if_pos hview, ?_⟩
      rw [run_nil, hview, List.append_nil, ← hview]
    · obtain ⟨gens, lost, hkept⟩ := h.1
      obtain ⟨dir, gens', lost', hready, -, hsize⟩ := hkept.ready
      have hlen := List.length_pos_iff.mpr hview
      let take := min s.view.length (l.maxBytes - size dir)
      have htake : 1 ≤ take := by
        rw [Nat.le_min]
        omega
      have hstep : step l s (.write take) = some ⟨append dir (s.view.take take), s.view.drop take,
          s.blocks, s.written ++ s.view.take take⟩ := by
        simp only [step, hready]
        exact if_pos ⟨htake, le_rfl⟩
      have hnext := step_inv h hstep
      obtain ⟨dir', as, hloop, hrun⟩ := ih hnext (by
        rw [List.length_drop]
        omega)
      refine ⟨dir', .write take :: as, ?_, run_cons_some.mpr ⟨_, hstep, ?_⟩⟩
      · rw [writeBlock, if_neg hview, hready]
        exact hloop
      · rw [hrun, List.append_assoc, List.take_append_drop]

/-- The capture of a stream goes through, and is a run of its writes. -/
theorem capture_run (l : Limits) (blocks : List Bytes) :
    ∃ dir, capture l (fun _ => none) blocks = .ok dir ∧
      Reach (step l) (Starts blocks) ⟨dir, [], [], blocks.flatten⟩ := by
  have hloop : ∀ (blocks : List Bytes) (s : Capture) (stream : Bytes), Inv l stream s →
      s.view = [] → s.blocks = blocks → ∃ dir as,
        blocks.foldlM (fun dir block => writeBlock l block.length dir block) s.dir = .ok dir ∧
          run (step l) s as = some ⟨dir, [], [], s.written ++ blocks.flatten⟩ := by
    intro blocks
    induction blocks with
    | nil =>
      intro s stream _ hview hblocks
      refine ⟨s.dir, [], rfl, ?_⟩
      rw [run_nil, List.flatten_nil, List.append_nil, ← hview]
      exact congrArg some (hblocks ▸ rfl)
    | cons block blocks ih =>
      intro s stream h hview hblocks
      have hread : step l s .read = some { s with view := block, blocks := blocks } := by
        simp only [step, hview, hblocks]
      have hinv := step_inv h hread
      obtain ⟨dir, as, hwrite, hrun⟩ := writeBlock_run hinv le_rfl
      have hinv' := run_inv (fun s a s' hs hstep => step_inv hs hstep) hinv hrun
      obtain ⟨dir', as', hrest, hrun'⟩ := ih ⟨dir, [], blocks, s.written ++ block⟩ stream hinv' rfl rfl
      refine ⟨dir', .read :: (as ++ as'), ?_, run_cons_some.mpr ⟨_, hread, ?_⟩⟩
      · rw [List.foldlM_cons]
        dsimp only at hwrite
        rw [hwrite]
        exact hrest
      · refine run_append_some.mpr ⟨_, hrun, ?_⟩
        rw [hrun', List.flatten_cons, List.append_assoc]
  have hopen : openOutput l (fun _ => none) = .ok (fun n => if n = 0 then some [] else none) := by
    have hpos : ¬ l.maxBytes < size fun _ => none := Nat.not_lt_zero _
    rw [openOutput, if_neg hpos]
    congr 1
    funext n
    rw [Function.update_apply]
    rfl
  obtain ⟨dir, as, hloop, hrun⟩ := hloop blocks ⟨_, [], blocks, []⟩ blocks.flatten
    ⟨⟨_, _, kept_start l⟩, rfl⟩ rfl rfl
  refine ⟨dir, ?_, _, as, rfl, hrun⟩
  rw [capture, hopen]
  exact hloop

end Dt.Logs
