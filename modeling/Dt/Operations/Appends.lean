import Mathlib
import Dt.Lib.Machine
import Dt.Operations.Journal

/-!
# Appends to the operation journal

An append takes the lock of the journal, rotates the generations when the current one would grow
over its limit, drops the torn tail of the current one and writes its record. Each system call is
one step, a write may take any part of what is left, and a process can stop before any step.

`held`, `completed`, `acked` and `rotatedOut` are not in the journal: they say which calls have bytes
in a generation, whose last byte was written, which returned, and which were in a generation when it
was removed. A call is named by its number.
-/

namespace Dt.Operations

open Dt.Lib Function

/-- Where an append stands. -/
inductive Pc where
  /-- the lock is taken -/
  | start
  /-- `_rotate` with one file to keep -/
  | dropCurrent
  | dropOldest
  /-- the loop of `_rotate`; generation 0 is the current file -/
  | shift (generation : Nat)
  /-- the destination of the rename is removed -/
  | replace (generation : Nat)
  | repair
  | openFile
  | write (rest : Bytes)
  | sync

structure State where
  files : Nat → Option Bytes := fun _ => none
  /-- the append that holds the lock, and its record -/
  running : Option (Pc × Bytes) := none
  calls : List Write := []
  held : Nat → List Nat := fun _ => []
  completed : List Nat := []
  acked : List Nat := []
  rotatedOut : List Nat := []

inductive Action where
  | call (w : Write)
  | tick
  | write (bytes : Nat)
  | stop

/-- The number of the last call. -/
def State.current (s : State) : Nat := s.calls.length - 1

def State.goto (s : State) (pc : Pc) (record : Bytes) : State := { s with running := some (pc, record) }

/-- `path.unlink()` -/
def State.unlink (s : State) (generation : Nat) : State :=
  { s with
    files := update s.files generation none
    held := update s.held generation []
    rotatedOut := s.rotatedOut ++ s.held generation }

/-- `os.replace` of a generation to the next one. -/
def State.rename (s : State) (generation : Nat) : State :=
  { s with
    files := update (update s.files (generation + 1) (s.files generation)) generation none
    held := update (update s.held (generation + 1) (s.held generation)) generation []
    rotatedOut := s.rotatedOut ++ s.held (generation + 1) }

variable (cfg : OperationsCfg)

/-- The next system call of an append, other than a write. -/
def tick (s : State) (pc : Pc) (record : Bytes) : Option State :=
  match pc with
  | .start =>
    match s.files 0 with
    | none => some (s.goto .repair record)
    | some current =>
      if cfg.limit < current.length + record.length then
        some (s.goto (if cfg.keepFiles = 1 then .dropCurrent else .dropOldest) record)
      else some (s.goto .repair record)
  | .dropCurrent => some ((s.unlink 0).goto .repair record)
  | .dropOldest =>
    let s := if (s.files (cfg.keepFiles - 1)).isSome then s.unlink (cfg.keepFiles - 1) else s
    some (s.goto (.shift (cfg.keepFiles - 2)) record)
  | .shift 0 => some ((s.rename 0).goto .repair record)
  | .shift (generation + 1) =>
    if (s.files (generation + 1)).isNone then some (s.goto (.shift generation) record)
    else if (s.files (generation + 2)).isSome then
      some ((s.unlink (generation + 2)).goto (.replace (generation + 1)) record)
    else some ((s.rename (generation + 1)).goto (.shift generation) record)
  | .replace generation => some ((s.rename generation).goto (.shift (generation - 1)) record)
  | .repair =>
    match s.files 0 with
    | none => some (s.goto .openFile record)
    | some current =>
      let repaired := repairTornTail current
      let held := if repaired = current then s.held 0 else (s.held 0).dropLast
      some ({ s with
        files := update s.files 0 (some repaired)
        held := update s.held 0 held }.goto .openFile record)
  | .openFile =>
    some ({ s with files := update s.files 0 (some ((s.files 0).getD [])) }.goto (.write record) record)
  | .write _ => none
  | .sync => some { s with running := none, acked := s.acked ++ [s.current] }

/-- `os.write` takes some of the bytes that are left. -/
def writeBytes (s : State) (rest record : Bytes) (bytes : Nat) : Option State :=
  if 1 ≤ bytes ∧ bytes ≤ rest.length then
    let left := rest.drop bytes
    some ({ s with
      files := update s.files 0 (some ((s.files 0).getD [] ++ rest.take bytes))
      held := update s.held 0 (if rest = record then s.held 0 ++ [s.current] else s.held 0)
      completed := if left = [] then s.completed ++ [s.current] else s.completed }.goto
        (if left = [] then .sync else .write left) record)
  else none

section
variable (F : Type) [FloatText F]

/-- An event without a text, or with too long a one, is refused before anything is touched. -/
def beginCall (s : State) (w : Write) : State :=
  match encode F w with
  | none => { s with calls := s.calls ++ [w] }
  | some record =>
    if maxEventBytes < record.length then { s with calls := s.calls ++ [w] }
    else { s with calls := s.calls ++ [w] }.goto .start record

def step (s : State) : Action → Option State
  | .call w => if s.running.isSome then none else some (beginCall F s w)
  | .tick => s.running.bind fun r => tick cfg s r.1 r.2
  | .write bytes =>
    match s.running with
    | some (.write rest, record) => writeBytes s rest record bytes
    | _ => none
  | .stop => s.running.map fun _ => { s with running := none }

end

/-! ## What a generation holds -/

/-- The records of some calls stand in a file, one behind the other; the last one may be torn. -/
inductive Wrote (record : Nat → Bytes) (completed : List Nat) : List Nat → Bytes → Prop
  | whole (l : List Nat) : (∀ i ∈ l, i ∈ completed) → Wrote record completed l (l.flatMap record)
  | torn (l : List Nat) (i : Nat) (part rest : Bytes) : (∀ i ∈ l, i ∈ completed) → i ∉ completed →
      part ≠ [] → rest ≠ [] → record i = part ++ rest →
      Wrote record completed (l ++ [i]) (l.flatMap record ++ part)

theorem Wrote.mono {record record' : Nat → Bytes} {completed completed' l : List Nat} {b : Bytes}
    (h : Wrote record completed l b) (hrecord : ∀ i ∈ l, record' i = record i)
    (hcompleted : ∀ i ∈ l, i ∈ completed' ↔ i ∈ completed) : Wrote record' completed' l b := by
  have hflat : ∀ l' : List Nat, (∀ i ∈ l', record' i = record i) →
      l'.flatMap record' = l'.flatMap record := fun l' hl' => List.flatMap_congr hl'
  cases h with
  | whole _ hall =>
    rw [← hflat l hrecord]
    exact .whole l fun i hi => (hcompleted i hi).mpr (hall i hi)
  | torn l i part rest hall hi hpart hrest hi' =>
    have hl : ∀ j ∈ l, j ∈ l ++ [i] := fun j hj => List.mem_append_left _ hj
    have hmem : i ∈ l ++ [i] := by simp
    rw [← hflat l fun j hj => hrecord j (hl j hj)]
    exact .torn l i part rest (fun j hj => (hcompleted j (hl j hj)).mpr (hall j hj))
      (fun h => hi ((hcompleted i hmem).mp h)) hpart hrest (by rw [hrecord i hmem, hi'])

/-- Each generation holds the records of calls in their order, all of them later than those in the
generations behind it. -/
structure Stored (record : Nat → Bytes) (completed : List Nat) (files : Nat → Option Bytes)
    (held : Nat → List Nat) : Prop where
  content : ∀ g b, files g = some b → Wrote record completed (held g) b
  absent : ∀ g, files g = none → held g = []
  rising : ∀ g, (held g).Pairwise (· < ·)
  older : ∀ g g', g < g' → ∀ i ∈ held g, ∀ j ∈ held g', j < i

section
variable {record record' : Nat → Bytes} {completed completed' : List Nat}
  {files : Nat → Option Bytes} {held : Nat → List Nat}

theorem Stored.mono (h : Stored record completed files held)
    (hrecord : ∀ g, ∀ i ∈ held g, record' i = record i)
    (hcompleted : ∀ g, ∀ i ∈ held g, i ∈ completed' ↔ i ∈ completed) :
    Stored record' completed' files held :=
  ⟨fun g b hb => (h.content g b hb).mono (hrecord g) (hcompleted g), h.absent, h.rising, h.older⟩

theorem Stored.unlink (h : Stored record completed files held) (g : Nat) :
    Stored record completed (update files g none) (update held g []) := by
  refine ⟨fun g' b hb => ?_, fun g' hg' => ?_, fun g' => ?_, fun a b hab i hi j hj => ?_⟩
  · by_cases hg : g' = g
    · rw [hg, update_self] at hb
      cases hb
    · rw [update_of_ne hg] at hb ⊢
      exact h.content g' b hb
  · by_cases hg : g' = g
    · rw [hg, update_self]
    · rw [update_of_ne hg] at hg' ⊢
      exact h.absent g' hg'
  · by_cases hg : g' = g
    · rw [hg, update_self]
      exact .nil
    · rw [update_of_ne hg]
      exact h.rising g'
  · by_cases ha : a = g
    · rw [ha, update_self] at hi
      cases hi
    · by_cases hb : b = g
      · rw [hb, update_self] at hj
        cases hj
      · rw [update_of_ne ha] at hi
        rw [update_of_ne hb] at hj
        exact h.older a b hab i hi j hj

/-- The current file is replaced by one whose calls are later than all those behind it. -/
theorem Stored.current (h : Stored record completed files held) {b : Bytes} {l : List Nat}
    (hcompleted : ∀ g, 0 < g → ∀ i ∈ held g, i ∈ completed' ↔ i ∈ completed)
    (hwrote : Wrote record completed' l b) (hrising : l.Pairwise (· < ·))
    (hlater : ∀ i ∈ l, ∀ g, 0 < g → ∀ j ∈ held g, j < i) :
    Stored record completed' (update files 0 (some b)) (update held 0 l) := by
  refine ⟨fun g c hc => ?_, fun g hg => ?_, fun g => ?_, fun a c hac i hi j hj => ?_⟩
  · by_cases hg : g = 0
    · rw [hg, update_self] at hc ⊢
      cases hc
      exact hwrote
    · rw [update_of_ne hg] at hc ⊢
      exact (h.content g c hc).mono (fun _ _ => rfl) (hcompleted g (Nat.pos_of_ne_zero hg))
  · by_cases hzero : g = 0
    · rw [hzero, update_self] at hg
      cases hg
    · rw [update_of_ne hzero] at hg ⊢
      exact h.absent g hg
  · by_cases hg : g = 0
    · rw [hg, update_self]
      exact hrising
    · rw [update_of_ne hg]
      exact h.rising g
  · have hc : c ≠ 0 := Nat.ne_of_gt (Nat.zero_lt_of_lt hac)
    rw [update_of_ne hc] at hj
    by_cases ha : a = 0
    · rw [ha, update_self] at hi
      exact hlater i hi c (Nat.pos_of_ne_zero hc) j hj
    · rw [update_of_ne ha] at hi
      exact h.older a c hac i hi j hj

/-- A rename to a free place keeps the order of the generations. -/
theorem Stored.rename (h : Stored record completed files held) (g : Nat) :
    Stored record completed (update (update files (g + 1) (files g)) g none)
      (update (update held (g + 1) (held g)) g []) := by
  have hplace : ∀ a, a ≠ g → ∃ a', update (update files (g + 1) (files g)) g none a = files a' ∧
      update (update held (g + 1) (held g)) g [] a = held a' ∧
      (a' = a ∧ a ≠ g + 1 ∨ a' = g ∧ a = g + 1) := by
    intro a ha
    by_cases hnext : a = g + 1
    · refine ⟨g, ?_, ?_, .inr ⟨rfl, hnext⟩⟩
      · rw [update_of_ne ha, hnext, update_self]
      · rw [update_of_ne ha, hnext, update_self]
    · refine ⟨a, ?_, ?_, .inl ⟨rfl, hnext⟩⟩
      · rw [update_of_ne ha, update_of_ne hnext]
      · rw [update_of_ne ha, update_of_ne hnext]
  refine ⟨fun a b hb => ?_, fun a ha => ?_, fun a => ?_, fun a c hac i hi j hj => ?_⟩
  · by_cases hg : a = g
    · rw [hg, update_self] at hb
      cases hb
    · obtain ⟨a', hfile, hheld, -⟩ := hplace a hg
      rw [hfile] at hb
      rw [hheld]
      exact h.content a' b hb
  · by_cases hg : a = g
    · rw [hg, update_self]
    · obtain ⟨a', hfile, hheld, -⟩ := hplace a hg
      rw [hfile] at ha
      rw [hheld]
      exact h.absent a' ha
  · by_cases hg : a = g
    · rw [hg, update_self]
      exact .nil
    · obtain ⟨a', -, hheld, -⟩ := hplace a hg
      rw [hheld]
      exact h.rising a'
  · by_cases ha : a = g
    · rw [ha, update_self] at hi
      cases hi
    · by_cases hc : c = g
      · rw [hc, update_self] at hj
        cases hj
      · obtain ⟨a', -, hheld, ha'⟩ := hplace a ha
        obtain ⟨c', -, hheld', hc'⟩ := hplace c hc
        rw [hheld] at hi
        rw [hheld'] at hj
        exact h.older a' c' (by omega) i hi j hj

end

end Dt.Operations
