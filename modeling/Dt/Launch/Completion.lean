import Dt.Jobs.Entry
import Dt.Lib.Machine

/-!
# Completion evidence

The wrapper records how a run ended in three markers: `result_state`, `finished_at` and last
`exit_code`. `dt_record_completion` is called at the end of the normal path and again by the EXIT
trap, which a HUP, INT or TERM reaches through `dt_signal_exit`; `dt_completion_recorded` makes
the second call a no-op once it is set. A signal may arrive between any two commands, and any
write of a marker may fail.

The flag is set by a command of its own after the `mv` of `exit_code`. A signal in between finds a
published marker and a clear flag, and the EXIT trap writes all three markers again.
-/

namespace Dt.Launch.Completion

open Dt.Lib
open Dt.Jobs (ResultState)

/-! ## The wrapper -/

inductive Signal where
  | hup | int | term
  deriving DecidableEq

/-- The exit code that the traps give to `dt_signal_exit`. -/
def Signal.code : Signal → Nat
  | .hup => 129
  | .int => 130
  | .term => 143

/-- What is at the path of a state marker: nothing, an empty file, a link or something else that
`dt_publish_state_marker` refuses to replace, or a published value. -/
inductive StateMarker (α : Type) where
  | absent | empty | refused
  | holds (value : α)
  deriving DecidableEq

namespace StateMarker

variable {α : Type}

def value : StateMarker α → Option α
  | .holds a => some a
  | _ => none

/-- The checks of `dt_publish_state_marker` and its removal of an empty marker. -/
def clear (removed : Bool) : StateMarker α → Option (StateMarker α)
  | .refused => none
  | .empty => if removed then some .absent else none
  | m => some m

theorem value_clear {removed : Bool} {m m' : StateMarker α} (h : m.clear removed = some m') :
    m'.value = m.value := by
  cases m <;> simp only [clear] at h
  case empty =>
    split at h
    · cases h
      rfl
    · cases h
  case refused => cases h
  all_goals
    cases h
    rfl

theorem value_of_refused {removed : Bool} {m : StateMarker α} (h : m.clear removed = none) :
    m.value = none := by
  cases m with
  | holds value => cases h
  | _ => rfl

end StateMarker

/-- What `dt_record_result_state` finds: a resource guard that tripped, and the explicit result of
the application, if there is one and if it is valid. -/
structure Evidence where
  guard : Bool
  result : Option (Option ResultState)
  deriving DecidableEq

/-- `dt_record_result_state` -/
def deriveState (maxHours : Bool) (e : Evidence) (override : Option ResultState) (rc : Nat) :
    ResultState :=
  if e.guard then .guardTerminated
  else match override with
    | some state => state
    | none =>
      if rc ≠ 0 then
        if maxHours ∧ rc = 124 then .guardTerminated else .executionFailure
      else match e.result with
        | some (some state) => state
        | some none => .executionFailure
        | none => .success

/-- The commands of `dt_record_completion`, with what it has computed so far. -/
inductive Line where
  | entry | derive
  | clearState (dtState : ResultState)
  | moveState (dtState : ResultState)
  | stamp
  | clearFinished (dtFinished : Nat)
  | moveFinished (dtFinished : Nat)
  | clearExit | moveExit
  /-- before `dt_completion_recorded=1` -/
  | raise
  deriving DecidableEq

/-- Who called `dt_record_completion`. -/
inductive Caller where
  | normalPath | exitTrap
  deriving DecidableEq

/-- Where the wrapper is. -/
inductive Pc where
  | preflight
  /-- `dt_result_override` was cleared -/
  | running
  | returned (rc : Nat)
  | recording (caller : Caller) (rc : Nat) (line : Line)
  /-- lifecycle event and webhook -/
  | finishing (rc : Nat)
  /-- `dt_signal_exit`, before `trap -` -/
  | handler (signal : Signal)
  /-- `dt_signal_exit`, before `dt_result_override="cancelled"` -/
  | handled (signal : Signal)
  | leaving (rc : Nat)
  /-- `dt_on_exit`, before `dt_record_completion` -/
  | onExit (rc : Nat)
  | closing
  | ended
  deriving DecidableEq

/-- After `dt_record_completion`. -/
def Caller.resume (rc : Nat) : Caller → Pc
  | .normalPath => .finishing rc
  | .exitTrap => .closing

/-- The wrapper with the markers of its run. `signals` and `read` are history: whether a signal was
delivered, and the evidence that was read so far. -/
structure Shell where
  maxHours : Bool
  pc : Pc := .preflight
  traps : List Signal := [.hup, .int, .term]
  /-- the EXIT trap has been taken -/
  exiting : Bool := false
  override : Option ResultState := some .infraFailure
  /-- `dt_completion_recorded` -/
  recorded : Bool := false
  resultState : StateMarker ResultState := .absent
  finishedAt : StateMarker Nat := .absent
  exitCode : StateMarker Nat := .absent
  signals : Bool := false
  read : List Evidence := []
  deriving DecidableEq

/-- What the wrapper does next, with what it meets. -/
inductive Act where
  /-- a signal; without a trap the shell ends, with or without the EXIT trap -/
  | signal (signal : Signal) (left : Option Nat)
  /-- SIGKILL or a lost node -/
  | kill
  | start
  | exit (rc : Nat)
  | return (rc : Nat) (cacheFailed : Bool)
  | read (e : Evidence)
  | clock (now : Nat)
  /-- a command on a marker, which works or fails -/
  | attempt (works : Bool)
  | next

/-- The commands of `dt_record_completion`. -/
def record (s : Shell) (caller : Caller) (rc : Nat) : Line → Act → Option Shell
  | .entry, .next =>
    some { s with pc := if s.recorded then caller.resume rc else .recording caller rc .derive }
  | .derive, .read e =>
    some { s with
      read := e :: s.read
      pc := .recording caller rc (.clearState (deriveState s.maxHours e s.override rc)) }
  | .clearState dtState, .attempt works =>
    match s.resultState.clear works with
    | none => some { s with pc := .recording caller rc .stamp }
    | some m => some { s with resultState := m, pc := .recording caller rc (.moveState dtState) }
  | .moveState dtState, .attempt works =>
    some { s with
      resultState := if works then .holds dtState else s.resultState
      pc := .recording caller rc .stamp }
  | .stamp, .clock now => some { s with pc := .recording caller rc (.clearFinished now) }
  | .clearFinished dtFinished, .attempt works =>
    match s.finishedAt.clear works with
    | none => some { s with pc := .recording caller rc .clearExit }
    | some m =>
      some { s with finishedAt := m, pc := .recording caller rc (.moveFinished dtFinished) }
  | .moveFinished dtFinished, .attempt works =>
    some { s with
      finishedAt := if works then .holds dtFinished else s.finishedAt
      pc := .recording caller rc .clearExit }
  | .clearExit, .attempt works =>
    match s.exitCode.clear works with
    | none => some { s with pc := caller.resume rc }
    | some m => some { s with exitCode := m, pc := .recording caller rc .moveExit }
  | .moveExit, .attempt works =>
    some (if works then
        { s with exitCode := .holds rc, pc := .recording caller rc .raise }
      else { s with pc := caller.resume rc })
  | .raise, .next => some { s with recorded := true, pc := caller.resume rc }
  | _, _ => none

/-- The commands of the wrapper outside `dt_record_completion`. -/
def advance (s : Shell) : Pc → Act → Option Shell
  | .preflight, .start => some { s with override := none, pc := .running }
  | .preflight, .exit rc => some { s with pc := .leaving rc }
  | .running, .exit rc => some { s with pc := .leaving rc }
  | .running, .return rc cacheFailed =>
    some (if cacheFailed then { s with override := some .infraFailure, pc := .returned 76 }
      else { s with pc := .returned rc })
  | .returned rc, .next => some { s with pc := .recording .normalPath rc .entry }
  | .recording caller rc line, a => record s caller rc line a
  | .finishing rc, .next => some { s with pc := .leaving rc }
  | .handler signal, .next => some { s with traps := s.traps.erase signal, pc := .handled signal }
  | .handled signal, .next =>
    some { s with override := some .cancelled, pc := .leaving signal.code }
  -- an `exit` inside the EXIT trap does not take it again
  | .leaving rc, .next =>
    some (if s.exiting then { s with pc := .ended } else { s with exiting := true, pc := .onExit rc })
  | .onExit rc, .next => some { s with pc := .recording .exitTrap rc .entry }
  | .closing, .next => some { s with pc := .ended }
  | _, _ => none

/-- One command of the wrapper, or a signal before it. -/
def step (s : Shell) : Act → Option Shell
  | .signal signal left =>
    if s.pc = .ended then none
    else if signal ∈ s.traps then some { s with signals := true, pc := .handler signal }
    else some { s with signals := true, pc := left.elim .ended .leaving }
  | .kill => some { s with pc := .ended }
  | a => advance s s.pc a

/-- The wrapper with its traps set and no marker of the run published. -/
structure Init (s : Shell) : Prop where
  pc : s.pc = .preflight
  resultState : s.resultState.value = none
  exitCode : s.exitCode.value = none

variable {s s' t : Shell} {a : Act}

/-! ## What is published stays -/

/-- Once `exit_code` is visible: the flag is about to be set, or it is set and no further write of
a marker is under way, or the shell is gone. -/
def Closed (s : Shell) : Prop :=
  (∃ caller rc, s.pc = .recording caller rc .raise) ∨
  (s.recorded = true ∧ ∀ caller rc line, s.pc = .recording caller rc line → line = .entry) ∨
  s.pc = .ended

/-- The three markers are those of `s`. -/
structure SameMarkers (s t : Shell) : Prop where
  resultState : t.resultState = s.resultState
  finishedAt : t.finishedAt = s.finishedAt
  exitCode : t.exitCode = s.exitCode

/-- `exit_code` is published and `dt_completion_recorded` is not set. -/
def Pc.beforeFlag : Pc → Bool
  | .recording _ _ .raise => true
  | _ => false

/-- Before the `mv` of `result_state`. -/
def Pc.beforeState : Pc → Bool
  | .recording _ _ (.moveState _) => true
  | _ => false

/-- No signal comes between the `mv` of `exit_code` and the flag, and after a signal no write of
`result_state` fails while an earlier pass has published one. -/
def Undisturbed (s : Shell) : Act → Prop
  | .signal _ _ => s.pc.beforeFlag = false
  | .attempt false =>
    s.pc.beforeState = true → s.signals = true → s.resultState.value = none
  | _ => True

instance : ∀ (s : Shell) (a : Act), Decidable (Undisturbed s a)
  | s, .signal _ _ => inferInstanceAs (Decidable (s.pc.beforeFlag = false))
  | s, .attempt false =>
    inferInstanceAs (Decidable (s.pc.beforeState = true → s.signals = true → _ = none))
  | _, .attempt true | _, .kill | _, .start | _, .exit _ | _, .return _ _ | _, .read _
  | _, .clock _ | _, .next => .isTrue trivial

theorem resume_ne_recording {caller c : Caller} {rc rc' : Nat} {line : Line} :
    caller.resume rc ≠ .recording c rc' line := by
  cases caller <;> simp [Caller.resume]

/-- What a step of `advance` outside `dt_record_completion` leaves alone. -/
structure Frame (s s' : Shell) : Prop where
  markers : SameMarkers s s'
  recorded : s'.recorded = s.recorded
  entry : ∀ caller rc line, s'.pc = .recording caller rc line → line = .entry

theorem advance_frame {pc : Pc} (hpc : ∀ caller rc line, pc ≠ .recording caller rc line)
    (h : advance s pc a = some s') : Frame s s' := by
  unfold advance at h
  split at h
  case h_4 | h_10 =>
    cases h
    split <;> exact ⟨⟨rfl, rfl, rfl⟩, rfl, fun _ _ _ h => nomatch h⟩
  case h_5 | h_11 =>
    cases h
    exact ⟨⟨rfl, rfl, rfl⟩, rfl, fun _ _ _ h => by cases h; rfl⟩
  case h_6 caller rc line => exact absurd rfl (hpc caller rc line)
  case h_13 => cases h
  all_goals
    cases h
    exact ⟨⟨rfl, rfl, rfl⟩, rfl, fun _ _ _ h => nomatch h⟩

/-- A signal and SIGKILL leave everything but the place of the wrapper alone. -/
theorem signal_cases {signal : Signal} {left : Option Nat}
    (h : step s (.signal signal left) = some s') :
    ∃ pc, s' = { s with signals := true, pc := pc } ∧
      (pc = .handler signal ∨ (∃ rc, pc = .leaving rc) ∨ pc = .ended) := by
  simp only [step] at h
  split at h
  · cases h
  · split at h
    · cases h
      exact ⟨_, rfl, .inl rfl⟩
    · cases h
      cases left with
      | none => exact ⟨_, rfl, .inr (.inr rfl)⟩
      | some rc => exact ⟨_, rfl, .inr (.inl ⟨rc, rfl⟩)⟩

/-- A step is a signal, a SIGKILL, or a command of the wrapper. -/
theorem step_cases (h : step s a = some s') :
    (∃ signal left, a = .signal signal left) ∨ s' = { s with pc := .ended } ∨
      advance s s.pc a = some s' := by
  cases a with
  | signal signal left => exact .inl ⟨signal, left, rfl⟩
  | kill =>
    cases h
    exact .inr (.inl rfl)
  | _ => exact .inr (.inr h)

/-- Nothing is written after the wrapper has closed the evidence. -/
theorem Closed.step (hs : Closed s) (hok : Undisturbed s a) (h : step s a = some s') :
    Closed s' ∧ SameMarkers s s' := by
  rcases step_cases h with ⟨signal, left, rfl⟩ | rfl | hadv
  · obtain ⟨pc, rfl, hpc⟩ := signal_cases h
    refine ⟨?_, rfl, rfl, rfl⟩
    rcases hs with ⟨caller, rc, hraise⟩ | ⟨hrec, -⟩ | hend
    · rw [Undisturbed, hraise] at hok
      cases hok
    · refine .inr (.inl ⟨hrec, fun caller rc line hline => ?_⟩)
      rcases hpc with rfl | ⟨_, rfl⟩ | rfl <;> cases hline
    · simp [Completion.step, hend] at h
  · exact ⟨.inr (.inr rfl), rfl, rfl, rfl⟩
  · rcases hs with ⟨caller, rc, hraise⟩ | ⟨hrec, hentry⟩ | hend
    · rw [hraise] at hadv
      cases a <;> cases hadv
      exact ⟨.inr (.inl ⟨rfl, fun _ _ _ hline => absurd hline resume_ne_recording⟩), rfl, rfl, rfl⟩
    · by_cases hpc : ∃ caller rc line, s.pc = .recording caller rc line
      · obtain ⟨caller, rc, line, hline⟩ := hpc
        cases hentry caller rc line hline
        rw [hline] at hadv
        cases a <;> cases hadv
        refine ⟨.inr (.inl ⟨hrec, fun _ _ _ hnext => ?_⟩), rfl, rfl, rfl⟩
        rw [if_pos hrec] at hnext
        exact absurd hnext resume_ne_recording
      · have hframe := advance_frame (fun c r l hl => hpc ⟨c, r, l, hl⟩) hadv
        exact ⟨.inr (.inl ⟨hframe.recorded.trans hrec, hframe.entry⟩), hframe.markers⟩
    · rw [hend] at hadv
      cases a <;> cases hadv

/-! ## What is published is coherent -/

/-- A published `result_state` was derived for `rc` from evidence that was read. -/
def Derived (s : Shell) (rc : Nat) : Prop :=
  ∀ state, s.resultState.value = some state →
    ∃ e ∈ s.read, state = deriveState s.maxHours e s.override rc

/-- A published `result_state` was derived for `rc` unless a signal was delivered since. -/
def DerivedBefore (s : Shell) (rc : Nat) : Prop := s.signals = false → Derived s rc

/-- What a pass knows at each of its commands. -/
def LineInv (s : Shell) (rc : Nat) : Line → Prop
  | .entry | .derive => DerivedBefore s rc
  | .clearState dtState | .moveState dtState =>
    DerivedBefore s rc ∧ ∃ e ∈ s.read, dtState = deriveState s.maxHours e s.override rc
  | _ => Derived s rc

/-- What is known of `result_state` at each place of the wrapper. -/
def PcInv (s : Shell) : Prop :=
  match s.pc with
  | .preflight | .running | .returned _ => s.resultState.value = none
  | .recording _ rc line => LineInv s rc line
  | .finishing rc | .leaving rc | .onExit rc => DerivedBefore s rc
  | .handler _ | .handled _ => s.signals = true
  | .closing | .ended => True

theorem Derived.of_unpublished {rc : Nat} (h : s.resultState.value = none) : Derived s rc := by
  intro state hstate
  rw [h] at hstate
  cases hstate

/-- `Derived` looks at `result_state`, the evidence and the override only. -/
theorem Derived.congr {rc : Nat} (h : Derived s rc)
    (hstate : s'.resultState.value = s.resultState.value) (hread : s.read ⊆ s'.read)
    (hmax : s'.maxHours = s.maxHours) (hover : s'.override = s.override) : Derived s' rc := by
  intro state h'
  rw [hstate] at h'
  obtain ⟨e, he, rfl⟩ := h state h'
  exact ⟨e, hread he, by rw [hmax, hover]⟩

theorem pcInv_resume {caller : Caller} {rc : Nat} (h : Derived s rc) :
    PcInv { s with pc := caller.resume rc } := by
  cases caller with
  | normalPath => exact fun _ => h
  | exitTrap => exact trivial

/-- One command of `dt_record_completion`. -/
theorem record_pcInv {caller : Caller} {rc : Nat} {line : Line}
    (hpc : s.pc = .recording caller rc line) (hline : LineInv s rc line) (hok : Undisturbed s a)
    (h : record s caller rc line a = some s') : PcInv s' := by
  unfold record at h
  split at h
  · -- entry
    cases h
    split
    · cases caller with
      | normalPath => exact hline
      | exitTrap => exact trivial
    · exact hline
  · -- derive
    rename_i e
    cases h
    exact ⟨fun hsig => (hline hsig).congr rfl (List.subset_cons_self _ _) rfl rfl,
      e, List.mem_cons_self, rfl⟩
  · -- clearState
    split at h
    · rename_i hclear
      cases h
      have hunpublished : Derived s rc := .of_unpublished (StateMarker.value_of_refused hclear)
      exact hunpublished
    · rename_i m hclear
      cases h
      exact ⟨fun hsig => (hline.1 hsig).congr (StateMarker.value_clear hclear) (fun _ h => h) rfl rfl,
        hline.2⟩
  · -- moveState
    rename_i dtState works
    cases h
    cases works with
    | true =>
      rintro state h'
      cases h'
      exact hline.2
    | false =>
      have hunpublished := hok (by rw [hpc]; rfl)
      cases hsig : s.signals with
      | true => exact Derived.of_unpublished (hunpublished hsig)
      | false => exact hline.1 hsig
  · cases h
    exact hline
  · -- clearFinished
    split at h <;> cases h <;> exact hline
  · cases h
    exact hline
  · -- clearExit
    split at h
    · cases h
      exact pcInv_resume hline
    · cases h
      exact hline
  · -- moveExit
    rename_i works
    cases works with
    | true =>
      cases h
      exact hline
    | false =>
      cases h
      exact pcInv_resume hline
  · cases h
    exact pcInv_resume (s := { s with recorded := true }) hline
  · cases h

/-- One command outside `dt_record_completion`. -/
theorem advance_pcInv {pc : Pc} (hpc : s.pc = pc) (hs : PcInv s) (hok : Undisturbed s a)
    (h : advance s pc a = some s') : PcInv s' := by
  unfold PcInv at hs
  unfold advance at h
  split at h <;> rw [hpc] at hs
  · cases h
    exact hs
  · cases h
    exact fun _ => Derived.of_unpublished hs
  · cases h
    exact fun _ => Derived.of_unpublished hs
  · cases h
    split <;> exact hs
  · cases h
    exact fun _ => Derived.of_unpublished hs
  · exact record_pcInv hpc hs hok h
  · cases h
    exact hs
  · cases h
    exact hs
  · rename_i signal
    cases h
    exact fun hsig => nomatch hs.symm.trans hsig
  · cases h
    split
    · exact trivial
    · exact hs
  · cases h
    exact hs
  · cases h
    exact trivial
  · cases h

theorem step_pcInv (hs : PcInv s) (hok : Undisturbed s a) (h : step s a = some s') : PcInv s' := by
  rcases step_cases h with ⟨signal, left, rfl⟩ | rfl | hadv
  · obtain ⟨pc, rfl, rfl | ⟨_, rfl⟩ | rfl⟩ := signal_cases h
    · rfl
    · exact fun hsig => nomatch hsig
    · exact trivial
  · exact trivial
  · exact advance_pcInv rfl hs hok hadv

theorem Init.pcInv (h : Init s) : PcInv s := by
  unfold PcInv
  rw [h.pc]
  exact h.resultState

/-- `exit_code` becomes visible by the `mv` of a pass, and by nothing else. -/
theorem step_publishes {rc : Nat} (h : step s a = some s') (hold : s.exitCode.value = none)
    (hnew : s'.exitCode.value = some rc) :
    ∃ caller, s.pc = .recording caller rc .moveExit ∧
      s' = { s with exitCode := .holds rc, pc := .recording caller rc .raise } := by
  have hchanged : s'.exitCode.value ≠ s.exitCode.value := by
    rw [hold, hnew]
    exact Option.some_ne_none rc
  rcases step_cases h with ⟨signal, left, rfl⟩ | rfl | hadv
  · obtain ⟨pc, rfl, -⟩ := signal_cases h
    exact absurd rfl hchanged
  · exact absurd rfl hchanged
  · by_cases hpc : ∃ caller rc line, s.pc = .recording caller rc line
    · obtain ⟨caller, rc', line, hline⟩ := hpc
      rw [hline] at hadv
      simp only [advance] at hadv
      unfold record at hadv
      split at hadv
      case h_8 =>
        split at hadv
        · cases hadv
          exact absurd rfl hchanged
        · rename_i hclear
          cases hadv
          exact absurd (StateMarker.value_clear hclear) hchanged
      case h_9 works =>
        cases works with
        | true =>
          cases hadv
          cases hnew
          exact ⟨caller, hline, rfl⟩
        | false =>
          cases hadv
          exact absurd rfl hchanged
      case h_3 | h_6 =>
        split at hadv <;> cases hadv <;> exact absurd rfl hchanged
      case h_11 => cases hadv
      all_goals
        cases hadv
        exact absurd rfl hchanged
    · have hframe := advance_frame (fun c r l hl => hpc ⟨c, r, l, hl⟩) hadv
      exact absurd (congrArg StateMarker.value hframe.markers.exitCode) hchanged

/-! ## Whole runs -/

/-- Between the publication of `rc` in `s` and a later state `t` no marker changes, and a published
`result_state` is the one that `dt_record_result_state` derived for `rc`. -/
structure Coherent (rc : Nat) (s t : Shell) : Prop where
  markers : SameMarkers s t
  derived : Derived s rc

/-- From the step that publishes `exit_code` on, the evidence of the run is final. -/
def WrittenOnce (s₀ : Shell) (as : List Act) : Prop :=
  ∀ bs a cs s s' t rc, as = bs ++ a :: cs → run step s₀ bs = some s → step s a = some s' →
    s.exitCode.value = none → s'.exitCode.value = some rc → run step s' cs = some t →
      Coherent rc s' t

/-- In every run without a signal between the publication of `exit_code` and the flag, and without
a failed rewrite of `result_state` after a signal, completion evidence is written once. -/
theorem writtenOnce_of_undisturbed {s₀ : Shell} {as : List Act} (hinit : Init s₀)
    (hok : Meets Undisturbed step s₀ as) : WrittenOnce s₀ as := by
  rintro bs a cs s s' t rc rfl hbs hstep hold hnew hcs
  obtain ⟨hbefore, hafter⟩ := meets_append hok hbs
  have hs : PcInv s := run_inv_of_meets (fun _ _ _ => step_pcInv) hinit.pcInv hbefore hbs
  obtain ⟨caller, hpc, rfl⟩ := step_publishes hstep hold hnew
  unfold PcInv at hs
  rw [hpc] at hs
  refine ⟨?_, hs⟩
  have hkept : Closed t ∧ SameMarkers _ t :=
    run_inv_of_meets (I := fun t => Closed t ∧ SameMarkers _ t)
      (fun u b u' hu hb hstep' => by
        obtain ⟨hclosed, hsame⟩ := hu.1.step hb hstep'
        exact ⟨hclosed, hsame.resultState.trans hu.2.resultState,
          hsame.finishedAt.trans hu.2.finishedAt, hsame.exitCode.trans hu.2.exitCode⟩)
      ⟨.inl ⟨caller, rc, rfl⟩, rfl, rfl, rfl⟩ (hafter.2 _ hstep) hcs
  exact hkept.2

/-- A wrapper that starts with no marker at all. -/
def freshShell : Shell := { maxHours := false }

/-- The commands of one pass of `dt_record_completion` up to the `mv` of `exit_code`. -/
def passTo (now : Nat) : List Act :=
  [.next, .read ⟨false, none⟩, .attempt true, .attempt true, .clock now, .attempt true,
    .attempt true, .attempt true, .attempt true]

/-- A command that succeeds, up to the publication of its exit code. -/
def successfulRun : List Act := [.start, .return 0 false, .next] ++ passTo 10

/-- A TERM before the pass of a successful command, and one after it. -/
def signalledRun : List Act :=
  [.start, .return 0 false, .signal .term none, .next, .next, .next, .next] ++ passTo 10 ++
    [.next, .signal .hup none, .next, .next, .next]

theorem writtenOnce_signalledRun :
    (run step freshShell signalledRun).map (fun s => (s.pc, s.exitCode, s.resultState)) =
        some (.ended, .holds 143, .holds .cancelled) ∧
      WrittenOnce freshShell signalledRun :=
  ⟨by decide, writtenOnce_of_undisturbed ⟨rfl, rfl, rfl⟩ (by decide)⟩

/-- A TERM right after the `mv` of `exit_code` turns a published success into a cancellation. -/
theorem signal_before_flag_rewrites :
    ¬ ∀ s₀ as, Init s₀ → WrittenOnce s₀ as := by
  intro h
  have hfinal := h freshShell
    (successfulRun ++ ([.signal .term none, .next, .next, .next, .next] ++ passTo 11)) ⟨rfl, rfl, rfl⟩
    [.start, .return 0 false, .next, .next, .read ⟨false, none⟩, .attempt true, .attempt true,
      .clock 10, .attempt true, .attempt true, .attempt true]
    (.attempt true) ([.signal .term none, .next, .next, .next, .next] ++ passTo 11)
    _ _ _ 0 rfl rfl rfl rfl rfl rfl
  exact absurd hfinal.markers.exitCode (by decide)

end Dt.Launch.Completion
