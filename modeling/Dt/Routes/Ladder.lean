import Dt.Routes.Circuit

/-!
# The ladder of cooldowns

Each failure that is recorded soon enough after a route was admitted again puts its record one rung
higher, and the next cooldown is twice as long, up to the maximum. A clock that was set back moves the
record back with it: what is left of a cooldown then is what was left when the record was written, which
may be more than what was left just before.
-/

namespace Dt.Routes

open Dt.Lib

/-- Times without rounding. -/
class ExactTime (T : Type) extends FloatTime T where
  add_sub_self : ∀ a b, sub (add a b) a = b
  sub_rebase : ∀ until_ updated now, sub (sub until_ (sub updated now)) now = sub until_ updated

variable {T : Type}

def failuresOf (record : Option (CircuitState T)) : Nat := record.elim 0 (·.failures)

variable [FloatTime T]

/-- An outcome with another token than that of the record, or without its token, is refused. -/
def refused (prior : Option (CircuitState T)) (token : Option String) : Bool :=
  (token.isSome && !(prior.any (holds · token))) ||
    (token.isNone && prior.any (·.reservationToken.isSome))

/-- The record after an operation. -/
def after (site : Site T) (record : Option (CircuitState T)) (e : T × Call T) :
    Option (CircuitState T) :=
  match e.2 with
  | .decision jitter token => (decision site record e.1 jitter token).1
  | .recordSuccess token => recordSuccess record e.1 token
  | .recordFailure kind token jitter => (recordFailure site record e.1 kind token jitter).1
  | .release token => releaseReservation site record e.1 token

/-- One operation at any reading of the clock that is a time. -/
def ladderStep (site : Site T) (record : Option (CircuitState T)) (e : T × Call T) :
    Option (Option (CircuitState T)) :=
  if e.1 < FloatTime.zero then none else some (after site record e)

/-- A failure that is recorded comes within the maximum cooldown after the route was admitted again. -/
def PromptFailure (site : Site T) (record : Option (CircuitState T)) (e : T × Call T) : Prop :=
  ∀ kind token jitter, e.2 = .recordFailure kind token jitter → ∀ prior ∈ currentState record e.1,
    refused (some prior) token = false →
      FloatTime.sub e.1 (max prior.lastFailureAt prior.openUntil) ≤ site.routeCircuitMaxCooldown

/-- No success is recorded. -/
def NoSuccess (record : Option (CircuitState T)) (e : T × Call T) : Prop :=
  ∀ token, e.2 = .recordSuccess token → ∀ prior ∈ currentState record e.1,
    refused (some prior) token = true

/-- What is left of the cooldown of a record. -/
def remaining (state : CircuitState T) (now : T) : T :=
  max FloatTime.zero (FloatTime.sub state.openUntil now)

/-! ## One operation -/

section

variable {site : Site T} {record : Option (CircuitState T)} {now : T}

theorem failuresOf_currentState (record : Option (CircuitState T)) (now : T) :
    failuresOf (currentState record now) = failuresOf record := by
  cases record with
  | none => rfl
  | some state =>
    simp only [currentState, Option.map_some]
    split <;> rfl

/-- What an operation leaves: the record, moved back with the clock; a record without a cooldown; or a
record with a cooldown from now on. -/
inductive Left (site : Site T) (record : Option (CircuitState T)) (e : T × Call T) :
    Option (CircuitState T) → Prop where
  | same : Left site record e (currentState record e.1)
  | reserved {state : CircuitState T} (hstate : currentState record e.1 = some state)
      (jitter : Option T) (token : String) : Left site record e (some { state with
        openUntil := FloatTime.add e.1 (closedFor site state.failures jitter)
        updatedAt := e.1
        reservationToken := some token })
  | released {state : CircuitState T} (hstate : currentState record e.1 = some state) :
      Left site record e (some { state with
        openUntil := FloatTime.zero
        updatedAt := e.1
        reservationToken := none })
  | success {prior : CircuitState T} {token : Option String} (hcall : e.2 = .recordSuccess token)
      (hprior : currentState record e.1 = some prior) (haccepted : refused (some prior) token = false) :
      Left site record e (some ⟨0, FloatTime.zero, FloatTime.zero, "success", e.1, none⟩)
  | failure {given : String} {token : Option String} {jitter : Option T}
      (hcall : e.2 = .recordFailure given token jitter)
      (haccepted : refused (currentState record e.1) token = false) (kind : String) (openFor : T)
      (hopen : openFor ≤ site.routeCircuitMaxCooldown) : Left site record e (some
        ⟨failuresAfter site (currentState record e.1) e.1, FloatTime.add e.1 openFor, e.1, kind, e.1, none⟩)

theorem closedFor_le (failures : Nat) (jitter : Option T) :
    closedFor site failures jitter ≤ site.routeCircuitMaxCooldown := min_le_left _ _

theorem left_decision (jitter : Option T) (token : String) :
    Left site record (now, .decision jitter token) (decision site record now jitter token).1 := by
  have hsame : Left site record (now, .decision jitter token) (currentState record now) := .same
  unfold decision
  cases hcurrent : currentState record now with
  | none =>
    rw [hcurrent] at hsame
    exact hsame
  | some state =>
    rw [hcurrent] at hsame
    dsimp only
    split
    · exact hsame
    · exact .reserved hcurrent jitter token

theorem left_recordSuccess (token : Option String) :
    Left site record (now, .recordSuccess token) (recordSuccess record now token) := by
  have hsame : Left site record (now, .recordSuccess token) (currentState record now) := .same
  unfold recordSuccess
  cases hcurrent : currentState record now with
  | none =>
    rw [hcurrent] at hsame
    exact hsame
  | some prior =>
    rw [hcurrent] at hsame
    dsimp only
    split
    · exact hsame
    · rename_i hstale
      split
      · exact hsame
      · rename_i hreserved
        split
        · exact hsame
        · refine .success rfl hcurrent ?_
          rw [refused, Bool.or_eq_false_iff]
          exact ⟨Bool.eq_false_iff.mpr hstale, Bool.eq_false_iff.mpr hreserved⟩

theorem left_release (token : Option String) :
    Left site record (now, .release token) (releaseReservation site record now token) := by
  have hsame : Left site record (now, .release token) (currentState record now) := .same
  unfold releaseReservation
  cases hcurrent : currentState record now with
  | none =>
    rw [hcurrent] at hsame
    exact hsame
  | some prior =>
    rw [hcurrent] at hsame
    dsimp only
    split
    · exact hsame
    · exact .released hcurrent

theorem left_recordFailure (kind : String) (token : Option String) (jitter : Option T) :
    Left site record (now, .recordFailure kind token jitter)
      (recordFailure site record now kind token jitter).1 := by
  unfold recordFailure
  dsimp only
  split
  · exact .same
  · rename_i hrefused
    have haccepted : refused (currentState record now) token = false := Bool.eq_false_iff.mpr hrefused
    refine .failure rfl haccepted _ _ ?_
    split
    · exact closedFor_le _ jitter
    · exact site.max_pos.le

theorem left_after (e : T × Call T) : Left site record e (after site record e) := by
  obtain ⟨now, call⟩ := e
  cases call with
  | decision jitter token => exact left_decision jitter token
  | recordSuccess token => exact left_recordSuccess token
  | recordFailure kind token jitter => exact left_recordFailure kind token jitter
  | release token => exact left_release token

theorem failuresAfter_le (prior : Option (CircuitState T)) (now : T) :
    failuresAfter site prior now ≤ maxFailures := by
  have hone : 1 ≤ maxFailures := by decide
  unfold failuresAfter
  cases prior with
  | none => exact hone
  | some prior =>
    dsimp only
    split
    · exact min_le_right _ _
    · exact hone

end

/-! ## Runs -/

section

variable {T : Type} [ExactTime T] {site : Site T} {record : Option (CircuitState T)} {now : T}

/-- A count within the cap, and a cooldown within the maximum from when the record was written. -/
structure Sound (site : Site T) (record : Option (CircuitState T)) : Prop where
  capped : failuresOf record ≤ maxFailures
  window : ∀ state ∈ record, FloatTime.sub state.openUntil state.updatedAt ≤ site.routeCircuitMaxCooldown

/-- Nothing is left at a time of a cooldown that ended at zero. -/
theorem zero_sub_le (hnow : FloatTime.zero ≤ now) : FloatTime.sub FloatTime.zero now ≤ FloatTime.zero :=
  not_lt.mp fun h => absurd ((FloatTime.sub_pos _ _).mp h) (not_lt.mpr hnow)

/-- A record that was moved back has as much of its cooldown left as when it was written, or none. -/
theorem currentState_window (hnow : FloatTime.zero ≤ now) {state rebased : CircuitState T}
    (h : rebased ∈ currentState (some state) now) :
    rebased = state ∧ state.updatedAt ≤ now ∨
      now < state.updatedAt ∧ rebased.updatedAt = now ∧
        (FloatTime.sub rebased.openUntil now ≤ FloatTime.zero ∨
          FloatTime.sub rebased.openUntil now = FloatTime.sub state.openUntil state.updatedAt) := by
  simp only [currentState, Option.map_some, Option.mem_some_iff] at h
  split at h
  · rename_i hpast
    exact .inl ⟨h.symm, hpast⟩
  · rename_i hback
    subst h
    refine .inr ⟨not_le.mp hback, rfl, ?_⟩
    dsimp only
    rcases max_choice FloatTime.zero
        (FloatTime.sub state.openUntil (FloatTime.sub state.updatedAt now)) with hmax | hmax
    · rw [hmax]
      exact .inl (zero_sub_le hnow)
    · rw [hmax]
      exact .inr (ExactTime.sub_rebase _ _ _)

theorem Sound.current (h : Sound site record) (hnow : FloatTime.zero ≤ now) :
    Sound site (currentState record now) where
  capped := (failuresOf_currentState record now).trans_le h.capped
  window rebased hrebased := by
    cases record with
    | none => cases hrebased
    | some state =>
      have hstate := h.window state rfl
      rcases currentState_window hnow hrebased with ⟨rfl, -⟩ | ⟨-, hupdated, hnone | hsame⟩
      · exact hstate
      · rw [hupdated]
        exact hnone.trans site.max_pos.le
      · rw [hupdated, hsame]
        exact hstate

theorem Sound.after {e : T × Call T} (h : Sound site record) (hnow : FloatTime.zero ≤ e.1) :
    Sound site (after site record e) := by
  have hcurrent := h.current hnow
  have hleft : Left site record e (Routes.after site record e) := left_after e
  generalize Routes.after site record e = record' at hleft
  cases hleft with
  | same => exact hcurrent
  | reserved hstate =>
    rw [hstate] at hcurrent
    refine ⟨hcurrent.capped, ?_⟩
    rintro _ ⟨⟩
    exact (ExactTime.add_sub_self _ _).trans_le (closedFor_le _ _)
  | released hstate =>
    rw [hstate] at hcurrent
    refine ⟨hcurrent.capped, ?_⟩
    rintro _ ⟨⟩
    exact (zero_sub_le hnow).trans site.max_pos.le
  | success =>
    refine ⟨Nat.zero_le _, ?_⟩
    rintro _ ⟨⟩
    exact (zero_sub_le hnow).trans site.max_pos.le
  | failure _ _ _ openFor hopen =>
    refine ⟨failuresAfter_le _ _, ?_⟩
    rintro _ ⟨⟩
    exact (ExactTime.add_sub_self _ _).trans_le hopen

theorem Sound.step {e : T × Call T} {record' : Option (CircuitState T)} (h : Sound site record)
    (hstep : ladderStep site record e = some record') : Sound site record' := by
  unfold ladderStep at hstep
  split at hstep
  · cases hstep
  · rename_i hnow
    obtain rfl := Option.some.inj hstep
    exact h.after (not_lt.mp hnow)

theorem Sound.start : Sound site none where
  capped := Nat.zero_le _
  window _ hstate := by cases hstate

end

/-! ## Runs of a default site -/

instance exactRational : ExactTime ℚ where
  add_sub_self a b := add_sub_cancel_left a b
  sub_rebase u w n := by
    show u - (w - n) - n = u - w
    ring

deriving instance DecidableEq for CircuitState

section

variable (site : Site T) (record : Option (CircuitState T)) (e : T × Call T)

instance PromptFailure.decidable : Decidable (PromptFailure site record e) :=
  match h : e.2 with
  | .recordFailure _ token _ =>
    decidable_of_iff (∀ prior ∈ currentState record e.1, refused (some prior) token = false →
      FloatTime.sub e.1 (max prior.lastFailureAt prior.openUntil) ≤ site.routeCircuitMaxCooldown)
      (by simp [PromptFailure, h])
  | .decision _ _ => .isTrue (by simp [PromptFailure, h])
  | .recordSuccess _ => .isTrue (by simp [PromptFailure, h])
  | .release _ => .isTrue (by simp [PromptFailure, h])

instance NoSuccess.decidable : Decidable (NoSuccess record e) :=
  match h : e.2 with
  | .recordSuccess token =>
    decidable_of_iff (∀ prior ∈ currentState record e.1, refused (some prior) token = true)
      (by simp [NoSuccess, h])
  | .recordFailure _ _ _ => .isTrue (by simp [NoSuccess, h])
  | .decision _ _ => .isTrue (by simp [NoSuccess, h])
  | .release _ => .isTrue (by simp [NoSuccess, h])

end

end Dt.Routes
