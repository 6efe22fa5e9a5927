import Mathlib
import Dt.Lib.Machine
import Dt.Lib.Text

/-!
# The circuit of a route

A head keeps one record for each direct route between two nodes of a site. Failures are counted in
it; from a threshold on the route is closed for a while, and then one caller at a time may try it
again: `decision` reserves the trial, with a token, until a time that it writes into the record.
The outcome of the trial must come with the token.

Every operation holds the lock of the record, so a run of the callers is a sequence of operations,
each at its own time. Times are floats; all that is used of their arithmetic is the sign of a
difference.
-/

namespace Dt.Routes

open Dt.Lib

/-- The floats as times. -/
class FloatTime (T : Type) extends LinearOrder T where
  zero : T
  add : T → T → T
  sub : T → T → T
  mul : T → T → T
  /-- the float next to a number -/
  ofRat : ℚ → T
  sub_pos : ∀ a b, zero < sub a b ↔ b < a

variable {T : Type} [FloatTime T]

def maxFailures : Nat := 64

/-- The circuit settings of a site; the configuration checks their bounds. -/
structure Site (T : Type) [FloatTime T] where
  routeCircuitFailures : Nat
  routeCircuitCooldown : T
  routeCircuitMaxCooldown : T
  max_pos : FloatTime.zero < routeCircuitMaxCooldown

/-- `RouteCircuitState` of one route. -/
structure CircuitState (T : Type) where
  failures : Nat
  openUntil : T
  lastFailureAt : T
  lastKind : String
  updatedAt : T
  reservationToken : Option String

/-- `RouteCircuitDecision` -/
structure CircuitDecision (T : Type) where
  isOpen : Bool
  retryAfter : T
  failures : Nat
  lastKind : Option String
  reservationToken : Option String

/-- `_current_state`: the record, moved back with a clock that went back. -/
def currentState (record : Option (CircuitState T)) (now : T) : Option (CircuitState T) :=
  record.map fun state =>
    if state.updatedAt ≤ now then state
    else
      let rollback := FloatTime.sub state.updatedAt now
      { state with
        openUntil := max FloatTime.zero (FloatTime.sub state.openUntil rollback)
        lastFailureAt := max FloatTime.zero (FloatTime.sub state.lastFailureAt rollback)
        updatedAt := now }

/-- `_cooldown`; a jitter that is not finite is none. -/
def cooldown (jitter : Option T) (value maximum : T) : T :=
  let sample := min (FloatTime.ofRat 1) (max FloatTime.zero (jitter.getD (FloatTime.ofRat (1 / 2))))
  min maximum (max FloatTime.zero (FloatTime.mul value (FloatTime.add (FloatTime.ofRat (9 / 10))
    (FloatTime.mul (FloatTime.ofRat (1 / 5)) sample))))

/-- `_decision` -/
def decisionOf (state : Option (CircuitState T)) (now maximum : T) : CircuitDecision T :=
  match state with
  | none => ⟨false, FloatTime.zero, 0, none, none⟩
  | some state =>
    let retryAfter := min maximum (max FloatTime.zero (FloatTime.sub state.openUntil now))
    ⟨FloatTime.zero < retryAfter, retryAfter, state.failures, some state.lastKind, none⟩

section

variable (site : Site T)

/-- How long a route stays closed after so many failures. -/
def closedFor (failures : Nat) (jitter : Option T) : T :=
  let exponent := min (failures - site.routeCircuitFailures) maxFailures
  cooldown jitter
    (min (FloatTime.mul site.routeCircuitCooldown (FloatTime.ofRat (2 ^ exponent)))
      site.routeCircuitMaxCooldown) site.routeCircuitMaxCooldown

/-- `decision`; the token is a new `uuid4`. -/
def decision (record : Option (CircuitState T)) (now : T) (jitter : Option T) (token : String) :
    Option (CircuitState T) × CircuitDecision T :=
  let current := currentState record now
  let decided := decisionOf current now site.routeCircuitMaxCooldown
  match current with
  | none => (none, decided)
  | some state =>
    if decided.isOpen || state.failures < site.routeCircuitFailures then (some state, decided)
    else
      (some { state with
          openUntil := FloatTime.add now (closedFor site state.failures jitter)
          updatedAt := now
          reservationToken := some token },
        ⟨false, FloatTime.zero, state.failures, some state.lastKind, some token⟩)

/-- `hmac_compare` of a token of the record, which may have none. -/
def holds (state : CircuitState T) (token : Option String) : Bool :=
  state.reservationToken.isSome && state.reservationToken = token

/-- `record_success` -/
def recordSuccess (record : Option (CircuitState T)) (now : T) (token : Option String) :
    Option (CircuitState T) :=
  match currentState record now with
  | none => none
  | some prior =>
    if token.isSome && !holds prior token then some prior
    else if token.isNone && prior.reservationToken.isSome then some prior
    else if prior.failures = 0 && prior.openUntil = FloatTime.zero && prior.lastKind = "success" then
      some prior
    else some ⟨0, FloatTime.zero, FloatTime.zero, "success", now, none⟩

/-- `release_reservation` -/
def releaseReservation (record : Option (CircuitState T)) (now : T) (token : Option String) :
    Option (CircuitState T) :=
  match currentState record now with
  | none => none
  | some prior =>
    if !holds prior token || prior.failures < site.routeCircuitFailures || prior.openUntil ≤ now ||
        prior.updatedAt ≤ prior.lastFailureAt then some prior
    else some { prior with openUntil := FloatTime.zero, updatedAt := now, reservationToken := none }

/-- `_KIND_RE` -/
def validKind (kind : String) : Bool :=
  match kind.toList with
  | [] => false
  | c :: cs => ('a' ≤ c && c ≤ 'z') && classRun
      (fun d => ('a' ≤ d && d ≤ 'z') || isDigit d || d = '_' || d = '.' || d = '-') 0 63 cs

/-- The failure count after one more failure; a long quiet time starts it again. -/
def failuresAfter (prior : Option (CircuitState T)) (now : T) : Nat :=
  match prior with
  | none => 1
  | some prior =>
    if 0 < prior.failures ∧ FloatTime.sub now (max prior.lastFailureAt prior.openUntil) ≤
        site.routeCircuitMaxCooldown then min (prior.failures + 1) maxFailures
    else 1

/-- `record_failure` -/
def recordFailure (record : Option (CircuitState T)) (now : T) (kind : String)
    (token : Option String) (jitter : Option T) : Option (CircuitState T) × CircuitDecision T :=
  let prior := currentState record now
  let stale := token.isSome && !(prior.any (holds · token))
  let reservedByAnother := token.isNone && prior.any (·.reservationToken.isSome)
  if stale || reservedByAnother then
    (prior, decisionOf prior now site.routeCircuitMaxCooldown)
  else
    let failures := failuresAfter site prior now
    let openFor :=
      if site.routeCircuitFailures ≤ failures then closedFor site failures jitter
      else FloatTime.zero
    let state : CircuitState T :=
      { failures
        openUntil := FloatTime.add now openFor
        lastFailureAt := now
        lastKind := if validKind kind then kind else "unclassified"
        updatedAt := now
        reservationToken := none }
    (some state, decisionOf (some state) now site.routeCircuitMaxCooldown)

end

/-! ## The callers -/

/-- An operation of a caller, with what it draws. -/
inductive Call (T : Type) where
  | decision (jitter : Option T) (token : String)
  | recordSuccess (token : Option String)
  | recordFailure (kind : String) (token : Option String) (jitter : Option T)
  | release (token : Option String)

/-- A reserved trial: its token and when it expires. -/
structure Trial (T : Type) where
  token : String
  openUntil : T

/-- The record, the clock, and the trials whose callers did not report yet. -/
structure World (T : Type) where
  record : Option (CircuitState T)
  clock : T
  trials : List (Trial T)

def World.start (clock : T) : World T := ⟨none, clock, []⟩

/-- The token in the record. -/
def tokenOf (record : Option (CircuitState T)) : Option String :=
  record.bind CircuitState.reservationToken

/-- The trials after an outcome was reported with a token: its own trial is over when the record
gives it up. -/
def World.outcome (w : World T) (now : T) (token : Option String)
    (record : Option (CircuitState T)) : World T :=
  { record
    clock := now
    trials := w.trials.filter fun trial =>
      !(token = some trial.token && tokenOf record ≠ some trial.token) }

/-- The trials after a decision: an admitted caller with a token has one until the time that the
record holds. -/
def World.decided (w : World T) (now : T) (result : Option (CircuitState T) × CircuitDecision T) :
    World T :=
  { record := result.1
    clock := now
    trials := w.trials ++
      match result.2.reservationToken, result.1 with
      | some token, some state => [⟨token, state.openUntil⟩]
      | _, _ => [] }

/-- One operation, at a time that is not before the last one. -/
def step (site : Site T) (w : World T) (e : T × Call T) : Option (World T) :=
  if e.1 < w.clock then none
  else some <| match e.2 with
    | .decision jitter token => w.decided e.1 (decision site w.record e.1 jitter token)
    | .recordSuccess token => w.outcome e.1 token (recordSuccess w.record e.1 token)
    | .recordFailure kind token jitter =>
      w.outcome e.1 token (recordFailure site w.record e.1 kind token jitter).1
    | .release token => w.outcome e.1 token (releaseReservation site w.record e.1 token)

/-! ## What one operation does -/

omit [FloatTime T] in
theorem holds_iff {state : CircuitState T} {token : Option String} :
    holds state token = true ↔ state.reservationToken.isSome ∧ state.reservationToken = token := by
  simp [holds]

section

variable {site : Site T} {record : Option (CircuitState T)} {now : T}

/-- The record is not from the future. -/
def Past (record : Option (CircuitState T)) (now : T) : Prop :=
  ∀ state ∈ record, state.updatedAt ≤ now

theorem currentState_of_past (h : Past record now) : currentState record now = record := by
  unfold currentState
  cases record with
  | none => rfl
  | some state => simp [h state rfl]

theorem isOpen_iff {state : CircuitState T} {maximum : T} (hmax : FloatTime.zero < maximum) :
    (decisionOf (some state) now maximum).isOpen = true ↔ now < state.openUntil := by
  simp only [decisionOf, decide_eq_true_eq, lt_min_iff, lt_max_iff, lt_irrefl, false_or,
    FloatTime.sub_pos, hmax, true_and]

/-- What a decision does: a route that may be tried is reserved. -/
theorem decision_cases (h : Past record now) (jitter : Option T) (token : String) :
    (decision site record now jitter token).1 = record ∧
        (decision site record now jitter token).2.reservationToken = none ∧
        (∀ state ∈ record, now < state.openUntil ∨ state.failures < site.routeCircuitFailures) ∧
        ((decision site record now jitter token).2.isOpen = true ↔
          ∃ state ∈ record, now < state.openUntil) ∨
      ∃ state ∈ record, state.openUntil ≤ now ∧ site.routeCircuitFailures ≤ state.failures ∧
        decision site record now jitter token =
          (some { state with
            openUntil := FloatTime.add now (closedFor site state.failures jitter)
            updatedAt := now
            reservationToken := some token },
          ⟨false, FloatTime.zero, state.failures, some state.lastKind, some token⟩) := by
  unfold decision
  rw [currentState_of_past h]
  cases record with
  | none =>
    left
    refine ⟨rfl, rfl, fun state hstate => (nomatch hstate), ?_⟩
    simp [decisionOf]
  | some state =>
    have hopen := @isOpen_iff T _ now state _ site.max_pos
    dsimp only
    split
    · rename_i hclosed
      left
      refine ⟨rfl, rfl, ?_, ?_⟩
      · rintro state' hstate'
        obtain rfl := Option.some.inj hstate'
        rw [Bool.or_eq_true, hopen, decide_eq_true_eq] at hclosed
        exact hclosed
      · simpa using hopen
    · rename_i hfree
      right
      rw [Bool.or_eq_true, hopen, decide_eq_true_eq, not_or, not_lt, not_lt] at hfree
      exact ⟨state, rfl, hfree.1, hfree.2, rfl⟩

/-- What an outcome does: it leaves the record alone, or it came with the token of the record and
ends the reservation. -/
structure Outcome (record : Option (CircuitState T)) (now : T) (token : Option String)
    (record' : Option (CircuitState T)) : Prop where
  token_eq : tokenOf record = token
  gone : tokenOf record' = none
  past : Past record' now

theorem recordSuccess_cases (h : Past record now) (token : Option String) :
    recordSuccess record now token = record ∨
      Outcome record now token (recordSuccess record now token) := by
  unfold recordSuccess
  rw [currentState_of_past h]
  cases record with
  | none => exact .inl rfl
  | some prior =>
    dsimp only
    split
    · exact .inl rfl
    · rename_i hstale
      split
      · exact .inl rfl
      · rename_i hreserved
        split
        · exact .inl rfl
        · right
          refine ⟨?_, rfl, fun state hstate => ?_⟩
          · cases token with
            | none => simpa [tokenOf] using hreserved
            | some t =>
              have hholds : holds prior (some t) = true := by simpa using hstale
              exact (holds_iff.mp hholds).2
          · obtain rfl := Option.some.inj hstate
            exact le_rfl

theorem release_cases (h : Past record now) (token : Option String) :
    releaseReservation site record now token = record ∨
      Outcome record now token (releaseReservation site record now token) := by
  unfold releaseReservation
  rw [currentState_of_past h]
  cases record with
  | none => exact .inl rfl
  | some prior =>
    dsimp only
    split
    · exact .inl rfl
    · rename_i hkept
      right
      have hholds : holds prior token = true := by
        by_contra hnot
        simp [hnot] at hkept
      refine ⟨(holds_iff.mp hholds).2, rfl, fun state hstate => ?_⟩
      obtain rfl := Option.some.inj hstate
      exact le_rfl

theorem recordFailure_cases (h : Past record now) (kind : String) (token : Option String)
    (jitter : Option T) :
    (recordFailure site record now kind token jitter).1 = record ∨
      Outcome record now token (recordFailure site record now kind token jitter).1 := by
  unfold recordFailure
  rw [currentState_of_past h]
  dsimp only
  split
  · exact .inl rfl
  · rename_i hrefused
    right
    refine ⟨?_, rfl, fun state hstate => ?_⟩
    · cases record with
      | none =>
        cases token with
        | none => rfl
        | some t => simp at hrefused
      | some prior =>
        cases token with
        | none => simpa [tokenOf] using hrefused
        | some t =>
          have hholds : holds prior (some t) = true := by simpa using hrefused
          exact (holds_iff.mp hholds).2
    · obtain rfl := Option.some.inj hstate
      exact le_rfl

end

/-! ## The reservation is exclusive -/

/-- Every trial that is not expired is the one in the record, and there is at most one. -/
structure Inv (site : Site T) (w : World T) : Prop where
  past : Past w.record w.clock
  current : ∀ trial ∈ w.trials, w.clock < trial.openUntil → ∃ state ∈ w.record,
    state.reservationToken = some trial.token ∧ state.openUntil = trial.openUntil ∧
      site.routeCircuitFailures ≤ state.failures
  single : (w.trials.filter fun trial => w.clock < trial.openUntil).length ≤ 1

section

variable {site : Site T} {w w' : World T} {now : T}

theorem Inv.start (clock : T) : Inv site (World.start clock) where
  past _ hstate := nomatch hstate
  current _ htrial := absurd htrial List.not_mem_nil
  single := Nat.zero_le _

/-- Trials only expire while time goes by. -/
theorem Inv.single_later (h : Inv site w) (hnow : w.clock ≤ now) :
    (w.trials.filter fun trial => now < trial.openUntil).length ≤ 1 := by
  refine le_trans (List.Sublist.length_le ?_) h.single
  refine List.monotone_filter_right _ fun trial htrial => ?_
  exact decide_eq_true (lt_of_le_of_lt hnow (of_decide_eq_true htrial))

theorem Inv.later (h : Inv site w) (hnow : w.clock ≤ now) : Inv site { w with clock := now } where
  past state hstate := (h.past state hstate).trans hnow
  current trial htrial hopen := h.current trial htrial (lt_of_le_of_lt hnow hopen)
  single := h.single_later hnow

/-- A decision reserves only when no trial is open. -/
theorem Inv.decided (h : Inv site w) (hnow : w.clock ≤ now) (jitter : Option T) (token : String) :
    Inv site (w.decided now (decision site w.record now jitter token)) := by
  have hlater := h.later hnow
  rcases @decision_cases T _ site w.record now hlater.past jitter token with
    ⟨hrecord, hnone, -, -⟩ | ⟨state, hstate, hexpired, hfailures, heq⟩
  · unfold World.decided
    rw [hrecord, hnone]
    simpa using hlater
  · have hclosed : ∀ trial ∈ w.trials, ¬ now < trial.openUntil := by
      intro trial htrial hopen
      obtain ⟨state', hstate', -, huntil, -⟩ := hlater.current trial htrial hopen
      obtain rfl := Option.some.inj (hstate.symm.trans hstate')
      exact absurd (huntil ▸ hexpired) (not_le.mpr hopen)
    have hfilter : w.trials.filter (fun trial => now < trial.openUntil) = [] := by
      rw [List.filter_eq_nil_iff]
      exact fun trial htrial => by simpa using hclosed trial htrial
    unfold World.decided
    rw [heq]
    dsimp only
    refine ⟨?_, ?_, ?_⟩
    · rintro state' hstate'
      obtain rfl := Option.some.inj hstate'
      exact le_rfl
    · intro trial htrial hopen
      rcases List.mem_append.mp htrial with htrial | htrial
      · exact absurd hopen (hclosed trial htrial)
      · obtain rfl := List.mem_singleton.mp htrial
        exact ⟨_, rfl, rfl, rfl, hfailures⟩
    · dsimp only
      rw [List.filter_append, hfilter, List.nil_append]
      exact List.length_filter_le _ _

/-- An outcome ends the open trial, or leaves the record alone. -/
theorem Inv.outcome (h : Inv site w) (hnow : w.clock ≤ now) {token : Option String}
    {record : Option (CircuitState T)}
    (hcases : record = w.record ∨ Outcome w.record now token record) :
    Inv site (w.outcome now token record) := by
  have hlater := h.later hnow
  rcases hcases with rfl | hout
  · refine ⟨hlater.past, fun trial htrial hopen => ?_, ?_⟩
    · exact hlater.current trial (List.mem_of_mem_filter htrial) hopen
    · refine le_trans (List.Sublist.length_le ?_) hlater.single
      exact List.Sublist.filter _ List.filter_sublist
  · have hclosed : ∀ trial ∈ (w.outcome now token record).trials, ¬ now < trial.openUntil := by
      intro trial htrial hopen
      obtain ⟨hmem, hkept⟩ := List.mem_filter.mp htrial
      obtain ⟨state, hstate, htoken, -⟩ := hlater.current trial hmem hopen
      have hsame : token = some trial.token := by
        rw [← hout.token_eq, tokenOf, Option.mem_def.mp hstate]
        exact htoken
      simp [hsame, hout.gone] at hkept
    refine ⟨hout.past, fun trial htrial hopen => absurd hopen (hclosed trial htrial), ?_⟩
    have hnone : (w.outcome now token record).trials.filter
        (fun trial => now < trial.openUntil) = [] := by
      rw [List.filter_eq_nil_iff]
      exact fun trial htrial => by simpa using hclosed trial htrial
    exact (congrArg List.length hnone).le.trans (Nat.zero_le 1)

theorem Inv.step {e : T × Call T} (h : Inv site w) (hstep : step site w e = some w') :
    Inv site w' := by
  unfold Routes.step at hstep
  split at hstep
  · cases hstep
  · rename_i hnow
    have hle := not_lt.mp hnow
    have hpast : Past w.record e.1 := (h.later hle).past
    obtain rfl := Option.some.inj hstep
    cases e.2 with
    | decision jitter token => exact h.decided hle jitter token
    | recordSuccess token => exact h.outcome hle (recordSuccess_cases hpast token)
    | recordFailure kind token jitter =>
      exact h.outcome hle (recordFailure_cases hpast kind token jitter)
    | release token => exact h.outcome hle (release_cases hpast token)

/-- In every run of the callers, at most one trial is reserved and not expired; while one is, no
caller is admitted; every caller that is admitted from the threshold on gets a reservation; and an
outcome without the token of the record leaves a reserved record as it is. -/
theorem trial_exclusive (site : Site T) {clock : T} {events : List (T × Call T)}
    (hrun : run (Routes.step site) (World.start clock) events = some w) {now : T}
    (hnow : w.clock ≤ now) :
    (w.trials.filter fun trial => now < trial.openUntil).length ≤ 1 ∧
    (∀ trial ∈ w.trials, now < trial.openUntil → ∀ jitter token,
      (decision site w.record now jitter token).1 = w.record ∧
        (decision site w.record now jitter token).2.isOpen = true ∧
        (decision site w.record now jitter token).2.reservationToken = none) ∧
    (∀ state ∈ w.record, site.routeCircuitFailures ≤ state.failures → ∀ jitter token,
      (decision site w.record now jitter token).2.isOpen = false →
        (decision site w.record now jitter token).2.reservationToken = some token ∧
          ∃ state', (decision site w.record now jitter token).1 = some state' ∧
            ⟨token, state'.openUntil⟩ ∈
              (w.decided now (decision site w.record now jitter token)).trials) ∧
    ∀ state ∈ w.record, state.reservationToken.isSome → ∀ token, token ≠ state.reservationToken →
      recordSuccess w.record now token = w.record ∧
        releaseReservation site w.record now token = w.record ∧
        ∀ kind jitter, (recordFailure site w.record now kind token jitter).1 = w.record := by
  have hinv : Inv site w := run_inv (fun _ _ _ hi hs => hi.step hs) (Inv.start clock) hrun
  have hlater := hinv.later hnow
  refine ⟨hinv.single_later hnow, ?_, ?_, ?_⟩
  · intro trial htrial hopen jitter token
    obtain ⟨state, hstate, -, huntil, hfailures⟩ := hlater.current trial htrial hopen
    rcases @decision_cases T _ site w.record now hlater.past jitter token with
      ⟨hrecord, hnone, -, hiff⟩ | ⟨state', hstate', hexpired, -, -⟩
    · exact ⟨hrecord, hiff.mpr ⟨state, hstate, huntil ▸ hopen⟩, hnone⟩
    · obtain rfl := Option.some.inj (hstate.symm.trans hstate')
      exact absurd (huntil ▸ hexpired) (not_le.mpr hopen)
  · intro state hstate hfailures jitter token hclosed
    rcases @decision_cases T _ site w.record now hlater.past jitter token with
      ⟨-, -, hwhy, hiff⟩ | ⟨state', -, -, -, heq⟩
    · have hopen : now < state.openUntil := (hwhy state hstate).resolve_right (not_lt.mpr hfailures)
      rw [hiff.mpr ⟨state, hstate, hopen⟩] at hclosed
      cases hclosed
    · rw [heq]
      exact ⟨rfl, _, rfl, List.mem_append_right _ (List.mem_singleton_self _)⟩
  · intro state hstate hsome token hne
    have hkept : ∀ record, record = w.record ∨ Outcome w.record now token record →
        record = w.record := by
      rintro record (h | h)
      · exact h
      · refine absurd h.token_eq.symm ?_
        rw [tokenOf, Option.mem_def.mp hstate]
        exact hne
    exact ⟨hkept _ (recordSuccess_cases hlater.past token),
      hkept _ (release_cases hlater.past token),
      fun kind jitter => hkept _ (recordFailure_cases hlater.past kind token jitter)⟩

end

/-- Exact times. -/
instance exactTime : FloatTime ℚ where
  zero := 0
  add a b := a + b
  sub a b := a - b
  mul a b := a * b
  ofRat q := q
  sub_pos _ _ := sub_pos

def defaultSite : Site ℚ := ⟨2, 60, 900, by decide⟩

/-- Two failures close the route; after the cooldown one caller tries it. -/
def trialEvents : List (ℚ × Call ℚ) :=
  [(1, .recordFailure "timeout" none none), (2, .recordFailure "timeout" none none),
    (100, .decision none "0123456789abcdef0123456789abcdef")]

theorem trialEvents_run : (run (step defaultSite) (World.start 0) trialEvents).map (fun w =>
    (w.clock, w.trials.map fun trial => (trial.token, trial.openUntil))) =
      some (100, [("0123456789abcdef0123456789abcdef", 160)]) := by
  decide +kernel

theorem trial_exclusive_sample : ∃ w, run (step defaultSite) (World.start 0) trialEvents = some w ∧
    w.trials.length = 1 ∧ (decision defaultSite w.record 120 none "").2.isOpen = true := by
  obtain ⟨w, hw, hparts⟩ := Option.map_eq_some_iff.mp trialEvents_run
  obtain ⟨hclock, htrials⟩ := Prod.mk.inj hparts
  have hnow : w.clock ≤ 120 := by
    rw [hclock]
    decide
  obtain ⟨-, hclosed, -⟩ := trial_exclusive defaultSite hw hnow
  have hlength : w.trials.length = 1 := by simpa using congrArg List.length htrials
  obtain ⟨trial, htrial⟩ := List.length_eq_one_iff.mp hlength
  rw [htrial] at htrials hclosed
  obtain ⟨-, huntil⟩ := Prod.mk.inj (List.cons.inj htrials).1
  have hopen : (120 : ℚ) < trial.openUntil := by
    rw [huntil]
    decide
  exact ⟨w, hw, hlength,
    (hclosed trial (List.mem_singleton_self _) hopen none "").2.1⟩

end Dt.Routes
