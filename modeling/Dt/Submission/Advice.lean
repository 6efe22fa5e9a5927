import Dt.Submission.Group

/-!
# What a group is told about retries

The receipts of a group advise a retry with the same request id as long as the group is open. A
retry claims the group again, with the action it had; a claim with an action is answered only by a
group whose action is known to be done, and the state `prepared` is what says so. Children are
recorded without losing it. The final receipt of an ambiguous child overwrites it.
-/

namespace Dt.Submission.Group

open Dt.Lib Dt.Jobs

/-- `retry_with_same_request_id`, in `status_payload` and in `dt request`. -/
def retryWithSameRequestId (r : GroupRequestRecord) : Bool := !r.state.terminal

/-- What `locked_claim` answers, up to the start of its action. -/
inductive ClaimAnswer where
  | returned (r : GroupRequestRecord)
  | raised (message : String)
  | outcomeUnknown (message : String) (r : GroupRequestRecord)
  /-- A fresh or reopened claim goes on with its action. -/
  | goesOn (r : GroupRequestRecord)
  deriving DecidableEq, Repr

/-- The message of a claim whose action may or may not have run. -/
def preparationUnknown (rid : String) : String :=
  "request '" ++ rid ++ "' preparation outcome is unknown; " ++
    "inspect `dt request " ++ rid ++ " --json` before retrying"

/-- `locked_claim` once it has the lock and has read the record. -/
def lockedClaim (rid : String) (single : Bool) (existing : Option GroupRequestRecord)
    (intent : String) (operation : Operation) (requested : Nat) (action : Bool) (now : Time) :
    ClaimAnswer :=
  match claimRecord rid single existing intent operation requested now with
  | .error message => .raised message
  | .ok (.existing r) =>
    if !action || r.state = .prepared || r.state = .confirmed then .returned r
    else .outcomeUnknown (preparationUnknown rid) r
  | .ok (.fresh r) | .ok (.reopened r) => .goesOn r

structure Failure where
  kind : String
  message : String
  deriving DecidableEq, Repr

/-- The part of `_GroupOutcome` that the final receipt reads. -/
structure GroupOutcome where
  failure : Option Failure := none
  failureCode : Int := 0
  groupRecord : Option GroupRequestRecord := none
  groupIntentSha256 : Option String := none
  groupTerminalReplay : Bool := false
  deriving DecidableEq, Repr

/-- The failure leaves open whether a child was launched. -/
def GroupOutcome.uncertain (o : GroupOutcome) (interruptedKind : String) : Bool :=
  o.failure.any fun f => f.kind ∈
    [interruptedKind, "submission_unknown", "idempotency_conflict", "uncertain_launch"]

/-- `_finalize_group_request`: the transition it asks for, if any. -/
def finalizeGroupRequest (o : GroupOutcome) (interruptedKind : String) (transient : Bool)
    (w : Write) : Option Op :=
  match o.groupRecord, o.groupIntentSha256 with
  | some r, some intent =>
    if o.groupTerminalReplay || transient || r.state = .rejected then none
    else
      let uncertain := o.uncertain interruptedKind
      some (.transition intent (if uncertain then .uncertain else .confirmed)
        (if uncertain then none else some o.failureCode) (o.failure.map (·.kind))
        (o.failure.map (·.message)) w)
  | _, _ => none

/-- A locked operation, or a client that writes the final receipt. -/
inductive Event where
  | locked (a : Op)
  | finalize (o : GroupOutcome) (interruptedKind : String) (transient : Bool) (w : Write)

/-- The locked operation of an event. -/
def Event.op : Event → Option Op
  | .locked a => some a
  | .finalize o interruptedKind transient w => finalizeGroupRequest o interruptedKind transient w

def stepEvent (rid : String) (s : World) (e : Event) : Option World :=
  match e.op with
  | none => some s
  | some a => step rid s a

/-- The operation takes a prepared group back: to an uncertain or preparing one, or to a rejection
that a claim reopens. -/
def Op.unprepares (s : World) : Op → Bool
  | .transition intent state _ kind _ w =>
    w ≠ .lost && s.slot.visible.any fun v => v.state = .prepared && v.intentSha256 = intent &&
      (state = .uncertain || state = .preparing ||
        state = .rejected && kind = some "claimed_action_interrupted" && v.submitted = 0)
  | _ => false

/-- No event of the run takes a prepared group back. -/
def KeepsPrepared (s : World) (e : Event) : Prop := e.op.any (·.unprepares s) = false

instance (s : World) (e : Event) : Decidable (KeepsPrepared s e) :=
  inferInstanceAs (Decidable (_ = _))

/-! ## Prepared groups -/

/-- A group whose action is known to be done, or that nothing changes any more. -/
def Kept (r : GroupRequestRecord) : Prop := r.state = .prepared ∨ Final r

theorem Kept.not_reopenable {r : GroupRequestRecord} (h : Kept r) : r.reopenable = false := by
  rcases h with h | h
  · simp [GroupRequestRecord.reopenable, h]
  · exact h.2

theorem Kept.prepared {r : GroupRequestRecord} (h : Kept r) (hopen : r.state.terminal = false) :
    r.state = .prepared :=
  h.resolve_right (not_final_of_open hopen)

theorem not_kept_of_preparing {r : GroupRequestRecord} (h : r.state = .preparing) : ¬ Kept r := by
  rintro (hp | hf)
  · rw [h] at hp
    cases hp
  · exact not_final_of_open (by rw [h]; rfl) hf

/-- What a crash would leave is known to be prepared. -/
def DurablyKept (s : World) : Prop := ∃ d, s.slot.durable = some d ∧ Kept d

/-- A group that is durably prepared is seen so, and its lock is free. -/
def Sound (s : World) : Prop :=
  DurablyKept s → s.acting = none ∧ ∃ v, s.slot.visible = some v ∧ Kept v

variable {s s' : World} {w : Write} {r : GroupRequestRecord} {rid : String}

/-- A version may be saved if it does not take a prepared group back. -/
theorem Sound.save (hs : Sound s) (hfree : s.acting = none)
    (hr : w ≠ .lost → ∀ v, s.slot.visible = some v → Kept v → Kept r) :
    Sound (s.save w r) ∧ (DurablyKept s → DurablyKept (s.save w r)) := by
  rcases save_eq s w r with heq | ⟨heq, -⟩
  · rw [heq]
    exact ⟨hs, id⟩
  rw [heq]
  cases w with
  | lost => exact ⟨hs, id⟩
  | unsynced =>
    refine ⟨fun hd => ⟨hfree, r, rfl, ?_⟩, id⟩
    obtain ⟨-, v, hv, hk⟩ := hs hd
    exact hr (by decide) v hv hk
  | synced =>
    refine ⟨fun ⟨d, hd, hk⟩ => ⟨hfree, d, hd, hk⟩, fun hd => ⟨r, rfl, ?_⟩⟩
    obtain ⟨-, v, hv, hk⟩ := hs hd
    exact hr (by decide) v hv hk

/-- A claim writes over no prepared group. -/
theorem Sound.begin (hs : Sound s) (hfree : s.acting = none) (client : Nat) (action : Bool)
    (hstate : r.state = .preparing) (hnot : ∀ v, s.slot.visible = some v → ¬ Kept v) :
    Sound (s.begin client r action w) ∧
      (DurablyKept s → DurablyKept (s.begin client r action w)) := by
  have hnone : ¬ DurablyKept s := fun hd => by
    obtain ⟨-, v, hv, hk⟩ := hs hd
    exact hnot v hv hk
  refine ⟨?_, fun hd => absurd hd hnone⟩
  unfold World.begin
  split
  · rintro ⟨d, hd, hk⟩
    rcases save_eq s w r with heq | ⟨heq, -⟩
    · exact absurd ⟨d, by rw [heq] at hd; exact hd, hk⟩ hnone
    · rw [heq] at hd
      cases w with
      | lost => exact absurd ⟨d, hd, hk⟩ hnone
      | unsynced => exact absurd ⟨d, hd, hk⟩ hnone
      | synced =>
        obtain rfl := Option.some.inj hd
        exact absurd hk (not_kept_of_preparing hstate)
  · exact (hs.save hfree fun _ v hv hk => absurd hk (hnot v hv)).1

theorem recordJob_prepared {intent : String} {v : GroupRequestRecord} {index : Nat}
    {jobId : JobId} {child : Option RequestRecord} {now : Time}
    (h : recordJob rid (some v) intent index jobId child now = .ok (some r))
    (hv : v.state = .prepared) : r.state = .prepared := by
  simp only [recordJob, hv, if_true] at h
  repeat' split at h
  all_goals cases h
  rfl

/-- What a transition leaves, if it does not take a prepared group back. -/
theorem transition_kept {intent : String} {state : GroupState} {code : Option Int}
    {kind message : Option String} {now : Time} {v : GroupRequestRecord}
    (hv : s.slot.visible = some v) (hk : Kept v)
    (hok : (Op.transition intent state code kind message w).unprepares s = false) (hw : w ≠ .lost)
    (h : lockedTransition rid (some v) intent state code kind message now = .ok (some r)) :
    Kept r := by
  simp only [lockedTransition] at h
  split at h
  · cases h
  rename_i hintent
  split at h
  · cases h
  rename_i hopen
  cases h
  have hp := hk.prepared (Bool.eq_false_iff.mpr hopen)
  simp only [Op.unprepares, hv, Option.any_some, hp, not_not.mp hintent, ne_eq, hw,
    not_false_eq_true, decide_true, Bool.true_and] at hok
  cases state with
  | preparing => simp at hok
  | uncertain => simp at hok
  | prepared => exact .inl rfl
  | confirmed => exact .inr ⟨rfl, by simp [GroupRequestRecord.reopenable, GroupRequestRecord.become]⟩
  | rejected =>
    refine .inr ⟨rfl, ?_⟩
    simpa [GroupRequestRecord.reopenable, GroupRequestRecord.become] using hok

/-- Every operation that does not take a prepared group back leaves it known to be prepared. -/
theorem step_sound {a : Op} (hinv : Inv s) (h : Sound s) (hok : a.unprepares s = false)
    (hs : step rid s a = some s') : Sound s' ∧ (DurablyKept s → DurablyKept s') := by
  cases a with
  | claim client intent operation requested action w =>
    simp only [step] at hs
    split at hs
    · cases hs
    rename_i hfree
    have hfree : s.acting = none := by simpa using hfree
    cases hc : claimRecord rid s.single s.slot.visible intent operation requested s.clock with
    | error m =>
      simp only [hc, Option.some.injEq] at hs
      exact hs ▸ ⟨h, id⟩
    | ok claim =>
      have hspec := claimRecord_ok hc
      cases claim with
      | existing r =>
        simp only [hc, Option.some.injEq] at hs
        exact hs ▸ ⟨h, id⟩
      | fresh r =>
        simp only [hc, Option.some.injEq] at hs
        exact hs ▸ h.begin hfree client action hspec.2.1 fun v hv => by simp [hspec.1] at hv
      | reopened r =>
        simp only [hc, Option.some.injEq] at hs
        obtain ⟨r₀, hv₀, hopen, rfl⟩ := hspec
        refine hs ▸ h.begin hfree client action rfl fun v hv hk => ?_
        obtain rfl : r₀ = v := Option.some.inj (hv₀.symm.trans hv)
        rw [hk.not_reopenable] at hopen
        cases hopen
  | finish result w =>
    simp only [step] at hs
    split at hs
    · cases hs
    rename_i c r ha
    cases hs
    -- the group is preparing while its action runs
    obtain ⟨hslot, hstate⟩ := hinv.acting c r ha
    have hnone : ¬ DurablyKept s := by
      rintro ⟨d, hd, hk⟩
      rw [hslot] at hd
      obtain rfl := Option.some.inj hd
      exact not_kept_of_preparing hstate hk
    have hfree : Sound { s with acting := none } := fun hd => absurd hd hnone
    have hsame : ({ s with acting := none } : World).save w (actionReceipt r result s.clock) =
        { s.save w (actionReceipt r result s.clock) with acting := none } := by
      unfold World.save
      split <;> rfl
    have hsaved := (hfree.save (w := w) (r := actionReceipt r result s.clock) rfl
      fun _ v hv hk => by
        have hv : s.slot.visible = some v := hv
        rw [hslot] at hv
        obtain rfl := Option.some.inj hv
        exact absurd hk (not_kept_of_preparing hstate)).1
    rw [hsame] at hsaved
    exact ⟨hsaved, fun hd => absurd hd hnone⟩
  | recordJob intent index jobId w =>
    simp only [step] at hs
    split at hs
    · cases hs
    rename_i hfree
    have hfree : s.acting = none := by simpa using hfree
    split at hs
    · cases hs
      exact ⟨h, id⟩
    · cases hs
      exact ⟨h, id⟩
    · rename_i r hr
      cases hs
      refine h.save hfree fun _ v hv hk => ?_
      obtain ⟨u, hu, hlive, -⟩ := recordJob_some hr
      obtain rfl : v = u := Option.some.inj (hv.symm.trans hu)
      rw [hv] at hr
      exact .inl (recordJob_prepared hr (hk.prepared hlive))
  | transition intent state exitCode kind message w =>
    simp only [step] at hs
    split at hs
    · cases hs
    rename_i hfree
    have hfree : s.acting = none := by simpa using hfree
    split at hs
    · cases hs
      exact ⟨h, id⟩
    · cases hs
      exact ⟨h, id⟩
    · rename_i r hr
      cases hs
      have hsaved := h.save (w := w) (r := r) hfree fun hw v hv hk =>
        transition_kept hv hk hok hw (hv ▸ hr)
      unfold World.transition
      split
      · exact hsaved
      · exact hsaved
  | child index record =>
    simp only [step] at hs
    split at hs
    · cases hs
      exact ⟨h, id⟩
    · cases hs
  | single =>
    simp only [step] at hs
    split at hs
    · cases hs
    · split at hs <;> cases hs <;> exact ⟨h, id⟩
  | tick dt =>
    simp only [step] at hs
    split at hs
    · cases hs
      exact ⟨h, id⟩
    · cases hs
  | restart =>
    cases hs
    exact ⟨fun hd => ⟨rfl, (h hd).2⟩, id⟩
  | crash =>
    cases hs
    refine ⟨?_, id⟩
    rintro ⟨d, hd, hk⟩
    exact ⟨rfl, d, hd, hk⟩

/-! ## The namespace of request ids -/

/-- A request id of a single job has no group. -/
def Apart (s : World) : Prop := s.single = true → s.slot = {}

theorem Apart.single_eq (h : Apart s) (hv : s.slot.visible = some r) : s.single = false := by
  by_contra hs
  rw [h (Bool.eq_true_of_not_eq_false hs)] at hv
  cases hv

@[simp] theorem save_single (s : World) (w : Write) (r : GroupRequestRecord) :
    (s.save w r).single = s.single := by
  unfold World.save
  split <;> rfl

@[simp] theorem begin_single (s : World) (client : Nat) (r : GroupRequestRecord) (action : Bool)
    (w : Write) : (s.begin client r action w).single = s.single := by
  unfold World.begin
  split <;> simp

@[simp] theorem transition_single (s : World) (r : GroupRequestRecord) (w : Write) :
    (s.transition r w).single = s.single := by
  unfold World.transition
  split
  · exact save_single s w r
  · exact save_single s w r

theorem Apart.of_single_eq (h : s'.single = false) : Apart s' := fun hs => by
  rw [h] at hs
  cases hs

theorem claimRecord_single {intent : String} {o : Option GroupRequestRecord} {op : Operation}
    {n : Nat} {now : Time} {single : Bool} {c : Claim}
    (h : claimRecord rid single o intent op n now = .ok c) : single = false := by
  cases single with
  | false => rfl
  | true => simp [claimRecord] at h

theorem step_apart {a : Op} (hinv : Inv s) (h : Apart s) (hs : step rid s a = some s') :
    Apart s' := by
  cases a with
  | claim client intent operation requested action w =>
    simp only [step] at hs
    split at hs
    · cases hs
    cases hc : claimRecord rid s.single s.slot.visible intent operation requested s.clock with
    | error m =>
      simp only [hc, Option.some.injEq] at hs
      exact hs ▸ h
    | ok claim =>
      have hsingle := claimRecord_single hc
      cases claim with
      | existing r =>
        simp only [hc, Option.some.injEq] at hs
        exact hs ▸ h
      | fresh r =>
        simp only [hc, Option.some.injEq] at hs
        exact .of_single_eq (by rw [← hs, begin_single, hsingle])
      | reopened r =>
        simp only [hc, Option.some.injEq] at hs
        exact .of_single_eq (by rw [← hs, begin_single, hsingle])
  | finish result w =>
    simp only [step] at hs
    split at hs
    · cases hs
    rename_i c r ha
    have hsingle := h.single_eq (r := r) (by rw [(hinv.acting c r ha).1])
    cases hs
    exact .of_single_eq ((save_single s w _).trans hsingle)
  | recordJob intent index jobId w =>
    simp only [step] at hs
    split at hs
    · cases hs
    split at hs
    · cases hs
      exact h
    · cases hs
      exact h
    · rename_i r hr
      obtain ⟨v, hv, -⟩ := recordJob_some hr
      cases hs
      exact .of_single_eq ((save_single s w r).trans (h.single_eq hv))
  | transition intent state exitCode kind message w =>
    simp only [step] at hs
    split at hs
    · cases hs
    split at hs
    · cases hs
      exact h
    · cases hs
      exact h
    · rename_i r hr
      obtain ⟨v, hv, -⟩ := lockedTransition_some hr
      cases hs
      exact .of_single_eq ((transition_single s r w).trans (h.single_eq hv))
  | child index record =>
    simp only [step] at hs
    split at hs <;> cases hs
    exact h
  | single =>
    simp only [step] at hs
    split at hs
    · cases hs
    split at hs
    · cases hs
      exact h
    · rename_i hnone
      cases hs
      intro _
      have hv : s.slot.visible = none := by simpa using hnone
      -- what a crash would leave is below what is seen
      have hd : s.slot.durable = none := by
        cases hd : s.slot.durable with
        | none => rfl
        | some d =>
          obtain ⟨v, hv', -⟩ := hinv.agree d hd
          rw [hv] at hv'
          cases hv'
      have hslot : s.slot = ⟨s.slot.visible, s.slot.durable⟩ := rfl
      show s.slot = ⟨none, none⟩
      rw [hslot, hv, hd]
  | tick dt =>
    simp only [step] at hs
    split at hs <;> cases hs
    exact h
  | restart =>
    cases hs
    exact h
  | crash =>
    cases hs
    intro hsingle
    show s.slot.crash = {}
    rw [h hsingle]
    rfl

/-! ## Runs -/

/-- What the events of a run preserve. -/
structure Advised (s : World) : Prop where
  inv : Inv s
  sound : Sound s
  apart : Apart s

theorem Start.advised (h : Start s) : Advised s where
  inv := h.inv
  sound := fun ⟨d, hd, _⟩ => by simp [h.slot] at hd
  apart _ := h.slot

theorem stepEvent_advised {e : Event} (h : Advised s) (hok : KeepsPrepared s e)
    (hs : stepEvent rid s e = some s') : Advised s' ∧ (DurablyKept s → DurablyKept s') := by
  unfold stepEvent at hs
  split at hs
  · cases hs
    exact ⟨h, id⟩
  · rename_i a ha
    have hok : a.unprepares s = false := by simpa [KeepsPrepared, ha] using hok
    obtain ⟨hsound, hkept⟩ := step_sound h.inv h.sound hok hs
    exact ⟨⟨(step_inv h.inv hs).1, hsound, step_apart h.inv h.apart hs⟩, hkept⟩

/-- An open group answers a claim without an action, and one whose action is known to be done. -/
theorem lockedClaim_open {v : GroupRequestRecord} (hopen : v.state.terminal = false)
    {action : Bool} (hknown : action = false ∨ v.state = .prepared) (now : Time) :
    lockedClaim rid false (some v) v.intentSha256 v.operation v.requested action now =
      .returned v := by
  have hlive : v.state ≠ .rejected := by
    intro hr
    rw [hr] at hopen
    cases hopen
  rcases hknown with rfl | hp
  · simp [lockedClaim, claimRecord, hlive]
  · simp [lockedClaim, claimRecord, hp]

theorem lockedClaim_unknown {v : GroupRequestRecord}
    (hstate : v.state = .uncertain ∨ v.state = .preparing) (now : Time) :
    lockedClaim rid false (some v) v.intentSha256 v.operation v.requested true now =
      .outcomeUnknown (preparationUnknown rid) v := by
  rcases hstate with hstate | hstate <;> simp [lockedClaim, claimRecord, hstate]

/-- In every run whose events take no prepared group back, by any clients, with any writes and
crashes: a group that advises a retry, and whose action was not needed or was durably done at any
earlier time, is returned by a further claim with the same intent and action. -/
theorem advice_truthful {s₀ s₁ : World} {es es' : List Event} (h₀ : Start s₀)
    (hrun : run (stepEvent rid) s₀ es = some s₁) (hrun' : run (stepEvent rid) s₁ es' = some s)
    (hok : Meets KeepsPrepared (stepEvent rid) s₀ (es ++ es')) {v : GroupRequestRecord}
    (hv : s.slot.visible = some v) (hadvice : retryWithSameRequestId v = true) {action : Bool}
    (hdone : action = false ∨ ∃ p, s₁.slot.durable = some p ∧ p.state = .prepared) (now : Time) :
    lockedClaim rid s.single s.slot.visible v.intentSha256 v.operation v.requested action now =
      .returned v := by
  obtain ⟨hok₁, hok₂⟩ := meets_append hok hrun
  have h₁ : Advised s₁ :=
    run_inv_of_meets (fun _ _ _ h hm hs => (stepEvent_advised h hm hs).1) h₀.advised hok₁ hrun
  have hopen : v.state.terminal = false := by simpa [retryWithSameRequestId] using hadvice
  -- the fact that the action is done goes with the rest of the run
  have hlast : Advised s ∧ ((∃ p, s₁.slot.durable = some p ∧ p.state = .prepared) →
      DurablyKept s) := by
    refine run_inv_of_meets (I := fun t => Advised t ∧
      ((∃ p, s₁.slot.durable = some p ∧ p.state = .prepared) → DurablyKept t))
      (fun t e t' ht hm hs => ?_) ⟨h₁, fun ⟨p, hp, hstate⟩ => ⟨p, hp, .inl hstate⟩⟩ hok₂ hrun'
    obtain ⟨hadv, hkept⟩ := stepEvent_advised ht.1 hm hs
    exact ⟨hadv, fun hp => hkept (ht.2 hp)⟩
  rw [hlast.1.apart.single_eq hv, hv]
  refine lockedClaim_open hopen (hdone.imp_right fun hp => ?_) now
  obtain ⟨-, u, hu, hk⟩ := hlast.1.sound (hlast.2 hp)
  obtain rfl : v = u := Option.some.inj (hv.symm.trans hu)
  exact hk.prepared hopen

/-- The condition is needed: what takes a prepared group back to an open one is followed by the advice
to retry, and a retry with the action is refused. -/
theorem unprepared_refused {intent : String} {state : GroupState} {code : Option Int}
    {kind message : Option String} (h : Apart s) {v : GroupRequestRecord}
    (hv : s.slot.visible = some v) (hp : v.state = .prepared) (hintent : v.intentSha256 = intent)
    (hback : state = .uncertain ∨ state = .preparing)
    (hsaved : saved w (v.become state code kind message s.clock) = true)
    (hs : step rid s (.transition intent state code kind message w) = some s') :
    ∃ r, s'.slot.visible = some r ∧ retryWithSameRequestId r = true ∧
      ∀ now, lockedClaim rid s'.single s'.slot.visible r.intentSha256 r.operation r.requested
        true now = .outcomeUnknown (preparationUnknown rid) r := by
  have hsingle := h.single_eq hv
  have hrecord : lockedTransition rid s.slot.visible intent state code kind message s.clock =
      .ok (some (v.become state code kind message s.clock)) := by
    simp [lockedTransition, hv, hintent, hp, GroupState.terminal]
  have hnot : (v.become state code kind message s.clock).reopenable = false := by
    rcases hback with rfl | rfl <;> rfl
  simp only [step, hrecord, World.transition, hnot, Bool.false_eq_true, if_false] at hs
  split at hs
  · cases hs
  cases hs
  simp only [saved, Bool.and_eq_true, decide_eq_true_eq] at hsaved
  obtain ⟨rfl, hsaved⟩ := hsaved
  have hvisible : (s.save .synced (v.become state code kind message s.clock)).slot.visible =
      some (v.become state code kind message s.clock) := by
    unfold World.save
    cases he : encodeGroup (v.become state code kind message s.clock) with
    | error m => simp [he, Except.toOption] at hsaved
    | ok r =>
      obtain ⟨rfl, -⟩ := encodeGroup_ok he
      rfl
  refine ⟨v.become state code kind message s.clock, hvisible, ?_, fun now => ?_⟩
  · rcases hback with rfl | rfl <;> rfl
  · rw [hvisible, save_single, hsingle]
    exact lockedClaim_unknown hback now

/-- The artifacts of a matrix are synced and the group is prepared. -/
def preparedEvents : List Event :=
  [.locked (.claim 1 sampleIntent .matrix 2 true .synced), .locked (.finish (.ok ()) .synced)]

/-- The outcome of a child that was stopped while it was launched. -/
def interruptedOutcome (r : GroupRequestRecord) : GroupOutcome :=
  { failure := some { kind := "matrix_submission_interrupted", message := "interrupted" }
    failureCode := 130, groupRecord := some r, groupIntentSha256 := some sampleIntent }

/-- The first child is recorded, the second finds no free node, and the group stays open. -/
def laterEvents : List Event :=
  [.locked (.child 1 sampleChild), .locked (.recordJob sampleIntent 1 "job-1" .synced),
   .finalize { failure := some { kind := "no_capacity", message := "no free node" }
               failureCode := 4, groupIntentSha256 := some sampleIntent }
    "matrix_submission_interrupted" true .synced]

theorem advice_truthful_sample :
    ∃ s₁ s v, run (stepEvent "grp-1") {} preparedEvents = some s₁ ∧
      run (stepEvent "grp-1") s₁ laterEvents = some s ∧ s.slot.visible = some v ∧
      v.submitted = 1 ∧ lockedClaim "grp-1" s.single s.slot.visible v.intentSha256 v.operation
        v.requested true 9 = .returned v := by
  have hprops : ((run (stepEvent "grp-1") {} preparedEvents).bind fun s₁ =>
      (run (stepEvent "grp-1") s₁ laterEvents).bind fun s =>
        s.slot.visible.map fun v => (s₁.slot.durable.map (·.state), v.submitted,
          retryWithSameRequestId v)) = some (some .prepared, 1, true) := by
    decide +kernel
  have hok : Meets KeepsPrepared (stepEvent "grp-1") {} (preparedEvents ++ laterEvents) := by
    decide +kernel
  obtain ⟨s₁, h₁, hrest⟩ := Option.bind_eq_some_iff.mp hprops
  obtain ⟨s, h, hrest⟩ := Option.bind_eq_some_iff.mp hrest
  obtain ⟨v, hv, heq⟩ := Option.map_eq_some_iff.mp hrest
  simp only [Prod.mk.injEq] at heq
  obtain ⟨hdone, hsub, hadvice⟩ := heq
  obtain ⟨p, hp, hstate⟩ := Option.map_eq_some_iff.mp hdone
  exact ⟨s₁, s, v, h₁, h, hv, hsub, advice_truthful ⟨rfl, rfl, rfl⟩ h₁ h hok hv hadvice
    (.inr ⟨p, hp, hstate⟩) 9⟩

/-- The group is durably prepared; then a child is interrupted, and the final receipt of the client
leaves the group open, with the advice to retry. The retry is refused. -/
theorem advice_refused :
    ∃ s₁ p s v message, run (stepEvent "grp-1") {} preparedEvents = some s₁ ∧
      s₁.slot.durable = some p ∧ p.state = .prepared ∧
      run (stepEvent "grp-1") s₁
        [.finalize (interruptedOutcome p) "matrix_submission_interrupted" false .synced] = some s ∧
      s.slot.visible = some v ∧ retryWithSameRequestId v = true ∧
      lockedClaim "grp-1" s.single s.slot.visible v.intentSha256 v.operation v.requested true 9 =
        .outcomeUnknown message v := by
  have hprops : ((run (stepEvent "grp-1") {} preparedEvents).bind fun s₁ =>
      s₁.slot.durable.bind fun p => (run (stepEvent "grp-1") s₁
        [.finalize (interruptedOutcome p) "matrix_submission_interrupted" false .synced]).bind
          fun s => s.slot.visible.map fun v => (p.state, retryWithSameRequestId v,
            decide (lockedClaim "grp-1" s.single s.slot.visible v.intentSha256 v.operation
              v.requested true 9 =
                .outcomeUnknown (preparationUnknown "grp-1") v))) =
      some (.prepared, true, true) := by
    decide +kernel
  obtain ⟨s₁, h₁, hrest⟩ := Option.bind_eq_some_iff.mp hprops
  obtain ⟨p, hp, hrest⟩ := Option.bind_eq_some_iff.mp hrest
  obtain ⟨s, h, hrest⟩ := Option.bind_eq_some_iff.mp hrest
  obtain ⟨v, hv, heq⟩ := Option.map_eq_some_iff.mp hrest
  simp only [Prod.mk.injEq] at heq
  obtain ⟨hstate, hadvice, hclaim⟩ := heq
  exact ⟨s₁, p, s, v, _, h₁, hp, hstate, h, hv, hadvice, of_decide_eq_true hclaim⟩

end Dt.Submission.Group
