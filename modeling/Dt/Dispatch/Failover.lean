import Dt.Dispatch.Acceptance
import Mathlib.Data.Finset.Basic

/-!
# Failover

`tryNodes` tries the candidate nodes of one dispatch in order. An `Attempt` holds what the steps
on one node return, in the order the loop asks for them; `tryNode` is one turn of the loop, which
goes on to the next node or stops.

A session may be left on a node only where the launcher was sent. Whether one is alive there is
part of the attempt, and `Truthful` says what the answers of the node mean for it.
-/

namespace Dt.Dispatch

open Dt.Lib Dt.Jobs

/-! ## What a node answers -/

inductive JsonValue where
  | int (n : Int)
  | bool (b : Bool)
  | text (s : String)
  /-- a missing key, and every value of another type -/
  | other
  deriving DecidableEq, Repr

/-- `int(value)`; `none` is a `ValueError`. -/
def JsonValue.toInt : JsonValue → Option Int
  | .int n => some n
  | .bool b => some (if b then 1 else 0)
  | .text s => pyInt s.toList
  | .other => none

/-- The JSON object a launcher prints. -/
structure LaunchObject where
  pgid : JsonValue
  /-- empty unless it is a list -/
  gpus : List JsonValue := []
  env : Option String := none
  bootId : Option String := none
  envPreexisting : Option Bool := none
  setupRan : Option Bool := none
  launchPhasesMs : Dict ℚ := []

/-- `isinstance(pgid, (str, int)) and not isinstance(pgid, bool)` -/
def LaunchObject.pgidTyped (o : LaunchObject) : Bool :=
  match o.pgid with
  | .int _ | .text _ => true
  | .bool _ | .other => false

/-- The values that are kept of the object; `none` where a text is no integer. -/
def LaunchObject.receipt (o : LaunchObject) : Option Receipt :=
  (o.gpus.filter (· ≠ .other)).mapM JsonValue.toInt |>.bind fun gpus =>
    o.pgid.toInt.map fun pgid =>
      ⟨gpus, pgid, o.env, o.bootId, o.envPreexisting, o.setupRan, o.launchPhasesMs⟩

inductive LaunchResult where
  | object (o : LaunchObject)
  | text (s : String)

/-- `launch`: a `RemoteError`, or the exit code of the launcher with what it printed. -/
inductive LaunchOutcome where
  | dropped (error : String)
  | exited (code : Int) (result : LaunchResult)

/-- A launch as the loop tells its cases apart. -/
inductive LaunchReport where
  | dropped (error : String)
  /-- exit code 0 and an object -/
  | object (o : LaunchObject)
  | refused (code : Int) (result : LaunchResult)

def LaunchOutcome.report : LaunchOutcome → LaunchReport
  | .dropped error => .dropped error
  | .exited code (.object o) => if code = 0 then .object o else .refused code (.object o)
  | .exited code (.text s) => .refused code (.text s)

/-- `sync_to_node` -/
inductive Sync where
  | unreachable (error : String)
  | refused (error : String)
  | done (snapshot : Hex 64)

structure Attempt where
  worker : Worker
  /-- `before_attempt`, or true where there is none -/
  claimed : Bool := true
  sync : Sync
  /-- why the outputs of the predecessor are not there -/
  handoffError : Option String := none
  launch : LaunchOutcome
  /-- `_cancel_orphan`: `none` after `DEAD` -/
  cancelError : Option String := none
  /-- `_retire_stale_launch_identity`: `none` if there was nothing behind the marker -/
  kept : Option String := none
  /-- the attempt has a dispatch token -/
  tokened : Bool := true
  snapshotS : ℚ := 0
  launchS : ℚ := 0
  now : Moment
  /-- a session of the job is alive on the node after the attempt -/
  live : Bool

/-- `RETRYABLE` -/
def retryable (code : Int) : Option String :=
  if code = 10 then some "busy"
  else if code = 11 then some "path-missing"
  else if code = 12 then some "disk-full"
  else if code = 15 then some "node-unfit"
  else if code = 16 then some "cache-missing"
  else if code = 18 then some "identity-conflict"
  else if code = 19 then some "artifact-unverified"
  else none

def exitIdentityConflict : Int := 18

/-- `FATAL` -/
def fatalExit (code : Int) : Option String :=
  if code = 13 then some "env-fail"
  else if code = 14 then some "internal"
  else if code = 17 then some "payload-integrity"
  else none

/-! ## The loop -/

inductive FailureKind where
  | interrupted | unreachable | dispatch | retryable | cancelUnverified | fatal | identityConflict
  deriving DecidableEq, Repr

structure Progress where
  reasons : Dict String := []
  failureKinds : Finset FailureKind := ∅

/-- `reasons[name] = reason` -/
def setReason (reasons : Dict String) (name reason : String) : Dict String :=
  if reasons.any (·.1 = name) then
    reasons.map fun r => if r.1 = name then (name, reason) else r
  else reasons ++ [(name, reason)]

def Progress.fail (p : Progress) (a : Attempt) (kinds : Finset FailureKind) (reason : String) :
    Progress :=
  { reasons := setReason p.reasons a.worker.node.name reason
    failureKinds := p.failureKinds ∪ kinds }

/-- What `_try_nodes` returns: a row, or the flag `fatal`; or a `ValueError` leaves it. -/
inductive Failover where
  | placed (entry : JobEntry) (p : Progress)
  | failed (fatal : Bool) (p : Progress)
  | raised

inductive Turn where
  | next (p : Progress)
  | stop (f : Failover)

/-- A launch that may have left a session: the node has to prove it dead. -/
def cancelOr (p : Progress) (a : Attempt) (kinds : Finset FailureKind) (detail unverified verified : String)
    (cancelled : Progress → Turn) : Turn :=
  match a.cancelError with
  | some error => .stop (.failed true
      (p.fail a (kinds ∪ {.cancelUnverified}) (detail ++ unverified ++ error)))
  | none => cancelled (p.fail a kinds (detail ++ verified))

/-- The branch for an exit that is no receipt. -/
def refusedTurn (p : Progress) (a : Attempt) (code : Int) (result : LaunchResult) : Turn :=
  let reason := ((retryable code).orElse fun _ => fatalExit code).getD ("exit " ++ toString code)
  let detail := match result with
    | .text s => reason ++ ": " ++ s
    | .object _ => reason
  if code = exitIdentityConflict then
    match a.kept with
    | none => .next (p.fail a {.retryable} (reason ++ ": stale launch identity retired; retrying"))
    | some _ => .stop (.failed false (p.fail a {.identityConflict} detail))
  else if (fatalExit code).isSome then .stop (.failed true (p.fail a {.fatal} detail))
  else if (retryable code).isNone then
    cancelOr p a ∅ detail "; cancellation unverified: " "; cancelled on node" fun q =>
      .next { q with failureKinds := q.failureKinds ∪ {.retryable} }
  -- the marker of a refused attempt is retired, whether that is confirmed or not
  else .next (p.fail a {.retryable} detail)

/-- The branch for an exit of 0 with an object. -/
def receiptTurn (head : Head) (m : JobEntry) (p : Progress) (a : Attempt) (snapshot : Hex 64)
    (o : LaunchObject) : Turn :=
  if !o.pgidTyped then
    cancelOr p a {.fatal} "internal: launcher returned no valid pgid; "
      "cancellation unverified: " "cancelled on node" fun q => .stop (.failed true q)
  else match o.receipt with
  | none => .stop .raised
  | some r => .stop (.placed
      (placedRow head m a.worker r p.reasons snapshot a.snapshotS a.launchS a.now) p)

def launchTurn (head : Head) (m : JobEntry) (p : Progress) (a : Attempt) (snapshot : Hex 64) :
    Turn :=
  match a.launch.report with
  | .dropped error =>
    cancelOr p a {.unreachable} ("launch dropped (" ++ error ++ "); ")
      "cancellation unverified: " "cancelled on node" .next
  | .object o => receiptTurn head m p a snapshot o
  | .refused code result => refusedTurn p a code result

/-- One turn of the loop. -/
def tryNode (head : Head) (m : JobEntry) (p : Progress) (a : Attempt) : Turn :=
  if !a.claimed then
    .stop (.failed true { p with failureKinds := p.failureKinds ∪ {.interrupted} })
  else match a.sync with
  | .unreachable error => .next (p.fail a {.unreachable} ("snapshot failed: " ++ error))
  | .refused error => .next (p.fail a {.dispatch} ("snapshot failed: " ++ error))
  | .done snapshot =>
    match a.handoffError with
    | some error => .next (p.fail a {.retryable} ("predecessor outputs unavailable: " ++ error))
    | none => launchTurn head m p a snapshot

/-- `_try_nodes`, with the attempts it made. -/
def tryNodes (head : Head) (m : JobEntry) : Progress → List Attempt → Failover × List Attempt
  | p, [] => (.failed false p, [])
  | p, a :: rest =>
    match tryNode head m p a with
    | .stop f => (f, [a])
    | .next p' =>
      let r := tryNodes head m p' rest
      (r.1, a :: r.2)

/-! ## Sessions -/

/-- The launcher was sent. -/
def Attempt.launched (a : Attempt) : Bool :=
  a.claimed && (match a.sync with | .done _ => true | _ => false) && a.handoffError.isNone

/-- The loop has the attempt cancelled on the node. -/
def Attempt.asksCancel (a : Attempt) : Bool :=
  a.launched && match a.launch.report with
  | .dropped _ => true
  | .object o => !o.pgidTyped
  | .refused code _ => code ≠ exitIdentityConflict && (fatalExit code).isNone &&
      ((retryable code).isNone || a.tokened)

/-- What the answers of the node say about its sessions. -/
structure Truthful (a : Attempt) : Prop where
  unlaunched : a.launched = false → a.live = false
  /-- a refusal comes before the session is started -/
  refused : ∀ code result, a.launch.report = .refused code result → code ≠ exitIdentityConflict →
    ((retryable code).isSome ∨ (fatalExit code).isSome) → a.live = false
  /-- a foreign identity without any runtime state is no session -/
  retired : ∀ result, a.launch.report = .refused exitIdentityConflict result → a.kept = none →
    a.live = false
  cancelled : a.asksCancel = true → a.cancelError = none → a.live = false

/-- The launch was dropped, or its result does not say what became of it. -/
def Attempt.unknown (a : Attempt) : Bool :=
  a.launched && match a.launch.report with
  | .dropped _ => true
  | .object o => !(o.pgidTyped && o.receipt.isSome)
  | .refused code _ => (retryable code).isNone && (fatalExit code).isNone

def Attempt.provenDead (a : Attempt) : Bool := a.asksCancel && a.cancelError.isNone

structure SafeFailover (f : Failover) (attempted : List Attempt) : Prop where
  /-- the loop leaves a node only when nothing is alive there -/
  previous : ∀ a ∈ attempted.dropLast, a.live = false
  one : (attempted.filter (·.live)).length ≤ 1
  reported : ∀ a ∈ attempted, a.unknown = true → a.provenDead = false →
    ∃ p, f = .failed true p ∧ .cancelUnverified ∈ p.failureKinds

/-- The launcher exited with 0, and a text in its object is no integer. -/
def Attempt.malformed (a : Attempt) : Bool :=
  a.launched && match a.launch.report with
  | .object o => o.pgidTyped && o.receipt.isNone
  | .dropped _ | .refused .. => false

/-- The loop goes on to the next node. -/
def Attempt.passed (a : Attempt) : Bool :=
  a.claimed && (!a.launched || match a.launch.report with
  | .dropped _ => a.cancelError.isNone
  | .object _ => false
  | .refused code _ =>
    if code = exitIdentityConflict then a.kept.isNone
    else (fatalExit code).isNone && ((retryable code).isSome || a.cancelError.isNone))

/-! ## One turn -/

section

variable {head : Head} {m : JobEntry} {p : Progress} {a : Attempt}

/-- What a turn does with an attempt. -/
inductive TurnSpec (a : Attempt) : Turn → Prop where
  | next (p : Progress) (hpass : a.passed = true) (hok : a.malformed = false)
      (hdead : a.unknown = true → a.provenDead = true) : TurnSpec a (.next p)
  | stop (f : Failover) (hpass : a.passed = false) (hok : a.malformed = false)
      (hreport : a.unknown = true → a.provenDead = false →
        ∃ p, f = .failed true p ∧ .cancelUnverified ∈ p.failureKinds) : TurnSpec a (.stop f)
  | raised (hpass : a.passed = false) (hbad : a.malformed = true) : TurnSpec a (.stop .raised)

theorem refusedTurn_spec {code : Int} {result : LaunchResult} (hl : a.launched = true)
    (hc : a.claimed = true) (hr : a.launch.report = .refused code result) :
    TurnSpec a (refusedTurn p a code result) := by
  have hok : a.malformed = false := by simp [Attempt.malformed, hr]
  unfold refusedTurn
  dsimp only
  split
  · rename_i h18
    have hknown : a.unknown = false := by simp [Attempt.unknown, hr, h18, exitIdentityConflict, retryable]
    split
    · rename_i hk
      exact .next _ (by simp [Attempt.passed, hc, hr, h18, hk]) hok (by simp [hknown])
    · rename_i hk
      exact .stop _ (by simp [Attempt.passed, hl, hr, h18, hk]) hok (by simp [hknown])
  · rename_i h18
    split
    · rename_i hf
      have hknown : a.unknown = false := by
        simp [Attempt.unknown, hr, Option.isNone_eq_false_iff.mpr hf]
      exact .stop _ (by simp [Attempt.passed, hl, hr, h18, Option.isNone_eq_false_iff.mpr hf]) hok
        (by simp [hknown])
    · rename_i hf
      simp only [Bool.not_eq_true, Option.isSome_eq_false_iff] at hf
      split
      · rename_i hn
        have hasks : a.asksCancel = true := by simp [Attempt.asksCancel, hl, hr, h18, hf, hn]
        unfold cancelOr
        split
        · rename_i error he
          refine .stop _ ?_ hok fun _ _ => ⟨_, rfl, by simp [Progress.fail]⟩
          simp [Attempt.passed, hl, hr, h18, he, Option.isNone_iff_eq_none.mp hn]
        · rename_i he
          refine .next _ ?_ hok fun _ => by simp [Attempt.provenDead, hasks, he]
          simp [Attempt.passed, hc, hr, h18, he, hf]
      · rename_i hn
        have hknown : a.unknown = false := by simp [Attempt.unknown, hr, hn]
        refine .next _ ?_ hok (by simp [hknown])
        have hsome : (retryable code).isSome = true := by
          simpa [Option.isSome_iff_ne_none] using hn
        simp [Attempt.passed, hc, hr, h18, hf, hsome]

theorem receiptTurn_spec {snapshot : Hex 64} {o : LaunchObject} (hl : a.launched = true)
    (hr : a.launch.report = .object o) : TurnSpec a (receiptTurn head m p a snapshot o) := by
  have hpass : a.passed = false := by simp [Attempt.passed, hl, hr]
  unfold receiptTurn
  split
  · rename_i ht
    simp only [Bool.not_eq_true'] at ht
    have hok : a.malformed = false := by simp [Attempt.malformed, hr, ht]
    have hasks : a.asksCancel = true := by simp [Attempt.asksCancel, hl, hr, ht]
    unfold cancelOr
    split
    · exact .stop _ hpass hok fun _ _ => ⟨_, rfl, by simp [Progress.fail]⟩
    · rename_i he
      refine .stop _ hpass hok fun _ hd => ?_
      simp [Attempt.provenDead, hasks, he] at hd
  · rename_i ht
    simp only [Bool.not_eq_true', Bool.not_eq_false] at ht
    split
    · rename_i hn
      exact .raised hpass (by simp [Attempt.malformed, hl, hr, ht, hn])
    · rename_i r hsome
      refine .stop _ hpass (by simp [Attempt.malformed, hr, hsome]) fun hu _ => ?_
      simp [Attempt.unknown, hr, ht, hsome] at hu

theorem tryNode_spec : TurnSpec a (tryNode head m p a) := by
  unfold tryNode
  split
  · rename_i hc
    simp only [Bool.not_eq_true'] at hc
    have hl : a.launched = false := by simp [Attempt.launched, hc]
    exact .stop _ (by simp [Attempt.passed, hc]) (by simp [Attempt.malformed, hl])
      (by simp [Attempt.unknown, hl])
  · rename_i hc
    simp only [Bool.not_eq_true', Bool.not_eq_false] at hc
    have hskip : a.launched = false → ∀ q, TurnSpec a (.next q) := fun hl q =>
      .next q (by simp [Attempt.passed, hc, hl]) (by simp [Attempt.malformed, hl])
        (by simp [Attempt.unknown, hl])
    split
    · rename_i hs
      exact hskip (by simp [Attempt.launched, hs]) _
    · rename_i hs
      exact hskip (by simp [Attempt.launched, hs]) _
    · rename_i snapshot hs
      split
      · rename_i hh
        exact hskip (by simp [Attempt.launched, hh]) _
      · rename_i hh
        have hl : a.launched = true := by simp [Attempt.launched, hc, hs, hh]
        unfold launchTurn
        split
        · rename_i error hr
          have hok : a.malformed = false := by simp [Attempt.malformed, hr]
          have hasks : a.asksCancel = true := by simp [Attempt.asksCancel, hl, hr]
          unfold cancelOr
          split
          · rename_i he
            exact .stop _ (by simp [Attempt.passed, hl, hr, he]) hok
              fun _ _ => ⟨_, rfl, by simp [Progress.fail]⟩
          · rename_i he
            exact .next _ (by simp [Attempt.passed, hc, hr, he]) hok
              fun _ => by simp [Attempt.provenDead, hasks, he]
        · rename_i o hr
          exact receiptTurn_spec hl hr
        · rename_i code result hr
          exact refusedTurn_spec hl hc hr

/-- Nothing is alive on a node the loop leaves behind. -/
theorem not_live_of_passed (ht : Truthful a) (hp : a.passed = true) : a.live = false := by
  cases hl : a.launched with
  | false => exact ht.unlaunched hl
  | true =>
    simp only [Attempt.passed, hl, Bool.not_true, Bool.false_or, Bool.and_eq_true] at hp
    obtain ⟨-, hp⟩ := hp
    cases hr : a.launch.report with
    | dropped error =>
      rw [hr] at hp
      exact ht.cancelled (by simp [Attempt.asksCancel, hl, hr]) (by simpa using hp)
    | object o =>
      rw [hr] at hp
      cases hp
    | refused code result =>
      rw [hr] at hp
      by_cases h18 : code = exitIdentityConflict
      · subst h18
        exact ht.retired result hr (by simpa using hp)
      · simp only [h18, if_false, Bool.and_eq_true, Bool.or_eq_true] at hp
        obtain ⟨hf, hs | he⟩ := hp
        · exact ht.refused code result hr h18 (.inl hs)
        · cases hs : (retryable code).isSome with
          | true => exact ht.refused code result hr h18 (.inl hs)
          | false =>
            refine ht.cancelled ?_ (by simpa using he)
            simp only [Option.isSome_eq_false_iff] at hs
            simp [Attempt.asksCancel, hl, hr, h18, hf, hs]

end

/-! ## The whole loop -/

section

variable {head : Head} {m : JobEntry}

/-- No candidate the loop reaches has a malformed object. -/
def Readable (candidates : List Attempt) : Prop :=
  ∀ before a after, candidates = before ++ a :: after → (∀ b ∈ before, b.passed = true) →
    a.malformed = false

theorem readable_cons {a : Attempt} {rest : List Attempt} :
    Readable (a :: rest) ↔ a.malformed = false ∧ (a.passed = true → Readable rest) := by
  constructor
  · intro h
    refine ⟨h [] a rest rfl (by simp), fun hp before b after heq hpass => ?_⟩
    exact h (a :: before) b after (by simp [heq]) (by simpa [hp] using hpass)
  · rintro ⟨ha, hrest⟩ before b after heq hpass
    cases before with
    | nil =>
      cases heq
      exact ha
    | cons x before =>
      cases heq
      exact hrest (hpass a (by simp)) before b after rfl fun y hy => hpass y (by simp [hy])

/-- A node that was left behind changes nothing. -/
theorem safeFailover_cons {a : Attempt} {f : Failover} {attempted : List Attempt}
    (hlive : a.live = false) (hdead : a.unknown = true → a.provenDead = true) :
    SafeFailover f (a :: attempted) ↔ SafeFailover f attempted := by
  constructor
  · intro h
    refine ⟨fun b hb => h.previous b ?_, ?_, fun b hb => h.reported b (by simp [hb])⟩
    · cases attempted with
      | nil => cases hb
      | cons x xs => exact List.mem_cons_of_mem _ hb
    · simpa [hlive] using h.one
  · intro h
    refine ⟨fun b hb => ?_, by simpa [hlive] using h.one, fun b hb hu hd => ?_⟩
    · cases attempted with
      | nil => cases hb
      | cons x xs =>
        rcases List.mem_cons.mp hb with rfl | hb
        · exact hlive
        · exact h.previous b hb
    · rcases List.mem_cons.mp hb with rfl | hb
      · rw [hdead hu] at hd
        cases hd
      · exact h.reported b hb hu hd

/-- The last node has only to be reported. -/
theorem safeFailover_singleton {a : Attempt} {f : Failover} :
    SafeFailover f [a] ↔ (a.unknown = true → a.provenDead = false →
      ∃ p, f = .failed true p ∧ .cancelUnverified ∈ p.failureKinds) := by
  constructor
  · exact fun h => h.reported a (by simp)
  · intro h
    refine ⟨by simp, ?_, by simpa using h⟩
    exact (List.length_filter_le _ _).trans (by simp)

theorem malformed_unknown {a : Attempt} (h : a.malformed = true) :
    a.unknown = true ∧ a.provenDead = false := by
  simp only [Attempt.malformed, Bool.and_eq_true] at h
  obtain ⟨hl, hm⟩ := h
  cases hr : a.launch.report with
  | dropped error => simp [hr] at hm
  | refused code result => simp [hr] at hm
  | object o =>
    simp only [hr, Bool.and_eq_true] at hm
    constructor
    · simp [Attempt.unknown, hl, hr, Option.isNone_iff_eq_none.mp hm.2]
    · simp [Attempt.provenDead, Attempt.asksCancel, hr, hm.1]

/-- Whatever the nodes answer, the loop keeps to one live session and reports every launch it
cannot account for, if and only if it meets no object with a text that is no integer. -/
theorem failover_safe_iff {candidates : List Attempt} {p : Progress}
    (ht : ∀ a ∈ candidates, Truthful a) :
    SafeFailover (tryNodes head m p candidates).1 (tryNodes head m p candidates).2 ↔
      Readable candidates := by
  induction candidates generalizing p with
  | nil =>
    refine iff_of_true ?_ fun before a after h => by simp at h
    exact ⟨by simp [tryNodes], by simp [tryNodes], by simp [tryNodes]⟩
  | cons a rest ih =>
    have hspec : TurnSpec a (tryNode head m p a) := tryNode_spec
    rw [readable_cons]
    unfold tryNodes
    cases hturn : tryNode head m p a with
    | next p' =>
      rw [hturn] at hspec
      cases hspec with
      | next _ hpass hok hdead =>
        have hlive := not_live_of_passed (ht a (by simp)) hpass
        simp only [safeFailover_cons hlive hdead, ih fun b hb => ht b (by simp [hb]), hok, hpass,
          true_and, forall_const]
    | stop f =>
      rw [hturn] at hspec
      rw [safeFailover_singleton]
      cases hspec with
      | stop _ hpass hok hreport =>
        refine iff_of_true hreport ⟨hok, fun h => ?_⟩
        rw [hpass] at h
        cases h
      | raised hpass hbad =>
        obtain ⟨hu, hd⟩ := malformed_unknown hbad
        simp [hu, hd, hbad]

end

def Worker.sample (name : String) (h : isConfigId name = true := by decide) : Worker where
  node := { name := name }
  jobDir := "~/dt/jobs/job-1"
  root := "~/dt"
  named := h
  rooted := by decide

/-- A node that takes the snapshot and runs the launcher. -/
def Attempt.sample (name : String) (launch : LaunchOutcome) (live : Bool)
    (h : isConfigId name = true := by decide) : Attempt where
  worker := .sample name h
  sync := .done ⟨"".pushn 'a' 64, by decide +kernel⟩
  launch := launch
  now := ⟨2000, by decide⟩
  live := live

/-- The connection to the first node drops, its launch is cancelled, and the second one starts
the job. -/
theorem failover_safe_sample :
    let candidates : List Attempt :=
      [.sample "n1" (.dropped "timed out after 3600s") false,
        .sample "n2" (.exited 0 (.object { pgid := .int 4242 })) true]
    let r := tryNodes .sample sampleQueued {} candidates
    r.2.map (·.worker.node.name) = ["n1", "n2"] ∧ SafeFailover r.1 r.2 := by
  intro candidates r
  refine ⟨by decide +kernel, (failover_safe_iff fun a ha => ?_).mpr ?_⟩
  · simp only [candidates, List.mem_cons, List.not_mem_nil, or_false] at ha
    rcases ha with rfl | rfl
    · exact ⟨fun _ => rfl, fun _ _ _ _ _ => rfl, fun _ _ _ => rfl, fun _ _ => rfl⟩
    · refine ⟨fun h => ?_, fun _ _ h => ?_, fun _ h => ?_, fun h => ?_⟩ <;>
        simp [Attempt.sample, Attempt.launched, Attempt.asksCancel, LaunchOutcome.report,
          LaunchObject.pgidTyped] at h
  · rw [readable_cons, readable_cons]
    refine ⟨by decide +kernel, fun _ => ⟨by decide +kernel, fun h => ?_⟩⟩
    simp [Attempt.passed, Attempt.sample, Attempt.launched, LaunchOutcome.report] at h

/-- The launcher has started the session and prints a process group that is no number: the
`ValueError` leaves the loop, and nothing says that the session is there. -/
theorem malformed_receipt_unreported :
    let a : Attempt := .sample "n1" (.exited 0 (.object { pgid := .text "none" })) true
    Truthful a ∧ ¬SafeFailover (tryNodes .sample sampleQueued {} [a]).1
      (tryNodes .sample sampleQueued {} [a]).2 := by
  intro a
  constructor
  · refine ⟨fun h => ?_, fun _ _ h => ?_, fun _ h => ?_, fun h => ?_⟩ <;>
      simp [a, Attempt.sample, Attempt.launched, Attempt.asksCancel, LaunchOutcome.report,
        LaunchObject.pgidTyped] at h
  · intro h
    have hrun : tryNodes .sample sampleQueued {} [a] = (.raised, [a]) := by rfl
    rw [hrun] at h
    obtain ⟨p, hp, -⟩ := h.reported a (by simp) (by decide +kernel) (by decide +kernel)
    cases hp

end Dt.Dispatch
