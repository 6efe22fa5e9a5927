import Dt.Lib.Slot
import Dt.Lib.Machine
import Dt.Jobs.Validate

/-!
# Submission requests

A `RequestRecord` is the receipt of one submission under a request id. Its proof requirement and
the locator that goes with it are one value here: a record with a marker and no locator, or with a
locator and no marker, is refused when it is read and cannot be built.

`resolveDisposition` decides from a record, the registry and a remote proof whether the same
request may be sent once more.
-/

namespace Dt.Submission

open Dt.Lib Dt.Jobs

/-- `REQUEST_STATES`. -/
inductive RequestState where
  | preparing | replayAuthorized | confirmed | rejected | uncertain
  deriving DecidableEq, Repr

def RequestState.text : RequestState → String
  | .preparing => "preparing"
  | .replayAuthorized => "replay_authorized"
  | .confirmed => "confirmed"
  | .rejected => "rejected"
  | .uncertain => "uncertain"

/-- The three versions of the record. -/
inductive RequestSchema where
  | v1 | v2 | v3
  deriving DecidableEq, Repr

/-- The capsule and the hashed launch token that a launch marker is looked up by. -/
structure Locator where
  node : String
  jobDir : String
  identity : String
  deriving DecidableEq, Repr

/-- `PROOF_REQUIREMENTS`, with the locator of a remote launch marker. -/
inductive ProofRequirement where
  | none | legacyUnknown | marker (at_ : Locator)
  deriving DecidableEq, Repr

structure RequestRecord where
  schema : RequestSchema
  requestId : String
  intentSha256 : String
  jobId : JobId
  state : RequestState
  createdAt : Time
  updatedAt : Time
  errorKind : Option String := none
  errorMessage : Option String := none
  proof : ProofRequirement := .none
  deriving DecidableEq, Repr

/-- `REMOTE_PROOF_OUTCOMES`. -/
inductive RemoteOutcome where
  | absent | running | finished | unavailable | invalid
  deriving DecidableEq, Repr

def RemoteOutcome.text : RemoteOutcome → String
  | .absent => "absent"
  | .running => "running"
  | .finished => "finished"
  | .unavailable => "unavailable"
  | .invalid => "invalid"

structure RemoteLaunchProof where
  outcome : RemoteOutcome
  at_ : Locator
  deriving DecidableEq, Repr

/-- `REQUEST_DISPOSITIONS`. -/
inductive Disposition where
  | inProgress | safeReplay | inspectRemote | confirmed | rejected
  deriving DecidableEq, Repr

structure RequestDisposition where
  disposition : Disposition
  requestId : String
  jobId : JobId
  retrySafe : Bool
  facts : List String
  actions : List String
  deriving DecidableEq, Repr

/-! ## Reading and writing -/

/-- `REQUEST_ID_RE`. -/
def validRequestId (s : String) : Bool :=
  match s.toList with
  | [] => false
  | c :: cs => isAlnum c &&
      classRun (fun d => isAlnum d || ['.', '_', ':', '@', '+', '-'].contains d) 0 127 cs

def validateRequestId (s : String) : Except String String :=
  if validRequestId s then .ok s
  else .error "--request-id must be 1-128 characters: letters, digits, . _ : @ + -"

/-- `_ERROR_KIND_RE`. -/
def validErrorKind (s : String) : Bool :=
  match s.toList with
  | [] => false
  | c :: cs => (isAlnum c && !isDigit c) &&
      classRun (fun d => isAlnum d || ['_', '.', ':', '-'].contains d) 0 63 cs

/-- A node or a directory of a locator: not empty, bounded, without control characters. -/
def validPlace (limit : Nat) (s : String) : Bool :=
  s ≠ "" && decide (s.length ≤ limit) && s.toList.all (fun c => 32 ≤ c.toNat)

/-- The checks of `_decode` that the types do not make. A record of the first version has no proof
fields and is read as one whose launch nothing is known about. -/
def decodeRecord (expected : String) (raw : RequestRecord) : Except String RequestRecord := do
  check (raw.createdAt ≤ 0 || raw.updatedAt ≤ 0) "submission request timestamps are invalid"
  check (raw.errorKind.any (!validErrorKind ·)) "submission request error kind is invalid"
  check (raw.errorMessage.any (512 < ·.length)) "submission request error message is invalid"
  let proof := if raw.schema = .v1 then .legacyUnknown else raw.proof
  match proof with
  | .marker at_ =>
    check (!validPlace 255 at_.node) "submission request proof node is invalid"
    check (!validPlace 4096 at_.jobDir) "submission request proof job directory is invalid"
    check (!hexOf 64 at_.identity) "submission request launch identity is invalid"
  | _ => pure ()
  check (raw.requestId ≠ expected) "submission request digest does not match its identity"
  check (!hexOf 64 raw.intentSha256) "submission request intent digest is invalid"
  check (!validJobId raw.jobId) "submission request job identity is invalid"
  check (raw.state = .replayAuthorized && raw.schema ≠ .v3)
    "submission request replay authorization requires the v3 schema"
  return { raw with proof := proof }

/-- What `save` puts on disk, or why it refuses to. -/
def encodeRecord (record : RequestRecord) : Except String RequestRecord := do
  let _ ← validateRequestId record.requestId
  decodeRecord record.requestId { record with schema := .v3 }

/-! ## Transitions -/

def create (requestId intentSha256 : String) (jobId : JobId) (now : Time) :
    Except String RequestRecord := do
  let requestId ← validateRequestId requestId
  return { schema := .v3, requestId, intentSha256, jobId, state := .preparing
           createdAt := now, updatedAt := now }

/-- `" ".join(error_message.split())[:512]`, for a message that is not empty. -/
def boundedMessage (message : Option String) : Option String :=
  match message with
  | some m => if m = "" then none else
      some (String.ofList ((joinWith [' '] (words m.toList)).take 512))
  | none => none

def transition (record : RequestRecord) (state : RequestState)
    (errorKind errorMessage : Option String) (now : Time) : Except String RequestRecord :=
  if state = .replayAuthorized then .error "use authorize_replay for a replay authorization"
  else if record.state = .replayAuthorized && state ≠ .confirmed then
    .error "use reclaim_replay to consume a replay authorization"
  else .ok { record with
    schema := .v3, state := state, updatedAt := now, errorKind := errorKind
    errorMessage := boundedMessage errorMessage }

/-- `RETRYABLE_REJECTION_KINDS`. -/
def retryableRejectionKinds : List String :=
  ["NoCapacity", "NoReachableNode", "claimed_action_interrupted"]

/-- A rejection that never crossed the launch boundary. -/
def rejectionIsRetryable (record : RequestRecord) : Bool :=
  record.state = .rejected && record.errorKind.any (retryableRejectionKinds.contains ·) &&
    record.proof = .none

/-- Persist that one interrupted intent may be retried. The locator stays until the reclaim. -/
def authorizeReplay (record : RequestRecord) (d : RequestDisposition) (now : Time) :
    Except String RequestRecord :=
  if d.requestId ≠ record.requestId || d.jobId ≠ record.jobId || d.disposition ≠ .safeReplay ||
      !d.retrySafe then
    .error "submission request lacks an exact safe-replay disposition"
  else if record.state = .replayAuthorized then .ok record
  else if !(record.state = .preparing || record.state = .uncertain) &&
      !rejectionIsRetryable record then
    .error ("submission request state '" ++ record.state.text ++ "' cannot authorize replay")
  else .ok { record with
    schema := .v3, state := .replayAuthorized, updatedAt := now
    errorKind := some "proven_absent"
    errorMessage := some "no registry job or matching remote launch marker exists" }

/-- Start the authorized retry under the same request and job; the old locator goes. -/
def reclaimReplay (record : RequestRecord) (now : Time) : Except String RequestRecord :=
  if record.state ≠ .replayAuthorized then
    .error "submission request is not authorized for replay"
  else .ok { record with
    schema := .v3, state := .preparing, updatedAt := now, errorKind := none, errorMessage := none
    proof := .none }

/-- Bind the receipt to one remote marker; `sha256` is the hash of the launch token, which is not
persisted itself. -/
def bindRemoteAttempt (sha256 : String → String) (record : RequestRecord)
    (node jobDir launchToken : String) (now : Time) : Except String RequestRecord :=
  if record.state = .replayAuthorized then
    .error "replay authorization must be reclaimed before launch"
  else if !validPlace 255 node then .error "remote proof node is invalid"
  else if !validPlace 4096 jobDir then .error "remote proof job directory is invalid"
  else if !hexOf 32 launchToken then .error "remote launch token is invalid"
  else .ok { record with
    schema := .v3, updatedAt := now, proof := .marker ⟨node, jobDir, sha256 launchToken⟩ }

/-! ## Dispositions -/

/-- A disposition of the record's own request and job. -/
def RequestRecord.dispose (record : RequestRecord) (disposition : Disposition) (retrySafe : Bool)
    (facts actions : List String) : RequestDisposition where
  disposition := disposition
  requestId := record.requestId
  jobId := record.jobId
  retrySafe := retrySafe
  facts := ("request_state=" ++ record.state.text) :: facts
  actions := actions

/-- What a bound record allows, once the registry has no row of its job. -/
def resolveMarker (record : RequestRecord) (at_ : Locator) (proof : Option RemoteLaunchProof) :
    RequestDisposition :=
  match proof.filter (·.at_ = at_) with
  | none =>
    record.dispose .inspectRemote false
      ["registry_job=absent", "remote_proof=missing_or_mismatched"]
      ["inspect the bound launch marker on " ++ at_.node]
  | some p =>
    let facts := ["registry_job=absent", "remote_proof=" ++ p.outcome.text]
    match p.outcome with
    | .absent =>
      record.dispose .safeReplay true facts
        ["persist a rejected proven-absent receipt before retrying"]
    | .unavailable =>
      record.dispose .inspectRemote false facts
        ["restore connectivity to " ++ at_.node ++ " and repeat exact proof"]
    | .invalid =>
      record.dispose .inspectRemote false facts
        ["quarantine and inspect the bound capsule for job " ++ record.jobId]
    | .running | .finished =>
      record.dispose .inspectRemote false facts
        ["recover job " ++ record.jobId ++ " from the bound remote marker"]

/-- Resolve only from the registry and an identity-bound marker proof; `none` for the registry
means that it was not asked. -/
def resolveDisposition (record : RequestRecord) (registryJobPresent : Option Bool)
    (remoteProof : Option RemoteLaunchProof) : RequestDisposition :=
  if registryJobPresent = some true then
    record.dispose .confirmed false ["registry_job=present"] ["inspect job " ++ record.jobId]
  else if record.state = .confirmed then
    record.dispose .confirmed false ["durable_receipt=confirmed"]
      ["inspect retained history for job " ++ record.jobId]
  else if record.state = .rejected then
    if rejectionIsRetryable record && registryJobPresent = some false then
      record.dispose .safeReplay true
        ["registry_job=absent", "durable_receipt=retryable_rejection"]
        ["retry the exact original command with this request id"]
    else
      record.dispose .rejected false ["durable_receipt=rejected"] ["do not retry this request id"]
  else if registryJobPresent = none then
    record.dispose .inProgress false ["registry_job=unchecked"] ["query the authoritative registry"]
  else if record.state = .replayAuthorized then
    record.dispose .safeReplay true ["registry_job=absent", "durable_replay=authorized"]
      ["retry the exact original command with this request id"]
  else match record.proof with
  | .none =>
    record.dispose .safeReplay true ["registry_job=absent", "remote_launch=impossible"]
      ["persist a rejected pre-launch receipt before retrying"]
  | .legacyUnknown =>
    record.dispose .inspectRemote false ["registry_job=absent", "remote_proof=legacy_unknown"]
      ["inspect legacy worker state before any retry"]
  | .marker at_ => resolveMarker record at_ remoteProof

/-- The durable receipt of a conclusive disposition. -/
def convergeDisposition (record : RequestRecord) (d : RequestDisposition) (now : Time) :
    Except String RequestRecord :=
  if d.requestId ≠ record.requestId || d.jobId ≠ record.jobId then
    .error "request disposition identity mismatch"
  else match d.disposition with
  | .confirmed => transition record .confirmed none none now
  | .safeReplay => authorizeReplay record d now
  | .rejected => .ok record
  | .inProgress | .inspectRemote => .error "request disposition is not conclusive"

/-! ## What each operation does to a record -/

theorem encodeRecord_ok {r r' : RequestRecord} (h : encodeRecord r = .ok r') :
    r' = { r with schema := .v3 } := by
  unfold encodeRecord decodeRecord validateRequestId at h
  split at h
  · simp only [bind, Except.bind, check, pure, Except.pure] at h
    split at h
    · cases h
    · -- the checks either stop or fall through to the record itself
      cases hp : r.proof <;> simp only [hp, reduceCtorEq, if_false] at h <;>
        (repeat' split at h) <;> cases h <;> rw [← hp]
  · cases h

/-- The part of a record that is written once. -/
def RequestRecord.identity (r : RequestRecord) : String × String × JobId × Time :=
  (r.requestId, r.intentSha256, r.jobId, r.createdAt)

@[simp] theorem identity_schema (r : RequestRecord) (v : RequestSchema) :
    { r with schema := v }.identity = r.identity := rfl

theorem create_ok {id intent : String} {job : JobId} {now : Time} {r : RequestRecord}
    (h : create id intent job now = .ok r) :
    r.identity = (id, intent, job, now) ∧ r.state = .preparing ∧ r.proof = .none := by
  unfold create validateRequestId at h
  split at h
  · cases h
    exact ⟨rfl, rfl, rfl⟩
  · cases h

theorem transition_ok {r r' : RequestRecord} {state : RequestState} {kind message : Option String}
    {now : Time} (h : transition r state kind message now = .ok r') :
    r'.identity = r.identity ∧ r'.state = state ∧ r'.proof = r.proof ∧ state ≠ .replayAuthorized := by
  unfold transition at h
  split at h
  · cases h
  · rename_i hs
    split at h
    · cases h
    · cases h
      exact ⟨rfl, rfl, rfl, hs⟩

theorem rejectionIsRetryable_iff {r : RequestRecord} : rejectionIsRetryable r = true ↔
    r.state = .rejected ∧ r.errorKind.any (retryableRejectionKinds.contains ·) = true ∧
      r.proof = .none := by
  simp only [rejectionIsRetryable, Bool.and_eq_true, decide_eq_true_eq, and_assoc]

/-- An authorization keeps the locator, and needs a replay-safe disposition. -/
theorem authorizeReplay_ok {r r' : RequestRecord} {d : RequestDisposition} {now : Time}
    (h : authorizeReplay r d now = .ok r') :
    r'.identity = r.identity ∧ r'.state = .replayAuthorized ∧ r'.proof = r.proof ∧
      d.retrySafe = true := by
  unfold authorizeReplay at h
  split at h
  · cases h
  · rename_i hd
    simp only [Bool.or_eq_true, not_or, Bool.not_eq_true, Bool.not_eq_false'] at hd
    split at h
    · rename_i hs
      cases h
      exact ⟨rfl, hs, rfl, hd.2⟩
    · split at h
      · cases h
      · cases h
        exact ⟨rfl, rfl, rfl, hd.2⟩

theorem reclaimReplay_ok {r r' : RequestRecord} {now : Time} (h : reclaimReplay r now = .ok r') :
    r'.identity = r.identity ∧ r'.state = .preparing ∧ r'.proof = .none ∧
      r.state = .replayAuthorized := by
  unfold reclaimReplay at h
  split at h
  · cases h
  · rename_i hs
    cases h
    exact ⟨rfl, rfl, rfl, not_not.mp hs⟩

theorem bindRemoteAttempt_ok {sha256 : String → String} {r r' : RequestRecord}
    {node jobDir token : String} {now : Time}
    (h : bindRemoteAttempt sha256 r node jobDir token now = .ok r') :
    r'.identity = r.identity ∧ r'.state = r.state ∧ r.state ≠ .replayAuthorized ∧
      r'.proof = .marker ⟨node, jobDir, sha256 token⟩ := by
  unfold bindRemoteAttempt at h
  split at h
  · cases h
  · rename_i hs
    split at h
    · cases h
    · split at h
      · cases h
      · split at h
        · cases h
        · cases h
          exact ⟨rfl, rfl, hs, rfl⟩

@[simp] theorem dispose_retrySafe (r : RequestRecord) (d : Disposition) (b : Bool)
    (facts actions : List String) : (r.dispose d b facts actions).retrySafe = b := rfl

@[simp] theorem dispose_disposition (r : RequestRecord) (d : Disposition) (b : Bool)
    (facts actions : List String) : (r.dispose d b facts actions).disposition = d := rfl

/-- A remote proof that shows the launch at `l` to be absent. -/
def AbsentAt (proof : Option RemoteLaunchProof) (l : Locator) : Prop :=
  proof = some ⟨.absent, l⟩

theorem resolveMarker_retrySafe {r : RequestRecord} {l : Locator}
    {proof : Option RemoteLaunchProof} (h : (resolveMarker r l proof).retrySafe = true) :
    AbsentAt proof l := by
  unfold resolveMarker at h
  split at h
  · cases h
  · rename_i p hp
    obtain ⟨hproof, hat⟩ := Option.filter_eq_some_iff.mp hp
    rw [decide_eq_true_eq] at hat
    obtain ⟨outcome, at_⟩ := p
    cases outcome with
    | absent => exact hat ▸ hproof
    | running => cases h
    | finished => cases h
    | unavailable => cases h
    | invalid => cases h

/-- The three ways in which a replay is safe: nothing was ever bound, the replay was authorized
before, or the bound launch is shown to be absent. -/
theorem resolveDisposition_retrySafe {r : RequestRecord} {present : Option Bool}
    {proof : Option RemoteLaunchProof}
    (h : (resolveDisposition r present proof).retrySafe = true) :
    r.proof = .none ∨ r.state = .replayAuthorized ∨
      ∃ l, r.proof = .marker l ∧ AbsentAt proof l := by
  unfold resolveDisposition at h
  split at h
  · cases h
  · split at h
    · cases h
    · split at h
      · split at h
        · rename_i hr
          rw [Bool.and_eq_true] at hr
          exact .inl (rejectionIsRetryable_iff.mp hr.1).2.2
        · cases h
      · split at h
        · cases h
        · split at h
          · rename_i hs
            exact .inr (.inl hs)
          · split at h
            · rename_i hp
              exact .inl hp
            · cases h
            · rename_i l hp
              exact .inr (.inr ⟨l, hp, resolveMarker_retrySafe h⟩)

/-- Converging either confirms or authorizes, except for a rejection, which it leaves alone. -/
theorem convergeDisposition_ok {r r' : RequestRecord} {d : RequestDisposition} {now : Time}
    (h : convergeDisposition r d now = .ok r') :
    r'.identity = r.identity ∧ r'.proof = r.proof ∧
      (r' = r ∨ r'.state = .confirmed ∨ r'.state = .replayAuthorized ∧ d.retrySafe = true) := by
  unfold convergeDisposition at h
  split at h
  · cases h
  · split at h
    · obtain ⟨hi, hs, hp, -⟩ := transition_ok h
      exact ⟨hi, hp, .inr (.inl hs)⟩
    · obtain ⟨hi, hs, hp, hd⟩ := authorizeReplay_ok h
      exact ⟨hi, hp, .inr (.inr ⟨hs, hd⟩)⟩
    · cases h
      exact ⟨rfl, rfl, .inl rfl⟩
    · cases h
    · cases h

end Dt.Submission
