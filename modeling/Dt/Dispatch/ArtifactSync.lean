import Dt.Distribution.Crossing

/-!
# The lock of an artifact store

`sync_artifacts` opens the directories of an artifact store for writing, brings the artifacts and publishes their
manifest, and takes the write bits away again. The callback that does so after a failure is registered when the first
command has returned: whatever fails later, a command that locks the store follows before the lock of the sync is given
back. A first command that fails itself is followed by none, although it may have opened some of the directories.
-/

namespace Dt.Dispatch.ArtifactSync

open Dt.Lib
open Dt.Distribution (unreachableCodes)
open Dt.Jobs (hexOf)

/-- What is raised, with the data that a handler reads. -/
inductive Raised where
  | remote | dispatch | timeout | os | relay (message : String) | other
  deriving DecidableEq

/-- `except (RemoteError, DispatchError)` -/
def Raised.isLockFailure : Raised → Bool
  | .remote | .dispatch => true
  | _ => false

/-- `except (DispatchError, OSError)` -/
def Raised.isDrift : Raised → Bool
  | .dispatch | .os => true
  | _ => false

/-- One artifact of `_artifact_sources`. -/
structure Source where
  relative : String
  isDir : Bool
  sourceBytes : Nat
  mode : Nat
  sourceSha256 : String
  deriving DecidableEq

/-- `_artifact_manifest`: the bytes and their digest. -/
structure Manifest where
  bytes : String
  sha256 : String
  deriving DecidableEq

/-- `subprocess.CompletedProcess` -/
structure Completed where
  returncode : Int
  stdout : String
  deriving DecidableEq

/-- `RelayRoute` -/
structure RelayRoute where
  gatewayRoute : Bool
  gateway : Option String
  reason : String
  deriving DecidableEq

inductive Call where
  /-- `_artifact_sources` and `_artifact_manifest` -/
  | sources
  /-- `sync_relay.decide_sync_route` -/
  | route
  | storeLock (exclusive : Bool)
  | storeUnlock
  /-- `artifact_store_permission_command` -/
  | permission (lock : Bool)
  | gatewayLock (gateway : String)
  | gatewayUnlock (gateway : String)
  /-- `sync_relay.prepare_artifact_mirror` -/
  | mirror (gateway : String)
  /-- `_artifact_remote_check` -/
  | check (s : Source) (prepare : Bool)
  /-- `_artifact_link_dests` -/
  | linkDests (s : Source)
  /-- `_mirror_link_dests` -/
  | mirrorLinkDests (s : Source)
  /-- `rsync` from the head to the gateway -/
  | stage (s : Source) (linkDest : List String)
  /-- `sync_relay.push_artifact` -/
  | push (s : Source) (linkDests : List String)
  /-- `rsync` from the head to the node, a plan without a parent into a directory of its own -/
  | rsync (s : Source) (preview : Bool) (linkDest : List String) (dryRun : Bool)
  /-- the private directory of `_publish_verified_artifact_manifest` -/
  | incoming
  /-- the verifier and the manifest, into that directory -/
  | upload (m : Manifest)
  /-- the verification of the store, and the manifest in its public place -/
  | verify (m : Manifest)
  /-- `record_artifact_publication` -/
  | journal
  /-- `request_agent_wake` -/
  | wake
  deriving DecidableEq

@[reducible] def Answer : Call → Type
  | .sources => Except Raised (List Source × Manifest)
  | .route => Except Raised RelayRoute
  | .storeLock _ | .gatewayLock _ | .mirror _ | .wake => Except Raised Unit
  | .storeUnlock | .gatewayUnlock _ => Unit
  | .permission _ | .check .. | .stage .. | .push .. | .rsync .. | .incoming | .upload _ | .verify _ =>
    Except Raised Completed
  | .linkDests _ => Except Raised (List String × List String)
  | .mirrorLinkDests _ => Except Raised (List String)
  | .journal => Except Raised (Option String)

abbrev M (α : Type) : Type := Prog Call Answer Raised α

abbrev History : Type := List (Exchange Call Answer)

def query (c : Call) : M (Answer c) := Prog.call c

/-- The error of a command with an exit code other than 0. -/
def exitError (returncode : Int) : Raised := if returncode = 255 then .remote else .dispatch

def exitCheck (reply : Completed) : M Unit := do
  if reply.returncode ≠ 0 then Prog.raise (exitError reply.returncode)

/-- `_set_artifact_store_lock` -/
def setArtifactStoreLock (lock : Bool) : M Unit := do
  exitCheck (← Prog.lift (← query (.permission lock)))

/-- `_relock_artifact_store_after_failure`, when the sync has not come to its own lock step. -/
def relockArtifactStoreAfterFailure : M Unit := do
  match ← (setArtifactStoreLock true).attempt with
  | .ok () => return ()
  | .error e => if e.isLockFailure then return () else Prog.raise e

/-- The lock step of `sync_artifacts`: whether the store is locked. -/
def lockStep : M Bool := do
  match ← (setArtifactStoreLock true).attempt with
  | .ok () => return true
  | .error e => if e.isLockFailure then return false else Prog.raise e

/-! ## One artifact -/

/-- The counters in the output of `rsync`. -/
structure Stats where
  transferredBytes : String → Option Nat
  deletedFiles : String → Option Nat
  transferredFiles : String → Option Nat

/-- A row of the result. -/
structure Row where
  source : Source
  transferredBytes : Option Nat
  deletedFiles : Nat
  transferredFiles : Option Nat
  reusedFrom : List String
  destinationParentPresent : Option Bool
  deriving DecidableEq

/-- `_ArtifactItemOutcome` -/
structure Outcome where
  row : Row
  relaying : Bool
  relayError : Option String
  relayed : Bool
  deriving DecidableEq

/-- The two legs over the gateway. -/
def overGateway (s : Source) (linkDests : List String) : M Completed := do
  let mirrorLinkDests ← Prog.lift (← query (.mirrorLinkDests s))
  let legA ← Prog.lift (← query (.stage s mirrorLinkDests))
  if legA.returncode ≠ 0 then Prog.raise (.relay "head -> gateway staging failed")
  Prog.lift (← query (.push s linkDests))

/-- The bytes of an artifact, with the state of the relay. -/
def bring (plan preview : Bool) (gateway : Option String) (s : Source) (linkDests : List String) (relaying : Bool)
    (relayError : Option String) : M (Completed × Bool × Option String × Bool) := do
  if relaying ∧ gateway.isSome then
    match ← (overGateway s linkDests).attempt with
    | .ok proc => return (proc, relaying, relayError, true)
    | .error (.relay message) =>
      let proc ← Prog.lift (← query (.rsync s preview linkDests plan))
      return (proc, false, some message, false)
    | .error e => Prog.raise e
  else
    let proc ← Prog.lift (← query (.rsync s preview linkDests plan))
    return (proc, relaying, relayError, false)

/-- Whether the parent of the destination is there; only a plan goes on without it. -/
def parentPresence (plan : Bool) (checked : Completed) : M (Option Bool) :=
  if plan = true ∧ (checked.returncode = 0 ∨ checked.returncode = 1) then return some (decide (checked.returncode = 0))
  else do
    exitCheck checked
    return none

/-- The sibling stores with the same content, and where `rsync` finds it. -/
def reuse (preview : Bool) (s : Source) : M (List String × List String) :=
  if preview then return ([], []) else do Prog.lift (← query (.linkDests s))

variable (stats : Stats)

/-- `_sync_one_artifact` -/
def syncOneArtifact (plan : Bool) (gateway : Option String) (s : Source) (relaying : Bool)
    (relayError : Option String) : M Outcome := do
  let checked ← Prog.lift (← query (.check s (!plan)))
  let parentPresent ← parentPresence plan checked
  let preview := plan && !parentPresent.getD false
  let (reusedFrom, linkDests) ← reuse preview s
  let (proc, relaying, relayError, relayed) ← bring plan preview gateway s linkDests relaying relayError
  if proc.returncode ≠ 0 then
    Prog.raise (if proc.returncode ∈ unreachableCodes then .remote else .dispatch)
  let deleted := if plan = true ∧ parentPresent = some false then some 0 else stats.deletedFiles proc.stdout
  return { row := { source := s, transferredBytes := stats.transferredBytes proc.stdout
                    deletedFiles := deleted.getD 0, transferredFiles := stats.transferredFiles proc.stdout
                    reusedFrom := reusedFrom, destinationParentPresent := if plan then parentPresent else none }
           relaying := relaying, relayError := relayError, relayed := relayed }

/-! ## The sync -/

/-- What the loop of `sync_artifacts` adds up. -/
structure Totals where
  rows : List Row := []
  totalBytes : Nat := 0
  totalBytesKnown : Bool := true
  totalDeleted : Nat := 0
  totalFiles : Nat := 0
  totalFilesKnown : Bool := true
  relaying : Bool
  relayError : Option String
  relayedAny : Bool := false
  deriving DecidableEq

def Totals.add (t : Totals) (o : Outcome) : Totals where
  rows := t.rows ++ [o.row]
  totalBytes := t.totalBytes + o.row.transferredBytes.getD 0
  totalBytesKnown := t.totalBytesKnown && o.row.transferredBytes.isSome
  totalDeleted := t.totalDeleted + o.row.deletedFiles
  totalFiles := t.totalFiles + o.row.transferredFiles.getD 0
  totalFilesKnown := t.totalFilesKnown && o.row.transferredFiles.isSome
  relaying := o.relaying
  relayError := o.relayError
  relayedAny := t.relayedAny || o.relayed

/-- The loop of `sync_artifacts`. -/
def syncAll (plan : Bool) (gateway : Option String) : List Source → Totals → M Totals
  | [], t => return t
  | s :: rest, t => do
    let outcome ← syncOneArtifact stats plan gateway s t.relaying t.relayError
    syncAll plan gateway rest (t.add outcome)

/-- The sources must be what they were. -/
def requireStable (m : Manifest) : M Unit := do
  match ← (do Prog.lift (← query .sources) : M (List Source × Manifest)).attempt with
  | .error e => Prog.raise (if e.isDrift then .dispatch else e)
  | .ok (_, stable) => if stable ≠ m then Prog.raise .dispatch

/-- `_publish_verified_artifact_manifest` -/
def publishVerifiedArtifactManifest (m : Manifest) : M Unit := do
  exitCheck (← Prog.lift (← query .incoming))
  let uploaded ← Prog.lift (← query (.upload m))
  if uploaded.returncode ≠ 0 then
    Prog.raise (if uploaded.returncode ∈ unreachableCodes then .remote else .dispatch)
  exitCheck (← Prog.lift (← query (.verify m)))

/-- The lock of the mirror on the gateway is held to the end. -/
def withGatewayLock {α : Type} (gateway : Option String) (body : M α) : M α :=
  match gateway with
  | none => body
  | some g => do
    Prog.lift (← query (.gatewayLock g))
    body.ensuring (query (.gatewayUnlock g))

/-- The relay as it is after the mirror was prepared. -/
def prepareMirror (relaying : Bool) : Option String → M (Bool × Option String)
  | none => return (relaying, none)
  | some g => do
    match ← (do Prog.lift (← query (.mirror g)) : M Unit).attempt with
    | .ok () => return (relaying, none)
    | .error (.relay message) => return (false, some message)
    | .error e => Prog.raise e

/-- The end of a sync, after its own lock step: the journal, which does not fail it, and the wake. -/
def announce : M Unit := do
  let _ ← Prog.lift (← query .journal)
  Prog.lift (← query .wake)

/-- The sync between the locks. With the totals it gives whether the store is locked, and how the end went: an error of
it no longer calls for another lock command. -/
def syncBody (plan relaying : Bool) (gateway : Option String) (sources : List Source) (m : Manifest) :
    M (Totals × Option (Bool × Except Raised Unit)) :=
  withGatewayLock (if relaying then gateway else none) do
    let (relaying, relayError) ← prepareMirror relaying (if relaying then gateway else none)
    let totals ← syncAll stats plan gateway sources { relaying := relaying, relayError := relayError }
    requireStable m
    if plan then return (totals, none)
    publishVerifiedArtifactManifest m
    let locked ← lockStep
    let ending ← announce.attempt
    return (totals, some (locked, ending))

/-- The route in the result. -/
structure Routed where
  route : String
  gateway : Option String
  reason : String
  relayError : Option String
  deriving DecidableEq

def routed (t : Totals) (r : RelayRoute) : Routed where
  route := if t.relayedAny then "gateway" else "direct"
  gateway := if t.relayedAny then r.gateway else none
  reason := if t.relayError.isNone then r.reason else "gateway staging failed; synced over the direct route"
  relayError := t.relayError

/-- The result of `sync_artifacts`, in the parts that the sync computes. -/
structure SyncResult where
  artifacts : List Row
  transferredBytes : Option Nat
  deletedFiles : Nat
  transferredFiles : Option Nat
  artifactManifestSha256 : String
  storeLocked : Option Bool
  route : Option Routed
  deriving DecidableEq

/-- What stands under the lock of the sync. A failure before the lock step unwinds through the callback. -/
def guarded (plan relaying : Bool) (gateway : Option String) (sources : List Source) (m : Manifest) :
    M (Totals × Option Bool) := do
  if plan then
    let (totals, _) ← syncBody stats plan relaying gateway sources m
    return (totals, none)
  setArtifactStoreLock false
  let (totals, ending) ← (syncBody stats plan relaying gateway sources m).handle fun e => do
    relockArtifactStoreAfterFailure
    Prog.raise e
  match ending with
  | none => return (totals, none)
  | some (locked, ending) => do
    Prog.lift ending
    return (totals, some locked)

def syncRoute (plan : Bool) : M (Option RelayRoute) :=
  if plan then return none else do return some (← Prog.lift (← query .route))

/-- `sync_artifacts` -/
def syncArtifacts (plan : Bool) (expectedManifestSha256 : Option String) : M SyncResult := do
  if expectedManifestSha256.any fun digest => !hexOf 64 digest then Prog.raise .dispatch
  let (sources, m) ← Prog.lift (← query .sources)
  if expectedManifestSha256.any (· ≠ m.sha256) then Prog.raise .dispatch
  let route ← syncRoute plan
  Prog.lift (← query (.storeLock (!plan)))
  let (totals, storeLocked) ← (guarded stats plan (route.any (·.gatewayRoute)) (route.bind (·.gateway)) sources m).ensuring
    (query .storeUnlock)
  return { artifacts := totals.rows
           transferredBytes := if totals.totalBytesKnown then some totals.totalBytes else none
           deletedFiles := totals.totalDeleted
           transferredFiles := if totals.totalFilesKnown then some totals.totalFiles else none
           artifactManifestSha256 := m.sha256, storeLocked := storeLocked, route := route.map (routed totals) }

/-! ## Open and locked -/

/-- A command on the permissions of the store. -/
def Call.isPermission : Call → Bool
  | .permission _ => true
  | _ => false

/-- Neither a command on the permissions nor the end of the lock of the sync. -/
def Call.isInner : Call → Bool
  | .permission _ | .storeUnlock => false
  | _ => true

/-- The command that opens the store has returned 0. -/
def Unlocked (past : History) : Prop :=
  ∃ reply, (⟨.permission false, .ok reply⟩ : Exchange Call Answer) ∈ past ∧ reply.returncode = 0

/-- The last command on the permissions locks the store that was opened before it. -/
def Relocked (past : History) : Prop :=
  ∃ later reply earlier, past = later ++ ⟨.permission true, reply⟩ :: earlier ∧ Unlocked earlier ∧
    ∀ e ∈ later, e.query.isPermission = false

/-- What was true of each question so far. -/
abbrev Minded : History → Prop :=
  Throughout fun past c => (c = .storeUnlock → Unlocked past → Relocked past) ∧ (c = .permission true → Unlocked past)

section

variable {past : History} {c : Call} {a : Answer c}

theorem unlocked_cons (hc : c.isPermission = false) : Unlocked (⟨c, a⟩ :: past) ↔ Unlocked past := by
  constructor
  · rintro ⟨reply, hmem, hok⟩
    rcases List.mem_cons.mp hmem with heq | hmem
    · have hquery := congrArg (fun e : Exchange Call Answer => e.query.isPermission) heq
      exact absurd (hquery.trans hc) Bool.false_ne_true.symm
    · exact ⟨reply, hmem, hok⟩
  · rintro ⟨reply, hmem, hok⟩
    exact ⟨reply, List.mem_cons_of_mem _ hmem, hok⟩

theorem Unlocked.mono {past' : History} (h : Unlocked past) (hsub : past ⊆ past') : Unlocked past' := by
  obtain ⟨reply, hmem, hok⟩ := h
  exact ⟨reply, hsub hmem, hok⟩

theorem Relocked.cons (h : Relocked past) (hc : c.isPermission = false) : Relocked (⟨c, a⟩ :: past) := by
  obtain ⟨later, reply, earlier, rfl, hopen, hlater⟩ := h
  exact ⟨⟨c, a⟩ :: later, reply, earlier, rfl, hopen, List.forall_mem_cons.mpr ⟨hc, hlater⟩⟩

theorem Relocked.unlocked (h : Relocked past) : Unlocked past := by
  obtain ⟨later, reply, earlier, rfl, hopen, -⟩ := h
  exact hopen.mono (List.subset_append_of_subset_right _ (List.subset_cons_self _ _))

theorem isPermission_of_inner (hc : c.isInner = true) : c.isPermission = false := by
  cases c <;> first | rfl | exact absurd hc Bool.false_ne_true

theorem Minded.cons (h : Minded past) (hc : c.isInner = true) : Minded (⟨c, a⟩ :: past) := by
  refine ⟨⟨?_, ?_⟩, h⟩ <;> rintro rfl <;> exact absurd hc Bool.false_ne_true

end

/-- The store was not opened. -/
structure Closed (past : History) : Prop where
  minded : Minded past
  closed : ¬ Unlocked past

structure Opened (past : History) : Prop where
  minded : Minded past
  opened : Unlocked past

structure Shut (past : History) : Prop where
  minded : Minded past
  shut : Relocked past

theorem Shut.opened {past : History} (h : Shut past) : Opened past := ⟨h.minded, h.shut.unlocked⟩

section

variable {α : Type} {p : M α} (hp : p.Asks fun c => c.isInner = true)

include hp

theorem inner_closed : p.Keeps Closed :=
  hp.keeps fun _ _ _ hc h => ⟨h.minded.cons hc, mt (unlocked_cons (isPermission_of_inner hc)).mp h.closed⟩

theorem inner_opened : p.Keeps Opened :=
  hp.keeps fun _ _ _ hc h => ⟨h.minded.cons hc, (unlocked_cons (isPermission_of_inner hc)).mpr h.opened⟩

theorem inner_shut : p.Keeps Shut :=
  hp.keeps fun _ _ _ hc h => ⟨h.minded.cons hc, h.shut.cons (isPermission_of_inner hc)⟩

end

/-! ## The parts of a sync -/

abbrev Inner {α : Type} (p : M α) : Prop := p.Asks fun c => c.isInner = true

theorem query_inner {α : Type} {c : Call} {f : Answer c → M α} (hc : c.isInner = true) (hf : ∀ a, Inner (f a)) :
    Inner (query c >>= f) := by
  have hquery : Inner (query c) := Prog.asks_call.mpr hc
  exact hquery.bind hf

theorem exitCheck_inner (reply : Completed) : Inner (exitCheck reply) := by
  unfold exitCheck
  split
  · exact Prog.asks_raise
  · exact Prog.asks_pure

section

variable {stats : Stats} {plan preview relaying : Bool} {gateway : Option String} {m : Manifest}

theorem overGateway_inner (s : Source) (linkDests : List String) : Inner (overGateway s linkDests) := by
  refine query_inner rfl fun _ => Prog.asks_lift.bind fun _ => query_inner rfl fun _ => Prog.asks_lift.bind fun legA => ?_
  dsimp only
  split
  · exact Prog.asks_raise
  · exact query_inner rfl fun _ => Prog.asks_lift

theorem bring_inner (s : Source) (linkDests : List String) (relayError : Option String) :
    Inner (bring plan preview gateway s linkDests relaying relayError) := by
  unfold bring
  split
  · refine (overGateway_inner s linkDests).attempt.bind fun r => ?_
    split
    · exact Prog.asks_pure
    · exact query_inner rfl fun _ => Prog.asks_lift.bind fun _ => Prog.asks_pure
    · exact Prog.asks_raise
  · exact query_inner rfl fun _ => Prog.asks_lift.bind fun _ => Prog.asks_pure

theorem parentPresence_inner (checked : Completed) : Inner (parentPresence plan checked) := by
  unfold parentPresence
  split
  · exact Prog.asks_pure
  · exact (exitCheck_inner checked).bind fun _ => Prog.asks_pure

theorem reuse_inner (s : Source) : Inner (reuse preview s) := by
  unfold reuse
  split
  · exact Prog.asks_pure
  · exact query_inner rfl fun _ => Prog.asks_lift

theorem syncOneArtifact_inner (s : Source) (relayError : Option String) :
    Inner (syncOneArtifact stats plan gateway s relaying relayError) := by
  refine query_inner rfl fun _ => Prog.asks_lift.bind fun checked => (parentPresence_inner checked).bind
    fun parentPresent => (reuse_inner s).bind fun reused => (bring_inner s reused.2 relayError).bind fun brought => ?_
  dsimp only
  split
  · exact Prog.asks_raise
  · exact Prog.asks_pure

theorem syncAll_inner (sources : List Source) (t : Totals) : Inner (syncAll stats plan gateway sources t) := by
  induction sources generalizing t with
  | nil => exact Prog.asks_pure
  | cons s rest ih => exact (syncOneArtifact_inner s t.relayError).bind fun outcome => ih _

theorem requireStable_inner : Inner (requireStable m) := by
  have hsources : Inner (do Prog.lift (← query .sources) : M (List Source × Manifest)) :=
    query_inner rfl fun _ => Prog.asks_lift
  refine hsources.attempt.bind fun r => ?_
  split
  · exact Prog.asks_raise
  · split
    · exact Prog.asks_raise
    · exact Prog.asks_pure

theorem publishVerifiedArtifactManifest_inner : Inner (publishVerifiedArtifactManifest m) := by
  refine query_inner rfl fun _ => Prog.asks_lift.bind fun incoming => (exitCheck_inner incoming).bind fun _ =>
    query_inner rfl fun _ => Prog.asks_lift.bind fun uploaded => ?_
  have hverify : Inner (do exitCheck (← Prog.lift (← query (.verify m))) : M Unit) :=
    query_inner rfl fun _ => Prog.asks_lift.bind fun verified => exitCheck_inner verified
  dsimp only
  split
  · exact Prog.asks_raise
  · exact hverify

theorem prepareMirror_inner : Inner (prepareMirror relaying gateway) := by
  unfold prepareMirror
  split
  · exact Prog.asks_pure
  · rename_i g
    have hmirror : Inner (do Prog.lift (← query (.mirror g)) : M Unit) := query_inner rfl fun _ => Prog.asks_lift
    refine hmirror.attempt.bind fun r => ?_
    split
    · exact Prog.asks_pure
    · exact Prog.asks_pure
    · exact Prog.asks_raise

theorem announce_inner : Inner announce :=
  query_inner rfl fun _ => Prog.asks_lift.bind fun _ => query_inner rfl fun _ => Prog.asks_lift

/-! ## The lock commands -/

/-- A lock command, whatever it returns. -/
theorem setArtifactStoreLock_shuts {past : History} (h : Opened past) :
    (setArtifactStoreLock true).Ensures past fun past' _ => Shut past' := by
  unfold setArtifactStoreLock
  have hnow : ∀ reply, Shut (⟨.permission true, reply⟩ :: past) := fun reply =>
    ⟨⟨⟨fun h => Call.noConfusion h, fun _ => h.opened⟩, h.minded⟩, [], reply, past, rfl, h.opened,
      List.forall_mem_nil _⟩
  simp only [query, Prog.ensures_bind, Prog.ensures_call, Prog.ensures_lift]
  rintro (e | reply)
  · exact hnow _
  · exact inner_shut (exitCheck_inner reply) _ (hnow _)

/-- What follows a lock command leaves the store to it. -/
theorem afterLock_shuts {α : Type} {f : Except Raised Unit → M α} (hf : ∀ r, Inner (f r)) {past : History}
    (h : Opened past) : ((setArtifactStoreLock true).attempt >>= f).Ensures past fun past' _ => Shut past' := by
  rw [Prog.ensures_bind, Prog.ensures_attempt]
  exact (setArtifactStoreLock_shuts h).mono fun past' r hs => inner_shut (hf r) past' hs

theorem lockStep_shuts {past : History} (h : Opened past) : lockStep.Ensures past fun past' _ => Shut past' := by
  refine afterLock_shuts (fun r => ?_) h
  split
  · exact Prog.asks_pure
  · split
    · exact Prog.asks_pure
    · exact Prog.asks_raise

theorem relockArtifactStoreAfterFailure_shuts {past : History} (h : Opened past) :
    relockArtifactStoreAfterFailure.Ensures past fun past' _ => Shut past' := by
  refine afterLock_shuts (fun r => ?_) h
  split
  · exact Prog.asks_pure
  · split
    · exact Prog.asks_pure
    · exact Prog.asks_raise

/-- The command that opens the store. -/
theorem setArtifactStoreLock_opens {past : History} (h : Closed past) :
    (setArtifactStoreLock false).Ensures past fun past' r => (∀ u, r = .ok u → Opened past') ∧
      ∀ e, r = .error e → Closed past' := by
  unfold setArtifactStoreLock
  have hminded : ∀ reply, Minded (⟨.permission false, reply⟩ :: past) := fun reply =>
    ⟨⟨fun h => Call.noConfusion h, fun h => by cases h⟩, h.minded⟩
  have hclosed : ∀ reply, (∀ done, reply = .ok done → done.returncode ≠ 0) →
      Closed (⟨.permission false, reply⟩ :: past) := by
    refine fun reply hreply => ⟨hminded reply, ?_⟩
    rintro ⟨done, hmem, hok⟩
    rcases List.mem_cons.mp hmem with heq | hmem
    · cases heq
      exact hreply done rfl hok
    · exact h.closed ⟨done, hmem, hok⟩
  simp only [query, Prog.ensures_bind, Prog.ensures_call, Prog.ensures_lift]
  rintro (e | reply)
  · exact ⟨fun _ he => (by cases he), fun _ _ => hclosed _ fun _ he => (by cases he)⟩
  · dsimp only
    by_cases hok : reply.returncode = 0
    · rw [exitCheck, if_neg (not_not.mpr hok)]
      exact ⟨fun _ _ => ⟨hminded _, reply, List.mem_cons_self, hok⟩, fun _ he => by cases he⟩
    · rw [exitCheck, if_pos hok]
      exact ⟨fun _ he => (by cases he), fun _ _ => hclosed _ (by rintro _ ⟨⟩; exact hok)⟩

theorem syncRoute_inner : Inner (syncRoute plan) := by
  unfold syncRoute
  split
  · exact Prog.asks_pure
  · exact query_inner rfl fun _ => Prog.asks_lift.bind fun _ => Prog.asks_pure

/-! ## The sync between the locks -/

theorem syncBody_inner {sources : List Source} (hplan : plan = true) :
    Inner (syncBody stats plan relaying gateway sources m) := by
  have hbody : ∀ g : Option String, Inner (do
      let (relaying, relayError) ← prepareMirror relaying g
      let totals ← syncAll stats plan gateway sources { relaying := relaying, relayError := relayError }
      requireStable m
      if plan then return (totals, none)
      publishVerifiedArtifactManifest m
      let locked ← lockStep
      let ending ← announce.attempt
      return (totals, some (locked, ending)) : M (Totals × Option (Bool × Except Raised Unit))) := fun g => by
    refine prepareMirror_inner.bind fun relay => (syncAll_inner sources _).bind fun totals =>
      requireStable_inner.bind fun _ => ?_
    rw [if_pos hplan]
    exact Prog.asks_pure
  unfold syncBody withGatewayLock
  split
  · exact hbody _
  · exact query_inner rfl fun _ => Prog.asks_lift.bind fun _ => (hbody _).ensuring (Prog.asks_call.mpr rfl)

/-- Either end of the sync between the locks. -/
def Ends {α : Type} (past : History) (r : Except Raised α) : Prop := Opened past ∧ ∀ a, r = .ok a → Shut past

theorem ends_error {α : Type} {past : History} {e : Raised} (h : Opened past) : Ends past (.error e : Except Raised α) :=
  ⟨h, fun _ he => by cases he⟩

theorem ends_of_shut {α : Type} {past : History} {r : Except Raised α} (h : Shut past) : Ends past r :=
  ⟨h.opened, fun _ _ => h⟩

theorem withGatewayLock_ends {α : Type} {g : Option String} {body : M α} {past : History} (h : Opened past)
    (hbody : ∀ past, Opened past → body.Ensures past Ends) : (withGatewayLock g body).Ensures past Ends := by
  have hquery : ∀ c : Call, c.isInner = true → Inner (query c) := fun c hc => Prog.asks_call.mpr hc
  unfold withGatewayLock
  split
  · exact hbody past h
  · rename_i g
    refine (inner_opened (hquery _ rfl)).follow h (fun _ _ => ends_error) fun reply past₁ h₁ => ?_
    rcases reply with e | u
    · exact ends_error h₁
    · rw [Prog.lift_ok_bind, Prog.ensures_ensuring]
      refine (hbody past₁ h₁).mono fun past₂ r hr => ?_
      have hunlock := hquery (.gatewayUnlock g) rfl
      cases r with
      | ok a =>
        refine (inner_shut hunlock past₂ (hr.2 a rfl)).mono fun past₃ r' h₃ => ?_
        cases r' <;> exact ends_of_shut h₃
      | error e =>
        refine (inner_opened hunlock past₂ hr.1).mono fun past₃ r' h₃ => ?_
        cases r' <;> exact ends_error h₃

theorem syncBody_ends {sources : List Source} {past : History} (hplan : plan = false) (h : Opened past) :
    (syncBody stats plan relaying gateway sources m).Ensures past Ends := by
  refine withGatewayLock_ends h fun past h => ?_
  refine (inner_opened prepareMirror_inner).follow h (fun _ _ => ends_error) fun relay past h => ?_
  refine (inner_opened (syncAll_inner sources _)).follow h (fun _ _ => ends_error) fun totals past h => ?_
  refine (inner_opened requireStable_inner).follow h (fun _ _ => ends_error) fun _ past h => ?_
  rw [if_neg (by rw [hplan]; exact Bool.false_ne_true)]
  refine (inner_opened publishVerifiedArtifactManifest_inner).follow h (fun _ _ => ends_error) fun _ past h => ?_
  rw [Prog.ensures_bind]
  refine (lockStep_shuts h).mono fun past r hs => ?_
  rcases r with e | locked
  · exact ends_error hs.opened
  · exact (inner_shut announce_inner.attempt).follow hs (fun _ _ => ends_of_shut) fun _ _ => ends_of_shut

/-- The lock of the sync may be given back. -/
structure Settled (past : History) : Prop where
  minded : Minded past
  relocked : Unlocked past → Relocked past

theorem settled_of_shut {past : History} (h : Shut past) : Settled past := ⟨h.minded, fun _ => h.shut⟩

theorem settled_of_closed {past : History} (h : Closed past) : Settled past := ⟨h.minded, fun hopen => absurd hopen h.closed⟩

theorem guarded_settles {sources : List Source} {past : History} (h : Closed past) :
    (guarded stats plan relaying gateway sources m).Ensures past fun past' _ => Settled past' := by
  unfold guarded
  by_cases hplan : plan = true
  · rw [if_pos hplan]
    exact (inner_closed ((syncBody_inner hplan).bind fun _ => Prog.asks_pure) past h).mono fun _ _ => settled_of_closed
  · rw [if_neg hplan, Prog.ensures_bind]
    refine (setArtifactStoreLock_opens h).mono fun past₁ r hr => ?_
    rcases r with e | u
    · exact settled_of_closed (hr.2 e rfl)
    · dsimp only
      rw [Prog.ensures_bind, Prog.ensures_handle]
      refine (syncBody_ends (by simpa using hplan) (hr.1 u rfl)).mono fun past₂ r hends => ?_
      rcases r with e | ⟨totals, ending⟩
      · dsimp only
        rw [Prog.ensures_bind]
        refine (relockArtifactStoreAfterFailure_shuts hends.1).mono fun past₃ r hs => ?_
        cases r <;> exact settled_of_shut hs
      · have hs := settled_of_shut (hends.2 _ rfl)
        rcases ending with _ | ⟨locked, _ | _⟩ <;> exact hs

end

/-- Whatever fails: when the lock of the sync is given back, a store that the first command opened has been sent a lock
command as the last one on its permissions. And a lock command is sent only to a store that the first command opened: none
follows a first command that failed. -/
theorem store_relocked (stats : Stats) (plan : Bool) (expectedManifestSha256 : Option String)
    (answer : History → (c : Call) → Answer c) :
    Throughout (fun past c => (c = .storeUnlock → Unlocked past → Relocked past) ∧ (c = .permission true → Unlocked past))
      ((syncArtifacts stats plan expectedManifestSha256).run answer []).1 := by
  suffices hminded : (syncArtifacts stats plan expectedManifestSha256).Ensures [] fun past' _ => Minded past' from
    hminded.run answer
  have hnil : Closed [] := ⟨trivial, by rintro ⟨reply, hmem, -⟩; cases hmem⟩
  have hraised : ∀ (past : History) (e : Raised), Closed past → Minded past := fun _ _ h => h.minded
  unfold syncArtifacts
  dsimp only
  split
  · exact trivial
  · refine (inner_closed (Prog.asks_call.mpr rfl)).follow hnil hraised fun reply past h => ?_
    rcases reply with e | ⟨sources, m⟩
    · exact h.minded
    · rw [Prog.lift_ok_bind]
      dsimp only
      split
      · exact h.minded
      · refine (inner_closed syncRoute_inner).follow h hraised fun route past h => ?_
        refine (inner_closed (Prog.asks_call.mpr rfl)).follow h hraised fun reply past h => ?_
        rcases reply with e | u
        · exact h.minded
        · rw [Prog.lift_ok_bind, Prog.ensures_bind, Prog.ensures_ensuring]
          refine (guarded_settles h).mono fun past r hs => ?_
          have hgiven : ∀ u, Minded (⟨.storeUnlock, u⟩ :: past) := fun u =>
            ⟨⟨fun _ => hs.relocked, fun h => by cases h⟩, hs.minded⟩
          rcases r with e | ⟨totals, storeLocked⟩ <;> exact hgiven

/-- Every command succeeds, but the verification of the store. -/
def unverified : History → (c : Call) → Answer c
  | _, .sources => .ok ([], ⟨"[]", "0"⟩)
  | _, .route => .ok ⟨false, none, "direct"⟩
  | _, .storeLock _ | _, .gatewayLock _ | _, .mirror _ | _, .wake => .ok ()
  | _, .storeUnlock | _, .gatewayUnlock _ => ()
  | _, .verify _ => .ok ⟨74, ""⟩
  | _, .permission _ | _, .check .. | _, .stage .. | _, .push .. | _, .rsync .. | _, .incoming | _, .upload _ => .ok ⟨0, ""⟩
  | _, .linkDests _ => .ok ([], [])
  | _, .mirrorLinkDests _ => .ok []
  | _, .journal => .ok none

example : ((syncArtifacts ⟨fun _ => none, fun _ => none, fun _ => none⟩ false none).run unverified []).1.map (·.query) =
    [.storeUnlock, .permission true, .verify ⟨"[]", "0"⟩, .upload ⟨"[]", "0"⟩, .incoming, .sources, .permission false,
      .storeLock true, .route, .sources] := by decide +kernel

end Dt.Dispatch.ArtifactSync
