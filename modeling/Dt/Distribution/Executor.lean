import Dt.Distribution.Calls

/-!
# The executor of transfers

`TransferExecutor.ensure` brings one artifact to one destination, by the policy of its site: from the site cache, from
the first replica that serves, or straight from the head. Every way ends with `_verified_transfer`, except the first
look at the destination, which is a verification itself.
-/

namespace Dt.Distribution

open Dt.Lib Dt.Topology
open Dt.Jobs (hexOf)
open Dt.Jobs.ReplicaIndex (ArtifactReplicaRecord)
open Dt.Layout (isAbsolute nodePath pathParts workerPath)

/-! ## Failures of `rsync` -/

def occursIn (marker detail : List Char) : Bool := detail.tails.any (marker.isPrefixOf ·)

/-- The markers of `classify_rsync_failure` that come before the exit codes, in their order. -/
def failureMarkers : List (FailureKind × List String) :=
  [(.deadline, ["rsync timed out after "]),
   (.destination, ["dt: destination prepare failed"]),
   (.hostKey, ["host key verification failed", "remote host identification"]),
   (.configuration, ["bad configuration option", "terminating, 1 bad configuration options",
     "percent_expand: unknown key", "configuration file line "]),
   (.negotiation, ["unable to negotiate", "no matching host key type found", "no matching key exchange method found",
     "no matching cipher found", "no matching mac found"]),
   (.authentication, ["permission denied (publickey", "authentication failed",
     "too many authentication failures"]),
   (.space, ["no space left on device", "disk quota exceeded"]),
   (.permission, ["permission denied"]),
   (.timeout, ["timed out", "timeout"]),
   (.brokenPipe, ["broken pipe", "connection reset"])]

def unreachableMarkers : List String :=
  ["connection refused", "network is unreachable", "no route to host", "name or service not known",
    "could not resolve hostname", "connection closed", "connection unexpectedly closed"]

/-- `RSYNC_UNREACHABLE_EXIT_CODES` -/
def unreachableCodes : List Int := [10, 12, 30, 35, 255]

section

variable (h : Head)

/-- `classify_rsync_failure` -/
def classifyFailure (returncode : Int) (stdout stderr : List Char) : FailureKind :=
  let detail := h.lower (stderr ++ '\n' :: stdout)
  match failureMarkers.find? fun row => row.2.any fun marker => occursIn marker.toList detail with
  | some (kind, _) => kind
  | none =>
    if returncode = 24 ∨ occursIn "file vanished".toList detail = true then .sourceChanged
    else if unreachableMarkers.any fun marker => occursIn marker.toList detail then .unreachable
    else if returncode ∈ unreachableCodes then .transport
    else .data

/-- `rsync_failure_retryable` -/
def retryable (reply : Completed) : Bool :=
  reply.returncode ∈ (24 :: unreachableCodes) &&
    classifyFailure h reply.returncode reply.stdout reply.stderr ∉
      [.authentication, .configuration, .deadline, .destination, .hostKey, .negotiation, .permission, .space]

/-- `_route_failure_kind` -/
def routeFailureKind (returncode : Int) (stdout stderr : List Char) : Option FailureKind :=
  let kind := classifyFailure h returncode stdout stderr
  if kind ∈ [.brokenPipe, .deadline, .timeout, .transport, .unreachable] then some kind else none

/-- What an `rsync` report says was moved. -/
def moved (reply : Completed) : Nat × Option Nat :=
  ((h.transferredSize reply.stdout).getD 0, h.transferredFiles reply.stdout)

end

/-! ## Verification -/

/-- The digest in the reply of the digest program. -/
def readDigest (reply : Except Raised Completed) : Except Raised String :=
  match reply with
  | .error e => .error (if e.isCall then .distribution [] else e)
  | .ok proc =>
    let digest := String.ofList ((splitlines (strip proc.stdout)).getLastD [])
    if proc.returncode ≠ 0 ∨ hexOf 64 digest = false then .error (.distribution []) else .ok digest

/-- `ArtifactVerifier.remote_digest` -/
def remoteDigest (node : Node) (codeDir : String) : M String := do
  let reply ← query (.digest node codeDir)
  Prog.lift (readDigest reply)

/-- `ArtifactVerifier.require` -/
def require (node : Node) (codeDir expected : String) : M Unit := do
  let observed ← remoteDigest node codeDir
  if observed ≠ expected then Prog.raise .integrity

def addFiles : Option Nat → Option Nat → Option Nat
  | some a, some b => some (a + b)
  | _, _ => none

/-- `_verified_transfer` -/
def verifiedTransfer (transfer : Bool → M (Nat × Option Nat)) (verify : M Unit) : M (Nat × Option Nat) := do
  let first ← transfer false
  match ← verify.attempt with
  | .ok () => return first
  | .error .integrity =>
    let repaired ← transfer true
    match ← verify.attempt with
    | .ok () => return (first.1 + repaired.1, addFiles first.2 repaired.2)
    | .error .integrity => Prog.raise (.distribution [])
    | .error e => Prog.raise e
  | .error e => Prog.raise e

/-- `with` a file lock -/
def withLock {α : Type} (l : Lock) (body : M α) : M α := do
  Prog.lift (← query (.lock l))
  body.ensuring (query (.unlock l))

/-! ## The site cache -/

section

variable (h : Head)

def path (x : Except String String) : M String := Prog.lift (x.mapError .value)

/-- `_record_link_sample` -/
def recordLinkSample (source destination : String) (bytes : Nat) : M Unit := do
  match ← query (.linkSample source destination bytes) with
  | .error .linkMetrics => return ()
  | other => Prog.lift other

/-- `_cache_root` -/
def cacheRoot (site : Site) (cache : Node) : Except String String :=
  match site.cacheRoot with
  | some root => .ok root
  | none => workerPath (h.nodeRoot cache) ["cache".toList, "site-artifacts".toList]

/-- `_cache_object_root` -/
def cacheObjectRoot (site : Site) (cache : Node) (digest : String) : Except String String := do
  nodePath (← cacheRoot h site cache) [digest.toList]

/-- The last of the stripped lines that are not empty. -/
def lastToken (stdout : List Char) : List Char :=
  (((splitlines stdout).map strip).filter (· ≠ [])).getLastD []

/-- The classification that the probe of a cache object prints: `none` for a miss, whose kind does not matter. -/
def readCacheProbe (reply : Except Raised Completed) : Except Raised Bool :=
  match reply with
  | .error e => .error (if e.isCall then .distribution [] else e)
  | .ok proc =>
    if proc.returncode ≠ 0 then .error (.distribution [])
    else
      let token := String.ofList (lastToken proc.stdout)
      if token ∈ ["DT_CACHE=absent", "DT_CACHE=unusable", "DT_CACHE=mismatch"] then .ok false
      -- an unreadable marker and an unknown token are refused
      else if token ≠ "DT_CACHE=present" then .error (.distribution [])
      else .ok true

/-- `_cache_available` -/
def cacheAvailable (site : Site) (cache : Node) (digest : String) : M Bool := do
  let root ← path (cacheObjectRoot h site cache digest)
  let _ ← path (nodePath root [".complete".toList])
  let code ← path (nodePath root ["code".toList])
  let present ← Prog.lift (readCacheProbe (← query (.cacheProbe cache root)))
  if present then
    match ← (require cache code digest).attempt with
    | .ok () => return true
    | .error .integrity => return false
    | .error e => Prog.raise e
  else return false

/-- A command whose failures are all errors of the distribution. -/
def runStep (reply : Except Raised Completed) : Except Raised Unit :=
  match reply with
  | .error e => .error (if e.isCall then .distribution [] else e)
  | .ok proc => if proc.returncode ≠ 0 then .error (.distribution []) else .ok ()

/-- The `rsync` from the head into the staging directory. -/
def uploadOnce (cache : Node) (stagingCode : String) (checksum : Bool) : M (Nat × Option Nat) := do
  let proc ← Prog.lift (← query (.upload cache stagingCode checksum))
  if proc.returncode ≠ 0 then Prog.raise (.distribution [])
  recordLinkSample "head" cache.name (moved h proc).1
  return moved h proc

/-- `_populate_cache` -/
def populateCache (site : Site) (cache : Node) (digest : String) : M (Nat × Option Nat) := do
  let base ← path (cacheRoot h site cache)
  let final ← path (cacheObjectRoot h site cache digest)
  let staging ← path (nodePath base [".partial-".toList ++ digest.toList])
  let stagingCode ← path (nodePath staging ["code".toList])
  let _ ← path (nodePath staging [".complete".toList])
  Prog.lift (runStep (← query (.prepare cache staging)))
  let transferred ← verifiedTransfer (uploadOnce h cache stagingCode) (require cache stagingCode digest)
  let _ ← path (nodePath base [".corrupt-".toList ++ digest.toList ++ '-' :: (← query .uuid).toList])
  let _ ← path (nodePath staging [".complete.tmp-".toList ++ (← query .uuid).toList])
  Prog.lift (runStep (← query (.publish cache staging final)))
  return transferred

end

/-! ## The last leg -/

section

variable (h : Head)

/-- One attempt of `_fanout` or `_p2p_transfer`, and what follows an exit code other than 0. -/
def relayOnce (once : M (Except Raised Completed)) (failed : Raised → Raised) (done : Nat × Option Nat → M Unit)
    (onFailure : Completed → M (Nat × Option Nat)) : M (Nat × Option Nat) := do
  match ← once with
  | .error e => Prog.raise (if e.isCall then failed e else e)
  | .ok last =>
    if last.returncode = 0 then
      done (moved h last)
      return moved h last
    else onFailure last

/-- The loop of `_fanout` and `_p2p_transfer`, with so many attempts after the next one. -/
def relayLoop (once : M (Except Raised Completed)) (failed : Raised → Raised) (refused : Completed → Raised)
    (done : Nat × Option Nat → M Unit) : Nat → M (Nat × Option Nat)
  | 0 => relayOnce h once failed done fun last => Prog.raise (refused last)
  | left + 1 =>
    relayOnce h once failed done fun last =>
      if retryable h last then relayLoop once failed refused done left else Prog.raise (refused last)

/-- `_fanout` -/
def fanout (site : Site) (cache destination : Node) (digest codeDir : String) (checksum : Bool) :
    M (Nat × Option Nat) := do
  let cacheCode ← path (do nodePath (← cacheObjectRoot h site cache digest) ["code".toList])
  if destination.name ≠ cache.name ∧ destination.lanAddress = none then Prog.raise (.distribution [])
  relayLoop h (query (.fanout cache cacheCode destination codeDir checksum))
    (fun _ => .distribution []) (fun _ => .distribution [])
    (fun report =>
      if destination.name ≠ cache.name then recordLinkSample cache.name destination.name report.1 else return ()) 2

/-- What an error of the command says about a route. A failure to start on the head says nothing. -/
def routeError (e : Raised) : Raised :=
  match e with
  | .remote code detail =>
    match routeFailureKind h (code.getD 255) [] detail with
    | some kind => .route kind
    | none => .distribution []
  | .timeout detail =>
    match routeFailureKind h 255 [] detail with
    | some kind => .route kind
    | none => .distribution []
  | _ => .distribution []

/-- What an exit code says about a route. -/
def routeRefused (last : Completed) : Raised :=
  match routeFailureKind h last.returncode last.stdout last.stderr with
  | some kind => .route kind
  | none => .distribution []

/-- `_p2p_transfer` -/
def p2pTransfer (route : DiscoveredRoute) (destination : Node) (codeDir : String) (checksum : Bool) :
    M (Nat × Option Nat) := do
  let source := route.replica.node
  if source.name = destination.name ∧ route.replica.codeDir = codeDir then return (0, some 0)
  relayLoop h (query (.p2p route destination codeDir checksum)) (routeError h) (routeRefused h)
    (fun report => do
      let site ← Prog.lift ((h.topology.siteFor source).mapError (Raised.config ∘ .topology))
      if site.isSome ∧ source.name ≠ destination.name then recordLinkSample source.name destination.name report.1) 2

/-! ## Replicas -/

/-- `_job_code_dir` -/
def jobCodeDir (jobDir : String) : Except String String :=
  if startsWith jobDir "~/" ∨ startsWith jobDir "/" then nodePath jobDir ["code".toList]
  else if jobDir.toList.any (· ∈ ['\x00', '\n', '\r']) then .error "job directory contains a control character"
  else
    let parts := pathParts jobDir.toList
    if isAbsolute jobDir.toList ∨ parts = [] ∨ ".." ∈ parts then .error "unsafe legacy job directory"
    else .ok ("/".intercalate parts ++ "/code")

/-- The candidate of a registry record, unless its node left the site or seeds nothing. -/
def peerReplica (site : Site) (record : ArtifactReplicaRecord) : Except Raised (Option ArtifactReplica) :=
  match h.topology.node record.node with
  | .error _ => .ok none
  | .ok node =>
    match h.topology.siteFor node with
    | .error e => .error (.config (.topology e))
    | .ok nodeSite =>
      if nodeSite ≠ some site ∨ node.artifactSeed = false then .ok none
      else match jobCodeDir record.jobDir with
        | .error _ => .ok none
        | .ok codeDir => .ok (some ⟨.peer, node, codeDir, record.recordedAt, some record.jobId⟩)

def cacheReplica (cache : Node) (codeDir : String) : ArtifactReplica := ⟨.siteCache, cache, codeDir, ⊤, none⟩

/-- `TopologyDiscovery.replicas`, from the records of the registry. -/
def replicas (site : Site) (digest : String) (records : List ArtifactReplicaRecord) :
    Except Raised (List ArtifactReplica) := do
  let cache ← (h.topology.node site.cacheNode).mapError (Raised.config ∘ .topology)
  let root ← (cacheRoot h site cache).mapError .value
  let codeDir ← (nodePath root [digest.toList, "code".toList]).mapError .value
  let peers ← records.mapM (peerReplica h site)
  .ok (cacheReplica cache codeDir :: peers.filterMap id)

/-- The key of `_ordered_replicas`. -/
def replicaKey (destination : Node) (r : ArtifactReplica) :
    Nat ×ₗ Nat ×ₗ ℚ ×ₗ (WithTop ℚ)ᵒᵈ ×ₗ String ×ₗ String :=
  toLex (if r.node.name = destination.name then 0 else 1, toLex (if r.kind = .peer then 0 else 1,
    toLex (r.node.transferCost, toLex (OrderDual.toDual r.recordedAt, toLex (r.node.name, r.codeDir)))))

/-- `_ordered_replicas` -/
def orderedReplicas (site : Site) (digest : String) (destination : Node) : M (List ArtifactReplica) := do
  let records ← Prog.lift (← query (.records digest site.name))
  let candidates ← Prog.lift (replicas h site digest records)
  return sortBy (replicaKey destination) candidates

/-- What the presence check of a replica says. -/
def readPresent (reply : Except Raised Completed) : Except Raised Bool :=
  match reply with
  | .error e => .error (if e.isCall then .discovery else e)
  | .ok proc =>
    if proc.returncode = 0 then .ok true else if proc.returncode = 1 then .ok false else .error .discovery

/-- `TopologyDiscovery.replica_present` -/
def replicaPresent (replica : ArtifactReplica) : M Bool := do
  let reply ← query (.present replica)
  Prog.lift (readPresent reply)

/-- `TopologyDiscovery.route` -/
def discoverRoute (replica : ArtifactReplica) (destination : Node) : M DiscoveredRoute := do
  if replica.node.name = destination.name then return ⟨replica, none, 0, 0⟩
  let (endpoint, healthy, latencyMs) ← Prog.lift (← query (.directRoute replica.node destination))
  if !healthy then Prog.raise .discovery
  return ⟨replica, some endpoint, latencyMs,
    replica.node.transferCost + destination.transferCost + endpoint.linkCost + latencyMs / 1000 +
      if replica.kind = .peer then 0 else 1⟩

/-- `DiscoveredRoute.artifact_source` -/
def DiscoveredRoute.artifactSource (r : DiscoveredRoute) (site : Site) : ArtifactSource where
  kind := if r.endpoint.isNone then .destination else if r.replica.kind = .siteCache then .siteCache else .peer
  node := r.replica.node.name
  site := some site.name
  cacheHit := r.replica.kind = .siteCache
  path := some r.replica.codeDir
  routeCost := r.score
  probeLatencyMs := some r.probeLatencyMs

/-- `_retain_peer_source`: the job lock of a peer is held, and its row and digest are checked again. -/
def retainPeerSource {α : Type} (replica : ArtifactReplica) (digest : String) (body : M α) : M α :=
  match replica.kind, replica.jobId with
  | .peer, some job => withLock (.job job) do
    let current ← Prog.lift (← query (.load job))
    let same := current.any fun row =>
      row.node = replica.node.name && row.snapshotSha256 = some digest &&
        String.ofList (Dt.Layout.rstripSlash row.jobDir.toList) ++ "/code" = replica.codeDir
    if !same then Prog.raise (.distribution [])
    require replica.node replica.codeDir digest
    body
  | _, _ => body

/-- A state of the discovery that is kept as well as possible. -/
def settle (reply : Except Raised Unit) : Except Raised Unit :=
  match reply with
  | .error .discovery => .ok ()
  | other => other

/-- What `_transfer_verified_routes` returns, and the attempts it adds. -/
structure RoutesOutcome where
  selected : Option DiscoveredRoute
  bytes : Nat
  files : Option Nat
  failures : List Raised
  attempts : List TransferFailure

def attemptOn (route : DiscoveredRoute) (destination : Node) (kind : Option FailureKind) : TransferFailure :=
  ⟨route.replica.node.name, destination.name, route.replica.kind, kind⟩

/-- `_transfer_verified_routes`, after the routes that have failed. -/
def transferVerifiedRoutes (digest : String) (destination : Node) (codeDir : String) :
    List DiscoveredRoute → List Raised → List TransferFailure → M RoutesOutcome
  | [], failures, attempts => return ⟨none, 0, none, failures, attempts⟩
  | route :: routes, failures, attempts => do
    let leg := retainPeerSource route.replica digest
      (verifiedTransfer (p2pTransfer h route destination codeDir) (require destination codeDir digest))
    match ← leg.attempt with
    | .ok (bytes, files) =>
      Prog.lift (settle (← query (.transferSuccess route)))
      return ⟨some route, bytes, files, failures, attempts⟩
    | .error (.route kind) =>
      Prog.lift (settle (← query (.transferFailure route kind)))
      transferVerifiedRoutes digest destination codeDir routes (failures ++ [.route kind])
        (attempts ++ [attemptOn route destination (some kind)])
    | .error e =>
      if e.isDistribution then
        Prog.lift (settle (← query (.releaseReservation route)))
        transferVerifiedRoutes digest destination codeDir routes (failures ++ [e])
          (attempts ++ [attemptOn route destination none])
      else Prog.raise e

/-- `_LazyTransferOutcome`, and the attempts. -/
structure LazyOutcome where
  selected : Option DiscoveredRoute := none
  bytes : Nat := 0
  files : Option Nat := none
  present : Nat := 0
  corrupt : Nat := 0
  unavailable : List Raised := []
  failures : List Raised := []
  attempts : List TransferFailure := []

/-- `_transfer_lazy_replicas` on the ordered candidates: the rest of the loop. -/
def transferLazyReplicas (digest : String) (destination : Node) (codeDir : String) :
    List ArtifactReplica → LazyOutcome → M LazyOutcome
  | [], acc => return acc
  | replica :: rest, acc => do
    match ← (replicaPresent replica).attempt with
    | .error e =>
      -- the digest may be there, so this counts as present
      if e.isDiscovery then
        transferLazyReplicas digest destination codeDir rest
          { acc with present := acc.present + 1, unavailable := acc.unavailable ++ [e] }
      else Prog.raise e
    | .ok false => transferLazyReplicas digest destination codeDir rest acc
    | .ok true =>
      let acc := { acc with present := acc.present + 1 }
      match ← (discoverRoute replica destination).attempt with
      | .error e =>
        if e.isDiscovery then
          transferLazyReplicas digest destination codeDir rest { acc with unavailable := acc.unavailable ++ [e] }
        else Prog.raise e
      | .ok route =>
        match ← (require replica.node replica.codeDir digest).attempt with
        | .error .integrity =>
          transferLazyReplicas digest destination codeDir rest { acc with corrupt := acc.corrupt + 1 }
        | .error e =>
          if e.isDistribution then
            transferLazyReplicas digest destination codeDir rest { acc with unavailable := acc.unavailable ++ [e] }
          else Prog.raise e
        | .ok () =>
          let out ← transferVerifiedRoutes h digest destination codeDir [route] [] acc.attempts
          let acc := { acc with failures := acc.failures ++ out.failures, attempts := out.attempts }
          match out.selected with
          | some selected => return { acc with selected := some selected, bytes := out.bytes, files := out.files }
          | none => transferLazyReplicas digest destination codeDir rest acc

/-! ## One distribution -/

/-- `DistributionResult`, without the times. -/
structure DistributionResult where
  plan : TransferPlan
  cacheHit : Bool
  crossSiteBytes : Nat
  siteBytes : Nat
  transferredFiles : Option Nat
  fallbackDirect : Bool := false
  replicaHit : Bool := false
  failedAttempts : List TransferFailure := []
  deriving DecidableEq

/-- `_destination_local_hit` -/
def destinationLocalHit (digest : String) (site : Site) (destination : Node) (codeDir : String) :
    M (Option DistributionResult) := do
  match ← (remoteDigest destination codeDir).attempt with
  | .error e => if e.isDistribution then return none else Prog.raise e
  | .ok observed =>
    if observed ≠ digest then return none
    let route : DiscoveredRoute := ⟨⟨.destination, destination, codeDir, 0, none⟩, none, 0, 0⟩
    let plan ← Prog.lift ((h.topology.planReplica digest destination (route.artifactSource site) none (some "local")
      false).mapError .config)
    return some
      { plan := plan, cacheHit := false, crossSiteBytes := 0, siteBytes := 0, transferredFiles := some 0
        replicaHit := true }

/-- The part of `_topology_aware_transfer` that decides about the upload into the site: its bytes and files, and
whether there was one. -/
def serveFromCache (site : Site) (cache : Node) (digest : String) (outcome : LazyOutcome) :
    M (Nat × Option Nat × Bool) := do
  if outcome.failures ≠ [] then Prog.raise (.distribution outcome.attempts)
  if outcome.unavailable ≠ [] then
    if !(← cacheAvailable h site cache digest) then Prog.raise (.distribution [])
  withLock (.site site.name digest) do
    if ← cacheAvailable h site cache digest then return (0, outcome.files, false)
    let (bytes, files) ← populateCache h site cache digest
    return (bytes, files, true)

/-- The plan and the result of a route that served. -/
def topologyResult (digest : String) (site : Site) (destination : Node) (selected : DiscoveredRoute)
    (crossSiteBytes siteBytes : Nat) (files : Option Nat) (cold : Bool) (attempts : List TransferFailure) :
    M DistributionResult := do
  let plan ← Prog.lift ((h.topology.planReplica digest destination (selected.artifactSource site)
    (selected.endpoint.map fun e => (e.destination, e.port)) (some ((selected.endpoint.map (·.origin)).getD "local"))
    cold).mapError .config)
  return { plan := plan, cacheHit := !cold && selected.replica.kind = .siteCache, crossSiteBytes := crossSiteBytes
           siteBytes := siteBytes, transferredFiles := files, replicaHit := !cold, failedAttempts := attempts }

/-- `_topology_aware_transfer` -/
def topologyAwareTransfer (digest : String) (site : Site) (destination : Node) (codeDir : String) :
    M DistributionResult := do
  if let some hit ← destinationLocalHit h digest site destination codeDir then return hit
  let cache ← Prog.lift ((h.topology.node site.cacheNode).mapError (Raised.config ∘ .topology))
  let candidates ← orderedReplicas h site digest destination
  let outcome ← transferLazyReplicas h digest destination codeDir candidates {}
  match outcome.selected with
  | some selected =>
    topologyResult h digest site destination selected 0 outcome.bytes outcome.files false outcome.attempts
  | none =>
    let (crossSiteBytes, files, cold) ← serveFromCache h site cache digest outcome
    let code ← path (do nodePath (← cacheObjectRoot h site cache digest) ["code".toList])
    let route ← (discoverRoute (cacheReplica cache code) destination).handle fun e =>
      Prog.raise (if e = .discovery then .distribution [] else e)
    let out ← transferVerifiedRoutes h digest destination codeDir [route] [] outcome.attempts
    match out.selected with
    | none => Prog.raise (.distribution out.attempts)
    | some selected =>
      topologyResult h digest site destination selected crossSiteBytes out.bytes (files.or out.files) cold out.attempts

/-- `_ensure_topology_aware` -/
def ensureTopologyAware (digest : String) (site : Site) (destination : Node) (codeDir : String) :
    M DistributionResult :=
  (topologyAwareTransfer h digest site destination codeDir).ensuring do
    Prog.lift (← query .releaseCarried)

/-- The branch of `ensure` for `site-cache-first`. -/
def ensureSiteCacheFirst (digest : String) (site : Site) (destination : Node) (codeDir : String) :
    M DistributionResult := do
  let cache ← Prog.lift ((h.topology.node site.cacheNode).mapError (Raised.config ∘ .topology))
  let (hit, plan, bytes, files, siteBytes, siteFiles) ←
    withLock (.destination site.name digest destination.name) do
      let (hit, plan, bytes, files) ← withLock (.site site.name digest) do
        let hit ← cacheAvailable h site cache digest
        let plan ← Prog.lift ((h.topology.plan digest destination hit).mapError (Raised.config ∘ .topology))
        if hit then return (hit, plan, 0, none)
        let (bytes, files) ← populateCache h site cache digest
        return (hit, plan, bytes, files)
      let (siteBytes, siteFiles) ← verifiedTransfer (fanout h site cache destination digest codeDir)
        (require destination codeDir digest)
      return (hit, plan, bytes, files, siteBytes, siteFiles)
  return { plan := plan, cacheHit := hit, crossSiteBytes := bytes, siteBytes := siteBytes
           transferredFiles := files.or siteFiles, replicaHit := hit }

/-- The `rsync` of `_direct_fallback`. -/
def directOnce (destination : Node) (codeDir : String) (checksum : Bool) : M (Nat × Option Nat) := do
  let proc ← Prog.lift (← query (.direct destination codeDir checksum))
  if proc.returncode ≠ 0 then Prog.raise (.distribution [])
  recordLinkSample "head" destination.name (moved h proc).1
  return moved h proc

/-- `_direct_fallback` -/
def directFallback (digest : String) (destination : Node) (codeDir : String) : M DistributionResult := do
  let (bytes, files) ← verifiedTransfer (directOnce h destination codeDir) (require destination codeDir digest)
  return { plan := ⟨digest, destination.name, destination.site, .ofHead, HeadConfig.directLegs destination⟩
           cacheHit := false, crossSiteBytes := bytes, siteBytes := 0, transferredFiles := files
           fallbackDirect := true }

/-- The `try` block of `ensure`. -/
def ensureByPolicy (digest : String) (destination : Node) (codeDir : String) : M DistributionResult := do
  if hexOf 64 digest = false then Prog.raise (.distribution [])
  match ← Prog.lift ((h.topology.siteFor destination).mapError (Raised.config ∘ .topology)) with
  | none => Prog.raise (.distribution [])
  | some site =>
    match site.artifactPolicy with
    | .direct => Prog.raise (.distribution [])
    | .topologyAware =>
      withLock (.destination site.name digest destination.name) (ensureTopologyAware h digest site destination codeDir)
    | .siteCacheFirst => ensureSiteCacheFirst h digest site destination codeDir

/-- The site whose lock the fallback takes, when the configuration asks for one. -/
def fallbackSite (digest : String) (destination : Node) (e : Raised) : Option Site :=
  match h.topology.siteFor destination with
  | .ok (some site) => if e.isDistribution ∧ site.fallbackDirect ∧ hexOf 64 digest then some site else none
  | _ => none

/-- `TransferExecutor.ensure` -/
def ensure (digest : String) (destination : Node) (codeDir : String) : M DistributionResult := do
  match ← (ensureByPolicy h digest destination codeDir).attempt with
  | .ok result =>
    Prog.lift (← query (.journal true))
    return result
  | .error e =>
    match fallbackSite h digest destination e with
    | none =>
      Prog.lift (← query (.journal false))
      Prog.raise e
    | some site =>
      match ← (withLock (.destination site.name digest destination.name)
        (directFallback h digest destination codeDir)).attempt with
      | .ok result =>
        Prog.lift (← query (.journal true))
        return { result with failedAttempts := e.failedAttempts }
      | .error fallbackError =>
        Prog.lift (← query (.journal false))
        Prog.raise fallbackError

end

end Dt.Distribution
