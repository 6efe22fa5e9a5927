import Mathlib.Data.Prod.Lex
import Mathlib.Data.String.Basic
import Mathlib.Order.WithBot
import Dt.Jobs.ReplicaIndex
import Dt.Layout.Stores
import Dt.Lib.Prog
import Dt.Lib.SortedBy
import Dt.Topology.Replica

/-!
# What the executor of transfers asks for

`TransferExecutor` runs commands on nodes, takes file locks, reads the registry and the route discovery, and keeps
their state. Each of these is a question here, and the answer is free: a command can return anything, fail to return,
or raise. The texts of the commands are left out, and so are the clocks.
-/

namespace Dt.Distribution

open Dt.Lib Dt.Topology
open Dt.Jobs (JobEntry)
open Dt.Jobs.ReplicaIndex (ArtifactReplicaRecord)

/-- The kinds of `classify_rsync_failure`. -/
inductive FailureKind where
  | deadline | destination | hostKey | configuration | negotiation | authentication | space | permission | timeout
  | brokenPipe | sourceChanged | unreachable | transport | data
  deriving DecidableEq

/-- `TransferFailure`; a failure that is not of the route is one of the artifact. -/
structure TransferFailure where
  source : String
  destination : String
  sourceKind : SourceKind
  failureKind : Option FailureKind
  deriving DecidableEq

/-- What is raised, with the data that a handler reads. -/
inductive Raised where
  | distribution (failedAttempts : List TransferFailure)
  | integrity
  | route (kind : FailureKind)
  | discovery
  | config (e : PlanError)
  | value (message : String)
  | remote (exitCode : Option Int) (detail : List Char)
  | timeout (detail : List Char)
  | os (detail : List Char)
  | linkMetrics
  | other
  deriving DecidableEq

/-- `isinstance(exc, DistributionError)` -/
def Raised.isDistribution : Raised → Bool
  | .distribution _ | .integrity | .route _ => true
  | _ => false

/-- `exc.failed_attempts` -/
def Raised.failedAttempts : Raised → List TransferFailure
  | .distribution attempts => attempts
  | _ => []

/-- `except (TopologyDiscoveryError, OSError)` -/
def Raised.isDiscovery : Raised → Bool
  | .discovery | .os _ => true
  | _ => false

/-- `except (RemoteError, subprocess.TimeoutExpired, OSError)` -/
def Raised.isCall : Raised → Bool
  | .remote .. | .timeout _ | .os _ => true
  | _ => false

/-- `subprocess.CompletedProcess` -/
structure Completed where
  returncode : Int
  stdout : List Char
  stderr : List Char
  deriving DecidableEq

/-- `ArtifactReplica`; the site cache was recorded at infinity. -/
structure ArtifactReplica where
  kind : SourceKind
  node : Node
  codeDir : String
  recordedAt : WithTop ℚ
  jobId : Option String := none
  deriving DecidableEq

/-- `DirectEndpoint` -/
structure DirectEndpoint where
  destination : String
  port : Int
  origin : String
  linkCost : ℚ
  deriving DecidableEq

/-- `DiscoveredRoute` -/
structure DiscoveredRoute where
  replica : ArtifactReplica
  endpoint : Option DirectEndpoint
  probeLatencyMs : ℚ
  score : ℚ
  deriving DecidableEq

/-- The file locks: of a destination object, of the one upload into a site, and of a job. -/
inductive Lock where
  | destination (site digest node : String)
  | site (site digest : String)
  | job (id : String)
  deriving DecidableEq

inductive Call where
  | lock (l : Lock)
  | unlock (l : Lock)
  /-- the digest program on a code directory -/
  | digest (node : Node) (codeDir : String)
  /-- the classification of a cache object -/
  | cacheProbe (node : Node) (root : String)
  | prepare (node : Node) (staging : String)
  /-- `rsync` from the head into the staging directory -/
  | upload (node : Node) (stagingCode : String) (checksum : Bool)
  /-- the staging directory becomes the cache object -/
  | publish (node : Node) (staging final : String)
  | fanout (cache : Node) (cacheCode : String) (destination : Node) (codeDir : String) (checksum : Bool)
  | p2p (route : DiscoveredRoute) (destination : Node) (codeDir : String) (checksum : Bool)
  /-- `rsync` from the head to the destination -/
  | direct (destination : Node) (codeDir : String) (checksum : Bool)
  | present (replica : ArtifactReplica)
  /-- `artifact_replica_records` -/
  | records (digest site : String)
  /-- `_direct_route_probe` -/
  | directRoute (source destination : Node)
  | load (job : String)
  | transferFailure (route : DiscoveredRoute) (kind : FailureKind)
  | transferSuccess (route : DiscoveredRoute)
  | releaseReservation (route : DiscoveredRoute)
  | releaseCarried
  | linkSample (source destination : String) (bytes : Nat)
  | uuid
  | journal (succeeded : Bool)
  deriving DecidableEq

/-- The answers to a question. -/
@[reducible] def Answer : Call → Type
  | .lock _ => Except Raised Unit
  | .unlock _ => Unit
  | .digest .. | .cacheProbe .. | .prepare .. | .upload .. | .publish .. | .fanout .. | .p2p .. | .direct ..
  | .present _ => Except Raised Completed
  | .records .. => Except Raised (List ArtifactReplicaRecord)
  -- the endpoint, whether it is healthy, and the latency
  | .directRoute .. => Except Raised (DirectEndpoint × Bool × ℚ)
  | .load _ => Except Raised (Option JobEntry)
  | .transferFailure .. | .transferSuccess _ | .releaseReservation _ | .releaseCarried | .linkSample ..
  | .journal _ => Except Raised Unit
  | .uuid => String

abbrev M (α : Type) : Type := Prog Call Answer Raised α

def query (c : Call) : M (Answer c) := Prog.call c

@[simp] theorem asks_query {P : Call → Prop} {c : Call} : (query c).Asks P ↔ P c := Prog.asks_call

@[simp] theorem ensures_query {c : Call} {past : List (Exchange Call Answer)}
    {post : List (Exchange Call Answer) → Except Raised (Answer c) → Prop} :
    (query c).Ensures past post ↔ ∀ a, post (⟨c, a⟩ :: past) (.ok a) := Prog.ensures_call

theorem asks_lift_query {α : Type} {P : Call → Prop} {c : Call} {f : Answer c → Except Raised α} (hc : P c) :
    (do Prog.lift (f (← query c)) : M α).Asks P :=
  (asks_query.mpr hc).bind fun _ => Prog.asks_lift

abbrev History : Type := List (Exchange Call Answer)

/-- The parts of the head that the executor reads, and the functions on texts it leaves to others:
`str.lower` and the two counters of an `rsync` report. -/
structure Head where
  topology : HeadConfig
  nodeRoot : Node → Dt.Layout.NodeRoot
  lower : List Char → List Char
  transferredSize : List Char → Option Nat
  transferredFiles : List Char → Option Nat

end Dt.Distribution
