import Dt.Topology.Planner

/-!
# Plans for a replica

`TransferPlanner.plan_replica` plans the legs from a source that was found inside of the site. After a cold miss the
first leg is the upload from the head to that source.
-/

namespace Dt.Topology

inductive PlanError where
  | topology (e : TopologyError)
  | notTopologyAware (node : String)
  | outside (source site : String)
  | noEndpoint (source destination : String)
  deriving DecidableEq

namespace HeadConfig

variable (cfg : HeadConfig)

/-- The last leg of `plan_replica`. -/
def replicaLeg (source : ArtifactSource) (sourceNode destination : Node) (endpoint : Option (String × Int))
    (endpointOrigin : Option String) : Except PlanError TransferLeg :=
  if sourceNode.name = destination.name then
    .ok { source := sourceNode.name, destination := destination.name, network := .isLocal
          endpointOrigin := some "local", cost := source.routeCost }
  else match endpoint with
    | none => .error (.noEndpoint source.node destination.name)
    | some (address, port) =>
      .ok { source := sourceNode.name, destination := destination.name, network := .siteLan
            destinationAddress := some address, destinationPort := some port
            endpointOrigin := endpointOrigin, cost := source.routeCost }

/-- `TransferPlanner.plan_replica`; the endpoint has an address and a port. -/
def planReplica (digest : String) (destination : Node) (source : ArtifactSource) (endpoint : Option (String × Int))
    (endpointOrigin : Option String) (coldCacheUpload : Bool) : Except PlanError TransferPlan := do
  let some site ← (cfg.siteFor destination).mapError .topology
    | .error (.notTopologyAware destination.name)
  if site.artifactPolicy ≠ .topologyAware then .error (.notTopologyAware destination.name)
  let sourceNode ← (cfg.node source.node).mapError .topology
  let sourceSite ← (cfg.siteFor sourceNode).mapError .topology
  if sourceSite ≠ some site then .error (.outside source.node site.name)
  let upload := if coldCacheUpload then uploadLegs sourceNode false else []
  let leg ← replicaLeg source sourceNode destination endpoint endpointOrigin
  .ok ⟨digest, destination.name, some site.name,
    if coldCacheUpload then
      { ArtifactSource.ofHead with routeCost := source.routeCost, probeLatencyMs := source.probeLatencyMs }
    else source, upload ++ [leg]⟩

end HeadConfig

end Dt.Topology
