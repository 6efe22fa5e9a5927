import Dt.Topology.Config

/-!
# Transfer plans

`TransferPlanner.plan` chooses the legs on which a digest reaches a node. Under `site-cache-first`
the digest crosses into the site at most once, to the cache node, and goes on over the site LAN. The
planner asks a LAN address of every destination but the cache node; the parser asks it of the
members that are not local.
-/

namespace Dt.Topology

inductive SourceKind where
  | head | siteCache | peer | destination
  deriving DecidableEq

inductive NetworkDomain where
  | isLocal | crossSite | siteLan
  deriving DecidableEq

structure ArtifactSource where
  kind : SourceKind
  node : String
  site : Option String
  cacheHit : Bool
  path : Option String := none
  routeCost : ℚ := 1
  probeLatencyMs : Option ℚ := none
  deriving DecidableEq

structure TransferLeg where
  source : String
  destination : String
  network : NetworkDomain
  sourceAddress : Option String := none
  destinationAddress : Option String := none
  destinationPort : Option Int := none
  endpointOrigin : Option String := none
  cost : ℚ := 1
  deriving DecidableEq

structure TransferPlan where
  digest : String
  destination : String
  destinationSite : Option String
  source : ArtifactSource
  legs : List TransferLeg
  deriving DecidableEq

inductive TopologyError where
  | unknownNode (name : String)
  | unknownSite (node site : String)
  | noLanAddress (site node : String)
  deriving DecidableEq

/-- The head as the source of a digest. -/
def ArtifactSource.ofHead : ArtifactSource := ⟨.head, "head", none, false, none, 1, none⟩

/-- The network of a leg from the head. -/
def headNetwork (node : Node) : NetworkDomain := if node.isLocal then .isLocal else .crossSite

namespace HeadConfig

variable (cfg : HeadConfig)

/-- `TopologyRegistry.node` -/
def node (name : String) : Except TopologyError Node :=
  match cfg.nodes.find? fun node => node.name = name with
  | none => .error (.unknownNode name)
  | some node => .ok node

/-- `TopologyRegistry.site_for` -/
def siteFor (node : Node) : Except TopologyError (Option Site) :=
  match node.site with
  | none => .ok none
  | some name =>
    match cfg.sites.find? fun site => site.name = name with
    | none => .error (.unknownSite node.name name)
    | some site => .ok (some site)

/-- `ArtifactSourceResolver.resolve` -/
def resolve (destination : Node) (siteCacheAvailable : Bool) :
    Except TopologyError ArtifactSource :=
  match cfg.siteFor destination with
  | .error e => .error e
  | .ok none => .ok .ofHead
  | .ok (some site) =>
    if site.artifactPolicy ≠ .siteCacheFirst ∨ siteCacheAvailable = false then .ok .ofHead
    else .ok ⟨.siteCache, site.cacheNode, some site.name, true, none, 1, none⟩

/-- `TransferPlan.direct`, and the plan of the other policies. -/
def directLegs (destination : Node) : List TransferLeg :=
  [{ source := "head", destination := destination.name, network := headNetwork destination
     cost := destination.transferCost }]

/-- The leg from the head into the site. -/
def uploadLegs (cache : Node) (siteCacheAvailable : Bool) : List TransferLeg :=
  if siteCacheAvailable then []
  else [{ source := "head", destination := cache.name, network := headNetwork cache
          cost := cache.transferCost }]

/-- `TransferPlanner.plan` -/
def plan (digest : String) (destination : Node) (siteCacheAvailable : Bool) :
    Except TopologyError TransferPlan :=
  match cfg.siteFor destination, cfg.resolve destination siteCacheAvailable with
  | .error e, _ => .error e
  | .ok _, .error e => .error e
  | .ok none, .ok source => .ok ⟨digest, destination.name, none, source, directLegs destination⟩
  | .ok (some site), .ok source =>
    if site.artifactPolicy ≠ .siteCacheFirst then
      .ok ⟨digest, destination.name, some site.name, source, directLegs destination⟩
    else match cfg.node site.cacheNode with
      | .error e => .error e
      | .ok cache =>
        let upload := uploadLegs cache siteCacheAvailable
        let from' := if siteCacheAvailable then source else .ofHead
        if destination.name ≠ cache.name then
          match destination.lanAddress with
          | none => .error (.noLanAddress site.name destination.name)
          | some address =>
            .ok ⟨digest, destination.name, some site.name, from', upload ++
              [{ source := cache.name, destination := destination.name, network := .siteLan
                 destinationAddress := some address, destinationPort := some destination.lanPort
                 cost := destination.transferCost }]⟩
        else if upload ≠ [] then
          .ok ⟨digest, destination.name, some site.name, from', upload ++
            [{ source := cache.name, destination := destination.name, network := .isLocal
               cost := destination.transferCost }]⟩
        else .ok ⟨digest, destination.name, some site.name, from', upload⟩

end HeadConfig

/-! ## The legs of a plan -/

/-- The legs lead from one node to another. -/
def IsPath : String → List TransferLeg → String → Prop
  | a, [], b => a = b
  | a, leg :: legs, b => leg.source = a ∧ IsPath leg.destination legs b

def crossings (legs : List TransferLeg) : Nat :=
  legs.countP fun leg => leg.network = .crossSite

/-- What a `site-cache-first` plan promises. -/
structure GoodPlan (destination : Node) (siteCacheAvailable : Bool) (plan : TransferPlan) : Prop where
  reaches : plan.destination = destination.name
  path : IsPath plan.source.node plan.legs destination.name
  single : crossings plan.legs ≤ 1
  inside : siteCacheAvailable = true → crossings plan.legs = 0

variable {cfg : HeadConfig} {destination cache : Node} {site : Site}

theorem crossings_upload (cache : Node) (available : Bool) :
    crossings (HeadConfig.uploadLegs cache available) ≤ 1 ∧
      (available = true → crossings (HeadConfig.uploadLegs cache available) = 0) := by
  cases available with
  | true => exact ⟨Nat.zero_le _, fun _ => rfl⟩
  | false => exact ⟨List.countP_le_length, fun h => nomatch h⟩

theorem crossings_concat {legs : List TransferLeg} {leg : TransferLeg}
    (h : leg.network ≠ .crossSite) : crossings (legs ++ [leg]) = crossings legs := by
  simp [crossings, h]

/-- A leg that does not cross may follow the upload. -/
theorem goodPlan_concat {digest : String} {available : Bool} {source : ArtifactSource}
    {leg : TransferLeg} (hleg : leg.network ≠ .crossSite) (hfrom : leg.source = cache.name)
    (hto : leg.destination = destination.name)
    (hsource : source.node = if available then cache.name else "head") :
    GoodPlan destination available
      ⟨digest, destination.name, some site.name, source,
        HeadConfig.uploadLegs cache available ++ [leg]⟩ := by
  refine ⟨rfl, ?_, ?_, fun h => ?_⟩
  · cases available with
    | true => exact ⟨hfrom.trans hsource.symm, hto⟩
    | false => exact ⟨hsource.symm, hfrom, hto⟩
  · rw [crossings_concat hleg]
    exact (crossings_upload cache available).1
  · rw [crossings_concat hleg]
    exact (crossings_upload cache available).2 h

/-- The site of a node of an accepted configuration, and its cache node. -/
theorem siteFor_of_wellFormed (hcfg : cfg.WellFormed) (hd : destination ∈ cfg.nodes)
    (hsite : cfg.siteFor destination = .ok (some site)) :
    site ∈ cfg.sites ∧ destination.name ∈ site.nodes ∧
      ∃ cache ∈ cfg.nodes, cfg.node site.cacheNode = .ok cache ∧ cache.name = site.cacheNode := by
  unfold HeadConfig.siteFor at hsite
  split at hsite
  · cases hsite
  · rename_i name hname
    split at hsite
    · cases hsite
    · rename_i found hfind
      cases hsite
      have hmem := List.mem_of_find?_eq_some hfind
      have hfound : site.name = name := by simpa using List.find?_some hfind
      obtain ⟨s, hs, hsname, hmember⟩ := hcfg.homed destination hd name hname
      have hsame : s = site :=
        List.inj_on_of_nodup_map hcfg.siteNames hs hmem (hsname.trans hfound.symm)
      refine ⟨hmem, hsame ▸ hmember, ?_⟩
      obtain ⟨n, hn, hnname⟩ := List.mem_map.mp (hcfg.known site hmem _ (hcfg.cache site hmem))
      cases hcache : cfg.nodes.find? fun node => node.name = site.cacheNode with
      | none =>
        exact absurd (List.find?_eq_none.mp hcache n hn) (by simp [hnname])
      | some c =>
        refine ⟨c, List.mem_of_find?_eq_some hcache, ?_, by simpa using List.find?_some hcache⟩
        rw [HeadConfig.node, hcache]

/-- A node without a LAN address that the parser accepts is local, or the cache node. -/
theorem local_of_missing (hcfg : cfg.WellFormed) (hd : destination ∈ cfg.nodes)
    (hsite : cfg.siteFor destination = .ok (some site))
    (hpolicy : site.artifactPolicy = .siteCacheFirst)
    (hlan : destination.lanAddress = none) (hne : destination.name ≠ site.cacheNode) :
    destination.isLocal = true := by
  obtain ⟨hs, hmember, -⟩ := siteFor_of_wellFormed hcfg hd hsite
  rcases hcfg.reach site hs hpolicy destination hd hmember hne with hlocal | hsome
  · exact hlocal
  · rw [hlan] at hsome
    cases hsome

/-- For every node of a `site-cache-first` site of an accepted configuration, the planner gives a
good plan exactly when the node is not a local member without a LAN address beside the cache. -/
theorem plan_total_iff {rawNodes : List RawNode} {rawSites : Option (List RawSite)}
    (hparse : parseTopology rawNodes rawSites = .ok cfg) (hd : destination ∈ cfg.nodes)
    (hsite : cfg.siteFor destination = .ok (some site))
    (hpolicy : site.artifactPolicy = .siteCacheFirst) (digest : String) (available : Bool) :
    (∃ plan, cfg.plan digest destination available = .ok plan ∧
        GoodPlan destination available plan) ↔
      ¬ (destination.isLocal = true ∧ destination.lanAddress = none ∧
        destination.name ≠ site.cacheNode) := by
  have hcfg := parseTopology_wellFormed hparse
  obtain ⟨-, -, cache, -, hcache, hname⟩ := siteFor_of_wellFormed hcfg hd hsite
  have hresolve : cfg.resolve destination available = .ok (if available then
      ⟨.siteCache, site.cacheNode, some site.name, true, none, 1, none⟩ else .ofHead) := by
    unfold HeadConfig.resolve
    rw [hsite]
    cases available <;> simp [hpolicy]
  have hsource : ∀ s, s = (if available = true then
      (if available = true then (⟨.siteCache, site.cacheNode, some site.name, true, none, 1, none⟩ :
        ArtifactSource) else .ofHead) else .ofHead) →
      s.node = if available then cache.name else "head" := by
    rintro s rfl
    cases available
    · rfl
    · exact hname.symm
  unfold HeadConfig.plan
  simp only [hsite, hresolve, hpolicy, ne_eq, not_true_eq_false, if_false, hcache, hname]
  constructor
  · rintro ⟨plan, hplan, -⟩ ⟨-, hlan, hne⟩
    rw [if_pos hne, hlan] at hplan
    cases hplan
  · intro hreach
    by_cases hne : destination.name = site.cacheNode
    · rw [if_neg (not_not.mpr hne)]
      split
      · exact ⟨_, rfl, goodPlan_concat (by simp) hname.symm rfl (hsource _ rfl)⟩
      · rename_i hempty
        refine ⟨_, rfl, rfl, ?_, (crossings_upload cache available).1,
          (crossings_upload cache available).2⟩
        cases available with
        | true => exact hne.symm
        | false => exact absurd (not_not.mp hempty) (List.cons_ne_nil _ _)
    · rw [if_pos hne]
      cases hlan : destination.lanAddress with
      | none => exact absurd ⟨local_of_missing hcfg hd hsite hpolicy hlan hne, hlan, hne⟩ hreach
      | some address =>
        exact ⟨_, rfl, goodPlan_concat (by simp) hname.symm rfl (hsource _ rfl)⟩

/-- A head that is a member of the site whose cache is on `gpu-1`. -/
def labNodes : List RawNode :=
  [{ name := "gpu-1" }, { name := "gpu-2", lanAddress := some "10.0.0.2" },
    { name := "here", isLocal := true }]

def labSites : List RawSite :=
  [{ name := "lab", nodes := ["gpu-1", "gpu-2", "here"], gateway := "gpu-1"
     artifactPolicy := some "site-cache-first" }]

def labSite : Site :=
  ⟨"lab", ["gpu-1", "gpu-2", "here"], "gpu-1", "gpu-1", .siteCacheFirst, none, false, 2, 60, 900, none⟩

def gpu1 : Node := { name := "gpu-1", site := some "lab" }
def gpu2 : Node := { name := "gpu-2", site := some "lab", lanAddress := some "10.0.0.2" }
def here : Node := { name := "here", isLocal := true, site := some "lab" }

def lab : HeadConfig := ⟨[gpu1, gpu2, here], [labSite]⟩

theorem lab_parsed : parseTopology labNodes (some labSites) = .ok lab := by decide +kernel

theorem plan_total_gpu2 :
    ∃ plan, lab.plan "digest" gpu2 false = .ok plan ∧ GoodPlan gpu2 false plan :=
  (plan_total_iff lab_parsed (by decide) (by decide : lab.siteFor gpu2 = .ok (some labSite)) rfl
    "digest" false).mpr (by decide)

/-- The parser accepts a local member without a LAN address, and the planner refuses it. -/
theorem local_member_unplanned :
    ¬ ∀ (rawNodes : List RawNode) (rawSites : Option (List RawSite)) (cfg : HeadConfig)
        (destination : Node) (site : Site) (available : Bool),
      parseTopology rawNodes rawSites = .ok cfg → destination ∈ cfg.nodes →
      cfg.siteFor destination = .ok (some site) → site.artifactPolicy = .siteCacheFirst →
      ∃ plan, cfg.plan "digest" destination available = .ok plan ∧
        GoodPlan destination available plan := by
  intro h
  obtain ⟨plan, hplan, -⟩ := h _ _ lab here labSite true lab_parsed (by decide) (by decide) rfl
  exact absurd hplan (by
    have herror : lab.plan "digest" here true = .error (.noLanAddress "lab" "here") := by decide
    rw [herror]
    exact fun h => nomatch h)

end Dt.Topology
