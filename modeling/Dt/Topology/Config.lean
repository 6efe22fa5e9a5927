import Mathlib.Data.List.Nodup
import Mathlib.Data.List.Lookmap
import Dt.Lib.Fallible
import Dt.Layout
import Dt.Jobs.Validate

/-!
# Nodes and sites of a head

The parts of the configuration parser that fix the topology. The raw values are those of the YAML
document after the checks of their types; `none` is a key that is not there. `_parse_sites` assigns
every node to one site and checks what the transfer policies need.
-/

namespace Dt.Topology

open Dt.Lib
open Dt.Jobs (isConfigId)
open Dt.Layout (normalizeNodeRoot)

/-- `config.Node` -/
structure Node where
  name : String
  isLocal : Bool := false
  root : Option String := none
  probeTimeout : ℚ := 15
  site : Option String := none
  lanAddress : Option String := none
  lanPort : Int := 22
  artifactSeed : Bool := true
  transferCost : ℚ := 1
  drained : Bool := false
  deriving DecidableEq

/-- `SITE_ARTIFACT_POLICIES` -/
inductive ArtifactPolicy where
  | direct | siteCacheFirst | topologyAware
  deriving DecidableEq

/-- `config.Site` -/
structure Site where
  name : String
  nodes : List String
  gateway : String
  cacheNode : String
  artifactPolicy : ArtifactPolicy
  cacheRoot : Option String
  fallbackDirect : Bool
  routeCircuitFailures : Int
  routeCircuitCooldown : ℚ
  routeCircuitMaxCooldown : ℚ
  bwlimitKbps : Option Int
  deriving DecidableEq

/-- An entry of `nodes`; a plain string has the defaults. -/
structure RawNode where
  name : String
  isLocal : Bool := false
  root : Option String := none
  probeTimeout : Option ℚ := none
  site : Option String := none
  lanAddress : Option String := none
  lanPort : Option Int := none
  artifactSeed : Option Bool := none
  transferCost : Option ℚ := none
  drained : Bool := false

/-- An entry of `sites`. -/
structure RawSite where
  name : String
  nodes : List String
  gateway : String
  cacheNode : Option String := none
  lanTransport : Option String := none
  artifactPolicy : Option String := none
  cacheRoot : Option String := none
  fallbackDirect : Bool := false
  routeCircuitFailures : Option Int := none
  routeCircuitCooldown : Option ℚ := none
  routeCircuitMaxCooldown : Option ℚ := none
  bwlimitKbps : Option Int := none

/-- What the parser refuses, with the names that the message gives. -/
inductive ConfigError where
  | emptyText (label : String)
  | destination (label : String)
  | root (label message : String)
  | bounds (label : String)
  | portWithoutAddress
  | emptyNodes
  | duplicateNodes
  | twoLocalNodes
  | itemLimit (label : String) (size : Nat)
  | siteWithoutSites
  | emptySites
  | siteName (name : String)
  | duplicateSite (name : String)
  | emptySite (name : String)
  | duplicateMembers (name : String)
  | unknownMember (site member : String)
  | twoSites (member prior name : String)
  | otherSite (member configured name : String)
  | gateway (site gateway : String)
  | cacheNode (site cacheNode : String)
  | cacheNotSeed (site cacheNode : String)
  | lanTransport (site : String)
  | artifactPolicy (site : String)
  | missingLan (site : String) (members : List String)
  | unassigned (nodes : List String)
  deriving DecidableEq

def maxNodes : Nat := 256
def maxSites : Nat := 256
def maxSshDestinationLength : Nat := 512
def maxProbeTimeout : ℚ := 120

/-- A check of the parser. -/
def refuse (bad : Prop) [Decidable bad] (e : ConfigError) : Except ConfigError Unit :=
  if bad then .error e else .ok ()

/-- `_nonempty_string` -/
def nonemptyString (value label : String) : Except ConfigError String :=
  match strip value.toList with
  | [] => .error (.emptyText label)
  | cs => .ok (String.ofList cs)

/-- The characters of `_LAN_ADDRESS_RE`, which are those of a node name too. -/
def isDestinationChar (c : Char) : Bool :=
  isAlnum c || c = '_' || c = '.' || c = '@' || c = '%' || c = '+' || c = '-'

/-- `_node_destination` and `_lan_address` -/
def destination (value label : String) : Except ConfigError String :=
  match nonemptyString value label with
  | .error e => .error e
  | .ok text =>
    if text.length > maxSshDestinationLength ∨ text.toList.head? = some '-' ∨
        text.toList.all isDestinationChar = false then .error (.destination label)
    else .ok text

/-- An optional value with its own check. -/
def optional {α β : Type} (f : α → Except ConfigError β) : Option α → Except ConfigError (Option β)
  | none => .ok none
  | some a => (f a).map some

def checkedRoot (label value : String) : Except ConfigError String :=
  match nonemptyString value label with
  | .error e => .error e
  | .ok text =>
    match normalizeNodeRoot text with
    | .error message => .error (.root label message)
    | .ok root => .ok root

/-- One entry of `_parse_nodes`. -/
def parseNode (raw : RawNode) : Except ConfigError Node := do
  let name ← destination raw.name "nodes[].name"
  let timeout := raw.probeTimeout.getD 15
  refuse (¬ (0 < timeout ∧ timeout ≤ maxProbeTimeout)) (.bounds "nodes[].probe_timeout_s")
  let root ← optional (checkedRoot "nodes[].root") raw.root
  let site ← optional (nonemptyString · "nodes[].site") raw.site
  let lanAddress ← optional (destination · "nodes[].lan_address") raw.lanAddress
  let lanPort := raw.lanPort.getD 22
  refuse (¬ (1 ≤ lanPort ∧ lanPort ≤ 65535)) (.bounds "nodes[].lan_port")
  refuse (lanAddress = none ∧ raw.lanPort.isSome) .portWithoutAddress
  let transferCost := raw.transferCost.getD 1
  refuse (transferCost < 0) (.bounds "nodes[].transfer_cost")
  return { name, isLocal := raw.isLocal, root, probeTimeout := timeout, site, lanAddress, lanPort
           artifactSeed := raw.artifactSeed.getD true, transferCost, drained := raw.drained }

/-- `_parse_nodes` -/
def parseNodes (raw : List RawNode) : Except ConfigError (List Node) := do
  refuse (raw.length > maxNodes) (.itemLimit "nodes" raw.length)
  let nodes ← raw.mapM parseNode
  refuse (nodes = []) .emptyNodes
  refuse (¬ (nodes.map Node.name).Nodup) .duplicateNodes
  refuse ((nodes.filter Node.isLocal).length > 1) .twoLocalNodes
  return nodes

def parsePolicy : String → Option ArtifactPolicy
  | "direct" => some .direct
  | "site-cache-first" => some .siteCacheFirst
  | "topology-aware" => some .topologyAware
  | _ => none

def checkedPolicy (name text : String) : Except ConfigError ArtifactPolicy :=
  match parsePolicy text with
  | none => .error (.artifactPolicy name)
  | some policy => .ok policy

/-- `known[member].site = name` -/
def setSite (member name : String) (nodes : List Node) : List Node :=
  nodes.map fun node => if node.name = member then { node with site := some name } else node

/-- The nodes with the sites they are assigned to so far. -/
structure Assignment where
  nodes : List Node
  assigned : List (String × String)

/-- The loop over the members of a site. -/
def assignMembers (name : String) : Assignment → List String → Except ConfigError Assignment
  | st, [] => .ok st
  | st, member :: members =>
    match st.nodes.find? fun node => node.name = member with
    | none => .error (.unknownMember name member)
    | some node =>
      match st.assigned.lookup member with
      | some prior => .error (.twoSites member prior name)
      | none =>
        if node.site.any fun configured => configured ≠ name then
          .error (.otherSite member (node.site.getD "") name)
        else
          assignMembers name ⟨setSite member name st.nodes, (member, name) :: st.assigned⟩ members

/-- The members that `site-cache-first` cannot reach. -/
def missingLan (nodes : List Node) (cacheNode : String) (members : List String) : List String :=
  members.filter fun member => member ≠ cacheNode ∧
    nodes.any fun node => node.name = member && !node.isLocal && node.lanAddress.isNone

/-- One entry of `_parse_sites`. -/
def parseSite (st : Assignment) (sites : List Site) (raw : RawSite) :
    Except ConfigError (Assignment × Site) := do
  let name ← nonemptyString raw.name "site names"
  refuse (!isConfigId name) (.siteName name)
  refuse (name ∈ sites.map Site.name) (.duplicateSite name)
  refuse (raw.nodes = []) (.emptySite name)
  refuse (raw.nodes.length > maxNodes) (.itemLimit "sites.nodes" raw.nodes.length)
  let members ← raw.nodes.mapM (nonemptyString · "sites.nodes[]")
  refuse (¬ members.Nodup) (.duplicateMembers name)
  let st ← assignMembers name st members
  let gateway ← nonemptyString raw.gateway "sites.gateway"
  refuse (gateway ∉ members) (.gateway name gateway)
  let cacheNode ← nonemptyString (raw.cacheNode.getD gateway) "sites.cache_node"
  refuse (cacheNode ∉ members) (.cacheNode name cacheNode)
  refuse (st.nodes.any fun node => node.name = cacheNode && !node.artifactSeed)
    (.cacheNotSeed name cacheNode)
  let lanTransport ← nonemptyString (raw.lanTransport.getD "ssh") "sites.lan_transport"
  refuse (lanTransport ≠ "ssh") (.lanTransport name)
  let policyText ← nonemptyString (raw.artifactPolicy.getD "direct") "sites.artifact_policy"
  let artifactPolicy ← checkedPolicy name policyText
  let cacheRoot ← optional (checkedRoot "sites.cache_root") raw.cacheRoot
  let failures := raw.routeCircuitFailures.getD 2
  refuse (¬ (1 ≤ failures ∧ failures ≤ 10)) (.bounds "route_circuit_failures")
  let cooldown := raw.routeCircuitCooldown.getD 60
  let maxCooldown := raw.routeCircuitMaxCooldown.getD 900
  refuse (¬ (1 ≤ cooldown ∧ cooldown ≤ 3600)) (.bounds "route_circuit_cooldown_s")
  refuse (¬ (cooldown ≤ maxCooldown ∧ maxCooldown ≤ 86400))
    (.bounds "route_circuit_max_cooldown_s")
  refuse (raw.bwlimitKbps.any fun k => ¬ (1 ≤ k ∧ k ≤ 10 ^ 9)) (.bounds "bwlimit_kbps")
  refuse (artifactPolicy = .siteCacheFirst ∧ missingLan st.nodes cacheNode members ≠ [])
    (.missingLan name (missingLan st.nodes cacheNode members))
  return (st, { name, nodes := members, gateway, cacheNode, artifactPolicy, cacheRoot
                fallbackDirect := raw.fallbackDirect, routeCircuitFailures := failures
                routeCircuitCooldown := cooldown, routeCircuitMaxCooldown := maxCooldown
                bwlimitKbps := raw.bwlimitKbps })

/-- The loop over the sites. -/
def parseSiteList : Assignment → List Site → List RawSite → Except ConfigError (Assignment × List Site)
  | st, sites, [] => .ok (st, sites)
  | st, sites, raw :: rest =>
    match parseSite st sites raw with
    | .error e => .error e
    | .ok (st', site) => parseSiteList st' (sites ++ [site]) rest

/-- The nodes and sites of a `HeadConfig`. -/
structure HeadConfig where
  nodes : List Node
  sites : List Site
  deriving DecidableEq

/-- `_parse_sites`, which also sets the sites of the nodes. -/
def parseSites (nodes : List Node) : Option (List RawSite) → Except ConfigError HeadConfig
  | none =>
    if nodes.any fun node => node.site.isSome then .error .siteWithoutSites
    else .ok ⟨nodes, []⟩
  | some raw =>
    if raw = [] then .error .emptySites
    else if raw.length > maxSites then .error (.itemLimit "sites" raw.length)
    else match parseSiteList ⟨nodes, []⟩ [] raw with
      | .error e => .error e
      | .ok (st, sites) =>
        let unassigned := (st.nodes.map Node.name).filter fun name =>
          (st.assigned.lookup name).isNone
        if unassigned ≠ [] then .error (.unassigned unassigned) else .ok ⟨st.nodes, sites⟩

/-- The topology of an accepted configuration. -/
def parseTopology (nodes : List RawNode) (sites : Option (List RawSite)) :
    Except ConfigError HeadConfig := do
  parseSites (← parseNodes nodes) sites

/-! ## What an accepted topology guarantees -/

theorem refuse_ok {bad : Prop} [Decidable bad] {e : ConfigError} {u : Unit} :
    refuse bad e = .ok u ↔ ¬ bad := by
  by_cases h : bad <;> simp [refuse, h]

/-- Every node of `nodes'` is one of `nodes` up to its site, and the names are the same. -/
structure SameNodes (nodes nodes' : List Node) : Prop where
  names : nodes'.map Node.name = nodes.map Node.name
  rest : ∀ n' ∈ nodes', ∃ n ∈ nodes, n' = { n with site := n'.site }

theorem SameNodes.refl (nodes : List Node) : SameNodes nodes nodes :=
  ⟨rfl, fun n hn => ⟨n, hn, rfl⟩⟩

theorem SameNodes.trans {a b c : List Node} (h : SameNodes a b) (h' : SameNodes b c) :
    SameNodes a c := by
  refine ⟨h'.names.trans h.names, fun n hn => ?_⟩
  obtain ⟨m, hm, hnm⟩ := h'.rest n hn
  obtain ⟨k, hk, hmk⟩ := h.rest m hm
  exact ⟨k, hk, by rw [hnm, hmk]⟩

theorem sameNodes_setSite (member name : String) (nodes : List Node) :
    SameNodes nodes (setSite member name nodes) := by
  refine ⟨?_, fun n' hn' => ?_⟩
  · unfold setSite
    rw [List.map_map]
    refine List.map_congr_left fun n _ => ?_
    by_cases h : n.name = member <;> simp [h]
  · obtain ⟨n, hn, rfl⟩ := List.mem_map.mp hn'
    refine ⟨n, hn, ?_⟩
    by_cases h : n.name = member <;> simp [h]

/-- A node whose name is assigned carries that site. -/
def Assignment.Homed (st : Assignment) : Prop :=
  ∀ n ∈ st.nodes, ∀ site, st.assigned.lookup n.name = some site → n.site = some site

/-- What the loop over the members of a site leaves. -/
structure Assigned (name : String) (members : List String) (st st' : Assignment) : Prop where
  same : SameNodes st.nodes st'.nodes
  known : ∀ m ∈ members, m ∈ st.nodes.map Node.name
  homed : st.Homed → st'.Homed
  lookup : ∀ x site, st'.assigned.lookup x = some site →
    st.assigned.lookup x = some site ∨ (site = name ∧ x ∈ members)

theorem homed_setSite {st : Assignment} {member name : String} (h : st.Homed) :
    Assignment.Homed ⟨setSite member name st.nodes, (member, name) :: st.assigned⟩ := by
  intro n' hn' site hsite
  obtain ⟨n, hn, rfl⟩ := List.mem_map.mp hn'
  by_cases hm : n.name = member
  · rw [if_pos hm] at hsite ⊢
    have hlookup : List.lookup n.name ((member, name) :: st.assigned) = some site := hsite
    rw [hm, List.lookup_cons_self] at hlookup
    exact hlookup
  · rw [if_neg hm] at hsite ⊢
    have hne : (n.name == member) = false := beq_false_of_ne hm
    rw [List.lookup_cons, hne] at hsite
    exact h n hn site hsite

theorem assignMembers_ok {name : String} :
    ∀ {members : List String} {st st' : Assignment}, assignMembers name st members = .ok st' →
      Assigned name members st st'
  | [], st, st', h => by
    cases h
    exact ⟨SameNodes.refl _, (fun _ h => nomatch h), id, fun _ _ h => .inl h⟩
  | member :: members, st, st', h => by
    rw [assignMembers] at h
    split at h
    · cases h
    · rename_i node hfind
      split at h
      · cases h
      · split at h
        · cases h
        · have ih := assignMembers_ok h
          have hset := sameNodes_setSite member name st.nodes
          refine ⟨hset.trans ih.same, fun m hm => ?_, fun hh => ih.homed (homed_setSite hh),
            fun x site hx => ?_⟩
          · rcases List.mem_cons.mp hm with rfl | hrest
            · have hmem := List.mem_of_find?_eq_some hfind
              have hname : node.name = m := by simpa using List.find?_some hfind
              exact hname ▸ List.mem_map_of_mem hmem
            · exact hset.names ▸ ih.known m hrest
          · rcases ih.lookup x site hx with hold | ⟨rfl, hmem⟩
            · by_cases hxm : x = member
              · rw [hxm, List.lookup_cons_self] at hold
                exact .inr ⟨(Option.some.inj hold).symm, hxm ▸ List.mem_cons_self⟩
              · have hne : (x == member) = false := beq_false_of_ne hxm
                rw [List.lookup_cons, hne] at hold
                exact .inl hold
            · exact .inr ⟨rfl, List.mem_cons_of_mem _ hmem⟩

/-- The policy of a site suits its members. -/
def Reachable (nodes : List Node) (site : Site) : Prop :=
  site.artifactPolicy = .siteCacheFirst → ∀ n ∈ nodes, n.name ∈ site.nodes →
    n.name ≠ site.cacheNode → n.isLocal = true ∨ n.lanAddress.isSome = true

/-- What one accepted entry of `sites` guarantees. -/
structure ParsedSite (st st' : Assignment) (sites : List Site) (site : Site) : Prop where
  assigned : Assigned site.name site.nodes st st'
  fresh : site.name ∉ sites.map Site.name
  cache : site.cacheNode ∈ site.nodes
  reach : Reachable st'.nodes site

theorem parseSite_ok {st st' : Assignment} {sites : List Site} {raw : RawSite} {site : Site}
    (h : parseSite st sites raw = .ok (st', site)) : ParsedSite st st' sites site := by
  unfold parseSite at h
  simp only [bind_ok, refuse_ok] at h
  obtain ⟨name, -, -, -, -, hfresh, -, -, -, -, members, -, -, -, st₁, hassign, gateway, -, -, -,
    cacheNode, -, -, hcache, -, -, lan, -, -, -, policyText, -, policy, -, root, -, -, -, -, -, -, -,
    -, -, -, hlan, hsite⟩ := h
  cases hsite
  refine ⟨assignMembers_ok hassign, hfresh, not_not.mp hcache, fun hpolicy n hn hmem hne => ?_⟩
  have hreach : missingLan st'.nodes cacheNode members = [] := by
    by_contra hmissing
    exact hlan ⟨hpolicy, hmissing⟩
  have hn' := List.filter_eq_nil_iff.mp hreach n.name hmem
  by_contra hbad
  simp only [not_or, Bool.not_eq_true, Option.isSome_eq_false_iff] at hbad
  refine hn' (decide_eq_true ⟨hne, List.any_eq_true.mpr ⟨n, hn, ?_⟩⟩)
  simp [hbad.1, hbad.2]

/-- What holds while the sites are read. -/
structure SitesInv (names : List String) (st : Assignment) (sites : List Site) : Prop where
  sameNames : st.nodes.map Node.name = names
  siteNames : (sites.map Site.name).Nodup
  cache : ∀ s ∈ sites, s.cacheNode ∈ s.nodes
  known : ∀ s ∈ sites, ∀ m ∈ s.nodes, m ∈ names
  reach : ∀ s ∈ sites, Reachable st.nodes s
  homed : st.Homed
  assigned : ∀ x site, st.assigned.lookup x = some site →
    ∃ s ∈ sites, s.name = site ∧ x ∈ s.nodes

theorem SitesInv.start (nodes : List Node) : SitesInv (nodes.map Node.name) ⟨nodes, []⟩ [] where
  sameNames := rfl
  siteNames := List.nodup_nil
  cache _ h := nomatch h
  known _ h := nomatch h
  reach _ h := nomatch h
  homed _ _ _ h := nomatch h
  assigned _ _ h := nomatch h

/-- A policy looks at nothing that the assignment of sites changes. -/
theorem Reachable.same {nodes nodes' : List Node} {site : Site} (h : Reachable nodes site)
    (hsame : SameNodes nodes nodes') : Reachable nodes' site := by
  intro hpolicy n' hn' hmem hne
  obtain ⟨n, hn, heq⟩ := hsame.rest n' hn'
  rw [heq] at hmem hne ⊢
  exact h hpolicy n hn hmem hne

theorem SitesInv.step {names : List String} {st st' : Assignment} {sites : List Site} {site : Site}
    (h : SitesInv names st sites) (hs : ParsedSite st st' sites site) :
    SitesInv names st' (sites ++ [site]) := by
  have hmem : ∀ {s : Site}, s ∈ sites ++ [site] → s ∈ sites ∨ s = site := fun hs' =>
    (List.mem_append.mp hs').imp_right List.mem_singleton.mp
  refine ⟨hs.assigned.same.names.trans h.sameNames, ?_, fun s hs' => ?_, fun s hs' m hm => ?_,
    fun s hs' => ?_, hs.assigned.homed h.homed, fun x y hx => ?_⟩
  · rw [List.map_append, List.nodup_append]
    refine ⟨h.siteNames, List.nodup_singleton _, fun a ha b hb => ?_⟩
    rw [List.map_singleton, List.mem_singleton] at hb
    rintro rfl
    exact hs.fresh (hb ▸ ha)
  · rcases hmem hs' with hold | rfl
    · exact h.cache s hold
    · exact hs.cache
  · rcases hmem hs' with hold | rfl
    · exact h.known s hold m hm
    · exact h.sameNames ▸ hs.assigned.known m hm
  · rcases hmem hs' with hold | rfl
    · exact (h.reach s hold).same hs.assigned.same
    · exact hs.reach
  · rcases hs.assigned.lookup x y hx with hold | ⟨rfl, hx'⟩
    · obtain ⟨s, hs', hname⟩ := h.assigned x y hold
      exact ⟨s, List.mem_append_left _ hs', hname⟩
    · exact ⟨site, List.mem_append_right _ List.mem_cons_self, rfl, hx'⟩

theorem parseSiteList_inv {names : List String} :
    ∀ {raw : List RawSite} {st st' : Assignment} {sites sites' : List Site},
      SitesInv names st sites → parseSiteList st sites raw = .ok (st', sites') →
      SitesInv names st' sites'
  | [], _, _, _, _, h, hparse => by
    cases hparse
    exact h
  | raw :: rest, _, _, _, _, h, hparse => by
    rw [parseSiteList] at hparse
    split at hparse
    · cases hparse
    · rename_i hsite
      exact parseSiteList_inv (h.step (parseSite_ok hsite)) hparse

/-- What the planner may rely on. -/
structure HeadConfig.WellFormed (cfg : HeadConfig) : Prop where
  names : (cfg.nodes.map Node.name).Nodup
  siteNames : (cfg.sites.map Site.name).Nodup
  cache : ∀ s ∈ cfg.sites, s.cacheNode ∈ s.nodes
  known : ∀ s ∈ cfg.sites, ∀ m ∈ s.nodes, m ∈ cfg.nodes.map Node.name
  reach : ∀ s ∈ cfg.sites, Reachable cfg.nodes s
  homed : ∀ n ∈ cfg.nodes, ∀ site, n.site = some site →
    ∃ s ∈ cfg.sites, s.name = site ∧ n.name ∈ s.nodes

theorem parseNodes_nodup {raw : List RawNode} {nodes : List Node} (h : parseNodes raw = .ok nodes) :
    (nodes.map Node.name).Nodup := by
  unfold parseNodes at h
  simp only [bind_ok, refuse_ok] at h
  obtain ⟨-, -, nodes', -, -, -, -, hnodup, -, -, hret⟩ := h
  cases hret
  exact not_not.mp hnodup

theorem parseSites_wellFormed {nodes : List Node} {raw : Option (List RawSite)} {cfg : HeadConfig}
    (hnodup : (nodes.map Node.name).Nodup) (h : parseSites nodes raw = .ok cfg) :
    cfg.WellFormed := by
  cases raw with
  | none =>
    rw [parseSites] at h
    split at h
    · cases h
    · rename_i hsites
      cases h
      refine ⟨hnodup, List.nodup_nil, (fun _ hs => nomatch hs), (fun _ hs => nomatch hs),
        (fun _ hs => nomatch hs), fun n hn site hsite => ?_⟩
      exact absurd (List.any_eq_true.mpr ⟨n, hn, by simp [hsite]⟩) hsites
  | some raw =>
    rw [parseSites] at h
    split at h
    · cases h
    · split at h
      · cases h
      · split at h
        · cases h
        · rename_i st sites hlist
          have hinv : SitesInv (nodes.map Node.name) st sites :=
            parseSiteList_inv (SitesInv.start nodes) hlist
          simp only at h
          split at h
          · cases h
          · rename_i hall
            cases h
            refine ⟨hinv.sameNames ▸ hnodup, hinv.siteNames, hinv.cache,
              fun s hs m hm => hinv.sameNames ▸ hinv.known s hs m hm, hinv.reach,
              fun n hn site hsite => ?_⟩
            have hassigned : (st.assigned.lookup n.name).isNone ≠ true := fun hnone => by
              have hmem : n.name ∈ (st.nodes.map Node.name).filter fun name =>
                  (st.assigned.lookup name).isNone :=
                List.mem_filter.mpr ⟨List.mem_map_of_mem hn, hnone⟩
              rw [not_not.mp hall] at hmem
              cases hmem
            obtain ⟨home, hhome⟩ : ∃ home, st.assigned.lookup n.name = some home := by
              cases hl : st.assigned.lookup n.name with
              | none => exact absurd (by rw [hl]; rfl) hassigned
              | some home => exact ⟨home, rfl⟩
            have hsame := hinv.homed n hn home hhome
            rw [hsite] at hsame
            cases hsame
            exact hinv.assigned _ _ hhome

theorem parseTopology_wellFormed {nodes : List RawNode} {sites : Option (List RawSite)}
    {cfg : HeadConfig} (h : parseTopology nodes sites = .ok cfg) : cfg.WellFormed := by
  obtain ⟨parsed, hnodes, hsites⟩ := bind_ok.mp h
  exact parseSites_wellFormed (parseNodes_nodup hnodes) hsites

end Dt.Topology
