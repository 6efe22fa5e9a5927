import Dt.Distribution.ColdUpload

/-!
# What a result says

A result that claims a hit inside of the site comes from a run in which nothing crossed into it, and the other ones
from runs in which something did. Its plan leads from its source to the destination, and crosses into the site at most
once.
-/

namespace Dt.Distribution

open Dt.Lib Dt.Topology

/-- Nothing was brought from the head. -/
def Inside (past : History) : Prop := ∀ e ∈ past, e.query.crosses = false

/-- The plan goes from its source to the destination. -/
structure Leads (digest : String) (destination : Node) (plan : TransferPlan) : Prop where
  digest : plan.digest = digest
  reaches : plan.destination = destination.name
  path : IsPath plan.source.node plan.legs destination.name
  single : crossings plan.legs ≤ 1

/-- The result agrees with the run. -/
structure Truthful (digest : String) (destination : Node) (past : History) (result : DistributionResult) : Prop where
  hit : result.replicaHit = true ↔ Inside past
  bytes : result.replicaHit = true → result.crossSiteBytes = 0 ∧ crossings result.plan.legs = 0
  cache : result.cacheHit = true → result.replicaHit = true
  fallback : result.fallbackDirect = true → result.replicaHit = false
  leads : Leads digest destination result.plan

section

variable {h : Head} {site : Site} {digest codeDir : String} {destination : Node}

/-- The flag says whether something was brought from the head. -/
def Counts (cold : Bool) (past : History) : Prop := cold = false ↔ Inside past

theorem counts_cons {cold : Bool} {past : History} {c : Call} {a : Answer c} (hc : c.crosses = false) :
    Counts cold (⟨c, a⟩ :: past) ↔ Counts cold past := by
  rw [Counts, Counts, Inside, List.forall_mem_cons, and_iff_right hc, Inside]

theorem Truthful.cons {past : History} {result : DistributionResult} {c : Call} {a : Answer c}
    (ht : Truthful digest destination past result) (hc : c.crosses = false) :
    Truthful digest destination (⟨c, a⟩ :: past) result where
  hit := by
    rw [ht.hit, Inside, Inside, List.forall_mem_cons, and_iff_right hc]
  bytes := ht.bytes
  cache := ht.cache
  fallback := ht.fallback
  leads := ht.leads

/-- What the policy `site-cache-first` knows before the last leg. -/
structure Cached (digest : String) (destination : Node) (past : History) (hit : Bool) (plan : TransferPlan) (bytes : Nat) :
    Prop where
  counts : Counts (!hit) past
  none : hit = true → bytes = 0 ∧ crossings plan.legs = 0
  leads : Leads digest destination plan

theorem Cached.cons {past : History} {hit : Bool} {plan : TransferPlan} {bytes : Nat} {c : Call} {a : Answer c}
    (hcached : Cached digest destination past hit plan bytes) (hc : c.crosses = false) :
    Cached digest destination (⟨c, a⟩ :: past) hit plan bytes :=
  ⟨(counts_cons hc).mpr hcached.counts, hcached.none, hcached.leads⟩

theorem Counts.mono {past past' : History} (hcold : Counts true past) (hsub : past ⊆ past') : Counts true past' :=
  iff_of_false (fun h => by cases h) fun hinside =>
    absurd (hcold.mpr fun e he => hinside e (hsub he)) Bool.false_ne_true.symm

end

end Dt.Distribution
