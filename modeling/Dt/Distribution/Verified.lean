import Dt.Distribution.Parts

/-!
# Every distribution is verified

Whatever the nodes, the registry and the route discovery answer, `ensure` returns only when the last event that
concerns the destination is a verification that read the digest, and nothing was written after it.
-/

namespace Dt.Distribution

open Dt.Lib Dt.Topology
open Dt.Jobs (hexOf)

/-- A write, or a verification of the code directory. -/
def Call.concerns (node : Node) (codeDir : String) : Call → Bool
  | .digest node' codeDir' => node' = node && codeDir' = codeDir
  | c => c.writes

/-- A verification that read the digest. -/
def Verifies (digest : String) : Exchange Call Answer → Prop
  | ⟨.digest _ _, reply⟩ => readDigest reply = .ok digest
  | _ => False

/-- The last event about the code directory is a verification that read the digest. -/
abbrev Verified (node : Node) (codeDir digest : String) : History → Prop :=
  LastOf (Call.concerns node codeDir) (Verifies digest)

section

variable {node : Node} {codeDir digest : String} {past : History}

@[simp] theorem concerns_self : Call.concerns node codeDir (.digest node codeDir) = true := by simp [Call.concerns]

/-- A question that is neither a write nor a verification. -/
def Call.isOther : Call → Bool
  | .digest .. => false
  | c => !c.writes

theorem concerns_of_isOther {c : Call} (hc : c.isOther = true) : Call.concerns node codeDir c = false := by
  cases c <;> simp_all [Call.isOther, Call.concerns, Call.writes]

theorem Verified.cons {c : Call} {a : Answer c} (h : Verified node codeDir digest past) (hc : c.isOther = true) :
    Verified node codeDir digest (⟨c, a⟩ :: past) :=
  (lastOf_cons_of_not (concerns_of_isOther hc)).mpr h

/-- Questions of no concern keep a verification. -/
theorem Verified.keeps {α : Type} {p : M α} (h : Verified node codeDir digest past)
    (hp : p.Asks fun c => c.isOther = true) : p.Ensures past fun past' _ => Verified node codeDir digest past' :=
  hp.keeps (fun _ _ _ hc hv => hv.cons hc) past h

theorem remoteDigest_verified : (remoteDigest node codeDir).Yields fun past observed =>
    Verified node codeDir observed past := by
  intro past
  simp only [remoteDigest, query, Prog.ensures_bind, Prog.ensures_call, Prog.ensures_lift]
  intro reply observed hobserved
  exact (lastOf_cons_of_counts concerns_self).mpr hobserved

theorem require_verified : (require node codeDir digest).Yields fun past _ => Verified node codeDir digest past :=
  remoteDigest_verified.bind fun past observed h => by
    by_cases hd : observed = digest
    · rw [if_neg (not_not.mpr hd)]
      exact fun _ _ => hd ▸ h
    · rw [if_pos hd]
      exact Prog.yields_raise _ past

/-- `_verified_transfer` returns behind a verification that passed. -/
theorem verifiedTransfer_yields {transfer : Bool → M (Nat × Option Nat)} {verify : M Unit} {I : History → Prop}
    (hverify : verify.Yields fun past _ => I past) :
    (verifiedTransfer transfer verify).Yields fun past _ => I past := by
  refine Prog.yields_bind fun first => hverify.attempt.bind ?_
  rintro past (e | u) hI
  · cases e with
    | integrity =>
      refine Prog.yields_bind (fun repaired => hverify.attempt.bind ?_) past
      rintro past' (e' | u') hI'
      · cases e' <;> exact Prog.yields_raise _ past'
      · exact fun _ _ => hI' u' rfl
    | _ => exact Prog.yields_raise _ past
  · exact fun _ _ => hI u rfl

theorem withLock_yields {α : Type} {l : Lock} {body : M α} {I : History → α → Prop} (hbody : body.Yields I)
    (hI : ∀ past a u, I past a → I (⟨.unlock l, u⟩ :: past) a) : (withLock l body).Yields I :=
  Prog.yields_bind fun _ => Prog.yields_bind fun _ => hbody.ensuring fun past a h u => hI past a u h

theorem withLock_verified {α : Type} {l : Lock} {body : M α}
    (hbody : body.Yields fun past _ => Verified node codeDir digest past) :
    (withLock l body).Yields fun past _ => Verified node codeDir digest past :=
  withLock_yields hbody fun _ _ _ h => h.cons rfl

end

section

variable {h : Head} {destination : Node} {codeDir digest : String}

theorem retainPeerSource_verified {α : Type} {replica : ArtifactReplica} {body : M α}
    (hbody : body.Yields fun past _ => Verified destination codeDir digest past) :
    (retainPeerSource replica digest body).Yields fun past _ => Verified destination codeDir digest past := by
  unfold retainPeerSource
  split
  · refine withLock_verified (Prog.yields_bind fun _ => Prog.yields_bind fun _ => ?_)
    dsimp only
    split
    · exact Prog.yields_bind fun _ => Prog.yields_bind fun _ => hbody
    · exact Prog.yields_bind fun _ => hbody
  · exact hbody

theorem Verified.settled {α : Type} {past : History} {c : Call} {reply : Answer c → Except Raised Unit} {a : α}
    {I : α → Prop} (hv : Verified destination codeDir digest past) (hc : c.isOther = true) :
    (do Prog.lift (reply (← query c)); return a : M α).Ensures past fun past' r =>
      ∀ b, r = .ok b → (I b → Verified destination codeDir digest past') := by
  refine (hv.keeps ?_).mono fun _ _ hv' _ _ _ => hv'
  exact (asks_query.mpr hc).bind fun _ => Prog.asks_lift.bind fun _ => Prog.asks_pure

theorem transferVerifiedRoutes_verified (routes : List DiscoveredRoute) (failures : List Raised)
    (attempts : List TransferFailure) :
    (transferVerifiedRoutes h digest destination codeDir routes failures attempts).Yields fun past out =>
      out.selected.isSome = true → Verified destination codeDir digest past := by
  induction routes generalizing failures attempts with
  | nil =>
    rintro past _ ⟨⟩ hsome
    cases hsome
  | cons route routes ih =>
    rw [transferVerifiedRoutes]
    have hleg : (retainPeerSource route.replica digest (verifiedTransfer (p2pTransfer h route destination codeDir)
        (require destination codeDir digest))).Yields fun past _ => Verified destination codeDir digest past :=
      retainPeerSource_verified (verifiedTransfer_yields require_verified)
    refine hleg.attempt.bind ?_
    rintro past (e | moved) hv
    · cases e with
      | route kind => exact Prog.yields_bind (fun _ => Prog.yields_bind fun _ => ih _ _) past
      | _ =>
        simp only
        split
        · exact Prog.yields_bind (fun _ => Prog.yields_bind fun _ => ih _ _) past
        · exact Prog.yields_raise _ past
    · exact (hv moved rfl).settled rfl

theorem transferLazyReplicas_verified (candidates : List ArtifactReplica) (acc : LazyOutcome)
    (hacc : acc.selected = none) :
    (transferLazyReplicas h digest destination codeDir candidates acc).Yields fun past out =>
      out.selected.isSome = true → Verified destination codeDir digest past := by
  induction candidates generalizing acc with
  | nil =>
    rintro past _ ⟨⟩ hsome
    rw [hacc] at hsome
    cases hsome
  | cons replica rest ih =>
    rw [transferLazyReplicas]
    refine Prog.yields_bind fun found => ?_
    rcases found with e | _ | _
    · dsimp only
      split
      · exact ih _ hacc
      · exact Prog.yields_raise e
    · exact ih _ hacc
    · refine Prog.yields_bind fun found => ?_
      rcases found with e | route
      · dsimp only
        split
        · exact ih _ hacc
        · exact Prog.yields_raise e
      · refine Prog.yields_bind fun checked => ?_
        rcases checked with e | u
        · dsimp only
          split
          · exact ih _ hacc
          · split
            · exact ih _ hacc
            · exact Prog.yields_raise _
          · cases ‹Except.error e = Except.ok PUnit.unit›
        · refine (transferVerifiedRoutes_verified [route] [] acc.attempts).bind fun past out hout => ?_
          dsimp only
          split
          · rename_i selected hselected
            exact fun _ _ _ => hout (by rw [hselected]; rfl)
          · refine ih _ ?_ past
            exact hacc

theorem topologyResult_other {site : Site} {selected : DiscoveredRoute} {cross bytes : Nat} {files : Option Nat}
    {cold : Bool} {attempts : List TransferFailure} :
    (topologyResult h digest site destination selected cross bytes files cold attempts).Asks
      fun c => c.isOther = true :=
  Prog.asks_lift.bind fun _ => Prog.asks_pure

theorem destinationLocalHit_verified {site : Site} :
    (destinationLocalHit h digest site destination codeDir).Yields fun past hit =>
      hit.isSome = true → Verified destination codeDir digest past := by
  unfold destinationLocalHit
  refine remoteDigest_verified.attempt.bind ?_
  rintro past (e | observed) hv
  · dsimp only
    split
    · rintro _ ⟨⟩ hsome
      cases hsome
    · exact Prog.yields_raise e past
  · dsimp only
    by_cases hd : observed = digest
    · rw [if_neg (not_not.mpr hd)]
      exact (((hd ▸ hv observed rfl).keeps (Prog.asks_lift.bind fun _ => Prog.asks_pure)).mono
        fun _ _ hv' _ _ _ => hv')
    · rw [if_pos hd]
      rintro _ ⟨⟩ hsome
      cases hsome

theorem topologyAwareTransfer_verified {site : Site} :
    (topologyAwareTransfer h digest site destination codeDir).Yields fun past _ =>
      Verified destination codeDir digest past := by
  unfold topologyAwareTransfer
  refine destinationLocalHit_verified.bind fun past hit hhit => ?_
  match hit with
  | some result => exact fun _ _ => hhit rfl
  | none =>
    refine Prog.yields_bind (fun cache => Prog.yields_bind fun candidates => ?_) past
    refine (transferLazyReplicas_verified candidates {} rfl).bind fun past outcome hout => ?_
    split
    · rename_i selected hselected
      have hv := hout (by rw [hselected]; rfl)
      exact (hv.keeps topologyResult_other).mono fun _ _ hv' _ _ => hv'
    · refine Prog.yields_bind (fun upload => Prog.yields_bind fun code => Prog.yields_bind fun route => ?_) past
      refine (transferVerifiedRoutes_verified [route] [] outcome.attempts).bind fun past out hout => ?_
      split
      · exact Prog.yields_raise _ past
      · rename_i selected hselected
        have hv := hout (by rw [hselected]; rfl)
        exact (hv.keeps topologyResult_other).mono fun _ _ hv' _ _ => hv'

theorem ensureTopologyAware_verified {site : Site} :
    (ensureTopologyAware h digest site destination codeDir).Yields fun past _ =>
      Verified destination codeDir digest past :=
  topologyAwareTransfer_verified.ensuring fun _ _ hv =>
    hv.keeps (@asks_lift_query _ _ .releaseCarried id rfl)

theorem ensureSiteCacheFirst_verified {site : Site} :
    (ensureSiteCacheFirst h digest site destination codeDir).Yields fun past _ =>
      Verified destination codeDir digest past := by
  unfold ensureSiteCacheFirst
  refine Prog.yields_bind fun cache => ?_
  refine (withLock_verified (Prog.yields_bind fun populated => ?_)).bind fun past out hv _ _ => hv
  exact (verifiedTransfer_yields require_verified).bind fun past moved hv _ _ => hv

theorem directFallback_verified :
    (directFallback h digest destination codeDir).Yields fun past _ => Verified destination codeDir digest past :=
  (verifiedTransfer_yields require_verified).bind fun _ _ hv _ _ => hv

theorem ensureByPolicy_verified :
    (ensureByPolicy h digest destination codeDir).Yields fun past _ => Verified destination codeDir digest past := by
  unfold ensureByPolicy
  split
  · rw [Prog.raise_bind]
    exact Prog.yields_raise _
  · refine Prog.yields_bind fun found => ?_
    split
    · exact Prog.yields_raise _
    · split
      · exact Prog.yields_raise _
      · exact withLock_verified ensureTopologyAware_verified
      · exact ensureSiteCacheFirst_verified

/-- The journal comes last. -/
theorem Verified.journaled {α : Type} {past : History} {result : α} (hv : Verified destination codeDir digest past) :
    (do Prog.lift (← query (.journal true)); return result : M α).Ensures past fun past' r =>
      ∀ a, r = .ok a → Verified destination codeDir digest past' := by
  have hjournal : (query (.journal true)).Asks fun c => c.isOther = true := asks_query.mpr rfl
  exact (hv.keeps (hjournal.bind fun _ => Prog.asks_lift.bind fun _ => Prog.asks_pure)).mono fun _ _ hv' _ _ => hv'

theorem ensure_yields :
    (ensure h digest destination codeDir).Yields fun past _ => Verified destination codeDir digest past := by
  unfold ensure
  refine ensureByPolicy_verified.attempt.bind fun past outcome hv => ?_
  split
  · exact (hv _ rfl).journaled
  · split
    · exact Prog.yields_bind (fun _ => Prog.yields_bind fun _ => Prog.yields_raise _) past
    · refine (withLock_verified directFallback_verified).attempt.bind (fun past outcome hv => ?_) past
      split
      · exact (hv _ rfl).journaled
      · exact Prog.yields_bind (fun _ => Prog.yields_bind fun _ => Prog.yields_raise _) past

end

/-- The verification, with the events after it. -/
theorem verified_split {node : Node} {codeDir digest : String} {past : History}
    (hv : Verified node codeDir digest past) :
    ∃ later reply earlier, past = later ++ ⟨.digest node codeDir, reply⟩ :: earlier ∧ readDigest reply = .ok digest ∧
      ∀ e ∈ later, e.query.writes = false ∧ e.query ≠ .digest node codeDir := by
  obtain ⟨later, ⟨c, reply⟩, earlier, heq, hlater, hconcerns, hgood⟩ := lastOf_iff.mp hv
  cases c with
  | digest node' dir =>
    simp only [Call.concerns, Bool.and_eq_true, decide_eq_true_eq] at hconcerns
    obtain ⟨rfl, rfl⟩ := hconcerns
    refine ⟨later, reply, earlier, heq, hgood, fun e he => ?_⟩
    have hnot := hlater e he
    cases hq : e.query <;> simp_all [Call.concerns, Call.writes]
  | _ => exact absurd hgood id

/-- Whatever is answered, a distribution that returns has verified the destination after the last write to any node:
the last of the writes and the verifications of the code directory is a verification that read the digest. -/
theorem ensure_verified (h : Head) (digest : String) (destination : Node) (codeDir : String)
    (answer : History → (c : Call) → Answer c) (result : DistributionResult)
    (hresult : ((ensure h digest destination codeDir).run answer []).2 = .ok result) :
    ∃ later reply earlier, ((ensure h digest destination codeDir).run answer []).1 =
        later ++ ⟨.digest destination codeDir, reply⟩ :: earlier ∧ readDigest reply = .ok digest ∧
      ∀ e ∈ later, e.query.writes = false ∧ e.query ≠ .digest destination codeDir :=
  verified_split ((ensure_yields (h := h) []).run answer result hresult)

/-- A head with the sites of `lab`. -/
def labHead : Head where
  topology := lab
  nodeRoot := fun _ => ⟨.legacy, "~/dt"⟩
  lower := id
  transferredSize := fun _ => some 7
  transferredFiles := fun _ => some 1

def labDigest : String := String.ofList (List.replicate 64 'a')

/-- Every command succeeds, and every code directory has the digest. -/
def willing : History → (c : Call) → Answer c
  | _, .lock _ => .ok ()
  | _, .unlock _ => ()
  | _, .digest .. => .ok ⟨0, labDigest.toList, []⟩
  | _, .cacheProbe .. => .ok ⟨0, "DT_CACHE=present".toList, []⟩
  | _, .prepare .. | _, .upload .. | _, .publish .. | _, .fanout .. | _, .p2p .. | _, .direct .. | _, .present _ =>
    .ok ⟨0, [], []⟩
  | _, .records .. => .ok []
  | _, .directRoute .. => .error .discovery
  | _, .load _ => .ok none
  | _, .transferFailure .. | _, .transferSuccess _ | _, .releaseReservation _ | _, .releaseCarried
  | _, .linkSample .. | _, .journal _ => .ok ()
  | _, .uuid => "0"

/-- From the cache of the site. -/
def labResult : DistributionResult where
  plan := ⟨labDigest, "gpu-2", some "lab", ⟨.siteCache, "gpu-1", some "lab", true, none, 1, none⟩,
    [{ source := "gpu-1", destination := "gpu-2", network := .siteLan, destinationAddress := some "10.0.0.2"
       destinationPort := some 22 }]⟩
  cacheHit := true
  crossSiteBytes := 0
  siteBytes := 7
  transferredFiles := some 1
  replicaHit := true

theorem ensure_verified_lab :
    ∃ later reply earlier, ((ensure labHead labDigest gpu2 "~/jobs/7/code").run willing []).1 =
        later ++ ⟨.digest gpu2 "~/jobs/7/code", reply⟩ :: earlier ∧ readDigest reply = .ok labDigest ∧
      ∀ e ∈ later, e.query.writes = false ∧ e.query ≠ .digest gpu2 "~/jobs/7/code" :=
  ensure_verified labHead labDigest gpu2 "~/jobs/7/code" willing labResult (by decide +kernel)

end Dt.Distribution
