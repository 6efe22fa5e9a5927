import Dt.Distribution.Publication

/-!
# Uploads into a site

Under the topology-aware policy the bytes of a digest cross into a site only as a last resort. When the head prepares
an upload, nothing was written before in the run, the last look at the cache found nothing that serves, and each replica
that the registry knew was shown to be absent or corrupt. There is one way past the last of these: a replica that could
not be looked at does not stop the upload when the cache was found at first and is gone at the second look.
-/

namespace Dt.Distribution

open Dt.Lib Dt.Topology
open Dt.Layout (nodePath)

/-- What `require` makes of the reply of the digest program. -/
def verdict (digest : String) (reply : Except Raised Completed) : Except Raised Unit :=
  match readDigest reply with
  | .error e => .error e
  | .ok observed => if observed ≠ digest then .error .integrity else .ok ()

/-- In this run the replica was absent, or its digest was another one. -/
def RuledOut (digest : String) (past : History) (r : ArtifactReplica) : Prop :=
  (∃ reply, (⟨.present r, reply⟩ : Exchange Call Answer) ∈ past ∧ readPresent reply = .ok false) ∨
    ∃ reply, (⟨.digest r.node r.codeDir, reply⟩ : Exchange Call Answer) ∈ past ∧
      verdict digest reply = .error .integrity

/-- A look at the cache. -/
def Call.looks : Call → Bool
  | .digest .. | .cacheProbe .. => true
  | _ => false

section

variable (h : Head) (site : Site) (cache : Node) (digest : String)

/-- The code of a cache object. -/
def cacheCode : Except String String := do nodePath (← cacheObjectRoot h site cache digest) ["code".toList]

/-- In this run the cache was found to hold the digest. -/
def Found (past : History) : Prop :=
  ∃ code reply, cacheCode h site cache digest = .ok code ∧
    (⟨.digest cache code, reply⟩ : Exchange Call Answer) ∈ past ∧ verdict digest reply = .ok ()

/-- A look that finds no cache object, or one of another digest. -/
def SaysNo : Exchange Call Answer → Prop
  | ⟨.cacheProbe node root, reply⟩ =>
    node = cache ∧ cacheObjectRoot h site cache digest = .ok root ∧ readCacheProbe reply = .ok false
  | ⟨.digest node code, reply⟩ =>
    node = cache ∧ cacheCode h site cache digest = .ok code ∧ verdict digest reply = .error .integrity
  | _ => False

/-- What must be known when an upload into the site is prepared. -/
structure LastResort (past : History) : Prop where
  unwritten : ∀ e ∈ past, e.query.writes = false
  missed : LastOf Call.looks (SaysNo h site cache digest) past
  searched : ∃ records candidates, (⟨.records digest site.name, .ok records⟩ : Exchange Call Answer) ∈ past ∧
    replicas h site digest records = .ok candidates ∧
    ((∀ r ∈ candidates, RuledOut digest past r) ∨ Found h site cache digest past)

end

section

variable {h : Head} {site : Site} {cache destination : Node} {digest codeDir : String} {past past' : History}

theorem RuledOut.mono {r : ArtifactReplica} (hr : RuledOut digest past r) (hsub : past ⊆ past') :
    RuledOut digest past' r := by
  rcases hr with ⟨reply, hmem, hno⟩ | ⟨reply, hmem, hno⟩
  · exact .inl ⟨reply, hsub hmem, hno⟩
  · exact .inr ⟨reply, hsub hmem, hno⟩

theorem Found.mono (hf : Found h site cache digest past) (hsub : past ⊆ past') : Found h site cache digest past' := by
  obtain ⟨code, reply, hcode, hmem, hyes⟩ := hf
  exact ⟨code, reply, hcode, hsub hmem, hyes⟩

abbrev Unwritten (past : History) : Prop := ∀ e ∈ past, e.query.writes = false

/-- A quiet program adds events that write nothing. -/
theorem quiet_frame {α : Type} {p : M α} (hp : Quiet p) :
    p.Ensures past fun past' _ => past ⊆ past' ∧ (Unwritten past → Unwritten past') :=
  hp.keeps (fun _ c _ hc hkept => ⟨List.subset_cons_of_subset _ hkept.1, fun hpast =>
    List.forall_mem_cons.mpr ⟨by simpa using (Bool.and_eq_true_iff.mp hc).2, hkept.2 hpast⟩⟩) past
    ⟨List.Subset.refl _, id⟩

theorem require_ensures {node : Node} {dir : String} {post : History → Except Raised Unit → Prop} :
    (require node dir digest).Ensures past post ↔ ∀ reply, post (⟨.digest node dir, reply⟩ :: past) (verdict digest reply) := by
  simp only [require, remoteDigest, Prog.ensures_bind, Prog.ensures_lift]
  refine forall_congr' fun reply => ?_
  cases hread : readDigest reply with
  | error e => simp [verdict, hread]
  | ok observed =>
    by_cases hd : observed = digest
    · simp [verdict, hread, hd]
    · simp [verdict, hread, hd]

theorem cacheAvailable_looked : (cacheAvailable h site cache digest).Ensures past fun past' r =>
    (r = .ok true → Found h site cache digest past') ∧
      (r = .ok false → LastOf Call.looks (SaysNo h site cache digest) past') := by
  have herror : ∀ e past', ((Except.error e : Except Raised Bool) = .ok true → Found h site cache digest past') ∧
      ((Except.error e : Except Raised Bool) = .ok false → LastOf Call.looks (SaysNo h site cache digest) past') :=
    fun e past' => ⟨by rintro ⟨⟩, by rintro ⟨⟩⟩
  unfold cacheAvailable
  refine path_ensures (herror · past) fun root hroot => path_ensures (herror · past) fun _ _ => path_ensures (herror · past) fun code hcode => ?_
  have hplace : cacheCode h site cache digest = .ok code := by
    rw [cacheCode, hroot]
    exact hcode
  simp only [query, Prog.ensures_bind, Prog.ensures_call, Prog.ensures_lift]
  intro reply
  cases hprobe : readCacheProbe reply with
  | error e => exact herror e _
  | ok present =>
    cases present with
    | false =>
      refine ⟨by rintro ⟨⟩, fun _ => ?_⟩
      rw [lastOf_cons_of_counts rfl]
      exact ⟨rfl, hroot, hprobe⟩
    | true =>
      dsimp only
      rw [if_pos rfl, Prog.ensures_bind, Prog.ensures_attempt, require_ensures]
      intro check
      cases hcheck : verdict digest check with
      | ok u => exact ⟨fun _ => ⟨code, check, hplace, List.mem_cons_self, hcheck⟩, by rintro ⟨⟩⟩
      | error e =>
        cases e with
        | integrity =>
          refine ⟨by rintro ⟨⟩, fun _ => ?_⟩
          rw [lastOf_cons_of_counts rfl]
          exact ⟨rfl, hplace, hcheck⟩
        | _ => exact herror _ _

theorem orderedReplicas_ensures : (orderedReplicas h site digest destination).Ensures past fun past' r =>
    ∀ candidates, r = .ok candidates → past ⊆ past' ∧ ∃ records known,
      (⟨.records digest site.name, .ok records⟩ : Exchange Call Answer) ∈ past' ∧
      replicas h site digest records = .ok known ∧ ∀ r ∈ known, r ∈ candidates := by
  simp only [orderedReplicas, query, Prog.ensures_bind, Prog.ensures_call, Prog.ensures_lift]
  rintro (e | records)
  · exact fun _ h => by cases h
  · dsimp only
    cases hknown : replicas h site digest records with
    | error e => exact fun _ h => by cases h
    | ok known =>
      rintro _ ⟨⟩
      exact ⟨List.subset_cons_self _ _, records, known, List.mem_cons_self, hknown,
        fun r hr => (perm_sortBy _ known).mem_iff.mpr hr⟩

/-! ## The loop over the replicas -/

/-- A route that did not serve is a failure. -/
theorem transferVerifiedRoutes_failed (route : DiscoveredRoute) (attempts : List TransferFailure) :
    (transferVerifiedRoutes h digest destination codeDir [route] [] attempts).Yields fun _ out =>
      out.selected = none → out.failures ≠ [] := by
  rw [transferVerifiedRoutes]
  refine Prog.yields_bind fun leg => ?_
  split
  · refine Prog.yields_bind fun _ => Prog.yields_bind fun _ => ?_
    rintro past _ ⟨⟩ hnone
    cases hnone
  · refine Prog.yields_bind fun _ => Prog.yields_bind fun _ => ?_
    rintro past _ ⟨⟩ -
    exact List.cons_ne_nil _ _
  · split
    · refine Prog.yields_bind fun _ => Prog.yields_bind fun _ => ?_
      rintro past _ ⟨⟩ -
      exact List.cons_ne_nil _ _
    · exact Prog.yields_raise _

/-- What the loop leaves behind when nothing served and nothing failed. -/
structure Searched (digest : String) (candidates : List ArtifactReplica) (acc out : LazyOutcome) (past past' : History) :
    Prop where
  failures : acc.failures = []
  kept : past ⊆ past'
  unwritten : Unwritten past → Unwritten past'
  ruled : out.unavailable = [] → acc.unavailable = [] ∧ ∀ r ∈ candidates, RuledOut digest past' r

theorem Searched.cons {replica : ArtifactReplica} {rest : List ArtifactReplica} {acc acc' out : LazyOutcome}
    {middle : History} (hs : Searched digest rest acc' out middle past') (hfailures : acc'.failures = acc.failures)
    (hsub : past ⊆ middle) (hun : Unwritten past → Unwritten middle)
    (hruled : acc'.unavailable = [] → acc.unavailable = [] ∧ RuledOut digest middle replica) :
    Searched digest (replica :: rest) acc out past past' where
  failures := hfailures.symm.trans hs.failures
  kept := List.Subset.trans hsub hs.kept
  unwritten hpast := hs.unwritten (hun hpast)
  ruled hnone := by
    obtain ⟨hacc, hrest⟩ := hs.ruled hnone
    obtain ⟨hacc', hreplica⟩ := hruled hacc
    exact ⟨hacc', List.forall_mem_cons.mpr ⟨hreplica.mono hs.kept, hrest⟩⟩

/-- Each replica either serves, fails, could not be looked at, or is ruled out. -/
theorem transferLazyReplicas_searched (candidates : List ArtifactReplica) (acc : LazyOutcome) (past : History) :
    (transferLazyReplicas h digest destination codeDir candidates acc).Ensures past fun past' r =>
      ∀ out, r = .ok out → out.selected = none → out.failures = [] → Searched digest candidates acc out past past' := by
  induction candidates generalizing acc past with
  | nil =>
    rintro _ ⟨⟩ - hfailures
    exact ⟨hfailures, List.Subset.refl _, id, fun hnone => ⟨hnone, List.forall_mem_nil _⟩⟩
  | cons replica rest ih =>
    have hskip : ∀ (acc' : LazyOutcome) (middle : History), acc'.failures = acc.failures → past ⊆ middle →
        (Unwritten past → Unwritten middle) →
        (acc'.unavailable = [] → acc.unavailable = [] ∧ RuledOut digest middle replica) →
        (transferLazyReplicas h digest destination codeDir rest acc').Ensures middle fun past' r =>
          ∀ out, r = .ok out → out.selected = none → out.failures = [] →
            Searched digest (replica :: rest) acc out past past' :=
      fun acc' middle hfailures hsub hun hruled => (ih acc' middle).mono fun past' r hr out hout hnone hfine =>
        (hr out hout hnone hfine).cons hfailures hsub hun hruled
    have hunavailable : ∀ (e : Raised) {P : Prop}, acc.unavailable ++ [e] = [] → P := fun e _ he =>
      absurd he (List.append_ne_nil_of_right_ne_nil _ (List.cons_ne_nil _ _))
    rw [transferLazyReplicas, replicaPresent]
    simp only [Prog.ensures_bind, Prog.ensures_attempt, query, Prog.ensures_call, Prog.ensures_lift]
    intro reply
    have hfirst : past ⊆ ⟨.present replica, reply⟩ :: past ∧
        (Unwritten past → Unwritten (⟨.present replica, reply⟩ :: past)) :=
      ⟨List.subset_cons_self _ _, fun hpast => List.forall_mem_cons.mpr ⟨rfl, hpast⟩⟩
    cases hpresent : readPresent reply with
    | error e =>
      dsimp only
      split
      · exact hskip _ _ rfl hfirst.1 hfirst.2 (hunavailable e)
      · exact fun _ h => by cases h
    | ok present =>
      cases present with
      | false =>
        exact hskip _ _ rfl hfirst.1 hfirst.2 fun hnone => ⟨hnone, .inl ⟨reply, List.mem_cons_self, hpresent⟩⟩
      | true =>
        dsimp only
        rw [Prog.ensures_bind, Prog.ensures_attempt]
        refine (quiet_frame (discoverRoute_quiet replica)).mono fun middle found hkept => ?_
        have hsub := List.Subset.trans hfirst.1 hkept.1
        have hun := hkept.2 ∘ hfirst.2
        cases found with
        | error e =>
          dsimp only
          split
          · exact hskip _ _ rfl hsub hun (hunavailable e)
          · exact fun _ h => by cases h
        | ok route =>
          dsimp only
          rw [Prog.ensures_bind, Prog.ensures_attempt, require_ensures]
          intro check
          have hlooked : past ⊆ ⟨.digest replica.node replica.codeDir, check⟩ :: middle ∧
              (Unwritten past → Unwritten (⟨.digest replica.node replica.codeDir, check⟩ :: middle)) :=
            ⟨List.subset_cons_of_subset _ hsub, fun hpast => List.forall_mem_cons.mpr ⟨rfl, hun hpast⟩⟩
          cases hcheck : verdict digest check with
          | ok u =>
            dsimp only
            rw [Prog.ensures_bind]
            refine (transferVerifiedRoutes_failed route acc.attempts _).mono fun after out hout => ?_
            cases out with
            | error e => exact fun _ h => by cases h
            | ok out =>
              dsimp only
              split
              · rintro _ ⟨⟩ hnone
                cases hnone
              · rename_i hnone
                refine (ih _ after).mono fun past' r hr out' hout' hnone' hfine => ?_
                have hfailed := (hr out' hout' hnone' hfine).failures
                exact absurd (List.append_eq_nil_iff.mp hfailed).2 (hout out rfl hnone)
          | error e =>
            cases e with
            | integrity =>
              exact hskip _ _ rfl hlooked.1 hlooked.2 fun hnone => ⟨hnone, .inr ⟨check, List.mem_cons_self, hcheck⟩⟩
            | _ =>
              dsimp only
              split
              · exact hskip _ _ rfl hlooked.1 hlooked.2 (hunavailable _)
              · exact fun _ h => by cases h

/-! ## The run -/

/-- Whether an upload begins. -/
def Call.prepares : Call → Bool
  | .prepare .. => true
  | _ => false

/-- Every upload so far was a last resort. -/
abbrev Sparing (h : Head) (site : Site) (digest : String) : History → Prop :=
  Throughout fun past c => ∀ cache staging, c = .prepare cache staging → LastResort h site cache digest past

theorem query_sparing {c : Call} (hc : c.prepares = false) : (query c).Keeps (Sparing h site digest) :=
  (asks_query.mpr hc : (query c).Asks (·.prepares = false)).keeps fun _ _ _ hc hpast =>
    ⟨fun _ _ heq => absurd ((congrArg Call.prepares heq).symm.trans hc) Bool.false_ne_true.symm, hpast⟩

theorem guards_sparing : GuardsInside site digest destination fun _ => Sparing h site digest :=
  guardsInside_of_calls fun c hc =>
    query_sparing (by cases c <;> first | rfl | exact absurd hc.symm Bool.false_ne_true)

theorem quiet_sparing {α : Type} {p : M α} (hp : Quiet p) : p.Keeps (Sparing h site digest) :=
  hp.keeps fun past c a hc hpast =>
    query_sparing (by cases c <;> first | rfl | exact absurd hc Bool.false_ne_true) past hpast a

theorem sparing_of_unwritten (hpast : Unwritten past) : Sparing h site digest past :=
  throughout_iff.mpr fun later e earlier heq cache staging hcall => by
    have hw := hpast e (heq ▸ List.mem_append_right _ List.mem_cons_self)
    rw [hcall] at hw
    cases hw

theorem populateCache_sparing (hs : Sparing h site digest past) (hlast : LastResort h site cache digest past) :
    (populateCache h site cache digest).Ensures past fun past' _ => Sparing h site digest past' := by
  have hpath : ∀ x, (path x).Keeps (Sparing h site digest) := fun x => quiet_sparing (path_quiet x)
  have huuid : (query .uuid).Keeps (Sparing h site digest) := query_sparing rfl
  have herror : ∀ e : Raised, Sparing h site digest past := fun _ => hs
  unfold populateCache
  refine path_ensures herror fun base _ => path_ensures herror fun final _ => path_ensures herror fun staging _ =>
    path_ensures herror fun code _ => path_ensures herror fun _ _ => ?_
  rw [Prog.ensures_bind, ensures_query]
  intro reply
  have hprepared : Sparing h site digest (⟨.prepare cache staging, reply⟩ :: past) := by
    refine ⟨?_, hs⟩
    rintro _ _ ⟨⟩
    exact hlast
  refine (Prog.keeps_done.bind fun _ => (verifiedTransfer_keeps (fun checksum => (query_sparing rfl).bind fun _ =>
    Prog.keeps_done.bind fun proc => ?_) (quiet_sparing (require_quiet ..))).bind fun transferred => ?_) _ hprepared
  · split
    · exact Prog.keeps_done
    · exact quiet_sparing ((recordLinkSample_quiet ..).bind fun _ => Prog.asks_pure)
  · exact huuid.bind fun _ => (hpath _).bind fun _ => huuid.bind fun _ => (hpath _).bind fun _ =>
      (query_sparing rfl).bind fun _ => Prog.keeps_done.bind fun _ => Prog.keeps_done

/-- The second look at the cache, with the lock of the site. -/
theorem upload_sparing {outcome : LazyOutcome} {records : List Dt.Jobs.ReplicaIndex.ArtifactReplicaRecord}
    {known : List ArtifactReplica} (hun : Unwritten past)
    (hrecords : (⟨.records digest site.name, .ok records⟩ : Exchange Call Answer) ∈ past)
    (hknown : replicas h site digest records = .ok known)
    (hsearched : (∀ r ∈ known, RuledOut digest past r) ∨ Found h site cache digest past) :
    (withLock (.site site.name digest) do
      if ← cacheAvailable h site cache digest then return (0, outcome.files, false)
      let moved ← populateCache h site cache digest
      return (moved.1, moved.2, true) : M (Nat × Option Nat × Bool)).Ensures past fun past' _ =>
        Sparing h site digest past' := by
  have hs : Sparing h site digest past := sparing_of_unwritten hun
  refine withLock_ensures (fun e => ⟨fun _ _ => by rintro ⟨⟩, hs⟩) (fun u => ?_)
    fun _ _ _ hs' => ⟨fun _ _ => by rintro ⟨⟩, hs'⟩
  rw [Prog.ensures_bind]
  refine ((quiet_frame (cacheAvailable_quiet cache)).and cacheAvailable_looked).mono fun middle r hlooked => ?_
  obtain ⟨⟨hsub, hkeep⟩, -, hno⟩ := hlooked
  have hun' : Unwritten middle := hkeep (List.forall_mem_cons.mpr ⟨rfl, hun⟩)
  have hs' : Sparing h site digest middle := sparing_of_unwritten hun'
  have hkept : past ⊆ middle := List.Subset.trans (List.subset_cons_self _ _) hsub
  rcases r with e | _ | _
  · exact hs'
  · have hlast : LastResort h site cache digest middle := by
      refine ⟨hun', hno rfl, records, known, hkept hrecords, hknown, ?_⟩
      exact hsearched.imp (fun hruled r hr => (hruled r hr).mono hkept) (·.mono hkept)
    dsimp only
    rw [if_neg Bool.false_ne_true, Prog.ensures_bind]
    exact (populateCache_sparing hs' hlast).mono fun past' r hr => by cases r <;> exact hr
  · exact hs'

theorem serveFromCache_sparing {outcome : LazyOutcome} {records : List Dt.Jobs.ReplicaIndex.ArtifactReplicaRecord}
    {known : List ArtifactReplica} (hs : Sparing h site digest past)
    (hrecords : (⟨.records digest site.name, .ok records⟩ : Exchange Call Answer) ∈ past)
    (hknown : replicas h site digest records = .ok known)
    (hsearched : outcome.failures = [] → Unwritten past ∧
      (outcome.unavailable = [] → ∀ r ∈ known, RuledOut digest past r)) :
    (serveFromCache h site cache digest outcome).Ensures past fun past' _ => Sparing h site digest past' := by
  unfold serveFromCache
  dsimp only
  by_cases hfailures : outcome.failures = []
  · obtain ⟨hun, hruled⟩ := hsearched hfailures
    rw [if_neg (not_not.mpr hfailures)]
    by_cases hunavailable : outcome.unavailable = []
    · rw [if_neg (not_not.mpr hunavailable)]
      exact upload_sparing hun hrecords hknown (.inl (hruled hunavailable))
    · rw [if_pos hunavailable, Prog.ensures_bind]
      refine ((quiet_frame (cacheAvailable_quiet cache)).and cacheAvailable_looked).mono fun middle r hlooked => ?_
      obtain ⟨⟨hsub, hkeep⟩, hyes, -⟩ := hlooked
      have hun' : Unwritten middle := hkeep hun
      rcases r with e | _ | _
      · exact sparing_of_unwritten hun'
      · exact sparing_of_unwritten hun'
      · exact upload_sparing hun' (hsub hrecords) hknown (.inr (hyes rfl))
  · rw [if_pos hfailures]
    exact hs

theorem topologyAwareTransfer_sparing (hun : Unwritten past) :
    (topologyAwareTransfer h digest site destination codeDir).Ensures past fun past' _ => Sparing h site digest past' := by
  have hlower : ∀ l ∈ [Lock.destination site.name digest destination.name], 0 < l.level := destination_lower
  unfold topologyAwareTransfer
  rw [Prog.ensures_bind]
  refine (quiet_frame destinationLocalHit_quiet).mono fun past₁ hit hkept => ?_
  have hun₁ : Unwritten past₁ := hkept.2 hun
  rcases hit with e | _ | result
  · exact sparing_of_unwritten hun₁
  · dsimp only
    cases (h.topology.node site.cacheNode).mapError (Raised.config ∘ .topology) with
    | error e => exact sparing_of_unwritten hun₁
    | ok cache =>
      rw [Prog.lift_ok_bind, Prog.ensures_bind]
      refine ((quiet_frame orderedReplicas_quiet).and orderedReplicas_ensures).mono fun past₂ r hfound => ?_
      obtain ⟨⟨-, hun₂⟩, hordered⟩ := hfound
      have hun₂ : Unwritten past₂ := hun₂ hun₁
      rcases r with e | candidates
      · exact sparing_of_unwritten hun₂
      · obtain ⟨-, records, known, hrecords, hknown, hcandidates⟩ := hordered candidates rfl
        dsimp only
        rw [Prog.ensures_bind]
        have hlazy : (transferLazyReplicas h digest destination codeDir candidates {}).Keeps (Sparing h site digest) :=
          transferLazyReplicas_keeps guards_sparing List.mem_cons_self hlower candidates {}
        refine (((hlazy past₂ (sparing_of_unwritten hun₂)).and
          (transferLazyReplicas_searched candidates {} past₂)).and Prog.ensures_extends).mono fun past₃ r hafter => ?_
        obtain ⟨⟨hs, hsearched⟩, hsub⟩ := hafter
        rcases r with e | outcome
        · exact hs
        · dsimp only
          split
          · exact quiet_sparing topologyResult_quiet past₃ hs
          · rename_i hnone
            rw [Prog.ensures_bind]
            have hruled : outcome.failures = [] → Unwritten past₃ ∧
                (outcome.unavailable = [] → ∀ r ∈ known, RuledOut digest past₃ r) := fun hfailures => by
              obtain ⟨-, -, hun₃, hall⟩ := hsearched outcome rfl hnone hfailures
              exact ⟨hun₃ hun₂, fun hnone r hr => (hall hnone).2 r (hcandidates r hr)⟩
            refine (serveFromCache_sparing hs (hsub hrecords) hknown hruled).mono fun past₄ served hs => ?_
            rcases served with e | served
            · exact hs
            · refine ((quiet_sparing (path_quiet _)).bind fun code => ((quiet_sparing (discoverRoute_quiet _)).handle
                fun _ => Prog.keeps_done).bind fun route => (transferVerifiedRoutes_keeps guards_sparing
                  List.mem_cons_self hlower _ _ _).bind fun out => ?_) past₄ hs
              split
              · exact Prog.keeps_done
              · exact quiet_sparing topologyResult_quiet
  · exact sparing_of_unwritten hun₁

theorem directFallback_sparing : (withLock (.destination site.name digest destination.name)
    (directFallback h digest destination codeDir)).Keeps (Sparing h site digest) := by
  refine withLock_keeps (query_sparing rfl) (query_sparing rfl) ((verifiedTransfer_keeps (fun checksum =>
    (query_sparing rfl).bind fun _ => Prog.keeps_done.bind fun proc => ?_)
      (quiet_sparing (require_quiet ..))).bind fun _ => Prog.keeps_done)
  split
  · exact Prog.keeps_done
  · exact quiet_sparing ((recordLinkSample_quiet ..).bind fun _ => Prog.asks_pure)

theorem ensureByPolicy_sparing (hsite : h.topology.siteFor destination = .ok (some site))
    (hpolicy : site.artifactPolicy = .topologyAware) :
    (ensureByPolicy h digest destination codeDir).Ensures [] fun past' _ => Sparing h site digest past' := by
  have hnil : Unwritten [] := List.forall_mem_nil _
  unfold ensureByPolicy
  split
  · exact trivial
  · rw [hsite]
    simp only [Except.mapError, Prog.lift_ok_bind, hpolicy]
    have hend : (do Prog.lift (← query .releaseCarried) : M Unit).Keeps (Sparing h site digest) :=
      (query_sparing rfl).bind fun _ => Prog.keeps_done
    refine withLock_ensures (fun e => ⟨fun _ _ => by rintro ⟨⟩, trivial⟩) (fun u => ?_)
      fun _ _ _ hs' => ⟨fun _ _ => by rintro ⟨⟩, hs'⟩
    rw [ensureTopologyAware, Prog.ensures_ensuring]
    refine (topologyAwareTransfer_sparing (List.forall_mem_cons.mpr ⟨rfl, hnil⟩)).mono fun past₁ r hs₁ => ?_
    refine (hend past₁ hs₁).mono fun past₂ r₂ hs₂ => ?_
    cases r₂ <;> exact hs₂

theorem ensure_sparing (hsite : h.topology.siteFor destination = .ok (some site))
    (hpolicy : site.artifactPolicy = .topologyAware) :
    (ensure h digest destination codeDir).Ensures [] fun past' _ => Sparing h site digest past' := by
  have hjournal : ∀ {α : Type} (succeeded : Bool) (r : Except Raised α),
      (do Prog.lift (← query (.journal succeeded)); Prog.lift r : M α).Keeps (Sparing h site digest) :=
    fun succeeded r => quiet_sparing (journal_quiet succeeded r)
  unfold ensure
  rw [Prog.ensures_bind, Prog.ensures_attempt]
  refine (ensureByPolicy_sparing hsite hpolicy).mono fun past r hs => ?_
  rcases r with e | result
  · dsimp only
    split
    · exact hjournal false (.error e) past hs
    · rename_i site' hfallback
      obtain rfl := fallbackSite_eq hsite hfallback
      refine (directFallback_sparing.attempt.bind fun r => ?_) past hs
      split
      · exact hjournal true (.ok _)
      · exact hjournal false (.error _)
  · exact hjournal true (.ok result) past hs

end

/-- Whatever is answered, under the topology-aware policy an upload into the site is a last resort. -/
theorem upload_lastResort (h : Head) (digest : String) (destination : Node) (codeDir : String)
    (answer : History → (c : Call) → Answer c) :
    Throughout (fun past c => ∀ cache staging site, c = .prepare cache staging →
        h.topology.siteFor destination = .ok (some site) → site.artifactPolicy = .topologyAware →
        LastResort h site cache digest past)
      ((ensure h digest destination codeDir).run answer []).1 := by
  refine throughout_iff.mpr fun later e past hrun cache staging site hcall hsite hpolicy => ?_
  have hs : (ensure h digest destination codeDir).Ensures [] fun past' _ => Sparing h site digest past' :=
    ensure_sparing hsite hpolicy
  exact throughout_iff.mp (hs.run answer) _ _ _ hrun cache staging hcall

end Dt.Distribution
