import Dt.Distribution.Executor

/-!
# The parts of the executor

Most parts write nothing and take no lock. A write is either a leg to the destination, from inside of the site or from
the head, or a write to the cache of the site. An invariant that each kind of question keeps, and that goes with the
locks, is kept by the whole of `ensure`: `Guards` says what it takes, and the parts are gone through once, here.
-/

namespace Dt.Distribution

open Dt.Lib Dt.Topology

/-- The place of a lock in the order: a lock is taken when all held ones are above it. -/
def Lock.level : Lock → Nat
  | .destination .. => 2
  | .site .. => 1
  | .job _ => 0

/-- A command that writes on a node. -/
def Call.writes : Call → Bool
  | .prepare .. | .upload .. | .publish .. | .fanout .. | .p2p .. | .direct .. => true
  | _ => false

/-- A write to the site cache. -/
def Call.uploads : Call → Bool
  | .prepare .. | .upload .. | .publish .. => true
  | _ => false

/-- A command that brings bytes from the head. -/
def Call.crosses : Call → Bool
  | .prepare .. | .upload .. | .publish .. | .direct .. => true
  | _ => false

/-- A leg inside of the site. -/
def Call.isSiteLeg : Call → Bool
  | .fanout .. | .p2p .. => true
  | _ => false

/-- Neither a lock is taken nor one is given back. -/
def Call.isWork : Call → Bool
  | .lock _ | .unlock _ => false
  | _ => true

/-- Neither a lock nor a write. -/
def Call.isQuiet (c : Call) : Bool := c.isWork && !c.writes

section

variable {h : Head} {digest : String} {destination : Node} {codeDir : String} {site : Site}

abbrev Quiet {α : Type} (p : M α) : Prop := p.Asks fun c => c.isQuiet = true

theorem path_quiet (x : Except String String) : Quiet (path x) := Prog.asks_lift

theorem query_quiet {α : Type} {c : Call} {f : Answer c → M α} (hc : c.isQuiet = true) (hf : ∀ a, Quiet (f a)) :
    Quiet (query c >>= f) :=
  (asks_query.mpr hc).bind hf

theorem remoteDigest_quiet (node : Node) (dir : String) : Quiet (remoteDigest node dir) :=
  query_quiet rfl fun _ => Prog.asks_lift

theorem require_quiet (node : Node) (dir expected : String) : Quiet (require node dir expected) :=
  (remoteDigest_quiet node dir).bind fun observed => by
    split
    · exact Prog.asks_raise
    · exact Prog.asks_pure

theorem recordLinkSample_quiet (source target : String) (bytes : Nat) :
    Quiet (recordLinkSample source target bytes) :=
  query_quiet rfl fun reply => by
    split
    · exact Prog.asks_pure
    · exact Prog.asks_lift

theorem cacheAvailable_quiet (cache : Node) : Quiet (cacheAvailable h site cache digest) :=
  (path_quiet _).bind fun _ => (path_quiet _).bind fun _ => (path_quiet _).bind fun code =>
    query_quiet rfl fun _ => Prog.asks_lift.bind fun present => by
      split
      · refine (require_quiet cache code digest).attempt.bind fun checked => ?_
        split
        · exact Prog.asks_pure
        · exact Prog.asks_pure
        · exact Prog.asks_raise
      · exact Prog.asks_pure

theorem orderedReplicas_quiet : Quiet (orderedReplicas h site digest destination) :=
  query_quiet rfl fun _ => Prog.asks_lift.bind fun _ => Prog.asks_lift.bind fun _ => Prog.asks_pure

theorem replicaPresent_quiet (replica : ArtifactReplica) : Quiet (replicaPresent replica) :=
  query_quiet rfl fun _ => Prog.asks_lift

theorem discoverRoute_quiet (replica : ArtifactReplica) : Quiet (discoverRoute replica destination) := by
  unfold discoverRoute
  split
  · exact Prog.asks_pure
  · refine query_quiet rfl fun _ => Prog.asks_lift.bind fun found => ?_
    obtain ⟨endpoint, healthy, latency⟩ := found
    dsimp only
    split
    · exact Prog.asks_raise
    · exact Prog.asks_pure

theorem topologyResult_quiet {selected : DiscoveredRoute} {cross bytes : Nat} {files : Option Nat} {cold : Bool}
    {attempts : List TransferFailure} :
    Quiet (topologyResult h digest site destination selected cross bytes files cold attempts) :=
  Prog.asks_lift.bind fun _ => Prog.asks_pure

theorem destinationLocalHit_quiet : Quiet (destinationLocalHit h digest site destination codeDir) := by
  refine (remoteDigest_quiet destination codeDir).attempt.bind fun r => ?_
  split
  · split
    · exact Prog.asks_pure
    · exact Prog.asks_raise
  · dsimp only
    split
    · exact Prog.asks_pure
    · exact Prog.asks_lift.bind fun _ => Prog.asks_pure

end

/-! ## Paths and locks -/

theorem path_keeps {α : Type} {I : History → Prop} {x : Except String String} {f : String → M α}
    (hf : ∀ a, x = .ok a → (f a).Keeps I) : (path x >>= f).Keeps I :=
  Prog.keeps_lift_bind fun a ha => hf a (by cases x <;> cases ha; rfl)

theorem path_ensures {α : Type} {x : Except String String} {f : String → M α} {past : History}
    {post : History → Except Raised α → Prop} (herror : ∀ e, post past (.error e))
    (hf : ∀ a, x = .ok a → (f a).Ensures past post) : (path x >>= f).Ensures past post := by
  cases x with
  | error e => exact herror _
  | ok a => exact hf a rfl

theorem withLock_keeps {α : Type} {I : History → Prop} {l : Lock} {body : M α} (hlock : (query (.lock l)).Keeps I)
    (hunlock : (query (.unlock l)).Keeps I) (hbody : body.Keeps I) : (withLock l body).Keeps I :=
  hlock.bind fun _ => Prog.keeps_done.bind fun _ => hbody.ensuring hunlock

/-- What the body leaves, if the lock being given back does not matter. -/
theorem withLock_ensures {α : Type} {l : Lock} {body : M α} {past : History} {J : History → Except Raised α → Prop}
    (hfail : ∀ e, J (⟨.lock l, .error e⟩ :: past) (.error e))
    (hbody : ∀ u, body.Ensures (⟨.lock l, .ok u⟩ :: past) J)
    (hunlock : ∀ past' r u, J past' r → J (⟨.unlock l, u⟩ :: past') r) : (withLock l body).Ensures past J := by
  rw [withLock, Prog.ensures_bind, ensures_query]
  rintro (e | u)
  · exact hfail e
  · dsimp only
    rw [Prog.lift_ok_bind, Prog.ensures_ensuring]
    refine (hbody u).mono fun past' r hr => ?_
    rw [ensures_query]
    exact fun u' => hunlock past' r u' hr

/-! ## Programs with a transfer -/

section

variable {h : Head}

theorem verifiedTransfer_keeps {I : History → Prop} {transfer : Bool → M (Nat × Option Nat)} {verify : M Unit}
    (htransfer : ∀ checksum, (transfer checksum).Keeps I) (hverify : verify.Keeps I) :
    (verifiedTransfer transfer verify).Keeps I := by
  refine (htransfer false).bind fun first => hverify.attempt.bind fun checked => ?_
  split
  · exact Prog.keeps_done
  · refine (htransfer true).bind fun repaired => hverify.attempt.bind fun checked => ?_
    split <;> exact Prog.keeps_done
  · exact Prog.keeps_done

theorem relayLoop_keeps {I : History → Prop} {once : M (Except Raised Completed)} {failed : Raised → Raised}
    {refused : Completed → Raised} {done : Nat × Option Nat → M Unit} (honce : once.Keeps I)
    (hdone : ∀ report, (done report).Keeps I) (left : Nat) : (relayLoop h once failed refused done left).Keeps I := by
  have hattempt : ∀ onFailure : Completed → M (Nat × Option Nat), (∀ last, (onFailure last).Keeps I) →
      (relayOnce h once failed done onFailure).Keeps I := fun onFailure hfailure =>
    honce.bind fun reply => by
      split
      · exact Prog.keeps_done
      · split
        · exact (hdone _).bind fun _ => Prog.keeps_done
        · exact hfailure _
  induction left with
  | zero => exact hattempt _ fun _ => Prog.keeps_done
  | succ left ih =>
    refine hattempt _ fun last => ?_
    split
    · exact ih
    · exact Prog.keeps_done

end

/-! ## The parts under an invariant -/

/-- An invariant for each list of held locks, kept inside of the site. -/
structure GuardsInside (site : Site) (digest : String) (destination : Node) (I : List Lock → History → Prop) : Prop where
  quiet : ∀ {locks c}, c.isQuiet = true → (query c).Keeps (I locks)
  leg : ∀ {locks c}, c.isSiteLeg = true → Lock.destination site.name digest destination.name ∈ locks →
    (query c).Keeps (I locks)
  lock : ∀ {α : Type} {locks l} {body : M α}, (∀ l' ∈ locks, l.level < l'.level) → body.Keeps (I (l :: locks)) →
    (withLock l body).Keeps (I locks)

/-- An invariant that is kept by what crosses into the site as well. -/
structure Guards (h : Head) (site : Site) (digest : String) (destination : Node) (I : List Lock → History → Prop) : Prop
    extends GuardsInside site digest destination I where
  populate : ∀ {locks} (cache : Node), Lock.destination site.name digest destination.name ∈ locks →
    Lock.site site.name digest ∈ locks → (populateCache h site cache digest).Keeps (I locks)
  direct : ∀ {locks} (codeDir : String) (checksum : Bool),
    Lock.destination site.name digest destination.name ∈ locks →
    (query (.direct destination codeDir checksum)).Keeps (I locks)

/-- An invariant of every upload, by its questions. -/
theorem populateCache_keeps {h : Head} {site : Site} {digest : String} {I : History → Prop} (cache : Node)
    (hI : ∀ c : Call, c.isQuiet = true ∨ c.uploads = true → (query c).Keeps I) :
    (populateCache h site cache digest).Keeps I := by
  have hquiet : ∀ {α : Type} {p : M α}, Quiet p → p.Keeps I := fun hp =>
    hp.keeps fun past c a hc hpast => hI c (.inl hc) past hpast a
  have hpath : ∀ x, (path x).Keeps I := fun x => hquiet (path_quiet x)
  have huuid : (query .uuid).Keeps I := hI _ (.inl rfl)
  refine (hpath _).bind fun base => (hpath _).bind fun final => (hpath _).bind fun staging =>
    (hpath _).bind fun stagingCode => (hpath _).bind fun _ => (hI _ (.inr rfl)).bind fun _ => Prog.keeps_done.bind fun _ => ?_
  refine (verifiedTransfer_keeps (fun checksum => (hI _ (.inr rfl)).bind fun _ => Prog.keeps_done.bind fun proc => ?_)
    (hquiet (require_quiet ..))).bind fun transferred => ?_
  · split
    · exact Prog.keeps_done
    · exact hquiet ((recordLinkSample_quiet ..).bind fun _ => Prog.asks_pure)
  · exact huuid.bind fun _ => (hpath _).bind fun _ => huuid.bind fun _ => (hpath _).bind fun _ =>
      (hI _ (.inr rfl)).bind fun _ => Prog.keeps_done.bind fun _ => Prog.keeps_done

/-- An invariant that does not look at the locks, by its questions. -/
theorem guardsInside_of_calls {site : Site} {digest : String} {destination : Node} {I : History → Prop}
    (hI : ∀ c : Call, c.crosses = false → (query c).Keeps I) :
    GuardsInside site digest destination fun _ => I where
  quiet {_ c} hc := hI c (by cases c <;> first | rfl | exact absurd hc Bool.false_ne_true)
  leg {_ c} hc _ := hI c (by cases c <;> first | rfl | exact absurd hc Bool.false_ne_true)
  lock _ hbody := withLock_keeps (hI _ rfl) (hI _ rfl) hbody

theorem guards_of_calls {h : Head} {site : Site} {digest : String} {destination : Node} {I : History → Prop}
    (hI : ∀ c : Call, c.uploads = false → (query c).Keeps I)
    (hpopulate : ∀ cache, (populateCache h site cache digest).Keeps I) :
    Guards h site digest destination fun _ => I where
  toGuardsInside := guardsInside_of_calls fun c hc =>
    hI c (by cases c <;> first | rfl | exact absurd hc.symm Bool.false_ne_true)
  populate cache _ _ := hpopulate cache
  direct _ _ _ := hI _ rfl

section

variable {h : Head} {digest : String} {destination : Node} {codeDir : String} {locks : List Lock} {site : Site}
  {I : List Lock → History → Prop} (hI : GuardsInside site digest destination I)

include hI

theorem GuardsInside.keeps {α : Type} {p : M α} (hp : Quiet p) : p.Keeps (I locks) :=
  hp.keeps fun past _ a hc hpast => hI.quiet hc past hpast a

theorem p2pTransfer_keeps (hlock : Lock.destination site.name digest destination.name ∈ locks) (route : DiscoveredRoute)
    (checksum : Bool) :
    (p2pTransfer h route destination codeDir checksum).Keeps (I locks) := by
  unfold p2pTransfer
  dsimp only
  split
  · exact Prog.keeps_done
  · refine relayLoop_keeps (hI.leg rfl hlock) (fun report => hI.keeps (Prog.asks_lift.bind fun found => ?_)) 2
    split
    · exact recordLinkSample_quiet ..
    · exact Prog.asks_pure

theorem fanout_keeps (hlock : Lock.destination site.name digest destination.name ∈ locks) (cache : Node)
    (checksum : Bool) :
    (fanout h site cache destination digest codeDir checksum).Keeps (I locks) := by
  refine (hI.keeps (path_quiet _)).bind fun cacheCode => ?_
  dsimp only
  split
  · exact Prog.keeps_done
  · refine relayLoop_keeps (hI.leg rfl hlock) (fun report => ?_) 2
    split
    · exact hI.keeps (recordLinkSample_quiet ..)
    · exact Prog.keeps_done

/-- The lock of a peer's job is the lowest. -/
theorem retainPeerSource_keeps {α : Type} {replica : ArtifactReplica} {body : M α}
    (horder : ∀ l ∈ locks, 0 < l.level) (hbody : body.Keeps (I locks))
    (hretained : ∀ job, body.Keeps (I (.job job :: locks))) :
    (retainPeerSource replica digest body).Keeps (I locks) := by
  unfold retainPeerSource
  split
  · rename_i job _ _
    have hload : (query (.load job)).Keeps (I (.job job :: locks)) :=
      hI.keeps (asks_query.mpr rfl)
    refine hI.lock horder (hload.bind fun _ => Prog.keeps_done.bind fun current => ?_)
    dsimp only
    split
    · exact Prog.keeps_done
    · exact (hI.keeps (require_quiet ..)).bind fun _ => hretained _
  · exact hbody

theorem transferVerifiedRoutes_keeps (hlock : Lock.destination site.name digest destination.name ∈ locks)
    (horder : ∀ l ∈ locks, 0 < l.level) (routes : List DiscoveredRoute) (failures : List Raised)
    (attempts : List TransferFailure) :
    (transferVerifiedRoutes h digest destination codeDir routes failures attempts).Keeps
      (I locks) := by
  induction routes generalizing failures attempts with
  | nil => exact Prog.keeps_done
  | cons route routes ih =>
    have hbody : ∀ locks', Lock.destination site.name digest destination.name ∈ locks' →
        (verifiedTransfer (p2pTransfer h route destination codeDir) (require destination codeDir digest)).Keeps
          (I locks') := fun locks' hlock' =>
      verifiedTransfer_keeps (p2pTransfer_keeps hI hlock' route) (hI.keeps (require_quiet ..))
    have hsettle : ∀ c : Call, c.isQuiet = true → (query c).Keeps (I locks) :=
      fun c hc => hI.keeps (asks_query.mpr hc)
    rw [transferVerifiedRoutes]
    refine (retainPeerSource_keeps hI horder (hbody _ hlock)
      fun job => hbody _ (List.mem_cons_of_mem _ hlock)).attempt.bind fun leg => ?_
    split
    · exact (hsettle _ rfl).bind fun _ => Prog.keeps_done.bind fun _ => Prog.keeps_done
    · exact (hsettle _ rfl).bind fun _ => Prog.keeps_done.bind fun _ => ih _ _
    · split
      · exact (hsettle _ rfl).bind fun _ => Prog.keeps_done.bind fun _ => ih _ _
      · exact Prog.keeps_done

theorem transferLazyReplicas_keeps (hlock : Lock.destination site.name digest destination.name ∈ locks)
    (horder : ∀ l ∈ locks, 0 < l.level) (candidates : List ArtifactReplica) (acc : LazyOutcome) :
    (transferLazyReplicas h digest destination codeDir candidates acc).Keeps
      (I locks) := by
  induction candidates generalizing acc with
  | nil => exact Prog.keeps_done
  | cons replica rest ih =>
    rw [transferLazyReplicas]
    refine (hI.keeps (replicaPresent_quiet replica)).attempt.bind fun present => ?_
    split
    · split
      · exact ih _
      · exact Prog.keeps_done
    · exact ih _
    · refine (hI.keeps (discoverRoute_quiet replica)).attempt.bind fun found => ?_
      split
      · split
        · exact ih _
        · exact Prog.keeps_done
      · refine (hI.keeps (require_quiet ..)).attempt.bind fun checked => ?_
        split
        · exact ih _
        · split
          · exact ih _
          · exact Prog.keeps_done
        · refine (transferVerifiedRoutes_keeps hI hlock horder _ _ _).bind fun out => ?_
          dsimp only
          split
          · exact Prog.keeps_done
          · exact ih _

end

/-! ## The policies -/

section

variable {h : Head} {digest : String} {destination : Node} {codeDir : String} {locks : List Lock} {site : Site}
  {I : List Lock → History → Prop}

theorem destination_order :
    ∀ l ∈ [Lock.destination site.name digest destination.name], 1 < l.level := by
  intro l hl
  rw [List.mem_singleton.mp hl]
  exact Nat.one_lt_two

theorem destination_lower : ∀ l ∈ [Lock.destination site.name digest destination.name], 0 < l.level := fun l hl =>
  Nat.lt_of_succ_lt (destination_order l hl)

/-- The fallback takes the lock of the same site. -/
theorem fallbackSite_eq {e : Raised} {site' : Site} (hsite : h.topology.siteFor destination = .ok (some site))
    (hfallback : fallbackSite h digest destination e = some site') : site' = site := by
  unfold fallbackSite at hfallback
  rw [hsite] at hfallback
  dsimp only at hfallback
  split at hfallback
  · exact (Option.some.inj hfallback).symm
  · cases hfallback

theorem journal_quiet {α : Type} (succeeded : Bool) (end_ : Except Raised α) :
    Quiet (do Prog.lift (← query (.journal succeeded)); Prog.lift end_ : M α) :=
  query_quiet rfl fun _ => Prog.asks_lift.bind fun _ => Prog.asks_lift

/-- Without a site nothing is done but the journal. -/
theorem ensure_quiet (hsite : ∀ site, h.topology.siteFor destination ≠ .ok (some site)) :
    Quiet (ensure h digest destination codeDir) := by
  have hpolicy : Quiet (ensureByPolicy h digest destination codeDir) := by
    unfold ensureByPolicy
    split
    · exact Prog.asks_raise
    · match hfound : h.topology.siteFor destination with
      | .error e => exact Prog.asks_raise
      | .ok none => exact Prog.asks_raise
      | .ok (some site) => exact absurd hfound (hsite site)
  refine hpolicy.attempt.bind fun r => ?_
  split
  · exact journal_quiet true (.ok _)
  · rename_i e
    have hfallback : fallbackSite h digest destination e = none := by
      unfold fallbackSite
      split
      · exact absurd ‹_› (hsite _)
      · rfl
    rw [hfallback]
    exact journal_quiet false (.error e)

variable (hI : Guards h site digest destination I)

include hI

theorem serveFromCache_keeps (hlock : Lock.destination site.name digest destination.name ∈ locks)
    (horder : ∀ l ∈ locks, 1 < l.level) (cache : Node) (outcome : LazyOutcome) :
    (serveFromCache h site cache digest outcome).Keeps (I locks) := by
  have hinside : (do
      if ← cacheAvailable h site cache digest then return (0, outcome.files, false)
      let moved ← populateCache h site cache digest
      return (moved.1, moved.2, true) : M (Nat × Option Nat × Bool)).Keeps
        (I (.site site.name digest :: locks)) := by
    refine (hI.keeps (cacheAvailable_quiet cache)).bind fun hit => ?_
    split
    · exact Prog.keeps_done
    · exact (hI.populate cache (List.mem_cons_of_mem _ hlock) List.mem_cons_self).bind fun _ => Prog.keeps_done
  have hupload := hI.lock horder hinside
  unfold serveFromCache
  dsimp only
  split
  · exact Prog.keeps_done
  · split
    · refine (hI.keeps (cacheAvailable_quiet cache)).bind fun hit => ?_
      split
      · exact Prog.keeps_done
      · exact hupload
    · exact hupload

theorem topologyAwareTransfer_keeps (hlock : Lock.destination site.name digest destination.name ∈ locks)
    (horder : ∀ l ∈ locks, 1 < l.level) :
    (topologyAwareTransfer h digest site destination codeDir).Keeps (I locks) := by
  have hlower : ∀ l ∈ locks, 0 < l.level := fun l hl => Nat.lt_of_succ_lt (horder l hl)
  refine (hI.keeps destinationLocalHit_quiet).bind fun hit => ?_
  split
  · exact Prog.keeps_done
  · refine Prog.keeps_done.bind fun cache => (hI.keeps orderedReplicas_quiet).bind fun candidates =>
      (transferLazyReplicas_keeps hI.toGuardsInside hlock hlower candidates {}).bind fun outcome => ?_
    split
    · exact hI.keeps topologyResult_quiet
    · refine (serveFromCache_keeps hI hlock horder cache outcome).bind fun served =>
        (hI.keeps (path_quiet _)).bind fun code => ?_
      refine ((hI.keeps (discoverRoute_quiet _)).handle fun _ => Prog.keeps_done).bind fun route =>
        (transferVerifiedRoutes_keeps hI.toGuardsInside hlock hlower _ _ _).bind fun out => ?_
      split
      · exact Prog.keeps_done
      · exact hI.keeps topologyResult_quiet

theorem ensureTopologyAware_keeps :
    (ensureTopologyAware h digest site destination codeDir).Keeps
      (I [.destination site.name digest destination.name]) :=
  (topologyAwareTransfer_keeps hI List.mem_cons_self destination_order).ensuring
    ((hI.keeps (asks_query.mpr rfl)).bind fun _ => Prog.keeps_done)

theorem ensureSiteCacheFirst_keeps :
    (ensureSiteCacheFirst h digest site destination codeDir).Keeps (I []) := by
  refine Prog.keeps_done.bind fun cache => (hI.lock (List.forall_mem_nil _)
    ((hI.lock destination_order ?_).bind fun populated => ?_)).bind fun _ => Prog.keeps_done
  · refine (hI.keeps (cacheAvailable_quiet cache)).bind fun hit => Prog.keeps_done.bind fun plan => ?_
    split
    · exact Prog.keeps_done
    · exact (hI.populate cache (List.mem_cons_of_mem _ List.mem_cons_self) List.mem_cons_self).bind fun _ => Prog.keeps_done
  · exact (verifiedTransfer_keeps (fanout_keeps hI.toGuardsInside List.mem_cons_self cache)
      (hI.keeps (require_quiet ..))).bind fun _ => Prog.keeps_done

theorem directOnce_keeps (hlock : Lock.destination site.name digest destination.name ∈ locks) (checksum : Bool) :
    (directOnce h destination codeDir checksum).Keeps (I locks) := by
  refine (hI.direct _ _ hlock).bind fun _ => Prog.keeps_done.bind fun proc => ?_
  split
  · exact Prog.keeps_done
  · exact hI.keeps ((recordLinkSample_quiet ..).bind fun _ => Prog.asks_pure)

theorem directFallback_keeps :
    (withLock (.destination site.name digest destination.name) (directFallback h digest destination codeDir)).Keeps
      (I []) :=
  hI.lock (List.forall_mem_nil _) ((verifiedTransfer_keeps (directOnce_keeps hI List.mem_cons_self)
    (hI.keeps (require_quiet ..))).bind fun _ => Prog.keeps_done)

theorem ensureByPolicy_keeps (hsite : h.topology.siteFor destination = .ok (some site)) :
    (ensureByPolicy h digest destination codeDir).Keeps (I []) := by
  unfold ensureByPolicy
  split
  · exact Prog.keeps_done
  · rw [hsite]
    simp only [Except.mapError, Prog.lift_ok_bind]
    split
    · exact Prog.keeps_done
    · exact hI.lock (List.forall_mem_nil _) (ensureTopologyAware_keeps hI)
    · exact ensureSiteCacheFirst_keeps hI

theorem ensure_keeps (hsite : h.topology.siteFor destination = .ok (some site)) :
    (ensure h digest destination codeDir).Keeps (I []) := by
  refine (ensureByPolicy_keeps hI hsite).attempt.bind fun r => ?_
  split
  · exact hI.keeps (journal_quiet true (.ok _))
  · split
    · exact hI.keeps (journal_quiet false (.error _))
    · rename_i e _ site' hfallback
      obtain rfl := fallbackSite_eq hsite hfallback
      refine (directFallback_keeps hI).attempt.bind fun r => ?_
      split
      · exact hI.keeps (journal_quiet true (.ok _))
      · exact hI.keeps (journal_quiet false (.error _))

end

end Dt.Distribution
