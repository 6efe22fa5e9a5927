import Dt.Lib.Thresholds
import Dt.Dispatch.Placement
import Mathlib.Order.WithBot

/-!
# Cards of claims in flight

A claimed row has a node but no leases yet, so a probe still shows its cards free.
`_reserve_inflight_claims` hides as many free cards as live claims of other rows request, the first
ones that the probe lists. It does not look at the memory that the claims require, so what it leaves
for the next job can be the only cards that a claim can use.
-/

namespace Dt.Dispatch

open Dt.Lib Dt.Jobs

/-! ## Hiding cards -/

/-- The row of another job with a live claim that takes cards; `held` is
`_dispatch_claim_hold_reason(row) is not None`. -/
def claimsCards (held : JobEntry → Bool) (entry row : JobEntry) : Bool :=
  row.jobId ≠ entry.jobId && row.status = .queued && row.dispatchNode.isSome &&
    decide (0 < row.gpusRequested) && held row

/-- The claims on one node. -/
def claimsOn (held : JobEntry → Bool) (entry : JobEntry) (rows : List JobEntry) (node : String) :
    List JobEntry :=
  rows.filter fun row => claimsCards held entry row && row.dispatchNode = some node

/-- `reserved[node]`: the owner of each card. -/
def reservedOwners (held : JobEntry → Bool) (entry : JobEntry) (rows : List JobEntry) (node : String) :
    List JobId :=
  (claimsOn held entry rows node).flatMap fun row => List.replicate row.gpusRequested.toNat row.jobId

/-- The loop over the cards of a node. -/
def hideCards : List JobId → List Gpu → List Gpu
  | _, [] => []
  | [], gpu :: gpus => gpu :: hideCards [] gpus
  | owner :: owners, gpu :: gpus =>
    if gpu.free then { gpu with free := false } :: hideCards owners gpus
    else gpu :: hideCards (owner :: owners) gpus

def reserveOn (owners : List JobId) (s : NodeStatus) : NodeStatus :=
  if owners = [] ∨ s.error.isSome then s else { s with gpus := hideCards owners s.gpus }

/-- `_reserve_inflight_claims`; `rows` is `none` when the active rows cannot be read. -/
def reserveInflightClaims (held : JobEntry → Bool) (entry : JobEntry) (rows : Option (List JobEntry))
    (statuses : List NodeStatus) : List NodeStatus :=
  match rows with
  | none => statuses
  | some rows => statuses.map fun s => reserveOn (reservedOwners held entry rows s.node) s

theorem freeGpus_hideCards (owners : List JobId) (gpus : List Gpu) :
    (hideCards owners gpus).filter (·.free) = (gpus.filter (·.free)).drop owners.length := by
  induction gpus generalizing owners with
  | nil => cases owners <;> simp [hideCards]
  | cons gpu gpus ih =>
    cases owners with
    | nil =>
      have hrest := ih []
      rw [List.length_nil, List.drop_zero] at hrest ⊢
      rw [hideCards, List.filter_cons, List.filter_cons, hrest]
    | cons owner owners =>
      rw [hideCards]
      by_cases hfree : gpu.free = true
      · rw [if_pos hfree, List.filter_cons_of_neg (by simp), List.filter_cons_of_pos hfree, ih,
          List.length_cons, List.drop_succ_cons]
      · rw [if_neg hfree, List.filter_cons_of_neg hfree, List.filter_cons_of_neg hfree, ih]

/-- The free cards that are left in a probe without an error. -/
theorem freeGpus_reserveOn (owners : List JobId) (s : NodeStatus) :
    (reserveOn owners s).freeGpus =
      if s.error.isSome then s.freeGpus else s.freeGpus.drop owners.length := by
  unfold reserveOn
  by_cases herror : s.error.isSome
  · rw [if_pos (.inr herror), if_pos herror]
  · rw [if_neg herror]
    by_cases howners : owners = []
    · rw [if_pos (.inl howners), howners]
      rfl
    · rw [if_neg (not_or.mpr ⟨howners, herror⟩)]
      exact freeGpus_hideCards owners s.gpus

/-! ## Cards for the claims -/

/-- The memory a card has to have; without a minimum every card will do. -/
def minimumOf (minVramMib : Option Int) : WithBot Int := minVramMib

def Gpu.vram (gpu : Gpu) : WithBot Int := gpu.memTotalMib

/-- The minima of the claims on a node, one for each card. -/
def claimedMinima (held : JobEntry → Bool) (entry : JobEntry) (rows : List JobEntry) (node : String) :
    List (WithBot Int) :=
  (claimsOn held entry rows node).flatMap fun row =>
    List.replicate row.gpusRequested.toNat (minimumOf row.minVramMib)

/-- The minima of the cards of a candidate. -/
def wantedMinima (spec : RunSpec) : List (WithBot Int) :=
  List.replicate spec.gpus.toNat (minimumOf spec.minVramMib)

/-- When the free cards can serve the claims and the candidate, the candidate is placed only on cards
that leave enough for the claims. -/
def PlacesSafely (claimed : List (WithBot Int)) (s seen : NodeStatus) (spec : RunSpec) : Prop :=
  Met (claimed ++ wantedMinima spec) (s.freeGpus.map Gpu.vram) →
    ∀ taken left : List Gpu, taken.Sublist (eligibleFreeGpus seen spec) →
      taken.length = spec.gpus.toNat → s.freeGpus.Perm (taken ++ left) → Met claimed (left.map Gpu.vram)

/-- What the reservation is for, on one node. -/
structure ReservesFor (claimed : List (WithBot Int)) (s seen : NodeStatus) (spec : RunSpec) : Prop where
  hidden : seen.freeGpus.length + min s.freeGpus.length claimed.length = s.freeGpus.length
  safe : PlacesSafely claimed s seen spec

/-- The cards a candidate can take after the first free cards are hidden. -/
def cardsBehind (count : Nat) (s : NodeStatus) (spec : RunSpec) : List Gpu :=
  eligibleFreeGpus { s with gpus := s.freeGpus.drop count } spec

/-- No failed probe shows free cards of a claimed node; and behind the first cards the candidate finds
too few cards, or there are enough cards from each claimed minimum on for the claims and for as many as
the candidate can take of these. -/
structure LeavesEnough (claimed : List (WithBot Int)) (s : NodeStatus) (spec : RunSpec) : Prop where
  probed : s.error = none ∨ s.freeGpus = [] ∨ claimed = []
  enough : Met (claimed ++ wantedMinima spec) (s.freeGpus.map Gpu.vram) →
    spec.gpus.toNat ≤ (cardsBehind claimed.length s spec).length →
      ∀ t ∈ claimed, above t claimed +
        min spec.gpus.toNat (above t ((cardsBehind claimed.length s spec).map Gpu.vram)) ≤
          above t (s.freeGpus.map Gpu.vram)

theorem length_claimedMinima (held : JobEntry → Bool) (entry : JobEntry) (rows : List JobEntry)
    (node : String) : (claimedMinima held entry rows node).length =
      (reservedOwners held entry rows node).length := by
  simp [claimedMinima, reservedOwners, List.length_flatMap]

/-- The eligible cards are chosen from the free ones. -/
theorem eligibleFreeGpus_congr {s s' : NodeStatus} (spec : RunSpec) (hfree : s.freeGpus = s'.freeGpus)
    (herror : s.gpuInventoryError = s'.gpuInventoryError) :
    eligibleFreeGpus s spec = eligibleFreeGpus s' spec := by
  unfold eligibleFreeGpus
  rw [hfree, herror]

theorem eligibleFreeGpus_sublist (s : NodeStatus) (spec : RunSpec) :
    (eligibleFreeGpus s spec).Sublist s.freeGpus := by
  unfold eligibleFreeGpus
  split
  · exact List.nil_sublist _
  · split
    · exact List.Sublist.refl _
    · exact List.filter_sublist

theorem freeGpus_drop (s : NodeStatus) (count : Nat) :
    ({ s with gpus := s.freeGpus.drop count } : NodeStatus).freeGpus = s.freeGpus.drop count := by
  refine List.filter_eq_self.mpr fun gpu hgpu => ?_
  exact (List.mem_filter.mp (List.mem_of_mem_drop hgpu)).2

/-- The reservation of one node does what it is for exactly when it leaves enough. -/
theorem reservesFor_iff {claimed : List (WithBot Int)} {owners : List JobId} (s : NodeStatus)
    (spec : RunSpec) (hlen : claimed.length = owners.length) :
    ReservesFor claimed s (reserveOn owners s) spec ↔ LeavesEnough claimed s spec := by
  have hfree := freeGpus_reserveOn owners s
  rw [← hlen] at hfree
  have hprobed : (reserveOn owners s).freeGpus.length + min s.freeGpus.length claimed.length =
      s.freeGpus.length ↔ s.error = none ∨ s.freeGpus = [] ∨ claimed = [] := by
    rw [hfree, ← List.length_eq_zero_iff, ← List.length_eq_zero_iff]
    cases s.error with
    | none =>
      refine iff_of_true ?_ (.inl rfl)
      rw [if_neg (by simp), List.length_drop]
      omega
    | some e =>
      rw [if_pos (by simp)]
      simp only [reduceCtorEq, false_or]
      omega
  -- what the candidate can take is the same as behind the first cards
  have hpool : (s.error = none ∨ s.freeGpus = [] ∨ claimed = []) →
      eligibleFreeGpus (reserveOn owners s) spec = cardsBehind claimed.length s spec := by
    intro h
    refine eligibleFreeGpus_congr spec ?_ ?_
    · rw [hfree, freeGpus_drop]
      split
      · rename_i herror
        rcases h with h | h | h
        · rw [h] at herror
          cases herror
        · rw [h, List.drop_nil]
        · rw [h, List.length_nil, List.drop_zero]
      · rfl
    · unfold reserveOn
      split <;> rfl
  have hsub : (cardsBehind claimed.length s spec).Sublist s.freeGpus := by
    refine (eligibleFreeGpus_sublist _ _).trans ?_
    rw [freeGpus_drop]
    exact List.drop_sublist _ _
  constructor
  · rintro ⟨hhidden, hsafe⟩
    have h := hprobed.mp hhidden
    refine ⟨h, fun hmet => (met_after_taking_iff Gpu.vram hsub claimed _).mp ?_⟩
    rw [← hpool h]
    exact hsafe hmet
  · rintro ⟨h, henough⟩
    refine ⟨hprobed.mpr h, fun hmet => ?_⟩
    rw [hpool h]
    exact (met_after_taking_iff Gpu.vram hsub claimed _).mpr (henough hmet)

/-- In every probe the reservation hides as many cards as are claimed, and keeps the candidate off the
cards that a claim needs, exactly when it leaves enough on each node. -/
theorem reserves_inflight_claims_iff (held : JobEntry → Bool) (entry : JobEntry) (rows : List JobEntry)
    (statuses : List NodeStatus) (spec : RunSpec) :
    (∀ (i : Nat) s seen, statuses[i]? = some s →
      (reserveInflightClaims held entry (some rows) statuses)[i]? = some seen →
        ReservesFor (claimedMinima held entry rows s.node) s seen spec) ↔
    ∀ s ∈ statuses, LeavesEnough (claimedMinima held entry rows s.node) s spec := by
  have hnode : ∀ s : NodeStatus, ReservesFor (claimedMinima held entry rows s.node) s
      (reserveOn (reservedOwners held entry rows s.node) s) spec ↔
        LeavesEnough (claimedMinima held entry rows s.node) s spec := fun s =>
    reservesFor_iff s spec (length_claimedMinima held entry rows s.node)
  have hseen : ∀ i : Nat, (reserveInflightClaims held entry (some rows) statuses)[i]? =
      (statuses[i]?).map fun s => reserveOn (reservedOwners held entry rows s.node) s :=
    fun i => List.getElem?_map
  constructor
  · intro h s hs
    obtain ⟨i, hi⟩ := List.getElem?_of_mem hs
    refine (hnode s).mp (h i s _ hi ?_)
    rw [hseen, hi]
    rfl
  · intro h i s seen hi hs
    rw [hseen, hi, Option.map_some] at hs
    obtain rfl := Option.some.inj hs
    exact (hnode s).mpr (h s (List.mem_of_getElem? hi))

/-! ## A claim that loses its card -/

/-- A claimed job that requires 40 GiB, on a node with a card of 24 GiB and one of 80 GiB. -/
def claimedRow : JobEntry :=
  { JobEntry.sample "claimed" with dispatchNode := some "n1", minVramMib := some 40960 }

def mixedNode : NodeStatus :=
  { node := "n1", gpus := [⟨24576, true⟩, ⟨81920, true⟩] }

/-- The small card is hidden, and a job without a minimum is placed on the large one. -/
theorem claim_loses_card : ¬ ∀ (i : Nat) s seen, [mixedNode][i]? = some s →
    (reserveInflightClaims (fun _ => true) (.sample "me") (some [claimedRow]) [mixedNode])[i]? =
      some seen →
        ReservesFor (claimedMinima (fun _ => true) (.sample "me") [claimedRow] s.node) s seen {} := by
  intro h
  have hsafe := (h 0 mixedNode _ rfl rfl).safe
  have hmet : Met ([40960, ⊥] : List (WithBot Int)) [24576, 81920] := by
    refine ⟨[81920, 24576], (List.Perm.swap _ _ _).subperm, .cons ?_ (.cons bot_le .nil)⟩
    decide
  have hclaim := met_iff.mp (hsafe hmet [⟨81920, true⟩] [⟨24576, true⟩] (List.Sublist.refl _) rfl
    (List.Perm.swap _ _ _)) 40960 (List.mem_singleton.mpr rfl)
  exact absurd hclaim (by decide)

end Dt.Dispatch
