import Dt.Lib.Tally
import Dt.Query.Delivered

/-!
# Summaries compose

A summary counts rows, and the counts of some parts add up to the counts of the whole. The merge
reads the summaries of the parts under the limits on their buckets, and the order of the rows and of
the parts is lost in the sorted buckets.
-/

namespace Dt.Query

open Dt.Lib Dt.Jobs

variable {F : Type} [FloatText F]

/-- The values that a bucket field counts. -/
def bucketValues (rows : List (Row F)) : String → List String
  | "by_status" => countedValues rows "status"
  | "by_result_state" => rows.filterMap rowResultState
  | "by_center" => countedValues rows "center"
  | "by_node" => countedValues rows "node"
  | _ => []

/-- The limits of a merge on the buckets of a summary. -/
structure Bounded (rows : List (Row F)) : Prop where
  buckets : ∀ field ∈ bucketFields,
    (buckets (bucketValues rows field) : Row F).length ≤ maxSummaryBuckets
  keys : ∀ field ∈ bucketFields, ∀ value ∈ bucketValues rows field,
    value ≠ "" ∧ value.length ≤ maxSummaryKeyLength

theorem bucketValues_append (rows others : List (Row F)) (field : String) :
    bucketValues (rows ++ others) field = bucketValues rows field ++ bucketValues others field := by
  unfold bucketValues
  split
  · exact List.filterMap_append
  · exact List.filterMap_append
  · exact List.filterMap_append
  · exact List.filterMap_append
  · rfl

theorem bucketValues_perm {rows others : List (Row F)} (h : rows.Perm others) (field : String) :
    (bucketValues rows field).Perm (bucketValues others field) := by
  unfold bucketValues
  split
  · exact h.filterMap _
  · exact h.filterMap _
  · exact h.filterMap _
  · exact h.filterMap _
  · exact List.Perm.refl _

theorem get_summarize (rows : List (Row F)) {field : String} (h : field ∈ bucketFields) :
    Row.get (summarize rows) field = .obj (buckets (bucketValues rows field)) := by
  simp only [bucketFields, List.mem_cons, List.not_mem_nil, or_false] at h
  rcases h with rfl | rfl | rfl | rfl <;> rfl

/-- The summary, field by field. -/
theorem summarize_eq (rows : List (Row F)) :
    summarize rows = ("total", .int rows.length) ::
      bucketFields.map fun field => (field, .obj (buckets (bucketValues rows field))) := rfl

/-! ## The counts of one field -/

/-- The counts of a bucket, in the order of its keys. -/
def sortedCounts (values : List String) : List (String × Int) :=
  (countsOf values).insertionSort fun a b => a.1 ≤ b.1

omit [FloatText F] in
theorem buckets_eq (values : List String) :
    (buckets values : Row F) = (sortedCounts values).map fun p => (p.1, .int p.2) := by
  have hsorted : sortedCounts values =
      (values.dedup.insertionSort (· ≤ ·)).map fun value => (value, (values.count value : Int)) :=
    (List.map_insertionSort (· ≤ ·) (fun a b : String × Int => a.1 ≤ b.1)
      (fun value => (value, (values.count value : Int))) values.dedup fun _ _ _ _ => Iff.rfl).symm
  rw [hsorted, List.map_map]
  rfl

theorem tallies_sortedCounts (values : List String) :
    Tallies (sortedCounts values) fun key => (values.count key : Int) where
  nodup := (((List.perm_insertionSort _ (countsOf values)).map Prod.fst).nodup_iff).mpr
    (tallies_countsOf values).nodup
  mem key n := (List.mem_insertionSort _).trans ((tallies_countsOf values).mem key n)

/-- The counts of a part are read exactly when they keep the limits. -/
theorem bucketCounts_summarize (rows : List (Row F)) {field : String} (hfield : field ∈ bucketFields)
    {counts : List (String × Int)} : bucketCounts field (summarize rows) = .ok counts ↔
      counts = sortedCounts (bucketValues rows field) ∧
        (buckets (bucketValues rows field) : Row F).length ≤ maxSummaryBuckets ∧
        ∀ value ∈ bucketValues rows field, value ≠ "" ∧ value.length ≤ maxSummaryKeyLength := by
  have hmem : ∀ p ∈ sortedCounts (bucketValues rows field), p.1 ∈ bucketValues rows field ∧ 0 ≤ p.2 := by
    intro p hp
    obtain ⟨hcount, hne⟩ := ((tallies_sortedCounts _).mem p.1 p.2).mp hp
    exact ⟨List.count_pos_iff.mp (by omega), by omega⟩
  -- one entry passes when its key keeps the limits
  let read : String × Int → Except QueryError (String × Int) := fun p =>
    if p.1 = "" ∨ maxSummaryKeyLength < p.1.length ∨ p.2 < 0 then
      .error s!"invalid ps summary {field} from head"
    else .ok (p.1, p.2)
  have hread : ∀ p ∈ sortedCounts (bucketValues rows field),
      p.1 ≠ "" ∧ p.1.length ≤ maxSummaryKeyLength →
        read p = .ok p := by
    rintro p hp ⟨hne, hlen⟩
    have hgood : ¬ (p.1 = "" ∨ maxSummaryKeyLength < p.1.length ∨ p.2 < 0) := by
      rintro (h | h | h)
      · exact hne h
      · exact absurd h (not_lt.mpr hlen)
      · exact absurd h (not_lt.mpr (hmem p hp).2)
    simp only [read, if_neg hgood]
  have hcounts : bucketCounts field (summarize rows) =
      if maxSummaryBuckets < (buckets (bucketValues rows field) : Row F).length then
        .error s!"invalid ps summary {field} from head"
      else (sortedCounts (bucketValues rows field)).mapM read := by
    unfold bucketCounts
    rw [get_summarize rows hfield]
    dsimp only
    split
    · rfl
    · rw [buckets_eq, mapM_map]
      rfl
  rw [hcounts]
  constructor
  · intro h
    split at h
    · cases h
    · rename_i hlength
      have hkeys : ∀ value ∈ bucketValues rows field,
          value ≠ "" ∧ value.length ≤ maxSummaryKeyLength := by
        intro value hvalue
        have hpair : (value, ((bucketValues rows field).count value : Int)) ∈
            sortedCounts (bucketValues rows field) :=
          ((tallies_sortedCounts _).mem _ _).mpr
            ⟨rfl, by exact_mod_cast (List.count_pos_iff.mpr hvalue).ne'⟩
        obtain ⟨q, hq⟩ := mapM_mem h _ hpair
        simp only [read] at hq
        split at hq
        · cases hq
        · rename_i hgood
          simp only [not_or, not_lt] at hgood
          exact ⟨hgood.1, hgood.2.1⟩
      have hall := mapM_ok (g := id) fun p hp => hread p hp (hkeys p.1 (hmem p hp).1)
      rw [List.map_id] at hall
      exact ⟨Except.ok.inj (h.symm.trans hall), not_lt.mp hlength, hkeys⟩
  · rintro ⟨rfl, hlength, hkeys⟩
    rw [if_neg (not_lt.mpr hlength)]
    have hall := mapM_ok (g := id) fun p hp => hread p hp (hkeys p.1 (hmem p hp).1)
    rwa [List.map_id] at hall

/-! ## The merge -/

/-- The counters stand for the rows that were merged so far. -/
structure Merging (acc : Int × List (String × List (String × Int))) (rows : List (Row F)) : Prop where
  total : acc.1 = rows.length
  fields : acc.2.map Prod.fst = bucketFields
  counters : ∀ counter ∈ acc.2,
    Tallies counter.2 fun key => ((bucketValues rows counter.1).count key : Int)

omit [FloatText F] in
theorem addCount_eq : addCount = countUp := rfl

/-- One part more. -/
theorem mergeSummary_summarize {acc : Int × List (String × List (String × Int))}
    {rows part : List (Row F)} (h : Merging acc rows) (hpart : Bounded part) :
    ∃ acc', mergeSummary acc (summarize part) = .ok acc' ∧ Merging acc' (rows ++ part) := by
  have hfield : ∀ counter ∈ acc.2, counter.1 ∈ bucketFields := fun counter hc =>
    h.fields ▸ List.mem_map_of_mem hc
  have htotal : asInt (Row.get (summarize part) "total") = some (part.length : Int) := rfl
  have hmerged : acc.2.mapM (fun counter => do
      let counts ← bucketCounts counter.1 (summarize part)
      return (counter.1, counts.foldl addCount counter.2)) = .ok (acc.2.map fun counter =>
        (counter.1, (sortedCounts (bucketValues part counter.1)).foldl addCount counter.2)) := by
    refine mapM_ok fun counter hc => ?_
    have hcounts := (bucketCounts_summarize part (hfield counter hc)).mpr
      ⟨rfl, hpart.buckets _ (hfield counter hc), hpart.keys _ (hfield counter hc)⟩
    rw [hcounts]
    rfl
  refine ⟨(acc.1 + part.length, acc.2.map fun counter => (counter.1,
    (sortedCounts (bucketValues part counter.1)).foldl addCount counter.2)), ?_, ?_, ?_, ?_⟩
  · simp only [mergeSummary, htotal]
    rw [hmerged]
    rfl
  · rw [h.total, List.length_append]
    push_cast
    rfl
  · rw [List.map_map, ← h.fields]
    rfl
  · intro counter hc
    obtain ⟨old, hold, rfl⟩ := List.mem_map.mp hc
    dsimp only
    rw [bucketValues_append, addCount_eq]
    exact tallies_append (h.counters old hold) (tallies_sortedCounts _)

/-- The sorted counters are the summary. -/
theorem Merging.summary {acc : Int × List (String × List (String × Int))} {rows : List (Row F)}
    (h : Merging acc rows) :
    ("total", Json.int acc.1) :: acc.2.map (fun counter => (counter.1,
      .obj ((counter.2.insertionSort fun a b => a.1 ≤ b.1).map fun p => (p.1, .int p.2)))) =
        summarize rows := by
  rw [summarize_eq, h.total, ← h.fields, List.map_map]
  refine congrArg _ (List.map_congr_left fun counter hc => ?_)
  have hsort := (h.counters counter hc).sorted_eq (tallies_countsOf (bucketValues rows counter.1))
  rw [hsort, Function.comp_apply, buckets_eq]
  rfl

theorem Merging.empty : Merging ((0 : Int), bucketFields.map fun field => (field, []))
    ([] : List (Row F)) where
  total := rfl
  fields := rfl
  counters counter hc := by
    obtain ⟨field, hfield, rfl⟩ := List.mem_map.mp hc
    have hnil : bucketValues ([] : List (Row F)) field = [] := by
      simp only [bucketFields, List.mem_cons, List.not_mem_nil, or_false] at hfield
      rcases hfield with rfl | rfl | rfl | rfl <;> rfl
    simpa [hnil] using Tallies.empty

/-- Parts within the limits merge to the summary of their rows. -/
theorem mergeSummaries_parts {parts : List (List (Row F))} (h : ∀ part ∈ parts, Bounded part) :
    mergeSummaries (parts.map summarize) = .ok (summarize parts.flatten) := by
  have hfold : ∀ (parts : List (List (Row F))), (∀ part ∈ parts, Bounded part) →
      ∀ acc rows, Merging acc rows → ∃ acc', (parts.map summarize).foldlM mergeSummary acc = .ok acc' ∧
        Merging acc' (rows ++ parts.flatten) := by
    intro parts
    induction parts with
    | nil => exact fun _ acc rows hacc => ⟨acc, rfl, by simpa using hacc⟩
    | cons part parts ih =>
      intro hparts acc rows hacc
      obtain ⟨acc', hstep, hacc'⟩ := mergeSummary_summarize hacc (hparts part List.mem_cons_self)
      obtain ⟨last, hrest, hlast⟩ := ih (fun p hp => hparts p (List.mem_cons_of_mem _ hp)) acc' _ hacc'
      refine ⟨last, ?_, ?_⟩
      · rw [List.map_cons, List.foldlM_cons, hstep]
        exact hrest
      · rwa [List.flatten_cons, ← List.append_assoc]
  obtain ⟨acc, hacc, hmerging⟩ := hfold parts h _ _ Merging.empty
  rw [mergeSummaries, hacc]
  exact congrArg Except.ok hmerging.summary

/-- A merge that goes through has read every summary. -/
theorem bounded_of_merge {parts : List (List (Row F))} {merged : Row F}
    (h : mergeSummaries (parts.map summarize) = .ok merged) : ∀ part ∈ parts, Bounded part := by
  have hfold : ∀ (parts : List (List (Row F))) (acc acc' : Int × List (String × List (String × Int))),
      acc.2.map Prod.fst = bucketFields → (parts.map summarize).foldlM mergeSummary acc = .ok acc' →
        ∀ part ∈ parts, Bounded part := by
    intro parts
    induction parts with
    | nil => exact fun _ _ _ _ part hpart => absurd hpart List.not_mem_nil
    | cons part parts ih =>
      intro acc acc' hfields h
      rw [List.map_cons, List.foldlM_cons] at h
      obtain ⟨next, hstep, hrest⟩ := bind_ok.mp h
      have hmergeable : Mergeable (summarize part) := mergeable_of_merge hfields hstep
      have hbounded : Bounded part := by
        constructor
        · intro field hfield
          obtain ⟨counts, hcounts⟩ := hmergeable.counts field hfield
          exact ((bucketCounts_summarize part hfield).mp hcounts).2.1
        · intro field hfield
          obtain ⟨counts, hcounts⟩ := hmergeable.counts field hfield
          exact ((bucketCounts_summarize part hfield).mp hcounts).2.2
      obtain ⟨other, hother, hkept⟩ := mergeSummary_of_mergeable hfields hmergeable
      obtain rfl := Except.ok.inj (hother.symm.trans hstep)
      exact List.forall_mem_cons.mpr ⟨hbounded, ih _ _ hkept hrest⟩
  unfold mergeSummaries at h
  obtain ⟨acc, hacc, -⟩ := bind_ok.mp h
  exact hfold parts _ acc (by rw [List.map_map]; exact List.map_id _) hacc

omit [FloatText F] in
theorem buckets_perm {values others : List String} (h : values.Perm others) :
    (buckets values : Row F) = buckets others := by
  have hcounts : Tallies (countsOf others) fun key => (values.count key : Int) := by
    simpa only [h.count_eq] using tallies_countsOf others
  rw [buckets_eq, buckets_eq, sortedCounts, sortedCounts,
    (tallies_countsOf values).sorted_eq hcounts]

/-- A summary does not depend on the order of the rows. -/
theorem summarize_perm {rows others : List (Row F)} (h : rows.Perm others) :
    summarize rows = summarize others := by
  rw [summarize_eq, summarize_eq, h.length_eq]
  refine congrArg _ (List.map_congr_left fun field _ => ?_)
  rw [buckets_perm (bucketValues_perm h field)]

/-- A summary that comes from merging, in groups, the summaries of parts of some rows. -/
inductive Grouping : List (Row F) → Row F → Prop
  | part (rows : List (Row F)) : Grouping rows (summarize rows)
  | group {members : List (List (Row F) × Row F)} {summary : Row F} :
    (∀ member ∈ members, Grouping member.1 member.2) →
      mergeSummaries (members.map Prod.snd) = .ok summary →
        Grouping (members.map Prod.fst).flatten summary

theorem Grouping.summary_eq {rows : List (Row F)} {summary : Row F} (h : Grouping rows summary) :
    summary = summarize rows := by
  induction h with
  | part rows => rfl
  | @group members summary _ hmerge ih =>
    have hmembers : members.map Prod.snd = (members.map Prod.fst).map summarize := by
      rw [List.map_map]
      exact List.map_congr_left fun member hm => ih member hm
    rw [hmembers] at hmerge
    have hparts := mergeSummaries_parts (bounded_of_merge hmerge)
    exact Except.ok.inj (hmerge.symm.trans hparts)

/-- The summaries of parts merge to the summary of the whole, in any order, exactly when every part
keeps the limits; the same for groups of parts. -/
theorem summaries_compose (parts : List (List (Row F))) (rows : List (Row F))
    (hrows : rows.Perm parts.flatten) :
    (mergeSummaries (parts.map summarize) = .ok (summarize rows) ↔ ∀ part ∈ parts, Bounded part) ∧
    (∀ members : List (List (Row F) × Row F), (∀ member ∈ members, Grouping member.1 member.2) →
      (∀ member ∈ members, Bounded member.1) →
        mergeSummaries (members.map Prod.snd) = .ok (summarize (members.map Prod.fst).flatten)) ∧
    ∀ others summary, Grouping others summary → rows.Perm others → summary = summarize rows := by
  refine ⟨?_, fun members hgroups hbounded => ?_, fun others summary h hperm => ?_⟩
  · rw [summarize_perm hrows]
    exact ⟨bounded_of_merge, mergeSummaries_parts⟩
  · have hmembers : members.map Prod.snd = (members.map Prod.fst).map summarize := by
      rw [List.map_map]
      exact List.map_congr_left fun member hm => (hgroups member hm).summary_eq
    rw [hmembers]
    exact mergeSummaries_parts (List.forall_mem_map.mpr hbounded)
  · rw [h.summary_eq, summarize_perm hperm]

/-- Two parts, in the other order. -/
theorem summaries_compose_sample :
    mergeSummaries ([([[("node", .str "n2")]] : List (Row (Fin 10))), [[("node", .str "n1")]]].map
      summarize) = .ok (summarize [[("node", .str "n1")], [("node", .str "n2")]]) :=
  (summaries_compose _ _ (List.Perm.swap _ _ _)).1.mpr (by
    refine List.forall_mem_cons.mpr ⟨?_, List.forall_mem_singleton.mpr ?_⟩
    · exact ⟨by decide +kernel, by decide +kernel⟩
    · exact ⟨by decide +kernel, by decide +kernel⟩)

/-! ## A group with too many buckets -/

/-- The name of a node, one letter for each number. -/
def nodeName (i : Nat) : String := String.ofList [Char.ofNat (97 + i)]

def nodeRow (i : Nat) : Row (Fin 10) := [("node", .str (nodeName i))]

theorem toNat_nodeChar {i : Nat} (h : i < 1025) : (Char.ofNat (97 + i)).toNat = 97 + i := by
  have hvalid : (97 + i).isValidChar := .inl (by omega)
  simp only [Char.ofNat, hvalid, dif_pos]
  rfl

theorem nodeName_inj {i j : Nat} (hi : i < 1025) (hj : j < 1025) (h : nodeName i = nodeName j) :
    i = j := by
  have hchar : Char.ofNat (97 + i) = Char.ofNat (97 + j) := by
    simpa [nodeName, String.ofList_inj] using h
  have hcode := congrArg Char.toNat hchar
  rw [toNat_nodeChar hi, toNat_nodeChar hj] at hcode
  omega

theorem nodeName_ne {i : Nat} (h : i < 1025) : nodeName i ≠ "" ∧ nodeName i ≠ "-" := by
  constructor
  · intro heq
    simpa [nodeName] using congrArg String.toList heq
  · intro heq
    have hchar : Char.ofNat (97 + i) = '-' := by
      simpa [nodeName] using congrArg String.toList heq
    have hcode := congrArg Char.toNat hchar
    rw [toNat_nodeChar h] at hcode
    have hdash : '-'.toNat = 45 := rfl
    omega

/-- Rows that only have a node count their nodes and nothing else. -/
theorem bucketValues_nodeRows {indices : List Nat} (h : ∀ i ∈ indices, i < 1025) :
    bucketValues (indices.map nodeRow) "by_node" = indices.map nodeName ∧
      ∀ field ∈ bucketFields, field ≠ "by_node" → bucketValues (indices.map nodeRow) field = [] := by
  have hnone : ∀ f : Row (Fin 10) → Option String, (∀ i, f (nodeRow i) = none) →
      (indices.map nodeRow).filterMap f = [] := by
    intro f hf
    rw [List.filterMap_map, List.filterMap_eq_nil_iff]
    exact fun i _ => hf i
  constructor
  · have htexts : ∀ row ∈ indices.map nodeRow, Row.get row "node" = .str (fieldText "node" row) ∧
        fieldText "node" row ≠ "" ∧ fieldText "node" row ≠ "-" := by
      intro row hrow
      obtain ⟨i, hi, rfl⟩ := List.mem_map.mp hrow
      exact ⟨rfl, nodeName_ne (h i hi)⟩
    refine (countedValues_eq htexts).trans ?_
    rw [List.map_map]
    rfl
  · intro field hfield hne
    simp only [bucketFields, List.mem_cons, List.not_mem_nil, or_false] at hfield
    rcases hfield with rfl | rfl | rfl | rfl
    · exact hnone _ fun i => rfl
    · exact hnone _ fun i => rfl
    · exact hnone _ fun i => rfl
    · exact absurd rfl hne

/-- As many different nodes as there are indices. -/
theorem length_nodeBuckets {indices : List Nat} (h : ∀ i ∈ indices, i < 1025) (hnodup : indices.Nodup) :
    (buckets (bucketValues (indices.map nodeRow) "by_node") : Row (Fin 10)).length = indices.length := by
  have hnames : (indices.map nodeName).Nodup :=
    hnodup.map_on fun i hi j hj heq => nodeName_inj (h i hi) (h j hj) heq
  rw [(bucketValues_nodeRows h).1]
  simp [buckets, hnames.dedup]

theorem bounded_nodeRows {indices : List Nat} (h : ∀ i ∈ indices, i < 1025) (hnodup : indices.Nodup)
    (hlength : indices.length ≤ 1024) : Bounded (indices.map nodeRow) := by
  constructor
  · intro field hfield
    by_cases hnode : field = "by_node"
    · rw [hnode, length_nodeBuckets h hnodup]
      exact hlength
    · rw [(bucketValues_nodeRows h).2 field hfield hnode]
      exact Nat.zero_le _
  · intro field hfield value hvalue
    by_cases hnode : field = "by_node"
    · rw [hnode, (bucketValues_nodeRows h).1] at hvalue
      obtain ⟨i, hi, rfl⟩ := List.mem_map.mp hvalue
      refine ⟨(nodeName_ne (h i hi)).1, ?_⟩
      simp [nodeName, maxSummaryKeyLength]
    · rw [(bucketValues_nodeRows h).2 field hfield hnode] at hvalue
      cases hvalue

theorem mergeSummaries_pair {a b : List (Row F)} (ha : Bounded a) (hb : Bounded b) :
    mergeSummaries [summarize a, summarize b] = .ok (summarize (a ++ b)) := by
  have hpair := mergeSummaries_parts (List.forall_mem_cons.mpr ⟨ha, List.forall_mem_singleton.mpr hb⟩)
  simpa using hpair

/-- The first nodes and the last one. -/
def firstNodes : List (Row (Fin 10)) := (List.range 1024).map nodeRow
def lastNode : List (Row (Fin 10)) := [1024].map nodeRow

omit [FloatText F] in
theorem map_range_succ (f : Nat → Row F) (n : Nat) :
    (List.range n).map f ++ [n].map f = (List.range (n + 1)).map f := by
  rw [List.range_succ, List.map_append]

theorem nodes_eq : firstNodes ++ lastNode = (List.range 1025).map nodeRow :=
  map_range_succ nodeRow 1024

/-- Two parts within the limits merge, but their sum is no part of a further merge. -/
theorem group_refused : Bounded firstNodes ∧ Bounded lastNode ∧
    ∃ group, mergeSummaries [summarize firstNodes, summarize lastNode] = .ok group ∧
      ∀ merged, mergeSummaries [group] ≠ .ok merged := by
  have hfirst : Bounded firstNodes := by
    refine bounded_nodeRows (fun i hi => ?_) List.nodup_range (List.length_range).le
    exact (List.mem_range.mp hi).trans (by decide)
  have hlast : Bounded lastNode :=
    bounded_nodeRows (List.forall_mem_singleton.mpr (by decide)) (List.nodup_singleton _) (by decide)
  refine ⟨hfirst, hlast, _, mergeSummaries_pair hfirst hlast, fun merged hmerged => ?_⟩
  rw [nodes_eq] at hmerged
  have hparts : mergeSummaries ([(List.range 1025).map nodeRow].map summarize) = .ok merged := hmerged
  have hbounded := bounded_of_merge hparts _ List.mem_cons_self
  have hmany := hbounded.buckets "by_node" (by decide)
  rw [length_nodeBuckets (fun i hi => List.mem_range.mp hi) List.nodup_range, List.length_range] at hmany
  exact absurd hmany (by decide)

end Dt.Query
