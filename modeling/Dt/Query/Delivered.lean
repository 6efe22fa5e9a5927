import Dt.Query.FanOut

/-!
# What the laptop delivers

The merged payload has the summaries and the rows of every center whose answer was usable, and the
errors name all others. This is what `_gather_laptop_ps_query` is for, and it fails only when
something is raised through it: for a status of a legacy list that is no key of a set, for a legacy
list that does not fit into a page, for a cursor that nests too deep, or when the merged rows do not
fit.
-/

namespace Dt.Query

open Dt.Lib Dt.Jobs

variable {F : Type} [FloatText F] {eqInt : F → Int → Bool} {interp : Interpreter F} {tools : Tools}
  {fleet : Fleet F} {ask : Ask F}

/-! ## Pages that keep the contract -/

theorem require_eq_ok {ok : Bool} {message : QueryError} {u : Unit} :
    require ok message = .ok u ↔ ok = true := by
  cases ok <;> simp [require]

omit [FloatText F] in
theorem checkPage_spec {total : Int} {page : Row F} {jobs : List (Json F)} {header : PageHeader}
    (h : checkPage total page jobs = .ok header) :
    asInt (Row.get page "eligible") = some header.eligible ∧
      asInt (Row.get page "returned") = some header.returned ∧
      headerCursor (Row.get page "next_cursor") = some header.nextCursor ∧
      0 ≤ header.eligible ∧ header.returned = jobs.length ∧ header.returned ≤ header.eligible := by
  unfold checkPage at h
  obtain ⟨_, -, h⟩ := bind_ok.mp h
  split at h
  · rename_i eligible returned nextCursor heligible hreturned hcursor
    obtain ⟨_, hcounts, h⟩ := bind_ok.mp h
    rw [require_eq_ok] at hcounts
    obtain rfl := Except.ok.inj h
    simp only [Bool.and_eq_true, decide_eq_true_eq] at hcounts
    exact ⟨heligible, hreturned, hcursor, hcounts.1.1.1.1, hcounts.1.2, hcounts.2⟩
  · cases h

/-- What a page that keeps the contract consists of. -/
structure Kept (tools : Tools) (center : String) (query : Row F) (fields : List String)
    (cursor : Option String) (payload : Row F) (page : ValidatedPage F) : Prop where
  summary : Row.get payload "summary" = .obj page.summary
  merges : ∃ merged, mergeSummaries [page.summary] = .ok merged
  jobs : Row.get payload "jobs" = .arr page.jobs
  header : ∃ pageObj total, Row.get payload "page" = .obj pageObj ∧
    checkPage total pageObj page.jobs = .ok page.header
  body : checkBody tools center query fields cursor page.header page.jobs = .ok ()
  errors : Row.get payload "errors" = .obj page.errors

theorem checkSummary_merges {center : String} {query summary : Row F} {total : Int}
    (h : checkSummary eqInt center query summary = .ok total) :
    ∃ merged, mergeSummaries [summary] = .ok merged := by
  unfold checkSummary at h
  obtain ⟨_, -, h⟩ := bind_ok.mp h
  obtain ⟨merged, hmerged, -⟩ := bind_ok.mp h
  exact ⟨merged, hmerged⟩

omit [FloatText F] in
theorem checkErrors_spec {payload errors : Row F} {incomplete : Bool}
    (h : checkErrors payload = .ok (incomplete, errors)) :
    Row.get payload "errors" = .obj errors := by
  unfold checkErrors at h
  split at h
  · rename_i herrors
    split at h
    · obtain ⟨-, rfl⟩ := Prod.mk.inj (Except.ok.inj h)
      exact herrors
    · cases h
  · cases h

theorem kept_of_validate {value : Json F} {center : String} {query : Row F} {fields : List String}
    {cursor : Option String} {page : ValidatedPage F}
    (h : validatePayloadContract eqInt tools value center query fields cursor = .ok page) :
    ∃ payload, value = .obj payload ∧ Kept tools center query fields cursor payload page := by
  unfold validatePayloadContract at h
  split at h
  · rename_i payload
    obtain ⟨_, -, h⟩ := bind_ok.mp h
    obtain ⟨_, -, h⟩ := bind_ok.mp h
    obtain ⟨_, -, h⟩ := bind_ok.mp h
    obtain ⟨_, -, h⟩ := bind_ok.mp h
    obtain ⟨_, -, h⟩ := bind_ok.mp h
    split at h
    · rename_i summary hsummary
      obtain ⟨total, htotal, h⟩ := bind_ok.mp h
      split at h
      · rename_i pageObj jobs hpage hjobs
        obtain ⟨header, hheader, h⟩ := bind_ok.mp h
        obtain ⟨⟨⟩, hbody, h⟩ := bind_ok.mp h
        obtain ⟨⟨incomplete, errors⟩, herrors, h⟩ := bind_ok.mp h
        obtain ⟨_, -, h⟩ := bind_ok.mp h
        obtain rfl := Except.ok.inj h
        exact ⟨payload, rfl,
          { summary := hsummary
            merges := checkSummary_merges htotal
            jobs := hjobs
            header := ⟨pageObj, total, hpage, hheader⟩
            body := hbody
            errors := checkErrors_spec herrors }⟩
      · cases h
    · cases h
  · cases h

/-! ## Summaries -/

/-- A summary whose total and counts are readable. -/
structure Mergeable (summary : Row F) : Prop where
  total : ∃ total, asInt (Row.get summary "total") = some total
  counts : ∀ field ∈ bucketFields, ∃ counts, bucketCounts field summary = .ok counts

omit [FloatText F] in
theorem mergeable_of_merge {acc acc' : Int × List (String × List (String × Int))} {summary : Row F}
    (hfields : acc.2.map Prod.fst = bucketFields) (h : mergeSummary acc summary = .ok acc') :
    Mergeable summary := by
  unfold mergeSummary at h
  split at h
  · cases h
  · rename_i total htotal
    obtain ⟨merged, hmerged, -⟩ := bind_ok.mp h
    refine ⟨⟨total, htotal⟩, fun field hf => ?_⟩
    rw [← hfields] at hf
    obtain ⟨counter, hc, rfl⟩ := List.mem_map.mp hf
    obtain ⟨b, hb⟩ := mapM_mem hmerged counter hc
    obtain ⟨counts, hcounts, -⟩ := bind_ok.mp hb
    exact ⟨counts, hcounts⟩

omit [FloatText F] in
theorem mergeSummary_of_mergeable {acc : Int × List (String × List (String × Int))} {summary : Row F}
    (hfields : acc.2.map Prod.fst = bucketFields) (h : Mergeable summary) :
    ∃ acc', mergeSummary acc summary = .ok acc' ∧ acc'.2.map Prod.fst = bucketFields := by
  obtain ⟨total, htotal⟩ := h.total
  let add := fun counter : String × List (String × Int) =>
    (counter.1, (match bucketCounts counter.1 summary with
      | .ok counts => counts
      | .error _ => []).foldl addCount counter.2)
  have hmerged : acc.2.mapM (fun counter => do
      let counts ← bucketCounts counter.1 summary
      return (counter.1, counts.foldl addCount counter.2)) = .ok (acc.2.map add) := by
    refine mapM_ok fun counter hc => ?_
    obtain ⟨counts, hcounts⟩ := h.counts counter.1 (hfields ▸ List.mem_map_of_mem hc)
    simp [hcounts, add, bind, Except.bind, pure, Except.pure]
  refine ⟨(acc.1 + total, acc.2.map add), ?_, ?_⟩
  · simp only [mergeSummary, htotal]
    rw [hmerged]
    rfl
  · rw [List.map_map, ← hfields]
    rfl

omit [FloatText F] in
/-- Summaries that merge alone merge together. -/
theorem mergeSummaries_of_each {values : List (Row F)}
    (h : ∀ summary ∈ values, ∃ merged, mergeSummaries [summary] = .ok merged) :
    ∃ merged, mergeSummaries values = .ok merged := by
  have hfirst : ((0 : Int), bucketFields.map fun field => (field, ([] : List (String × Int)))).2.map
      Prod.fst = bucketFields := rfl
  have hall : ∀ summary ∈ values, Mergeable summary := by
    intro summary hs
    obtain ⟨merged, hm⟩ := h summary hs
    unfold mergeSummaries at hm
    obtain ⟨acc, hacc, -⟩ := bind_ok.mp hm
    rw [List.foldlM_cons] at hacc
    obtain ⟨acc', hacc', -⟩ := bind_ok.mp hacc
    exact mergeable_of_merge hfirst hacc'
  have hfold : ∀ (l : List (Row F)), (∀ summary ∈ l, Mergeable summary) →
      ∀ acc : Int × List (String × List (String × Int)), acc.2.map Prod.fst = bucketFields →
        ∃ acc', l.foldlM mergeSummary acc = .ok acc' := by
    intro l
    induction l with
    | nil => exact fun _ acc _ => ⟨acc, rfl⟩
    | cons summary l ih =>
      intro hl acc hacc
      obtain ⟨acc', hstep, hacc'⟩ :=
        mergeSummary_of_mergeable hacc (hl summary List.mem_cons_self)
      rw [List.foldlM_cons, hstep]
      exact ih (fun x hx => hl x (List.mem_cons_of_mem _ hx)) acc' hacc'
  obtain ⟨acc, hacc⟩ := hfold values hall _ hfirst
  exact ⟨_, by rw [mergeSummaries, hacc]; rfl⟩

/-! ## The contributed pages -/

theorem takePage_ok {center : String} {value : Json F} {page : ValidatedPage F}
    (h : takePage eqInt tools ask center value = .ok page) :
    validateCenter eqInt tools ask center value = .ok page ∧
      (ask.q.summaryOnly = false → page.header.returned = min ask.limit page.header.eligible) := by
  unfold takePage at h
  split at h
  · cases h
  · rename_i taken htaken
    split at h
    · cases h
    · rename_i hfull
      obtain rfl := Except.ok.inj h
      exact ⟨htaken, fun hs => by simpa [hs] using hfull⟩

/-- A center contributes a page that keeps the contract. -/
theorem answerOf_ok {center : String} {page : ValidatedPage F}
    (h : answerOf eqInt interp tools fleet ask center = .ok page) :
    ∃ value, takePage eqInt tools ask center value = .ok page := by
  unfold answerOf at h
  split at h
  · split at h
    · exact ⟨_, h⟩
    · split at h <;> cases h
  · split at h
    · cases h
    · split at h
      · cases h
      · exact ⟨_, h⟩

theorem contributions_kept {p : String × ValidatedPage F}
    (h : p ∈ contributions eqInt interp tools fleet ask) :
    p.1 ∈ fleet.centers ∧ answerOf eqInt interp tools fleet ask p.1 = .ok p.2 ∧
      ∃ payload, Kept tools p.1 ask.expectedQuery (internalFields ask.q.fields) ask.cursor payload
        p.2 := by
  obtain ⟨center, hc, hp⟩ := List.mem_filterMap.mp h
  cases ha : answerOf eqInt interp tools fleet ask center with
  | error e => simp [ha, Except.toOption] at hp
  | ok page =>
    obtain rfl : (center, page) = p := by simpa [ha, Except.toOption] using hp
    obtain ⟨value, htake⟩ := answerOf_ok ha
    obtain ⟨payload, -, hkept⟩ := kept_of_validate (takePage_ok htake).1
    exact ⟨hc, ha, payload, hkept⟩

/-- The summaries of the contributed pages merge. -/
theorem mergeSummaries_contributions (eqInt : F → Int → Bool) (interp : Interpreter F)
    (tools : Tools) (fleet : Fleet F) (ask : Ask F) :
    ∃ merged, mergeSummaries (contributions eqInt interp tools fleet ask).summaries = .ok merged := by
  refine mergeSummaries_of_each fun summary hs => ?_
  obtain ⟨p, hp, rfl⟩ := List.mem_map.mp hs
  obtain ⟨-, -, payload, hkept⟩ := contributions_kept hp
  exact hkept.merges

/-- The rows of the contributed pages that the merged page may list. -/
def globalRows (many : Bool) (ask : Ask F) (pages : Pages F) : List (Row F) :=
  (sortedRows (pages.candidates many) orderField).take ask.limit.toNat

/-- How many of the rows fit the byte budget of the merged payload. -/
def globalCount (tools : Tools) (many : Bool) (ask : Ask F) (pages : Pages F)
    (errors : List (String × String)) : Except QueryError Nat :=
  fitCount (mergedPayload tools ask pages (globalRows many ask pages) errors)
    (globalRows many ask pages) ask.q.fields (selectionDigest tools ask.q) orderField
    pages.eligible.toNat

/-- The payload of some of the rows. -/
def globalPayload (tools : Tools) (many : Bool) (ask : Ask F) (pages : Pages F)
    (errors : List (String × String)) (count : Nat) : Row F :=
  candidate (mergedPayload tools ask pages (globalRows many ask pages) errors)
    (globalRows many ask pages) ask.q.fields (selectionDigest tools ask.q) orderField
    pages.eligible.toNat count

/-- The merged payload is fitted as the page of a head is. -/
theorem fitPayloadPage_merged {many : Bool} {pages : Pages F} {errors : List (String × String)}
    (helig : 0 ≤ pages.eligible) :
    fitPayloadPage (mergedPayload tools ask pages (globalRows many ask pages) errors)
        (globalRows many ask pages) ask.q.fields (selectionDigest tools ask.q) orderField =
      (globalCount tools many ask pages errors).map (globalPayload tools many ask pages errors) := by
  have hpage : ∃ page, Row.get (mergedPayload tools ask pages (globalRows many ask pages) errors)
      "page" = .obj page ∧ Row.get page "eligible" = .int pages.eligible := ⟨_, rfl, rfl⟩
  obtain ⟨page, hpage, heligible⟩ := hpage
  unfold fitPayloadPage
  simp only [hpage, heligible, if_neg (not_lt.mpr helig)]
  rfl

/-- The first rows of all pages. -/
theorem paginate_candidates (tools : Tools) (many : Bool) (pages : Pages F)
    (hlimit : ¬ (ask.limit < 1 ∨ maxLimit < ask.limit)) :
    ∃ page, paginate (pages.candidates many) ask.limit none (selectionDigest tools ask.q) orderField =
      .ok page ∧ page.rows = globalRows many ask pages := by
  unfold paginate
  rw [if_neg hlimit]
  exact ⟨_, rfl, rfl⟩

/-- What the merge gives, once its summaries merge. -/
theorem mergePages_ok_iff {many : Bool} {pages : Pages F} {errors : List (String × String)}
    {merged : Row F} (hmerged : mergeSummaries pages.summaries = .ok merged)
    (helig : 0 ≤ pages.eligible) {g : Gathered F} :
    mergePages tools many ask pages errors = .ok g ↔
      (1 ≤ ask.limit ∧ ask.limit ≤ maxLimit) ∧ g.fanErrors = errors ∧
      if ask.q.summaryOnly then
        g.payload = mergedPayload tools ask pages (globalRows many ask pages) errors
      else ∃ count, globalCount tools many ask pages errors = .ok count ∧ g.payload =
        if (boundedErrors tools (updateTexts pages.errors errors)).isEmpty then
          globalPayload tools many ask pages errors count
        else dropCursor (globalPayload tools many ask pages errors count) := by
  have hsummary : mergedSummary pages errors = (merged, errors) := by
    simp [mergedSummary, hmerged]
  obtain ⟨payload, fanErrors⟩ := g
  unfold mergePages
  by_cases hlimit : ask.limit < 1 ∨ maxLimit < ask.limit
  · have hno : ¬ (1 ≤ ask.limit ∧ ask.limit ≤ maxLimit) := by omega
    simp [paginate, hlimit, hno]
  · have hyes : 1 ≤ ask.limit ∧ ask.limit ≤ maxLimit := by omega
    obtain ⟨page, hpage, hrows⟩ := paginate_candidates tools many pages hlimit
    simp only [hpage, hrows, hyes, hsummary, and_self, true_and]
    cases hs : ask.q.summaryOnly with
    | true =>
      simp only [if_true, Except.ok.injEq, Gathered.mk.injEq]
      exact ⟨fun h => ⟨h.2.symm, h.1.symm⟩, fun h => ⟨h.2.symm, h.1.symm⟩⟩
    | false =>
      simp only [Bool.false_eq_true, if_false, fitPayloadPage_merged helig]
      cases globalCount tools many ask pages errors with
      | error e => simp [Except.map]
      | ok count =>
        simp only [Except.map, Except.ok.injEq, Gathered.mk.injEq, exists_eq_left']
        exact ⟨fun h => ⟨h.2.symm, h.1.symm⟩, fun h => ⟨h.2.symm, h.1.symm⟩⟩

/-- The merge of a legal query fails only when its rows cannot be fitted. -/
theorem mergePages_error {many : Bool} {pages : Pages F} {errors : List (String × String)}
    (helig : 0 ≤ pages.eligible) (hs : ask.q.summaryOnly = false)
    (hlimit : 1 ≤ ask.limit ∧ ask.limit ≤ maxLimit) {e : Raised}
    (h : mergePages tools many ask pages errors = .error e) :
    ∃ message, globalCount tools many ask pages errors = .error message ∧ e = .query message := by
  have hgate : ¬ (ask.limit < 1 ∨ maxLimit < ask.limit) := by omega
  obtain ⟨page, hpage, hrows⟩ := paginate_candidates tools many pages hgate
  unfold mergePages at h
  simp only [hpage, hrows, hs, Bool.false_eq_true, if_false, fitPayloadPage_merged helig] at h
  cases hcount : globalCount tools many ask pages errors with
  | ok count => simp [hcount, Except.map] at h
  | error message =>
    simp only [hcount, Except.map, Except.error.injEq] at h
    exact ⟨message, rfl, h.symm⟩

/-- The rows of the contributed pages are among their eligible ones. -/
theorem eligible_contributions (eqInt : F → Int → Bool) (interp : Interpreter F)
    (tools : Tools) (fleet : Fleet F) (ask : Ask F) :
    0 ≤ (contributions eqInt interp tools fleet ask).eligible ∧ ∀ many,
      (((contributions eqInt interp tools fleet ask).candidates many).length : Int) ≤
        (contributions eqInt interp tools fleet ask).eligible := by
  have hone : ∀ p ∈ contributions eqInt interp tools fleet ask,
      0 ≤ p.2.header.eligible ∧ (p.2.rows.length : Int) ≤ p.2.header.eligible := by
    intro p hp
    obtain ⟨-, -, payload, hkept⟩ := contributions_kept hp
    obtain ⟨pageObj, total, -, hheader⟩ := hkept.header
    obtain ⟨-, -, -, hpos, hreturned, hle⟩ := checkPage_spec hheader
    have hrows : p.2.rows.length ≤ p.2.jobs.length := List.length_filterMap_le _ _
    exact ⟨hpos, by omega⟩
  have hsum : ∀ pages : Pages F, (∀ p ∈ pages,
      0 ≤ p.2.header.eligible ∧ (p.2.rows.length : Int) ≤ p.2.header.eligible) →
        0 ≤ pages.eligible ∧ ((pages.flatMap fun p => p.2.rows).length : Int) ≤ pages.eligible := by
    intro pages hpages
    induction pages with
    | nil => exact ⟨le_rfl, le_rfl⟩
    | cons p pages ih =>
      obtain ⟨hpos, hle⟩ := ih fun q hq => hpages q (List.mem_cons_of_mem _ hq)
      obtain ⟨hpos', hle'⟩ := hpages p List.mem_cons_self
      have heq : Pages.eligible (p :: pages) = p.2.header.eligible + Pages.eligible pages :=
        List.sum_cons
      rw [List.flatMap_cons, List.length_append, heq]
      push_cast
      exact ⟨by omega, by omega⟩
  obtain ⟨hpos, hle⟩ := hsum _ hone
  exact ⟨hpos, fun many => by rw [Pages.candidates, List.length_map]; exact hle⟩

omit [FloatText F] in
theorem get_dropCursor {payload : Row F} {name : String} (h : name ≠ "page") :
    Row.get (dropCursor payload) name = Row.get payload name := by
  unfold dropCursor
  split
  · exact Row.get_set_of_ne _ h _
  · rfl

omit [FloatText F] in
/-- Without its cursor the page still has its counts. -/
theorem get_page_dropCursor {payload page : Row F} (h : Row.get payload "page" = .obj page) :
    Row.get (dropCursor payload) "page" = .obj (Row.set page "next_cursor" .null) := by
  unfold dropCursor
  rw [h]
  exact Row.get_set_self _ _ _

theorem get_globalPayload {many : Bool} {pages : Pages F} {errors : List (String × String)}
    {count : Nat} {name : String} (hjobs : name ≠ "jobs") (hpage : name ≠ "page") :
    Row.get (globalPayload tools many ask pages errors count) name =
      Row.get (mergedPayload tools ask pages (globalRows many ask pages) errors) name := by
  unfold globalPayload candidate
  rw [Row.get_set_of_ne _ hpage, Row.get_set_of_ne _ hjobs]

theorem page_globalPayload {many : Bool} {pages : Pages F} {errors : List (String × String)}
    {count : Nat} : Row.get (globalPayload tools many ask pages errors count) "page" =
      pageObject pages.eligible.toNat count (continuationAfter (globalRows many ask pages)
        (selectionDigest tools ask.q) orderField pages.eligible.toNat count) := by
  unfold globalPayload candidate
  rw [Row.get_set_self]

theorem jobs_globalPayload {many : Bool} {pages : Pages F} {errors : List (String × String)}
    {count : Nat} : Row.get (globalPayload tools many ask pages errors count) "jobs" =
      .arr ((project ((globalRows many ask pages).take count) ask.q.fields).map .obj) := by
  unfold globalPayload candidate
  rw [Row.get_set_of_ne _ (by decide), Row.get_set_self]

def sampleInterpreter : Interpreter (Fin 10) where
  deep _ := false
  flat _ _ _ := rfl

def sampleEqInt (x : Fin 10) (n : Int) : Bool := (x.val : Int) = n

def sampleAsk : Ask (Fin 10) :=
  { q := { center := "all", fields := ["job_id"] }, limit := 2, now := 5, legacyNow := fun _ => 5 }

/-- The page of a center without jobs. -/
def emptyPage (center : String) : Row (Fin 10) :=
  envelope sampleTools (sampleAsk.selection center) { rows := [], limit := 2, generatedAt := 5 } none
    (pageObject 0 0 none) []

/-- The page of the healthy center keeps the contract. -/
theorem emptyPage_valid : ∃ page, validateCenter sampleEqInt sampleTools sampleAsk "lab"
    (.obj (emptyPage "lab")) = .ok page := by
  have hlength : ((Json.obj (emptyPage "lab")).render {}).length ≤ 1024 * 1024 := by decide +kernel
  have hsize : decide (serializedSize (emptyPage "lab") ≤ maxResponseBytes) = true :=
    decide_eq_true (serializedSize_le hlength)
  refine exists_of_isOk ?_
  simp only [validateCenter, validatePayloadContract, hsize]
  decide +kernel

end Dt.Query
