import Dt.Query.Delivered

/-!
# Following the cursor of the laptop

Every center answers with the page that `build_payload` makes from its rows after the cursor, and
the laptop merges the first rows of all pages. The cursor is the key of the last merged row, whatever
center it is from: a row that is left behind has a lower key, so it is below the cursor on its own
center too. Merging the pages of the centers is therefore the same as paging through the rows of all
centers at once.
-/

namespace Dt.Query

open Dt.Lib Dt.Jobs

variable {F : Type} [FloatText F]

/-- One request of the reader: the limit, the clocks, and what the centers answer besides their
pages. -/
structure Turn (F : Type) where
  limit : Int
  now : F
  clock : String → F
  damage : String → List (String × String) := fun _ => []
  legacy : String → Reply F
  legacyNow : String → F

def Turn.ask (t : Turn F) (q : Selection F) (cursor : Option String) : Ask F :=
  { q, limit := t.limit, cursor, now := t.now, legacyNow := t.legacyNow }

/-- The request that a head answers. -/
def Turn.request (t : Turn F) (rows : String → List (Row F)) (center : String) : Request F :=
  { rows := rows center, limit := t.limit, errors := t.damage center, generatedAt := t.clock center }

/-- Centers that answer with the pages of their rows. -/
def Turn.fleet (t : Turn F) (tools : Tools) (q : Selection F) (centers : List String)
    (rows : String → List (Row F)) (cursor : Option String) : Fleet F where
  centers := centers
  reply center :=
    match buildPayload tools ((t.ask q cursor).selection center) (t.request rows center) cursor with
    | .ok payload => .json (.obj payload)
    | .error e => .error e
  legacy := t.legacy

/-- `page["next_cursor"]` -/
def nextCursorOf (payload : Row F) : Option String :=
  match Row.get payload "page" with
  | .obj page =>
    match Row.get page "next_cursor" with
    | .str cursor => some cursor
    | _ => none
  | _ => none

/-- Follow the cursors of the laptop through some requests. -/
def followLaptop (eqInt : F → Int → Bool) (interp : Interpreter F) (tools : Tools) (q : Selection F)
    (centers : List String) (rows : String → List (Row F)) :
    List (Turn F) → Option String → Except Raised (List (Gathered F) × Option String)
  | [], cursor => .ok ([], cursor)
  | t :: rest, cursor => do
    let g ← gatherLaptopPsQuery eqInt interp tools (t.fleet tools q centers rows cursor)
      (t.ask q cursor)
    match nextCursorOf g.payload with
    | none => return ([g], none)
    | some next => do
      let more ← followLaptop eqInt interp tools q centers rows rest (some next)
      return (g :: more.1, more.2)

/-- The rows of all centers that the query lists. -/
def allMatching (q : Selection F) (centers : List String) (rows : String → List (Row F)) :
    List (Row F) :=
  (centers.map fun center => filterSince (rows center) q.since).flatten

/-- A row as a center sends it, with its reference scoped. -/
def sent (q : Selection F) (many : Bool) (row : Row F) : Row F :=
  scopeRef many (projectRow row (internalFields q.fields))

/-- A row as the laptop lists it. -/
def shown (q : Selection F) (many : Bool) (row : Row F) : Row F :=
  projectRow (sent q many row) q.fields

/-- The rows of a payload. -/
def jobsOf (payload : Row F) : List (Row F) :=
  match Row.get payload "jobs" with
  | .arr jobs => jobs.filterMap fun
    | .obj row => some row
    | _ => none
  | _ => []

def isPartial (payload : Row F) : Bool := isTrue (Row.get payload "partial")

/-- A center whose page is refused has no list that would be merged instead. -/
def OnlyPages (eqInt : F → Int → Bool) (tools : Tools) (q : Selection F) (centers : List String)
    (rows : String → List (Row F)) (t : Turn F) : Prop :=
  ∀ cursor, ∀ center ∈ centers,
    fallsBack eqInt tools (t.fleet tools q centers rows cursor) (t.ask q cursor) center = true →
      ∀ value, t.legacy center = .json value → rowArray value = none

/-! ## Keys -/

theorem mem_fromKeys {names : List String} {name : String} :
    name ∈ fromKeys names ↔ name ∈ names := by
  induction names with
  | nil => rfl
  | cons first names ih =>
    simp only [fromKeys, List.mem_cons, List.mem_filter, ih, decide_eq_true_eq]
    by_cases h : name = first
    · simp [h]
    · simp [h]

theorem mem_internalFields {selected : List String} {name : String} (h : name ∈ mergeFields) :
    name ∈ internalFields selected :=
  mem_fromKeys.mpr (List.mem_append_right _ h)

theorem get_scopeRef {many : Bool} {row : Row F} {name : String} (h : name ≠ "display_ref") :
    Row.get (scopeRef many row) name = Row.get row name := by
  have hset : ∀ value, Row.get (Row.set row "display_ref" value) name = Row.get row name :=
    fun value => Row.get_set_of_ne _ h value
  unfold scopeRef
  split
  · split
    · rfl
    · dsimp only
      split
      · split
        · exact hset _
        · split
          · exact hset _
          · rfl
      · exact hset _
  · rfl

theorem rowKey_sent (q : Selection F) (many : Bool) (row : Row F) :
    rowKey (sent q many row) orderField = listKey row := by
  have hget : ∀ name, name ≠ "display_ref" → Row.get (sent q many row) name =
      Row.get (projectRow row (internalFields q.fields)) name := fun name => get_scopeRef
  have hscope : rowKey (sent q many row) orderField =
      rowKey (projectRow row (internalFields q.fields)) orderField := by
    simp only [rowKey, rowTimestamp, orderField, hget "job_id" (by decide),
      hget "created_at" (by decide)]
  rw [hscope, rowKey_projectRow (mem_internalFields (by decide)) (mem_internalFields (by decide))]

/-! ## The page of one center -/

section

variable {eqInt : F → Int → Bool} {interp : Interpreter F} {tools : Tools} {q : Selection F}
  {centers : List String} {rows : String → List (Row F)} {t : Turn F} {cursor : Option String}
  {anchor : Option (Key F)}

/-- Without a list there is no page of the fallback. -/
theorem legacyPage_none (interp : Interpreter F) (tools : Tools) (fleet : Fleet F) (ask : Ask F)
    {center : String}
    (h : ∀ value, fleet.legacy center = .json value → rowArray value = none) :
    legacyPage interp tools fleet ask center = .ok none := by
  have hread : legacyPsQueryRows (fleet.legacy center) center ask.q = .ok none := by
    cases hl : fleet.legacy center with
    | error message => rfl
    | json value => simp [legacyPsQueryRows, h value hl]
  exact bind_ok.mpr ⟨none, hread, rfl⟩

theorem not_ok_of_fallsBack (honly : OnlyPages eqInt tools q centers rows t) {center : String}
    (hc : center ∈ centers)
    (hfall : fallsBack eqInt tools (t.fleet tools q centers rows cursor) (t.ask q cursor) center =
      true) {page : ValidatedPage F} :
    answerOf eqInt interp tools (t.fleet tools q centers rows cursor) (t.ask q cursor) center ≠
      .ok page := by
  intro h
  have hnone := legacyPage_none interp tools (t.fleet tools q centers rows cursor) (t.ask q cursor)
    (honly cursor center hc hfall)
  simp only [answerOf, hfall, if_true, hnone] at h
  split at h <;> cases h

/-- A center that answers with a page contributes the first rows after the cursor. -/
theorem answerOf_turn (hq : q.summaryOnly = false) (hcursor : CursorAt tools q cursor anchor)
    (honly : OnlyPages eqInt tools q centers rows t) {center : String} (hc : center ∈ centers)
    {page : ValidatedPage F}
    (h : answerOf eqInt interp tools (t.fleet tools q centers rows cursor) (t.ask q cursor) center =
      .ok page) :
    page.header.eligible = ((after listKey (filterSince (rows center) q.since) anchor).length : Int) ∧
      page.rows = ((after listKey (filterSince (rows center) q.since) anchor).take t.limit.toNat).map
        (projectRow · (internalFields q.fields)) := by
  have hfall : fallsBack eqInt tools (t.fleet tools q centers rows cursor) (t.ask q cursor) center =
      false := Bool.eq_false_iff.mpr fun hfall => not_ok_of_fallsBack honly hc hfall h
  obtain ⟨value, hreply, htake⟩ : ∃ value, (t.fleet tools q centers rows cursor).reply center =
      .json value ∧ takePage eqInt tools (t.ask q cursor) center value = .ok page := by
    simp only [answerOf, hfall, Bool.false_eq_true, if_false] at h
    split at h
    · cases h
    · split at h
      · cases h
      · exact ⟨_, ‹_›, h⟩
  -- the value is the payload of the page that the head serves
  obtain ⟨s, hs, rfl⟩ : ∃ s, serve tools ((t.ask q cursor).selection center) (t.request rows center)
      cursor = .ok s ∧ value = .obj s.payload := by
    simp only [Turn.fleet] at hreply
    rw [buildPayload_eq_serve tools ((t.ask q cursor).selection center) hq] at hreply
    cases hs : serve tools ((t.ask q cursor).selection center) (t.request rows center) cursor with
    | error e => simp [hs, Except.map] at hreply
    | ok s => exact ⟨s, rfl, by simpa [hs, Except.map] using hreply.symm⟩
  obtain ⟨hvalid, hfull⟩ := takePage_ok htake
  obtain ⟨payload, heq, hkept⟩ := kept_of_validate hvalid
  obtain rfl : s.payload = payload := by simpa using heq
  have hat : CursorAt tools ((t.ask q cursor).selection center) cursor anchor := hcursor
  obtain ⟨hjobs, hpage⟩ := serve_payload hat hs
  obtain ⟨tail, hsplit, -⟩ := serve_ok hat hs
  have hmatching : matching ((t.ask q cursor).selection center) (t.request rows center) =
      filterSince (rows center) q.since := rfl
  rw [hmatching] at hpage hsplit
  obtain ⟨pageObj, total, hobj, hheader⟩ := hkept.header
  obtain ⟨heligible, hreturned, -, -, -, -⟩ := checkPage_spec hheader
  have hcounts : pageObj = [("eligible", .int (after listKey (filterSince (rows center) q.since)
      anchor).length), ("returned", .int s.rows.length), ("next_cursor", optText s.nextCursor)] :=
    Json.obj.inj (hobj.symm.trans hpage)
  rw [hcounts] at heligible hreturned
  have helig : page.header.eligible =
      ((after listKey (filterSince (rows center) q.since) anchor).length : Int) :=
    (Option.some.inj heligible).symm
  have hret : page.header.returned = (s.rows.length : Int) := (Option.some.inj hreturned).symm
  refine ⟨helig, ?_⟩
  -- the page is not cut, so it has as many rows as the limit allows
  have hlength : (s.rows.length : Int) =
      min t.limit ((after listKey (filterSince (rows center) q.since) anchor).length : Int) := by
    rw [← hret, ← helig]
    exact hfull hq
  have hrows : s.rows =
      (after listKey (filterSince (rows center) q.since) anchor).take t.limit.toNat := by
    rw [hsplit] at hlength ⊢
    rw [List.length_append] at hlength
    rcases Nat.lt_or_ge s.rows.length t.limit.toNat with hlt | hge
    · have htail : tail = [] := List.length_eq_zero_iff.mp (by omega)
      rw [htail, List.append_nil, List.take_of_length_le hlt.le]
    · have htake : s.rows.length = t.limit.toNat := by omega
      rw [← htake, List.take_left]
  have hjobsEq : page.jobs = (project s.rows (internalFields q.fields)).map .obj :=
    Json.arr.inj (hkept.jobs.symm.trans hjobs)
  rw [← hrows, ValidatedPage.rows, hjobsEq, List.filterMap_map]
  exact List.filterMap_some

/-- Pages that heads serve raise nothing. -/
theorem calm_turn (interp : Interpreter F) (honly : OnlyPages eqInt tools q centers rows t) :
    Calm eqInt interp tools (t.fleet tools q centers rows cursor) (t.ask q cursor) := by
  refine ⟨fun center _ value hr => ?_, fun center hc hfall => ⟨none, ?_⟩⟩
  · have hdigest : selectionDigest tools ((t.ask q cursor).selection center) =
        selectionDigest tools (t.ask q cursor).q := rfl
    simp only [Turn.fleet] at hr
    split at hr
    · rename_i payload hbuilt
      obtain rfl := Reply.json.inj hr
      exact strained_served hdigest rfl hbuilt
    · cases hr
  · exact legacyPage_none interp tools (t.fleet tools q centers rows cursor) (t.ask q cursor)
      (honly cursor center hc hfall)

end

/-! ## Errors -/

theorem setText_ne_nil (dict : List (String × String)) (key value : String) :
    setText dict key value ≠ [] := by
  unfold setText
  split
  · rename_i h
    intro hnil
    rw [List.map_eq_nil_iff.mp hnil] at h
    cases h
  · simp

theorem updateTexts_eq_nil {dict others : List (String × String)} :
    updateTexts dict others = [] ↔ dict = [] ∧ others = [] := by
  have hkeeps : ∀ (others dict : List (String × String)), dict ≠ [] → updateTexts dict others ≠ [] := by
    intro others
    induction others with
    | nil => exact fun dict h => h
    | cons p others ih => exact fun dict _ => ih _ (setText_ne_nil dict p.1 p.2)
  constructor
  · intro h
    have hdict : dict = [] := by
      by_contra hne
      exact hkeeps others dict hne h
    subst hdict
    cases others with
    | nil => exact ⟨rfl, rfl⟩
    | cons p others => exact absurd h (hkeeps others _ (setText_ne_nil [] p.1 p.2))
  · rintro ⟨rfl, rfl⟩
    rfl

/-- The bounds leave no error out without a trace. -/
theorem boundedErrors_eq_nil (tools : Tools) {errors : List (String × String)} :
    boundedErrors tools errors = [] ↔ errors = [] := by
  have hkeeps : ∀ (items result : List (String × String)), result ≠ [] →
      items.foldl (boundedError tools) result ≠ [] := by
    intro items
    induction items with
    | nil => exact fun result h => h
    | cons p items ih => exact fun result _ => ih _ (setText_ne_nil result _ _)
  constructor
  · intro h
    by_contra hne
    obtain ⟨p, rest, hp⟩ : ∃ p rest, (errors.insertionSort fun a b => toLex a ≤ toLex b) = p :: rest := by
      refine List.exists_cons_of_ne_nil fun hnil => hne ?_
      exact List.length_eq_zero_iff.mp (by
        rw [← List.length_insertionSort (fun a b => toLex a ≤ toLex b) errors, hnil, List.length_nil])
    have hfold : ∀ n, 0 < n → ((p :: rest).take n).foldl (boundedError tools) [] ≠ [] := by
      intro n hn
      obtain ⟨m, rfl⟩ := Nat.exists_eq_succ_of_ne_zero hn.ne'
      rw [Nat.succ_eq_add_one, List.take_succ_cons, List.foldl_cons]
      exact hkeeps _ _ (setText_ne_nil _ _ _)
    have hkeep : 0 < if (p :: rest).length ≤ maxPartialErrors then maxPartialErrors
        else maxPartialErrors - 1 := by
      split <;> decide
    simp only [boundedErrors, hp] at h
    generalize (if (p :: rest).length ≤ maxPartialErrors then maxPartialErrors
      else maxPartialErrors - 1) = keep at h hkeep
    split at h
    · exact setText_ne_nil _ _ _ h
    · exact hfold keep hkeep h
  · rintro rfl
    rfl

/-! ## Partial pages -/

section

variable {eqInt : F → Int → Bool} {interp : Interpreter F} {tools : Tools} {fleet : Fleet F}
  {ask : Ask F} {g : Gathered F}

/-- The errors of the pages and of the centers. -/
def failuresOf (eqInt : F → Int → Bool) (interp : Interpreter F) (tools : Tools) (fleet : Fleet F)
    (ask : Ask F) : List (String × String) :=
  updateTexts (contributions eqInt interp tools fleet ask).errors
    (namedErrors eqInt interp tools fleet ask)

/-- The merged payload is fitted; with an error it has no cursor. -/
theorem gather_payload (hq : ask.q.summaryOnly = false)
    (hg : gatherLaptopPsQuery eqInt interp tools fleet ask = .ok g) :
    (1 ≤ ask.limit ∧ ask.limit ≤ maxLimit) ∧
    ∃ count, globalCount tools (1 < fleet.centers.length) ask (contributions eqInt interp tools fleet ask)
        (namedErrors eqInt interp tools fleet ask) = .ok count ∧
      g.payload = if (boundedErrors tools (failuresOf eqInt interp tools fleet ask)).isEmpty then
          globalPayload tools (1 < fleet.centers.length) ask
            (contributions eqInt interp tools fleet ask) (namedErrors eqInt interp tools fleet ask) count
        else dropCursor (globalPayload tools (1 < fleet.centers.length) ask
          (contributions eqInt interp tools fleet ask) (namedErrors eqInt interp tools fleet ask)
          count) := by
  obtain ⟨merged, hmerged⟩ := mergeSummaries_contributions eqInt interp tools fleet ask
  obtain ⟨helig, -⟩ := eligible_contributions eqInt interp tools fleet ask
  rw [gather_of_calm (calm_of_gather hg)] at hg
  obtain ⟨hlimit, -, hrest⟩ := (mergePages_ok_iff hmerged helig).mp hg
  rw [hq] at hrest
  exact ⟨hlimit, hrest⟩

/-- Answers that raise nothing and fit are merged. -/
theorem gather_of_count {count : Nat} (hcalm : Calm eqInt interp tools fleet ask)
    (hq : ask.q.summaryOnly = false) (hlimit : 1 ≤ ask.limit ∧ ask.limit ≤ maxLimit)
    (hcount : globalCount tools (1 < fleet.centers.length) ask
      (contributions eqInt interp tools fleet ask) (namedErrors eqInt interp tools fleet ask) =
        .ok count) : ∃ g, gatherLaptopPsQuery eqInt interp tools fleet ask = .ok g := by
  obtain ⟨helig, -⟩ := eligible_contributions eqInt interp tools fleet ask
  rw [gather_of_calm hcalm]
  cases h : mergePages tools (1 < fleet.centers.length) ask (contributions eqInt interp tools fleet ask)
      (namedErrors eqInt interp tools fleet ask) with
  | ok g => exact ⟨g, rfl⟩
  | error e =>
    obtain ⟨message, hmessage, -⟩ := mergePages_error helig hq hlimit h
    rw [hcount] at hmessage
    cases hmessage

theorem partial_globalPayload {many : Bool} {pages : Pages F} {errors : List (String × String)}
    {merged : Row F} (hmerged : mergeSummaries pages.summaries = .ok merged) {count : Nat} :
    Row.get (globalPayload tools many ask pages errors count) "partial" =
      .bool (!(boundedErrors tools (updateTexts pages.errors errors)).isEmpty) := by
  have hsummary : mergedSummary pages errors = (merged, errors) := by
    simp [mergedSummary, hmerged]
  rw [get_globalPayload (by decide) (by decide)]
  unfold mergedPayload
  rw [hsummary]
  rfl

/-- A payload is partial exactly when it has an error. -/
theorem isPartial_gather (hq : ask.q.summaryOnly = false)
    (hg : gatherLaptopPsQuery eqInt interp tools fleet ask = .ok g) :
    isPartial g.payload = true ↔ failuresOf eqInt interp tools fleet ask ≠ [] := by
  obtain ⟨merged, hmerged⟩ := mergeSummaries_contributions eqInt interp tools fleet ask
  obtain ⟨-, count, -, hpayload⟩ := gather_payload hq hg
  have hpart : Row.get g.payload "partial" =
      .bool (!(boundedErrors tools (failuresOf eqInt interp tools fleet ask)).isEmpty) := by
    rw [hpayload]
    split
    · exact partial_globalPayload hmerged
    · exact (get_dropCursor (by decide)).trans (partial_globalPayload hmerged)
  rw [isPartial, hpart, Ne, ← boundedErrors_eq_nil tools]
  cases boundedErrors tools (failuresOf eqInt interp tools fleet ask) <;> simp [isTrue]

/-- A partial payload has no cursor. -/
theorem nextCursorOf_flawed (hq : ask.q.summaryOnly = false)
    (hg : gatherLaptopPsQuery eqInt interp tools fleet ask = .ok g)
    (hpart : isPartial g.payload = true) : nextCursorOf g.payload = none := by
  obtain ⟨-, count, -, hpayload⟩ := gather_payload hq hg
  have hsome : (boundedErrors tools (failuresOf eqInt interp tools fleet ask)).isEmpty = false := by
    rw [List.isEmpty_eq_false_iff, Ne, boundedErrors_eq_nil tools]
    exact (isPartial_gather hq hg).mp hpart
  rw [hpayload, if_neg (by simp [hsome])]
  unfold nextCursorOf
  rw [get_page_dropCursor page_globalPayload]
  simp only [Row.get_set_self]

/-- There is no error exactly when every center contributes a page, and no page has an error. -/
theorem failuresOf_eq_nil : failuresOf eqInt interp tools fleet ask = [] ↔
    (∀ center ∈ fleet.centers, ∃ page, answerOf eqInt interp tools fleet ask center = .ok page) ∧
      ∀ p ∈ contributions eqInt interp tools fleet ask, p.2.errors = [] := by
  have hnamed : namedErrors eqInt interp tools fleet ask = [] ↔ ∀ center ∈ fleet.centers,
      ∃ page, answerOf eqInt interp tools fleet ask center = .ok page := by
    rw [namedErrors, List.filterMap_eq_nil_iff]
    refine forall₂_congr fun center _ => ?_
    cases answerOf eqInt interp tools fleet ask center <;> simp [errorOf]
  have hpages : (contributions eqInt interp tools fleet ask).errors = [] ↔
      ∀ p ∈ contributions eqInt interp tools fleet ask, p.2.errors = [] := by
    rw [Pages.errors, updateTexts_eq_nil, List.flatMap_eq_nil_iff]
    simp [pageErrors]
  rw [failuresOf, updateTexts_eq_nil, hpages, hnamed, and_comm]

end

/-! ## The merged page -/

section

variable {eqInt : F → Int → Bool} {interp : Interpreter F} {tools : Tools} {q : Selection F}
  {centers : List String} {rows : String → List (Row F)} {t : Turn F} {cursor : Option String}
  {anchor : Option (Key F)}

/-- When every center contributes a page, the pages have the first rows of every center. -/
theorem contributions_turn (hq : q.summaryOnly = false) (hcursor : CursorAt tools q cursor anchor)
    (honly : OnlyPages eqInt tools q centers rows t)
    (hall : ∀ center ∈ centers, ∃ page,
      answerOf eqInt interp tools (t.fleet tools q centers rows cursor) (t.ask q cursor) center =
        .ok page) (many : Bool) :
    (contributions eqInt interp tools (t.fleet tools q centers rows cursor)
        (t.ask q cursor)).candidates many =
      ((centers.map fun center => filterSince (rows center) q.since).flatMap fun part =>
        (after listKey part anchor).take t.limit.toNat).map (sent q many) ∧
    (contributions eqInt interp tools (t.fleet tools q centers rows cursor)
        (t.ask q cursor)).eligible = ((centers.map fun center =>
          (after listKey (filterSince (rows center) q.since) anchor).length).sum : Nat) := by
  have : Nonempty (ValidatedPage F) := ⟨⟨[], [], ⟨0, 0, none⟩, [], false, []⟩⟩
  choose! page hpage using hall
  have hpages : contributions eqInt interp tools (t.fleet tools q centers rows cursor)
      (t.ask q cursor) = centers.map fun center => (center, page center) := by
    have hcenters : (t.fleet tools q centers rows cursor).centers = centers := rfl
    rw [contributions, hcenters, ← List.filterMap_eq_map]
    refine List.filterMap_congr fun center hc => ?_
    rw [hpage center hc]
    rfl
  rw [hpages]
  constructor
  · rw [Pages.candidates, List.flatMap_map, List.flatMap_map, List.map_flatMap, List.map_flatMap]
    refine List.flatMap_congr fun center hc => ?_
    rw [(answerOf_turn hq hcursor honly hc (hpage center hc)).2, List.map_map]
    rfl
  · rw [Pages.eligible, List.map_map, Nat.cast_list_sum, List.map_map]
    refine congrArg List.sum (List.map_congr_left fun center hc => ?_)
    exact (answerOf_turn hq hcursor honly hc (hpage center hc)).1

/-- The rows that the merged page may list are the first rows of all centers. -/
theorem globalRows_turn (hq : q.summaryOnly = false) (hcursor : CursorAt tools q cursor anchor)
    (honly : OnlyPages eqInt tools q centers rows t) (hlist : Listable (allMatching q centers rows))
    (hall : ∀ center ∈ centers, ∃ page,
      answerOf eqInt interp tools (t.fleet tools q centers rows cursor) (t.ask q cursor) center =
        .ok page) (many : Bool) :
    globalRows many (t.ask q cursor) (contributions eqInt interp tools
        (t.fleet tools q centers rows cursor) (t.ask q cursor)) =
      ((after listKey (allMatching q centers rows) anchor).take t.limit.toNat).map (sent q many) ∧
    (contributions eqInt interp tools (t.fleet tools q centers rows cursor)
        (t.ask q cursor)).eligible = (after listKey (allMatching q centers rows) anchor).length := by
  obtain ⟨hcandidates, heligible⟩ := contributions_turn hq hcursor honly hall many
  constructor
  · have hsort : ∀ l : List (Row F), sortedRows (l.map (sent q many)) orderField =
        (falling listKey l).map (sent q many) := fun l => by
      refine (List.map_insertionSort _ _ _ _ fun a _ b _ => ?_).symm
      rw [rowKey_sent, rowKey_sent]
    rw [globalRows, hcandidates, hsort, ← List.map_take]
    exact congrArg (List.map (sent q many)) (take_after_flatten hlist.nodup anchor t.limit.toNat)
  · rw [heligible, allMatching, length_after_flatten, List.map_map]
    rfl

/-- The cursor of a row is the same on the laptop. -/
theorem continuationAfter_sent (many : Bool) (source : List (Row F)) (digest : String)
    (eligible count : Nat) :
    continuationAfter (source.map (sent q many)) digest orderField eligible count =
      continuationAfter source digest orderField eligible count := by
  have hsame : (fun row : Row F => continuationCursor (sent q many row) digest orderField) =
      (continuationCursor · digest orderField) := by
    funext row
    rw [continuationCursor, rowKey_sent]
    rfl
  unfold continuationAfter
  rw [List.getElem?_map, Option.map_map]
  exact congrArg (fun cursor : Row F → String => if count < eligible ∧ 0 < count then
    source[count - 1]?.map cursor else none) hsame

omit [FloatText F] in
theorem jobsOf_project {payload : Row F} {list : List (Row F)}
    (h : Row.get payload "jobs" = .arr (list.map .obj)) : jobsOf payload = list := by
  rw [jobsOf, h]
  dsimp only
  rw [List.filterMap_map]
  exact List.filterMap_some

omit [FloatText F] in
theorem nextCursorOf_pageObject {payload : Row F} {eligible returned : Nat} {next : Option String}
    (h : Row.get payload "page" = pageObject eligible returned next) : nextCursorOf payload = next := by
  rw [nextCursorOf, h]
  cases next <;> rfl

/-- A page that is not partial lists the first rows after its cursor: all of them when it has no next
cursor, and else the next cursor is the one of its last row. -/
theorem turn_page (hq : q.summaryOnly = false) (hcursor : CursorAt tools q cursor anchor)
    (honly : OnlyPages eqInt tools q centers rows t) (hlist : Listable (allMatching q centers rows))
    {g : Gathered F} (hg : gatherLaptopPsQuery eqInt interp tools
      (t.fleet tools q centers rows cursor) (t.ask q cursor) = .ok g)
    (hfull : isPartial g.payload = false) :
    ∃ page tail, after listKey (allMatching q centers rows) anchor = page ++ tail ∧
      jobsOf g.payload = page.map (shown q (1 < centers.length)) ∧
      ((tail = [] ∧ nextCursorOf g.payload = none) ∨ tail ≠ [] ∧ ∃ row, page.getLast? = some row ∧
        nextCursorOf g.payload =
          some (continuationCursor row (selectionDigest tools q) orderField)) := by
  have hnone : failuresOf eqInt interp tools (t.fleet tools q centers rows cursor) (t.ask q cursor) =
      [] := by
    by_contra hne
    rw [(isPartial_gather hq hg).mpr hne] at hfull
    cases hfull
  obtain ⟨hall, -⟩ := failuresOf_eq_nil.mp hnone
  obtain ⟨hlimit, count, hcount, hpayload⟩ := gather_payload hq hg
  rw [if_pos (List.isEmpty_iff.mpr ((boundedErrors_eq_nil tools).mpr hnone))] at hpayload
  obtain ⟨hrows, heligible⟩ := globalRows_turn hq hcursor honly hlist hall (1 < centers.length)
  have hjobs := jobsOf_project (hpayload ▸ jobs_globalPayload)
  have hnext := nextCursorOf_pageObject (hpayload ▸ page_globalPayload)
  obtain ⟨hle, -, hsome⟩ := fitCount_spec hcount
  have hmany : (t.fleet tools q centers rows cursor).centers = centers := rfl
  have hlimitEq : (t.ask q cursor).limit = t.limit := rfl
  rw [hmany] at hle hsome hjobs hnext
  rw [hrows, List.length_map] at hle
  rw [hrows, Ne, List.map_eq_nil_iff, heligible, Int.toNat_natCast] at hsome
  rw [hlimitEq] at hlimit
  obtain ⟨htake, tail, hsplit, hend⟩ := prefix_of_count (selectionDigest tools q) orderField
    (by omega) hle hsome
  refine ⟨_, tail, hsplit, ?_, ?_⟩
  · rw [hjobs, hrows, ← List.map_take, htake, project, List.map_map]
    rfl
  · have hcursorEq : nextCursorOf g.payload = continuationAfter
        ((after listKey (allMatching q centers rows) anchor).take t.limit.toNat)
        (selectionDigest tools q) orderField
        (after listKey (allMatching q centers rows) anchor).length count := by
      rw [hnext, hrows, heligible, Int.toNat_natCast, continuationAfter_sent]
      rfl
    rw [hcursorEq]
    exact hend

/-- The laptop refuses a page only for the byte budget. -/
theorem gather_error (hq : q.summaryOnly = false) (honly : OnlyPages eqInt tools q centers rows t)
    (hlimit : 1 ≤ t.limit ∧ t.limit ≤ maxLimit) {e : Raised}
    (h : gatherLaptopPsQuery eqInt interp tools (t.fleet tools q centers rows cursor)
      (t.ask q cursor) = .error e) : ∃ message ∈ budgetErrors, e = .query message := by
  rw [gather_of_calm (calm_turn interp honly)] at h
  obtain ⟨helig, -⟩ := eligible_contributions eqInt interp tools
    (t.fleet tools q centers rows cursor) (t.ask q cursor)
  obtain ⟨message, hcount, rfl⟩ := mergePages_error helig hq hlimit h
  exact ⟨message, fitCount_error hcount, rfl⟩

end

/-! ## All pages -/

section

variable {eqInt : F → Int → Bool} {interp : Interpreter F} {tools : Tools} {q : Selection F}
  {centers : List String} {rows : String → List (Row F)} {turns : List (Turn F)}
  {cursor final : Option String} {anchor : Option (Key F)} {pages : List (Gathered F)}

/-- The first page, and the pages after its cursor. -/
theorem followLaptop_cons {t : Turn F} {rest : List (Turn F)}
    (h : followLaptop eqInt interp tools q centers rows (t :: rest) cursor = .ok (pages, final)) :
    ∃ g, gatherLaptopPsQuery eqInt interp tools (t.fleet tools q centers rows cursor)
        (t.ask q cursor) = .ok g ∧
      ((nextCursorOf g.payload = none ∧ pages = [g] ∧ final = none) ∨
        ∃ next more, nextCursorOf g.payload = some next ∧
          followLaptop eqInt interp tools q centers rows rest (some next) = .ok (more, final) ∧
            pages = g :: more) := by
  rw [followLaptop] at h
  obtain ⟨g, hg, h⟩ := bind_ok.mp h
  refine ⟨g, hg, ?_⟩
  cases hnext : nextCursorOf g.payload with
  | none =>
    rw [hnext] at h
    obtain ⟨rfl, rfl⟩ := Prod.mk.inj (Except.ok.inj h)
    exact .inl ⟨rfl, rfl, rfl⟩
  | some next =>
    rw [hnext] at h
    obtain ⟨more, hmore, h⟩ := bind_ok.mp h
    obtain ⟨rfl, rfl⟩ := Prod.mk.inj (Except.ok.inj h)
    exact .inr ⟨next, more.1, rfl, hmore, rfl⟩

/-- The pages that are not partial list the first rows after the cursor, in the order of the
listing; without a partial page nothing is left when there is no cursor. -/
theorem followLaptop_prefix (hq : q.summaryOnly = false) (hcursor : CursorAt tools q cursor anchor)
    (honly : ∀ t ∈ turns, OnlyPages eqInt tools q centers rows t)
    (hlist : Listable (allMatching q centers rows)) (hne : cursor = none → turns ≠ [])
    (h : followLaptop eqInt interp tools q centers rows turns cursor = .ok (pages, final)) :
    ∃ listed tail, after listKey (allMatching q centers rows) anchor = listed ++ tail ∧
      (pages.filter fun g => !isPartial g.payload).flatMap (fun g => jobsOf g.payload) =
        listed.map (shown q (1 < centers.length)) ∧
      (final = none → (∀ g ∈ pages, isPartial g.payload = false) → tail = []) := by
  induction turns generalizing cursor anchor pages with
  | nil =>
    obtain ⟨rfl, rfl⟩ := Prod.mk.inj (Except.ok.inj h)
    exact ⟨[], _, rfl, rfl, fun hfinal => absurd rfl (hne hfinal)⟩
  | cons t rest ih =>
    obtain ⟨g, hg, hnext⟩ := followLaptop_cons h
    have hfirst := honly t List.mem_cons_self
    cases hpart : isPartial g.payload with
    | true =>
      -- a partial page has no cursor, so it is the last one
      have hnone := nextCursorOf_flawed hq hg hpart
      rcases hnext with ⟨-, rfl, -⟩ | ⟨next, more, hsome, -⟩
      · refine ⟨[], _, rfl, by simp [hpart], fun _ hall => ?_⟩
        have hfull := hall g (List.mem_singleton_self g)
        rw [hpart] at hfull
        cases hfull
      · rw [hnone] at hsome
        cases hsome
    | false =>
      obtain ⟨page, tail, hsplit, hjobs, hend⟩ := turn_page hq hcursor hfirst hlist hg hpart
      rcases hnext with ⟨hnone, rfl, rfl⟩ | ⟨next, more, hsome, hmore, rfl⟩
      · refine ⟨page, tail, hsplit, by simp [hpart, hjobs], fun _ _ => ?_⟩
        rcases hend with ⟨rfl, -⟩ | ⟨-, row, -, hsome⟩
        · rfl
        · rw [hnone] at hsome
          cases hsome
      · rcases hend with ⟨-, hnone⟩ | ⟨-, row, hlast, hcursorEq⟩
        · rw [hnone] at hsome
          cases hsome
        · obtain rfl := Option.some.inj (hcursorEq.symm.trans hsome)
          have hrow : row ∈ allMatching q centers rows :=
            (mem_after.mp (hsplit ▸ List.mem_append_left _ (List.mem_of_getLast? hlast))).1
          obtain ⟨listed, rest', heq, hrest, hdone⟩ := ih (cursorAt_continuation hlist hrow)
            (fun t' ht' => honly t' (List.mem_cons_of_mem _ ht')) (nomatch ·) hmore
          rw [rest_after hlist.nodup hsplit hlast] at heq
          refine ⟨page ++ listed, rest', by rw [hsplit, heq, List.append_assoc], ?_, ?_⟩
          · rw [List.filter_cons_of_pos (by simp [hpart]), List.flatMap_cons, hjobs, hrest,
              List.map_append]
          · exact fun hfinal hall =>
              hdone hfinal fun g' hg' => hall g' (List.mem_cons_of_mem _ hg')

/-- With more requests than rows the last page is reached, unless one does not fit. -/
theorem followLaptop_ends (hq : q.summaryOnly = false) (hcursor : CursorAt tools q cursor anchor)
    (honly : ∀ t ∈ turns, OnlyPages eqInt tools q centers rows t ∧ 1 ≤ t.limit ∧ t.limit ≤ maxLimit)
    (hlist : Listable (allMatching q centers rows))
    (hmany : (after listKey (allMatching q centers rows) anchor).length < turns.length) :
    (∃ e ∈ budgetErrors,
        followLaptop eqInt interp tools q centers rows turns cursor = .error (.query e)) ∨
      ∃ pages, followLaptop eqInt interp tools q centers rows turns cursor = .ok (pages, none) := by
  induction turns generalizing cursor anchor with
  | nil => exact absurd hmany (Nat.not_lt_zero _)
  | cons t rest ih =>
    obtain ⟨hfirst, hlimit⟩ := honly t List.mem_cons_self
    cases hg : gatherLaptopPsQuery eqInt interp tools (t.fleet tools q centers rows cursor)
        (t.ask q cursor) with
    | error e =>
      obtain ⟨message, hmessage, rfl⟩ := gather_error hq hfirst hlimit hg
      exact .inl ⟨message, hmessage, by simp only [followLaptop, hg, bind, Except.bind]⟩
    | ok g =>
      cases hnext : nextCursorOf g.payload with
      | none =>
        refine .inr ⟨[g], ?_⟩
        simp only [followLaptop, hg, bind, Except.bind, hnext]
        rfl
      | some next =>
        have hfull : isPartial g.payload = false := by
          by_contra hpart
          rw [nextCursorOf_flawed hq hg (Bool.eq_true_of_not_eq_false hpart)] at hnext
          cases hnext
        obtain ⟨page, tail, hsplit, -, hend⟩ := turn_page hq hcursor hfirst hlist hg hfull
        rcases hend with ⟨-, hnone⟩ | ⟨-, row, hlast, hcursorEq⟩
        · rw [hnone] at hnext
          cases hnext
        · obtain rfl := Option.some.inj (hcursorEq.symm.trans hnext)
          have hrow : row ∈ page := List.mem_of_getLast? hlast
          have hmem : row ∈ allMatching q centers rows :=
            (mem_after.mp (hsplit ▸ List.mem_append_left _ hrow)).1
          have hfewer : (after listKey (allMatching q centers rows) (some (listKey row))).length <
              rest.length := by
            have hsum := congrArg List.length hsplit
            have hpos : 0 < page.length := List.length_pos_of_mem hrow
            rw [List.length_append] at hsum
            rw [List.length_cons] at hmany
            rw [rest_after hlist.nodup hsplit hlast]
            omega
          rcases ih (cursorAt_continuation hlist hmem)
            (fun t' ht' => honly t' (List.mem_cons_of_mem _ ht')) hfewer
            with ⟨e, he, herror⟩ | ⟨pages, hpages⟩
          · exact .inl ⟨e, he, by simp only [followLaptop, hg, bind, Except.bind, hnext, herror]⟩
          · refine .inr ⟨g :: pages, ?_⟩
            simp only [followLaptop, hg, bind, Except.bind, hnext, hpages]
            rfl

end

/-- Following the cursor of the laptop lists the rows of all centers exactly once, in the order of
the listing, unless a page is partial or does not fit; then the pages before it list the first rows.
A page is partial exactly when a center contributes no page or reports errors itself, and a partial
page has no cursor. -/
theorem laptop_pages_complete (eqInt : F → Int → Bool) (interp : Interpreter F) (tools : Tools)
    (q : Selection F) (hq : q.summaryOnly = false) :
    (∀ (centers : List String) (rows : String → List (Row F)) (turns : List (Turn F)),
      Listable (allMatching q centers rows) →
      (∀ t ∈ turns, OnlyPages eqInt tools q centers rows t ∧ 1 ≤ t.limit ∧ t.limit ≤ maxLimit) →
      (allMatching q centers rows).length < turns.length →
      (∃ e ∈ budgetErrors,
          followLaptop eqInt interp tools q centers rows turns none = .error (.query e)) ∨
        ∃ pages listed tail,
          followLaptop eqInt interp tools q centers rows turns none = .ok (pages, none) ∧
          sortedRows (allMatching q centers rows) orderField = listed ++ tail ∧
          (pages.filter fun g => !isPartial g.payload).flatMap (fun g => jobsOf g.payload) =
            listed.map (shown q (1 < centers.length)) ∧
          ((∀ g ∈ pages, isPartial g.payload = false) → tail = [])) ∧
    ∀ (fleet : Fleet F) (ask : Ask F) (g : Gathered F), ask.q.summaryOnly = false →
      gatherLaptopPsQuery eqInt interp tools fleet ask = .ok g →
      (isPartial g.payload = false ↔
        (∀ center ∈ fleet.centers, ∃ page,
          answerOf eqInt interp tools fleet ask center = .ok page) ∧
        ∀ p ∈ contributions eqInt interp tools fleet ask, p.2.errors = []) ∧
      (isPartial g.payload = true → nextCursorOf g.payload = none) := by
  refine ⟨fun centers rows turns hlist honly hmany => ?_, fun fleet ask g hs hg => ⟨?_, ?_⟩⟩
  · have hfirst : CursorAt tools q none none := trivial
    have hsorted : after listKey (allMatching q centers rows) none =
        sortedRows (allMatching q centers rows) orderField :=
      List.filter_eq_self.mpr fun _ _ => rfl
    have hfew : (after listKey (allMatching q centers rows) none).length < turns.length := by
      rw [hsorted, sortedRows, List.length_insertionSort]
      exact hmany
    rcases followLaptop_ends hq hfirst honly hlist hfew with herror | ⟨pages, hpages⟩
    · exact .inl herror
    · have hne : turns ≠ [] := List.length_pos_iff.mp (Nat.zero_lt_of_lt hmany)
      obtain ⟨listed, tail, hsplit, hjobs, hdone⟩ := followLaptop_prefix hq hfirst
        (fun t ht => (honly t ht).1) hlist (fun _ => hne) hpages
      exact .inr ⟨pages, listed, tail, hpages, hsorted ▸ hsplit, hjobs, hdone rfl⟩
  · rw [← failuresOf_eq_nil, ← Bool.not_eq_true, isPartial_gather hs hg, not_not]
  · exact nextCursorOf_flawed hs hg

/-- A request for two rows; no center has a list for the fallback. -/
def sampleTurn : Turn (Fin 10) where
  limit := 2
  now := 5
  clock _ := 5
  legacy _ := .error "connection refused"
  legacyNow _ := 5

def sampleRows (center : String) : List (Row (Fin 10)) :=
  if center = "lab" then [sampleRow "a1" 3] else [sampleRow "b2" 4]

theorem sampleRows_listable : Listable (allMatching sampleAsk.q ["lab", "old"] sampleRows) where
  nodup := by decide
  ids := by
    rintro row hrow
    rcases List.mem_pair.mp hrow with rfl | rfl
    · exact ⟨"a1", rfl, by decide⟩
    · exact ⟨"b2", rfl, by decide⟩

theorem laptop_pages_complete_sample :
    (∃ e ∈ budgetErrors, followLaptop sampleEqInt sampleInterpreter sampleTools sampleAsk.q
        ["lab", "old"] sampleRows [sampleTurn, sampleTurn, sampleTurn] none = .error (.query e)) ∨
      ∃ pages listed tail, followLaptop sampleEqInt sampleInterpreter sampleTools sampleAsk.q
          ["lab", "old"] sampleRows [sampleTurn, sampleTurn, sampleTurn] none = .ok (pages, none) ∧
        [sampleRow "b2" 4, sampleRow "a1" 3] = listed ++ tail ∧
        (pages.filter fun g => !isPartial g.payload).flatMap (fun g => jobsOf g.payload) =
          listed.map (shown sampleAsk.q true) ∧
        ((∀ g ∈ pages, isPartial g.payload = false) → tail = []) := by
  have honly : ∀ t ∈ [sampleTurn, sampleTurn, sampleTurn], OnlyPages sampleEqInt sampleTools
      sampleAsk.q ["lab", "old"] sampleRows t ∧ 1 ≤ t.limit ∧ t.limit ≤ maxLimit := by
    intro t ht
    obtain rfl : t = sampleTurn := by simpa using ht
    exact ⟨fun _ _ _ _ _ => nofun, by decide, by decide⟩
  exact (laptop_pages_complete sampleEqInt sampleInterpreter sampleTools sampleAsk.q rfl).1
    ["lab", "old"] sampleRows _ sampleRows_listable honly (by decide)

/-! ## An invalid page that a list replaces -/

/-- A center that answers with something else than a page, and has no jobs. -/
def replacedFleet : Fleet (Fin 10) where
  centers := ["lab"]
  reply _ := .json (.arr [])
  legacy _ := .json (.arr [])

theorem emptyPage_candidate : candidate (emptyPage "lab") [] (internalFields sampleAsk.q.fields)
    (selectionDigest sampleTools (sampleAsk.selection "lab")) orderField 0 0 = emptyPage "lab" :=
  candidate_envelope sampleTools (sampleAsk.selection "lab")
    { rows := [], limit := 2, generatedAt := 5 } none (pageObject 0 0 none) [] [] _ _ _ 0 0

theorem emptyPage_fits : fits (emptyPage "lab") [] (internalFields sampleAsk.q.fields)
    (selectionDigest sampleTools (sampleAsk.selection "lab")) orderField 0 0 = true := by
  refine fits_of_length ?_
  rw [emptyPage_candidate]
  decide +kernel

theorem legacyPage_replaced : legacyPage sampleInterpreter sampleTools replacedFleet sampleAsk "lab" =
    .ok (some (emptyPage "lab")) := by
  have hread : legacyPsQueryRows (replacedFleet.legacy "lab") "lab" sampleAsk.q = .ok (some []) := rfl
  have hpage : paginate (matching (sampleAsk.selection "lab")
      { rows := [], limit := 2, generatedAt := 5 }) 2 none
      (selectionDigest sampleTools (sampleAsk.selection "lab")) orderField =
        .ok ⟨[], 0, none⟩ := rfl
  have hbuilt : buildPayload sampleTools (sampleAsk.selection "lab")
      { rows := [], limit := 2, generatedAt := 5 } none = .ok (emptyPage "lab") :=
    (buildPayload_of_fits rfl hpage emptyPage_fits).trans (congrArg Except.ok emptyPage_candidate)
  exact legacyPage_of_built hread hbuilt

/-- The empty list replaces the page that is refused. -/
theorem answerOf_replaced : ∃ page, answerOf sampleEqInt sampleInterpreter sampleTools replacedFleet
    sampleAsk "lab" = .ok page ∧ page.summary = summarize [] ∧ page.header.eligible = 0 ∧
      page.jobs = [] ∧ page.errors = [] := by
  obtain ⟨page, hvalid⟩ := emptyPage_valid
  obtain ⟨payload, heq, hkept⟩ := kept_of_validate hvalid
  obtain rfl := Json.obj.inj heq
  obtain ⟨pageObj, total, hobj, hheader⟩ := hkept.header
  obtain ⟨heligible, hreturned, -⟩ := checkPage_spec hheader
  have hcounts : pageObj = [("eligible", .int 0), ("returned", .int 0), ("next_cursor", .null)] :=
    Json.obj.inj (hobj.symm.trans rfl)
  rw [hcounts] at heligible hreturned
  have helig : page.header.eligible = 0 := (Option.some.inj heligible).symm
  have hret : page.header.returned = 0 := (Option.some.inj hreturned).symm
  have hfalls : fallsBack sampleEqInt sampleTools replacedFleet sampleAsk "lab" = true := rfl
  have hfull : page.header.returned = min sampleAsk.limit page.header.eligible := by
    rw [helig, hret]
    rfl
  refine ⟨page, answerOf_fallback hfalls legacyPage_replaced hvalid hfull, ?_, helig, ?_, ?_⟩
  · exact Json.obj.inj (hkept.summary.symm.trans rfl)
  · exact Json.arr.inj (hkept.jobs.symm.trans rfl)
  · exact Json.obj.inj (hkept.errors.symm.trans rfl)

/-- What the merge reads of the page. -/
def labPage : ValidatedPage (Fin 10) := ⟨[], summarize [], ⟨0, 0, none⟩, [], false, []⟩

theorem globalCount_labPage :
    globalCount sampleTools (1 < replacedFleet.centers.length) sampleAsk [("lab", labPage)] [] =
      .ok 0 := by
  refine fitCount_of_fits (fits_of_length ?_)
  decide +kernel

/-- The page of the only center is refused, and yet the payload is not partial. -/
theorem replaced_not_partial :
    (∃ e, validateCenter sampleEqInt sampleTools sampleAsk "lab" (.arr []) = .error e) ∧
      ∃ g, gatherLaptopPsQuery sampleEqInt sampleInterpreter sampleTools replacedFleet sampleAsk =
        .ok g ∧ isPartial g.payload = false := by
  have hrefused : validateCenter sampleEqInt sampleTools sampleAsk "lab" (.arr []) =
      .error "invalid ps query object from head" := rfl
  refine ⟨⟨_, hrefused⟩, ?_⟩
  obtain ⟨page, hanswer, hsummary, helig, hjobs, herrors⟩ := answerOf_replaced
  have hcenters : replacedFleet.centers = ["lab"] := rfl
  have hcontributions : contributions sampleEqInt sampleInterpreter sampleTools replacedFleet
      sampleAsk = [("lab", page)] := by
    simp [contributions, hcenters, hanswer, Except.toOption]
  have hnamed : namedErrors sampleEqInt sampleInterpreter sampleTools replacedFleet sampleAsk =
      [] := by
    simp [namedErrors, hcenters, hanswer, errorOf]
  have hcalm : Calm sampleEqInt sampleInterpreter sampleTools replacedFleet sampleAsk := by
    refine ⟨fun center _ value hr => ?_, fun center hc _ => ?_⟩
    · obtain rfl := Reply.json.inj hr
      rfl
    · rw [hcenters, List.mem_singleton] at hc
      exact ⟨_, hc ▸ legacyPage_replaced⟩
  have hcount : globalCount sampleTools (1 < replacedFleet.centers.length) sampleAsk
      [("lab", page)] [] = .ok 0 := by
    have hsame : globalCount sampleTools (1 < replacedFleet.centers.length) sampleAsk
        [("lab", page)] [] = globalCount sampleTools (1 < replacedFleet.centers.length) sampleAsk
          [("lab", labPage)] [] := by
      simp only [globalCount, globalRows, mergedPayload, mergedSummary, Pages.candidates,
        Pages.eligible, Pages.summaries, Pages.errors, pageErrors, ValidatedPage.rows,
        List.flatMap_cons, List.map_cons, List.map_nil, hsummary, helig, hjobs, herrors, labPage]
    exact hsame.trans globalCount_labPage
  have hlimit : 1 ≤ sampleAsk.limit ∧ sampleAsk.limit ≤ maxLimit := ⟨by decide, by decide⟩
  have hfitted : globalCount sampleTools (1 < replacedFleet.centers.length) sampleAsk
      (contributions sampleEqInt sampleInterpreter sampleTools replacedFleet sampleAsk)
      (namedErrors sampleEqInt sampleInterpreter sampleTools replacedFleet sampleAsk) = .ok 0 := by
    rw [hcontributions, hnamed]
    exact hcount
  obtain ⟨g, hg⟩ := gather_of_count hcalm rfl hlimit hfitted
  refine ⟨g, hg, Bool.eq_false_iff.mpr fun hpart => (isPartial_gather rfl hg).mp hpart ?_⟩
  rw [failuresOf_eq_nil, hcontributions, hcenters]
  simp [hanswer, herrors]

end Dt.Query
