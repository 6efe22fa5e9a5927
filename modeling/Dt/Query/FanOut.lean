import Dt.Query.Gather

/-!
# What every center contributes

Each center is answered for on its own: it contributes a page or is named with an error, whatever
the others send. The merge then needs only that nothing was raised on the way.
-/

namespace Dt.Query

open Dt.Lib Dt.Jobs

variable {F : Type} [FloatText F] (eqInt : F → Int → Bool) (interp : Interpreter F) (tools : Tools)
  (fleet : Fleet F) (ask : Ask F)

/-! ## One center -/

/-- The page of a value, unless it breaks the contract or its byte budget cut it. -/
def takePage (center : String) (value : Json F) : Except String (ValidatedPage F) :=
  match validateCenter eqInt tools ask center value with
  | .error e => .error e
  | .ok page =>
    if !ask.q.summaryOnly && page.header.returned ≠ min ask.limit page.header.eligible then
      .error shortPage
    else .ok page

/-- The center is asked for its whole list instead. -/
def fallsBack (center : String) : Bool :=
  ask.q.since.isNone && match fleet.reply center with
    | .error message => unsupportedRemoteQuery message
    | .json value => !(validateCenter eqInt tools ask center value).isOk

/-- The error of a center that would have to fall back, and cannot. -/
def upgradeError (message : String) : String :=
  if ask.q.since.isSome && unsupportedRemoteQuery message then noIncremental else message

/-- What a center contributes, or the error it is named with. -/
def answerOf (center : String) : Except String (ValidatedPage F) :=
  if fallsBack eqInt tools fleet ask center then
    match legacyPage interp tools fleet ask center with
    | .ok (some payload) => takePage eqInt tools ask center (.obj payload)
    | _ =>
      match fleet.legacy center with
      | .error message => .error message
      | .json _ => .error invalidLegacy
  else
    match fleet.reply center with
    | .error message => .error (upgradeError ask message)
    | .json value =>
      match validateCenter eqInt tools ask center value with
      | .error e => .error (upgradeError ask e)
      | .ok _ => takePage eqInt tools ask center value

def errorOf {α : Type} : Except String α → Option String
  | .ok _ => none
  | .error message => some message

/-- The pages that are contributed. -/
def contributions : Pages F :=
  fleet.centers.filterMap fun center =>
    (answerOf eqInt interp tools fleet ask center).toOption.map fun page => (center, page)

/-- The centers without a page, with their errors. -/
def namedErrors : List (String × String) :=
  fleet.centers.filterMap fun center =>
    (errorOf (answerOf eqInt interp tools fleet ask center)).map fun message => (center, message)

/-- Nothing is raised before the merge. -/
structure Calm : Prop where
  pages : ∀ center ∈ fleet.centers, ∀ value, fleet.reply center = .json value →
    strained eqInt interp tools ask center value = false
  legacy : ∀ center ∈ fleet.centers, fallsBack eqInt tools fleet ask center = true →
    ∃ page, legacyPage interp tools fleet ask center = .ok page

variable {eqInt interp tools fleet ask}

/-! ## The passes -/

/-- The first pass over one center. -/
def passed (eqInt : F → Int → Bool) (tools : Tools) (fleet : Fleet F) (ask : Ask F)
    (center : String) : CenterState F × Bool :=
  match fleet.reply center with
  | .error message => ({ center, error := some message }, false)
  | .json value =>
    match validateCenter eqInt tools ask center value with
    | .ok _ => ({ center, data := some value }, false)
    | .error e => ({ center, error := some e }, true)

theorem first_pass (h : ∀ center ∈ fleet.centers, ∀ value, fleet.reply center = .json value →
      strained eqInt interp tools ask center value = false) :
    (fanOut fleet).mapM (rejectInvalid eqInt interp tools ask) =
      .ok (fleet.centers.map (passed eqInt tools fleet ask)) := by
  rw [fanOut, mapM_map]
  refine mapM_ok fun center hc => ?_
  unfold passed
  cases hr : fleet.reply center with
  | error message => simp [hr, rejectInvalid]
  | json value =>
    have hcalm := h center hc value hr
    simp only [Function.comp_apply, hr, rejectInvalid, checkCenter, hcalm, Bool.false_eq_true,
      if_false, bind, Except.bind]
    cases validateCenter eqInt tools ask center value <;> rfl

theorem passed_center (center : String) :
    (passed eqInt tools fleet ask center).1.center = center := by
  unfold passed
  split
  · rfl
  · split <;> rfl

/-- The centers of a pass that has a property. -/
theorem mem_passed_filter {ok : CenterState F × Bool → Bool} {center : String} :
    center ∈ ((fleet.centers.map (passed eqInt tools fleet ask)).filter ok).map (·.1.center) ↔
      center ∈ fleet.centers ∧ ok (passed eqInt tools fleet ask center) = true := by
  simp only [List.mem_map, List.mem_filter]
  constructor
  · rintro ⟨p, ⟨⟨c, hc, rfl⟩, hok⟩, rfl⟩
    rw [passed_center]
    exact ⟨hc, hok⟩
  · rintro ⟨hc, hok⟩
    exact ⟨_, ⟨⟨center, hc, rfl⟩, hok⟩, passed_center center⟩

/-- Without `--since`, the centers that are asked again are the ones that fall back. -/
theorem mem_fallbackCenters (hsince : ask.q.since = none) {center : String} :
    center ∈ fallbackCenters ask (fleet.centers.map (passed eqInt tools fleet ask)) ↔
      center ∈ fleet.centers ∧ fallsBack eqInt tools fleet ask center = true := by
  have hflags : ((passed eqInt tools fleet ask center).1.error.any unsupportedRemoteQuery = true ∨
      (passed eqInt tools fleet ask center).2 = true) ↔
        fallsBack eqInt tools fleet ask center = true := by
    unfold passed fallsBack
    cases fleet.reply center with
    | error message => simp [hsince]
    | json value =>
      cases hv : validateCenter eqInt tools ask center value <;>
        simp [hv, hsince, Except.isOk, Except.toBool]
  unfold fallbackCenters
  simp only [hsince, Option.isNone_none, if_true, List.mem_append, List.mem_filter, decide_eq_true_eq]
  rw [mem_passed_filter, mem_passed_filter]
  constructor
  · rintro (⟨hc, h⟩ | ⟨⟨hc, h⟩, -⟩)
    · exact ⟨hc, hflags.mp (.inl h)⟩
    · exact ⟨hc, hflags.mp (.inr h)⟩
  · rintro ⟨hc, h⟩
    by_cases hun : (passed eqInt tools fleet ask center).1.error.any unsupportedRemoteQuery = true
    · exact .inl ⟨hc, hun⟩
    · exact .inr ⟨⟨hc, (hflags.mpr h).resolve_left hun⟩, fun hmem => hun hmem.2⟩

/-- With `--since` only the errors of the transport matter. -/
theorem mem_fallbackCenters_since {since : F} (hsince : ask.q.since = some since) {center : String} :
    center ∈ fallbackCenters ask (fleet.centers.map (passed eqInt tools fleet ask)) ↔
      center ∈ fleet.centers ∧
        (passed eqInt tools fleet ask center).1.error.any unsupportedRemoteQuery = true := by
  unfold fallbackCenters
  simp only [hsince, Option.isNone_some, Bool.false_eq_true, if_false]
  exact mem_passed_filter

/-- The second pass over one center. -/
def settled (eqInt : F → Int → Bool) (interp : Interpreter F) (tools : Tools) (fleet : Fleet F)
    (ask : Ask F) (center : String) : CenterState F :=
  let s := (passed eqInt tools fleet ask center).1
  if fallsBack eqInt tools fleet ask center then
    match legacyPage interp tools fleet ask center with
    | .ok page => afterFallback fleet s page
    | .error _ => s
  else { s with error := s.error.map (upgradeError ask) }

theorem lookup_map_pairs {α : Type} {f : String → α} {names : List String} {name : String} :
    (names.map fun n => (n, f n)).lookup name = if name ∈ names then some (f name) else none := by
  induction names with
  | nil => rfl
  | cons n names ih =>
    rw [List.map_cons, List.lookup_cons]
    by_cases h : name = n
    · subst h
      simp
    · have hbeq : (name == n) = false := by simpa using h
      simp [hbeq, ih, h]

omit [FloatText F] in
theorem with_error_eq {s : CenterState F} {error : Option String} (h : s.error = error) :
    { s with error := error } = s := by
  cases s
  cases h
  rfl

theorem second_pass (h : Calm eqInt interp tools fleet ask) :
    legacyFallback interp tools fleet ask (fleet.centers.map (passed eqInt tools fleet ask)) =
      .ok (fleet.centers.map (settled eqInt interp tools fleet ask)) := by
  unfold legacyFallback
  cases hsince : ask.q.since with
  | none =>
    -- the pages are the ones of the centers that fall back
    let page := fun center => match legacyPage interp tools fleet ask center with
      | .ok page => page
      | .error _ => none
    have hpages : (fallbackCenters ask (fleet.centers.map (passed eqInt tools fleet ask))).mapM
        (fun center => do return (center, ← legacyPage interp tools fleet ask center)) =
        .ok ((fallbackCenters ask (fleet.centers.map (passed eqInt tools fleet ask))).map
          fun center => (center, page center)) := by
      refine mapM_ok fun center hc => ?_
      obtain ⟨hmem, hfall⟩ := (mem_fallbackCenters hsince).mp hc
      obtain ⟨r, hr⟩ := h.legacy center hmem hfall
      simp [hr, page, bind, Except.bind, pure, Except.pure]
    simp only [Option.isNone_none, if_true]
    rw [hpages]
    simp only [bind, Except.bind, pure, Except.pure, List.map_map, Except.ok.injEq, lookup_map_pairs]
    refine List.map_congr_left fun center hc => ?_
    rw [Function.comp_apply, passed_center]
    by_cases hfall : fallsBack eqInt tools fleet ask center = true
    · obtain ⟨r, hr⟩ := h.legacy center hc hfall
      rw [if_pos ((mem_fallbackCenters hsince).mpr ⟨hc, hfall⟩)]
      simp [settled, hfall, page, hr]
    · rw [if_neg fun hmem => hfall ((mem_fallbackCenters hsince).mp hmem).2]
      have hsame : upgradeError ask = id := funext fun message => by simp [upgradeError, hsince]
      simp only [settled, hfall, hsame, Option.map_id, id]
      exact (with_error_eq rfl).symm
  | some since =>
    have hnot : ∀ center, fallsBack eqInt tools fleet ask center = false := fun center => by
      simp [fallsBack, hsince]
    simp only [Option.isNone_some, Bool.false_eq_true, if_false, pure, Except.pure, List.map_map,
      Except.ok.injEq]
    refine List.map_congr_left fun center hc => ?_
    rw [Function.comp_apply, passed_center]
    simp only [settled, hnot, Bool.false_eq_true, if_false, mem_fallbackCenters_since hsince, hc,
      true_and]
    cases he : (passed eqInt tools fleet ask center).1.error with
    | none => exact (with_error_eq he).symm
    | some message =>
      by_cases hun : unsupportedRemoteQuery message = true
      · simp [hun, upgradeError, hsince, passed_center]
      · simp only [Option.any_some, hun, Bool.false_eq_true, if_false, Option.map_some,
          upgradeError, Bool.and_false]
        exact (with_error_eq he).symm

/-- The page of a legacy center is the one that a head would have served. -/
theorem legacyPage_built {center : String} {payload : Row F}
    (h : legacyPage interp tools fleet ask center = .ok (some payload)) :
    ∃ rows, legacyPsQueryRows (fleet.legacy center) center ask.q = .ok (some rows) ∧
      buildPayload tools { ask.selection center with since := none }
        { rows, limit := ask.limit, generatedAt := ask.legacyNow center } ask.cursor = .ok payload := by
  unfold legacyPage at h
  cases hl : legacyPsQueryRows (fleet.legacy center) center ask.q with
  | error e => simp [hl, bind, Except.bind] at h
  | ok o =>
    cases o with
    | none => simp [hl, bind, Except.bind, pure, Except.pure] at h
    | some rows =>
      refine ⟨rows, rfl, ?_⟩
      simp only [hl, bind, Except.bind] at h
      split at h
      · rename_i hb
        cases h
        exact hb
      · split at h <;> cases h

theorem legacyPage_of_built {center : String} {rows : List (Row F)} {payload : Row F}
    (hread : legacyPsQueryRows (fleet.legacy center) center ask.q = .ok (some rows))
    (hbuilt : buildPayload tools { ask.selection center with since := none }
      { rows, limit := ask.limit, generatedAt := ask.legacyNow center } ask.cursor = .ok payload) :
    legacyPage interp tools fleet ask center = .ok (some payload) := by
  refine bind_ok.mpr ⟨some rows, hread, ?_⟩
  simp only [hbuilt]
  rfl

/-- A page that is served refuses no cursor for its depth: it was asked for with a cursor that
decodes, and its own is flat. -/
theorem refusedCursor_served {sel : Selection F} {r : Request F} {s : Served F}
    (hdigest : selectionDigest tools sel = selectionDigest tools ask.q)
    (hs : serve tools sel r ask.cursor = .ok s) :
    (refusedCursor tools ask (.obj s.payload)).any interp.deep = false := by
  have hquery : queryDigest tools ask.expectedQuery = selectionDigest tools sel := by
    rw [Ask.expectedQuery, queryDigest_queryContract, hdigest]
    rfl
  obtain ⟨anchor, hcursor⟩ := cursorAt_of_serve hs
  have hpage := (serve_payload hcursor hs).2
  have hnext : ∀ next ∈ s.nextCursor, interp.deep next = false := by
    intro next hn
    obtain ⟨tail, -, ⟨-, hnone⟩ | ⟨-, row, -, hsome⟩⟩ := serve_ok hcursor hs
    · simp [hnone] at hn
    · obtain rfl := Option.some.inj (hsome.symm.trans hn)
      exact interp.flat _ _ _
  have hrefused : refusedCursor tools ask (.obj s.payload) = s.nextCursor := by
    cases hask : ask.cursor with
    | none =>
      unfold refusedCursor
      dsimp only
      rw [hask, hpage]
      cases s.nextCursor <;> rfl
    | some cursor =>
      rw [hask] at hcursor
      cases anchor with
      | none => cases hcursor
      | some key =>
        have hdecode : decodeCursor cursor (queryDigest tools ask.expectedQuery) orderField =
            .ok key := by rw [hquery]; exact hcursor
        unfold refusedCursor
        dsimp only
        rw [hask, hpage]
        dsimp only
        rw [hdecode]
        cases s.nextCursor <;> rfl
  rw [hrefused, Option.any_eq_false]
  exact fun next hn => by simpa using hnext next hn

/-- A page that a head serves is not strained. -/
theorem strained_served {center : String} {sel : Selection F} {r : Request F} {payload : Row F}
    (hdigest : selectionDigest tools sel = selectionDigest tools ask.q)
    (hsummary : sel.summaryOnly = ask.q.summaryOnly)
    (h : buildPayload tools sel r ask.cursor = .ok payload) :
    strained eqInt interp tools ask center (.obj payload) = false := by
  unfold strained
  split
  · rfl
  · cases hs : ask.q.summaryOnly with
    | true => rfl
    | false =>
      rw [buildPayload_eq_serve tools sel (hsummary.trans hs)] at h
      cases hserve : serve tools sel r ask.cursor with
      | error e => simp [hserve, Except.map] at h
      | ok s =>
        obtain rfl : s.payload = payload := by simpa [hserve, Except.map] using h
        simp [refusedCursor_served hdigest hserve]

/-- Nor is the page of the fallback. -/
theorem strained_legacyPage {center : String} {payload : Row F} (hsince : ask.q.since = none)
    (h : legacyPage interp tools fleet ask center = .ok (some payload)) :
    strained eqInt interp tools ask center (.obj payload) = false := by
  obtain ⟨rows, -, hbuilt⟩ := legacyPage_built h
  have hdigest : selectionDigest tools ({ ask.selection center with since := none } : Selection F) =
      selectionDigest tools ask.q := by
    simp [selectionDigest, Ask.selection, hsince]
  exact strained_served hdigest rfl hbuilt

theorem passed_error {center message : String} (h : fleet.reply center = .error message) :
    passed eqInt tools fleet ask center = ({ center, error := some message }, false) := by
  simp [passed, h]

theorem passed_valid {center : String} {value : Json F} {page : ValidatedPage F}
    (h : fleet.reply center = .json value)
    (hv : validateCenter eqInt tools ask center value = .ok page) :
    passed eqInt tools fleet ask center = ({ center, data := some value }, false) := by
  simp [passed, h, hv]

theorem passed_invalid {center : String} {value : Json F} {e : QueryError}
    (h : fleet.reply center = .json value)
    (hv : validateCenter eqInt tools ask center value = .error e) :
    passed eqInt tools fleet ask center = ({ center, error := some e }, true) := by
  simp [passed, h, hv]

/-- The last pass over a center with data that is not strained. -/
theorem collectCenter_data {center : String} {value : Json F}
    (hstrain : strained eqInt interp tools ask center value = false) :
    ∃ t, collectCenter eqInt interp tools ask { center, data := some value } = .ok t ∧
      t.1.center = center ∧ t.1.error = errorOf (takePage eqInt tools ask center value) ∧
      t.2 = (takePage eqInt tools ask center value).toOption := by
  simp only [collectCenter, checkCenter, hstrain, Bool.false_eq_true, if_false, bind, Except.bind,
    takePage]
  cases validateCenter eqInt tools ask center value with
  | error e => exact ⟨_, rfl, rfl, rfl, rfl⟩
  | ok page =>
    dsimp only
    split
    · exact ⟨_, rfl, rfl, rfl, rfl⟩
    · exact ⟨_, rfl, rfl, rfl, rfl⟩

/-- The answer of every center, after all passes. -/
theorem collect_settled (h : Calm eqInt interp tools fleet ask) {center : String}
    (hc : center ∈ fleet.centers) :
    ∃ t, collectCenter eqInt interp tools ask (settled eqInt interp tools fleet ask center) = .ok t ∧
      t.1.center = center ∧
      t.1.error = errorOf (answerOf eqInt interp tools fleet ask center) ∧
      t.2 = (answerOf eqInt interp tools fleet ask center).toOption := by
  by_cases hfall : fallsBack eqInt tools fleet ask center = true
  · have hsince : ask.q.since = none := by
      simp only [fallsBack, Bool.and_eq_true, Option.isNone_iff_eq_none] at hfall
      exact hfall.1
    -- there is no page of the center that is kept beside the fallback
    have hdata : (passed eqInt tools fleet ask center).1.data = none := by
      cases hr : fleet.reply center with
      | error message => rw [passed_error hr]
      | json value =>
        cases hv : validateCenter eqInt tools ask center value with
        | error e => rw [passed_invalid hr hv]
        | ok page => simp [fallsBack, hr, hv, Except.isOk, Except.toBool] at hfall
    obtain ⟨page, hpage⟩ := h.legacy center hc hfall
    simp only [settled, hfall, if_true, hpage, answerOf]
    cases page with
    | some payload =>
      have hstate : afterFallback fleet (passed eqInt tools fleet ask center).1 (some payload) =
          { center := center, data := some (.obj payload) } := by
        simp [afterFallback, passed_center]
      rw [hstate]
      exact collectCenter_data (strained_legacyPage hsince hpage)
    | none =>
      simp only [afterFallback, passed_center]
      cases fleet.legacy center with
      | error message =>
        exact ⟨({ center, error := some message }, none), by simp [collectCenter, hdata], rfl, rfl, rfl⟩
      | json value =>
        exact ⟨({ center, error := some invalidLegacy }, none), by simp [collectCenter, hdata], rfl,
          rfl, rfl⟩
  · simp only [settled, answerOf, Bool.eq_false_iff.mpr hfall, Bool.false_eq_true, if_false]
    cases hr : fleet.reply center with
    | error message =>
      rw [passed_error hr]
      exact ⟨_, rfl, rfl, rfl, rfl⟩
    | json value =>
      cases hv : validateCenter eqInt tools ask center value with
      | error e =>
        rw [passed_invalid hr hv]
        simp only [hv]
        exact ⟨_, rfl, rfl, rfl, rfl⟩
      | ok page =>
        rw [passed_valid hr hv]
        simp only [hv]
        exact collectCenter_data (h.pages center hc value hr)

/-- The list of a center that falls back is answered for as a page. -/
theorem answerOf_fallback {center : String} {payload : Row F} {page : ValidatedPage F}
    (hfalls : fallsBack eqInt tools fleet ask center = true)
    (hlegacy : legacyPage interp tools fleet ask center = .ok (some payload))
    (hvalid : validateCenter eqInt tools ask center (.obj payload) = .ok page)
    (hfull : page.header.returned = min ask.limit page.header.eligible) :
    answerOf eqInt interp tools fleet ask center = .ok page := by
  simp [answerOf, hfalls, hlegacy, takePage, hvalid, hfull]

/-- When nothing is raised before, the merge gets the answers of all centers. -/
theorem gather_of_calm (h : Calm eqInt interp tools fleet ask) :
    gatherLaptopPsQuery eqInt interp tools fleet ask =
      mergePages tools (1 < fleet.centers.length) ask (contributions eqInt interp tools fleet ask)
        (namedErrors eqInt interp tools fleet ask) := by
  -- the state and the page of a center after the last pass
  let last := fun center =>
    match collectCenter eqInt interp tools ask (settled eqInt interp tools fleet ask center) with
    | .ok t => t
    | .error _ => ({ center }, none)
  have hlast : ∀ center ∈ fleet.centers,
      collectCenter eqInt interp tools ask (settled eqInt interp tools fleet ask center) =
        .ok (last center) ∧ (last center).1.center = center ∧
      (last center).1.error = errorOf (answerOf eqInt interp tools fleet ask center) ∧
      (last center).2 = (answerOf eqInt interp tools fleet ask center).toOption := by
    intro center hc
    obtain ⟨t, ht, hcenter, herror, hpage⟩ := collect_settled h hc
    have heq : last center = t := by simp only [last, ht]
    exact ⟨heq ▸ ht, heq ▸ hcenter, heq ▸ herror, heq ▸ hpage⟩
  have hcollected : (fleet.centers.map (settled eqInt interp tools fleet ask)).mapM
      (collectCenter eqInt interp tools ask) = .ok (fleet.centers.map last) := by
    rw [mapM_map]
    exact mapM_ok fun center hc => (hlast center hc).1
  have hpages : (fleet.centers.map last).filterMap
      (fun c => c.2.map fun page => (c.1.center, page)) =
        contributions eqInt interp tools fleet ask := by
    rw [List.filterMap_map, contributions]
    refine List.filterMap_congr fun center hc => ?_
    obtain ⟨-, hcenter, -, hpage⟩ := hlast center hc
    simp only [Function.comp_apply, hpage, hcenter]
  have herrors : fanErrors ((fleet.centers.map last).map Prod.fst) =
      namedErrors eqInt interp tools fleet ask := by
    rw [fanErrors, List.map_map, List.filterMap_map, namedErrors]
    refine List.filterMap_congr fun center hc => ?_
    obtain ⟨-, hcenter, herror, -⟩ := hlast center hc
    simp only [Function.comp_apply, herror, hcenter]
  simp only [gatherLaptopPsQuery, first_pass h.pages, second_pass h, hcollected, bind, Except.bind,
    hpages, herrors]

/-- A result means that nothing was raised before the merge. -/
theorem calm_of_gather {g : Gathered F}
    (h : gatherLaptopPsQuery eqInt interp tools fleet ask = .ok g) :
    Calm eqInt interp tools fleet ask := by
  unfold gatherLaptopPsQuery at h
  cases hfirst : (fanOut fleet).mapM (rejectInvalid eqInt interp tools ask) with
  | error e => simp [hfirst, bind, Except.bind] at h
  | ok first =>
    have hpages : ∀ center ∈ fleet.centers, ∀ value, fleet.reply center = .json value →
        strained eqInt interp tools ask center value = false := by
      intro center hc value hr
      rw [fanOut, mapM_map] at hfirst
      obtain ⟨t, ht⟩ := mapM_mem hfirst center hc
      simp only [Function.comp_apply, hr, rejectInvalid, checkCenter, bind, Except.bind] at ht
      by_contra hstrain
      simp [Bool.eq_true_of_not_eq_false hstrain] at ht
    refine ⟨hpages, fun center hc hfall => ?_⟩
    have hsince : ask.q.since = none := by
      simp only [fallsBack, Bool.and_eq_true, Option.isNone_iff_eq_none] at hfall
      exact hfall.1
    obtain rfl : fleet.centers.map (passed eqInt tools fleet ask) = first :=
      Except.ok.inj ((first_pass hpages).symm.trans hfirst)
    cases hsecond : legacyFallback interp tools fleet ask
        (fleet.centers.map (passed eqInt tools fleet ask)) with
    | error e => simp [first_pass hpages, hsecond, bind, Except.bind] at h
    | ok states =>
      simp only [legacyFallback, hsince, Option.isNone_none, if_true] at hsecond
      cases hasked : (fallbackCenters ask (fleet.centers.map (passed eqInt tools fleet ask))).mapM
          (fun center => do return (center, ← legacyPage interp tools fleet ask center)) with
      | error e =>
        rw [hasked] at hsecond
        simp [bind, Except.bind] at hsecond
      | ok pages =>
        obtain ⟨r, hr⟩ := mapM_mem hasked center ((mem_fallbackCenters hsince).mpr ⟨hc, hfall⟩)
        cases hp : legacyPage interp tools fleet ask center with
        | ok page => exact ⟨page, rfl⟩
        | error e => simp [hp, bind, Except.bind] at hr

end Dt.Query
