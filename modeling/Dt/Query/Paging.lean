import Mathlib
import Dt.Lib.Keyset
import Dt.Query.Payload

/-!
# Following the cursors

A reader asks for the first page without a cursor and for each next one with the cursor of the page
before, until a page has none. The registry may change between two requests, and the byte budget may
shorten any page.

Every page is a prefix of the rows after its cursor and the next cursor holds the key of its last
row, so the keys fall from page to page, and a page without a next cursor leaves nothing out: this is
all that the results below rest on.
-/

namespace Dt.Query

open Dt.Lib Dt.Jobs

variable {F : Type}

/-- One answer: the payload, and the rows of the registry that it projects. -/
structure Served (F : Type) where
  payload : Row F
  rows : List (Row F)
  nextCursor : Option String

section

variable [FloatText F]

/-- `build_payload` for a page, with the rows it takes. -/
def serve (tools : Tools) (q : Selection F) (r : Request F) (cursor : Option String) :
    Except QueryError (Served F) := do
  let digest := selectionDigest tools q
  let page ← paginate (filterSince r.rows q.since) r.limit cursor digest orderField
  let payload := envelope tools q r cursor
    (pageObject page.eligible page.rows.length page.nextCursor) (project page.rows q.fields)
  let count ← fitCount payload page.rows q.fields digest orderField page.eligible
  return {
    payload := candidate payload page.rows q.fields digest orderField page.eligible count
    rows := page.rows.take count
    nextCursor := continuationAfter page.rows digest orderField page.eligible count }

/-- Follow the cursors through some requests; what is left is the cursor of the last page. -/
def follow (tools : Tools) (q : Selection F) :
    List (Request F) → Option String → Except QueryError (List (Served F) × Option String)
  | [], cursor => .ok ([], cursor)
  | r :: rest, cursor => do
    let page ← serve tools q r cursor
    match page.nextCursor with
    | none => return ([page], none)
    | some next => do
      let more ← follow tools q rest (some next)
      return (page :: more.1, more.2)

/-- The rows of a request that the query lists. -/
def matching (q : Selection F) (r : Request F) : List (Row F) := filterSince r.rows q.since

/-- The key of the listing. -/
def listKey (row : Row F) : Key F := rowKey row orderField

/-- The cursor of a query stands for a key; the first page has neither. -/
def CursorAt (tools : Tools) (q : Selection F) : Option String → Option (Key F) → Prop
  | none, none => True
  | some cursor, some key => decodeCursor cursor (selectionDigest tools q) orderField = .ok key
  | _, _ => False

/-- The errors of a page that cannot be fitted. -/
def budgetErrors : List QueryError :=
  ["one projected job exceeds the ps response byte budget; request fewer fields",
    "ps response metadata exceeds its byte budget"]

/-- What the registry keeps true of its rows: the keys are distinct and every row has a valid id. -/
structure Listable (rows : List (Row F)) : Prop where
  nodup : (rows.map listKey).Nodup
  ids : ∀ row ∈ rows, ∃ id, Row.get row "job_id" = .str id ∧ validJobId id = true

end

/-! ## The envelope -/

theorem lookup_map_set {row : Row F} {name other : String} {v : Json F} :
    (row.map fun p => if p.1 = name then (name, v) else p).lookup other =
      if other = name then (row.lookup name).map fun _ => v else row.lookup other := by
  induction row with
  | nil => simp
  | cons p row ih =>
    obtain ⟨k, w⟩ := p
    by_cases hk : k = name
    · subst hk
      by_cases ho : other = k
      · subst ho
        simp
      · have hbeq : (other == k) = false := by simpa using ho
        simp [List.lookup_cons, hbeq, ih, ho]
    · by_cases ho : other = name
      · subst ho
        have hbeq : (other == k) = false := by simpa using Ne.symm hk
        simp [List.lookup_cons, hbeq, hk, ih]
      · simp [List.lookup_cons, hk, ih, ho]

theorem Row.get_set_self (row : Row F) (name : String) (v : Json F) :
    Row.get (Row.set row name v) name = v := by
  unfold Row.get Row.set
  split
  · rename_i hmem
    rw [lookup_map_set, if_pos rfl]
    obtain ⟨⟨k, w⟩, hp, rfl⟩ := List.mem_map.mp hmem
    cases hl : row.lookup k with
    | none =>
      have := List.lookup_eq_none_iff.mp hl (k, w) hp
      simp at this
    | some w' => simp
  · rename_i hmem
    have hnone : row.lookup name = none := by
      rw [List.lookup_eq_none_iff]
      intro p hp
      have : p.1 ≠ name := fun h => hmem (h ▸ List.mem_map_of_mem hp)
      simpa using Ne.symm this
    simp [List.lookup_append, hnone]

theorem Row.get_set_of_ne (row : Row F) {name other : String} (h : other ≠ name) (v : Json F) :
    Row.get (Row.set row name v) other = Row.get row other := by
  unfold Row.get Row.set
  split
  · rw [lookup_map_set, if_neg h]
  · have hbeq : (other == name) = false := by simpa using h
    simp [List.lookup_append, List.lookup_cons, hbeq]

variable [FloatText F]

/-- The payload that is fitted into a page. -/
theorem fitPayloadPage_envelope (tools : Tools) (q : Selection F) (r : Request F)
    (cursor : Option String) (page : Page F) (jobs : List (Row F)) (digest : String) :
    let payload := envelope tools q r cursor
      (pageObject page.eligible page.rows.length page.nextCursor) jobs
    fitPayloadPage payload page.rows q.fields digest orderField =
      (fitCount payload page.rows q.fields digest orderField page.eligible).map
        (candidate payload page.rows q.fields digest orderField page.eligible) := by
  intro payload
  have hpage : Row.get payload "page" =
      pageObject page.eligible page.rows.length page.nextCursor := rfl
  unfold fitPayloadPage
  rw [hpage]
  simp [pageObject, Row.get]

/-- The payload of an answer is what `build_payload` returns. -/
theorem buildPayload_eq_serve (tools : Tools) (q : Selection F) (hq : q.summaryOnly = false)
    (r : Request F) (cursor : Option String) :
    buildPayload tools q r cursor = (serve tools q r cursor).map (·.payload) := by
  unfold buildPayload serve
  simp only [hq, Bool.false_eq_true, if_false, bind, Except.bind, fitPayloadPage_envelope]
  cases hpage : paginate (filterSince r.rows q.since) r.limit cursor (selectionDigest tools q)
      orderField with
  | error e => rfl
  | ok page =>
    dsimp only
    cases fitCount (envelope tools q r cursor (pageObject page.eligible page.rows.length
      page.nextCursor) (project page.rows q.fields)) page.rows q.fields (selectionDigest tools q)
      orderField page.eligible with
    | error e => rfl
    | ok count => rfl

/-- A candidate is the envelope around fewer jobs. -/
theorem candidate_envelope (tools : Tools) (q : Selection F) (r : Request F) (cursor : Option String)
    (page : Json F) (jobs source : List (Row F)) (selected : List String) (digest order : String)
    (eligible count : Nat) :
    candidate (envelope tools q r cursor page jobs) source selected digest order eligible count =
      envelope tools q r cursor
        (pageObject eligible count (continuationAfter source digest order eligible count))
        (project (source.take count) selected) := by
  simp [candidate, envelope, Row.set]

/-! ## One page -/

/-- The search keeps `low` at zero or at a count that fits. -/
theorem fitSearch_spec (ok : Nat → Bool) (low high : Nat) (hle : low ≤ high)
    (hlow : low = 0 ∨ ok low = true) :
    fitSearch ok low high ≤ high ∧ (fitSearch ok low high = 0 ∨ ok (fitSearch ok low high) = true) := by
  fun_induction fitSearch ok low high with
  | case1 low high hlt middle hok ih => exact ih (by omega) (.inr hok)
  | case2 low high hlt middle hok ih =>
    obtain ⟨hhigh, hfits⟩ := ih (by omega) hlow
    exact ⟨by omega, hfits⟩
  | case3 low high hlt => exact ⟨hle, hlow⟩

/-- A character has at most four bytes. -/
theorem serializedSize_le {payload : Row F}
    (h : ((Json.obj payload).render {}).length ≤ 1024 * 1024) :
    serializedSize payload ≤ maxResponseBytes := by
  refine (length_utf8Bytes_le _).trans ?_
  unfold maxResponseBytes
  omega

section

variable {payload : Row F} {source : List (Row F)} {selected : List String} {digest order : String}
  {eligible count : Nat}

/-- A page keeps a prefix that fits; it is empty only when there is nothing to list. -/
theorem fitCount_spec (h : fitCount payload source selected digest order eligible = .ok count) :
    count ≤ source.length ∧ fits payload source selected digest order eligible count = true ∧
      (source ≠ [] → eligible ≠ 0 → 0 < count) := by
  unfold fitCount at h
  dsimp only at h
  split at h
  · rename_i hall
    obtain rfl := Except.ok.inj h
    exact ⟨le_rfl, hall, fun hne _ => List.length_pos_iff.mpr hne⟩
  · split at h
    · cases h
    · rename_i hzero
      split at h
      · cases h
      · rename_i hfits
        obtain rfl := Except.ok.inj h
        obtain ⟨hle, -⟩ := fitSearch_spec (fits payload source selected digest order eligible) 0
          source.length (Nat.zero_le _) (.inl rfl)
        refine ⟨hle, by simpa using hfits, fun _ heligible => ?_⟩
        exact Nat.pos_of_ne_zero fun h0 => hzero ⟨h0, heligible⟩

/-- A page that fits as a whole is not shortened. -/
theorem fitCount_of_fits (h : fits payload source selected digest order eligible source.length = true) :
    fitCount payload source selected digest order eligible = .ok source.length := by
  simp only [fitCount, h, if_true]

theorem fits_of_length (h : ((Json.obj (candidate payload source selected digest order eligible
    count)).render {}).length ≤ 1024 * 1024) :
    fits payload source selected digest order eligible count = true :=
  decide_eq_true (serializedSize_le h)

/-- A page is refused only for the byte budget. -/
theorem fitCount_error {e : QueryError}
    (h : fitCount payload source selected digest order eligible = .error e) : e ∈ budgetErrors := by
  unfold fitCount at h
  dsimp only at h
  split at h
  · cases h
  · split at h
    · obtain rfl := Except.error.inj h
      decide
    · split at h
      · obtain rfl := Except.error.inj h
        decide
      · cases h

end

section

variable {tools : Tools} {q : Selection F} {r : Request F} {cursor : Option String}
  {anchor : Option (Key F)} {s : Served F}

theorem rowsAfter_of_cursorAt (h : CursorAt tools q cursor anchor) (rows : List (Row F)) :
    rowsAfter rows cursor (selectionDigest tools q) orderField = .ok (after listKey rows anchor) := by
  unfold CursorAt at h
  split at h
  · have hall : (falling listKey rows).filter (isBelow listKey none) = falling listKey rows :=
      List.filter_eq_self.mpr fun _ _ => rfl
    rw [after, hall]
    rfl
  · simp only [rowsAfter, h, bind, Except.bind]
    rfl
  · cases h

/-- What an answer consists of. -/
theorem serve_cases (hcursor : CursorAt tools q cursor anchor) (h : serve tools q r cursor = .ok s) :
    ∃ page jobs count, (1 ≤ r.limit ∧ r.limit ≤ maxLimit) ∧
      fitCount (envelope tools q r cursor page jobs)
        ((after listKey (matching q r) anchor).take r.limit.toNat) q.fields (selectionDigest tools q)
        orderField (after listKey (matching q r) anchor).length = .ok count ∧
      s = { payload := candidate (envelope tools q r cursor page jobs)
              ((after listKey (matching q r) anchor).take r.limit.toNat) q.fields
              (selectionDigest tools q) orderField (after listKey (matching q r) anchor).length count
            rows := ((after listKey (matching q r) anchor).take r.limit.toNat).take count
            nextCursor := continuationAfter
              ((after listKey (matching q r) anchor).take r.limit.toNat) (selectionDigest tools q)
              orderField (after listKey (matching q r) anchor).length count } := by
  unfold serve paginate at h
  by_cases hlimit : r.limit < 1 ∨ maxLimit < r.limit
  · simp only [if_pos hlimit] at h
    cases h
  · simp only [if_neg hlimit, rowsAfter_of_cursorAt hcursor, bind, Except.bind] at h
    obtain ⟨hpos, hmax⟩ := not_or.mp hlimit
    dsimp only [pure, Except.pure] at h
    split at h
    · cases h
    · rename_i count hcount
      exact ⟨_, _, count, ⟨not_lt.mp hpos, not_lt.mp hmax⟩, hcount, (Except.ok.inj h).symm⟩

/-- A page of the first rows is a prefix. It is all of them when there is no next cursor, and else the
next cursor is the one of its last row. -/
theorem prefix_of_count {ordered : List (Row F)} {limit count : Nat} (digest order : String)
    (hlimit : 0 < limit) (hle : count ≤ (ordered.take limit).length)
    (hsome : ordered.take limit ≠ [] → ordered.length ≠ 0 → 0 < count) :
    (ordered.take limit).take count = ordered.take count ∧ ∃ tail, ordered = ordered.take count ++ tail ∧
      ((tail = [] ∧ continuationAfter (ordered.take limit) digest order ordered.length count = none) ∨
        tail ≠ [] ∧ ∃ row, (ordered.take count).getLast? = some row ∧
          continuationAfter (ordered.take limit) digest order ordered.length count =
            some (continuationCursor row digest order)) := by
  have hshort : min count limit = count := by
    rw [List.length_take] at hle
    omega
  refine ⟨by rw [List.take_take, hshort], ordered.drop count,
    (List.take_append_drop count ordered).symm, ?_⟩
  by_cases hall : count < ordered.length
  · right
    have hsource : ordered.take limit ≠ [] := by
      refine List.length_pos_iff.mp ?_
      rw [List.length_take]
      omega
    have hcount := hsome hsource (by omega)
    have hlast : ordered[count - 1]? = some ordered[count - 1] := List.getElem?_eq_getElem (by omega)
    have htail : ordered.drop count ≠ [] := by
      rw [Ne, List.drop_eq_nil_iff]
      omega
    refine ⟨htail, ordered[count - 1], ?_, ?_⟩
    · rw [List.getLast?_take, if_neg (by omega), hlast]
      rfl
    · rw [continuationAfter, if_pos ⟨hall, hcount⟩, List.getElem?_take, if_pos (by omega), hlast]
      rfl
  · left
    refine ⟨List.drop_eq_nil_of_le (not_lt.mp hall), ?_⟩
    rw [continuationAfter, if_neg fun h => hall h.1]

/-- An answer lists a prefix of the rows after its cursor. It is all of them when there is no next
cursor, and else the next cursor is the one of its last row. -/
theorem serve_ok (hcursor : CursorAt tools q cursor anchor) (h : serve tools q r cursor = .ok s) :
    ∃ tail, after listKey (matching q r) anchor = s.rows ++ tail ∧
      ((tail = [] ∧ s.nextCursor = none) ∨ tail ≠ [] ∧ ∃ row, s.rows.getLast? = some row ∧
        s.nextCursor = some (continuationCursor row (selectionDigest tools q) orderField)) := by
  obtain ⟨page, jobs, count, ⟨hpos, -⟩, hcount, rfl⟩ := serve_cases hcursor h
  obtain ⟨hle, -, hsome⟩ := fitCount_spec hcount
  obtain ⟨hrows, hsplit⟩ := prefix_of_count (selectionDigest tools q) orderField (by omega) hle hsome
  dsimp only
  rw [hrows]
  exact hsplit

/-- The payload holds the rows of the answer, projected, and its next cursor. -/
theorem serve_payload (hcursor : CursorAt tools q cursor anchor)
    (h : serve tools q r cursor = .ok s) :
    Row.get s.payload "jobs" = .arr ((project s.rows q.fields).map .obj) ∧
      Row.get s.payload "page" =
        pageObject (after listKey (matching q r) anchor).length s.rows.length s.nextCursor := by
  obtain ⟨page, jobs, count, -, hcount, rfl⟩ := serve_cases hcursor h
  obtain ⟨hle, -, -⟩ := fitCount_spec hcount
  dsimp only [candidate]
  constructor
  · rw [Row.get_set_of_ne _ (by decide), Row.get_set_self]
  · rw [Row.get_set_self, List.length_take_of_le hle]

/-- A page within the limits of a query is refused only for the byte budget. -/
theorem serve_error (hcursor : CursorAt tools q cursor anchor)
    (hlimit : 1 ≤ r.limit ∧ r.limit ≤ maxLimit) {e : QueryError}
    (h : serve tools q r cursor = .error e) : e ∈ budgetErrors := by
  have hgate : ¬ (r.limit < 1 ∨ maxLimit < r.limit) := by
    rintro (hlow | hhigh)
    · exact absurd hlow (not_lt.mpr hlimit.1)
    · exact absurd hhigh (not_lt.mpr hlimit.2)
  unfold serve paginate at h
  simp only [if_neg hgate, rowsAfter_of_cursorAt hcursor, bind, Except.bind, pure, Except.pure] at h
  split at h
  · rename_i e' hcount
    obtain rfl := Except.error.inj h
    exact fitCount_error hcount
  · cases h

/-- A page that fits as a whole is served as it is. -/
theorem serve_of_fits {page : Page F} (hpage : paginate (matching q r) r.limit cursor
      (selectionDigest tools q) orderField = .ok page)
    (hfits : fits (envelope tools q r cursor
        (pageObject page.eligible page.rows.length page.nextCursor) (project page.rows q.fields))
      page.rows q.fields (selectionDigest tools q) orderField page.eligible page.rows.length = true) :
    ∃ s, serve tools q r cursor = .ok s ∧ s.nextCursor =
      continuationAfter page.rows (selectionDigest tools q) orderField page.eligible
        page.rows.length := by
  unfold matching at hpage
  simp only [serve, hpage, bind, Except.bind, fitCount_of_fits hfits]
  exact ⟨_, rfl, rfl⟩

/-- A page that fits as a whole is built as it is. -/
theorem buildPayload_of_fits {page : Page F} (hq : q.summaryOnly = false)
    (hpage : paginate (matching q r) r.limit cursor (selectionDigest tools q) orderField = .ok page)
    (hfits : fits (envelope tools q r cursor
        (pageObject page.eligible page.rows.length page.nextCursor) (project page.rows q.fields))
      page.rows q.fields (selectionDigest tools q) orderField page.eligible page.rows.length = true) :
    buildPayload tools q r cursor = .ok (candidate (envelope tools q r cursor
        (pageObject page.eligible page.rows.length page.nextCursor) (project page.rows q.fields))
      page.rows q.fields (selectionDigest tools q) orderField page.eligible page.rows.length) := by
  unfold matching at hpage
  simp only [buildPayload, hq, Bool.false_eq_true, if_false, hpage, bind, Except.bind,
    fitPayloadPage_envelope, fitCount_of_fits hfits]
  rfl

/-- The cursor of a listed row stands for its key. -/
theorem cursorAt_continuation {rows : List (Row F)} (hlist : Listable rows) {row : Row F}
    (hrow : row ∈ rows) :
    CursorAt tools q (some (continuationCursor row (selectionDigest tools q) orderField))
      (some (listKey row)) := by
  obtain ⟨id, hid, hvalid⟩ := hlist.ids row hrow
  have hkey : (ofLex (rowKey row orderField)).2 = id := by
    have hne : id ≠ "" := by
      rintro rfl
      exact absurd hvalid (by decide)
    simp [rowKey, hid, truth, hne, pyStr]
  have hdecode := decodeCursor_encodeCursor (hkey.symm ▸ hvalid)
    (tools.sha256_digest _ : isDigest (selectionDigest tools q) = true) (selectionDigest tools q)
    orderField
  rw [if_pos ⟨rfl, rfl⟩] at hdecode
  exact hdecode

end

/-! ## All pages -/

section

variable {tools : Tools} {q : Selection F} {requests : List (Request F)} {pages : List (Served F)}

/-- A page without a cursor is the last one. -/
theorem follow_last {r : Request F} {rest : List (Request F)} {cursor : Option String} {s : Served F}
    (hs : serve tools q r cursor = .ok s) (hnone : s.nextCursor = none) :
    follow tools q (r :: rest) cursor = .ok ([s], none) := by
  simp only [follow, hs, bind, Except.bind, hnone]
  rfl

/-- The first page, and the pages after its cursor. -/
theorem follow_cons {r : Request F} {rest : List (Request F)} {cursor final : Option String}
    {anchor : Option (Key F)} (hcursor : CursorAt tools q cursor anchor)
    (hlist : Listable (matching q r)) (h : follow tools q (r :: rest) cursor = .ok (pages, final)) :
    ∃ s tail, serve tools q r cursor = .ok s ∧
      after listKey (matching q r) anchor = s.rows ++ tail ∧
      ((tail = [] ∧ pages = [s]) ∨ ∃ row next more, s.rows.getLast? = some row ∧
        CursorAt tools q (some next) (some (listKey row)) ∧
        follow tools q rest (some next) = .ok (more, final) ∧ pages = s :: more) := by
  simp only [follow, bind, Except.bind] at h
  split at h
  · cases h
  · rename_i s hs
    obtain ⟨tail, heq, hnext⟩ := serve_ok hcursor hs
    refine ⟨s, tail, hs, heq, ?_⟩
    rcases hnext with ⟨rfl, hnone⟩ | ⟨-, row, hlast, hsome⟩
    · rw [hnone] at h
      obtain ⟨rfl, -⟩ := Prod.mk.inj (Except.ok.inj h)
      exact .inl ⟨rfl, rfl⟩
    · rw [hsome] at h
      dsimp only at h
      split at h
      · cases h
      · rename_i more hmore
        obtain ⟨rfl, rfl⟩ := Prod.mk.inj (Except.ok.inj h)
        have hrow : row ∈ matching q r :=
          (mem_after.mp (heq ▸ List.mem_append_left _ (List.mem_of_getLast? hlast))).1
        exact .inr ⟨row, _, more.1, hlast, cursorAt_continuation hlist hrow, hmore, rfl⟩

/-- Pages that end without a cursor follow the anchors of the listing. -/
theorem follow_follows {cursor : Option String} {anchor : Option (Key F)}
    (hcursor : CursorAt tools q cursor anchor) (hlist : ∀ r ∈ requests, Listable (matching q r))
    (hne : cursor = none → requests ≠ [])
    (h : follow tools q requests cursor = .ok (pages, none)) :
    Follows listKey (requests.map (matching q)) anchor (pages.flatMap Served.rows) := by
  induction requests generalizing cursor anchor pages with
  | nil =>
    obtain ⟨-, rfl⟩ := Prod.mk.inj (Except.ok.inj h)
    exact absurd rfl (hne rfl)
  | cons r rest ih =>
    obtain ⟨s, tail, -, heq, hnext⟩ := follow_cons hcursor (hlist r List.mem_cons_self) h
    rcases hnext with ⟨rfl, rfl⟩ | ⟨row, next, more, hlast, hat, hmore, rfl⟩
    · rw [List.append_nil] at heq
      simpa [← heq] using Follows.last
    · exact Follows.more heq hlast (ih hat
        (fun r' hr' => hlist r' (List.mem_cons_of_mem _ hr')) (nomatch ·) hmore)

/-- While the registry does not change, every page takes rows off the rest: with more requests than
rows the last page is reached, unless one does not fit. -/
theorem follow_ends {cursor : Option String} {anchor : Option (Key F)} {rows : List (Row F)}
    (hcursor : CursorAt tools q cursor anchor) (hlist : Listable (filterSince rows q.since))
    (hsame : ∀ r ∈ requests, r.rows = rows)
    (hlimits : ∀ r ∈ requests, 1 ≤ r.limit ∧ r.limit ≤ maxLimit)
    (hmany : (after listKey (filterSince rows q.since) anchor).length < requests.length) :
    (∃ e ∈ budgetErrors, follow tools q requests cursor = .error e) ∨
      ∃ pages, follow tools q requests cursor = .ok (pages, none) := by
  induction requests generalizing cursor anchor with
  | nil => exact absurd hmany (Nat.not_lt_zero _)
  | cons r rest ih =>
    obtain rfl := hsame r List.mem_cons_self
    cases hs : serve tools q r cursor with
    | error e =>
      refine .inl ⟨e, serve_error hcursor (hlimits r List.mem_cons_self) hs, ?_⟩
      simp only [follow, hs, bind, Except.bind]
    | ok s =>
      obtain ⟨tail, heq, hnext⟩ := serve_ok hcursor hs
      rcases hnext with ⟨-, hnone⟩ | ⟨-, row, hlast, hsome⟩
      · exact .inr ⟨[s], follow_last hs hnone⟩
      · have hrow : row ∈ s.rows := List.mem_of_getLast? hlast
        have hmem : row ∈ matching q r := (mem_after.mp (heq ▸ List.mem_append_left _ hrow)).1
        have htail : after listKey (matching q r) (some (listKey row)) = tail :=
          rest_after hlist.nodup heq hlast
        have hlength : s.rows.length + tail.length < rest.length + 1 := by
          have hsum := congrArg List.length heq
          rw [List.length_append] at hsum
          exact hsum ▸ hmany
        have hpos : 0 < s.rows.length := List.length_pos_of_mem hrow
        have hfewer : (after listKey (matching q r) (some (listKey row))).length < rest.length := by
          rw [htail]
          omega
        rcases ih (cursorAt_continuation hlist hmem)
          (fun r' hr' => hsame r' (List.mem_cons_of_mem _ hr'))
          (fun r' hr' => hlimits r' (List.mem_cons_of_mem _ hr')) hfewer
          with ⟨e, he, herror⟩ | ⟨pages, hpages⟩
        · exact .inl ⟨e, he, by simp only [follow, hs, bind, Except.bind, hsome, herror]⟩
        · exact .inr ⟨s :: pages, by simp only [follow, hs, bind, Except.bind, hsome, hpages]; rfl⟩

/-- Every page holds its rows as the query projects them. -/
theorem follow_jobs {cursor : Option String} {anchor : Option (Key F)} {final : Option String}
    (hcursor : CursorAt tools q cursor anchor) (hlist : ∀ r ∈ requests, Listable (matching q r))
    (h : follow tools q requests cursor = .ok (pages, final)) :
    ∀ s ∈ pages, Row.get s.payload "jobs" = .arr ((project s.rows q.fields).map .obj) := by
  induction requests generalizing cursor anchor pages final with
  | nil =>
    obtain ⟨rfl, -⟩ := Prod.mk.inj (Except.ok.inj h)
    exact fun s hs => absurd hs List.not_mem_nil
  | cons r rest ih =>
    obtain ⟨s, tail, hs, -, hnext⟩ := follow_cons hcursor (hlist r List.mem_cons_self) h
    have hjobs := (serve_payload hcursor hs).1
    rcases hnext with ⟨-, rfl⟩ | ⟨row, next, more, -, hat, hmore, rfl⟩
    · exact List.forall_mem_singleton.mpr hjobs
    · exact List.forall_mem_cons.mpr ⟨hjobs,
        ih hat (fun r' hr' => hlist r' (List.mem_cons_of_mem _ hr')) hmore⟩

end

/-! ## Nothing is skipped and nothing is repeated -/

/-- Following the cursors to a page without one lists every matching row exactly once, in the order
of the listing, while the registry stays as it is; when it changes, the keys still fall from row to
row, and a row that stays is listed exactly once. A cursor gives back the key and the filter that it
was made from. -/
theorem pages_complete (tools : Tools) (q : Selection F) (hq : q.summaryOnly = false) :
    (∀ r cursor, buildPayload tools q r cursor = (serve tools q r cursor).map (·.payload)) ∧
    (∀ (rows : List (Row F)) (requests : List (Request F)), Listable (filterSince rows q.since) →
      (∀ r ∈ requests, r.rows = rows ∧ 1 ≤ r.limit ∧ r.limit ≤ maxLimit) →
      (filterSince rows q.since).length < requests.length →
      (∃ e ∈ budgetErrors, follow tools q requests none = .error e) ∨
        ∃ pages, follow tools q requests none = .ok (pages, none) ∧
          pages.flatMap Served.rows = sortedRows (filterSince rows q.since) orderField ∧
          ∀ s ∈ pages, Row.get s.payload "jobs" = .arr ((project s.rows q.fields).map .obj)) ∧
    (∀ (requests : List (Request F)) (pages : List (Served F)), requests ≠ [] →
      (∀ r ∈ requests, Listable (matching q r)) →
      follow tools q requests none = .ok (pages, none) →
      (pages.flatMap Served.rows).Pairwise (fun a b => listKey b < listKey a) ∧
        (∀ key, (∀ r ∈ requests, ∃ row ∈ matching q r, listKey row = key) →
          ∃ row, (pages.flatMap Served.rows).filter (fun a => listKey a = key) = [row]) ∧
        ∀ row, (∀ r ∈ requests, row ∈ matching q r) →
          (pages.flatMap Served.rows).filter (fun a => listKey a = listKey row) = [row]) ∧
    ∀ (key : Key F) (digest digest' order : String), validJobId (ofLex key).2 = true →
      isDigest digest = true →
      decodeCursor (encodeCursor key digest orderField) digest' order =
        if digest' = digest ∧ order = orderField then .ok key else .error wrongCursor := by
  have hfirst : CursorAt tools q none none := trivial
  refine ⟨buildPayload_eq_serve tools q hq, ?_, ?_, ?_⟩
  · intro rows requests hlist hsame hmany
    have hrows : ∀ r ∈ requests, r.rows = rows := fun r hr => (hsame r hr).1
    have hmatching : ∀ r ∈ requests, matching q r = filterSince rows q.since := by
      intro r hr
      rw [matching, hrows r hr]
    have hsorted : after listKey (filterSince rows q.since) none =
        sortedRows (filterSince rows q.since) orderField := List.filter_eq_self.mpr fun _ _ => rfl
    have hfew : (after listKey (filterSince rows q.since) none).length < requests.length := by
      rw [hsorted, sortedRows, List.length_insertionSort]
      exact hmany
    rcases follow_ends hfirst hlist hrows (fun r hr => (hsame r hr).2) hfew
      with herror | ⟨pages, hpages⟩
    · exact .inl herror
    · have hlistable : ∀ r ∈ requests, Listable (matching q r) :=
        fun r hr => (hmatching r hr).symm ▸ hlist
      have hne : requests ≠ [] := List.length_pos_iff.mp (Nat.zero_lt_of_lt hmany)
      have hfollows := follow_follows hfirst hlistable (fun _ => hne) hpages
      refine .inr ⟨pages, hpages, ?_, follow_jobs hfirst hlistable hpages⟩
      rw [← hsorted]
      refine hfollows.eq_after hlist.nodup fun snapshot hsnapshot => ?_
      obtain ⟨r, hr, rfl⟩ := List.mem_map.mp hsnapshot
      exact hmatching r hr
  · intro requests pages hne hlist hfollow
    have hfollows := follow_follows hfirst hlist (fun _ => hne) hfollow
    have hnodup : ∀ rows ∈ requests.map (matching q), (rows.map listKey).Nodup :=
      List.forall_mem_map.mpr fun r hr => (hlist r hr).nodup
    refine ⟨hfollows.pairwise hnodup, fun key hkey => ?_, fun row hrow => ?_⟩
    · exact hfollows.filter_key hnodup rfl (List.forall_mem_map.mpr hkey)
    · exact hfollows.filter_row hnodup rfl (List.forall_mem_map.mpr hrow)
  · exact fun key digest digest' order hid hdigest =>
      decodeCursor_encodeCursor hid hdigest digest' order

instance tenFloats : NeZero 10 := ⟨by decide⟩

/-- Ten floats are enough for a sample. -/
instance smallFloats : FloatText (Fin 10) where
  zero := 0
  ofInt n := if h : 0 ≤ n ∧ n < 10 then some ⟨n.toNat, by omega⟩ else none
  repr x := [Nat.digitChar x, '.', '0']
  read cs := (List.finRange 10).find? fun x => [Nat.digitChar x, '.', '0'] = cs
  read_repr := by decide
  scan_repr x := ⟨⟨[Nat.digitChar x], ['.', '0'], []⟩, by revert x; decide⟩
  length_repr := by decide

/-- The digest is the one of the query without a filter. -/
def sampleTools : Tools where
  sha256 _ := "31e1dd3999d1d0a56c30a7037f84593f9deee92e4eab5ddfe65a540ae7c011a1"
  sha256_digest _ := by decide
  sanitizeTerminalText s := s
  redactHomePath s := s

def sampleSelection : Selection (Fin 10) := { center := "lab", fields := ["job_id", "created_at"] }

def sampleRow (id : String) (createdAt : Fin 10) : Row (Fin 10) :=
  [("job_id", .str id), ("status", .str "running"), ("created_at", .float createdAt)]

def sampleRequest : Request (Fin 10) :=
  { rows := [sampleRow "a1" 3, sampleRow "b2" 4], limit := 2, generatedAt := 5 }

theorem sampleListable : Listable (filterSince sampleRequest.rows sampleSelection.since) where
  nodup := by decide
  ids := by
    rintro row hrow
    rcases List.mem_pair.mp hrow with rfl | rfl
    · exact ⟨"a1", rfl, by decide⟩
    · exact ⟨"b2", rfl, by decide⟩

def samplePage : Page (Fin 10) := ⟨[sampleRow "b2" 4, sampleRow "a1" 3], 2, none⟩

theorem samplePage_fits : fits (envelope sampleTools sampleSelection sampleRequest none
      (pageObject samplePage.eligible samplePage.rows.length samplePage.nextCursor)
      (project samplePage.rows sampleSelection.fields))
    samplePage.rows sampleSelection.fields (selectionDigest sampleTools sampleSelection) orderField
    samplePage.eligible samplePage.rows.length = true := by
  apply fits_of_length
  rw [candidate_envelope]
  decide +kernel

theorem follow_sample : (follow sampleTools sampleSelection
    [sampleRequest, sampleRequest, sampleRequest] none).isOk = true := by
  have hpage : paginate (matching sampleSelection sampleRequest) sampleRequest.limit none
      (selectionDigest sampleTools sampleSelection) orderField = .ok samplePage := rfl
  obtain ⟨s, hs, hnext⟩ := serve_of_fits hpage samplePage_fits
  rw [follow_last hs (hnext.trans (if_neg (by decide)))]
  rfl

theorem pages_complete_sample :
    ∃ pages, follow sampleTools sampleSelection [sampleRequest, sampleRequest, sampleRequest] none =
        .ok (pages, none) ∧
      pages.flatMap Served.rows = samplePage.rows := by
  have hsame : ∀ r ∈ [sampleRequest, sampleRequest, sampleRequest],
      r.rows = sampleRequest.rows ∧ 1 ≤ r.limit ∧ r.limit ≤ maxLimit := by
    simp only [List.mem_cons, List.not_mem_nil, or_false, or_self, forall_eq]
    exact ⟨trivial, by decide, by decide⟩
  rcases (pages_complete sampleTools sampleSelection rfl).2.1 sampleRequest.rows _ sampleListable hsame
    (by decide) with ⟨e, -, herror⟩ | ⟨pages, hpages, hrows, -⟩
  · have hok := follow_sample
    rw [herror] at hok
    cases hok
  · exact ⟨pages, hpages, hrows.trans rfl⟩

end Dt.Query
