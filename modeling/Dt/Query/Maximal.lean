import Dt.Query.Paging

/-!
# The longest page that fits

`fit_payload_page` looks for the longest prefix of the rows that fits the budget by bisection. A
longer prefix need not be a larger payload: the cursor holds the id of the last row, and the page of
all rows has none. So the bisection finds the longest prefix exactly when the shorter prefixes that
it tries on its way there fit too.
-/

namespace Dt.Query

open Dt.Lib Dt.Jobs

variable {F : Type} [FloatText F]

/-- `payload["page"]["eligible"]`, when it is a count. -/
def eligibleOf (payload : Row F) : Option Nat :=
  match Row.get payload "page" with
  | .obj page =>
    match Row.get page "eligible" with
    | .int eligible => if eligible < 0 then none else some eligible.toNat
    | _ => none
  | _ => none

/-- The lengths that a bisection of `[low, high]` towards a target tries. -/
def probes (target low high : Nat) : List Nat :=
  if low < high then
    let middle := (low + high + 1) / 2
    middle :: if middle ≤ target then probes target middle high else probes target low (middle - 1)
  else []
termination_by high - low
decreasing_by all_goals omega

section

variable (payload : Row F) (source : List (Row F)) (selected : List String) (digest order : String)

/-- The first `count` rows, with their own cursor, are within the budget. -/
def PrefixFits (count : Nat) : Prop :=
  ∃ eligible, eligibleOf payload = some eligible ∧ count ≤ source.length ∧
    fits payload source selected digest order eligible count = true

/-- No longer prefix fits. -/
def Longest (count : Nat) : Prop :=
  PrefixFits payload source selected digest order count ∧
    ∀ other, PrefixFits payload source selected digest order other → other ≤ count

/-- The page has the longest prefix that fits, and a refusal means that no row fits. -/
def FitsMaximally : Prop :=
  match fitPayloadPage payload source selected digest order with
  | .ok page => ∃ eligible count, eligibleOf payload = some eligible ∧
      page = candidate payload source selected digest order eligible count ∧
      Longest payload source selected digest order count
  | .error _ => ∀ count, PrefixFits payload source selected digest order count → count = 0

/-- The prefixes that a bisection tries below the longest one fit. -/
def SearchFits : Prop :=
  ∀ longest, Longest payload source selected digest order longest → longest < source.length →
    ∀ middle ∈ probes longest 0 source.length, middle ≤ longest →
      PrefixFits payload source selected digest order middle

end

/-! ## The bisection -/

theorem probes_of_le {target low high : Nat} (hlt : low < high)
    (hle : (low + high + 1) / 2 ≤ target) :
    probes target low high = (low + high + 1) / 2 :: probes target ((low + high + 1) / 2) high := by
  rw [probes, if_pos hlt]
  exact congrArg _ (if_pos hle)

theorem probes_of_lt {target low high : Nat} (hlt : low < high)
    (hgt : target < (low + high + 1) / 2) :
    probes target low high =
      (low + high + 1) / 2 :: probes target low ((low + high + 1) / 2 - 1) := by
  rw [probes, if_pos hlt]
  exact congrArg _ (if_neg (not_le.mpr hgt))

theorem fitSearch_le (ok : Nat → Bool) {low high : Nat} (h : low ≤ high) :
    fitSearch ok low high ≤ high := by
  fun_induction fitSearch ok low high with
  | case1 low high hlt middle hok ih => exact ih (by omega)
  | case2 low high hlt middle hok ih => exact (ih (by omega)).trans (by omega)
  | case3 low high hlt => exact h

/-- The bisection reaches the last count that passes exactly when the counts that it tries below
pass. -/
theorem fitSearch_eq_iff (ok : Nat → Bool) {last low high : Nat} (hlow : low ≤ last)
    (hhigh : last ≤ high) (hlast : ∀ n, last < n → n ≤ high → ok n = false) :
    fitSearch ok low high = last ↔
      ∀ middle ∈ probes last low high, middle ≤ last → ok middle = true := by
  fun_induction fitSearch ok low high with
  | case1 low high hlt middle hok ih =>
    have hle : middle ≤ last := by
      by_contra hgt
      rw [hlast middle (not_le.mp hgt) (by omega)] at hok
      cases hok
    rw [probes_of_le hlt hle, List.forall_mem_cons]
    exact (ih hle hhigh hlast).trans (and_iff_right fun _ => hok).symm
  | case2 low high hlt middle hok ih =>
    by_cases hle : middle ≤ last
    · -- the longest count is lost
      have hbelow : fitSearch ok low (middle - 1) ≤ middle - 1 := fitSearch_le ok (by omega)
      refine iff_of_false (by omega) fun h => hok (h middle ?_ hle)
      rw [probes_of_le hlt hle]
      exact List.mem_cons_self
    · rw [probes_of_lt hlt (not_le.mp hle), List.forall_mem_cons,
        and_iff_right fun h => absurd h hle]
      exact ih hlow (by omega) fun n hn hle => hlast n hn (by omega)
  | case3 low high hlt =>
    rw [probes, if_neg hlt]
    exact iff_of_true (by omega) (List.forall_mem_nil _)

/-! ## The page -/

section

variable {payload : Row F} {source : List (Row F)} {selected : List String} {digest order : String}
  {eligible : Nat}

omit [FloatText F] in
theorem eligibleOf_eq_some : eligibleOf payload = some eligible ↔ ∃ page n,
    Row.get payload "page" = .obj page ∧ Row.get page "eligible" = .int n ∧ ¬ n < 0 ∧
      n.toNat = eligible := by
  constructor
  · intro h
    unfold eligibleOf at h
    split at h
    · rename_i page hpage
      split at h
      · rename_i n hn
        split at h
        · cases h
        · rename_i hneg
          exact ⟨page, n, hpage, hn, hneg, Option.some.inj h⟩
      · cases h
    · cases h
  · rintro ⟨page, n, hpage, hn, hneg, rfl⟩
    simp only [eligibleOf, hpage, hn, if_neg hneg]

theorem fitPayloadPage_of_eligible (h : eligibleOf payload = some eligible) :
    fitPayloadPage payload source selected digest order =
      (fitCount payload source selected digest order eligible).map
        (candidate payload source selected digest order eligible) := by
  obtain ⟨page, n, hpage, hn, hneg, rfl⟩ := eligibleOf_eq_some.mp h
  simp only [fitPayloadPage, hpage, hn, if_neg hneg]

theorem fitPayloadPage_of_none (h : eligibleOf payload = none) :
    ∃ e, fitPayloadPage payload source selected digest order = .error e := by
  unfold fitPayloadPage
  split
  · rename_i page hpage
    split
    · rename_i n hn
      split
      · exact ⟨_, rfl⟩
      · rename_i hneg
        have hsome := eligibleOf_eq_some.mpr ⟨page, n, hpage, hn, hneg, rfl⟩
        exact absurd (hsome.symm.trans h) (Option.some_ne_none _)
    · exact ⟨_, rfl⟩
  · exact ⟨_, rfl⟩

theorem prefixFits_iff (h : eligibleOf payload = some eligible) {count : Nat} :
    PrefixFits payload source selected digest order count ↔ count ≤ source.length ∧
      fits payload source selected digest order eligible count = true := by
  constructor
  · rintro ⟨other, hother, hfits⟩
    obtain rfl := Option.some.inj (hother.symm.trans h)
    exact hfits
  · exact fun hfits => ⟨eligible, h, hfits⟩

/-- The page says how many rows it has. -/
theorem candidate_inj {a b : Nat} (h : candidate payload source selected digest order eligible a =
    candidate payload source selected digest order eligible b) : a = b := by
  have hpage := congrArg (Row.get · "page") h
  simp only [candidate, Row.get_set_self, pageObject, Json.obj.injEq, List.cons.injEq, Prod.mk.injEq,
    Json.int.injEq, true_and] at hpage
  exact_mod_cast hpage.1

theorem fitsMaximally_iff_count (h : eligibleOf payload = some eligible) :
    FitsMaximally payload source selected digest order ↔
      (∀ count, fitCount payload source selected digest order eligible = .ok count →
        Longest payload source selected digest order count) ∧
      ∀ e, fitCount payload source selected digest order eligible = .error e →
        ∀ count, PrefixFits payload source selected digest order count → count = 0 := by
  unfold FitsMaximally
  rw [fitPayloadPage_of_eligible h]
  cases fitCount payload source selected digest order eligible with
  | error e => simp [Except.map]
  | ok count =>
    simp only [Except.map, Except.ok.injEq, reduceCtorEq, false_imp_iff, implies_true, and_true,
      forall_eq']
    constructor
    · rintro ⟨other, n, hother, hpage, hlongest⟩
      obtain rfl := Option.some.inj (hother.symm.trans h)
      exact candidate_inj hpage ▸ hlongest
    · exact fun hlongest => ⟨eligible, count, h, rfl, hlongest⟩

theorem Longest.unique {a b : Nat} (ha : Longest payload source selected digest order a)
    (hb : Longest payload source selected digest order b) : a = b :=
  le_antisymm (hb.2 a ha.1) (ha.2 b hb.1)

/-- If some prefix fits then there is a longest one. -/
theorem exists_longest {count : Nat}
    (h : PrefixFits payload source selected digest order count) :
    ∃ longest, Longest payload source selected digest order longest := by
  have hle : ∀ n, PrefixFits payload source selected digest order n → n ≤ source.length :=
    fun _ ⟨_, _, hn, _⟩ => hn
  classical
  refine ⟨Nat.findGreatest (PrefixFits payload source selected digest order) source.length,
    Nat.findGreatest_spec (hle count h) h, fun other hother => ?_⟩
  exact Nat.le_findGreatest (hle other hother) hother

theorem not_prefixFits_of_none (h : eligibleOf payload = none) (count : Nat) :
    ¬ PrefixFits payload source selected digest order count := by
  rintro ⟨eligible, heligible, -⟩
  exact absurd (heligible.symm.trans h) (Option.some_ne_none _)

/-- What the search leaves is the count of the page. -/
theorem fitCount_of_not_fits
    (h : ¬ fits payload source selected digest order eligible source.length = true) :
    let low := fitSearch (fits payload source selected digest order eligible) 0 source.length
    (∀ count, fitCount payload source selected digest order eligible = .ok count → count = low) ∧
      ((∃ e, fitCount payload source selected digest order eligible = .error e) → low = 0) := by
  intro low
  have hcount : fitCount payload source selected digest order eligible =
      if low = 0 ∧ eligible ≠ 0 then
        .error "one projected job exceeds the ps response byte budget; request fewer fields"
      else if !fits payload source selected digest order eligible low then
        .error "ps response metadata exceeds its byte budget"
      else .ok low := if_neg h
  obtain ⟨-, hlow⟩ := fitSearch_spec (fits payload source selected digest order eligible) 0
    source.length (Nat.zero_le _) (.inl rfl)
  rw [hcount]
  refine ⟨fun count hc => ?_, ?_⟩
  · split at hc
    · cases hc
    · split at hc
      · cases hc
      · exact (Except.ok.inj hc).symm
  · rintro ⟨e, he⟩
    split at he
    · rename_i hzero
      exact hzero.1
    · split at he
      · rename_i hfits
        exact hlow.resolve_right (by simpa using hfits)
      · cases he

/-- The code keeps the longest prefix that fits, and refuses only when no row fits, exactly when the
prefixes that the bisection tries below the longest one fit. -/
theorem fits_maximally_iff (payload : Row F) (source : List (Row F)) (selected : List String)
    (digest order : String) : FitsMaximally payload source selected digest order ↔
      SearchFits payload source selected digest order := by
  cases helig : eligibleOf payload with
  | none =>
    obtain ⟨e, he⟩ : ∃ e, fitPayloadPage payload source selected digest order = .error e :=
      fitPayloadPage_of_none helig
    refine iff_of_true ?_ fun longest h => absurd h.1 (not_prefixFits_of_none helig longest)
    unfold FitsMaximally
    rw [he]
    exact fun count h => absurd h (not_prefixFits_of_none helig count)
  | some eligible =>
    rw [fitsMaximally_iff_count helig]
    by_cases hall : fits payload source selected digest order eligible source.length = true
    · -- all rows fit
      have hlongest : Longest payload source selected digest order source.length :=
        ⟨(prefixFits_iff helig).mpr ⟨le_rfl, hall⟩, fun other h => ((prefixFits_iff helig).mp h).1⟩
      rw [fitCount_of_fits hall]
      refine iff_of_true ⟨fun count h => Except.ok.inj h ▸ hlongest, fun e h => ?_⟩
        fun longest h hlt => ?_
      · cases h
      · exact absurd (h.unique hlongest) hlt.ne
    obtain ⟨hok, herror⟩ := fitCount_of_not_fits hall
    by_cases hex : ∃ longest, Longest payload source selected digest order longest
    · obtain ⟨longest, hlongest⟩ := hex
      obtain ⟨hle, hfits⟩ := (prefixFits_iff helig).mp hlongest.1
      have hlt : longest < source.length := lt_of_le_of_ne hle fun heq => hall (heq ▸ hfits)
      have hsearch := fitSearch_eq_iff (fits payload source selected digest order eligible)
        (Nat.zero_le longest) hle fun n hn hnle => by
          by_contra hne
          have hn' := hlongest.2 n ((prefixFits_iff helig).mpr ⟨hnle, by simpa using hne⟩)
          omega
      have hprobes : SearchFits payload source selected digest order ↔
          ∀ middle ∈ probes longest 0 source.length, middle ≤ longest →
            fits payload source selected digest order eligible middle = true := by
        constructor
        · intro h middle hm hle
          exact ((prefixFits_iff helig).mp (h longest hlongest hlt middle hm hle)).2
        · intro h other hother _ middle hm hmle
          obtain rfl := hother.unique hlongest
          exact (prefixFits_iff helig).mpr ⟨hmle.trans hle, h middle hm hmle⟩
      rw [hprobes, ← hsearch]
      constructor
      · rintro ⟨hgood, hbad⟩
        cases hc : fitCount payload source selected digest order eligible with
        | ok count =>
          rw [← hok count hc]
          exact (hgood count hc).unique hlongest
        | error e =>
          rw [herror ⟨e, hc⟩]
          exact (hbad e hc longest hlongest.1).symm
      · intro hs
        rw [hs] at hok herror
        refine ⟨fun count hc => (hok count hc).symm ▸ hlongest, fun e he count hcount => ?_⟩
        have hzero := hlongest.2 count hcount
        rw [herror ⟨e, he⟩] at hzero
        exact Nat.le_zero.mp hzero
    · -- nothing fits, and nothing is kept
      have hno : ∀ n, ¬ PrefixFits payload source selected digest order n :=
        fun n hn => hex (exists_longest hn)
      refine iff_of_true ⟨fun count hc => ?_, fun e _ count h => absurd h (hno count)⟩
        fun longest h => absurd ⟨longest, h⟩ hex
      obtain ⟨hle, hfits, -⟩ := fitCount_spec hc
      exact absurd ((prefixFits_iff helig).mpr ⟨hle, hfits⟩) (hno count)

end

/-! ## A bisection that misses three rows -/

/-- The UTF-8 size of a text. -/
def textSize (cs : List Char) : Nat := (cs.map Char.utf8Size).sum

theorem textSize_append (a b : List Char) : textSize (a ++ b) = textSize a + textSize b := by
  simp [textSize]

theorem textSize_cons (c : Char) (cs : List Char) : textSize (c :: cs) = c.utf8Size + textSize cs :=
  List.sum_cons

theorem serializedSize_eq (payload : Row F) :
    serializedSize payload = textSize ((Json.obj payload).render {}) := by
  rw [serializedSize, length_utf8Bytes, textSize]
  generalize (Json.obj payload).render {} = cs
  induction cs with
  | nil => rfl
  | cons c cs ih => rw [List.map_cons, List.sum_cons, ← ih]; simp [String.ofList_cons]

/-- Another first job changes the size by the difference of the jobs. -/
theorem serializedSize_firstJob (page v w : Json F) (rest : List (Json F)) :
    serializedSize [("page", page), ("jobs", .arr (v :: rest))] + textSize (w.render {}) =
      serializedSize [("page", page), ("jobs", .arr (w :: rest))] + textSize (v.render {}) := by
  rw [serializedSize_eq, serializedSize_eq]
  cases rest with
  | nil => simp only [Json.render, renderPairs, renderItems, textSize_append, textSize_cons]; omega
  | cons u rest =>
    simp only [Json.render, renderPairs, renderItems, textSize_append, textSize_cons]
    omega

/-- What a cursor adds to the size. -/
theorem serializedSize_cursor (cs : List Char) (eligible returned : Nat) (jobs : Json F) :
    serializedSize [("page", pageObject eligible returned (some (String.ofList cs))), ("jobs", jobs)] =
      textSize (cs.flatMap escapeChar) +
        serializedSize [("page", pageObject eligible returned (some "")), ("jobs", jobs)] := by
  have hnil : textSize ("".toList.flatMap escapeChar) = 0 := rfl
  simp only [serializedSize_eq, pageObject, optText, Json.render, renderPairs, renderString,
    String.toList_ofList, textSize_append, textSize_cons, hnil]
  omega

/-- A command of as many letters. -/
def longCmd (n : Nat) : String := String.ofList (List.replicate n 'x')

theorem textSize_longCmd (n : Nat) :
    textSize ((Json.obj [("cmd", .str (longCmd n))] : Json F).render {}) =
      n + textSize ((Json.obj [("cmd", .str "")] : Json F).render {}) := by
  have hletters : (List.replicate n 'x').flatMap escapeChar = List.replicate n 'x' := by
    induction n with
    | zero => rfl
    | succ n ih => rw [List.replicate_succ, List.flatMap_cons, ih]; rfl
  have hsize : textSize (List.replicate n 'x') = n := by
    rw [textSize, List.map_replicate, List.sum_replicate]
    exact Nat.mul_one n
  have hnil : textSize ("".toList.flatMap escapeChar) = 0 := rfl
  simp only [Json.render, renderPairs, renderString, longCmd, String.toList_ofList, hletters,
    textSize_append, textSize_cons, hsize, hnil]
  omega

/-- Jobs that print one field. -/
def cmdRow (created : Int) (id : List Char) (cmd : String) : Row (Fin 10) :=
  [("job_id", .str (String.ofList id)), ("created_at", .int created), ("cmd", .str cmd)]

def longId (c : Char) : List Char := List.replicate 64 c

/-- The third job has a short id. -/
def cmdRows (n : Nat) : List (Row (Fin 10)) :=
  [cmdRow 9 (longId 'd') (longCmd n), cmdRow 8 (longId 'c') "", cmdRow 7 ['b'] "",
    cmdRow 6 (longId 'a') ""]

/-- A fifth job comes on the next page. -/
def fiveJobs : Row (Fin 10) := [("page", .obj [("eligible", .int 5)]), ("jobs", .arr [])]

def zeroDigest : String := String.ofList (List.replicate 64 '0')

/-- The cursor after a job. -/
def cursorChars (created : Fin 10) (id : List Char) : List Char :=
  stripPadding (urlsafeEncode (utf8Bytes (String.ofList ((Json.obj (cursorObject
    (toLex (created, String.ofList id)) zeroDigest orderField)).render .compact))))

theorem renderString_ofList (cs : List Char) :
    renderString (String.ofList cs) = '"' :: cs.flatMap escapeChar ++ ['"'] := by
  rw [renderString, String.toList_ofList]

/-- The object of a cursor around the id. -/
theorem render_cursorObject (created : Fin 10) (id digest : List Char) :
    (Json.obj (cursorObject (toLex (created, String.ofList id)) (String.ofList digest)
      orderField)).render .compact =
      '{' :: '"' :: 'd' :: '"' :: ':' :: '"' :: (digest.flatMap escapeChar ++
        '"' :: ',' :: '"' :: 'j' :: '"' :: ':' :: '"' :: (id.flatMap escapeChar ++
          '"' :: ',' :: '"' :: 'o' :: '"' :: ':' :: (renderString orderField ++
            ',' :: '"' :: 't' :: '"' :: ':' :: (FloatText.repr created ++
              [',', '"', 'v', '"', ':', '1', '}'])))) := by
  have hd : renderString "d" = ['"', 'd', '"'] := rfl
  have hj : renderString "j" = ['"', 'j', '"'] := rfl
  have ho : renderString "o" = ['"', 'o', '"'] := rfl
  have ht : renderString "t" = ['"', 't', '"'] := rfl
  have hv : renderString "v" = ['"', 'v', '"'] := rfl
  have hone : (toString (1 : Int)).toList = ['1'] := rfl
  simp only [cursorObject, Json.render, renderPairs, ofLex_toLex, hd, hj, ho, ht, hv, hone,
    Separators.compact, renderString_ofList, List.cons_append, List.nil_append, List.append_assoc]

/-- The cursors of long ids have the same length. -/
theorem textSize_cursorChars : ([(9, 64, 'd'), (8, 64, 'c'), (7, 1, 'b'), (6, 64, 'a')] :
    List (Fin 10 × Nat × Char)).map (fun p =>
      textSize ((cursorChars p.1 (List.replicate p.2.1 p.2.2)).flatMap escapeChar)) =
        [232, 232, 148, 232] := by
  unfold cursorChars zeroDigest
  simp only [render_cursorObject]
  decide +kernel

/-- The length of the command does not show in the cursor. -/
theorem continuationAfter_cmdRows (n : Nat) : (List.range 4).map (fun count =>
    continuationAfter (cmdRows n) zeroDigest orderField 5 (count + 1)) =
      [(9, 64, 'd'), (8, 64, 'c'), (7, 1, 'b'), (6, 64, 'a')].map fun p =>
        some (String.ofList (cursorChars p.1 (List.replicate p.2.1 p.2.2))) := rfl

/-- The first rows without their cursor and with an empty command. -/
def bare (count : Nat) : Row (Fin 10) :=
  [("page", pageObject 5 count (some "")),
    ("jobs", .arr ((project ((cmdRows 0).take count) ["cmd"]).map .obj))]

theorem serializedSize_bare : (List.range 4).map (fun count => serializedSize (bare (count + 1))) =
    [82, 95, 108, 121] := by
  decide +kernel

theorem serializedSize_candidate {n count : Nat} {cs : List Char}
    (h : continuationAfter (cmdRows n) zeroDigest orderField 5 (count + 1) = some (String.ofList cs)) :
    serializedSize (candidate fiveJobs (cmdRows n) ["cmd"] zeroDigest orderField 5 (count + 1)) =
      n + textSize (cs.flatMap escapeChar) + serializedSize (bare (count + 1)) := by
  have hcandidate : candidate fiveJobs (cmdRows n) ["cmd"] zeroDigest orderField 5 (count + 1) =
      [("page", pageObject 5 (count + 1) (some (String.ofList cs))),
        ("jobs", .arr (.obj [("cmd", .str (longCmd n))] ::
          (project ((cmdRows 0).tail.take count) ["cmd"]).map .obj))] := by
    rw [candidate, h]
    rfl
  have hbare : bare (count + 1) = [("page", pageObject 5 (count + 1) (some "")),
      ("jobs", .arr (.obj [("cmd", .str (longCmd 0))] ::
        (project ((cmdRows 0).tail.take count) ["cmd"]).map .obj))] := rfl
  have hjobs := serializedSize_firstJob (pageObject 5 (count + 1) (some ""))
    (.obj [("cmd", .str (longCmd n))]) (.obj [("cmd", .str (longCmd 0))])
    ((project ((cmdRows 0).tail.take count) ["cmd"]).map .obj)
  rw [textSize_longCmd n, textSize_longCmd 0, ← hbare] at hjobs
  rw [hcandidate, serializedSize_cursor]
  omega

theorem fits_cmdRows (n : Nat) : (List.range 4).map (fun count =>
    fits fiveJobs (cmdRows n) ["cmd"] zeroDigest orderField 5 (count + 1)) =
      [314, 327, 256, 353].map fun size => decide (n + size ≤ maxResponseBytes) := by
  have hcursor := continuationAfter_cmdRows n
  have hsize := textSize_cursorChars
  have hbare := serializedSize_bare
  simp only [List.range_succ, List.range_zero, List.nil_append, List.cons_append, List.map_cons,
    List.map_nil, List.cons.injEq, and_true] at hcursor hsize hbare ⊢
  obtain ⟨c1, c2, c3, c4⟩ := hcursor
  obtain ⟨t1, t2, t3, t4⟩ := hsize
  obtain ⟨b1, b2, b3, b4⟩ := hbare
  refine ⟨?_, ?_, ?_, ?_⟩
  · rw [fits, serializedSize_candidate c1, t1, b1, Nat.add_assoc]
  · rw [fits, serializedSize_candidate c2, t2, b2, Nat.add_assoc]
  · rw [fits, serializedSize_candidate c3, t3, b3, Nat.add_assoc]
  · rw [fits, serializedSize_candidate c4, t4, b4, Nat.add_assoc]

/-- A search that ends below a prefix that fits. -/
theorem not_maximal_of_search {payload : Row F} {source : List (Row F)} {selected : List String}
    {digest order : String} {eligible count : Nat} (helig : eligibleOf payload = some eligible)
    (hall : ¬ fits payload source selected digest order eligible source.length = true)
    (hlow : fitSearch (fits payload source selected digest order eligible) 0 source.length < count)
    (hle : count ≤ source.length)
    (hfits : fits payload source selected digest order eligible count = true) :
    ¬ FitsMaximally payload source selected digest order := by
  intro hmaximal
  obtain ⟨hgood, hbad⟩ := (fitsMaximally_iff_count helig).mp hmaximal
  obtain ⟨hok, -⟩ := fitCount_of_not_fits hall
  have hprefix : PrefixFits payload source selected digest order count :=
    (prefixFits_iff helig).mpr ⟨hle, hfits⟩
  cases hc : fitCount payload source selected digest order eligible with
  | ok kept =>
    have hlong := (hgood kept hc).2 count hprefix
    rw [hok kept hc] at hlong
    exact absurd hlow (not_lt.mpr hlong)
  | error e =>
    rw [hbad e hc count hprefix] at hlow
    exact absurd hlow (Nat.not_lt_zero _)

theorem fitSearch_four {ok : Nat → Bool} (h1 : ok 1 = false) (h2 : ok 2 = false) :
    fitSearch ok 0 4 = 0 := by
  simp [fitSearch, h1, h2]

/-- With a command of this length the first three rows fill the budget to the last byte, and yet the
page is refused. -/
theorem five_jobs_refused :
    ¬ FitsMaximally fiveJobs (cmdRows 4194048) ["cmd"] zeroDigest orderField := by
  have hfits := fits_cmdRows 4194048
  simp only [List.range_succ, List.range_zero, List.nil_append, List.cons_append, List.map_cons,
    List.map_nil, List.cons.injEq, and_true] at hfits
  obtain ⟨h1, h2, h3, h4⟩ := hfits
  have helig : eligibleOf fiveJobs = some 5 := rfl
  have hone := h1.trans (decide_eq_false (by decide))
  have htwo := h2.trans (decide_eq_false (by decide))
  have hthree := h3.trans (decide_eq_true (by decide))
  have hfour := h4.trans (decide_eq_false (by decide))
  have hlow : fitSearch (fits fiveJobs (cmdRows 4194048) ["cmd"] zeroDigest orderField 5) 0 4 < 3 :=
    (fitSearch_four hone htwo).trans_lt (by decide)
  exact not_maximal_of_search helig (Bool.not_eq_true _ ▸ hfour) hlow (by decide) hthree

end Dt.Query
