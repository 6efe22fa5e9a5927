import Dt.Lib.Bisect
import Dt.Jobs.Validate
import Mathlib.Data.List.MinMax
import Mathlib.Data.String.Basic

/-!
# Compact references

A reference is read as an id, then as a name, then as a part of an id that only one job has.
`compact_refs` gives each job a short suffix of its id that leads back to the job. Names are chosen
freely, so a suffix that is a name is never used, not even for the job of that name.
-/

namespace Dt.Jobs

open Dt.Lib

/-! ## Reading a reference -/

/-- `s.endswith(p)` -/
def endsWith (s p : String) : Bool := p.toList.isSuffixOf s.toList

/-- `_scope_ref` -/
def scopeRef (center ref : String) : Option String :=
  let ref := String.ofList (strip ref.toList)
  let scopedPre := center ++ ":"
  if ref = "" then none
  else if startsWith ref scopedPre then
    let rest := removePrefix ref scopedPre
    if rest = "" then none else some rest
  else if ':' ∈ ref.toList then none
  else some ref

/-- `load`, where the registry has these rows. -/
def loadFrom (entries : List JobEntry) (id : JobId) : Option JobEntry :=
  if validJobId id then entries.find? (·.jobId = id) else none

/-- The row has the reference at one end of its id. -/
def matchesRef (ref : String) (e : JobEntry) : Bool :=
  startsWith e.jobId ref || endsWith e.jobId ref

/-- `_resolve_ref_against`: the newest job of that name, or the only match. -/
def resolveRefAgainst (entries : List JobEntry) (ref : String) : Option JobEntry × List JobEntry :=
  match (entries.filter (·.name = ref)).argmax (·.createdAt) with
  | some newest => (some newest, [])
  | none =>
    match entries.filter (matchesRef ref) with
    | [e] => (some e, [])
    | found => (none, found.insertionSort fun a b => b.createdAt ≤ a.createdAt)

/-- `resolve_ref` -/
def resolveRef (center : String) (entries : List JobEntry) (ref : String) :
    Option JobEntry × List JobEntry :=
  match scopeRef center ref with
  | none => (none, [])
  | some target =>
    match loadFrom entries target with
    | some exact => (some exact, [])
    | none => resolveRefAgainst entries target

/-! ## Compact references -/

/-- `job_id[-width:]` -/
def suffixOf (id : JobId) (width : Nat) : String :=
  String.ofList (id.toList.drop (id.toList.length - width))

/-- `_count_starting_with` -/
def countStartingWith (sortedValues : List (List Char)) (pre : List Char) : Nat :=
  bisectRight sortedValues (pre ++ [Char.ofNat 0xffff]) - bisectLeft sortedValues pre

/-- The candidate is no name and no other id begins or ends with it. -/
def safeRef (records : List (JobId × String)) (id : JobId) (candidate : String) : Bool :=
  let jobIds := records.map fun r => r.1.toList
  let sortedIds := jobIds.insertionSort (· ≤ ·)
  let sortedReversedIds := (jobIds.map List.reverse).insertionSort (· ≤ ·)
  if candidate ∈ records.map Prod.snd then false
  else if countStartingWith sortedReversedIds candidate.toList.reverse ≠ 1 then false
  else countStartingWith sortedIds candidate.toList = if startsWith id candidate then 1 else 0

/-- The reference of one job. -/
def compactRef (records : List (JobId × String)) (minimum : Nat) (id : JobId) : String :=
  match (List.range' minimum (id.toList.length + 1 - minimum)).find? fun width =>
    safeRef records id (suffixOf id width) with
  | some width => suffixOf id width
  | none => id

/-- `compact_refs` -/
def compactRefs (records : List (JobId × String)) (minimum : Int) : Except String (Dict String) :=
  if minimum < 1 then .error "minimum compact ref length must be positive"
  else .ok (records.map fun r => (r.1, compactRef records minimum.toNat r.1))

/-- `compact_job_refs` -/
def compactJobRefs (entries : List JobEntry) (minimum : Int) : Except String (Dict String) :=
  compactRefs (entries.map fun e => (e.jobId, e.name)) minimum

/-! ## Texts of ids -/

/-- A nonempty text of the characters of ids. -/
def IdText (s : String) : Prop :=
  s.toList ≠ [] ∧ ∀ c ∈ s.toList, (isAlnum c || c = '_' || c = '-') = true

theorem idText_of_valid {s : String} (h : validJobId s = true) : IdText s := by
  unfold validJobId classRun at h
  simp only [Bool.and_eq_true, decide_eq_true_eq, List.all_eq_true] at h
  exact ⟨fun hnil => by simp [hnil] at h, h.2⟩

theorem strip_eq_self {s : List Char} (h : ∀ c ∈ s, isSpace c = false) : strip s = s := by
  have hkept : ∀ t : List Char, (∀ c ∈ t, isSpace c = false) → t.dropWhile isSpace = t := by
    intro t ht
    cases t with
    | nil => rfl
    | cons c t => rw [List.dropWhile_cons_of_neg (by simp [ht c List.mem_cons_self])]
  rw [strip, hkept s h, hkept s.reverse fun c hc => h c (List.mem_reverse.mp hc), List.reverse_reverse]

theorem idChar_spec {c : Char} (h : (isAlnum c || c = '_' || c = '-') = true) :
    isSpace c = false ∧ c ≠ ':' ∧ c < Char.ofNat 0xffff := by
  simp only [isAlnum, isDigit, Bool.or_eq_true, Bool.and_eq_true, decide_eq_true_eq, Char.le_def,
    UInt32.le_iff_toNat_le] at h
  have hrange : (48 ≤ c.toNat ∧ c.toNat ≤ 57) ∨ (65 ≤ c.toNat ∧ c.toNat ≤ 122) ∨ c.toNat = 45 := by
    rcases h with (((h | h) | h) | rfl) | rfl
    · exact .inl h
    · exact .inr (.inl ⟨h.1.trans' (by decide), h.2⟩)
    · exact .inr (.inl ⟨h.1, h.2.trans (by decide)⟩)
    · exact .inr (.inl (by decide))
    · exact .inr (.inr (by decide))
  refine ⟨?_, ?_, ?_⟩
  · simp only [isSpace, Bool.or_eq_false_iff, Bool.and_eq_false_iff, decide_eq_false_iff_not,
      beq_eq_false_iff_ne]
    omega
  · rintro rfl
    exact absurd hrange (by decide)
  · have htop : (Char.ofNat 0xffff).toNat = 65535 := rfl
    have hlt : c.toNat < (Char.ofNat 0xffff).toNat := by omega
    exact Char.lt_def.mpr (UInt32.lt_iff_toNat_lt.mpr hlt)

theorem scopeRef_idText (center : String) {s : String} (h : IdText s) :
    scopeRef center s = some s := by
  have hspace : ∀ c ∈ s.toList, isSpace c = false := fun c hc => (idChar_spec (h.2 c hc)).1
  have hcolon : ':' ∉ s.toList := fun hc => (idChar_spec (h.2 _ hc)).2.1 rfl
  have hstrip : String.ofList (strip s.toList) = s := by
    rw [strip_eq_self hspace, String.ofList_toList]
  have hne : s ≠ "" := fun heq => h.1 (heq ▸ rfl)
  have hscope : startsWith s (center ++ ":") = false := by
    rw [Bool.eq_false_iff]
    intro hpre
    obtain ⟨rest, hrest⟩ := List.isPrefixOf_iff_prefix.mp hpre
    refine hcolon (hrest ▸ ?_)
    simp
  unfold scopeRef
  rw [hstrip]
  simp only [hne, hscope, hcolon, if_false, Bool.false_eq_true]

/-! ## Counting the matches -/

/-- The bisections count the values that begin with the text. -/
theorem countStartingWith_eq {values : List (List Char)}
    (h : ∀ v ∈ values, ∀ c ∈ v, c < Char.ofNat 0xffff) (pre : List Char) :
    countStartingWith (values.insertionSort (· ≤ ·)) pre = values.countP (pre.isPrefixOf ·) := by
  rw [countStartingWith, bisect_between (List.pairwise_insertionSort _ _) (le_append pre _),
    (List.perm_insertionSort _ values).countP_eq]
  refine List.countP_congr fun v hv => ?_
  rw [decide_eq_true_iff, between_iff_prefix (h v hv), List.isPrefixOf_iff_prefix]

section

variable {entries : List JobEntry} {e : JobEntry} (hdistinct : (entries.map (·.jobId)).Nodup)
  (hvalid : ∀ e ∈ entries, validJobId e.jobId = true)

include hvalid in
/-- The counts over the sorted ids, for the rows of a registry. -/
theorem countStartingWith_ids (candidate : List Char) :
    countStartingWith ((entries.map fun e => e.jobId.toList).insertionSort (· ≤ ·)) candidate =
        entries.countP (fun o => candidate.isPrefixOf o.jobId.toList) ∧
      countStartingWith ((entries.map fun e => e.jobId.toList.reverse).insertionSort (· ≤ ·))
        candidate.reverse = entries.countP (fun o => candidate.isSuffixOf o.jobId.toList) := by
  have hchars : ∀ e ∈ entries, ∀ c ∈ e.jobId.toList, c < Char.ofNat 0xffff := fun e he c hc =>
    (idChar_spec ((idText_of_valid (hvalid e he)).2 c hc)).2.2
  constructor
  · rw [countStartingWith_eq (List.forall_mem_map.mpr hchars), List.countP_map]
    rfl
  · rw [countStartingWith_eq (List.forall_mem_map.mpr fun e he c hc =>
      hchars e he c (List.mem_reverse.mp hc)), List.countP_map]
    rfl

include hdistinct hvalid in
/-- A suffix is safe when it is no name and only its own job has it at an end of the id. -/
theorem safeRef_iff (he : e ∈ entries) {ref : String} (hsuffix : endsWith e.jobId ref = true) :
    safeRef (entries.map fun e => (e.jobId, e.name)) e.jobId ref = true ↔
      ref ∉ entries.map (·.name) ∧ ∀ o ∈ entries, matchesRef ref o = true → o = e := by
  have hnodup : entries.Nodup := hdistinct.of_map _
  obtain ⟨hfront, hback⟩ := countStartingWith_ids hvalid ref.toList
  have hnames : (entries.map fun e => (e.jobId, e.name)).map Prod.snd = entries.map (·.name) := by
    rw [List.map_map]; rfl
  have hids : (entries.map fun e => (e.jobId, e.name)).map (fun r => r.1.toList) =
      entries.map fun e => e.jobId.toList := by
    rw [List.map_map]; rfl
  have hrev : (entries.map fun e => e.jobId.toList).map List.reverse =
      entries.map fun e => e.jobId.toList.reverse := by
    rw [List.map_map]; rfl
  have hends : (entries.countP fun o => ref.toList.isSuffixOf o.jobId.toList) = 1 ↔
      ∀ o ∈ entries, endsWith o.jobId ref = true → o = e := countP_eq_one_iff hnodup he hsuffix
  have hstarts : ((entries.countP fun o => ref.toList.isPrefixOf o.jobId.toList) =
      if startsWith e.jobId ref = true then 1 else 0) ↔
      ∀ o ∈ entries, startsWith o.jobId ref = true → o = e := by
    split
    · rename_i hown
      exact countP_eq_one_iff hnodup he hown
    · rename_i hown
      rw [List.countP_eq_zero]
      exact forall₂_congr fun o ho => ⟨fun hno h => absurd h hno, fun h ho' => hown (h ho' ▸ ho')⟩
  unfold safeRef
  dsimp only
  rw [hnames, hids, hrev, hfront, hback]
  simp only [Bool.if_false_left, Bool.and_eq_true, Bool.not_eq_true', decide_eq_false_iff_not,
    decide_eq_true_eq, not_not, hends, hstarts, matchesRef, Bool.or_eq_true]
  refine and_congr_right fun _ => ⟨fun h o ho hor => hor.elim (h.2 o ho) (h.1 o ho), fun h => ?_⟩
  exact ⟨fun o ho hend => h o ho (.inr hend), fun o ho hstart => h o ho (.inl hstart)⟩

/-! ## Where a reference leads -/

theorem length_suffixOf (id : JobId) (width : Nat) :
    (suffixOf id width).toList.length = min width id.toList.length := by
  rw [suffixOf, String.toList_ofList, List.length_drop]
  omega

theorem endsWith_suffixOf (id : JobId) (width : Nat) : endsWith id (suffixOf id width) = true := by
  rw [endsWith, suffixOf, String.toList_ofList, List.isSuffixOf_iff_suffix]
  exact List.drop_suffix _ _

theorem idText_suffixOf {id : JobId} (h : IdText id) {width : Nat} (hpos : 0 < width) :
    IdText (suffixOf id width) := by
  refine ⟨List.length_pos_iff.mp ?_, fun c hc => ?_⟩
  · rw [length_suffixOf]
    exact lt_min hpos (List.length_pos_iff.mpr h.1)
  · rw [suffixOf, String.toList_ofList] at hc
    exact h.2 c (List.mem_of_mem_drop hc)

theorem validJobId_suffixOf {id : JobId} (h : validJobId id = true) {width : Nat} (hpos : 0 < width) :
    validJobId (suffixOf id width) = true := by
  obtain ⟨hne, hchars⟩ := idText_suffixOf (idText_of_valid h) hpos
  unfold validJobId classRun at h ⊢
  simp only [Bool.and_eq_true, decide_eq_true_eq] at h ⊢
  refine ⟨⟨List.length_pos_iff.mpr hne, ?_⟩, List.all_eq_true.mpr hchars⟩
  rw [length_suffixOf]
  exact (min_le_right _ _).trans h.1.2

include hdistinct in
theorem find_jobId (he : e ∈ entries) : entries.find? (·.jobId = e.jobId) = some e := by
  cases hfind : entries.find? (·.jobId = e.jobId) with
  | none => exact absurd (decide_eq_true rfl) (List.find?_eq_none.mp hfind e he)
  | some o =>
    have hid : o.jobId = e.jobId := by simpa using List.find?_some hfind
    rw [List.inj_on_of_nodup_map hdistinct (List.mem_of_find?_eq_some hfind) he hid]

include hdistinct hvalid in
/-- The id of a row leads to the row. -/
theorem resolveRef_jobId (center : String) (he : e ∈ entries) :
    resolveRef center entries e.jobId = (some e, []) := by
  unfold resolveRef
  rw [scopeRef_idText center (idText_of_valid (hvalid e he))]
  dsimp only
  rw [loadFrom, if_pos (hvalid e he), find_jobId hdistinct he]

/-- A text that is no name leads to a row exactly when no other row matches it. -/
theorem resolveRefAgainst_eq_iff {ref : String} (hnodup : entries.Nodup) (he : e ∈ entries)
    (hmatch : matchesRef ref e = true) (hname : ref ∉ entries.map (·.name)) :
    resolveRefAgainst entries ref = (some e, []) ↔
      ∀ o ∈ entries, matchesRef ref o = true → o = e := by
  have hnone : entries.filter (·.name = ref) = [] := by
    refine List.filter_eq_nil_iff.mpr fun o ho heq => hname ?_
    exact List.mem_map.mpr ⟨o, ho, of_decide_eq_true heq⟩
  have hmem : e ∈ entries.filter (matchesRef ref) := List.mem_filter.mpr ⟨he, hmatch⟩
  rw [← countP_eq_one_iff hnodup he hmatch, List.countP_eq_length_filter, resolveRefAgainst, hnone]
  simp only [List.argmax_nil]
  constructor
  · intro h
    split at h
    · rename_i found hfound
      rw [hfound]
      rfl
    · cases h
  · intro h
    obtain ⟨found, hfound⟩ := List.length_eq_one_iff.mp h
    rw [hfound, List.mem_singleton] at hmem
    rw [hfound, hmem]

include hdistinct hvalid in
/-- A suffix of an id that is no name leads to its row exactly when it is the id or no other row
matches it. -/
theorem resolveRef_suffixOf (center : String) (he : e ∈ entries) {width : Nat} (hpos : 0 < width)
    (hname : suffixOf e.jobId width ∉ entries.map (·.name)) :
    resolveRef center entries (suffixOf e.jobId width) = (some e, []) ↔
      suffixOf e.jobId width = e.jobId ∨
        ∀ o ∈ entries, matchesRef (suffixOf e.jobId width) o = true → o = e := by
  have hmatch : matchesRef (suffixOf e.jobId width) e = true := by
    rw [matchesRef, endsWith_suffixOf, Bool.or_true]
  unfold resolveRef
  rw [scopeRef_idText center (idText_suffixOf (idText_of_valid (hvalid e he)) hpos)]
  dsimp only
  rw [loadFrom, if_pos (validJobId_suffixOf (hvalid e he) hpos)]
  cases hfind : entries.find? (·.jobId = suffixOf e.jobId width) with
  | some o =>
    -- the suffix is the id of a row, which matches it
    have hid : o.jobId = suffixOf e.jobId width := by simpa using List.find?_some hfind
    have ho : o ∈ entries := List.mem_of_find?_eq_some hfind
    have hown : matchesRef (suffixOf e.jobId width) o = true := by
      rw [matchesRef, ← hid, startsWith, List.isPrefixOf_iff_prefix.mpr (List.prefix_refl _),
        Bool.true_or]
    constructor
    · intro h
      obtain rfl : o = e := by simpa using h
      exact .inl hid.symm
    · rintro (heq | hunique)
      · rw [List.inj_on_of_nodup_map hdistinct ho he (hid.trans heq)]
      · rw [hunique o ho hown]
  | none =>
    have hne : suffixOf e.jobId width ≠ e.jobId := fun heq => by
      simpa [heq] using List.find?_eq_none.mp hfind e he
    rw [resolveRefAgainst_eq_iff (hdistinct.of_map _) he hmatch hname, or_iff_right hne]

end

/-! ## The references of a registry -/

/-- A reference that is as short as the code allows: the id, or a suffix of the minimum length that
is no name; and no shorter suffix of that kind leads to the row. -/
structure ShortestRef (center : String) (entries : List JobEntry) (minimum : Int) (e : JobEntry)
    (ref : String) : Prop where
  leads : resolveRef center entries ref = (some e, [])
  shape : ref = e.jobId ∨ ∃ width : Nat, minimum ≤ width ∧ ref = suffixOf e.jobId width ∧
    ref ∉ entries.map (·.name)
  least : ∀ width : Nat, minimum ≤ width → suffixOf e.jobId width ∉ entries.map (·.name) →
    resolveRef center entries (suffixOf e.jobId width) = (some e, []) →
      ref.toList.length ≤ (suffixOf e.jobId width).toList.length

/-- A proper suffix that leads to its row is safe. -/
theorem safeRef_of_leads {center : String} {entries : List JobEntry}
    (hdistinct : (entries.map (·.jobId)).Nodup)
    (hvalid : ∀ e ∈ entries, validJobId e.jobId = true) {e : JobEntry} (he : e ∈ entries) {width : Nat}
    (hpos : 0 < width) (hlt : width < e.jobId.toList.length)
    (hname : suffixOf e.jobId width ∉ entries.map (·.name))
    (hleads : resolveRef center entries (suffixOf e.jobId width) = (some e, [])) :
    safeRef (entries.map fun e => (e.jobId, e.name)) e.jobId (suffixOf e.jobId width) = true := by
  have hne : suffixOf e.jobId width ≠ e.jobId := by
    intro heq
    have hlength := length_suffixOf e.jobId width
    rw [heq] at hlength
    omega
  have hunique := ((resolveRef_suffixOf hdistinct hvalid center he hpos hname).mp hleads).resolve_left hne
  exact (safeRef_iff hdistinct hvalid he (endsWith_suffixOf _ _)).mpr ⟨hname, hunique⟩

theorem shortestRef_compactRef (center : String) {entries : List JobEntry} {minimum : Int}
    (hdistinct : (entries.map (·.jobId)).Nodup)
    (hvalid : ∀ e ∈ entries, validJobId e.jobId = true) (hmin : ¬ minimum < 1) {e : JobEntry}
    (he : e ∈ entries) : ShortestRef center entries minimum e
      (compactRef (entries.map fun e => (e.jobId, e.name)) minimum.toNat e.jobId) := by
  have hleast : ∀ width : Nat, minimum ≤ width → width < e.jobId.toList.length →
      suffixOf e.jobId width ∉ entries.map (·.name) →
        resolveRef center entries (suffixOf e.jobId width) = (some e, []) →
          safeRef (entries.map fun e => (e.jobId, e.name)) e.jobId (suffixOf e.jobId width) = true :=
    fun width hwidth hlt => safeRef_of_leads hdistinct hvalid he (by omega) hlt
  unfold compactRef
  split
  · rename_i width hfind
    obtain ⟨hsafe, hrange, hbefore⟩ := List.find?_range'_eq_some.mp hfind
    obtain ⟨hwidth, hlen⟩ := List.mem_range'_1.mp hrange
    obtain ⟨hname, hunique⟩ := (safeRef_iff hdistinct hvalid he (endsWith_suffixOf _ _)).mp hsafe
    refine ⟨?_, .inr ⟨width, by omega, rfl, hname⟩, fun other hother honame hleads => ?_⟩
    · exact (resolveRef_suffixOf hdistinct hvalid center he (by omega) hname).mpr (.inr hunique)
    · rw [length_suffixOf, length_suffixOf]
      by_contra hshort
      have hunsafe := hbefore other (by omega) (by omega)
      rw [hleast other hother (by omega) honame hleads] at hunsafe
      cases hunsafe
  · rename_i hfind
    refine ⟨resolveRef_jobId hdistinct hvalid center he, .inl rfl, fun other hother honame hleads => ?_⟩
    rw [length_suffixOf]
    by_contra hshort
    have hrange : other ∈ List.range' minimum.toNat (e.jobId.toList.length + 1 - minimum.toNat) :=
      List.mem_range'_1.mpr ⟨by omega, by omega⟩
    have hunsafe := List.find?_eq_none.mp hfind other hrange
    exact hunsafe (hleast other hother (by omega) honame hleads)

/-- Every reference leads to its job, no two jobs share one, and each is the shortest suffix of the
minimum length that is no name and leads to its job, or else the id. -/
theorem compact_refs_unambiguous (center : String) {entries : List JobEntry} {minimum : Int}
    {refs : Dict String} (hdistinct : (entries.map (·.jobId)).Nodup)
    (hvalid : ∀ e ∈ entries, validJobId e.jobId = true)
    (h : compactJobRefs entries minimum = .ok refs) :
    refs.map Prod.fst = entries.map (·.jobId) ∧ (refs.map Prod.snd).Nodup ∧
      ∀ e ∈ entries, ∃ ref, (e.jobId, ref) ∈ refs ∧
        ShortestRef center entries minimum e ref := by
  unfold compactJobRefs compactRefs at h
  split at h
  · cases h
  · rename_i hmin
    obtain rfl := Except.ok.inj h
    have hshortest := fun e he => shortestRef_compactRef center hdistinct hvalid hmin (e := e) he
    refine ⟨by rw [List.map_map, List.map_map]; rfl, ?_, fun e he => ⟨_, ?_, hshortest e he⟩⟩
    · rw [List.map_map, List.map_map]
      refine List.Nodup.map_on (fun e he o ho heq => ?_) (hdistinct.of_map _)
      have hleads := (hshortest e he).leads
      have hsame : resolveRef center entries (compactRef (entries.map fun e => (e.jobId, e.name))
          minimum.toNat e.jobId) = (some o, []) :=
        (congrArg (resolveRef center entries) heq).trans (hshortest o ho).leads
      simpa using hleads.symm.trans hsame
    · rw [List.map_map]
      exact List.mem_map_of_mem he

/-- The name of the only job is the end of its id. -/
def namedBySuffix : JobEntry := { JobEntry.sample "20240101-abcd" with name := "abcd" }

/-- The short reference leads to the job, and yet a longer one is assigned. -/
theorem named_suffix_skipped :
    resolveRef "lab" [namedBySuffix] "abcd" = (some namedBySuffix, []) ∧
      compactJobRefs [namedBySuffix] 4 = .ok [("20240101-abcd", "-abcd")] := by
  constructor
  · decide +kernel
  · decide +kernel

/-- Two jobs whose ids end in the same characters. -/
def sameEnds : List JobEntry := [.sample "20240101-abcd", .sample "20240102-abcd"]

theorem compact_refs_unambiguous_sample :
    ∃ ref, ("20240101-abcd", ref) ∈
        ([("20240101-abcd", "1-abcd"), ("20240102-abcd", "2-abcd")] : Dict String) ∧
      ShortestRef "lab" sameEnds 4 (.sample "20240101-abcd") ref := by
  have hdistinct : (sameEnds.map (·.jobId)).Nodup := by decide
  have hvalid : ∀ e ∈ sameEnds, validJobId e.jobId = true := by decide +kernel
  have hrefs : compactJobRefs sameEnds 4 =
      .ok [("20240101-abcd", "1-abcd"), ("20240102-abcd", "2-abcd")] := by decide +kernel
  exact (compact_refs_unambiguous "lab" hdistinct hvalid hrefs).2.2 _ List.mem_cons_self

end Dt.Jobs
