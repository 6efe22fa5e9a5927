import Dt.Layout.Stores
import Dt.Lib.Fallible
import Dt.Operations.Event
import Dt.Submission.Retry

/-!
# Generated identifiers

A job id is the minute of its submission, a safe form of the name its user gave, and a random token. A retry asks
under the id of the attempt and its ordinal. A name is any text, also one that came from bytes that are no UTF-8:
these are halves of surrogate pairs, and only the digest of a long name asks for an encoding of them.
-/

namespace Dt.Submission

open Dt.Lib Dt.Jobs Dt.Layout
open Dt.Operations (Moment padded)
open Dt.Submission.Retry (retryRequestId)

/-- A character of a text: one of Unicode, or half of a surrogate pair that stands alone. -/
inductive PyChar where
  | scalar (c : Char)
  | half (n : Fin 0x800)

/-- The encoding of a character. -/
def PyChar.encoded : PyChar → Option Char
  | .scalar c => some c
  | .half _ => none

/-- The character that `NAME_RE` leaves. -/
def PyChar.kept : PyChar → Option Char
  | .scalar c => if isNameChar c then some c else none
  | .half _ => none

/-- `hashlib.sha256(..).hexdigest()` -/
structure HexDigest where
  digest : List Char → List Char
  hlength : ∀ text, (digest text).length = 64
  hhex : ∀ text, ∀ c ∈ digest text, isHex c = true

/-- `secrets.token_hex(8)` -/
structure HexToken where
  text : List Char
  hlength : text.length = 16
  hhex : ∀ c ∈ text, isHex c = true

/-- `NAME_RE.sub("-", name)`; the flag says that a dash was written for the current run. -/
def textSub : Bool → List PyChar → List Char
  | _, [] => []
  | inRun, c :: cs =>
    match c.kept with
    | some d => d :: textSub false cs
    | none => if inRun then textSub true cs else '-' :: textSub true cs

/-- `NAME_RE.sub("-", name).strip("-_")` -/
def cleanName (name : List PyChar) : List Char := rstripDashes ((textSub false name).dropWhile isDash)

/-- `sanitize_name` on any text; none when the text has to be encoded and cannot be. -/
def sanitizeText (sha256 : HexDigest) (name : List PyChar) : Option (List Char) :=
  let clean := cleanName name
  if clean = [] then some "job".toList
  else if clean.length ≤ maxSafeNameLength then some clean
  else
    (name.mapM PyChar.encoded).map fun text =>
      let digest := (sha256.digest text).take safeNameDigestLength
      let short := rstripDashes (clean.take (maxSafeNameLength - safeNameDigestLength - 1))
      (if short = [] then "job".toList else short) ++ '-' :: digest

/-- `strftime("%Y%m%d-%H%M")` -/
def stamp (now : Moment) : List Char :=
  padded 4 now.year ++ padded 2 now.month ++ padded 2 now.day ++ '-' :: (padded 2 now.hour ++ padded 2 now.minute)

/-- `new_job_id` -/
def newJobId (sha256 : HexDigest) (now : Moment) (token : HexToken) (name : List PyChar) : Option JobId :=
  (sanitizeText sha256 name).map fun clean =>
    String.ofList (stamp now ++ '_' :: (clean ++ '_' :: token.text))

/-! ## Safe names -/

/-- A name that needs no change. -/
structure SafeName (s : List Char) : Prop where
  chars : ∀ c ∈ s, isNameChar c = true
  head : ∃ c ∈ s.head?, isDash c = false
  last : ∃ c ∈ s.getLast?, isDash c = false
  short : s.length ≤ maxSafeNameLength

theorem textSub_chars (inRun : Bool) (name : List PyChar) : ∀ c ∈ textSub inRun name, isNameChar c = true := by
  induction name generalizing inRun with
  | nil => simp [textSub]
  | cons d cs ih =>
    rw [textSub]
    split
    · rename_i c hc
      refine List.forall_mem_cons.mpr ⟨?_, ih false⟩
      cases d with
      | scalar d =>
        obtain ⟨hd, heq⟩ := (Option.ite_none_right_eq_some ..).mp hc
        rwa [← Option.some.inj heq]
      | half n => cases hc
    · split
      · exact ih true
      · exact List.forall_mem_cons.mpr ⟨by decide, ih true⟩

/-- The substitution leaves what is safe. -/
theorem textSub_scalar (name : List Char) (inRun : Bool) :
    textSub inRun (name.map .scalar) = nameSub inRun name := by
  induction name generalizing inRun with
  | nil => rfl
  | cons c cs ih =>
    rw [List.map_cons, textSub, nameSub, PyChar.kept]
    by_cases hc : isNameChar c = true
    · rw [if_pos hc, if_pos hc]
      dsimp only
      rw [ih]
    · rw [if_neg hc, if_neg hc]
      dsimp only
      rw [ih]

theorem cleanName_chars (name : List PyChar) : ∀ c ∈ cleanName name, isNameChar c = true :=
  fun c hc => textSub_chars _ name c ((List.dropWhile_suffix _).subset ((List.rdropWhile_prefix _ _).subset hc))

/-- A nonempty text without dashes at its start keeps its first character when its end is trimmed. -/
theorem head_rstripDashes {s : List Char} (h : ∃ c ∈ s.head?, isDash c = false) :
    rstripDashes s ≠ [] ∧ ∃ c ∈ (rstripDashes s).head?, isDash c = false := by
  obtain ⟨c, hc, hdash⟩ := h
  cases s with
  | nil => cases hc
  | cons d s =>
    obtain rfl : d = c := by simpa using hc
    rw [rstripDashes_cons hdash]
    exact ⟨List.cons_ne_nil _ _, d, rfl, hdash⟩

theorem last_rstripDashes {s : List Char} (h : rstripDashes s ≠ []) :
    ∃ c ∈ (rstripDashes s).getLast?, isDash c = false := by
  refine ⟨(rstripDashes s).getLast h, List.getLast?_eq_some_getLast h, ?_⟩
  exact Bool.eq_false_iff.mpr (List.rdropWhile_last_not isDash s h)

theorem head_dropDashes {s : List Char} (h : s.dropWhile isDash ≠ []) :
    ∃ c ∈ (s.dropWhile isDash).head?, isDash c = false := by
  exact ⟨(s.dropWhile isDash).head h, List.head?_eq_some_head h, List.head_dropWhile_not isDash h⟩

/-- A clean name has no dash at its ends. -/
theorem cleanName_ends {name : List PyChar} (h : cleanName name ≠ []) :
    (∃ c ∈ (cleanName name).head?, isDash c = false) ∧ ∃ c ∈ (cleanName name).getLast?, isDash c = false := by
  have hdrop : (textSub false name).dropWhile isDash ≠ [] := by
    intro hnil
    unfold cleanName at h
    rw [hnil] at h
    exact h rfl
  exact ⟨(head_rstripDashes (head_dropDashes hdrop)).2, last_rstripDashes h⟩

section

variable (sha256 : HexDigest)

theorem isNameChar_of_isHex {c : Char} (h : isHex c = true) : isNameChar c = true ∧ isDash c = false := by
  have halnum : isAlnum c = true := by
    unfold isHex at h
    unfold isAlnum
    rcases Bool.or_eq_true_iff.mp h with h | h
    · simp [h]
    · rw [Bool.and_eq_true, decide_eq_true_eq, decide_eq_true_eq] at h
      have hz : c ≤ 'z' := h.2.trans (by decide)
      simp [h.1, hz]
  exact ⟨by simp [isNameChar, halnum], isDash_of_isAlnum halnum⟩

/-- A long name ends with a part of its digest. -/
theorem safeName_digest {clean : List Char} (hchars : ∀ c ∈ clean, isNameChar c = true)
    (hhead : ∃ c ∈ clean.head?, isDash c = false) (text : List Char) :
    SafeName (rstripDashes (clean.take (maxSafeNameLength - safeNameDigestLength - 1)) ++
      '-' :: (sha256.digest text).take safeNameDigestLength) := by
  have htake : ∃ c ∈ (clean.take (maxSafeNameLength - safeNameDigestLength - 1)).head?, isDash c = false := by
    obtain ⟨c, hc, hdash⟩ := hhead
    cases clean with
    | nil => cases hc
    | cons d clean => exact ⟨c, hc, hdash⟩
  obtain ⟨hne, hshort⟩ := head_rstripDashes htake
  have hstem : rstripDashes (clean.take (maxSafeNameLength - safeNameDigestLength - 1)) <+:
      clean.take (maxSafeNameLength - safeNameDigestLength - 1) := List.rdropWhile_prefix _ _
  generalize rstripDashes (clean.take (maxSafeNameLength - safeNameDigestLength - 1)) = short at *
  have hdigest : ((sha256.digest text).take safeNameDigestLength).length = safeNameDigestLength := by
    rw [List.length_take, sha256.hlength]
    rfl
  have hhex : ∀ c ∈ (sha256.digest text).take safeNameDigestLength, isHex c = true :=
    fun c hc => sha256.hhex text c (List.mem_of_mem_take hc)
  generalize (sha256.digest text).take safeNameDigestLength = digest at *
  refine ⟨fun c hc => ?_, ?_, ?_, ?_⟩
  · rcases List.mem_append.mp hc with hc | hc
    · exact hchars c (List.mem_of_mem_take (hstem.subset hc))
    · rcases List.mem_cons.mp hc with rfl | hc
      · decide
      · exact (isNameChar_of_isHex (hhex c hc)).1
  · rwa [List.head?_append_of_ne_nil _ hne]
  · have hdne : digest ≠ [] := by
      rintro rfl
      cases hdigest
    refine ⟨digest.getLast hdne, ?_, (isNameChar_of_isHex (hhex _ (List.getLast_mem hdne))).2⟩
    rw [← List.singleton_append, ← List.append_assoc, List.getLast?_append_of_ne_nil _ hdne]
    exact List.getLast?_eq_some_getLast hdne
  · have hlen := hstem.length_le
    rw [List.length_append, List.length_cons, hdigest]
    have := List.length_take_le (maxSafeNameLength - safeNameDigestLength - 1) clean
    unfold maxSafeNameLength safeNameDigestLength at *
    omega

theorem safeName_job : SafeName "job".toList := by
  have hjob : "job".toList = ['j', 'o', 'b'] := rfl
  rw [hjob]
  exact ⟨List.all_eq_true.mp (by decide), ⟨'j', rfl, by decide⟩, ⟨'b', rfl, by decide⟩, by decide⟩

/-- What `sanitize_name` gives is safe. -/
theorem safeName_sanitizeText {name : List PyChar} {clean : List Char} (h : sanitizeText sha256 name = some clean) :
    SafeName clean := by
  unfold sanitizeText at h
  dsimp only at h
  split at h
  · obtain rfl := Option.some.inj h
    exact safeName_job
  · rename_i hne
    obtain ⟨hhead, hlast⟩ := cleanName_ends hne
    split at h
    · rename_i hlen
      obtain rfl := Option.some.inj h
      exact ⟨cleanName_chars name, hhead, hlast, hlen⟩
    · obtain ⟨text, -, rfl⟩ := Option.map_eq_some_iff.mp h
      have hsafe := safeName_digest sha256 (cleanName_chars name) hhead text
      split
      · rename_i hnil
        exact absurd hnil (head_rstripDashes (by
          obtain ⟨c, hc, hdash⟩ := hhead
          cases hclean : cleanName name with
          | nil => exact absurd hclean hne
          | cons d clean =>
            rw [hclean] at hc
            exact ⟨c, hc, hdash⟩)).1
      · exact hsafe

/-- And is left as it is. -/
theorem sanitizeText_safe {s : List Char} (h : SafeName s) : sanitizeText sha256 (s.map .scalar) = some s := by
  have hsub : textSub false (s.map .scalar) = s := by
    rw [textSub_scalar]
    by_cases hnil : s = []
    · rw [hnil]
      rfl
    · have happ : nameSub false (s ++ []) = s ++ nameSub false [] := nameSub_append h.chars hnil false
      simpa [nameSub] using happ
  obtain ⟨c, hc, hdash⟩ := h.head
  have hdrop : s.dropWhile isDash = s := by
    cases s with
    | nil => rfl
    | cons d s =>
      obtain rfl : d = c := by simpa using hc
      exact List.dropWhile_cons_of_neg (by simp [hdash])
  have hstrip : rstripDashes s = s := by
    refine List.rdropWhile_eq_self_iff.mpr fun hne => ?_
    obtain ⟨d, hd, hdash⟩ := h.last
    obtain rfl : s.getLast hne = d := by
      rw [List.getLast?_eq_some_getLast hne] at hd
      exact Option.some.inj hd
    simp [hdash]
  have hclean : cleanName (s.map .scalar) = s := by rw [cleanName, hsub, hdrop, hstrip]
  have hne : s ≠ [] := by
    rintro rfl
    cases hc
  unfold sanitizeText
  rw [hclean, if_neg hne, if_pos h.short]

/-- On a text of characters it is the `sanitize_name` of the stores. -/
theorem sanitizeText_scalar (name : List Char) :
    sanitizeText sha256 (name.map .scalar) = some (sanitizeName sha256.digest name) := by
  have hencode : (name.map PyChar.scalar).mapM PyChar.encoded = some name := by
    induction name with
    | nil => rfl
    | cons c name ih => simp [List.mapM_cons, PyChar.encoded, ih]
  unfold sanitizeText sanitizeName cleanName
  rw [textSub_scalar, hencode]
  dsimp only
  split
  · rfl
  · split
    · rfl
    · rfl

/-- A name is refused exactly when it is long and cannot be encoded. -/
theorem sanitizeText_isSome (name : List PyChar) : (∃ clean, sanitizeText sha256 name = some clean) ↔
    (cleanName name).length ≤ maxSafeNameLength ∨ ∀ c ∈ name, c.encoded.isSome = true := by
  unfold sanitizeText
  dsimp only
  split
  · rename_i hnil
    exact iff_of_true ⟨_, rfl⟩ (.inl (by rw [hnil]; decide))
  · split
    · rename_i hlen
      exact iff_of_true ⟨_, rfl⟩ (.inl hlen)
    · rename_i hlen
      rw [or_iff_right hlen, ← mapM_isSome]
      simp only [Option.map_eq_some_iff]
      constructor
      · rintro ⟨clean, text, htext, -⟩
        exact ⟨text, htext⟩
      · rintro ⟨text, htext⟩
        exact ⟨_, text, htext, rfl⟩

end

/-! ## Ids -/

theorem padded_digits (width n : Nat) : ∀ c ∈ padded width n, isDigit c = true := by
  intro c hc
  rw [padded, List.leftpad, List.mem_append] at hc
  rcases hc with hc | hc
  · rw [List.eq_of_mem_replicate hc]
    decide
  · exact isDigit_of_charIsDigit (Nat.isDigit_of_mem_toDigits (by decide) (by decide) hc)

theorem length_padded {width n : Nat} (hwidth : 0 < width) (h : n < 10 ^ width) : (padded width n).length = width := by
  have hlen := (Nat.length_toDigits_le_iff (by decide) hwidth).mpr h
  rw [padded, List.length_leftpad]
  omega

theorem length_stamp (now : Moment) : (stamp now).length = 13 := by
  have hyear : (padded 4 now.year).length = 4 := length_padded (by decide) now.year.isLt
  have hmonth : (padded 2 now.month).length = 2 := length_padded (by decide) (now.month.isLt.trans (by decide))
  have hday : (padded 2 now.day).length = 2 := length_padded (by decide) (now.day.isLt.trans (by decide))
  have hhour : (padded 2 now.hour).length = 2 := length_padded (by decide) (now.hour.isLt.trans (by decide))
  have hminute : (padded 2 now.minute).length = 2 := length_padded (by decide) (now.minute.isLt.trans (by decide))
  simp only [stamp, List.length_append, List.length_cons, hyear, hmonth, hday, hhour, hminute]

theorem stamp_chars (now : Moment) : ∀ c ∈ stamp now, isNameChar c = true := by
  have hpadded : ∀ width n, ∀ c ∈ padded width n, isNameChar c = true := by
    intro width n c hc
    simp [isNameChar, isAlnum, padded_digits width n c hc]
  intro c hc
  simp only [stamp, List.mem_append, List.mem_cons] at hc
  rcases hc with ((hc | hc) | hc) | rfl | hc | hc
  · exact hpadded _ _ c hc
  · exact hpadded _ _ c hc
  · exact hpadded _ _ c hc
  · decide
  · exact hpadded _ _ c hc
  · exact hpadded _ _ c hc

/-- An id starts with the year. -/
theorem stamp_head (now : Moment) : ∃ c cs, stamp now = c :: cs ∧ isAlnum c = true := by
  have hyear : (padded 4 now.year).length = 4 := length_padded (by decide) now.year.isLt
  cases hpad : padded 4 now.year with
  | nil =>
    rw [hpad] at hyear
    cases hyear
  | cons c cs =>
    have hdigit := padded_digits 4 now.year c (by rw [hpad]; exact List.mem_cons_self)
    refine ⟨c, _, by rw [stamp, hpad]; rfl, by simp [isAlnum, hdigit]⟩

section

variable {now : Moment} {token : HexToken} {clean : List Char}

def idText (now : Moment) (token : HexToken) (clean : List Char) : List Char :=
  stamp now ++ '_' :: (clean ++ '_' :: token.text)

theorem idText_chars (h : SafeName clean) : ∀ c ∈ idText now token clean, isNameChar c = true := by
  intro c hc
  simp only [idText, List.mem_append, List.mem_cons] at hc
  rcases hc with hc | rfl | hc | rfl | hc
  · exact stamp_chars now c hc
  · decide
  · exact h.chars c hc
  · decide
  · exact (isNameChar_of_isHex (token.hhex c hc)).1

theorem length_idText (h : SafeName clean) : (idText now token clean).length ≤ 95 := by
  have hclean : clean.length ≤ 64 := h.short
  simp only [idText, List.length_append, List.length_cons, length_stamp, token.hlength]
  omega

theorem validJobId_idText (h : SafeName clean) : validJobId (String.ofList (idText now token clean)) = true := by
  have hlen := @length_idText now token clean h
  obtain ⟨c, cs, hstamp, -⟩ := stamp_head now
  have hpos : 1 ≤ (idText now token clean).length := by
    rw [idText, hstamp]
    exact Nat.succ_le_succ (Nat.zero_le _)
  simp only [validJobId, classRun, String.toList_ofList, Bool.and_eq_true, decide_eq_true_eq, List.all_eq_true]
  refine ⟨⟨hpos, by omega⟩, fun c hc => ?_⟩
  have := idText_chars h c hc
  simpa [isNameChar] using this

/-- Every admitted ordinal has one or two digits. -/
theorem ordinal_text : ∀ n : Fin 11, (toString ((n : Nat) : Int)).toList.all isDigit = true ∧
    (toString ((n : Nat) : Int)).toList.length ≤ 2 := by
  decide +kernel

/-- The request id of every retry is one. -/
def RetryIdsFit (id : JobId) : Prop :=
  ∀ e : JobEntry, e.jobId = id → 0 ≤ e.retryCount + 1 → e.retryCount + 1 ≤ maxRetryLimit →
    validRequestId (retryRequestId e) = true

theorem retryIdsFit_idText (h : SafeName clean) : RetryIdsFit (String.ofList (idText now token clean)) := by
  intro e hid hlow hhigh
  obtain ⟨n, hn⟩ := Int.eq_ofNat_of_zero_le hlow
  have hbound : n < 11 := by
    rw [hn] at hhigh
    unfold maxRetryLimit at hhigh
    omega
  obtain ⟨hdigits, hshort⟩ := ordinal_text ⟨n, hbound⟩
  have hmark : ":retry:".toList.all (fun d => isAlnum d || ['.', '_', ':', '@', '+', '-'].contains d) = true := by
    decide +kernel
  have hlen := @length_idText now token clean h
  have hchars := @idText_chars now token clean h
  obtain ⟨c, cs, hstamp, hc⟩ := stamp_head now
  obtain ⟨rest, hrest⟩ : ∃ rest, idText now token clean = c :: rest := ⟨_, by rw [idText, hstamp]; rfl⟩
  have htext : (retryRequestId e).toList =
      c :: (rest ++ (":retry:".toList ++ (toString (n : Int)).toList)) := by
    rw [retryRequestId, hid, hn]
    simp [hrest]
  rw [hrest] at hlen hchars
  unfold validRequestId
  rw [htext]
  dsimp only
  simp only [hc, classRun, Bool.true_and, Bool.and_eq_true, decide_eq_true_eq, List.all_append, List.length_append]
  have hseven : ":retry:".toList.length = 7 := by decide +kernel
  refine ⟨⟨Nat.zero_le _, ?_⟩, ?_, hmark, ?_⟩
  · rw [List.length_cons] at hlen
    rw [hseven]
    dsimp only at hshort
    omega
  · refine List.all_eq_true.mpr fun d hd => ?_
    have := hchars d (List.mem_cons_of_mem c hd)
    simp only [isNameChar, Bool.or_eq_true, decide_eq_true_eq] at this
    rcases this with (halnum | rfl) | rfl
    · simp [halnum]
    · decide
    · decide
  · refine List.all_eq_true.mpr fun d hd => ?_
    have := List.all_eq_true.mp hdigits d hd
    simp [isAlnum, this]

end

/-- The ids that are made from a name are those that their readers take, whenever the name gets through. -/
theorem generated_ids (sha256 : HexDigest) (name : List PyChar) :
    (∃ clean, sanitizeText sha256 name = some clean ∧ clean.length ≤ maxSafeNameLength ∧
      sanitizeText sha256 (clean.map .scalar) = some clean ∧
      ∀ now token, ∃ id, newJobId sha256 now token name = some id ∧ validJobId id = true ∧ RetryIdsFit id) ↔
      (cleanName name).length ≤ maxSafeNameLength ∨ ∀ c ∈ name, c.encoded.isSome = true := by
  rw [← sanitizeText_isSome sha256]
  constructor
  · rintro ⟨clean, hclean, -⟩
    exact ⟨clean, hclean⟩
  · rintro ⟨clean, hclean⟩
    have hsafe := safeName_sanitizeText sha256 hclean
    refine ⟨clean, hclean, hsafe.short, sanitizeText_safe sha256 hsafe, fun now token => ?_⟩
    exact ⟨_, by rw [newJobId, hclean]; rfl, validJobId_idText hsafe, retryIdsFit_idText hsafe⟩

def zeroDigest : HexDigest where
  digest := fun _ => List.replicate 64 '0'
  hlength := fun _ => List.length_replicate
  hhex := fun _ c hc => by
    rw [List.eq_of_mem_replicate hc]
    decide

/-- A long name with a byte that is no UTF-8. -/
def brokenName : List PyChar := .half 0x4ff :: List.replicate 65 (.scalar 'a')

theorem broken_name : ¬ ∀ (sha256 : HexDigest) (name : List PyChar), ∃ clean,
    sanitizeText sha256 name = some clean ∧ clean.length ≤ maxSafeNameLength ∧
      sanitizeText sha256 (clean.map .scalar) = some clean ∧
      ∀ now token, ∃ id, newJobId sha256 now token name = some id ∧ validJobId id = true ∧ RetryIdsFit id := by
  intro h
  obtain ⟨clean, hclean, -⟩ := h zeroDigest brokenName
  have hnone : sanitizeText zeroDigest brokenName = none := by decide +kernel
  exact absurd (hclean.symm.trans hnone) (Option.some_ne_none clean)

end Dt.Submission
