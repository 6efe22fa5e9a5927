import Mathlib
import Dt.Lib.Json
import Dt.Lib.Base64
import Dt.Jobs.Validate

/-!
# Rows and cursors

A query lists the jobs of a center page by page. A row is a JSON object; its key is the creation
time and the id of the job, and the rows of a query are listed by falling keys. The cursor of a page
holds the key of its last row together with a digest of the filter, as a JSON text in base64.
-/

namespace Dt.Query

open Dt.Lib Dt.Jobs

variable {F : Type} [FloatText F]

/-- The message of a `QueryError`. -/
abbrev QueryError := String

/-- `dict[str, Any]` -/
abbrev Row (F : Type) := List (String × Json F)

def maxLimit : Nat := 500
def maxResponseBytes : Nat := 4 * 1024 * 1024
def maxCursorLength : Nat := 2048

/-- `row.get(name)`; a missing field and a null are both `None`. -/
def Row.get (row : Row F) (name : String) : Json F := (row.lookup name).getD .null

/-- `as_number` -/
def asNumber : Json F → Option F
  | .int n => FloatText.ofInt n
  | .float x => some x
  | _ => none

/-- `_row_timestamp` -/
def rowTimestamp (row : Row F) (field : String) : F :=
  ((asNumber (Row.get row field)).or (asNumber (Row.get row "created_at"))).getD FloatText.zero

/-- Python's truth of a value. -/
def truth : Json F → Bool
  | .null => false
  | .bool b => b
  | .int n => n ≠ 0
  | .float x => x ≠ FloatText.zero
  | .nonfinite => true
  | .str s => s ≠ ""
  | .arr items => !items.isEmpty
  | .obj pairs => !pairs.isEmpty

/-- `str(value)`; a list or an object, which is no field that a query reads, gets its JSON text. -/
def pyStr : Json F → String
  | .null => "None"
  | .bool true => "True"
  | .bool false => "False"
  | .str s => s
  | .nonfinite => "nan"
  | v => String.ofList (v.render {})

/-- The key of a row: a time and an id, compared in this order. -/
abbrev Key (F : Type) := F ×ₗ String

/-- `row_key` -/
def rowKey (row : Row F) (field : String) : Key F :=
  toLex (rowTimestamp row field,
    if truth (Row.get row "job_id") then pyStr (Row.get row "job_id") else "")

/-- `ORDER_FIELD`: the key of every query is immutable. -/
def orderField : String := "created_at"

/-! ## The codec -/

/-- The object of a cursor. -/
def cursorObject (key : Key F) (digest order : String) : Row F :=
  [("d", .str digest), ("j", .str (ofLex key).2), ("o", .str order), ("t", .float (ofLex key).1),
    ("v", .int 1)]

/-- `_encode_cursor` -/
def encodeCursor (key : Key F) (digest order : String) : String :=
  let payload := (Json.obj (cursorObject key digest order)).render .compact
  String.ofList (stripPadding (urlsafeEncode (utf8Bytes (String.ofList payload))))

/-- `value == n` -/
def equalsInt (v : Json F) (n : Int) : Bool :=
  match v with
  | .int m => m = n
  | .bool b => (if b then 1 else 0) = n
  | .float x => some x = FloatText.ofInt n
  | _ => false

/-- `_DIGEST_RE` -/
def isDigest (s : String) : Bool := hexOf 64 s

def invalidCursor : QueryError := "invalid ps cursor"

def wrongCursor : QueryError := "ps cursor does not match this query"

def cursorKeys : List String := ["d", "j", "o", "t", "v"]

/-- The object a cursor holds. -/
def cursorPayload (value : String) : Option (Row F) := do
  let bytes ← strictDecode (addPadding value.toList)
  let text ← utf8Text bytes
  match ← loads text.toList with
  | .obj payload => some payload
  | _ => none

/-- `_decode_cursor` -/
def decodeCursor (value digest order : String) : Except QueryError (Key F) :=
  if value = "" || maxCursorLength < value.length then .error invalidCursor
  else match (cursorPayload value : Option (Row F)) with
  | none => .error invalidCursor
  | some payload =>
    let keys := payload.map Prod.fst
    if !(keys ⊆ cursorKeys) || !(cursorKeys ⊆ keys) then .error invalidCursor
    else match Row.get payload "d", Row.get payload "j", Row.get payload "o",
      asNumber (Row.get payload "t") with
    | .str d, .str j, .str o, some t =>
      if !equalsInt (Row.get payload "v") 1 || o ≠ order || d ≠ digest || !isDigest d || j = "" ||
          512 < j.length then .error wrongCursor
      else .ok (toLex (t, j))
    | _, _, _, _ => .error wrongCursor

/-! ## A cursor gives back what it was made from -/

theorem loads_cursorObject (key : Key F) (digest order : String) :
    loads ((Json.obj (cursorObject key digest order)).render .compact) =
      some (Json.obj (cursorObject key digest order)) := by
  refine loads_render_obj (by simp [cursorObject]) (by simp [cursorObject]) fun p hp => ?_
  simp only [cursorObject, List.mem_cons, List.not_mem_nil, or_false] at hp
  rcases hp with rfl | rfl | rfl | rfl | rfl
  · exact readsBack_str _
  · exact readsBack_str _
  · exact readsBack_str _
  · exact readsBack_float _
  · exact readsBack_one

theorem cursorPayload_encodeCursor (key : Key F) (digest order : String) :
    cursorPayload (encodeCursor key digest order) = some (cursorObject key digest order) := by
  unfold cursorPayload encodeCursor
  simp only [String.toList_ofList, addPadding_stripPadding,
    strictDecode_urlsafeEncode fun b hb => lt_of_mem_utf8Bytes hb, utf8Text_utf8Bytes,
    loads_cursorObject, Option.bind_eq_bind, Option.bind_some]

/-- A character that `json.dumps` writes as it is. -/
def Plain (c : Char) : Prop := escapeChar c = [c]

theorem plain_of_idChar {c : Char} (h : (isAlnum c || c = '_' || c = '-') = true) : Plain c := by
  simp only [isAlnum, isDigit, Bool.or_eq_true, Bool.and_eq_true, decide_eq_true_eq, Char.le_def,
    UInt32.le_iff_toNat_le] at h
  have hrange : (48 ≤ c.toNat ∧ c.toNat ≤ 57) ∨ (97 ≤ c.toNat ∧ c.toNat ≤ 122) ∨
      (65 ≤ c.toNat ∧ c.toNat ≤ 90) ∨ c.toNat = 95 ∨ c.toNat = 45 := by
    rcases h with (((h | h) | h) | rfl) | rfl
    · exact .inl h
    · exact .inr (.inl h)
    · exact .inr (.inr (.inl h))
    · exact .inr (.inr (.inr (.inl (by decide))))
    · exact .inr (.inr (.inr (.inr (by decide))))
  have hne : ∀ d : Char, (d.toNat < 45 ∨ d.toNat = 92) → c ≠ d := by
    rintro d hd rfl
    omega
  have hprint : 32 ≤ c.toNat ∧ c.toNat ≤ 126 := by omega
  simp only [Plain, escapeChar, hne '"' (by decide), hne '\\' (by decide), hne '\n' (by decide),
    hne '\r' (by decide), hne '\t' (by decide), hprint, if_false, and_self, if_true]
  rw [if_neg (by omega), if_neg (by omega)]

theorem length_renderString {s : String} (h : ∀ c ∈ s.toList, Plain c) :
    (renderString s).length = s.length + 2 := by
  have hflat : s.toList.flatMap escapeChar = s.toList := by
    rw [List.flatMap_congr (g := fun c => [c]) fun c hc => h c hc]
    simp
  simp [renderString, hflat, String.length_toList]

/-- The id of a job is written as it is and is never empty. -/
theorem length_validJobId {id : String} (h : validJobId id = true) :
    1 ≤ id.length ∧ id.length ≤ 240 ∧ ∀ c ∈ id.toList, Plain c := by
  simp only [validJobId, classRun, Bool.and_eq_true, decide_eq_true_eq, List.all_eq_true,
    String.length_toList] at h
  exact ⟨h.1.1, h.1.2, fun c hc => plain_of_idChar (h.2 c hc)⟩

theorem length_isDigest {digest : String} (h : isDigest digest = true) :
    digest.length = 64 ∧ ∀ c ∈ digest.toList, Plain c := by
  simp only [isDigest, hexOf, classRun, Bool.and_eq_true, decide_eq_true_eq, List.all_eq_true,
    String.length_toList] at h
  refine ⟨by omega, fun c hc => plain_of_idChar ?_⟩
  have hhex := h.2 c hc
  simp only [isHex, isAlnum, Bool.or_eq_true, Bool.and_eq_true, decide_eq_true_eq] at hhex ⊢
  rcases hhex with hc | hc
  · exact .inl (.inl (.inl (.inl hc)))
  · exact .inl (.inl (.inl (.inr ⟨hc.1, hc.2.trans (by decide)⟩)))

/-- A cursor of a job is short enough to be read. -/
theorem length_encodeCursor {key : Key F} (hid : validJobId (ofLex key).2 = true) {digest : String}
    (hdigest : isDigest digest = true) :
    (encodeCursor key digest orderField).length ≤ maxCursorLength := by
  obtain ⟨-, hidLen, hidPlain⟩ := length_validJobId hid
  obtain ⟨hdLen, hdPlain⟩ := length_isDigest hdigest
  have htime := FloatText.length_repr (ofLex key).1
  have horder : (renderString orderField).length = 12 := by decide
  have hkeys : ∀ k ∈ cursorKeys, (renderString k).length = 3 := by decide
  have hone : (Int.repr 1).toList.length = 1 := by decide
  have hpayload : ((Json.obj (cursorObject key digest orderField)).render .compact).length ≤ 380 := by
    simp [cursorObject, Json.render, renderPairs, Separators.compact, length_renderString hidPlain,
      length_renderString hdPlain, horder, hone, hkeys "d" (by decide), hkeys "j" (by decide),
      hkeys "o" (by decide), hkeys "t" (by decide), hkeys "v" (by decide)]
    omega
  have hbytes := length_utf8Bytes_le ((Json.obj (cursorObject key digest orderField)).render .compact)
  have htext := length_urlsafeEncode (utf8Bytes (String.ofList
    ((Json.obj (cursorObject key digest orderField)).render .compact)))
  have hstrip := ( List.rdropWhile_prefix (· = '=') (urlsafeEncode (utf8Bytes (String.ofList
    ((Json.obj (cursorObject key digest orderField)).render .compact))))).length_le
  have hlen : (encodeCursor key digest orderField).length = (stripPadding (urlsafeEncode
      (utf8Bytes (String.ofList ((Json.obj (cursorObject key digest orderField)).render
        .compact))))).length := by
    simp [encodeCursor]
  unfold stripPadding at hlen
  unfold maxCursorLength
  omega

theorem encodeCursor_ne_empty (key : Key F) (digest order : String) :
    encodeCursor key digest order ≠ "" := by
  intro hempty
  have hpayload := cursorPayload_encodeCursor key digest order
  rw [hempty] at hpayload
  have hnone : (cursorPayload "" : Option (Row F)) = none := by
    have htext : utf8Text [] = some "" := utf8Text_utf8Bytes ""
    have hload : (loads [] : Option (Json F)) = none := rfl
    simp [cursorPayload, addPadding, strictDecode, htext, hload]
  rw [hnone] at hpayload
  cases hpayload

/-- The cursor of a job gives back its key to the query it was made for, and to no other. -/
theorem decodeCursor_encodeCursor {key : Key F} (hid : validJobId (ofLex key).2 = true)
    {digest : String} (hdigest : isDigest digest = true) (digest' order : String) :
    decodeCursor (encodeCursor key digest orderField) digest' order =
      if digest' = digest ∧ order = orderField then .ok key else .error wrongCursor := by
  obtain ⟨hidPos, hidLen, -⟩ := length_validJobId hid
  have hne : (ofLex key).2 ≠ "" := by
    intro h
    rw [h] at hidPos
    exact absurd hidPos (by decide)
  have hgate : (encodeCursor key digest orderField = "" ||
      decide (maxCursorLength < (encodeCursor key digest orderField).length)) = false := by
    have hlen := length_encodeCursor hid hdigest
    simp [encodeCursor_ne_empty, hlen]
  have hkeys : (cursorObject key digest orderField).map Prod.fst = cursorKeys := rfl
  unfold decodeCursor
  rw [if_neg (by simp [hgate]), cursorPayload_encodeCursor]
  dsimp only
  rw [hkeys, if_neg (by simp)]
  have hlong : ¬ 512 < (ofLex key).2.length := by omega
  have hd : Row.get (cursorObject key digest orderField) "d" = .str digest := rfl
  have hj : Row.get (cursorObject key digest orderField) "j" = .str (ofLex key).2 := rfl
  have ho : Row.get (cursorObject key digest orderField) "o" = .str orderField := rfl
  have ht : Row.get (cursorObject key digest orderField) "t" = .float (ofLex key).1 := rfl
  have hv : Row.get (cursorObject key digest orderField) "v" = .int 1 := rfl
  rw [hd, hj, ho, ht, hv]
  simp only [asNumber, equalsInt, decide_true, Bool.not_true, Bool.false_or, hdigest, hne,
    decide_false, hlong, Bool.or_false]
  by_cases h : digest' = digest ∧ order = orderField
  · obtain ⟨rfl, rfl⟩ := h
    simp
  · have hwrong : (decide (orderField ≠ order) || decide (digest ≠ digest')) = true := by
      rw [not_and_or] at h
      rcases h with h | h
      · simp [Ne.symm h]
      · simp [Ne.symm h]
    rw [if_neg h, hwrong]
    rfl

end Dt.Query
