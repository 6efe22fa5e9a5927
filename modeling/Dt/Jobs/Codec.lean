import Dt.Jobs.Fields
import Dt.Jobs.Valid
import Dt.Lib.JsonIndent

/-!
# The file of a row

`encodeRegistryEntry` is the text that `save` writes for a row, and `decodeEntryResult` what a reader
makes of it. Reading gives the row in its normal form: diagnostics bounded, the private environment by
rising names, sentinels of early launchers dropped, what legacy rows leave out filled in. A row in
normal form is read as it is, and its file is written again as it was.

A document whose attributes have wrong types is refused here before the checks of their values, which
are those of `Dt.Jobs.decodeEntry`. Texts are lists of characters, so none has half a surrogate pair.
-/

namespace Dt.Jobs.Codec

open Dt.Lib

variable {F : Type}

def registrySchemaVersion : String := "dt_job_registry_v1"

def maxJobRecordBytes : Nat := 8 * 1024 * 1024

/-- Python converts no `int` of more digits to a text or back. -/
def maxIntDigits : Nat := 4300

mutual

def shortInts : Json F → Bool
  | .int n => decide ((Nat.toDigits 10 n.natAbs).length ≤ maxIntDigits)
  | .arr items => shortItems items
  | .obj pairs => shortPairs pairs
  | _ => true

def shortItems : List (Json F) → Bool
  | [] => true
  | v :: vs => shortInts v && shortItems vs

def shortPairs : List (String × Json F) → Bool
  | [] => true
  | (_, v) :: ps => shortInts v && shortPairs ps

end

/-! ## Normal form -/

def boundText : Json F → Json F
  | .str s => .str (diagnosticExcerpt maxJobDiagnosticChars s)
  | v => v

def boundTexts : Json F → Json F
  | .obj pairs => .obj (pairs.map fun p => (p.1, boundText p.2))
  | v => v

/-- `_bound_entry_diagnostics` -/
def boundAttributes (a : Attributes F) : Attributes F
  | .reason => boundText (a .reason)
  | .placementFailures => boundTexts (a .placementFailures)
  | f => a f

def sortDict : Json F → Json F
  | .obj pairs => .obj (pairs.insertionSort fun p q => p.1 ≤ q.1)
  | v => v

def dropEmptyText : Json F → Json F
  | .str s => if s = "" then .null else .str s
  | v => v

def orValue (v other : Json F) : Json F := if isNull v then other else v

/-- What belongs to a claim goes with its token. -/
def withToken (token v : Json F) : Json F := if isNull token then .null else v

/-- `registry_updated_at or entry.created_at` -/
def fileTime [FloatValue F] (mtime : Option F) (created : Json F) : Json F :=
  match mtime with
  | some x => if FloatValue.value x = 0 then created else .float x
  | none => created

/-- The attributes of a decoded row. -/
def normal [FloatValue F] (mtime : Option F) (a : Attributes F) : Attributes F
  | .reason => boundText (a .reason)
  | .placementFailures => boundTexts (a .placementFailures)
  | .customEnv => sortDict (a .customEnv)
  | .envHash => dropEmptyText (a .envHash)
  | .cacheSourceEnvHash => dropEmptyText (a .cacheSourceEnvHash)
  | .dispatchOwner => withToken (a .dispatchToken) (a .dispatchOwner)
  | .dispatchClaimedAt => withToken (a .dispatchToken) (a .dispatchClaimedAt)
  | .storageLayout => orValue (a .storageLayout) (.str "legacy-v0")
  | .updatedAt => orValue (a .updatedAt) (fileTime mtime (a .createdAt))
  | f => a f

/-! ## Documents -/

/-- `asdict` of an entry, without its internal attributes. -/
def document (a : Attributes F) : List (String × Json F) := Field.all.map fun f => (f.key, a f)

def envelope (a : Attributes F) : Json F :=
  .obj [("schema_version", .str registrySchemaVersion), ("job", .obj (document a))]

/-- `JobEntry(**payload)`: a document has what it does not leave out. -/
def jobEntry (now : Json F) (doc : List (String × Json F)) : Option (Attributes F) :=
  let given := fun f : Field => (doc.lookup f.key).or (f.default now)
  if Field.all.all fun f => (given f).isSome then some fun f => (given f).getD .null else none

section

variable [FloatValue F]

/-- The checks of `_decode_entry`, and what it normalises. -/
def decodeAttributes (mtime : Option F) (expected : JobId) (a : Attributes F) :
    Option (Attributes F) :=
  if WellTyped a ∧ (decodeEntry true (mtime.map FloatValue.value) expected (entryOf a)).isOk then
    some (normal mtime a)
  else none

/-- `decode_registry_document`, of an envelope or of a legacy flat row. -/
def decodeRegistryDocument (now : Json F) (mtime : Option F) (expected : JobId) :
    Json F → Option (Attributes F)
  | .obj pairs =>
    match pairs.lookup "schema_version" with
    | none => (jobEntry now pairs).bind (decodeAttributes mtime expected)
    | some schema =>
      if isName [registrySchemaVersion] schema &&
          pairs.all fun p => p.1 = "schema_version" || p.1 = "job" then
        match pairs.lookup "job" with
        | some (.obj doc) => (jobEntry now doc).bind (decodeAttributes mtime expected)
        | _ => none
      else none
  | _ => none

/-- `decode_strict_json` -/
def decodeStrictJson (text : List Char) : Option (Json F) :=
  (loadsBy Hooks.strict text).filter shortInts

/-- `_decode_entry_result`: the row of a file with its time of modification. -/
def decodeEntryResult (now : Json F) (mtime : Option F) (expected : JobId) (text : List Char) :
    Option (Attributes F) :=
  (decodeStrictJson text).bind (decodeRegistryDocument now mtime expected)

def encodedText (a : Attributes F) : List Char := (envelope a).indented 0 ++ ['\n']

def encodeRegistryEntry (now : Json F) (a : Attributes F) : Option (List Char) :=
  let bounded := boundAttributes a
  if (decodeRegistryDocument now none (textOf (a .jobId)) (.obj (document bounded))).isSome &&
      shortInts (envelope bounded) && (encodedText bounded).length ≤ maxJobRecordBytes then
    some (encodedText bounded)
  else none

end

/-! ## What a document holds -/

section

variable [FloatValue F] {now : Json F} {mtime : Option F} {id : JobId} {a : Attributes F}

end

/-! ## A decoded row is decoded as it is -/

section

variable {mtime mtime' : Option Time} {id : JobId} {doc e : JobEntry} {env : Dict String}

end

/-! ## The typed row of a normal form -/

section

variable [FloatValue F] {now : Json F} {mtime : Option F} {id : JobId} {a : Attributes F}

theorem WellTyped.holds (h : WellTyped a) (f : Field) : f.holds (a f) = true := h f f.mem_all

end

/-! ## Normal forms stay normal -/

theorem isDict_boundTexts {v : Json F} (h : isDict isText v = true) :
    isDict isText (boundTexts v) = true := by
  cases v with
  | obj pairs =>
    obtain ⟨hnodup, htexts⟩ := Bool.and_eq_true_iff.mp h
    refine Bool.and_eq_true_iff.mpr ⟨?_, List.all_eq_true.mpr fun p hp => ?_⟩
    · rw [List.map_map]
      exact hnodup
    · obtain ⟨q, hq, rfl⟩ := List.mem_map.mp hp
      have htext : isText q.2 = true := List.all_eq_true.mp htexts q hq
      cases hvalue : q.2 with
      | str => rfl
      | _ =>
        rw [hvalue] at htext
        cases htext
  | _ => cases h

theorem isDict_sortDict {item : Json F → Bool} {v : Json F} (h : isDict item v = true) :
    isDict item (sortDict v) = true := by
  cases v with
  | obj pairs =>
    obtain ⟨hnodup, hitems⟩ := Bool.and_eq_true_iff.mp h
    have hperm := List.perm_insertionSort (fun p q : String × Json F => p.1 ≤ q.1) pairs
    refine Bool.and_eq_true_iff.mpr ⟨?_, List.all_eq_true.mpr fun p hp => ?_⟩
    · exact decide_eq_true ((hperm.map Prod.fst).nodup_iff.mpr (of_decide_eq_true hnodup))
    · exact List.all_eq_true.mp hitems p (hperm.mem_iff.mp hp)
  | _ => cases h

theorem holds_boundText {v : Json F} (h : (isNull v || isText v) = true) :
    (isNull (boundText v) || isText (boundText v)) = true := by
  cases v with
  | str => rfl
  | _ => exact h

theorem holds_dropEmptyText {v : Json F} (h : (isNull v || isText v) = true) :
    (isNull (dropEmptyText v) || isText (dropEmptyText v)) = true := by
  cases v with
  | str s =>
    simp only [dropEmptyText]
    split <;> rfl
  | _ => exact h

theorem holds_withToken {token v : Json F} {ok : Json F → Bool} (h : (isNull v || ok v) = true) :
    (isNull (withToken token v) || ok (withToken token v)) = true := by
  unfold withToken
  split
  · rfl
  · exact h

theorem holds_orValue {v other : Json F} {ok : Json F → Bool} (h : (isNull v || ok v) = true)
    (hother : ok other = true) : (isNull (orValue v other) || ok (orValue v other)) = true := by
  unfold orValue
  split
  · rw [hother, Bool.or_true]
  · exact h

section

variable [FloatValue F] {now : Json F} {mtime mtime' : Option F} {id : JobId} {a : Attributes F}

theorem isNumber_fileTime (h : WellTyped a) : isNumber (fileTime mtime (a .createdAt)) = true := by
  have hcreated : isNumber (a .createdAt) = true := h.holds .createdAt
  unfold fileTime
  split
  · split
    · exact hcreated
    · rfl
  · exact hcreated

omit [FloatValue F] in
theorem named_legacy [FloatText F] :
    Field.storageLayout.shape.holds (.str "legacy-v0" : Json F) = true := by
  simp [Field.shape, Shape.holds, isName, layoutNames]

theorem WellTyped.normal (h : WellTyped a) : WellTyped (normal mtime a) := by
  intro f _
  cases f with
  | reason => exact holds_boundText (h.holds .reason)
  | placementFailures => exact isDict_boundTexts (h.holds .placementFailures)
  | customEnv => exact isDict_sortDict (h.holds .customEnv)
  | envHash => exact holds_dropEmptyText (h.holds .envHash)
  | cacheSourceEnvHash => exact holds_dropEmptyText (h.holds .cacheSourceEnvHash)
  | dispatchOwner => exact holds_withToken (h.holds .dispatchOwner)
  | dispatchClaimedAt => exact holds_withToken (h.holds .dispatchClaimedAt)
  | storageLayout => exact holds_orValue (h.holds .storageLayout) named_legacy
  | updatedAt => exact holds_orValue (h.holds .updatedAt) (isNumber_fileTime h)
  | _ => exact h.holds _

/-- A row that decoding leaves as it is, once its diagnostics are bounded. -/
structure Settled (a : Attributes F) : Prop where
  updated : isNull (a .updatedAt) = false
  layout : isNull (a .storageLayout) = false
  envHash : a .envHash ≠ .str ""
  cacheSourceEnvHash : a .cacheSourceEnvHash ≠ .str ""
  environment : ∀ pairs, a .customEnv = .obj pairs → (pairs.map Prod.fst).Pairwise (· ≤ ·)
  owner : isNull (a .dispatchToken) = true → isNull (a .dispatchOwner) = true
  claimed : isNull (a .dispatchToken) = true → isNull (a .dispatchClaimedAt) = true

end

/-! ## The file of a legacy head -/

/-- Two floats are enough for a sample. -/
instance twoFloats : FloatValue (Fin 2) where
  zero := 0
  ofInt n := if n = 0 then some 0 else if n = 1 then some 1 else none
  repr x := [Nat.digitChar x, '.', '0']
  read cs := if cs = ['0', '.', '0'] then some 0 else if cs = ['1', '.', '0'] then some 1 else none
  read_repr := by decide
  scan_repr x := ⟨⟨[Nat.digitChar x], ['.', '0'], []⟩, by revert x; decide⟩
  length_repr := by decide
  value x := x.val

end Dt.Jobs.Codec
