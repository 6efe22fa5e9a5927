import Mathlib
import Dt.Lib.Json

/-!
# JSON texts are read back

`loadsBy` is `json.loads` with its hooks: what becomes of the members of an object, and of the
constants `NaN` and `Infinity`. A value without a float that is not finite, none of whose objects
has a key twice, is read back from its compact text, and the text of an object that is cut short is
no JSON text. The second fact comes from the first: a value that is read at the start of a text is
read the same way when more text follows, so a cut text that was read would leave the rest of the
whole one unread.
-/

namespace Dt.Lib

variable {F : Type}

/-! ## Reading with hooks -/

/-- `object_pairs_hook` and `parse_constant`. -/
structure Hooks (F : Type) where
  object : List (String × Json F) → Option (Json F)
  constant : Option (Json F)

/-- `dict(pairs)`: of two members with one key the later one counts, where the first one stood. -/
def dictOf (pairs : List (String × Json F)) : List (String × Json F) :=
  pairs.foldl (fun dict p =>
    if p.1 ∈ dict.map Prod.fst then dict.map fun q => if q.1 = p.1 then p else q
    else dict ++ [p]) []

/-- What `json.loads` does without hooks. -/
def Hooks.default : Hooks F := ⟨fun pairs => some (.obj (dictOf pairs)), some .nonfinite⟩

/-- Hooks that refuse a key twice and the constants. -/
def Hooks.strict : Hooks F :=
  ⟨fun pairs => if (pairs.map Prod.fst).Nodup then some (.obj pairs) else none, none⟩

/-- An object none of whose keys stands twice is kept as it is. -/
def Hooks.Keeps (hooks : Hooks F) : Prop :=
  ∀ pairs, (pairs.map Prod.fst).Nodup → hooks.object pairs = some (.obj pairs)

mutual

/-- One value at the start of a text; more `fuel` than the text has characters is enough. -/
def loadValueBy [FloatText F] (hooks : Hooks F) : Nat → List Char → Option (Json F × List Char)
  | 0, _ => none
  | fuel + 1, cs =>
    match loadNumber cs with
    | some r => some r
    | none =>
      match cs with
      | '"' :: cs => (loadString cs).map fun r => (.str r.1, r.2)
      | '[' :: cs =>
        match skipSpace cs with
        | ']' :: rest => some (.arr [], rest)
        | cs => (loadItemsBy hooks fuel cs).map fun r => (.arr r.1, r.2)
      | '{' :: cs =>
        match skipSpace cs with
        | '}' :: rest => (hooks.object []).map fun v => (v, rest)
        | cs => (loadPairsBy hooks fuel cs).bind fun r => (hooks.object r.1).map fun v => (v, r.2)
      | 'n' :: 'u' :: 'l' :: 'l' :: rest => some (.null, rest)
      | 't' :: 'r' :: 'u' :: 'e' :: rest => some (.bool true, rest)
      | 'f' :: 'a' :: 'l' :: 's' :: 'e' :: rest => some (.bool false, rest)
      | 'N' :: 'a' :: 'N' :: rest => hooks.constant.map fun v => (v, rest)
      | 'I' :: 'n' :: 'f' :: 'i' :: 'n' :: 'i' :: 't' :: 'y' :: rest =>
        hooks.constant.map fun v => (v, rest)
      | '-' :: 'I' :: 'n' :: 'f' :: 'i' :: 'n' :: 'i' :: 't' :: 'y' :: rest =>
        hooks.constant.map fun v => (v, rest)
      | _ => none

def loadItemsBy [FloatText F] (hooks : Hooks F) :
    Nat → List Char → Option (List (Json F) × List Char)
  | 0, _ => none
  | fuel + 1, cs =>
    (loadValueBy hooks fuel cs).bind fun v =>
      match skipSpace v.2 with
      | ']' :: rest => some ([v.1], rest)
      | ',' :: rest => (loadItemsBy hooks fuel (skipSpace rest)).map fun r => (v.1 :: r.1, r.2)
      | _ => none

def loadPairsBy [FloatText F] (hooks : Hooks F) :
    Nat → List Char → Option (List (String × Json F) × List Char)
  | 0, _ => none
  | fuel + 1, '"' :: cs =>
    (loadString cs).bind fun k =>
      match skipSpace k.2 with
      | ':' :: rest =>
        (loadValueBy hooks fuel (skipSpace rest)).bind fun v =>
          match skipSpace v.2 with
          | '}' :: rest => some ([(k.1, v.1)], rest)
          | ',' :: rest =>
            (loadPairsBy hooks fuel (skipSpace rest)).map fun r => ((k.1, v.1) :: r.1, r.2)
          | _ => none
      | _ => none
  | _ + 1, _ => none

end

/-- `json.loads` -/
def loadsBy [FloatText F] (hooks : Hooks F) (cs : List Char) : Option (Json F) :=
  (loadValueBy hooks (cs.length + 1) (skipSpace cs)).bind fun r =>
    if (skipSpace r.2).isEmpty then some r.1 else none

theorem Hooks.strict_keeps : (Hooks.strict : Hooks F).Keeps := fun _ h => if_pos h

theorem dictOf_nodup {pairs : List (String × Json F)} (h : (pairs.map Prod.fst).Nodup) :
    dictOf pairs = pairs := by
  have hstep : ∀ dict : List (String × Json F), (dict ++ pairs).map Prod.fst |>.Nodup →
      pairs.foldl (fun dict p =>
        if p.1 ∈ dict.map Prod.fst then dict.map fun q => if q.1 = p.1 then p else q
        else dict ++ [p]) dict = dict ++ pairs := by
    clear h
    induction pairs with
    | nil => simp
    | cons p ps ih =>
      intro dict hdict
      have hnew : p.1 ∉ dict.map Prod.fst := by
        rw [List.map_append, List.nodup_append] at hdict
        exact fun hmem => hdict.2.2 p.1 hmem p.1 (by simp) rfl
      rw [List.foldl_cons, if_neg hnew, ih (dict ++ [p]) (by simpa using hdict)]
      simp
  exact hstep [] (by simpa using h)

theorem Hooks.default_keeps : (Hooks.default : Hooks F).Keeps := fun pairs h => by
  show some (Json.obj (dictOf pairs)) = _
  rw [dictOf_nodup h]

/-! ## Values with a text -/

mutual

/-- No float that is not finite, and no object with a key twice. -/
def Json.plain : Json F → Bool
  | .nonfinite => false
  | .arr items => plainItems items
  | .obj pairs => decide (pairs.map Prod.fst).Nodup && plainPairs pairs
  | _ => true

def plainItems : List (Json F) → Bool
  | [] => true
  | v :: vs => v.plain && plainItems vs

def plainPairs : List (String × Json F) → Bool
  | [] => true
  | (_, v) :: ps => v.plain && plainPairs ps

end

mutual

/-- How many calls reading the value takes. -/
def Json.weight : Json F → Nat
  | .arr items => weightItems items + 1
  | .obj pairs => weightPairs pairs + 1
  | _ => 1

def weightItems : List (Json F) → Nat
  | [] => 0
  | v :: vs => v.weight + weightItems vs + 1

def weightPairs : List (String × Json F) → Nat
  | [] => 0
  | (_, v) :: ps => v.weight + weightPairs ps + 1

end

/-! ## Integers -/

theorem isDigit_of_charIsDigit {c : Char} (h : c.isDigit = true) : isDigit c = true := by
  simp only [Char.isDigit, Bool.and_eq_true, decide_eq_true_eq] at h
  simp only [isDigit, Bool.and_eq_true, decide_eq_true_eq]
  exact h

theorem head_toDigits {n : Nat} (h : 0 < n) :
    ∃ c cs, Nat.toDigits 10 n = c :: cs ∧ c ≠ '0' := by
  induction n using Nat.strongRecOn with
  | ind n ih =>
    by_cases hlt : n < 10
    · refine ⟨n.digitChar, [], Nat.toDigits_of_lt_base hlt, ?_⟩
      interval_cases n <;> decide
    · obtain ⟨c, cs, hcs, hc⟩ := ih (n / 10) (by omega) (by omega)
      refine ⟨c, cs ++ [(n % 10).digitChar], ?_, hc⟩
      rw [Nat.toDigits_of_base_le (by decide) (by omega), hcs]
      rfl

theorem scanNatural_toDigits (n : Nat) {rest : List Char} (h : Stops rest) :
    scanNatural (Nat.toDigits 10 n ++ rest) = some (Nat.toDigits 10 n, rest) := by
  by_cases hn : n = 0
  · subst hn
    rfl
  · obtain ⟨c, cs, hcs, hc⟩ := head_toDigits (Nat.pos_of_ne_zero hn)
    have hdigits : ∀ d ∈ c :: cs, isDigit d = true := fun d hd =>
      isDigit_of_charIsDigit
        (Nat.isDigit_of_mem_toDigits (by decide) (by decide) (hcs ▸ hd : d ∈ Nat.toDigits 10 n))
    obtain ⟨htake, hdrop⟩ := span_append (fun c hc => h.isDigit hc) cs
    have hall : cs.takeWhile isDigit = cs ∧ cs.dropWhile isDigit = [] :=
      ⟨List.takeWhile_eq_self_iff.mpr fun d hd => hdigits d (List.mem_cons_of_mem _ hd),
        List.dropWhile_eq_nil_iff.mpr fun d hd => hdigits d (List.mem_cons_of_mem _ hd)⟩
    rw [hcs, List.cons_append, scanNatural, if_neg hc, if_pos (hdigits c List.mem_cons_self), htake,
      hdrop, hall.1, hall.2, List.nil_append]

theorem scanFrac_stops {rest : List Char} (h : Stops rest) : scanFrac rest = ([], rest) := by
  cases rest with
  | nil => rfl
  | cons c cs =>
    have hc : c ≠ '.' := by
      rintro rfl
      exact absurd (h '.' rfl) (by decide)
    simp [scanFrac, hc]

theorem scanExp_stops {rest : List Char} (h : Stops rest) : scanExp rest = ([], rest) := by
  cases rest with
  | nil => rfl
  | cons c cs =>
    have hc := h c rfl
    simp only [numberChar, Bool.or_eq_false_iff, decide_eq_false_iff_not] at hc
    simp [scanExp, hc]

theorem toList_intText (n : Int) :
    (toString n).toList =
      if 0 ≤ n then Nat.toDigits 10 n.natAbs else '-' :: Nat.toDigits 10 n.natAbs := by
  cases n with
  | ofNat n =>
    show (Nat.repr n).toList = _
    simp [Nat.toList_repr]
  | negSucc n =>
    show ("-" ++ Nat.repr (n + 1)).toList = _
    rw [if_neg (by omega), String.toList_append, Nat.toList_repr]
    rfl

theorem toDigits_cons (n : Nat) : ∃ c cs, Nat.toDigits 10 n = c :: cs ∧ c ≠ '-' := by
  obtain ⟨c, cs, hcs⟩ := List.exists_cons_of_ne_nil (Nat.toDigits_ne_nil (n := n) (b := 10))
  refine ⟨c, cs, hcs, ?_⟩
  rintro rfl
  have hmem : '-' ∈ Nat.toDigits 10 n := hcs ▸ List.mem_cons_self
  exact absurd (Nat.isDigit_of_mem_toDigits (by decide) (by decide) hmem) (by decide)

theorem scanWhole_intText (n : Int) {rest : List Char} (h : Stops rest) :
    scanWhole ((toString n).toList ++ rest) = some ((toString n).toList, rest) := by
  rw [toList_intText]
  split
  · obtain ⟨c, cs, hcs, hc⟩ := toDigits_cons n.natAbs
    have hscan := scanNatural_toDigits n.natAbs h
    rw [hcs, List.cons_append] at hscan ⊢
    rw [scanWhole]
    · exact hscan
    · exact fun ds hds => hc (List.cons.inj hds).1
  · rw [List.cons_append, scanWhole, scanNatural_toDigits n.natAbs h, Option.map_some]

theorem intOf_intText (n : Int) : intOf (toString n).toList = n := by
  rw [toList_intText]
  split
  · obtain ⟨c, cs, hcs, hc⟩ := toDigits_cons n.natAbs
    have hvalue := Nat.ofDigitChars_ten_toDigits (n := n.natAbs)
    rw [hcs] at hvalue ⊢
    rw [intOf]
    · rw [hvalue]
      omega
    · exact fun ds hds => hc (List.cons.inj hds).1
  · rw [intOf, Nat.ofDigitChars_ten_toDigits]
    omega

theorem loadNumber_int [FloatText F] (n : Int) {rest : List Char} (h : Stops rest) :
    loadNumber ((toString n).toList ++ rest) = some ((.int n : Json F), rest) := by
  have hscan : scanNumber ((toString n).toList ++ rest) = some (⟨(toString n).toList, [], []⟩, rest) := by
    unfold scanNumber
    rw [scanWhole_intText n h, Option.map_some]
    simp only [scanFrac_stops h, scanExp_stops h]
  unfold loadNumber
  rw [hscan, Option.map_some]
  show some (Json.int (intOf (toString n).toList), rest) = _
  rw [intOf_intText]

/-! ## The round trip -/

section
variable [FloatText F] {hooks : Hooks F}

theorem stops_nil : Stops [] := fun _ h => nomatch h

theorem loadNumber_of_letter {c : Char} (cs : List Char) (hdigit : isDigit c = false)
    (hzero : c ≠ '0') (hminus : c ≠ '-') :
    (loadNumber (c :: cs) : Option (Json F × List Char)) = none := by
  unfold loadNumber scanNumber
  rw [scanWhole]
  · simp [scanNatural, hdigit, hzero]
  · exact fun ds hds => hminus (List.cons.inj hds).1

theorem begins_intText (n : Int) : Begins (toString n).toList := by
  have hwhole := scanWhole_intText n stops_nil
  rw [List.append_nil] at hwhole
  have hscan : scanNumber (toString n).toList = some (⟨(toString n).toList, [], []⟩, []) := by
    unfold scanNumber
    rw [hwhole]
    rfl
  exact begins_of_scanNumber hscan

theorem begins_render : ∀ {v : Json F}, v.plain = true → Begins (v.render .compact)
  | .null, _ => ⟨'n', _, rfl, by decide⟩
  | .bool true, _ => ⟨'t', _, rfl, by decide⟩
  | .bool false, _ => ⟨'f', _, rfl, by decide⟩
  | .int n, _ => begins_intText n
  | .float x, _ => (readsBack_float x).begins
  | .str s, _ => (readsBack_str s).begins
  | .arr items, _ => ⟨'[', _, by rw [Json.render, List.cons_append], by decide⟩
  | .obj pairs, _ => ⟨'{', _, by rw [Json.render, List.cons_append], by decide⟩

theorem skipSpace_mark {c : Char} (hc : skipSpace [c] = [c]) (cs : List Char) :
    skipSpace (c :: cs) = c :: cs :=
  Begins.append ⟨c, [], rfl, hc⟩ cs

/-- What `loadItems` does after an item. -/
theorem loadItemsBy_item {fuel : Nat} {cs rest : List Char} {v : Json F}
    (h : loadValueBy hooks fuel cs = some (v, rest)) :
    loadItemsBy hooks (fuel + 1) cs =
      match skipSpace rest with
      | ']' :: rest => some ([v], rest)
      | ',' :: rest => (loadItemsBy hooks fuel (skipSpace rest)).map fun r => (v :: r.1, r.2)
      | _ => none := by
  rw [loadItemsBy, h]
  rfl

/-- What `loadPairs` does after a member. -/
theorem loadPairsBy_value {fuel : Nat} {k : String} {cs rest : List Char} {v : Json F}
    (hcs : skipSpace cs = cs) (h : loadValueBy hooks fuel cs = some (v, rest)) :
    loadPairsBy hooks (fuel + 1) (renderString k ++ (':' :: cs)) =
      match skipSpace rest with
      | '}' :: rest => some ([(k, v)], rest)
      | ',' :: rest => (loadPairsBy hooks fuel (skipSpace rest)).map fun r => ((k, v) :: r.1, r.2)
      | _ => none := by
  rw [renderString_append, loadPairsBy, loadString_escape, Option.bind_some,
    skipSpace_mark (by decide)]
  show ((loadValueBy hooks fuel (skipSpace cs)).bind fun v => _) = _
  rw [hcs, h]
  rfl

theorem renderItems_cons (v w : Json F) (vs : List (Json F)) :
    renderItems .compact (v :: w :: vs) =
      v.render .compact ++ ',' :: renderItems .compact (w :: vs) := by
  rw [renderItems]
  · rfl
  · simp

theorem renderPairs_cons (k : String) (v : Json F) (p : String × Json F)
    (ps : List (String × Json F)) :
    renderPairs .compact ((k, v) :: p :: ps) =
      renderString k ++ (':' :: (v.render .compact ++ ',' :: renderPairs .compact (p :: ps))) := by
  rw [renderPairs]
  · rfl
  · simp

theorem begins_renderItems {items : List (Json F)} (hne : items ≠ [])
    (h : plainItems items = true) : Begins (renderItems .compact items) := by
  obtain ⟨v, vs, rfl⟩ := List.exists_cons_of_ne_nil hne
  rw [plainItems, Bool.and_eq_true] at h
  obtain ⟨c, cs, hcs, hc⟩ := begins_render h.1
  cases vs with
  | nil => exact ⟨c, cs, by rw [renderItems, hcs], hc⟩
  | cons w vs => exact ⟨c, _, by rw [renderItems_cons, hcs, List.cons_append], hc⟩

/-- What `loadValue` reads where no number begins. -/
theorem loadValueBy_mark (fuel : Nat) (cs : List Char) :
    (loadNumber cs : Option (Json F × List Char)) = none → loadValueBy hooks (fuel + 1) cs =
      match cs with
      | '"' :: cs => (loadString cs).map fun r => (.str r.1, r.2)
      | '[' :: cs =>
        match skipSpace cs with
        | ']' :: rest => some (.arr [], rest)
        | cs => (loadItemsBy hooks fuel cs).map fun r => (.arr r.1, r.2)
      | '{' :: cs =>
        match skipSpace cs with
        | '}' :: rest => (hooks.object []).map fun v => (v, rest)
        | cs => (loadPairsBy hooks fuel cs).bind fun r => (hooks.object r.1).map fun v => (v, r.2)
      | 'n' :: 'u' :: 'l' :: 'l' :: rest => some (.null, rest)
      | 't' :: 'r' :: 'u' :: 'e' :: rest => some (.bool true, rest)
      | 'f' :: 'a' :: 'l' :: 's' :: 'e' :: rest => some (.bool false, rest)
      | 'N' :: 'a' :: 'N' :: rest => hooks.constant.map fun v => (v, rest)
      | 'I' :: 'n' :: 'f' :: 'i' :: 'n' :: 'i' :: 't' :: 'y' :: rest =>
        hooks.constant.map fun v => (v, rest)
      | '-' :: 'I' :: 'n' :: 'f' :: 'i' :: 'n' :: 'i' :: 't' :: 'y' :: rest =>
        hooks.constant.map fun v => (v, rest)
      | _ => none := by
  intro h
  rw [loadValueBy.eq_def]
  dsimp only
  rw [h]

theorem loadValueBy_null (fuel : Nat) (rest : List Char) :
    loadValueBy hooks (fuel + 1) ("null".toList ++ rest) = some ((.null : Json F), rest) := by
  have htext : "null".toList ++ rest = 'n' :: 'u' :: 'l' :: 'l' :: rest := rfl
  rw [htext, loadValueBy_mark _ _ (loadNumber_of_letter _ (by decide) (by decide) (by decide))]
  rfl

theorem loadValueBy_true (fuel : Nat) (rest : List Char) :
    loadValueBy hooks (fuel + 1) ("true".toList ++ rest) = some ((.bool true : Json F), rest) := by
  have htext : "true".toList ++ rest = 't' :: 'r' :: 'u' :: 'e' :: rest := rfl
  rw [htext, loadValueBy_mark _ _ (loadNumber_of_letter _ (by decide) (by decide) (by decide))]
  rfl

theorem loadValueBy_false (fuel : Nat) (rest : List Char) :
    loadValueBy hooks (fuel + 1) ("false".toList ++ rest) = some ((.bool false : Json F), rest) := by
  have htext : "false".toList ++ rest = 'f' :: 'a' :: 'l' :: 's' :: 'e' :: rest := rfl
  rw [htext, loadValueBy_mark _ _ (loadNumber_of_letter _ (by decide) (by decide) (by decide))]
  rfl

theorem loadValueBy_nan {v : Json F} (h : hooks.constant = some v) (fuel : Nat)
    (rest : List Char) : loadValueBy hooks (fuel + 1) ("NaN".toList ++ rest) = some (v, rest) := by
  have htext : "NaN".toList ++ rest = 'N' :: 'a' :: 'N' :: rest := rfl
  rw [htext, loadValueBy_mark _ _ (loadNumber_of_letter _ (by decide) (by decide) (by decide)), h]
  rfl

theorem loadValueBy_infinity {v : Json F} (h : hooks.constant = some v) (fuel : Nat)
    (rest : List Char) :
    loadValueBy hooks (fuel + 1) ("Infinity".toList ++ rest) = some (v, rest) := by
  have htext : "Infinity".toList ++ rest =
      'I' :: 'n' :: 'f' :: 'i' :: 'n' :: 'i' :: 't' :: 'y' :: rest := rfl
  rw [htext, loadValueBy_mark _ _ (loadNumber_of_letter _ (by decide) (by decide) (by decide)), h]
  rfl

theorem loadValueBy_minusInfinity {v : Json F} (h : hooks.constant = some v) (fuel : Nat)
    (rest : List Char) :
    loadValueBy hooks (fuel + 1) ("-Infinity".toList ++ rest) = some (v, rest) := by
  have htext : "-Infinity".toList ++ rest =
      '-' :: 'I' :: 'n' :: 'f' :: 'i' :: 'n' :: 'i' :: 't' :: 'y' :: rest := rfl
  have hnumber : (loadNumber ('-' :: 'I' :: 'n' :: 'f' :: 'i' :: 'n' :: 'i' :: 't' :: 'y' :: rest) :
      Option (Json F × List Char)) = none := by
    simp [loadNumber, scanNumber, scanWhole, scanNatural, isDigit]
  rw [htext, loadValueBy_mark _ _ hnumber, h]
  rfl

theorem loadValueBy_bracket (fuel : Nat) (cs : List Char) :
    (loadValueBy hooks (fuel + 1) ('[' :: cs) : Option (Json F × List Char)) =
      match skipSpace cs with
      | ']' :: rest => some (.arr [], rest)
      | cs => (loadItemsBy hooks fuel cs).map fun r => (.arr r.1, r.2) := by
  rw [loadValueBy_mark _ _ (loadNumber_of_letter _ (by decide) (by decide) (by decide))]
  rfl

theorem loadValueBy_curly (fuel : Nat) (cs : List Char) :
    (loadValueBy hooks (fuel + 1) ('{' :: cs) : Option (Json F × List Char)) =
      match skipSpace cs with
      | '}' :: rest => (hooks.object []).map fun v => (v, rest)
      | cs => (loadPairsBy hooks fuel cs).bind fun r =>
        (hooks.object r.1).map fun v => (v, r.2) := by
  rw [loadValueBy_mark _ _ (loadNumber_of_letter _ (by decide) (by decide) (by decide))]
  rfl

theorem loadValueBy_quote (fuel : Nat) (cs : List Char) :
    (loadValueBy hooks (fuel + 1) ('"' :: cs) : Option (Json F × List Char)) =
      (loadString cs).map fun r => (.str r.1, r.2) := by
  rw [loadValueBy_mark _ _ (loadNumber_quote cs)]
  rfl

theorem loadValueBy_number {fuel : Nat} {cs : List Char} {r : Json F × List Char}
    (h : loadNumber cs = some r) : loadValueBy hooks (fuel + 1) cs = some r := by
  rw [loadValueBy.eq_def]
  dsimp only
  rw [h]

theorem head_render_ne {v : Json F} (h : v.plain = true) {cs : List Char} :
    v.render .compact ≠ ']' :: cs := by
  intro hcs
  have hnumber : (loadNumber (']' :: cs) : Option (Json F × List Char)) = none :=
    loadNumber_of_letter cs (by decide) (by decide) (by decide)
  cases v with
  | null => cases hcs
  | bool b => cases b <;> cases hcs
  | int n =>
    have hload := loadNumber_int (F := F) n stops_nil
    rw [List.append_nil, show (toString n).toList = ']' :: cs from hcs, hnumber] at hload
    cases hload
  | float x =>
    have hload := loadNumber_repr stops_nil x
    rw [List.append_nil, show FloatText.repr x = ']' :: cs from hcs, hnumber] at hload
    cases hload
  | nonfinite => cases h
  | str s => cases hcs
  | arr items => cases hcs
  | obj pairs => cases hcs

/-- An array with an item. -/
theorem loadValueBy_items (fuel : Nat) {items : List (Json F)} (hne : items ≠ [])
    (h : plainItems items = true) (rest : List Char) :
    (loadValueBy hooks (fuel + 1) ('[' :: (renderItems .compact items ++ rest)) :
        Option (Json F × List Char)) =
      (loadItemsBy hooks fuel (renderItems .compact items ++ rest)).map fun r => (.arr r.1, r.2) := by
  obtain ⟨v, vs, rfl⟩ := List.exists_cons_of_ne_nil hne
  obtain ⟨c, cs, hcs⟩ : ∃ c cs, renderItems .compact (v :: vs) ++ rest = c :: cs ∧ c ≠ ']' := by
    have hv : v.plain = true := by
      rw [plainItems, Bool.and_eq_true] at h
      exact h.1
    obtain ⟨c, cs, hcs, -⟩ := begins_render hv
    have hc : c ≠ ']' := by
      rintro rfl
      exact head_render_ne hv hcs
    cases vs with
    | nil => exact ⟨c, _, by rw [renderItems, hcs, List.cons_append], hc⟩
    | cons w vs => exact ⟨c, _, by rw [renderItems_cons, hcs, List.cons_append, List.cons_append], hc⟩
  rw [loadValueBy_bracket, (begins_renderItems hne h).append, hcs.1]
  split
  · rename_i heq
    exact absurd (List.cons.inj heq).1 hcs.2
  · rfl

/-- An object with a member. -/
theorem loadValueBy_members (hkeeps : hooks.Keeps) (fuel : Nat) {pairs : List (String × Json F)}
    (hne : pairs ≠ []) (hnodup : (pairs.map Prod.fst).Nodup) {rest tail : List Char}
    (h : loadPairsBy hooks fuel (renderPairs .compact pairs ++ tail) = some (pairs, rest)) :
    loadValueBy hooks (fuel + 1) ('{' :: (renderPairs .compact pairs ++ tail)) =
      some (.obj pairs, rest) := by
  obtain ⟨quoted, hquoted⟩ := renderPairs_quote hne
  have hskip : skipSpace (renderPairs .compact pairs ++ tail) = '"' :: (quoted ++ tail) := by
    rw [hquoted, List.cons_append]
    exact skipSpace_mark (by decide) _
  rw [hquoted, List.cons_append] at h
  rw [loadValueBy_curly, hskip]
  show ((loadPairsBy hooks fuel ('"' :: (quoted ++ tail))).bind _) = _
  rw [h, Option.bind_some, hkeeps pairs hnodup, Option.map_some]

theorem stops_bracket (rest : List Char) : Stops (']' :: rest) := stops_of (by decide) rest

theorem stops_brace (rest : List Char) : Stops ('}' :: rest) := stops_of (by decide) rest

theorem stops_comma (rest : List Char) : Stops (',' :: rest) := stops_of (by decide) rest

mutual

/-- A value is read back from its compact text, whatever stops the number that may end it. -/
theorem loadValueBy_render (hkeeps : hooks.Keeps) : ∀ (v : Json F), v.plain = true →
    ∀ (fuel : Nat), v.weight ≤ fuel → ∀ (rest : List Char), Stops rest →
      loadValueBy hooks fuel (v.render .compact ++ rest) = some (v, rest)
  | v, hv, 0, hfuel, _, _ => by cases v <;> simp [Json.weight] at hfuel
  | .null, _, fuel + 1, _, rest, _ => loadValueBy_null fuel rest
  | .bool true, _, fuel + 1, _, rest, _ => loadValueBy_true fuel rest
  | .bool false, _, fuel + 1, _, rest, _ => loadValueBy_false fuel rest
  | .int n, _, fuel + 1, _, _, hrest => loadValueBy_number (loadNumber_int n hrest)
  | .float x, _, fuel + 1, _, _, hrest => loadValueBy_number (loadNumber_repr hrest x)
  | .str s, _, fuel + 1, _, rest, _ => by
    rw [Json.render, renderString_append, loadValueBy_quote, loadString_escape, Option.map_some]
  | .arr [], _, fuel + 1, _, rest, _ => by
    have htext : (Json.arr [] : Json F).render .compact ++ rest = '[' :: ']' :: rest := rfl
    rw [htext, loadValueBy_bracket, skipSpace_mark (by decide)]
    rfl
  | .arr (v :: vs), hv, fuel + 1, hfuel, rest, _ => by
    have hplain : plainItems (v :: vs) = true := by simpa [Json.plain] using hv
    have htext : (Json.arr (v :: vs)).render .compact ++ rest =
        '[' :: (renderItems .compact (v :: vs) ++ ']' :: rest) := by
      simp [Json.render]
    have hload := loadItemsBy_render hkeeps (v :: vs) (by simp) hplain fuel
      (by simpa [Json.weight] using hfuel) rest
    rw [htext, loadValueBy_items fuel (by simp) hplain, hload, Option.map_some]
  | .obj [], _, fuel + 1, _, rest, _ => by
    have htext : (Json.obj [] : Json F).render .compact ++ rest = '{' :: '}' :: rest := rfl
    rw [htext, loadValueBy_curly, skipSpace_mark (by decide)]
    show (hooks.object []).map _ = _
    rw [hkeeps [] (by simp), Option.map_some]
  | .obj (p :: ps), hv, fuel + 1, hfuel, rest, _ => by
    obtain ⟨hnodup, hplain⟩ : ((p :: ps).map Prod.fst).Nodup ∧ plainPairs (p :: ps) = true := by
      simpa only [Json.plain, Bool.and_eq_true, decide_eq_true_eq] using hv
    have htext : (Json.obj (p :: ps)).render .compact ++ rest =
        '{' :: (renderPairs .compact (p :: ps) ++ '}' :: rest) := by
      simp [Json.render]
    have hload := loadPairsBy_render hkeeps (p :: ps) (by simp) hplain fuel
      (by simpa [Json.weight] using hfuel) rest
    rw [htext, loadValueBy_members hkeeps fuel (by simp) hnodup hload]

theorem loadItemsBy_render (hkeeps : hooks.Keeps) : ∀ (items : List (Json F)), items ≠ [] →
    plainItems items = true → ∀ (fuel : Nat), weightItems items ≤ fuel → ∀ (rest : List Char),
      loadItemsBy hooks fuel (renderItems .compact items ++ ']' :: rest) = some (items, rest)
  | [], hne, _, _, _, _ => absurd rfl hne
  | v :: vs, _, _, 0, hfuel, _ => by simp [weightItems] at hfuel
  | [v], _, hplain, fuel + 1, hfuel, rest => by
    have hv : v.plain = true := by simpa [plainItems] using hplain
    have hload := loadValueBy_render hkeeps v hv fuel (by simp [weightItems] at hfuel; omega)
      (']' :: rest) (stops_bracket rest)
    rw [renderItems, loadItemsBy_item hload, skipSpace_mark (by decide)]
    rfl
  | v :: w :: vs, _, hplain, fuel + 1, hfuel, rest => by
    obtain ⟨hv, hvs⟩ : v.plain = true ∧ plainItems (w :: vs) = true := by
      simpa [plainItems] using hplain
    have hload := loadValueBy_render hkeeps v hv fuel (by simp [weightItems] at hfuel; omega)
      (',' :: (renderItems .compact (w :: vs) ++ ']' :: rest)) (stops_comma _)
    have hmore := loadItemsBy_render hkeeps (w :: vs) (by simp) hvs fuel
      (by simp [weightItems] at hfuel ⊢; omega) rest
    have hskip := (begins_renderItems (by simp) hvs).append (']' :: rest)
    rw [renderItems_cons, List.append_assoc, List.cons_append, loadItemsBy_item hload,
      skipSpace_mark (by decide)]
    show (loadItemsBy hooks fuel (skipSpace _)).map _ = _
    rw [hskip, hmore, Option.map_some]

theorem loadPairsBy_render (hkeeps : hooks.Keeps) : ∀ (pairs : List (String × Json F)), pairs ≠ [] →
    plainPairs pairs = true → ∀ (fuel : Nat), weightPairs pairs ≤ fuel → ∀ (rest : List Char),
      loadPairsBy hooks fuel (renderPairs .compact pairs ++ '}' :: rest) = some (pairs, rest)
  | [], hne, _, _, _, _ => absurd rfl hne
  | (_, v) :: ps, _, _, 0, hfuel, _ => by simp [weightPairs] at hfuel
  | [(k, v)], _, hplain, fuel + 1, hfuel, rest => by
    have hv : v.plain = true := by simpa [plainPairs] using hplain
    have hload := loadValueBy_render hkeeps v hv fuel (by simp [weightPairs] at hfuel; omega)
      ('}' :: rest) (stops_brace rest)
    have htext : renderPairs .compact [(k, v)] ++ '}' :: rest =
        renderString k ++ (':' :: (v.render .compact ++ '}' :: rest)) := by
      simp [renderPairs, Separators.compact]
    rw [htext, loadPairsBy_value ((begins_render hv).append _) hload, skipSpace_mark (by decide)]
    rfl
  | (k, v) :: p :: ps, _, hplain, fuel + 1, hfuel, rest => by
    obtain ⟨hv, hps⟩ : v.plain = true ∧ plainPairs (p :: ps) = true := by
      simpa [plainPairs] using hplain
    have hload := loadValueBy_render hkeeps v hv fuel (by simp [weightPairs] at hfuel; omega)
      (',' :: (renderPairs .compact (p :: ps) ++ '}' :: rest)) (stops_comma _)
    have hmore := loadPairsBy_render hkeeps (p :: ps) (by simp) hps fuel
      (by simp [weightPairs] at hfuel ⊢; omega) rest
    have hskip : skipSpace (renderPairs .compact (p :: ps) ++ '}' :: rest) = _ :=
      (begins_renderPairs (by simp)).append ('}' :: rest)
    have htext : renderPairs .compact ((k, v) :: p :: ps) ++ '}' :: rest =
        renderString k ++ (':' :: (v.render .compact ++
          ',' :: (renderPairs .compact (p :: ps) ++ '}' :: rest))) := by
      simp [renderPairs_cons]
    rw [htext, loadPairsBy_value ((begins_render hv).append _) hload, skipSpace_mark (by decide)]
    show (loadPairsBy hooks fuel (skipSpace _)).map _ = _
    rw [hskip, hmore, Option.map_some]

end

mutual

theorem weight_le : ∀ (v : Json F), v.plain = true → v.weight ≤ (v.render .compact).length
  | .null, _ => by simp [Json.render, Json.weight]
  | .bool true, _ => by simp [Json.render, Json.weight]
  | .bool false, _ => by simp [Json.render, Json.weight]
  | .int n, h => by
    obtain ⟨c, cs, hcs, -⟩ := begins_render h
    simp [hcs, Json.weight]
  | .float x, h => by
    obtain ⟨c, cs, hcs, -⟩ := begins_render h
    simp [hcs, Json.weight]
  | .str s, _ => by simp [Json.render, renderString, Json.weight]
  | .arr items, h => by
    have hitems := weightItems_le items (by simpa [Json.plain] using h)
    simp only [Json.render, Json.weight, List.length_append, List.length_cons, List.length_nil]
    omega
  | .obj pairs, h => by
    have hplain : plainPairs pairs = true := by
      rw [Json.plain, Bool.and_eq_true] at h
      exact h.2
    have hpairs := weightPairs_le pairs hplain
    simp only [Json.render, Json.weight, List.length_append, List.length_cons, List.length_nil]
    omega

theorem weightItems_le : ∀ (items : List (Json F)), plainItems items = true →
    weightItems items ≤ (renderItems .compact items).length + 1
  | [], _ => by simp [weightItems]
  | [v], h => by
    have hv := weight_le v (by simpa [plainItems] using h)
    simp only [renderItems, weightItems]
    omega
  | v :: w :: vs, h => by
    obtain ⟨hv, hvs⟩ : v.plain = true ∧ plainItems (w :: vs) = true := by
      simpa [plainItems] using h
    have hhead := weight_le v hv
    have htail := weightItems_le (w :: vs) hvs
    rw [renderItems_cons, List.length_append, List.length_cons, weightItems]
    omega

theorem weightPairs_le : ∀ (pairs : List (String × Json F)), plainPairs pairs = true →
    weightPairs pairs ≤ (renderPairs .compact pairs).length + 1
  | [], _ => by simp [weightPairs]
  | [(k, v)], h => by
    have hv := weight_le v (by simpa [plainPairs] using h)
    simp only [renderPairs, weightPairs, List.length_append]
    omega
  | (k, v) :: p :: ps, h => by
    obtain ⟨hv, hps⟩ : v.plain = true ∧ plainPairs (p :: ps) = true := by
      simpa [plainPairs] using h
    have hhead := weight_le v hv
    have htail := weightPairs_le (p :: ps) hps
    rw [renderPairs_cons, weightPairs]
    simp only [List.length_append, List.length_cons]
    omega

end

/-- A value is read back from its text. -/
theorem loadsBy_render (hkeeps : hooks.Keeps) {v : Json F} (h : v.plain = true) :
    loadsBy hooks (v.render .compact) = some v := by
  have hload := loadValueBy_render hkeeps v h _ ((weight_le v h).trans (Nat.le_succ _)) [] stops_nil
  have hbegin := (begins_render h).append []
  rw [List.append_nil] at hload hbegin
  unfold loadsBy
  rw [hbegin, hload]
  rfl

/-! ## Texts with more behind them -/

theorem skipSpace_append {cs rest : List Char} {c : Char} (h : skipSpace cs = c :: rest)
    (more : List Char) : skipSpace (cs ++ more) = c :: (rest ++ more) := by
  unfold skipSpace at h ⊢
  rw [List.dropWhile_append, h]
  rfl

theorem loadUnits_append {cs rest : List Char} {units : List Nat}
    (h : loadUnits cs = some (units, rest)) (more : List Char) :
    loadUnits (cs ++ more) = some (units, rest ++ more) := by
  fun_induction loadUnits cs generalizing units rest with
  | case1 => cases h
  | case2 a b c d cs ih =>
    obtain ⟨u, hu, hrest⟩ := Option.bind_eq_some_iff.mp h
    obtain ⟨⟨us, r⟩, hus, heq⟩ := Option.map_eq_some_iff.mp hrest
    cases heq
    simp only [List.cons_append, loadUnits, hu, Option.bind_some, ih hus, Option.map_some]
  | case3 c cs hnot ih =>
    obtain ⟨u, hu, hrest⟩ := Option.bind_eq_some_iff.mp h
    obtain ⟨⟨us, r⟩, hus, heq⟩ := Option.map_eq_some_iff.mp hrest
    cases heq
    have hc : c ≠ 'u' := by
      rintro rfl
      have hletter : letterEscape 'u' = none := by decide
      rw [hletter] at hu
      cases hu
    rw [List.cons_append, List.cons_append, loadUnits_letter hc hu, ih hus, Option.map_some]
  | case4 cs hnot₁ hnot₂ =>
    cases h
    rw [List.cons_append, loadUnits]
    · rw [if_pos rfl]
    · exact fun a b c d ds hslash => absurd hslash (by decide)
    · exact fun c ds hslash => absurd hslash (by decide)
  | case5 c cs hnot₁ hnot₂ hquote hlt => cases h
  | case6 c cs hnot₁ hnot₂ hquote hlt ih =>
    obtain ⟨⟨us, r⟩, hus, heq⟩ := Option.map_eq_some_iff.mp h
    cases heq
    have hslash : c ≠ '\\' := by
      intro hslash
      cases cs with
      | nil => cases hus
      | cons d ds => exact hnot₂ d ds hslash rfl
    rw [List.cons_append, loadUnits_plain hquote hslash (Nat.le_of_not_lt hlt), ih hus,
      Option.map_some]

theorem loadString_append {cs rest : List Char} {s : String} (h : loadString cs = some (s, rest))
    (more : List Char) : loadString (cs ++ more) = some (s, rest ++ more) := by
  unfold loadString at h ⊢
  obtain ⟨⟨units, r⟩, hunits, htext⟩ := Option.bind_eq_some_iff.mp h
  obtain ⟨text, hjoin, heq⟩ := Option.bind_eq_some_iff.mp htext
  cases heq
  simp [loadUnits_append hunits more, hjoin]

theorem span_more {p : Char → Bool} {cs : List Char} (h : cs.dropWhile p ≠ []) (more : List Char) :
    (cs ++ more).takeWhile p = cs.takeWhile p ∧
      (cs ++ more).dropWhile p = cs.dropWhile p ++ more := by
  induction cs with
  | nil => exact absurd rfl h
  | cons c cs ih =>
    by_cases hc : p c = true
    · rw [List.dropWhile_cons, if_pos hc] at h
      obtain ⟨htake, hdrop⟩ := ih h
      simp [hc, htake, hdrop]
    · simp [hc]

theorem scanExp_other {c : Char} (hc : ¬(c = 'e' ∨ c = 'E')) (cs : List Char) :
    scanExp (c :: cs) = ([], c :: cs) := by
  have hletter : (decide (c = 'e') || decide (c = 'E')) = false := by simpa using hc
  simp only [scanExp, hletter, Bool.not_false, Bool.true_or, if_true]

theorem scanExp_letter {c : Char} (hc : c = 'e' ∨ c = 'E') {cs : List Char}
    (h : ¬((scanSign cs).2.takeWhile isDigit).isEmpty = true) :
    scanExp (c :: cs) = (c :: (scanSign cs).1 ++ (scanSign cs).2.takeWhile isDigit,
      (scanSign cs).2.dropWhile isDigit) := by
  have hletter : (decide (c = 'e') || decide (c = 'E')) = true := by simpa using hc
  simp only [scanExp, hletter, Bool.not_true, Bool.false_or, if_neg h]

theorem scanExp_more {cs : List Char} (hne : (scanExp cs).2 ≠ []) (hstop : Stops (scanExp cs).2)
    (more : List Char) : scanExp (cs ++ more) = ((scanExp cs).1, (scanExp cs).2 ++ more) := by
  cases cs with
  | nil => exact absurd rfl hne
  | cons c cs =>
    by_cases hc : c = 'e' ∨ c = 'E'
    · by_cases hdigits : ((scanSign cs).2.takeWhile isDigit).isEmpty = true
      · -- the exponent has no digit: its letter is left, and stops no number
        have hscan : scanExp (c :: cs) = ([], c :: cs) := by simp [scanExp, hdigits]
        rw [hscan] at hstop
        rcases hc with rfl | rfl <;> exact absurd (hstop _ rfl) (by decide)
      · rw [scanExp_letter hc hdigits] at hne hstop ⊢
        have hsign : scanSign (cs ++ more) = ((scanSign cs).1, (scanSign cs).2 ++ more) := by
          cases cs with
          | nil => exact absurd rfl hdigits
          | cons d ds =>
            simp only [scanSign, List.cons_append]
            split <;> rfl
        obtain ⟨htake, hdrop⟩ := span_more hne more
        have hmore : ¬((scanSign (cs ++ more)).2.takeWhile isDigit).isEmpty = true := by
          rw [hsign, htake]
          exact hdigits
        rw [List.cons_append, scanExp_letter hc hmore, hsign, htake, hdrop]
    · rw [List.cons_append, scanExp_other hc, scanExp_other hc, List.cons_append]

theorem scanFrac_more {cs : List Char} (hne : (scanFrac cs).2 ≠ [])
    (hdot : ∀ ds, (scanFrac cs).2 ≠ '.' :: ds) (more : List Char) :
    scanFrac (cs ++ more) = ((scanFrac cs).1, (scanFrac cs).2 ++ more) := by
  cases cs with
  | nil => exact absurd rfl hne
  | cons c cs =>
    by_cases hc : c = '.'
    · subst hc
      by_cases hdigits : (cs.takeWhile isDigit).isEmpty = true
      · have hscan : scanFrac ('.' :: cs) = ([], '.' :: cs) := by simp [scanFrac, hdigits]
        exact absurd (by rw [hscan]) (hdot cs)
      · have hscan : scanFrac ('.' :: cs) = ('.' :: cs.takeWhile isDigit, cs.dropWhile isDigit) := by
          rw [scanFrac, if_neg hdigits]
        rw [hscan] at hne ⊢
        obtain ⟨htake, hdrop⟩ := span_more hne more
        rw [List.cons_append, scanFrac, htake, hdrop, if_neg hdigits]
    · have hscan (ds : List Char) : scanFrac (c :: ds) = ([], c :: ds) := by simp [scanFrac, hc]
      rw [List.cons_append, hscan, hscan, List.cons_append]

theorem scanNatural_more {cs w rest : List Char} (h : scanNatural cs = some (w, rest))
    (hne : rest ≠ []) (more : List Char) : scanNatural (cs ++ more) = some (w, rest ++ more) := by
  cases cs with
  | nil => cases h
  | cons c cs =>
    rw [List.cons_append]
    rw [scanNatural] at h ⊢
    by_cases hzero : c = '0'
    · rw [if_pos hzero] at h ⊢
      cases h
      rfl
    · rw [if_neg hzero] at h ⊢
      by_cases hdigit : isDigit c = true
      · rw [if_pos hdigit] at h ⊢
        cases h
        obtain ⟨htake, hdrop⟩ := span_more hne more
        rw [htake, hdrop]
      · rw [if_neg hdigit] at h
        cases h

theorem scanWhole_more {cs w rest : List Char} (h : scanWhole cs = some (w, rest))
    (hne : rest ≠ []) (more : List Char) : scanWhole (cs ++ more) = some (w, rest ++ more) := by
  cases cs with
  | nil => cases h
  | cons c cs =>
    rw [List.cons_append]
    by_cases hc : c = '-'
    · subst hc
      rw [scanWhole] at h ⊢
      obtain ⟨⟨w', r⟩, hscan, heq⟩ := Option.map_eq_some_iff.mp h
      cases heq
      rw [scanNatural_more hscan hne, Option.map_some]
    · have hminus (ds : List Char) : scanWhole (c :: ds) = scanNatural (c :: ds) := by
        rw [scanWhole]
        exact fun es hes => hc (List.cons.inj hes).1
      rw [hminus] at h ⊢
      exact scanNatural_more h hne more

theorem scanNumber_more {cs rest : List Char} {t : NumberToken} (h : scanNumber cs = some (t, rest))
    (hne : rest ≠ []) (hstop : Stops rest) (more : List Char) :
    scanNumber (cs ++ more) = some (t, rest ++ more) := by
  unfold scanNumber at h ⊢
  obtain ⟨⟨w, r⟩, hw, heq⟩ := Option.map_eq_some_iff.mp h
  simp only [Prod.mk.injEq] at heq
  obtain ⟨rfl, rfl⟩ := heq
  have hfracne : (scanFrac r).2 ≠ [] := by
    intro hnil
    rw [hnil] at hne
    exact hne rfl
  have hrne : r ≠ [] := by
    rintro rfl
    exact hfracne rfl
  have hdot : ∀ ds, (scanFrac r).2 ≠ '.' :: ds := by
    intro ds hds
    have hexp : scanExp ('.' :: ds) = ([], '.' :: ds) := by simp [scanExp]
    rw [hds, hexp] at hstop
    exact absurd (hstop _ rfl) (by decide)
  rw [scanWhole_more hw hrne, Option.map_some]
  simp only [scanFrac_more hfracne hdot, scanExp_more hne hstop]

theorem loadNumber_more {cs rest : List Char} {v : Json F} (h : loadNumber cs = some (v, rest))
    (hne : rest ≠ []) (hstop : Stops rest) (more : List Char) :
    loadNumber (cs ++ more) = some (v, rest ++ more) := by
  unfold loadNumber at h ⊢
  obtain ⟨⟨t, r⟩, ht, heq⟩ := Option.map_eq_some_iff.mp h
  cases heq
  rw [scanNumber_more ht hne hstop, Option.map_some]

/-- A mark follows, after spaces: whatever number stood before it has ended. -/
theorem stops_of_skipSpace {cs rest : List Char} {c : Char} (h : skipSpace cs = c :: rest)
    (hc : numberChar c = false) : cs ≠ [] ∧ Stops cs := by
  cases cs with
  | nil => cases h
  | cons d ds =>
    refine ⟨by simp, stops_of ?_ ds⟩
    by_cases hspace : (d = ' ' ∨ d = '\t' ∨ d = '\n' ∨ d = '\r')
    · rcases hspace with rfl | rfl | rfl | rfl <;> decide
    · have hself : skipSpace (d :: ds) = d :: ds := by
        simp only [not_or] at hspace
        simp [skipSpace, hspace]
      rw [hself] at h
      rw [(List.cons.inj h).1]
      exact hc

theorem loadValueBy_nil (fuel : Nat) : (loadValueBy hooks fuel [] : Option (Json F × List Char)) = none := by
  cases fuel <;> rfl

theorem loadItemsBy_nil (fuel : Nat) :
    (loadItemsBy hooks fuel [] : Option (List (Json F) × List Char)) = none := by
  cases fuel with
  | zero => rfl
  | succ fuel => rw [loadItemsBy, loadValueBy_nil, Option.bind_none]

theorem loadPairsBy_nil (fuel : Nat) :
    (loadPairsBy hooks fuel [] : Option (List (String × Json F) × List Char)) = none := by
  cases fuel <;> rfl

theorem skipSpace_more {cs : List Char} (h : skipSpace cs ≠ []) (more : List Char) :
    skipSpace (cs ++ more) = skipSpace cs ++ more := by
  obtain ⟨c, rest, hcs⟩ := List.exists_cons_of_ne_nil h
  rw [skipSpace_append hcs, hcs, List.cons_append]

/-- How a value that is no number begins. -/
theorem loadValueBy_cases {fuel : Nat} {cs rest : List Char} {v : Json F}
    (h : loadValueBy hooks (fuel + 1) cs = some (v, rest))
    (hnumber : (loadNumber cs : Option (Json F × List Char)) = none) :
    (∃ tail s, cs = '"' :: tail ∧ loadString tail = some (s, rest) ∧ v = .str s) ∨
    (∃ tail, cs = '[' :: tail ∧ (skipSpace tail = ']' :: rest ∧ v = .arr [] ∨
      ∃ c ds items, skipSpace tail = c :: ds ∧ c ≠ ']' ∧
        loadItemsBy hooks fuel (c :: ds) = some (items, rest) ∧ v = .arr items)) ∨
    (∃ tail, cs = '{' :: tail ∧ (skipSpace tail = '}' :: rest ∧ hooks.object [] = some v ∨
      ∃ c ds pairs, skipSpace tail = c :: ds ∧ c ≠ '}' ∧
        loadPairsBy hooks fuel (c :: ds) = some (pairs, rest) ∧ hooks.object pairs = some v)) ∨
    ∃ c literal, cs = c :: literal ++ rest ∧ ∀ (more : List Char) (n : Nat),
      loadValueBy hooks (n + 1) (c :: literal ++ more) = some (v, more) := by
  rw [loadValueBy.eq_def] at h
  dsimp only at h
  rw [hnumber] at h
  dsimp only at h
  split at h
  · rename_i tail
    obtain ⟨⟨s, r⟩, hs, heq⟩ := Option.map_eq_some_iff.mp h
    cases heq
    exact .inl ⟨tail, s, rfl, hs, rfl⟩
  · rename_i tail
    refine .inr (.inl ⟨tail, rfl, ?_⟩)
    split at h
    · rename_i ds hds
      cases h
      exact .inl ⟨hds, rfl⟩
    · rename_i hclose
      obtain ⟨⟨items, r⟩, hitems, heq⟩ := Option.map_eq_some_iff.mp h
      cases heq
      cases hskip : skipSpace tail with
      | nil =>
        rw [hskip, loadItemsBy_nil] at hitems
        cases hitems
      | cons c ds =>
        rw [hskip] at hitems
        refine .inr ⟨c, ds, items, rfl, ?_, hitems, rfl⟩
        rintro rfl
        exact hclose ds hskip
  · rename_i tail
    refine .inr (.inr (.inl ⟨tail, rfl, ?_⟩))
    split at h
    · rename_i ds hds
      obtain ⟨w, hw, heq⟩ := Option.map_eq_some_iff.mp h
      cases heq
      exact .inl ⟨hds, hw⟩
    · rename_i hclose
      obtain ⟨⟨pairs, r⟩, hpairs, hobj⟩ := Option.bind_eq_some_iff.mp h
      obtain ⟨w, hw, heq⟩ := Option.map_eq_some_iff.mp hobj
      cases heq
      cases hskip : skipSpace tail with
      | nil =>
        rw [hskip, loadPairsBy_nil] at hpairs
        cases hpairs
      | cons c ds =>
        rw [hskip] at hpairs
        refine .inr ⟨c, ds, pairs, rfl, ?_, hpairs, hw⟩
        rintro rfl
        exact hclose ds hskip
  · cases h
    exact .inr (.inr (.inr ⟨'n', "ull".toList, rfl, fun more n => loadValueBy_null n more⟩))
  · cases h
    exact .inr (.inr (.inr ⟨'t', "rue".toList, rfl, fun more n => loadValueBy_true n more⟩))
  · cases h
    exact .inr (.inr (.inr ⟨'f', "alse".toList, rfl, fun more n => loadValueBy_false n more⟩))
  · obtain ⟨w, hw, heq⟩ := Option.map_eq_some_iff.mp h
    cases heq
    exact .inr (.inr (.inr ⟨'N', "aN".toList, rfl, fun more n => loadValueBy_nan hw n more⟩))
  · obtain ⟨w, hw, heq⟩ := Option.map_eq_some_iff.mp h
    cases heq
    exact .inr (.inr (.inr ⟨'I', "nfinity".toList, rfl, fun more n => loadValueBy_infinity hw n more⟩))
  · obtain ⟨w, hw, heq⟩ := Option.map_eq_some_iff.mp h
    cases heq
    exact .inr (.inr (.inr ⟨'-', "Infinity".toList, rfl,
      fun more n => loadValueBy_minusInfinity hw n more⟩))
  · cases h

mutual

/-- A value that is read at the start of a text is read the same way when more text follows. -/
theorem loadValueBy_more : ∀ (fuel : Nat) {cs rest : List Char} {v : Json F},
    loadValueBy hooks fuel cs = some (v, rest) →
    ((loadNumber cs : Option (Json F × List Char)) ≠ none → rest ≠ [] ∧ Stops rest) →
    ∀ (more : List Char) {fuel' : Nat}, fuel ≤ fuel' →
      loadValueBy hooks fuel' (cs ++ more) = some (v, rest ++ more)
  | 0, _, _, _, h, _, _, _, _ => nomatch h
  | fuel + 1, cs, rest, v, h, hends, more, 0, hle => by omega
  | fuel + 1, cs, rest, v, h, hends, more, fuel' + 1, hle => by
    cases hnumber : (loadNumber cs : Option (Json F × List Char)) with
    | some r =>
      rw [loadValueBy_number hnumber] at h
      cases h
      obtain ⟨hne, hstop⟩ := hends (by simp [hnumber])
      exact loadValueBy_number (loadNumber_more hnumber hne hstop more)
    | none =>
      rcases loadValueBy_cases h hnumber with ⟨tail, s, rfl, hs, rfl⟩ | ⟨tail, rfl, harr⟩ |
        ⟨tail, rfl, hobj⟩ | ⟨c, literal, rfl, hliteral⟩
      · rw [List.cons_append, loadValueBy_quote, loadString_append hs, Option.map_some]
      · rcases harr with ⟨hclose, rfl⟩ | ⟨c, ds, items, hskip, hc, hitems, rfl⟩
        · rw [List.cons_append, loadValueBy_bracket, skipSpace_append hclose]
          rfl
        · have hmore := loadItemsBy_more fuel hitems more (Nat.le_of_succ_le_succ hle)
          rw [List.cons_append] at hmore
          rw [List.cons_append, loadValueBy_bracket, skipSpace_append hskip]
          split
          · rename_i heq
            exact absurd (List.cons.inj heq).1 hc
          · rw [hmore, Option.map_some]
      · rcases hobj with ⟨hclose, hv⟩ | ⟨c, ds, pairs, hskip, hc, hpairs, hv⟩
        · rw [List.cons_append, loadValueBy_curly, skipSpace_append hclose]
          show (hooks.object []).map _ = _
          rw [hv, Option.map_some]
        · have hmore := loadPairsBy_more fuel hpairs more (Nat.le_of_succ_le_succ hle)
          rw [List.cons_append] at hmore
          rw [List.cons_append, loadValueBy_curly, skipSpace_append hskip]
          split
          · rename_i heq
            exact absurd (List.cons.inj heq).1 hc
          · rw [hmore, Option.bind_some, hv, Option.map_some]
      · rw [List.append_assoc]
        exact hliteral (rest ++ more) fuel'

theorem loadItemsBy_more : ∀ (fuel : Nat) {cs rest : List Char} {items : List (Json F)},
    loadItemsBy hooks fuel cs = some (items, rest) → ∀ (more : List Char) {fuel' : Nat},
      fuel ≤ fuel' → loadItemsBy hooks fuel' (cs ++ more) = some (items, rest ++ more)
  | 0, _, _, _, h, _, _, _ => nomatch h
  | fuel + 1, cs, rest, items, h, more, 0, hle => by omega
  | fuel + 1, cs, rest, items, h, more, fuel' + 1, hle => by
    have hle := Nat.le_of_succ_le_succ hle
    rw [loadItemsBy] at h
    obtain ⟨⟨v, r⟩, hv, htail⟩ := Option.bind_eq_some_iff.mp h
    dsimp only at htail
    split at htail
    · rename_i ds hds
      cases htail
      have hmore := loadValueBy_more fuel hv (fun _ => stops_of_skipSpace hds (by decide)) more hle
      rw [loadItemsBy_item hmore, skipSpace_append hds]
      rfl
    · rename_i ds hds
      obtain ⟨⟨vs, r'⟩, hvs, heq⟩ := Option.map_eq_some_iff.mp htail
      cases heq
      have hmore := loadValueBy_more fuel hv (fun _ => stops_of_skipSpace hds (by decide)) more hle
      have hvsmore := loadItemsBy_more fuel hvs more hle
      have hne : skipSpace ds ≠ [] := by
        intro hnil
        rw [hnil, loadItemsBy_nil] at hvs
        cases hvs
      rw [loadItemsBy_item hmore, skipSpace_append hds]
      show (loadItemsBy hooks fuel' (skipSpace (ds ++ more))).map _ = _
      rw [skipSpace_more hne, hvsmore, Option.map_some]
    · cases htail

theorem loadPairsBy_more : ∀ (fuel : Nat) {cs rest : List Char} {pairs : List (String × Json F)},
    loadPairsBy hooks fuel cs = some (pairs, rest) → ∀ (more : List Char) {fuel' : Nat},
      fuel ≤ fuel' → loadPairsBy hooks fuel' (cs ++ more) = some (pairs, rest ++ more)
  | 0, _, _, _, h, _, _, _ => nomatch h
  | fuel + 1, cs, rest, pairs, h, more, 0, hle => by omega
  | fuel + 1, [], _, _, h, _, _ + 1, _ => nomatch h
  | fuel + 1, c :: cs, rest, pairs, h, more, fuel' + 1, hle => by
    have hle := Nat.le_of_succ_le_succ hle
    by_cases hc : c = '"'
    · subst hc
      rw [loadPairsBy] at h
      obtain ⟨⟨k, afterKey⟩, hk, hvalue⟩ := Option.bind_eq_some_iff.mp h
      dsimp only at hvalue
      split at hvalue
      · rename_i afterColon hcolon
        obtain ⟨⟨v, r⟩, hv, htail⟩ := Option.bind_eq_some_iff.mp hvalue
        dsimp only at htail
        have hne : skipSpace afterColon ≠ [] := by
          intro hnil
          rw [hnil, loadValueBy_nil] at hv
          cases hv
        rw [List.cons_append, loadPairsBy, loadString_append hk, Option.bind_some]
        dsimp only
        rw [skipSpace_append hcolon]
        show ((loadValueBy hooks fuel' (skipSpace (afterColon ++ more))).bind _) = _
        rw [skipSpace_more hne]
        split at htail
        · rename_i ds hds
          cases htail
          rw [loadValueBy_more fuel hv (fun _ => stops_of_skipSpace hds (by decide)) more hle,
            Option.bind_some]
          dsimp only
          rw [skipSpace_append hds]
          rfl
        · rename_i ds hds
          obtain ⟨⟨ps, r'⟩, hps, heq⟩ := Option.map_eq_some_iff.mp htail
          cases heq
          have hpsmore := loadPairsBy_more fuel hps more hle
          have hne' : skipSpace ds ≠ [] := by
            intro hnil
            rw [hnil, loadPairsBy_nil] at hps
            cases hps
          rw [loadValueBy_more fuel hv (fun _ => stops_of_skipSpace hds (by decide)) more hle,
            Option.bind_some]
          dsimp only
          rw [skipSpace_append hds]
          show (loadPairsBy hooks fuel' (skipSpace (ds ++ more))).map _ = _
          rw [skipSpace_more hne', hpsmore, Option.map_some]
        · cases htail
      · cases hvalue
    · rw [loadPairsBy] at h
      · cases h
      · exact fun ds hds => hc (List.cons.inj hds).1

end

/-- The text of an object that is cut short is no JSON text. -/
theorem loadsBy_cut (hkeeps : hooks.Keeps) {pairs : List (String × Json F)}
    (h : (Json.obj pairs).plain = true) {cut more : List Char}
    (htext : (Json.obj pairs).render .compact = cut ++ more) (hmore : more ≠ []) :
    loadsBy hooks cut = none := by
  by_contra hsome
  obtain ⟨v, hv⟩ := Option.ne_none_iff_exists'.mp hsome
  obtain ⟨⟨w, rest⟩, hload, hend⟩ := Option.bind_eq_some_iff.mp hv
  cases cut with
  | nil =>
    rw [show skipSpace [] = [] from rfl, loadValueBy_nil] at hload
    cases hload
  | cons c cs =>
    obtain rfl : c = '{' := by
      rw [Json.render, List.cons_append, List.cons_append] at htext
      exact (List.cons.inj htext).1.symm
    have hnumber : (loadNumber ('{' :: cs) : Option (Json F × List Char)) = none :=
      loadNumber_of_letter cs (by decide) (by decide) (by decide)
    rw [skipSpace_mark (by decide)] at hload
    have hweight := weight_le _ h
    have hwhole := loadValueBy_render hkeeps _ h
      (((Json.obj pairs).render .compact).length + ('{' :: cs).length + 1) (by omega) [] stops_nil
    have hlonger := loadValueBy_more _ hload (fun hne => absurd hnumber hne) more
      (Nat.succ_le_succ (Nat.le_add_left _ ((Json.obj pairs).render .compact).length))
    rw [List.append_nil, htext] at hwhole
    rw [htext, hwhole] at hlonger
    exact hmore (List.append_eq_nil_iff.mp (Prod.mk.inj (Option.some.inj hlonger)).2.symm).2

end

/-! ## The characters of a text -/

theorem numberChar_of_isDigit {c : Char} (h : isDigit c = true) : numberChar c = true := by
  simp [numberChar, h]

theorem numberChar_takeWhile {cs : List Char} : ∀ c ∈ cs.takeWhile isDigit, numberChar c = true :=
  fun _ hc => numberChar_of_isDigit (List.mem_takeWhile_imp hc)

theorem numberChar_scanNatural {cs w rest : List Char} (h : scanNatural cs = some (w, rest)) :
    ∀ c ∈ w, numberChar c = true := by
  cases cs with
  | nil => cases h
  | cons c cs =>
    rw [scanNatural] at h
    by_cases hzero : c = '0'
    · rw [if_pos hzero] at h
      cases h
      simp [numberChar, isDigit]
    · rw [if_neg hzero] at h
      by_cases hdigit : isDigit c = true
      · rw [if_pos hdigit] at h
        cases h
        exact List.forall_mem_cons.mpr ⟨numberChar_of_isDigit hdigit, numberChar_takeWhile⟩
      · rw [if_neg hdigit] at h
        cases h

theorem numberChar_scanWhole {cs w rest : List Char} (h : scanWhole cs = some (w, rest)) :
    ∀ c ∈ w, numberChar c = true := by
  unfold scanWhole at h
  split at h
  · obtain ⟨⟨w', r⟩, hscan, heq⟩ := Option.map_eq_some_iff.mp h
    cases heq
    exact List.forall_mem_cons.mpr ⟨by decide, numberChar_scanNatural hscan⟩
  · exact numberChar_scanNatural h

theorem numberChar_scanFrac (cs : List Char) : ∀ c ∈ (scanFrac cs).1, numberChar c = true := by
  unfold scanFrac
  split
  · split
    · simp
    · exact List.forall_mem_cons.mpr ⟨by decide, numberChar_takeWhile⟩
  · simp

theorem numberChar_scanSign (cs : List Char) : ∀ c ∈ (scanSign cs).1, numberChar c = true := by
  unfold scanSign
  split
  · split
    · rename_i c _ hsign
      simp only [Bool.or_eq_true, decide_eq_true_eq] at hsign
      rcases hsign with rfl | rfl <;> simp [numberChar]
    · simp
  · simp

theorem numberChar_scanExp (cs : List Char) : ∀ c ∈ (scanExp cs).1, numberChar c = true := by
  cases cs with
  | nil => simp [scanExp]
  | cons c cs =>
    by_cases hc : c = 'e' ∨ c = 'E'
    · by_cases hdigits : ((scanSign cs).2.takeWhile isDigit).isEmpty = true
      · simp [scanExp, hdigits]
      · have hletter : numberChar c = true := by rcases hc with rfl | rfl <;> decide
        rw [scanExp_letter hc hdigits, List.cons_append]
        exact List.forall_mem_cons.mpr ⟨hletter,
          List.forall_mem_append.mpr ⟨numberChar_scanSign cs, numberChar_takeWhile⟩⟩
    · rw [scanExp_other hc]
      simp

theorem numberChar_scanNumber {cs rest : List Char} {t : NumberToken}
    (h : scanNumber cs = some (t, rest)) : ∀ c ∈ t.text, numberChar c = true := by
  unfold scanNumber at h
  obtain ⟨⟨w, r⟩, hw, heq⟩ := Option.map_eq_some_iff.mp h
  simp only [Prod.mk.injEq] at heq
  obtain ⟨rfl, -⟩ := heq
  rw [NumberToken.text, List.forall_mem_append, List.forall_mem_append]
  exact ⟨numberChar_scanWhole hw, numberChar_scanFrac r, numberChar_scanExp _⟩

theorem newline_hexDigit (n : Nat) : hexDigit n ≠ '\n' := by
  have h : ∀ m < 16, Nat.digitChar m ≠ '\n' := by decide
  exact h (n % 16) (Nat.mod_lt n (by decide))

theorem newline_unicodeEscape (n : Nat) : '\n' ∉ unicodeEscape n := by
  simp [unicodeEscape, Ne.symm (newline_hexDigit _)]

theorem newline_escapeChar (c : Char) : '\n' ∉ escapeChar c := by
  unfold escapeChar
  split_ifs with h₁ h₂ h₃ h₄ h₅ h₆ h₇ h₈ h₉
  all_goals try decide
  · simp only [List.mem_singleton]
    exact fun h => h₃ h.symm
  · exact newline_unicodeEscape _
  · rw [List.mem_append]
    exact fun h => h.elim (newline_unicodeEscape _) (newline_unicodeEscape _)

theorem newline_renderString (s : String) : '\n' ∉ renderString s := by
  have hbody : '\n' ∉ s.toList.flatMap escapeChar := by
    rw [List.mem_flatMap]
    rintro ⟨c, -, hc⟩
    exact newline_escapeChar c hc
  simp [renderString, hbody]

section
variable [FloatText F]

mutual

/-- A compact text is one line. -/
theorem newline_render : ∀ (v : Json F), '\n' ∉ v.render .compact
  | .null => by simp [Json.render]
  | .bool true => by simp [Json.render]
  | .bool false => by simp [Json.render]
  | .int n => by
    rw [Json.render, toList_intText]
    have hdigits : '\n' ∉ Nat.toDigits 10 n.natAbs := fun hmem =>
      absurd (Nat.isDigit_of_mem_toDigits (by decide) (by decide) hmem) (by decide)
    split
    · exact hdigits
    · simp [hdigits]
  | .float x => by
    obtain ⟨t, hscan, htext, -⟩ := FloatText.scan_repr x
    rw [Json.render, ← htext]
    exact fun hmem => absurd (numberChar_scanNumber hscan _ hmem) (by decide)
  | .nonfinite => by simp [Json.render]
  | .str s => newline_renderString s
  | .arr items => by
    have hitems := newline_renderItems items
    simp [Json.render, hitems]
  | .obj pairs => by
    have hpairs := newline_renderPairs pairs
    simp [Json.render, hpairs]

theorem newline_renderItems : ∀ (items : List (Json F)), '\n' ∉ renderItems .compact items
  | [] => by simp [renderItems]
  | [v] => by
    rw [renderItems]
    exact newline_render v
  | v :: w :: vs => by
    have hv := newline_render v
    have hvs := newline_renderItems (w :: vs)
    rw [renderItems_cons]
    simp [hv, hvs]

theorem newline_renderPairs : ∀ (pairs : List (String × Json F)), '\n' ∉ renderPairs .compact pairs
  | [] => by simp [renderPairs]
  | [(k, v)] => by
    have hk := newline_renderString k
    have hv := newline_render v
    rw [renderPairs]
    simp only [List.mem_append, not_or]
    exact ⟨hk, by decide, hv⟩
  | (k, v) :: p :: ps => by
    have hk := newline_renderString k
    have hv := newline_render v
    have hps := newline_renderPairs (p :: ps)
    rw [renderPairs_cons]
    simp [hk, hv, hps]

end

end

/-! ## Sorted keys -/

mutual

/-- What `json.dumps(…, sort_keys=True)` writes: the members of every object by rising keys. -/
def Json.sorted : Json F → Json F
  | .arr items => .arr (sortedItems items)
  | .obj pairs => .obj ((sortedPairs pairs).insertionSort fun a b => a.1 ≤ b.1)
  | v => v

def sortedItems : List (Json F) → List (Json F)
  | [] => []
  | v :: vs => v.sorted :: sortedItems vs

def sortedPairs : List (String × Json F) → List (String × Json F)
  | [] => []
  | (k, v) :: ps => (k, v.sorted) :: sortedPairs ps

end

theorem keys_sortedPairs (pairs : List (String × Json F)) :
    (sortedPairs pairs).map Prod.fst = pairs.map Prod.fst := by
  induction pairs with
  | nil => rfl
  | cons p ps ih => rw [sortedPairs, List.map_cons, List.map_cons, ih]

theorem lookup_sortedPairs (pairs : List (String × Json F)) (k : String) :
    (sortedPairs pairs).lookup k = (pairs.lookup k).map Json.sorted := by
  induction pairs with
  | nil => rfl
  | cons p ps ih =>
    rw [sortedPairs, List.lookup_cons, List.lookup_cons, ih]
    split <;> rfl

theorem plainPairs_iff {pairs : List (String × Json F)} :
    plainPairs pairs = true ↔ ∀ p ∈ pairs, p.2.plain = true := by
  induction pairs with
  | nil => simp [plainPairs]
  | cons p ps ih => simp [plainPairs, ih]

mutual

/-- Sorting keeps a value plain. -/
theorem plain_sorted : ∀ (v : Json F), v.plain = true → v.sorted.plain = true
  | .null, h => h
  | .bool _, h => h
  | .int _, h => h
  | .float _, h => h
  | .nonfinite, h => h
  | .str _, h => h
  | .arr items, h => plainItems_sorted items h
  | .obj pairs, h => by
    obtain ⟨hnodup, hplain⟩ : (pairs.map Prod.fst).Nodup ∧ plainPairs pairs = true := by
      simpa only [Json.plain, Bool.and_eq_true, decide_eq_true_eq] using h
    have hperm := List.perm_insertionSort (fun a b : String × Json F => a.1 ≤ b.1) (sortedPairs pairs)
    have hkeys := (hperm.map Prod.fst).nodup_iff.mpr (keys_sortedPairs pairs ▸ hnodup)
    have hmembers : plainPairs ((sortedPairs pairs).insertionSort fun a b => a.1 ≤ b.1) = true :=
      plainPairs_iff.mpr fun p hp =>
        plainPairs_iff.mp (plainPairs_sorted pairs hplain) p (hperm.mem_iff.mp hp)
    simp only [Json.sorted, Json.plain, Bool.and_eq_true, decide_eq_true_eq]
    exact ⟨hkeys, hmembers⟩

theorem plainItems_sorted : ∀ (items : List (Json F)), plainItems items = true →
    plainItems (sortedItems items) = true
  | [], _ => rfl
  | v :: vs, h => by
    rw [plainItems, Bool.and_eq_true] at h
    rw [sortedItems, plainItems, plain_sorted v h.1, plainItems_sorted vs h.2, Bool.and_self]

theorem plainPairs_sorted : ∀ (pairs : List (String × Json F)), plainPairs pairs = true →
    plainPairs (sortedPairs pairs) = true
  | [], _ => rfl
  | (_, v) :: ps, h => by
    rw [plainPairs, Bool.and_eq_true] at h
    rw [sortedPairs, plainPairs, plain_sorted v h.1, plainPairs_sorted ps h.2, Bool.and_self]

end

/-- The order of the members does not matter to a lookup. -/
theorem lookup_perm {l l' : List (String × Json F)} (hnodup : (l.map Prod.fst).Nodup)
    (h : l.Perm l') (k : String) : l.lookup k = l'.lookup k := by
  induction h with
  | nil => rfl
  | cons p _ ih =>
    rw [List.lookup_cons, List.lookup_cons, ih (List.nodup_cons.mp hnodup).2]
  | swap p q l =>
    have hne : q.1 ≠ p.1 := fun heq => by simp [heq] at hnodup
    rw [List.lookup_cons, List.lookup_cons, List.lookup_cons, List.lookup_cons]
    by_cases hp : k = p.1
    · have hq : (k == q.1) = false := beq_eq_false_iff_ne.mpr fun heq => hne (heq ▸ hp)
      rw [hq]
    · have hp' : (k == p.1) = false := beq_eq_false_iff_ne.mpr hp
      rw [hp']
  | trans h₁ _ ih₁ ih₂ =>
    exact (ih₁ hnodup).trans (ih₂ ((h₁.map Prod.fst).nodup_iff.mp hnodup))

end Dt.Lib
