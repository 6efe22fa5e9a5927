import Dt.Lib.JsonText

/-!
# Indented JSON texts

`Json.indented` is `json.dumps(…, indent=1)`: every item and every member stands on its own line,
behind one space for each level. A value is read back from such a text as from its compact one, and
two values with one text are the same.
-/

namespace Dt.Lib

variable {F : Type} [FloatText F] {hooks : Hooks F}

/-- A new line at some level. -/
def newline (level : Nat) : List Char := '\n' :: List.replicate level ' '

mutual

/-- `json.dumps(…, indent=1)` of a value at some level. -/
def Json.indented (level : Nat) : Json F → List Char
  | .arr items => '[' :: (indentedItems level items ++ [']'])
  | .obj pairs => '{' :: (indentedPairs level pairs ++ ['}'])
  | v => v.render .compact

def indentedItems (level : Nat) : List (Json F) → List Char
  | [] => []
  | [v] => newline (level + 1) ++ (v.indented (level + 1) ++ newline level)
  | v :: vs => newline (level + 1) ++ (v.indented (level + 1) ++ ',' :: indentedItems level vs)

def indentedPairs (level : Nat) : List (String × Json F) → List Char
  | [] => []
  | [(k, v)] => newline (level + 1) ++ (renderString k ++ (':' :: ' ' ::
      (v.indented (level + 1) ++ newline level)))
  | (k, v) :: ps => newline (level + 1) ++ (renderString k ++ (':' :: ' ' ::
      (v.indented (level + 1) ++ ',' :: indentedPairs level ps)))

end

/-! ## Space -/

theorem skipSpace_space {c : Char} (hc : c = ' ' ∨ c = '\n') (cs : List Char) :
    skipSpace (c :: cs) = skipSpace cs := by
  unfold skipSpace
  rcases hc with rfl | rfl <;> exact List.dropWhile_cons_of_pos (by decide)

@[simp] theorem skipSpace_newline (level : Nat) (cs : List Char) :
    skipSpace (newline level ++ cs) = skipSpace cs := by
  rw [newline, List.cons_append, skipSpace_space (.inr rfl)]
  induction level with
  | zero => rfl
  | succ level ih => rw [List.replicate_succ, List.cons_append, skipSpace_space (.inl rfl), ih]

theorem stops_newline (level : Nat) (cs : List Char) : Stops (newline level ++ cs) :=
  stops_of (by decide) _

theorem indentedItems_cons (level : Nat) (v w : Json F) (vs : List (Json F)) :
    indentedItems level (v :: w :: vs) =
      newline (level + 1) ++ (v.indented (level + 1) ++ ',' :: indentedItems level (w :: vs)) := by
  rw [indentedItems]
  simp

theorem indentedPairs_cons (level : Nat) (k : String) (v : Json F) (p : String × Json F)
    (ps : List (String × Json F)) :
    indentedPairs level ((k, v) :: p :: ps) = newline (level + 1) ++ (renderString k ++ (':' :: ' ' ::
      (v.indented (level + 1) ++ ',' :: indentedPairs level (p :: ps)))) := by
  rw [indentedPairs]
  simp

/-- A value begins with neither space nor a bracket that closes. -/
theorem head_indented (level : Nat) {v : Json F} (h : v.plain = true) :
    ∃ c cs, v.indented level = c :: cs ∧ skipSpace [c] = [c] ∧ c ≠ ']' := by
  have hscalar : v.indented level = v.render .compact →
      ∃ c cs, v.indented level = c :: cs ∧ skipSpace [c] = [c] ∧ c ≠ ']' := by
    intro hrender
    obtain ⟨c, cs, hcs, hc⟩ := begins_render h
    refine ⟨c, cs, hrender.trans hcs, hc, ?_⟩
    rintro rfl
    exact head_render_ne h hcs
  cases v with
  | arr items => exact ⟨'[', _, by rw [Json.indented], by decide, by decide⟩
  | obj pairs => exact ⟨'{', _, by rw [Json.indented], by decide, by decide⟩
  | _ => exact hscalar (by rw [Json.indented] <;> simp)

theorem skipSpace_indented (level : Nat) {v : Json F} (h : v.plain = true) (rest : List Char) :
    skipSpace (v.indented level ++ rest) = v.indented level ++ rest := by
  obtain ⟨c, cs, hcs, hc, -⟩ := head_indented level h
  rw [hcs, List.cons_append]
  exact skipSpace_mark hc _

/-! ## Reading -/

/-- An array in which an item stands. -/
theorem loadValueBy_items_of (fuel : Nat) {cs : List Char} (h : ∀ rest, skipSpace cs ≠ ']' :: rest) :
    (loadValueBy hooks (fuel + 1) ('[' :: cs) : Option (Json F × List Char)) =
      (loadItemsBy hooks fuel (skipSpace cs)).map fun r => (.arr r.1, r.2) := by
  rw [loadValueBy_bracket]
  split
  · rename_i rest heq
    exact absurd heq (h rest)
  · rfl

/-- An object in which a member stands. -/
theorem loadValueBy_members_of (hkeeps : hooks.Keeps) (fuel : Nat) {cs quoted rest : List Char}
    {pairs : List (String × Json F)} (hquote : skipSpace cs = '"' :: quoted)
    (hnodup : (pairs.map Prod.fst).Nodup) (h : loadPairsBy hooks fuel (skipSpace cs) = some (pairs, rest)) :
    loadValueBy hooks (fuel + 1) ('{' :: cs) = some (.obj pairs, rest) := by
  rw [loadValueBy_curly, hquote]
  rw [hquote] at h
  show ((loadPairsBy hooks fuel ('"' :: quoted)).bind _) = _
  rw [h, Option.bind_some, hkeeps pairs hnodup, Option.map_some]

/-- What `loadPairs` does after a member whose value stands behind a space. -/
theorem loadPairsBy_spaced {fuel : Nat} {k : String} {cs rest : List Char} {v : Json F}
    (hcs : skipSpace cs = cs) (h : loadValueBy hooks fuel cs = some (v, rest)) :
    loadPairsBy hooks (fuel + 1) (renderString k ++ (':' :: ' ' :: cs)) =
      match skipSpace rest with
      | '}' :: rest => some ([(k, v)], rest)
      | ',' :: rest => (loadPairsBy hooks fuel (skipSpace rest)).map fun r => ((k, v) :: r.1, r.2)
      | _ => none := by
  rw [renderString_append, loadPairsBy, loadString_escape, Option.bind_some,
    skipSpace_mark (by decide)]
  show ((loadValueBy hooks fuel (skipSpace (' ' :: cs))).bind fun v => _) = _
  rw [skipSpace_space (.inl rfl), hcs, h]
  rfl

theorem skipSpace_key (k : String) (rest : List Char) :
    skipSpace (renderString k ++ rest) = renderString k ++ rest := by
  rw [renderString_append]
  exact skipSpace_mark (by decide) _

theorem skipSpace_indentedItems (level : Nat) (v : Json F) (vs : List (Json F)) (hv : v.plain = true)
    (tail : List Char) : ∃ more, indentedItems level (v :: vs) ++ tail =
      newline (level + 1) ++ (v.indented (level + 1) ++ more) ∧
        skipSpace (indentedItems level (v :: vs) ++ tail) = v.indented (level + 1) ++ more := by
  obtain ⟨more, hmore⟩ : ∃ more, indentedItems level (v :: vs) ++ tail =
      newline (level + 1) ++ (v.indented (level + 1) ++ more) := by
    cases vs with
    | nil => exact ⟨newline level ++ tail, by simp [indentedItems]⟩
    | cons w vs => exact ⟨_, by rw [indentedItems_cons, List.append_assoc, List.append_assoc]⟩
  exact ⟨more, hmore, by rw [hmore, skipSpace_newline, skipSpace_indented _ hv]⟩

theorem skipSpace_indentedPairs (level : Nat) (k : String) (v : Json F) (ps : List (String × Json F))
    (tail : List Char) : ∃ quoted, skipSpace (indentedPairs level ((k, v) :: ps) ++ tail) =
      '"' :: quoted := by
  obtain ⟨more, hmore⟩ : ∃ more, indentedPairs level ((k, v) :: ps) ++ tail =
      newline (level + 1) ++ (renderString k ++ more) := by
    cases ps with
    | nil => exact ⟨_, by rw [indentedPairs, List.append_assoc, List.append_assoc]⟩
    | cons p ps => exact ⟨_, by rw [indentedPairs_cons, List.append_assoc, List.append_assoc]⟩
  exact ⟨_, by rw [hmore, skipSpace_newline, skipSpace_key, renderString_append]⟩

mutual

/-- A value is read back from its indented text, whatever stops the number that may end it. -/
theorem loadValueBy_indented (hkeeps : hooks.Keeps) (level : Nat) : ∀ (v : Json F), v.plain = true →
    ∀ (fuel : Nat), v.weight ≤ fuel → ∀ (rest : List Char), Stops rest →
      loadValueBy hooks fuel (v.indented level ++ rest) = some (v, rest)
  | .arr [], _, 0, hfuel, _, _ => by simp [Json.weight] at hfuel
  | .arr [], _, fuel + 1, _, rest, _ => by
    have htext : (Json.arr [] : Json F).indented level ++ rest = '[' :: ']' :: rest := by
      simp [Json.indented, indentedItems]
    rw [htext, loadValueBy_bracket, skipSpace_mark (by decide)]
    rfl
  | .arr (_ :: _), _, 0, hfuel, _, _ => by simp [Json.weight] at hfuel
  | .arr (v :: vs), hv, fuel + 1, hfuel, rest, _ => by
    have hplain : plainItems (v :: vs) = true := by simpa [Json.plain] using hv
    have hfirst : v.plain = true := by
      rw [plainItems, Bool.and_eq_true] at hplain
      exact hplain.1
    have htext : (Json.arr (v :: vs)).indented level ++ rest =
        '[' :: (indentedItems level (v :: vs) ++ ']' :: rest) := by
      simp [Json.indented]
    obtain ⟨more, -, hskip⟩ := skipSpace_indentedItems level v vs hfirst (']' :: rest)
    obtain ⟨c, cs, hcs, -, hc⟩ := head_indented (level + 1) hfirst
    have hload := loadItemsBy_indented hkeeps level (v :: vs) (by simp) hplain fuel
      (by simpa [Json.weight] using hfuel) rest
    have hne : ∀ rest', skipSpace (indentedItems level (v :: vs) ++ ']' :: rest) ≠ ']' :: rest' := by
      intro rest' heq
      rw [hskip, hcs, List.cons_append] at heq
      exact hc (List.cons.inj heq).1
    rw [htext, loadValueBy_items_of fuel hne, hload, Option.map_some]
  | .obj [], _, 0, hfuel, _, _ => by simp [Json.weight] at hfuel
  | .obj [], _, fuel + 1, _, rest, _ => by
    have htext : (Json.obj [] : Json F).indented level ++ rest = '{' :: '}' :: rest := by
      simp [Json.indented, indentedPairs]
    rw [htext, loadValueBy_curly, skipSpace_mark (by decide)]
    show (hooks.object []).map _ = _
    rw [hkeeps [] (by simp), Option.map_some]
  | .obj (_ :: _), _, 0, hfuel, _, _ => by simp [Json.weight] at hfuel
  | .obj ((k, v) :: ps), hv, fuel + 1, hfuel, rest, _ => by
    obtain ⟨hnodup, hplain⟩ :
        (((k, v) :: ps).map Prod.fst).Nodup ∧ plainPairs ((k, v) :: ps) = true := by
      simpa only [Json.plain, Bool.and_eq_true, decide_eq_true_eq] using hv
    have htext : (Json.obj ((k, v) :: ps)).indented level ++ rest =
        '{' :: (indentedPairs level ((k, v) :: ps) ++ '}' :: rest) := by
      simp [Json.indented]
    obtain ⟨quoted, hquote⟩ := skipSpace_indentedPairs level k v ps ('}' :: rest)
    have hload := loadPairsBy_indented hkeeps level ((k, v) :: ps) (by simp) hplain fuel
      (by simpa [Json.weight] using hfuel) rest
    rw [htext, loadValueBy_members_of hkeeps fuel hquote hnodup hload]
  | .null, hv, fuel, hfuel, rest, hrest => by
    rw [Json.indented]
    · exact loadValueBy_render hkeeps .null hv fuel hfuel rest hrest
    all_goals simp
  | .bool b, hv, fuel, hfuel, rest, hrest => by
    rw [Json.indented]
    · exact loadValueBy_render hkeeps (.bool b) hv fuel hfuel rest hrest
    all_goals simp
  | .int n, hv, fuel, hfuel, rest, hrest => by
    rw [Json.indented]
    · exact loadValueBy_render hkeeps (.int n) hv fuel hfuel rest hrest
    all_goals simp
  | .float x, hv, fuel, hfuel, rest, hrest => by
    rw [Json.indented]
    · exact loadValueBy_render hkeeps (.float x) hv fuel hfuel rest hrest
    all_goals simp
  | .str s, hv, fuel, hfuel, rest, hrest => by
    rw [Json.indented]
    · exact loadValueBy_render hkeeps (.str s) hv fuel hfuel rest hrest
    all_goals simp

theorem loadItemsBy_indented (hkeeps : hooks.Keeps) (level : Nat) : ∀ (items : List (Json F)),
    items ≠ [] → plainItems items = true → ∀ (fuel : Nat), weightItems items ≤ fuel →
      ∀ (rest : List Char),
        loadItemsBy hooks fuel (skipSpace (indentedItems level items ++ ']' :: rest)) =
          some (items, rest)
  | [], hne, _, _, _, _ => absurd rfl hne
  | v :: vs, _, _, 0, hfuel, _ => by simp [weightItems] at hfuel
  | [v], _, hplain, fuel + 1, hfuel, rest => by
    have hv : v.plain = true := by simpa [plainItems] using hplain
    have hload := loadValueBy_indented hkeeps (level + 1) v hv fuel
      (by simp [weightItems] at hfuel; omega) (newline level ++ ']' :: rest) (stops_newline _ _)
    rw [indentedItems, List.append_assoc, List.append_assoc, skipSpace_newline,
      skipSpace_indented _ hv, loadItemsBy_item hload, skipSpace_newline, skipSpace_mark (by decide)]
    rfl
  | v :: w :: vs, _, hplain, fuel + 1, hfuel, rest => by
    obtain ⟨hv, hvs⟩ : v.plain = true ∧ plainItems (w :: vs) = true := by
      simpa [plainItems] using hplain
    have hload := loadValueBy_indented hkeeps (level + 1) v hv fuel
      (by simp [weightItems] at hfuel; omega)
      (',' :: (indentedItems level (w :: vs) ++ ']' :: rest)) (stops_comma _)
    have hmore := loadItemsBy_indented hkeeps level (w :: vs) (by simp) hvs fuel
      (by simp [weightItems] at hfuel ⊢; omega) rest
    rw [indentedItems_cons, List.append_assoc, List.append_assoc, List.cons_append,
      skipSpace_newline, skipSpace_indented _ hv, loadItemsBy_item hload, skipSpace_mark (by decide)]
    show (loadItemsBy hooks fuel (skipSpace _)).map _ = _
    rw [hmore, Option.map_some]

theorem loadPairsBy_indented (hkeeps : hooks.Keeps) (level : Nat) :
    ∀ (pairs : List (String × Json F)), pairs ≠ [] → plainPairs pairs = true → ∀ (fuel : Nat),
      weightPairs pairs ≤ fuel → ∀ (rest : List Char),
        loadPairsBy hooks fuel (skipSpace (indentedPairs level pairs ++ '}' :: rest)) =
          some (pairs, rest)
  | [], hne, _, _, _, _ => absurd rfl hne
  | (_, v) :: ps, _, _, 0, hfuel, _ => by simp [weightPairs] at hfuel
  | [(k, v)], _, hplain, fuel + 1, hfuel, rest => by
    have hv : v.plain = true := by simpa [plainPairs] using hplain
    have hload := loadValueBy_indented hkeeps (level + 1) v hv fuel
      (by simp [weightPairs] at hfuel; omega) (newline level ++ '}' :: rest) (stops_newline _ _)
    have htext : indentedPairs level [(k, v)] ++ '}' :: rest = newline (level + 1) ++
        (renderString k ++ (':' :: ' ' :: (v.indented (level + 1) ++ (newline level ++ '}' :: rest)))) := by
      simp [indentedPairs]
    rw [htext, skipSpace_newline, skipSpace_key, loadPairsBy_spaced (skipSpace_indented _ hv _) hload,
      skipSpace_newline, skipSpace_mark (by decide)]
    rfl
  | (k, v) :: p :: ps, _, hplain, fuel + 1, hfuel, rest => by
    obtain ⟨hv, hps⟩ : v.plain = true ∧ plainPairs (p :: ps) = true := by
      simpa [plainPairs] using hplain
    have hload := loadValueBy_indented hkeeps (level + 1) v hv fuel
      (by simp [weightPairs] at hfuel; omega)
      (',' :: (indentedPairs level (p :: ps) ++ '}' :: rest)) (stops_comma _)
    have hmore := loadPairsBy_indented hkeeps level (p :: ps) (by simp) hps fuel
      (by simp [weightPairs] at hfuel ⊢; omega) rest
    have htext : indentedPairs level ((k, v) :: p :: ps) ++ '}' :: rest = newline (level + 1) ++
        (renderString k ++ (':' :: ' ' :: (v.indented (level + 1) ++
          ',' :: (indentedPairs level (p :: ps) ++ '}' :: rest)))) := by
      simp [indentedPairs_cons]
    rw [htext, skipSpace_newline, skipSpace_key, loadPairsBy_spaced (skipSpace_indented _ hv _) hload,
      skipSpace_mark (by decide)]
    show (loadPairsBy hooks fuel (skipSpace _)).map _ = _
    rw [hmore, Option.map_some]

end

theorem weight_pos (level : Nat) (v : Json F) (hweight : v.weight = 1)
    (hplain : v.plain = true) : v.weight ≤ (v.indented level).length := by
  obtain ⟨c, cs, hcs, -⟩ := head_indented level hplain
  rw [hweight, hcs]
  exact Nat.succ_le_succ (Nat.zero_le _)

mutual

theorem weight_le_indented (level : Nat) : ∀ (v : Json F), v.plain = true →
    v.weight ≤ (v.indented level).length
  | .arr items, h => by
    have hitems := weightItems_le_indented level items (by simpa [Json.plain] using h)
    simp only [Json.indented, Json.weight, List.length_append, List.length_cons, List.length_nil]
    omega
  | .obj pairs, h => by
    rw [Json.plain, Bool.and_eq_true] at h
    have hpairs := weightPairs_le_indented level pairs h.2
    simp only [Json.indented, Json.weight, List.length_append, List.length_cons, List.length_nil]
    omega
  | .null, _ => weight_pos level .null rfl rfl
  | .bool b, _ => weight_pos level (.bool b) rfl rfl
  | .int n, _ => weight_pos level (.int n) rfl rfl
  | .float x, _ => weight_pos level (.float x) rfl rfl
  | .str s, _ => weight_pos level (.str s) rfl rfl

theorem weightItems_le_indented (level : Nat) : ∀ (items : List (Json F)), plainItems items = true →
    weightItems items ≤ (indentedItems level items).length
  | [], _ => Nat.le_refl 0
  | [v], h => by
    have hv := weight_le_indented (level + 1) v (by simpa [plainItems] using h)
    simp only [indentedItems, weightItems, newline, List.length_append, List.length_cons]
    omega
  | v :: w :: vs, h => by
    obtain ⟨hv, hvs⟩ : v.plain = true ∧ plainItems (w :: vs) = true := by
      simpa [plainItems] using h
    have hhead := weight_le_indented (level + 1) v hv
    have htail := weightItems_le_indented level (w :: vs) hvs
    rw [indentedItems_cons, weightItems]
    simp only [List.length_append, List.length_cons]
    omega

theorem weightPairs_le_indented (level : Nat) : ∀ (pairs : List (String × Json F)),
    plainPairs pairs = true → weightPairs pairs ≤ (indentedPairs level pairs).length
  | [], _ => Nat.le_refl 0
  | [(k, v)], h => by
    have hv := weight_le_indented (level + 1) v (by simpa [plainPairs] using h)
    simp only [indentedPairs, weightPairs, newline, List.length_append, List.length_cons]
    omega
  | (k, v) :: p :: ps, h => by
    obtain ⟨hv, hps⟩ : v.plain = true ∧ plainPairs (p :: ps) = true := by
      simpa [plainPairs] using h
    have hhead := weight_le_indented (level + 1) v hv
    have htail := weightPairs_le_indented level (p :: ps) hps
    rw [indentedPairs_cons, weightPairs]
    simp only [List.length_append, List.length_cons]
    omega

end

end Dt.Lib
