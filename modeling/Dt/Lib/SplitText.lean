import Mathlib.Data.List.Infix
import Dt.Lib.Text

/-!
# Splitting at a text

`splitText` cuts a text at each place where a separator stands, from the left. On lines without the
separator it cuts at the separators between them only; and a separator in a part of the text always cuts
at, or before, its own place.
-/

namespace Dt.Lib

variable {sep : List Char}

/-- `cur` is the piece being read, and so many characters of a separator are to be skipped. -/
def splitTextAux (sep : List Char) : Nat → List Char → List Char → List (List Char)
  | _, [], cur => [cur.reverse]
  | skip + 1, _ :: cs, cur => splitTextAux sep skip cs cur
  | 0, c :: cs, cur =>
    if sep <+: c :: cs then cur.reverse :: splitTextAux sep (sep.length - 1) cs []
    else splitTextAux sep 0 cs (c :: cur)

/-- `s.split(sep)` -/
def splitText (sep s : List Char) : List (List Char) := splitTextAux sep 0 s []

theorem splitTextAux_skip {skipped : List Char} (s cur : List Char) :
    splitTextAux sep skipped.length (skipped ++ s) cur = splitTextAux sep 0 s cur := by
  induction skipped with
  | nil => rfl
  | cons c skipped ih =>
    rw [List.length_cons, List.cons_append, splitTextAux]
    exact ih

example : splitText ['-', '-'] ['a', '-', '-', 'b'] = [['a'], ['b']] := by decide +kernel

/-- A separator where the text is being read. -/
theorem splitTextAux_sep (hne : sep ≠ []) (s cur : List Char) :
    splitTextAux sep 0 (sep ++ s) cur = cur.reverse :: splitText sep s := by
  obtain ⟨c, cs, rfl⟩ := List.exists_cons_of_ne_nil hne
  have hprefix : c :: cs <+: c :: (cs ++ s) := List.prefix_append (c :: cs) s
  rw [List.cons_append, splitTextAux, if_pos hprefix]
  exact congrArg (_ :: ·) (splitTextAux_skip s [])

/-- A separator without the character is on one side of it. -/
theorem infix_of_infix_cut {c : Char} (hc : c ∉ sep) {a b : List Char} (h : sep <:+: a ++ c :: b) :
    sep <:+: a ∨ sep <:+: b := by
  obtain ⟨x, y, hxy⟩ := h
  rw [List.append_assoc] at hxy
  rcases List.append_eq_append_iff.mp hxy with ⟨m, ha, hm⟩ | ⟨m, hx, hm⟩
  · rcases List.append_eq_append_iff.mp hm with ⟨k, hk, hy⟩ | ⟨k, hk, hy⟩
    · exact .inl ⟨x, k, by rw [ha, hk, List.append_assoc]⟩
    · cases k with
      | nil => exact .inl ⟨x, [], by rw [ha, hk]; simp⟩
      | cons d k =>
        obtain ⟨rfl, -⟩ := List.cons.inj hy
        exact absurd (hk ▸ List.mem_append_right m List.mem_cons_self) hc
  · cases m with
    | nil =>
      rw [List.nil_append] at hm
      cases sep with
      | nil => exact .inl (List.nil_infix)
      | cons d ds =>
        obtain ⟨rfl, -⟩ := List.cons.inj hm
        exact absurd List.mem_cons_self hc
    | cons d m =>
      obtain ⟨-, hb⟩ := List.cons.inj hm
      exact .inr ⟨m, y, by rw [hb, List.append_assoc]; rfl⟩

/-- A line without a separator. -/
theorem splitTextAux_line (hnl : '\n' ∉ sep) {l : List Char} (hl : ¬sep <:+: l) (s cur : List Char) :
    splitTextAux sep 0 (l ++ '\n' :: s) cur = splitTextAux sep 0 s ('\n' :: (l.reverse ++ cur)) := by
  induction l generalizing cur with
  | nil =>
    have hnot : ¬sep <+: '\n' :: s := fun hp => by
      cases sep with
      | nil => exact hl List.nil_infix
      | cons c cs =>
        obtain ⟨rfl, -⟩ := List.cons_prefix_cons.mp hp
        exact hnl List.mem_cons_self
    rw [List.nil_append, splitTextAux, if_neg hnot]
    rfl
  | cons c l ih =>
    have hnot : ¬sep <+: c :: (l ++ '\n' :: s) := fun hp => by
      rcases List.prefix_or_prefix_of_prefix hp (List.prefix_append (c :: l) ('\n' :: s)) with h | h
      · exact hl h.isInfix
      · -- the separator would go on over the end of the line
        obtain ⟨t, rfl⟩ := h
        have hrest := (List.prefix_append_right_inj (c :: l)).mp hp
        cases t with
        | nil => exact hl ⟨[], [], by simp⟩
        | cons d t =>
          obtain ⟨rfl, -⟩ := List.cons_prefix_cons.mp hrest
          exact hnl (List.mem_append_right _ List.mem_cons_self)
    rw [List.cons_append, splitTextAux, if_neg hnot, ih fun h => hl (h.trans (List.suffix_cons c l).isInfix)]
    simp

theorem splitTextAux_lines (hnl : '\n' ∉ sep) {ls : List (List Char)} (h : ∀ l ∈ ls, ¬sep <:+: l)
    (s cur : List Char) :
    splitTextAux sep 0 (unlines ls ++ s) cur = splitTextAux sep 0 s ((unlines ls).reverse ++ cur) := by
  induction ls generalizing cur with
  | nil => rfl
  | cons l ls ih =>
    have hcons : unlines (l :: ls) = l ++ '\n' :: unlines ls := by simp [unlines]
    rw [hcons, List.append_assoc, List.cons_append, splitTextAux_line hnl (h l List.mem_cons_self),
      ih fun m hm => h m (List.mem_cons_of_mem _ hm)]
    simp

/-- Lines without a separator, and behind them a separator or nothing. -/
theorem splitText_lines (hnl : '\n' ∉ sep) (hne : sep ≠ []) {ls : List (List Char)}
    (h : ∀ l ∈ ls, ¬sep <:+: l) (s : List Char) :
    splitText sep (unlines ls ++ (sep ++ s)) = unlines ls :: splitText sep s ∧
      splitText sep (unlines ls) = [unlines ls] := by
  constructor
  · rw [splitText, splitTextAux_lines hnl h, splitTextAux_sep hne]
    simp
  · have hlines := splitTextAux_lines hnl h [] []
    rw [List.append_nil, List.append_nil] at hlines
    rw [splitText, hlines, splitTextAux, List.reverse_reverse]

/-- A separator in the text cuts it, there or before. -/
theorem splitTextAux_infix (hne : sep ≠ []) (s cur : List Char) {skip : Nat} {x y : List Char}
    (h : s = x ++ (sep ++ y)) (hskip : skip ≤ x.length) : ∃ piece a rest, a.length ≤ x.length ∧
      s = a ++ (sep ++ rest) ∧ splitTextAux sep skip s cur = piece :: splitText sep rest := by
  induction s generalizing skip x cur with
  | nil => simp [hne] at h
  | cons c s ih =>
    cases skip with
    | succ skip =>
      cases x with
      | nil => exact absurd hskip (Nat.not_succ_le_zero _)
      | cons d x =>
        obtain ⟨rfl, hs⟩ := List.cons.inj h
        obtain ⟨piece, a, rest, hle, heq, hsplit⟩ := ih cur hs (Nat.le_of_succ_le_succ hskip)
        refine ⟨piece, c :: a, rest, Nat.succ_le_succ hle, by rw [heq]; rfl, ?_⟩
        rw [splitTextAux, hsplit]
    | zero =>
      by_cases hprefix : sep <+: c :: s
      · obtain ⟨rest, hrest⟩ := hprefix
        refine ⟨cur.reverse, [], rest, Nat.zero_le _, hrest.symm, ?_⟩
        rw [← hrest, splitTextAux_sep hne]
      · cases x with
        | nil => exact absurd ⟨y, h.symm⟩ hprefix
        | cons d x =>
          obtain ⟨rfl, hs⟩ := List.cons.inj h
          obtain ⟨piece, a, rest, hle, heq, hsplit⟩ := ih (c :: cur) hs (Nat.zero_le _)
          refine ⟨piece, c :: a, rest, Nat.succ_le_succ hle, by rw [heq]; rfl, ?_⟩
          rw [splitTextAux, if_neg hprefix, hsplit]

theorem splitTextAux_ne_nil (s cur : List Char) (skip : Nat) : splitTextAux sep skip s cur ≠ [] := by
  induction s generalizing cur skip with
  | nil => cases skip <;> exact List.cons_ne_nil _ _
  | cons c s ih =>
    cases skip with
    | succ skip => exact ih cur skip
    | zero =>
      rw [splitTextAux]
      split
      · exact List.cons_ne_nil _ _
      · exact ih (c :: cur) 0

/-- A separator in a section makes more pieces of it. -/
theorem length_splitText_infix (hne : sep ≠ []) {body : List Char} (h : sep <:+: body) (s : List Char) :
    3 ≤ (splitText sep (body ++ (sep ++ s))).length := by
  obtain ⟨x, y, hbody⟩ := h
  have htext : body ++ (sep ++ s) = x ++ (sep ++ (y ++ (sep ++ s))) := by
    rw [← hbody]
    simp only [List.append_assoc]
  obtain ⟨piece, a, rest, hle, heq, hsplit⟩ :=
    splitTextAux_infix hne (body ++ (sep ++ s)) [] htext (Nat.zero_le _)
  -- the first cut is not behind the separator in the section, so the last one is still to come
  have hlength : (a ++ sep).length ≤ body.length := by
    rw [← hbody]
    simp only [List.length_append]
    omega
  obtain ⟨middle, hmiddle⟩ : ∃ middle, rest = middle ++ (sep ++ s) := by
    rw [← List.append_assoc a] at heq
    obtain ⟨middle, hbody'⟩ := List.prefix_of_prefix_length_le ⟨rest, heq.symm⟩
      (List.prefix_append body (sep ++ s)) hlength
    refine ⟨middle, ?_⟩
    rw [← hbody', List.append_assoc] at heq
    exact (List.append_cancel_left heq).symm
  obtain ⟨piece', a', rest', -, -, hsplit'⟩ :=
    splitTextAux_infix hne rest [] hmiddle (Nat.zero_le _)
  have hpos := List.length_pos_of_ne_nil (@splitTextAux_ne_nil sep rest' [] 0)
  rw [splitText, hsplit, splitText, hsplit', List.length_cons, List.length_cons]
  exact Nat.succ_le_succ (Nat.succ_le_succ hpos)

end Dt.Lib
