import Dt.Lib.Shlex

/-!
# A shell word with variables

What a POSIX shell makes of one word of plain characters, single quotes and double quotes, when
variables stand only in double quotes: no blank of a value splits the word there, and no pattern is
expanded. Other words have no value here.
-/

namespace Dt.Lib.ShellWord

open Shlex (isSafe quote quoteBody)

/-- Where the reader is; behind a dollar sign it reads the name of a variable. -/
inductive State where
  | bare
  | single
  | double
  | dollar (name : List Char)
  deriving DecidableEq, Repr

def isNameChar (c : Char) : Bool := isAlnum c || c = '_'

/-- The value of a word from a place in it on. -/
def value (env : List Char → List Char) : List Char → State → Option (List Char)
  | [], .bare => some []
  | [], _ => none
  | c :: cs, .bare =>
    if c = '\'' then value env cs .single
    else if c = '"' then value env cs .double
    else if isSafe c then (value env cs .bare).map (c :: ·)
    else none
  | c :: cs, .single =>
    if c = '\'' then value env cs .bare else (value env cs .single).map (c :: ·)
  | c :: cs, .double =>
    if c = '"' then value env cs .bare
    else if c = '$' then value env cs (.dollar [])
    else if c = '\\' ∨ c = '`' then none
    else (value env cs .double).map (c :: ·)
  | c :: cs, .dollar name =>
    if name = [] ∧ isDigit c then none
    else if isNameChar c then value env cs (.dollar (name ++ [c]))
    else if name = [] then none
    else if c = '"' then (value env cs .bare).map (env name ++ ·)
    else if c = '$' then (value env cs (.dollar [])).map (env name ++ ·)
    else if c = '\\' ∨ c = '`' then none
    else (value env cs .double).map fun rest => env name ++ c :: rest

/-- A character that is read as it stands. -/
theorem value_cons (env : List Char → List Char) {c : Char} (hc : isSafe c = true) (s : List Char) :
    value env (c :: s) .bare = (value env s .bare).map (c :: ·) := by
  obtain ⟨_, _, hsingle, hdouble⟩ := Shlex.isSafe_plain hc
  rw [value, if_neg hsingle, if_neg hdouble, if_pos hc]

theorem value_safe (env : List Char → List Char) {s : List Char} (h : ∀ c ∈ s, isSafe c = true) :
    value env s .bare = some s := by
  induction s with
  | nil => rfl
  | cons c s ih =>
    rw [value_cons env (h c List.mem_cons_self), ih fun d hd => h d (List.mem_cons_of_mem _ hd)]
    rfl

/-- What stands between single quotes at the end of a word. -/
theorem value_quoteBody (env : List Char → List Char) (s : List Char) :
    value env (quoteBody s ++ ['\'']) .single = some s := by
  induction s with
  | nil => simp [quoteBody, value]
  | cons c s ih =>
    by_cases hc : c = '\''
    · subst hc
      simp [quoteBody, value, ih]
    · have hbody : quoteBody (c :: s) = c :: quoteBody s := by
        rw [quoteBody]
        exact fun h => hc h
      rw [hbody, List.cons_append, value, if_neg hc, ih]
      rfl

/-- A quoted argument is its own value. -/
theorem value_quote (env : List Char → List Char) (s : List Char) :
    value env (quote s) .bare = some s := by
  unfold quote
  split
  · rename_i hnil
    subst hnil
    simp [value]
  · split
    · rename_i hall
      exact value_safe env (List.all_eq_true.mp hall)
    · rw [value, if_pos rfl, value_quoteBody]

/-- A name in the shell: letters, digits and underscores, and no digit first. -/
structure IsName (name : List Char) : Prop where
  chars : ∀ c ∈ name, isNameChar c = true
  first : ∃ c rest, name = c :: rest ∧ isDigit c = false

theorem value_dollar (env : List Char → List Char) (rest : List Char) {before name : List Char}
    (hbefore : before ≠ []) (h : ∀ c ∈ name, isNameChar c = true) :
    value env (name ++ '"' :: rest) (.dollar before) =
      (value env rest .bare).map (env (before ++ name) ++ ·) := by
  have hquote : isNameChar '"' = false := by decide
  induction name generalizing before with
  | nil =>
    rw [List.nil_append, value, if_neg (by simp [hbefore]), if_neg (by simp [hquote]),
      if_neg hbefore, if_pos rfl, List.append_nil]
  | cons c name ih =>
    rw [List.cons_append, value, if_neg (by simp [hbefore]), if_pos (h c List.mem_cons_self),
      ih (by simp) fun d hd => h d (List.mem_cons_of_mem _ hd), List.append_assoc,
      List.singleton_append]

/-- A variable in double quotes. -/
theorem value_quotedVariable (env : List Char → List Char) {name : List Char} (h : IsName name)
    (rest : List Char) : value env ('"' :: '$' :: (name ++ '"' :: rest)) .bare =
      (value env rest .bare).map (env name ++ ·) := by
  obtain ⟨c, tail, rfl, hdigit⟩ := h.first
  have hdouble : ∀ d ds, value env (d :: ds) .double =
      if d = '"' then value env ds .bare
      else if d = '$' then value env ds (.dollar [])
      else if d = '\\' ∨ d = '`' then none
      else (value env ds .double).map (d :: ·) := fun d ds => by rw [value]
  rw [value, if_neg (by decide), if_pos rfl, hdouble, if_neg (by decide), if_pos rfl, List.cons_append,
    value, if_neg (by simp [hdigit]), if_pos (h.chars c List.mem_cons_self),
    value_dollar env rest (by simp) fun d hd => h.chars d (List.mem_cons_of_mem _ hd)]
  rfl

end Dt.Lib.ShellWord
