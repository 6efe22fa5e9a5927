import Mathlib
import Dt.Lib.Text

/-!
# Shell words

`quote` writes one argument as a shell word, `join` writes a command line, and `split` reads one
back the way a POSIX shell does, without expansions and without comments. Splitting a joined
command line gives the arguments it was joined from.
-/

namespace Dt.Lib.Shlex

/-- An ASCII letter, digit or underscore, or a mark that no shell reads. -/
def isSafe (c : Char) : Bool :=
  isAlnum c || c = '_' || ['@', '%', '+', '=', ':', ',', '.', '/', '-'].contains c

/-- The text between single quotes: a single quote is put between double ones. -/
def quoteBody : List Char → List Char
  | [] => []
  | '\'' :: cs => '\'' :: '"' :: '\'' :: '"' :: '\'' :: quoteBody cs
  | c :: cs => c :: quoteBody cs

/-- `shlex.quote` -/
def quote (s : List Char) : List Char :=
  if s = [] then ['\'', '\'']
  else if s.all isSafe then s
  else '\'' :: (quoteBody s ++ ['\''])

/-- `shlex.join` -/
def join (args : List (List Char)) : List Char := joinWith [' '] (args.map quote)

def isBlank (c : Char) : Bool := [' ', '\t', '\r', '\n'].contains c

/-- Where the reader is: between words, in a word, in quotes, or behind a backslash. -/
inductive State where
  | between
  | word
  | single
  | double
  | escape (inDouble : Bool)
  deriving DecidableEq, Repr

/-- A finished word: one without letters counts only when it was quoted. -/
def emit (token : List Char) (quoted : Bool) : List (List Char) :=
  if token = [] && !quoted then [] else [token]

/-- The words of a text, behind the part of a word that was read already. -/
def splitAux : List Char → State → List Char → Bool → Except String (List (List Char))
  | [], .between, _, _ => .ok []
  | [], .word, token, quoted => .ok (emit token quoted)
  | [], .single, _, _ => .error "No closing quotation"
  | [], .double, _, _ => .error "No closing quotation"
  | [], .escape _, _, _ => .error "No escaped character"
  | c :: cs, .between, token, quoted =>
    if isBlank c then splitAux cs .between token quoted
    else if c = '\\' then splitAux cs (.escape false) token quoted
    else if c = '\'' then splitAux cs .single token quoted
    else if c = '"' then splitAux cs .double token quoted
    else splitAux cs .word [c] quoted
  | c :: cs, .word, token, quoted =>
    if isBlank c then (splitAux cs .between [] false).map (emit token quoted ++ ·)
    else if c = '\'' then splitAux cs .single token quoted
    else if c = '"' then splitAux cs .double token quoted
    else if c = '\\' then splitAux cs (.escape false) token quoted
    else splitAux cs .word (token ++ [c]) quoted
  | c :: cs, .single, token, _ =>
    if c = '\'' then splitAux cs .word token true else splitAux cs .single (token ++ [c]) true
  | c :: cs, .double, token, _ =>
    if c = '"' then splitAux cs .word token true
    else if c = '\\' then splitAux cs (.escape true) token true
    else splitAux cs .double (token ++ [c]) true
  | c :: cs, .escape inDouble, token, quoted =>
    -- within quotes only the quote and the backslash can be escaped
    let token := if inDouble && c ≠ '\\' && c ≠ '"' then token ++ ['\\'] else token
    splitAux cs (if inDouble then .double else .word) (token ++ [c]) quoted

/-- `shlex.split` -/
def split (s : List Char) : Except String (List (List Char)) := splitAux s .between [] false

example : split "a 'b c'\\ \"d\\\"\" ''".toList =
    .ok ["a".toList, "b c d\"".toList, []] := by decide +kernel

/-! ## Reading what was written -/

theorem isSafe_plain {c : Char} (h : isSafe c = true) :
    isBlank c = false ∧ c ≠ '\\' ∧ c ≠ '\'' ∧ c ≠ '"' := by
  have hne : ∀ d, isSafe d = false → c ≠ d := fun d hd heq => by
    rw [heq, hd] at h
    cases h
  refine ⟨?_, hne _ (by decide), hne _ (by decide), hne _ (by decide)⟩
  have hblank := And.intro (hne ' ' (by decide)) (And.intro (hne '\t' (by decide))
    (And.intro (hne '\r' (by decide)) (hne '\n' (by decide))))
  simp [isBlank, hblank]

/-- A word without quotes. -/
theorem splitAux_safe {s : List Char} (h : ∀ c ∈ s, isSafe c = true) (rest token : List Char)
    (quoted : Bool) :
    splitAux (s ++ rest) .word token quoted = splitAux rest .word (token ++ s) quoted := by
  induction s generalizing token with
  | nil => rw [List.nil_append, List.append_nil]
  | cons c s ih =>
    obtain ⟨hblank, hescape, hsingle, hdouble⟩ := isSafe_plain (h c List.mem_cons_self)
    rw [List.cons_append, splitAux, if_neg (by simp [hblank]), if_neg hsingle, if_neg hdouble,
      if_neg hescape, ih fun c hc => h c (List.mem_cons_of_mem _ hc), List.append_assoc,
      List.singleton_append]

/-- What stands between single quotes, with the closing one. -/
theorem splitAux_quoteBody (s rest token : List Char) (quoted : Bool) :
    splitAux (quoteBody s ++ '\'' :: rest) .single token quoted =
      splitAux rest .word (token ++ s) true := by
  induction s generalizing token quoted with
  | nil => simp [quoteBody, splitAux]
  | cons c s ih =>
    by_cases hc : c = '\''
    · subst hc
      -- the quotes are closed, and opened again behind a quote in double quotes
      have hdouble : isBlank '"' = false := by decide
      have hsingle : isBlank '\'' = false := by decide
      simp [quoteBody, splitAux, hdouble, hsingle, ih]
    · have hbody : quoteBody (c :: s) = c :: quoteBody s := by
        rw [quoteBody]
        exact fun h => hc h
      rw [hbody, List.cons_append, splitAux, if_neg hc, ih, List.append_assoc,
        List.singleton_append]

/-- A quoted argument is read as one word, which a blank or the end of the text finishes. -/
theorem splitAux_quote (s rest : List Char) :
    ∃ quoted, emit s quoted = [s] ∧
      splitAux (quote s ++ rest) .between [] false = splitAux rest .word s quoted := by
  have hquote : isBlank '\'' = false := by decide
  unfold quote
  split
  · rename_i hnil
    subst hnil
    exact ⟨true, rfl, by simp [splitAux, hquote]⟩
  · rename_i hne
    split
    · rename_i hall
      have hsafe : ∀ c ∈ s, isSafe c = true := List.all_eq_true.mp hall
      refine ⟨false, by simp [emit, hne], ?_⟩
      cases s with
      | nil => exact absurd rfl hne
      | cons c s =>
        obtain ⟨hblank, hescape, hsingle, hdouble⟩ := isSafe_plain (hsafe c List.mem_cons_self)
        rw [List.cons_append, splitAux, if_neg (by simp [hblank]), if_neg hescape, if_neg hsingle,
          if_neg hdouble, splitAux_safe fun c hc => hsafe c (List.mem_cons_of_mem _ hc),
          List.singleton_append]
    · refine ⟨true, by simp [emit], ?_⟩
      rw [List.cons_append, splitAux, if_neg (by simp [hquote]), if_neg (by decide), if_pos rfl,
        List.append_assoc, List.singleton_append, splitAux_quoteBody, List.nil_append]

/-- A joined command line is split into its arguments. -/
theorem split_join (args : List (List Char)) : split (join args) = .ok args := by
  unfold split join
  induction args with
  | nil => rfl
  | cons s args ih =>
    obtain ⟨quoted, hemit, hread⟩ := splitAux_quote s []
    cases args with
    | nil =>
      rw [List.map_singleton, joinWith, ← List.append_nil (quote s), hread, splitAux, hemit]
    | cons t args =>
      obtain ⟨quoted, hemit, hread⟩ := splitAux_quote s (' ' :: joinWith [' '] ((t :: args).map quote))
      have hblank : isBlank ' ' = true := by decide
      rw [List.map_cons, joinWith, List.append_assoc, List.singleton_append, hread, splitAux,
        if_pos hblank, ih, hemit]
      · rfl
      · simp

end Dt.Lib.Shlex
