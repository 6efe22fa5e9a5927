import Mathlib.Data.List.Basic

/-!
# Regular expressions with groups

A backtracking matcher, which tries the choices of an expression in their order and keeps the texts of its groups.
`Reads` says what the matcher can do without the order, and `Lang` which texts an
expression can read: a text that is kept for a group is one of the language of the expression in it.
-/

namespace Dt.Lib

/-- Where a matcher stands in a text. -/
structure Cursor where
  prev : Option Char
  rest : List Char
  position : Nat
  groups : List (Nat × List Char)

def Cursor.next (s : Cursor) (c : Char) (rest : List Char) : Cursor :=
  { s with prev := some c, rest := rest, position := s.position + 1 }

inductive Regex where
  | empty
  | set (p : Char → Bool)
  | seq (r s : Regex)
  | alt (r s : Regex)
  | many (greedy : Bool) (p : Char → Bool)
  | group (n : Nat) (r : Regex)
  /-- `^` of a text of several lines -/
  | lineStart
  /-- `\b` -/
  | boundary
  /-- `(?:r)*`, of as many as possible -/
  | star (r : Regex)
  /-- a look at what is before and behind, which reads nothing -/
  | look (p : Option Char → List Char → Bool)

namespace Regex

def optional (r : Regex) : Regex := .alt r .empty

def chain (rs : List Regex) : Regex := rs.foldr .seq .empty

def char (c : Char) : Regex := .set (· = c)

/-- `p+` -/
def atLeastOne (p : Char → Bool) : Regex := .seq (.set p) (.many true p)

/-- `p{n}` -/
def times (n : Nat) (p : Char → Bool) : Regex := chain (List.replicate n (.set p))

/-- `p{1,n+1}` -/
def upTo : Nat → (Char → Bool) → Regex
  | 0, p => .set p
  | n + 1, p => .seq (.set p) (optional (upTo n p))

/-- `(?:r){n,}` -/
def orMore : Nat → Regex → Regex
  | 0, r => .star r
  | n + 1, r => .seq r (orMore n r)

/-- `(?<!p)` -/
def notBehind (p : Char → Bool) : Regex := .look fun prev _ => !prev.any p

/-- `(?=p)` -/
def ahead (p : List Char → Bool) : Regex := .look fun _ rest => p rest

end Regex

/-- The text of a group that begins at one cursor and ends at another. -/
def Cursor.keep (s : Cursor) (n : Nat) (t : Cursor) : Cursor :=
  { t with groups := (n, s.rest.take (t.position - s.position)) :: t.groups }

section

variable (word : Char → Bool)

def Cursor.atBoundary (s : Cursor) : Bool := s.prev.any word != s.rest.head?.any word

/-! ## Matching -/

section

variable {β : Type}

/-- A repetition, longest or shortest first. -/
def runMany (greedy : Bool) (p : Char → Bool) : List Char → Cursor → (Cursor → Option β) → Option β
  | [], s, k => k s
  | c :: rest, s, k =>
    if !p c then k s
    else if greedy then
      match runMany greedy p rest (s.next c rest) k with
      | some b => some b
      | none => k s
    else
      match k s with
      | some b => some b
      | none => runMany greedy p rest (s.next c rest) k

/-- Repetitions of an expression, each of which has to read something. -/
def runStar (run : Cursor → (Cursor → Option β) → Option β) : Nat → Cursor → (Cursor → Option β) → Option β
  | 0, s, k => k s
  | n + 1, s, k =>
    match run s fun t => if t.rest.length < s.rest.length then runStar run n t k else none with
    | some b => some b
    | none => k s

/-- The first way to match an expression from which the rest goes through. -/
def Regex.run : Regex → Cursor → (Cursor → Option β) → Option β
  | .empty, s, k => k s
  | .set p, s, k =>
    match s.rest with
    | [] => none
    | c :: rest => if p c then k (s.next c rest) else none
  | .seq r r', s, k => r.run s fun t => r'.run t k
  | .alt r r', s, k =>
    match r.run s k with
    | some b => some b
    | none => r'.run s k
  | .many greedy p, s, k => runMany greedy p s.rest s k
  | .group n r, s, k => r.run s fun t => k (s.keep n t)
  | .lineStart, s, k => if s.prev.all (· = '\n') then k s else none
  | .boundary, s, k => if s.atBoundary word then k s else none
  | .star r, s, k => runStar r.run s.rest.length s k
  | .look p, s, k => if p s.prev s.rest then k s else none

end

structure Match where
  start : Nat
  stop : Nat
  groups : List (Nat × List Char)

def Match.group (m : Match) (n : Nat) : Option (List Char) := m.groups.lookup n

/-- The text of a group that takes part in every match. -/
def Match.text (m : Match) (n : Nat) : List Char := (m.group n).getD []

/-- A match at a place, which after an empty one there has to read something. -/
def Regex.matchAt (r : Regex) (advance : Bool) (s : Cursor) : Option Cursor :=
  r.run word { s with groups := [] } fun t => if advance && t.position = s.position then none else some t

/-- The loop of `finditer`. -/
def Regex.findFrom (r : Regex) : Nat → Bool → Cursor → List Match
  | 0, _, _ => []
  | fuel + 1, advance, s =>
    match r.matchAt word advance s with
    | some t => ⟨s.position, t.position, t.groups⟩ :: r.findFrom fuel (t.position = s.position) t
    | none =>
      match s.rest with
      | [] => []
      | c :: rest => r.findFrom fuel false (s.next c rest)

/-- `re.finditer` -/
def Regex.findAll (r : Regex) (text : List Char) : List Match :=
  r.findFrom word (2 * text.length + 2) false ⟨none, text, 0, []⟩

/-- The loop of `sub`. -/
def Regex.replaceFrom (r : Regex) (f : List Char → List Char) : Nat → Bool → Cursor → List Char
  | 0, _, _ => []
  | fuel + 1, advance, s =>
    match r.matchAt word advance s with
    | some t =>
      f (s.rest.take (t.position - s.position)) ++ r.replaceFrom f fuel (t.position = s.position) t
    | none =>
      match s.rest with
      | [] => []
      | c :: rest => c :: r.replaceFrom f fuel false (s.next c rest)

/-- `re.sub(f, text)`, where the replacement depends on the text of the match. -/
def Regex.replace (r : Regex) (f : List Char → List Char) (text : List Char) : List Char :=
  r.replaceFrom word f (2 * text.length + 2) false ⟨none, text, 0, []⟩

/-- `re.sub("", text)` -/
def Regex.erase (r : Regex) (text : List Char) : List Char := r.replace word (fun _ => []) text

/-! ## What is read -/

/-- An expression leads from one cursor to another. -/
inductive Reads : Regex → Cursor → Cursor → Prop where
  | empty (s : Cursor) : Reads .empty s s
  | set {p : Char → Bool} {s : Cursor} {c : Char} {rest : List Char} (hrest : s.rest = c :: rest)
    (hp : p c = true) : Reads (.set p) s (s.next c rest)
  | seq {r r' : Regex} {s t u : Cursor} (h : Reads r s t) (h' : Reads r' t u) : Reads (.seq r r') s u
  | left {r r' : Regex} {s t : Cursor} (h : Reads r s t) : Reads (.alt r r') s t
  | right {r r' : Regex} {s t : Cursor} (h : Reads r' s t) : Reads (.alt r r') s t
  | stop {greedy : Bool} {p : Char → Bool} (s : Cursor) : Reads (.many greedy p) s s
  | more {greedy : Bool} {p : Char → Bool} {s t : Cursor} {c : Char} {rest : List Char}
    (hrest : s.rest = c :: rest) (hp : p c = true) (h : Reads (.many greedy p) (s.next c rest) t) :
    Reads (.many greedy p) s t
  | group {n : Nat} {r : Regex} {s t : Cursor} (h : Reads r s t) : Reads (.group n r) s (s.keep n t)
  | lineStart (s : Cursor) : Reads .lineStart s s
  | boundary (s : Cursor) : Reads .boundary s s
  | done {r : Regex} (s : Cursor) : Reads (.star r) s s
  | again {r : Regex} {s t u : Cursor} (h : Reads r s t) (h' : Reads (.star r) t u) : Reads (.star r) s u
  | look {p : Option Char → List Char → Bool} (s : Cursor) : Reads (.look p) s s

variable {word} {β : Type}

theorem runMany_reads {greedy : Bool} {p : Char → Bool} {rest : List Char} {s : Cursor} (hrest : s.rest = rest)
    {k : Cursor → Option β} {b : β} (h : runMany greedy p rest s k = some b) :
    ∃ t, Reads (.many greedy p) s t ∧ k t = some b := by
  induction rest generalizing s with
  | nil => exact ⟨s, .stop s, h⟩
  | cons c rest ih =>
    have hmore : runMany greedy p rest (s.next c rest) k = some b → p c = true →
        ∃ t, Reads (.many greedy p) s t ∧ k t = some b := by
      intro hrun hp
      obtain ⟨t, ht, hk⟩ := ih rfl hrun
      exact ⟨t, .more hrest hp ht, hk⟩
    rw [runMany] at h
    split at h
    · exact ⟨s, .stop s, h⟩
    rename_i hp
    have hp : p c = true := by simpa using hp
    split at h
    · split at h
      · rename_i hrun
        exact hmore (hrun.trans h) hp
      · exact ⟨s, .stop s, h⟩
    · split at h
      · rename_i hk
        exact ⟨s, .stop s, hk.trans h⟩
      · exact hmore h hp

theorem runStar_reads {r : Regex} {run : Cursor → (Cursor → Option β) → Option β} {b : β}
    (hrun : ∀ {s k}, run s k = some b → ∃ t, Reads r s t ∧ k t = some b) {n : Nat} {s : Cursor}
    {k : Cursor → Option β} (h : runStar run n s k = some b) : ∃ t, Reads (.star r) s t ∧ k t = some b := by
  induction n generalizing s with
  | zero => exact ⟨s, .done s, h⟩
  | succ n ih =>
    rw [runStar] at h
    split at h
    · rename_i hsome
      obtain ⟨t, ht, hk⟩ := hrun (hsome.trans h)
      split at hk
      · obtain ⟨u, hu, hk⟩ := ih hk
        exact ⟨u, .again ht hu, hk⟩
      · cases hk
    · exact ⟨s, .done s, h⟩

/-- The matcher finds what the expression reads. -/
theorem run_reads {r : Regex} {s : Cursor} {k : Cursor → Option β} {b : β} (h : r.run word s k = some b) :
    ∃ t, Reads r s t ∧ k t = some b := by
  induction r generalizing s k with
  | empty => exact ⟨s, .empty s, h⟩
  | set p =>
    rw [Regex.run] at h
    split at h
    · cases h
    rename_i c rest hrest
    split at h
    · rename_i hp
      exact ⟨_, .set hrest hp, h⟩
    · cases h
  | seq r r' ih ih' =>
    obtain ⟨t, ht, hk⟩ := ih h
    obtain ⟨u, hu, hk⟩ := ih' hk
    exact ⟨u, .seq ht hu, hk⟩
  | alt r r' ih ih' =>
    rw [Regex.run] at h
    split at h
    · rename_i hleft
      obtain ⟨t, ht, hk⟩ := ih (hleft.trans h)
      exact ⟨t, .left ht, hk⟩
    · obtain ⟨t, ht, hk⟩ := ih' h
      exact ⟨t, .right ht, hk⟩
  | many greedy p => exact runMany_reads rfl h
  | group n r ih =>
    obtain ⟨t, ht, hk⟩ := ih h
    exact ⟨_, .group ht, hk⟩
  | lineStart =>
    rw [Regex.run] at h
    split at h
    · exact ⟨s, .lineStart s, h⟩
    · cases h
  | boundary =>
    rw [Regex.run] at h
    split at h
    · exact ⟨s, .boundary s, h⟩
    · cases h
  | star r ih => exact runStar_reads ih h
  | look p =>
    rw [Regex.run] at h
    split at h
    · exact ⟨s, .look s, h⟩
    · cases h

/-! ## The texts of groups -/

/-- The texts that an expression can read. -/
def Regex.Lang : Regex → List Char → Prop
  | .set p, text => ∃ c, text = [c] ∧ p c = true
  | .many _ p, text => ∀ c ∈ text, p c = true
  | .seq r s, text => ∃ a b, text = a ++ b ∧ r.Lang a ∧ s.Lang b
  | .alt r s, text => r.Lang text ∨ s.Lang text
  | .group _ r, text => r.Lang text
  | .star r, text => ∃ parts : List (List Char), text = parts.flatten ∧ ∀ part ∈ parts, r.Lang part
  | _, text => text = []

/-- What is kept for a group has a property. -/
def Regex.Keeps (n : Nat) (P : List Char → Prop) : Regex → Prop
  | .group m r => (m = n → ∀ text, r.Lang text → P text) ∧ r.Keeps n P
  | .seq r s => r.Keeps n P ∧ s.Keeps n P
  | .alt r s => r.Keeps n P ∧ s.Keeps n P
  | .star r => r.Keeps n P
  | _ => True

/-- Every way through an expression passes a group. -/
def Regex.has (n : Nat) : Regex → Bool
  | .group m r => m = n || r.has n
  | .seq r s => r.has n || s.has n
  | .alt r s => r.has n && s.has n
  | _ => false

section

variable {r : Regex} {s t : Cursor} {P : List Char → Prop}

theorem reads_lang (h : Reads r s t) :
    ∃ text, s.rest = text ++ t.rest ∧ t.position = s.position + text.length ∧ r.Lang text := by
  induction h with
  | set hrest hp => exact ⟨[_], hrest, rfl, _, rfl, hp⟩
  | @seq r r' s t u _ _ ih ih' =>
    obtain ⟨a, ha, hla, hr⟩ := ih
    obtain ⟨b, hb, hlb, hr'⟩ := ih'
    refine ⟨a ++ b, by rw [ha, hb, List.append_assoc], ?_, a, b, rfl, hr, hr'⟩
    rw [hlb, hla, List.length_append, Nat.add_assoc]
  | left _ ih =>
    obtain ⟨a, ha, hl, hr⟩ := ih
    exact ⟨a, ha, hl, .inl hr⟩
  | right _ ih =>
    obtain ⟨a, ha, hl, hr⟩ := ih
    exact ⟨a, ha, hl, .inr hr⟩
  | stop s => exact ⟨[], rfl, rfl, by simp [Regex.Lang]⟩
  | @more greedy p s t c rest hrest hp _ ih =>
    obtain ⟨a, ha, hl, hall⟩ := ih
    refine ⟨c :: a, by rw [hrest, List.cons_append, ← ha]; rfl, ?_, List.forall_mem_cons.mpr ⟨hp, hall⟩⟩
    rw [hl, List.length_cons]
    simp only [Cursor.next]
    omega
  | group _ ih => exact ih
  | done s => exact ⟨[], rfl, rfl, [], rfl, by simp⟩
  | again _ _ ih ih' =>
    obtain ⟨a, ha, hla, hr⟩ := ih
    obtain ⟨b, hb, hlb, parts, rfl, hparts⟩ := ih'
    refine ⟨a ++ parts.flatten, by rw [ha, hb, List.append_assoc], ?_, a :: parts, rfl,
      List.forall_mem_cons.mpr ⟨hr, hparts⟩⟩
    rw [hlb, hla, List.length_append, Nat.add_assoc]
  | _ => exact ⟨[], rfl, rfl, rfl⟩

/-- The text that is kept for an expression. -/
theorem kept_lang (h : Reads r s t) : r.Lang (s.rest.take (t.position - s.position)) := by
  obtain ⟨text, hrest, hpos, hlang⟩ := reads_lang h
  rw [hpos, Nat.add_sub_cancel_left, hrest, List.take_left]
  exact hlang

theorem reads_keeps {n : Nat} (h : Reads r s t) (hr : r.Keeps n P) (hs : ∀ text, (n, text) ∈ s.groups → P text) :
    ∀ text, (n, text) ∈ t.groups → P text := by
  induction h with
  | seq _ _ ih ih' => exact ih' hr.2 (ih hr.1 hs)
  | left _ ih => exact ih hr.1 hs
  | right _ ih => exact ih hr.2 hs
  | more _ _ _ ih => exact ih hr hs
  | again _ _ ih ih' => exact ih' hr (ih hr hs)
  | group h ih =>
    intro text htext
    rcases List.mem_cons.mp htext with heq | htext
    · obtain ⟨hn, rfl⟩ := Prod.mk.inj heq
      exact hr.1 hn.symm _ (kept_lang h)
    · exact ih hr.2 hs text htext
  | _ => exact hs

theorem reads_has {n : Nat} (h : Reads r s t) :
    (∀ g ∈ s.groups, g ∈ t.groups) ∧ (r.has n = true → ∃ text, (n, text) ∈ t.groups) := by
  induction h with
  | seq _ _ ih ih' =>
    refine ⟨fun g hg => ih'.1 g (ih.1 g hg), fun hhas => ?_⟩
    rcases Bool.or_eq_true_iff.mp hhas with hhas | hhas
    · obtain ⟨text, htext⟩ := ih.2 hhas
      exact ⟨text, ih'.1 _ htext⟩
    · exact ih'.2 hhas
  | left _ ih => exact ⟨ih.1, fun hhas => ih.2 (Bool.and_eq_true_iff.mp hhas).1⟩
  | right _ ih => exact ⟨ih.1, fun hhas => ih.2 (Bool.and_eq_true_iff.mp hhas).2⟩
  | more _ _ _ ih => exact ⟨ih.1, fun hhas => by cases hhas⟩
  | again _ _ ih ih' => exact ⟨fun g hg => ih'.1 g (ih.1 g hg), fun hhas => by cases hhas⟩
  | group h ih =>
    refine ⟨fun g hg => List.mem_cons_of_mem _ (ih.1 g hg), fun hhas => ?_⟩
    rcases Bool.or_eq_true_iff.mp hhas with hn | hhas
    · exact ⟨_, List.mem_cons.mpr (.inl (by rw [of_decide_eq_true hn]))⟩
    · obtain ⟨text, htext⟩ := ih.2 hhas
      exact ⟨text, List.mem_cons_of_mem _ htext⟩
  | _ => exact ⟨fun g hg => hg, fun hhas => by cases hhas⟩

end

section

variable {n : Nat} {P : List Char → Prop}

@[simp] theorem keeps_char {c : Char} : (Regex.char c).Keeps n P := trivial

@[simp] theorem keeps_atLeastOne {p : Char → Bool} : (Regex.atLeastOne p).Keeps n P := ⟨trivial, trivial⟩

@[simp] theorem keeps_optional {r : Regex} : r.optional.Keeps n P ↔ r.Keeps n P := and_iff_left trivial

@[simp] theorem keeps_chain_nil : (Regex.chain []).Keeps n P := trivial

@[simp] theorem keeps_chain_cons {r : Regex} {rs : List Regex} :
    (Regex.chain (r :: rs)).Keeps n P ↔ r.Keeps n P ∧ (Regex.chain rs).Keeps n P := Iff.rfl

theorem keeps_chain {rs : List Regex} (h : ∀ r ∈ rs, r.Keeps n P) : (Regex.chain rs).Keeps n P := by
  induction rs with
  | nil => exact trivial
  | cons r rs ih =>
    obtain ⟨hr, hrs⟩ := List.forall_mem_cons.mp h
    exact ⟨hr, ih hrs⟩

end

/-- Every match is one that the expression reads. -/
theorem findFrom_reads {r : Regex} {fuel : Nat} {advance : Bool} {s : Cursor} {m : Match}
    (h : m ∈ r.findFrom word fuel advance s) : ∃ a t, Reads r a t ∧ a.groups = [] ∧ m.groups = t.groups := by
  induction fuel generalizing advance s with
  | zero => cases h
  | succ fuel ih =>
    rw [Regex.findFrom] at h
    split at h
    · rename_i t hmatch
      obtain ⟨u, hreads, hu⟩ := run_reads hmatch
      split at hu
      · cases hu
      obtain rfl := Option.some.inj hu
      rcases List.mem_cons.mp h with rfl | h
      · exact ⟨_, u, hreads, rfl, rfl⟩
      · exact ih h
    · split at h
      · cases h
      · exact ih h

/-- The text of a group. -/
theorem findAll_keeps {r : Regex} {text : List Char} {m : Match} (h : m ∈ r.findAll word text) {n : Nat}
    {P : List Char → Prop} (hkeeps : r.Keeps n P) {g : List Char} (hg : m.group n = some g) : P g := by
  obtain ⟨a, t, hreads, hempty, hgroups⟩ := findFrom_reads h
  obtain ⟨front, back, hsplit, -⟩ := List.lookup_eq_some_iff.mp hg
  refine reads_keeps hreads hkeeps (by rw [hempty]; simp) g ?_
  rw [← hgroups, hsplit]
  simp

/-- A group that every way through the expression passes has a text. -/
theorem findAll_has {r : Regex} {text : List Char} {m : Match} (h : m ∈ r.findAll word text) {n : Nat}
    (hhas : r.has n = true) : ∃ g, m.group n = some g := by
  obtain ⟨a, t, hreads, -, hgroups⟩ := findFrom_reads h
  obtain ⟨text, htext⟩ := (reads_has hreads).2 hhas
  rw [← hgroups] at htext
  cases hlookup : m.groups.lookup n with
  | none =>
    have := List.lookup_eq_none_iff.mp hlookup _ htext
    simp at this
  | some g => exact ⟨g, hlookup⟩

/-- The text of a group that every way through the expression passes. -/
theorem findAll_text {r : Regex} {text : List Char} {m : Match} (h : m ∈ r.findAll word text) {n : Nat}
    {P : List Char → Prop} (hkeeps : r.Keeps n P) (hhas : r.has n = true) : P (m.text n) := by
  obtain ⟨g, hg⟩ := findAll_has h hhas
  rw [Match.text, hg]
  exact findAll_keeps h hkeeps hg

end

end Dt.Lib
