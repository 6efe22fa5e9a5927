import Dt.Lib.Regex

/-!
# Matches in their context

`Accepts` says which texts an expression matches between a last character and the rest of a text. The matcher finds a
match at a place if there is one, and what it finds is one.
-/

namespace Dt.Lib

/-- The last character of a text, or the one before it. -/
def lastOr : Option Char → List Char → Option Char
  | prev, [] => prev
  | _, c :: text => lastOr (some c) text

@[simp] theorem lastOr_nil (prev : Option Char) : lastOr prev [] = prev := rfl

@[simp] theorem lastOr_cons (prev : Option Char) (c : Char) (text : List Char) :
    lastOr prev (c :: text) = lastOr (some c) text := rfl

@[simp] theorem lastOr_append (prev : Option Char) (a b : List Char) :
    lastOr prev (a ++ b) = lastOr (lastOr prev a) b := by
  induction a generalizing prev with
  | nil => rfl
  | cons c a ih => exact ih (some c)

theorem lastOr_of_ne_nil {text : List Char} (h : text ≠ []) (prev prev' : Option Char) :
    lastOr prev text = lastOr prev' text := by
  cases text with
  | nil => exact absurd rfl h
  | cons c text => rfl

theorem lastOr_mem {text : List Char} (h : text ≠ []) (prev : Option Char) : ∃ c ∈ text, lastOr prev text = some c := by
  induction text generalizing prev with
  | nil => exact absurd rfl h
  | cons c text ih =>
    cases text with
    | nil => exact ⟨c, List.mem_cons_self, rfl⟩
    | cons d text =>
      obtain ⟨e, he, hlast⟩ := ih (List.cons_ne_nil d text) (some c)
      exact ⟨e, List.mem_cons_of_mem c he, hlast⟩

section

variable (word : Char → Bool)

/-- `\b` between two characters. -/
def atBoundary (prev next : Option Char) : Bool := prev.any word != next.any word

/-- Texts one after the other, each of which is matched where it stands. -/
def Chained (P : Option Char → List Char → List Char → Prop) : Option Char → List (List Char) → List Char → Prop
  | _, [], _ => True
  | prev, part :: parts, rest =>
    part ≠ [] ∧ P prev part (parts.flatten ++ rest) ∧ Chained P (lastOr prev part) parts rest

/-- An expression matches a text after a character and before a rest. -/
def Regex.Accepts : Regex → Option Char → List Char → List Char → Prop
  | .empty, _, text, _ => text = []
  | .set p, _, text, _ => ∃ c, text = [c] ∧ p c = true
  | .seq r r', prev, text, rest =>
    ∃ a b, text = a ++ b ∧ r.Accepts prev a (b ++ rest) ∧ r'.Accepts (lastOr prev a) b rest
  | .alt r r', prev, text, rest => r.Accepts prev text rest ∨ r'.Accepts prev text rest
  | .many _ p, _, text, _ => ∀ c ∈ text, p c = true
  | .group _ r, prev, text, rest => r.Accepts prev text rest
  | .lineStart, prev, text, _ => text = [] ∧ prev.all (· = '\n') = true
  | .boundary, prev, text, rest => text = [] ∧ atBoundary word prev rest.head? = true
  | .star r, prev, text, rest => ∃ parts, text = parts.flatten ∧ Chained r.Accepts prev parts rest
  | .look p, prev, text, rest => text = [] ∧ p prev rest = true

end

/-- A matcher goes from one cursor to another over a text. -/
structure Cursor.Passes (s : Cursor) (text : List Char) (t : Cursor) : Prop where
  rest : s.rest = text ++ t.rest
  prev : t.prev = lastOr s.prev text
  position : t.position = s.position + text.length

/-- The cursor behind a text. -/
def Cursor.past (s : Cursor) (text rest : List Char) : Cursor :=
  { s with prev := lastOr s.prev text, rest := rest, position := s.position + text.length }

theorem Cursor.over_cons (s : Cursor) (c : Char) (text rest : List Char) :
    s.past (c :: text) rest = (s.next c (text ++ rest)).past text rest := by
  simp only [Cursor.past, Cursor.next, lastOr_cons, List.length_cons, Nat.add_assoc, Nat.add_comm 1]

namespace Cursor.Passes

variable {s t u : Cursor} {a b : List Char}

theorem refl (s : Cursor) : s.Passes [] s := ⟨rfl, rfl, rfl⟩

theorem append (h : s.Passes a t) (h' : t.Passes b u) : s.Passes (a ++ b) u where
  rest := by rw [h.rest, h'.rest, List.append_assoc]
  prev := by rw [h'.prev, h.prev, lastOr_append]
  position := by rw [h'.position, h.position, List.length_append, Nat.add_assoc]

theorem next {c : Char} {rest : List Char} (h : s.rest = c :: rest) : s.Passes [c] (s.next c rest) := ⟨h, rfl, rfl⟩

theorem past {rest : List Char} (h : s.rest = a ++ rest) : s.Passes a (s.past a rest) := ⟨h, rfl, rfl⟩

theorem keep {n : Nat} (h : s.Passes a t) : s.Passes a (s.keep n t) := ⟨h.rest, h.prev, h.position⟩

end Cursor.Passes

section

variable {word : Char → Bool} {β : Type} {s : Cursor} {k : Cursor → Option β} {b : β}

/-! ## What the matcher finds -/

theorem runMany_accepts {greedy : Bool} {p : Char → Bool} {rest : List Char} (hrest : s.rest = rest)
    (h : runMany greedy p rest s k = some b) :
    ∃ text t, s.Passes text t ∧ (∀ c ∈ text, p c = true) ∧ k t = some b := by
  induction rest generalizing s with
  | nil => exact ⟨[], s, .refl s, by simp, h⟩
  | cons c rest ih =>
    have hmore : runMany greedy p rest (s.next c rest) k = some b → p c = true →
        ∃ text t, s.Passes text t ∧ (∀ c ∈ text, p c = true) ∧ k t = some b := by
      intro hrun hp
      obtain ⟨text, t, hpass, hall, hk⟩ := ih rfl hrun
      exact ⟨c :: text, t, (Cursor.Passes.next hrest).append hpass, List.forall_mem_cons.mpr ⟨hp, hall⟩, hk⟩
    rw [runMany] at h
    split at h
    · exact ⟨[], s, .refl s, by simp, h⟩
    rename_i hp
    have hp : p c = true := by simpa using hp
    split at h
    · split at h
      · rename_i hrun
        exact hmore (hrun.trans h) hp
      · exact ⟨[], s, .refl s, by simp, h⟩
    · split at h
      · rename_i hk
        exact ⟨[], s, .refl s, by simp, hk.trans h⟩
      · exact hmore h hp

theorem runStar_accepts {run : Cursor → (Cursor → Option β) → Option β}
    {P : Option Char → List Char → List Char → Prop}
    (hrun : ∀ {s k}, run s k = some b → ∃ text t, s.Passes text t ∧ P s.prev text t.rest ∧ k t = some b) {n : Nat}
    (h : runStar run n s k = some b) :
    ∃ parts t, s.Passes parts.flatten t ∧ Chained P s.prev parts t.rest ∧ k t = some b := by
  induction n generalizing s with
  | zero => exact ⟨[], s, .refl s, trivial, h⟩
  | succ n ih =>
    rw [runStar] at h
    split at h
    · rename_i hsome
      obtain ⟨text, t, hpass, hP, hk⟩ := hrun (hsome.trans h)
      split at hk
      · rename_i hless
        obtain ⟨parts, u, hpass', hchain, hk⟩ := ih hk
        refine ⟨text :: parts, u, hpass.append hpass', ⟨?_, ?_, ?_⟩, hk⟩
        · rintro rfl
          rw [hpass.rest] at hless
          exact Nat.lt_irrefl _ hless
        · rw [← hpass'.rest]
          exact hP
        · rw [← hpass.prev]
          exact hchain
      · cases hk
    · exact ⟨[], s, .refl s, trivial, h⟩

/-- The matcher finds a match. -/
theorem run_accepts {r : Regex} (h : r.run word s k = some b) :
    ∃ text t, s.Passes text t ∧ r.Accepts word s.prev text t.rest ∧ k t = some b := by
  induction r generalizing s k with
  | empty => exact ⟨[], s, .refl s, rfl, h⟩
  | set p =>
    rw [Regex.run] at h
    split at h
    · cases h
    rename_i c rest hrest
    split at h
    · rename_i hp
      exact ⟨[c], _, .next hrest, ⟨c, rfl, hp⟩, h⟩
    · cases h
  | seq r r' ih ih' =>
    obtain ⟨x, t, hpass, hx, hk⟩ := ih h
    obtain ⟨y, u, hpass', hy, hk⟩ := ih' hk
    refine ⟨x ++ y, u, hpass.append hpass', ⟨x, y, rfl, ?_, ?_⟩, hk⟩
    · rw [← hpass'.rest]
      exact hx
    · rw [← hpass.prev]
      exact hy
  | alt r r' ih ih' =>
    rw [Regex.run] at h
    split at h
    · rename_i hleft
      obtain ⟨text, t, hpass, hr, hk⟩ := ih (hleft.trans h)
      exact ⟨text, t, hpass, .inl hr, hk⟩
    · obtain ⟨text, t, hpass, hr, hk⟩ := ih' h
      exact ⟨text, t, hpass, .inr hr, hk⟩
  | many greedy p => exact runMany_accepts rfl h
  | group n r ih =>
    obtain ⟨text, t, hpass, hr, hk⟩ := ih h
    exact ⟨text, _, hpass.keep, hr, hk⟩
  | lineStart =>
    rw [Regex.run] at h
    split at h
    · rename_i hstart
      exact ⟨[], s, .refl s, ⟨rfl, hstart⟩, h⟩
    · cases h
  | boundary =>
    rw [Regex.run] at h
    split at h
    · rename_i hat
      exact ⟨[], s, .refl s, ⟨rfl, hat⟩, h⟩
    · cases h
  | star r ih =>
    obtain ⟨parts, t, hpass, hchain, hk⟩ := runStar_accepts (P := r.Accepts word) ih h
    exact ⟨_, t, hpass, ⟨parts, rfl, hchain⟩, hk⟩
  | look p =>
    rw [Regex.run] at h
    split at h
    · rename_i hp
      exact ⟨[], s, .refl s, ⟨rfl, hp⟩, h⟩
    · cases h

theorem run_seq_accepts {r r' : Regex} (h : (Regex.seq r r').run word s k = some b) :
    ∃ text t, s.Passes text t ∧ r.Accepts word s.prev text t.rest ∧ r'.run word t k = some b := run_accepts h

/-! ## What there is to find -/

/-- A repetition that does not go through does so from none of its ends. -/
theorem runMany_none {greedy : Bool} {p : Char → Bool} {text rest : List Char} (hrest : s.rest = text ++ rest)
    (h : runMany greedy p (text ++ rest) s k = none) (hp : ∀ c ∈ text, p c = true) : k (s.past text rest) = none := by
  induction text generalizing s with
  | nil =>
    rw [List.nil_append] at h hrest
    subst hrest
    show k s = none
    cases hs : s.rest with
    | nil => rwa [hs] at h
    | cons c rest =>
      rw [hs, runMany] at h
      split at h
      · exact h
      · split at h
        · split at h
          · cases h
          · exact h
        · split at h
          · cases h
          · assumption
  | cons c text ih =>
    obtain ⟨hc, htext⟩ := List.forall_mem_cons.mp hp
    have hmore : runMany greedy p (text ++ rest) (s.next c (text ++ rest)) k = none := by
      rw [List.cons_append, runMany] at h
      split at h
      · simp_all
      · split at h
        · split at h
          · cases h
          · assumption
        · split at h
          · cases h
          · exact h
    rw [Cursor.over_cons]
    exact ih rfl hmore htext

theorem runMany_isSome {greedy : Bool} {p : Char → Bool} {text rest : List Char} (hrest : s.rest = text ++ rest)
    (hp : ∀ c ∈ text, p c = true) (hk : (k (s.past text rest)).isSome = true) :
    (runMany greedy p (text ++ rest) s k).isSome = true := by
  cases h : runMany greedy p (text ++ rest) s k with
  | none =>
    rw [runMany_none hrest h hp] at hk
    cases hk
  | some b => rfl

/-- A greedy repetition goes as far as it can. -/
theorem runMany_longest {p : Char → Bool} {rest : List Char} (hrest : s.rest = rest)
    (h : runMany true p rest s k = some b) :
    ∃ text tail, s.rest = text ++ tail ∧ (∀ c ∈ text, p c = true) ∧ k (s.past text tail) = some b ∧
      ∀ longer tail', s.rest = longer ++ tail' → (∀ c ∈ longer, p c = true) → text.length < longer.length →
        k (s.past longer tail') = none := by
  induction rest generalizing s with
  | nil =>
    refine ⟨[], s.rest, rfl, by simp, h, fun longer tail' hlonger _ hlen => ?_⟩
    have := congrArg List.length (hrest.symm.trans hlonger)
    rw [List.length_append, List.length_nil] at this
    rw [List.length_nil] at hlen
    omega
  | cons c rest ih =>
    have hstop : k s = some b → (∀ longer tail', c :: rest = c :: longer ++ tail' →
        (∀ d ∈ c :: longer, p d = true) → k (s.past (c :: longer) tail') = none) →
        ∃ text tail, s.rest = text ++ tail ∧ (∀ d ∈ text, p d = true) ∧ k (s.past text tail) = some b ∧
          ∀ longer tail', s.rest = longer ++ tail' → (∀ d ∈ longer, p d = true) → text.length < longer.length →
            k (s.past longer tail') = none := by
      intro hk hnone
      refine ⟨[], s.rest, rfl, by simp, hk, fun longer tail' hlonger hp hlen => ?_⟩
      cases longer with
      | nil => exact absurd hlen (Nat.lt_irrefl 0)
      | cons d longer =>
        obtain ⟨rfl, heq⟩ := List.cons.inj (hrest.symm.trans hlonger)
        exact hnone longer tail' (by rw [heq]; rfl) hp
    rw [runMany] at h
    split at h
    · rename_i hp
      have hp : p c = false := by simpa using hp
      refine hstop h fun longer tail' _ hall => ?_
      rw [hall c List.mem_cons_self] at hp
      cases hp
    rename_i hp
    have hp : p c = true := by simpa using hp
    rw [if_pos rfl] at h
    split at h
    · rename_i hrun
      obtain ⟨text, tail, htext, hall, hk, hmax⟩ := ih rfl (hrun.trans h)
      refine ⟨c :: text, tail, by rw [hrest, List.cons_append, ← htext]; rfl,
        List.forall_mem_cons.mpr ⟨hp, hall⟩, by rw [Cursor.over_cons, ← htext]; exact hk, ?_⟩
      intro longer tail' hlonger hall' hlen
      cases longer with
      | nil => exact absurd hlen (Nat.not_lt_zero _)
      | cons d longer =>
        obtain ⟨rfl, heq⟩ := List.cons.inj (hrest.symm.trans hlonger)
        subst heq
        rw [Cursor.over_cons]
        exact hmax longer tail' rfl (fun e he => hall' e (List.mem_cons_of_mem _ he)) (Nat.lt_of_succ_lt_succ hlen)
    · rename_i hnone
      refine hstop h fun longer tail' heq hall => ?_
      obtain ⟨-, heq⟩ := List.cons.inj heq
      rw [heq] at hnone
      rw [Cursor.over_cons]
      exact runMany_none rfl hnone fun d hd => hall d (List.mem_cons_of_mem _ hd)

theorem runStar_isSome {run : Cursor → (Cursor → Option β) → Option β}
    {P : Option Char → List Char → List Char → Prop}
    (hrun : ∀ {s : Cursor} {k text rest}, P s.prev text rest → s.rest = text ++ rest →
      (∀ t, s.Passes text t → (k t).isSome = true) → (run s k).isSome = true)
    {parts : List (List Char)} {rest : List Char} (hchain : Chained P s.prev parts rest) {n : Nat}
    (hrest : s.rest = parts.flatten ++ rest) (hn : s.rest.length ≤ n)
    (hk : ∀ t, s.Passes parts.flatten t → (k t).isSome = true) : (runStar run n s k).isSome = true := by
  induction parts generalizing s n with
  | nil =>
    have hs := hk s (.refl s)
    cases n with
    | zero => exact hs
    | succ n =>
      rw [runStar]
      split
      · rfl
      · exact hs
  | cons part parts ih =>
    obtain ⟨hne, hP, hchain⟩ := hchain
    have hlen := List.length_pos_of_ne_nil hne
    rw [List.flatten_cons, List.append_assoc] at hrest
    cases n with
    | zero =>
      rw [hrest, List.length_append] at hn
      omega
    | succ n =>
      have hsome := @hrun s (fun t => if t.rest.length < s.rest.length then runStar run n t k else none) part
        (parts.flatten ++ rest) hP hrest fun t ht => by
          have ht' : t.rest = parts.flatten ++ rest := List.append_cancel_left (ht.rest.symm.trans hrest)
          have hless : t.rest.length < s.rest.length := by
            rw [ht.rest, List.length_append]
            omega
          rw [if_pos hless]
          exact ih (by rw [ht.prev]; exact hchain) ht' (by omega) fun u hu => hk u (ht.append hu)
      obtain ⟨b, hb⟩ := Option.isSome_iff_exists.mp hsome
      rw [runStar, hb]
      rfl

/-- If there is a match from which the rest goes through, the matcher finds one. -/
theorem run_isSome {r : Regex} {text rest : List Char} (h : r.Accepts word s.prev text rest)
    (hrest : s.rest = text ++ rest) (hk : ∀ t, s.Passes text t → (k t).isSome = true) :
    (r.run word s k).isSome = true := by
  induction r generalizing s k text rest with
  | empty =>
    obtain rfl := h
    exact hk s (.refl s)
  | set p =>
    obtain ⟨c, rfl, hp⟩ := h
    rw [Regex.run, hrest]
    show (if p c = true then k (s.next c rest) else none).isSome = true
    rw [if_pos hp]
    exact hk _ (.next hrest)
  | seq r r' ih ih' =>
    obtain ⟨x, y, rfl, hx, hy⟩ := h
    rw [List.append_assoc] at hrest
    refine ih hx hrest fun t ht => ih' (by rw [ht.prev]; exact hy) ?_ fun u hu => hk u (ht.append hu)
    exact List.append_cancel_left (ht.rest.symm.trans hrest)
  | alt r r' ih ih' =>
    rw [Regex.run]
    split
    · rfl
    · rename_i hnone
      rcases h with h | h
      · have := ih h hrest hk
        rw [hnone] at this
        cases this
      · exact ih' h hrest hk
  | many greedy p =>
    rw [Regex.run, hrest]
    exact runMany_isSome hrest h (hk _ (.past hrest))
  | group n r ih => exact ih h hrest fun t ht => hk _ ht.keep
  | lineStart =>
    obtain ⟨rfl, hstart⟩ := h
    rw [Regex.run, if_pos hstart]
    exact hk s (.refl s)
  | boundary =>
    obtain ⟨rfl, hat⟩ := h
    have hat : s.atBoundary word = true := by
      rw [List.nil_append] at hrest
      rw [Cursor.atBoundary, hrest]
      exact hat
    rw [Regex.run, if_pos hat]
    exact hk s (.refl s)
  | star r ih =>
    obtain ⟨parts, rfl, hchain⟩ := h
    exact runStar_isSome (P := r.Accepts word) ih hchain hrest (Nat.le_refl _) hk
  | look p =>
    obtain ⟨rfl, hp⟩ := h
    rw [List.nil_append] at hrest
    rw [Regex.run, hrest, if_pos hp]
    exact hk s (.refl s)

/-- A greedy repetition, before an expression that takes no other characters and need not take any, is as long as it
can be. -/
theorem greedy_longest {p : Char → Bool} {r : Regex} (hk : ∀ t, (k t).isSome = true)
    (hr : ∀ {prev text rest}, r.Accepts word prev text rest →
      (∀ c ∈ text, p c = true) ∧ r.Accepts word (lastOr prev text) [] rest)
    (h : (Regex.seq (.many true p) r).run word s k = some b) :
    ∃ text t, s.Passes text t ∧ (∀ c ∈ text, p c = true) ∧ r.Accepts word (lastOr s.prev text) [] t.rest ∧
      k t = some b ∧ ∀ longer rest, s.rest = longer ++ rest → (∀ c ∈ longer, p c = true) →
        r.Accepts word (lastOr s.prev longer) [] rest → longer.length ≤ text.length := by
  obtain ⟨text, tail, hrest, hall, hrun, hmax⟩ := runMany_longest rfl h
  have hlongest : ∀ longer rest, s.rest = longer ++ rest → (∀ c ∈ longer, p c = true) →
      r.Accepts word (lastOr s.prev longer) [] rest → longer.length ≤ text.length := by
    intro longer rest hlonger hp haccepts
    by_contra hlen
    have hsome := @run_isSome word β (s.past longer rest) k r [] rest haccepts rfl fun t _ => hk t
    rw [hmax longer rest hlonger hp (Nat.lt_of_not_le hlen)] at hsome
    cases hsome
  obtain ⟨more, t, hpass, haccepts, hkt⟩ := run_accepts hrun
  obtain ⟨hmore, hend⟩ := hr haccepts
  have hpass := (Cursor.Passes.past hrest).append hpass
  have hnil := hlongest (text ++ more) t.rest hpass.rest (List.forall_mem_append.mpr ⟨hall, hmore⟩)
    (by rw [lastOr_append]; exact hend)
  rw [List.length_append] at hnil
  obtain rfl : more = [] := List.length_eq_zero_iff.mp (by omega)
  rw [List.append_nil] at hpass
  exact ⟨text, t, hpass, hall, hend, hkt, hlongest⟩

/-! ## Matches at a place -/

theorem matchAt_accepts {r : Regex} {t : Cursor} (h : r.matchAt word false s = some t) :
    ∃ text, s.Passes text t ∧ r.Accepts word s.prev text t.rest := by
  obtain ⟨text, u, hpass, haccepts, hu⟩ := run_accepts h
  obtain rfl : u = t := Option.some.inj hu
  exact ⟨text, ⟨hpass.rest, hpass.prev, hpass.position⟩, haccepts⟩

theorem matchAt_none {r : Regex} (h : r.matchAt word false s = none) {text rest : List Char}
    (hrest : s.rest = text ++ rest) : ¬ r.Accepts word s.prev text rest := by
  intro haccepts
  have hsome := @run_isSome word Cursor { s with groups := [] }
    (fun t => if false && t.position = s.position then none else some t) r text rest haccepts hrest fun t _ => rfl
  rw [Regex.matchAt] at h
  rw [h] at hsome
  cases hsome

end

section

variable {word : Char → Bool} {prev : Option Char} {text rest : List Char}

theorem accepts_chain_nil : (Regex.chain []).Accepts word prev text rest ↔ text = [] := Iff.rfl

theorem accepts_chain_cons {r : Regex} {rs : List Regex} :
    (Regex.chain (r :: rs)).Accepts word prev text rest ↔ ∃ a b, text = a ++ b ∧
      r.Accepts word prev a (b ++ rest) ∧ (Regex.chain rs).Accepts word (lastOr prev a) b rest := Iff.rfl

theorem accepts_boundary_cons {rs : List Regex} :
    (Regex.chain (.boundary :: rs)).Accepts word prev text rest ↔
      atBoundary word prev (text ++ rest).head? = true ∧ (Regex.chain rs).Accepts word prev text rest := by
  constructor
  · rintro ⟨a, b, rfl, ⟨rfl, hat⟩, hrs⟩
    exact ⟨hat, hrs⟩
  · rintro ⟨hat, hrs⟩
    exact ⟨[], text, rfl, ⟨rfl, hat⟩, hrs⟩

theorem accepts_look_cons {p : Option Char → List Char → Bool} {rs : List Regex} :
    (Regex.chain (.look p :: rs)).Accepts word prev text rest ↔
      p prev (text ++ rest) = true ∧ (Regex.chain rs).Accepts word prev text rest := by
  constructor
  · rintro ⟨a, b, rfl, ⟨rfl, hp⟩, hrs⟩
    exact ⟨hp, hrs⟩
  · rintro ⟨hp, hrs⟩
    exact ⟨[], text, rfl, ⟨rfl, hp⟩, hrs⟩

theorem accepts_char {c : Char} : (Regex.char c).Accepts word prev text rest ↔ text = [c] := by
  constructor
  · rintro ⟨d, rfl, hd⟩
    rw [of_decide_eq_true hd]
  · rintro rfl
    exact ⟨c, rfl, decide_eq_true rfl⟩

/-- A text of characters as they are. -/
theorem accepts_chars {cs : List Char} :
    (Regex.chain (cs.map .char)).Accepts word prev text rest ↔ text = cs := by
  induction cs generalizing prev text with
  | nil => exact Iff.rfl
  | cons c cs ih =>
    rw [List.map_cons, accepts_chain_cons]
    constructor
    · rintro ⟨a, b, rfl, ha, hb⟩
      rw [accepts_char.mp ha, ih.mp hb]
      rfl
    · rintro rfl
      exact ⟨[c], cs, rfl, accepts_char.mpr rfl, ih.mpr rfl⟩

theorem accepts_atLeastOne {p : Char → Bool} :
    (Regex.atLeastOne p).Accepts word prev text rest ↔ text ≠ [] ∧ ∀ c ∈ text, p c = true := by
  constructor
  · rintro ⟨a, b, rfl, ⟨c, rfl, hc⟩, hb⟩
    exact ⟨List.cons_ne_nil c b, List.forall_mem_cons.mpr ⟨hc, hb⟩⟩
  · rintro ⟨hne, hall⟩
    obtain ⟨c, text, rfl⟩ := List.exists_cons_of_ne_nil hne
    obtain ⟨hc, htext⟩ := List.forall_mem_cons.mp hall
    exact ⟨[c], text, rfl, ⟨c, rfl, hc⟩, htext⟩

theorem accepts_upTo {n : Nat} {p : Char → Bool} :
    (Regex.upTo n p).Accepts word prev text rest ↔ text ≠ [] ∧ text.length ≤ n + 1 ∧ ∀ c ∈ text, p c = true := by
  induction n generalizing prev text with
  | zero =>
    constructor
    · rintro ⟨c, rfl, hc⟩
      exact ⟨List.cons_ne_nil c [], Nat.le_refl 1, by simpa using hc⟩
    · rintro ⟨hne, hlen, hall⟩
      obtain ⟨c, text, rfl⟩ := List.exists_cons_of_ne_nil hne
      obtain rfl : text = [] := List.length_eq_zero_iff.mp (by simpa using hlen)
      exact ⟨c, rfl, hall c List.mem_cons_self⟩
  | succ n ih =>
    constructor
    · rintro ⟨a, b, rfl, ⟨c, rfl, hc⟩, hb | rfl⟩
      · obtain ⟨-, hlen, hall⟩ := ih.mp hb
        exact ⟨List.cons_ne_nil c b, Nat.succ_le_succ hlen, List.forall_mem_cons.mpr ⟨hc, hall⟩⟩
      · exact ⟨List.cons_ne_nil c [], Nat.succ_le_succ (Nat.zero_le _), by simpa using hc⟩
    · rintro ⟨hne, hlen, hall⟩
      obtain ⟨c, text, rfl⟩ := List.exists_cons_of_ne_nil hne
      obtain ⟨hc, htext⟩ := List.forall_mem_cons.mp hall
      refine ⟨[c], text, rfl, ⟨c, rfl, hc⟩, ?_⟩
      by_cases hnil : text = []
      · exact .inr hnil
      · exact .inl (ih.mpr ⟨hnil, Nat.le_of_succ_le_succ hlen, htext⟩)

/-- A separator and at least one character. -/
theorem accepts_separated {c : Char} {p : Char → Bool} :
    (Regex.seq (.char c) (.atLeastOne p)).Accepts word prev text rest ↔
      ∃ label, text = c :: label ∧ label ≠ [] ∧ ∀ d ∈ label, p d = true := by
  constructor
  · rintro ⟨a, label, rfl, ha, hlabel⟩
    exact ⟨label, by rw [accepts_char.mp ha]; rfl, accepts_atLeastOne.mp hlabel⟩
  · rintro ⟨label, rfl, hlabel⟩
    exact ⟨[c], label, rfl, accepts_char.mpr rfl, accepts_atLeastOne.mpr hlabel⟩

section

variable {r : Regex} {P : List Char → Prop}

/-- Repetitions of an expression that does not look at what is around it. -/
theorem accepts_star (hr : ∀ {prev text rest}, r.Accepts word prev text rest ↔ P text) (hP : ¬ P []) :
    (Regex.star r).Accepts word prev text rest ↔
      ∃ parts : List (List Char), text = parts.flatten ∧ ∀ part ∈ parts, P part := by
  have hchain : ∀ (parts : List (List Char)) (prev : Option Char),
      Chained (r.Accepts word) prev parts rest ↔ ∀ part ∈ parts, P part := by
    intro parts
    induction parts with
    | nil => exact fun _ => iff_of_true trivial (List.forall_mem_nil _)
    | cons part parts ih =>
      intro prev
      rw [Chained, hr, ih, List.forall_mem_cons]
      refine ⟨fun h => h.2, fun h => ⟨?_, h⟩⟩
      rintro rfl
      exact hP h.1
  exact exists_congr fun parts => and_congr_right fun _ => hchain parts prev

theorem accepts_orMore (hr : ∀ {prev text rest}, r.Accepts word prev text rest ↔ P text) (hP : ¬ P []) {n : Nat} :
    (Regex.orMore n r).Accepts word prev text rest ↔
      ∃ parts : List (List Char), n ≤ parts.length ∧ text = parts.flatten ∧ ∀ part ∈ parts, P part := by
  induction n generalizing prev text with
  | zero =>
    simp only [Nat.zero_le, true_and]
    exact accepts_star hr hP
  | succ n ih =>
    constructor
    · rintro ⟨a, b, rfl, ha, hb⟩
      obtain ⟨parts, hlen, rfl, hparts⟩ := ih.mp hb
      exact ⟨a :: parts, Nat.succ_le_succ hlen, rfl, List.forall_mem_cons.mpr ⟨hr.mp ha, hparts⟩⟩
    · rintro ⟨parts, hlen, rfl, hparts⟩
      cases parts with
      | nil => cases hlen
      | cons part parts =>
        obtain ⟨hpart, hparts⟩ := List.forall_mem_cons.mp hparts
        exact ⟨part, parts.flatten, rfl, hr.mpr hpart,
          ih.mpr ⟨parts, Nat.le_of_succ_le_succ hlen, rfl, hparts⟩⟩

end

end

end Dt.Lib
