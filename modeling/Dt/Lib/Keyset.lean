import Mathlib

/-!
# Pages by key

Rows with distinct keys are listed by falling keys, page by page. A page is a prefix of the rows
below an anchor, and the key of its last row is the anchor of the next one. The rows may be others
at each request: the keys fall through all pages, and a key that is there at every request is listed
exactly once.
-/

namespace Dt.Lib

variable {α κ : Type} [LinearOrder κ] (key : α → κ)

/-- A row is below an anchor; without one every row is. -/
def isBelow (anchor : Option κ) (a : α) : Bool := anchor.all (key a < ·)

def falling (rows : List α) : List α := rows.insertionSort fun a b => key b ≤ key a

/-- The rows below an anchor, by falling keys. -/
def after (rows : List α) (anchor : Option κ) : List α := (falling key rows).filter (isBelow key anchor)

/-- The rows listed by following the anchors through some requests, up to a page that leaves nothing
out. -/
inductive Follows : List (List α) → Option κ → List α → Prop
  | last {rows : List α} {rest : List (List α)} {anchor : Option κ} :
    Follows (rows :: rest) anchor (after key rows anchor)
  | more {rows page tail others : List α} {rest : List (List α)} {anchor : Option κ} {a : α} :
    after key rows anchor = page ++ tail → page.getLast? = some a →
      Follows rest (some (key a)) others → Follows (rows :: rest) anchor (page ++ others)

variable {key} {rows all : List α} {snapshots : List (List α)} {anchor : Option κ}

theorem mem_after {a : α} : a ∈ after key rows anchor ↔ a ∈ rows ∧ isBelow key anchor a = true := by
  simp [after, falling, List.mem_filter]

theorem pairwise_after (h : (rows.map key).Nodup) :
    (after key rows anchor).Pairwise fun a b => key b < key a := by
  have hsorted : (falling key rows).Pairwise fun a b => key b ≤ key a :=
    List.pairwise_insertionSort _ rows
  have hnodup : (falling key rows).Pairwise fun a b => key a ≠ key b := by
    have hperm : ((falling key rows).map key).Nodup :=
      ((List.perm_insertionSort _ rows).map key).nodup_iff.mpr h
    exact List.pairwise_map.mp hperm
  exact (hsorted.imp₂ (fun a b hle hne => lt_of_le_of_ne hle (Ne.symm hne)) hnodup).filter _

/-- The rows below the last row of a prefix are the rest. -/
theorem rest_after (h : (rows.map key).Nodup) {page tail : List α} {a : α}
    (heq : after key rows anchor = page ++ tail) (hlast : page.getLast? = some a) :
    after key rows (some (key a)) = tail := by
  obtain ⟨front, rfl⟩ := List.getLast?_eq_some_iff.mp hlast
  have hfall := @pairwise_after α κ _ key rows anchor h
  rw [heq, List.append_assoc, List.singleton_append] at hfall
  have hanchor : ∀ b : α, key b < key a → isBelow key anchor b = true := by
    intro b hb
    have ha : a ∈ after key rows anchor := by simp [heq]
    have hbel := (mem_after.mp ha).2
    unfold isBelow at hbel ⊢
    cases anchor with
    | none => rfl
    | some k => simpa using hb.trans (by simpa using hbel)
  have hfilter : after key rows (some (key a)) =
      (after key rows anchor).filter (isBelow key (some (key a))) := by
    unfold after
    rw [List.filter_filter]
    refine List.filter_congr fun b _ => ?_
    cases hb : isBelow key (some (key a)) b with
    | false => rfl
    | true => simp [hanchor b (by simpa [isBelow] using hb)]
  rw [hfilter, heq, List.append_assoc, List.singleton_append, List.filter_append, List.filter_cons]
  have hfront : front.filter (isBelow key (some (key a))) = [] := by
    rw [List.filter_eq_nil_iff]
    intro b hb
    have := (List.pairwise_append.mp hfall).2.2 b hb a (by simp)
    simp [isBelow, this.le]
  have htail : tail.filter (isBelow key (some (key a))) = tail := by
    rw [List.filter_eq_self]
    intro b hb
    have := (List.pairwise_cons.mp (List.pairwise_append.mp hfall).2.1).1 b hb
    simpa [isBelow] using this
  simp [hfront, htail, isBelow]

/-- A page is below its anchor, and what is below its last row is too. -/
theorem below_of_page {page tail : List α} {a b : α} (heq : after key rows anchor = page ++ tail)
    (hlast : page.getLast? = some a) (hb : isBelow key (some (key a)) b = true) :
    isBelow key anchor b = true := by
  have ha : a ∈ after key rows anchor := by
    rw [heq]
    exact List.mem_append_left _ (List.mem_of_getLast? hlast)
  have hbel := (mem_after.mp ha).2
  unfold isBelow at hb hbel ⊢
  cases anchor with
  | none => rfl
  | some k =>
    simp only [Option.all_some, decide_eq_true_iff] at hb hbel ⊢
    exact hb.trans hbel

theorem Follows.all_below (h : Follows key snapshots anchor all) :
    ∀ a ∈ all, isBelow key anchor a = true := by
  induction h with
  | last => exact fun a ha => (mem_after.mp ha).2
  | more heq hlast _ ih =>
    intro b hb
    rcases List.mem_append.mp hb with hb | hb
    · exact (mem_after.mp (heq ▸ List.mem_append_left _ hb)).2
    · exact below_of_page heq hlast (ih b hb)

/-- The keys fall through all pages. -/
theorem Follows.pairwise (h : Follows key snapshots anchor all)
    (hnodup : ∀ rows ∈ snapshots, (rows.map key).Nodup) : all.Pairwise fun a b => key b < key a := by
  induction h with
  | last => exact pairwise_after (hnodup _ List.mem_cons_self)
  | @more rows page tail others rest anchor a heq hlast hrest ih =>
    have hfall := @pairwise_after α κ _ key rows anchor (hnodup rows List.mem_cons_self)
    rw [heq] at hfall
    have hpage := (List.pairwise_append.mp hfall).1
    refine List.pairwise_append.mpr ⟨hpage, ih fun r hr => hnodup r (List.mem_cons_of_mem _ hr), ?_⟩
    intro b hb c hc
    have hc' : key c < key a := by simpa [isBelow] using hrest.all_below c hc
    -- the last row of the page has its least key
    obtain ⟨front, rfl⟩ := List.getLast?_eq_some_iff.mp hlast
    rcases List.mem_append.mp hb with hb | hb
    · exact hc'.trans ((List.pairwise_append.mp hpage).2.2 b hb a (by simp))
    · obtain rfl := List.mem_singleton.mp hb
      exact hc'

/-- A listed row was there at one of the requests. -/
theorem Follows.mem (h : Follows key snapshots anchor all) :
    ∀ a ∈ all, ∃ rows ∈ snapshots, a ∈ rows := by
  induction h with
  | last => exact fun a ha => ⟨_, List.mem_cons_self, (mem_after.mp ha).1⟩
  | more heq _ _ ih =>
    intro b hb
    rcases List.mem_append.mp hb with hb | hb
    · exact ⟨_, List.mem_cons_self, (mem_after.mp (heq ▸ List.mem_append_left _ hb)).1⟩
    · obtain ⟨rows, hrows, hmem⟩ := ih b hb
      exact ⟨rows, List.mem_cons_of_mem _ hrows, hmem⟩

/-- A key that is there at every request is listed. -/
theorem Follows.covers (h : Follows key snapshots anchor all)
    (hnodup : ∀ rows ∈ snapshots, (rows.map key).Nodup) {k : κ} (hbelow : anchor.all (k < ·) = true)
    (hk : ∀ rows ∈ snapshots, ∃ a ∈ rows, key a = k) : ∃ a ∈ all, key a = k := by
  induction h with
  | last =>
    obtain ⟨a, ha, rfl⟩ := hk _ List.mem_cons_self
    exact ⟨a, mem_after.mpr ⟨ha, hbelow⟩, rfl⟩
  | @more rows page tail others rest anchor a heq hlast hrest ih =>
    obtain ⟨b, hb, rfl⟩ := hk rows List.mem_cons_self
    have hmem : b ∈ page ++ tail := heq ▸ mem_after.mpr ⟨hb, hbelow⟩
    by_cases hpage : key b < key a
    · obtain ⟨c, hc, hkey⟩ := ih (fun r hr => hnodup r (List.mem_cons_of_mem _ hr))
        (by simpa using hpage) fun r hr => hk r (List.mem_cons_of_mem _ hr)
      exact ⟨c, List.mem_append_right _ hc, hkey⟩
    · -- a row behind the page would be below its last row
      have hfall := @pairwise_after α κ _ key rows anchor (hnodup rows List.mem_cons_self)
      rw [heq] at hfall
      refine ⟨b, List.mem_append_left _ ?_, rfl⟩
      refine (List.mem_append.mp hmem).resolve_right fun htail => hpage ?_
      exact (List.pairwise_append.mp hfall).2.2 a (List.mem_of_getLast? hlast) b htail

/-- A key that is there at every request is listed exactly once. -/
theorem Follows.filter_key (h : Follows key snapshots anchor all)
    (hnodup : ∀ rows ∈ snapshots, (rows.map key).Nodup) {k : κ} (hbelow : anchor.all (k < ·) = true)
    (hk : ∀ rows ∈ snapshots, ∃ a ∈ rows, key a = k) :
    ∃ a, all.filter (fun b => key b = k) = [a] := by
  obtain ⟨a, ha, rfl⟩ := h.covers hnodup hbelow hk
  have hfall := h.pairwise hnodup
  obtain ⟨front, back, rfl⟩ := List.append_of_mem ha
  obtain ⟨-, hback, hacross⟩ := List.pairwise_append.mp hfall
  have hfront : front.filter (fun b => key b = key a) = [] := by
    rw [List.filter_eq_nil_iff]
    intro b hb
    simpa using (hacross b hb a List.mem_cons_self).ne'
  have hrest : back.filter (fun b => key b = key a) = [] := by
    rw [List.filter_eq_nil_iff]
    intro b hb
    simpa using ((List.pairwise_cons.mp hback).1 b hb).ne
  exact ⟨a, by simp [hfront, hrest]⟩

/-- A row that is there at every request is listed exactly once. -/
theorem Follows.filter_row (h : Follows key snapshots anchor all)
    (hnodup : ∀ rows ∈ snapshots, (rows.map key).Nodup) {row : α}
    (hbelow : isBelow key anchor row = true) (hrow : ∀ rows ∈ snapshots, row ∈ rows) :
    all.filter (fun b => key b = key row) = [row] := by
  obtain ⟨a, ha⟩ := h.filter_key hnodup hbelow fun rows hrows => ⟨row, hrow rows hrows, rfl⟩
  obtain ⟨hmem, hkey⟩ := List.mem_filter.mp (ha ▸ List.mem_singleton_self a :
    a ∈ all.filter fun b => key b = key row)
  obtain ⟨rows, hrows, harows⟩ := h.mem a hmem
  have heq : a = row := List.inj_on_of_nodup_map (hnodup rows hrows) harows (hrow rows hrows)
    (of_decide_eq_true hkey)
  rw [ha, heq]

/-- While the rows do not change, they are listed as they are. -/
theorem Follows.eq_after (h : Follows key snapshots anchor all) (hnodup : (rows.map key).Nodup)
    (hsame : ∀ r ∈ snapshots, r = rows) : all = after key rows anchor := by
  induction h with
  | last => rw [hsame _ List.mem_cons_self]
  | more heq hlast _ ih =>
    obtain rfl := hsame _ List.mem_cons_self
    rw [ih fun r hr => hsame r (List.mem_cons_of_mem _ hr), heq, rest_after hnodup heq hlast]

/-! ## The first rows of several lists -/

/-- A list of falling keys is determined by its members. -/
theorem falling_eq_of_mem {a b : List α} (ha : a.Pairwise fun x y => key y < key x)
    (hb : b.Pairwise fun x y => key y < key x) (h : ∀ x, x ∈ a ↔ x ∈ b) : a = b := by
  have hnodup : ∀ {l : List α}, (l.Pairwise fun x y => key y < key x) → l.Nodup := fun hl =>
    hl.imp fun {x y} hlt heq => by
    rw [heq] at hlt
    exact absurd hlt (lt_irrefl _)
  have hperm : a.Perm b := (List.perm_ext_iff_of_nodup (hnodup ha) (hnodup hb)).mpr h
  have : Std.Antisymm (fun x y : α => key y < key x) :=
    ⟨fun x y hxy hyx => absurd hyx (not_lt_of_gt hxy)⟩
  exact hperm.eq_of_pairwise (fun x y _ _ hxy hyx => absurd hyx (not_lt_of_gt hxy)) ha hb

/-- The first members that are kept are among the first members of what is kept. -/
theorem mem_take_filter {l : List α} {p : α → Bool} {n : Nat} {x : α} (h : x ∈ l.take n)
    (hp : p x = true) : x ∈ (l.filter p).take n := by
  have hsplit : l.filter p = (l.take n).filter p ++ (l.drop n).filter p := by
    rw [← List.filter_append, List.take_append_drop]
  have hlen : ((l.take n).filter p).length ≤ n :=
    (List.length_filter_le _ _).trans (List.length_take_le _ _)
  rw [hsplit, List.take_append]
  refine List.mem_append_left _ ?_
  rw [List.take_of_length_le hlen]
  exact List.mem_filter.mpr ⟨h, hp⟩

/-- What keeps the first members has them first. -/
theorem take_filter_of_all {l : List α} {p : α → Bool} {n : Nat} (h : ∀ x ∈ l.take n, p x = true) :
    (l.filter p).take n = l.take n := by
  have hsplit : l.filter p = l.take n ++ (l.drop n).filter p := by
    conv_lhs => rw [← List.take_append_drop n l, List.filter_append, List.filter_eq_self.mpr h]
  rw [hsplit, List.take_append]
  rcases Nat.le_total n l.length with hle | hle
  · have hlen : (l.take n).length = n := List.length_take_of_le hle
    rw [hlen, Nat.sub_self, List.take_zero, List.append_nil, List.take_of_length_le hlen.le]
  · rw [List.drop_of_length_le hle, List.filter_nil, List.take_nil, List.append_nil,
      List.take_take, Nat.min_self]

theorem flatMap_subperm {f : List α → List α} {parts : List (List α)}
    (h : ∀ part ∈ parts, (f part).Subperm part) : (parts.flatMap f).Subperm parts.flatten := by
  induction parts with
  | nil => exact List.Subperm.refl _
  | cons part parts ih =>
    rw [List.flatMap_cons, List.flatten_cons]
    exact (h part List.mem_cons_self).append (ih fun p hp => h p (List.mem_cons_of_mem _ hp))

theorem take_after_subperm (rows : List α) (anchor : Option κ) (n : Nat) :
    ((after key rows anchor).take n).Subperm rows :=
  ((List.take_sublist n _).trans List.filter_sublist).subperm.trans
    (List.perm_insertionSort _ rows).subperm

omit [LinearOrder κ] in
theorem nodup_of_subperm {a b : List α} (h : a.Subperm b) (hb : (b.map key).Nodup) :
    (a.map key).Nodup := by
  obtain ⟨l, hperm, hsub⟩ := h
  exact (hperm.map key).nodup_iff.mp (hb.sublist (hsub.map key))

/-- The rows of a part below an anchor, as some of all rows below it. -/
theorem after_eq_filter {part : List α} (h : (rows.map key).Nodup) (hpart : (part.map key).Nodup)
    (hsub : ∀ x ∈ part, x ∈ rows) (anchor : Option κ) :
    after key part anchor = (after key rows anchor).filter fun x => key x ∈ part.map key := by
  refine falling_eq_of_mem (pairwise_after hpart) ((pairwise_after h).filter _) fun x => ?_
  simp only [List.mem_filter, mem_after, decide_eq_true_eq, List.mem_map]
  constructor
  · exact fun hx => ⟨⟨hsub x hx.1, hx.2⟩, x, hx.1, rfl⟩
  · rintro ⟨⟨hx, hb⟩, y, hy, heq⟩
    exact ⟨List.inj_on_of_nodup_map h (hsub y hy) hx heq ▸ hy, hb⟩

theorem length_after_flatten (parts : List (List α)) (anchor : Option κ) :
    (after key parts.flatten anchor).length =
      (parts.map fun part => (after key part anchor).length).sum := by
  have hcount : ∀ l : List α, (after key l anchor).length = l.countP (isBelow key anchor) := by
    intro l
    rw [after, ← List.countP_eq_length_filter]
    exact (List.perm_insertionSort _ l).countP_eq _
  simp only [hcount, List.countP_flatten]

/-- The first rows of some lists are the first rows of what their own first rows make: a row that a
list leaves out is behind as many rows of the same list. -/
theorem take_after_flatten {parts : List (List α)} (h : (parts.flatten.map key).Nodup)
    (anchor : Option κ) (n : Nat) :
    (falling key (parts.flatMap fun part => (after key part anchor).take n)).take n =
      (after key parts.flatten anchor).take n := by
  have hsub : (parts.flatMap fun part => (after key part anchor).take n).Subperm parts.flatten :=
    flatMap_subperm fun part _ => take_after_subperm part anchor n
  have hbelow : falling key (parts.flatMap fun part => (after key part anchor).take n) =
      after key (parts.flatMap fun part => (after key part anchor).take n) anchor := by
    refine (List.filter_eq_self.mpr fun x hx => ?_).symm
    obtain ⟨part, -, hx⟩ := List.mem_flatMap.mp ((List.mem_insertionSort _).mp hx)
    exact (mem_after.mp (List.mem_of_mem_take hx)).2
  rw [hbelow, after_eq_filter h (nodup_of_subperm hsub h) (fun x hx => hsub.subset hx)]
  refine take_filter_of_all fun x hx => decide_eq_true (List.mem_map_of_mem ?_)
  obtain ⟨part, hpart, hxp⟩ := List.mem_flatten.mp (mem_after.mp (List.mem_of_mem_take hx)).1
  refine List.mem_flatMap.mpr ⟨part, hpart, ?_⟩
  -- among the rows of its own list there are no more before it
  rw [after_eq_filter h (h.sublist ((List.sublist_flatten_of_mem hpart).map key))
    (fun y hy => List.mem_flatten_of_mem hpart hy)]
  exact mem_take_filter hx (decide_eq_true (List.mem_map_of_mem hxp))

end Dt.Lib
