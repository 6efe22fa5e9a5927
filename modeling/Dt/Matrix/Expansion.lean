import Dt.Lib.Fallible
import Dt.Lib.Pairs
import Dt.Matrix.Spec

/-!
# What a matrix expands to

The units are the grid of the axes without the excluded assignments and with the included ones, and
they do not depend on the order in which the document lists axes, values and entries. Units are told
apart by their keys. A value may contain a comma and an equals sign, so that two different assignments
can have one key; `load_spec` then refuses the spec as if it repeated a unit.
-/

namespace Dt.Matrix

open Dt.Lib

/-! ## The grid -/

/-- A unit of the grid: it gives each axis, in the order of their names, one of its values. -/
structure InGrid (axes : List Axis) (u : Assignment) : Prop where
  names : u.map Prod.fst = (axes.map Prod.fst).insertionSort (· ≤ ·)
  values : ∀ name value texts, (name, value) ∈ u → (name, texts) ∈ axes → value ∈ texts

/-- The units that the axes and the entries stand for. -/
def InExpansion (axes : List Axis) (included excluded : List Assignment) (u : Assignment) : Prop :=
  (axes ≠ [] ∧ InGrid axes u ∧ ∀ entry ∈ excluded, ¬ entry ⊆ u) ∨ ∃ entry ∈ included, u = sortItems entry

theorem mem_grid_iff {axes : List Axis} (hnames : (axes.map Prod.fst).Nodup) {u : Assignment} :
    u ∈ grid (sortAxes axes) ↔ InGrid axes u := by
  have hperm : (sortAxes axes).Perm axes := perm_sortBy Prod.fst axes
  rw [mem_grid ((hperm.map Prod.fst).nodup_iff.mpr hnames), sortAxes, map_sortBy]
  constructor
  · rintro ⟨hkeys, hvalues⟩
    exact ⟨hkeys, fun name value texts hv ht => hvalues name value texts hv (hperm.mem_iff.mpr ht)⟩
  · rintro ⟨hkeys, hvalues⟩
    exact ⟨hkeys, fun name value texts hv ht => hvalues name value texts hv (hperm.mem_iff.mp ht)⟩

theorem InGrid.nodup {axes : List Axis} (hnames : (axes.map Prod.fst).Nodup) {u : Assignment}
    (h : InGrid axes u) : (u.map Prod.fst).Nodup := by
  rw [h.names]
  exact (List.perm_insertionSort _ _).nodup_iff.mpr hnames

/-- An entry selects the assignments that it is part of. -/
theorem selects_iff {entry u : Assignment} (hkeys : (u.map Prod.fst).Nodup) :
    selects entry u = true ↔ entry ⊆ u := by
  unfold selects
  rw [List.all_eq_true]
  exact forall₂_congr fun p _ => by rw [decide_eq_true_iff, lookup_eq_some_iff_mem hkeys]

/-- A unit of the grid is sorted by name already. -/
theorem sortItems_grid {axes : List Axis} {u : Assignment} (h : InGrid axes u) : sortItems u = u := by
  have hsorted : (u.map Prod.fst).Pairwise (· ≤ ·) := by
    rw [h.names]
    exact List.pairwise_insertionSort _ _
  exact (List.pairwise_map.mp hsorted).insertionSort_eq

theorem mem_combinations {axes : List Axis} (hnames : (axes.map Prod.fst).Nodup)
    {included excluded : List Assignment} {u : Assignment} :
    u ∈ (combinations axes included excluded).map sortItems ↔ InExpansion axes included excluded u := by
  have hkept : ∀ v, InGrid axes v → (excluded.any (selects · v) = false ↔ ∀ entry ∈ excluded, ¬ entry ⊆ v) := by
    intro v hv
    rw [List.any_eq_false]
    exact forall₂_congr fun entry _ => by rw [selects_iff (hv.nodup hnames)]
  rw [combinations, List.map_append, List.mem_append, InExpansion]
  refine or_congr ?_ ?_
  · by_cases haxes : axes = []
    · rw [if_pos haxes]
      exact iff_of_false (by simp) fun h => h.1 haxes
    · rw [if_neg haxes, List.mem_map]
      constructor
      · rintro ⟨v, hv, rfl⟩
        obtain ⟨hgrid, hexcluded⟩ := List.mem_filter.mp hv
        have hin := (mem_grid_iff hnames).mp hgrid
        rw [sortItems_grid hin]
        exact ⟨haxes, hin, (hkept v hin).mp (by simpa using hexcluded)⟩
      · rintro ⟨-, hin, hexcluded⟩
        refine ⟨u, List.mem_filter.mpr ⟨(mem_grid_iff hnames).mpr hin, ?_⟩, sortItems_grid hin⟩
        rw [(hkept u hin).mpr hexcluded]
        rfl
  · rw [List.mem_map]
    exact exists_congr fun entry => and_congr_right fun _ => eq_comm

/-! ## Keys -/

theorem unitKey_congr {u v : Assignment} (h : sortItems u = sortItems v) : unitKey u = unitKey v := by
  rw [unitKey, unitKey, h]

theorem foldlM_addUnit (combos : List Assignment) (keyed : List (String × Assignment))
    (hkeyed : (keyed.map Prod.fst).Nodup) :
    ((keyed.map Prod.fst ++ combos.map unitKey).Nodup ∧
      combos.foldlM addUnit keyed = .ok (keyed ++ combos.map fun v => (unitKey v, v))) ∨
    (¬ (keyed.map Prod.fst ++ combos.map unitKey).Nodup ∧
      ∃ key, combos.foldlM addUnit keyed = .error key) := by
  induction combos generalizing keyed with
  | nil =>
    left
    simp only [List.map_nil, List.append_nil]
    exact ⟨hkeyed, rfl⟩
  | cons v combos ih =>
    rw [List.map_cons, List.map_cons, List.foldlM_cons, addUnit]
    by_cases hold : unitKey v ∈ keyed.map Prod.fst
    · right
      rw [if_pos hold]
      refine ⟨fun hnodup => ?_, unitKey v, rfl⟩
      exact (List.nodup_append.mp hnodup).2.2 _ hold _ List.mem_cons_self rfl
    · rw [if_neg hold]
      have hnext : ((keyed ++ [(unitKey v, v)]).map Prod.fst).Nodup := by
        rw [List.map_append, List.map_singleton]
        refine List.nodup_append.mpr ⟨hkeyed, List.nodup_singleton _, fun a ha b hb hab => ?_⟩
        rw [hab, List.mem_singleton.mp hb] at ha
        exact hold ha
      have h := ih (keyed ++ [(unitKey v, v)]) hnext
      rw [List.map_append, List.map_singleton, List.append_assoc, List.append_assoc,
        List.singleton_append, List.singleton_append] at h
      exact h

/-- The keys of the units are different, or the first one that comes again is the error. -/
theorem keyUnits_cases (combos : List Assignment) :
    ((combos.map unitKey).Nodup ∧
      combos.foldlM addUnit [] = .ok (combos.map fun v => (unitKey v, v))) ∨
    (¬ (combos.map unitKey).Nodup ∧ ∃ key, combos.foldlM addUnit [] = .error key) := by
  simpa using foldlM_addUnit combos [] List.nodup_nil

/-- Two texts in front of one mark: they are equal, or one goes on with the mark. -/
theorem mark_prefix {mark a b x y : List Char} {name : List Char} (hmark : mark = ',' :: name)
    (hname : ',' ∉ name) (hne : a ≠ b) (h : a ++ (mark ++ x) = b ++ (mark ++ y)) :
    a ++ mark <+: b ∨ b ++ mark <+: a := by
  have hlonger : ∀ {a b x y : List Char}, a ≠ b → (∃ w, b = a ++ w ∧ mark ++ x = w ++ (mark ++ y)) →
      a ++ mark <+: b := by
    rintro a b x y hne ⟨w, rfl, hw⟩
    rcases List.append_eq_append_iff.mp hw with ⟨z, rfl, -⟩ | ⟨z, hz, hrest⟩
    · exact ⟨z, List.append_assoc _ _ _⟩
    · -- a shorter rest would have the comma of the mark within the name
      cases w with
      | nil => exact absurd (List.append_nil a).symm hne
      | cons c w =>
        cases z with
        | nil =>
          rw [List.append_nil] at hz
          rw [hz]
        | cons d z =>
          rw [hmark] at hz hrest
          obtain ⟨-, hz⟩ := List.cons.inj hz
          obtain ⟨hd, -⟩ := List.cons.inj hrest
          exact absurd (hz ▸ List.mem_append_right w (hd ▸ List.mem_cons_self)) hname
  rcases List.append_eq_append_iff.mp h with h | h
  · exact .inl (hlonger hne h)
  · exact .inr (hlonger hne.symm h)

/-- No value goes on with a comma, the name of the next axis and an equals sign behind the other's. -/
def NoRunOn : Assignment → Assignment → Prop
  | (_, a) :: (name, x) :: u, (_, b) :: (name', y) :: v =>
    (¬ a.toList ++ ',' :: (name.toList ++ ['=']) <+: b.toList ∧
      ¬ b.toList ++ ',' :: (name.toList ++ ['=']) <+: a.toList) ∧ NoRunOn ((name, x) :: u) ((name', y) :: v)
  | _, _ => True

theorem joinWith_pairs (name value : String) (rest : List (List Char)) :
    ∃ s, joinWith [','] (pairText (name, value) :: rest) = (name.toList ++ ['=']) ++ s := by
  cases rest with
  | nil => exact ⟨value.toList, by simp [joinWith, pairText]⟩
  | cons w ws => exact ⟨value.toList ++ ',' :: joinWith [','] (w :: ws), by simp [joinWith, pairText]⟩

theorem pairTexts_inj {u v : Assignment} (hnames : u.map Prod.fst = v.map Prod.fst)
    (hplain : ∀ p ∈ u, ',' ∉ p.1.toList) (hapart : NoRunOn u v)
    (h : joinWith [','] (u.map pairText) = joinWith [','] (v.map pairText)) : u = v := by
  induction u generalizing v with
  | nil => exact (List.map_eq_nil_iff.mp hnames.symm).symm
  | cons p u ih =>
    obtain ⟨n, a⟩ := p
    cases v with
    | nil => cases hnames
    | cons q v =>
      obtain ⟨n', b⟩ := q
      obtain ⟨hn, hrest⟩ := List.cons.inj hnames
      obtain rfl : n = n' := hn
      have hcut : ∀ s t : List Char, pairText (n, a) ++ s = pairText (n, b) ++ t →
          a.toList ++ s = b.toList ++ t := by
        intro s t hst
        simpa [pairText] using hst
      cases u with
      | nil =>
        obtain rfl := List.map_eq_nil_iff.mp hrest.symm
        have hab := hcut [] [] (by simpa [joinWith] using h)
        rw [List.append_nil, List.append_nil] at hab
        rw [String.toList_injective hab]
      | cons p' u =>
        cases v with
        | nil => cases hrest
        | cons q' v =>
          obtain ⟨m, x⟩ := p'
          obtain ⟨m', y⟩ := q'
          obtain ⟨hm, -⟩ := List.cons.inj hrest
          obtain rfl : m = m' := hm
          obtain ⟨⟨hab, hba⟩, hapart⟩ := hapart
          have hjoin : a.toList ++ ',' :: joinWith [','] (((m, x) :: u).map pairText) =
              b.toList ++ ',' :: joinWith [','] (((m, y) :: v).map pairText) := by
            refine hcut _ _ ?_
            simpa [joinWith] using h
          by_cases heq : a = b
          · subst heq
            have htail := (List.cons.inj (List.append_cancel_left hjoin)).2
            rw [ih hrest (fun p hp => hplain p (List.mem_cons_of_mem _ hp)) hapart htail]
          · obtain ⟨s, hs⟩ := joinWith_pairs m x (u.map pairText)
            obtain ⟨t, ht⟩ := joinWith_pairs m y (v.map pairText)
            rw [List.map_cons, List.map_cons, hs, ht] at hjoin
            have hcomma : ',' ∉ m.toList ++ ['='] := by
              have hm := hplain (m, x) (List.mem_cons_of_mem _ List.mem_cons_self)
              simpa using hm
            rcases mark_prefix rfl hcomma (fun hne => heq (String.toList_injective hne)) hjoin with hp | hp
            · exact absurd hp hab
            · exact absurd hp hba

theorem unitKey_inj {u v : Assignment}
    (hnames : (sortItems u).map Prod.fst = (sortItems v).map Prod.fst)
    (hplain : ∀ p ∈ sortItems u, ',' ∉ p.1.toList) (hapart : NoRunOn (sortItems u) (sortItems v))
    (h : unitKey u = unitKey v) : sortItems u = sortItems v :=
  pairTexts_inj hnames hplain hapart (String.ofList_injective h)

section

variable {F : Type} {run : Runtime F}

theorem mapError_ok {ε δ α : Type} {f : ε → δ} {x : Except ε α} {a : α} :
    x.mapError f = .ok a ↔ x = .ok a := by
  cases x <;> simp [Except.mapError]

theorem loadDocument_ok {raw : Fields} {spec : MatrixSpec F} :
    loadDocument run raw = .ok spec ↔ ∃ e, expandDocument run raw = .ok e ∧
      (e.combos.map unitKey).Nodup ∧
      buildSpec run e.header e.rules (e.combos.map fun v => (unitKey v, v)) = .ok spec := by
  unfold loadDocument
  constructor
  · intro h
    obtain ⟨e, he, h⟩ := bind_ok.mp h
    obtain ⟨keyed, hkeyed, h⟩ := bind_ok.mp h
    rw [mapError_ok] at he hkeyed h
    rcases keyUnits_cases e.combos with ⟨hnodup, hok⟩ | ⟨-, key, herror⟩
    · rw [hok] at hkeyed
      obtain rfl := Except.ok.inj hkeyed
      exact ⟨e, he, hnodup, h⟩
    · rw [herror] at hkeyed
      cases hkeyed
  · rintro ⟨e, he, hnodup, h⟩
    refine bind_ok.mpr ⟨e, mapError_ok.mpr he, bind_ok.mpr ⟨_, mapError_ok.mpr ?_, mapError_ok.mpr h⟩⟩
    rcases keyUnits_cases e.combos with ⟨-, hok⟩ | ⟨hrepeated, -⟩
    · exact hok
    · exact absurd hnodup hrepeated

/-- A spec is refused for a key exactly when it was expanded and two units have one key. -/
theorem loadDocument_duplicate {raw : Fields} :
    (∃ key, loadDocument run raw = .error (.duplicateUnitKey key)) ↔
      ∃ e, expandDocument run raw = .ok e ∧ ¬ (e.combos.map unitKey).Nodup := by
  unfold loadDocument
  cases he : expandDocument run raw with
  | error e =>
    simp only [Except.mapError, reduceCtorEq, false_and, exists_false, iff_false, not_exists]
    rintro key ⟨⟩
  | ok e =>
    simp only [Except.ok.injEq, exists_eq_left']
    rcases keyUnits_cases e.combos with ⟨hnodup, hok⟩ | ⟨hrepeated, key, herror⟩
    · refine iff_of_false ?_ fun h => h hnodup
      rintro ⟨key, h⟩
      simp only [Except.mapError, bind, Except.bind, hok] at h
      split at h <;> cases h
    · refine iff_of_true ⟨key, ?_⟩ hrepeated
      simp only [Except.mapError, bind, Except.bind, herror]

/-! ## Reading a document -/

/-- What the fields of axes and entries are read as. -/
structure Reads (run : Runtime F) (raw : Fields) (axes : List Axis) (allowed : List String)
    (included excluded : List Assignment) : Prop where
  readAxes : axisValues run (get raw "axes") = .ok axes
  readAllowed : includeAxes axes (get raw "include") = .ok allowed
  readIncluded : selectorUnits run "include" allowed true (get raw "include") = .ok included
  readExcluded : selectorUnits run "exclude" (axes.map Prod.fst) false (get raw "exclude") = .ok excluded

structure Expanded (run : Runtime F) (raw : Fields) (axes : List Axis) (allowed : List String)
    (included excluded : List Assignment) (e : Expansion F) : Prop
    extends Reads run raw axes allowed included excluded where
  header : readHeader run raw = .ok e.header
  size : ¬ matrixMaxUnits < gridSize axes
  rules : unitRules run allowed (get raw "unit") = .ok e.rules
  combos : e.combos = combinations axes included excluded
  nonempty : e.combos ≠ []
  bounded : ¬ matrixMaxUnits < e.combos.length

theorem guard_ok {ε β : Type} {c : Prop} [Decidable c] {e : ε} {f : Unit → Except ε β} {b : β} :
    (if c then (Except.error e : Except ε Unit) >>= f else f ()) = .ok b ↔ ¬ c ∧ f () = .ok b := by
  by_cases hc : c
  · rw [if_pos hc]
    exact iff_of_false (by rintro ⟨⟩) fun h => h.1 hc
  · rw [if_neg hc]
    exact ⟨fun h => ⟨hc, h⟩, fun h => h.2⟩

theorem expandDocument_ok {raw : Fields} {e : Expansion F} :
    expandDocument run raw = .ok e ↔
      ∃ axes allowed included excluded, Expanded run raw axes allowed included excluded e := by
  unfold expandDocument
  constructor
  · intro h
    obtain ⟨header, hheader, h⟩ := bind_ok.mp h
    obtain ⟨axes, haxes, h⟩ := bind_ok.mp h
    obtain ⟨hsize, h⟩ := guard_ok.mp h
    obtain ⟨allowed, hallowed, h⟩ := bind_ok.mp h
    obtain ⟨included, hincluded, h⟩ := bind_ok.mp h
    obtain ⟨excluded, hexcluded, h⟩ := bind_ok.mp h
    obtain ⟨rules, hrules, h⟩ := bind_ok.mp h
    obtain ⟨hnonempty, h⟩ := guard_ok.mp h
    obtain ⟨hbounded, h⟩ := guard_ok.mp h
    obtain rfl := Except.ok.inj h
    exact ⟨axes, allowed, included, excluded,
      { readAxes := haxes, readAllowed := hallowed, readIncluded := hincluded,
        readExcluded := hexcluded, header := hheader, size := hsize, rules := hrules, combos := rfl, nonempty := hnonempty,
        bounded := hbounded }⟩
  · rintro ⟨axes, allowed, included, excluded, h⟩
    refine bind_ok.mpr ⟨e.header, h.header, bind_ok.mpr ⟨axes, h.readAxes, guard_ok.mpr ⟨h.size, ?_⟩⟩⟩
    refine bind_ok.mpr ⟨allowed, h.readAllowed, bind_ok.mpr ⟨included, h.readIncluded, ?_⟩⟩
    refine bind_ok.mpr ⟨excluded, h.readExcluded, bind_ok.mpr ⟨e.rules, h.rules, ?_⟩⟩
    dsimp only
    rw [← h.combos]
    exact guard_ok.mpr ⟨h.nonempty, guard_ok.mpr ⟨h.bounded, rfl⟩⟩

theorem readAxisItem_name {p : Key × Value} {axis : Axis} (h : readAxisItem run p = .ok axis) :
    p.1 = .str axis.1 := by
  obtain ⟨key, value⟩ := p
  unfold readAxisItem at h
  cases key with
  | other text => cases h
  | str name =>
    dsimp only at h
    split at h
    · cases value with
      | seq items =>
        cases items with
        | nil => cases h
        | cons v vs =>
          obtain ⟨texts, -, h⟩ := bind_ok.mp h
          obtain rfl := Except.ok.inj h
          rfl
      | null | bool | int | str | nonFinite | map | other => cases h
    · cases h

/-- The axes have different names. -/
theorem axisValues_nodup {value : Value} (hwell : WellKeyed value) {axes : List Axis}
    (h : axisValues run value = .ok axes) : (axes.map Prod.fst).Nodup := by
  cases hwell with
  | null =>
    obtain rfl := Except.ok.inj h
    exact List.nodup_nil
  | @map items hkeys _ =>
    have hread := mapM_eq_ok_iff.mp h
    have hnames : items.map Prod.fst = axes.map fun axis => Key.str axis.1 := by
      rw [← List.forall₂_eq_eq_eq, List.forall₂_map_left_iff, List.forall₂_map_right_iff]
      exact hread.imp fun p axis hp => readAxisItem_name hp
    rw [hnames] at hkeys
    exact List.Nodup.of_map Key.str (by rwa [List.map_map])
  | bool | int | str | nonFinite | other | seq => cases h

/-! ## Documents in another order -/

/-- The values of an axis in another order. -/
inductive ValuesReordered : Key × Value → Key × Value → Prop where
  | refl (p : Key × Value) : ValuesReordered p p
  | seq (key : Key) {values values' : List Value} (h : values.Perm values') :
      ValuesReordered (key, .seq values) (key, .seq values')

/-- The axes, and the values of each, in another order. -/
inductive AxesReordered : Value → Value → Prop where
  | refl (v : Value) : AxesReordered v v
  | map {items mid items' : List (Key × Value)} (hvalues : List.Forall₂ ValuesReordered items mid)
      (h : mid.Perm items') : AxesReordered (.map items) (.map items')

/-- The entries of a list in another order. -/
inductive EntriesReordered : Value → Value → Prop where
  | refl (v : Value) : EntriesReordered v v
  | seq {entries entries' : List Value} (h : entries.Perm entries') :
      EntriesReordered (.seq entries) (.seq entries')

/-- A document with its axes, their values and the entries of `include` and `exclude` in another
order. -/
structure Reordered (raw raw' : Fields) : Prop where
  fields : ∀ name, name ∈ raw.map Prod.fst ↔ name ∈ raw'.map Prod.fst
  kept : ∀ name, name ≠ "axes" → name ≠ "include" → name ≠ "exclude" → get raw name = get raw' name
  axes : AxesReordered (get raw "axes") (get raw' "axes")
  included : EntriesReordered (get raw "include") (get raw' "include")
  excluded : EntriesReordered (get raw "exclude") (get raw' "exclude")

/-- The text that a scalar is rendered as, whatever it is the value of. -/
structure TextOf (value : Value) (text : String) : Prop where
  plain : plainText value = some text
  nonempty : strip text.toList ≠ []
  short : ¬ maxValueChars < text.length
  printable : ¬ text.toList.any isControl = true

theorem scalarText_ok {value : Value} {label text : String} :
    scalarText value label = .ok text ↔ TextOf value text := by
  unfold scalarText
  constructor
  · intro h
    cases hplain : plainText value with
    | none =>
      rw [hplain] at h
      cases h
    | some t =>
      rw [hplain] at h
      dsimp only at h
      split at h
      · cases h
      · rename_i hnonempty
        split at h
        · cases h
        · rename_i hshort
          split at h
          · cases h
          · rename_i hprintable
            obtain rfl := Except.ok.inj h
            exact ⟨hplain, hnonempty, hshort, hprintable⟩
  · intro h
    rw [h.plain]
    dsimp only
    rw [if_neg h.nonempty, if_neg h.short, if_neg h.printable]

theorem readAxis_ok {name : String} {position : Nat} {rendered texts : List String}
    {values : List Value} (hrendered : rendered.Nodup) :
    readAxis run name position rendered values = .ok texts ↔
      ∃ read, texts = rendered ++ read ∧ List.Forall₂ TextOf values read ∧ texts.Nodup := by
  induction values generalizing position rendered with
  | nil =>
    rw [readAxis, Except.ok.injEq]
    constructor
    · rintro rfl
      exact ⟨[], (List.append_nil _).symm, .nil, hrendered⟩
    · rintro ⟨read, rfl, hread, -⟩
      rw [List.forall₂_nil_left_iff.mp hread, List.append_nil]
  | cons value values ih =>
    rw [readAxis, bind_ok]
    constructor
    · rintro ⟨text, htext, h⟩
      split at h
      · cases h
      · rename_i hnew
        have hnext : (rendered ++ [text]).Nodup :=
          List.nodup_append.mpr ⟨hrendered, List.nodup_singleton _, fun a ha b hb hab => by
            rw [hab, List.mem_singleton.mp hb] at ha
            exact hnew ha⟩
        obtain ⟨read, rfl, hread, hnodup⟩ := (ih hnext).mp h
        rw [List.append_assoc, List.singleton_append] at hnodup ⊢
        exact ⟨text :: read, rfl, .cons (scalarText_ok.mp htext) hread, hnodup⟩
    · rintro ⟨read, rfl, hread, hnodup⟩
      obtain ⟨text, rest, htext, hrest, rfl⟩ := List.forall₂_cons_left_iff.mp hread
      refine ⟨text, scalarText_ok.mpr htext, ?_⟩
      have hnew : text ∉ rendered := fun hold =>
        (List.nodup_append.mp hnodup).2.2 _ hold _ List.mem_cons_self rfl
      have hnext : (rendered ++ [text]).Nodup := by
        refine hnodup.sublist ?_
        exact List.Sublist.append_left (List.singleton_sublist.mpr List.mem_cons_self) _
      rw [if_neg hnew]
      refine (ih hnext).mpr ⟨rest, ?_, hrest, hnodup⟩
      rw [List.append_assoc, List.singleton_append]

/-- What is read of an axis changes its order with the values. -/
theorem readAxisItem_reordered {p q : Key × Value} (h : ValuesReordered p q) {axis : Axis}
    (hp : readAxisItem run p = .ok axis) :
    ∃ axis', readAxisItem run q = .ok axis' ∧ axis.1 = axis'.1 ∧ axis.2.Perm axis'.2 := by
  cases h with
  | refl => exact ⟨axis, hp, rfl, List.Perm.refl _⟩
  | @seq key values values' hperm =>
    unfold readAxisItem at hp ⊢
    cases key with
    | other text => cases hp
    | str name =>
      dsimp only at hp ⊢
      split at hp
      · rename_i hname
        rw [if_pos hname]
        cases values with
        | nil => cases hp
        | cons v vs =>
          cases values' with
          | nil => exact absurd hperm.eq_nil (List.cons_ne_nil _ _)
          | cons v' vs' =>
            obtain ⟨texts, htexts, hp⟩ := bind_ok.mp hp
            obtain rfl := Except.ok.inj hp
            obtain ⟨read, hread, hforall, hnodup⟩ := (readAxis_ok List.nodup_nil).mp htexts
            rw [List.nil_append] at hread
            subst hread
            obtain ⟨read', hforall', hperm'⟩ := List.perm_comp_forall₂ hperm.symm hforall
            refine ⟨(name, read'), bind_ok.mpr ⟨read', ?_, rfl⟩, rfl, hperm'.symm⟩
            exact (readAxis_ok List.nodup_nil).mpr
              ⟨read', rfl, hforall', hperm'.nodup_iff.mpr hnodup⟩
      · cases hp

/-- Axes with the same names and values, in another order. -/
def AxesAlike (axes axes' : List Axis) : Prop :=
  ∃ mid, List.Forall₂ (fun a b : Axis => a.1 = b.1 ∧ a.2.Perm b.2) axes mid ∧ mid.Perm axes'

theorem axisValues_reordered {v v' : Value} (h : AxesReordered v v') {axes : List Axis}
    (hread : axisValues run v = .ok axes) :
    ∃ axes', axisValues run v' = .ok axes' ∧ AxesAlike axes axes' := by
  cases h with
  | refl =>
    exact ⟨axes, hread, axes, List.forall₂_same.mpr fun a _ => ⟨rfl, List.Perm.refl _⟩,
      List.Perm.refl _⟩
  | @map items mid items' hvalues hperm =>
    have hitems : ∀ {axes}, List.Forall₂ (fun p axis => readAxisItem run p = .ok axis) items axes →
        ∃ axes', List.Forall₂ (fun p axis => readAxisItem run p = .ok axis) mid axes' ∧
          List.Forall₂ (fun a b : Axis => a.1 = b.1 ∧ a.2.Perm b.2) axes axes' := by
      clear hread hperm
      induction hvalues with
      | nil =>
        rintro axes hnil
        rw [List.forall₂_nil_left_iff.mp hnil]
        exact ⟨[], .nil, .nil⟩
      | cons hpq _ ih =>
        rintro axes hcons
        obtain ⟨axis, rest, hp, hrest, rfl⟩ := List.forall₂_cons_left_iff.mp hcons
        obtain ⟨axis', hq, halike⟩ := readAxisItem_reordered hpq hp
        obtain ⟨rest', hmid, hrest'⟩ := ih hrest
        exact ⟨axis' :: rest', .cons hq hmid, .cons halike hrest'⟩
    obtain ⟨axesMid, hmid, halike⟩ := hitems (mapM_eq_ok_iff.mp hread)
    obtain ⟨axes', haxes', hperm'⟩ := List.perm_comp_forall₂ hperm.symm hmid
    exact ⟨axes', mapM_eq_ok_iff.mpr haxes', axesMid, halike, hperm'.symm⟩

theorem AxesAlike.names {axes axes' : List Axis} (h : AxesAlike axes axes') :
    (axes.map Prod.fst).Perm (axes'.map Prod.fst) := by
  obtain ⟨mid, hmid, hperm⟩ := h
  have hsame : axes.map Prod.fst = mid.map Prod.fst := by
    rw [← List.forall₂_eq_eq_eq, List.forall₂_map_left_iff, List.forall₂_map_right_iff]
    exact hmid.imp fun _ _ hab => hab.1
  rw [hsame]
  exact hperm.map Prod.fst

theorem AxesAlike.eq_nil_iff {axes axes' : List Axis} (h : AxesAlike axes axes') :
    axes = [] ↔ axes' = [] := by
  rw [← List.map_eq_nil_iff (f := Prod.fst), ← List.map_eq_nil_iff (f := Prod.fst) (l := axes')]
  exact ⟨fun hnil => (hnil ▸ h.names).symm.eq_nil, fun hnil => (hnil ▸ h.names).eq_nil⟩

theorem AxesAlike.gridSize {axes axes' : List Axis} (h : AxesAlike axes axes') :
    gridSize axes = gridSize axes' := by
  unfold Matrix.gridSize
  rw [if_congr h.eq_nil_iff rfl rfl]
  obtain ⟨mid, hmid, hperm⟩ := h
  have hsame : (axes.map (·.2.length)) = mid.map (·.2.length) := by
    rw [← List.forall₂_eq_eq_eq, List.forall₂_map_left_iff, List.forall₂_map_right_iff]
    exact hmid.imp fun _ _ hab => hab.2.length_eq
  rw [hsame, (hperm.map (·.2.length)).prod_eq]

theorem AxesAlike.grid {axes axes' : List Axis} (hnames : (axes.map Prod.fst).Nodup)
    (h : AxesAlike axes axes') : (grid (sortAxes axes)).Perm (grid (sortAxes axes')) := by
  obtain ⟨mid, hmid, hperm⟩ := h
  have hsorted : sortAxes mid = sortAxes axes' := by
    refine sortBy_eq_of_perm ?_ hperm
    exact (AxesAlike.names ⟨mid, hmid, List.Perm.refl _⟩).nodup_iff.mp hnames
  rw [← hsorted]
  exact grid_perm (forall₂_sortBy (fun _ _ hab => hab.1) hmid)

/-! ## Entries -/

/-- An item of an entry and what it is read as. -/
structure ItemRead (allowed : List String) (p : Key × Value) (q : String × String) : Prop where
  name : p.1 = .str q.1
  allowed : q.1 ∈ allowed
  text : TextOf p.2 q.2

/-- An entry and what it is read as, whatever its position. -/
def EntryRead (allowed : List String) (requireComplete : Bool) (v : Value) (r : Assignment) : Prop :=
  ∃ items, v = .map items ∧ items ≠ [] ∧ List.Forall₂ (ItemRead allowed) items r ∧
    (requireComplete = true → ∀ name ∈ allowed, name ∈ r.map Prod.fst)

theorem selectorItem_ok {label : String} {allowed : List String} {p : Key × Value}
    {q : String × String} : selectorItem run label allowed p = .ok q ↔ ItemRead allowed p q := by
  obtain ⟨key, value⟩ := p
  unfold selectorItem
  constructor
  · intro h
    cases key with
    | other text => cases h
    | str name =>
      dsimp only at h
      split at h
      · rename_i hname
        obtain ⟨text, htext, h⟩ := bind_ok.mp h
        obtain rfl := Except.ok.inj h
        exact ⟨rfl, hname, scalarText_ok.mp htext⟩
      · cases h
  · rintro ⟨hname, hallowed, htext⟩
    obtain rfl : key = .str q.1 := hname
    dsimp only
    rw [if_pos hallowed]
    exact bind_ok.mpr ⟨q.2, scalarText_ok.mpr htext, rfl⟩

theorem selectorEntry_ok {label : String} {allowed : List String} {requireComplete : Bool}
    {v : Value} {r : Assignment} : selectorEntry run label allowed requireComplete v = .ok r ↔
      EntryRead allowed requireComplete v r := by
  have hcomplete : ∀ r : Assignment, ¬ (requireComplete = true ∧
      (allowed.filter fun name => name ∉ r.map Prod.fst) ≠ []) ↔
        (requireComplete = true → ∀ name ∈ allowed, name ∈ r.map Prod.fst) := by
    intro r
    rw [not_and, not_not]
    refine forall_congr' fun _ => ?_
    rw [List.filter_eq_nil_iff]
    exact forall₂_congr fun name _ => by simp
  constructor
  · intro h
    cases v with
    | map items =>
      cases items with
      | nil => cases h
      | cons item items =>
        obtain ⟨rendered, hrendered, h⟩ := bind_ok.mp h
        dsimp only at h
        split at h
        · cases h
        · rename_i hmissing
          obtain rfl := Except.ok.inj h
          refine ⟨item :: items, rfl, List.cons_ne_nil _ _, ?_, (hcomplete _).mp hmissing⟩
          exact (mapM_eq_ok_iff.mp hrendered).imp fun _ _ hp => selectorItem_ok.mp hp
    | null | bool | int | str | nonFinite | seq | other => cases h
  · rintro ⟨items, rfl, hne, hread, hall⟩
    cases items with
    | nil => exact absurd rfl hne
    | cons item items =>
      refine bind_ok.mpr ⟨r, mapM_eq_ok_iff.mpr (hread.imp fun _ _ hp => selectorItem_ok.mpr hp), ?_⟩
      dsimp only
      rw [if_neg ((hcomplete r).mpr hall)]
      rfl

theorem selectorUnits_seq {field : String} {allowed : List String} {requireComplete : Bool}
    {entries : List Value} {units : List Assignment} :
    selectorUnits run field allowed requireComplete (.seq entries) = .ok units ↔
      List.Forall₂ (EntryRead allowed requireComplete) entries units := by
  rw [selectorUnits, mapM_eq_ok_iff]
  simp only [selectorEntry_ok]
  conv_rhs => rw [← List.zipIdx_map_fst 1 entries, List.forall₂_map_left_iff]

theorem EntryRead.congr {allowed allowed' : List String} (h : ∀ name, name ∈ allowed ↔ name ∈ allowed')
    {requireComplete : Bool} {v : Value} {r : Assignment} (hread : EntryRead allowed requireComplete v r) :
    EntryRead allowed' requireComplete v r := by
  obtain ⟨items, hv, hne, hitems, hall⟩ := hread
  refine ⟨items, hv, hne, hitems.imp fun p q hp => ⟨hp.name, (h _).mp hp.allowed, hp.text⟩, ?_⟩
  exact fun hcomplete name hname => hall hcomplete name ((h name).mpr hname)

/-- Entries in another order are read in that order. -/
theorem selectorUnits_reordered {field : String} {allowed allowed' : List String}
    (hallowed : ∀ name, name ∈ allowed ↔ name ∈ allowed') {requireComplete : Bool} {v v' : Value}
    (h : EntriesReordered v v') {units : List Assignment}
    (hread : selectorUnits run field allowed requireComplete v = .ok units) :
    ∃ units', selectorUnits run field allowed' requireComplete v' = .ok units' ∧ units.Perm units' := by
  cases h with
  | refl =>
    cases v with
    | null => exact ⟨units, hread, List.Perm.refl _⟩
    | seq entries =>
      refine ⟨units, selectorUnits_seq.mpr ?_, List.Perm.refl _⟩
      exact (selectorUnits_seq.mp hread).imp fun _ _ hentry => hentry.congr hallowed
    | bool | int | str | nonFinite | map | other => cases hread
  | @seq entries entries' hperm =>
    obtain ⟨units', hunits', hperm'⟩ := List.perm_comp_forall₂ hperm.symm (selectorUnits_seq.mp hread)
    refine ⟨units', selectorUnits_seq.mpr ?_, hperm'.symm⟩
    exact hunits'.imp fun _ _ hentry => hentry.congr hallowed

/-- The axes that the first included unit names are those that each of them sets. -/
theorem EntryRead.names {allowed : List String} {items : List (Key × Value)} {r : Assignment}
    (h : EntryRead allowed true (.map items) r) (name : String) :
    name ∈ items.filterMap (fun p => keyName p.1) ↔ name ∈ allowed := by
  obtain ⟨items', heq, -, hitems, hall⟩ := h
  obtain rfl := Value.map.inj heq
  have hnames : items.filterMap (fun p => keyName p.1) = r.map Prod.fst := by
    clear hall heq
    induction hitems with
    | nil => rfl
    | @cons p q _ _ hp _ ih =>
      have hkey : keyName p.1 = some q.1 := by
        rw [hp.name]
        rfl
      rw [List.filterMap_cons, hkey, ih, List.map_cons]
  have hsub : ∀ q ∈ r, q.1 ∈ allowed := by
    clear hall heq hnames
    induction hitems with
    | nil => exact List.forall_mem_nil _
    | cons hp _ ih => exact List.forall_mem_cons.mpr ⟨hp.allowed, ih⟩
  rw [hnames]
  refine ⟨fun hmem => ?_, hall rfl name⟩
  obtain ⟨q, hq, rfl⟩ := List.mem_map.mp hmem
  exact hsub q hq

theorem includeAxes_nil_ok {v : Value} {allowed : List String} (h : includeAxes [] v = .ok allowed) :
    allowed ≠ [] ∧ ¬ allowed.any (!isAxisName ·) = true := by
  unfold includeAxes at h
  rw [if_neg (not_not.mpr rfl)] at h
  split at h
  · cases h
  · rename_i hne
    split at h
    · cases h
    · rename_i hnames
      obtain rfl := Except.ok.inj h
      exact ⟨hne, hnames⟩

theorem mem_of_forall₂ {α β : Type} {R : α → β → Prop} {l : List α} {l' : List β}
    (h : List.Forall₂ R l l') {a : α} (ha : a ∈ l) : ∃ b ∈ l', R a b := by
  induction h with
  | nil => cases ha
  | cons hab _ ih =>
    rcases List.mem_cons.mp ha with rfl | ha
    · exact ⟨_, List.mem_cons_self, hab⟩
    · obtain ⟨b, hb, hr⟩ := ih ha
      exact ⟨b, List.mem_cons_of_mem _ hb, hr⟩

theorem includeAxes_reordered {axes axes' : List Axis} (haxes : AxesAlike axes axes') {v v' : Value}
    (h : EntriesReordered v v') {allowed : List String} {included : List Assignment}
    (hallowed : includeAxes axes v = .ok allowed)
    (hread : selectorUnits run "include" allowed true v = .ok included) :
    ∃ allowed', includeAxes axes' v' = .ok allowed' ∧ ∀ name, name ∈ allowed ↔ name ∈ allowed' := by
  by_cases hnil : axes = []
  · obtain rfl := hnil
    obtain rfl := haxes.eq_nil_iff.mp rfl
    cases h with
    | refl => exact ⟨allowed, hallowed, fun _ => Iff.rfl⟩
    | @seq entries entries' hperm =>
      obtain ⟨hne, hnames⟩ := includeAxes_nil_ok hallowed
      cases entries' with
      | nil =>
        rw [hperm.eq_nil] at hallowed
        cases hallowed
      | cons entry rest =>
        obtain ⟨r, -, hentry⟩ := mem_of_forall₂ (selectorUnits_seq.mp hread)
          (hperm.mem_iff.mpr List.mem_cons_self)
        obtain ⟨items, rfl, hitems⟩ := id hentry
        have hsame := fun name => hentry.names name
        refine ⟨items.filterMap fun p => keyName p.1, ?_, fun name => (hsame name).symm⟩
        have hne' : items.filterMap (fun p => keyName p.1) ≠ [] := by
          obtain ⟨name, hname⟩ := List.exists_mem_of_ne_nil _ hne
          exact List.ne_nil_of_mem ((hsame name).mpr hname)
        have hnames' : ¬ (items.filterMap fun p => keyName p.1).any (!isAxisName ·) = true := by
          intro hany
          obtain ⟨name, hname, hbad⟩ := List.any_eq_true.mp hany
          exact hnames (List.any_eq_true.mpr ⟨name, (hsame name).mp hname, hbad⟩)
        unfold includeAxes
        rw [if_neg (not_not.mpr rfl), firstNames, if_neg hne', if_neg hnames']
  · unfold includeAxes at hallowed ⊢
    rw [if_pos hnil] at hallowed
    obtain rfl := Except.ok.inj hallowed
    rw [if_pos fun hnil' => hnil (haxes.eq_nil_iff.mpr hnil')]
    exact ⟨_, rfl, fun name => haxes.names.mem_iff⟩

theorem unitRule_congr {label : String} {allowed allowed' : List String}
    (hallowed : ∀ name, name ∈ allowed ↔ name ∈ allowed') {v : Value} {rule : Rule}
    (h : unitRule run label allowed v = .ok rule) : unitRule run label allowed' v = .ok rule := by
  unfold unitRule at h ⊢
  cases v with
  | map items =>
    dsimp only at h ⊢
    cases hmatch : items.lookup (.str "match") with
    | none =>
      rw [hmatch] at h
      cases h
    | some selector =>
      cases hoverrides : items.lookup (.str "overrides") with
      | none =>
        rw [hmatch, hoverrides] at h
        cases h
      | some overrides =>
        rw [hmatch, hoverrides] at h
        dsimp only at h ⊢
        split at h
        · rename_i hlength
          obtain ⟨matched, hmatched, h⟩ := bind_ok.mp h
          rw [if_pos hlength]
          refine bind_ok.mpr ⟨matched, selectorUnits_seq.mpr ?_, h⟩
          exact (selectorUnits_seq.mp hmatched).imp fun _ _ hentry => hentry.congr hallowed
        · cases h
  | null | bool | int | str | nonFinite | seq | other => cases h

theorem unitRules_congr {allowed allowed' : List String}
    (hallowed : ∀ name, name ∈ allowed ↔ name ∈ allowed') {v : Value} {rules : List Rule}
    (h : unitRules run allowed v = .ok rules) : unitRules run allowed' v = .ok rules := by
  cases v with
  | null => exact h
  | seq entries =>
    exact mapM_eq_ok_iff.mpr ((mapM_eq_ok_iff.mp h).imp fun _ _ hrule => unitRule_congr hallowed hrule)
  | bool | int | str | nonFinite | map | other => cases h

theorem readHeader_congr {raw raw' : Fields}
    (hfields : ∀ name, name ∈ raw.map Prod.fst ↔ name ∈ raw'.map Prod.fst)
    (hkept : ∀ name, name ≠ "axes" → name ≠ "include" → name ≠ "exclude" → get raw name = get raw' name)
    {header : Header F} (h : readHeader run raw = .ok header) : readHeader run raw' = .ok header := by
  have hget : ∀ name, name ≠ "axes" ∧ name ≠ "include" ∧ name ≠ "exclude" →
      get raw' name = get raw name := fun name hname => (hkept name hname.1 hname.2.1 hname.2.2).symm
  have hunknown : (raw.map Prod.fst).filter (· ∉ specFields) = [] ↔
      (raw'.map Prod.fst).filter (· ∉ specFields) = [] := by
    rw [List.filter_eq_nil_iff, List.filter_eq_nil_iff]
    exact forall_congr' fun name => imp_congr_left (hfields name)
  unfold readHeader optionalText at h ⊢
  rw [hget "request_id" (by decide), hget "command" (by decide), hget "name_prefix" (by decide),
    hget "project" (by decide), hget "node" (by decide), hget "artifacts" (by decide),
    hget "defaults" (by decide)]
  obtain ⟨hknown, h⟩ := guard_ok.mp h
  exact guard_ok.mpr ⟨fun hne => hknown fun hnil => hne (hunknown.mp hnil), h⟩

/-! ## Independence of the order -/

theorem combinations_alike {axes axes' : List Axis} (hnames : (axes.map Prod.fst).Nodup)
    (haxes : AxesAlike axes axes') {included included' excluded excluded' : List Assignment}
    (hincluded : included.Perm included') (hexcluded : excluded.Perm excluded') :
    (combinations axes included excluded).Perm (combinations axes' included' excluded') := by
  have hkept : (fun values : Assignment => !excluded.any (selects · values)) =
      fun values => !excluded'.any (selects · values) :=
    funext fun values => congrArg (!·) hexcluded.any_eq
  unfold combinations
  rw [hkept, if_congr haxes.eq_nil_iff rfl rfl]
  refine List.Perm.append ?_ hincluded
  split
  · exact List.Perm.refl _
  · exact (haxes.grid hnames).filter _

theorem expandDocument_reordered {raw raw' : Fields} (h : Reordered raw raw')
    (hwell : WellKeyed (get raw "axes")) {e : Expansion F} (he : expandDocument run raw = .ok e) :
    ∃ e', expandDocument run raw' = .ok e' ∧ e'.header = e.header ∧ e'.rules = e.rules ∧
      e.combos.Perm e'.combos := by
  obtain ⟨axes, allowed, included, excluded, hexp⟩ := expandDocument_ok.mp he
  have hnodup := axisValues_nodup hwell hexp.readAxes
  obtain ⟨axes', haxes', halike⟩ := axisValues_reordered h.axes hexp.readAxes
  obtain ⟨allowed', hallowed', hsame⟩ :=
    includeAxes_reordered halike h.included hexp.readAllowed hexp.readIncluded
  obtain ⟨included', hincluded', hpermIncluded⟩ :=
    selectorUnits_reordered hsame h.included hexp.readIncluded
  obtain ⟨excluded', hexcluded', hpermExcluded⟩ :=
    selectorUnits_reordered (fun _ => halike.names.mem_iff) h.excluded hexp.readExcluded
  have hcombos := combinations_alike hnodup halike hpermIncluded hpermExcluded
  have hunit : get raw "unit" = get raw' "unit" := h.kept _ (by decide) (by decide) (by decide)
  refine ⟨⟨e.header, e.rules, combinations axes' included' excluded'⟩, ?_, rfl, rfl, ?_⟩
  · refine expandDocument_ok.mpr ⟨axes', allowed', included', excluded',
      { readAxes := haxes', readAllowed := hallowed', readIncluded := hincluded',
        readExcluded := hexcluded', header := readHeader_congr h.fields h.kept hexp.header,
        size := halike.gridSize ▸ hexp.size, rules := ?_, combos := rfl, nonempty := ?_,
        bounded := ?_ }⟩
    · rw [← hunit]
      exact unitRules_congr hsame hexp.rules
    · intro hnil
      rw [show combinations axes' included' excluded' = [] from hnil] at hcombos
      exact hexp.nonempty (hexp.combos.trans hcombos.eq_nil)
    · have hbounded := hexp.bounded
      rw [hexp.combos, hcombos.length_eq] at hbounded
      exact hbounded
  · rw [hexp.combos]
    exact hcombos

/-- A document in another order gives the same spec. -/
theorem loadDocument_reordered {raw raw' : Fields} (h : Reordered raw raw')
    (hwell : WellKeyed (get raw "axes")) {spec : MatrixSpec F}
    (hload : loadDocument run raw = .ok spec) : loadDocument run raw' = .ok spec := by
  obtain ⟨e, he, hkeys, hspec⟩ := loadDocument_ok.mp hload
  obtain ⟨e', he', hheader, hrules, hperm⟩ := expandDocument_reordered h hwell he
  refine loadDocument_ok.mpr ⟨e', he', (hperm.map unitKey).nodup_iff.mp hkeys, ?_⟩
  have hsorted : sortBy Prod.fst (e'.combos.map fun v => (unitKey v, v)) =
      sortBy Prod.fst (e.combos.map fun v => (unitKey v, v)) := by
    refine (sortBy_eq_of_perm ?_ (hperm.map _)).symm
    rw [List.map_map]
    exact hkeys
  unfold buildSpec at hspec ⊢
  rw [hheader, hrules, hsorted]
  exact hspec

/-! ## The units of a spec -/

theorem buildUnit_values {header : Header F} {rules : List Rule} {a : (String × Assignment) × Nat}
    {u : MatrixUnit F} (h : buildUnit run header rules a = .ok u) : u.values = sortItems a.1.2 := by
  obtain ⟨⟨key, values⟩, index⟩ := a
  obtain ⟨⟨gpus, maxHours⟩, -, h⟩ := bind_ok.mp h
  obtain ⟨command, -, h⟩ := bind_ok.mp h
  obtain rfl := Except.ok.inj h
  rfl

theorem buildSpec_values {header : Header F} {rules : List Rule} {keyed : List (String × Assignment)}
    {spec : MatrixSpec F} (h : buildSpec run header rules keyed = .ok spec) :
    (spec.units.map (·.values)).Perm (keyed.map fun q => sortItems q.2) := by
  obtain ⟨units, hunits, h⟩ := bind_ok.mp h
  obtain ⟨-, h⟩ := guard_ok.mp h
  obtain rfl := Except.ok.inj h
  have hvalues : ((sortBy Prod.fst keyed).zipIdx 1).map (fun a => sortItems a.1.2) =
      units.map (·.values) := by
    rw [← List.forall₂_eq_eq_eq, List.forall₂_map_left_iff, List.forall₂_map_right_iff]
    exact (mapM_eq_ok_iff.mp hunits).imp fun _ _ hu => (buildUnit_values hu).symm
  have hplain : ((sortBy Prod.fst keyed).zipIdx 1).map (fun a => sortItems a.1.2) =
      (sortBy Prod.fst keyed).map fun q => sortItems q.2 := by
    conv_rhs => rw [← List.zipIdx_map_fst 1 (sortBy Prod.fst keyed), List.map_map]
    rfl
  dsimp only
  rw [← hvalues, hplain]
  exact (perm_sortBy Prod.fst keyed).map _

/-- Different keys belong to different assignments. -/
theorem nodup_sortItems {combos : List Assignment} (h : (combos.map unitKey).Nodup) :
    (combos.map sortItems).Nodup := by
  refine List.Nodup.of_map (fun u => String.ofList (joinWith [','] (u.map pairText))) ?_
  rw [List.map_map]
  exact h

theorem loadDocument_units {raw : Fields} (hwell : WellKeyed (get raw "axes")) {spec : MatrixSpec F}
    (h : loadDocument run raw = .ok spec) : ∃ axes allowed included excluded,
      Reads run raw axes allowed included excluded ∧ (spec.units.map (·.values)).Nodup ∧
      ∀ u, u ∈ spec.units.map (·.values) ↔ InExpansion axes included excluded u := by
  obtain ⟨e, he, hkeys, hspec⟩ := loadDocument_ok.mp h
  obtain ⟨axes, allowed, included, excluded, hexp⟩ := expandDocument_ok.mp he
  have hperm := buildSpec_values hspec
  rw [List.map_map] at hperm
  refine ⟨axes, allowed, included, excluded, hexp.toReads, ?_, fun u => ?_⟩
  · exact hperm.nodup_iff.mpr (nodup_sortItems hkeys)
  · rw [hperm.mem_iff, ← mem_combinations (axisValues_nodup hwell hexp.readAxes), ← hexp.combos]
    rfl

/-! ## Specs -/

theorem mapM_keyName {items : List (Key × Value)} {fields : Fields}
    (h : (items.mapM fun p => (keyName p.1).map fun name => (name, p.2)) = some fields) :
    ∀ q ∈ fields, ∃ p ∈ items, p.2 = q.2 := by
  induction items generalizing fields with
  | nil =>
    obtain rfl := Option.some.inj h
    exact List.forall_mem_nil _
  | cons p items ih =>
    rw [List.mapM_cons, Option.bind_eq_bind, Option.bind_eq_some_iff] at h
    obtain ⟨q, hq, h⟩ := h
    rw [Option.bind_eq_bind, Option.bind_eq_some_iff] at h
    obtain ⟨rest, hrest, h⟩ := h
    obtain rfl := Option.some.inj h
    obtain ⟨name, -, rfl⟩ := Option.map_eq_some_iff.mp hq
    refine List.forall_mem_cons.mpr ⟨⟨p, List.mem_cons_self, rfl⟩, fun q hq => ?_⟩
    obtain ⟨p', hp', hsame⟩ := ih hrest q hq
    exact ⟨p', List.mem_cons_of_mem _ hp', hsame⟩

theorem parseSpecText_wellKeyed {read : String → Except String Document} {text : String} {raw : Fields}
    (h : parseSpecText read text = .ok raw) (name : String) : WellKeyed (get raw name) := by
  unfold parseSpecText at h
  split at h
  · cases h
  · split at h
    · cases h
    · rename_i items hitems _
      cases hitems with
      | map _ hvalues =>
        split at h
        · rename_i fields hfields
          obtain rfl := Except.ok.inj h
          unfold get
          cases hlookup : fields.lookup name with
          | none => exact .null
          | some v =>
            obtain ⟨l, r, hsplit, -⟩ := List.lookup_eq_some_iff.mp hlookup
            obtain ⟨p, hp, hsame⟩ := mapM_keyName hfields (name, v) (by simp [hsplit])
            rw [Option.getD_some, ← show p.2 = v from hsame]
            exact hvalues p hp
        · cases h
    · cases h

theorem loadSpec_ok {read : String → Except String Document} {text : String} {spec : MatrixSpec F} :
    loadSpec run read text = .ok spec ↔
      ∃ raw, parseSpecText read text = .ok raw ∧ loadDocument run raw = .ok spec := by
  unfold loadSpec
  rw [bind_ok]
  exact exists_congr fun raw => and_congr_left' mapError_ok

theorem loadSpec_duplicate {read : String → Except String Document} {text : String} :
    (∃ key, loadSpec run read text = .error (.duplicateUnitKey key)) ↔
      ∃ raw e, parseSpecText read text = .ok raw ∧ expandDocument run raw = .ok e ∧
        ¬ (e.combos.map unitKey).Nodup := by
  unfold loadSpec
  cases hparse : parseSpecText read text with
  | error e =>
    refine iff_of_false ?_ ?_
    · rintro ⟨key, h⟩
      cases h
    · rintro ⟨raw, e, h, -⟩
      cases h
  | ok raw =>
    refine (@loadDocument_duplicate F run raw).trans ?_
    simp only [Except.ok.injEq, exists_and_left, exists_eq_left']

/-- The units of an accepted spec are what its axes and entries stand for, each once. -/
def ExpandsExactly (run : Runtime F) (read : String → Except String Document) (text : String) : Prop :=
  ∀ spec, loadSpec run read text = .ok spec → ∃ raw axes allowed included excluded,
    parseSpecText read text = .ok raw ∧ Reads run raw axes allowed included excluded ∧
    (spec.units.map (·.values)).Nodup ∧
    ∀ u, u ∈ spec.units.map (·.values) ↔ InExpansion axes included excluded u

/-- A text that lists axes, values and entries in another order gives the same units and digest. -/
def OrderFree (run : Runtime F) (read : String → Except String Document) (text : String) : Prop :=
  ∀ spec raw text' raw', loadSpec run read text = .ok spec → parseSpecText read text = .ok raw →
    parseSpecText read text' = .ok raw' → Reordered raw raw' →
    ∃ spec', loadSpec run read text' = .ok spec' ∧ spec'.units = spec.units ∧
      ∀ canonicalIntent center artifactManifest,
        intentSha256 canonicalIntent center artifactManifest spec' =
          intentSha256 canonicalIntent center artifactManifest spec

/-- A spec is refused for a repeated unit only when an assignment comes twice. -/
def RefusesRepeats (run : Runtime F) (read : String → Except String Document) (text : String) : Prop :=
  ∀ key, loadSpec run read text = .error (.duplicateUnitKey key) →
    ∃ raw e, parseSpecText read text = .ok raw ∧ expandDocument run raw = .ok e ∧
      ¬ (e.combos.map sortItems).Nodup

/-- An assignment comes twice, or different assignments have different keys. -/
def KeysApart (run : Runtime F) (read : String → Except String Document) (text : String) : Prop :=
  ∀ raw e, parseSpecText read text = .ok raw → expandDocument run raw = .ok e →
    (e.combos.map sortItems).Nodup → ∀ u ∈ e.combos, ∀ v ∈ e.combos, unitKey u = unitKey v →
      sortItems u = sortItems v

/-- A matrix expands to what its axes and entries stand for, in whatever order, and is refused only
for a repeated unit, exactly when its keys tell its assignments apart. -/
theorem matrix_expansion_iff (run : Runtime F) (read : String → Except String Document) (text : String) :
    (ExpandsExactly run read text ∧ OrderFree run read text ∧ RefusesRepeats run read text) ↔
      KeysApart run read text := by
  constructor
  · rintro ⟨-, -, hrefuses⟩ raw e hparse he hnodup u hu v hv hkey
    by_contra hne
    have hrepeated : ¬ (e.combos.map unitKey).Nodup := fun hkeys =>
      hne (congrArg sortItems (List.inj_on_of_nodup_map hkeys hu hv hkey))
    obtain ⟨key, hkey⟩ := loadSpec_duplicate.mpr ⟨raw, e, hparse, he, hrepeated⟩
    obtain ⟨raw', e', hparse', he', hrepeats⟩ := hrefuses key hkey
    obtain rfl := Except.ok.inj (hparse.symm.trans hparse')
    obtain rfl := Except.ok.inj (he.symm.trans he')
    exact hrepeats hnodup
  · intro hapart
    refine ⟨fun spec hload => ?_, fun spec raw text' raw' hload hparse hparse' hreordered => ?_,
      fun key hload => ?_⟩
    · obtain ⟨raw, hparse, hload⟩ := loadSpec_ok.mp hload
      obtain ⟨axes, allowed, included, excluded, hreads, hunits⟩ :=
        loadDocument_units (parseSpecText_wellKeyed hparse "axes") hload
      exact ⟨raw, axes, allowed, included, excluded, hparse, hreads, hunits⟩
    · obtain ⟨raw₀, hparse₀, hload⟩ := loadSpec_ok.mp hload
      obtain rfl := Except.ok.inj (hparse.symm.trans hparse₀)
      have hload' := loadDocument_reordered hreordered (parseSpecText_wellKeyed hparse "axes") hload
      exact ⟨spec, loadSpec_ok.mpr ⟨raw', hparse', hload'⟩, rfl, fun _ _ _ => rfl⟩
    · obtain ⟨raw, e, hparse, he, hrepeated⟩ := loadSpec_duplicate.mp ⟨key, hload⟩
      refine ⟨raw, e, hparse, he, fun hnodup => hrepeated ?_⟩
      have hinj := hapart raw e hparse he hnodup
      refine (List.Nodup.of_map sortItems hnodup).map_on fun u hu v hv hkey => ?_
      exact List.inj_on_of_nodup_map hnodup hu hv (hinj u hu v hv hkey)

end

/-! ## Two units with one key -/

/-- Two axes, with values that spell the other axis. -/
def clashingFields : Fields :=
  [("request_id", .str "r"), ("command", .str "run \x7ba\x7d \x7bb\x7d"),
    ("axes", .map [(.str "a", .seq [.str "1,b=2", .str "1"]), (.str "b", .seq [.str "3", .str "2,b=3"])])]

theorem wellKeyed_texts (texts : List String) : WellKeyed (.seq (texts.map .str)) := by
  refine .seq fun v hv => ?_
  obtain ⟨s, -, rfl⟩ := List.mem_map.mp hv
  exact .str s

def clashingDocument : Document :=
  ⟨.map (clashingFields.map fun p => (.str p.1, p.2)), by
    refine .map (by decide) (List.forall_mem_cons.mpr ⟨.str _, List.forall_mem_cons.mpr ⟨.str _, ?_⟩⟩)
    refine List.forall_mem_singleton.mpr (.map (by decide) ?_)
    exact List.forall_mem_cons.mpr ⟨wellKeyed_texts ["1,b=2", "1"],
      List.forall_mem_singleton.mpr (wellKeyed_texts ["3", "2,b=3"])⟩⟩

def plainRuntime : Runtime Nat where
  repr := id
  sha256 := id
  float _ := none
  ofInt _ := none
  isFinite _ := true
  isPositive n := decide (0 < n)

def clashingRead (_ : String) : Except String Document := .ok clashingDocument

/-- The units `a=1,b=2` with `b=3` and `a=1` with `b=2,b=3` have the key `a=1,b=2,b=3`. -/
theorem clashing_units_refused : ¬ (ExpandsExactly plainRuntime clashingRead "" ∧
    OrderFree plainRuntime clashingRead "" ∧ RefusesRepeats plainRuntime clashingRead "") := by
  rintro ⟨-, -, hrefuses⟩
  have hload : loadSpec plainRuntime clashingRead "" = .error (.duplicateUnitKey "a=1,b=2,b=3") := by
    decide +kernel
  have hcombos : (expandDocument plainRuntime clashingFields).map (·.combos) =
      .ok [[("a", "1,b=2"), ("b", "3")], [("a", "1,b=2"), ("b", "2,b=3")], [("a", "1"), ("b", "3")],
        [("a", "1"), ("b", "2,b=3")]] := by decide +kernel
  obtain ⟨raw, e, hparse, he, hrepeats⟩ := hrefuses _ hload
  obtain rfl := Except.ok.inj ((show parseSpecText clashingRead "" = .ok clashingFields from rfl).symm.trans hparse)
  rw [he] at hcombos
  rw [show e.combos = _ from Except.ok.inj hcombos] at hrepeats
  exact hrepeats (by decide +kernel)

end Dt.Matrix
