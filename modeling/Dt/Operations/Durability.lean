import Mathlib
import Dt.Operations.Appends

/-!
# No record is lost

In every state that a run of appends reaches, whatever was interrupted on the way, the generations
hold the records of the calls in their order, and only the last record of a generation can be torn.
-/

namespace Dt.Operations

open Dt.Lib Function

variable (cfg : OperationsCfg) (F : Type) [FloatText F]

/-- The record of a call. -/
def State.record (s : State) (i : Nat) : Bytes := ((s.calls[i]?).bind (encode F)).getD []

/-- The call has a record that can be appended. -/
def State.Recorded (s : State) (i : Nat) : Prop :=
  ∃ w record, s.calls[i]? = some w ∧ encode F w = some record ∧ record.length ≤ maxEventBytes

/-- Nothing of the last call is in the journal. -/
def State.Fresh (s : State) : Prop := s.current ∉ s.completed ∧ ∀ g, s.current ∉ s.held g

/-- What holds of the journal at every step of an append. -/
structure Base (s : State) : Prop where
  stored : Stored (s.record F) s.completed s.files s.held
  recorded : ∀ g, ∀ i ∈ s.held g, s.Recorded F i
  bounded : ∀ g, cfg.keepFiles ≤ g → s.files g = none
  kept : ∀ i ∈ s.completed, i ∉ s.rotatedOut → ∃ g, i ∈ s.held g
  acked : ∀ i ∈ s.acked, i ∈ s.completed
  called : ∀ i ∈ s.completed, i < s.calls.length

/-- What an append relies on at a step. -/
def PcOk (s : State) (record : Bytes) : Pc → Prop
  | .start | .repair => s.Fresh
  | .dropCurrent => s.Fresh ∧ cfg.keepFiles = 1
  | .dropOldest => s.Fresh ∧ 2 ≤ cfg.keepFiles
  | .shift g => s.Fresh ∧ g + 1 < cfg.keepFiles ∧ s.files (g + 1) = none
  | .replace _ => False
  | .openFile => s.Fresh ∧ ∀ b, s.files 0 = some b → b = (s.held 0).flatMap (s.record F) ∧
      ∀ i ∈ s.held 0, i ∈ s.completed
  | .write rest => rest ≠ [] ∧ s.current ∉ s.completed ∧ (∀ g, 0 < g → s.current ∉ s.held g) ∧
      ∃ l part, part ++ rest = record ∧ (∀ i ∈ l, i ∈ s.completed) ∧
        s.files 0 = some (l.flatMap (s.record F) ++ part) ∧
        s.held 0 = if part = [] then l else l ++ [s.current]
  | .sync => s.current ∈ s.completed

structure Inv (s : State) : Prop extends Base cfg F s where
  running : ∀ pc record, s.running = some (pc, record) →
    s.Recorded F s.current ∧ s.record F s.current = record ∧ PcOk cfg F s record pc

variable {cfg F} {s : State}

/-! ## Records -/

/-- A record is one line. -/
theorem encode_line {w : Write} {record : Bytes} (h : encode F w = some record) :
    ∃ line, record = line ++ ['\n'] ∧ line = (Json.obj (w.event : Event F)).sorted.render .compact ∧
      line ≠ [] ∧ '\n' ∉ line := by
  rw [encode] at h
  split at h
  · cases h
    refine ⟨_, rfl, rfl, ?_, newline_render _⟩
    rw [sorted_obj, Json.render]
    simp
  · cases h

theorem State.Recorded.record_eq {i : Nat} (h : s.Recorded F i) :
    ∃ w, s.calls[i]? = some w ∧ encode F w = some (s.record F i) ∧
      (s.record F i).length ≤ maxEventBytes := by
  obtain ⟨w, record, hcall, hencode, hlen⟩ := h
  have hrecord : s.record F i = record := by rw [State.record, hcall, Option.bind_some, hencode]; rfl
  exact ⟨w, hcall, hrecord ▸ hencode, hrecord ▸ hlen⟩

theorem State.Recorded.lt {i : Nat} (h : s.Recorded F i) : i < s.calls.length := by
  obtain ⟨w, record, hcall, -⟩ := h
  exact (List.getElem?_eq_some_iff.mp hcall).1

theorem State.Recorded.line {i : Nat} (h : s.Recorded F i) :
    ∃ line, s.record F i = line ++ ['\n'] ∧ line ≠ [] ∧ '\n' ∉ line := by
  obtain ⟨w, -, hencode, -⟩ := h.record_eq
  obtain ⟨line, hline, -, hne, hmark⟩ := encode_line hencode
  exact ⟨line, hline, hne, hmark⟩

/-- The text of whole records ends with a line. -/
theorem whole_ends {l : List Nat} (h : ∀ i ∈ l, s.Recorded F i) :
    l.flatMap (s.record F) = [] ∨ ∃ front, l.flatMap (s.record F) = front ++ ['\n'] := by
  rcases List.eq_nil_or_concat l with rfl | ⟨front, i, rfl⟩
  · exact .inl rfl
  · obtain ⟨line, hline, -⟩ := (h i (by simp)).line
    refine .inr ⟨front.flatMap (s.record F) ++ line, ?_⟩
    rw [List.concat_eq_append, List.flatMap_append, List.flatMap_singleton, hline, List.append_assoc]

/-- A torn record has no end of its line. -/
theorem torn_line {i : Nat} (h : s.Recorded F i) {part rest : Bytes} (hrest : rest ≠ [])
    (hrecord : s.record F i = part ++ rest) :
    '\n' ∉ part ∧ ∃ more, part ++ more ++ ['\n'] = s.record F i := by
  obtain ⟨line, hline, -, hmark⟩ := h.line
  obtain ⟨more, last, rfl⟩ := List.eq_nil_or_concat rest |>.resolve_left hrest
  have hcut : line ++ ['\n'] = (part ++ more) ++ [last] := by
    rw [← hline, hrecord, List.concat_eq_append, List.append_assoc]
  obtain ⟨rfl, -⟩ := List.append_inj' hcut rfl
  exact ⟨fun hpart => hmark (List.mem_append_left _ hpart), more, hline.symm⟩

/-! ## What keeps the journal -/

theorem Base.goto (h : Base cfg F s) (pc : Pc) (record : Bytes) : Base cfg F (s.goto pc record) :=
  ⟨h.stored, h.recorded, h.bounded, h.kept, h.acked, h.called⟩

theorem Base.lt_current (h : Base cfg F s) {g : Nat} (hcurrent : s.current ∉ s.held g) {j : Nat}
    (hj : j ∈ s.held g) : j < s.current := by
  have hlt := (h.recorded g j hj).lt
  have hne : j ≠ s.current := fun heq => hcurrent (heq ▸ hj)
  unfold State.current at hne ⊢
  omega

theorem mem_update {held : Nat → List Nat} {g g' : Nat} {l : List Nat} {i : Nat}
    (h : i ∈ update held g l g') : g' = g ∧ i ∈ l ∨ g' ≠ g ∧ i ∈ held g' := by
  by_cases hg : g' = g
  · rw [hg, update_self] at h
    exact .inl ⟨hg, h⟩
  · rw [update_of_ne hg] at h
    exact .inr ⟨hg, h⟩

theorem mem_rename {held : Nat → List Nat} {g g' i : Nat}
    (h : i ∈ update (update held (g + 1) (held g)) g [] g') : ∃ g'', i ∈ held g'' := by
  rcases mem_update h with ⟨-, hi⟩ | ⟨-, hi⟩
  · cases hi
  · rcases mem_update hi with ⟨-, hi⟩ | ⟨-, hi⟩
    · exact ⟨g, hi⟩
    · exact ⟨g', hi⟩

theorem Base.unlink (h : Base cfg F s) (g : Nat) : Base cfg F (s.unlink g) where
  stored := h.stored.unlink g
  recorded g' i hi := by
    rcases mem_update hi with ⟨-, hi⟩ | ⟨-, hi⟩
    · cases hi
    · exact h.recorded g' i hi
  bounded g' hg' := by
    by_cases hg : g' = g
    · rw [hg]
      exact update_self ..
    · exact (update_of_ne hg ..).trans (h.bounded g' hg')
  kept i hi hout := by
    obtain ⟨hold, hthere⟩ := not_or.mp fun hmem => hout (List.mem_append.mpr hmem)
    obtain ⟨g', hg'⟩ := h.kept i hi hold
    have hne : g' ≠ g := fun heq => hthere (heq ▸ hg')
    refine ⟨g', ?_⟩
    show i ∈ update s.held g [] g'
    rw [update_of_ne hne]
    exact hg'
  acked := h.acked
  called := h.called

theorem Base.rename (h : Base cfg F s) {g : Nat} (hg : g + 1 < cfg.keepFiles) :
    Base cfg F (s.rename g) where
  stored := h.stored.rename g
  recorded g' i hi := by
    obtain ⟨g'', hi⟩ := mem_rename hi
    exact h.recorded g'' i hi
  bounded g' hg' := by
    have hne : g' ≠ g := by omega
    have hnext : g' ≠ g + 1 := by omega
    exact (update_of_ne hne ..).trans ((update_of_ne hnext ..).trans (h.bounded g' hg'))
  kept i hi hout := by
    obtain ⟨hold, hthere⟩ := not_or.mp fun hmem => hout (List.mem_append.mpr hmem)
    obtain ⟨g', hg'⟩ := h.kept i hi hold
    have hnext : g' ≠ g + 1 := fun heq => hthere (heq ▸ hg')
    by_cases hsame : g' = g
    · refine ⟨g + 1, ?_⟩
      show i ∈ update (update s.held (g + 1) (s.held g)) g [] (g + 1)
      rw [update_of_ne (by omega), update_self]
      exact hsame ▸ hg'
    · refine ⟨g', ?_⟩
      show i ∈ update (update s.held (g + 1) (s.held g)) g [] g'
      rw [update_of_ne hsame, update_of_ne hnext]
      exact hg'
  acked := h.acked
  called := h.called

theorem State.Fresh.unlink (h : s.Fresh) (g : Nat) : (s.unlink g).Fresh := by
  refine ⟨h.1, fun g' hmem => ?_⟩
  rcases mem_update hmem with ⟨-, hi⟩ | ⟨-, hi⟩
  · cases hi
  · exact h.2 g' hi

theorem State.Fresh.rename (h : s.Fresh) (g : Nat) : (s.rename g).Fresh := by
  refine ⟨h.1, fun g' hmem => ?_⟩
  obtain ⟨g'', hi⟩ := mem_rename hmem
  exact h.2 g'' hi

/-- The current file gets other bytes; the last call is completed with them or not. -/
theorem Base.current (h : Base cfg F s) {b : Bytes} {l : List Nat} {completed : List Nat}
    (hwrote : Wrote (s.record F) completed l b) (hrising : l.Pairwise (· < ·))
    (hlater : ∀ i ∈ l, ∀ g, 0 < g → ∀ j ∈ s.held g, j < i) (hrecorded : ∀ i ∈ l, s.Recorded F i)
    (hheld : ∀ i ∈ s.held 0, i ∈ s.completed → i ∈ l)
    (hcompleted : completed = s.completed ∨ completed = s.completed ++ [s.current] ∧
      s.current ∈ l ∧ ∀ g, 0 < g → s.current ∉ s.held g) :
    Base cfg F { s with
      files := update s.files 0 (some b), held := update s.held 0 l, completed := completed } := by
  have hmem : ∀ i, i ∈ completed ↔ i ∈ s.completed ∨ i ∈ completed ∧ i = s.current ∧ i ∈ l ∧
      ∀ g, 0 < g → i ∉ s.held g := by
    intro i
    rcases hcompleted with rfl | ⟨rfl, hl, hg⟩
    · exact ⟨.inl, fun hor => hor.elim id And.left⟩
    · rw [List.mem_append, List.mem_singleton]
      refine ⟨fun hor => hor.imp id fun heq => ⟨.inr heq, heq, heq ▸ hl, heq ▸ hg⟩, fun hor => ?_⟩
      exact hor.imp id fun hnew => hnew.2.1
  exact {
    stored := by
      refine h.stored.current (fun g hg i hi => ?_) hwrote hrising hlater
      rw [hmem]
      exact ⟨fun hor => hor.resolve_right fun hnew => hnew.2.2.2 g hg hi, .inl⟩
    recorded := by
      intro g i hi
      rcases mem_update hi with ⟨-, hi⟩ | ⟨-, hi⟩
      · exact hrecorded i hi
      · exact h.recorded g i hi
    bounded := by
      intro g hg
      have hne : g ≠ 0 := Nat.ne_of_gt (Nat.lt_of_lt_of_le cfg.keepFiles_range.1 hg)
      exact (update_of_ne hne ..).trans (h.bounded g hg)
    kept := by
      intro i hi hout
      suffices ∃ g, i ∈ update s.held 0 l g from this
      rcases (hmem i).mp hi with hold | ⟨-, -, hl, -⟩
      · obtain ⟨g, hg⟩ := h.kept i hold hout
        by_cases hzero : g = 0
        · refine ⟨0, ?_⟩
          rw [update_self]
          exact hheld i (hzero ▸ hg) hold
        · refine ⟨g, ?_⟩
          rw [update_of_ne hzero]
          exact hg
      · refine ⟨0, ?_⟩
        rw [update_self]
        exact hl
    acked := fun i hi => (hmem i).mpr (.inl (h.acked i hi))
    called := by
      intro i hi
      rcases (hmem i).mp hi with hold | ⟨-, -, hl, -⟩
      · exact h.called i hold
      · exact (hrecorded i hl).lt }

/-! ## The steps -/

theorem inv_goto (h : Base cfg F s) {pc : Pc} {record : Bytes} (hrecorded : s.Recorded F s.current)
    (hrecord : s.record F s.current = record) (hpc : PcOk cfg F s record pc) :
    Inv cfg F (s.goto pc record) := by
  refine ⟨h.goto pc record, fun pc' record' hrun => ?_⟩
  cases hrun
  exact ⟨hrecorded, hrecord, by cases pc <;> exact hpc⟩

/-- A step of the rotation, or the decision whether to rotate. -/
theorem tick_rotate (h : Base cfg F s) {pc : Pc} {record : Bytes}
    (hrecorded : s.Recorded F s.current) (hrecord : s.record F s.current = record)
    (hpc : PcOk cfg F s record pc) {s' : State}
    (hrotate : pc = .start ∨ pc = .dropCurrent ∨ pc = .dropOldest ∨ (∃ g, pc = .shift g) ∨
      ∃ g, pc = .replace g)
    (hstep : tick cfg s pc record = some s') : Inv cfg F s' := by
  have hkeep := cfg.keepFiles_range.1
  cases pc with
  | start =>
    have hrepair : Inv cfg F (s.goto .repair record) := inv_goto h hrecorded hrecord hpc
    simp only [tick] at hstep
    split at hstep
    · cases hstep
      exact hrepair
    · split at hstep
      · cases hstep
        split
        · rename_i hone
          exact inv_goto h hrecorded hrecord ⟨hpc, hone⟩
        · rename_i hmore
          exact inv_goto h hrecorded hrecord ⟨hpc, by omega⟩
      · cases hstep
        exact hrepair
  | dropCurrent =>
    cases hstep
    exact inv_goto (h.unlink 0) hrecorded hrecord (hpc.1.unlink 0)
  | dropOldest =>
    obtain ⟨hfresh, htwo⟩ := hpc
    have hlast : cfg.keepFiles - 2 + 1 = cfg.keepFiles - 1 := by omega
    have hlt : cfg.keepFiles - 2 + 1 < cfg.keepFiles := by omega
    simp only [tick] at hstep
    cases hstep
    split
    · refine inv_goto (h.unlink _) hrecorded hrecord ⟨hfresh.unlink _, hlt, ?_⟩
      rw [hlast]
      exact update_self ..
    · rename_i hnone
      refine inv_goto h hrecorded hrecord ⟨hfresh, hlt, ?_⟩
      rw [hlast]
      simpa using hnone
  | shift g =>
    obtain ⟨hfresh, hlt, hfree⟩ := hpc
    cases g with
    | zero =>
      cases hstep
      exact inv_goto (h.rename hlt) hrecorded hrecord (hfresh.rename 0)
    | succ g =>
      simp only [tick, hfree, Option.isSome_none, Bool.false_eq_true, if_false] at hstep
      split at hstep
      · rename_i hnone
        cases hstep
        exact inv_goto h hrecorded hrecord ⟨hfresh, by omega, by simpa using hnone⟩
      · cases hstep
        exact inv_goto (h.rename hlt) hrecorded hrecord
          ⟨hfresh.rename _, by omega, update_self ..⟩
  | replace g => exact absurd hpc id
  | _ => simp at hrotate

theorem tick_repair (h : Base cfg F s) {record : Bytes} (hrecorded : s.Recorded F s.current)
    (hrecord : s.record F s.current = record) (hfresh : s.Fresh) {s' : State}
    (hstep : tick cfg s .repair record = some s') : Inv cfg F s' := by
  simp only [tick] at hstep
  split at hstep
  · rename_i hnone
    cases hstep
    refine inv_goto h hrecorded hrecord ⟨hfresh, fun b hb => ?_⟩
    rw [hnone] at hb
    cases hb
  · rename_i current hfile
    cases hstep
    have hrec := h.recorded 0
    have hrising := h.stored.rising 0
    have hlater : ∀ i ∈ s.held 0, ∀ g, 0 < g → ∀ j ∈ s.held g, j < i := fun i hi g hg j hj =>
      h.stored.older 0 g hg i hi j hj
    -- what is left of the file are whole records
    obtain ⟨l, hl, hfile', hheld, hsub, hdone⟩ : ∃ l, (∀ i ∈ l, i ∈ s.completed) ∧
        repairTornTail current = l.flatMap (s.record F) ∧
        (if repairTornTail current = current then s.held 0 else (s.held 0).dropLast) = l ∧
        l.Sublist (s.held 0) ∧ ∀ i ∈ s.held 0, i ∈ s.completed → i ∈ l := by
      have hcontent := h.stored.content 0 current hfile
      generalize s.held 0 = held at *
      cases hcontent with
      | whole _ hall =>
        have hsame := repairTornTail_whole (whole_ends hrec)
        exact ⟨held, hall, hsame, if_pos hsame, .refl _, fun i hi _ => hi⟩
      | torn l i part rest hall hi hpart hrest hrecord' =>
        have hline := (torn_line (hrec i (by simp)) hrest hrecord').1
        have hsame := repairTornTail_torn (whole_ends fun j hj => hrec j (List.mem_append_left _ hj))
          hpart hline
        have hne : l.flatMap (s.record F) ≠ l.flatMap (s.record F) ++ part := fun heq =>
          hpart (List.self_eq_append_right.mp heq)
        refine ⟨l, hall, hsame, ?_, List.sublist_append_left .., fun j hj hcompleted => ?_⟩
        · rw [hsame, if_neg hne, List.dropLast_concat]
        · rcases List.mem_append.mp hj with hj | hj
          · exact hj
          · rw [List.mem_singleton.mp hj] at hcompleted
            exact absurd hcompleted hi
    rw [hheld, hfile']
    have hbase := h.current (.whole l hl) (hrising.sublist hsub)
      (fun i hi => hlater i (hsub.subset hi)) (fun i hi => hrec i (hsub.subset hi)) hdone (.inl rfl)
    refine inv_goto hbase hrecorded hrecord ⟨⟨hfresh.1, fun g hmem => ?_⟩, fun b hb => ?_⟩
    · rcases mem_update hmem with ⟨-, hi⟩ | ⟨-, hi⟩
      · exact hfresh.2 0 (hsub.subset hi)
      · exact hfresh.2 g hi
    · have hbytes : update s.files 0 (some (l.flatMap (s.record F))) 0 = some b := hb
      rw [update_self] at hbytes
      cases hbytes
      show _ = (update s.held 0 l 0).flatMap (s.record F) ∧ ∀ i ∈ update s.held 0 l 0, i ∈ s.completed
      rw [update_self]
      exact ⟨rfl, hl⟩

theorem tick_openFile (h : Base cfg F s) {record : Bytes} (hrecorded : s.Recorded F s.current)
    (hrecord : s.record F s.current = record) (hpc : PcOk cfg F s record .openFile) {s' : State}
    (hstep : tick cfg s .openFile record = some s') : Inv cfg F s' := by
  obtain ⟨hfresh, hwhole⟩ := hpc
  obtain ⟨line, hline, -⟩ := hrecorded.line
  have hne : record ≠ [] := by
    rw [← hrecord, hline]
    simp
  have hfile : (s.files 0).getD [] = (s.held 0).flatMap (s.record F) ∧
      ∀ i ∈ s.held 0, i ∈ s.completed := by
    cases hfile : s.files 0 with
    | none =>
      rw [h.stored.absent 0 hfile]
      exact ⟨rfl, fun i hi => absurd hi List.not_mem_nil⟩
    | some b => exact hwhole b hfile
  cases hstep
  rw [hfile.1]
  have hbase := h.current (.whole (s.held 0) hfile.2) (h.stored.rising 0)
    (fun i hi g hg j hj => h.stored.older 0 g hg i hi j hj) (h.recorded 0) (fun i hi _ => hi) (.inl rfl)
  rw [update_eq_self] at hbase
  refine inv_goto hbase hrecorded hrecord ⟨hne, hfresh.1, fun g _ => hfresh.2 g, s.held 0, [], rfl,
    hfile.2, ?_, (if_pos rfl).symm⟩
  show update s.files 0 _ 0 = _
  rw [update_self, List.append_nil]
  rfl

theorem inv_writeBytes (h : Base cfg F s) {rest record : Bytes} (hrecorded : s.Recorded F s.current)
    (hrecord : s.record F s.current = record) (hpc : PcOk cfg F s record (.write rest)) {bytes : Nat}
    {s' : State} (hstep : writeBytes s rest record bytes = some s') : Inv cfg F s' := by
  obtain ⟨-, hopen, hbehind, l, part, hparts, hdone, hfile, hheld⟩ := hpc
  rw [writeBytes] at hstep
  split at hstep
  · rename_i hbytes
    cases hstep
    have htaken : part ++ rest.take bytes ≠ [] := fun hnil => by
      have hlen := congrArg List.length (List.append_eq_nil_iff.mp hnil).2
      rw [List.length_take, List.length_nil] at hlen
      omega
    have hall : part ++ rest.take bytes ++ rest.drop bytes = record := by
      rw [List.append_assoc, List.take_append_drop, hparts]
    have hstarted : rest = record ↔ part = [] := by
      rw [← hparts, List.self_eq_append_left]
    have hheld' : (if rest = record then s.held 0 ++ [s.current] else s.held 0) =
        l ++ [s.current] := by
      rw [hheld]
      by_cases hpart : part = []
      · rw [if_pos (hstarted.mpr hpart), if_pos hpart]
      · rw [if_neg fun heq => hpart (hstarted.mp heq), if_neg hpart]
    have hl : ∀ i ∈ l, i ∈ s.held 0 := by
      rw [hheld]
      split
      · exact fun i hi => hi
      · exact fun i hi => List.mem_append_left _ hi
    have hold : ∀ i ∈ s.held 0, i ∈ s.completed → i ∈ l ++ [s.current] := by
      rw [hheld]
      split
      · exact fun i hi _ => List.mem_append_left _ hi
      · exact fun i hi _ => hi
    have hbefore : ∀ i ∈ l, i < s.current := fun i hi => by
      have hlt := h.called i (hdone i hi)
      have hne : i ≠ s.current := fun heq => hopen (heq ▸ hdone i hi)
      unfold State.current at hne ⊢
      omega
    have hrising : (l ++ [s.current]).Pairwise (· < ·) := by
      have hsub : l.Sublist (s.held 0) := by
        rw [hheld]
        split
        · exact .refl _
        · exact List.sublist_append_left ..
      rw [List.pairwise_append]
      refine ⟨(h.stored.rising 0).sublist hsub, List.pairwise_singleton _ _, fun i hi j hj => ?_⟩
      rw [List.mem_singleton.mp hj]
      exact hbefore i hi
    have hlater : ∀ i ∈ l ++ [s.current], ∀ g, 0 < g → ∀ j ∈ s.held g, j < i := by
      intro i hi g hg j hj
      rcases List.mem_append.mp hi with hi | hi
      · exact h.stored.older 0 g hg i (hl i hi) j hj
      · rw [List.mem_singleton.mp hi]
        exact h.lt_current (hbehind g hg) hj
    have hrec : ∀ i ∈ l ++ [s.current], s.Recorded F i := by
      intro i hi
      rcases List.mem_append.mp hi with hi | hi
      · exact h.recorded 0 i (hl i hi)
      · rw [List.mem_singleton.mp hi]
        exact hrecorded
    rw [hheld', hfile, Option.getD_some, List.append_assoc]
    by_cases hleft : rest.drop bytes = []
    · -- the record is complete
      rw [hleft, List.append_nil] at hall
      have hcompleted : ∀ i ∈ l ++ [s.current], i ∈ s.completed ++ [s.current] := fun i hi =>
        List.mem_append.mpr ((List.mem_append.mp hi).imp (hdone i) id)
      have hwrote : Wrote (s.record F) (s.completed ++ [s.current]) (l ++ [s.current])
          (l.flatMap (s.record F) ++ (part ++ rest.take bytes)) := by
        have hwhole : Wrote (s.record F) (s.completed ++ [s.current]) (l ++ [s.current]) _ :=
          .whole (l ++ [s.current]) hcompleted
        rwa [List.flatMap_append, List.flatMap_singleton, hrecord, ← hall] at hwhole
      rw [if_pos hleft, if_pos hleft]
      refine inv_goto (h.current hwrote hrising hlater hrec hold (.inr ⟨rfl, by simp, hbehind⟩))
        hrecorded hrecord ?_
      show s.current ∈ s.completed ++ [s.current]
      simp
    · have hwrote := Wrote.torn l s.current (part ++ rest.take bytes) (rest.drop bytes) hdone hopen
        htaken hleft (hrecord.trans hall.symm)
      rw [if_neg hleft, if_neg hleft]
      refine inv_goto (h.current hwrote hrising hlater hrec hold (.inl rfl)) hrecorded hrecord
        ⟨hleft, hopen, fun g hg => ?_, l, part ++ rest.take bytes, hall, hdone, ?_, ?_⟩
      · show s.current ∉ update s.held 0 _ g
        rw [update_of_ne (Nat.ne_of_gt hg)]
        exact hbehind g hg
      · show update s.files 0 _ 0 = _
        rw [update_self]
        rfl
      · show update s.held 0 _ 0 = _
        rw [update_self, if_neg htaken]
        rfl
  · cases hstep

theorem record_append (w : Write) {i : Nat} (hi : i < s.calls.length) :
    ({ s with calls := s.calls ++ [w] } : State).record F i = s.record F i := by
  rw [State.record, State.record, List.getElem?_append_left hi]

theorem Base.call (h : Base cfg F s) (w : Write) :
    Base cfg F { s with calls := s.calls ++ [w] } where
  stored := h.stored.mono (fun g i hi => record_append w (h.recorded g i hi).lt) fun _ _ _ => .rfl
  recorded g i hi := by
    obtain ⟨w', record, hcall, hencode⟩ := h.recorded g i hi
    refine ⟨w', record, ?_, hencode⟩
    rw [List.getElem?_append_left (h.recorded g i hi).lt]
    exact hcall
  bounded := h.bounded
  kept := h.kept
  acked := h.acked
  called i hi := by
    rw [List.length_append]
    exact Nat.lt_add_right _ (h.called i hi)

theorem inv_call (h : Inv cfg F s) (w : Write) (hidle : s.running = none) :
    Inv cfg F (beginCall F s w) := by
  have hbase := h.toBase.call w
  have hrefused : Inv cfg F { s with calls := s.calls ++ [w] } := by
    refine ⟨hbase, fun pc record hrun => ?_⟩
    rw [show ({ s with calls := s.calls ++ [w] } : State).running = none from hidle] at hrun
    cases hrun
  rw [beginCall]
  split
  · exact hrefused
  · rename_i record hencode
    split
    · exact hrefused
    · rename_i hlen
      have hlast : (s.calls ++ [w])[(s.calls ++ [w]).length - 1]? = some w := by simp
      have hrecorded : ({ s with calls := s.calls ++ [w] } : State).Recorded F
          ({ s with calls := s.calls ++ [w] } : State).current :=
        ⟨w, record, hlast, hencode, Nat.le_of_not_lt hlen⟩
      have hnumber : ({ s with calls := s.calls ++ [w] } : State).current = s.calls.length := by
        simp [State.current]
      refine inv_goto hbase hrecorded ?_ ⟨fun hmem => ?_, fun g hmem => ?_⟩
      · rw [State.record, State.current, hlast, Option.bind_some, hencode]
        rfl
      · rw [hnumber] at hmem
        exact absurd (h.called _ hmem) (Nat.lt_irrefl _)
      · rw [hnumber] at hmem
        exact absurd (h.recorded g _ hmem).lt (Nat.lt_irrefl _)

theorem step_inv {s s' : State} {a : Action} (h : Inv cfg F s) (hstep : step cfg F s a = some s') :
    Inv cfg F s' := by
  cases a with
  | call w =>
    simp only [step] at hstep
    split at hstep
    · cases hstep
    · rename_i hidle
      cases hstep
      exact inv_call h w (by simpa using hidle)
  | tick =>
    obtain ⟨⟨pc, record⟩, hrun, htick⟩ := Option.bind_eq_some_iff.mp hstep
    obtain ⟨hrecorded, hrecord, hpc⟩ := h.running pc record hrun
    cases pc with
    | repair => exact tick_repair h.toBase hrecorded hrecord hpc htick
    | openFile => exact tick_openFile h.toBase hrecorded hrecord hpc htick
    | write rest => cases htick
    | sync =>
      cases htick
      refine ⟨⟨h.stored, h.recorded, h.bounded, h.kept, fun i hi => ?_, h.called⟩,
        fun pc record hrun => by cases hrun⟩
      rcases List.mem_append.mp hi with hi | hi
      · exact h.acked i hi
      · rw [List.mem_singleton.mp hi]
        exact hpc
    | _ => exact tick_rotate h.toBase hrecorded hrecord hpc (by simp) htick
  | write bytes =>
    simp only [step] at hstep
    split at hstep
    · rename_i rest record hrun
      obtain ⟨hrecorded, hrecord, hpc⟩ := h.running _ _ hrun
      exact inv_writeBytes h.toBase hrecorded hrecord hpc hstep
    · cases hstep
  | stop =>
    obtain ⟨r, -, rfl⟩ := Option.map_eq_some_iff.mp hstep
    exact ⟨⟨h.stored, h.recorded, h.bounded, h.kept, h.acked, h.called⟩,
      fun pc record hrun => by cases hrun⟩

theorem inv_init : Inv cfg F {} where
  stored := {
    content := fun g b hb => by cases hb
    absent := fun g _ => rfl
    rising := fun g => List.Pairwise.nil
    older := fun g g' _ i hi => by cases hi }
  recorded g i hi := by cases hi
  bounded g _ := rfl
  kept i hi := by cases hi
  acked i hi := by cases hi
  called i hi := by cases hi
  running pc record hrun := by cases hrun

/-- An empty journal, and any appends on it. -/
def Reachable (cfg : OperationsCfg) (F : Type) [FloatText F] (s : State) : Prop :=
  Reach (step cfg F) (fun s => s = {}) s

theorem reachable_inv (h : Reachable cfg F s) : Inv cfg F s :=
  reach_inv (fun _ heq => heq ▸ inv_init) (fun _ _ _ => step_inv) h

end Dt.Operations
