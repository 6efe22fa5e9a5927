import Mathlib
import Dt.Query.Paging
import Dt.Operations.Durability

/-!
# What a query finds

A query lists the events of the generations from the newest on. It finds every completed record that
was not rotated out, once, and what stands behind a torn one as well.
-/

namespace Dt.Operations

open Dt.Lib

variable {F : Type}

/-! ## Events are plain values -/

theorem plain_present {fields : List (String × Option (Json F))}
    (hkeys : (fields.map Prod.fst).Nodup)
    (hvalues : ∀ f ∈ fields, ∀ v, f.2 = some v → v.plain = true) :
    (Json.obj (present fields)).plain = true := by
  rw [Json.plain, Bool.and_eq_true, decide_eq_true_eq, plainPairs_iff]
  refine ⟨(keys_present fields).nodup hkeys, fun p hp => ?_⟩
  obtain ⟨f, hf, hp⟩ := List.mem_filterMap.mp hp
  obtain ⟨v, hv, rfl⟩ := Option.map_eq_some_iff.mp hp
  exact hvalues f hf v hv

theorem plain_problem (p : Problem) : (Json.obj (present (problemFields p)) : Json F).plain = true := by
  refine plain_present (by simp [problemFields]) fun f hf v hv => ?_
  simp only [problemFields, List.mem_cons, List.not_mem_nil, or_false] at hf
  rcases hf with rfl | rfl | rfl
  · cases hv
    rfl
  all_goals
    obtain ⟨e, -, hv⟩ := Option.bind_eq_some_iff.mp hv
    cases hv
    rfl

theorem plain_base (p : Process) (session : Session) (phase : String) (now : Moment) :
    ∀ f ∈ (baseFields p session phase now : List (String × Option (Json F))), ∀ v, f.2 = some v →
      v.plain = true := by
  intro f hf v hv
  simp only [baseFields, List.mem_cons, List.not_mem_nil, or_false] at hf
  rcases hf with rfl | rfl | rfl | rfl | rfl | rfl | rfl | rfl | rfl | rfl | rfl | rfl | rfl
  all_goals
    first
    | cases hv; rfl
    | obtain ⟨x, -, hv⟩ := Option.bind_eq_some_iff.mp hv
      cases hv
      rfl

theorem plain_event (w : Write) : (Json.obj (w.event : Event F)).plain = true := by
  refine plain_present w.nodup_fields fun f hf v hv => ?_
  rw [w.fields_eq, List.mem_append] at hf
  rcases hf with hf | hf
  · exact plain_base _ _ _ _ f hf v hv
  · cases w with
    | start p session now =>
      rw [List.mem_singleton.mp hf] at hv
      cases hv
      rfl
    | handoff p session now elapsed =>
      simp only [Write.ownFields, List.mem_cons, List.not_mem_nil, or_false] at hf
      rcases hf with rfl | rfl <;> cases hv <;> rfl
    | finish p session now elapsed status exitCode =>
      simp only [Write.ownFields, List.mem_cons, List.not_mem_nil, or_false] at hf
      rcases hf with rfl | rfl | rfl | rfl
      iterate 3
        cases hv
        rfl
      obtain ⟨problem, -, rfl⟩ := Option.map_eq_some_iff.mp hv
      exact plain_problem problem

variable [FloatText F] {cfg : OperationsCfg} {s : State} {sel : Selection} {limit : Nat}

/-- The event of a call as the reader gives it back. -/
def State.read (F : Type) (s : State) (i : Nat) : Event F :=
  ((s.calls[i]?).map fun w => orderFields (written w.event)).getD []

/-- The number of arguments is one that the reader accepts. -/
def State.counted (s : State) (i : Nat) : Bool :=
  (s.calls[i]?).any fun w => w.session.argvCount ≤ 1000000

/-! ## One line -/

/-- A record is read back as its event. -/
theorem lineEvent_line {i : Nat} (h : s.Recorded F i) {line : Bytes}
    (hline : s.record F i = line ++ ['\n']) :
    lineEvent (boundLine maxEventBytes line) =
      .ok (if s.counted i then some (s.read F i) else none) := by
  obtain ⟨w, hcall, hencode, hlen⟩ := h.record_eq
  obtain ⟨line', hline', hrender, -⟩ := encode_line hencode
  obtain ⟨rfl, -⟩ := List.append_inj' (hline.symm.trans hline') rfl
  have hbound : boundLine maxEventBytes line = some line := by
    rw [hline, List.length_append] at hlen
    exact if_pos (Nat.le_of_succ_le hlen)
  have hload : loadsBy .default line = some (Json.obj (w.event : Event F)).sorted := by
    rw [hrender]
    exact loadsBy_render Hooks.default_keeps (plain_sorted _ (plain_event w))
  rw [hbound, lineEvent, hload]
  dsimp only
  rw [validatedEvent_event, State.counted, State.read, hcall]
  simp only [Option.any_some, Option.map_some, Option.getD_some, decide_eq_true_eq]

/-- What is left of a torn record is no event. -/
theorem lineEvent_torn {i : Nat} (h : s.Recorded F i) {part more : Bytes} (hmore : more ≠ [])
    (hline : s.record F i = part ++ more ++ ['\n']) :
    lineEvent (F := F) (boundLine maxEventBytes part) = .ok none := by
  obtain ⟨w, -, hencode, -⟩ := h.record_eq
  obtain ⟨line, hline', hrender, -⟩ := encode_line hencode
  obtain ⟨hcut, -⟩ := List.append_inj' (hline.symm.trans hline') rfl
  have hload : loadsBy (F := F) .default part = none := by
    rw [sorted_obj] at hrender
    exact loadsBy_cut Hooks.default_keeps (plain_sorted _ (plain_event w))
      (hrender.symm.trans hcut.symm) hmore
  rw [boundLine]
  split
  · rw [lineEvent, hload]
  · rfl

/-! ## One file -/

/-- What the lines of a file come to. -/
theorem lines_wrote {l : List Nat} {b : Bytes} {completed : List Nat}
    (h : Wrote (s.record F) completed l b) (hrecorded : ∀ i ∈ l, s.Recorded F i) :
    ∃ (found : List Nat) (outcomes : List (Option (Event F))),
      (iterReverseLines b).map lineEvent = outcomes.map .ok ∧
      outcomes.reduceOption = found.map (s.read F) ∧ found.Sublist l.reverse ∧
      ∀ i ∈ l, i ∈ completed → s.counted i = true → i ∈ found := by
  -- the lines of whole records, whatever stands behind them
  have hwhole : ∀ (l : List Nat) (rest : Bytes), (∀ i ∈ l, s.Recorded F i) →
      (lastLines maxEventBytes (l.flatMap (s.record F) ++ rest)).map (lineEvent (F := F)) =
        (lastLines maxEventBytes rest).map lineEvent ++
          (l.reverse.map fun i => if s.counted i then some (s.read F i) else none).map .ok := by
    intro l rest hl
    choose! line hline hne hmark using fun i hi => (hl i hi).line
    have htext : l.flatMap (s.record F) = (l.map line).flatMap fun line => line ++ ['\n'] := by
      rw [List.flatMap_map]
      exact List.flatMap_congr fun i hi => hline i hi
    have hlines : ∀ x ∈ l.map line, x ≠ [] ∧ '\n' ∉ x :=
      List.forall_mem_map.mpr fun i hi => ⟨hne i hi, hmark i hi⟩
    rw [htext, lastLines_lines maxEventBytes hlines, List.map_append, List.map_reverse, List.map_map,
      List.map_map, List.map_map, List.map_reverse]
    congr 2
    exact List.map_congr_left fun i hi => lineEvent_line (hl i hi) (hline i hi)
  have hkept : ∀ l : List Nat,
      (l.reverse.map fun i => if s.counted i then some (s.read F i) else none).reduceOption =
        (l.reverse.filter s.counted).map (s.read F) := by
    intro l
    induction l.reverse with
    | nil => rfl
    | cons i l ih =>
      cases hi : s.counted i <;> simp [hi, ih, List.reduceOption_cons_of_none]
  rw [iterReverseLines_eq]
  cases h with
  | whole _ hall =>
    refine ⟨l.reverse.filter s.counted, _, ?_, hkept l, List.filter_sublist, fun i hi _ hcounted => ?_⟩
    · have hlines := hwhole l [] hrecorded
      rwa [List.append_nil, lastLines_nil, List.map_nil, List.nil_append] at hlines
    · exact List.mem_filter.mpr ⟨List.mem_reverse.mpr hi, hcounted⟩
  | torn l i part rest hall hi hpart hrest hrecord =>
    have hrecord' := hrecorded i (by simp)
    have hl : ∀ j ∈ l, s.Recorded F j := fun j hj => hrecorded j (List.mem_append_left _ hj)
    obtain ⟨hmark, more, hmore⟩ := torn_line hrecord' hrest hrecord
    have hlines := hwhole l part hl
    rw [lastLines_line maxEventBytes hpart hmark] at hlines
    have hfind : ∀ j ∈ l ++ [i], j ∈ completed → s.counted j = true →
        j ∈ l.reverse.filter s.counted := by
      intro j hj hcompleted hcounted
      rcases List.mem_append.mp hj with hj | hj
      · exact List.mem_filter.mpr ⟨List.mem_reverse.mpr hj, hcounted⟩
      · rw [List.mem_singleton.mp hj] at hcompleted
        exact absurd hcompleted hi
    rw [List.reverse_append, List.reverse_singleton, List.singleton_append]
    by_cases hnil : more = []
    · -- only the newline is missing: the record is read
      subst hnil
      rw [List.append_nil] at hmore
      rw [List.map_singleton, lineEvent_line hrecord' hmore.symm] at hlines
      refine ⟨(i :: l.reverse).filter s.counted,
        (if s.counted i then some (s.read F i) else none) ::
          l.reverse.map fun i => if s.counted i then some (s.read F i) else none, hlines, ?_,
        List.filter_sublist, fun j hj hcompleted hcounted => ?_⟩
      · have hall := hkept (l ++ [i])
        rwa [List.reverse_append, List.reverse_singleton, List.singleton_append] at hall
      · rw [List.filter_cons]
        split
        · exact List.mem_cons_of_mem _ (hfind j hj hcompleted hcounted)
        · exact hfind j hj hcompleted hcounted
    · rw [List.map_singleton, lineEvent_torn hrecord' hnil hmore.symm] at hlines
      exact ⟨l.reverse.filter s.counted,
        none :: l.reverse.map fun i => if s.counted i then some (s.read F i) else none, hlines,
        (List.reduceOption_cons_of_none _).trans (hkept l),
        List.filter_sublist.trans (List.sublist_cons_self ..), hfind⟩

/-- Lines that all can be read, while the limit is not reached. -/
theorem scanLines_ok (sel : Selection) (limit : Nat) {lines : List (Option Bytes)} {outcomes : List (Option (Event F))}
    (h : lines.map lineEvent = outcomes.map .ok) (found : Found F)
    (hlimit : found.events.length + (outcomes.reduceOption.filter sel.selects).length ≤ limit) :
    ∃ found', scanLines sel limit lines found = .ok found' ∧
      found'.events = found.events ++ outcomes.reduceOption.filter sel.selects ∧
      found'.truncated = found.truncated := by
  induction lines generalizing outcomes found with
  | nil =>
    rw [List.map_nil] at h
    rw [List.map_eq_nil_iff.mp h.symm]
    exact ⟨found, rfl, (List.append_nil _).symm, rfl⟩
  | cons line lines ih =>
    cases outcomes with
    | nil => cases h
    | cons outcome outcomes =>
      obtain ⟨hline, hlines⟩ := List.cons_eq_cons.mp h
      rw [scanLines, hline]
      cases outcome with
      | none =>
        obtain ⟨found', hscan, hevents, htruncated⟩ :=
          ih hlines { found with corruptRecords := found.corruptRecords + 1 } hlimit
        exact ⟨found', hscan, hevents, htruncated⟩
      | some event =>
        dsimp only
        rw [List.reduceOption_cons_of_some, List.filter_cons] at hlimit ⊢
        split
        · rename_i hselects
          rw [if_pos hselects, List.length_cons] at hlimit
          have hroom : ¬limit < (found.events ++ [event]).length := by
            rw [List.length_append, List.length_singleton]
            omega
          rw [if_neg hroom]
          obtain ⟨found', hscan, hevents, htruncated⟩ :=
            ih hlines { found with events := found.events ++ [event] } (by
              simp only [List.length_append, List.length_singleton]
              omega)
          refine ⟨found', hscan, ?_, htruncated⟩
          rw [hevents, List.append_assoc, List.singleton_append]
        · rename_i hselects
          rw [if_neg hselects] at hlimit
          exact ih hlines found hlimit

/-! ## All generations -/

theorem scanFiles_stored {files : Nat → Option Bytes} {held : Nat → List Nat} {completed : List Nat}
    (hstored : Stored (s.record F) completed files held)
    (hrecorded : ∀ g, ∀ i ∈ held g, s.Recorded F i) (gs : List Nat) (hgs : gs.Pairwise (· < ·)) :
    ∃ found : List Nat, found.Pairwise (· > ·) ∧ (∀ i ∈ found, ∃ g ∈ gs, i ∈ held g) ∧
      (∀ g ∈ gs, ∀ i ∈ held g, i ∈ completed → s.counted i = true → i ∈ found) ∧
      ∀ (sel : Selection) (limit : Nat) (start : Found F), start.truncated = false →
        start.events.length + ((found.map (s.read F)).filter sel.selects).length ≤ limit →
        ∃ r, scanFiles sel limit (gs.filterMap files) start = .ok r ∧ r.truncated = false ∧
          r.events = start.events ++ (found.map (s.read F)).filter sel.selects := by
  induction gs with
  | nil =>
    exact ⟨[], .nil, by simp, by simp, fun sel limit start htruncated _ =>
      ⟨start, rfl, htruncated, (List.append_nil _).symm⟩⟩
  | cons g gs ih =>
    obtain ⟨hfirst, hgs⟩ := List.pairwise_cons.mp hgs
    obtain ⟨older, horder, hfrom, hall, hscan⟩ := ih hgs
    cases hfile : files g with
    | none =>
      refine ⟨older, horder, fun i hi => ?_, fun g' hg' i hi => ?_, ?_⟩
      · obtain ⟨g', hg', hi⟩ := hfrom i hi
        exact ⟨g', List.mem_cons_of_mem _ hg', hi⟩
      · rcases List.mem_cons.mp hg' with rfl | hg'
        · rw [hstored.absent g' hfile] at hi
          cases hi
        · exact hall g' hg' i hi
      · rw [List.filterMap_cons_none hfile]
        exact hscan
    | some b =>
      obtain ⟨newer, outcomes, hlines, houtcomes, hsub, hfound⟩ :=
        lines_wrote (hstored.content g b hfile) (hrecorded g)
      have hnewer : ∀ i ∈ newer, i ∈ held g := fun i hi => List.mem_reverse.mp (hsub.subset hi)
      refine ⟨newer ++ older, ?_, fun i hi => ?_, fun g' hg' i hi hcompleted hcounted => ?_,
        fun sel limit start htruncated hlimit => ?_⟩
      · rw [List.pairwise_append]
        refine ⟨(List.pairwise_reverse.mpr (hstored.rising g)).sublist hsub, horder,
          fun i hi j hj => ?_⟩
        obtain ⟨g', hg', hj⟩ := hfrom j hj
        exact hstored.older g g' (hfirst g' hg') i (hnewer i hi) j hj
      · rcases List.mem_append.mp hi with hi | hi
        · exact ⟨g, List.mem_cons_self, hnewer i hi⟩
        · obtain ⟨g', hg', hi⟩ := hfrom i hi
          exact ⟨g', List.mem_cons_of_mem _ hg', hi⟩
      · rcases List.mem_cons.mp hg' with rfl | hg'
        · exact List.mem_append_left _ (hfound i hi hcompleted hcounted)
        · exact List.mem_append_right _ (hall g' hg' i hi hcompleted hcounted)
      · rw [List.map_append, List.filter_append, List.length_append, ← houtcomes] at hlimit
        obtain ⟨r, hr, hevents, hr'⟩ := scanLines_ok sel limit hlines
          { start with filesScanned := start.filesScanned + 1 } (by dsimp only; omega)
        obtain ⟨r', hfiles, htruncated', hevents'⟩ := hscan sel limit r (hr'.trans htruncated) (by
          rw [hevents, List.length_append]
          dsimp only
          omega)
        refine ⟨r', ?_, htruncated', ?_⟩
        · rw [List.filterMap_cons_some hfile, scanFiles, hr]
          dsimp only
          rw [hr', htruncated, if_neg Bool.false_ne_true, hfiles]
        · rw [hevents', hevents, List.map_append, List.filter_append, houtcomes, List.append_assoc]

/-- The selection without arguments lists every event. -/
theorem selects_read {i : Nat} (h : s.Recorded F i) : Selection.selects {} (s.read F i) = true := by
  obtain ⟨w, hcall, -⟩ := h.record_eq
  have hread : s.read F i = orderFields (written w.event) := by rw [State.read, hcall]; rfl
  have hid : get (s.read F i) "operation_id" = .str w.session.operationId.1 := by
    rw [hread, get, (same_orderFields w).2, Write.event, lookup_present w.nodup_fields, w.fields_eq,
      List.lookup_append]
    rfl
  simp [Selection.selects, hid, isNone]

/-- In every state that appends reach, however they were interrupted, a query whose limit is not too
small finds the completed records that were not rotated out, and with them the acknowledged ones,
each of them once and the newest first; the selection picks its events from these. What the reader
refuses are the events of processes with more than a million arguments. -/
theorem query_finds (cfg : OperationsCfg) (F : Type) [FloatText F] {s : State}
    (h : Reachable cfg F s) :
    (∃ found : List Nat, found.Pairwise (· > ·) ∧
      (∀ i ∈ found, ∃ w, s.calls[i]? = some w ∧ Same (s.read F i) w.event ∧
        Selection.selects {} (s.read F i) = true) ∧
      (∀ i ∈ s.completed, i ∉ s.rotatedOut → s.counted i = true → i ∈ found) ∧
      (∀ i ∈ s.acked, i ∈ s.completed) ∧
      ∀ (sel : Selection) (limit : Nat), sel.valid limit = true →
        ((found.map (s.read F)).filter sel.selects).length ≤ limit →
        ∃ r, query cfg s.files sel limit = .ok r ∧ r.truncated = false ∧
          r.events = (found.map (s.read F)).filter sel.selects) ∧
    ∀ w : Write, w.session.argvCount ≤ 1000000 →
      ∃ event, validatedEvent (Json.obj (w.event : Event F)).sorted = .ok (some event) ∧
        Same event w.event := by
  have hinv := reachable_inv h
  refine ⟨?_, fun w hargs => ⟨_, ?_, same_orderFields w⟩⟩
  · obtain ⟨found, horder, hfrom, hall, hscan⟩ := scanFiles_stored hinv.stored hinv.recorded
      (List.range cfg.keepFiles) List.pairwise_lt_range
    refine ⟨found, horder, fun i hi => ?_, fun i hi hout hcounted => ?_, hinv.acked,
      fun sel limit hvalid hlimit => ?_⟩
    · obtain ⟨g, -, hg⟩ := hfrom i hi
      have hrecorded := hinv.recorded g i hg
      obtain ⟨w, hcall, -⟩ := hrecorded.record_eq
      have hread : s.read F i = orderFields (written w.event) := by rw [State.read, hcall]; rfl
      exact ⟨w, hcall, hread ▸ same_orderFields w, selects_read hrecorded⟩
    · obtain ⟨g, hg⟩ := hinv.kept i hi hout
      have hlt : g < cfg.keepFiles := by
        by_contra hle
        have hnone := hinv.stored.absent g (hinv.bounded g (Nat.le_of_not_lt hle))
        rw [hnone] at hg
        cases hg
      exact hall g (List.mem_range.mpr hlt) i hg hi hcounted
    · obtain ⟨r, hr, htruncated, hevents⟩ := hscan sel limit {} rfl (by
        simpa only [List.length_nil, Nat.zero_add] using hlimit)
      refine ⟨r, ?_, htruncated, hevents⟩
      rw [query, if_pos hvalid]
      exact hr
  · rw [validatedEvent_event, if_pos hargs]

def sampleConfig : OperationsCfg := ⟨1, 1, by decide, by decide⟩

def sampleMoment : Moment := ⟨2026, 1, 2, 3, 4, 5, 6⟩

def sampleId : OperationId := ⟨"0123456789abcdef0123456789abcdef", by decide⟩

def sampleProcess : Process := ⟨7, by decide, none⟩

/-- The call of `begin` for some arguments. -/
def sampleCall (argv : List String) : Write :=
  (begin sampleProcess argv "" sampleId .head sampleMoment sampleMoment).2

def sampleLength : Nat := ((encode (Fin 10) (sampleCall ["ps"])).getD []).length

/-- One call is acknowledged, the next one is interrupted after nine bytes, and a third one is
acknowledged. -/
def sampleActions : List Action :=
  [.call (sampleCall ["ps"]), .tick, .tick, .tick, .write sampleLength, .tick,
    .call (sampleCall ["ps"]), .tick, .tick, .tick, .write 9, .stop,
    .call (sampleCall ["ps"]), .tick, .tick, .tick, .write 5, .write (sampleLength - 5), .tick]

def sampleRun : Option State := run (step sampleConfig (Fin 10)) {} sampleActions

theorem query_finds_sample : ∃ s, sampleRun = some s ∧ s.acked = [0, 2] ∧
    ∃ found : List Nat, found.Pairwise (· > ·) ∧ 0 ∈ found ∧ 2 ∈ found := by
  have hrun : (sampleRun.map fun s => (s.acked, s.rotatedOut, s.counted 0, s.counted 2)) =
      some ([0, 2], [], true, true) := by decide +kernel
  obtain ⟨s, hs, hview⟩ := Option.map_eq_some_iff.mp hrun
  obtain ⟨hacked, hview⟩ := Prod.mk.inj hview
  obtain ⟨hout, hview⟩ := Prod.mk.inj hview
  obtain ⟨hzero, htwo⟩ := Prod.mk.inj hview
  obtain ⟨⟨found, horder, -, hall, hdone, -⟩, -⟩ :=
    query_finds sampleConfig (Fin 10) ⟨{}, sampleActions, rfl, hs⟩
  have hfound : ∀ i ∈ s.acked, s.counted i = true → i ∈ found := fun i hi hcounted =>
    hall i (hdone i hi) (by simp [hout]) hcounted
  exact ⟨s, hs, hacked, found, horder, hfound 0 (by simp [hacked]) hzero,
    hfound 2 (by simp [hacked]) htwo⟩

/-- An event that `begin` writes and the reader refuses. -/
theorem begin_refused : validatedEvent
    (Json.obj ((sampleCall (List.replicate 1000001 "")).event : Event (Fin 10))).sorted = .ok none := by
  have hargs : (sampleCall (List.replicate 1000001 "")).session.argvCount = 1000001 :=
    List.length_replicate
  rw [validatedEvent_event, hargs]
  rfl

end Dt.Operations
