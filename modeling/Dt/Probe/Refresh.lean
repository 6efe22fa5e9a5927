import Mathlib
import Dt.Lib.Machine
import Dt.Probe.Inventory

/-!
# Refreshes of the probe cache

Callers of `probe_center` share one cache file and one lock. A caller that may use the cache reads
it; a fresh caller takes the lock, and takes over the cache when its signature changed since the
call began; everyone else measures the nodes and publishes. A fresh caller so gets measurements of
its own, or those of a refresh that was under way when it called, or rows that say that they are
stale and have no free card.
-/

namespace Dt.Probe

open Dt.Lib

structure Node where
  name : String
  isLocal : Bool

/-- `NodeStatus`, with the time of the measurement. -/
structure NodeStatus where
  node : String
  gpus : List Gpu
  error : Option String
  unreachable : Bool
  stale : Bool
  taken : Nat

/-- The cache file, with the times at which its refresh started and published it. -/
structure CacheFile where
  statuses : List NodeStatus
  signature : Nat
  started : Nat
  published : Nat

/-- `_read_probe_cache`; the file may be too old or unreadable. A cached row is not stale. -/
def readProbeCache (cache : Option CacheFile) (nodes : List Node) (readable : Bool) :
    Option (List NodeStatus) :=
  cache.bind fun file =>
    if readable ∧ file.statuses.map NodeStatus.node = nodes.map Node.name then
      some (file.statuses.map fun status => { status with stale := false })
    else none

/-- `_stale_probe_status` -/
def staleProbeStatus (node : Node) (previous : Option NodeStatus) (message : String) : NodeStatus :=
  match previous with
  | none => ⟨node.name, [], some message, !node.isLocal, true, 0⟩
  | some previous =>
    { previous with
      node := node.name
      gpus := previous.gpus.map fun gpu => { gpu with free := false }
      error := some message
      stale := true }

/-- `previous.get(node.name)` -/
def previousStatus (fallback : Option (List NodeStatus)) (node : Node) : Option NodeStatus :=
  (fallback.getD []).find? fun status => status.node = node.name

def budgetMessage : String := "stale: live probe exceeded 0.65s interactive budget"
def refreshMessage : String := "stale: another probe refresh is already in progress"

/-! ## The callers -/

/-- A call of `probe_center`. -/
structure Call where
  nodes : List Node
  useCache : Bool
  softDeadline : Bool
  began : Nat

/-- Where a caller is. -/
inductive Pc where
  | idle
  | begun (call : Call)
  /-- `initial_signature` was taken -/
  | signed (call : Call) (initial : Option Nat)
  | waiting (call : Call) (initial : Option Nat)
  /-- inside `_probe_refresh_lock` -/
  | inside (call : Call) (initial : Option Nat) (coordinated : Bool)
  /-- the signature is another one -/
  | changed (call : Call)
  | unchanged (call : Call)
  | collecting (call : Call) (started : Nat) (fallback : Option (List NodeStatus))
      (results : List NodeStatus) (rest : List Node)
  | leaving (call : Call) (statuses : List NodeStatus)
  | done (call : Call) (statuses : List NodeStatus)
  | dead

/-- What a caller does next, with what it meets. -/
inductive Op where
  | call (nodes : List Node) (useCache softDeadline : Bool)
  | sign
  | readCache (readable : Bool)
  | lock
  | noLock
  | giveUp (readable : Bool)
  | recheck (readable : Bool)
  | compare
  | adopt (readable : Bool)
  | collect (readable : Bool)
  | measure (gpus : List Gpu) (error : Option String) (unreachable : Bool)
  | late
  | publish (signature : Nat)
  | oversized
  | writeFails
  | leave
  | crash

/-- The cache, the lock, the callers, and every file that was written. -/
structure World where
  time : Nat
  cache : Option CacheFile
  lock : Option Nat
  callers : Nat → Pc
  written : List CacheFile

/-- A node with some cache file of earlier times. -/
def World.start (cache : Option CacheFile) : World :=
  ⟨1, cache.map fun file => { file with published := 0 }, none, fun _ => .idle, []⟩

def World.goto (w : World) (i : Nat) (pc : Pc) : World :=
  { w with time := w.time + 1, callers := Function.update w.callers i pc }

def World.unlock (w : World) (i : Nat) : World :=
  { w with lock := if w.lock = some i then none else w.lock }

/-- The next step of a caller. -/
def World.act (w : World) (i : Nat) : Pc → Op → Option World
  | .idle, .call nodes useCache softDeadline =>
    some (w.goto i (.begun ⟨nodes, useCache, softDeadline, w.time⟩))
  | .begun call, .sign =>
    let initial := w.cache.map CacheFile.signature
    some (w.goto i (if call.useCache then .signed call initial else .waiting call initial))
  | .signed call initial, .readCache readable =>
    match readProbeCache w.cache call.nodes readable with
    | some cached => some (w.goto i (.leaving call cached))
    | none => some (w.goto i (.waiting call initial))
  | .waiting call initial, .lock =>
    if w.lock = none then some { w.goto i (.inside call initial true) with lock := some i } else none
  | .waiting call initial, .noLock => some (w.goto i (.inside call initial false))
  | .inside call _ false, .giveUp readable =>
    if call.softDeadline then
      let fallback := readProbeCache w.cache call.nodes readable
      some (w.goto i (.leaving call (call.nodes.map fun node =>
        staleProbeStatus node (previousStatus fallback node) refreshMessage)))
    else none
  | .inside call _ coordinated, .recheck readable =>
    if call.useCache ∧ (coordinated ∨ ¬ call.softDeadline) then
      match readProbeCache w.cache call.nodes readable with
      | some cached => some (w.goto i (.leaving call cached))
      | none => some (w.goto i (.unchanged call))
    else none
  | .inside call initial coordinated, .compare =>
    if ¬ call.useCache ∧ (coordinated ∨ ¬ call.softDeadline) then
      if coordinated ∧ w.cache.map CacheFile.signature ≠ initial then
        some (w.goto i (.changed call))
      else some (w.goto i (.unchanged call))
    else none
  | .changed call, .adopt readable =>
    match readProbeCache w.cache call.nodes readable with
    | some cached => some (w.goto i (.leaving call cached))
    | none => some (w.goto i (.unchanged call))
  | .unchanged call, .collect readable =>
    some (w.goto i (.collecting call w.time (readProbeCache w.cache call.nodes readable) []
      call.nodes))
  | .collecting call started fallback results (node :: rest), .measure gpus error unreachable =>
    some (w.goto i (.collecting call started fallback
      (results ++ [⟨node.name, gpus, error, unreachable, false, w.time⟩]) rest))
  | .collecting call started fallback results (node :: rest), .late =>
    if call.softDeadline then
      some (w.goto i (.collecting call started fallback
        (results ++ [staleProbeStatus node (previousStatus fallback node) budgetMessage]) rest))
    else none
  | .collecting call started _ results [], .publish signature =>
    if results.any NodeStatus.stale then none
    else
      let file := ⟨results, signature, started, w.time⟩
      some { w.goto i (.leaving call results) with cache := some file, written := file :: w.written }
  | .collecting call _ _ results [], .oversized =>
    if results.any NodeStatus.stale then none
    else some { w.goto i (.leaving call results) with cache := none }
  | .collecting call _ _ results [], .writeFails => some (w.goto i (.leaving call results))
  | .leaving call statuses, .leave => some ((w.goto i (.done call statuses)).unlock i)
  | _, .crash => some ((w.goto i .dead).unlock i)
  | _, _ => none

def step (w : World) (a : Nat × Op) : Option World := w.act a.1 (w.callers a.1) a.2

/-! ## What the callers know -/

/-- A row that stands for no capacity. -/
def StaleRow (status : NodeStatus) : Prop :=
  status.stale = true ∧ ∀ gpu ∈ status.gpus, gpu.free = false

/-- A row of a refresh that measured it after it started. -/
def LiveRow (started : Nat) (status : NodeStatus) : Prop :=
  status.stale = false ∧ started ≤ status.taken

/-- A row that a fresh call may return: a measurement since the call began, one of a refresh that
was under way when it began, or a stale row. -/
def FreshRow (w : World) (call : Call) (status : NodeStatus) : Prop :=
  StaleRow status ∨ LiveRow call.began status ∨
    status.stale = false ∧ ∃ file ∈ w.written, status ∈ file.statuses ∧
      file.started < call.began ∧ call.began ≤ file.published ∧ file.started ≤ status.taken

/-- The cache has the signature of the beginning, or was published since. -/
def SeenSince (w : World) (call : Call) (initial : Option Nat) : Prop :=
  ∀ file, w.cache = some file → initial = some file.signature ∨ call.began ≤ file.published

/-- The rows name the nodes of the call. -/
def Covers (call : Call) (statuses : List NodeStatus) : Prop :=
  statuses.map NodeStatus.node = call.nodes.map Node.name

/-- What holds of a caller. -/
def PcInv (w : World) : Pc → Prop
  | .idle | .dead => True
  | .begun call => 0 < call.began ∧ call.began ≤ w.time
  | .signed call initial =>
    0 < call.began ∧ call.began ≤ w.time ∧ SeenSince w call initial ∧ call.useCache = true
  | .waiting call initial | .inside call initial _ =>
    0 < call.began ∧ call.began ≤ w.time ∧ SeenSince w call initial
  | .changed call => 0 < call.began ∧ call.began ≤ w.time ∧
    ∀ file, w.cache = some file → call.began ≤ file.published
  | .unchanged call => 0 < call.began ∧ call.began ≤ w.time
  | .collecting call started _ results rest =>
    call.began ≤ started ∧ started ≤ w.time ∧
      (results.map NodeStatus.node ++ rest.map Node.name = call.nodes.map Node.name) ∧
      ∀ status ∈ results, StaleRow status ∨ LiveRow started status
  | .leaving call statuses | .done call statuses =>
    Covers call statuses ∧ (call.useCache = false → ∀ status ∈ statuses, FreshRow w call status)

/-- What holds of a written file. -/
structure FileInv (w : World) (file : CacheFile) : Prop where
  rows : ∀ status ∈ file.statuses, LiveRow file.started status
  published : file.published ≤ w.time

structure Inv (w : World) : Prop where
  time : 0 < w.time
  callers : ∀ i, PcInv w (w.callers i)
  files : ∀ file ∈ w.written, FileInv w file
  cache : ∀ file, w.cache = some file → file ∈ w.written ∨ file.published = 0

/-! ## Rows -/

section

variable {w w' : World} {i : Nat} {call : Call}

theorem staleRow_staleProbeStatus (node : Node) (previous : Option NodeStatus) (message : String) :
    StaleRow (staleProbeStatus node previous message) := by
  unfold staleProbeStatus
  cases previous with
  | none => exact ⟨rfl, fun gpu hgpu => nomatch hgpu⟩
  | some previous => exact ⟨rfl, List.forall_mem_map.mpr fun gpu _ => rfl⟩

theorem node_staleProbeStatus (node : Node) (previous : Option NodeStatus) (message : String) :
    (staleProbeStatus node previous message).node = node.name := by
  unfold staleProbeStatus
  cases previous with
  | none => rfl
  | some previous => rfl

theorem readProbeCache_some {cache : Option CacheFile} {nodes : List Node} {readable : Bool}
    {cached : List NodeStatus} (h : readProbeCache cache nodes readable = some cached) :
    ∃ file, cache = some file ∧ cached.map NodeStatus.node = nodes.map Node.name ∧
      cached = file.statuses.map fun status => { status with stale := false } := by
  unfold readProbeCache at h
  rw [Option.bind_eq_some_iff] at h
  obtain ⟨file, rfl, h⟩ := h
  split at h
  · rename_i hok
    cases h
    refine ⟨file, rfl, ?_, rfl⟩
    rw [List.map_map, ← hok.2]
    rfl
  · cases h

/-- Rows that are not stale are read as they were written. -/
theorem map_not_stale {statuses : List NodeStatus} (h : ∀ status ∈ statuses, status.stale = false) :
    (statuses.map fun status => { status with stale := false }) = statuses := by
  conv_rhs => rw [← List.map_id statuses]
  refine List.map_congr_left fun status hstatus => ?_
  obtain ⟨node, gpus, error, unreachable, stale, taken⟩ := status
  obtain rfl : stale = false := h _ hstatus
  rfl

/-! ## Steps -/

/-- What a step of any caller may do to the world. -/
structure Evolves (w w' : World) : Prop where
  time : w.time ≤ w'.time
  written : ∀ file ∈ w.written, file ∈ w'.written
  cache : ∀ file, w'.cache = some file → w.cache = some file ∨ w.time ≤ file.published

theorem Evolves.freshRow (h : Evolves w w') {status : NodeStatus} (hrow : FreshRow w call status) :
    FreshRow w' call status := by
  rcases hrow with hstale | hlive | ⟨hstale, file, hfile, hmem⟩
  · exact .inl hstale
  · exact .inr (.inl hlive)
  · exact .inr (.inr ⟨hstale, file, h.written file hfile, hmem⟩)

theorem Evolves.published (h : Evolves w w') (hbegan : call.began ≤ w.time)
    (hcache : ∀ file, w.cache = some file → call.began ≤ file.published) :
    ∀ file, w'.cache = some file → call.began ≤ file.published := by
  intro file hfile
  rcases h.cache file hfile with hold | hnew
  · exact hcache file hold
  · omega

theorem Evolves.seenSince (h : Evolves w w') (hbegan : call.began ≤ w.time) {initial : Option Nat}
    (hseen : SeenSince w call initial) : SeenSince w' call initial := by
  intro file hfile
  rcases h.cache file hfile with hold | hnew
  · exact hseen file hold
  · exact .inr (by omega)

/-- The steps of the others keep what holds of a caller. -/
theorem PcInv.evolves (h : Evolves w w') {pc : Pc} (hpc : PcInv w pc) : PcInv w' pc := by
  have htime := h.time
  cases pc with
  | idle => trivial
  | dead => trivial
  | begun call => exact ⟨hpc.1, by have := hpc.2; omega⟩
  | signed call initial =>
    exact ⟨hpc.1, hpc.2.1.trans htime, h.seenSince hpc.2.1 hpc.2.2.1, hpc.2.2.2⟩
  | waiting call initial => exact ⟨hpc.1, hpc.2.1.trans htime, h.seenSince hpc.2.1 hpc.2.2⟩
  | inside call initial coordinated =>
    exact ⟨hpc.1, hpc.2.1.trans htime, h.seenSince hpc.2.1 hpc.2.2⟩
  | changed call => exact ⟨hpc.1, hpc.2.1.trans htime, h.published hpc.2.1 hpc.2.2⟩
  | unchanged call => exact ⟨hpc.1, hpc.2.trans htime⟩
  | collecting call started fallback results rest =>
    exact ⟨hpc.1, hpc.2.1.trans htime, hpc.2.2⟩
  | leaving call statuses =>
    exact ⟨hpc.1, fun hfresh status hstatus => h.freshRow (hpc.2 hfresh status hstatus)⟩
  | done call statuses =>
    exact ⟨hpc.1, fun hfresh status hstatus => h.freshRow (hpc.2 hfresh status hstatus)⟩

/-- What a step of a caller does to the files, the other callers and itself. -/
structure StepSpec (w w' : World) (i : Nat) : Prop where
  evolves : Evolves w w'
  caller : ∃ pc, w'.callers = Function.update w.callers i pc ∧ PcInv w' pc
  files : ∀ file ∈ w'.written, file ∈ w.written ∨ FileInv w' file
  cache : ∀ file, w'.cache = some file → w.cache = some file ∨ file ∈ w'.written

theorem evolves_goto (w : World) (i : Nat) (pc : Pc) : Evolves w (w.goto i pc) :=
  ⟨Nat.le_succ _, fun _ h => h, fun _ h => .inl h⟩

/-- A step that only moves the caller. -/
theorem stepSpec_goto {pc : Pc} (h : PcInv (w.goto i pc) pc) : StepSpec w (w.goto i pc) i :=
  ⟨evolves_goto w i pc, ⟨pc, rfl, h⟩, fun _ h => .inl h, fun _ h => .inl h⟩

/-- A step that also gives the lock back. -/
theorem stepSpec_unlock {pc : Pc} (h : PcInv (w.goto i pc) pc) :
    StepSpec w ((w.goto i pc).unlock i) i := by
  have hev : Evolves (w.goto i pc) ((w.goto i pc).unlock i) :=
    ⟨le_rfl, fun _ h => h, fun _ h => .inl h⟩
  exact ⟨⟨Nat.le_succ _, fun _ h => h, fun _ h => .inl h⟩, ⟨pc, rfl, h.evolves hev⟩,
    fun _ h => .inl h, fun _ h => .inl h⟩

/-- The rows that a fresh caller takes over. -/
theorem freshRow_adopted (hw : Inv w) {file : CacheFile} (hcache : w.cache = some file)
    (hpublished : call.began ≤ file.published) (hpos : 0 < call.began) :
    ∀ status ∈ file.statuses.map fun status => { status with stale := false },
      FreshRow w call status := by
  have hwritten : file ∈ w.written := by
    rcases hw.cache file hcache with hmem | hold
    · exact hmem
    · omega
  have hfile := hw.files file hwritten
  rw [map_not_stale fun status hstatus => (hfile.rows status hstatus).1]
  intro status hstatus
  obtain ⟨hstale, htaken⟩ := hfile.rows status hstatus
  by_cases hbefore : file.started < call.began
  · exact .inr (.inr ⟨hstale, file, hwritten, hstatus, hbefore, hpublished, htaken⟩)
  · exact .inr (.inl ⟨hstale, by omega⟩)

/-- The rows that a caller collected itself. -/
theorem freshRow_collected {status : NodeStatus} {started : Nat} (hbegan : call.began ≤ started)
    (h : StaleRow status ∨ LiveRow started status) : FreshRow w call status := by
  rcases h with hstale | ⟨hlive, htaken⟩
  · exact .inl hstale
  · exact .inr (.inl ⟨hlive, hbegan.trans htaken⟩)

theorem act_spec (hw : Inv w) {pc : Pc} {op : Op} (hpc : PcInv w pc)
    (h : w.act i pc op = some w') : StepSpec w w' i := by
  have htime := hw.time
  unfold World.act at h
  split at h
  · -- call
    cases h
    exact stepSpec_goto ⟨htime, Nat.le_succ _⟩
  · -- sign
    cases h
    have hseen : ∀ call : Call, SeenSince w call (w.cache.map CacheFile.signature) := by
      intro call file hfile
      exact .inl (by rw [hfile]; rfl)
    split
    · rename_i hcached
      exact stepSpec_goto ⟨hpc.1, Nat.le_succ_of_le hpc.2, hseen _, hcached⟩
    · exact stepSpec_goto ⟨hpc.1, Nat.le_succ_of_le hpc.2, hseen _⟩
  · -- readCache
    split at h
    · rename_i cached hread
      cases h
      obtain ⟨-, -, hcovers, -⟩ := readProbeCache_some hread
      refine stepSpec_goto ⟨hcovers, fun hfresh => ?_⟩
      rw [hpc.2.2.2] at hfresh
      cases hfresh
    · cases h
      exact stepSpec_goto ⟨hpc.1, Nat.le_succ_of_le hpc.2.1, hpc.2.2.1⟩
  · -- lock
    split at h
    · cases h
      exact ⟨⟨Nat.le_succ _, fun _ h => h, fun _ h => .inl h⟩,
        ⟨_, rfl, hpc.1, Nat.le_succ_of_le hpc.2.1, hpc.2.2⟩, fun _ h => .inl h, fun _ h => .inl h⟩
    · cases h
  · -- noLock
    cases h
    exact stepSpec_goto ⟨hpc.1, Nat.le_succ_of_le hpc.2.1, hpc.2.2⟩
  · -- giveUp
    split at h
    · cases h
      refine stepSpec_goto ⟨?_, fun _ => List.forall_mem_map.mpr fun node _ =>
        .inl (staleRow_staleProbeStatus node _ _)⟩
      unfold Covers
      rw [List.map_map]
      exact List.map_congr_left fun node _ => node_staleProbeStatus node _ _
    · cases h
  · -- recheck
    split at h
    · rename_i hcached
      split at h
      · rename_i cached hread
        cases h
        obtain ⟨-, -, hcovers, -⟩ := readProbeCache_some hread
        refine stepSpec_goto ⟨hcovers, fun hfresh => ?_⟩
        rw [hcached.1] at hfresh
        cases hfresh
      · cases h
        exact stepSpec_goto ⟨hpc.1, Nat.le_succ_of_le hpc.2.1⟩
    · cases h
  · -- compare
    split at h
    · split at h
      · rename_i hother
        cases h
        refine stepSpec_goto ⟨hpc.1, Nat.le_succ_of_le hpc.2.1, fun file hfile => ?_⟩
        rcases hpc.2.2 file hfile with hsame | hsince
        · have hcache : w.cache.map CacheFile.signature = some file.signature := by
            have hold : w.cache = some file := hfile
            rw [hold]
            rfl
          exact absurd (hcache.trans hsame.symm) hother.2
        · exact hsince
      · cases h
        exact stepSpec_goto ⟨hpc.1, Nat.le_succ_of_le hpc.2.1⟩
    · cases h
  · -- adopt
    split at h
    · rename_i cached hread
      cases h
      obtain ⟨file, hcache, hcovers, rfl⟩ := readProbeCache_some hread
      have hrows := freshRow_adopted hw hcache (hpc.2.2 file hcache) hpc.1
      exact stepSpec_goto ⟨hcovers, fun _ status hstatus =>
        (evolves_goto w i _).freshRow (hrows status hstatus)⟩
    · cases h
      exact stepSpec_goto ⟨hpc.1, Nat.le_succ_of_le hpc.2.1⟩
  · -- collect
    cases h
    exact stepSpec_goto ⟨hpc.2, Nat.le_succ _, rfl, fun _ h => nomatch h⟩
  · -- measure
    cases h
    refine stepSpec_goto ⟨hpc.1, Nat.le_succ_of_le hpc.2.1, ?_, ?_⟩
    · rw [← hpc.2.2.1]
      simp
    · intro status hstatus
      rcases List.mem_append.mp hstatus with hold | hnew
      · exact hpc.2.2.2 status hold
      · rw [List.mem_singleton.mp hnew]
        exact .inr ⟨rfl, hpc.2.1⟩
  · -- late
    split at h
    · cases h
      refine stepSpec_goto ⟨hpc.1, Nat.le_succ_of_le hpc.2.1, ?_, ?_⟩
      · rw [← hpc.2.2.1]
        simp [node_staleProbeStatus]
      · intro status hstatus
        rcases List.mem_append.mp hstatus with hold | hnew
        · exact hpc.2.2.2 status hold
        · rw [List.mem_singleton.mp hnew]
          exact .inl (staleRow_staleProbeStatus _ _ _)
    · cases h
  · -- publish
    split at h
    · cases h
    · rename_i hlive
      cases h
      have hcovers := hpc.2.2.1
      rw [List.map_nil, List.append_nil] at hcovers
      refine ⟨⟨Nat.le_succ _, fun _ h => List.mem_cons_of_mem _ h, fun file hfile => ?_⟩,
        ⟨_, rfl, hcovers, fun _ status hstatus =>
          freshRow_collected hpc.1 (hpc.2.2.2 status hstatus)⟩, fun file hfile => ?_,
        fun file hfile => ?_⟩
      · cases hfile
        exact .inr le_rfl
      · rcases List.mem_cons.mp hfile with rfl | hold
        · refine .inr ⟨fun status hstatus => ?_, Nat.le_succ _⟩
          rcases hpc.2.2.2 status hstatus with hstale | hrow
          · exact absurd (List.any_eq_true.mpr ⟨status, hstatus, hstale.1⟩) hlive
          · exact hrow
        · exact .inl hold
      · cases hfile
        exact .inr List.mem_cons_self
  · -- oversized
    split at h
    · cases h
    · cases h
      have hcovers := hpc.2.2.1
      rw [List.map_nil, List.append_nil] at hcovers
      exact ⟨⟨Nat.le_succ _, fun _ h => h, fun _ h => nomatch h⟩,
        ⟨_, rfl, hcovers, fun _ status hstatus =>
          freshRow_collected hpc.1 (hpc.2.2.2 status hstatus)⟩,
        fun _ h => .inl h, fun _ h => nomatch h⟩
  · -- writeFails
    cases h
    have hcovers := hpc.2.2.1
    rw [List.map_nil, List.append_nil] at hcovers
    exact stepSpec_goto ⟨hcovers, fun _ status hstatus =>
      freshRow_collected hpc.1 (hpc.2.2.2 status hstatus)⟩
  · -- leave
    cases h
    exact stepSpec_unlock ⟨hpc.1, fun hfresh status hstatus => hpc.2 hfresh status hstatus⟩
  · -- crash
    cases h
    exact stepSpec_unlock trivial
  · cases h

theorem Inv.step (hw : Inv w) {a : Nat × Op} (h : step w a = some w') : Inv w' := by
  have hspec := act_spec hw (hw.callers a.1) h
  have htime := hspec.evolves.time
  obtain ⟨pc, hcallers, hpc⟩ := hspec.caller
  refine ⟨hw.time.trans_le htime, fun j => ?_, fun file hfile => ?_, fun file hfile => ?_⟩
  · rw [hcallers]
    by_cases hj : j = a.1
    · rw [hj, Function.update_self]
      exact hpc
    · rw [Function.update_of_ne hj]
      exact (hw.callers j).evolves hspec.evolves
  · rcases hspec.files file hfile with hold | hnew
    · have hfile' := hw.files file hold
      exact ⟨hfile'.rows, hfile'.published.trans htime⟩
    · exact hnew
  · rcases hspec.cache file hfile with hold | hnew
    · rcases hw.cache file hold with hmem | hpub
      · exact .inl (hspec.evolves.written file hmem)
      · exact .inr hpub
    · exact .inl hnew

theorem Inv.start (cache : Option CacheFile) : Inv (World.start cache) where
  time := Nat.one_pos
  callers _ := trivial
  files _ h := nomatch h
  cache file h := by
    obtain ⟨old, -, rfl⟩ := Option.map_eq_some_iff.mp h
    exact .inr rfl

/-- Every reachable world of any number of callers. -/
def Reachable (w : World) : Prop :=
  Reach step (fun w => ∃ cache, w = World.start cache) w

theorem Reachable.inv (h : Reachable w) : Inv w :=
  reach_inv (fun _ hinit => by obtain ⟨cache, rfl⟩ := hinit; exact Inv.start cache)
    (fun _ _ _ hw hstep => hw.step hstep) h

/-- A fresh call returns for every node a measurement since it began, one of a refresh that was
under way when it began and published after that, or a stale row without a free card. No stale row
is ever written to the cache. -/
theorem fresh_or_under_way (h : Reachable w) :
    (∀ i call statuses, w.callers i = .done call statuses → call.useCache = false →
      Covers call statuses ∧ ∀ status ∈ statuses, FreshRow w call status) ∧
    ∀ file ∈ w.written, ∀ status ∈ file.statuses, status.stale = false := by
  refine ⟨fun i call statuses hdone hfresh => ?_, fun file hfile status hstatus => ?_⟩
  · have hpc := h.inv.callers i
    rw [hdone] at hpc
    exact ⟨hpc.1, hpc.2 hfresh⟩
  · exact ((h.inv.files file hfile).rows status hstatus).1

end

/-- Two fresh calls: the second begins after the first one has measured the node. -/
def sharedRefresh : List (Nat × Op) :=
  [(0, .call [⟨"n1", false⟩] false false), (0, .sign), (0, .lock), (0, .compare),
    (0, .collect true), (0, .measure [] none false),
    (1, .call [⟨"n1", false⟩] false false), (1, .sign),
    (0, .publish 1), (0, .leave), (1, .lock), (1, .compare), (1, .adopt true), (1, .leave)]

theorem sharedRefresh_run : ∃ w, run step (World.start none) sharedRefresh = some w ∧
    w.callers 1 = .done ⟨[⟨"n1", false⟩], false, false, 7⟩ [⟨"n1", [], none, false, false, 6⟩] :=
  ⟨_, rfl, rfl⟩

/-- A fresh call may return a measurement from before it began. -/
theorem measured_before_call :
    ¬ ∀ w, Reachable w → ∀ i call statuses, w.callers i = .done call statuses →
        call.useCache = false → ∀ status ∈ statuses,
          LiveRow call.began status ∨ StaleRow status := by
  intro h
  obtain ⟨w, hrun, hdone⟩ := sharedRefresh_run
  rcases h w ⟨_, _, ⟨none, rfl⟩, hrun⟩ 1 _ _ hdone rfl _ List.mem_cons_self with hlive | hstale
  · exact absurd hlive.2 (by decide)
  · exact absurd hstale.1 (by decide)

/-- The second call of the run above. -/
theorem fresh_or_under_way_shared :
    ∃ w, run step (World.start none) sharedRefresh = some w ∧
      (∀ i call statuses, w.callers i = .done call statuses → call.useCache = false →
        Covers call statuses ∧ ∀ status ∈ statuses, FreshRow w call status) ∧
      ∀ file ∈ w.written, ∀ status ∈ file.statuses, status.stale = false := by
  obtain ⟨w, hrun, -⟩ := sharedRefresh_run
  exact ⟨w, hrun, fresh_or_under_way ⟨_, _, ⟨none, rfl⟩, hrun⟩⟩

end Dt.Probe
