import Dt.Submission.Intent

/-!
# Launches and replays of one request

The history of one request record. A submission creates the record or reclaims it, queues the row
of its job, and dispatchers claim that row, bind the record to the placement they chose, and may
then launch. Writes of the record stop at any point, and a host crash takes back a version whose
directory was not synced.

The record says nothing about launches; a `Version` adds what happened since its last reclaim: the
placements that were authorized to launch, and, since the last of them, the ones that a remote proof
given to a query showed to be absent.
-/

namespace Dt.Submission.Replay

open Dt.Lib Dt.Jobs

structure Version where
  record : RequestRecord
  launches : List Locator := []
  absences : List Locator := []
  deriving DecidableEq, Repr

structure World where
  slot : Slot Version := {}
  /-- The queued row of the job, if there is one, with the attempt it carries. -/
  row : Option (Option Locator) := none
  /-- A submission has durably written its claim and not yet queued the row. -/
  owned : Bool := false
  /-- The attempts that were refused by their launcher or verifiably cancelled. -/
  settled : List Locator := []
  /-- Every launch authorization, in order. -/
  launched : List Locator := []
  deriving DecidableEq, Repr

inductive Op where
  | create (requestId intentSha256 : String) (jobId : JobId) (now : Time) (w : Write)
  | reclaim (now : Time) (w : Write)
  | enqueue
  | claim (expected : Option Locator) (node jobDir token : String) (jobId : JobId) (now : Time)
      (w : Write)
  | settle (l : Locator)
  | release
  | leave
  | transition (state : RequestState) (errorKind errorMessage : Option String) (now : Time)
      (w : Write)
  | query (registryJobPresent : Option Bool) (proof : Option RemoteLaunchProof) (now : Time)
      (w : Write)
  | restart
  | crash

/-- `save` of the next version, unless it was not made or the record is refused. -/
def World.save (s : World) (w : Write) (v : Except String Version) : World :=
  match v with
  | .error _ => s
  | .ok v =>
    match encodeRecord v.record with
    | .error _ => s
    | .ok r => { s with slot := s.slot.put w { v with record := r } }

/-- Whether such a save reached the disk for good. -/
def saved (w : Write) (v : Except String Version) : Bool :=
  w = .synced && v.toOption.any fun v => (encodeRecord v.record).toOption.isSome

/-- The record that a submission with the same intent may reclaim: an authorized one, or a
rejection that is authorized on the spot. -/
def reopen (record : RequestRecord) (now : Time) : Except String RequestRecord :=
  if record.state = .rejected then
    authorizeReplay record (resolveDisposition record (some false) none) now
  else .ok record

/-- The absence that a remote proof shows. -/
def proven (proof : Option RemoteLaunchProof) : List Locator :=
  match proof with
  | some p => if p.outcome = .absent then [p.at_] else []
  | none => []

/-- The record that `_bind_request_remote_attempt` saves; it refuses a foreign and a rejected
record. -/
def boundRecord (sha256 : String → String) (record : RequestRecord) (node jobDir token : String)
    (jobId : JobId) (now : Time) : Except String RequestRecord :=
  if record.jobId ≠ jobId then
    .error "submission request record is missing or belongs to another job"
  else if record.state = .rejected then
    .error "submission request was rejected before remote launch"
  else (bindRemoteAttempt sha256 record node jobDir token now).bind encodeRecord

/-- The binding is written; when it is durable the dispatcher may launch. -/
def World.authorize (s : World) (l : Locator) (v : Version) (r : RequestRecord) :
    Write → World
  | .lost => s
  | .unsynced => { s with slot := s.slot.put .unsynced { v with record := r } }
  | .synced => { s with
    slot := s.slot.put .synced { record := r, launches := l :: v.launches }
    settled := s.settled.filter (· ≠ l)
    launched := s.launched ++ [l] }

/-- A dispatcher takes the row, which keeps its new attempt also when the record cannot be bound. -/
def World.claim (s : World) (sha256 : String → String) (node jobDir token : String) (jobId : JobId)
    (now : Time) (w : Write) : World :=
  let l : Locator := ⟨node, jobDir, sha256 token⟩
  let s := { s with row := some (some l) }
  match s.slot.visible with
  | none => s
  | some v =>
    match boundRecord sha256 v.record node jobDir token jobId now with
    | .error _ => s
    | .ok r => s.authorize l v r w

/-- One step. A dispatcher claims the row against the attempt it expects on it: none, or an earlier
one that it knows to be refused or cancelled. -/
def step (sha256 : String → String) (s : World) : Op → Option World
  | .create requestId intent jobId now w =>
    if s.slot.visible.isSome then none
    else
      let v := (create requestId intent jobId now).map fun r => { record := r }
      some { s.save w v with row := none, owned := saved w v }
  | .reclaim now w =>
    if s.row.isSome then none
    else match s.slot.visible with
    | none => none
    | some v =>
      let v := ((reopen v.record now).bind (reclaimReplay · now)).map fun r => { record := r }
      some { s.save w v with owned := saved w v }
  | .enqueue => if s.owned then some { s with row := some none, owned := false } else none
  | .claim expected node jobDir token jobId now w =>
    if s.row ≠ some expected then none
    else if expected.any (!s.settled.contains ·) then none
    else some (s.claim sha256 node jobDir token jobId now w)
  | .settle l => some { s with settled := l :: s.settled }
  | .release =>
    match s.row with
    | some (some l) => if s.settled.contains l then some { s with row := some none } else none
    | _ => none
  | .leave => some { s with row := none }
  | .transition state kind message now w =>
    match s.slot.visible with
    | none => none
    | some v =>
      some { s.save w ((transition v.record state kind message now).map fun r =>
        { v with record := r }) with owned := false }
  | .query present proof now w =>
    match s.slot.visible with
    | none => none
    | some v =>
      let d := resolveDisposition v.record present proof
      if d.disposition ≠ .safeReplay && d.disposition ≠ .confirmed then some s
      else match convergeDisposition v.record d now with
      | .error _ => some s
      | .ok r =>
        if r = v.record then some s
        else some (s.save w (.ok { v with record := r, absences := proven proof ++ v.absences }))
  | .restart => some { s with owned := false }
  | .crash => some { s with slot := s.slot.crash, owned := false }

/-! ## The invariant -/

/-- What a version says about its launches, where `settled` are the ones that came to nothing:
once one was authorized the record is bound, every launch but that of the binding is settled, and an
authorized replay has a proof for the binding. -/
structure Sound (settled : List Locator) (v : Version) : Prop where
  bound : v.launches ≠ [] → ∃ b, v.record.proof = .marker b
  superseded : ∀ b, v.record.proof = .marker b → ∀ l ∈ v.launches, l = b ∨ l ∈ settled
  authorized : v.record.state = .replayAuthorized → v.launches ≠ [] →
    ∃ b, v.record.proof = .marker b ∧ b ∈ v.absences

/-- Every launch but that of the attempt on the row is settled. -/
def Held (settled : List Locator) (c : Option Locator) (v : Version) : Prop :=
  ∀ l ∈ v.launches, l ∈ settled ∨ c = some l

structure Inv (s : World) : Prop where
  versions : s.slot.All (Sound s.settled)
  row : ∀ c, s.row = some c → s.slot.All (Held s.settled c)
  owned : s.owned = true → s.row = none ∧ s.slot.All (·.launches = [])

variable {s s' : World} {w : Write} {v u : Version}

theorem Sound.fresh (settled : List Locator) (h : v.launches = []) : Sound settled v where
  bound hne := absurd h hne
  superseded _ _ _ hl := absurd (h ▸ hl) List.not_mem_nil
  authorized _ hne := absurd h hne

/-- A new record over the same history, with the same binding. -/
theorem Sound.rewrite {settled : List Locator} (h : Sound settled v) (hl : u.launches = v.launches)
    (hp : u.record.proof = v.record.proof)
    (ha : u.record.state = .replayAuthorized → v.launches ≠ [] →
      ∃ b, v.record.proof = .marker b ∧ b ∈ u.absences) : Sound settled u where
  bound := by
    rw [hl, hp]
    exact h.bound
  superseded := by
    rw [hl, hp]
    exact h.superseded
  authorized := by
    rw [hl, hp]
    exact ha

theorem Sound.settle {settled : List Locator} (l : Locator) (h : Sound settled v) :
    Sound (l :: settled) v where
  bound := h.bound
  superseded b hb m hm := (h.superseded b hb m hm).imp_right (List.mem_cons_of_mem l)
  authorized := h.authorized

theorem Held.settle {settled : List Locator} {c : Option Locator} (l : Locator)
    (h : Held settled c v) : Held (l :: settled) c v :=
  fun m hm => (h m hm).imp_left (List.mem_cons_of_mem l)

theorem save_all {P : Version → Prop} {v : Except String Version} (h : s.slot.All P)
    (hv : ∀ u, v = .ok u → P { u with record := { u.record with schema := .v3 } }) :
    (s.save w v).slot.All P := by
  unfold World.save
  split
  · exact h
  · rename_i u
    split
    · exact h
    · rename_i r hr
      refine h.put w fun _ => ?_
      rw [encodeRecord_ok hr]
      exact hv u rfl

@[simp] theorem save_row (s : World) (w : Write) (v : Except String Version) :
    (s.save w v).row = s.row := by
  unfold World.save
  split
  · rfl
  · split <;> rfl

@[simp] theorem save_settled (s : World) (w : Write) (v : Except String Version) :
    (s.save w v).settled = s.settled := by
  unfold World.save
  split
  · rfl
  · split <;> rfl

@[simp] theorem save_owned (s : World) (w : Write) (v : Except String Version) :
    (s.save w v).owned = s.owned := by
  unfold World.save
  split
  · rfl
  · split <;> rfl

@[simp] theorem save_launched (s : World) (w : Write) (v : Except String Version) :
    (s.save w v).launched = s.launched := by
  unfold World.save
  split
  · rfl
  · split <;> rfl

/-- A durable save of a version makes it the only one. -/
theorem save_saved {P : Version → Prop} {v : Except String Version} (h : saved w v = true)
    (hv : ∀ u, v = .ok u → P { u with record := { u.record with schema := .v3 } }) :
    (s.save w v).slot.All P := by
  simp only [saved, Bool.and_eq_true, decide_eq_true_eq] at h
  obtain ⟨rfl, hsome⟩ := h
  cases v with
  | error m => cases hsome
  | ok u =>
    cases hr : encodeRecord u.record with
    | error m => simp [Except.toOption, hr] at hsome
    | ok r =>
      have hP := hv u rfl
      rw [← encodeRecord_ok hr] at hP
      simp only [World.save, hr, Slot.put]
      exact ⟨fun a ha => Option.some.inj ha ▸ hP, fun a ha => Option.some.inj ha ▸ hP⟩

/-- A save that keeps what is known of the launches keeps the invariant. -/
theorem Inv.save {v : Except String Version} (h : Inv s)
    (hsound : ∀ u, v = .ok u → Sound s.settled { u with record := { u.record with schema := .v3 } })
    (hheld : ∀ u, v = .ok u → ∀ c, s.row = some c → Held s.settled c u)
    (hown : ∀ u, v = .ok u → s.owned = true → u.launches = []) : Inv (s.save w v) where
  versions := by
    rw [save_settled]
    exact save_all h.versions hsound
  row c hc := by
    rw [save_row] at hc
    rw [save_settled]
    exact save_all (h.row c hc) fun u hu => hheld u hu c hc
  owned ho := by
    rw [save_owned] at ho
    rw [save_row]
    exact ⟨(h.owned ho).1, save_all (h.owned ho).2 fun u hu => hown u hu ho⟩

/-! ## Steps -/

/-- A dispatcher binds only over launches that are settled: the attempt it expects on the row is
the only one that might not be, and it knows that one to be. -/
theorem settled_of_claim {expected : Option Locator} (h : Inv s) (hrow : s.row = some expected)
    (hset : expected.any (!s.settled.contains ·) = false) (hv : s.slot.visible = some v) :
    ∀ l ∈ v.launches, l ∈ s.settled := by
  intro l hl
  rcases (h.row expected hrow).visible v hv l hl with hs | rfl
  · exact hs
  · simpa using hset

/-- The row changes hands once every launch is settled. -/
theorem Inv.claimed {expected : Option Locator} (h : Inv s) (hrow : s.row = some expected)
    (hset : expected.any (!s.settled.contains ·) = false) (c : Option Locator) :
    Inv { s with row := some c } where
  versions := h.versions
  row c' _ := by
    refine (h.row expected hrow).mono fun u hu l hl => ?_
    rcases hu l hl with hs | rfl
    · exact .inl hs
    · exact .inl (by simpa using hset)
  owned ho := by
    have hnone := (h.owned ho).1
    simp [hrow] at hnone

theorem boundRecord_ok {sha256 : String → String} {r r' : RequestRecord}
    {node jobDir token : String} {jobId : JobId} {now : Time}
    (h : boundRecord sha256 r node jobDir token jobId now = .ok r') :
    r'.proof = .marker ⟨node, jobDir, sha256 token⟩ ∧ r'.state ≠ .replayAuthorized := by
  unfold boundRecord at h
  split at h
  · cases h
  · split at h
    · cases h
    · cases hb : bindRemoteAttempt sha256 r node jobDir token now with
      | error m => simp [hb, Except.bind] at h
      | ok r₀ =>
        obtain ⟨-, hs, hne, hp⟩ := bindRemoteAttempt_ok hb
        simp only [hb, Except.bind] at h
        rw [encodeRecord_ok h]
        exact ⟨hp, hs ▸ hne⟩

theorem Inv.authorize {l : Locator} {r : RequestRecord} (h : Inv s) (hrow : s.row = some (some l))
    (hall : ∀ m ∈ v.launches, m ∈ s.settled) (hp : r.proof = .marker l)
    (hne : r.state ≠ .replayAuthorized) : Inv (s.authorize l v r w) := by
  have hunowned : s.owned ≠ true := fun ho => by
    have hnone := (h.owned ho).1
    simp [hrow] at hnone
  cases w with
  | lost => exact h
  | unsynced =>
    have hsound : Sound s.settled { v with record := r } :=
      { bound := fun _ => ⟨l, hp⟩, superseded := fun _ _ m hm => .inr (hall m hm)
        authorized := fun ha => absurd ha hne }
    exact { versions := h.versions.put .unsynced fun _ => hsound
            row := fun c hc => (h.row c hc).put .unsynced fun _ m hm => .inl (hall m hm)
            owned := fun ho => absurd ho hunowned }
  | synced =>
    -- both versions are the new one; its launch is not settled, and every other one is
    have hrest : ∀ m ∈ l :: v.launches, m = l ∨ m ∈ s.settled.filter (· ≠ l) := by
      intro m hm
      by_cases hml : m = l
      · exact .inl hml
      · have hv : m ∈ v.launches := (List.mem_cons.mp hm).resolve_left hml
        exact .inr (by simp [hall m hv, hml])
    refine { versions := ?_, row := fun c hc => ?_, owned := fun ho => absurd ho hunowned }
    · have hsound : Sound (s.settled.filter (· ≠ l))
          { record := r, launches := l :: v.launches } :=
        { bound := fun _ => ⟨l, hp⟩
          superseded := fun b hb m hm => by
            obtain rfl : l = b := ProofRequirement.marker.inj (hp.symm.trans hb)
            exact hrest m hm
          authorized := fun ha => absurd ha hne }
      exact ⟨fun a ha => Option.some.inj ha ▸ hsound, fun a ha => Option.some.inj ha ▸ hsound⟩
    · obtain rfl : some l = c := Option.some.inj (hrow.symm.trans hc)
      have hheld : Held (s.settled.filter (· ≠ l)) (some l)
          { record := r, launches := l :: v.launches } := by
        intro m hm
        rcases hrest m hm with rfl | hm
        · exact .inr rfl
        · exact .inl hm
      exact ⟨fun a ha => Option.some.inj ha ▸ hheld, fun a ha => Option.some.inj ha ▸ hheld⟩

theorem Inv.claim {sha256 : String → String} {node jobDir token : String} {jobId : JobId}
    {now : Time} {expected : Option Locator} (h : Inv s) (hrow : s.row = some expected)
    (hset : expected.any (!s.settled.contains ·) = false) :
    Inv (s.claim sha256 node jobDir token jobId now w) := by
  have hclaimed := h.claimed hrow hset (some ⟨node, jobDir, sha256 token⟩)
  unfold World.claim
  dsimp only
  split
  · exact hclaimed
  · rename_i v hv
    split
    · exact hclaimed
    · rename_i r hr
      obtain ⟨hp, hne⟩ := boundRecord_ok hr
      have hall : ∀ m ∈ v.launches, m ∈ s.settled := settled_of_claim h hrow hset hv
      exact hclaimed.authorize rfl hall hp hne

/-- What the authorization of a query rests on. -/
theorem query_authorized {present : Option Bool} {proof : Option RemoteLaunchProof}
    (h : Sound s.settled v) (hne : v.launches ≠ [])
    (hr : (resolveDisposition v.record present proof).retrySafe = true) :
    ∃ b, v.record.proof = .marker b ∧ b ∈ proven proof ++ v.absences := by
  rcases resolveDisposition_retrySafe hr with hp | hs | ⟨l, hp, hl⟩
  · obtain ⟨b, hb⟩ := h.bound hne
    rw [hp] at hb
    cases hb
  · obtain ⟨b, hb, hmem⟩ := h.authorized hs hne
    exact ⟨b, hb, List.mem_append_right _ hmem⟩
  · refine ⟨l, hp, List.mem_append_left _ ?_⟩
    unfold AbsentAt at hl
    simp [hl, proven]

/-- Every operation keeps the invariant. -/
theorem step_inv {sha256 : String → String} {a : Op} (h : Inv s)
    (hs : step sha256 s a = some s') : Inv s' := by
  cases a with
  | create id intent job now w =>
    simp only [step] at hs
    split at hs
    · cases hs
    · cases hs
      have hfresh : ∀ u, ((create id intent job now).map fun r => ({ record := r } : Version)) =
          .ok u → u.launches = [] := by
        intro u hu
        cases hc : create id intent job now with
        | error m => simp [hc, Except.map] at hu
        | ok r =>
          simp only [hc, Except.map, Except.ok.injEq] at hu
          exact hu ▸ rfl
      refine { versions := ?_, row := fun c hc => by simp at hc, owned := fun ho => ⟨rfl, ?_⟩ }
      · rw [save_settled]
        exact save_all h.versions fun u hu => Sound.fresh _ (hfresh u hu)
      · exact save_saved ho hfresh
  | reclaim now w =>
    simp only [step] at hs
    split at hs
    · cases hs
    · rename_i hrow
      split at hs
      · cases hs
      · rename_i v hv
        cases hs
        have hfresh : ∀ u, (((reopen v.record now).bind (reclaimReplay · now)).map
            fun r => ({ record := r } : Version)) = .ok u → u.launches = [] := by
          intro u hu
          cases hc : (reopen v.record now).bind (reclaimReplay · now) with
          | error m => simp [hc, Except.map] at hu
          | ok r =>
            simp only [hc, Except.map, Except.ok.injEq] at hu
            exact hu ▸ rfl
        refine { versions := ?_, row := fun c hc => ?_, owned := fun ho => ⟨?_, ?_⟩ }
        · rw [save_settled]
          exact save_all h.versions fun u hu => Sound.fresh _ (hfresh u hu)
        · simp only [save_row] at hc
          simp [hc] at hrow
        · simpa using hrow
        · exact save_saved ho hfresh
  | enqueue =>
    simp only [step] at hs
    split at hs
    · rename_i ho
      cases hs
      refine { versions := h.versions, row := fun c _ => ?_, owned := fun ho => by simp at ho }
      exact (h.owned ho).2.mono fun v hv l hl => absurd (hv ▸ hl) List.not_mem_nil
    · cases hs
  | claim expected node jobDir token jobId now w =>
    simp only [step] at hs
    split at hs
    · cases hs
    · rename_i hrow
      split at hs
      · cases hs
      · rename_i hset
        cases hs
        exact h.claim (not_not.mp hrow) (Bool.eq_false_iff.mpr hset)
  | settle l =>
    simp only [step] at hs
    cases hs
    exact { versions := h.versions.mono fun v hv => hv.settle l
            row := fun c hc => (h.row c hc).mono fun v hv => hv.settle l
            owned := h.owned }
  | release =>
    simp only [step] at hs
    split at hs
    · rename_i l hrow
      split at hs
      · rename_i hl
        cases hs
        refine { versions := h.versions, row := fun c _ => ?_, owned := fun ho => ?_ }
        · refine (h.row _ hrow).mono fun v hv m hm => ?_
          rcases hv m hm with hs | hs
          · exact .inl hs
          · exact .inl (Option.some.inj hs ▸ by simpa using hl)
        · have := (h.owned ho).1
          simp [hrow] at this
      · cases hs
    · cases hs
  | leave =>
    simp only [step] at hs
    cases hs
    exact { versions := h.versions, row := fun c hc => by simp at hc
            owned := fun ho => ⟨rfl, (h.owned ho).2⟩ }
  | transition state kind message now w =>
    simp only [step] at hs
    split at hs
    · cases hs
    · rename_i v hv
      cases hs
      have hsame : ∀ u, ((transition v.record state kind message now).map
          fun r => ({ v with record := r } : Version)) = .ok u →
          u.launches = v.launches ∧ u.record.proof = v.record.proof ∧
            u.record.state ≠ .replayAuthorized := by
        intro u hu
        cases hc : transition v.record state kind message now with
        | error m => simp [hc, Except.map] at hu
        | ok r =>
          simp only [hc, Except.map, Except.ok.injEq] at hu
          obtain ⟨-, hstate, hp, hne⟩ := transition_ok hc
          exact hu ▸ ⟨rfl, hp, hstate ▸ hne⟩
      have hsave : Inv (s.save w ((transition v.record state kind message now).map
          fun r => { v with record := r })) := by
        refine h.save (fun u hu => ?_) (fun u hu c hc => ?_) fun u hu ho => ?_
        · obtain ⟨hl, hp, hne⟩ := hsame u hu
          exact (h.versions.visible v hv).rewrite hl hp fun ha => absurd ha hne
        · have := (h.row c hc).visible v hv
          rw [Held, (hsame u hu).1]
          exact this
        · rw [(hsame u hu).1]
          exact (h.owned ho).2.visible v hv
      exact { versions := hsave.versions, row := hsave.row, owned := fun ho => by simp at ho }
  | query present proof now w =>
    simp only [step] at hs
    split at hs
    · cases hs
    · rename_i v hv
      split at hs
      · cases hs
        exact h
      · split at hs
        · cases hs
          exact h
        · rename_i r hr
          split at hs
          · cases hs
            exact h
          · rename_i hne
            cases hs
            obtain ⟨-, hp, hcase⟩ := convergeDisposition_ok hr
            refine h.save (fun u hu => ?_) (fun u hu c hc => ?_) fun u hu ho => ?_
            · obtain rfl := Except.ok.inj hu
              refine (h.versions.visible v hv).rewrite rfl hp fun ha hlaunch => ?_
              rcases hcase with heq | hc | ⟨-, hsafe⟩
              · exact absurd heq hne
              · exact absurd (hc.symm.trans ha) (by decide)
              · exact query_authorized (h.versions.visible v hv) hlaunch hsafe
            · obtain rfl := Except.ok.inj hu
              exact (h.row c hc).visible v hv
            · obtain rfl := Except.ok.inj hu
              exact (h.owned ho).2.visible v hv
  | restart =>
    simp only [step] at hs
    cases hs
    exact { versions := h.versions, row := h.row, owned := fun ho => by simp at ho }
  | crash =>
    simp only [step] at hs
    cases hs
    exact { versions := h.versions.crash, row := fun c hc => (h.row c hc).crash
            owned := fun ho => by simp at ho }

/-! ## Runs -/

/-- A launch is authorized only when the record is durably bound to its placement. -/
theorem step_launched {sha256 : String → String} {a : Op} (hs : step sha256 s a = some s') :
    s'.launched = s.launched ∨ ∃ l v, s'.launched = s.launched ++ [l] ∧
      s'.slot = ⟨some v, some v⟩ ∧ v.record.proof = .marker l ∧ l ∈ v.launches := by
  cases a with
  | claim expected node jobDir token jobId now w =>
    simp only [step] at hs
    split at hs
    · cases hs
    · split at hs
      · cases hs
      · cases hs
        unfold World.claim
        dsimp only
        split
        · exact .inl rfl
        · rename_i v hv
          split
          · exact .inl rfl
          · rename_i r hr
            cases w with
            | lost => exact .inl rfl
            | unsynced => exact .inl rfl
            | synced =>
              exact .inr ⟨_, _, rfl, rfl, (boundRecord_ok hr).1, List.mem_cons_self⟩
  | create id intent job now w =>
    simp only [step] at hs
    split at hs <;> cases hs
    exact .inl (save_launched ..)
  | reclaim now w =>
    simp only [step] at hs
    split at hs
    · cases hs
    · split at hs <;> cases hs
      exact .inl (save_launched ..)
  | transition state kind message now w =>
    simp only [step] at hs
    split at hs <;> cases hs
    exact .inl (save_launched ..)
  | query present proof now w =>
    simp only [step] at hs
    split at hs
    · cases hs
    · split at hs
      · cases hs
        exact .inl rfl
      · split at hs
        · cases hs
          exact .inl rfl
        · split at hs <;> cases hs
          · exact .inl rfl
          · exact .inl (save_launched ..)
  | enqueue =>
    simp only [step] at hs
    split at hs <;> cases hs
    exact .inl rfl
  | release =>
    simp only [step] at hs
    split at hs
    · split at hs <;> cases hs
      exact .inl rfl
    · cases hs
  | settle l =>
    cases hs
    exact .inl rfl
  | leave =>
    cases hs
    exact .inl rfl
  | restart =>
    cases hs
    exact .inl rfl
  | crash =>
    cases hs
    exact .inl rfl

theorem run_inv {sha256 : String → String} {as : List Op}
    (h : run (step sha256) {} as = some s) : Inv s := by
  refine Dt.Lib.run_inv (fun _ _ _ => step_inv) ?_ h
  exact { versions := { visible := fun _ ha => (nomatch ha), durable := fun _ ha => (nomatch ha) }
          row := fun c hc => by cases hc
          owned := fun ho => by cases ho }

/-- In every history of a request, a replay is called safe only if no launch was authorized since
the last reclaim, or the record is bound to a placement that a matching proof, given now or to the
query that authorized the replay, shows to be absent, and every other launch was refused or
verifiably cancelled before the binding moved on. And whenever a launch is authorized, the record is
durably bound to its placement. -/
theorem safe_replay_sound {sha256 : String → String} {as : List Op}
    (hrun : run (step sha256) {} as = some s) :
    (∀ v present proof, s.slot.visible = some v →
      (resolveDisposition v.record present proof).retrySafe = true →
        v.launches = [] ∨ ∃ b, v.record.proof = .marker b ∧ (b ∈ v.absences ∨ AbsentAt proof b) ∧
          ∀ l ∈ v.launches, l = b ∨ l ∈ s.settled) ∧
      ∀ a s' l, step sha256 s a = some s' → s'.launched = s.launched ++ [l] →
        ∃ v, s'.slot = ⟨some v, some v⟩ ∧ v.record.proof = .marker l ∧ l ∈ v.launches := by
  have hinv := run_inv hrun
  refine ⟨fun v present proof hv hsafe => ?_, fun a s' l hs hl => ?_⟩
  · have hsound := hinv.versions.visible v hv
    by_cases hne : v.launches = []
    · exact .inl hne
    · right
      rcases resolveDisposition_retrySafe hsafe with hp | hstate | ⟨b, hb, hproof⟩
      · obtain ⟨b, hb⟩ := hsound.bound hne
        rw [hp] at hb
        cases hb
      · obtain ⟨b, hb, hmem⟩ := hsound.authorized hstate hne
        exact ⟨b, hb, .inl hmem, hsound.superseded b hb⟩
      · exact ⟨b, hb, .inr hproof, hsound.superseded b hb⟩
  · rcases step_launched hs with heq | ⟨m, v, hm, hslot, hp, hmem⟩
    · simp [heq] at hl
    · obtain rfl : m = l := by simpa [hm] using hl
      exact ⟨v, hslot, hp, hmem⟩

/-- The hashes of two launch tokens. -/
def sampleSha256 (token : String) : String :=
  if token = "00000000000000000000000000000001" then
    "e0cca2965509df678c8064f5e0b9076016fa752f88a6c749768db83479450cc5"
  else "d2b1f1d83f0ad4f52dec8a1e2091f5c94ffad00ed3528362353fbe97aacd0187"

def sampleAt (node token : String) : Locator := ⟨node, "~/dt/jobs/job-1", sampleSha256 token⟩

/-- A submission whose first candidate was cancelled and whose head went down after the second one
was authorized; the row is lost, and a query finds no marker on the second node. -/
def sampleRun : List Op :=
  [.create "req-1" "d2b1f1d83f0ad4f52dec8a1e2091f5c94ffad00ed3528362353fbe97aacd0187" "job-1" 1000
     .synced,
   .enqueue,
   .claim none "n1" "~/dt/jobs/job-1" "00000000000000000000000000000001" "job-1" 1001 .synced,
   .settle (sampleAt "n1" "00000000000000000000000000000001"),
   .claim (some (sampleAt "n1" "00000000000000000000000000000001")) "n2" "~/dt/jobs/job-1"
     "00000000000000000000000000000002" "job-1" 1002 .synced,
   .crash, .leave]

def sampleProof : RemoteLaunchProof :=
  ⟨.absent, sampleAt "n2" "00000000000000000000000000000002"⟩

theorem safe_replay_sound_sample :
    ∃ s v, run (step sampleSha256) {} sampleRun = some s ∧ s.slot.visible = some v ∧
      v.launches.length = 2 ∧
      (resolveDisposition v.record (some false) (some sampleProof)).retrySafe = true ∧
      ∃ b, v.record.proof = .marker b ∧ (b ∈ v.absences ∨ AbsentAt (some sampleProof) b) ∧
        ∀ l ∈ v.launches, l = b ∨ l ∈ s.settled := by
  obtain ⟨s, hs⟩ := Option.isSome_iff_exists.mp
    (show (run (step sampleSha256) {} sampleRun).isSome = true by decide +kernel)
  have hprops : ((run (step sampleSha256) {} sampleRun).bind fun s => s.slot.visible.map fun v =>
      (v.launches.length, (resolveDisposition v.record (some false) (some sampleProof)).retrySafe)) =
        some (2, true) := by decide +kernel
  rw [hs] at hprops
  simp only [Option.bind_some, Option.map_eq_some_iff, Prod.mk.injEq] at hprops
  obtain ⟨v, hv, hlen, hsafe⟩ := hprops
  refine ⟨s, v, hs, hv, hlen, hsafe, ?_⟩
  rcases (safe_replay_sound hs).1 v (some false) (some sampleProof) hv hsafe with hnil | hb
  · simp [hnil] at hlen
  · exact hb

end Dt.Submission.Replay
