import Dt.Lib.Offsets
import Dt.Lib.SortedBy
import Dt.Lib.SortedJson
import Dt.Query.Contract

/-!
# Cleanup plans

A cleanup is authorized by a plan that one command writes and another one loads and applies. Between them the plan
is shown page by page: the jobs, and behind them the managed results, under one offset.
-/

namespace Dt.Maintenance

open Dt.Lib Dt.Jobs Dt.Query

/-! ## Bounds -/

def maxCleanPlanBytes : Nat := 64 * 1024 * 1024

def maxCleanPlanItems : Nat := 200000

def maxCleanPlanPageItems : Int := 1000

/-- `_CLEAN_PLAN_PAGE_ITEMS_BUDGET` -/
def cleanPlanPageItemsBudget : Nat := 768 * 1024

/-- `_MAX_CLEAN_PLAN_IDENTITY_BYTES` -/
def maxCleanPlanIdentityBytes : Nat := 64 * 1024

def cleanPlanSchemaVersion : String := "dt_clean_plan_v1"

/-- The message of a `CleanPlanError`, or of the exception that escapes. -/
abbrev CleanPlanError := String

variable {F : Type}

/-! ## Plans -/

/-- The fields hold what they are given. -/
structure CleanAuthorization (F : Type) where
  jobId : Json F
  node : Json F
  nodeLocal : Json F
  jobDir : Json F
  storageLayout : Json F
  updatedAt : Json F

structure CleanManagedResult where
  jobId : String
  path : String
  device : Int
  inode : Int
  deriving DecidableEq

structure CleanPlan (F : Type) where
  planId : String
  center : String
  createdAt : F
  expiresAt : F
  jobs : List (CleanAuthorization F)
  managedResults : List CleanManagedResult
  managedIdentity : Json F

/-- `asdict(authorization)` -/
def CleanAuthorization.asdict (a : CleanAuthorization F) : List (String × Json F) :=
  [("job_id", a.jobId), ("node", a.node), ("node_local", a.nodeLocal), ("job_dir", a.jobDir),
    ("storage_layout", a.storageLayout), ("updated_at", a.updatedAt)]

def CleanManagedResult.asdict (r : CleanManagedResult) : List (String × Json F) :=
  [("job_id", .str r.jobId), ("path", .str r.path), ("device", .int r.device), ("inode", .int r.inode)]

/-! ## Validation -/

section

variable [FloatText F]

def isJobIdText : Json F → Bool
  | .str s => validJobId s
  | _ => false

def isNonEmptyText : Json F → Bool
  | .str s => s ≠ ""
  | _ => false

def isFlag : Json F → Bool
  | .bool _ => true
  | _ => false

def isLayout : Json F → Bool
  | .null => true
  | .str s => s = "legacy-v0" || s = "role-v1"
  | _ => false

def isOptionalTimestamp : Json F → Bool
  | .null => true
  | v => nonNegativeNumber v

/-- `_clean_authorization` -/
def cleanAuthorization (a : CleanAuthorization F) : Except CleanPlanError (CleanAuthorization F) :=
  if !isJobIdText a.jobId || !isNonEmptyText a.node || !isFlag a.nodeLocal || !isNonEmptyText a.jobDir ||
      !isLayout a.storageLayout || !isOptionalTimestamp a.updatedAt then
    .error "cleanup authorization has an invalid job identity"
  else .ok a

/-- `_canonical_managed_identity`; the encoder refuses a float that is not finite, and a dict has no key twice. -/
def canonicalManagedIdentity (eqInt : F → Int → Bool) (value : Json F) : Except CleanPlanError (Json F) :=
  match value with
  | .obj _ =>
    if !value.plain then .error "cleanup managed identity is not valid JSON"
    else
      match loadsBy .default (value.sorted.render .compact) with
      | none => .error "cleanup managed identity is not valid JSON"
      | some decoded =>
        match decoded with
        | .obj _ =>
          if pyEq eqInt decoded value then .ok decoded
          else .error "cleanup managed identity is not lossless JSON"
        | _ => .error "cleanup managed identity is not lossless JSON"
  | _ => .error "cleanup managed identity must be a JSON object"

/-- `value.get(name)` of a dict -/
def member (value : Json F) (name : String) : Option (Json F) :=
  match value with
  | .obj pairs => pairs.lookup name
  | _ => none

/-- `set(value) == {names}` of a dict -/
def hasFields (value : Json F) (names : List String) : Bool :=
  match value with
  | .obj pairs => (pairs.map Prod.fst).all (· ∈ names) && names.all (· ∈ pairs.map Prod.fst)
  | _ => false

def managedResult (raw : Json F) : Except CleanPlanError CleanManagedResult :=
  if !hasFields raw ["job_id", "path", "device", "inode"] then
    .error "cleanup plan managed result identity is invalid"
  else
    match member raw "job_id", member raw "path", member raw "device", member raw "inode" with
    | some (.str jobId), some (.str path), some (.int device), some (.int inode) =>
      if !validJobId jobId || path = "" || device < 0 || inode ≤ 0 then
        .error "cleanup plan managed result identity is invalid"
      else .ok ⟨jobId, path, device, inode⟩
    | _, _, _, _ => .error "cleanup plan managed result identity is invalid"

/-- The loop of `_managed_result_identities`. -/
def managedResultLoop : List (Json F) → List CleanManagedResult → Except CleanPlanError (List CleanManagedResult)
  | [], results => .ok results
  | raw :: rest, results =>
    managedResult raw >>= fun result =>
      if result ∈ results then .error "cleanup plan contains duplicate managed results"
      else managedResultLoop rest (results ++ [result])

/-- `_managed_result_identities` -/
def managedResultIdentities (managed : Json F) : Except CleanPlanError (List CleanManagedResult) :=
  match (member managed "managed_results").getD (.arr []) with
  | .arr raw =>
    if maxCleanPlanItems < raw.length then .error "cleanup plan exceeds its item limit"
    else managedResultLoop raw []
  | _ => .error "cleanup plan managed results are invalid"

/-! ## Pages -/

structure CleanPlanPageItem (F : Type) where
  index : Nat
  kind : String
  identity : List (String × Json F)

structure CleanPlanPage (F : Type) where
  offset : Int
  limit : Int
  total : Nat
  items : List (CleanPlanPageItem F)
  nextOffset : Option Nat

/-- `_page_item_size` -/
def pageItemSize (item : CleanPlanPageItem F) : Nat :=
  ((Json.obj (("index", .int item.index) :: ("kind", .str item.kind) :: item.identity)).sorted.render
    .compact).length

/-- `_require_pageable_identity`, for each item -/
def requirePageable (items : List (CleanPlanPageItem F)) : Except CleanPlanError Unit :=
  if items.any fun item => maxCleanPlanIdentityBytes < pageItemSize item then
    .error "cleanup plan identity exceeds its size limit"
  else .ok ()

def jobItems (jobs : List (CleanAuthorization F)) : List (CleanPlanPageItem F) :=
  jobs.zipIdx.map fun p => ⟨p.2, "job", p.1.asdict⟩

def resultItems (start : Nat) (results : List CleanManagedResult) : List (CleanPlanPageItem F) :=
  (results.zipIdx start).map fun p => ⟨p.2, "managed_result", p.1.asdict⟩

/-- `_require_pageable_plan_identities` -/
def requirePageablePlanIdentities (jobs : List (CleanAuthorization F)) (results : List CleanManagedResult) :
    Except CleanPlanError Unit :=
  requirePageable (jobItems jobs) >>= fun _ =>
    requirePageable (resultItems jobs.length results : List (CleanPlanPageItem F))

/-- The item at an index: a job, or behind the jobs a managed result. -/
def pageItem (plan : CleanPlan F) (index : Nat) : Option (CleanPlanPageItem F) :=
  if index < plan.jobs.length then plan.jobs[index]?.map fun a => ⟨index, "job", a.asdict⟩
  else plan.managedResults[index - plan.jobs.length]?.map fun r => ⟨index, "managed_result", r.asdict⟩

/-- The loop of `clean_plan_page`, with the items and the encoded bytes so far. -/
def pageLoop (plan : CleanPlan F) : List Nat → List (CleanPlanPageItem F) → Nat →
    Except CleanPlanError (List (CleanPlanPageItem F))
  | [], items, _ => .ok items
  | index :: rest, items, encodedBytes =>
    match pageItem plan index with
    | none => .error "list index out of range"
    | some item =>
      let itemBytes := pageItemSize item + if items.isEmpty then 0 else 1
      if cleanPlanPageItemsBudget < encodedBytes + itemBytes then
        if items.isEmpty then .error "cleanup plan identity exceeds page size limit" else .ok items
      else pageLoop plan rest (items ++ [item]) (encodedBytes + itemBytes)

def cleanPlanPage (plan : CleanPlan F) (offset limit : Int) : Except CleanPlanError (CleanPlanPage F) :=
  if offset < 0 then .error "cleanup plan page offset is invalid"
  else if limit < 1 || maxCleanPlanPageItems < limit then
    .error "cleanup plan page limit must be between 1 and 1000"
  else
    let total := plan.jobs.length + plan.managedResults.length
    if total < offset then .error "cleanup plan page offset exceeds its item count"
    else
      let start := offset.toNat
      let stop := min total (start + limit.toNat)
      -- two bytes for the delimiters of the list
      pageLoop plan (List.range' start (stop - start)) [] 2 >>= fun items =>
        let consumed := start + items.length
        .ok ⟨offset, limit, total, items, if consumed < total then some consumed else none⟩

/-! ## The codec -/

/-- `{entry.job_id for entry in authorizations}` has as many members as there are jobs. -/
def distinctJobs (jobs : List (CleanAuthorization F)) : Bool :=
  decide ((jobs.map fun a => match a.jobId with | .str s => s | _ => "").Nodup)

/-- `CLEAN_PLAN_ID_RE` -/
def isCleanPlanId (id : String) : Bool := hexOf 32 id

/-- The document that is written. -/
def CleanPlan.members (plan : CleanPlan F) : List (String × Json F) :=
  [("schema_version", .str cleanPlanSchemaVersion), ("plan_id", .str plan.planId),
    ("center", .str plan.center), ("created_at", .float plan.createdAt), ("expires_at", .float plan.expiresAt),
    ("jobs", .arr (plan.jobs.map fun a => .obj a.asdict)), ("managed_identity", plan.managedIdentity)]

variable (eqInt : F → Int → Bool) (plusTtl : F → Option F)

/-- `create_clean_plan`, with the plan and the text it writes; `plusTtl` adds `CLEAN_PLAN_TTL_S` and is none when
the sum is not finite, and `planId` is the token that is drawn. -/
def createCleanPlan (center planId : String) (createdAt : F) (jobs : List (CleanAuthorization F))
    (managedIdentity : Json F) : Except CleanPlanError (CleanPlan F × List Char) :=
  if createdAt < FloatText.zero then .error "cleanup plan timestamp is invalid"
  else if maxCleanPlanItems < jobs.length then .error "cleanup plan exceeds its item limit"
  else
    jobs.mapM cleanAuthorization >>= fun authorizations =>
    if !distinctJobs authorizations then .error "cleanup plan contains duplicate jobs"
    else
      canonicalManagedIdentity eqInt managedIdentity >>= fun managed =>
      managedResultIdentities managed >>= fun managedResults =>
      if maxCleanPlanItems < authorizations.length + managedResults.length then
        .error "cleanup plan exceeds its item limit"
      else
        requirePageablePlanIdentities authorizations managedResults >>= fun _ =>
        match plusTtl createdAt with
        | none => .error "cleanup plan cannot be encoded"
        | some expiresAt =>
          let plan : CleanPlan F := ⟨planId, center, createdAt, expiresAt, authorizations, managedResults, managed⟩
          let encoded := (Json.obj plan.members).sorted.render .compact ++ ['\n']
          if maxCleanPlanBytes < encoded.length then .error "cleanup plan exceeds its size limit"
          else if !isCleanPlanId planId then .error "cleanup plan identity is invalid"
          else .ok (plan, encoded)

/-- `float(value)` of a time in a plan. -/
def timestamp (value : Option (Json F)) : Option F :=
  match value with
  | some (.int n) => if 0 ≤ n then FloatText.ofInt n else none
  | some (.float x) => if FloatText.zero ≤ x then some x else none
  | _ => none

def isText (text : String) : Option (Json F) → Bool
  | some (.str s) => s = text
  | _ => false

/-- `CleanAuthorization(**item)`, when the item has its fields -/
def authorizationOf (item : Json F) : Except CleanPlanError (CleanAuthorization F) :=
  if !hasFields item ["job_id", "node", "node_local", "job_dir", "storage_layout", "updated_at"] then
    .error "cleanup plan job authorization is invalid"
  else
    let get name := (member item name).getD .null
    cleanAuthorization ⟨get "job_id", get "node", get "node_local", get "job_dir", get "storage_layout",
      get "updated_at"⟩

/-- The checks of `load_clean_plan` on the times. -/
def checkLifetime (createdAt expiresAt now : F) : Except CleanPlanError Unit :=
  if !(createdAt < expiresAt && (plusTtl createdAt).all (expiresAt ≤ ·)) then
    .error "cleanup plan lifetime is invalid"
  else if now < FloatText.zero then .error "cleanup plan validation time is invalid"
  else if now < createdAt then .error "cleanup plan validation time precedes its creation"
  else if expiresAt ≤ now then .error "cleanup plan has expired"
  else .ok ()

/-- The fields of a plan that is decoded. -/
def planOf (center planId : String) (now : F) (raw : Json F) : Except CleanPlanError (CleanPlan F) :=
  if !hasFields raw ["schema_version", "plan_id", "center", "created_at", "expires_at", "jobs",
      "managed_identity"] then .error "cleanup plan envelope is invalid"
  else
    if !isText cleanPlanSchemaVersion (member raw "schema_version") then
      .error "cleanup plan schema is unsupported"
    else if !isText planId (member raw "plan_id") || !isText center (member raw "center") then
      .error "cleanup plan authority does not match this center"
    else
      match timestamp (member raw "created_at"), timestamp (member raw "expires_at") with
      | some createdAt, some expiresAt =>
        checkLifetime plusTtl createdAt expiresAt now >>= fun _ =>
        match member raw "jobs" with
        | some (.arr rawJobs) =>
          if maxCleanPlanItems < rawJobs.length then .error "cleanup plan exceeds its item limit"
          else
            rawJobs.mapM authorizationOf >>= fun authorizations =>
            if !distinctJobs authorizations then .error "cleanup plan contains duplicate jobs"
            else
              canonicalManagedIdentity eqInt ((member raw "managed_identity").getD .null) >>= fun managed =>
              managedResultIdentities managed >>= fun managedResults =>
              if maxCleanPlanItems < authorizations.length + managedResults.length then
                .error "cleanup plan exceeds its item limit"
              else
                requirePageablePlanIdentities authorizations managedResults >>= fun _ =>
                .ok ⟨planId, center, createdAt, expiresAt, authorizations, managedResults, managed⟩
        | _ => .error "cleanup plan job authorizations are invalid"
      | _, _ => .error "cleanup plan timestamps are invalid"

/-- `load_clean_plan`, from the file of the plan. -/
def loadCleanPlan (center planId : String) (now : F) (file : Option (List Char)) :
    Except CleanPlanError (CleanPlan F) :=
  if !isCleanPlanId planId then .error "cleanup plan identity is invalid"
  else
    match file with
    | none => .error "cleanup plan does not exist"
    | some encoded =>
      if maxCleanPlanBytes < encoded.length then .error "cleanup plan cannot be read safely"
      else
        match loadsBy (.strict : Hooks F) encoded with
        | none => .error "cleanup plan is malformed"
        | some raw => planOf eqInt plusTtl center planId now raw

/-! ## Documents that are read back -/

/-- Fields that pass the checks are scalars. -/
def IsScalar (v : Json F) : Prop := v.sorted = v ∧ v.plain = true

omit [FloatText F] in
theorem isScalar_of {check : Json F → Bool} (harr : ∀ items, check (.arr items) = false)
    (hobj : ∀ pairs, check (.obj pairs) = false) (hnonfinite : check .nonfinite = false) {v : Json F}
    (h : check v = true) : IsScalar v := by
  cases v with
  | arr items => exact absurd h (by simp [harr])
  | obj pairs => exact absurd h (by simp [hobj])
  | nonfinite => exact absurd h (by simp [hnonfinite])
  | null => exact ⟨rfl, rfl⟩
  | bool b => exact ⟨rfl, rfl⟩
  | int n => exact ⟨rfl, rfl⟩
  | float x => exact ⟨rfl, rfl⟩
  | str s => exact ⟨rfl, rfl⟩

theorem scalar_of_valid {a b : CleanAuthorization F} (h : cleanAuthorization a = .ok b) :
    b = a ∧ ∀ p ∈ a.asdict, IsScalar p.2 := by
  unfold cleanAuthorization at h
  split at h
  · cases h
  rename_i hvalid
  simp only [Bool.or_eq_true, Bool.not_eq_true', not_or, Bool.not_eq_false] at hvalid
  obtain ⟨⟨⟨⟨⟨hjob, hnode⟩, hlocal⟩, hdir⟩, hlayout⟩, htime⟩ := hvalid
  refine ⟨(Except.ok.inj h).symm, fun p hp => ?_⟩
  simp only [CleanAuthorization.asdict, List.mem_cons, List.not_mem_nil, or_false] at hp
  rcases hp with rfl | rfl | rfl | rfl | rfl | rfl
  · exact isScalar_of (fun _ => rfl) (fun _ => rfl) rfl hjob
  · exact isScalar_of (fun _ => rfl) (fun _ => rfl) rfl hnode
  · exact isScalar_of (fun _ => rfl) (fun _ => rfl) rfl hlocal
  · exact isScalar_of (fun _ => rfl) (fun _ => rfl) rfl hdir
  · exact isScalar_of (fun _ => rfl) (fun _ => rfl) rfl hlayout
  · exact isScalar_of (fun _ => rfl) (fun _ => rfl) rfl htime

/-- A job that passes keeps passing. -/
theorem cleanAuthorization_ok {a b : CleanAuthorization F} (h : cleanAuthorization a = .ok b) :
    cleanAuthorization b = .ok b := by
  obtain rfl := (scalar_of_valid h).1
  exact h

theorem authorizations_ok {jobs authorizations : List (CleanAuthorization F)}
    (h : jobs.mapM cleanAuthorization = .ok authorizations) :
    ∀ a ∈ authorizations, cleanAuthorization a = .ok a := by
  induction jobs generalizing authorizations with
  | nil =>
    cases h
    intro a ha
    cases ha
  | cons job jobs ih =>
    rw [List.mapM_cons] at h
    obtain ⟨a, ha, hrest⟩ := bind_ok.mp h
    obtain ⟨as, has, hcons⟩ := bind_ok.mp hrest
    cases hcons
    exact List.forall_mem_cons.mpr ⟨cleanAuthorization_ok ha, ih has⟩

section

variable {pairs : List (String × Json F)}

omit [FloatText F] in
theorem sorted_obj : (Json.obj pairs).sorted = .obj (sortedMembers pairs) := by
  rw [Json.sorted]
  rfl

omit [FloatText F] in
theorem member_sorted (h : (pairs.map Prod.fst).Nodup) (name : String) :
    member (Json.obj pairs).sorted name = (pairs.lookup name).map Json.sorted := by
  rw [sorted_obj]
  exact lookup_sortedMembers h name

omit [FloatText F] in
theorem hasFields_sorted {names : List String} (h : pairs.map Prod.fst = names) :
    hasFields (Json.obj pairs).sorted names = true := by
  have hmem : ∀ name, name ∈ (sortedMembers pairs).map Prod.fst ↔ name ∈ names := fun name => by
    rw [keys_sortedMembers.mem_iff, h]
  rw [sorted_obj, hasFields, Bool.and_eq_true, List.all_eq_true, List.all_eq_true]
  exact ⟨fun name hn => decide_eq_true ((hmem name).mp hn), fun name hn => decide_eq_true ((hmem name).mpr hn)⟩

end

/-- A job is read back from its member of the document. -/
theorem authorizationOf_sorted {a : CleanAuthorization F} (h : cleanAuthorization a = .ok a) :
    authorizationOf (Json.obj a.asdict).sorted = .ok a := by
  have hscalar := (scalar_of_valid h).2
  have hnodup : (a.asdict.map Prod.fst).Nodup :=
    (by decide : ["job_id", "node", "node_local", "job_dir", "storage_layout", "updated_at"].Nodup)
  simp only [CleanAuthorization.asdict, List.forall_mem_cons] at hscalar
  obtain ⟨hjob, hnode, hlocal, hdir, hlayout, htime, -⟩ := hscalar
  have hfields := @hasFields_sorted F a.asdict
    ["job_id", "node", "node_local", "job_dir", "storage_layout", "updated_at"] rfl
  unfold authorizationOf
  rw [hfields, if_neg (by decide)]
  simp only [member_sorted hnodup]
  show cleanAuthorization ⟨a.jobId.sorted, a.node.sorted, a.nodeLocal.sorted, a.jobDir.sorted,
    a.storageLayout.sorted, a.updatedAt.sorted⟩ = .ok a
  rw [hjob.1, hnode.1, hlocal.1, hdir.1, hlayout.1, htime.1]
  exact h

/-! ## The managed identity -/

mutual

theorem pyEq_refl (eqInt : F → Int → Bool) : ∀ {v : Json F}, v.plain = true → pyEq eqInt v v = true
  | .null, _ => rfl
  | .bool b, _ => by simp [pyEq]
  | .int n, _ => by simp [pyEq]
  | .float x, _ => by simp [pyEq]
  | .nonfinite, h => by cases h
  | .str s, _ => by simp [pyEq]
  | .arr items, h => by
    rw [pyEq]
    exact pyEqItems_refl eqInt h
  | .obj pairs, h => by
    rw [Json.plain, Bool.and_eq_true, decide_eq_true_eq] at h
    rw [pyEq, decide_eq_true rfl, Bool.true_and]
    exact pyEqPairs_refl eqInt h.2 fun p hp => (lookup_eq_some_iff_mem h.1).mpr hp

theorem pyEqItems_refl (eqInt : F → Int → Bool) : ∀ {items : List (Json F)}, plainItems items = true →
    pyEqItems eqInt items items = true
  | [], _ => rfl
  | v :: vs, h => by
    rw [plainItems, Bool.and_eq_true] at h
    rw [pyEqItems, pyEq_refl eqInt h.1, pyEqItems_refl eqInt h.2]
    rfl

theorem pyEqPairs_refl (eqInt : F → Int → Bool) : ∀ {pairs whole : List (String × Json F)},
    plainPairs pairs = true → (∀ p ∈ pairs, whole.lookup p.1 = some p.2) → pyEqPairs eqInt pairs whole = true
  | [], _, _, _ => by rw [pyEqPairs]
  | (k, v) :: ps, whole, h, hlookup => by
    rw [plainPairs, Bool.and_eq_true] at h
    rw [pyEqPairs, hlookup (k, v) List.mem_cons_self, pyEqPairs_refl eqInt h.2 fun p hp =>
      hlookup p (List.mem_cons_of_mem _ hp), Bool.and_true]
    exact pyEq_refl eqInt h.1

end

/-- An object that is sorted is canonical. -/
theorem canonical_sorted (eqInt : F → Int → Bool) {pairs : List (String × Json F)}
    (hplain : (Json.obj pairs).plain = true) (hsorted : (Json.obj pairs).sorted = .obj pairs) :
    canonicalManagedIdentity eqInt (.obj pairs) = .ok (.obj pairs) := by
  have hload := loadsBy_render Hooks.default_keeps (plain_sorted _ hplain)
  rw [canonicalManagedIdentity, if_neg (by simp [hplain]), hload, hsorted]
  simp only
  rw [if_pos (pyEq_refl eqInt hplain)]

theorem canonical_ok {eqInt : F → Int → Bool} {value managed : Json F}
    (h : canonicalManagedIdentity eqInt value = .ok managed) :
    managed.sorted = managed ∧ managed.plain = true ∧ canonicalManagedIdentity eqInt managed = .ok managed := by
  cases value with
  | obj pairs =>
    rw [canonicalManagedIdentity] at h
    split at h
    · cases h
    rename_i hplain
    have hplain : (Json.obj pairs).plain = true := by simpa using hplain
    rw [loadsBy_render Hooks.default_keeps (plain_sorted _ hplain), sorted_obj] at h
    simp only at h
    split at h
    · obtain rfl := Except.ok.inj h
      have hsorted : (Json.obj (sortedMembers pairs)).sorted = .obj (sortedMembers pairs) := by
        rw [← sorted_obj, sorted_sorted]
      have hkept : (Json.obj (sortedMembers pairs)).plain = true := by
        rw [← sorted_obj]
        exact plain_sorted _ hplain
      exact ⟨hsorted, hkept, canonical_sorted eqInt hkept hsorted⟩
    · cases h
  | null => cases h
  | bool b => cases h
  | int n => cases h
  | float x => cases h
  | nonfinite => cases h
  | str s => cases h
  | arr items => cases h

/-! ## A plan that is created -/

variable {eqInt : F → Int → Bool} {plusTtl : F → Option F}

/-- What `create_clean_plan` has checked, with the file it has written. -/
structure Created (plan : CleanPlan F) (encoded : List Char) : Prop where
  id : isCleanPlanId plan.planId = true
  created : FloatText.zero ≤ plan.createdAt
  expires : plusTtl plan.createdAt = some plan.expiresAt
  jobs : ∀ a ∈ plan.jobs, cleanAuthorization a = .ok a
  distinct : distinctJobs plan.jobs = true
  managed : canonicalManagedIdentity eqInt plan.managedIdentity = .ok plan.managedIdentity
  managedSorted : plan.managedIdentity.sorted = plan.managedIdentity
  managedPlain : plan.managedIdentity.plain = true
  results : managedResultIdentities plan.managedIdentity = .ok plan.managedResults
  count : plan.jobs.length + plan.managedResults.length ≤ maxCleanPlanItems
  pageable : requirePageablePlanIdentities plan.jobs plan.managedResults = .ok ()
  text : encoded = (Json.obj plan.members).sorted.render .compact ++ ['\n']
  size : encoded.length ≤ maxCleanPlanBytes

theorem createCleanPlan_ok {center planId : String} {createdAt : F} {jobs : List (CleanAuthorization F)}
    {managedIdentity : Json F} {plan : CleanPlan F} {encoded : List Char}
    (h : createCleanPlan eqInt plusTtl center planId createdAt jobs managedIdentity = .ok (plan, encoded)) :
    @Created F _ eqInt plusTtl plan encoded ∧ plan.center = center ∧ plan.planId = planId := by
  unfold createCleanPlan at h
  split at h
  · cases h
  rename_i htime
  split at h
  · cases h
  obtain ⟨authorizations, hjobs, h⟩ := bind_ok.mp h
  split at h
  · cases h
  rename_i hdistinct
  obtain ⟨managed, hmanaged, h⟩ := bind_ok.mp h
  obtain ⟨results, hresults, h⟩ := bind_ok.mp h
  split at h
  · cases h
  rename_i hcount
  obtain ⟨⟨⟩, hpageable, h⟩ := bind_ok.mp h
  split at h
  · cases h
  rename_i expiresAt hexpires
  simp only at h
  split at h
  · cases h
  rename_i hsize
  split at h
  · cases h
  rename_i hid
  cases h
  obtain ⟨hsorted, hplain, hcanonical⟩ := canonical_ok hmanaged
  exact ⟨⟨by simpa using hid, le_of_not_gt htime, hexpires, authorizations_ok hjobs, by simpa using hdistinct,
    hcanonical, hsorted, hplain, hresults, Nat.le_of_not_lt hcount, hpageable, rfl, Nat.le_of_not_lt hsize⟩, rfl,
    rfl⟩

/-! ## Loading -/

theorem plain_asdict {a : CleanAuthorization F} (h : cleanAuthorization a = .ok a) :
    (Json.obj a.asdict).plain = true := by
  have hkeys : ["job_id", "node", "node_local", "job_dir", "storage_layout", "updated_at"].Nodup := by decide
  rw [Json.plain, Bool.and_eq_true]
  exact ⟨decide_eq_true hkeys, plainPairs_iff.mpr fun p hp => ((scalar_of_valid h).2 p hp).2⟩

theorem plainItems_jobs {jobs : List (CleanAuthorization F)} (h : ∀ a ∈ jobs, cleanAuthorization a = .ok a) :
    plainItems (jobs.map fun a => Json.obj a.asdict) = true := by
  induction jobs with
  | nil => rfl
  | cons a jobs ih =>
    rw [List.map_cons, plainItems, plain_asdict (h a List.mem_cons_self),
      ih fun b hb => h b (List.mem_cons_of_mem a hb)]
    rfl

/-- The jobs are read back from their items. -/
theorem mapM_authorizationOf {jobs : List (CleanAuthorization F)}
    (h : ∀ a ∈ jobs, cleanAuthorization a = .ok a) :
    (sortedItems (jobs.map fun a => Json.obj a.asdict)).mapM authorizationOf = .ok jobs := by
  induction jobs with
  | nil => rfl
  | cons a jobs ih =>
    rw [List.map_cons, sortedItems, List.mapM_cons, authorizationOf_sorted (h a List.mem_cons_self),
      ih fun b hb => h b (List.mem_cons_of_mem a hb)]
    rfl

omit [FloatText F] in
theorem keys_members (plan : CleanPlan F) : plan.members.map Prod.fst =
    ["schema_version", "plan_id", "center", "created_at", "expires_at", "jobs", "managed_identity"] := rfl

omit [FloatText F] in
theorem isText_self (text : String) : isText text (some (.str text : Json F)) = true := decide_eq_true rfl

section

variable {plan : CleanPlan F} {encoded : List Char} (h : @Created F _ eqInt plusTtl plan encoded)

include h

theorem plain_members : (Json.obj plan.members).plain = true := by
  rw [Json.plain, keys_members, Bool.and_eq_true]
  refine ⟨by decide, ?_⟩
  simp only [CleanPlan.members, plainPairs, Json.plain, Bool.and_true, plainItems_jobs h.jobs, h.managedPlain]

theorem lifetime_ok {now : F} (hnow : plan.createdAt ≤ now) (hexpires : now < plan.expiresAt) :
    checkLifetime plusTtl plan.createdAt plan.expiresAt now = .ok () := by
  have horder : (plan.createdAt < plan.expiresAt && (plusTtl plan.createdAt).all (plan.expiresAt ≤ ·)) = true := by
    rw [h.expires, Option.all_some, decide_eq_true (hnow.trans_lt hexpires), decide_eq_true le_rfl]
    rfl
  rw [checkLifetime, horder, if_neg (by decide), if_neg (h.created.trans hnow).not_gt, if_neg hnow.not_gt,
    if_neg hexpires.not_ge]

/-- The plan is read back from its file while it has not expired. -/
theorem load_created {now : F} (hnow : plan.createdAt ≤ now) (hexpires : now < plan.expiresAt) :
    loadCleanPlan eqInt plusTtl plan.center plan.planId now (some encoded) = .ok plan := by
  have hload : loadsBy (.strict : Hooks F) encoded = some (Json.obj plan.members).sorted := by
    rw [h.text]
    exact loadsBy_line Hooks.strict_keeps (plain_sorted _ (plain_members h))
  have hkeys : (plan.members.map Prod.fst).Nodup := by
    rw [keys_members]
    decide
  have hget := member_sorted hkeys
  have hjobs : member (Json.obj plan.members).sorted "jobs" =
      some (.arr (sortedItems (plan.jobs.map fun a => Json.obj a.asdict))) := hget "jobs"
  have hmanaged : member (Json.obj plan.members).sorted "managed_identity" = some plan.managedIdentity :=
    (hget "managed_identity").trans (congrArg some h.managedSorted)
  have hcreated : timestamp (member (Json.obj plan.members).sorted "created_at") = some plan.createdAt := by
    rw [hget]
    exact if_pos h.created
  have hexpiry : timestamp (member (Json.obj plan.members).sorted "expires_at") = some plan.expiresAt := by
    rw [hget]
    exact if_pos (h.created.trans (hnow.trans hexpires.le))
  have hversion : member (Json.obj plan.members).sorted "schema_version" = some (.str cleanPlanSchemaVersion) :=
    hget "schema_version"
  have hid : member (Json.obj plan.members).sorted "plan_id" = some (.str plan.planId) := hget "plan_id"
  have hcenter : member (Json.obj plan.members).sorted "center" = some (.str plan.center) := hget "center"
  have hle := h.count
  rw [loadCleanPlan, if_neg (by simp [h.id]), if_neg (Nat.not_lt_of_le h.size), hload]
  simp only
  rw [planOf, hasFields_sorted (keys_members plan), if_neg (by decide), hversion, hid, hcenter, isText_self,
    isText_self, isText_self, if_neg (by decide), if_neg (by decide), hcreated, hexpiry]
  simp only [lifetime_ok h hnow hexpires, hjobs, length_sortedItems, List.length_map, mapM_authorizationOf h.jobs,
    hmanaged, Option.getD_some, h.distinct, h.managed, h.results, h.pageable, bind, Except.bind]
  rw [if_neg (by omega), if_neg (by decide), if_neg (by omega)]

end

/-! ## Paging -/

/-- The sequence that the pages show: the jobs, and behind them the managed results. -/
def rows (plan : CleanPlan F) : List (CleanPlanPageItem F) :=
  jobItems plan.jobs ++ resultItems plan.jobs.length plan.managedResults

omit [FloatText F] in
theorem length_rows (plan : CleanPlan F) :
    (rows plan).length = plan.jobs.length + plan.managedResults.length := by
  simp [rows, jobItems, resultItems]

omit [FloatText F] in
theorem pageItem_eq (plan : CleanPlan F) (index : Nat) : pageItem plan index = (rows plan)[index]? := by
  have hlen : (jobItems plan.jobs).length = plan.jobs.length := by simp [jobItems]
  unfold pageItem rows
  split
  · rename_i hjob
    rw [List.getElem?_append_left (by rw [hlen]; exact hjob), jobItems, List.getElem?_map, List.getElem?_zipIdx,
      Option.map_map]
    simp only [Nat.zero_add]
    rfl
  · rename_i hjob
    have hle := Nat.le_of_not_lt hjob
    rw [List.getElem?_append_right (by rw [hlen]; exact hle), hlen, resultItems, List.getElem?_map,
      List.getElem?_zipIdx, Option.map_map]
    simp only [Nat.add_sub_cancel' hle]
    rfl

/-- No item is larger than the bound on an identity. -/
def Pageable (plan : CleanPlan F) : Prop := ∀ item ∈ rows plan, pageItemSize item ≤ maxCleanPlanIdentityBytes

theorem requirePageable_ok {items : List (CleanPlanPageItem F)} (h : requirePageable items = .ok ()) :
    ∀ item ∈ items, pageItemSize item ≤ maxCleanPlanIdentityBytes := by
  intro item hitem
  unfold requirePageable at h
  split at h
  · cases h
  · rename_i hany
    rw [List.any_eq_true] at hany
    by_contra hlarge
    exact hany ⟨item, hitem, decide_eq_true (Nat.lt_of_not_le hlarge)⟩

theorem pageable_created {plan : CleanPlan F} {encoded : List Char}
    (h : @Created F _ eqInt plusTtl plan encoded) : Pageable plan := by
  obtain ⟨⟨⟩, hjobs, hresults⟩ := bind_ok.mp h.pageable
  intro item hitem
  rcases List.mem_append.mp hitem with hitem | hitem
  · exact requirePageable_ok hjobs item hitem
  · exact requirePageable_ok hresults item hitem

section

variable {plan : CleanPlan F} (h : Pageable plan)

include h

/-- The loop takes items from its first index on, and at least one if it has none yet. -/
theorem pageLoop_spec {n start bytes : Nat} {items : List (CleanPlanPageItem F)}
    (hstart : start + n ≤ (rows plan).length) (hbytes : items = [] → bytes = 2) :
    ∃ k, pageLoop plan (List.range' start n) items bytes = .ok (items ++ ((rows plan).drop start).take k) ∧
      k ≤ n ∧ (items = [] → 0 < n → 0 < k) := by
  induction n generalizing start bytes items with
  | zero =>
    refine ⟨0, ?_, Nat.le_refl 0, fun _ h => h⟩
    rw [List.take_zero, List.append_nil]
    rfl
  | succ n ih =>
    have hlt : start < (rows plan).length := by omega
    have hitem : pageItem plan start = some (rows plan)[start] := by
      rw [pageItem_eq, List.getElem?_eq_getElem hlt]
    have hsize := h _ (List.getElem_mem hlt)
    rw [List.range'_succ, pageLoop, hitem]
    simp only
    generalize hcost : pageItemSize (rows plan)[start] + (if items.isEmpty then 0 else 1) = cost
    by_cases hfull : cleanPlanPageItemsBudget < bytes + cost
    · rw [if_pos hfull]
      cases items with
      | nil =>
        -- a first item always fits
        rw [← hcost, hbytes rfl] at hfull
        exact absurd (Nat.lt_of_lt_of_le hfull (Nat.add_le_add_left hsize 2)) (by decide)
      | cons item items =>
        refine ⟨0, ?_, Nat.zero_le _, fun hnil => absurd hnil (List.cons_ne_nil item items)⟩
        rw [List.take_zero, List.append_nil]
        rfl
    · obtain ⟨k, hrun, hk, -⟩ := @ih (start + 1) (bytes + cost) (items ++ [(rows plan)[start]]) (by omega)
        fun hnil => absurd hnil (by simp)
      refine ⟨k + 1, ?_, Nat.succ_le_succ hk, fun _ _ => Nat.succ_pos k⟩
      rw [if_neg hfull, hrun, List.append_assoc, List.drop_eq_getElem_cons hlt, List.take_succ_cons]
      rfl

/-- A page from an offset that was named, with a limit that is allowed. -/
theorem cleanPlanPage_ok {limit : Int} (hlimit : 1 ≤ limit ∧ limit ≤ maxCleanPlanPageItems) {offset : Nat}
    (hoffset : offset ≤ (rows plan).length) :
    ∃ page, cleanPlanPage plan offset limit = .ok page ∧
      IsPage (rows plan) offset (page.items, page.nextOffset) := by
  rw [length_rows] at hoffset
  have hstop : offset + (min (plan.jobs.length + plan.managedResults.length) (offset + limit.toNat) - offset) ≤
      (rows plan).length := by
    rw [length_rows]
    omega
  obtain ⟨k, hrun, hk, hpos⟩ := @pageLoop_spec F _ plan h _ offset 2 [] hstop fun _ => rfl
  have hlength : ((rows plan).drop offset |>.take k).length = k := by
    rw [List.length_take, List.length_drop, length_rows]
    omega
  rw [cleanPlanPage, if_neg (by omega), if_neg (by simp [hlimit.1, hlimit.2]), if_neg (by omega)]
  simp only [Int.toNat_natCast, hrun, List.nil_append, bind, Except.bind]
  refine ⟨_, rfl, k, ?_, ?_, fun hlt => hpos rfl ?_⟩
  · simp only [hlength, length_rows]
  · rw [length_rows]
    omega
  · rw [length_rows] at hlt
    omega

end

/-! ## Plans that are loaded and shown -/

/-- The page at an offset, for a caller that follows `next_offset`. -/
def pageAt (plan : CleanPlan F) (limit : Int) (offset : Nat) :
    Except CleanPlanError (List (CleanPlanPageItem F) × Option Nat) :=
  (cleanPlanPage plan offset limit).map fun page => (page.items, page.nextOffset)

/-- A plan is loaded as it was created while it has not expired, and requests with limits that are allowed show
its jobs and then its managed results, each once, and end. A larger limit is refused. -/
theorem clean_plan (eqInt : F → Int → Bool) (plusTtl : F → Option F) {center planId : String} {createdAt : F}
    {jobs : List (CleanAuthorization F)} {managedIdentity : Json F} {plan : CleanPlan F} {encoded : List Char}
    (h : createCleanPlan eqInt plusTtl center planId createdAt jobs managedIdentity = .ok (plan, encoded)) :
    (∀ now, plan.createdAt ≤ now → now < plan.expiresAt →
        loadCleanPlan eqInt plusTtl center planId now (some encoded) = .ok plan) ∧
      (∀ limits : List Int, (∀ limit ∈ limits, 1 ≤ limit ∧ limit ≤ maxCleanPlanPageItems) →
        (∃ k next, followOffsets (pageAt plan) limits 0 = .ok ((rows plan).take k, next) ∧
          (next = none → k = (rows plan).length)) ∧
        ((rows plan).length < limits.length → followOffsets (pageAt plan) limits 0 = .ok (rows plan, none))) ∧
      ∀ offset limit : Int, 0 ≤ offset → maxCleanPlanPageItems < limit →
        cleanPlanPage plan offset limit = .error "cleanup plan page limit must be between 1 and 1000" := by
  obtain ⟨hcreated, rfl, rfl⟩ := createCleanPlan_ok h
  have hpageable := pageable_created hcreated
  have hpage : ∀ limit : Int, (1 ≤ limit ∧ limit ≤ maxCleanPlanPageItems) → ∀ offset ≤ (rows plan).length,
      ∃ r, pageAt plan limit offset = .ok r ∧ IsPage (rows plan) offset r := by
    intro limit hlimit offset hoffset
    obtain ⟨page, hok, his⟩ := cleanPlanPage_ok hpageable hlimit hoffset
    exact ⟨_, by rw [pageAt, hok]; rfl, his⟩
  refine ⟨fun now => load_created hcreated, fun limits hlimits => ⟨?_, ?_⟩, fun offset limit hoffset hlarge => ?_⟩
  · obtain ⟨k, next, hrun, -, hnone, -⟩ :=
      followOffsets_spec (fun limit hl => hpage limit (hlimits limit hl)) (Nat.zero_le (rows plan).length)
    exact ⟨k, next, hrun, fun hend => (Nat.zero_add k).symm.trans (hnone hend)⟩
  · exact followOffsets_all fun limit hl => hpage limit (hlimits limit hl)
  · rw [cleanPlanPage, if_neg hoffset.not_gt, if_pos (by simp [hlarge])]

end

/-! ## A small plan -/

def nextFloat (x : Fin 10) : Option (Fin 10) := some (x + 1)

def sampleJob : CleanAuthorization (Fin 10) :=
  ⟨.str "a1", .str "n1", .bool false, .str "~/dt/jobs/a1", .str "role-v1", .float 3⟩

def sampleManaged : Json (Fin 10) :=
  .obj [("managed_results", .arr [.obj [("device", .int 1), ("inode", .int 7), ("job_id", .str "b2"),
    ("path", .str "/results/b2")]])]

def samplePlan : CleanPlan (Fin 10) :=
  ⟨"0123456789abcdef0123456789abcdef", "lab", 3, 4, [sampleJob], [⟨"b2", "/results/b2", 1, 7⟩], sampleManaged⟩

def samplePlanFile : List Char := (Json.obj samplePlan.members).sorted.render .compact ++ ['\n']

theorem samplePlan_created : createCleanPlan (fun _ _ => false) nextFloat "lab" "0123456789abcdef0123456789abcdef" 3
    [sampleJob] sampleManaged = .ok (samplePlan, samplePlanFile) := by
  have hmanaged : canonicalManagedIdentity (fun _ _ => false) sampleManaged = .ok sampleManaged :=
    canonical_sorted _ rfl rfl
  have hresults : managedResultIdentities sampleManaged = .ok [⟨"b2", "/results/b2", 1, 7⟩] := rfl
  have hjobs : requirePageable (jobItems [sampleJob]) = .ok () := if_neg (by decide +kernel)
  have hpageable : requirePageable (resultItems 1 [⟨"b2", "/results/b2", 1, 7⟩] : List (CleanPlanPageItem (Fin 10))) =
      .ok () := if_neg (by decide +kernel)
  have hsize : ¬maxCleanPlanBytes < samplePlanFile.length := by decide +kernel
  have hexpires : nextFloat 3 = some 4 := rfl
  have hauthorized : [sampleJob].mapM cleanAuthorization = .ok [sampleJob] := rfl
  rw [createCleanPlan, if_neg (by decide), if_neg (by decide), hauthorized]
  simp only [bind, Except.bind, hmanaged, hresults, requirePageablePlanIdentities, hjobs, List.length_singleton,
    hpageable, hexpires]
  rw [if_neg (by decide), if_neg (by decide)]
  exact (if_neg hsize).trans (if_neg (by decide))

theorem clean_plan_sample :
    (∀ now, (3 : Fin 10) ≤ now → now < 4 →
        loadCleanPlan (fun _ _ => false) nextFloat "lab" "0123456789abcdef0123456789abcdef" now
          (some samplePlanFile) = .ok samplePlan) ∧
      followOffsets (pageAt samplePlan) [1, 1, 1000] 0 = .ok (rows samplePlan, none) :=
  have h := clean_plan (fun _ _ => false) nextFloat samplePlan_created
  ⟨h.1, (h.2.1 [1, 1, 1000] (by decide)).2 (by decide)⟩

/-- A positive limit above the bound is refused. -/
theorem large_limit :
    createCleanPlan (fun _ _ => false) nextFloat "lab" "0123456789abcdef0123456789abcdef" 3 [sampleJob]
        sampleManaged = .ok (samplePlan, samplePlanFile) ∧
      cleanPlanPage samplePlan 0 1001 = .error "cleanup plan page limit must be between 1 and 1000" :=
  ⟨samplePlan_created, rfl⟩

end Dt.Maintenance
