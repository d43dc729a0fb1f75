import Crewquarters.Json
import Crewquarters.Jobs

/-!
# Models in memory

`manager.py` of the model gateway, one function a transaction: leases and admission, manual unload,
the transactions of the load and unload handlers, and those of the reaper. A model's rows in
`model_catalog`, `model_installations` and `model_instances`, which share its id, are kept together
(`Model`). Every transaction locks the model's rows, and acquisitions exclude each other by an
advisory lock, so a transaction is one step.
-/

namespace Crewquarters

inductive InstanceState where
  | notLoaded
  | loading
  | ready
  | draining
  | loadError
  | runtimeError
deriving DecidableEq, Repr

def InstanceState.resident : InstanceState → Bool
  | loading | ready | draining => true
  | notLoaded | loadError | runtimeError => false

inductive DrainReason where
  | idle
  | manual
  | stopping
deriving DecidableEq, Repr

inductive DownloadState where
  | notInstalled
  | downloading
  | installed
  | downloadError
  | deleting
deriving DecidableEq, Repr

inductive HolderType where
  | run
  | chat
  | manual
deriving DecidableEq, Repr

structure ModelCatalogEntry where
  id : ModelId
  expectedMemoryBytes : ℕ
  capabilities : List String

structure ModelInstance where
  state : InstanceState
  stage : Option String
  drainReason : Option DrainReason
  endpoint : Option Json
  reservedBytes : ℕ
  observed : Option Json
  error : Option Json
  loadStartedAt : Option Time
  readyAt : Option Time
  idleSince : Option Time
  version : ℕ

/-- A model's catalog entry, the state of its files and its instance. -/
structure Model where
  entry : ModelCatalogEntry
  files : DownloadState
  inst : ModelInstance

def Model.id (m : Model) : ModelId := m.entry.id

/-- A new row of `model_instances`. -/
def ModelInstance.fresh : ModelInstance :=
  { state := .notLoaded
    stage := none
    drainReason := none
    endpoint := none
    reservedBytes := 0
    observed := none
    error := none
    loadStartedAt := none
    readyAt := none
    idleSince := none
    version := 1 }

structure ModelLease where
  id : ℕ
  modelId : ModelId
  holderType : HolderType
  holderId : String
  holderLabel : String
  expiresAt : Time
  releasedAt : Option Time
  releaseReason : Option String

structure GatewayDb where
  models : List Model
  leases : List ModelLease
  nextLease : ℕ
  jobs : JobTable

structure GatewaySettings where
  systemReserveBytes : ℕ
  maxServingBytes : ℕ
  loadSafetyMarginBytes : ℕ
  oneGenerativeModel : Bool
  idleUnloadSeconds : ℕ
  jobLeaseSeconds : ℕ

def isGenerative (capabilities : List String) : Bool := "chat" ∈ capabilities

/-- `v.get(key) or {}`. -/
def Json.getOrEmpty (key : String) (v : Json) : Json :=
  match v.get? key with
  | some x => if x.truthy then x else .obj []
  | none => .obj []

namespace GatewayDb

def rows (modelId : ModelId) (db : GatewayDb) : Except PlatformError Model :=
  match Table.get Model.id modelId db.models with
  | none => .error (notFound "Model" modelId)
  | some m => .ok m

def setInst (m : Model) (inst : ModelInstance) (db : GatewayDb) : GatewayDb :=
  { db with models := Table.put Model.id { m with inst } db.models }

def enqueueLoad (due : Time) (modelId : ModelId) (db : GatewayDb) : GatewayDb :=
  { db with jobs := (db.jobs.enqueue .modelLoad (.ofModel modelId) (some (.load modelId)) due 1).2 }

def enqueueUnload (due : Time) (modelId : ModelId) (db : GatewayDb) : GatewayDb :=
  { db with
    jobs := (db.jobs.enqueue .modelUnload (.ofModel modelId) (some (.unload modelId)) due 3).2 }

/-! ## Leases -/

def activeLeases (modelId : ModelId) (db : GatewayDb) : List ModelLease :=
  db.leases.filter fun l => l.modelId = modelId && l.releasedAt.isNone

/-- `released_at = now`, for the unreleased leases with `p`. -/
def releaseWhere (p : ModelLease → Bool) (now : ℕ → Time) (reason : String) (db : GatewayDb) :
    GatewayDb :=
  { db with leases := db.leases.map fun l =>
      if l.releasedAt.isNone && p l then
        { l with releasedAt := some (now l.id), releaseReason := some reason }
      else l }

def markIdleIfUnused (now : Time) (modelId : ModelId) (db : GatewayDb) : GatewayDb :=
  if (db.activeLeases modelId).isEmpty then
    match Table.get Model.id modelId db.models with
    | none => db
    | some m =>
      if m.inst.state = .ready ∧ m.inst.idleSince = none then
        db.setInst m { m.inst with idleSince := some now }
      else db
  else db

/-- The leases with `p` are released, and their models may be idle now. -/
def releaseAll (p : ModelLease → Bool) (released : ℕ → Time) (idle : ModelId → Time)
    (reason : String) (db : GatewayDb) : GatewayDb :=
  let hit := db.leases.filter fun l => l.releasedAt.isNone && p l
  (hit.map ModelLease.modelId).dedup.foldl (fun db id => db.markIdleIfUnused (idle id) id)
    (db.releaseWhere p released reason)

def release (released : ℕ → Time) (idle : ModelId → Time) (leaseId : ℕ) (reason : String) :
    GatewayDb → GatewayDb :=
  releaseAll (fun l => l.id = leaseId) released idle reason

def releaseHolder (released : ℕ → Time) (idle : ModelId → Time) (holderType : HolderType)
    (holderId reason : String) : GatewayDb → GatewayDb :=
  releaseAll (fun l => l.holderType = holderType && l.holderId = holderId) released idle reason

/-- The reaper's first transaction; `locked` are the leases `SKIP LOCKED` passes over. -/
def expireLeases (now : Time) (idle : ModelId → Time) (locked : List ℕ) : GatewayDb → GatewayDb :=
  releaseAll (fun l => l.expiresAt ≤ now && l.id ∉ locked) (fun _ => now) idle "expired"

def heldLease (modelId : ModelId) (holderType : HolderType) (holderId : String) (db : GatewayDb) :
    Option ModelLease :=
  (db.activeLeases modelId).find? fun l => l.holderType = holderType && l.holderId = holderId

/-- `INSERT .. ON CONFLICT DO UPDATE` on the unreleased lease of the holder: its id. -/
def putLease (expires : Time) (modelId : ModelId) (holderType : HolderType)
    (holderId label : String) (db : GatewayDb) : ℕ × GatewayDb :=
  match db.heldLease modelId holderType holderId with
  | some l => (l.id, { db with
      leases := Table.put ModelLease.id { l with expiresAt := expires, holderLabel := label }
        db.leases })
  | none => (db.nextLease, { db with
      leases := db.leases
        ++ [⟨db.nextLease, modelId, holderType, holderId, label, expires, none, none⟩]
      nextLease := db.nextLease + 1 })

/-! ## Admission -/

/-- The resident models other than `entry`'s. -/
def others (entry : ModelCatalogEntry) (db : GatewayDb) : List Model :=
  db.models.filter fun m => m.inst.state.resident && m.id ≠ entry.id

/-- `_admit`. `capacity` is what the daemon says is free on the host. -/
def admitModel (s : GatewaySettings) (capacity : Except PlatformError ℤ) (entry : ModelCatalogEntry)
    (db : GatewayDb) : Except PlatformError Unit :=
  let others := db.others entry
  let peak := entry.expectedMemoryBytes
  let loaded := (others.filter fun m => isGenerative m.entry.capabilities).map Model.id
  let reserved := (others.map fun m => m.inst.reservedBytes).sum
  if s.oneGenerativeModel ∧ isGenerative entry.capabilities ∧ loaded ≠ [] then
    .error (conflict "MODEL_CAPACITY_EXCEEDED"
      "Another model is loaded. Unload it before loading this one."
      [("loadedModels", .arr (loaded.map .str)), ("policy", .str "one_generative_model")])
  else if s.maxServingBytes < reserved + peak + s.loadSafetyMarginBytes then
    .error (conflict "MODEL_CAPACITY_EXCEEDED" "Not enough safe unified memory for this model."
      [("reservedBytes", .num reserved), ("requiredBytes", .num peak),
        ("maxServingBytes", .num s.maxServingBytes)])
  else do
    let available ← capacity
    if available - s.systemReserveBytes < peak + s.loadSafetyMarginBytes then
      .error (conflict "MODEL_CAPACITY_EXCEEDED" "Not enough free memory on the device right now."
        [("availableBytes", .num available), ("requiredBytes", .num peak),
          ("systemReserveBytes", .num s.systemReserveBytes)])
    else .ok ()

def queued (now : Time) (entry : ModelCatalogEntry) (i : ModelInstance) : ModelInstance :=
  { i with
    state := .loading
    stage := some "Queued"
    error := none
    reservedBytes := entry.expectedMemoryBytes
    loadStartedAt := some now
    version := i.version + 1 }

/-- A drain that has not begun to stop the container is called off. -/
def revived (i : ModelInstance) : ModelInstance :=
  { i with state := .ready, drainReason := none, stage := none }

/-- Create or renew the holder's lease; start a load if the model is not resident. -/
def acquire (s : GatewaySettings) (capacity : Except PlatformError ℤ) (now due : Time)
    (modelId : ModelId) (holderType : HolderType) (holderId label : String) (ttlSeconds : ℕ)
    (db : GatewayDb) : Except PlatformError (ℕ × GatewayDb) := do
  let m ← db.rows modelId
  if m.files ≠ .installed then
    .error (conflict "MODEL_NOT_INSTALLED" s!"Install {modelId} before using it." [])
  else if m.inst.state = .draining ∧ m.inst.drainReason = some .manual then
    .error (conflict "MODEL_UNLOADING" s!"{modelId} is being unloaded." [])
  else
    let (lease, db) := db.putLease (now + ttlSeconds) modelId holderType holderId label
    if m.inst.state.resident = false then do
      db.admitModel s capacity m.entry
      .ok (lease, (db.setInst m { queued now m.entry m.inst with readyAt := none, idleSince := none
        }).enqueueLoad due modelId)
    else if m.inst.state = .draining ∧ m.inst.drainReason = some .idle then
      .ok (lease, db.setInst m { revived m.inst with idleSince := none })
    else .ok (lease, db.setInst m { m.inst with idleSince := none })

/-! ## Unloading by hand -/

def unload (released : ℕ → Time) (due : Time) (modelId : ModelId) (force : Bool)
    (db : GatewayDb) : Except PlatformError GatewayDb := do
  let m ← db.rows modelId
  if m.inst.state.resident = false then .ok db
  else if (db.activeLeases modelId).isEmpty = false ∧ force = false then
    .error (conflict "MODEL_IN_USE" "The model is in use. Confirm to unload anyway."
      [("holders", .arr ((db.activeLeases modelId).map fun l => .str l.holderLabel))])
  else .ok (((db.releaseWhere (fun l => l.modelId = modelId) released "forced_unload").setInst m
    { m.inst with
      state := .draining
      drainReason := some .manual
      stage := some "Draining"
      version := m.inst.version + 1 }).enqueueUnload due modelId)

/-! ## The load handler's transactions -/

/-- `_set(stage=..)`. -/
def setStage (stage : String) (modelId : ModelId) (db : GatewayDb) : GatewayDb :=
  match Table.get Model.id modelId db.models with
  | none => db
  | some m => db.setInst m { m.inst with stage := some stage }

def finishLoad (ready idle : Time) (endpoint : Json) (modelId : ModelId) (db : GatewayDb) :
    Except PlatformError GatewayDb := do
  let m ← db.rows modelId
  if m.inst.state ≠ .loading then .ok db
  else .ok (db.setInst m { m.inst with
    state := .ready
    stage := none
    endpoint := some endpoint
    readyAt := some ready
    idleSince := if (db.activeLeases modelId).isEmpty then some idle else none
    version := m.inst.version + 1 })

/-- `_fail_load`, its transaction. -/
def failLoad (code message : String) (details : List (String × Json)) (modelId : ModelId)
    (db : GatewayDb) : Except PlatformError GatewayDb := do
  let m ← db.rows modelId
  if m.inst.state ≠ .loading then .ok db
  else .ok (db.setInst m { m.inst with
    state := .loadError
    stage := none
    error := some (.obj ([("code", .str code), ("message", .str message)] ++ details))
    reservedBytes := 0
    endpoint := none
    version := m.inst.version + 1 })

/-! ## The unload handler's transactions -/

/-- The first one: whether the drain is manual, or `none` if there is nothing to stop. -/
def unloadBegin (modelId : ModelId) (db : GatewayDb) :
    Except PlatformError (Option Bool × GatewayDb) := do
  let m ← db.rows modelId
  if m.inst.state ≠ .draining then .ok (none, db)
  else if m.inst.drainReason = some .idle ∧ (db.activeLeases modelId).isEmpty = false then
    .ok (none, db.setInst m (revived m.inst))
  else if m.inst.drainReason = some .manual then .ok (some true, db)
  else .ok (some false, db.setInst m { m.inst with
    drainReason := some .stopping, stage := some "Stopping" })

def containerRemoved (report : Json) : Bool :=
  ((report.get? "containerRemoved").map Json.truthy).getD false

/-- The last one: the model is gone, or is loaded again for a lease that came meanwhile. -/
def unloadFinish (now due : Time) (report : Json) (modelId : ModelId) (db : GatewayDb) :
    Except PlatformError GatewayDb := do
  let m ← db.rows modelId
  if m.inst.state ≠ .draining then .ok db
  else
    let stopped := { m.inst with
      drainReason := none
      endpoint := none
      idleSince := none
      observed := some report }
    if containerRemoved report ∧ (db.activeLeases modelId).isEmpty = false then
      .ok ((db.setInst m (queued now m.entry stopped)).enqueueLoad due modelId)
    else .ok (db.setInst m { stopped with
      state := if containerRemoved report then .notLoaded else .runtimeError
      stage := none
      reservedBytes := 0
      error := if containerRemoved report then none else some (.obj
        [("code", .str "UNLOAD_UNVERIFIED"), ("message", .str "Container still present.")])
      version := m.inst.version + 1 })

/-! ## The reaper's transactions -/

def drainIfIdle (s : GatewaySettings) (now : Time) (due : ModelId → Time) (db : GatewayDb)
    (modelId : ModelId) : GatewayDb :=
  match Table.get Model.id modelId db.models with
  | none => db
  | some m =>
    if m.inst.state = .ready ∧ (db.activeLeases modelId).isEmpty then
      match m.inst.idleSince with
      | none => db.setInst m { m.inst with idleSince := some now }
      | some since =>
        if s.idleUnloadSeconds ≤ now - since then
          (db.setInst m { m.inst with
            state := .draining
            drainReason := some .idle
            stage := some "Unloading (idle)"
            version := m.inst.version + 1 }).enqueueUnload (due modelId) modelId
        else db
    else db

/-- The idle drain; `locked` are the instances `SKIP LOCKED` passes over. -/
def drainIdle (s : GatewaySettings) (now : Time) (due : ModelId → Time) (locked : List ModelId)
    (db : GatewayDb) : GatewayDb :=
  ((db.models.map Model.id).filter fun id => id ∉ locked).foldl (drainIfIdle s now due) db

def markCrashed (container : Json) (modelId : ModelId) (db : GatewayDb) :
    Except PlatformError GatewayDb := do
  let m ← db.rows modelId
  if m.inst.state ≠ .ready then .ok db
  else .ok (db.setInst m { m.inst with
    state := .runtimeError
    error := some (.obj [("code", .str "MODEL_CRASHED"),
      ("message", .str "The model server stopped unexpectedly."),
      ("exitCode", .ofOption (container.get? "exitCode")),
      ("oomKilled", .ofOption (container.get? "oomKilled"))])
    reservedBytes := 0
    endpoint := none
    version := m.inst.version + 1 })

/-- `_recover_stuck`: a load without a job whose server is healthy is taken over. -/
def adopt (now : Time) (endpoint : Json) (modelId : ModelId) (db : GatewayDb) :
    Except PlatformError GatewayDb := do
  let m ← db.rows modelId
  if m.inst.state ≠ .loading then .ok db
  else .ok (db.setInst m { m.inst with
    state := .ready
    stage := none
    endpoint := some endpoint
    readyAt := some now
    version := m.inst.version + 1 })

def refreshInstallation (files : DownloadState) (modelId : ModelId) (db : GatewayDb) :
    GatewayDb :=
  match Table.get Model.id modelId db.models with
  | none => db
  | some m => { db with models := Table.put Model.id { m with files } db.models }

end GatewayDb

end Crewquarters
