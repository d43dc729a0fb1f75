import Crewquarters.Broker
import Crewquarters.Permissions
import Crewquarters.Lib.Machine

/-!
# Approvals and the calls they allow

How an owner's approval comes to allow a call of a running agent: `update_installation` changes it,
`create_run` copies it into the run, `internal_run` shows the copy, `authorize` intersects it with
the token and `Grant.require` looks a capability up. A creation reads the installation and inserts
its run later, and a call keeps the view it was authorized with; owners and other calls come in
between. `approvals` is every approval the installation has had, the last one its current one.
-/

namespace Crewquarters

/-- A version of the agent, with its `manifest["spec"]["permissions"]`. -/
structure AgentRelease where
  id : VersionId
  version : String
  permissions : PermissionBlock

structure Approval where
  permissions : PermissionBlock
  modelBindings : List (String × String)

/-- `agent_installations`, as `update_installation` reads and writes it. -/
structure OwnedAgent where
  id : InstallationId
  agentId : String
  agentVersionId : VersionId
  approvedPermissions : PermissionBlock
  approvedVersionId : VersionId
  needsReapproval : Bool
  modelBindings : List (String × String)
  config : Json
  enabled : Bool
  version : ℕ

def OwnedAgent.approval (agent : OwnedAgent) : Approval :=
  ⟨agent.approvedPermissions, agent.modelBindings⟩

/-- `InstallationPatchIn`. -/
structure InstallationPatch where
  version : ℕ
  agentVersion : Option String
  config : Option Json
  approvedPermissions : Option PermissionBlock
  modelBindings : Option (List (String × String))
  enabled : Option Bool

/-- The versions of the agent, and what the catalog and the configuration schema say of them. -/
structure ReleaseCatalog where
  releases : List AgentRelease
  compatibilityIssues : VersionId → List String
  /-- `apply_config_defaults` -/
  filled : VersionId → Json → Json
  /-- the errors of `Draft202012Validator` -/
  configErrors : VersionId → Json → List Json

/-! ## Model bindings -/

def defaultVariants : List (String × String) :=
  [("local.general", "local.general.small"), ("local.embedding", "local.embedding.small"),
    ("local.stt", "local.stt.small"), ("local.tts", "local.tts.small")]

def knownVariants : List String :=
  ["local.general.small", "local.general.quality", "local.embedding.small", "local.stt.small",
    "local.tts.small"]

def profileFamily (profile : String) : String :=
  .ofList (['.'].intercalate ((profile.toList.splitOn '.').take 2))

def resolveModelBinding (choices : List (String × String)) (profile : String) :
    Except PlatformError (String × String) :=
  match defaultVariants.lookup profile with
  | some default =>
    let chosen := (choices.lookup profile).getD default
    if profileFamily chosen ≠ profile ∨ chosen ∉ knownVariants then
      .error (invalid "INVALID_MODEL_BINDING" s!"{chosen} is not a variant of {profile}."
        [("profile", .str profile), ("choice", .str chosen)])
    else .ok (profile, chosen)
  | none =>
    if (choices.lookup profile).any (· ≠ profile) then
      .error (invalid "INVALID_MODEL_BINDING"
        s!"{profile} is an exact profile and cannot be changed." [("profile", .str profile)])
    else .ok (profile, profile)

def resolveModelBindings (requestedProfiles : List String) (choices : List (String × String)) :
    Except PlatformError (List (String × String)) :=
  let unknown := (choices.map Prod.fst).filter (· ∉ requestedProfiles)
  if unknown ≠ [] then
    .error (invalid "INVALID_MODEL_BINDING"
      "Model choices must refer to profiles the agent requests."
      [("profiles", .arr ((sorted unknown).map .str))])
  else requestedProfiles.mapM (resolveModelBinding choices)

section Update

variable (catalog : ReleaseCatalog)

def validateConfig (release : VersionId) (config : Json) (bindings : List (String × String)) :
    Except PlatformError Json :=
  let filled := catalog.filled release config
  let permitted := bindings.map Prod.snd
  if catalog.configErrors release filled ≠ [] then
    .error (invalid "INVALID_CONFIGURATION" "The agent configuration is invalid."
      [("errors", .arr (catalog.configErrors release filled))])
  else
    match (filled.get? "modelProfile").getD .null with
    | .null => .ok filled
    | modelProfile =>
      if permitted.any fun value => (match modelProfile with
        | .str profile => profile = value
        | _ => false) then .ok filled
      else .error (invalid "MODEL_PROFILE_NOT_PERMITTED"
        "modelProfile must be one of the approved model profiles."
        [("modelProfile", modelProfile), ("permitted", .arr ((sorted permitted.dedup).map .str))])

/-- The version the patch asks for, and the installation on it: a version that requests something
else waits for a new approval. -/
def changeVersion (patch : InstallationPatch) (release : AgentRelease) (agent : OwnedAgent) :
    Except PlatformError (AgentRelease × OwnedAgent) :=
  match patch.agentVersion with
  | none => .ok (release, agent)
  | some version =>
    if version = release.version then .ok (release, agent)
    else
      match catalog.releases.find? fun other => other.version = version with
      | none => .error (notFound "Agent version" (agent.agentId ++ "@" ++ version))
      | some next =>
        match catalog.compatibilityIssues next.id with
        | issue :: issues => .error (conflict "INCOMPATIBLE_AGENT" issue
            [("issues", .arr ((issue :: issues).map .str))])
        | [] => .ok (next, { agent with
            agentVersionId := next.id
            needsReapproval := agent.needsReapproval
              || !permissionsMatch agent.approvedPermissions next.permissions })

/-- The approval in the patch: exactly what the version requests, or nothing. -/
def changeApproval (patch : InstallationPatch) (release : AgentRelease) (agent : OwnedAgent) :
    Except PlatformError OwnedAgent :=
  match patch.approvedPermissions with
  | none => .ok agent
  | some approved =>
    if permissionsMatch approved release.permissions then
      .ok { agent with
        approvedPermissions := release.permissions
        approvedVersionId := release.id
        needsReapproval := false }
    else .error (invalid "PERMISSIONS_NOT_APPROVED"
      "Approve exactly the permissions this agent version requests."
      [("requested", release.permissions.value)])

/-- `update_installation`, with the row locked and read. -/
def updateInstallation (patch : InstallationPatch) (agent : OwnedAgent) :
    Except PlatformError OwnedAgent :=
  if agent.version ≠ patch.version then
    .error (conflict "VERSION_CONFLICT" "The installation changed; reload it."
      [("currentVersion", .num agent.version)])
  else
    match catalog.releases.find? fun release => release.id = agent.agentVersionId with
    -- the row's version is there: the column is a foreign key, and the source asserts it
    | none => .error ⟨"INTERNAL", "", 500, []⟩
    | some release => do
      let (release, agent) ← changeVersion catalog patch release agent
      let agent ← changeApproval patch release agent
      let profiles := release.permissions.field "llmProfiles"
      let choices := patch.modelBindings.getD
        (agent.modelBindings.filter fun binding => binding.1 ∈ profiles)
      let bindings ← resolveModelBindings profiles choices
      let config ← validateConfig catalog release.id (patch.config.getD agent.config) bindings
      .ok { agent with
        modelBindings := bindings
        config := config
        enabled := patch.enabled.getD agent.enabled
        version := agent.version + 1 }

end Update

/-! ## Runs and calls -/

/-- What `internal_run` shows of a run. -/
structure RunView where
  installationId : InstallationId
  state : RunState
  currentAttempt : ℕ
  capabilityTokenId : Option TokenId
  cancelRequested : Bool
  permissions : PermissionBlock
  modelBindings : List (String × String)

/-- A run, as `internal_run` shows it. For the record, `seenAt` is the number of the approval that
its creation read. -/
structure ApprovedRun where
  id : RunId
  view : RunView
  seenAt : ℕ

/-- `create_run`: a new run has the installation's approval in it. -/
def createApprovedRun (id : RunId) (agent : OwnedAgent) (seenAt : ℕ) : ApprovedRun where
  id
  view :=
    { installationId := agent.id
      state := .queued
      currentAttempt := 1
      capabilityTokenId := none
      cancelRequested := false
      permissions := agent.approvedPermissions
      modelBindings := agent.modelBindings }
  seenAt

structure TokenClaims extends CapabilityClaims where
  capabilities : List String

/-- A `Grant` that a call of the broker holds. For the record, `seenAt` is that of its run, and
`readAt` the number of the approval that was current when the view was read. -/
structure CapabilityGrant where
  claims : TokenClaims
  run : RunView
  capabilities : List String
  seenAt : ℕ
  readAt : ℕ

/-- `authorize`, of a token that `capability.verify` accepted. -/
def authorizeView (claims : TokenClaims) (allowFinished : Bool) (runs : List ApprovedRun)
    (readAt : ℕ) : Except PlatformError CapabilityGrant :=
  match runs.find? fun run => run.id = claims.runId with
  | none => .error (unauthenticated "A valid capability token is required.")
  | some ⟨_, run, seenAt⟩ =>
    if run.capabilityTokenId ≠ some claims.tokenId ∨ run.currentAttempt ≠ claims.attempt
        ∨ run.installationId ≠ claims.installationId then .error tokenReplaced
    else
      let finished := allowFinished && decide (run.state ∈ RunState.terminalStates)
      if run.state ∉ RunState.activeStates ∧ ¬ finished then .error runNotActive
      else
        let approved := capabilitiesFromPermissions run.permissions run.modelBindings
        .ok ⟨claims, run, claims.capabilities.filter (· ∈ approved), seenAt, readAt⟩

def CapabilityGrant.require (grant : CapabilityGrant) (cap : String) (baseline : Bool) :
    Except PlatformError Unit :=
  if cap ∉ grant.capabilities then
    .error ⟨"CAPABILITY_DENIED", s!"This run is not allowed to use {cap}.", 403,
      [("capability", .str cap)]⟩
  else if ¬ baseline ∧ grant.run.cancelRequested then
    .error ⟨"RUN_CANCELLED", "The run is being cancelled.", 409, []⟩
  else .ok ()

/-- A call that `require` let through. -/
structure AllowedCall where
  grant : CapabilityGrant
  cap : String

/-- One installation, its runs and the calls of the broker for them. `creating` are the creations
that have read the installation, with the number of its approval then. -/
structure Approvals where
  agent : OwnedAgent
  approvals : List Approval
  creating : List (OwnedAgent × ℕ)
  runs : List ApprovedRun
  grants : List CapabilityGrant
  calls : List AllowedCall

namespace Approvals

def start (agent : OwnedAgent) : Approvals := ⟨agent, [agent.approval], [], [], [], []⟩

def current (s : Approvals) : ℕ := s.approvals.length - 1

end Approvals

inductive ApprovalAction where
  | update (patch : InstallationPatch)
  /-- a creation reads the installation -/
  | read
  /-- the `n`th creation inserts its run -/
  | insert (n : ℕ) (id : RunId)
  /-- dispatch, handshake, cancel and the rest, which write only these columns -/
  | change (id : RunId) (state : RunState) (attempt : ℕ) (tokenId : Option TokenId)
      (cancelRequested : Bool)
  | authorize (claims : TokenClaims) (allowFinished : Bool)
  /-- the call with the `n`th grant -/
  | require (n : ℕ) (cap : String) (baseline : Bool)

def ApprovedRun.change (id : RunId) (state : RunState) (attempt : ℕ) (tokenId : Option TokenId)
    (cancelRequested : Bool) (run : ApprovedRun) : ApprovedRun :=
  if run.id = id then
    { run with view := { run.view with
      state := state
      currentAttempt := attempt
      capabilityTokenId := tokenId
      cancelRequested := cancelRequested } }
  else run

def approvalStep (catalog : ReleaseCatalog) (s : Approvals) : ApprovalAction → Option Approvals
  | .update patch =>
    match updateInstallation catalog patch s.agent with
    | .error _ => some s
    | .ok agent => some { s with agent := agent, approvals := s.approvals ++ [agent.approval] }
  | .read => some { s with creating := s.creating ++ [(s.agent, s.current)] }
  | .insert n id =>
    match s.creating[n]? with
    | none => none
    | some (agent, seenAt) =>
      if s.runs.any fun run => run.id = id then none
      else some { s with
        creating := s.creating.eraseIdx n
        runs := s.runs ++ [createApprovedRun id agent seenAt] }
  | .change id state attempt tokenId cancelRequested =>
    let changed := ApprovedRun.change id state attempt tokenId cancelRequested
    some { s with runs := s.runs.map changed }
  | .authorize claims allowFinished =>
    match authorizeView claims allowFinished s.runs s.current with
    | .error _ => some s
    | .ok grant => some { s with grants := s.grants ++ [grant] }
  | .require n cap baseline =>
    match s.grants[n]? with
    | none => none
    | some grant =>
      match grant.require cap baseline with
      | .error _ => some s
      | .ok () => some { s with calls := s.calls ++ [⟨grant, cap⟩] }

def approvalMachine (catalog : ReleaseCatalog) : Machine Approvals ApprovalAction :=
  ⟨fun action s => approvalStep catalog s action⟩

end Crewquarters
