import Mathlib.Data.String.Basic
import Crewquarters.Json

/-!
# Permissions and capabilities

The `permissions` block of an agent manifest as `agent-manifest.schema.json` accepts it, the
comparison of an approved block with a requested one in `routers/agents.py`, and the capability
strings of a run's token in `capability.py`.
-/

namespace Crewquarters

/-! ## The schema -/

/-- A pattern's `$` also matches before a newline at the end. -/
def withoutNewline (cs : List Char) : List Char :=
  if cs.getLast? = some '\n' then cs.dropLast else cs

/-- `[a-z][a-z0-9-]*`. -/
def isSlug : List Char → Bool
  | [] => false
  | c :: cs => c.isLower && cs.all fun c => c.isLower || c.isDigit || c = '-'

/-- `^(local|openai|anthropic)\.[a-z][a-z0-9-]*(\.[a-z][a-z0-9-]*)?$`. -/
def profilePattern (profile : String) : Bool :=
  let provider (cs : List Char) : Bool :=
    cs = "local".toList || cs = "openai".toList || cs = "anthropic".toList
  match (withoutNewline profile.toList).splitOn '.' with
  | [source, family] => provider source && isSlug family
  | [source, family, variant] => provider source && isSlug family && isSlug variant
  | _ => false

/-- `^[a-z][a-z0-9-]{1,62}$`. -/
def agentIdPattern (agentId : String) : Bool :=
  let cs := withoutNewline agentId.toList
  isSlug cs && 2 ≤ cs.length && cs.length ≤ 63

namespace Json

/-- The texts in a list; `[]` for a missing or other value. -/
def texts : Option Json → List String
  | some (.arr xs) => xs.filterMap fun
    | .str s => some s
    | _ => none
  | _ => []

/-- A list of distinct texts that all pass `item`. -/
def isTextList (item : String → Bool) : Json → Bool
  | .arr xs => (xs.all fun
      | .str s => item s
      | _ => false) && (texts (some (.arr xs))).Nodup
  | _ => false

/-- `properties[key]`, which may be missing. -/
def property (key : String) (check : Json → Bool) (value : Json) : Bool :=
  (value.get? key).all check

/-- An object whose keys are among `allowed`, with all of `required`. -/
def hasKeys (allowed required : List String) : Json → Bool
  | .obj kvs => (kvs.all fun kv => kv.1 ∈ allowed)
      && required.all fun key => (Json.get? key (.obj kvs)).isSome
  | _ => false

end Json

/-- `properties.connectors`. -/
def acceptsConnectors (value : Json) : Bool :=
  value.hasKeys ["google", "twilio", "sip", "github"] []
    && value.property "google" (Json.isTextList (· ∈ ["gmail.readonly", "spreadsheets"]))
    && value.property "twilio" (Json.isTextList (· = "call.fixed_script"))
    && value.property "sip" (Json.isTextList (· = "call.conversational"))
    && value.property "github" (Json.isTextList (· ∈ ["pull_requests.read", "pull_requests.write"]))

/-- `$defs.permissions`. -/
def acceptsPermissions (value : Json) : Bool :=
  value.hasKeys
      ["llmProfiles", "knowledge", "connectors", "cloudProviders", "startsAgents", "userInput"]
      ["llmProfiles", "knowledge", "connectors", "cloudProviders", "userInput"]
    && value.property "llmProfiles" (Json.isTextList profilePattern)
    && value.property "knowledge" (Json.isTextList (· = "config"))
    && value.property "connectors" acceptsConnectors
    && value.property "cloudProviders" (Json.isTextList (· ∈ ["openai", "anthropic"]))
    && value.property "startsAgents" (fun v =>
      v.isTextList agentIdPattern && (Json.texts (some v)).length ≤ 10)
    && value.property "userInput" (fun | .bool _ => true | _ => false)

structure PermissionBlock where
  value : Json
  accepted : acceptsPermissions value = true

namespace PermissionBlock

variable (p : PermissionBlock)

/-- The texts of a field: `get(key) or []`, and `get(key, [])` where the schema requires the
field. -/
def field (key : String) : List String := Json.texts (p.value.get? key)

/-- The same of a field of `get("connectors") or {}`. -/
def connector (key : String) : List String :=
  Json.texts ((p.value.get? "connectors").bind fun connectors => connectors.get? key)

def userInput : Bool := (p.value.get? "userInput").any Json.truthy

end PermissionBlock

/-! ## Approval and capabilities -/

/-- `sorted` of texts. -/
def sorted (texts : List String) : List String := texts.insertionSort (· ≤ ·)

/-- What `_normalize_permissions` returns. -/
structure NormalPermissions where
  llmProfiles : List String
  knowledge : List String
  google : List String
  twilio : List String
  github : List String
  cloudProviders : List String
  startsAgents : List String
  userInput : Bool
deriving DecidableEq

def normalizePermissions (perms : PermissionBlock) : NormalPermissions where
  llmProfiles := sorted (perms.field "llmProfiles")
  knowledge := sorted (perms.field "knowledge")
  google := sorted (perms.connector "google")
  twilio := sorted (perms.connector "twilio")
  github := sorted (perms.connector "github")
  cloudProviders := sorted (perms.field "cloudProviders")
  startsAgents := sorted (perms.field "startsAgents")
  userInput := perms.userInput

def permissionsMatch (approved requested : PermissionBlock) : Bool :=
  normalizePermissions approved = normalizePermissions requested

/-- What `capabilities_from_permissions` adds to its set. -/
def addedCapabilities (permissions : PermissionBlock) (modelBindings : List (String × String)) :
    List String :=
  ((permissions.field "llmProfiles").map fun profile =>
      "llm.profile:" ++ (modelBindings.lookup profile).getD profile)
    ++ (permissions.field "knowledge").map ("knowledge.search:" ++ ·)
    ++ (permissions.connector "google").map ("google." ++ ·)
    ++ (permissions.connector "twilio").map ("twilio." ++ ·)
    ++ (permissions.connector "sip").map ("sip." ++ ·)
    ++ (permissions.connector "github").map ("github." ++ ·)
    ++ (permissions.field "startsAgents").map ("agents.start:" ++ ·)
    ++ (permissions.field "cloudProviders").map ("cloud." ++ ·)
    ++ (if permissions.userInput then ["user_input"] else [])
    ++ ["events.write", "idempotency"]

/-- The capability strings of an approved block, under the run's model bindings. -/
def capabilitiesFromPermissions (permissions : PermissionBlock)
    (modelBindings : List (String × String)) : List String :=
  sorted (addedCapabilities permissions modelBindings).dedup

end Crewquarters
