import HubRules.Configuration.Error

/-!
# Build inputs

What the environment variables of a build select: the environment and engine, the
organization, and a few values and paths that override the configuration.
-/

namespace HubRules

/-- The inputs of a build. An input that is not given is `none`. -/
structure BuildInputs where
  environment : Option Environment
  organization : Option String
  /-- Whether URLs lead to the target that all organizations share. -/
  combined : Bool
  /-- The ids of the visualizations to keep. -/
  names : Option (List String)
  configurationFile : Option String
  engine : Option Engine
  jenkinsDirect : Option String
  repoRoot : Option String
  serverCertificate : Option String
  branchName : Option String
  userId : Option Nat
  groupId : Option Nat
  deriving DecidableEq, Repr

namespace BuildInputs

def none : BuildInputs :=
  ⟨.none, .none, false, .none, .none, .none, .none, .none, .none, .none, .none, .none⟩

/-- Reads a numeric id: digits that may have a plus sign, below `2 ^ 32`, with any
blanks around. -/
def readId? (text : Text) : Option Nat :=
  let digits := match Text.trim text with
    | '+' :: rest => rest
    | all => all
  if digits.isEmpty || !digits.all Char.isDigit then .none
  else
    let n := digits.foldl (fun n c => 10 * n + (c.toNat - '0'.toNat)) 0
    if n < Nat.pow 2 32 then some n else .none

/-- Reads a variable that is passed over where it is empty. -/
def readChoice {α : Type} (read : Text → Except ConfigError α) (value : Option String) :
    Except ConfigError (Option α) :=
  match value.filter (· ≠ "") with
  | some text => (read text.toList).map some
  | .none => .ok .none

def readId (name : String) (value : Option String) : Except ConfigError (Option Nat) :=
  match value with
  | .none => .ok .none
  | some text =>
    match readId? text.toList with
    | some id => .ok (some id)
    | .none => .error (.wrongType name .numericId)

/-- The variable that names the configuration file. -/
def configurationVariable : String := "VISUALIZATION_SITE_CONFIGURATION"

def variableNames : List String :=
  ["NODE_ENV", "VISUALIZATION_PROXY", "USER_ID", "GROUP_ID", "VISUALIZATION_ORGANIZATION",
    "VISUALIZATION_COMBINED", "VISUALIZATION_NAMES", configurationVariable, "JENKINS_DIRECT",
    "REPO_ROOT", "SERVER_CERTIFICATE", "BRANCH_NAME"]

def read (lookup : String → Option String) : Except ConfigError BuildInputs := do
  let environment ← readChoice Environment.read (lookup "NODE_ENV")
  let engine ← readChoice Engine.read (lookup "VISUALIZATION_PROXY")
  let userId ← readId "USER_ID" (lookup "USER_ID")
  let groupId ← readId "GROUP_ID" (lookup "GROUP_ID")
  return {
    environment
    organization := lookup "VISUALIZATION_ORGANIZATION"
    combined := lookup "VISUALIZATION_COMBINED" == some "true"
    names := (lookup "VISUALIZATION_NAMES").map fun names =>
      (Text.words names.toList).map String.ofList
    configurationFile := lookup configurationVariable
    engine
    jenkinsDirect := lookup "JENKINS_DIRECT"
    repoRoot := lookup "REPO_ROOT"
    serverCertificate := lookup "SERVER_CERTIFICATE"
    branchName := lookup "BRANCH_NAME"
    userId
    groupId }

end BuildInputs

end HubRules
