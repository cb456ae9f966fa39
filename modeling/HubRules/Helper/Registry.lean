import HubRules.Helper.Artifact
import HubRules.Helper.UrlPath

/-!
# Registries of helpers

The helpers that templates can call, by name and in the order of their names.
-/

namespace HubRules

/-- Helpers by name, in the order of the names. -/
structure Helpers where
  entries : List (String × Helper)

namespace Helpers

def empty : Helpers := ⟨[]⟩

def insertEntry (name : String) (helper : Helper) :
    List (String × Helper) → List (String × Helper)
  | [] => [(name, helper)]
  | (key, old) :: rest =>
    if name = key then (name, helper) :: rest
    else if name < key then (name, helper) :: (key, old) :: rest
    else (key, old) :: insertEntry name helper rest

/-- Registers a helper, in place of one of the same name. -/
def insert (helpers : Helpers) (name : String) (helper : Helper) : Helpers :=
  ⟨insertEntry name helper helpers.entries⟩

def get? (helpers : Helpers) (name : String) : Option Helper := helpers.entries.lookup name

def contains (helpers : Helpers) (name : String) : Bool := (helpers.get? name).isSome

def names (helpers : Helpers) : List String := helpers.entries.map (·.1)

end Helpers

/-- The helpers of a build, bound to its configuration and engine. -/
def HelperScope.helpers (scope : HelperScope) : Helpers := ⟨[
  ("branch_maps", scope.branchMaps),
  ("jenkins_artifact", scope.artifactPath .artifact),
  ("jenkins_redirect", scope.redirect),
  ("jenkins_report", scope.artifactPath .report),
  ("jenkins_rewrite", scope.artifactRule),
  ("join", fun text => .ok (Helper.join text)),
  ("path", fun text => .ok (Helper.path text)),
  ("port", fun text => .ok (scope.redirectPort text)),
  ("proxy_rewrite", scope.proxyRule),
  ("upstream", scope.serverAddress),
  ("url", Helper.url)]⟩

end HubRules
