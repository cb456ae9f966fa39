import HubRules.Helper.Scope

/-!
# Artifacts of jobs

Artifacts are addressed as `job/branch/file`. With a direct artifact server the
files lie in a tree of that form; otherwise requests go to the job server.
-/

namespace HubRules

/-- A kind of artifact. -/
inductive ArtifactKind where
  /-- The report that a job publishes. -/
  | report
  /-- A file kept by the last stable build of a job. -/
  | artifact
  deriving DecidableEq, Repr

/-- The parts of `job/branch/file`. -/
structure JobPath where
  job : Text
  branch : Text
  file : Text
  deriving DecidableEq, Repr

namespace JobPath

/-- Reads `job/branch/file`; the file may be left out. -/
def read? (text : Text) : Option JobPath := do
  let (job, rest) ← Text.cut '/' text
  let (branch, file) := (Text.cut '/' rest).getD (rest, [])
  return ⟨job, branch, file⟩

end JobPath

/-- The routing group of the artifacts of a job. -/
def RoutingGroup.ofJob (job : Text) : RoutingGroup :=
  if job = "visualization-site".toList then .hub
  else if "prediction".toList.isPrefixOf job then .prediction
  else .visualization

namespace HelperScope

def jobServerPort : Text := "8080".toList

/-- Whether artifacts come from a direct server. -/
def servesDirectly (scope : HelperScope) : Bool := scope.config.isSet "jenkins_direct"

/-- Reads a job path and writes its references for the engine. The routing group
is that of the job as it stands in the text. -/
def jobPath (scope : HelperScope) (text : Text) : Except HelperError JobPath :=
  match JobPath.read? text with
  | none => .error (.arguments .jobPath text)
  | some parts => do
    let group := RoutingGroup.ofJob parts.job
    let job ← scope.references group parts.job
    let branch ← scope.references group parts.branch
    let file ← scope.references group parts.file
    return ⟨job, branch, file⟩

def artifactPath (scope : HelperScope) (kind : ArtifactKind) (text : Text) :
    Except HelperError Text := do
  let ⟨job, branch, file⟩ ← scope.jobPath text
  if scope.servesDirectly then return job ++ '/' :: branch ++ '/' :: file
  let server ← scope.configText "jenkins_path"
  return match kind with
    | .report =>
      server ++ "/job/build-".toList ++ job ++ "/job/".toList ++ branch
        ++ "/Visualization/".toList ++ file
    | .artifact =>
      server ++ "/job/create-".toList ++ job ++ "/job/".toList ++ branch
        ++ "/lastStableBuild/artifact/".toList ++ file

/-- The site of a path that begins with a site and a branch, the routing group of
the site, and what follows both. -/
def sitePrefix? (path : Text) : Option (Text × RoutingGroup × Text) :=
  let of (site : Text) (group : RoutingGroup) : Option (Text × RoutingGroup × Text) := do
    let rest ← Text.dropStart? (site ++ "-site/".toList) path
    let branch := rest.takeWhile (· != '/')
    if branch.isEmpty then none else some (site, group, rest.drop branch.length)
  (of "prediction".toList .prediction).orElse fun _ => of "visualization".toList .hub

/-- Where a path lies on the direct server: a site below its hub, prediction
files below their root. -/
def directPath (scope : HelperScope) (path : Text) : Except HelperError Text := do
  let sitePath ← match sitePrefix? path with
    | some (site, group, rest) => do
      let start ← scope.references group ("$hub/".toList ++ site)
      pure (start ++ rest)
    | none => pure path
  return if "prediction/".toList.isPrefixOf sitePath then '/' :: sitePath else sitePath

/-- Whether the direct server's tree does not already serve a path. -/
def needsDirectRule (path tag : Text) : Bool :=
  "prediction/".toList.isPrefixOf path || "prediction-site/".toList.isPrefixOf path
    || !tag.isEmpty

/-- A rule that sends the requests of a pattern to artifacts. With a direct
server, only prediction files and rules with flags need one. -/
def artifactRule (scope : HelperScope) (text : Text) : Except HelperError Text :=
  match RequestRule.arguments 3 text with
  | pattern :: path :: rest =>
    let tag := rest.headD []
    let flags := RequestRule.readFlags tag
    if scope.servesDirectly then
      if needsDirectRule path tag then do
        let target ← scope.directPath path
        match scope.engine with
        | .nginx => return RequestRule.nginx pattern (.path target)
        | .httpd => return RequestRule.httpd pattern target (flags ++ ["END".toList])
      else .ok []
    else
      match scope.engine with
      | .nginx => .ok (RequestRule.nginx pattern (.path path))
      | .httpd => do
        let host ← scope.configText "jenkins_host"
        let url := "http://".toList ++ host ++ ':' :: jobServerPort ++ path
        return RequestRule.httpd pattern url (flags ++ [['P']])
  | _ => .error (.arguments .artifactRule text)

end HelperScope

end HubRules
