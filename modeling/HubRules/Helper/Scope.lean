import HubRules.Helper.Error
import HubRules.Reference
import HubRules.Url.Parser

/-!
# Rules from a configuration

The rules that send requests of a pattern elsewhere. For nginx a rule is one directive with a
trailing flag, followed by a second one where the request is proxied; for httpd it is a condition
and a rule with bracketed flags. The helpers write them for the engine of a build and answer from
the configuration with its placeholders intact.
-/

namespace HubRules

/-- Where nginx sends a request. -/
inductive RequestTarget where
  | path (path : Text)
  | proxy (url : Url)
  | redirect (path : Text)
  deriving DecidableEq, Repr

namespace RequestRule

def nginx (pattern : Text) : RequestTarget → Text
  | .path path => "rewrite ".toList ++ pattern ++ ' ' :: path ++ " break;".toList
  | .proxy url =>
    "rewrite ".toList ++ pattern ++ ' ' :: url.pathText ++ " break;\n    proxy_pass ".toList
      ++ url.origin ++ [';']
  | .redirect path => "rewrite ".toList ++ pattern ++ ' ' :: path ++ " permanent;".toList

/-- The httpd condition and rule of a pattern, a path and flags. -/
def httpd (pattern path : Text) (flags : List Text) : Text :=
  "RewriteCond %\x7bREQUEST_URI\x7d ".toList ++ pattern ++ "\n    RewriteRule ^ ".toList
    ++ Reference.renumber path ++ " [".toList ++ Text.join [','] flags ++ [']']

/-- The flags of a bracketed tag; an empty tag has none. -/
def readFlags (tag : Text) : List Text :=
  if tag.isEmpty then [] else Text.split ',' (tag.drop 1).dropLast

/-- The first parts of a text between spaces. -/
def arguments (count : Nat) (text : Text) : List Text := (Text.split ' ' text).take count

end RequestRule

/-! ## Helpers -/

/-- What the helpers of one build answer from. -/
structure HelperScope where
  config : Configuration
  engine : Engine

namespace HelperScope

/-- The named references of a text, written for the engine. -/
def references (scope : HelperScope) (group : RoutingGroup) (text : Text) :
    Except HelperError Text :=
  (Reference.write scope.config scope.engine group text).mapError .configuration

/-- The text that a configuration key must hold. -/
def configText (scope : HelperScope) (key : String) : Except HelperError Text :=
  (scope.config.text key).map String.toList |>.mapError .configuration

/-- The address of a server and a port number with a colon before it: a variable for
nginx, the server's host and the number for httpd. -/
def serverAddress (scope : HelperScope) (text : Text) : Except HelperError Text :=
  match scope.engine with
  | .nginx => .ok ('$' :: text)
  | .httpd => do
    let (server, number) := (Text.cut ':' text).getD (text, [])
    let host ← scope.configText (String.ofList server ++ "_host")
    return if number.isEmpty then host else host ++ ':' :: number

/-- Whether redirects show port numbers, in the engine's words, or the suffix of a port
number where they do. -/
def redirectPort (scope : HelperScope) (text : Text) : Text :=
  let visible := scope.config.isSet "proxy_port_in_redirect"
  if text.isEmpty then
    match scope.engine with
    | .nginx => (if visible then "on" else "off").toList
    | .httpd => (if visible then "On" else "Off").toList
  else if visible then ':' :: text else []

/-- A rule that proxies the requests of a pattern to a URL. -/
def proxyRule (scope : HelperScope) (text : Text) : Except HelperError Text :=
  match RequestRule.arguments 3 text with
  | pattern :: target :: rest =>
    match scope.engine with
    | .nginx => do
      let url ← (Url.parse target).mapError (.proxyTarget target)
      return RequestRule.nginx pattern (.proxy url)
    | .httpd =>
      .ok (RequestRule.httpd pattern target (RequestRule.readFlags (rest.headD []) ++ [['P']]))
  | _ => .error (.arguments .proxyRule text)

/-- A permanent redirect of the requests of a pattern. -/
def redirect (scope : HelperScope) (text : Text) : Except HelperError Text :=
  match RequestRule.arguments 2 text with
  | [pattern, path] =>
    match scope.engine with
    | .nginx => .ok (RequestRule.nginx pattern (.redirect path))
    | .httpd => .ok (RequestRule.httpd pattern path [['L'], "R=301".toList])
  | _ => .error (.arguments .redirectRule text)

/-- The branch routing of a group: the directives that the configuration gives
for nginx, and one map declaration for every entry of the table for httpd. -/
def branchMaps (scope : HelperScope) (text : Text) : Except HelperError Text := do
  let group ← (RoutingGroup.read text).mapError .configuration
  match scope.engine with
  | .nginx => return (scope.config.textOrEmpty (group.name ++ "_branch")).toList
  | .httpd =>
    let table ← (scope.config.routingTable group).mapError .configuration
    if table.isEmpty then return []
    let folder ← scope.configText "branch_maps_path"
    return Text.join ['\n'] (table.entries.map fun (entry, _) =>
      let name := (table.mapName entry).toList
      "RewriteMap ".toList ++ name ++ " txt:".toList ++ folder ++ '/' :: name ++ ".txt".toList)

end HelperScope

end HubRules
