/-!
# Engines, environments and routing groups

The closed sets that a build branches on, with the names they go by, and what each engine
logs in each environment.
-/

namespace HubRules

/-- The proxy that rules are compiled for. -/
inductive Engine where
  /-- Ordered rules with trailing flags; maps are part of the rules. -/
  | nginx
  /-- Pairs of a condition and a rule; maps are files beside the rules. -/
  | httpd
  deriving DecidableEq, Repr

/-- Where a build is deployed. -/
inductive Environment where
  | test
  | development
  | production
  deriving DecidableEq, Repr

/-- A class of traffic with a mapping table of its own. -/
inductive RoutingGroup where
  | hub
  | visualization
  | prediction
  deriving DecidableEq, Repr

namespace Engine

/-- The engine that the configuration flag for nginx selects. -/
def ofFlag (nginx : Bool) : Engine := if nginx then .nginx else .httpd

/-- The name of an engine, which is also part of template paths. -/
def name : Engine → String
  | .nginx => "nginx"
  | .httpd => "httpd"

/-- Whether the engine reads its maps from files. -/
def usesMapFiles : Engine → Bool
  | .nginx => false
  | .httpd => true

def ofName? (name : String) : Option Engine :=
  if name = "nginx" then some .nginx
  else if name = "httpd" ∨ name = "apache" then some .httpd
  else none

end Engine

namespace Environment

def name : Environment → String
  | .test => "test"
  | .development => "development"
  | .production => "production"

def all : List Environment := [.test, .development, .production]

def ofName? (name : String) : Option Environment := all.find? (·.name == name)

end Environment

namespace RoutingGroup

/-- The name of a group, which is its key in the mapping tables. -/
def name : RoutingGroup → String
  | .hub => "hub"
  | .visualization => "visualization"
  | .prediction => "prediction"

/-- All groups, in the order of their map files. -/
def all : List RoutingGroup := [.hub, .visualization, .prediction]

def ofName? (name : String) : Option RoutingGroup := all.find? (·.name == name)

end RoutingGroup

namespace LogLevel

def errors : Engine → Option Environment → String
  | .nginx, some .test => "notice"
  | .nginx, some .development => "warn"
  | .httpd, some .test => "trace4"
  | .httpd, some .development => "debug"
  | _, _ => "error"

/-- Whether and how closely the work of the rules is logged. -/
def rules : Engine → Option Environment → String
  | .nginx, some .test => "on"
  | .httpd, some .test => "trace6"
  | .httpd, some .development => "trace3"
  | .httpd, some .production => "warn"
  | _, _ => "off"

end LogLevel

end HubRules
