import HubRules.Configuration.Error

/-!
# Command lines

The commands of the program with their options, and the reading of a command line.
An option may be given once, with its value behind an equals sign or as the next
argument.
-/

namespace HubRules

/-- Which form of the configuration is printed. -/
inductive PrintedForm where
  | display
  | proxy
  | api
  deriving DecidableEq, Repr

/-- What a command does. -/
inductive Action where
  | build
  | render (template : String)
  | maps
  /-- Lists the visualizations that are built, or those that get proxy rules. -/
  | names (proxied : Bool)
  | config (form : PrintedForm)
  deriving DecidableEq, Repr

/-- The options that every command has. They take precedence over the environment. -/
structure ProjectOptions where
  root : String
  environment : Option Environment
  engine : Option Engine
  organization : Option String
  combined : Bool
  strict : Bool
  deriving DecidableEq, Repr

/-- A command line that was understood. -/
inductive CommandLine where
  | help
  | version
  | run (action : Action) (options : ProjectOptions)
  deriving DecidableEq, Repr

namespace CommandLine

def commandNames : List String := ["build", "render", "maps", "names", "config"]

/-- An argument of a command. -/
inductive Argument where
  | flag (name : String)
  | option (name value : String)
  | operand (value : String)
  | help
  deriving DecidableEq, Repr

/-- The flags of a command, besides the one for verbose logs. -/
def flagsOf (command : String) : List String :=
  ["combined", "strict"] ++ if command = "names" then ["proxied"] else []

def optionsOf (command : String) : List String :=
  ["root", "env", "proxy", "organization"] ++ if command = "config" then ["mode"] else []

/-- Whether an argument can be the value of the option before it. -/
def isValue (argument : String) : Bool :=
  argument = "-" || argument.toList.head? != some '-'

def readArguments (command : String) : List String → Option (List Argument)
  | [] => some []
  | "--" :: rest => some (rest.map .operand)
  | argument :: rest =>
    match argument.toList with
    | '-' :: '-' :: long =>
      let (name, value?) := match Text.cut '=' long with
        | some (name, value) => (String.ofList name, some (String.ofList value))
        | none => (String.ofList long, none)
      if (optionsOf command).contains name then
        match value?, rest with
        | some value, rest => (readArguments command rest).map (.option name value :: ·)
        | none, value :: rest =>
          if isValue value then (readArguments command rest).map (.option name value :: ·)
          else none
        | none, [] => none
      else if value?.isSome then none
      else if name = "help" then some [.help]
      else if name = "verbose" || (flagsOf command).contains name then
        (readArguments command rest).map (.flag name :: ·)
      else none
    | ['-', 'v'] => (readArguments command rest).map (.flag "verbose" :: ·)
    | '-' :: 'h' :: _ => some [.help]
    | '-' :: _ :: _ => none
    | _ => (readArguments command rest).map (.operand argument :: ·)

/-- What the arguments of a command say. -/
structure Request where
  flags : List String := []
  root : Option String := none
  environment : Option Environment := none
  engine : Option Engine := none
  organization : Option String := none
  form : Option PrintedForm := none
  operand : Option String := none
  help : Bool := false

/-- The engine of a name; case does not matter. -/
def engineNamed? (name : String) : Option Engine :=
  Engine.ofName? (String.ofList (name.toList.map Char.toLower))

def formNamed? (name : String) : Option PrintedForm :=
  match name with
  | "display" => some .display
  | "proxy" => some .proxy
  | "api" => some .api
  | _ => none

def once {α : Type} (said : Option α) (value? : Option α) : Option (Option α) :=
  if said.isSome then none else value?.map some

def Request.take (request : Request) : Argument → Option Request
  | .flag name =>
    if request.flags.contains name then none
    else some { request with flags := name :: request.flags }
  | .option "root" value => do
    let root := if value.isEmpty then none else some value
    return { request with root := ← once request.root root }
  | .option "env" value => do
    let environment ← once request.environment (Environment.ofName? value)
    return { request with environment }
  | .option "proxy" value => do
    return { request with engine := ← once request.engine (engineNamed? value) }
  | .option "organization" value => do
    return { request with organization := ← once request.organization (some value) }
  | .option "mode" value => do
    return { request with form := ← once request.form (formNamed? value) }
  | .option _ _ => none
  | .operand value => do
    return { request with operand := ← once request.operand (some value) }
  | .help => some { request with help := true }

/-- The options of a request; the root is the current folder unless it says so. -/
def Request.options (request : Request) : ProjectOptions where
  root := request.root.getD "."
  environment := request.environment
  engine := request.engine
  organization := request.organization
  combined := request.flags.contains "combined"
  strict := request.flags.contains "strict"

/-- The action of a command. Only rendering has an operand, and needs it. -/
def Request.action? (request : Request) (command : String) : Option Action :=
  match command, request.operand with
  | "build", none => some .build
  | "render", some template => some (.render template)
  | "maps", none => some .maps
  | "names", none => some (.names (request.flags.contains "proxied"))
  | "config", none => some (.config (request.form.getD .display))
  | _, _ => none

/-- Reads the arguments after the name of a command. -/
def readCommand? (command : String) (arguments : List String) : Option CommandLine := do
  if !commandNames.contains command then none
  let arguments ← readArguments command arguments
  let request ← arguments.foldlM Request.take {}
  if request.help then return .help
  return .run (← request.action? command) request.options

/-- Reads a command line. Before the command only the flag for verbose logs may
stand. -/
def read? (verbose : Bool) : List String → Option CommandLine
  | [] => none
  | "help" :: rest => if rest.all commandNames.contains then some .help else none
  | argument :: rest =>
    if argument = "-v" || argument = "--verbose" then
      if verbose then none else read? true rest
    else if argument = "--help" || argument = "-h" then some .help
    else if argument = "--version" || argument = "-V" then some .version
    else readCommand? argument rest

def ofArguments? (arguments : List String) : Option CommandLine := read? false arguments

end CommandLine

end HubRules
