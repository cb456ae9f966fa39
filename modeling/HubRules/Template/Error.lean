import HubRules.FileTree.Basic
import HubRules.Helper.Error
import HubRules.Template.Syntax
import HubRules.Text.Escaped

/-!
# Template errors

What can be wrong with the source of a template, and why rendering one stops.
-/

namespace HubRules

/-- What is wrong with a source. -/
inductive Template.SyntaxFault where
  /-- The text does not follow the grammar of templates. -/
  | grammar
  /-- A literal is not JSON. -/
  | invalidParam (text : Text)
  | mismatchedClosing (kind : BlockKind) (opened closed : Text)
  deriving DecidableEq, Repr

def Template.SyntaxFault.describe : Template.SyntaxFault → String
  | .grammar => "invalid handlebars syntax"
  | .invalidParam text => s!"invalid parameter {String.ofList (Text.quoted text)}"
  | .mismatchedClosing kind opened closed =>
    let word := match kind with
      | .section | .verbatim => "helper"
      | .fallback | .decorator => "decorator"
    s!"{word} {String.ofList (Text.quoted opened)} was opened, but "
      ++ s!"{String.ofList (Text.quoted closed)} is closing"

/-- Why the rendering of an element stops. -/
inductive Template.RenderFault where
  | missingParam (helper : Text) (index : Nat)
  | missingNamedParam (helper name : Text)
  | helperNotFound (name : Text)
  | partialNotFound (name : Text)
  | decoratorNotFound (name : Text)
  | invalidIndex (name : String)
  | invalidLogLevel (level : String)
  deriving DecidableEq, Repr

/-- The words for why the rendering of an element stops. -/
def Template.RenderFault.describe : Template.RenderFault → String
  | .missingParam helper index =>
    s!"Helper/Decorator {String.ofList helper} param at index {index} required but not found"
  | .missingNamedParam helper name =>
    s!"Helper/Decorator {String.ofList helper} param with name {String.ofList name} "
      ++ "required but not found"
  | .helperNotFound name => s!"Helper not found {String.ofList name}"
  | .partialNotFound name => s!"Partial not found {String.ofList name}"
  | .decoratorNotFound name => s!"Decorator not found {String.ofList name}"
  | .invalidIndex name => s!"Cannot access array/vector with string index, {name}"
  | .invalidLogLevel level => s!"Invalid logging level: {level}"

/-- Why a template cannot be read or rendered. -/
inductive TemplateError where
  /-- The source is malformed, on a line if that is known. -/
  | invalidSource (line : Option Nat) (fault : Template.SyntaxFault)
  /-- A variable has no value, and rendering is strict. -/
  | unresolvedKey (name : Text)
  /-- A helper stands where a value is expected. -/
  | helperAsVariable (name : Text)
  /-- An element cannot be rendered, at a place once that is known. -/
  | render (place : Option Template.Position) (fault : Template.RenderFault)
  | unreadable (path : String) (cause : FileError)
  | helper (name : Text) (cause : HelperError)
  deriving DecidableEq, Repr

namespace TemplateError

def message : TemplateError → String
  | .invalidSource (some line) fault =>
    s!"Invalid template syntax on line {line}: {fault.describe}"
  | .invalidSource none fault => s!"Invalid template syntax: {fault.describe}"
  | .unresolvedKey name => s!"Unresolved key '{String.ofList name}'"
  | .helperAsVariable name => s!"Helper '{String.ofList name}' must be used as a section"
  | .render (some place) fault =>
    s!"Error rendering \"Unnamed template\" line {place.line}, col {place.column}: "
      ++ fault.describe
  | .render none fault => fault.describe
  | .unreadable path cause => s!"Cannot read template {path}: {cause.message}"
  | .helper name cause => s!"Helper '{String.ofList name}' failed: {cause.message}"

/-- The error at a place, if it has none yet. -/
def located (place : Template.Position) : TemplateError → TemplateError
  | .render none fault => .render (some place) fault
  | other => other

end TemplateError

end HubRules
