import HubRules.Configuration.Error
import HubRules.Json.Parser

/-!
# The hub configuration

A flat JSON object, most of whose keys hold texts that templates insert. Setting
a key gives a new configuration; the order of keys is kept.
-/

namespace HubRules

/-- A configuration: its keys and values in order. -/
structure Configuration where
  members : Members

namespace Configuration

def empty : Configuration := ⟨[]⟩

def read (text : Text) : Except ConfigError Configuration :=
  match Json.parse text with
  | .error fault => .error (.malformed fault)
  | .ok (.object members) => .ok ⟨members⟩
  | .ok _ => .error .notAnObject

def toJson (config : Configuration) : Json := .object config.members

def get? (config : Configuration) (key : String) : Option Json := config.members.get? key

/-- The configuration with a key set to a value. -/
def set (config : Configuration) (key : String) (value : Json) : Configuration :=
  ⟨config.members.set key value⟩

theorem get?_set (config : Configuration) (name key : String) (value : Json) :
    (config.set name value).get? key = if key = name then some value else config.get? key :=
  Members.get?_set config.members name key value

/-- The text that a key must hold; `null` counts as absent. -/
def text (config : Configuration) (key : String) : Except ConfigError String :=
  match config.get? key with
  | some (.string s) => .ok s
  | some .null | none => .error (.missingKey key)
  | some _ => .error (.wrongType key .text)

/-- The text of a key, empty where there is none. -/
def textOrEmpty (config : Configuration) (key : String) : String :=
  ((config.get? key).bind Json.string?).getD ""

/-- Whether a key holds something that counts as true. -/
def isSet (config : Configuration) (key : String) : Bool :=
  (config.get? key).any Json.isTruthy

/-! What is read of a key depends on its value only. -/

theorem text_of_get? {config : Configuration} {key value : String}
    (h : config.get? key = some (.string value)) : config.text key = .ok value := by
  rw [text, h]

theorem text_congr {config other : Configuration} {key : String}
    (h : config.get? key = other.get? key) : config.text key = other.text key := by
  rw [text, text, h]

theorem textOrEmpty_congr {config other : Configuration} {key : String}
    (h : config.get? key = other.get? key) : config.textOrEmpty key = other.textOrEmpty key := by
  rw [textOrEmpty, textOrEmpty, h]

theorem isSet_congr {config other : Configuration} {key : String}
    (h : config.get? key = other.get? key) : config.isSet key = other.isSet key := by
  rw [isSet, isSet, h]

/-- Whether a key is named as a URL. -/
def isUrlKey (key : String) : Bool := "_url".toList.isSuffixOf key.toList

/-- The keys that hold the text of a URL, in order. -/
def urlKeys (config : Configuration) : List String :=
  (config.members.filter fun (key, value) => isUrlKey key && value.string?.isSome).map (·.1)

/-- Host name and domain of a key: its text before and after the first dot. -/
def hostParts (config : Configuration) (key : String) : Except ConfigError (String × String) := do
  let host ← config.text key
  if host.isEmpty then throw (.emptyHost key)
  match Text.cut '.' host.toList with
  | some (name, domain) => return (String.ofList name, String.ofList domain)
  | none => return (host, "")

end Configuration

end HubRules
