import HubRules.Configuration.Basic

/-!
# The organization placeholder

URLs of the configuration hold `$organization` where an organization's id goes.
What stands for it depends on who reads the URL; a slash before the placeholder
goes with it where the placeholder is removed.
-/

namespace HubRules

/-- What stands for the placeholder. -/
inductive Placeholder where
  /-- The id of an organization. -/
  | organization (id : Text)
  /-- The target that all organizations share. -/
  | combined
  /-- Nothing, and no slash before it. -/
  | remove
  /-- A fixed text in place of the placeholder and a slash before it. -/
  | literal (text : Text)
  deriving DecidableEq, Repr

namespace Placeholder

/-- The id that stands for all organizations. -/
def combinedId : String := "combined"

def mark : Text := "$organization".toList

/-- A placeholder at the head of a text: whether a slash is before it, and the
length of both. -/
def find? (text : Text) : Option (Bool × Nat) :=
  if mark.isPrefixOf text then some (false, mark.length)
  else if ('/' :: mark).isPrefixOf text then some (true, mark.length + 1)
  else none

/-- What stands for a placeholder, with or without a slash before it. -/
def write (mode : Placeholder) (slash : Bool) : Text :=
  let kept : Text := if slash then ['/'] else []
  match mode with
  | .organization id => kept ++ id
  | .combined => kept ++ combinedId.toList
  | .remove => []
  | .literal text => text

def apply (mode : Placeholder) (text : Text) : Text := Text.replaceTokens find? mode.write text

/-- The value of a key with the placeholders of a URL replaced. -/
def resolveValue (mode : Placeholder) (key : String) (value : Json) : Json :=
  if Configuration.isUrlKey key then
    match value with
    | .string s => .string (String.ofList (mode.apply s.toList))
    | other => other
  else value

end Placeholder

/-- The configuration with the placeholder replaced in every URL. -/
def Configuration.resolveUrls (config : Configuration) (mode : Placeholder) : Configuration :=
  ⟨config.members.map fun (key, value) => (key, mode.resolveValue key value)⟩

end HubRules
