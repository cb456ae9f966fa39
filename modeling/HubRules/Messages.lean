import HubRules.Json.Typed
import HubRules.Text.Escaped

/-!
# Messages

The texts of the default locale, by key, and the markup that shows one.
-/

namespace HubRules

/-- Texts by key. -/
structure Messages where
  entries : List (String × String)

namespace Messages

open Json (Reader Fault)

def empty : Messages := ⟨[]⟩

def get? (messages : Messages) (key : String) : Option String := messages.entries.lookup key

/-- Reads texts by key; of two with one key the later one counts. -/
def readTexts (r : Reader) : Except Fault (Messages × Reader) :=
  r.object "a map" (fun (found : Messages) key r => do
    let (text, r) ← r.member Reader.text
    return (⟨(key, text) :: found.entries⟩, r)) empty

/-- Takes one member of a locale; only its messages matter. -/
def readLocaleMember (found : Option Messages) (key : String) (r : Reader) :
    Except Fault (Option Messages × Reader) := do
  if key = "messages" then
    if found.isSome then throw (.mismatch (.duplicate "messages"))
    let (messages, r) ← r.member readTexts
    return (some messages, r)
  else
    return (found, ← r.ignoreMember)

/-- Reads a locale from an object, or from an array that holds its messages. -/
def readLocale (r : Reader) : Except Fault (Messages × Reader) := do
  let r := r.skipBlanks
  match r.rest with
  | '[' :: _ =>
    let (item, behind) ← Reader.nextItem true r.next
    match item with
    | none => return (empty, behind)
    | some r =>
      let (messages, r) ← readTexts r
      return (messages, ← r.endOfFields)
  | _ =>
    let (found, r) ← r.object "struct Locale" readLocaleMember none
    return (found.getD empty, r)

def defaultLocale : String := "en"

/-- Reads the texts of the default locale from a document of all locales. -/
def read (text : Text) : Except Fault Messages :=
  Reader.whole (fun r => r.object "a map" (fun found key r => do
    let (messages, r) ← r.member readLocale
    return (if key = defaultLocale then messages else found, r)) empty) text

/-- The markup that shows the text of a key and lets it be replaced. -/
def markup (messages : Messages) (key : String) : String :=
  let name := String.ofList (Text.escapeHtml key.toList)
  "<span data-message=\"" ++ name ++ "\">" ++ (messages.get? key).getD "" ++ "</span>"

end Messages

end HubRules
