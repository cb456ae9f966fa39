import HubRules.Helper.Error
import HubRules.Reference
import HubRules.Url.Parser

/-!
# Paths of URLs

The helpers that take a path out of a URL, and the one that drops a trailing
separator.
-/

namespace HubRules.Helper

/-- The path of a URL. An absolute path stands for itself; what is neither gives
the root. -/
def path (text : Text) : Text :=
  match text with
  | '/' :: '/' :: _ => ['/']
  | '/' :: _ => text
  | _ =>
    match Url.parse text with
    | .ok url => url.pathText
    | .error _ => ['/']

/-- An httpd variable at the head of a text whose braces were percent-encoded:
what stood between them, and the length of the whole. -/
def encodedVariable? (text : Text) : Option (Text × Nat) := do
  let rest ← Text.dropStart? "%%7BENV:MATCH_".toList text
  let name := rest.takeWhile Reference.isNameChar
  if name.isEmpty then none
  let _ ← Text.dropStart? "%7D".toList (rest.drop name.length)
  return ("ENV:MATCH_".toList ++ name, "%%7BENV:MATCH_".length + name.length + "%7D".length)

/-- The text with encoded httpd variables restored. A slash before one that
begins the text is dropped. -/
def restoreVariables (text : Text) : Text :=
  let write (variable_ : Text) : Text := "%\x7b".toList ++ variable_ ++ ['\x7d']
  let body := match text with
    | '/' :: rest => if (encodedVariable? rest).isSome then rest else text
    | _ => text
  Text.replaceTokens encodedVariable? write body

/-- The path of `host/rest`: the rest is resolved against the host, a doubled
slash is collapsed once, and references keep their form. -/
def url (text : Text) : Except HelperError Text := do
  let (host, rest) := (Text.cut '/' text).getD (text, [])
  let server := "http://".toList ++ host
  let base ← (Url.parse server).mapError (.server host)
  let rest := Text.replaceFirst server [] rest
  let resolved ← (base.join rest).mapError (.resolution rest server)
  let path := Text.replaceFirst "//".toList ['/'] resolved.pathText
  let path := match path with
    | '/' :: '$' :: more => '$' :: more
    | other => other
  return restoreVariables path

/-- The text without its last character. -/
def join (text : Text) : Text := text.dropLast

end HubRules.Helper
