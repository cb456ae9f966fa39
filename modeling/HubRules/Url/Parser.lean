import HubRules.Text.Unicode
import HubRules.Url.Host

/-!
# Reading URLs

A text is trimmed, freed of tabs and line ends, and read part by part: scheme,
authority, path, query and fragment. Relative texts are resolved against a base.
Segments `.` and `..` are resolved while the path is read.
-/

namespace HubRules.Url

/-! ## What each part encodes -/

/-- Encoded in a fragment. -/
def inFragment (c : Char) : Bool := " \"<>`".toList.contains c

/-- Encoded in a path. -/
def inPath (c : Char) : Bool := inFragment c || "#?\x7b\x7d".toList.contains c

/-- Encoded in a user name or password. -/
def inUser (c : Char) : Bool := inPath c || "/:;=@[\\]^|".toList.contains c

/-- Encoded in a query; a special scheme encodes the apostrophe as well. -/
def inQuery (special : Bool) (c : Char) : Bool :=
  " \"#<>".toList.contains c || (special && c == '\'')

/-! ## Paths -/

def isSlash (special : Bool) (c : Char) : Bool := c == '/' || (special && c == '\\')

def splitSlashes (special : Bool) (text : Text) : List Text :=
  Text.split '/' (text.map fun c => if isSlash special c then '/' else c)

/-- Whether a segment stands for its own directory. -/
def isSingleDot (segment : Text) : Bool :=
  [".", "%2e"].any fun s => s.toList == Text.lowerAscii segment

/-- Whether a segment stands for the directory above. -/
def isDoubleDot (segment : Text) : Bool :=
  ["..", ".%2e", "%2e.", "%2e%2e"].any fun s => s.toList == Text.lowerAscii segment

/-- A letter and a colon, or a bar in its place. -/
def isDriveLetter (segment : Text) : Bool :=
  match segment with
  | [a, b] => a.isAlpha && (b == ':' || b == '|')
  | _ => false

/-- A segment as it is kept; a drive letter of a file has a colon. -/
def keptSegment (file : Bool) (segment : Text) : Text :=
  if file && isDriveLetter segment then [segment.getD 0 'c', ':']
  else Text.percentEncode inPath segment

/-- Leaves the last directory; a drive letter is never left. `done` is reversed. -/
def leaveDirectory (file : Bool) (done : List Text) : List Text :=
  match done with
  | [] => []
  | top :: rest => if file && isDriveLetter top then top :: rest else rest

/-- Adds segments to those already read, which are in reverse order. -/
def addSegments (file : Bool) : List Text → List Text → List Text
  | done, [] => done
  | done, [last] =>
    if isDoubleDot last then [] :: leaveDirectory file done
    else if isSingleDot last then [] :: done
    else keptSegment file last :: done
  | done, segment :: rest =>
    addSegments file
      (if isDoubleDot segment then leaveDirectory file done
        else if isSingleDot segment then done
        else keptSegment file segment :: done)
      rest

/-- The segments below a directory after reading a relative path there. -/
def readSegments (special file : Bool) (directory : List Text) (text : Text) : List Text :=
  (addSegments file directory.reverse (splitSlashes special text)).reverse

/-- A file path has no empty segments at its start. -/
def dropLeadingEmpty (segments : List Text) : List Text :=
  match segments.dropWhile List.isEmpty with
  | [] => [[]]
  | kept => kept

/-! ## The end of a URL -/

/-- What a text holds before its query or fragment, and the rest. -/
def cutPath (text : Text) : Text × Text :=
  (text.takeWhile fun c => c != '?' && c != '#', text.dropWhile fun c => c != '?' && c != '#')

def readFragment (text : Text) : Text := Text.percentEncode inFragment text

/-- Query and fragment of the rest behind a path. -/
def readTail (special : Bool) (text : Text) : Option Text × Option Text :=
  match text with
  | '#' :: rest => (none, some (readFragment rest))
  | '?' :: rest =>
    let query := Text.percentEncode (inQuery special) (rest.takeWhile (· != '#'))
    match rest.dropWhile (· != '#') with
    | '#' :: fragment => (some query, some (readFragment fragment))
    | _ => (some query, none)
  | _ => (none, none)

/-- A URL with the query and fragment of a rest. -/
def withTail (special : Bool) (url : Url) (rest : Text) : Url :=
  let (query, fragment) := readTail special rest
  { url with query := query, fragment := fragment }

/-! ## Authorities -/

/-- Whether a character ends the authority. -/
def endsAuthority (special : Bool) (c : Char) : Bool :=
  c == '/' || c == '?' || c == '#' || (special && c == '\\')

def cutLastAt (text : Text) : Option (Text × Text) :=
  (Text.cut '@' text.reverse).map fun parts => (parts.2.reverse, parts.1.reverse)

/-- The host text before a port number, which starts at a colon outside brackets. -/
def hostPart (inBrackets : Bool) : Text → Text
  | [] => []
  | c :: cs =>
    if c = ':' && !inBrackets then []
    else c :: hostPart (if c = '[' then true else if c = ']' then false else inBrackets) cs

/-- The port number of a text behind its colon, and the rest; there may be none. -/
def readPort (scheme : Text) (text : Text) : Except UrlError (Option Nat × Text) :=
  let digits := text.takeWhile Char.isDigit
  let rest := text.dropWhile Char.isDigit
  let value := (Host.numberOfBase 10 digits).getD 0
  if value > 65535 then .error .invalidPort
  else match rest.head? with
    | some c =>
      if ['/', '\\', '?', '#'].contains c then
        .ok (if digits.isEmpty || defaultPort scheme = some value then none else some value, rest)
      else .error .invalidPort
    | none =>
      .ok (if digits.isEmpty || defaultPort scheme = some value then none else some value, rest)

/-- The path behind an authority. A special URL always has one. -/
def readAbsolutePath (special file : Bool) (text : Text) : List Text × Text :=
  let (path, rest) := cutPath text
  match path with
  | [] => (if special then [[]] else [], rest)
  | c :: cs =>
    (readSegments special file [] (if isSlash special c then cs else path), rest)

/-- User name and password of the text before the host. -/
def readUser (text : Text) : Text × Text :=
  match Text.cut ':' text with
  | some (name, password) =>
    (Text.percentEncode inUser name, Text.percentEncode inUser password)
  | none => (Text.percentEncode inUser text, [])

/-- A URL from behind the two slashes of its scheme. -/
def readAuthority (scheme : Text) (text : Text) : Except UrlError Url := do
  let special := isSpecialScheme scheme
  let authority := text.takeWhile fun c => !endsAuthority special c
  let behind := text.dropWhile fun c => !endsAuthority special c
  let (user, hostText) := (cutLastAt authority).getD ([], authority)
  if (cutLastAt authority).isSome && user.isEmpty && hostText.isEmpty && !behind.isEmpty then
    throw .emptyHost
  let (name, password) := readUser user
  let hostName := hostPart false hostText
  let afterHost := hostText.drop hostName.length ++ behind
  if special && hostName.isEmpty then throw .emptyHost
  let host ← if special then Host.ofSpecial hostName else Host.ofFlat hostName
  if host = .domain [] && afterHost.head? = some ':' then throw .emptyHost
  let (port, afterPort) ← match afterHost with
    | ':' :: digits => readPort scheme digits
    | rest => pure (none, rest)
  if host = .domain [] && !(name.isEmpty && password.isEmpty) then throw .emptyHost
  let (segments, rest) := readAbsolutePath special false afterPort
  return withTail special
    ⟨scheme, name, password, some host, port, .segments segments, none, none⟩ rest

/-! ## Schemes -/

/-- The scheme of a text and what follows its colon. -/
def readScheme (text : Text) : Option (Text × Text) :=
  match text with
  | [] => none
  | c :: _ =>
    if c.isAlpha then
      (Text.cut ':' text).bind fun (name, rest) =>
        if name.all fun d => d.isAlphanum || d == '+' || d == '-' || d == '.' then
          some (Text.lowerAscii name, rest)
        else none
    else none

def fileScheme : Text := "file".toList

def readFile (text : Text) : Except UrlError Url := do
  let slash := isSlash true
  let finish (host : Host) (segments : List Text) (rest : Text) : Url :=
    withTail true
      ⟨fileScheme, [], [], some host, none, .segments (dropLeadingEmpty segments), none, none⟩ rest
  match text with
  | a :: b :: rest =>
    if slash a && slash b then
      let hostText := rest.takeWhile fun c => !endsAuthority true c
      let behind := rest.dropWhile fun c => !endsAuthority true c
      let (host, below) ←
        if isDriveLetter hostText then pure (Host.domain [], rest)
        else if hostText.isEmpty then pure (Host.domain [], behind)
        else do
          let host ← Host.ofSpecial hostText
          pure (if host = .domain "localhost".toList then .domain [] else host, behind)
      let (path, tail) := cutPath below
      let segments := readSegments true true [] path
      return finish (if segments.any isDriveLetter then .domain [] else host) segments tail
    else
      let (path, tail) := cutPath text
      return finish (.domain []) (readSegments true true [] path) tail
  | _ =>
    let (path, tail) := cutPath text
    return finish (.domain []) (readSegments true true [] path) tail

/-- A URL of a scheme that is not special, from behind its colon. -/
def readOther (scheme : Text) (text : Text) : Except UrlError Url :=
  match text with
  | '/' :: '/' :: rest => readAuthority scheme rest
  | '/' :: rest =>
    let (path, tail) := cutPath rest
    .ok (withTail false
      ⟨scheme, [], [], none, none, .segments (readSegments false false [] path), none, none⟩ tail)
  | _ =>
    let (path, tail) := cutPath text
    .ok (withTail false
      ⟨scheme, [], [], none, none, .flat (Text.percentEncode (fun _ => false) path), none, none⟩
      tail)

/-! ## Relative texts -/

/-- The directory of a path: its segments without the last one. -/
def directory (path : UrlPath) : List Text :=
  match path with
  | .segments list => list.dropLast
  | .flat _ => []

/-- Resolves a text without a scheme against a base. -/
def readRelative (base : Url) (text : Text) : Except UrlError Url :=
  let special := isSpecialScheme base.scheme
  let file := base.scheme = fileScheme
  let below (folder : List Text) (path tail : Text) : Url :=
    withTail special { base with path := .segments (readSegments special file folder path) } tail
  match text with
  | [] => .ok { base with fragment := none }
  | '#' :: rest => .ok { base with fragment := some (readFragment rest) }
  | '?' :: _ => .ok (withTail special base text)
  | '/' :: '/' :: rest => readAuthority base.scheme rest
  | c :: cs =>
    if isSlash special c then
      if cs.head?.any (isSlash special) then
        readAuthority base.scheme (cs.dropWhile (isSlash special))
      else
        let (path, tail) := cutPath cs
        .ok (below [] path tail)
    else
      let (path, tail) := cutPath text
      .ok (below (directory base.path) path tail)

/-- The text without surrounding controls and blanks and without tabs and line ends. -/
def clean (text : Text) : Text :=
  let isEdge (c : Char) : Bool := c.toNat ≤ 32
  (Text.dropEndWhile isEdge (text.dropWhile isEdge)).filter fun c =>
    !(c == '\t' || c == '\n' || c == '\r')

/-- Reads a URL, relative to a base if there is one. -/
def read (base : Option Url) (text : Text) : Except UrlError Url :=
  let text := clean text
  match readScheme text with
  | some (scheme, rest) =>
    if scheme = fileScheme then readFile rest
    else if isSpecialScheme scheme then
      let slashes := rest.takeWhile (isSlash true)
      match base with
      | some base =>
        if slashes.length < 2 && base.scheme = scheme then readRelative base rest
        else readAuthority scheme (rest.dropWhile (isSlash true))
      | none => readAuthority scheme (rest.dropWhile (isSlash true))
    else readOther scheme rest
  | none =>
    match base with
    | none => .error .relativeWithoutBase
    | some base =>
      match base.path, text with
      | .flat _, '#' :: rest => .ok { base with fragment := some (readFragment rest) }
      | .flat _, _ => .error .relativeToFlatBase
      | .segments _, _ => readRelative base text

def parse (text : Text) : Except UrlError Url := read none text

/-- Resolves a text against a base. -/
def join (base : Url) (text : Text) : Except UrlError Url := read (some base) text

/-- The origin of a URL: that of a `blob` is the origin of the URL it holds, and
a URL of another unknown scheme has none. `fuel` bounds the nesting of blobs. -/
def originWithin : Nat → Url → Option Text
  | 0, url => url.networkOrigin?
  | fuel + 1, url =>
    if url.scheme = "blob".toList then
      match parse url.pathText with
      | .ok inner => originWithin fuel inner
      | .error _ => none
    else url.networkOrigin?

/-- The origin of a URL as text; `null` where there is none. -/
def origin (url : Url) : Text :=
  (originWithin url.pathText.length url).getD "null".toList

end HubRules.Url
