import HubRules.Json.Printer

/-!
# URLs

A URL by its parts, the texts written from them, and the ways in which a text
fails to be one.
-/

namespace HubRules

/-- The host of a URL. -/
inductive Host where
  | domain (name : Text)
  | ipv4 (address : Nat)
  | ipv6 (pieces : List Nat)
  deriving DecidableEq, Repr

/-- The path of a URL: a list of segments, or one flat text where the scheme is
not followed by a slash. -/
inductive UrlPath where
  | flat (text : Text)
  | segments (list : List Text)
  deriving DecidableEq, Repr

/-- A URL. A port number that is the default of the scheme is not kept. -/
structure Url where
  scheme : Text
  username : Text
  password : Text
  host : Option Host
  port : Option Nat
  path : UrlPath
  query : Option Text
  fragment : Option Text
  deriving DecidableEq, Repr

/-- Why a text is not a URL. -/
inductive UrlError where
  | emptyHost
  | invalidDomain
  | invalidHostCharacter
  | invalidPort
  | invalidIpv4
  | invalidIpv6
  | relativeWithoutBase
  | relativeToFlatBase
  deriving DecidableEq, Repr

def UrlError.message : UrlError → String
  | .emptyHost => "empty host"
  | .invalidDomain => "invalid international domain name"
  | .invalidHostCharacter => "invalid domain character"
  | .invalidPort => "invalid port number"
  | .invalidIpv4 => "invalid IPv4 address"
  | .invalidIpv6 => "invalid IPv6 address"
  | .relativeWithoutBase => "relative URL without a base"
  | .relativeToFlatBase => "relative URL with a cannot-be-a-base base"

namespace Host

/-- The start and length of the longest run of zeros, the first of equals. -/
def longestZeros : List Nat → Nat → Nat × Nat
  | [], at_ => (at_, 0)
  | piece :: rest, at_ =>
    let run := ((piece :: rest).takeWhile (· == 0)).length
    let later := longestZeros rest (at_ + 1)
    if run ≥ later.2 then (at_, run) else later

/-- An IPv6 address, with its longest run of at least two zeros left out. -/
def ipv6Text (pieces : List Nat) : Text :=
  let group (ps : List Nat) : Text := Text.join [':'] (ps.map (Nat.toDigits 16))
  let (start, length) := longestZeros pieces 0
  if length ≥ 2 then
    group (pieces.take start) ++ [':', ':'] ++ group (pieces.drop (start + length))
  else group pieces

def toText : Host → Text
  | .domain name => name
  | .ipv4 a =>
    Text.join ['.'] ([a / 16777216, a / 65536 % 256, a / 256 % 256, a % 256].map Text.ofNat)
  | .ipv6 pieces => '[' :: (ipv6Text pieces ++ [']'])

end Host

namespace UrlPath

/-- The text of a path; a segment follows its slash. -/
def toText : UrlPath → Text
  | .flat text => text
  | .segments list => list.flatMap ('/' :: ·)

end UrlPath

namespace Url

/-- The schemes whose URLs have a host and take a backslash for a slash. -/
def isSpecialScheme (scheme : Text) : Bool :=
  ["http", "https", "ws", "wss", "ftp", "file"].any (·.toList == scheme)

def defaultPort (scheme : Text) : Option Nat :=
  if scheme = "http".toList ∨ scheme = "ws".toList then some 80
  else if scheme = "https".toList ∨ scheme = "wss".toList then some 443
  else if scheme = "ftp".toList then some 21
  else none

def pathText (url : Url) : Text := url.path.toText

/-- Host and port number, as far as they are there. -/
def hostPortText (url : Url) : Text :=
  (url.host.elim [] Host.toText) ++ (url.port.elim [] fun port => ':' :: Text.ofNat port)

/-- The user name and password before the host. -/
def userText (url : Url) : Text :=
  if url.username.isEmpty && url.password.isEmpty then []
  else url.username ++ (if url.password.isEmpty then [] else ':' :: url.password) ++ ['@']

/-- The whole URL. A path that would read as a host is set off by a dot. -/
def toText (url : Url) : Text :=
  let authority := match url.host, url.path with
    | some _, _ => "//".toList ++ url.userText ++ url.hostPortText
    | none, .segments ([] :: _ :: _) => "/.".toList
    | none, _ => []
  url.scheme ++ ':' :: authority ++ url.pathText
    ++ (url.query.elim [] ('?' :: ·)) ++ (url.fragment.elim [] ('#' :: ·))

/-- Scheme, host and port number of a URL of a network scheme. -/
def networkOrigin? (url : Url) : Option Text :=
  if (["http", "https", "ws", "wss", "ftp"].any fun s => s.toList == url.scheme) then
    some (url.scheme ++ "://".toList ++ url.hostPortText)
  else none

end Url

end HubRules
