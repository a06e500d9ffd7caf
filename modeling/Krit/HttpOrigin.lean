import Krit.Capability

/-!
# HTTP origins

The canonical spelling of an origin.  Parsing of URLs is not part of the repository; an
origin is read from what a parser says of its text.
-/

namespace Krit

inductive HttpScheme where
  | http
  | https
  deriving DecidableEq, Repr

namespace HttpScheme

def asStr : HttpScheme → String
  | http => "http"
  | https => "https"

def defaultPort : HttpScheme → ℕ
  | http => 80
  | https => 443

end HttpScheme

/-- The host of a URL; an address is given by its text. -/
inductive Host where
  | domain (name : String)
  | ipv4 (address : String)
  | ipv6 (address : String)
  deriving DecidableEq, Repr

/-- What the parser says of a URL. -/
structure Url where
  scheme : String
  username : String
  password : Option String
  host : Option Host
  /-- The port, or the known default of the scheme. -/
  port : Option ℕ
  path : String
  query : Option String
  fragment : Option String
  deriving DecidableEq, Repr

/-- Why a text is not an origin: it has other parts, or another spelling. -/
inductive HttpOriginError where
  | invalid
  | notNormalized
  deriving DecidableEq, Repr

structure HttpOrigin where
  scheme : HttpScheme
  host : String
  port : ℕ
  normalized : String
  deriving DecidableEq, Repr

namespace HttpOrigin

def isHostByte (byte : ℕ) : Bool :=
  (ascii 'a' ≤ byte && byte ≤ ascii 'z') || (ascii '0' ≤ byte && byte ≤ ascii '9') ||
    byte == ascii '-'

def isLabel (label : List ℕ) : Bool :=
  !label.isEmpty && label.length ≤ 63 && label.head? != some (ascii '-') &&
    label.getLast? != some (ascii '-') && label.all isHostByte

/-- The text of a host, if it is one that an origin may have. -/
def hostText : Host → Option String
  | .domain name =>
      let bytes := stringBytes name
      if bytes.isEmpty || decide (253 < bytes.length) ||
          !((bytes.splitOn (ascii '.')).all isLabel) then none
      else some name
  | .ipv4 address => some address
  | .ipv6 address => some ("[" ++ address ++ "]")

def normalize (scheme : HttpScheme) (host : String) (port : ℕ) : String :=
  if port = scheme.defaultPort then scheme.asStr ++ "://" ++ host
  else scheme.asStr ++ "://" ++ host ++ ":" ++ toString port

def readScheme (text : String) : Option HttpScheme :=
  if text = "http" then some .http else if text = "https" then some .https else none

/-- The parts of an origin, if the text is a URL that has no others. -/
def readParts (parseUrl : String → Option Url) (value : String) :
    Option (HttpScheme × String × ℕ) := do
  let parsed ← parseUrl value
  let scheme ← readScheme parsed.scheme
  guard (parsed.username.isEmpty && parsed.password.isNone && parsed.query.isNone &&
    parsed.fragment.isNone && parsed.path == "/")
  let host ← parsed.host.bind hostText
  let port ← parsed.port
  guard (port ≠ 0)
  return (scheme, host, port)

def parseExact (parseUrl : String → Option Url) (value : String) :
    Except HttpOriginError HttpOrigin :=
  let bytes := stringBytes value
  if bytes.isEmpty || decide (2048 < bytes.length) || bytes.any (128 ≤ ·) ||
      bytes.any isAsciiControl then .error .invalid
  else
    match readParts parseUrl value with
    | none => .error .invalid
    | some (scheme, host, port) =>
        if value ≠ normalize scheme host port then .error .notNormalized
        else .ok ⟨scheme, host, port, normalize scheme host port⟩

end HttpOrigin

end Krit
