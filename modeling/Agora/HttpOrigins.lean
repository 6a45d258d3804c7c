import Agora.AssetReferences
import Agora.ServiceSecrets

/-!
# The two readers of an origin

The configuration and the header policy each take an origin apart with `urlsplit` and put it
together again.  Both accept only an origin that comes out as it went in; the configuration lets
the letter case differ.
-/

namespace Agora

/-- What the origin readers take from the interpreter: NFKC, `str.lower`, the check of a
bracketed network location and `ip_address(hostname).is_unspecified`. -/
structure OriginTables where
  nfkc : Text → Text
  lower : Text → Text
  refusesBracketed : Text → Bool
  isUnspecified : Text → Bool

/-! ## The parts of a network location -/

/-- `_checknetloc`: the compatibility form brings in a delimiter of URLs. -/
def OriginTables.expandsNetloc (tables : OriginTables) (netloc : Text) : Bool :=
  let plain := netloc.filter fun c => c ∉ ['@', ':', '#', '?']
  !netloc.all isAscii && tables.nfkc plain != plain &&
    ['/', '?', '#', '@', ':'].any fun c => c ∈ tables.nfkc plain

/-- Where `urlsplit` raises `ValueError`. -/
def OriginTables.refusesNetloc (tables : OriginTables) (netloc : Text) : Bool :=
  decide ('[' ∈ netloc) != decide (']' ∈ netloc) ||
    (decide ('[' ∈ netloc) && tables.refusesBracketed netloc) || tables.expandsNetloc netloc

/-- `netloc.rpartition('@')[2]`. -/
def SplitUrl.hostinfo (parts : SplitUrl) : Text :=
  (parts.netloc.reverse.takeWhile (· ≠ '@')).reverse

/-- `username is not None`; without a user name there is no password. -/
def SplitUrl.hasUsername (parts : SplitUrl) : Bool :=
  '@' ∈ parts.netloc

/-- `_hostinfo`: the host name and the port as texts. -/
def SplitUrl.hostAndPort (parts : SplitUrl) : Text × Text :=
  if '[' ∈ parts.hostinfo then
    let (host, rest) := splitAtFirst ']' (splitAtFirst '[' parts.hostinfo).2
    (host, (splitAtFirst ':' rest).2)
  else splitAtFirst ':' parts.hostinfo

/-- `hostname`: lower case in front of the zone of a scoped address. -/
def SplitUrl.hostname (tables : OriginTables) (parts : SplitUrl) : Option Text :=
  let host := parts.hostAndPort.1
  if host = [] then none
  else some (tables.lower (host.takeWhile (· ≠ '%')) ++ host.dropWhile (· ≠ '%'))

/-- `port`; none where it raises `ValueError`. -/
def SplitUrl.port (parts : SplitUrl) : Option (Option ℕ) :=
  let port := parts.hostAndPort.2
  if port = [] then some none
  else if port.all isAsciiDigit = true ∧ Nat.ofDigitChars 10 port 0 ≤ 65535 then
    some (some (Nat.ofDigitChars 10 port 0))
  else none

def httpScheme : Text :=
  "http".toList

def httpsScheme : Text :=
  "https".toList

/-- `f"{scheme}://{hostname}"` with the port behind it. -/
def originText (scheme hostname : Text) (port : Option ℕ) : Text :=
  match port with
  | none => scheme ++ "://".toList ++ hostname
  | some port => scheme ++ "://".toList ++ hostname ++ ':' :: Nat.toDigits 10 port

/-! ## `agora.rendering.security` -/

/-- `_serialized_origin`; none where it raises `ValueError`. -/
def serializedOrigin (tables : OriginTables) (parts : SplitUrl) : Option Text := do
  let hostname ← parts.hostname tables
  if parts.scheme ∉ [httpScheme, httpsScheme] ∨ hostname = [] then none
  else
    let port ← parts.port
    some (originText parts.scheme (tables.lower hostname) port)

def validatedOrigin (tables : OriginTables) (value : Text) : Except String Text :=
  if value = [] ∨ value.any isPythonSpace = true then
    .error "origin must be a non-empty HTTP origin without whitespace"
  else
    match (do
      let parts ← urlsplit tables.refusesNetloc value
      let _ ← parts.port
      let normalized ← serializedOrigin tables parts
      some (parts, normalized)) with
    | none => .error "origin must be a valid HTTP origin"
    | some (parts, normalized) =>
        if parts.scheme ∉ [httpScheme, httpsScheme] ∨ parts.hasUsername = true ∨
            parts.path ≠ [] ∨ parts.query ≠ [] ∨ parts.fragment ≠ [] ∨ value ≠ normalized then
          .error "origin must contain only a normalized scheme, hostname, and port"
        else .ok normalized

/-! ## `agora.config` -/

structure Origin where
  value : Text
  scheme : Text
  hostname : Text
  port : Option ℕ
  deriving DecidableEq, Repr

/-- `_required` without the check for placeholders. -/
def requiredText (environ : Environ) (name : String) : Text × List String :=
  let value := (environ name).getD []
  if strip value = [] then ([], [name ++ " is required"]) else (value, [])

def defaultPort (scheme : Text) : ℕ :=
  if scheme = httpScheme then 80 else 443

/-- `_parse_origin` of a stripped value that is not empty. -/
def originOf (tables : OriginTables) (name : String) (value : Text) : Except String Origin :=
  if value.any isPythonSpace = true then .error (name ++ " must not contain whitespace")
  else
    match (do
      let parts ← urlsplit tables.refusesNetloc value
      let port ← parts.port
      some (parts, port)) with
    | none => .error (name ++ " must be a valid HTTP origin")
    | some (parts, port) =>
        let named := (parts.hostname tables).getD []
        if parts.scheme ∉ [httpScheme, httpsScheme] ∨ named = [] ∨ parts.hasUsername = true ∨
            parts.path ≠ [] ∨ parts.query ≠ [] ∨ parts.fragment ≠ [] then
          .error (name ++ " must contain only scheme, hostname, and optional port")
        else
          let hostname := tables.lower named
          if '*' ∈ hostname ∨ hostname.head? = some '.' ∨ tables.isUnspecified hostname = true then
            .error (name ++ " must use an exact browser-reachable hostname, " ++
              "not a wildcard or bind-all address")
          else if port = some (defaultPort parts.scheme) then
            .error (name ++ " must omit the default port for its scheme")
          else
            let normalized := originText parts.scheme hostname port
            if tables.lower value ≠ normalized then
              .error (name ++ " must be a normalized origin without a trailing slash")
            else .ok ⟨normalized, parts.scheme, hostname, port⟩

/-- `_parse_origin`: the origin, where one is accepted, and the errors. -/
def parseOrigin (tables : OriginTables) (environ : Environ) (name : String) :
    Option Origin × List String :=
  let (required, errors) := requiredText environ name
  let value := strip required
  if value = [] then (none, errors)
  else
    match originOf tables name value with
    | .ok origin => (some origin, errors)
    | .error message => (none, errors ++ [message])

end Agora
