import Tysel.Shared.Chars
import Tysel.Shared.Except

/-! The host allowlist, the secret handles in header values and the comparison of origins, as
`fetch_policy.rs` and `secrets.rs` have them. Parsing a URL and decoding the header pairs are
the two libraries the code calls. -/

namespace Tysel.Fetch

open Text

/-- What the code reads of a parsed URL. -/
structure Uri where
  scheme : Option String
  authority : Option String
  host : Option String
  port : Option UInt16
  path : String
  pathAndQuery : Option String

structure Libraries where
  parseUri : String → Except String Uri
  parsePairs : String → Except String (List (String × String))

def normalizeHost (value : String) : String :=
  let host := (asciiLowercase (String.ofList (trim value.toList))).toList
  let host :=
    match stripPrefix "https://" host with
    | some rest => rest
    | none => (stripPrefix "http://" host).getD host
  let host :=
    match splitOnce '/' host with
    | some (name, _) => name
    | none => host
  match (stripPrefix "[" host).bind (splitOnce ']') with
  | some (inner, _) => String.ofList inner
  | none =>
    let host :=
      match rsplitOnce ':' host with
      | some (name, _) => if name ≠ [] ∧ host.count ':' = 1 then name else host
      | none => host
    String.ofList (trimEndMatches (· = '.') host)

def checkHost (host : String) (configured : Option (List String)) : Except String Unit :=
  match configured with
  | none => .ok ()
  | some allowed => do
      let host := normalizeHost host
      reject (host = "") "missing host"
      reject (∀ pattern ∈ allowed, normalizeHost pattern ≠ host)
        ("host " ++ host ++ " is not permitted")

/-- The configured secrets, by name; a process that was never configured has none. -/
abbrev Secrets := Option (String → Option String)

def resolve (secrets : Secrets) (handle : String) : Except String String :=
  match stripPrefix "secret:" handle.toList with
  | none => .error "invalid secret handle"
  | some name =>
    let unknown : Except String String := .error ("unknown secret " ++ String.ofList name)
    match secrets with
    | none => unknown
    | some map =>
      match map (String.ofList name) with
      | some value => .ok value
      | none => unknown

def isSecretHandleValue (value : String) : Bool :=
  let trimmed := trim value.toList
  match stripPrefix "Bearer " trimmed with
  | some rest => startsWith (trim rest) "secret:"
  | none => startsWith trimmed "secret:"

def expandHeaderValueWith (value : String) (resolve : String → Except String String) :
    Except String String :=
  let trimmed := trim value.toList
  let plain :=
    if startsWith trimmed "secret:" then resolve (String.ofList trimmed) else .ok value
  match stripPrefix "Bearer " trimmed with
  | some rest =>
    if startsWith (trim rest) "secret:" then
      (resolve (String.ofList (trim rest))).map ("Bearer " ++ ·)
    else plain
  | none => plain

structure RequestHeaders where
  headers : List (String × String) := []
  secretNames : List String := []

def skipRequestHeader (name : String) : Bool :=
  ["host", "connection", "keep-alive", "proxy-authenticate", "proxy-authorization", "te",
    "trailer", "transfer-encoding", "upgrade", "content-length"].contains name

def RequestHeaders.add (resolve : String → Except String String) (headers : RequestHeaders)
    (pair : String × String) : Except String RequestHeaders :=
  let lower := asciiLowercase pair.1
  if skipRequestHeader lower then .ok headers
  else do
    let secretNames :=
      if isSecretHandleValue pair.2 ∧ lower ∉ headers.secretNames then
        headers.secretNames ++ [lower]
      else headers.secretNames
    let value ← expandHeaderValueWith pair.2 resolve
    return ⟨headers.headers ++ [(pair.1, value)], secretNames⟩

variable (context : FetchContext) (libraries : Libraries)

def expandHeadersJsonWith (headersJson : String) (resolve : String → Except String String) :
    Except String RequestHeaders :=
  if headersJson = "" then .ok {}
  else do
    let pairs ← (libraries.parsePairs headersJson).mapError ("invalid fetch headers: " ++ ·)
    pairs.foldlM (RequestHeaders.add resolve) {}

structure Origin where
  scheme : String
  host : String
  port : UInt16
  deriving DecidableEq

def originHost (host : String) : String :=
  String.ofList (trimEndMatches (· = '.') (asciiLowercase host).toList)

def required {α : Type} (message : String) : Option α → Except String α
  | some a => .ok a
  | none => .error message

def originOf (url : String) : Except String Origin := do
  let uri ← libraries.parseUri url
  let scheme := asciiLowercase (← required "missing scheme" uri.scheme)
  reject (scheme ≠ "http" ∧ scheme ≠ "https") "outbound fetch only supports http and https"
  let host ← required "missing host" uri.host
  return ⟨scheme, originHost host, uri.port.getD (if scheme = "https" then 443 else 80)⟩

def sameOrigin (current next : String) : Except String Bool := do
  let current ← originOf libraries current
  let next ← originOf libraries next
  return current = next

def stripCredentialsForCrossOrigin (headers : RequestHeaders) : RequestHeaders :=
  { headers with
    headers := headers.headers.filter fun header =>
      asciiLowercase header.1 ≠ "authorization" ∧ asciiLowercase header.1 ∉ headers.secretNames }

/-! ## The redirect loop

The network is the sequence of replies to the hops; the result comes with the hops that were
made, each with the address it connected to and what was sent there. -/

def maxRedirects : ℕ := 20

def maxOutboundBody : ℕ := 16 * 1024 * 1024

/-- A connection and the request sent over it. -/
structure OutboundHop where
  https : Bool
  host : String
  port : UInt16
  method : String
  path : String
  hostHeader : String
  headers : List (String × String)
  body : List UInt8

/-- A connection or request that failed, or a response with its location and, for a response
that ends the chain, the interruption noticed before its body was installed. -/
inductive HopReply where
  | failed (error : String)
  | response (status : ℕ) (location : Option String) (interrupted : Option String)

structure FetchState where
  method : String
  url : String
  headers : RequestHeaders
  body : List UInt8

/-- The process settings a fetch reads. -/
structure FetchContext where
  libraries : Libraries
  hosts : Option (List String)
  secrets : Secrets

def normalizeMethod (method : String) : Except String String :=
  let method := asciiUppercase method
  if ["GET", "HEAD", "POST", "PUT", "PATCH", "DELETE"].contains method then .ok method
  else .error "outbound fetch only supports GET, HEAD, POST, PUT, PATCH, and DELETE"

def requestBody (method : String) (body : List UInt8) : Except String (List UInt8) :=
  if method = "GET" ∨ method = "HEAD" then .ok []
  else if maxOutboundBody < body.length then
    .error (s!"request body exceeds {maxOutboundBody} bytes")
  else .ok body

def usesHttps (uri : Uri) : Except String Bool :=
  match uri.scheme with
  | some scheme =>
    if scheme = "http" then .ok false
    else if scheme = "https" then .ok true
    else .error "outbound fetch only supports http and https"
  | none => .error "outbound fetch only supports http and https"

def defaultPort (https : Bool) : UInt16 := if https then 443 else 80

/-- The checks of `fetch_hop` up to its connection. -/
def fetchHop (state : FetchState) : Except String OutboundHop := do
  let uri ← context.libraries.parseUri state.url
  let https ← usesHttps uri
  let host ← required "missing host" uri.host
  checkHost host context.hosts
  let port := uri.port.getD (defaultPort https)
  let hostHeader := if port = defaultPort https then host else s!"{host}:{port}"
  return {
    https, host, port, hostHeader
    method := state.method
    path := uri.pathAndQuery.getD "/"
    headers := state.headers.headers
    body := state.body }

def resolveRedirect (current location : String) : Except String String := do
  let location := trim location.toList
  if startsWith location "http://" || startsWith location "https://" then
    return String.ofList location
  else
    let base ← libraries.parseUri current
    let scheme ← required "missing scheme" base.scheme
    let authority ← required "missing host" base.authority
    match stripPrefix "/" location with
    | some rest => return scheme ++ "://" ++ authority ++ "/" ++ String.ofList rest
    | none =>
      let directory :=
        match rsplitOnce '/' base.path.toList with
        | some (head, _) => String.ofList head
        | none => ""
      return scheme ++ "://" ++ authority ++ directory ++ "/" ++ String.ofList location

def FetchState.redirect (state : FetchState) (status : ℕ) (location : String) :
    Except String FetchState := do
  let next ← resolveRedirect libraries state.url location
  let same ← sameOrigin libraries state.url next
  let headers := if same then state.headers else stripCredentialsForCrossOrigin state.headers
  if 301 ≤ status ∧ status ≤ 303 ∧ state.method ≠ "HEAD" then
    return ⟨"GET", next, headers, []⟩
  else
    return ⟨state.method, next, headers, state.body⟩

/-- Follow at most `fuel` hops; `made` of them were made before. -/
def fetchLoop (context : FetchContext) (replies : ℕ → HopReply) :
    ℕ → ℕ → FetchState → List OutboundHop × Except String ℕ
  | 0, _, _ => ([], .error "too many redirects")
  | fuel + 1, made, state =>
    match fetchHop context state with
    | .error e => ([], .error e)
    | .ok hop =>
      match replies made with
      | .failed e => ([hop], .error e)
      | .response status location interrupted =>
        let final : Except String ℕ :=
          match interrupted with
          | some e => .error e
          | none => .ok status
        match location with
        | none => ([hop], final)
        | some location =>
          if 300 ≤ status ∧ status < 400 then
            match state.redirect context.libraries status location with
            | .error e => ([hop], .error e)
            | .ok next =>
              let rest := fetchLoop context replies fuel (made + 1) next
              (hop :: rest.1, rest.2)
          else ([hop], final)

def FetchState.start (method url headersJson : String) (body : List UInt8) :
    Except String FetchState := do
  let method ← normalizeMethod method
  let headers ← expandHeadersJsonWith context.libraries headersJson (resolve context.secrets)
  let body ← requestBody method body
  return ⟨method, url, headers, body⟩

/-- The hops a fetch makes, and its status or its error. -/
def outboundFetch (replies : ℕ → HopReply) (method url headersJson : String) (body : List UInt8) :
    List OutboundHop × Except String ℕ :=
  match FetchState.start context method url headersJson body with
  | .error e => ([], .error e)
  | .ok state => fetchLoop context replies (maxRedirects + 1) 0 state

end Tysel.Fetch
