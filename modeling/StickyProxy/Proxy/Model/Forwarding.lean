import StickyProxy.Proxy.Model.Jwt
import StickyProxy.Proxy.Model.RateLimiter
import StickyProxy.Proxy.Model.PublicPath
/-!
# What reaches a backend

`ServeHTTP` as a whole, seen from the backend: the request that reaches one,
with its header. A public path hands the request on as it came; every other
request needs a token, is routed by the key in it and gets that key as its
`X-User-ID`. The reverse proxy copies a header but for the fields that
concern one hop only, those the `Connection` field names among them; the
dialer of a WebSocket sends a header of its own. What these two add by
themselves is left out, and the URL of every backend parses.
-/

namespace StickyProxy

/-- Go's `http.Header`. Names are in their canonical form. -/
abbrev Header := Table String (List String)

namespace Header

/-- A character that may be part of a name. -/
def isTokenChar (c : Char) : Bool := c.isAlphanum || c ∈ "!#$%&'*+-.^_`|~".toList

/-- A letter is upper case at the beginning and after a hyphen. -/
def canonicalChars : Bool → List Char → List Char
  | _, [] => []
  | upper, c :: cs => (if upper then c.toUpper else c.toLower) :: canonicalChars (c = '-') cs

/-- `CanonicalMIMEHeaderKey`. -/
def canonicalKey (name : String) : String :=
  if name.toList.all isTokenChar then String.ofList (canonicalChars true name.toList) else name

/-- `Values`. -/
def values (name : String) (h : Header) : List String := (h.lookup (canonicalKey name)).getD []

/-- `Get`: the first value, or nothing. -/
def get (name : String) (h : Header) : String := (h.values name).headD ""

/-- `Set`. -/
def set (name value : String) (h : Header) : Header := h.insert (canonicalKey name) [value]

/-- `textproto.TrimString`. -/
def trim (cs : List Char) : List Char :=
  let isSpace : Char → Bool := fun c => c = ' ' || c = '\t' || c = '\n' || c = '\r'
  ((cs.dropWhile isSpace).reverse.dropWhile isSpace).reverse

/-- What the `Connection` field names. -/
def connectionOptions (h : Header) : List String :=
  ((h.values "Connection").flatMap fun f =>
    (f.toList.splitOn ',').map fun sf => String.ofList (trim sf)).filter (· ≠ "")

/-- `hopHeaders` of the reverse proxy. -/
def hopHeaders : List String :=
  ["Connection", "Proxy-Connection", "Keep-Alive", "Proxy-Authenticate", "Proxy-Authorization",
    "Te", "Trailer", "Transfer-Encoding", "Upgrade"]

/-- The fields that concern one hop only. -/
def hopByHop (h : Header) : List String := (h.connectionOptions ++ hopHeaders).map canonicalKey

/-- `removeHopByHopHeaders`. -/
def removeHopByHopHeaders (h : Header) : Header := h.eraseAll h.hopByHop

/-- A letter, with its case and its look-alikes folded. -/
def foldChar (c : Char) : Char :=
  if c = '\u017f' then 's' else if c = '\u212a' then 'k' else c.toLower

/-- `isWebSocket`. -/
def isWebSocket (h : Header) : Bool := (h.get "Upgrade").toList.map foldChar = "websocket".toList

/-- The field is copied if it is not empty. -/
def copy (h reqHeader : Header) (name : String) : Header :=
  if h.get name ≠ "" then reqHeader.set name (h.get name) else reqHeader

/-- The `reqHeader` of `proxyWebSocket`. -/
def dialed (h : Header) : Header :=
  ["Authorization", "Cookie", "Sec-WebSocket-Protocol"].foldl h.copy ∅

end Header

/-- A request as it comes in. -/
structure HttpRequest where
  path : String
  header : Header
  /-- The address it comes from and the time, and what a backend answers. -/
  env : PublicPath.Request
  /-- The order the store lists its backends in. -/
  order : List Backend

/-- The fields of `Proxy` that decide what reaches a backend. -/
structure Server where
  replica : PublicPath.Replica
  jwtCache : JWTCache
  rateLimiter : RateLimiter
  /-- What tokens decode to, under the secret. -/
  decode : String → Option Token
  routingClaim : String
  publicPaths : List String

namespace Server

/-- `isPublicPath`. -/
def isPublicPath (path : String) (s : Server) : Bool :=
  s.publicPaths.any fun first => first.toList.isPrefixOf path.toList

/-- What reaches a backend by `ProxyRequest`. -/
def proxied (b : Backend) (start : Time) (h : Header) (m : BackendManager) :
    Option (Backend × Header) :=
  if (m.available start b).1 then some (b, h.removeHopByHopHeaders) else none

/-- What reaches a backend by `servePublic`. -/
def servePublic (req : HttpRequest) (s : Server) : Option (Backend × Header) :=
  match (PublicPath.servePublic req.env s.replica).1 with
  | .noBackend => none
  | .proxyRequest b _ => proxied b req.env.call.start req.header s.replica.proxy.backends

/-- What reaches a backend of a request with a token. -/
def serveAuthenticated (req : HttpRequest) (s : Server) : Option (Backend × Header) :=
  match (Jwt.extractUserIDFromJWT s.decode s.routingClaim req.env.now
      (req.header.get "Authorization") s.jwtCache).1 with
  | .error _ => none
  | .ok jwtData =>
    let stickyKey := jwtData.routingKey
    let allowed := (s.rateLimiter.allow (req.env.now / 1000000000) stickyKey).1
    let (outcome, proxy) := s.replica.proxy.serveHTTP
      ⟨stickyKey, req.env.now, allowed, req.order, req.header.isWebSocket⟩
    let header := req.header.set "X-User-ID" stickyKey
    match outcome with
    | .proxyWebSocket b => some (b, header.dialed)
    | .proxyRequest b => proxied b req.env.call.start header proxy.backends
    | _ => none

/-- What reaches a backend by `ServeHTTP`. -/
def serveHTTP (req : HttpRequest) (s : Server) : Option (Backend × Header) :=
  if s.isPublicPath req.path then s.servePublic req else s.serveAuthenticated req

end Server

end StickyProxy
