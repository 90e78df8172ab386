import StickyProxy.Common.Table
import StickyProxy.Model.Assignment
import Mathlib.Algebra.Order.Field.Rat
import Mathlib.Data.Rat.Floor
/-!
# Tokens, and the cache of tokens

`extractUserIDFromJWT` takes the routing key out of the token of a request.
Tokens that were valid are cached until they expire; a ticker sweeps the
expired ones out and, if there are still too many, as many of the rest,
chosen at random. What a token string decodes to, and whether its signature
is an HMAC under the secret, is a function of the string; `parse` says when
the library accepts it.
-/

namespace StickyProxy

/-- `time.Unix(sec, 0)`. -/
def unixTime (sec : ℤ) : Time := (62135596800 + sec) * 1000000000

/-- A conversion of a float to an integer: what is behind the point is
dropped. -/
def truncate (x : ℚ) : ℤ := if 0 ≤ x then ⌊x⌋ else ⌈x⌉

/-- The value of a claim, as JSON has it. -/
inductive ClaimValue where
  | text (s : String)
  | number (x : ℚ)
  | other
  deriving DecidableEq, Repr

abbrev Claims := Table String ClaimValue

/-- What a token string decodes to. -/
structure Token where
  /-- The method is an HMAC and the signature is one under the secret. -/
  signed : Bool
  claims : Claims

namespace Jwt

/-- A date of the claims, in full seconds; zero counts as none, and so does
here what is no number, which the library takes for an invalid claim. -/
def numericDate (claims : Claims) (name : String) : Option Time :=
  match claims.lookup name with
  | some (.number x) => if x = 0 then none else some (unixTime (truncate x))
  | _ => none

/-- The token is accepted at the time `now`. -/
def Accepts (now : Time) (token : Token) : Prop :=
  token.signed = true ∧ (∀ exp ∈ numericDate token.claims "exp", now < exp) ∧
    ∀ nbf ∈ numericDate token.claims "nbf", nbf ≤ now

instance (now : Time) (token : Token) : Decidable (Accepts now token) :=
  inferInstanceAs (Decidable (_ ∧ (∀ exp ∈ _, now < exp) ∧ ∀ nbf ∈ _, nbf ≤ now))

/-- `jwt.Parse`. -/
def parse (decode : String → Option Token) (now : Time) (tokenStr : String) : Option Claims :=
  (decode tokenStr).bind fun token => if Accepts now token then some token.claims else none

/-- The errors of `extractUserIDFromJWT`. -/
inductive Error where
  | invalidAuthHeader
  | invalidToken
  | emptyClaim
  deriving DecidableEq, Repr

def Error.message : Error → String
  | .invalidAuthHeader => "invalid auth header"
  | .invalidToken => "invalid token"
  | .emptyClaim => "routing claim is empty or missing"

/-- `strings.SplitN(s, " ", 2)`, of two parts. -/
def splitSpace (s : String) : Option (String × String) :=
  match s.toList.span (· ≠ ' ') with
  | (_, []) => none
  | (before, _ :: after) => some (String.ofList before, String.ofList after)

/-- The token of an authorization header. -/
def bearer (authHeader : String) : Option String :=
  (splitSpace authHeader).bind fun parts => if parts.1 = "Bearer" then some parts.2 else none

/-- `claims[routingClaim].(string)`. -/
def routingKey (claims : Claims) (routingClaim : String) : RoutingKey :=
  match claims.lookup routingClaim with
  | some (.text s) => s
  | _ => ""

/-- `claims["exp"].(float64)`. -/
def expUnix (claims : Claims) : ℚ :=
  match claims.lookup "exp" with
  | some (.number x) => x
  | _ => 0

end Jwt

/-- Go's `CachedJWT`. -/
structure CachedJWT where
  routingKey : RoutingKey
  exp : Time
  deriving DecidableEq, Repr

/-- Go's `JWTCache`. -/
structure JWTCache where
  maxSize : ℤ
  data : Table String CachedJWT

namespace JWTCache

/-- `NewJWTCache`. -/
def new (maxSize : ℤ) : JWTCache := ⟨maxSize, ∅⟩

/-- `Get`: an expired entry is dropped. -/
def get (now : Time) (token : String) (c : JWTCache) : Option CachedJWT × JWTCache :=
  match c.data.lookup token with
  | none => (none, c)
  | some cached =>
    if cached.exp < now then (none, { c with data := c.data.erase token })
    else (some cached, c)

/-- `Set`. -/
def set (token : String) (jwt : CachedJWT) (c : JWTCache) : JWTCache :=
  { c with data := c.data.insert token jwt }

/-- The keys in the order a shuffle puts them in: those that are drawn, in
the order they are drawn in, then the rest. -/
def shuffle (drawn keys : List String) : List String :=
  drawn.dedup.filter (· ∈ keys) ++ keys.filter (· ∉ drawn)

/-- `sweep`. -/
def sweep (now : Time) (drawn : List String) (c : JWTCache) : JWTCache :=
  let data := c.data.mapPartial fun cached => if cached.exp < now then none else some cached
  let keys := data.pairs.map Prod.fst
  { c with data :=
      if 0 < c.maxSize ∧ c.maxSize < keys.length then
        data.eraseAll ((shuffle drawn keys).drop c.maxSize.toNat)
      else data }

variable {now : Time} {token token' : String} {cached : CachedJWT} {c : JWTCache}

theorem get_fst_of_none (h : c.data.lookup token = none) : (c.get now token).1 = none := by
  rw [get, h]

theorem get_fst_of_lt (h : c.data.lookup token = some cached) (hexp : cached.exp < now) :
    (c.get now token).1 = none := by
  rw [get, h]
  dsimp only
  rw [if_pos hexp]

theorem get_fst_of_not_lt (h : c.data.lookup token = some cached) (hexp : ¬ cached.exp < now) :
    (c.get now token).1 = some cached := by
  rw [get, h]
  dsimp only
  rw [if_neg hexp]

/-- Reading and sweeping only take entries away. -/
theorem lookup_of_get (h : (c.get now token).2.data.lookup token' = some cached) :
    c.data.lookup token' = some cached := by
  unfold get at h
  split at h
  · exact h
  · split at h
    · dsimp only at h
      rw [Table.lookup_erase_eq] at h
      split at h
      · cases h
      · exact h
    · exact h

theorem lookup_of_sweep {drawn : List String}
    (h : (c.sweep now drawn).data.lookup token = some cached) :
    c.data.lookup token = some cached := by
  have hexpired : ∀ cached', (c.data.mapPartial fun cached =>
      if cached.exp < now then none else some cached).lookup token = some cached' →
      c.data.lookup token = some cached' := by
    intro cached' h'
    rw [Table.lookup_mapPartial] at h'
    obtain ⟨entry, hentry, h'⟩ := Option.bind_eq_some_iff.1 h'
    split at h'
    · cases h'
    · exact Option.some.inj h' ▸ hentry
  dsimp only [sweep] at h
  split at h
  · rw [Table.lookup_eraseAll] at h
    split at h
    · cases h
    · exact hexpired cached h
  · exact hexpired cached h

end JWTCache

namespace Jwt

/-- What `extractUserIDFromJWT` caches and returns for accepted claims. -/
def cachedOf (routingClaim : String) (claims : Claims) : CachedJWT :=
  ⟨routingKey claims routingClaim, unixTime (truncate (expUnix claims))⟩

/-- `extractUserIDFromJWT`. -/
def extractUserIDFromJWT (decode : String → Option Token) (routingClaim : String) (now : Time)
    (authHeader : String) (cache : JWTCache) : Except Error CachedJWT × JWTCache :=
  match bearer authHeader with
  | none => (.error .invalidAuthHeader, cache)
  | some tokenStr =>
    let (cached, cache) := cache.get now tokenStr
    match cached with
    | some cached => (.ok cached, cache)
    | none =>
      match parse decode now tokenStr with
      | none => (.error .invalidToken, cache)
      | some claims =>
        if routingKey claims routingClaim = "" then (.error .emptyClaim, cache)
        else
          let cached := cachedOf routingClaim claims
          (.ok cached, cache.set tokenStr cached)

/-- A call, with the time it reads. -/
inductive Call where
  | extract (now : Time) (authHeader : String)
  | sweep (now : Time) (drawn : List String)
  deriving DecidableEq, Repr

def Call.time : Call → Time
  | .extract now _ | .sweep now _ => now

/-- A call, and the routing key or error it returns. -/
def step (decode : String → Option Token) (routingClaim : String) (cache : JWTCache) :
    Call → Option (Except Error RoutingKey) × JWTCache
  | .extract now authHeader =>
    let (result, cache) := extractUserIDFromJWT decode routingClaim now authHeader cache
    (some (result.map CachedJWT.routingKey), cache)
  | .sweep now drawn => (none, cache.sweep now drawn)

end Jwt

end StickyProxy
