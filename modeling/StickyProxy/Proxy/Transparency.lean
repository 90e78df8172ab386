import StickyProxy.Common.Machine
import StickyProxy.Proxy.Model.Jwt
import Mathlib.Data.Int.ConditionallyCompleteOrder
/-!
# Is the token cache transparent?

A call should have the answer it has with nothing cached. A cached token was
accepted before: its signature does not change, and what was not too early
is not too early later. So the cache can only be wrong about the expiry.
The library rejects a token from its expiry on, and the cache drops it when
the expiry is over: at the very instant of its expiry a token is rejected if
it is not cached and let through if it is.
-/

namespace StickyProxy

namespace Jwt

open Machine

variable {decode : String → Option Token} {routingClaim : String} {now t t' : Time}
variable {authHeader tokenStr : String} {token : Token} {claims : Claims} {cached : CachedJWT}
variable {cache : JWTCache}

/-- What a token that is not cached is answered with. -/
def validate (decode : String → Option Token) (routingClaim : String) (now : Time)
    (tokenStr : String) : Except Error CachedJWT :=
  match parse decode now tokenStr with
  | none => .error .invalidToken
  | some claims =>
    if routingKey claims routingClaim = "" then .error .emptyClaim
    else .ok (cachedOf routingClaim claims)

/-- A call has the cached answer, or validates. -/
theorem extractUserIDFromJWT_fst (h : bearer authHeader = some tokenStr) :
    (extractUserIDFromJWT decode routingClaim now authHeader cache).1 =
      (cache.get now tokenStr).1.elim (validate decode routingClaim now tokenStr) .ok := by
  simp only [extractUserIDFromJWT, h, validate]
  rcases (cache.get now tokenStr).1 with - | cached
  · dsimp only
    rcases parse decode now tokenStr with - | claims
    · rfl
    · dsimp only
      split <;> rfl
  · rfl

/-- The entries a call leaves: those there were, and that of a token it
validated. -/
theorem lookup_of_extractUserIDFromJWT
    (h : (extractUserIDFromJWT decode routingClaim now authHeader cache).2.data.lookup tokenStr =
      some cached) :
    cache.data.lookup tokenStr = some cached ∨
      validate decode routingClaim now tokenStr = .ok cached := by
  have hget : ∀ tokenStr', (cache.get now tokenStr').2.data.lookup tokenStr = some cached →
      cache.data.lookup tokenStr = some cached := fun _ => JWTCache.lookup_of_get
  unfold extractUserIDFromJWT at h
  split at h
  · exact .inl h
  · rename_i tokenStr' _
    dsimp only at h
    split at h
    · exact .inl (hget _ h)
    · split at h
      · exact .inl (hget _ h)
      · rename_i claims hparse
        split at h
        · exact .inl (hget _ h)
        · rename_i hkey
          dsimp only [JWTCache.set] at h
          rw [Table.lookup_insert_eq] at h
          split at h
          · rename_i heq
            subst heq
            refine .inr ?_
            rw [validate, hparse]
            dsimp only
            rw [if_neg hkey, Option.some.inj h]
          · exact .inl (hget _ h)

/-! ## Dates -/

/-- The cache and the library read the expiry alike, but for zero. -/
theorem numericDate_exp (claims : Claims) :
    numericDate claims "exp" =
      if expUnix claims = 0 then none else some (unixTime (truncate (expUnix claims))) := by
  unfold numericDate expUnix
  rcases claims.lookup "exp" with - | (s | x | -)
  · rfl
  · rfl
  · rfl
  · rfl

theorem exp_cachedOf_of_numericDate {exp : Time} (h : numericDate claims "exp" = some exp) :
    (cachedOf routingClaim claims).exp = exp := by
  rw [numericDate_exp] at h
  split at h
  · cases h
  · exact Option.some.inj h

theorem validate_eq_ok (h : validate decode routingClaim now tokenStr = .ok cached) :
    ∃ token, decode tokenStr = some token ∧ Accepts now token ∧
      routingKey token.claims routingClaim ≠ "" ∧ cached = cachedOf routingClaim token.claims := by
  unfold validate at h
  rcases hparse : parse decode now tokenStr with - | claims
  · rw [hparse] at h
    cases h
  · rw [hparse] at h
    dsimp only at h
    split at h
    · cases h
    · rename_i hkey
      obtain ⟨token, htoken, hclaims⟩ := Option.bind_eq_some_iff.1 hparse
      split at hclaims
      · rename_i haccepts
        obtain rfl := Option.some.inj hclaims
        exact ⟨token, htoken, haccepts, hkey, (Except.ok.inj h).symm⟩
      · cases hclaims

/-! ## What is cached was accepted -/

/-- The token was accepted at some time until `t`, and is cached as it was
then. -/
structure AcceptedUntil (decode : String → Option Token) (routingClaim : String) (t : Time)
    (tokenStr : String) (cached : CachedJWT) (token : Token) : Prop where
  decoded : decode tokenStr = some token
  signed : token.signed = true
  notEarly : ∀ nbf ∈ numericDate token.claims "nbf", nbf ≤ t
  key_ne : routingKey token.claims routingClaim ≠ ""
  cached_eq : cached = cachedOf routingClaim token.claims

/-- Every token in the cache was. -/
def Sound (decode : String → Option Token) (routingClaim : String) (t : Time)
    (cache : JWTCache) : Prop :=
  ∀ tokenStr cached, cache.data.lookup tokenStr = some cached →
    ∃ token, AcceptedUntil decode routingClaim t tokenStr cached token

theorem AcceptedUntil.mono (h : AcceptedUntil decode routingClaim t tokenStr cached token)
    (ht : t ≤ t') : AcceptedUntil decode routingClaim t' tokenStr cached token :=
  { h with notEarly := fun nbf hnbf => (h.notEarly nbf hnbf).trans ht }

/-- Such a token is valid until it expires. -/
theorem AcceptedUntil.validate_eq (h : AcceptedUntil decode routingClaim t tokenStr cached token)
    (ht : t ≤ now) :
    validate decode routingClaim now tokenStr =
      if ∀ exp ∈ numericDate token.claims "exp", now < exp then .ok cached
      else .error .invalidToken := by
  have haccepts : Accepts now token ↔ ∀ exp ∈ numericDate token.claims "exp", now < exp :=
    ⟨fun h => h.2.1, fun hexp => ⟨h.signed, hexp, (h.mono ht).notEarly⟩⟩
  simp only [validate, parse, h.decoded, Option.bind_some, haccepts]
  by_cases hexp : ∀ exp ∈ numericDate token.claims "exp", now < exp
  · simp only [if_pos hexp, if_neg h.key_ne, h.cached_eq]
  · simp only [if_neg hexp]

theorem sound_new (maxSize : ℤ) (t : Time) : Sound decode routingClaim t (.new maxSize) :=
  fun _ _ h => (by cases h)

theorem Sound.step (h : Sound decode routingClaim t cache) (call : Call) (ht : t ≤ call.time) :
    Sound decode routingClaim call.time (step decode routingClaim cache call).2 := by
  intro tokenStr cached hcached
  cases call with
  | extract now authHeader =>
    rcases lookup_of_extractUserIDFromJWT hcached with hold | hnew
    · obtain ⟨token, hold⟩ := h tokenStr cached hold
      exact ⟨token, hold.mono ht⟩
    · obtain ⟨token, hdecode, haccepts, hkey, heq⟩ := validate_eq_ok hnew
      exact ⟨token, hdecode, haccepts.1, haccepts.2.2, hkey, heq⟩
  | sweep now drawn =>
    obtain ⟨token, hold⟩ := h tokenStr cached (JWTCache.lookup_of_sweep hcached)
    exact ⟨token, hold.mono ht⟩

/-! ## The answers -/

/-- The call is for a cached token, at the very instant of its expiry. -/
def AtExpiry (decode : String → Option Token) (cache : JWTCache) : Call → Prop
  | .extract now authHeader => ∃ tokenStr ∈ bearer authHeader, ∃ token ∈ decode tokenStr,
      (cache.data.lookup tokenStr).isSome ∧ numericDate token.claims "exp" = some now
  | .sweep _ _ => False

/-- The answer to a call with nothing cached. -/
def fresh (decode : String → Option Token) (routingClaim : String) (maxSize : ℤ) (call : Call) :
    Option (Except Error RoutingKey) :=
  (step decode routingClaim (.new maxSize) call).1

/-- A token in the cache is answered as if it were not, unless this is the
instant of its expiry. -/
theorem AcceptedUntil.answer_iff (h : AcceptedUntil decode routingClaim t tokenStr cached token)
    (ht : t ≤ now) (hcached : cache.data.lookup tokenStr = some cached) :
    ((cache.get now tokenStr).1.elim (validate decode routingClaim now tokenStr) .ok).map
          CachedJWT.routingKey =
        (validate decode routingClaim now tokenStr).map CachedJWT.routingKey ↔
      numericDate token.claims "exp" ≠ some now := by
  by_cases hexpired : cached.exp < now
  · -- The entry is dropped, and the date is not this instant.
    rw [JWTCache.get_fst_of_lt hcached hexpired]
    refine iff_of_true rfl fun hdate => ?_
    rw [h.cached_eq, exp_cachedOf_of_numericDate hdate] at hexpired
    exact lt_irrefl now hexpired
  · rw [JWTCache.get_fst_of_not_lt hcached hexpired, h.validate_eq ht]
    by_cases hexp : ∀ exp ∈ numericDate token.claims "exp", now < exp
    · rw [if_pos hexp]
      exact iff_of_true rfl fun hdate => lt_irrefl now (hexp now hdate)
    · rw [if_neg hexp]
      refine iff_of_false (fun heq => by cases heq) fun hne => hexp fun exp hexp' => ?_
      -- A date that is not over and not this instant is still to come.
      rw [h.cached_eq, exp_cachedOf_of_numericDate hexp'] at hexpired
      exact lt_of_le_of_ne (not_lt.1 hexpired) fun heq => hne (heq ▸ hexp')

theorem Sound.answer_iff (h : Sound decode routingClaim t cache) (maxSize : ℤ) (call : Call)
    (ht : t ≤ call.time) :
    (Jwt.step decode routingClaim cache call).1 = fresh decode routingClaim maxSize call ↔
      ¬ AtExpiry decode cache call := by
  cases call with
  | sweep now drawn => exact iff_of_true rfl id
  | extract now authHeader =>
    rcases hbearer : bearer authHeader with - | tokenStr
    · refine iff_of_true ?_ ?_
      · simp only [fresh, Jwt.step, extractUserIDFromJWT, hbearer]
      · rintro ⟨tokenStr, htoken, -⟩
        rw [hbearer] at htoken
        cases htoken
    · have hfresh : ((JWTCache.new maxSize).get now tokenStr).1 = none := rfl
      simp only [fresh, Jwt.step, extractUserIDFromJWT_fst hbearer, hfresh,
        Option.elim_none, Option.some.injEq]
      rcases hcached : cache.data.lookup tokenStr with - | cached
      · rw [JWTCache.get_fst_of_none hcached]
        refine iff_of_true rfl ?_
        rintro ⟨tokenStr', htoken, -, -, hsome, -⟩
        obtain rfl := Option.some.inj (hbearer.symm.trans htoken)
        rw [hcached] at hsome
        cases hsome
      · obtain ⟨token, haccepted⟩ := h tokenStr cached hcached
        rw [haccepted.answer_iff (show t ≤ now from ht) hcached, ne_eq, not_iff_not]
        constructor
        · intro hdate
          exact ⟨tokenStr, hbearer, token, haccepted.decoded, hcached ▸ rfl, hdate⟩
        · rintro ⟨tokenStr', htoken, token', hdecode, -, hdate⟩
          obtain rfl := Option.some.inj (hbearer.symm.trans htoken)
          obtain rfl := Option.some.inj (haccepted.decoded.symm.trans hdecode)
          exact hdate

/-- **When the token cache is transparent.** For every run of calls and
sweeps at nondecreasing times, with any tokens: every call has the routing
key or the error it has with nothing cached, if and only if none is made for
a cached token at the very instant of its expiry. -/
theorem transparent_iff_not_atExpiry (decode : String → Option Token) (routingClaim : String)
    (maxSize : ℤ) (calls : List Call) (hcalls : InOrder Call.time calls) :
    (∀ p ∈ replies (step decode routingClaim) (.new maxSize) calls,
      p.2 = fresh decode routingClaim maxSize p.1) ↔
      Meets (step decode routingClaim) (fun cache call => ¬ AtExpiry decode cache call)
        (.new maxSize) calls := by
  obtain ⟨t, hfrom⟩ := hcalls.exists_from
  refine forall_replies_iff_meets (I := Sound decode routingClaim)
    (fun call answer => answer = fresh decode routingClaim maxSize call)
    ?_ ?_ (sound_new maxSize t) hfrom
  · intro t cache call h ht
    exact h.step call ht
  · intro t cache call h ht
    exact h.answer_iff maxSize call ht

/-- One validly signed token, of user `u`, that expires at second one. -/
def decodeOne (tokenStr : String) : Option Token :=
  if tokenStr = "t" then
    some ⟨true, (∅ : Claims).insert "sub" (.text "u") |>.insert "exp" (.number 1)⟩
  else none

/-- Called twice before the expiry, and once after it. -/
theorem transparent_decodeOne :
    (replies (step decodeOne "sub") (.new 0)
      [.extract (unixTime 0) "Bearer t", .extract (unixTime 0 + 1) "Bearer t",
        .sweep (unixTime 1) [], .extract (unixTime 2) "Bearer t"]).map Prod.snd =
      [some (.ok "u"), some (.ok "u"), none, some (.error .invalidToken)] ∧
    ∀ p ∈ replies (step decodeOne "sub") (.new 0)
      [.extract (unixTime 0) "Bearer t", .extract (unixTime 0 + 1) "Bearer t",
        .sweep (unixTime 1) [], .extract (unixTime 2) "Bearer t"],
      p.2 = fresh decodeOne "sub" 0 p.1 := by
  refine ⟨rfl, (transparent_iff_not_atExpiry decodeOne "sub" 0 _ (by decide +kernel)).2
    ⟨?_, ?_, fun h => h, ?_, trivial⟩⟩
  all_goals
    rintro ⟨tokenStr, htoken, token, hdecode, -, hdate⟩
    obtain rfl : tokenStr = "t" := Option.some.inj (htoken.symm.trans (by decide +kernel))
    obtain rfl := Option.some.inj hdecode
    exact absurd hdate (by decide +kernel)

/-- Cached a nanosecond before its expiry, a token is let through at the
expiry, where it is rejected if it is not cached. -/
theorem cached_token_accepted_at_expiry :
    InOrder Call.time [.extract (unixTime 1 - 1) "Bearer t", .extract (unixTime 1) "Bearer t"] ∧
      (replies (step decodeOne "sub") (.new 0)
        [.extract (unixTime 1 - 1) "Bearer t", .extract (unixTime 1) "Bearer t"]).map Prod.snd =
          [some (.ok "u"), some (.ok "u")] ∧
      fresh decodeOne "sub" 0 (.extract (unixTime 1) "Bearer t") =
        some (.error .invalidToken) :=
  ⟨by decide +kernel, rfl, rfl⟩

end Jwt

end StickyProxy
