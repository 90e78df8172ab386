import StickyProxy.Config.Model.Load
import StickyProxy.Common.Fallible
/-!
# What `Load` accepts, and whom it blames

`Load` returns the consistent configurations and no others: each of them can
be written down as an environment that it reads back. An error of `Load` is
the fault of the variables that it names: whatever the other variables are
set to, `Load` fails as long as these are what they are.
-/

namespace StickyProxy.Configuration

open Fallible

variable {lib : Library} {env env' : Env} {cfg : Config}

/-! ## Texts -/

theorem digits_toDigits (n : ℕ) : digits (Nat.toDigits 10 n) = some n := by
  have hne : Nat.toDigits 10 n ≠ [] := Nat.toDigits_ne_nil
  have hall : (Nat.toDigits 10 n).all Char.isDigit = true :=
    List.all_eq_true.2 fun c hc => Nat.isDigit_of_mem_toDigits (by decide) (by decide) hc
  rw [digits, if_pos ⟨hne, hall⟩, Nat.ofDigitChars_toDigits (by decide) (by decide)]

/-- A number is read back as it is written. -/
theorem signed_toString (n : ℤ) : signed (toString n) = some n := by
  cases n with
  | ofNat m =>
    have htext : (toString (Int.ofNat m)).toList = Nat.toDigits 10 m := Nat.toList_repr
    have hdigit : ∀ c ∈ Nat.toDigits 10 m, c.isDigit = true :=
      fun c hc => Nat.isDigit_of_mem_toDigits (by decide) (by decide) hc
    unfold signed
    rw [htext]
    split
    · rename_i cs heq
      cases hdigit '-' (heq ▸ List.mem_cons_self)
    · rename_i cs heq
      cases hdigit '+' (heq ▸ List.mem_cons_self)
    · rw [digits_toDigits]
      rfl
  | negSucc m =>
    have htext : (toString (Int.negSucc m)).toList = '-' :: Nat.toDigits 10 (m + 1) := by
      change ("-" ++ (m + 1).repr).toList = _
      rw [String.toList_append, Nat.toList_repr]
      rfl
    unfold signed
    rw [htext]
    change (digits (Nat.toDigits 10 (m + 1))).map (fun n : ℕ => -(n : ℤ)) = _
    rw [digits_toDigits]
    rfl

theorem atoi_toString {n : ℤ} (hn : Word n) : atoi lib (toString n) = .ok n := by
  rw [atoi, signed_toString]
  exact if_pos hn

theorem word_of_atoi {s : String} {n : ℤ} (h : atoi lib s = .ok n) : Word n := by
  unfold atoi at h
  split at h
  · cases h
  · split_ifs at h with hword
    cases h
    exact hword

theorem toString_ne_empty (n : ℤ) : toString n ≠ "" := by
  intro h
  have hread := signed_toString n
  rw [h] at hread
  cases hread

/-- Trimming twice is trimming once: the first character left is not a space,
and cutting at the end does not change it. -/
theorem trimSpace_trimSpace (s : String) : trimSpace (trimSpace s) = trimSpace s := by
  unfold trimSpace
  rw [String.toList_ofList]
  set l := s.toList.dropWhile isSpace with hl
  have hleft : (l.rdropWhile isSpace).dropWhile isSpace = l.rdropWhile isSpace := by
    rw [List.dropWhile_eq_self_iff]
    intro hne
    have hcut := List.rdropWhile_prefix isSpace l
    rw [hcut.getElem hne]
    exact List.dropWhile_eq_self_iff.1 (hl ▸ List.dropWhile_idempotent isSpace _)
      (Nat.lt_of_lt_of_le hne hcut.length_le)
  rw [hleft, List.rdropWhile_idempotent]

/-- Trimming only takes characters away. -/
theorem mem_of_mem_trimSpace {s : String} {c : Char} (h : c ∈ (trimSpace s).toList) :
    c ∈ s.toList := by
  rw [trimSpace, String.toList_ofList] at h
  exact (List.dropWhile_sublist _).subset ((List.rdropWhile_prefix _ _).subset h)

/-- There is no comma in what stands between commas. -/
theorem notMem_of_mem_splitOn {c : Char} {l cs : List Char} (h : cs ∈ l.splitOn c) : c ∉ cs := by
  unfold List.splitOn at h
  induction l generalizing cs with
  | nil =>
    rw [List.splitOnP_nil, List.mem_singleton] at h
    rw [h]
    exact List.not_mem_nil
  | cons x l ih =>
    rw [List.splitOnP_cons_eq_if_modifyHead] at h
    split_ifs at h with hx
    · rcases List.mem_cons.1 h with rfl | h
      · exact List.not_mem_nil
      · exact ih h
    · have hxc : c ≠ x := fun heq => hx (beq_iff_eq.2 heq.symm)
      cases hl : l.splitOnP (· == c) with
      | nil =>
        rw [hl] at h
        cases h
      | cons first rest =>
        rw [hl, List.modifyHead_cons] at h
        rcases List.mem_cons.1 h with rfl | h
        · have hfirst : c ∉ first := ih (hl ▸ List.mem_cons_self)
          exact List.not_mem_cons_of_ne_of_not_mem hxc hfirst
        · exact ih (hl ▸ List.mem_cons_of_mem _ h)

/-! ## Variables -/

theorem parsed_of_ne {parse : String → Except String ℤ} {key : Var} {fallback n : ℤ}
    (hne : env key ≠ "") (h : parse (env key) = .ok n) : parsed parse env key fallback = .ok n := by
  rw [parsed, if_neg hne, h]
  rfl

/-- What is read is the default or what `parse` reads. -/
theorem parsed_eq_ok {parse : String → Except String ℤ} {key : Var} {fallback n : ℤ}
    (h : parsed parse env key fallback = .ok n) : n = fallback ∨ parse (env key) = .ok n := by
  unfold parsed at h
  split_ifs at h
  · exact Or.inl (Except.ok.inj h).symm
  · right
    cases hp : parse (env key) with
    | error e => rw [hp] at h; cases h
    | ok m => rw [hp] at h; cases h; rfl

theorem word_of_parseInt {key : Var} {fallback n : ℤ} (hdefault : Word fallback)
    (h : parseInt lib env key fallback = .ok n) : Word n := by
  rcases parsed_eq_ok h with rfl | h
  · exact hdefault
  · exact word_of_atoi h

theorem word_of_parseDuration {key : Var} {fallback d : Duration} (hdefault : Word fallback)
    (h : parseDuration lib env key fallback = .ok d) : Word d := by
  rcases parsed_eq_ok h with rfl | h
  · exact hdefault
  · exact lib.word_of_parseDuration _ _ h

theorem envOrDefault_ne_empty {key : Var} {fallback : String} (h : fallback ≠ "") :
    envOrDefault env key fallback ≠ "" := by
  unfold envOrDefault
  split_ifs with hset
  · exact hset
  · exact h

theorem head?_withColon (port : String) : (withColon port).toList.head? = some ':' := by
  unfold withColon
  split_ifs with h
  · rw [String.toList_append]
    rfl
  · exact not_not.1 h

theorem check_eq_ok {violated : Bool} {e : LoadError} {u : Unit} :
    check violated e = .ok u ↔ violated = false := by
  unfold check
  cases violated with
  | true => exact ⟨nofun, nofun⟩
  | false => exact ⟨fun _ => rfl, fun _ => rfl⟩

/-- Of the public paths none is empty, has a comma in it, or a space at an
end. -/
theorem publicPaths_tidy {p : String} (h : p ∈ publicPaths env) :
    p ≠ "" ∧ ',' ∉ p.toList ∧ trimSpace p = p := by
  unfold publicPaths at h
  split_ifs at h
  · simp only [List.mem_filter, List.mem_map, splitCommas, decide_eq_true_eq] at h
    obtain ⟨⟨s, ⟨cs, hcs, rfl⟩, rfl⟩, hne⟩ := h
    refine ⟨hne, fun hcomma => ?_, trimSpace_trimSpace _⟩
    have hmem := mem_of_mem_trimSpace hcomma
    rw [String.toList_ofList] at hmem
    exact notMem_of_mem_splitOn hcs hmem
  · cases h

/-! ## The configurations that `Load` returns -/

namespace Config

/-- The numbers of a configuration. -/
def numbers (cfg : Config) : List ℤ :=
  [cfg.cacheTTL, cfg.redisPoolSize, cfg.redisMinIdleConns, cfg.redisCBThreshold,
    cfg.redisCBCooldown, cfg.jwtCacheMaxSize, cfg.evictionThreshold, cfg.evictionCooldown,
    cfg.backendHealthInterval, cfg.hooksTimeout, cfg.hooksRetries, cfg.drainTimeout,
    cfg.accountsRefreshInterval, cfg.backendDiscoveryInterval, cfg.holdTimeout,
    cfg.poisonPillThreshold, cfg.poisonPillWindow, cfg.backendMaxConnsPerHost,
    cfg.backendMaxIdleConnsPerHost, cfg.backendIdleConnTimeout]

/-- The parts of a configuration fit together. -/
structure Consistent (cfg : Config) : Prop where
  proxyPort : cfg.proxyPort.toList.head? = some ':'
  redisAddr : cfg.redisAddr ≠ ""
  jwtSecret : cfg.jwtSecret ≠ ""
  routingClaim : cfg.routingClaim ≠ ""
  backendDiscoveryPort : cfg.backendDiscoveryPort ≠ ""
  numbers : ∀ n ∈ cfg.numbers, Word n
  publicPaths : ∀ p ∈ cfg.publicPaths, p ≠ "" ∧ ',' ∉ p.toList ∧ trimSpace p = p
  /-- There is a table of assignments only in one of the modes, and accounts
  are discovered for it and rebalanced in it. -/
  accounts : cfg.accountsDiscovery ≠ .disabled → cfg.routingMode = .assignment
  rebalance : cfg.rebalanceStrategy ≠ .none → cfg.routingMode = .assignment
  memory : cfg.assignmentStore = .memory → cfg.routingMode = .hash
  postgres : cfg.assignmentStore = .postgres →
    cfg.routingMode = .assignment ∧ cfg.postgresDSN ≠ ""
  /-- Accounts come from Redis only if it is there for the assignments. -/
  redis : cfg.accountsDiscovery = .redis → cfg.assignmentStore = .redis
  accountsDSN : cfg.accountsDiscovery = .postgres → cfg.postgresDSN ≠ ""
  dns : cfg.backendDiscovery = .dns → cfg.backendDiscoveryHost ≠ ""
  kubernetes : cfg.backendDiscovery = .kubernetes → cfg.backendDiscoverySelector ≠ ""

end Config

theorem crossField_eq_ok {mode : RoutingMode} {discovery : AccountsDiscovery} {dsn : String}
    {strategy : RebalanceStrategy} {backends : BackendDiscovery} {host selector : String}
    {store : AssignmentStore} {u : Unit} :
    crossField mode discovery dsn strategy backends host selector store = .ok u ↔
      (discovery ≠ .disabled → mode = .assignment) ∧ (discovery = .postgres → dsn ≠ "") ∧
      (backends = .dns → host ≠ "") ∧ (backends = .kubernetes → selector ≠ "") ∧
      (strategy ≠ .none → mode = .assignment) ∧ (store = .memory → mode = .hash) ∧
      (store = .postgres → mode = .assignment) ∧ (store = .postgres → dsn ≠ "") ∧
      (discovery = .redis → store = .redis) := by
  simp only [crossField, bind_eq_ok, check_eq_ok, exists_const, decide_eq_false_iff_not,
    not_and, not_not]

theorem consistent_of_load (h : load lib env = .ok cfg) : cfg.Consistent := by
  suffices hload : Ensures Config.Consistent (load lib env) from hload cfg h
  unfold load
  refine .bind fun _ hsecret => ?_
  refine .bind fun cacheTTL hcacheTTL => ?_
  refine .bind fun redisPoolSize hredisPoolSize => ?_
  refine .bind fun redisMinIdleConns hredisMinIdleConns => ?_
  refine .bind fun redisCBThreshold hredisCBThreshold => ?_
  refine .bind fun redisCBCooldown hredisCBCooldown => ?_
  refine .bind fun jwtCacheMaxSize hjwtCacheMaxSize => ?_
  refine .bind fun evictionThreshold hevictionThreshold => ?_
  refine .bind fun evictionCooldown hevictionCooldown => ?_
  refine .bind fun backendHealthInterval hbackendHealthInterval => ?_
  refine .bind fun hooksTimeout hhooksTimeout => ?_
  refine .bind fun hooksRetries hhooksRetries => ?_
  refine .bind fun drainTimeout hdrainTimeout => ?_
  refine .bind fun routingMode _ => ?_
  refine .bind fun accountsDiscovery _ => ?_
  refine .bind fun accountsRefreshInterval haccountsRefreshInterval => ?_
  refine .bind fun rebalanceStrategy _ => ?_
  refine .bind fun backendDiscovery _ => ?_
  refine .bind fun backendDiscoveryInterval hbackendDiscoveryInterval => ?_
  refine .bind fun assignmentStore _ => ?_
  refine .bind fun _ hcross => ?_
  refine .bind fun holdTimeout hholdTimeout => ?_
  refine .bind fun poisonPillAction _ => ?_
  refine .bind fun poisonPillThreshold hpoisonPillThreshold => ?_
  refine .bind fun poisonPillWindow hpoisonPillWindow => ?_
  refine .bind fun backendMaxConnsPerHost hbackendMaxConnsPerHost => ?_
  refine .bind fun backendMaxIdleConnsPerHost hbackendMaxIdleConnsPerHost => ?_
  refine .bind fun backendIdleConnTimeout hbackendIdleConnTimeout => ?_
  refine .bind fun logFormat _ => ?_
  refine .ok ?_
  obtain ⟨haccounts, haccountsDSN, hdns, hkubernetes, hrebalance, hmemory, hpostgres,
    hpostgresDSN, hredis⟩ := crossField_eq_ok.1 hcross
  exact
    { proxyPort := head?_withColon _
      redisAddr := envOrDefault_ne_empty (by decide)
      jwtSecret := of_decide_eq_false (check_eq_ok.1 hsecret)
      routingClaim := envOrDefault_ne_empty (by decide)
      backendDiscoveryPort := envOrDefault_ne_empty (by decide)
      numbers := by
        have hi {key fallback n} := @word_of_parseInt lib env key fallback n
        have hd {key fallback n} := @word_of_parseDuration lib env key fallback n
        simp only [Config.numbers, List.forall_mem_cons]
        exact ⟨hd (by decide) hcacheTTL, hi (by decide) hredisPoolSize,
          hi (by decide) hredisMinIdleConns, hi (by decide) hredisCBThreshold,
          hd (by decide) hredisCBCooldown, hi (by decide) hjwtCacheMaxSize,
          hi (by decide) hevictionThreshold, hd (by decide) hevictionCooldown,
          hd (by decide) hbackendHealthInterval, hd (by decide) hhooksTimeout,
          hi (by decide) hhooksRetries, hd (by decide) hdrainTimeout,
          hd (by decide) haccountsRefreshInterval, hd (by decide) hbackendDiscoveryInterval,
          hd (by decide) hholdTimeout, hi (by decide) hpoisonPillThreshold,
          hd (by decide) hpoisonPillWindow, hi (by decide) hbackendMaxConnsPerHost,
          hi (by decide) hbackendMaxIdleConnsPerHost, hd (by decide) hbackendIdleConnTimeout,
          nofun⟩
      publicPaths := fun p hp => publicPaths_tidy hp
      accounts := haccounts
      rebalance := hrebalance
      memory := hmemory
      postgres := fun h => ⟨hpostgres h, hpostgresDSN h⟩
      redis := hredis
      accountsDSN := haccountsDSN
      dns := hdns
      kubernetes := hkubernetes }

/-! ## Writing a configuration down -/

/-- The text of an option. -/
def textOf {A : Type} [DecidableEq A] (table : List (String × A)) (a : A) : String :=
  ((table.find? fun entry => entry.2 = a).map Prod.fst).getD ""

/-- The text of a switch that is off unless it is `true`. -/
def onText (b : Bool) : String := if b then "true" else ""

/-- An environment that says what a configuration says. -/
def render (cfg : Config) : Env
  | .proxyPort => cfg.proxyPort
  | .redisAddr => cfg.redisAddr
  | .jwtSecret => cfg.jwtSecret
  | .cacheTTL => toString cfg.cacheTTL ++ "ns"
  | .redisPoolSize => toString cfg.redisPoolSize
  | .redisMinIdleConns => toString cfg.redisMinIdleConns
  | .redisCBThreshold => toString cfg.redisCBThreshold
  | .redisCBCooldown => toString cfg.redisCBCooldown ++ "ns"
  | .jwtCacheMaxSize => toString cfg.jwtCacheMaxSize
  | .evictionThreshold => toString cfg.evictionThreshold
  | .evictionCooldown => toString cfg.evictionCooldown ++ "ns"
  | .backendHealthInterval => toString cfg.backendHealthInterval ++ "ns"
  | .routingClaim => cfg.routingClaim
  | .hooksEnabled => onText cfg.hooksEnabled
  | .hooksTimeout => toString cfg.hooksTimeout ++ "ns"
  | .hooksRetries => toString cfg.hooksRetries
  | .drainTimeout => toString cfg.drainTimeout ++ "ns"
  | .drainOnUnhealthy => onText cfg.drainOnUnhealthy
  | .routingMode => textOf routingModes cfg.routingMode
  | .accountsDiscovery => textOf accountsDiscoveries cfg.accountsDiscovery
  | .accountsQuery => cfg.accountsQuery
  | .postgresDSN => cfg.postgresDSN
  | .accountsRefreshInterval => toString cfg.accountsRefreshInterval ++ "ns"
  | .rebalanceStrategy => textOf rebalanceStrategies cfg.rebalanceStrategy
  | .rebalanceOnScale => onText cfg.rebalanceOnScale
  | .backendDiscovery => textOf backendDiscoveries cfg.backendDiscovery
  | .backendDiscoveryHost => cfg.backendDiscoveryHost
  | .backendDiscoveryPort => cfg.backendDiscoveryPort
  | .backendDiscoveryInterval => toString cfg.backendDiscoveryInterval ++ "ns"
  | .backendDiscoveryNamespace => cfg.backendDiscoveryNamespace
  | .backendDiscoverySelector => cfg.backendDiscoverySelector
  | .backendDiscoveryPortName => cfg.backendDiscoveryPortName
  | .assignmentStore => textOf assignmentStores cfg.assignmentStore
  | .wsSwapOnRebalance => if cfg.wsSwapOnRebalance then "" else "false"
  | .holdDuringTransition => onText cfg.holdDuringTransition
  | .holdTimeout => toString cfg.holdTimeout ++ "ns"
  | .poisonPillAction => textOf poisonPillActions cfg.poisonPillAction
  | .poisonPillThreshold => toString cfg.poisonPillThreshold
  | .poisonPillWindow => toString cfg.poisonPillWindow ++ "ns"
  | .backendMaxConnsPerHost => toString cfg.backendMaxConnsPerHost
  | .backendMaxIdleConnsPerHost => toString cfg.backendMaxIdleConnsPerHost
  | .backendIdleConnTimeout => toString cfg.backendIdleConnTimeout ++ "ns"
  | .publicPaths => String.ofList ([','].intercalate (cfg.publicPaths.map String.toList))
  | .adminToken => cfg.adminToken
  | .logFormat => textOf logFormats cfg.logFormat

theorem parseInt_of_text {key : Var} {n : ℤ} (fallback : ℤ) (htext : env key = toString n)
    (hn : Word n) : parseInt lib env key fallback = .ok n :=
  parsed_of_ne (htext ▸ toString_ne_empty n) (htext ▸ atoi_toString hn)

theorem parseDuration_of_text {key : Var} {d : Duration} (fallback : Duration)
    (htext : env key = toString d ++ "ns") (hd : Word d) :
    parseDuration lib env key fallback = .ok d := by
  refine parsed_of_ne (fun hempty => ?_) (htext ▸ lib.parseDuration_ns d hd)
  have hlist := congrArg String.toList (htext.symm.trans hempty)
  rw [String.toList_append] at hlist
  exact List.cons_ne_nil _ _ (List.append_eq_nil_iff.1 hlist).2

theorem oneOf_of_mem {A : Type} {key : Var} {options value : String}
    {table : List (String × A)} {a : A} (h : table.lookup value = some a) :
    oneOf key options table value = .ok a := by
  rw [oneOf, h]

theorem envOrDefault_of_ne {key : Var} {value : String} (fallback : String)
    (h : env key = value) (hne : value ≠ "") : envOrDefault env key fallback = value := by
  rw [envOrDefault, h, if_pos hne]

theorem publicPaths_of_text {paths : List String}
    (htext : env .publicPaths = String.ofList ([','].intercalate (paths.map String.toList)))
    (hpaths : ∀ p ∈ paths, p ≠ "" ∧ ',' ∉ p.toList ∧ trimSpace p = p) :
    publicPaths env = paths := by
  unfold publicPaths
  rw [htext]
  cases paths with
  | nil => rfl
  | cons first rest =>
    set paths := first :: rest with hdef
    have hsplit : (String.ofList ([','].intercalate (paths.map String.toList))).toList.splitOn ','
        = paths.map String.toList := by
      rw [String.toList_ofList]
      refine List.splitOn_intercalate ',' (fun l hl => ?_) (by simp [hdef])
      obtain ⟨p, hp, rfl⟩ := List.mem_map.1 hl
      exact (hpaths p hp).2.1
    have hne : String.ofList ([','].intercalate (paths.map String.toList)) ≠ "" := by
      intro hempty
      rw [hempty] at hsplit
      -- nothing between commas would be an empty path
      have hfirst : first.toList = [] := (List.cons.inj (hsplit.symm.trans rfl)).1
      exact (hpaths first List.mem_cons_self).1 (String.toList_eq_nil_iff.1 hfirst)
    have htrim : ((paths.map String.toList).map String.ofList).map trimSpace = paths := by
      rw [List.map_map, List.map_map]
      refine (List.map_congr_left fun p hp => ?_).trans (List.map_id paths)
      exact (congrArg trimSpace String.ofList_toList).trans (hpaths p hp).2.2
    rw [if_pos hne, splitCommas, hsplit, htrim]
    exact List.filter_eq_self.2 fun p hp => decide_eq_true (hpaths p hp).1

/-- **What is written down is read back.** -/
theorem load_render (lib : Library) (hcfg : cfg.Consistent) : load lib (render cfg) = .ok cfg := by
  have hint {key : Var} {n : ℤ} (fallback : ℤ) (hn : n ∈ cfg.numbers)
      (htext : render cfg key = toString n) : parseInt lib (render cfg) key fallback = .ok n :=
    parseInt_of_text fallback htext (hcfg.numbers n hn)
  have hdur {key : Var} {d : Duration} (fallback : Duration) (hd : d ∈ cfg.numbers)
      (htext : render cfg key = toString d ++ "ns") :
      parseDuration lib (render cfg) key fallback = .ok d :=
    parseDuration_of_text fallback htext (hcfg.numbers d hd)
  have hon (key : Var) {b : Bool} (htext : render cfg key = onText b) :
      decide (render cfg key = "true") = b := by
    rw [htext]
    cases b <;> rfl
  have hport : withColon (envOrDefault (render cfg) .proxyPort ":8080") = cfg.proxyPort := by
    have hne : cfg.proxyPort ≠ "" := by
      intro hempty
      have := hcfg.proxyPort
      rw [hempty] at this
      cases this
    have hset : envOrDefault (render cfg) .proxyPort ":8080" = cfg.proxyPort :=
      envOrDefault_of_ne _ rfl hne
    rw [hset, withColon, if_neg (not_not.2 hcfg.proxyPort)]
  have hswap : decide (render cfg .wsSwapOnRebalance ≠ "false") = cfg.wsSwapOnRebalance := by
    unfold render
    cases cfg.wsSwapOnRebalance <;> rfl
  have hmode : envOrDefault (render cfg) .routingMode "hash" =
      textOf routingModes cfg.routingMode :=
    envOrDefault_of_ne _ rfl (by cases cfg.routingMode <;> decide)
  have hstrategy : envOrDefault (render cfg) .rebalanceStrategy "none" =
      textOf rebalanceStrategies cfg.rebalanceStrategy :=
    envOrDefault_of_ne _ rfl (by cases cfg.rebalanceStrategy <;> decide)
  have hstore : storeOrDefault (render cfg) cfg.accountsDiscovery cfg.routingMode =
      textOf assignmentStores cfg.assignmentStore := by
    have hne : textOf assignmentStores cfg.assignmentStore ≠ "" := by
      cases cfg.assignmentStore <;> decide
    exact if_pos hne
  have hformat : envOrDefault (render cfg) .logFormat "json" = textOf logFormats cfg.logFormat :=
    envOrDefault_of_ne _ rfl (by cases cfg.logFormat <;> decide)
  simp only [load, bind_eq_ok, check_eq_ok, exists_const, decide_eq_false_iff_not, crossField_eq_ok]
  refine ⟨hcfg.jwtSecret, _, hdur _ (by simp [Config.numbers]) rfl,
    _, hint _ (by simp [Config.numbers]) rfl, _, hint _ (by simp [Config.numbers]) rfl,
    _, hint _ (by simp [Config.numbers]) rfl, _, hdur _ (by simp [Config.numbers]) rfl,
    _, hint _ (by simp [Config.numbers]) rfl, _, hint _ (by simp [Config.numbers]) rfl,
    _, hdur _ (by simp [Config.numbers]) rfl, _, hdur _ (by simp [Config.numbers]) rfl,
    _, hdur _ (by simp [Config.numbers]) rfl, _, hint _ (by simp [Config.numbers]) rfl,
    _, hdur _ (by simp [Config.numbers]) rfl,
    cfg.routingMode, oneOf_of_mem (by rw [hmode]; cases cfg.routingMode <;> rfl),
    cfg.accountsDiscovery, oneOf_of_mem (by unfold render; cases cfg.accountsDiscovery <;> rfl),
    _, hdur _ (by simp [Config.numbers]) rfl,
    cfg.rebalanceStrategy, oneOf_of_mem (by rw [hstrategy]; cases cfg.rebalanceStrategy <;> rfl),
    cfg.backendDiscovery, oneOf_of_mem (by unfold render; cases cfg.backendDiscovery <;> rfl),
    _, hdur _ (by simp [Config.numbers]) rfl,
    cfg.assignmentStore, oneOf_of_mem (by rw [hstore]; cases cfg.assignmentStore <;> rfl),
    ⟨hcfg.accounts, hcfg.accountsDSN, hcfg.dns, hcfg.kubernetes, hcfg.rebalance, hcfg.memory,
      fun h => (hcfg.postgres h).1, fun h => (hcfg.postgres h).2, hcfg.redis⟩,
    _, hdur _ (by simp [Config.numbers]) rfl,
    cfg.poisonPillAction, oneOf_of_mem (by unfold render; cases cfg.poisonPillAction <;> rfl),
    _, hint _ (by simp [Config.numbers]) rfl, _, hdur _ (by simp [Config.numbers]) rfl,
    _, hint _ (by simp [Config.numbers]) rfl, _, hint _ (by simp [Config.numbers]) rfl,
    _, hdur _ (by simp [Config.numbers]) rfl,
    cfg.logFormat, oneOf_of_mem (by rw [hformat]; cases cfg.logFormat <;> rfl), ?_⟩
  rw [hport, hswap, envOrDefault_of_ne _ rfl hcfg.redisAddr,
    envOrDefault_of_ne _ rfl hcfg.routingClaim, envOrDefault_of_ne _ rfl hcfg.backendDiscoveryPort,
    publicPaths_of_text rfl hcfg.publicPaths, hon .hooksEnabled rfl, hon .drainOnUnhealthy rfl,
    hon .rebalanceOnScale rfl, hon .holdDuringTransition rfl]
  rfl

/-- **`Load` returns the consistent configurations**: every environment that
it accepts gives one, and every one of them is read from an environment. -/
theorem exists_load_eq_ok_iff (lib : Library) (cfg : Config) :
    (∃ env, load lib env = .ok cfg) ↔ cfg.Consistent :=
  ⟨fun ⟨_, h⟩ => consistent_of_load h, fun h => ⟨render cfg, load_render lib h⟩⟩

/-! ## The variables that an error names -/

/-- Two environments have the same values for what an error names. -/
def Agree (env env' : Env) (e : LoadError) : Prop := ∀ v ∈ e.vars, env' v = env v

theorem spreads_parsed (parse : String → Except String ℤ) (key : Var) (fallback : ℤ) :
    Spreads (Agree env env') (parsed parse env key fallback) (parsed parse env' key fallback) := by
  intro e he hagree
  have hkey : env' key = env key := by
    unfold parsed at he
    split_ifs at he
    cases hp : parse (env key) with
    | error cause =>
      rw [hp] at he
      cases he
      exact hagree key List.mem_cons_self
    | ok n =>
      rw [hp] at he
      cases he
  refine ⟨e, ?_⟩
  rw [← he, parsed, hkey, ← parsed]

theorem spreads_oneOf {A : Type} {key : Var} {options : String} {table : List (String × A)}
    {value value' : String} (h : env' key = env key → table.lookup value = none → value' = value) :
    Spreads (Agree env env') (oneOf key options table value) (oneOf key options table value') := by
  intro e he hagree
  cases hlookup : table.lookup value with
  | some a =>
    rw [oneOf, hlookup] at he
    cases he
  | none =>
    rw [oneOf, hlookup] at he
    cases he
    rw [h (hagree key List.mem_cons_self) hlookup, oneOf, hlookup]
    exact ⟨_, rfl⟩

theorem spreads_check {P : LoadError → Prop} {violated violated' : Bool} {e : LoadError}
    (h : P e → violated = true → violated' = true) :
    Spreads P (check violated e) (check violated' e) := by
  intro e' he hP
  unfold check at he ⊢
  split_ifs at he with hviolated
  cases he
  exact ⟨e, if_pos (h hP hviolated)⟩

theorem envOrDefault_congr {key : Var} (fallback : String) (h : env' key = env key) :
    envOrDefault env' key fallback = envOrDefault env key fallback := by
  rw [envOrDefault, h, envOrDefault]

theorem oneOf_eq_ok {A : Type} {key : Var} {options value : String} {table : List (String × A)}
    {a : A} (h : oneOf key options table value = .ok a) : table.lookup value = some a := by
  unfold oneOf at h
  split at h
  · rename_i hlookup
    cases h
    exact hlookup
  · cases h

/-- The options that are checked together, as they are read. -/
structure Options (env : Env) (m : RoutingMode) (d : AccountsDiscovery) (r : RebalanceStrategy)
    (b : BackendDiscovery) (st : AssignmentStore) : Prop where
  mode : routingModes.lookup (envOrDefault env .routingMode "hash") = some m
  discovery : accountsDiscoveries.lookup (env .accountsDiscovery) = some d
  strategy : rebalanceStrategies.lookup (envOrDefault env .rebalanceStrategy "none") = some r
  backends : backendDiscoveries.lookup (env .backendDiscovery) = some b
  store : assignmentStores.lookup (storeOrDefault env d m) = some st

section Options

variable {m m' : RoutingMode} {d d' : AccountsDiscovery} {r r' : RebalanceStrategy}
variable {b b' : BackendDiscovery} {st st' : AssignmentStore}

theorem Options.mode_eq (h : Options env m d r b st) (h' : Options env' m' d' r' b' st')
    (heq : env' .routingMode = env .routingMode) : m' = m := by
  have hmode := h'.mode
  rw [envOrDefault_congr _ heq, h.mode] at hmode
  exact (Option.some.inj hmode).symm

theorem Options.discovery_eq (h : Options env m d r b st) (h' : Options env' m' d' r' b' st')
    (heq : env' .accountsDiscovery = env .accountsDiscovery) : d' = d := by
  have hdiscovery := h'.discovery
  rw [heq, h.discovery] at hdiscovery
  exact (Option.some.inj hdiscovery).symm

theorem Options.strategy_eq (h : Options env m d r b st) (h' : Options env' m' d' r' b' st')
    (heq : env' .rebalanceStrategy = env .rebalanceStrategy) : r' = r := by
  have hstrategy := h'.strategy
  rw [envOrDefault_congr _ heq, h.strategy] at hstrategy
  exact (Option.some.inj hstrategy).symm

theorem Options.backends_eq (h : Options env m d r b st) (h' : Options env' m' d' r' b' st')
    (heq : env' .backendDiscovery = env .backendDiscovery) : b' = b := by
  have hbackends := h'.backends
  rw [heq, h.backends] at hbackends
  exact (Option.some.inj hbackends).symm

/-- A store that is set is the same for both. -/
theorem Options.store_eq (h : Options env m d r b st) (h' : Options env' m' d' r' b' st')
    (heq : env' .assignmentStore = env .assignmentStore) (hset : env .assignmentStore ≠ "") :
    st' = st := by
  have hstore := h.store
  have hstore' := h'.store
  rw [storeOrDefault, if_pos hset] at hstore
  rw [storeOrDefault, heq, if_pos hset, hstore] at hstore'
  exact (Option.some.inj hstore').symm

/-- One that is not set is given by the other options. -/
theorem Options.store_default (h : Options env m d r b st) (hempty : env .assignmentStore = "") :
    st = if d = .postgres then .postgres else if m = .hash then .memory else .redis := by
  have hstore := h.store
  rw [storeOrDefault, if_neg (not_not.2 hempty)] at hstore
  split_ifs at hstore ⊢ <;> exact (Option.some.inj hstore).symm

/-- **A conflict is between the two variables that the error names.** Where
one of them is the store, it has been set: a default would have been in
conflict with something that is checked before. -/
theorem spreads_crossField (h : Options env m d r b st) (h' : Options env' m' d' r' b' st') :
    Spreads (Agree env env')
      (crossField m d (env .postgresDSN) r b (env .backendDiscoveryHost)
        (env .backendDiscoverySelector) st)
      (crossField m' d' (env' .postgresDSN) r' b' (env' .backendDiscoveryHost)
        (env' .backendDiscoverySelector) st') := by
  have hpair {v w : Var} {x y : Option String} (hagree : Agree env env' (.requires v x w y)) :
      env' v = env v ∧ env' w = env w :=
    ⟨hagree v List.mem_cons_self, hagree w (List.mem_cons_of_mem _ List.mem_cons_self)⟩
  unfold crossField
  refine (spreads_check fun hagree hviolated => ?_).bind fun _ _ hmode _ => ?_
  · rwa [h.mode_eq h' (hpair hagree).2, h.discovery_eq h' (hpair hagree).1]
  refine (spreads_check fun hagree hviolated => ?_).bind fun _ _ hdsn _ => ?_
  · rwa [(hpair hagree).2, h.discovery_eq h' (hpair hagree).1]
  refine (spreads_check fun hagree hviolated => ?_).bind fun _ _ _ _ => ?_
  · rwa [(hpair hagree).2, h.backends_eq h' (hpair hagree).1]
  refine (spreads_check fun hagree hviolated => ?_).bind fun _ _ _ _ => ?_
  · rwa [(hpair hagree).2, h.backends_eq h' (hpair hagree).1]
  refine (spreads_check fun hagree hviolated => ?_).bind fun _ _ _ _ => ?_
  · rwa [h.mode_eq h' (hpair hagree).2, h.strategy_eq h' (hpair hagree).1]
  simp only [check_eq_ok, decide_eq_false_iff_not, not_and, not_not] at hmode hdsn
  refine (spreads_check fun hagree hviolated => ?_).bind fun _ _ _ _ => ?_
  · by_cases hset : env .assignmentStore = ""
    · have hst := h.store_default hset
      simp only [decide_eq_true_eq] at hviolated
      rw [hviolated.1] at hst
      split_ifs at hst with hd hm
      exact absurd hm hviolated.2
    · rwa [h.mode_eq h' (hpair hagree).2, h.store_eq h' (hpair hagree).1 hset]
  refine (spreads_check fun hagree hviolated => ?_).bind fun _ _ _ _ => ?_
  · by_cases hset : env .assignmentStore = ""
    · have hst := h.store_default hset
      simp only [decide_eq_true_eq] at hviolated
      rw [hviolated.1] at hst
      split_ifs at hst with hd
      exact absurd (hmode (by rw [hd]; decide)) hviolated.2
    · rwa [h.mode_eq h' (hpair hagree).2, h.store_eq h' (hpair hagree).1 hset]
  refine (spreads_check fun hagree hviolated => ?_).bind fun _ _ _ _ => ?_
  · by_cases hset : env .assignmentStore = ""
    · have hst := h.store_default hset
      simp only [decide_eq_true_eq] at hviolated
      rw [hviolated.1] at hst
      split_ifs at hst with hd
      exact absurd hviolated.2 (hdsn hd)
    · rwa [(hpair hagree).2, h.store_eq h' (hpair hagree).1 hset]
  refine spreads_check fun hagree hviolated => ?_
  by_cases hset : env .assignmentStore = ""
  · have hst := h.store_default hset
    simp only [decide_eq_true_eq] at hviolated
    rw [hviolated.1, hmode (by rw [hviolated.1]; decide)] at hst
    exact absurd hst hviolated.2
  · rwa [h.discovery_eq h' (hpair hagree).1, h.store_eq h' (hpair hagree).2 hset]

end Options

/-- **An error is the fault of the variables that it names**: `Load` fails
with every environment that has the same values for them. -/
theorem load_error_of_agree {e : LoadError} (h : load lib env = .error e)
    (hagree : ∀ v ∈ e.vars, env' v = env v) : ∃ e', load lib env' = .error e' := by
  have hint (key : Var) (fallback : ℤ) : Spreads (Agree env env')
      (parseInt lib env key fallback) (parseInt lib env' key fallback) :=
    spreads_parsed _ key fallback
  have hdur (key : Var) (fallback : Duration) : Spreads (Agree env env')
      (parseDuration lib env key fallback) (parseDuration lib env' key fallback) :=
    spreads_parsed _ key fallback
  suffices hload : Spreads (Agree env env') (load lib env) (load lib env') from hload e h hagree
  unfold load
  refine (spreads_check fun hagree hviolated => ?_).bind fun _ _ _ _ => ?_
  · rwa [hagree .jwtSecret List.mem_cons_self]
  refine (hdur .cacheTTL _).bind fun _ _ _ _ => ?_
  refine (hint .redisPoolSize _).bind fun _ _ _ _ => ?_
  refine (hint .redisMinIdleConns _).bind fun _ _ _ _ => ?_
  refine (hint .redisCBThreshold _).bind fun _ _ _ _ => ?_
  refine (hdur .redisCBCooldown _).bind fun _ _ _ _ => ?_
  refine (hint .jwtCacheMaxSize _).bind fun _ _ _ _ => ?_
  refine (hint .evictionThreshold _).bind fun _ _ _ _ => ?_
  refine (hdur .evictionCooldown _).bind fun _ _ _ _ => ?_
  refine (hdur .backendHealthInterval _).bind fun _ _ _ _ => ?_
  refine (hdur .hooksTimeout _).bind fun _ _ _ _ => ?_
  refine (hint .hooksRetries _).bind fun _ _ _ _ => ?_
  refine (hdur .drainTimeout _).bind fun _ _ _ _ => ?_
  refine (spreads_oneOf fun heq _ => envOrDefault_congr _ heq).bind fun m m' hm hm' => ?_
  refine (spreads_oneOf fun heq _ => heq).bind fun d d' hd hd' => ?_
  refine (hdur .accountsRefreshInterval _).bind fun _ _ _ _ => ?_
  refine (spreads_oneOf fun heq _ => envOrDefault_congr _ heq).bind fun r r' hr hr' => ?_
  refine (spreads_oneOf fun heq _ => heq).bind fun b b' hb hb' => ?_
  refine (hdur .backendDiscoveryInterval _).bind fun _ _ _ _ => ?_
  refine (spreads_oneOf fun heq hnone => ?_).bind fun st st' hst hst' => ?_
  · have hset : env .assignmentStore ≠ "" := by
      intro hempty
      rw [storeOrDefault, if_neg (not_not.2 hempty)] at hnone
      split_ifs at hnone <;> cases hnone
    rw [storeOrDefault, heq, if_pos hset, storeOrDefault, if_pos hset]
  have hoptions : Options env m d r b st := ⟨oneOf_eq_ok hm, oneOf_eq_ok hd, oneOf_eq_ok hr,
    oneOf_eq_ok hb, oneOf_eq_ok hst⟩
  have hoptions' : Options env' m' d' r' b' st' := ⟨oneOf_eq_ok hm', oneOf_eq_ok hd',
    oneOf_eq_ok hr', oneOf_eq_ok hb', oneOf_eq_ok hst'⟩
  refine (spreads_crossField hoptions hoptions').bind fun _ _ _ _ => ?_
  refine (hdur .holdTimeout _).bind fun _ _ _ _ => ?_
  refine (spreads_oneOf fun heq _ => heq).bind fun _ _ _ _ => ?_
  refine (hint .poisonPillThreshold _).bind fun _ _ _ _ => ?_
  refine (hdur .poisonPillWindow _).bind fun _ _ _ _ => ?_
  refine (hint .backendMaxConnsPerHost _).bind fun _ _ _ _ => ?_
  refine (hint .backendMaxIdleConnsPerHost _).bind fun _ _ _ _ => ?_
  refine (hdur .backendIdleConnTimeout _).bind fun _ _ _ _ => ?_
  refine (spreads_oneOf fun heq _ => envOrDefault_congr _ heq).bind fun _ _ _ _ => ?_
  exact .of_ok _

/-- A library that reads durations in nanoseconds and no others. -/
def nanoseconds : Library where
  quote s := "\"" ++ s ++ "\""
  parseDuration s :=
    match signed (String.ofList s.toList.dropLast.dropLast) with
    | some d => if Word d then .ok d else .error "time: invalid duration"
    | none => .error "time: invalid duration"
  parseDuration_ns d hd := by
    have htext : (toString d ++ "ns").toList.dropLast.dropLast = (toString d).toList := by
      rw [String.toList_append, show "ns".toList = ['n', 's'] from rfl]
      simp
    rw [htext, String.ofList_toList, signed_toString]
    exact if_pos hd
  word_of_parseDuration s d h := by
    split at h
    · split_ifs at h with hword
      cases h
      exact hword
    · cases h

/-- Accounts are to be discovered, but the mode is left at its default. -/
def hashed : Env
  | .jwtSecret => "secret"
  | .accountsDiscovery => "http"
  | _ => ""

theorem load_error_of_agree_hashed :
    load nanoseconds hashed = .error (.requires .accountsDiscovery none .routingMode "assignment") ∧
      ∃ e, load nanoseconds (fun v => if v = .routingMode then "" else hashed .accountsDiscovery) =
        .error e := by
  have hload : load nanoseconds hashed =
      .error (.requires .accountsDiscovery none .routingMode "assignment") := rfl
  refine ⟨hload, load_error_of_agree hload fun v hv => ?_⟩
  simp only [LoadError.vars, List.mem_cons, List.not_mem_nil, or_false] at hv
  obtain rfl | rfl := hv <;> rfl

example : (LoadError.requires .accountsDiscovery none .routingMode "assignment").message
    nanoseconds = "ACCOUNTS_DISCOVERY requires ROUTING_MODE=assignment" := by decide +kernel

end StickyProxy.Configuration
