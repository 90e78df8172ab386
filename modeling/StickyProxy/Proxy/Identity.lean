import StickyProxy.Proxy.Model.Forwarding
/-!
# Who a backend takes the user for

A backend reads the user off the `X-User-ID` field. With a token the proxy
writes the field itself, and over a WebSocket it is not sent at all: what the
client has put there is of no matter. On a public path the proxy leaves the
field alone, and the backend reads what the client wrote.
-/

namespace StickyProxy

namespace Header

variable {h h' : Header} {name : String}

/-- The headers differ in one field at most. -/
def AgreeBut (name : String) (h h' : Header) : Prop :=
  ∀ k, k ≠ canonicalKey name → h.lookup k = h'.lookup k

theorem AgreeBut.values_eq {other : String} (hagree : AgreeBut name h h')
    (hne : canonicalKey other ≠ canonicalKey name) : h.values other = h'.values other := by
  rw [values, values, hagree _ hne]

theorem AgreeBut.get_eq {other : String} (hagree : AgreeBut name h h')
    (hne : canonicalKey other ≠ canonicalKey name) : h.get other = h'.get other := by
  rw [get, get, hagree.values_eq hne]

/-- Whether the field concerns one hop only is not for the field to say. -/
theorem AgreeBut.hopByHop_eq (hagree : AgreeBut name h h')
    (hne : canonicalKey "Connection" ≠ canonicalKey name) : h.hopByHop = h'.hopByHop := by
  rw [hopByHop, hopByHop, connectionOptions, connectionOptions, hagree.values_eq hne]

theorem AgreeBut.set (hagree : AgreeBut name h h') (value : String) :
    AgreeBut name (h.set name value) h' := by
  intro k hk
  rw [Header.set, Table.lookup_insert_eq, if_neg hk]
  exact hagree k hk

theorem agreeBut_refl (name : String) (h : Header) : AgreeBut name h h := fun _ _ => rfl

theorem values_set (name value : String) (h : Header) :
    (h.set name value).values name = [value] := by
  rw [values, set, Table.lookup_insert_eq, if_pos rfl, Option.getD_some]

theorem values_removeHopByHopHeaders (name : String) (h : Header) :
    h.removeHopByHopHeaders.values name =
      if canonicalKey name ∈ h.hopByHop then [] else h.values name := by
  rw [values, removeHopByHopHeaders, Table.lookup_eraseAll]
  split
  · rfl
  · rfl

theorem values_copy_of_ne {other : String} (hne : canonicalKey name ≠ canonicalKey other)
    (reqHeader : Header) : (h.copy reqHeader other).values name = reqHeader.values name := by
  unfold copy
  split
  · rw [values, set, Table.lookup_insert_eq, if_neg hne, values]
  · rfl

/-- No user is named over a WebSocket. -/
theorem values_dialed (h : Header) : h.dialed.values "X-User-ID" = [] := by
  simp only [dialed, List.foldl_cons, List.foldl_nil]
  rw [values_copy_of_ne (by decide +kernel), values_copy_of_ne (by decide +kernel),
    values_copy_of_ne (by decide +kernel)]
  rfl

end Header

/-- The requests differ in the `X-User-ID` of the client, if at all. -/
structure HttpRequest.SameButUserID (req req' : HttpRequest) : Prop where
  path_eq : req.path = req'.path
  env_eq : req.env = req'.env
  order_eq : req.order = req'.order
  agree : Header.AgreeBut "X-User-ID" req.header req'.header

namespace Server

open Header

variable {s : Server} {req req' : HttpRequest} {b : Backend} {start : Time} {m : BackendManager}

/-- The `X-User-ID` that reaches a backend, if a request does. -/
def forwardedUserID (req : HttpRequest) (s : Server) : Option (List String) :=
  (s.serveHTTP req).map fun forwarded => forwarded.2.values "X-User-ID"

/-- The request reaches a backend on a public path, and its `X-User-ID`
does not concern one hop only. -/
structure LeftAlone (req : HttpRequest) (s : Server) : Prop where
  isPublic : s.isPublicPath req.path = true
  reached : (s.servePublic req).isSome
  endToEnd : canonicalKey "X-User-ID" ∉ req.header.hopByHop

theorem connection_ne_userID : canonicalKey "Connection" ≠ canonicalKey "X-User-ID" := by
  decide +kernel

theorem map_proxied (h : Header) :
    (proxied b start h m).map (fun forwarded => forwarded.2.values "X-User-ID") =
      if (m.available start b).1 then
        some (if canonicalKey "X-User-ID" ∈ h.hopByHop then [] else h.values "X-User-ID")
      else none := by
  unfold proxied
  split
  · rw [Option.map_some, values_removeHopByHopHeaders]
  · rfl

/-- On a public path, the field is what the client wrote, or nothing. -/
theorem map_servePublic (req : HttpRequest) (s : Server) :
    (s.servePublic req).map (fun forwarded => forwarded.2.values "X-User-ID") =
      (s.servePublic req).map fun _ =>
        if canonicalKey "X-User-ID" ∈ req.header.hopByHop then []
        else req.header.values "X-User-ID" := by
  unfold servePublic
  split
  · rfl
  · rw [map_proxied, proxied]
    split <;> rfl

/-- Whether a request reaches a backend on a public path does not depend on
its header. -/
theorem isSome_servePublic (henv : req.env = req'.env) :
    (s.servePublic req).isSome = (s.servePublic req').isSome := by
  unfold servePublic
  rw [henv]
  split
  · rfl
  · unfold proxied
    split <;> rfl

/-- **With a token, the field is not the client's.** -/
theorem map_serveAuthenticated (h : req.SameButUserID req') :
    (s.serveAuthenticated req).map (fun forwarded => forwarded.2.values "X-User-ID") =
      (s.serveAuthenticated req').map fun forwarded => forwarded.2.values "X-User-ID" := by
  have hauth : req.header.get "Authorization" = req'.header.get "Authorization" :=
    h.agree.get_eq (by decide +kernel)
  have hws : req.header.isWebSocket = req'.header.isWebSocket := by
    rw [isWebSocket, isWebSocket, h.agree.get_eq (by decide +kernel)]
  unfold serveAuthenticated
  rw [hauth, hws, h.env_eq, h.order_eq]
  split
  · rfl
  · rename_i jwtData _
    dsimp only
    split
    · -- Over a WebSocket, no user is named.
      rw [Option.map_some, Option.map_some, values_dialed, values_dialed]
    · have hhop : (req.header.set "X-User-ID" jwtData.routingKey).hopByHop =
          (req'.header.set "X-User-ID" jwtData.routingKey).hopByHop := by
        rw [(h.agree.set _).hopByHop_eq connection_ne_userID,
          ((agreeBut_refl _ req'.header).set _).hopByHop_eq connection_ne_userID]
      rw [map_proxied, map_proxied, values_set, values_set, hhop]
    · rfl

/-- **Who chooses the identity.** For every proxy and any two requests that
differ in the `X-User-ID` of the client alone: the `X-User-ID` that reaches
the backend is the same, if and only if the field is not left alone on a
public path, or does not differ. -/
theorem forwardedUserID_eq_iff (s : Server) (req req' : HttpRequest)
    (h : req.SameButUserID req') :
    s.forwardedUserID req = s.forwardedUserID req' ↔
      ¬ s.LeftAlone req ∨ req.header.values "X-User-ID" = req'.header.values "X-User-ID" := by
  have hhop : req.header.hopByHop = req'.header.hopByHop := h.agree.hopByHop_eq connection_ne_userID
  have hsome := isSome_servePublic (s := s) h.env_eq
  unfold forwardedUserID serveHTTP
  rw [← h.path_eq]
  by_cases hpublic : s.isPublicPath req.path = true
  · rw [if_pos hpublic, if_pos hpublic, map_servePublic, map_servePublic, ← hhop]
    rcases hreq : s.servePublic req with - | forwarded
    · -- Neither of the two reaches a backend.
      rw [hreq, Option.isSome_none] at hsome
      have hreq' : s.servePublic req' = none := by
        rw [← Option.not_isSome_iff_eq_none, ← hsome]
        exact Bool.false_ne_true
      rw [hreq']
      refine iff_of_true rfl (.inl fun hleft => ?_)
      have hreached := hleft.reached
      rw [hreq] at hreached
      cases hreached
    · rw [hreq] at hsome
      obtain ⟨forwarded', hreq'⟩ := Option.isSome_iff_exists.1 hsome.symm
      rw [hreq', Option.map_some, Option.map_some, Option.some.injEq]
      by_cases hlisted : canonicalKey "X-User-ID" ∈ req.header.hopByHop
      · rw [if_pos hlisted, if_pos hlisted]
        exact iff_of_true rfl (.inl fun hleft => hleft.endToEnd hlisted)
      · have hleft : s.LeftAlone req := ⟨hpublic, by rw [hreq]; rfl, hlisted⟩
        rw [if_neg hlisted, if_neg hlisted, or_iff_right (not_not_intro hleft)]
  · rw [if_neg hpublic, if_neg hpublic]
    exact iff_of_true (map_serveAuthenticated h) (.inl fun hleft => hpublic hleft.isPublic)

/-- One backend, and the public path `/login`. -/
def loginServer : Server where
  replica :=
    { proxy :=
        { store := .memory {"b"}
          cache := ⟨0, ∅⟩
          backends := ⟨∅, 3, 10⟩
          draining := none
          redis := none
          poisonPill := none
          routingMode := .hash }
      hooks := false
      sendAssign := [] }
  jwtCache := .new 0
  rateLimiter := .new 100 200
  decode tokenStr :=
    if tokenStr = "t" then some ⟨true, (∅ : Claims).insert "sub" (.text "u")⟩ else none
  routingClaim := "sub"
  publicPaths := ["/login"]

/-- A request with the token of user `u`, and the `X-User-ID` given. -/
def requestAs (path userID : String) : HttpRequest where
  path := path
  header := (∅ : Header).set "Authorization" "Bearer t" |>.set "X-User-ID" userID
  env :=
    { remoteAddr := "client"
      now := 1
      activeBackends := some ["b"]
      call := ⟨1, 2, .response⟩
      headers := []
      bulkAssign := .succeeds }
  order := ["b"]

theorem sameButUserID_requestAs (path userID userID' : String) :
    (requestAs path userID).SameButUserID (requestAs path userID') where
  path_eq := rfl
  env_eq := rfl
  order_eq := rfl
  agree k hk :=
    ((agreeBut_refl _ _).set userID k hk).trans ((agreeBut_refl _ _).set userID' k hk).symm

/-- With a token, the backend reads the user of the token. -/
theorem forwardedUserID_eq_authenticated :
    loginServer.forwardedUserID (requestAs "/data" "v") = some ["u"] ∧
      loginServer.forwardedUserID (requestAs "/data" "v") =
        loginServer.forwardedUserID (requestAs "/data" "w") :=
  ⟨by decide +kernel,
    (forwardedUserID_eq_iff loginServer _ _ (sameButUserID_requestAs "/data" "v" "w")).2
      (.inl fun h => absurd h.isPublic (by decide +kernel))⟩

/-- On the public path, the backend reads the user the client wrote. -/
theorem client_chooses_userID :
    (requestAs "/login" "v").SameButUserID (requestAs "/login" "w") ∧
      loginServer.forwardedUserID (requestAs "/login" "v") = some ["v"] ∧
      loginServer.forwardedUserID (requestAs "/login" "w") = some ["w"] :=
  ⟨sameButUserID_requestAs "/login" "v" "w", by decide +kernel, by decide +kernel⟩

end Server

end StickyProxy
