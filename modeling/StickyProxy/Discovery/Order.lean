import StickyProxy.Discovery.Model.Kubernetes
/-!
# The order endpoints are listed in

`buildDesiredState` writes what it makes of each endpoint into one map, and
the last write to an address stands. The informer's store lists the slices
in any order, so an address two endpoints disagree on has one state or the
other from one reconcile to the next. The map is the same for every order
exactly if no two endpoints disagree; those that are ignored write nothing
and disagree with nobody.
-/

namespace StickyProxy

namespace Kubernetes

variable {portName : String} {slices slices' : List EndpointSlice} {b : Backend} {st : EpState}

/-! ## What is written -/

/-- The writes of an endpoint. -/
def Endpoint.writes (port : ℤ) (ep : Endpoint) : List (Backend × EpState) :=
  match ep.state with
  | some st => ep.addresses.map fun addr => ("http://" ++ joinHostPort addr (toString port), st)
  | none => []

/-- The writes of a slice. -/
def EndpointSlice.writes (portName : String) (slice : EndpointSlice) : List (Backend × EpState) :=
  let port := resolvePort portName slice.ports
  if port = 0 then [] else slice.endpoints.flatMap (Endpoint.writes port)

/-- The writes of all the slices, one after the other. -/
def writes (portName : String) (slices : List EndpointSlice) : List (Backend × EpState) :=
  slices.flatMap (EndpointSlice.writes portName)

/-- An endpoint writes one state. -/
theorem Endpoint.state_of_mem_writes {port : ℤ} {ep : Endpoint} (h : (b, st) ∈ ep.writes port) :
    ep.state = some st := by
  unfold Endpoint.writes at h
  split at h
  · rename_i st' hst
    obtain ⟨addr, -, heq⟩ := List.mem_map.1 h
    rw [hst, (Prod.mk.inj heq).2]
  · exact absurd h List.not_mem_nil

theorem Endpoint.insertAll_writes (port : ℤ) (ep : Endpoint) (desired : Table Backend EpState) :
    Table.insertAll desired (ep.writes port) = ep.addresses.foldl (fun desired addr =>
      match ep.state with
      | some st => desired.insert ("http://" ++ joinHostPort addr (toString port)) st
      | none => desired) desired := by
  unfold Endpoint.writes
  rcases ep.state with - | st
  · exact (List.foldl_fixed ep.addresses).symm
  · exact List.foldl_map

theorem EndpointSlice.addTo_eq (slice : EndpointSlice) (desired : Table Backend EpState) :
    slice.addTo portName desired = Table.insertAll desired (slice.writes portName) := by
  unfold EndpointSlice.addTo EndpointSlice.writes
  dsimp only
  split
  · rfl
  · rw [Table.insertAll_flatMap]
    congr 1
    funext desired ep
    exact (ep.insertAll_writes _ desired).symm

/-- **The desired state is what has been written.** -/
theorem buildDesiredState_eq (portName : String) (slices : List EndpointSlice) :
    buildDesiredState portName slices = Table.insertAll ∅ (writes portName slices) := by
  rw [writes, Table.insertAll_flatMap, buildDesiredState]
  congr 1
  funext desired slice
  exact slice.addTo_eq desired

/-! ## Other orders -/

/-- The same slices, listed in another order, with their endpoints in
another order. -/
def Reordered (slices slices' : List EndpointSlice) : Prop :=
  ∃ between, List.Forall₂ (fun slice slice' => slice'.ports = slice.ports ∧
    slice'.endpoints.Perm slice.endpoints) slices between ∧ slices'.Perm between

/-- No two writes disagree on an address. -/
def Consistent (portName : String) (slices : List EndpointSlice) : Prop :=
  ∀ b st st', (b, st) ∈ writes portName slices → (b, st') ∈ writes portName slices → st = st'

theorem EndpointSlice.perm_writes {slice slice' : EndpointSlice}
    (hports : slice'.ports = slice.ports) (hperm : slice'.endpoints.Perm slice.endpoints) :
    (slice'.writes portName).Perm (slice.writes portName) := by
  unfold EndpointSlice.writes
  rw [hports]
  dsimp only
  split
  · exact .nil
  · exact hperm.flatMap_right _

theorem perm_writes_of_forall₂ {between : List EndpointSlice}
    (h : List.Forall₂ (fun slice slice' => slice'.ports = slice.ports ∧
      slice'.endpoints.Perm slice.endpoints) slices between) :
    (writes portName between).Perm (writes portName slices) := by
  induction h with
  | nil => exact .nil
  | cons hslice _ ih => exact (EndpointSlice.perm_writes hslice.1 hslice.2).append ih

/-- Another order gives the same writes in another order. -/
theorem Reordered.perm_writes (h : Reordered slices slices') :
    (writes portName slices').Perm (writes portName slices) := by
  obtain ⟨between, hsame, hperm⟩ := h
  exact (hperm.flatMap_right _).trans (perm_writes_of_forall₂ hsame)

theorem lookup_of_consistent (h : Consistent portName slices)
    (hb : (b, st) ∈ writes portName slices) :
    (buildDesiredState portName slices).lookup b = some st := by
  rw [buildDesiredState_eq]
  exact Table.lookup_insertAll_of_forall hb (fun st' hst' => h b st' st hst' hb) ∅

theorem lookup_eq_none (hb : b ∉ (writes portName slices).map Prod.fst) :
    (buildDesiredState portName slices).lookup b = none := by
  rw [buildDesiredState_eq, Table.lookup_insertAll_of_notMem hb, AList.lookup_empty]

/-- **Any write can be the last.** -/
theorem exists_reordered_last (h : (b, st) ∈ writes portName slices) :
    ∃ slices', Reordered slices slices' ∧
      (buildDesiredState portName slices').lookup b = some st := by
  obtain ⟨slice, hslice, hwrite⟩ := List.mem_flatMap.1 h
  obtain ⟨before, after, rfl⟩ := List.append_of_mem hslice
  unfold EndpointSlice.writes at hwrite
  dsimp only at hwrite
  split at hwrite
  · exact absurd hwrite List.not_mem_nil
  rename_i hport
  obtain ⟨ep, hep, hwrite⟩ := List.mem_flatMap.1 hwrite
  obtain ⟨eps, eps', heps⟩ := List.append_of_mem hep
  -- The endpoint goes to the end of its slice, and the slice to the end of the list.
  refine ⟨before ++ after ++ [⟨slice.ports, eps ++ eps' ++ [ep]⟩], ⟨before ++
    ⟨slice.ports, eps ++ eps' ++ [ep]⟩ :: after, ?_, ?_⟩, ?_⟩
  · refine List.rel_append (List.forall₂_same.2 fun s _ => ⟨rfl, List.Perm.refl _⟩)
      (.cons ⟨rfl, ?_⟩ (List.forall₂_same.2 fun s _ => ⟨rfl, List.Perm.refl _⟩))
    rw [heps, List.append_assoc]
    exact (List.perm_append_singleton ep eps').append_left eps
  · rw [List.append_assoc]
    exact (List.perm_append_singleton _ after).append_left before
  · have hlast : writes portName (before ++ after ++ [⟨slice.ports, eps ++ eps' ++ [ep]⟩]) =
        writes portName (before ++ after) ++
          (eps ++ eps').flatMap (Endpoint.writes (resolvePort portName slice.ports)) ++
          ep.writes (resolvePort portName slice.ports) := by
      simp [writes, EndpointSlice.writes, hport]
    have hone : ∀ st', (b, st') ∈ ep.writes (resolvePort portName slice.ports) → st' = st :=
      fun st' hst' => Option.some.inj
        ((Endpoint.state_of_mem_writes hst').symm.trans (Endpoint.state_of_mem_writes hwrite))
    rw [buildDesiredState_eq, hlast, Table.insertAll_append]
    exact Table.lookup_insertAll_of_forall hwrite hone _

/-- **When the order does not matter**: the map is the same for every order
of the slices and of their endpoints exactly if no two of the endpoints
disagree on an address. -/
theorem same_map_iff_consistent (portName : String) (slices : List EndpointSlice) :
    (∀ slices', Reordered slices slices' → ∀ b,
      (buildDesiredState portName slices').lookup b =
        (buildDesiredState portName slices).lookup b) ↔ Consistent portName slices := by
  constructor
  · intro hsame b st st' hst hst'
    obtain ⟨slices₁, hre₁, hlast₁⟩ := exists_reordered_last hst
    obtain ⟨slices₂, hre₂, hlast₂⟩ := exists_reordered_last hst'
    rw [hsame slices₁ hre₁ b] at hlast₁
    rw [hsame slices₂ hre₂ b, hlast₁] at hlast₂
    exact Option.some.inj hlast₂
  · intro hcons slices' hre b
    have hperm : (writes portName slices').Perm (writes portName slices) := hre.perm_writes
    have hcons' : Consistent portName slices' := fun b st st' hst hst' =>
      hcons b st st' (hperm.mem_iff.1 hst) (hperm.mem_iff.1 hst')
    by_cases hb : b ∈ (writes portName slices).map Prod.fst
    · obtain ⟨⟨b, st⟩, hmem, rfl⟩ := List.mem_map.1 hb
      rw [lookup_of_consistent hcons hmem, lookup_of_consistent hcons' (hperm.mem_iff.2 hmem)]
    · rw [lookup_eq_none hb, lookup_eq_none fun hb' => hb ((hperm.map _).mem_iff.1 hb')]

/-- A slice with one address, in the given condition. -/
def oneAddress (ready terminating : Bool) : EndpointSlice :=
  ⟨[⟨none, some 80⟩], [⟨["10.0.0.1"], some ready, some true, some terminating⟩]⟩

/-- **The same slices, two maps**: while an address is ready in one slice
and terminating in another, it is active or terminating by the order the
two are listed in. -/
theorem listing_order_shows :
    ¬ ∀ (portName : String) (slices slices' : List EndpointSlice), Reordered slices slices' →
      ∀ b, (buildDesiredState portName slices').lookup b =
        (buildDesiredState portName slices).lookup b := by
  intro h
  have hre : Reordered [oneAddress true false, oneAddress false true]
      [oneAddress false true, oneAddress true false] :=
    ⟨_, List.forall₂_same.2 fun s _ => ⟨rfl, List.Perm.refl _⟩, List.Perm.swap _ _ _⟩
  exact absurd (h "" _ _ hre "http://10.0.0.1:80") (by decide)

end Kubernetes

end StickyProxy
