import Mathlib.Data.List.AList
import Mathlib.Data.List.MinMax
import Mathlib.Algebra.BigOperators.Group.List.Lemmas
import Mathlib.Algebra.BigOperators.Group.List.Basic
import Mathlib.Algebra.BigOperators.Finprod
import Mathlib.Algebra.Order.Group.Int
import Mathlib.Tactic.Ring
import Mathlib.Tactic.Linarith
/-!
# Finite tables, and what they add up to

A `Table` is a finite map kept as a list of entries with distinct keys,
the list in whatever order the store behind it happens to hold. `total`
adds a measure up over the entries, and its laws say how one insertion
or deletion moves it. A table of integers is a counter table: `value`
reads an absent counter as zero, `bump` adds to one counter, `bumpAll` a
list of amounts, and `sumAt` is what such a list holds for one key.
-/

namespace StickyProxy

/-- A finite map from `K` to `V`, its entries in some order. -/
abbrev Table (K V : Type*) := AList fun _ : K => V

namespace Table

variable {K V : Type*}

/-- The entries, as pairs. -/
def pairs (t : Table K V) : List (K × V) := t.entries.map fun e => (e.1, e.2)

/-- A measure added up over the entries. -/
def total (f : K → V → ℤ) (t : Table K V) : ℤ := (t.entries.map fun e => f e.1 e.2).sum

@[simp] theorem pairs_empty : pairs (∅ : Table K V) = [] := rfl

@[simp] theorem total_empty (f : K → V → ℤ) : total f (∅ : Table K V) = 0 := rfl

/-- Tables with the same keys mapped to the same values have the same
entries, up to their order. -/
theorem perm_entries_of_lookup [DecidableEq K] {t t' : Table K V}
    (h : ∀ k, t.lookup k = t'.lookup k) : t.entries.Perm t'.entries :=
  List.lookup_ext t.nodupKeys t'.nodupKeys fun k v => by
    have hk : t.entries.dlookup k = t'.entries.dlookup k := h k
    rw [hk]

/-- And add up to the same. -/
theorem total_congr [DecidableEq K] (f : K → V → ℤ) {t t' : Table K V}
    (h : ∀ k, t.lookup k = t'.lookup k) : total f t = total f t' :=
  ((perm_entries_of_lookup h).map _).sum_eq

/-- A table in which no key is found has no entry. -/
theorem eq_empty_of_lookup [DecidableEq K] {t : Table K V} (h : ∀ k, t.lookup k = none) :
    t = ∅ := by
  have hperm : t.entries.Perm (∅ : Table K V).entries :=
    perm_entries_of_lookup fun k => by rw [h k, AList.lookup_empty]
  exact AList.ext (List.perm_nil.1 hperm)

/-- A total grows with what each entry adds. -/
theorem total_mono [DecidableEq K] {f g : K → V → ℤ} {t : Table K V}
    (h : ∀ k v, t.lookup k = some v → f k v ≤ g k v) : total f t ≤ total g t :=
  List.sum_le_sum fun e he => h e.1 e.2 (AList.mem_lookup_iff.2 he)

/-- Totals add up. -/
theorem total_add (f g : K → V → ℤ) (t : Table K V) :
    total (fun k v => f k v + g k v) t = total f t + total g t := List.sum_map_add

theorem nodup_fst_pairs (t : Table K V) : ((pairs t).map Prod.fst).Nodup := by
  have : (pairs t).map Prod.fst = t.keys := by
    simp only [pairs, List.map_map]
    rfl
  exact this ▸ t.keys_nodup

variable [DecidableEq K]

theorem mem_pairs {t : Table K V} {k : K} {v : V} : (k, v) ∈ pairs t ↔ t.lookup k = some v := by
  rw [← Option.mem_def, AList.mem_lookup_iff, pairs, List.mem_map]
  constructor
  · rintro ⟨⟨k', v'⟩, he, heq⟩
    obtain ⟨rfl, rfl⟩ := Prod.mk.inj heq
    exact he
  · intro he
    exact ⟨⟨k, v⟩, he, rfl⟩

theorem mem_map_fst_pairs {t : Table K V} {k : K} :
    k ∈ (pairs t).map Prod.fst ↔ (t.lookup k).isSome := by
  rw [Option.isSome_iff_exists, List.mem_map]
  constructor
  · rintro ⟨⟨k', v⟩, hp, rfl⟩
    exact ⟨v, mem_pairs.1 hp⟩
  · rintro ⟨v, hv⟩
    exact ⟨(k, v), mem_pairs.2 hv, rfl⟩

/-- What one key adds to a total. -/
def share (f : K → V → ℤ) (t : Table K V) (k : K) : ℤ := (t.lookup k).elim 0 (f k)

theorem share_of_lookup {f : K → V → ℤ} {t : Table K V} {k : K} {v : V}
    (h : t.lookup k = some v) : share f t k = f k v := by
  rw [share, h]; rfl

theorem share_of_lookup_none {f : K → V → ℤ} {t : Table K V} {k : K}
    (h : t.lookup k = none) : share f t k = 0 := by
  rw [share, h]; rfl

/-- **The law of deletion.** A total is what the key adds and the total
without it. -/
theorem total_eq_share_add (f : K → V → ℤ) (t : Table K V) (k : K) :
    total f t = share f t k + total f (t.erase k) := by
  rcases h : t.lookup k with - | v
  · have hk : k ∉ t.entries.keys := fun hk => by
      rw [AList.lookup_eq_none] at h
      exact h hk
    rw [share_of_lookup_none h, zero_add, total, total]
    congr 2
    exact (List.kerase_of_notMem_keys hk).symm
  · rw [share_of_lookup h]
    have hk : k ∈ t.entries.keys := by
      have : k ∈ t := AList.lookup_isSome.1 (by rw [h]; rfl)
      exact this
    obtain ⟨v', l₁, l₂, hl₁, hl, hke⟩ := List.exists_of_kerase hk
    have hv : v' = v := by
      have hmem : (⟨k, v⟩ : Sigma fun _ : K => V) ∈ t.entries := AList.mem_lookup_iff.1 h
      exact t.nodupKeys.eq_of_mk_mem (by rw [hl]; simp) hmem
    have herase : (t.erase k).entries = l₁ ++ l₂ := hke
    rw [total, total, herase, hl, hv]
    simp only [List.map_append, List.map_cons, List.sum_append, List.sum_cons]
    ring

theorem total_erase (f : K → V → ℤ) (t : Table K V) (k : K) :
    total f (t.erase k) = total f t - share f t k := by
  rw [total_eq_share_add f t k]; ring

/-- **The law of insertion.** -/
theorem total_insert (f : K → V → ℤ) (t : Table K V) (k : K) (v : V) :
    total f (t.insert k v) = total f t - share f t k + f k v := by
  have h : total f (t.insert k v) = f k v + total f (t.erase k) := by
    simp only [total, AList.entries_insert, List.map_cons, List.sum_cons]
    rfl
  rw [h, total_erase]; ring

/-- Looking a key up after an insertion. -/
theorem lookup_insert_eq (t : Table K V) (k k' : K) (v : V) :
    (t.insert k v).lookup k' = if k' = k then some v else t.lookup k' := by
  by_cases h : k' = k
  · subst h; simp
  · rw [if_neg h, AList.lookup_insert_ne h]

/-- Looking a key up after a deletion. -/
theorem lookup_erase_eq (t : Table K V) (k k' : K) :
    (t.erase k).lookup k' = if k' = k then none else t.lookup k' := by
  by_cases h : k' = k
  · subst h; simp
  · rw [if_neg h, AList.lookup_erase_ne h]

/-! ## Deleting several keys -/

/-- The table without the keys of a list. -/
def eraseAll (t : Table K V) (ks : List K) : Table K V := ks.foldl (fun t k => t.erase k) t

@[simp] theorem eraseAll_nil (t : Table K V) : eraseAll t [] = t := rfl

@[simp] theorem eraseAll_cons (t : Table K V) (k : K) (ks : List K) :
    eraseAll t (k :: ks) = eraseAll (t.erase k) ks := rfl

theorem lookup_eraseAll (ks : List K) (t : Table K V) (k : K) :
    (eraseAll t ks).lookup k = if k ∈ ks then none else t.lookup k := by
  induction ks generalizing t with
  | nil => simp
  | cons k' ks ih =>
    rw [eraseAll_cons, ih, lookup_erase_eq]
    by_cases hk : k = k' <;> by_cases hks : k ∈ ks <;> simp [hk, hks]

/-- Deleting distinct keys takes from a total what each of them added. -/
theorem total_eraseAll (f : K → V → ℤ) {ks : List K} (hks : ks.Nodup) (t : Table K V) :
    total f (eraseAll t ks) = total f t - (ks.map (share f t)).sum := by
  induction ks generalizing t with
  | nil => simp
  | cons k ks ih =>
    obtain ⟨hk, hks⟩ := List.nodup_cons.1 hks
    have hshare : ks.map (share f (t.erase k)) = ks.map (share f t) := by
      refine List.map_congr_left fun k' hk' => ?_
      have hne : k' ≠ k := fun h => hk (h ▸ hk')
      rw [share, share, AList.lookup_erase_ne hne]
    rw [eraseAll_cons, ih hks, hshare, total_erase, List.map_cons, List.sum_cons]
    ring

/-- Deleting keys takes from a total what their entries added, however
often a key is listed. -/
theorem total_eraseAll_filter (f : K → V → ℤ) (t : Table K V) (ks : List K) :
    total f (eraseAll t ks) =
      total f t - (((pairs t).filter fun p => p.1 ∈ ks).map fun p => f p.1 p.2).sum := by
  have hmem : ∀ k, k ∈ ((pairs t).filter fun p => p.1 ∈ ks).map Prod.fst ↔
      k ∈ ks ∧ (t.lookup k).isSome := by
    intro k
    simp only [List.mem_map, List.mem_filter, decide_eq_true_eq, Prod.exists]
    constructor
    · rintro ⟨k', v, ⟨hp, hk⟩, rfl⟩
      exact ⟨hk, by rw [mem_pairs.1 hp]; rfl⟩
    · rintro ⟨hk, hv⟩
      obtain ⟨v, hv⟩ := Option.isSome_iff_exists.1 hv
      exact ⟨k, v, ⟨mem_pairs.2 hv, hk⟩, rfl⟩
  have hnodup : (((pairs t).filter fun p => p.1 ∈ ks).map Prod.fst).Nodup :=
    (nodup_fst_pairs t).sublist (List.filter_sublist.map Prod.fst)
  have hcongr : total f (eraseAll t ks) =
      total f (eraseAll t (((pairs t).filter fun p => p.1 ∈ ks).map Prod.fst)) := by
    refine total_congr f fun k => ?_
    rw [lookup_eraseAll, lookup_eraseAll]
    by_cases hk : k ∈ ks
    · rcases hv : t.lookup k with - | v
      · simp
      · rw [if_pos hk, if_pos ((hmem k).2 ⟨hk, by rw [hv]; rfl⟩)]
    · rw [if_neg hk, if_neg fun h => hk ((hmem k).1 h).1]
  rw [hcongr, total_eraseAll f hnodup, List.map_map]
  congr 2
  refine List.map_congr_left fun p hp => ?_
  exact share_of_lookup (mem_pairs.1 (List.mem_filter.1 hp).1)

/-! ## Totals as sums over all keys -/

theorem support_share_finite (f : K → V → ℤ) (t : Table K V) :
    (Function.support (share f t)).Finite := by
  refine t.keys.toFinset.finite_toSet.subset fun k hk => ?_
  rw [Finset.mem_coe, List.mem_toFinset, ← AList.mem_keys, ← AList.lookup_isSome]
  rcases h : t.lookup k with - | v
  · exact absurd (share_of_lookup_none h) hk
  · rfl

/-- A total is the sum of what each key adds. -/
theorem total_eq_finsum (f : K → V → ℤ) (t : Table K V) : total f t = finsum (share f t) := by
  induction t using AList.insertRec with
  | H0 => exact finsum_zero.symm
  | IH k v t hk ih =>
    have hnone : t.lookup k = none := AList.lookup_eq_none.2 hk
    have hshare : share f (t.insert k v) =
        fun k' => share f t k' + if k' = k then f k v else 0 := by
      funext k'
      rw [share, lookup_insert_eq]
      by_cases hk' : k' = k
      · subst hk'
        rw [if_pos rfl, if_pos rfl, share_of_lookup_none hnone, zero_add]
        rfl
      · rw [if_neg hk', if_neg hk', add_zero, share]
    have hsingle : (Function.support fun k' => if k' = k then f k v else (0 : ℤ)).Finite :=
      (Set.finite_singleton k).subset fun k' hk' => by
        by_contra hne
        exact hk' (if_neg hne)
    have hone : (finsum fun k' => if k' = k then f k v else (0 : ℤ)) = f k v := by
      rw [finsum_eq_single _ k fun k' hk' => if_neg hk', if_pos rfl]
    rw [hshare, finsum_add_distrib (support_share_finite f t) hsingle, hone, ← ih, total_insert,
      share_of_lookup_none hnone, sub_zero]

/-- What a total does not look at may differ. -/
theorem total_congr_map {W : Type*} (p : V → W) (g : K → W → ℤ) {t t' : Table K V}
    (h : ∀ k, (t.lookup k).map p = (t'.lookup k).map p) :
    total (fun k v => g k (p v)) t = total (fun k v => g k (p v)) t' := by
  have hshare : ∀ (u : Table K V) k,
      share (fun k v => g k (p v)) u k = ((u.lookup k).map p).elim 0 (g k) := by
    intro u k
    rw [share]
    cases u.lookup k <;> rfl
  rw [total_eq_finsum, total_eq_finsum]
  congr 1
  funext k
  rw [hshare, hshare, h k]

/-! ## Filling a table, and reading one through a partial map -/

/-- The table with the pairs of a list set one after the other. -/
def insertAll (t : Table K V) (l : List (K × V)) : Table K V :=
  l.foldl (fun t e => t.insert e.1 e.2) t

@[simp] theorem insertAll_nil (t : Table K V) : insertAll t [] = t := rfl

@[simp] theorem insertAll_cons (t : Table K V) (e : K × V) (l : List (K × V)) :
    insertAll t (e :: l) = insertAll (t.insert e.1 e.2) l := rfl

/-- A key no pair of the list sets keeps its value. -/
theorem lookup_insertAll_of_notMem {l : List (K × V)} {k : K} (h : k ∉ l.map Prod.fst)
    (t : Table K V) : (insertAll t l).lookup k = t.lookup k := by
  induction l generalizing t with
  | nil => rfl
  | cons e l ih =>
    rw [List.map_cons, List.mem_cons, not_or] at h
    rw [insertAll_cons, ih h.2, lookup_insert_eq, if_neg h.1]

/-- A key set once has the value it was set to. -/
theorem lookup_insertAll_of_mem {l : List (K × V)} (hl : (l.map Prod.fst).Nodup) {k : K} {v : V}
    (h : (k, v) ∈ l) (t : Table K V) : (insertAll t l).lookup k = some v := by
  induction l generalizing t with
  | nil => exact absurd h List.not_mem_nil
  | cons e l ih =>
    rw [List.map_cons, List.nodup_cons] at hl
    rw [insertAll_cons]
    rcases List.mem_cons.1 h with rfl | h
    · rw [lookup_insertAll_of_notMem hl.1, lookup_insert_eq, if_pos rfl]
    · exact ih hl.2 h _

/-- A key that every pair sets to one value has that value. -/
theorem lookup_insertAll_of_forall {l : List (K × V)} {k : K} {v : V} (h : (k, v) ∈ l)
    (hall : ∀ w, (k, w) ∈ l → w = v) (t : Table K V) : (insertAll t l).lookup k = some v := by
  induction l generalizing t with
  | nil => exact absurd h List.not_mem_nil
  | cons e l ih =>
    rw [insertAll_cons]
    by_cases hk : k ∈ l.map Prod.fst
    · obtain ⟨⟨k', w⟩, hmem, rfl⟩ := List.mem_map.1 hk
      have hw : w = v := hall w (List.mem_cons_of_mem e hmem)
      exact ih (hw ▸ hmem) (fun w hw => hall w (List.mem_cons_of_mem e hw)) _
    · -- Nothing after it sets the key.
      rcases List.mem_cons.1 h with rfl | hmem
      · rw [lookup_insertAll_of_notMem hk, lookup_insert_eq, if_pos rfl]
      · exact absurd (List.mem_map.2 ⟨(k, v), hmem, rfl⟩) hk

theorem insertAll_append (t : Table K V) (l l' : List (K × V)) :
    insertAll t (l ++ l') = insertAll (insertAll t l) l' := List.foldl_append

theorem insertAll_flatMap {α : Type*} (f : α → List (K × V)) (l : List α) (t : Table K V) :
    insertAll t (l.flatMap f) = l.foldl (fun t a => insertAll t (f a)) t := by
  induction l generalizing t with
  | nil => rfl
  | cons a l ih => rw [List.flatMap_cons, insertAll_append, ih, List.foldl_cons]

/-- A value found was set by the list or was there. -/
theorem lookup_insertAll_cases {l : List (K × V)} {t : Table K V} {k : K} {v : V}
    (h : (insertAll t l).lookup k = some v) : (k, v) ∈ l ∨ t.lookup k = some v := by
  induction l generalizing t with
  | nil => exact Or.inr h
  | cons e l ih =>
    rw [insertAll_cons] at h
    rcases ih h with hmem | hlook
    · exact Or.inl (List.mem_cons_of_mem e hmem)
    · rw [lookup_insert_eq] at hlook
      split at hlook
      · rename_i hk
        obtain rfl := Option.some.inj hlook
        exact Or.inl (hk ▸ List.mem_cons_self)
      · exact Or.inr hlook

/-- A key has a value if the list sets it or it had one. -/
theorem isSome_lookup_insertAll {l : List (K × V)} {t : Table K V} {k : K} :
    ((insertAll t l).lookup k).isSome ↔ k ∈ l.map Prod.fst ∨ (t.lookup k).isSome := by
  induction l generalizing t with
  | nil => simp
  | cons e l ih =>
    rw [insertAll_cons, ih, List.map_cons, List.mem_cons, lookup_insert_eq]
    by_cases hk : k = e.1
    · simp [hk]
    · simp [hk]

/-- Filled with distinct keys, an empty table has the entries of the list. -/
theorem perm_pairs_insertAll {l : List (K × V)} (hl : (l.map Prod.fst).Nodup) :
    (pairs (insertAll ∅ l)).Perm l := by
  refine (List.perm_ext_iff_of_nodup (nodup_fst_pairs _).of_map hl.of_map).2 fun p => ?_
  rw [mem_pairs (k := p.1) (v := p.2)]
  constructor
  · intro h
    rcases lookup_insertAll_cases h with hmem | hnone
    · exact hmem
    · cases hnone
  · exact fun h => lookup_insertAll_of_mem hl h ∅

/-- Writing a table out pair by pair puts its entries over those there. -/
theorem lookup_insertAll_pairs (t u : Table K V) (k : K) :
    (insertAll t (pairs u)).lookup k = (u.lookup k).or (t.lookup k) := by
  rcases h : u.lookup k with - | v
  · rw [Option.none_or]
    refine lookup_insertAll_of_notMem (fun hk => ?_) t
    obtain ⟨⟨k', v⟩, hmem, rfl⟩ := List.mem_map.1 hk
    rw [mem_pairs, h] at hmem
    cases hmem
  · exact lookup_insertAll_of_mem (nodup_fst_pairs u) (mem_pairs.2 h) t

/-- Writing new keys adds what they measure. -/
theorem total_insertAll (f : K → V → ℤ) {l : List (K × V)} {t : Table K V}
    (hl : (l.map Prod.fst).Nodup) (hnew : ∀ p ∈ l, t.lookup p.1 = none) :
    total f (insertAll t l) = total f t + (l.map fun p => f p.1 p.2).sum := by
  induction l generalizing t with
  | nil => simp
  | cons p l ih =>
    obtain ⟨hp, hl⟩ := List.nodup_cons.1 hl
    have hrest : ∀ q ∈ l, (t.insert p.1 p.2).lookup q.1 = none := by
      intro q hq
      have hne : q.1 ≠ p.1 := fun heq => hp (List.mem_map.2 ⟨q, hq, heq⟩)
      rw [lookup_insert_eq, if_neg hne]
      exact hnew q (List.mem_cons_of_mem p hq)
    rw [insertAll_cons, ih hl hrest, total_insert,
      share_of_lookup_none (hnew p List.mem_cons_self), List.map_cons, List.sum_cons]
    ring

omit [DecidableEq K] in
theorem sum_map_pairs (f : K → V → ℤ) (t : Table K V) :
    ((pairs t).map fun p => f p.1 p.2).sum = total f t := by
  simp [pairs, total, Function.comp_def]

theorem total_insertAll_pairs (f : K → V → ℤ) {t u : Table K V}
    (h : ∀ k v, u.lookup k = some v → t.lookup k = none) :
    total f (insertAll t (pairs u)) = total f t + total f u := by
  rw [total_insertAll f (nodup_fst_pairs u) fun p hp => h p.1 p.2 (mem_pairs.1 hp),
    sum_map_pairs]

/-- Deleting the keys of a table whose entries are there takes off what
they measure. -/
theorem total_eraseAll_pairs (f : K → V → ℤ) {t u : Table K V}
    (h : ∀ k v, u.lookup k = some v → t.lookup k = some v) :
    total f (eraseAll t ((pairs u).map Prod.fst)) = total f t - total f u := by
  have hshare : ((pairs u).map Prod.fst).map (share f t) = (pairs u).map fun p => f p.1 p.2 := by
    rw [List.map_map]
    refine List.map_congr_left fun p hp => ?_
    exact share_of_lookup (h p.1 p.2 (mem_pairs.1 hp))
  rw [total_eraseAll f (nodup_fst_pairs u), hshare, sum_map_pairs]

omit [DecidableEq K] in
theorem nodupKeys_filterMap {W : Type*} (f : V → Option W) {l : List (Sigma fun _ : K => V)}
    (hl : l.NodupKeys) :
    (l.filterMap fun e => (f e.2).map fun w => (⟨e.1, w⟩ : Sigma fun _ : K => W)).NodupKeys := by
  rw [List.nodupKeys_iff_pairwise] at hl ⊢
  refine hl.filterMap _ fun e e' hne x hx y hy => ?_
  obtain ⟨_, _, rfl⟩ := Option.map_eq_some_iff.1 hx
  obtain ⟨_, _, rfl⟩ := Option.map_eq_some_iff.1 hy
  exact hne

/-- The entries a partial map accepts, mapped. -/
def mapPartial {W : Type*} (f : V → Option W) (t : Table K V) : Table K W :=
  ⟨t.entries.filterMap fun e => (f e.2).map fun w => ⟨e.1, w⟩, nodupKeys_filterMap f t.nodupKeys⟩

theorem lookup_mapPartial {W : Type*} (f : V → Option W) (t : Table K V) (k : K) :
    (mapPartial f t).lookup k = (t.lookup k).bind f := by
  refine Option.ext fun w => ?_
  rw [← Option.mem_def, AList.mem_lookup_iff, Option.bind_eq_some_iff]
  simp only [mapPartial, List.mem_filterMap, Option.map_eq_some_iff]
  constructor
  · rintro ⟨⟨k', v⟩, he, w', hw, heq⟩
    obtain ⟨rfl, hww⟩ := Sigma.mk.inj heq
    exact ⟨v, AList.mem_lookup_iff.2 he, by rw [hw, eq_of_heq hww]⟩
  · rintro ⟨v, hv, hw⟩
    exact ⟨⟨k, v⟩, AList.mem_lookup_iff.1 hv, w, hw, rfl⟩

omit [DecidableEq K] in
theorem total_mapPartial {W : Type*} (f : V → Option W) (g : K → W → ℤ) (t : Table K V) :
    total g (mapPartial f t) = total (fun k v => (f v).elim 0 (g k)) t := by
  simp only [total, mapPartial]
  induction t.entries with
  | nil => rfl
  | cons e l ih =>
    rw [List.filterMap_cons, List.map_cons, List.sum_cons, ← ih]
    rcases f e.2 with - | w
    · simp
    · simp

/-! ## Setting what is absent -/

/-- Each pair of a list is set under `g`, unless its key is there by then.
Beside the table, the pairs that were set. -/
def insertNew {W : Type*} (g : W → V) :
    List (K × W) → Table K V → List (K × W) × Table K V
  | [], t => ([], t)
  | (k, w) :: rest, t =>
    if (t.lookup k).isSome then insertNew g rest t
    else
      let (new, t') := insertNew g rest (t.insert k (g w))
      ((k, w) :: new, t')

section InsertNew

variable {W : Type*} {g : W → V} {l : List (K × W)} {t : Table K V} {k : K} {w : W}

/-- A pair whose key is there is passed over. -/
theorem insertNew_cons_of_isSome (h : (t.lookup k).isSome) :
    insertNew g ((k, w) :: l) t = insertNew g l t := if_pos h

theorem insertNew_cons_of_eq_none (h : t.lookup k = none) :
    insertNew g ((k, w) :: l) t =
      ((k, w) :: (insertNew g l (t.insert k (g w))).1, (insertNew g l (t.insert k (g w))).2) :=
  if_neg (by rw [h]; exact Bool.false_ne_true)

/-- The total gains what the pairs set measure. -/
theorem total_insertNew (f : K → V → ℤ) (l : List (K × W)) (t : Table K V) :
    total f (insertNew g l t).2 =
      total f t + ((insertNew g l t).1.map fun p => f p.1 (g p.2)).sum := by
  induction l generalizing t with
  | nil => simp [insertNew]
  | cons p l ih =>
    obtain ⟨k, w⟩ := p
    rcases h : t.lookup k with - | v
    · rw [insertNew_cons_of_eq_none h, ih, total_insert, share_of_lookup_none h, List.map_cons,
        List.sum_cons]
      ring
    · rw [insertNew_cons_of_isSome (by rw [h]; rfl), ih]

/-- The pairs set are those whose keys were absent. -/
theorem mem_insertNew (hl : (l.map Prod.fst).Nodup) :
    (k, w) ∈ (insertNew g l t).1 ↔ (k, w) ∈ l ∧ t.lookup k = none := by
  induction l generalizing t with
  | nil => simp [insertNew]
  | cons p l ih =>
    obtain ⟨k', w'⟩ := p
    obtain ⟨hp, hl⟩ := List.nodup_cons.1 hl
    have hne : (k, w) ∈ l → k ≠ k' := by
      rintro hmem rfl
      exact hp (List.mem_map.2 ⟨_, hmem, rfl⟩)
    rcases h : t.lookup k' with - | v
    · rw [insertNew_cons_of_eq_none h, List.mem_cons, List.mem_cons, ih hl, Prod.mk.injEq]
      constructor
      · rintro (⟨rfl, rfl⟩ | ⟨hmem, hk⟩)
        · exact ⟨Or.inl ⟨rfl, rfl⟩, h⟩
        · rw [lookup_insert_eq, if_neg (hne hmem)] at hk
          exact ⟨Or.inr hmem, hk⟩
      · rintro ⟨⟨rfl, rfl⟩ | hmem, hk⟩
        · exact Or.inl ⟨rfl, rfl⟩
        · rw [lookup_insert_eq, if_neg (hne hmem)]
          exact Or.inr ⟨hmem, hk⟩
    · rw [insertNew_cons_of_isSome (by rw [h]; rfl), ih hl, List.mem_cons, Prod.mk.injEq]
      constructor
      · rintro ⟨hmem, hk⟩
        exact ⟨Or.inr hmem, hk⟩
      · rintro ⟨⟨rfl, rfl⟩ | hmem, hk⟩
        · rw [h] at hk
          cases hk
        · exact ⟨hmem, hk⟩

/-- What is set is set in the order of the list. -/
theorem insertNew_sublist (l : List (K × W)) (t : Table K V) :
    (insertNew g l t).1.Sublist l := by
  induction l generalizing t with
  | nil => exact List.Sublist.refl _
  | cons p l ih =>
    obtain ⟨k, w⟩ := p
    rcases h : t.lookup k with - | v
    · rw [insertNew_cons_of_eq_none h]
      exact (ih _).cons_cons _
    · rw [insertNew_cons_of_isSome (by rw [h]; rfl)]
      exact (ih t).cons _

/-- A key the list does not have keeps its value. -/
theorem lookup_insertNew_of_notMem (h : k ∉ l.map Prod.fst) (t : Table K V) :
    (insertNew g l t).2.lookup k = t.lookup k := by
  induction l generalizing t with
  | nil => rfl
  | cons p l ih =>
    obtain ⟨k', w⟩ := p
    rw [List.map_cons, List.mem_cons, not_or] at h
    rcases hk' : t.lookup k' with - | v
    · rw [insertNew_cons_of_eq_none hk', ih h.2, lookup_insert_eq, if_neg h.1]
    · rw [insertNew_cons_of_isSome (by rw [hk']; rfl), ih h.2]

/-- A key the list has once keeps its value or has the one set for it. -/
theorem lookup_insertNew_of_mem (hl : (l.map Prod.fst).Nodup) (h : (k, w) ∈ l) (t : Table K V) :
    (insertNew g l t).2.lookup k = (t.lookup k).or (some (g w)) := by
  induction l generalizing t with
  | nil => exact absurd h List.not_mem_nil
  | cons p l ih =>
    obtain ⟨k', w'⟩ := p
    obtain ⟨hp, hl⟩ := List.nodup_cons.1 hl
    rcases List.mem_cons.1 h with heq | hmem
    · obtain ⟨rfl, rfl⟩ := Prod.mk.inj heq
      rcases hk : t.lookup k with - | v
      · rw [insertNew_cons_of_eq_none hk, lookup_insertNew_of_notMem hp, lookup_insert_eq,
          if_pos rfl, Option.none_or]
      · rw [insertNew_cons_of_isSome (by rw [hk]; rfl), lookup_insertNew_of_notMem hp, hk,
          Option.some_or]
    · have hne : k ≠ k' := by
        rintro rfl
        exact hp (List.mem_map.2 ⟨_, hmem, rfl⟩)
      rcases hk' : t.lookup k' with - | v
      · rw [insertNew_cons_of_eq_none hk', ih hl hmem, lookup_insert_eq, if_neg hne]
      · rw [insertNew_cons_of_isSome (by rw [hk']; rfl), ih hl hmem]

theorem lookup_insertNew_pairs (t : Table K V) (u : Table K W) (k : K) :
    (insertNew g (pairs u) t).2.lookup k = (t.lookup k).or ((u.lookup k).map g) := by
  rcases hk : u.lookup k with - | w
  · rw [Option.map_none, Option.or_none]
    refine lookup_insertNew_of_notMem (fun h => ?_) t
    obtain ⟨⟨k', w⟩, hp, rfl⟩ := List.mem_map.1 h
    rw [mem_pairs, hk] at hp
    cases hp
  · exact lookup_insertNew_of_mem (nodup_fst_pairs u) (mem_pairs.2 hk) t

/-- What was set, written out under another map. -/
theorem lookup_insertAll_insertNew {X : Type*} (f : W → X) (t : Table K V) (u : Table K W)
    (k : K) :
    (insertAll ∅ ((insertNew g (pairs u) t).1.map fun p => (p.1, f p.2))).lookup k =
      if (t.lookup k).isSome then none else (u.lookup k).map f := by
  have hfst : ((insertNew g (pairs u) t).1.map fun p => (p.1, f p.2)).map Prod.fst =
      (insertNew g (pairs u) t).1.map Prod.fst := by
    rw [List.map_map]
    rfl
  have hnodup : ((insertNew g (pairs u) t).1.map Prod.fst).Nodup :=
    (nodup_fst_pairs u).sublist ((insertNew_sublist (pairs u) t).map Prod.fst)
  by_cases hk : ∃ w, (k, w) ∈ (insertNew g (pairs u) t).1
  · obtain ⟨w, hw⟩ := hk
    obtain ⟨hu, ht⟩ := (mem_insertNew (nodup_fst_pairs u)).1 hw
    have hset : (k, f w) ∈ (insertNew g (pairs u) t).1.map fun p => (p.1, f p.2) :=
      List.mem_map.2 ⟨(k, w), hw, rfl⟩
    rw [lookup_insertAll_of_mem (hfst ▸ hnodup) hset, ht, mem_pairs.1 hu]
    rfl
  · rw [lookup_insertAll_of_notMem]
    · rcases ht : t.lookup k with - | v
      · rcases hu : u.lookup k with - | w
        · rfl
        · exact absurd ⟨w, (mem_insertNew (nodup_fst_pairs u)).2 ⟨mem_pairs.2 hu, ht⟩⟩ hk
      · rfl
    · rw [hfst]
      intro h
      obtain ⟨⟨k', w⟩, hp, rfl⟩ := List.mem_map.1 h
      exact hk ⟨w, hp⟩

end InsertNew

/-! ## Counters -/

/-- The value of a counter, zero when absent. -/
def value (t : Table K ℤ) (k : K) : ℤ := (t.lookup k).getD 0

/-- The counter table with `n` added to one counter. -/
def bump (t : Table K ℤ) (k : K) (n : ℤ) : Table K ℤ := t.insert k (value t k + n)

/-- The counter table with a list of amounts added. -/
def bumpAll (t : Table K ℤ) (l : List (K × ℤ)) : Table K ℤ :=
  l.foldl (fun t e => bump t e.1 e.2) t

/-- What a list of amounts holds for one key. -/
def sumAt (l : List (K × ℤ)) (k : K) : ℤ := (l.map fun e => if e.1 = k then e.2 else 0).sum

@[simp] theorem value_empty (k : K) : value (∅ : Table K ℤ) k = 0 := rfl

@[simp] theorem sumAt_nil (k : K) : sumAt ([] : List (K × ℤ)) k = 0 := rfl

@[simp] theorem sumAt_cons (e : K × ℤ) (l : List (K × ℤ)) (k : K) :
    sumAt (e :: l) k = (if e.1 = k then e.2 else 0) + sumAt l k := rfl

/-- The amounts for the keys that are let through. -/
theorem sumAt_filter (ok : K → Bool) (l : List (K × ℤ)) (k : K) :
    sumAt (l.filter fun e => ok e.1) k = if ok k then sumAt l k else 0 := by
  induction l with
  | nil => simp
  | cons e l ih =>
    by_cases hk : e.1 = k
    · subst hk
      by_cases hok : ok e.1 = true
      · simp [hok, ih]
      · simp [hok, ih]
    · by_cases hok : ok e.1 = true
      · simp [hok, hk, ih]
      · simp [hok, hk, ih]

/-- Positive amounts hold something for the keys they name, and only for
those. -/
theorem sumAt_eq_zero_iff {l : List (K × ℤ)} (h : ∀ e ∈ l, 0 < e.2) {k : K} :
    sumAt l k = 0 ↔ ∀ e ∈ l, e.1 ≠ k := by
  have hnonneg : ∀ x ∈ l.map fun e => if e.1 = k then e.2 else 0, 0 ≤ x := by
    intro x hx
    obtain ⟨e, he, rfl⟩ := List.mem_map.1 hx
    by_cases hk : e.1 = k
    · rw [if_pos hk]
      exact (h e he).le
    · rw [if_neg hk]
  constructor
  · intro hsum e he hk
    have hzero := List.all_zero_of_le_zero_le_of_sum_eq_zero hnonneg hsum
      (List.mem_map_of_mem he)
    rw [if_pos hk] at hzero
    exact (h e he).ne' hzero
  · intro hne
    refine List.sum_eq_zero fun x hx => ?_
    obtain ⟨e, he, rfl⟩ := List.mem_map.1 hx
    exact if_neg (hne e he)

/-- An amount for every element of a list, gathered at one key. -/
theorem sumAt_map {α : Type*} (l : List α) (g : α → K × ℤ) (k : K) :
    sumAt (l.map g) k = (l.map fun x => if (g x).1 = k then (g x).2 else 0).sum := by
  simp [sumAt, Function.comp_def]

theorem sumAt_map_neg (l : List (K × ℤ)) (k : K) :
    sumAt (l.map fun e => (e.1, -e.2)) k = -sumAt l k := by
  induction l with
  | nil => rfl
  | cons e l ih =>
    rw [List.map_cons, sumAt_cons, sumAt_cons, ih]
    by_cases h : e.1 = k <;> simp [h, add_comm]

/-- An amount for every entry of a table, gathered at one key. -/
theorem sumAt_map_pairs {L : Type*} (g : L → V → K × ℤ) (t : Table L V) (k : K) :
    sumAt ((pairs t).map fun p => g p.1 p.2) k =
      total (fun l v => if (g l v).1 = k then (g l v).2 else 0) t := by
  simp [sumAt, pairs, total, Function.comp_def]

theorem value_insert (t : Table K ℤ) (k k' : K) (n : ℤ) :
    value (t.insert k n) k' = if k' = k then n else value t k' := by
  rw [value, lookup_insert_eq]
  by_cases h : k' = k <;> simp [h, value]

theorem value_bump (t : Table K ℤ) (k k' : K) (n : ℤ) :
    value (bump t k n) k' = value t k' + if k = k' then n else 0 := by
  rw [bump, value_insert]
  by_cases h : k' = k
  · subst h; simp
  · simp [h, Ne.symm h]

theorem value_bumpAll (l : List (K × ℤ)) (t : Table K ℤ) (k : K) :
    value (bumpAll t l) k = value t k + sumAt l k := by
  induction l generalizing t with
  | nil => simp [bumpAll]
  | cons e l ih =>
    have h := ih (bump t e.1 e.2)
    rw [value_bump] at h
    rw [sumAt_cons, ← add_assoc]
    exact h

/-- A counter is there after a list of amounts if it was, or the list names
it. -/
theorem isSome_lookup_bumpAll {l : List (K × ℤ)} {t : Table K ℤ} {k : K} :
    ((bumpAll t l).lookup k).isSome ↔ k ∈ l.map Prod.fst ∨ (t.lookup k).isSome := by
  induction l generalizing t with
  | nil => simp [bumpAll]
  | cons e l ih =>
    have h := ih (t := bump t e.1 e.2)
    rw [bump, lookup_insert_eq] at h
    refine h.trans ?_
    by_cases hk : k = e.1 <;> simp [hk]

/-- Two counters with one value, both there or both not, read the same. -/
theorem lookup_eq_of_value_eq {t t' : Table K ℤ} {k : K}
    (hsome : (t.lookup k).isSome ↔ (t'.lookup k).isSome) (hvalue : value t k = value t' k) :
    t.lookup k = t'.lookup k := by
  unfold value at hvalue
  rcases ht : t.lookup k with - | n <;> rcases ht' : t'.lookup k with - | n' <;>
    rw [ht, ht'] at hsome hvalue
  · simp at hsome
  · simp at hsome
  · exact congrArg some hvalue

theorem sumAt_pairs_eq_total (t : Table K ℤ) (k : K) :
    sumAt (pairs t) k = total (fun k' n => if k' = k then n else 0) t := by
  simp [sumAt, pairs, total, Function.comp_def]

/-- The entries of a counter table, as amounts, hold its values. -/
theorem sumAt_pairs (t : Table K ℤ) (k : K) : sumAt (pairs t) k = value t k := by
  rw [sumAt_pairs_eq_total]
  induction t using AList.insertRec with
  | H0 => rfl
  | IH k' n t hk' ih =>
    have hnone : t.lookup k' = none := AList.lookup_eq_none.2 hk'
    rw [total_insert, share_of_lookup_none hnone, ih, value_insert]
    by_cases hk : k' = k
    · subst hk; simp [value, hnone]
    · simp [hk, Ne.symm hk]

/-- So adding a counter table to another adds the values. -/
theorem value_bumpAll_pairs (t t' : Table K ℤ) (k : K) :
    value (bumpAll t (pairs t')) k = value t k + value t' k := by
  rw [value_bumpAll, sumAt_pairs]

/-- Adding to a counter adds as much to the sum of all of them. -/
theorem total_bump (t : Table K ℤ) (k : K) (n : ℤ) :
    total (fun _ m => m) (bump t k n) = total (fun _ m => m) t + n := by
  have hshare : share (fun _ m => m) t k = value t k := by
    rcases h : t.lookup k with - | m <;> simp [share, value, h]
  rw [bump, total_insert, hshare]
  ring

theorem total_bumpAll (l : List (K × ℤ)) (t : Table K ℤ) :
    total (fun _ m => m) (bumpAll t l) = total (fun _ m => m) t + (l.map Prod.snd).sum := by
  induction l generalizing t with
  | nil => simp [bumpAll]
  | cons e l ih =>
    have h := ih (bump t e.1 e.2)
    rw [total_bump] at h
    rw [List.map_cons, List.sum_cons, ← add_assoc]
    exact h

/-- The amounts of a list, gathered into a counter table. -/
def gather (l : List (K × ℤ)) : Table K ℤ := bumpAll ∅ l

theorem value_gather (l : List (K × ℤ)) (k : K) : value (gather l) k = sumAt l k := by
  rw [gather, value_bumpAll, value_empty, zero_add]

theorem isSome_lookup_gather {l : List (K × ℤ)} {k : K} :
    ((gather l).lookup k).isSome ↔ k ∈ l.map Prod.fst := by
  rw [gather, isSome_lookup_bumpAll]
  simp

/-! ## Amounts with repetitions -/

/-- An element counts in a list as often as it occurs, and once in the list
without repetitions. -/
theorem sum_map_eq_sum_map_dedup_add (l : List K) (g : K → ℤ) :
    (l.map g).sum = (l.dedup.map g).sum + ∑ k ∈ l.toFinset, ((l.count k : ℤ) - 1) * g k := by
  have hdedup : (l.dedup.map g).sum = ∑ k ∈ l.toFinset, g k := by
    rw [← List.sum_toFinset g l.nodup_dedup]
    exact Finset.sum_congr (by ext; simp) fun _ _ => rfl
  rw [hdedup, Finset.sum_list_map_count, ← Finset.sum_add_distrib]
  refine Finset.sum_congr rfl fun k _ => ?_
  rw [nsmul_eq_mul]
  ring

/-- The repetitions add nothing exactly if no element that counts is
repeated. -/
theorem sum_repetitions_eq_zero_iff {l : List K} {g : K → ℤ} (hg : ∀ k, 0 ≤ g k) :
    ∑ k ∈ l.toFinset, ((l.count k : ℤ) - 1) * g k = 0 ↔ ∀ k, g k ≠ 0 → l.count k ≤ 1 := by
  have hcount : ∀ k ∈ l.toFinset, 1 ≤ l.count k := fun k hk =>
    List.one_le_count_iff.2 (List.mem_toFinset.1 hk)
  have hnonneg : ∀ k ∈ l.toFinset, 0 ≤ ((l.count k : ℤ) - 1) * g k := by
    intro k hk
    have h1 := hcount k hk
    exact mul_nonneg (by omega) (hg k)
  rw [Finset.sum_eq_zero_iff_of_nonneg hnonneg]
  constructor
  · intro h k hk
    by_cases hmem : k ∈ l
    · have hzero := (mul_eq_zero.1 (h k (List.mem_toFinset.2 hmem))).resolve_right hk
      omega
    · rw [List.count_eq_zero.2 hmem]
      exact Nat.zero_le 1
  · intro h k hk
    by_cases hzero : g k = 0
    · rw [hzero, mul_zero]
    · have h1 := hcount k hk
      have h2 := h k hzero
      have hone : (l.count k : ℤ) - 1 = 0 := by omega
      rw [hone, zero_mul]

/-! ## The least counter -/

/-- The first key of a list whose counter is least. -/
def least (t : Table K ℤ) (l : List K) : Option K :=
  l.foldl (fun best k =>
    match best with
    | none => some k
    | some m => if value t k < value t m then some k else some m) none

-- The step of the loop is that of `List.argmin`, which names the order of the integers.
theorem foldl_argAux_eq_least (t : Table K ℤ) (l : List K) :
    l.foldl (List.argAux fun k m => value t k < value t m) none = least t l := by
  unfold least
  congr 1
  funext best k
  cases best <;> rfl

theorem least_eq_some {t : Table K ℤ} {l : List K} {k : K} :
    least t l = some k ↔ k ∈ l ∧ (∀ c ∈ l, value t k ≤ value t c) ∧
      ∀ c ∈ l, value t c ≤ value t k → l.idxOf k ≤ l.idxOf c := by
  rw [← foldl_argAux_eq_least]
  exact List.mem_argmin_iff (f := value t) (l := l)

theorem least_eq_none {t : Table K ℤ} {l : List K} : least t l = none ↔ l = [] := by
  rw [← foldl_argAux_eq_least]
  exact List.argmin_eq_none (f := value t) (l := l)

/-! ## Counters that must be there -/

/-- The counter table with `n` added to a counter that is there; an absent
one stays absent. -/
def adjust (t : Table K ℤ) (k : K) (n : ℤ) : Table K ℤ :=
  match t.lookup k with
  | some m => t.insert k (m + n)
  | none => t

/-- The counter table adjusted by a list of amounts. -/
def adjustAll (t : Table K ℤ) (l : List (K × ℤ)) : Table K ℤ :=
  l.foldl (fun t e => adjust t e.1 e.2) t

theorem lookup_adjust (t : Table K ℤ) (k k' : K) (n : ℤ) :
    (adjust t k n).lookup k' = (t.lookup k').map fun m => m + if k = k' then n else 0 := by
  unfold adjust
  rcases h : t.lookup k with - | m
  · by_cases hk : k = k'
    · subst hk; simp [h]
    · simp [hk]
  · dsimp only
    rw [lookup_insert_eq]
    by_cases hk : k' = k
    · subst hk; simp [h]
    · simp [hk, Ne.symm hk]

theorem lookup_adjustAll (l : List (K × ℤ)) (t : Table K ℤ) (k : K) :
    (adjustAll t l).lookup k = (t.lookup k).map (· + sumAt l k) := by
  induction l generalizing t with
  | nil => simp [adjustAll]
  | cons e l ih =>
    have h := ih (adjust t e.1 e.2)
    rw [lookup_adjust] at h
    rw [sumAt_cons]
    refine Eq.trans h ?_
    rcases t.lookup k with - | m
    · rfl
    · simp [add_assoc]

end Table

end StickyProxy
