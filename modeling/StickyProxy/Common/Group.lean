import StickyProxy.Common.Table
/-!
# Grouping a list by key

`groupBy` collects the values of a list of pairs under their keys, each
group in the order of the list, and `ungroup` writes a grouping out again.
Nothing is lost and nothing doubled on the way: `ungroup_groupBy`.
-/

namespace StickyProxy

namespace Table

variable {K V : Type*} [DecidableEq K]

/-- The values of a list, under their keys. -/
def groupBy (l : List (K × V)) : Table K (List V) :=
  l.foldl (fun t e => t.insert e.1 ((t.lookup e.1).getD [] ++ [e.2])) ∅

omit [DecidableEq K] in
/-- The pairs a list of groups stands for. -/
def ungroup (groups : List (K × List V)) : List (K × V) :=
  groups.flatMap fun g => g.2.map fun v => (g.1, v)

omit [DecidableEq K] in
@[simp] theorem ungroup_cons (g : K × List V) (groups : List (K × List V)) :
    ungroup (g :: groups) = (g.2.map fun v => (g.1, v)) ++ ungroup groups := rfl

theorem pairs_insert (t : Table K V) (k : K) (v : V) :
    pairs (t.insert k v) = (k, v) :: pairs (t.erase k) := by
  simp only [pairs, AList.entries_insert, List.map_cons]
  rfl

/-- An entry can be taken to the front. -/
theorem pairs_perm_of_lookup {t : Table K V} {k : K} {v : V} (h : t.lookup k = some v) :
    (pairs t).Perm ((k, v) :: pairs (t.erase k)) := by
  rw [← pairs_insert]
  refine (perm_entries_of_lookup fun k' => ?_).map _
  rw [lookup_insert_eq]
  split
  · rename_i hk
    rw [hk, h]
  · rfl

theorem pairs_erase_perm {t : Table K V} {k : K} (h : t.lookup k = none) :
    (pairs (t.erase k)).Perm (pairs t) := by
  refine (perm_entries_of_lookup fun k' => ?_).map _
  rw [lookup_erase_eq]
  split
  · rename_i hk
    rw [hk, h]
  · rfl

/-- Adding a value to a group adds the pair. -/
theorem ungroup_insert (t : Table K (List V)) (k : K) (v : V) :
    (ungroup (pairs (t.insert k ((t.lookup k).getD [] ++ [v])))).Perm
      (ungroup (pairs t) ++ [(k, v)]) := by
  rw [pairs_insert, ungroup_cons]
  rcases h : t.lookup k with - | vs
  · have hrest : (ungroup (pairs (t.erase k))).Perm (ungroup (pairs t)) :=
      (pairs_erase_perm h).flatMap_right _
    exact (List.perm_append_comm.trans (hrest.append_right _))
  · have hall : (ungroup (pairs t)).Perm
        ((vs.map fun v => (k, v)) ++ ungroup (pairs (t.erase k))) :=
      (pairs_perm_of_lookup h).flatMap_right _
    rw [Option.getD_some, List.map_append, List.map_singleton]
    calc (vs.map (fun v => (k, v)) ++ [(k, v)]) ++ ungroup (pairs (t.erase k))
      _ = vs.map (fun v => (k, v)) ++ ([(k, v)] ++ ungroup (pairs (t.erase k))) := by
          rw [List.append_assoc]
      List.Perm _ (vs.map (fun v => (k, v)) ++ (ungroup (pairs (t.erase k)) ++ [(k, v)])) :=
          List.perm_append_comm.append_left _
      _ = (vs.map (fun v => (k, v)) ++ ungroup (pairs (t.erase k))) ++ [(k, v)] := by
          rw [List.append_assoc]
      List.Perm _ (ungroup (pairs t) ++ [(k, v)]) := hall.symm.append_right _

theorem ungroup_foldl (l : List (K × V)) (t : Table K (List V)) :
    (ungroup (pairs (l.foldl (fun t e => t.insert e.1 ((t.lookup e.1).getD [] ++ [e.2])) t))).Perm
      (ungroup (pairs t) ++ l) := by
  induction l generalizing t with
  | nil => rw [List.append_nil, List.foldl_nil]
  | cons e l ih =>
    have hcons : ungroup (pairs t) ++ e :: l = ungroup (pairs t) ++ [(e.1, e.2)] ++ l := by simp
    rw [List.foldl_cons, hcons]
    exact (ih _).trans ((ungroup_insert t e.1 e.2).append_right l)

/-- **Grouping loses nothing and doubles nothing.** -/
theorem ungroup_groupBy (l : List (K × V)) : (ungroup (pairs (groupBy l))).Perm l :=
  ungroup_foldl l ∅

end Table

end StickyProxy
