import StickyProxy.Ownership.Model.Batches
import StickyProxy.Sticky.Finding
/-!
# A pass is exact

A pass nobody interferes with asks for the key of every user once, whatever
the size of the batches, and gives up the users of the batches that were
read whose key does not have the address of the backend. The loop goes
through the batches one after another; a batch adds its users to those asked
for, and those it has lost to those given up. The steps a checker takes
beside the replicas, taken one after another, are such a pass.
-/

namespace StickyProxy

namespace Ownership

open Sticky

variable {size : ℕ} {mget : ℕ → Option Strings} {userIDs : List RoutingKey} {u : RoutingKey}
  {b : Backend} {found : Option Strings} {strings : Strings}

/-! ## The batches -/

theorem flatten_map_slices (size n : ℕ) (userIDs : List RoutingKey) :
    ((List.range n).map fun i => (userIDs.drop (i * size)).take size).flatten =
      userIDs.take (n * size) := by
  induction n with
  | zero => simp
  | succ n ih =>
    rw [List.range_succ, List.map_append, List.flatten_append, ih, Nat.succ_mul, List.take_add]
    simp

/-- **The batches are the users, cut.** -/
theorem flatten_batchesOf (hsize : 1 ≤ size) (userIDs : List RoutingKey) :
    (batchesOf size userIDs).flatten = userIDs := by
  rw [batchesOf, flatten_map_slices, List.take_of_length_le]
  have hdiv := Nat.lt_div_mul_add (a := userIDs.length + size - 1) (b := size) hsize
  omega

theorem length_batchesOf (size : ℕ) (userIDs : List RoutingKey) :
    (batchesOf size userIDs).length = (userIDs.length + size - 1) / size := by
  rw [batchesOf, List.length_map, List.length_range]

/-- There are batches left exactly while there are users left. -/
theorem lt_length_batchesOf (hsize : 1 ≤ size) {n : ℕ} :
    n < (batchesOf size userIDs).length ↔ n * size < userIDs.length := by
  rw [length_batchesOf, ← Nat.succ_le_iff, Nat.le_div_iff_mul_le hsize, Nat.succ_mul]
  omega

/-- The batch that begins at an index of the users is the next. -/
theorem drop_batchesOf (hsize : 1 ≤ size) {n : ℕ} (hn : n * size < userIDs.length) :
    (batchesOf size userIDs).drop n =
      (userIDs.drop (n * size)).take size :: (batchesOf size userIDs).drop (n + 1) := by
  rw [List.drop_eq_getElem_cons ((lt_length_batchesOf hsize).2 hn)]
  simp only [batchesOf, List.getElem_map, List.getElem_range]

/-- `userIDs[i:end]`. -/
theorem drop_take_min (i size : ℕ) (userIDs : List RoutingKey) :
    (userIDs.take (min (i + size) userIDs.length)).drop i = (userIDs.drop i).take size := by
  rw [List.drop_take]
  rcases Nat.le_total (i + size) userIDs.length with hle | hle
  · rw [Nat.min_eq_left hle, Nat.add_sub_cancel_left]
  · rw [Nat.min_eq_right hle, List.take_of_length_le, List.take_of_length_le]
    · rw [List.length_drop]
      omega
    · rw [List.length_drop]

/-! ## One batch -/

/-- The users of a batch whose key was read and does not have the address. -/
def lost (b : Backend) (found : Option Strings) (userIDs : List RoutingKey) : List RoutingKey :=
  match found with
  | none => []
  | some strings => userIDs.filter fun u => owner (strings.lookup (stickyKey u)) ≠ b

/-- A checker that has given up some users more. -/
def Checker.giveUp (given : List RoutingKey) (c : Checker) : Checker :=
  { c with
    users := c.users \ given.toFinset
    evicted := c.evicted ++ given }

theorem Checker.giveUp_nil (c : Checker) : c.giveUp [] = c := by
  simp [giveUp]

theorem Checker.giveUp_giveUp (c : Checker) (given given' : List RoutingKey) :
    (c.giveUp given).giveUp given' = c.giveUp (given ++ given') := by
  simp [giveUp, sdiff_sdiff_left]

theorem Checker.giveUp_singleton (c : Checker) (u : RoutingKey) :
    c.giveUp [u] = { c with users := c.users.erase u, evicted := c.evicted ++ [u] } := by
  simp [giveUp, Finset.sdiff_singleton_eq_erase]

/-- A pass that has asked for some keys more, and given up some users more. -/
def Progress.after (p : Progress) (asked : List String) (given : List RoutingKey) : Progress :=
  ⟨p.queried ++ asked, p.checker.giveUp given⟩

theorem Progress.after_nil (p : Progress) : p.after [] [] = p := by
  rw [after, List.append_nil, Checker.giveUp_nil]

theorem Progress.after_after (p : Progress) (asked asked' : List String)
    (given given' : List RoutingKey) :
    (p.after asked given).after asked' given' = p.after (asked ++ asked') (given ++ given') := by
  simp only [after, List.append_assoc, Checker.giveUp_giveUp]

theorem judge_eq (p : Progress) (v : RoutingKey × Option String) :
    judge p v = p.after [] (if owner v.2 = p.checker.myAddr then [] else [v.1]) := by
  unfold judge
  split
  · rw [Progress.after_nil]
  · rw [Progress.after, List.append_nil, Checker.giveUp_singleton]

/-- The first user of a batch is lost, or not, and then the rest are. -/
theorem lost_cons (b : Backend) (strings : Strings) (u : RoutingKey) (userIDs : List RoutingKey) :
    lost b (some strings) (u :: userIDs) =
      (if owner (strings.lookup (stickyKey u)) = b then [] else [u]) ++
        lost b (some strings) userIDs := by
  simp only [lost, List.filter_cons]
  by_cases howner : owner (strings.lookup (stickyKey u)) = b
  · simp [howner]
  · simp [howner]

theorem foldl_judge (strings : Strings) (userIDs : List RoutingKey) (p : Progress) :
    (userIDs.zip ((userIDs.map stickyKey).map strings.lookup)).foldl judge p =
      p.after [] (lost p.checker.myAddr (some strings) userIDs) := by
  induction userIDs generalizing p with
  | nil => exact p.after_nil.symm
  | cons u userIDs ih =>
    simp only [List.map_cons, List.zip_cons_cons, List.foldl_cons]
    rw [judge_eq, ih, Progress.after_after, lost_cons]
    rfl

/-- **What a batch does.** -/
theorem checkBatch_eq (found : Option Strings) (userIDs : List RoutingKey) (p : Progress) :
    checkBatch found userIDs p =
      p.after (userIDs.map stickyKey) (lost p.checker.myAddr found userIDs) := by
  have hasked : { p with queried := p.queried ++ userIDs.map stickyKey } =
      p.after (userIDs.map stickyKey) [] := by rw [Progress.after, Checker.giveUp_nil]
  unfold checkBatch
  dsimp only
  rw [hasked]
  cases found with
  | none => rfl
  | some strings =>
    dsimp only
    rw [foldl_judge, Progress.after_after, List.append_nil, List.nil_append]
    rfl

/-! ## The loop -/

/-- The batches, numbered from `n` on, one after another. -/
def checkBatches (mget : ℕ → Option Strings) (batches : List (List RoutingKey)) (n : ℕ)
    (p : Progress) : Progress :=
  (batches.zipIdx n).foldl (fun p batch => checkBatch (mget batch.2) batch.1 p) p

/-- The users that are lost in them. -/
def lostIn (b : Backend) (mget : ℕ → Option Strings) (batches : List (List RoutingKey)) (n : ℕ) :
    List RoutingKey :=
  (batches.zipIdx n).flatMap fun batch => lost b (mget batch.2) batch.1

/-- The loop goes through the batches, and it ends. -/
theorem checkFrom_eq (hsize : 1 ≤ size) {fuel n : ℕ} (hfuel : userIDs.length - n * size < fuel)
    (p : Progress) :
    checkFrom size mget userIDs fuel n (n * size) p =
      some (checkBatches mget ((batchesOf size userIDs).drop n) n p) := by
  induction fuel generalizing n p with
  | zero => cases hfuel
  | succ fuel ih =>
    rw [checkFrom]
    by_cases hn : n * size < userIDs.length
    · have hrest : userIDs.length - (n + 1) * size < fuel := by
        rw [Nat.succ_mul]
        omega
      rw [if_pos hn]
      dsimp only
      rw [drop_take_min, ← Nat.succ_mul, ih hrest, drop_batchesOf hsize hn]
      rfl
    · have hend : (batchesOf size userIDs).drop n = [] :=
        List.drop_eq_nil_iff.2 (Nat.le_of_not_lt fun h => hn ((lt_length_batchesOf hsize).1 h))
      rw [if_neg hn, hend]
      rfl

theorem checkPass_eq (hsize : 1 ≤ size) {fuel : ℕ} (hfuel : userIDs.length < fuel) (c : Checker) :
    checkPass fuel size mget userIDs c =
      some (checkBatches mget (batchesOf size userIDs) 0 ⟨[], c⟩) := by
  have hloop : checkFrom size mget userIDs fuel 0 (0 * size) ⟨[], c⟩ =
      some (checkBatches mget ((batchesOf size userIDs).drop 0) 0 ⟨[], c⟩) :=
    checkFrom_eq hsize (by omega) ⟨[], c⟩
  rw [Nat.zero_mul, List.drop_zero] at hloop
  unfold checkPass
  split
  · rename_i hempty
    have hnone : batchesOf size userIDs = [] := by
      rw [← List.length_eq_zero_iff, length_batchesOf, hempty]
      exact Nat.div_eq_of_lt (by rw [List.length_nil]; omega)
    rw [hnone]
    rfl
  · exact hloop

/-- **What the batches do**, one after another. -/
theorem checkBatches_eq (mget : ℕ → Option Strings) (batches : List (List RoutingKey)) (n : ℕ)
    (p : Progress) :
    checkBatches mget batches n p =
      p.after (batches.flatten.map stickyKey) (lostIn p.checker.myAddr mget batches n) := by
  induction batches generalizing n p with
  | nil => exact p.after_nil.symm
  | cons userIDs batches ih =>
    have hrest := ih (n + 1) (checkBatch (mget n) userIDs p)
    rw [checkBatch_eq, Progress.after_after, ← List.map_append, ← List.flatten_cons] at hrest
    rw [checkBatches, List.zipIdx_cons, List.foldl_cons, checkBatch_eq]
    exact hrest

theorem lost_sublist (b : Backend) (found : Option Strings) (userIDs : List RoutingKey) :
    (lost b found userIDs).Sublist userIDs := by
  cases found with
  | none => exact List.nil_sublist _
  | some strings => exact List.filter_sublist

theorem lostIn_sublist (b : Backend) (mget : ℕ → Option Strings) (batches : List (List RoutingKey))
    (n : ℕ) : (lostIn b mget batches n).Sublist batches.flatten := by
  induction batches generalizing n with
  | nil => exact List.nil_sublist _
  | cons userIDs batches ih => exact (lost_sublist b (mget n) userIDs).append (ih (n + 1))

/-! ## The pass -/

/-- A key with another value than the address, or none, is not the
owner's. -/
theorem owner_ne_iff (hb : b ≠ "") (val : Option String) : owner val ≠ b ↔ val ≠ some b := by
  cases val with
  | none => exact iff_of_true (fun h => hb h.symm) (Option.some_ne_none b).symm
  | some v => exact not_congr (Option.some.injEq v b ▸ Iff.rfl)

/-- The user is in a batch that was read, and its key is missing or names
another backend. -/
def Loses (size : ℕ) (mget : ℕ → Option Strings) (userIDs : List RoutingKey) (b : Backend)
    (u : RoutingKey) : Prop :=
  ∃ n batch, (batchesOf size userIDs)[n]? = some batch ∧ u ∈ batch ∧
    ∃ strings ∈ mget n, strings.lookup (stickyKey u) ≠ some b

theorem mem_lost (hb : b ≠ "") :
    u ∈ lost b found userIDs ↔
      u ∈ userIDs ∧ ∃ strings ∈ found, strings.lookup (stickyKey u) ≠ some b := by
  cases found with
  | none => simp [lost]
  | some strings => simp [lost, owner_ne_iff hb, ← ne_eq]

theorem mem_lostIn (hb : b ≠ "") :
    u ∈ lostIn b mget (batchesOf size userIDs) 0 ↔ Loses size mget userIDs b u := by
  simp only [lostIn, List.mem_flatMap, Prod.exists, List.mem_zipIdx_iff_getElem?, mem_lost hb,
    Loses]
  constructor
  · rintro ⟨batch, n, hn, hu, hlost⟩
    exact ⟨n, batch, hn, hu, hlost⟩
  · rintro ⟨n, batch, hn, hu, hlost⟩
    exact ⟨batch, n, hn, hu, hlost⟩

/-- **A pass is exact.** For all users, every size of the batches, every
address and whatever the `MGET`s find or fail to find: the pass ends, it has
asked for the key of every user once and for no other, called `OnEvict`
once for every user that is lost and for no other, and it tracks the users
that are left. -/
theorem checkPass_exact (c : Checker) (size : ℕ) (hsize : 1 ≤ size) (haddr : c.myAddr ≠ "")
    (userIDs : List RoutingKey) (henum : Enumerates userIDs c.users) (mget : ℕ → Option Strings)
    (fuel : ℕ) (hfuel : userIDs.length < fuel) :
    ∃ p evicted, checkPass fuel size mget userIDs c = some p ∧
      p.queried.Nodup ∧ (∀ key, key ∈ p.queried ↔ ∃ u ∈ c.users, stickyKey u = key) ∧
      p.checker.evicted = c.evicted ++ evicted ∧ evicted.Nodup ∧
      (∀ u, u ∈ evicted ↔ Loses size mget userIDs c.myAddr u) ∧
      ∀ u, u ∈ p.checker.users ↔ u ∈ c.users ∧ u ∉ evicted := by
  refine ⟨_, lostIn c.myAddr mget (batchesOf size userIDs) 0, checkPass_eq hsize hfuel c, ?_⟩
  rw [checkBatches_eq, flatten_batchesOf hsize]
  refine ⟨?_, fun key => ?_, rfl, ?_, fun u => mem_lostIn haddr, fun u => ?_⟩
  · have hinj : Function.Injective stickyKey :=
      Function.LeftInverse.injective (g := userOf) userOf_stickyKey
    exact henum.1.map hinj
  · simp only [Progress.after, List.nil_append, List.mem_map, henum.mem]
  · have hsub := lostIn_sublist c.myAddr mget (batchesOf size userIDs) 0
    rw [flatten_batchesOf hsize] at hsub
    exact hsub.nodup henum.1
  · simp only [Progress.after, Checker.giveUp, Finset.mem_sdiff, List.mem_toFinset]

/-- Three users in batches of two, of which the second fails: one user is
spared by its key, one given up and one spared by the failure. -/
theorem checkPass_exact_threeUsers :
    checkPass 4 2 (fun n => if n = 0 then some (Table.insertAll ∅ [("sticky:u", "b")]) else none)
        ["u", "v", "w"] ⟨"b", {"u", "v", "w"}, .idle, []⟩ =
      some ⟨["sticky:u", "sticky:v", "sticky:w"], ⟨"b", {"u", "w"}, .idle, ["v"]⟩⟩ ∧
    ∃ p evicted, checkPass 4 2
        (fun n => if n = 0 then some (Table.insertAll ∅ [("sticky:u", "b")]) else none)
        ["u", "v", "w"] ⟨"b", {"u", "v", "w"}, .idle, []⟩ = some p ∧
      p.queried.Nodup ∧
      (∀ key, key ∈ p.queried ↔ ∃ u ∈ ({"u", "v", "w"} : Finset RoutingKey), stickyKey u = key) ∧
      p.checker.evicted = [] ++ evicted ∧ evicted.Nodup ∧
      (∀ u, u ∈ evicted ↔ Loses 2
        (fun n => if n = 0 then some (Table.insertAll ∅ [("sticky:u", "b")]) else none)
        ["u", "v", "w"] "b" u) ∧
      ∀ u, u ∈ p.checker.users ↔ u ∈ ({"u", "v", "w"} : Finset RoutingKey) ∧ u ∉ evicted :=
  ⟨by decide +kernel, checkPass_exact ⟨"b", {"u", "v", "w"}, .idle, []⟩ 2 (by decide) (by decide)
    ["u", "v", "w"] (by decide) _ 4 (by decide)⟩

/-! ## The steps beside the replicas -/

/-- A step of a checker, with the keys it finds. -/
def ownStep (c : Checker) (a : Strings × Turn) : Option Checker := c.check a.1 a.2

/-- The checker, as far as that in its pass. -/
def Checker.inPass (pass : Pass) (c : Checker) : Checker := { c with pass := pass }

/-- What an `MGET` returns. -/
def readVals (strings : Strings) (userIDs : List RoutingKey) : List (RoutingKey × Option String) :=
  userIDs.map fun uid => (uid, strings.lookup (stickyKey uid))

theorem ownStep_vals_cons (strings : Strings) (u : RoutingKey) (userIDs : List RoutingKey)
    (todo : List (List RoutingKey)) (c : Checker) (a : Strings × Turn) :
    ownStep (c.inPass (.vals (readVals strings (u :: userIDs)) todo)) a =
      some ((c.giveUp (if owner (strings.lookup (stickyKey u)) = c.myAddr then [] else [u])).inPass
        (.vals (readVals strings userIDs) todo)) := by
  by_cases howner : owner (strings.lookup (stickyKey u)) = c.myAddr
  · rw [if_pos howner, Checker.giveUp_nil]
    exact if_pos howner
  · rw [if_neg howner, Checker.giveUp_singleton]
    exact if_neg howner

/-- The verdicts on a batch that was read. -/
theorem exec_vals (strings : Strings) (userIDs : List RoutingKey) (todo : List (List RoutingKey))
    (c : Checker) :
    ∃ turns, Run.exec ownStep (c.inPass (.vals (readVals strings userIDs) todo)) turns =
      some ((c.giveUp (lost c.myAddr (some strings) userIDs)).inPass (.batches todo)) := by
  induction userIDs generalizing c with
  | nil =>
    refine ⟨[(∅, ⟨[], true⟩)], ?_⟩
    rw [lost, List.filter_nil, Checker.giveUp_nil]
    rfl
  | cons u userIDs ih =>
    obtain ⟨turns, hturns⟩ :=
      ih (c.giveUp (if owner (strings.lookup (stickyKey u)) = c.myAddr then [] else [u]))
    refine ⟨(∅, ⟨[], true⟩) :: turns, Run.exec_cons_eq_some.2
      ⟨_, ownStep_vals_cons strings u userIDs todo c _, hturns.trans ?_⟩⟩
    rw [Checker.giveUp_giveUp, lost_cons]
    rfl

/-- The batches that are left. -/
theorem exec_batches (mget : ℕ → Option Strings) (todo : List (List RoutingKey)) (n : ℕ)
    (c : Checker) :
    ∃ turns, Run.exec ownStep (c.inPass (.batches todo)) turns =
      some ((c.giveUp (lostIn c.myAddr mget todo n)).inPass .idle) := by
  induction todo generalizing n c with
  | nil =>
    refine ⟨[(∅, ⟨[], true⟩)], ?_⟩
    rw [lostIn, List.zipIdx_nil, List.flatMap_nil, Checker.giveUp_nil]
    rfl
  | cons userIDs todo ih =>
    obtain ⟨turns, hturns⟩ := ih (n + 1) (c.giveUp (lost c.myAddr (mget n) userIDs))
    have hlost : (c.giveUp (lost c.myAddr (mget n) userIDs)).giveUp
        (lostIn c.myAddr mget todo (n + 1)) =
          c.giveUp (lostIn c.myAddr mget (userIDs :: todo) n) := Checker.giveUp_giveUp _ _ _
    rw [← hlost]
    cases hfound : mget n with
    | none =>
      refine ⟨(∅, ⟨[], false⟩) :: turns, Run.exec_cons_eq_some.2
        ⟨c.inPass (.batches todo), rfl, ?_⟩⟩
      rw [hfound, lost, Checker.giveUp_nil] at hturns
      rw [hturns, lost, Checker.giveUp_nil]
    | some strings =>
      obtain ⟨verdicts, hverdicts⟩ := exec_vals strings userIDs todo c
      rw [hfound] at hturns
      exact ⟨(strings, ⟨[], true⟩) :: (verdicts ++ turns), Run.exec_cons_eq_some.2
        ⟨c.inPass (.vals (readVals strings userIDs) todo), rfl,
          Run.exec_append_eq_some.2 ⟨_, hverdicts, hturns⟩⟩⟩

/-- **The steps are the pass.** What a whole pass leaves of a checker, its
steps, taken one after another, leave too. -/
theorem exec_of_checkPass {c : Checker} (hidle : c.pass = .idle)
    (henum : Enumerates userIDs c.users) {fuel : ℕ} (hfuel : userIDs.length < fuel)
    {p : Progress} (h : checkPass fuel batchSize mget userIDs c = some p) :
    ∃ turns, Run.exec ownStep c turns = some p.checker := by
  have hsize : 1 ≤ batchSize := by decide
  rw [checkPass_eq hsize hfuel, checkBatches_eq, Option.some.injEq] at h
  rw [← h]
  obtain ⟨turns, hturns⟩ := exec_batches mget (batchesOf batchSize userIDs) 0 c
  have hpass : ∀ given, (c.giveUp given).inPass .idle = c.giveUp given :=
    fun given => by rw [← hidle]; rfl
  rw [hpass] at hturns
  by_cases hempty : userIDs = []
  · refine ⟨[], ?_⟩
    have hnone : batchesOf batchSize userIDs = [] := by rw [hempty]; rfl
    rw [hnone, Run.exec_nil]
    exact congrArg some c.giveUp_nil.symm
  · refine ⟨(∅, ⟨userIDs, true⟩) :: turns, Run.exec_cons_eq_some.2 ⟨_, ?_, hturns⟩⟩
    rw [ownStep, Checker.check, hidle]
    dsimp only
    rw [if_pos henum, if_neg hempty]
    rfl

end Ownership

end StickyProxy
