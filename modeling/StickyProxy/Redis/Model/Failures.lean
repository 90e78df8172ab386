import StickyProxy.Redis.Model.Keyspace
/-!
# Redis — calls whose commands may fail

The three calls that write the table from Go, each alone, with a verdict
for every command. A command that fails has no effect; the others of its
pipeline have theirs, and `Exec` reports that one of them failed. The
keys of a call are distinct, so a command is named by its key or its
backend. A recount that follows succeeds.
-/

namespace StickyProxy

namespace Redis

/-- Which commands succeed. -/
structure Verdicts where
  hget : RoutingKey → Bool
  hsetnx : RoutingKey → Bool
  hdel : Bool
  hincrby : Backend → Bool

/-- Every command succeeds. -/
def Verdicts.served : Verdicts := ⟨fun _ => true, fun _ => true, true, fun _ => true⟩

namespace Pipeline

/-- The `HINCRBY`s of a pipeline. -/
def hincrbyAll (v : Verdicts) (amounts : List (Backend × ℤ)) (counts : Table Backend ℤ) :
    Table Backend ℤ :=
  counts.bumpAll (amounts.filter fun e => v.hincrby e.1)

/-- `DeleteAssignment`, and whether it succeeds. -/
def deleteAssignment (v : Verdicts) (k : RoutingKey) (r : Keyspace) : Bool × Keyspace :=
  match if v.hget k then getAssignment k r else none with
  | none => (false, r)
  | some a => (v.hdel && v.hincrby a.backend, { r with
      assignments := if v.hdel then r.assignments.erase k else r.assignments
      counts := hincrbyAll v [(a.backend, -a.effectiveWeight)] r.counts })

/-- `BulkAssign`: the keys assigned, and whether it succeeds. An error of
phase 1 ends the call; one of phase 2 has the counts recounted. -/
def bulkAssign (v : Verdicts) (now : Time) (entries : Table RoutingKey BulkAssignEntry)
    (r : Keyspace) : (Table RoutingKey Backend × Bool) × Keyspace :=
  if entries.pairs.isEmpty then ((∅, true), r)
  else
    let (set, assignments) :=
      hsetnxAll now (entries.pairs.filter fun p => v.hsetnx p.1) r.assignments
    if entries.pairs.all fun p => v.hsetnx p.1 then
      let assigned := Table.insertAll ∅ (set.map fun p => (p.1, p.2.backend))
      let counts := Table.gather (set.map fun p => (p.2.backend, p.2.storedWeight))
      let r := { r with assignments, counts := hincrbyAll v counts.pairs r.counts }
      if counts.pairs.all fun e => v.hincrby e.1 then ((assigned, true), r)
      else ((assigned, false), reconcileAssignmentCounts r)
    else ((∅, false), { r with assignments })

/-- Phase 2 of `BulkDeleteAssignments`: one `HDEL` of the keys read and the
decrements. -/
def removeRead (v : Verdicts) (read : List (RoutingKey × Assignment)) (r : Keyspace) : Keyspace :=
  { r with
    assignments := if v.hdel then r.assignments.eraseAll (read.map Prod.fst) else r.assignments
    counts := hincrbyAll v (decrements read) r.counts }

/-- `BulkDeleteAssignments`, and whether it succeeds: a key that could not
be read is passed over. -/
def bulkDeleteAssignments (v : Verdicts) (keys : List RoutingKey) (r : Keyspace) :
    Bool × Keyspace :=
  let read := readAll (keys.filter v.hget) r
  if read.isEmpty then (true, r)
  else (v.hdel && (decrements read).all fun e => v.hincrby e.1, removeRead v read r)

end Pipeline

/-- A call that writes the table. -/
inductive Write where
  | deleteAssignment (k : RoutingKey)
  | bulkAssign (now : Time) (entries : Table RoutingKey BulkAssignEntry)
  | bulkDeleteAssignments (keys : List RoutingKey)

/-- What a call leaves behind. -/
def Write.run (v : Verdicts) (r : Keyspace) : Write → Keyspace
  | .deleteAssignment k => (Pipeline.deleteAssignment v k r).2
  | .bulkAssign now entries => (Pipeline.bulkAssign v now entries r).2
  | .bulkDeleteAssignments keys => (Pipeline.bulkDeleteAssignments v keys r).2

/-- The keys of the call are distinct. -/
def Write.Distinct : Write → Prop
  | .bulkDeleteAssignments keys => keys.Nodup
  | _ => True

/-- The failures of the call cancel out. What a delete reads is taken off
both the hash and the count, or off neither; a bulk assignment whose first
pipeline failed set no key. -/
def Write.Harmless (v : Verdicts) (r : Keyspace) : Write → Prop
  | .deleteAssignment k =>
    ∀ a, v.hget k = true → getAssignment k r = some a → v.hincrby a.backend = v.hdel
  | .bulkAssign _ entries =>
    (∀ k e, entries.lookup k = some e → v.hsetnx k = true) ∨
      ∀ k e, entries.lookup k = some e → v.hsetnx k = true → (r.assignments.lookup k).isSome
  | .bulkDeleteAssignments keys =>
    ∀ k ∈ keys, ∀ a, v.hget k = true → getAssignment k r = some a →
      v.hincrby a.backend = v.hdel

end Redis

end StickyProxy
