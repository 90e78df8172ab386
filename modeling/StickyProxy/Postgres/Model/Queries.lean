import StickyProxy.Model.Assignment
import Mathlib.Data.List.Basic
/-!
# PostgreSQL — the bulk queries

The queries `BulkAssign` and `BulkDeleteAssignments` build: a text with
numbered parameters, and the values bound to them. A query carries at most
65535 of those over the wire.
-/

namespace StickyProxy

namespace Postgres

/-- A value bound to a parameter. -/
inductive Arg where
  | text (s : String)
  | integer (n : ℤ)
  | timestamp (t : Time)
  deriving DecidableEq, Repr

/-- A piece of a query: text as it stands, or the parameter `$i`. -/
inductive Piece where
  | text (s : String)
  | param (i : ℕ)
  deriving DecidableEq, Repr

structure Query where
  pieces : List Piece
  args : List Arg
  deriving DecidableEq, Repr

def Piece.render : Piece → String
  | .text s => s
  | .param i => "$" ++ toString i

/-- The text that is sent. -/
def Query.render (q : Query) : String := String.join (q.pieces.map Piece.render)

/-- The count of parameters is sent as 16 bits. -/
def maxParams : ℕ := 65535

def Query.Acceptable (q : Query) : Prop := q.args.length ≤ maxParams

instance (q : Query) : Decidable q.Acceptable :=
  inferInstanceAs (Decidable (_ ≤ _))

/-! ## The queries -/

/-- The `DELETE` of `BulkDeleteAssignments`. -/
def deleteQuery (routingKeys : List RoutingKey) : Query where
  pieces := .text "DELETE FROM assignments WHERE routing_key IN (" ::
    (List.intersperse (.text ", ") (routingKeys.zipIdx.map fun p => .param (p.2 + 1)) ++
      [.text ") RETURNING backend, weight"])
  args := routingKeys.map .text

/-- The loop of `BulkAssign` over the entries, from the parameter `idx` on. -/
def valueRows (idx : ℕ) (first : Bool) :
    List (RoutingKey × BulkAssignEntry) → List Piece × List Arg
  | [] => ([], [])
  | (routingKey, entry) :: rest =>
    let (query, args) := valueRows (idx + 3) false rest
    ((if first then [] else [.text ", "]) ++
        [.text "(", .param idx, .text ", ", .param (idx + 1), .text ", ", .param 1,
          .text ", 'assignment', ", .param (idx + 2), .text ")"] ++ query,
      [.text routingKey, .text entry.backend, .integer entry.storedWeight] ++ args)

/-- The `INSERT` of `BulkAssign`; `$1` is the time. -/
def insertQuery (now : Time) (assignments : List (RoutingKey × BulkAssignEntry)) :
    Query :=
  let (query, args) := valueRows 2 true assignments
  { pieces :=
      .text ("INSERT INTO assignments (routing_key, backend, assigned_at, source, weight) " ++
        "VALUES ") ::
      (query ++ [.text (" ON CONFLICT (routing_key) DO NOTHING " ++
        "RETURNING routing_key, backend")])
    args := .timestamp now :: args }

/-! ## Their parameters -/

theorem length_args_deleteQuery (routingKeys : List RoutingKey) :
    (deleteQuery routingKeys).args.length = routingKeys.length :=
  List.length_map _

theorem length_valueRows (idx : ℕ) (first : Bool) (l : List (RoutingKey × BulkAssignEntry)) :
    (valueRows idx first l).2.length = 3 * l.length := by
  induction l generalizing idx first with
  | nil => rfl
  | cons p l ih =>
    have hrest := ih (idx + 3) false
    simp only [valueRows, List.length_append, List.length_cons, List.length_nil, hrest]
    omega

/-- One parameter for the time, and three for every account. -/
theorem length_args_insertQuery (now : Time) (l : List (RoutingKey × BulkAssignEntry)) :
    (insertQuery now l).args.length = 3 * l.length + 1 :=
  congrArg (· + 1) (length_valueRows 2 true l)

example : (deleteQuery ["u", "v"]).render =
    "DELETE FROM assignments WHERE routing_key IN ($1, $2) RETURNING backend, weight" := by
  decide +kernel

example : (insertQuery 7 [("u", ⟨"b1", 5⟩), ("v", ⟨"b2", -1⟩)]).render =
    "INSERT INTO assignments (routing_key, backend, assigned_at, source, weight) VALUES " ++
      "($2, $3, $1, 'assignment', $4), ($5, $6, $1, 'assignment', $7) " ++
      "ON CONFLICT (routing_key) DO NOTHING RETURNING routing_key, backend" := by
  decide +kernel

end Postgres

end StickyProxy
