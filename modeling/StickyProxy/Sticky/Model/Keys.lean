import StickyProxy.Common.Table
import StickyProxy.Model.Hashing
/-!
# The sticky keys

Beside the assignments Redis has string keys, `sticky:` and an account,
with a backend as the value. `AssignBackend` is the one function that
writes them. `GetUsersForBackend` and `InvalidateBackend` find the keys of
a backend with a `SCAN`, page by page, and read them one at a time;
`BulkDeleteSticky` deletes those of the accounts it is given. No call
fails, and no key expires.
-/

namespace StickyProxy

namespace Sticky

/-- The string keys of the database. -/
abbrev Strings := Table String String

/-- `"sticky:" + userID`. -/
def stickyKey (userID : RoutingKey) : String := "sticky:" ++ userID

/-- `key[len("sticky:"):]`. -/
def userOf (key : String) : RoutingKey := String.ofList (key.toList.drop "sticky:".toList.length)

/-- The pattern `sticky:*`. -/
def IsSticky (key : String) : Prop := "sticky:".toList <+: key.toList

instance (key : String) : Decidable (IsSticky key) :=
  inferInstanceAs (Decidable ("sticky:".toList <+: key.toList))

/-- The account is on the backend by its key. -/
def InPlace (strings : Strings) (userID : RoutingKey) (b : Backend) : Prop :=
  strings.lookup (stickyKey userID) = some b

instance (strings : Strings) (userID : RoutingKey) (b : Backend) :
    Decidable (InPlace strings userID b) :=
  inferInstanceAs (Decidable (strings.lookup (stickyKey userID) = some b))

/-- `AssignBackend`, when the breaker is closed: the script keeps a key
that is there, and otherwise picks from the active set, in the order the
server lists it in. -/
def assignBackend (order : List Backend) (userID : RoutingKey) (hash : BitVec 32)
    (strings : Strings) : Option Backend × Strings :=
  match strings.lookup (stickyKey userID) with
  | some existing => (some existing, strings)
  | none =>
    match pick hash order with
    | none => (none, strings)
    | some b => (some b, strings.insert (stickyKey userID) b)

/-- What the pages of a `SCAN` hold when nobody else writes: every key
with the pattern, some of them maybe more than once. -/
def Scans (pages : List (List String)) (strings : Strings) : Prop :=
  ∀ key, (∃ keys ∈ pages, key ∈ keys) ↔ IsSticky key ∧ (strings.lookup key).isSome

/-- `GetUsersForBackend`. -/
def getUsersForBackend (pages : List (List String)) (b : Backend) (strings : Strings) :
    List RoutingKey :=
  pages.flatMap fun keys => keys.filterMap fun key =>
    if strings.lookup key = some b then some (userOf key) else none

/-- `InvalidateBackend`. -/
def invalidateBackend (pages : List (List String)) (b : Backend) (strings : Strings) : Strings :=
  pages.foldl (fun strings keys => keys.foldl (fun strings key =>
    if strings.lookup key = some b then strings.erase key else strings) strings) strings

/-- `BulkDeleteSticky`. -/
def bulkDeleteSticky (userIDs : List RoutingKey) (strings : Strings) : Strings :=
  Table.eraseAll strings (userIDs.map stickyKey)

end Sticky

end StickyProxy
