import StickyProxy.Model.Assignment
import Mathlib.Data.List.Sort
/-!
# Hashing

`HashUser` is the CRC-32 checksum, with the IEEE polynomial, of the key's
bytes. `pick` is the selection every hash route ends in: the entry at
the hash modulo the length of the list. `hashFallback` hashes the four
bytes of the hash once more before it picks.
-/

namespace StickyProxy

/-- One bit of the checksum: the reflected IEEE polynomial. -/
def crcBit (c : BitVec 32) : BitVec 32 :=
  if c.getLsbD 0 then (c >>> 1) ^^^ 0xEDB88320#32 else c >>> 1

/-- One byte of the checksum. -/
def crcByte (c : BitVec 32) (b : UInt8) : BitVec 32 :=
  Nat.iterate crcBit 8 (c ^^^ BitVec.ofNat 32 b.toNat)

/-- `crc32.ChecksumIEEE`. -/
def checksumIEEE (bytes : List UInt8) : BitVec 32 := ~~~(bytes.foldl crcByte (~~~0#32))

/-- The bytes of a Go string. -/
def stringBytes (s : String) : List UInt8 := s.toList.flatMap String.utf8EncodeChar

/-- `HashUser`. -/
def hashUser (userID : RoutingKey) : BitVec 32 := checksumIEEE (stringBytes userID)

/-- The four bytes of a hash, lowest first. -/
def hashBytes (h : BitVec 32) : List UInt8 :=
  [0, 8, 16, 24].map fun n => UInt8.ofNat ((h >>> n).toNat % 256)

/-- `backends[hash % uint32(len(backends))]`, of a list that is not
empty. -/
def pick (hash : BitVec 32) (backends : List Backend) : Option Backend :=
  backends[hash.toNat % backends.length]?

/-- `sort.Strings`. -/
def sortStrings (backends : List Backend) : List Backend := backends.insertionSort (· ≤ ·)

theorem mem_sortStrings {l : List Backend} {b : Backend} : b ∈ sortStrings l ↔ b ∈ l :=
  (List.perm_insertionSort (· ≤ ·) l).mem_iff

theorem sortStrings_eq_nil {l : List Backend} : sortStrings l = [] ↔ l = [] := by
  rw [← List.length_eq_zero_iff, ← List.length_eq_zero_iff, sortStrings, List.length_insertionSort]

end StickyProxy
