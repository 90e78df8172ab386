import Mathlib.Data.List.Basic
/-!
# Reading a message into a pooled buffer

`readAllPooled` reads into the spare capacity of a buffer that has been used
before, and moves to a larger array when there is none left. A slice is the
array behind it, up to its capacity, and a length. A reader is what it
answers, for every length of the slice it is offered; it may answer as it
likes, and scribble over the part of the slice it has not filled, but it
comes to an end.
-/

namespace StickyProxy

namespace WebSocket

/-- A slice of bytes. -/
structure Slice where
  array : List UInt8
  len : ℕ
  len_le : len ≤ array.length

namespace Slice

/-- `cap(b)`. -/
def cap (b : Slice) : ℕ := b.array.length

/-- The bytes of the slice. -/
def contents (b : Slice) : List UInt8 := b.array.take b.len

/-- `b[:0]`. -/
def reset (b : Slice) : Slice := ⟨b.array, 0, Nat.zero_le _⟩

/-- `len(b[len(b):cap(b)])`. -/
def room (b : Slice) : ℕ := b.cap - b.len

/-- A larger array, zeroed, and the bytes copied to it. -/
def grow (b : Slice) : Slice where
  array := b.contents ++ List.replicate (b.cap * 2 + 4096 - b.len) 0
  len := b.len
  len_le := by
    have hlen := b.len_le
    simp only [contents, List.length_append, List.length_take]
    omega

/-- There is room for a byte at least. -/
def makeRoom (b : Slice) : Slice := if b.len = b.cap then b.grow else b

/-- What writing to the beginning of an array leaves of it. -/
def overwrite (old new : List UInt8) : List UInt8 := new.take old.length ++ old.drop new.length

/-- `b = b[:len(b)+n]`, after a read of `bytes` that has left `scratch`
behind them. -/
def extend (bytes scratch : List UInt8) (b : Slice) : Slice where
  array := b.contents ++ overwrite (b.array.drop b.len) (bytes ++ scratch)
  len := b.len + (bytes.take b.room).length
  len_le := by
    have hlen := b.len_le
    simp only [contents, overwrite, room, cap, List.length_append, List.length_take,
      List.length_drop]
    omega

end Slice

/-- The error of a read: `io.EOF`, or another. -/
inductive ReadError (E : Type) where
  | eof
  | other (e : E)
  deriving DecidableEq, Repr

/-- `nil` for `io.EOF`, and otherwise the error. -/
def ReadError.reported {E : Type} : ReadError E → Option E
  | .eof => none
  | .other e => some e

/-- Go's `io.Reader`, one that comes to an end. -/
inductive ByteReader (E : Type) where
  /-- There is nothing left but the error. -/
  | done (err : ReadError E)
  /-- Offered a slice of length `k`, it delivers the first of `bytes k`, as
  many as there is room for, leaves `scratch k` behind them, and returns
  `error k`; if that is none it goes on as `next k`. -/
  | node (bytes scratch : ℕ → List UInt8) (error : ℕ → Option (ReadError E))
      (next : ℕ → ByteReader E)

/-- What `readAllPooled` returns and leaves in `*bp`, and its reads: the
length of the slice that was offered, and the bytes delivered. -/
structure ReadAll (E : Type) where
  err : Option E
  buf : Slice
  reads : List (ℕ × List UInt8)

/-- The loop of `readAllPooled`. -/
def readLoop {E : Type} : ByteReader E → Slice → ReadAll E
  | .done err, b =>
    let b := b.makeRoom
    ⟨err.reported, b.extend [] [], [(b.room, [])]⟩
  | .node bytes scratch error next, b =>
    let b := b.makeRoom
    let k := b.room
    let read := (k, (bytes k).take k)
    let b := b.extend (bytes k) (scratch k)
    match error k with
    | some err => ⟨err.reported, b, [read]⟩
    | none =>
      let rest := readLoop (next k) b
      ⟨rest.err, rest.buf, read :: rest.reads⟩

/-- `readAllPooled`. -/
def readAllPooled {E : Type} (r : ByteReader E) (bp : Slice) : ReadAll E := readLoop r bp.reset

namespace ByteReader

variable {E : Type}

/-- Offered slices of these lengths, the reader delivers these bytes, and
the error with the last of them. -/
inductive Yields : ByteReader E → List (ℕ × List UInt8) → ReadError E → Prop where
  | done {k : ℕ} {err : ReadError E} : Yields (.done err) [(k, [])] err
  | last {bytes scratch : ℕ → List UInt8} {error : ℕ → Option (ReadError E)}
      {next : ℕ → ByteReader E} {k : ℕ} {err : ReadError E} :
      error k = some err → Yields (.node bytes scratch error next) [(k, (bytes k).take k)] err
  | more {bytes scratch : ℕ → List UInt8} {error : ℕ → Option (ReadError E)}
      {next : ℕ → ByteReader E} {k : ℕ} {reads : List (ℕ × List UInt8)} {err : ReadError E} :
      error k = none → Yields (next k) reads err →
      Yields (.node bytes scratch error next) ((k, (bytes k).take k) :: reads) err

/-- A reader with a chunk to deliver, in pieces if it has to be, and an
error together with the end of it, if any. -/
def deliver (chunk : List UInt8) (err : Option (ReadError E)) (after : ByteReader E) :
    ByteReader E :=
  .node (fun _ => chunk) (fun _ => []) (fun k => if chunk.length ≤ k then err else none) fun k =>
    if chunk.length ≤ k ∨ k = 0 then after else deliver (chunk.drop k) err after
termination_by chunk.length
decreasing_by
  rw [List.length_drop]
  omega

/-- A reader of these chunks, with the error after the last of them or
together with it. -/
def chunked (err : ReadError E) (together : Bool) : List (List UInt8) → ByteReader E
  | [] => .done err
  | [chunk] => deliver chunk (if together then some err else none) (.done err)
  | chunk :: chunks => deliver chunk none (chunked err together chunks)

end ByteReader

end WebSocket

end StickyProxy
