import StickyProxy.WebSocket.Model.ReadAll
/-!
# What is read is what is delivered

A read fills the slice behind the bytes it has, so one that offers room and
takes over what was delivered keeps all of them, and nothing of what the
array held before is ever counted in. The induction is on the reader: at
every read the bytes so far are in front, whether the array has just been
exchanged or not.
-/

namespace StickyProxy

namespace WebSocket

variable {E : Type}

namespace Slice

variable {b : Slice}

theorem length_contents (b : Slice) : b.contents.length = b.len := by
  rw [contents, List.length_take, Nat.min_eq_left b.len_le]

theorem contents_reset (b : Slice) : b.reset.contents = [] := rfl

theorem contents_grow (b : Slice) : b.grow.contents = b.contents := by
  rw [contents, grow]
  dsimp only
  have hlen : b.contents.length = b.len := length_contents b
  rw [List.take_append_of_le_length (Nat.le_of_eq hlen.symm),
    List.take_of_length_le (Nat.le_of_eq hlen)]

/-- Growing keeps the bytes. -/
theorem contents_makeRoom (b : Slice) : b.makeRoom.contents = b.contents := by
  unfold makeRoom
  split
  · exact contents_grow b
  · rfl

/-- **The reader is offered room.** -/
theorem room_makeRoom_pos (b : Slice) : 0 < b.makeRoom.room := by
  have hle := b.len_le
  unfold makeRoom
  split
  · have hcap : b.grow.cap = b.len + (b.cap * 2 + 4096 - b.len) := by
      rw [cap, grow, List.length_append, length_contents, List.length_replicate]
    rw [room, hcap]
    change 0 < b.len + (b.cap * 2 + 4096 - b.len) - b.len
    unfold cap
    omega
  · rename_i hfull
    unfold room
    unfold cap at hfull ⊢
    omega

/-- **A read adds what was delivered**, and nothing else. -/
theorem contents_extend (bytes scratch : List UInt8) (b : Slice) :
    (b.extend bytes scratch).contents = b.contents ++ bytes.take b.room := by
  have hroom : (b.array.drop b.len).length = b.room := List.length_drop
  rw [contents, extend]
  dsimp only
  rw [List.take_append, length_contents, Nat.add_sub_cancel_left, List.take_of_length_le]
  · -- The bytes are in front of the scratch, and of what was there before.
    have hfront : overwrite (b.array.drop b.len) (bytes ++ scratch) = bytes.take b.room ++
        (scratch.take (b.room - bytes.length) ++
          (b.array.drop b.len).drop (bytes ++ scratch).length) := by
      rw [overwrite, hroom, List.take_append, List.append_assoc]
    rw [hfront, List.take_left]
  · rw [length_contents]
    omega

end Slice

/-- **Every read is accounted for.** From any slice on, the reads of the
loop are answers of the reader, all of them to slices with room, and the
bytes delivered are added to those that were there. -/
theorem readLoop_faithful (r : ByteReader E) (b : Slice) :
    ∃ err, r.Yields (readLoop r b).reads err ∧ (∀ p ∈ (readLoop r b).reads, 0 < p.1) ∧
      (readLoop r b).buf.contents = b.contents ++ (readLoop r b).reads.flatMap Prod.snd ∧
      (readLoop r b).err = err.reported := by
  have hroom : 0 < b.makeRoom.room := b.room_makeRoom_pos
  induction r generalizing b with
  | done err =>
    refine ⟨err, .done, ?_, ?_, rfl⟩
    · rintro p hp
      rw [List.mem_singleton.1 hp]
      exact hroom
    · simp only [readLoop, Slice.contents_extend, Slice.contents_makeRoom, List.take_nil,
        List.flatMap_cons, List.flatMap_nil, List.append_nil]
  | node bytes scratch error next ih =>
    rw [readLoop]
    dsimp only
    have hread := b.makeRoom.contents_extend (bytes b.makeRoom.room) (scratch b.makeRoom.room)
    rw [Slice.contents_makeRoom] at hread
    rcases herror : error b.makeRoom.room with - | err
    · obtain ⟨err, hyields, hpos, hcontents, herr⟩ := ih b.makeRoom.room
        (b.makeRoom.extend (bytes b.makeRoom.room) (scratch b.makeRoom.room))
        (Slice.room_makeRoom_pos _)
      refine ⟨err, .more herror hyields, ?_, ?_, herr⟩
      · exact List.forall_mem_cons.2 ⟨hroom, hpos⟩
      · rw [hcontents, hread, List.flatMap_cons, List.append_assoc]
    · refine ⟨err, .last herror, ?_, ?_, rfl⟩
      · exact List.forall_mem_cons.2 ⟨hroom, fun p hp => by cases hp⟩
      · rw [hread, List.flatMap_cons, List.flatMap_nil, List.append_nil]

/-- So the whole of it leaves the bytes delivered, and nothing before them. -/
theorem readAllPooled_accounted (r : ByteReader E) (bp : Slice) :
    ∃ err, r.Yields (readAllPooled r bp).reads err ∧
      (∀ p ∈ (readAllPooled r bp).reads, 0 < p.1) ∧
      (readAllPooled r bp).buf.contents = (readAllPooled r bp).reads.flatMap Prod.snd ∧
      (readAllPooled r bp).err = err.reported := by
  obtain ⟨err, hyields, hpos, hcontents, herr⟩ := readLoop_faithful r bp.reset
  rw [Slice.contents_reset, List.nil_append] at hcontents
  exact ⟨err, hyields, hpos, hcontents, herr⟩

/-! ## Chunks -/

namespace ByteReader

variable {reads : List (ℕ × List UInt8)} {err err' : ReadError E} {after : ByteReader E}

/-- What a reader delivers of a chunk and after it, if there is room in
every slice it is offered: the chunk, and the error with it, or what is
delivered after it. -/
theorem yields_deliver (chunk : List UInt8) (last : Option (ReadError E))
    (hpos : ∀ p ∈ reads, 0 < p.1) (h : (deliver chunk last after).Yields reads err) :
    (last = some err ∧ reads.flatMap Prod.snd = chunk) ∨
      (last = none ∧ ∃ rest, after.Yields rest err ∧ (∀ p ∈ rest, 0 < p.1) ∧
        reads.flatMap Prod.snd = chunk ++ rest.flatMap Prod.snd) := by
  induction hlen : chunk.length using Nat.strongRecOn generalizing chunk reads with
  | _ n ih =>
    rw [deliver] at h
    cases h with
    | @last _ _ _ _ k _ herror =>
      -- The error has come, so the chunk has fitted.
      dsimp only at herror ⊢
      split at herror
      · rename_i hfits
        refine .inl ⟨herror, ?_⟩
        rw [List.flatMap_cons, List.flatMap_nil, List.append_nil, List.take_of_length_le hfits]
      · cases herror
    | @more _ _ _ _ k rest _ herror hrest =>
      obtain ⟨hk, hpos⟩ := List.forall_mem_cons.1 hpos
      rw [List.flatMap_cons]
      dsimp only at herror hrest hk ⊢
      by_cases hfits : chunk.length ≤ k
      · rw [if_pos hfits] at herror
        rw [if_pos (.inl hfits)] at hrest
        exact .inr ⟨herror, rest, hrest, hpos, by rw [List.take_of_length_le hfits]⟩
      · -- A piece of the chunk, and the rest of it from then on.
        rw [if_neg (by omega)] at hrest
        have hshorter : (chunk.drop k).length < n := by
          rw [List.length_drop]
          omega
        rcases ih _ hshorter (chunk.drop k) hpos hrest rfl with ⟨hlast, hsum⟩ |
          ⟨hlast, rest', hrest', hpos', hsum⟩
        · exact .inl ⟨hlast, by rw [hsum, List.take_append_drop]⟩
        · refine .inr ⟨hlast, rest', hrest', hpos', ?_⟩
          rw [hsum, ← List.append_assoc, List.take_append_drop]

theorem yields_done (h : (ByteReader.done err').Yields reads err) :
    err = err' ∧ reads.flatMap Prod.snd = [] := by
  cases h with
  | done => exact ⟨rfl, rfl⟩

/-- **Of a reader of chunks, the chunks are what is delivered.** -/
theorem yields_chunked {together : Bool} {chunks : List (List UInt8)}
    (hpos : ∀ p ∈ reads, 0 < p.1) (h : (chunked err' together chunks).Yields reads err) :
    err = err' ∧ reads.flatMap Prod.snd = chunks.flatten := by
  fun_induction chunked err' together chunks generalizing reads with
  | case1 => exact yields_done h
  | case2 chunk =>
    rw [List.flatten_cons, List.flatten_nil, List.append_nil]
    rcases yields_deliver chunk _ hpos h with ⟨hlast, hsum⟩ | ⟨-, rest, hrest, -, hsum⟩
    · refine ⟨?_, hsum⟩
      split at hlast
      · exact (Option.some.inj hlast).symm
      · cases hlast
    · obtain ⟨rfl, hnone⟩ := yields_done hrest
      exact ⟨rfl, by rw [hsum, hnone, List.append_nil]⟩
  | case3 chunk chunks _ ih =>
    rcases yields_deliver chunk none hpos h with ⟨hlast, -⟩ | ⟨-, rest, hrest, hpos', hsum⟩
    · cases hlast
    · obtain ⟨rfl, hchunks⟩ := ih hpos' hrest
      exact ⟨rfl, by rw [hsum, hchunks, List.flatten_cons]⟩

end ByteReader

/-- **Pooled reads are faithful.** For every buffer, whatever its length,
capacity and bytes: of every reader that comes to an end, every read is
offered room, and the buffer ends with the bytes delivered, one read after
another, and the error that came last is reported, or none for `io.EOF`.
So of a reader of chunks, with the error after the last or together with
it, the buffer ends with the chunks. -/
theorem readAllPooled_faithful (bp : Slice) :
    (∀ r : ByteReader E, ∃ err, r.Yields (readAllPooled r bp).reads err ∧
      (∀ p ∈ (readAllPooled r bp).reads, 0 < p.1) ∧
      (readAllPooled r bp).buf.contents = (readAllPooled r bp).reads.flatMap Prod.snd ∧
      (readAllPooled r bp).err = err.reported) ∧
    ∀ (err : ReadError E) (together : Bool) (chunks : List (List UInt8)),
      (readAllPooled (.chunked err together chunks) bp).buf.contents = chunks.flatten ∧
      (readAllPooled (.chunked err together chunks) bp).err = err.reported := by
  refine ⟨fun r => readAllPooled_accounted r bp, fun err together chunks => ?_⟩
  obtain ⟨err', hyields, hpos, hcontents, herr⟩ :=
    readAllPooled_accounted (.chunked err together chunks) bp
  obtain ⟨rfl, hsum⟩ := ByteReader.yields_chunked hpos hyields
  exact ⟨hcontents.trans hsum, herr⟩

end WebSocket

end StickyProxy
