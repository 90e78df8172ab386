import StickyProxy.WebSocket.Model.Buffers
import StickyProxy.WebSocket.Relay
/-!
# Buffers are used by one message at a time

What a bridge releases and the messages it still has make up no more than
the messages it had, and the one it has just read. Counted over any
predicate this is arithmetic, step by step of a reader, a pump and the
loop; for the messages in one buffer it says that a release is paid for by
a message that is gone. So the books of the pool are in order whatever the
bridges do, and no two messages have one buffer.
-/

namespace StickyProxy

namespace WebSocket

variable {M α : Type*}

/-! ## The messages of a bridge -/

/-- What a pump has in its batch and in its channel. -/
def Pump.pending (p : Pump M) : List M := p.batch ++ p.ch

def Link.live (l : Link M) : List M := l.pump.pending ++ l.reader.queue

/-- Every message in a channel, in a batch or in the hand of a goroutine. -/
def Bridge.live (s : Bridge M) : List M :=
  s.past.flatMap Link.live ++ (s.backend.live ++ (s.run.forBackend ++ (s.run.forClient ++
    (s.clientReader.queue ++ s.clientPump.pending))))

/-- What a reader has read. -/
def ReaderAction.message : ReaderAction M → List M
  | .read m => m.toList
  | _ => []

/-- What a step has read. -/
def Bridge.received (s : Bridge M) (a : Action M) : List M :=
  ((s.reads a).bind Prod.snd).toList

section Counting

variable {s s' : Bridge M} {c : Case} (p : M → Bool)

theorem Reader.countP_queue (r : Reader M) :
    r.queue.countP p = (r.ch.filterMap WsMsg.message).countP p + r.phase.held.countP p :=
  List.countP_append

theorem Pump.countP_pending (q : Pump M) :
    q.pending.countP p = q.batch.countP p + q.ch.countP p :=
  List.countP_append

/-- The messages of a bridge, place by place. -/
theorem Bridge.countP_live (s : Bridge M) :
    s.live.countP p = (s.past.flatMap Link.live).countP p +
      (s.backend.pump.pending.countP p + s.backend.reader.queue.countP p) +
      (s.run.forBackend.countP p + s.run.forClient.countP p) +
      (s.clientReader.queue.countP p + s.clientPump.pending.countP p) := by
  simp only [Bridge.live, Link.live, List.countP_append]
  omega

/-- **A reader** gives back a message it does not send on. -/
theorem Reader.countP_queue_step {r r' : Reader M} {a : ReaderAction M} (h : r.step a = some r') :
    (r.released a).countP p + r'.queue.countP p ≤ r.queue.countP p + a.message.countP p := by
  cases Reader.steps_of_step h with
  | read hph =>
    simp only [Reader.countP_queue, Reader.released, hph, ReaderPhase.held, WsMsg.message,
      ReaderAction.message, List.countP_nil]
    omega
  | readError hph =>
    simp only [Reader.countP_queue, Reader.released, hph, ReaderPhase.held, WsMsg.message,
      ReaderAction.message, Option.toList_none, List.countP_nil]
    omega
  | @send x hph =>
    cases x with
    | data m =>
      simp only [Reader.countP_queue, Reader.released, hph, ReaderPhase.held, WsMsg.message,
        List.filterMap_append, List.filterMap_cons, List.filterMap_nil, Option.isSome_some, if_true,
        Option.toList_some, List.countP_append, List.countP_nil]
      omega
    | error =>
      simp only [Reader.countP_queue, Reader.released, hph, ReaderPhase.held, WsMsg.message,
        List.filterMap_append, List.filterMap_cons, List.filterMap_nil, Option.isSome_none,
        Bool.false_eq_true, if_false, List.countP_append, List.countP_nil]
      omega
  | quit hph =>
    simp only [Reader.countP_queue, Reader.released, hph, ReaderPhase.held, List.countP_nil]
    omega

/-- **A pump** gives back what it has written, and what it will not write. -/
theorem Pump.countP_pending_step {q q' : Pump M} {a : PumpAction} (h : q.step a = some q') :
    (q.released a).countP p + q'.pending.countP p ≤ q.pending.countP p := by
  cases Pump.steps_of_step h with
  | take _ hch | collect _ hch =>
    simp only [Pump.countP_pending, Pump.released, hch, List.countP_append, List.countP_cons,
      List.countP_nil]
    omega
  | write _ hbatch =>
    simp only [Pump.countP_pending, Pump.released, hbatch, List.take_succ_cons, List.take_zero,
      List.countP_cons, List.countP_nil]
    omega
  | writeError =>
    simp only [Pump.countP_pending, Pump.released, List.countP_nil]
    omega
  | stop | lock | unlock | report =>
    simp only [Pump.countP_pending, Pump.released, List.countP_nil]
    omega

/-! ## The loop -/

/-- The loop gives back `ms`, and loses nothing but messages. -/
def Spends (ms : List M) (s s' : Bridge M) : Prop :=
  ms.countP p + s'.live.countP p ≤ s.live.countP p

variable {p}

theorem Spends.trans {ms ns : List M} {t : Bridge M} (h : Spends p ms s t) (h' : Spends p ns t s') :
    Spends p (ms ++ ns) s s' := by
  unfold Spends at *
  rw [List.countP_append]
  omega

/-- Flags are no messages. -/
theorem Spends.congr {ms : List M} {t : Bridge M} (h : Spends p ms s t) (hlive : s'.live = t.live) :
    Spends p ms s s' := by
  unfold Spends at *
  rwa [hlive]

/-- The loop goes on with nothing in hand; what it had it may give back. -/
theorem spends_run (s : Bridge M) {q : RunPhase M} {ms : List M}
    (hb : q.forBackend = []) (hc : q.forClient = [])
    (hms : ms.countP p ≤ s.run.forBackend.countP p + s.run.forClient.countP p) :
    Spends p ms s { s with run := q } := by
  simp only [Spends, Bridge.countP_live, hb, hc, List.countP_nil]
  omega

/-- A step of the loop that has nothing in hand after it and gives nothing
back. -/
theorem spends_pass {q : RunPhase M} (hreleased : s.runReleased c = []) (hb : q.forBackend = [])
    (hc : q.forClient = []) (hlive : s'.live = ({ s with run := q } : Bridge M).live) :
    Spends p (s.runReleased c) s s' := by
  rw [hreleased]
  exact (spends_run s hb hc (Nat.zero_le _)).congr hlive

theorem spends_swapOrReturn (s : Bridge M) {ms : List M}
    (hms : ms.countP p ≤ s.run.forBackend.countP p + s.run.forClient.countP p) :
    Spends p ms s s.swapOrReturn := by
  unfold Bridge.swapOrReturn
  rcases s.pendingSwap with - | newURL
  · exact (spends_run s (q := .returning) rfl rfl hms).congr rfl
  · exact (spends_run s (q := .stopReader newURL) rfl rfl hms).congr rfl

/-- What the loop takes out of a channel it may throw away. -/
theorem spends_setBackendCh {x : WsMsg M} {rest : List (WsMsg M)}
    (hch : s.backend.reader.ch = x :: rest) : Spends p [] s (s.setBackendCh rest) := by
  have hrest : (rest.filterMap WsMsg.message).countP p ≤
      (s.backend.reader.ch.filterMap WsMsg.message).countP p :=
    ((hch ▸ List.sublist_cons_self x rest : rest.Sublist _).filterMap _).countP_le
  simp only [Spends, Bridge.countP_live, Bridge.setBackendCh, Reader.countP_queue, List.countP_nil]
  omega

theorem spends_setClientCh {x : WsMsg M} {rest : List (WsMsg M)}
    (hch : s.clientReader.ch = x :: rest) : Spends p [] s (s.setClientCh rest) := by
  have hrest : (rest.filterMap WsMsg.message).countP p ≤
      (s.clientReader.ch.filterMap WsMsg.message).countP p :=
    ((hch ▸ List.sublist_cons_self x rest : rest.Sublist _).filterMap _).countP_le
  simp only [Spends, Bridge.countP_live, Bridge.setClientCh, Reader.countP_queue, List.countP_nil]
  omega

theorem spends_stopPumpStep (s : Bridge M) {q : RunPhase M} (hb : q.forBackend = [])
    (hc : q.forClient = []) : Spends p (s.backend.pump.ch.take 1) s (s.stopPumpStep q) := by
  unfold Bridge.stopPumpStep
  rcases hch : s.backend.pump.ch with - | ⟨m, rest⟩
  · exact spends_run s hb hc (Nat.zero_le _)
  · simp only [Spends, Bridge.countP_live, Bridge.release, Bridge.setWriteCh, Pump.countP_pending,
      hch, List.take_succ_cons, List.take_zero, List.countP_cons, List.countP_nil]
    omega

/-- Forwarding hands the client's next message to the new pump, or gives
it back. -/
theorem spends_forwardStep (hrun : s.run = .forward) :
    Spends p (s.runReleased .next) s s.forwardStep := by
  unfold Bridge.forwardStep
  rcases hch : s.clientReader.ch with - | ⟨m | -, rest⟩
  · simp only [Spends, Bridge.runReleased, hrun, hch, Bridge.countP_live, Link.startReader,
      Reader.countP_queue, ReaderPhase.held, RunPhase.forBackend, RunPhase.forClient,
      List.countP_nil]
    omega
  · simp only [Bridge.runReleased, hrun, hch]
    split
    · simp only [Spends, Bridge.countP_live, Bridge.setWriteCh, Pump.countP_pending,
        Reader.countP_queue, hch, hrun, List.filterMap_cons, WsMsg.message, List.countP_append,
        List.countP_cons, List.countP_nil]
      omega
    · simp only [Spends, Bridge.countP_live, Reader.countP_queue, hch, hrun, RunPhase.forBackend,
        RunPhase.forClient, List.filterMap_cons, WsMsg.message, List.countP_cons, List.countP_nil]
      omega
  · simp only [Bridge.runReleased, hrun, hch]
    exact (spends_setClientCh hch).trans (spends_run _ rfl rfl (Nat.zero_le _))

/-- The next message is taken in hand: the client's, -/
theorem spends_client {m : M} {rest : List (WsMsg M)} (hrun : s.run = .select)
    (hch : s.clientReader.ch = .data m :: rest) :
    Spends p [] s { s.setClientCh rest with run := .toBackend m } := by
  simp only [Spends, hrun, Bridge.countP_live, Bridge.setClientCh, Reader.countP_queue, hch,
    RunPhase.forBackend, RunPhase.forClient, List.filterMap_cons, WsMsg.message, List.countP_cons,
    List.countP_nil]
  omega

/-- or the backend's. -/
theorem spends_backend {m : M} {rest : List (WsMsg M)} (hrun : s.run = .select)
    (hch : s.backend.reader.ch = .data m :: rest) :
    Spends p [] s { s.setBackendCh rest with run := .toClient m } := by
  simp only [Spends, hrun, Bridge.countP_live, Bridge.setBackendCh, Reader.countP_queue, hch,
    RunPhase.forBackend, RunPhase.forClient, List.filterMap_cons, WsMsg.message, List.countP_cons,
    List.countP_nil]
  omega

/-- What is in hand goes to a pump. -/
theorem spends_toBackend {m : M} (hrun : s.run = .toBackend m) :
    Spends p [] s { s.setWriteCh (s.backend.pump.ch ++ [m]) with run := .select } := by
  simp only [Spends, hrun, Bridge.countP_live, Bridge.setWriteCh, Pump.countP_pending,
    RunPhase.forBackend, RunPhase.forClient, List.countP_append, List.countP_cons, List.countP_nil]
  omega

theorem spends_toClient {m : M} (hrun : s.run = .toClient m) :
    Spends p [] s { s with
      clientPump := { s.clientPump with ch := s.clientPump.ch ++ [m] }
      run := .select } := by
  simp only [Spends, hrun, Bridge.countP_live, Pump.countP_pending, RunPhase.forBackend,
    RunPhase.forClient, List.countP_append, List.countP_cons, List.countP_nil]
  omega

/-- A new connection has no messages; the old one keeps its own. -/
theorem spends_install (hrun : s.run = .install) :
    Spends p [] s { s with
      past := s.past ++ [s.backend], backend := .dialed, run := .forward } := by
  have hdialed : (Link.dialed : Link M).live = [] := rfl
  simp only [Spends, Bridge.live, hrun, hdialed, RunPhase.forBackend, RunPhase.forClient,
    List.flatMap_append, List.flatMap_cons, List.flatMap_nil, List.countP_append, List.countP_nil]
  omega

/-- **A step of the loop** gives back a message it had, or took. -/
theorem spends_of_runs (h : Runs s c s') : Spends p (s.runReleased c) s s' := by
  cases h with
  | client hrun hch =>
    simp only [Bridge.runReleased, hrun]
    exact spends_client hrun hch
  | clientError hrun hch =>
    simp only [Bridge.runReleased, hrun]
    exact (spends_setClientCh hch).trans (spends_run _ rfl rfl (Nat.zero_le _))
  | backend hrun hch =>
    simp only [Bridge.runReleased, hrun]
    exact spends_backend hrun hch
  | toBackend hrun =>
    simp only [Bridge.runReleased, hrun]
    exact spends_toBackend hrun
  | toClient hrun =>
    simp only [Bridge.runReleased, hrun]
    exact spends_toClient hrun
  | install hrun =>
    simp only [Bridge.runReleased, hrun]
    exact spends_install hrun
  | forward hrun => exact spends_forwardStep hrun
  | backendError hrun hch =>
    simp only [Bridge.runReleased, hrun]
    exact (spends_setBackendCh hch).trans (spends_swapOrReturn _ (Nat.zero_le _))
  | backendWriteErr hrun =>
    simp only [Bridge.runReleased, hrun]
    exact (spends_swapOrReturn s (Nat.zero_le _)).congr rfl
  | toBackendErr hrun =>
    simp only [Bridge.runReleased, hrun]
    exact (spends_swapOrReturn s (hrun ▸ Nat.le_add_right _ _)).congr rfl
  | toClientErr hrun =>
    simp only [Bridge.runReleased, hrun]
    exact spends_run s rfl rfl (hrun ▸ Nat.le_add_left _ _)
  | drainReader hrun hch =>
    simp only [Bridge.runReleased, hrun]
    exact (spends_setBackendCh hch).trans (spends_run _ rfl rfl (Nat.zero_le _))
  | stopPump hrun | releasing hrun =>
    simp only [Bridge.runReleased, hrun]
    exact spends_stopPumpStep s rfl rfl
  | clientWriteErr hrun =>
    exact spends_pass (q := .returning) (by simp only [Bridge.runReleased, hrun]) rfl rfl rfl
  | @swap newURL hrun =>
    exact spends_pass (q := .closeBackend newURL) (by simp only [Bridge.runReleased, hrun])
      rfl rfl rfl
  | @dial _ ok hrun =>
    cases ok
    · exact spends_pass (q := .returning) (by simp only [Bridge.runReleased, hrun]) rfl rfl rfl
    · exact spends_pass (q := .closeOld) (by simp only [Bridge.runReleased, hrun]) rfl rfl rfl
  | @closeBackend newURL hrun =>
    exact spends_pass (q := .drainReader newURL) (by simp only [Bridge.runReleased, hrun])
      rfl rfl rfl
  | @stopReader newURL hrun =>
    exact spends_pass (q := .stopPump newURL) (by simp only [Bridge.runReleased, hrun])
      rfl rfl rfl
  | closeOld hrun =>
    exact spends_pass (q := .install) (by simp only [Bridge.runReleased, hrun]) rfl rfl rfl
  | returning hrun =>
    dsimp only
    split
    · exact spends_pass (q := .closing) (by simp only [Bridge.runReleased, hrun]) rfl rfl rfl
    · exact spends_pass (q := .releasing) (by simp only [Bridge.runReleased, hrun]) rfl rfl rfl
  | closing hrun =>
    exact spends_pass (q := .returned) (by simp only [Bridge.runReleased, hrun]) rfl rfl rfl

/-! ## A step of the bridge -/

/-- **What a bridge gives back it no longer has.** -/
theorem Bridge.countP_live_step {a : Action M} (h : step s a = some s') :
    (s.released a).countP p + s'.live.countP p ≤
      s.live.countP p + (s.received a).countP p := by
  cases steps_of_step h with
  | run hruns => exact spends_of_runs hruns
  | @clientReader a _ hr =>
    have hreceived : s.received (.clientReader a) = a.message := by cases a <;> rfl
    have hstep := Reader.countP_queue_step p hr
    simp only [Bridge.released, hreceived, Bridge.countP_live]
    omega
  | clientPump hq =>
    have hstep := Pump.countP_pending_step p hq
    simp only [Bridge.released, Bridge.countP_live]
    omega
  | @reader a _ hr =>
    have hreceived : s.received (.reader a) = a.message := by cases a <;> rfl
    have hstep := Reader.countP_queue_step p hr
    simp only [Bridge.released, hreceived, Bridge.countP_live]
    omega
  | pump _ hq =>
    have hstep := Pump.countP_pending_step p hq
    simp only [Bridge.released, Bridge.release, Bridge.countP_live]
    omega
  | @pastReader i l a r hl hr =>
    have hreceived : s.received (.pastReader i a) = a.message := by cases a <;> rfl
    have hstep := Reader.countP_queue_step p hr
    have hset := Pool.countP_flatMap_set Link.live p { l with reader := r } hl
    simp only [Link.live, List.countP_append] at hset
    simp only [Bridge.released, hl, Option.map_some, Option.getD_some, hreceived,
      Bridge.countP_live]
    omega
  | @pastPump i l a q _ hl hq =>
    have hstep := Pump.countP_pending_step p hq
    have hset := Pool.countP_flatMap_set Link.live p { l with pump := q } hl
    simp only [Link.live, List.countP_append] at hset
    simp only [Bridge.released, Bridge.release, hl, Option.map_some, Option.getD_some,
      Bridge.countP_live]
    omega
  | swapBackend | closeBackend => exact Nat.le_of_eq (Nat.zero_add _)

end Counting

/-! ## All bridges -/

/-- The messages of all bridges. -/
def Buffers.live (t : Buffers α) : List (Pooled α) := t.bridges.flatMap Bridge.live

/-- The buffers in use: those being filled, and those of messages. -/
def Buffers.held (t : Buffers α) : List ℕ :=
  t.filling.map Filling.buf ++ t.live.map Pooled.buf

section Buffers

variable {t t' : Buffers α}

theorem count_map_buf (ms : List (Pooled α)) (b : ℕ) :
    (ms.map Pooled.buf).count b = ms.countP fun m => m.buf == b := by
  rw [List.count_eq_countP, List.countP_map]
  rfl

/-- The end of a read takes a buffer from those being filled. -/
theorem count_filled {k : ℕ} {s : Bridge (Pooled α)} {a : Action (Pooled α)}
    {done : List Filling × List ℕ} (h : t.filled k (s.reads a) = some done) (b : ℕ) :
    done.2.count b + (done.1.map Filling.buf).count b +
      ((s.received a).map Pooled.buf).count b ≤ (t.filling.map Filling.buf).count b := by
  have herase : ∀ f ∈ t.filling, (t.filling.map Filling.buf).count b =
      [f.buf].count b + ((t.filling.erase f).map Filling.buf).count b := by
    intro f hf
    rw [((List.perm_cons_erase hf).map Filling.buf).count_eq b, List.map_cons,
      ← List.singleton_append, List.count_append]
  unfold Bridge.received
  generalize s.reads a = reading at h ⊢
  rcases reading with - | ⟨conn, - | m⟩
  · obtain rfl := Option.some.inj h
    exact Nat.le_of_eq (by simp)
  · simp only [Buffers.filled] at h
    split at h
    · rename_i f hf
      obtain rfl := Option.some.inj h
      exact Nat.le_of_eq (herase f (List.mem_of_find?_eq_some hf)).symm
    · obtain rfl := Option.some.inj h
      exact Nat.le_of_eq (by simp)
  · obtain ⟨hmem, h⟩ := Option.ite_none_right_eq_some.1 h
    obtain rfl := Option.some.inj h
    have heq : _ = [m.buf].count b + _ := herase _ hmem
    simp only [Option.bind_some, Option.toList_some, List.map_cons, List.map_nil, List.count_nil]
    omega

/-- **Every step keeps the books in order.** -/
theorem accounts_step {a : BufferAction α} (h : t.pool.Accounts fun b => t.held.count b)
    (hst : t.step a = some t') : t'.pool.Accounts fun b => t'.held.count b := by
  cases a with
  | newWSBridge =>
    obtain rfl := Option.some.inj hst
    refine h.mono fun b => Nat.le_of_eq ?_
    have hlive : (t.bridges ++ [Bridge.start]).flatMap Bridge.live =
        t.bridges.flatMap Bridge.live := List.flatMap_append.trans (List.append_nil _)
    simp only [Buffers.held, Buffers.live, hlive]
  | get k conn choice =>
    obtain ⟨s, -, hst⟩ := Option.bind_eq_some_iff.1 hst
    obtain ⟨r, -, hst⟩ := Option.bind_eq_some_iff.1 hst
    obtain ⟨-, hst⟩ := Option.ite_none_right_eq_some.1 hst
    obtain ⟨got, hgot, rfl⟩ := Option.map_eq_some_iff.1 hst
    refine h.get hgot fun c => Nat.le_of_eq ?_
    simp only [Buffers.held, List.map_cons, List.cons_append, List.count_cons, List.count_nil,
      Nat.zero_add]
    rfl
  | step k a =>
    obtain ⟨s, hs, hst⟩ := Option.bind_eq_some_iff.1 hst
    obtain ⟨s', hs', hst⟩ := Option.bind_eq_some_iff.1 hst
    obtain ⟨done, hdone, rfl⟩ := Option.map_eq_some_iff.1 hst
    refine h.put fun c => ?_
    have hfilled := count_filled hdone c
    have hlive := Bridge.countP_live_step (p := fun m => m.buf == c) hs'
    have hset := Pool.countP_flatMap_set Bridge.live (fun m => m.buf == c) s' hs
    simp only [Buffers.held, Buffers.live, List.count_append, count_map_buf] at *
    omega
  | forget i =>
    obtain rfl := Option.some.inj hst
    exact h.forget i

theorem accounts_start : (Buffers.start : Buffers α).pool.Accounts
    fun b => (Buffers.start : Buffers α).held.count b :=
  Tokens.accounts_empty

/-- **Buffers are linear.** However many bridges share the pool and
whatever they do, a buffer is returned at most once for each time it is
taken. A buffer in the pool is neither being filled nor that of a message,
and no two readers and messages have the same. -/
theorem buffers_linear {schedule : List (BufferAction α)}
    (hrun : Run.exec Buffers.step .start schedule = some t) :
    (∀ b, t.pool.returned.count b ≤ t.pool.taken.count b ∧
      t.pool.taken.count b ≤ t.pool.returned.count b + 1) ∧
    (∀ b ∈ t.pool.free, b ∉ t.held) ∧ t.held.Nodup := by
  have h : t.pool.Accounts fun b => t.held.count b :=
    Run.exec_invariant_of_forall (fun _ _ _ ht hst => accounts_step ht hst) accounts_start hrun
  refine ⟨h.returned_le_taken, fun b hfree hheld => ?_, List.nodup_iff_count_le_one.2 fun b => ?_⟩
  · have hle := h.out_add_free_le_one b
    have hpos := List.count_pos_iff.2 hfree
    have hpos' := List.count_pos_iff.2 hheld
    omega
  · exact Nat.le_of_add_right_le (h.out_add_free_le_one b)

end Buffers

/-- One bridge writes a message and gives its buffer back, and the next
bridge reads into it. -/
def bufferPassedOn : List (BufferAction String) :=
  [.newWSBridge, .newWSBridge, .get 0 none none,
    .step 0 (.clientReader (.read (some ⟨0, "hello"⟩))), .step 0 (.clientReader .send),
    .step 0 (.run .client), .step 0 (.run .send), .step 0 (.pump .take), .step 0 (.pump .lock),
    .step 0 (.pump (.write true)), .get 1 (some 0) (some 0),
    .step 1 (.reader (.read (some ⟨0, "world"⟩)))]

theorem buffers_linear_passedOn :
    ∃ t : Buffers String, Run.exec Buffers.step .start bufferPassedOn = some t ∧
      t.pool.taken = [0, 0] ∧ t.held = [0] ∧ t.held.Nodup := by
  obtain ⟨t, hrun⟩ : ∃ t : Buffers String, Run.exec Buffers.step .start bufferPassedOn = some t :=
    Option.isSome_iff_exists.1 (by decide +kernel)
  have hrest : (some t).map (fun t => (t.pool.taken, t.held)) = some ([0, 0], [0]) := by
    rw [← hrun]
    decide +kernel
  simp only [Option.map_some, Option.some.injEq, Prod.mk.injEq] at hrest
  exact ⟨t, hrun, hrest.1, hrest.2, (buffers_linear hrun).2.2⟩

end WebSocket

end StickyProxy
