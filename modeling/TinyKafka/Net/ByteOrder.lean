import TinyKafka.Net.PipelineRuns

/-!
# The order of the bytes on a connection

`WritePipeline` follows connections that are never given a splice. For the bytes that go through
`send` this is more than is needed: they keep their order whatever becomes of the splices, as long
as a completion comes only for a splice the entry waits for. While a splice is pending the write
buffer has been sent and is not empty, so that responses go to the queue, and the completion takes
up the next of them.

`System.Flows s i fd c bytes`: connection `c` is open under `fd`, its entry is in order, and
`bytes` are what is left to send. The lemmas say what the operations of the reactor do to `bytes`.
-/

namespace TinyKafka

variable {n : ℕ}

namespace Connection

variable {conn : Connection} {want : Bool} {data : Bytes}

/-- The entry of an open connection, registered for output or not. -/
structure Flowing (conn : Connection) (want : Bool) : Prop where
  /-- Output is asked for only when there is a buffer. -/
  wanted : want = true → conn.writeBuf ≠ []
  /-- Without one nothing waits. -/
  idle : conn.writeBuf = [] →
    conn.writeOffset = 0 ∧ conn.writeQueue = [] ∧ conn.splicePending = false
  /-- No empty buffer waits. -/
  waiting : [] ∉ conn.writeQueue
  /-- A splice is pending behind a buffer that has been sent. -/
  pending : conn.splicePending = true → conn.writeBuf.length ≤ conn.writeOffset

theorem flowing_new : ({} : Connection).Flowing false :=
  ⟨Bool.noConfusion, fun _ => ⟨rfl, rfl, rfl⟩, List.not_mem_nil, Bool.noConfusion⟩

theorem Flowing.withReader (h : conn.Flowing want) (r : FrameReader) :
    { conn with toFrameReader := r }.Flowing want :=
  ⟨h.wanted, h.idle, h.waiting, h.pending⟩

theorem Flowing.setSplice (h : conn.Flowing want) (splice : Option (FileRef × ℕ)) :
    (conn.setSplice splice).Flowing want := by
  rcases splice with _ | ⟨file, len⟩
  · exact h
  · exact ⟨h.wanted, h.idle, h.waiting, h.pending⟩

theorem unsent_setSplice (splice : Option (FileRef × ℕ)) :
    (conn.setSplice splice).unsent = conn.unsent := by
  rcases splice with _ | ⟨file, len⟩ <;> rfl

theorem Flowing.unsent_enqueue (h : conn.Flowing want) (data : Bytes) :
    (conn.enqueue data).unsent = conn.unsent ++ data := by
  rw [enqueue]
  split
  · next hidle =>
    have hqueue := (h.idle hidle.2).2.1
    simp [unsent, hidle.2, hqueue]
  · simp [unsent]

theorem Flowing.enqueue (h : conn.Flowing want) (hdata : data ≠ []) :
    (conn.enqueue data).Flowing (if conn.Idle then true else want) := by
  rw [Connection.enqueue]
  split
  · next hidle =>
    obtain ⟨-, -, hpending⟩ := h.idle hidle.2
    refine ⟨fun _ => hdata, fun hnil => absurd hnil hdata, h.waiting, fun htrue => ?_⟩
    exact absurd (hpending.symm.trans htrue) Bool.false_ne_true
  · next hidle =>
    -- a buffer is there: without one the entry would be idle
    have hbuf : conn.writeBuf ≠ [] := fun hnil => hidle ⟨(h.idle hnil).1, hnil⟩
    refine ⟨h.wanted, fun hnil => absurd hnil hbuf, ?_, h.pending⟩
    rw [List.mem_append, List.mem_singleton, not_or]
    exact ⟨h.waiting, hdata.symm⟩

/-- The buffer that is being sent stays. -/
theorem writeBuf_setSplice_enqueue (h : conn.writeBuf ≠ []) (splice : Option (FileRef × ℕ)) :
    ((conn.setSplice splice).enqueue data).writeBuf = conn.writeBuf := by
  have hbusy : ¬ (conn.setSplice splice).Idle := by
    rw [idle_setSplice]
    exact fun hidle => h hidle.2
  rw [Connection.enqueue, if_neg hbusy]
  rcases splice with _ | ⟨file, len⟩ <;> rfl

/-- The next buffer is taken up. -/
theorem flowing_advanceWriteQueue (hwaiting : [] ∉ conn.writeQueue)
    (hpending : conn.splicePending = false) (want : Bool) :
    conn.advanceWriteQueue.Flowing (if conn.writeQueue = [] then false else want) := by
  have hnot : conn.splicePending ≠ true := by simp [hpending]
  rw [advanceWriteQueue]
  split
  · next front queue hqueue =>
    rw [hqueue, List.mem_cons, not_or] at hwaiting
    have hfront : front ≠ [] := Ne.symm hwaiting.1
    exact ⟨fun _ => hfront, fun hnil => absurd hnil hfront, hwaiting.2, fun h => absurd h hnot⟩
  · next hqueue =>
    rw [if_pos hqueue]
    exact ⟨Bool.noConfusion, fun _ => ⟨rfl, hqueue, hpending⟩, hwaiting, fun h => absurd h hnot⟩

/-- What is left of the buffer after `m` bytes. -/
theorem unsent_eq_take_append (conn : Connection) (m : ℕ) :
    conn.unsent = (conn.writeBuf.drop conn.writeOffset).take m ++
      { conn with writeOffset := conn.writeOffset + m }.unsent := by
  rw [unsent, unsent, ← List.append_assoc]
  congr 1
  dsimp only
  rw [← List.drop_drop, List.take_append_drop]

/-- A buffer that has been sent leaves only the queue. -/
theorem unsent_of_sent (h : conn.writeBuf.length ≤ conn.writeOffset) :
    conn.unsent = conn.writeQueue.flatten := by
  rw [unsent, List.drop_of_length_le h, List.nil_append]

end Connection

namespace System

variable {s s' : System n} {i : Fin n} {fd : ℕ} {c : ConnId n} {bytes : Bytes}

/-- Connection `c` is open under `fd`, its entry is in order, and `bytes` are left to send. -/
def Flows (s : System n) (i : Fin n) (fd : ℕ) (c : ConnId n) (bytes : Bytes) : Prop :=
  ∃ conn want, s.Holds i fd c conn want ∧ conn.Flowing want ∧ conn.unsent = bytes

theorem Flows.owner (h : s.Flows i fd c bytes) : s.owner i fd = some c := by
  obtain ⟨conn, want, hholds, -, -⟩ := h
  exact hholds.owner

theorem Flows.entry (h : s.Flows i fd c bytes) : s.connections i fd ≠ none := by
  obtain ⟨conn, want, hholds, -, -⟩ := h
  rw [hholds.entry]
  exact Option.some_ne_none conn

theorem Flows.unsent (h : s.Flows i fd c bytes) : s.unsent i fd = bytes := by
  obtain ⟨conn, want, hholds, -, rfl⟩ := h
  exact hholds.unsent

theorem Flows.of_leavesAlone (h : s.Flows i fd c bytes) (halone : s.LeavesAlone i fd s') :
    s'.Flows i fd c bytes := by
  obtain ⟨conn, want, hholds, hflow, hbytes⟩ := h
  exact ⟨conn, want, hholds.of_leavesAlone halone, hflow, hbytes⟩

/-- Who asks for output has a buffer. -/
theorem Flows.writeBuf_ne_nil (h : s.Flows i fd c bytes)
    (hwant : (s.sockets fd).any OpenSocket.wantWrite) : (s.connection i fd).writeBuf ≠ [] := by
  obtain ⟨conn, want, hholds, hflow, -⟩ := h
  rw [hholds.socket] at hwant
  rw [hholds.connection]
  exact hflow.wanted hwant

theorem flows_handleAccept (hfree : s.sockets fd = none) :
    (s.handleAccept i fd true).Flows i fd ⟨i, s.accepted⟩ [] :=
  ⟨{}, false, holds_handleAccept hfree, Connection.flowing_new, rfl⟩

/-- The reading side does not matter. -/
theorem Flows.setReader (h : s.Flows i fd c bytes) (r : FrameReader) :
    (s.setConnection i fd { s.connection i fd with toFrameReader := r }).Flows i fd c bytes := by
  obtain ⟨conn, want, hholds, hflow, hbytes⟩ := h
  rw [hholds.connection]
  exact ⟨_, want, hholds.setConnection _, hflow.withReader r, hbytes⟩

/-- A response is put in at the end. -/
theorem Flows.putResponse (h : s.Flows i fd c bytes) (splice : Option (FileRef × ℕ))
    {data : Bytes} (hdata : data ≠ []) :
    (s.putResponse i fd ((s.connection i fd).setSplice splice) data).Flows i fd c
      (bytes ++ data) := by
  obtain ⟨conn, want, hholds, hflow, rfl⟩ := h
  have hset := hflow.setSplice splice
  rw [hholds.connection]
  refine ⟨_, _, hholds.putResponse _ data, hset.enqueue hdata, ?_⟩
  rw [hset.unsent_enqueue, Connection.unsent_setSplice]

/-- `handle_write` takes bytes at the front, or fails and closes the connection. -/
theorem Flows.handleWrite (h : s.Flows i fd c bytes)
    (hbuf : (s.connection i fd).writeBuf ≠ []) {env : WriteEnv}
    (hopen : (s.handleWrite i fd env).owner i fd = some c) :
    ∃ rest, (s.handleWrite i fd env).Flows i fd c rest ∧
      bytes = (s.connection i fd).sentBytes env.sent ++ rest := by
  obtain ⟨conn, want, hholds, hflow, rfl⟩ := h
  rw [hholds.connection] at hbuf
  rw [handleWrite, hholds.connection] at hopen ⊢
  rw [Connection.sentBytes]
  rcases hsend : conn.sendAll env.sent with _ | m
  · rw [hsend, owner_closeConnection] at hopen
    cases hopen
  rw [Option.getD_some]
  refine ⟨{ conn with writeOffset := conn.writeOffset + m }.unsent, ?_,
    conn.unsent_eq_take_append m⟩
  dsimp only
  by_cases hdone : conn.writeOffset + m ≥ conn.writeBuf.length
  · have hsent : { conn with writeOffset := conn.writeOffset + m }.unsent =
        conn.writeQueue.flatten := Connection.unsent_of_sent hdone
    rw [if_pos hdone]
    split
    · -- the splice is submitted
      refine ⟨_, want, (hholds.setConnection _).of_leavesAlone ⟨rfl, rfl⟩, ?_, rfl⟩
      exact ⟨hflow.wanted, fun hnil => absurd hnil hbuf, hflow.waiting, fun _ => hdone⟩
    · next hpending _ =>
      refine ⟨_, _, hholds.advanceWriteQueue _,
        Connection.flowing_advanceWriteQueue hflow.waiting hpending want, ?_⟩
      rw [Connection.unsent_advanceWriteQueue, hsent]
    · refine ⟨_, want, hholds.setConnection _, ?_, rfl⟩
      exact ⟨hflow.wanted, fun hnil => absurd hnil hbuf, hflow.waiting, fun _ => hdone⟩
  · rw [if_neg hdone]
    refine ⟨_, want, hholds.setConnection _, ?_, rfl⟩
    refine ⟨hflow.wanted, fun hnil => absurd hnil hbuf, hflow.waiting, fun hpending => ?_⟩
    exact le_trans (hflow.pending hpending) (Nat.le_add_right _ _)

/-- A completion that the entry waits for takes up the next buffer. -/
theorem Flows.harvest (h : s.Flows i fd c bytes) (j : Fin n) (k written : ℕ)
    (hpending : ∀ file len, j = i → (s.rings i)[k]? = some (.splice fd file len) →
      (s.connection i fd).splicePending = true) :
    (s.harvest j k written).Flows i fd c bytes := by
  obtain ⟨conn, want, hholds, hflow, rfl⟩ := h
  by_cases hours : j = i ∧ ∃ file len, (s.rings j)[k]? = some (.splice fd file len)
  · obtain ⟨rfl, file, len, hop⟩ := hours
    have hsplice : conn.splicePending = true := by
      rw [← hholds.connection]
      exact hpending file len rfl hop
    have hpopped : { s with rings := Function.update s.rings j ((s.rings j).eraseIdx k) }.Holds j fd
        c conn want := hholds.of_leavesAlone ⟨rfl, rfl⟩
    rw [System.harvest, hop]
    dsimp only
    rw [complete, hpopped.entry]
    dsimp only
    split
    · exact ⟨conn, want, hpopped, hflow, rfl⟩
    · have hnext : { conn with splicePending := false }.advanceWriteQueue.Flowing
          (if conn.writeQueue = [] then false else want) :=
        Connection.flowing_advanceWriteQueue (by exact hflow.waiting) rfl want
      refine ⟨_, _, hpopped.advanceWriteQueue _, hnext, ?_⟩
      rw [Connection.unsent_advanceWriteQueue, Connection.unsent_of_sent (hflow.pending hsplice)]
  · refine ⟨conn, want, hholds.of_leavesAlone (leavesAlone_harvest fun fd' file len hop => ?_),
      hflow, rfl⟩
    refine hholds.elsewhere ?_
    rintro ⟨rfl, rfl⟩
    exact hours ⟨rfl, file, len, hop⟩

end System

end TinyKafka
