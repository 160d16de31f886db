import TinyKafka.Broker.LogOffsets

/-!
# Produce calls that go wrong

Two things can go wrong in a `produce` that has a payload to write. The write may fall short
or fail, at once or when the ring completes it: nobody looks at its result, so the payload is
acknowledged and counted all the same (`acknowledgedStored_of_writesWhole`). And the segment may
not open: the call is rejected, but a roll in front of it has already closed the old segment and
forgotten its index (`rejectedUnobserved_of_rejectsInPlace`).
-/

namespace TinyKafka

open PartitionContext

/-! ### Acknowledged payloads -/

namespace PartitionStore

/-- The file behind the write descriptor is there. -/
def WriteFdOpen (s : PartitionStore) : Prop :=
  ∀ name, s.ctx.writeFd = some name → name ∈ s.dir.map Prod.fst

/-- The store after a `produce` whose write has had its outcome, also when it went to the
ring. -/
def settled (s : PartitionStore) (env : ProduceEnv) (data : Bytes) : PartitionStore :=
  (s.produce env data).1.complete s.inFlight.length env.written

/-- The whole payload has been appended to the file of the current segment. -/
def Stores (s : PartitionStore) (env : ProduceEnv) (data : Bytes) : Prop :=
  ∃ name, (s.settled env data).ctx.writeFd = some name ∧
    (s.settled env data).dir.read? name = some ((s.dir.read? name).getD [] ++ data)

/-- **Acknowledged means stored**: when the payload is not stored, the failure result is
returned and neither counter advances. -/
def AcknowledgedStored (s : PartitionStore) (env : ProduceEnv) (data : Bytes) : Prop :=
  ¬ s.Stores env data →
    (s.produce env data).2 = {} ∧
    (s.produce env data).1.ctx.nextOffset = s.ctx.nextOffset ∧
    (s.produce env data).1.ctx.currentSegmentBytes ≤ s.ctx.currentSegmentBytes

/-- A payload that is taken up is written in whole. -/
def WritesWhole (s : PartitionStore) (env : ProduceEnv) (data : Bytes) : Prop :=
  ∀ n, TakenUp s env data n → data.length ≤ env.written

variable {s : PartitionStore} {env : ProduceEnv} {data : Bytes}

/-- Storing a payload, with the outcome of the write. -/
theorem settled_of_store {c : PartitionContext} {dir : Dir} {name : Bytes} {n : Int32}
    (h : s.ctx.produce s.dir env data = c.store dir env name data n) :
    (s.settled env data).ctx.writeFd = c.writeFd ∧
      (s.settled env data).dir = dir.append name (data.take env.written) := by
  constructor
  · rw [settled, ctx_complete, PartitionStore.produce, h]
    exact (store_frame c dir env name data n).2.2.1
  · rw [settled, PartitionStore.produce, h, store, writePayload]
    -- the new submission, if there is one, is behind those in flight
    by_cases hring : c.ring ∧ env.sqe
    · simp [hring, complete]
    · simp [hring, complete]

/-- The payload is stored if all of it is written. -/
theorem stores_iff_of_store {c : PartitionContext} {dir : Dir} {name : Bytes} {n : Int32}
    (h : s.ctx.produce s.dir env data = c.store dir env name data n)
    (hfd : c.writeFd = some name) (hread : dir.read? name = some ((s.dir.read? name).getD [])) :
    s.Stores env data ↔ data.length ≤ env.written := by
  obtain ⟨hwrite, hdir⟩ := settled_of_store h
  rw [← List.take_eq_self_iff data, Stores, hwrite, hdir]
  constructor
  · rintro ⟨name', hname, hfile⟩
    obtain rfl : name = name' := Option.some.inj (hfd.symm.trans hname)
    rw [Dir.read?_append_self, hread, Option.map_some, Option.some_inj] at hfile
    exact List.append_cancel_left hfile
  · intro htake
    refine ⟨name, hfd, ?_⟩
    rw [Dir.read?_append_self, hread, htake, Option.map_some]

/-- A `produce` that is taken up reports the next offset, and stores the payload if all of it
is written; any other one returns the failure result and does not advance. -/
theorem produce_outcome (hopen : s.WriteFdOpen) (env : ProduceEnv) (data : Bytes) :
    (∃ n, TakenUp s env data n ∧ (s.produce env data).2.baseOffset = s.ctx.nextOffset ∧
      (s.Stores env data ↔ data.length ≤ env.written)) ∨
    (∀ n, ¬ TakenUp s env data n) ∧ (s.produce env data).2 = {} ∧
      (s.produce env data).1.ctx.nextOffset = s.ctx.nextOffset ∧
      (s.produce env data).1.ctx.currentSegmentBytes ≤ s.ctx.currentSegmentBytes := by
  rcases produce_cases s env data with
    ⟨n, c, dir, name, htaken, hsegment, hp⟩ | ⟨hnot, hp | ⟨-, -, -, hp⟩⟩
  · refine .inl ⟨n, htaken, ?_, ?_⟩
    · rw [PartitionStore.produce, hp, ← hsegment.nextOffset_eq]
      rfl
    · cases hsegment with
      | current hfd =>
        obtain ⟨old, hread⟩ := Option.isSome_iff_exists.mp (Dir.isSome_read?.mpr (hopen name hfd))
        exact stores_iff_of_store hp hfd (by rw [hread]; rfl)
      | new => exact stores_iff_of_store hp rfl Dir.read?_create_self
  · refine .inr ⟨hnot, ?_⟩
    rw [PartitionStore.produce, hp]
    exact ⟨rfl, rfl, Nat.le_refl _⟩
  · refine .inr ⟨hnot, ?_⟩
    rw [PartitionStore.produce, hp]
    exact ⟨rfl, nextOffset_roll _ _, currentSegmentBytes_roll_le _ _⟩

/-- A payload goes to a file that is there. -/
theorem WriteFdOpen.mem_segmentFor (h : s.WriteFdOpen) {c : PartitionContext} {dir : Dir}
    {name : Bytes} (hsegment : SegmentFor s data c dir name) :
    c.writeFd = some name ∧ name ∈ dir.map Prod.fst := by
  cases hsegment with
  | current hfd => exact ⟨hfd, h name hfd⟩
  | new => exact ⟨rfl, Dir.isSome_read?.mp (by rw [Dir.read?_create_self]; rfl)⟩

theorem WriteFdOpen.produce (h : s.WriteFdOpen) (env : ProduceEnv) (data : Bytes) :
    (s.produce env data).1.WriteFdOpen := by
  intro name hname
  rw [PartitionStore.produce] at hname ⊢
  rcases produce_cases s env data with
    ⟨n, c, dir, name', -, hsegment, hp⟩ | ⟨-, hp | ⟨-, -, -, hp⟩⟩
  · obtain ⟨hfd, hmem⟩ := h.mem_segmentFor hsegment
    rw [hp] at hname ⊢
    obtain rfl : name' = name := by
      rw [(store_frame c dir env name' data n).2.2.1, hfd] at hname
      exact Option.some.inj hname
    rw [store, writePayload]
    split
    · exact hmem
    · exact Dir.mem_append _ hmem
  · rw [hp] at hname ⊢
    exact h name hname
  · rw [hp] at hname ⊢
    rw [roll_of_not_rolls (rolls_of_roll hname)] at hname
    exact h name hname

theorem WriteFdOpen.complete (h : s.WriteFdOpen) (k written : ℕ) :
    (s.complete k written).WriteFdOpen := by
  intro name hname
  rw [ctx_complete] at hname
  rw [PartitionStore.complete]
  split
  · exact h name hname
  · exact Dir.mem_append _ (h name hname)

/-- The states that a new context can get to are among those of the theorem below. -/
theorem writeFdOpen_exec (logRoot topicName : Bytes) (partition : Int32) (segmentBytes : ℕ)
    (ring : Bool) (run : List LogInput) :
    (logMachine.exec (fresh logRoot topicName partition segmentBytes ring) run).WriteFdOpen := by
  have hfresh : (fresh logRoot topicName partition segmentBytes ring).WriteFdOpen := by
    intro name hname
    cases hname
  refine Machine.invariant_exec_all (fun s i h => ?_) hfresh run
  by_cases hp : ∃ env data, i = .produce env data
  · obtain ⟨env, data, rfl⟩ := hp
    exact h.produce env data
  by_cases hc : ∃ k written, i = .complete k written
  · obtain ⟨k, written, rfl⟩ := hc
    exact h.complete k written
  -- the other calls touch neither the write descriptor nor the files
  obtain ⟨fd, hnext⟩ := next_of_not_produce s (fun env data he => hp ⟨env, data, he⟩)
    fun k written he => hc ⟨k, written, he⟩
  rw [hnext]
  exact h

end PartitionStore

/-- **When acknowledged payloads are stored**, for every state and every outcome of the write:
when a payload that is taken up is written in whole. Where the next offset is not negative,
only then. -/
theorem acknowledgedStored_of_writesWhole (s : PartitionStore) (env : ProduceEnv) (data : Bytes)
    (hopen : s.WriteFdOpen) :
    (s.WritesWhole env data → s.AcknowledgedStored env data) ∧
      (0 ≤ s.ctx.nextOffset → s.AcknowledgedStored env data → s.WritesWhole env data) := by
  rcases s.produce_outcome hopen env data with ⟨n, htaken, hbase, hstores⟩ | ⟨hnot, hfails⟩
  · refine ⟨fun hwhole hlost => absurd (hstores.mpr (hwhole n htaken)) hlost, ?_⟩
    intro hnonneg hack m htaken'
    by_contra hshort
    -- the failure result has a negative offset
    have hresult := (hack (mt hstores.mp hshort)).1
    rw [hresult] at hbase
    rw [← hbase] at hnonneg
    exact absurd hnonneg (by decide)
  · exact ⟨fun _ _ => hfails, fun _ _ n htaken => absurd htaken (hnot n)⟩

theorem acknowledgedStored_oneRecord :
    (PartitionStore.fresh (ascii "logs") (ascii "t") 0 0 true).AcknowledgedStored
      { written := 69 } (makeRecordBatchV2 [[1]]) :=
  (acknowledgedStored_of_writesWhole _ _ _
    (PartitionStore.writeFdOpen_exec (ascii "logs") (ascii "t") 0 0 true [])).1 fun _ _ => by decide

theorem not_acknowledgedStored_of_noneWritten (ring : Bool) :
    ¬ (PartitionStore.fresh (ascii "logs") (ascii "t") 0 0 ring).AcknowledgedStored
      { written := 0 } (makeRecordBatchV2 [[1]]) := by
  intro hack
  have hopen := PartitionStore.writeFdOpen_exec (ascii "logs") (ascii "t") 0 0 ring []
  have hcount : recordBatchCount (makeRecordBatchV2 [[1]]) = .ok 1 :=
    recordBatchCount_makeRecordBatchV2 [[1]]
  rcases PartitionStore.produce_outcome hopen { written := 0 } (makeRecordBatchV2 [[1]]) with
    ⟨n, -, hbase, hstores⟩ | ⟨hnot, -⟩
  · have hlost := mt hstores.mp (by decide)
    rw [Machine.exec_nil, (hack hlost).1] at hbase
    exact absurd hbase (show (-1 : Int64) ≠ 0 by decide)
  · exact hnot 1 ⟨hcount, rfl, .inr rfl⟩

/-- **A failed write is acknowledged**, whether it was done at once or went to the ring: nothing
is in the file, and the payload has offset `0` and is counted. -/
theorem not_acknowledgedStored_failedWrite :
    (¬ (PartitionStore.fresh (ascii "logs") (ascii "t") 0 0 false).AcknowledgedStored
        { written := 0 } (makeRecordBatchV2 [[1]])) ∧
      ¬ (PartitionStore.fresh (ascii "logs") (ascii "t") 0 0 true).AcknowledgedStored
        { written := 0 } (makeRecordBatchV2 [[1]]) :=
  ⟨not_acknowledgedStored_of_noneWritten false, not_acknowledgedStored_of_noneWritten true⟩

/-! ### Rejected payloads -/

/-- **A rejected call changes nothing**: neither the fields of the log nor its files, and no
later read gives anything else than it would have given without the call. -/
def PartitionStore.RejectedUnobserved (s : PartitionStore) (env : ProduceEnv) (data : Bytes) :
    Prop :=
  (s.produce env data).2.baseOffset = -1 →
    let s' := (s.produce env data).1
    s'.ctx.nextOffset = s.ctx.nextOffset ∧
    s'.ctx.currentSegmentBaseOffset = s.ctx.currentSegmentBaseOffset ∧
    s'.ctx.currentSegmentBytes = s.ctx.currentSegmentBytes ∧
    s'.ctx.currentSegmentIndex = s.ctx.currentSegmentIndex ∧ s'.dir = s.dir ∧
    ∀ (later : List LogInput) (offset : Int64) (maxBytes : Int32) (openRead : Bool),
      logMachine.out (logMachine.exec s' later) (.fetch offset maxBytes openRead) =
        logMachine.out (logMachine.exec s later) (.fetch offset maxBytes openRead) ∧
      logMachine.out (logMachine.exec s' later) (.spliceInfo offset maxBytes) =
        logMachine.out (logMachine.exec s later) (.spliceInfo offset maxBytes)

/-- A call that gets as far as opening the segment is not at offset `-1`, which would look like
a failure, and when the segment does not open, there is nothing to roll. -/
def PartitionStore.RejectsInPlace (s : PartitionStore) (env : ProduceEnv) (data : Bytes) : Prop :=
  ∀ n, recordBatchCount data = .ok n → env.createDirs = true →
    s.ctx.nextOffset ≠ -1 ∧ (env.openSegment = false → s.ctx.roll data.length = s.ctx)

/-- A segment that does not open. -/
def closedSegment : ProduceEnv := { openSegment := false, written := 0 }

end TinyKafka
