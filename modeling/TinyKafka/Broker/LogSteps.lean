import TinyKafka.Broker.PartitionContext

/-!
# What a call on a partition can do

`ProduceStep` lists the four ways a `produce` ends; every fact about runs below is a case
split on it. The other calls only touch the read descriptor (`next_of_not_produce`).
-/

namespace TinyKafka

open PartitionContext

/-- The outcomes of `produce` on a context `c` with the directory `dir`. -/
inductive ProduceStep (c : PartitionContext) (dir : Dir) (env : ProduceEnv) (data : Bytes) :
    Produced → Prop
  /-- The payload has no record count, or the directory cannot be created. -/
  | rejected (h : (∃ e, recordBatchCount data = .error e) ∨ env.createDirs = false) :
      ProduceStep c dir env data { ctx := c, dir := dir }
  /-- The segment to write to is not open and cannot be opened; a roll has happened all the
  same. -/
  | openFailed (n : Int32) (hn : recordBatchCount data = .ok n) (hdirs : env.createDirs = true)
      (hfd : (c.roll data.length).writeFd = none) (hopen : env.openSegment = false) :
      ProduceStep c dir env data { ctx := c.roll data.length, dir := dir }
  /-- The payload goes to the open segment. -/
  | appended (n : Int32) (name : Bytes) (hn : recordBatchCount data = .ok n)
      (hdirs : env.createDirs = true) (hroll : ¬ c.Rolls data.length)
      (hfd : c.writeFd = some name) :
      ProduceStep c dir env data (c.store dir env name data n)
  /-- The payload starts a segment that was opened for it. -/
  | opened (n : Int32) (hn : recordBatchCount data = .ok n) (hdirs : env.createDirs = true)
      (hfd : (c.roll data.length).writeFd = none) (hopen : env.openSegment = true) :
      ProduceStep c dir env data
        ((c.roll data.length).openCurrent.store
          (dir.create (segmentName (c.roll data.length).currentSegmentBaseOffset)) env
          (segmentName (c.roll data.length).currentSegmentBaseOffset) data n)

theorem roll_of_not_rolls {c : PartitionContext} {n : ℕ} (h : ¬ c.Rolls n) : c.roll n = c :=
  if_neg h

@[simp] theorem nextOffset_roll (c : PartitionContext) (n : ℕ) :
    (c.roll n).nextOffset = c.nextOffset := by
  rw [roll]
  split <;> rfl

@[simp] theorem segmentBytes_roll (c : PartitionContext) (n : ℕ) :
    (c.roll n).segmentBytes = c.segmentBytes := by
  rw [roll]
  split <;> rfl

theorem currentSegmentBytes_roll_le (c : PartitionContext) (n : ℕ) :
    (c.roll n).currentSegmentBytes ≤ c.currentSegmentBytes := by
  rw [roll]
  split
  · exact Nat.zero_le _
  · exact Nat.le_refl _

theorem rolls_of_roll {c : PartitionContext} {n : ℕ} {name : Bytes}
    (h : (c.roll n).writeFd = some name) : ¬ c.Rolls n := by
  intro hr
  rw [roll, if_pos hr] at h
  cases h

theorem produceStep (c : PartitionContext) (dir : Dir) (env : ProduceEnv) (data : Bytes) :
    ProduceStep c dir env data (c.produce dir env data) := by
  rw [produce]
  split
  next e he => exact .rejected (.inl ⟨e, he⟩)
  next n hn =>
    split
    next hdirs =>
      rcases hfd : (c.roll data.length).writeFd with _ | name
      · rcases hopen : env.openSegment with _ | _
        · have hens : (c.roll data.length).ensureWriteFd dir false =
              (c.roll data.length, dir) := by simp [ensureWriteFd, hfd]
          simp only [hens, hfd]
          exact .openFailed n hn hdirs hfd hopen
        · simp only [ensureWriteFd, hfd, if_true]
          exact .opened n hn hdirs hfd hopen
      · have hroll := rolls_of_roll hfd
        rw [roll_of_not_rolls hroll] at hfd ⊢
        simp only [ensureWriteFd, hfd]
        exact .appended n name hn hdirs hroll hfd
    next hdirs => exact .rejected (.inr (by simpa using hdirs))

/-- An index entry changes nothing but the index. -/
theorem pushIndex_eq (c : PartitionContext) :
    ∃ entries, c.pushIndex = { c with currentSegmentIndex := entries } := by
  rw [pushIndex]
  split
  · exact ⟨_, rfl⟩
  · exact ⟨c.currentSegmentIndex, rfl⟩

@[simp] theorem nextOffset_pushIndex (c : PartitionContext) :
    c.pushIndex.nextOffset = c.nextOffset := by
  obtain ⟨entries, h⟩ := pushIndex_eq c
  rw [h]

/-- Storing a payload leaves the limits and the segment it goes to as they are. -/
theorem store_frame (c : PartitionContext) (dir : Dir) (env : ProduceEnv) (name data : Bytes)
    (n : Int32) :
    (c.store dir env name data n).ctx.ring = c.ring ∧
      (c.store dir env name data n).ctx.segmentBytes = c.segmentBytes ∧
      (c.store dir env name data n).ctx.writeFd = c.writeFd ∧
      (c.store dir env name data n).ctx.currentSegmentBaseOffset =
        c.currentSegmentBaseOffset := by
  obtain ⟨entries, h⟩ := pushIndex_eq c
  rw [store, advance, h]
  exact ⟨rfl, rfl, rfl, rfl⟩

theorem ensureReadFd_eq (c : PartitionContext) (dir : Dir) (base : Int64) (success : Bool) :
    ∃ fd, c.ensureReadFd dir base success = { c with readFd := fd } := by
  rw [ensureReadFd]
  split
  · exact ⟨c.readFd, rfl⟩
  · dsimp only
    split
    · exact ⟨_, rfl⟩
    · exact ⟨c.readFd, rfl⟩

theorem ctx_fetch_eq (c : PartitionContext) (dir : Dir) (offset : Int64) (maxBytes : Int32)
    (openRead : Bool) :
    ∃ fd, (c.fetch dir offset maxBytes openRead).1 = { c with readFd := fd } := by
  rw [fetch]
  split
  · exact ⟨c.readFd, rfl⟩
  · dsimp only
    split <;> exact ensureReadFd_eq _ _ _ _

/-- The calls other than `produce` leave all but the read descriptor as it was. -/
theorem next_of_not_produce (s : PartitionStore) {i : LogInput}
    (hp : ∀ env data, i ≠ .produce env data) (hc : ∀ k written, i ≠ .complete k written) :
    ∃ fd, logMachine.next s i = { s with ctx := { s.ctx with readFd := fd } } := by
  cases i with
  | produce env data => exact absurd rfl (hp env data)
  | fetchAll => exact ⟨s.ctx.readFd, rfl⟩
  | fetch offset maxBytes openRead =>
    obtain ⟨fd, hfd⟩ := ctx_fetch_eq s.ctx s.dir offset maxBytes openRead
    exact ⟨fd, congrArg (fun c => { s with ctx := c }) hfd⟩
  | spliceInfo fetchOffset maxBytes => exact ⟨s.ctx.readFd, rfl⟩
  | fileFd openRead =>
    obtain ⟨fd, hfd⟩ := ensureReadFd_eq s.ctx s.dir s.ctx.currentSegmentBaseOffset openRead
    exact ⟨fd, congrArg (fun c => { s with ctx := c }) hfd⟩
  | complete k written => exact absurd rfl (hc k written)

/-- A completed write is a change of the directory only. -/
theorem ctx_complete (s : PartitionStore) (k written : ℕ) :
    (s.complete k written).ctx = s.ctx := by
  rw [PartitionStore.complete]
  split <;> rfl

theorem ctx_next_of_not_produce (s : PartitionStore) {i : LogInput}
    (hp : ∀ env data, i ≠ .produce env data) :
    ∃ fd, (logMachine.next s i).ctx = { s.ctx with readFd := fd } := by
  by_cases hc : ∃ k written, i = .complete k written
  · obtain ⟨k, written, rfl⟩ := hc
    exact ⟨s.ctx.readFd, ctx_complete s k written⟩
  · obtain ⟨fd, hfd⟩ := next_of_not_produce s hp fun k written he => hc ⟨k, written, he⟩
    exact ⟨fd, congrArg PartitionStore.ctx hfd⟩

/-- The size limit is fixed at construction. -/
theorem segmentBytes_next (s : PartitionStore) (i : LogInput) :
    (logMachine.next s i).ctx.segmentBytes = s.ctx.segmentBytes := by
  by_cases hp : ∃ env data, i = .produce env data
  · obtain ⟨env, data, rfl⟩ := hp
    have hnext : (logMachine.next s (.produce env data)).ctx =
        (s.ctx.produce s.dir env data).ctx := rfl
    have hstep := produceStep s.ctx s.dir env data
    rw [hnext]
    generalize s.ctx.produce s.dir env data = p at hstep
    cases hstep with
    | rejected h => rfl
    | openFailed n hn hdirs hfd hopen => exact segmentBytes_roll _ _
    | appended n name hn hdirs hroll hfd => exact (store_frame _ _ _ _ _ _).2.1
    | opened n hn hdirs hfd hopen =>
      exact (store_frame _ _ _ _ _ _).2.1.trans (segmentBytes_roll _ _)
  · obtain ⟨fd, hfd⟩ := ctx_next_of_not_produce s fun env data he => hp ⟨env, data, he⟩
    rw [hfd]

theorem segmentBytes_exec (s : PartitionStore) (is : List LogInput) :
    (logMachine.exec s is).ctx.segmentBytes = s.ctx.segmentBytes := by
  induction is generalizing s with
  | nil => rfl
  | cons i is ih => rw [Machine.exec_cons, ih, segmentBytes_next]

end TinyKafka
