import TinyKafka.Broker.FetchWindow

/-!
# The sparse index

The size of the current segment and its index are updated at different points of `produce`,
around a roll and an `open` that may fail. `IndexedSegment` ties them to the segment's file:
the size is the length of the file, and the index has one entry for each stored payload at a
multiple of `1000`, with the position at which this payload starts. So a range for
`sendfile` starts at a payload and lies in the file.

`sparseIndex_of_inRange` says that this holds after every call, as long as the offsets stay
within `int64_t`. Behind the largest one the offsets of the index do not increase any more
(`not_sparseIndex_overflow`).
-/

namespace TinyKafka

open PartitionContext

/-- The file of the current segment, empty if there is none. -/
def PartitionStore.currentFile (s : PartitionStore) : Bytes :=
  (s.dir.read? (segmentName s.ctx.currentSegmentBaseOffset)).getD []

/-- The current segment of a store holds the payloads `cur`, and size and index are in step
with it. -/
structure IndexedSegment (cur : Segment) (s : PartitionStore) : Prop where
  file : s.currentFile = cur.bytes
  size : s.ctx.currentSegmentBytes = s.currentFile.length
  /-- One entry for each payload at a multiple of `1000`, in order. -/
  index : s.ctx.currentSegmentIndex.map SparseIndexEntry.offset =
    (cur.map Prod.fst).filter (· % 1000 = 0)
  increasing : s.ctx.currentSegmentIndex.Pairwise fun a b =>
    a.offset < b.offset ∧ a.filePosition < b.filePosition
  /-- An entry is at the byte at which its payload starts. -/
  starts : ∀ e ∈ s.ctx.currentSegmentIndex, ∃ (before : Segment) (data : Bytes) (after : Segment),
    cur = before ++ (e.offset, data) :: after ∧ e.filePosition = before.bytes.length
  /-- A range to splice starts at a payload and lies in the file, and the subtraction for it
  does not wrap around. -/
  splice : ∀ (offset : Int64) (maxBytes : Int32) (name : Bytes), 0 < maxBytes →
    (s.ctx.spliceInfo offset maxBytes).fd = some name →
    name = segmentName s.ctx.currentSegmentBaseOffset ∧
    (∃ before after : Segment, cur = before ++ after ∧
      (s.ctx.spliceInfo offset maxBytes).fileOffset = before.bytes.length) ∧
    (s.ctx.spliceInfo offset maxBytes).fileOffset ≤ s.ctx.currentSegmentBytes ∧
    (s.ctx.spliceInfo offset maxBytes).fileOffset + (s.ctx.spliceInfo offset maxBytes).length ≤
      s.currentFile.length

/-- **The index describes the current segment**, after every step of a run from the store
`s₀`. -/
def SparseIndex (s₀ : PartitionStore) (run : List LogInput) : Prop :=
  ∀ pre post, run = pre ++ post → ∃ init cur : Segment,
    stored (logMachine.trace s₀ pre) = init ++ cur ∧ IndexedSegment cur (logMachine.exec s₀ pre)

/-! ### The entries of a segment -/

namespace Segment

theorem map_offset_index (g : Segment) (pos : ℕ) :
    (g.index pos).map SparseIndexEntry.offset = (g.map Prod.fst).filter (· % 1000 = 0) := by
  induction g generalizing pos with
  | nil => rfl
  | cons e g ih =>
    rw [index, List.map_append, ih, List.map_cons, List.filter_cons]
    by_cases h : e.1 % 1000 = 0
    · simp [h]
    · simp [h]

/-- Offsets increase along a segment, and each payload moves the position on. -/
theorem pairwise_index {g : Segment} (hoffsets : g.Pairwise fun a b => a.1.toInt < b.1.toInt)
    (hne : ∀ e ∈ g, e.2 ≠ []) (pos : ℕ) :
    (g.index pos).Pairwise fun a b => a.offset < b.offset ∧ a.filePosition < b.filePosition := by
  induction g generalizing pos with
  | nil => exact List.Pairwise.nil
  | cons e g ih =>
    rw [List.pairwise_cons] at hoffsets
    have hrest := ih hoffsets.2 (fun x hx => hne x (List.mem_cons_of_mem e hx)) (pos + e.2.length)
    have hpos := List.length_pos_of_ne_nil (hne e List.mem_cons_self)
    rw [index]
    split
    · refine List.pairwise_cons.mpr ⟨fun b hb => ?_, hrest⟩
      obtain ⟨l, d, l', hg, hb⟩ := mem_index hb
      refine ⟨?_, by dsimp only; omega⟩
      rw [Int64.lt_iff_toInt_lt]
      exact hoffsets.1 (b.offset, d) (by rw [hg]; simp)
    · exact hrest

end Segment

/-! ### What is stored is not empty -/

theorem ne_nil_of_stored? {s : PartitionStore} {i : LogInput} {x : Int64 × Bytes}
    (h : LogInput.stored? (i, logMachine.out s i) = some x) : x.2 ≠ [] := by
  cases i with
  | produce env data =>
    obtain ⟨base, hbase, rfl⟩ := Option.map_eq_some_iff.mp h
    rw [out_produce] at hbase
    rcases produce_offsets s env data with ⟨n, htaken, -⟩ | ⟨-, hfailed, -⟩
    · rintro (rfl : data = [])
      cases htaken.1
    · rw [LogOutput.base?, hfailed] at hbase
      cases hbase
  | _ => cases h

theorem ne_nil_of_mem_stored {s₀ : PartitionStore} {run : List LogInput} {x : Int64 × Bytes}
    (h : x ∈ stored (logMachine.trace s₀ run)) : x.2 ≠ [] := by
  induction run generalizing s₀ with
  | nil => cases h
  | cons i run ih =>
    obtain ⟨e, he, hx⟩ := List.mem_filterMap.mp h
    rw [Machine.trace_cons] at he
    rcases List.mem_cons.mp he with rfl | he
    · exact ne_nil_of_stored? hx
    · exact ih (List.mem_filterMap.mpr ⟨e, he, hx⟩)

/-! ### The invariant of the log -/

/-- The range of a splice, when the index points into the segment. -/
theorem spliceInfo_of_le {c : PartitionContext} {o : Int64} {maxBytes : Int32} {name : Bytes}
    {start : ℕ} (hstart : ((c.lookup o).map SparseIndexEntry.filePosition).getD 0 = start)
    (hle : start ≤ c.currentSegmentBytes) (hfd : (c.spliceInfo o maxBytes).fd = some name) :
    c.writeFd = some name ∧ (c.spliceInfo o maxBytes).fileOffset = start ∧
      start + (c.spliceInfo o maxBytes).length ≤ c.currentSegmentBytes := by
  rcases hwrite : c.writeFd with _ | name'
  · rw [spliceInfo, hwrite] at hfd
    cases hfd
  · rw [spliceInfo, hwrite] at hfd ⊢
    simp only [hstart, sizeDiff, if_pos hle] at hfd ⊢
    split at hfd
    · cases hfd
    next hlarge =>
      rw [if_neg hlarge]
      refine ⟨hfd, rfl, ?_⟩
      dsimp only
      omega

/-- The lookup gives a payload boundary of the segment. -/
theorem lookup_boundary {c : PartitionContext} {cur : Segment}
    (hindex : c.currentSegmentIndex = cur.index 0) (o : Int64) :
    ∃ before after : Segment, cur = before ++ after ∧
      ((c.lookup o).map SparseIndexEntry.filePosition).getD 0 = before.bytes.length := by
  rcases hlookup : c.lookup o with _ | e
  · exact ⟨[], cur, rfl, rfl⟩
  · obtain ⟨hmem, -⟩ := lookup_spec hlookup
    rw [hindex] at hmem
    obtain ⟨l, d, l', hcur, hpos⟩ := Segment.mem_index hmem
    exact ⟨l, (e.offset, d) :: l', hcur, hpos.trans (Nat.zero_add _)⟩

/-- A context whose size and index are those of the segment. -/
theorem IndexedSegment.of_index {s : PartitionStore} {cur : Segment}
    (hfile : s.currentFile = cur.bytes) (hbytes : s.ctx.currentSegmentBytes = cur.bytes.length)
    (hindex : s.ctx.currentSegmentIndex = cur.index 0)
    (hfd : ∀ name, s.ctx.writeFd = some name →
      name = segmentName s.ctx.currentSegmentBaseOffset)
    (hoffsets : cur.Pairwise fun a b => a.1.toInt < b.1.toInt) (hne : ∀ e ∈ cur, e.2 ≠ []) :
    IndexedSegment cur s where
  file := hfile
  size := by rw [hfile, hbytes]
  index := by rw [hindex, Segment.map_offset_index]
  increasing := by
    rw [hindex]
    exact Segment.pairwise_index hoffsets hne 0
  starts := by
    intro e he
    rw [hindex] at he
    obtain ⟨l, d, l', hcur, hpos⟩ := Segment.mem_index he
    exact ⟨l, d, l', hcur, hpos.trans (Nat.zero_add _)⟩
  splice := by
    intro o maxBytes name _ hname
    obtain ⟨before, after, hcur, hstart⟩ := lookup_boundary hindex o
    have hle : before.bytes.length ≤ s.ctx.currentSegmentBytes := by
      rw [hbytes, hcur, Segment.bytes_append, List.length_append]
      omega
    obtain ⟨hwrite, hoffset, hwithin⟩ := spliceInfo_of_le hstart hle hname
    refine ⟨hfd name hwrite, ⟨before, after, hcur, hoffset⟩, hoffset.trans_le hle, ?_⟩
    rw [hoffset, hfile, ← hbytes]
    exact hwithin

/-- In a store that stands for a log, size and index are in step with the last segment, or
nothing has been stored in the current one. -/
theorem LogInv.indexedSegment {segs : List Segment} {s : PartitionStore} (inv : LogInv segs s)
    (hne : ∀ e ∈ segs.flatten, e.2 ≠ []) :
    ∃ init cur : Segment, segs.flatten = init ++ cur ∧ IndexedSegment cur s := by
  rcases inv.current with ⟨init, cur, rfl, hfd, hbase, hbytes, hindex⟩ |
    ⟨hfd, hbase, hbytes, hindex⟩
  · have hflat : (init ++ [cur]).flatten = init.flatten ++ cur := by simp
    have hoffsets := inv.increasing
    rw [hflat] at hne hoffsets
    have hread := inv.read? (List.mem_append_right init (List.mem_singleton_self cur))
    have hfile : s.currentFile = cur.bytes := by
      rw [PartitionStore.currentFile, hbase, hread]
      rfl
    refine ⟨init.flatten, cur, hflat, .of_index hfile hbytes hindex ?_
      (List.pairwise_append.mp hoffsets).2.1 fun e he => hne e (List.mem_append_right _ he)⟩
    intro name hname
    rw [hbase]
    exact Option.some.inj (hname.symm.trans hfd)
  · -- the segment that the next payload starts has no file yet
    have hfile : s.currentFile = Segment.bytes [] := by
      have hnew := segmentName_not_mem inv.ne_nil inv.below
      rw [← inv.dir, ← hbase, ← Dir.isSome_read?, Option.not_isSome_iff_eq_none] at hnew
      rw [PartitionStore.currentFile, hnew]
      rfl
    refine ⟨segs.flatten, [], (List.append_nil _).symm, .of_index hfile hbytes hindex ?_
      List.Pairwise.nil (by simp)⟩
    intro name hname
    rw [hfd] at hname
    cases hname

/-- **The sparse index.** If payloads have no count or one of at least one, writes are complete
and offsets stay in range, size and index describe the file of the current segment after every
call, and a range to splice starts at a payload and lies in this file. -/
theorem sparseIndex_of_inRange (logRoot topicName : Bytes) (partition : Int32)
    (segmentBytes : ℕ) {run : List LogInput} (ha : ∀ i ∈ run, Admissible i)
    (hr : logMachine.Within InRange (.fresh logRoot topicName partition segmentBytes false) run) :
    SparseIndex (.fresh logRoot topicName partition segmentBytes false) run := by
  rintro pre post rfl
  obtain ⟨segs, inv, hsegs⟩ := LogInv.of_inRange (fun i hi => ha i (List.mem_append_left _ hi))
    (Machine.within_append _ |>.mp hr).1
  obtain ⟨init, cur, hsplit, hindexed⟩ := inv.indexedSegment fun e he =>
    ne_nil_of_mem_stored (hsegs ▸ he)
  exact ⟨init, cur, hsegs.symm.trans hsplit, hindexed⟩

theorem sparseIndex_twoSegments :
    SparseIndex (.fresh (ascii "logs") (ascii "t") 0 100 false) twoSegments :=
  sparseIndex_of_inRange _ _ _ _ (by decide) (by decide)

/-! ### Beyond the range of `int64_t` -/

/-- A payload that goes to the current segment is indexed when its offset is a multiple of
`1000`. -/
theorem index_produce {s : PartitionStore} {env : ProduceEnv} {data : Bytes} {n : Int32}
    (htaken : TakenUp s env data n) (hroll : ¬ s.ctx.Rolls data.length) :
    (s.produce env data).1.ctx.currentSegmentIndex =
      s.ctx.currentSegmentIndex ++
        if s.ctx.nextOffset % 1000 = 0 then [⟨s.ctx.nextOffset, s.ctx.currentSegmentBytes⟩]
        else [] := by
  have hpush : ∀ c : PartitionContext, (c.pushIndex.advance data.length n).currentSegmentIndex =
      c.currentSegmentIndex ++
        if c.nextOffset % 1000 = 0 then [⟨c.nextOffset, c.currentSegmentBytes⟩] else [] := by
    intro c
    rw [advance, pushIndex]
    split
    · rfl
    · exact (List.append_nil _).symm
  rcases produce_cases s env data with ⟨m, c, dir, name, htaken', hsegment, hp⟩ | ⟨hnot, -⟩
  · obtain rfl : n = m := Except.ok.inj (htaken.1.symm.trans htaken'.1)
    rw [PartitionStore.produce, hp]
    refine (hpush c).trans ?_
    cases hsegment with
    | current _ => rfl
    | new =>
      rw [roll_of_not_rolls hroll]
      rfl
  · exact absurd htaken (hnot n)

/-- The index after one more call for a huge count. -/
theorem index_produceHuge (logRoot topicName : Bytes) (partition : Int32) (k : ℕ) :
    (logMachine.exec (.fresh logRoot topicName partition 0 false)
        (List.replicate (k + 1) produceHuge)).ctx.currentSegmentIndex =
      (logMachine.exec (.fresh logRoot topicName partition 0 false)
        (List.replicate k produceHuge)).ctx.currentSegmentIndex ++
      if Int64.ofInt (k * 2147483647) % 1000 = 0 then
        [⟨Int64.ofInt (k * 2147483647),
          (logMachine.exec (.fresh logRoot topicName partition 0 false)
            (List.replicate k produceHuge)).ctx.currentSegmentBytes⟩]
      else [] := by
  have hafter := afterHuge_exec logRoot topicName partition k
  have hroll : ¬ (logMachine.exec (.fresh logRoot topicName partition 0 false)
      (List.replicate k produceHuge)).ctx.Rolls hugeCount.length := fun hr => by
    rw [Rolls, hafter.limit] at hr
    omega
  rw [List.replicate_succ', Machine.exec_append, ← hafter.next]
  exact index_produce ⟨recordBatchCount_hugeCount, rfl, .inr rfl⟩ hroll

/-- The first entry is for offset `0`. -/
theorem exists_index_eq_cons (logRoot topicName : Bytes) (partition : Int32) (k : ℕ) :
    ∃ pos rest, (logMachine.exec (.fresh logRoot topicName partition 0 false)
      (List.replicate (k + 1) produceHuge)).ctx.currentSegmentIndex = ⟨0, pos⟩ :: rest := by
  induction k with
  | zero => exact ⟨0, [], index_produceHuge logRoot topicName partition 0⟩
  | succ k ih =>
    obtain ⟨pos, rest, hindex⟩ := ih
    rw [index_produceHuge, hindex]
    exact ⟨pos, _, rfl⟩

/-- An entry for a negative offset stands behind the one for offset `0`. -/
private theorem not_sparseIndex_replicate {k : ℕ} (hk : 0 < k)
    (hneg : Int64.ofInt (k * 2147483647) < 0) (hmult : Int64.ofInt (k * 2147483647) % 1000 = 0)
    (logRoot topicName : Bytes) (partition : Int32) :
    ¬ SparseIndex (.fresh logRoot topicName partition 0 false)
      (List.replicate (k + 1) produceHuge) := by
  intro h
  obtain ⟨init, cur, -, hindexed⟩ := h _ [] (List.append_nil _).symm
  have hincreasing := hindexed.increasing
  obtain ⟨j, rfl⟩ := Nat.exists_eq_succ_of_ne_zero hk.ne'
  obtain ⟨pos, rest, hfirst⟩ := exists_index_eq_cons logRoot topicName partition j
  rw [index_produceHuge, hfirst, if_pos hmult, List.cons_append, List.pairwise_cons] at hincreasing
  have hlt := (hincreasing.1 _ (List.mem_append_right rest (List.mem_singleton_self _))).1
  exact absurd (Int64.lt_trans hlt hneg) (show ¬ (0 : Int64) < 0 by decide)

/-- **The offsets of the index go back**: the call behind `2 ^ 32 + 232` admissible ones has an
offset below `0` and, being a multiple of `1000`, is indexed behind the first payload. -/
theorem not_sparseIndex_overflow :
    (∀ i ∈ List.replicate (2 ^ 32 + 233) produceHuge, Admissible i) ∧
      ¬ SparseIndex (.fresh (ascii "logs") (ascii "t") 0 0 false)
        (List.replicate (2 ^ 32 + 233) produceHuge) := by
  refine ⟨fun i hi => ?_, ?_⟩
  · rw [List.eq_of_mem_replicate hi]
    decide
  · exact not_sparseIndex_replicate (k := 2 ^ 32 + 232) (by decide) (by decide) (by decide) _ _ _

end TinyKafka
