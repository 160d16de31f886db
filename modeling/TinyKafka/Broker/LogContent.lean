import TinyKafka.Broker.SegmentedLog

/-!
# The content of a partition log

`fetch()` returns the concatenation of the stored payloads, the segment files are named by
the offset of their first payload, in increasing order, and respect the size limit
(`logContent_of_inRange`). This is the log of `LogInv` read off the directory.

It needs the offsets to stay within `int64_t`. Beyond that the next offset turns negative,
and a `produce` that reports a negative offset counts as failed although its payload has been
written: after enough calls `fetch()` returns more than the successful ones stored
(`not_logContent_overflow`).
-/

namespace TinyKafka

open PartitionContext

/-- **Partition log content**, after every step of a run from the store `s₀`: `fetch()`
returns the stored payloads in call order; the directory holds the files of non-empty
segments that make up these payloads, with increasing base offsets, each file named by the
offset of its first payload; and with a size limit a segment beyond it holds a single
payload. -/
def LogContent (s₀ : PartitionStore) (run : List LogInput) : Prop :=
  ∀ pre post, run = pre ++ post →
    logMachine.out (logMachine.exec s₀ pre) .fetchAll =
        .fetchedAll (some ((stored (logMachine.trace s₀ pre)).flatMap Prod.snd)) ∧
      ∃ segs : List Segment,
        segs.flatten = stored (logMachine.trace s₀ pre) ∧
        (∀ g ∈ segs, g ≠ []) ∧
        (logMachine.exec s₀ pre).dir = segs.map Segment.file ∧
        (segs.map fun g => g.base.toInt).Pairwise (· < ·) ∧
        (0 < s₀.ctx.segmentBytes →
          ∀ g ∈ segs, g.bytes.length ≤ s₀.ctx.segmentBytes ∨ g.length = 1)

/-- The record count of a payload that has one. -/
def countOf (data : Bytes) : Option ℤ := (recordBatchCount data).toOption.map Int32.toInt

theorem countOf_eq_some {data : Bytes} {n : Int32} (h : recordBatchCount data = .ok n) :
    countOf data = some n.toInt := by
  rw [countOf, h]
  rfl

/-- The payload of a `produce` fails `record_batch_count` or passes it with a count of at
least one, and its write is complete. -/
def Admissible : LogInput → Prop
  | .produce env data => data.length ≤ env.written ∧ ∀ n ∈ countOf data, 1 ≤ n
  | _ => True

instance : DecidablePred Admissible
  | .produce _ _ => inferInstanceAs (Decidable (_ ∧ _))
  | .fetchAll | .fetch _ _ _ | .spliceInfo _ _ | .fileFd _ | .complete _ _ => .isTrue trivial

/-- The offset after the payload is in the range of `int64_t`. -/
def InRange (s : PartitionStore) : LogInput → Prop
  | .produce _ data => ∀ n ∈ countOf data, s.ctx.nextOffset.toInt + n < 2 ^ 63
  | _ => True

instance (s : PartitionStore) : DecidablePred (InRange s)
  | .produce _ _ => inferInstanceAs (Decidable (∀ n ∈ _, _))
  | .fetchAll | .fetch _ _ _ | .spliceInfo _ _ | .fileFd _ | .complete _ _ => .isTrue trivial

theorem advancesForward_of_inRange {s : PartitionStore} {i : LogInput} (ha : Admissible i)
    (hr : InRange s i) : AdvancesForward s i := by
  cases i with
  | produce env data =>
    intro n htaken _
    have hcount := countOf_eq_some htaken.1
    exact ⟨ha.2 n.toInt hcount, hr n.toInt hcount⟩
  | _ => trivial

/-- The base offsets of segments increase with the offsets in them. -/
theorem pairwise_base {segs : List Segment} (hne : ∀ g ∈ segs, g ≠ [])
    (h : segs.flatten.Pairwise fun a b => a.1.toInt < b.1.toInt) :
    (segs.map fun g => g.base.toInt).Pairwise (· < ·) := by
  rw [List.pairwise_map]
  refine (List.pairwise_flatten.mp h).2.imp_of_mem fun {g g'} hg hg' hlt => ?_
  obtain ⟨e, he, hbase⟩ := Segment.base_mem (hne g hg)
  obtain ⟨e', he', hbase'⟩ := Segment.base_mem (hne g' hg')
  rw [← hbase, ← hbase']
  exact hlt e he e' he'

/-- `fetch()` on the directory of a log. -/
theorem LogInv.readTopicLog {segs : List Segment} {s : PartitionStore} (inv : LogInv segs s) :
    readTopicLog s.dir = some (segs.flatten.flatMap Prod.snd) := by
  have hsorted : (segs.map fun g => (g.base, g.bytes)).Pairwise
      fun a b => a.1.toInt < b.1.toInt := by
    have h := pairwise_base inv.ne_nil inv.increasing
    rw [List.pairwise_map] at h ⊢
    exact h
  have hread := readTopicLog_segments hsorted
  rw [List.map_map] at hread
  have hdir : s.dir = segs.map ((fun e : Int64 × Bytes => (segmentName e.1, e.2)) ∘
      fun g : Segment => (g.base, g.bytes)) := inv.dir
  rw [hdir, hread, List.flatMap_map]
  congr 1
  rw [List.flatMap_def, List.flatMap_def, List.map_flatten, List.flatten_flatten, List.map_map]
  rfl

/-- The invariant of the log after admissible calls within the range of offsets. -/
theorem LogInv.of_inRange {logRoot topicName : Bytes} {partition : Int32} {segmentBytes : ℕ}
    {run : List LogInput} (ha : ∀ i ∈ run, Admissible i)
    (hr : logMachine.Within InRange (.fresh logRoot topicName partition segmentBytes false) run) :
    ∃ segs, LogInv segs
        (logMachine.exec (.fresh logRoot topicName partition segmentBytes false) run) ∧
      segs.flatten = stored
        (logMachine.trace (.fresh logRoot topicName partition segmentBytes false) run) := by
  refine LogInv.of_run (Machine.within_iff _ |>.mpr fun pre i post he => ?_)
  have hi : Admissible i := ha i (by simp [he])
  refine ⟨?_, advancesForward_of_inRange hi ((Machine.within_iff _ |>.mp hr) pre i post he)⟩
  cases i with
  | produce env data => exact hi.1
  | _ => trivial

/-- If payloads have no count or one of at least one, writes are complete and offsets stay in
range, the log holds exactly what was stored. -/
theorem logContent_of_inRange (logRoot topicName : Bytes) (partition : Int32)
    (segmentBytes : ℕ) {run : List LogInput} (ha : ∀ i ∈ run, Admissible i)
    (hr : logMachine.Within InRange (.fresh logRoot topicName partition segmentBytes false) run) :
    LogContent (.fresh logRoot topicName partition segmentBytes false) run := by
  rintro pre post rfl
  obtain ⟨segs, inv, hsegs⟩ := LogInv.of_inRange (fun i hi => ha i (List.mem_append_left _ hi))
    (Machine.within_append _ |>.mp hr).1
  refine ⟨?_, segs, hsegs, inv.ne_nil, inv.dir, pairwise_base inv.ne_nil inv.increasing, ?_⟩
  · rw [← hsegs, ← inv.readTopicLog]
    rfl
  · have hsb := segmentBytes_exec
      (.fresh logRoot topicName partition segmentBytes false) pre
    rw [← hsb]
    exact inv.size

/-- Two batches of two records into segments of 100 bytes, a payload without a record count
and a `fetch()`. -/
def twoSegments : List LogInput :=
  let data := makeRecordBatchV2 [[1], [2, 3]]
  [.produce { written := 100 } data, .produce { written := 100 } [7],
   .produce { written := 100 } data, .fetchAll]

theorem logContent_twoSegments :
    (∀ i ∈ twoSegments, Admissible i) ∧
      logMachine.Within InRange (.fresh (ascii "logs") (ascii "t") 0 100 false) twoSegments ∧
      LogContent (.fresh (ascii "logs") (ascii "t") 0 100 false) twoSegments :=
  ⟨by decide, by decide, logContent_of_inRange _ _ _ _ (by decide) (by decide)⟩

/-! ### Beyond the range of `int64_t` -/

/-- A payload of 28 bytes whose header claims `2 ^ 31 - 1` records. -/
def hugeCount : Bytes := makeBatchHeader 0 2147483646 ++ [0]

/-- The call that stores it. -/
def produceHuge : LogInput := .produce { written := 28 } hugeCount

theorem recordBatchCount_hugeCount : recordBatchCount hugeCount = .ok 2147483647 := by
  decide

/-- The store after `k` such calls without a size limit: one segment with all of them, and
the next offset as `int64_t` arithmetic has it. -/
structure AfterHuge (k : ℕ) (s : PartitionStore) : Prop where
  ring : s.ctx.ring = false
  limit : s.ctx.segmentBytes = 0
  base : s.ctx.currentSegmentBaseOffset = 0
  next : s.ctx.nextOffset = Int64.ofInt (k * 2147483647)
  file : s.ctx.writeFd = none ∧ s.dir = [] ∧ k = 0 ∨
    s.ctx.writeFd = some (segmentName 0) ∧
      ∃ content : Bytes, s.dir = [(segmentName 0, content)] ∧ content.length = 28 * k

theorem AfterHuge.nextOffset_add {k : ℕ} {s : PartitionStore} (h : AfterHuge k s) :
    s.ctx.nextOffset + (2147483647 : Int32).toInt64 =
      Int64.ofInt ((k + 1 : ℕ) * 2147483647) := by
  have hone : (2147483647 : Int32).toInt64 = Int64.ofInt 2147483647 := by decide
  rw [h.next, hone, ← Int64.ofInt_add, Nat.cast_succ, Int.add_mul, Int.one_mul]

/-- The payload goes to the end of the one segment. -/
theorem AfterHuge.stored {k : ℕ} {s : PartitionStore} (h : AfterHuge k s)
    (hfd : s.ctx.writeFd = some (segmentName 0)) (inFlight : List Submission) :
    AfterHuge (k + 1)
      ⟨(store s.ctx s.dir { written := 28 } (segmentName 0) hugeCount 2147483647).ctx,
        (store s.ctx s.dir { written := 28 } (segmentName 0) hugeCount 2147483647).dir,
        inFlight⟩ := by
  have hdata : hugeCount.take 28 = hugeCount := by decide
  have hlen : hugeCount.length = 28 := by decide
  obtain ⟨hring, hsb, hwfd, hwbase⟩ := store_frame s.ctx s.dir { written := 28 } (segmentName 0)
    hugeCount 2147483647
  rcases h.file with ⟨hclosed, -⟩ | ⟨-, content, hdir, hcontent⟩
  · rw [hclosed] at hfd
    cases hfd
  · refine ⟨hring.trans h.ring, hsb.trans h.limit, hwbase.trans h.base, ?_, .inr
      ⟨hwfd.trans hfd, content ++ hugeCount, ?_, ?_⟩⟩
    · simpa [store, advance] using h.nextOffset_add
    · have hnew : segmentName 0 ∉ ([] : Dir).map Prod.fst := by simp
      have happend := Dir.append_last hnew content hugeCount
      simp only [store, writePayload, h.ring, hdir, hdata]
      simpa using happend
    · rw [List.length_append, hcontent, hlen]
      ring

/-- The first call creates the segment. -/
theorem AfterHuge.opened {k : ℕ} {s : PartitionStore} (h : AfterHuge k s)
    (hfd : s.ctx.writeFd = none) :
    AfterHuge k ⟨s.ctx.openCurrent, s.dir.create (segmentName 0), s.inFlight⟩ := by
  rcases h.file with ⟨-, hdir, rfl⟩ | ⟨hopen, -⟩
  · refine ⟨h.ring, h.limit, h.base, h.next, .inr ⟨?_, [], ?_, rfl⟩⟩
    · rw [openCurrent, h.base]
    · have hnew : segmentName 0 ∉ ([] : Dir).map Prod.fst := by simp
      rw [hdir, Dir.create_new hnew]
      rfl
  · rw [hopen] at hfd
    cases hfd

theorem AfterHuge.step {k : ℕ} {s : PartitionStore} (h : AfterHuge k s) :
    AfterHuge (k + 1) (logMachine.next s produceHuge) := by
  have hnot : ¬ s.ctx.Rolls hugeCount.length := fun hr => by
    rw [Rolls, h.limit] at hr
    omega
  have hctx : logMachine.next s produceHuge =
      ⟨(s.ctx.produce s.dir { written := 28 } hugeCount).ctx,
        (s.ctx.produce s.dir { written := 28 } hugeCount).dir,
        s.inFlight ++ (s.ctx.produce s.dir { written := 28 } hugeCount).submission.toList⟩ := rfl
  have hstep := produceStep s.ctx s.dir { written := 28 } hugeCount
  rw [hctx]
  generalize s.ctx.produce s.dir { written := 28 } hugeCount = p at hstep
  cases hstep with
  | rejected hrej =>
    rcases hrej with ⟨e, he⟩ | hdirs
    · rw [recordBatchCount_hugeCount] at he
      cases he
    · cases hdirs
  | openFailed n hn hdirs hfd hopen => cases hopen
  | appended n name hn hdirs hroll hfd =>
    obtain rfl : (2147483647 : Int32) = n :=
      Except.ok.inj (recordBatchCount_hugeCount.symm.trans hn)
    obtain rfl : name = segmentName 0 := by
      rcases h.file with ⟨hclosed, -⟩ | ⟨hopen, -⟩
      · rw [hclosed] at hfd
        cases hfd
      · exact Option.some.inj (hfd.symm.trans hopen)
    exact h.stored hfd _
  | opened n hn hdirs hfd hopen =>
    obtain rfl : (2147483647 : Int32) = n :=
      Except.ok.inj (recordBatchCount_hugeCount.symm.trans hn)
    rw [roll_of_not_rolls hnot] at hfd ⊢
    rw [h.base]
    refine (h.opened hfd).stored ?_ _
    rw [openCurrent, h.base]

theorem afterHuge_exec (logRoot topicName : Bytes) (partition : Int32) (k : ℕ) :
    AfterHuge k (logMachine.exec (.fresh logRoot topicName partition 0 false)
      (List.replicate k produceHuge)) := by
  induction k with
  | zero => exact ⟨rfl, rfl, rfl, rfl, .inl ⟨rfl, rfl, rfl⟩⟩
  | succ k ih =>
    rw [List.replicate_succ', Machine.exec_append]
    exact ih.step

/-- The call is always taken up; it counts as stored when the next offset is not negative. -/
theorem stored?_produceHuge (s : PartitionStore) :
    LogInput.stored? (produceHuge, logMachine.out s produceHuge) =
      if 0 ≤ s.ctx.nextOffset then some (s.ctx.nextOffset, hugeCount) else none := by
  have hout : logMachine.out s produceHuge =
      .produced (s.produce { written := 28 } hugeCount).2 := rfl
  rcases produce_offsets s { written := 28 } hugeCount with ⟨n, -, hbase, -⟩ | ⟨hnot, -⟩
  · rw [hout, produceHuge, LogInput.stored?, LogOutput.base?, hbase]
    split <;> rfl
  · exact absurd ⟨recordBatchCount_hugeCount, rfl, .inr rfl⟩ (hnot 2147483647)

/-- While the offsets are in range, `k` calls store `28 * k` bytes. -/
theorem length_storedHuge (logRoot topicName : Bytes) (partition : Int32) {k : ℕ}
    (hk : k * 2147483647 < 2 ^ 63 + 2147483647) :
    ((stored (logMachine.trace (.fresh logRoot topicName partition 0 false)
      (List.replicate k produceHuge))).flatMap Prod.snd).length = 28 * k := by
  induction k with
  | zero => rfl
  | succ k ih =>
    have hnext := (afterHuge_exec logRoot topicName partition k).next
    have hpos : 0 ≤ Int64.ofInt (k * 2147483647) := by
      rw [Int64.le_iff_toInt_le, Int64.toInt_ofInt_of_le (by omega) (by omega), Int64.toInt_zero]
      omega
    have hlen : hugeCount.length = 28 := by decide
    have hk' := lt_of_le_of_lt (Nat.mul_le_mul_right 2147483647 (Nat.le_succ k)) hk
    rw [List.replicate_succ', Machine.trace_append, Machine.trace_cons, Machine.trace_nil,
      stored_concat, stored?_produceHuge, hnext, if_pos hpos, Option.toList_some,
      List.flatMap_append, List.length_append, ih hk', List.flatMap_singleton, hlen]
    ring

/-- The call after the next offset has turned negative writes its payload without storing
it. -/
private theorem not_logContent_replicate {k : ℕ} (hk : k * 2147483647 < 2 ^ 63 + 2147483647)
    (hneg : 2 ^ 63 ≤ k * 2147483647) (logRoot topicName : Bytes) (partition : Int32) :
    ¬ LogContent (.fresh logRoot topicName partition 0 false)
      (List.replicate (k + 1) produceHuge) := by
  intro h
  obtain ⟨hfetch, -⟩ := h (List.replicate (k + 1) produceHuge) [] (List.append_nil _).symm
  have hafter := afterHuge_exec logRoot topicName partition (k + 1)
  obtain ⟨content, hdir, hcontent⟩ : ∃ content : Bytes,
      (logMachine.exec (.fresh logRoot topicName partition 0 false)
        (List.replicate (k + 1) produceHuge)).dir = [(segmentName 0, content)] ∧
        content.length = 28 * (k + 1) := by
    rcases hafter.file with ⟨-, -, hzero⟩ | ⟨-, h⟩
    · omega
    · exact h
  have hread : readTopicLog [(segmentName 0, content)] = some content := by
    have h := readTopicLog_segments (List.pairwise_singleton _ ((0 : Int64), content))
    simpa using h
  have hnext := (afterHuge_exec logRoot topicName partition k).next
  -- the last call reports a negative base offset, which counts as a failure
  have hlt : ¬ 0 ≤ Int64.ofInt (k * 2147483647) := by
    have hsize : Int64.size = 2 ^ 64 := rfl
    rw [Int64.le_iff_toInt_le, Int64.toInt_ofInt, Int64.toInt_zero, hsize, ← Int.sub_bmod_right,
      Int.bmod_eq_of_le (by omega) (by omega)]
    omega
  have hout : logMachine.out (logMachine.exec (.fresh logRoot topicName partition 0 false)
      (List.replicate (k + 1) produceHuge)) .fetchAll = .fetchedAll (some content) := by
    rw [← hread, ← hdir]
    rfl
  rw [hout, List.replicate_succ', Machine.trace_append, Machine.trace_cons, Machine.trace_nil,
    stored_concat, stored?_produceHuge, hnext, if_neg hlt, Option.toList_none,
    List.append_nil] at hfetch
  have hsame := Option.some.inj (LogOutput.fetchedAll.inj hfetch)
  have hlen := length_storedHuge logRoot topicName partition hk
  rw [← hsame, hcontent] at hlen
  omega

/-- **More than was stored**: after `2 ^ 32 + 4` admissible calls `fetch()` returns a payload
that no successful call stored. -/
theorem not_logContent_overflow :
    (∀ i ∈ List.replicate (2 ^ 32 + 4) produceHuge, Admissible i) ∧
      ¬ LogContent (.fresh (ascii "logs") (ascii "t") 0 0 false)
        (List.replicate (2 ^ 32 + 4) produceHuge) := by
  refine ⟨fun i hi => ?_, ?_⟩
  · rw [List.eq_of_mem_replicate hi]
    decide
  · have hcall : 2 ^ 32 + 4 = 2 ^ 32 + 3 + 1 := rfl
    rw [hcall]
    exact not_logContent_replicate (by norm_num) (by norm_num) _ _ _

end TinyKafka
