import TinyKafka.Broker.LogSteps

/-!
# Offsets of a partition

`produce` returns the next offset and advances it by the record count in the payload's
header, a 32-bit field that nobody checks. `sequentialOffsets_iff` says for which runs the
returned offsets increase: exactly those in which every call that is taken up carries a
count of at least one and does not leave the range of `int64_t`. A batch without records,
whose count is zero, already makes the same offset come back (`not_sequentialOffsets_empty`).
-/

namespace TinyKafka

open PartitionContext

/-- The offset a call reports as that of a stored payload. -/
def LogOutput.base? : LogOutput → Option Int64
  | .produced r => if 0 ≤ r.baseOffset then some r.baseOffset else none
  | _ => none

/-- The offsets reported in a history. -/
def bases (h : List (LogInput × LogOutput)) : List Int64 := h.filterMap fun e => e.2.base?

/-- **Offsets never repeat or go back**, over a run from any state: the offsets of the
successful `produce` calls increase, and after each of them the next offset is above the one
it returned. -/
def SequentialOffsets (s : PartitionStore) (run : List LogInput) : Prop :=
  (bases (logMachine.trace s run)).Pairwise (· < ·) ∧
  ∀ pre i post b, run = pre ++ i :: post →
    (logMachine.out (logMachine.exec s pre) i).base? = some b →
    b < (logMachine.next (logMachine.exec s pre) i).ctx.nextOffset

/-- The call is taken up: the payload has a record count `n`, and the segment it goes to is
open or can be opened. -/
def TakenUp (s : PartitionStore) (env : ProduceEnv) (data : Bytes) (n : Int32) : Prop :=
  recordBatchCount data = .ok n ∧ env.createDirs = true ∧
    (¬ s.ctx.Rolls data.length ∧ s.ctx.writeFd ≠ none ∨ env.openSegment = true)

/-- A call that is taken up at an offset that is not negative has a count of at least one
and stays within `int64_t`. -/
def AdvancesForward (s : PartitionStore) : LogInput → Prop
  | .produce env data => ∀ n, TakenUp s env data n → 0 ≤ s.ctx.nextOffset →
      1 ≤ n.toInt ∧ s.ctx.nextOffset.toInt + n.toInt < 2 ^ 63
  | _ => True

/-! ### One call -/

/-- The segment a payload goes to: the current one when it is open and has room, or one that
is opened for it. -/
inductive SegmentFor (s : PartitionStore) (data : Bytes) :
    (c : PartitionContext) → (dir : Dir) → (name : Bytes) → Prop
  | current {name : Bytes} (hfd : s.ctx.writeFd = some name) : SegmentFor s data s.ctx s.dir name
  | new : SegmentFor s data (s.ctx.roll data.length).openCurrent
      (s.dir.create (segmentName (s.ctx.roll data.length).currentSegmentBaseOffset))
      (segmentName (s.ctx.roll data.length).currentSegmentBaseOffset)

/-- A `produce` that is taken up stores the payload in a segment; any other one leaves the
context as it was, except for a roll in front of a segment that does not open. -/
theorem produce_cases (s : PartitionStore) (env : ProduceEnv) (data : Bytes) :
    (∃ n c dir name, TakenUp s env data n ∧ SegmentFor s data c dir name ∧
      s.ctx.produce s.dir env data = c.store dir env name data n) ∨
    (∀ n, ¬ TakenUp s env data n) ∧
      (s.ctx.produce s.dir env data = { ctx := s.ctx, dir := s.dir } ∨
        (∃ n, recordBatchCount data = .ok n) ∧ env.createDirs = true ∧ env.openSegment = false ∧
          s.ctx.produce s.dir env data = { ctx := s.ctx.roll data.length, dir := s.dir }) := by
  have hstep := produceStep s.ctx s.dir env data
  generalize s.ctx.produce s.dir env data = p at hstep
  cases hstep with
  | rejected h =>
    refine .inr ⟨?_, .inl rfl⟩
    rintro n ⟨hn, hdirs, -⟩
    rcases h with ⟨e, he⟩ | h
    · rw [hn] at he
      cases he
    · rw [hdirs] at h
      cases h
  | openFailed n hn hdirs hfd hopen =>
    refine .inr ⟨?_, .inr ⟨⟨n, hn⟩, hdirs, hopen, rfl⟩⟩
    rintro m ⟨-, -, ⟨hroll, hopened⟩ | h⟩
    · rw [roll_of_not_rolls hroll] at hfd
      exact hopened hfd
    · rw [hopen] at h
      cases h
  | appended n name hn hdirs hroll hfd =>
    exact .inl ⟨n, _, _, _, ⟨hn, hdirs, .inl ⟨hroll, by rw [hfd]; simp⟩⟩, .current hfd, rfl⟩
  | opened n hn hdirs hfd hopen =>
    exact .inl ⟨n, _, _, _, ⟨hn, hdirs, .inr hopen⟩, .new, rfl⟩

theorem SegmentFor.nextOffset_eq {s : PartitionStore} {data : Bytes}
    {c : PartitionContext} {dir : Dir} {name : Bytes} (h : SegmentFor s data c dir name) :
    c.nextOffset = s.ctx.nextOffset := by
  cases h with
  | current _ => rfl
  | new => exact nextOffset_roll _ _

/-- A `produce` that is taken up reports the next offset and advances it by the count; any
other one fails and leaves it. -/
theorem produce_offsets (s : PartitionStore) (env : ProduceEnv) (data : Bytes) :
    (∃ n, TakenUp s env data n ∧ (s.produce env data).2.baseOffset = s.ctx.nextOffset ∧
      (s.produce env data).1.ctx.nextOffset = s.ctx.nextOffset + n.toInt64) ∨
    (∀ n, ¬ TakenUp s env data n) ∧ (s.produce env data).2.baseOffset = -1 ∧
      (s.produce env data).1.ctx.nextOffset = s.ctx.nextOffset := by
  rcases produce_cases s env data with
    ⟨n, c, dir, name, htaken, hsegment, hp⟩ | ⟨hnot, hp | ⟨-, -, -, hp⟩⟩
  · refine .inl ⟨n, htaken, ?_⟩
    rw [PartitionStore.produce, hp, ← hsegment.nextOffset_eq]
    simp [store, advance]
  · refine .inr ⟨hnot, ?_⟩
    rw [PartitionStore.produce, hp]
    exact ⟨rfl, rfl⟩
  · refine .inr ⟨hnot, ?_⟩
    rw [PartitionStore.produce, hp]
    exact ⟨rfl, nextOffset_roll _ _⟩

/-- The other calls report no offset and leave the next one. -/
theorem other_offsets (s : PartitionStore) {i : LogInput}
    (hp : ∀ env data, i ≠ .produce env data) :
    (logMachine.out s i).base? = none ∧
      (logMachine.next s i).ctx.nextOffset = s.ctx.nextOffset := by
  refine ⟨?_, ?_⟩
  · cases i with
    | produce env data => exact absurd rfl (hp env data)
    | _ => rfl
  · obtain ⟨fd, hfd⟩ := ctx_next_of_not_produce s hp
    rw [hfd]

theorem toInt_add_toInt64 {a : Int64} {n : Int32} (h0 : 0 ≤ a.toInt) :
    (a + n.toInt64).toInt = if a.toInt + n.toInt < 2 ^ 63 then a.toInt + n.toInt
      else a.toInt + n.toInt - 2 ^ 64 := by
  have ha := a.toInt_lt
  have hn := n.toInt_lt
  have hn' := n.le_toInt
  rw [Int64.toInt_add, Int32.toInt_toInt64]
  split
  · exact Int.bmod_eq_of_le (by omega) (by omega)
  · rw [← Int.sub_bmod_right, Int.bmod_eq_of_le (by omega) (by omega)]
    norm_num

/-- A reported offset is the next one. -/
theorem base?_eq_some {s : PartitionStore} {i : LogInput} {b : Int64}
    (hb : (logMachine.out s i).base? = some b) : 0 ≤ b ∧ b = s.ctx.nextOffset := by
  by_cases hp : ∃ env data, i = .produce env data
  · obtain ⟨env, data, rfl⟩ := hp
    rw [out_produce, LogOutput.base?] at hb
    rcases produce_offsets s env data with ⟨n, -, hbase, -⟩ | ⟨-, hbase, -⟩
    · rw [hbase] at hb
      obtain ⟨h0, rfl⟩ : 0 ≤ s.ctx.nextOffset ∧ s.ctx.nextOffset = b := by simpa using hb
      exact ⟨h0, rfl⟩
    · rw [hbase] at hb
      exact absurd hb (by simp)
  · rw [(other_offsets s fun env data he => hp ⟨env, data, he⟩).1] at hb
    cases hb

/-- A call that reports nothing leaves a next offset that is not negative. -/
theorem nextOffset_of_base?_none {s : PartitionStore} {i : LogInput}
    (hb : (logMachine.out s i).base? = none) (h0 : 0 ≤ s.ctx.nextOffset) :
    (logMachine.next s i).ctx.nextOffset = s.ctx.nextOffset := by
  by_cases hp : ∃ env data, i = .produce env data
  · obtain ⟨env, data, rfl⟩ := hp
    rcases produce_offsets s env data with ⟨n, -, hbase, -⟩ | ⟨-, -, hsame⟩
    · rw [out_produce, LogOutput.base?, hbase, if_pos h0] at hb
      cases hb
    · exact hsame
  · exact (other_offsets s fun env data he => hp ⟨env, data, he⟩).2

/-- For one successful call, advancing forward is the same as ending above the offset it
returned. -/
theorem advancesForward_iff (s : PartitionStore) (i : LogInput) :
    AdvancesForward s i ↔ ∀ b, (logMachine.out s i).base? = some b →
      b < (logMachine.next s i).ctx.nextOffset := by
  by_cases hp : ∃ env data, i = .produce env data
  · obtain ⟨env, data, rfl⟩ := hp
    rw [out_produce, next_produce, LogOutput.base?]
    rcases produce_offsets s env data with ⟨n, htaken, hbase, hadv⟩ | ⟨hnot, hbase, -⟩
    · rw [hbase, hadv]
      have hle : (0 : Int64) ≤ s.ctx.nextOffset ↔ 0 ≤ s.ctx.nextOffset.toInt := by
        rw [Int64.le_iff_toInt_le, Int64.toInt_zero]
      constructor
      · intro h b hb
        obtain ⟨h0, rfl⟩ : 0 ≤ s.ctx.nextOffset ∧ s.ctx.nextOffset = b := by simpa using hb
        obtain ⟨hn, hlt⟩ := h n htaken h0
        rw [Int64.lt_iff_toInt_lt, toInt_add_toInt64 (hle.mp h0), if_pos hlt]
        omega
      · intro h m htaken' h0
        obtain rfl : n = m := Except.ok.inj (htaken.1.symm.trans htaken'.1)
        have hlt := h s.ctx.nextOffset (if_pos h0)
        have hmax := s.ctx.nextOffset.toInt_lt
        have hn := n.toInt_lt
        rw [Int64.lt_iff_toInt_lt, toInt_add_toInt64 (hle.mp h0)] at hlt
        -- a sum that wraps around is below the base offset
        split at hlt
        · omega
        · omega
    · rw [hbase]
      constructor
      · intro _ b hb
        exact absurd hb (by simp)
      · intro _ n htaken
        exact absurd htaken (hnot n)
  · have hp' : ∀ env data, i ≠ .produce env data := fun env data he => hp ⟨env, data, he⟩
    rw [(other_offsets s hp').1]
    constructor
    · exact fun _ b hb => nomatch hb
    · intro _
      cases i with
      | produce env data => exact absurd rfl (hp' env data)
      | _ => trivial

/-! ### Runs -/

theorem bases_concat (h : List (LogInput × LogOutput)) (e : LogInput × LogOutput) :
    bases (h ++ [e]) = bases h ++ e.2.base?.toList := by
  rw [bases, bases, List.filterMap_append, List.filterMap_cons]
  cases e.2.base? <;> rfl

/-- What the next offset says about the history: the reported offsets increase up to it. -/
def OffsetsBelow (h : List (LogInput × LogOutput)) (s : PartitionStore) : Prop :=
  (bases h).Pairwise (· < ·) ∧ ∀ b ∈ bases h, 0 ≤ b ∧ b < s.ctx.nextOffset

theorem OffsetsBelow.step {h : List (LogInput × LogOutput)} {s : PartitionStore} {i : LogInput}
    (hinv : OffsetsBelow h s) (hok : AdvancesForward s i) :
    OffsetsBelow (h ++ [(i, logMachine.out s i)]) (logMachine.next s i) := by
  have hforward := (advancesForward_iff s i).mp hok
  rw [OffsetsBelow, bases_concat]
  rcases hb : (logMachine.out s i).base? with _ | b
  · -- an offset in the history keeps the next one from being negative
    rw [Option.toList_none, List.append_nil]
    refine ⟨hinv.1, fun b hmem => ?_⟩
    obtain ⟨h0, hlt⟩ := hinv.2 b hmem
    rw [nextOffset_of_base?_none hb (Int64.le_of_lt (Int64.lt_of_le_of_lt h0 hlt))]
    exact ⟨h0, hlt⟩
  · obtain ⟨h0, rfl⟩ := base?_eq_some hb
    have hlt := hforward _ hb
    rw [Option.toList_some]
    refine ⟨?_, fun b hmem => ?_⟩
    · rw [List.pairwise_append]
      refine ⟨hinv.1, List.pairwise_singleton _ _, fun b hmem b' hmem' => ?_⟩
      rw [List.mem_singleton.mp hmem']
      exact (hinv.2 b hmem).2
    · rcases List.mem_append.mp hmem with hmem | hmem
      · exact ⟨(hinv.2 b hmem).1, Int64.lt_trans (hinv.2 b hmem).2 hlt⟩
      · rw [List.mem_singleton.mp hmem]
        exact ⟨h0, hlt⟩

/-- The offsets of a run never repeat or go back exactly when every call that is taken up has
a record count of at least one and stays within the range of `int64_t`. -/
theorem sequentialOffsets_iff (s : PartitionStore) (run : List LogInput) :
    SequentialOffsets s run ↔ logMachine.Within AdvancesForward s run := by
  constructor
  · rintro ⟨-, h⟩
    refine Machine.within_iff _ |>.mpr fun pre i post he => ?_
    exact (advancesForward_iff _ i).mpr fun b hb => h pre i post b he hb
  · intro hw
    refine ⟨?_, fun pre i post b he hb => ?_⟩
    · have hinit : OffsetsBelow [] s := ⟨List.Pairwise.nil, nofun⟩
      have hrun := Machine.invariant_trace (fun _ _ _ => OffsetsBelow.step) hinit hw
      exact hrun.1
    · have hok := (Machine.within_iff _ |>.mp hw) pre i post he
      exact (advancesForward_iff _ i).mp hok b hb

/-- Two batches without records, the encoder's own output for an empty list of values. -/
def emptyBatches : List LogInput :=
  let data := makeRecordBatchV2 []
  [.produce { written := data.length } data, .produce { written := data.length } data]

/-- **An offset comes back**: both calls return offset `0`. -/
theorem not_sequentialOffsets_empty :
    ¬ SequentialOffsets (.fresh (ascii "logs") (ascii "t") 0 0 false) emptyBatches := by
  rintro ⟨h, -⟩
  exact absurd h (by decide)

end TinyKafka
