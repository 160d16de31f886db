import TinyKafka.Broker.LogFetch

/-!
# Splicing in place of fetching

When the current segment has 64 KiB or more from the position of an offset on, `handle_fetch`
does not call `fetch` but has the file spliced to the socket. What is spliced are the bytes of
the segment file, batch headers included. What `fetch` returns are the values in the batches,
or the bytes of the file when its window holds no complete batch. So the two agree when the
batch at the position is longer than the window (`zeroCopyAgrees_of_torn`), and in general they
do not: with a batch that the window holds, the splice begins with the header and the fetch
with the first value (`not_zeroCopyAgrees_largeValue`).
-/

namespace TinyKafka

open PartitionContext

/-- If `splice_info` offers a file, the range it gives has the bytes that `fetch` returns. -/
def ZeroCopyAgrees (s : PartitionStore) (o : Int64) (maxBytes : Int32) : Prop :=
  let info := s.ctx.spliceInfo o maxBytes
  ∀ name ∈ info.fd, ∃ file, s.dir.read? name = some file ∧
    (s.ctx.fetch s.dir o maxBytes true).2 = .ok ((file.drop info.fileOffset).take info.length)

/-- A `produce` of a payload that begins with a complete batch and has a positive count; the
write is complete. -/
def ProducesBatch : LogInput → Prop
  | .produce env data =>
    data.length ≤ env.written ∧ StartsComplete data ∧ ∃ n ∈ countOf data, 1 ≤ n
  | _ => False

/-- The offset has an index entry in the current segment, and the batch there is longer than
the window of the fetch; the limit of the window does not cut the fetch short. -/
def TornWindow (h : List (LogInput × LogOutput)) (s : PartitionStore) (o : Int64)
    (maxBytes : Int32) : Prop :=
  maxBytes.toInt ≤ maxFetchChunk ∧ ∃ e, s.ctx.lookup o = some e ∧
    ∀ x ∈ stored h, x.1 = e.offset → readLimit maxBytes.toInt.toNat < batchSize x.2

/-! ### A torn window is not decoded -/

/-- The length field is within the first twelve bytes. -/
theorem batchLength_take {data : Bytes} {n : ℕ} (h : 12 ≤ n) :
    batchLength (data.take n) = batchLength data := by
  rw [batchLength, batchLength, List.drop_take, List.take_take, Nat.min_eq_left (by omega)]

theorem batchSize_append {data rest : Bytes} (h : 12 ≤ data.length) :
    batchSize (data ++ rest) = batchSize data := by
  rw [batchSize, ← batchLength_take (n := 12) le_rfl, List.take_append_of_le_length h,
    batchLength_take le_rfl, batchSize]

theorem not_startsComplete_take {data : Bytes} {limit : ℕ} (h : limit < batchSize data) :
    ¬ StartsComplete (data.take limit) := by
  intro hcomplete
  have hprefix := hcomplete.prefix_le
  have hsize := hcomplete.size_le
  rw [List.length_take] at hprefix hsize
  rw [batchSize, batchLength_take (by omega), ← batchSize] at hsize
  omega

/-- `fetch` returns the bytes of a window without a complete batch. -/
theorem fetchRecords_torn {raw : Bytes} (h : ¬ StartsComplete raw) (skip : Int64) (maxBytes : ℕ) :
    fetchRecords raw skip maxBytes = .ok (raw.take maxBytes) := by
  have hparse : parseRecordBatch raw = .error (.errc .messageSize) := by
    rw [parseRecordBatch, parseBatches_of_not_startsComplete h]
    rfl
  rw [fetchRecords, hparse]

/-! ### The states after produce calls -/

/-- `produce` opens no read descriptor. -/
theorem readFd_produce {c : PartitionContext} (h : c.readFd = none) (dir : Dir)
    (env : ProduceEnv) (data : Bytes) : (c.produce dir env data).ctx.readFd = none := by
  have hroll (n : ℕ) : (c.roll n).readFd = none := by
    rw [roll]
    split
    · rfl
    · exact h
  have hstore (c : PartitionContext) (dir : Dir) (name : Bytes) (n : Int32) :
      (c.store dir env name data n).ctx.readFd = c.readFd := by
    obtain ⟨entries, hindex⟩ := pushIndex_eq c
    rw [store, advance, hindex]
  have hstep := produceStep c dir env data
  generalize c.produce dir env data = p at hstep ⊢
  cases hstep with
  | rejected => exact h
  | openFailed => exact hroll _
  | appended => rw [hstore, h]
  | opened =>
    rw [hstore, openCurrent]
    exact hroll _

theorem readFd_exec (s₀ : PartitionStore) (h : s₀.ctx.readFd = none) {run : List LogInput}
    (hrun : ∀ i ∈ run, ProducesBatch i) : (logMachine.exec s₀ run).ctx.readFd = none := by
  have hw : logMachine.Within (fun _ i => ProducesBatch i) s₀ run :=
    Machine.within_iff _ |>.mpr fun pre i post he => hrun i (by simp [he])
  have hstep (s : PartitionStore) (i : LogInput) (hs : s.ctx.readFd = none)
      (hi : ProducesBatch i) : (logMachine.next s i).ctx.readFd = none := by
    cases i with
    | produce env data => exact readFd_produce hs s.dir env data
    | _ => exact absurd hi id
  exact Machine.invariant_exec hstep h hw

theorem ProducesBatch.admissible {i : LogInput} (h : ProducesBatch i) : Admissible i := by
  cases i with
  | produce env data =>
    obtain ⟨hwritten, -, n, hn, hpos⟩ := h
    exact ⟨hwritten, fun m hm => Option.mem_unique hn hm ▸ hpos⟩
  | _ => trivial

/-- What is stored was in a call. -/
theorem exists_produce_of_mem_stored {s₀ : PartitionStore} {run : List LogInput}
    {x : Int64 × Bytes} (hx : x ∈ stored (logMachine.trace s₀ run)) :
    ∃ env, .produce env x.2 ∈ run := by
  obtain ⟨⟨i, out⟩, hmem, hstored⟩ := List.mem_filterMap.mp hx
  have hi : i ∈ run := by
    rw [← Machine.map_fst_trace logMachine s₀ run]
    exact List.mem_map_of_mem hmem
  cases i with
  | produce env data =>
    obtain ⟨base, -, rfl⟩ := Option.map_eq_some_iff.mp hstored
    exact ⟨env, hi⟩
  | _ => cases hstored

/-- An index entry is at a payload of the current segment, which is open for writing. -/
theorem LogInv.indexed {segs : List Segment} {s : PartitionStore} (inv : LogInv segs s) {o : Int64}
    {e : SparseIndexEntry} (hlookup : s.ctx.lookup o = some e) :
    ∃ cur ∈ segs, s.ctx.writeFd = some (segmentName cur.base) ∧
      s.ctx.currentSegmentBaseOffset = cur.base ∧ s.ctx.currentSegmentBytes = cur.bytes.length ∧
      e.filePosition ≤ cur.bytes.length ∧ ∃ d rest, (e.offset, d) ∈ segs.flatten ∧
        cur.bytes.drop e.filePosition = d ++ rest := by
  obtain ⟨hmem, -⟩ := lookup_spec hlookup
  rcases inv.current with ⟨init, cur, rfl, hfd, hbase, hbytes, hindex⟩ | ⟨-, -, -, hindex⟩
  · rw [hindex] at hmem
    obtain ⟨l, d, l', hcur, hpos⟩ := Segment.mem_index hmem
    rw [Nat.zero_add] at hpos
    have hsplit : cur.bytes = l.bytes ++ (d ++ Segment.bytes l') := by
      rw [hcur, Segment.bytes_append]
      rfl
    refine ⟨cur, List.mem_append_right init (List.mem_singleton_self cur), hfd, hbase, hbytes,
      ?_, d, Segment.bytes l', ?_, ?_⟩
    · rw [hpos, hsplit, List.length_append]
      omega
    · rw [hcur]
      simp
    · rw [hpos, hsplit, List.drop_left]
  · rw [hindex] at hmem
    cases hmem

/-! ### The two ways of serving -/

/-- A positive limit, as a `size_t`. -/
theorem toNat_maxBytes {maxBytes : Int32} (hmax : 0 < maxBytes.toInt) :
    (maxBytes.toInt % 2 ^ 64).toNat = maxBytes.toInt.toNat := by
  have hlt := maxBytes.toInt_lt
  rw [Int.emod_eq_of_lt (by omega) (by omega)]

/-- The spliced range, when the current segment is known. -/
theorem spliceInfo_eq {c : PartitionContext} {name file : Bytes} {o : Int64} {maxBytes : Int32}
    {e : SparseIndexEntry} (hfd : c.writeFd = some name)
    (hbytes : c.currentSegmentBytes = file.length) (hlookup : c.lookup o = some e)
    (hstart : e.filePosition ≤ file.length) (hmax : 0 < maxBytes.toInt)
    (hoffered : (c.spliceInfo o maxBytes).fd ≠ none) :
    65536 ≤ (file.drop e.filePosition).length ∧
      c.spliceInfo o maxBytes = ⟨some name, e.filePosition,
        min (file.drop e.filePosition).length maxBytes.toInt.toNat⟩ := by
  have hsize : sizeDiff c.currentSegmentBytes e.filePosition =
      (file.drop e.filePosition).length := by
    rw [sizeDiff, hbytes, if_pos hstart, List.length_drop]
  rw [spliceInfo, hfd, hlookup] at hoffered ⊢
  simp only [Option.map_some, Option.getD_some, hsize, toNat_maxBytes hmax] at hoffered ⊢
  split at hoffered
  · exact absurd rfl hoffered
  · next hlarge =>
    rw [if_neg hlarge]
    exact ⟨not_lt.mp hlarge, rfl⟩

/-- When the batch at the index entry is longer than the window, `fetch` returns the bytes of
the file, as far as the limit of the window lets it. -/
theorem LogInv.zeroCopyAgrees {segs : List Segment} {s : PartitionStore} (inv : LogInv segs s)
    (hclosed : s.ctx.readFd = none) (hcomplete : ∀ x ∈ segs.flatten, StartsComplete x.2)
    {o : Int64} {maxBytes : Int32} (hmax : 0 < maxBytes.toInt)
    (hchunk : maxBytes.toInt ≤ maxFetchChunk) {e : SparseIndexEntry}
    (hlookup : s.ctx.lookup o = some e)
    (hlong : ∀ x ∈ segs.flatten, x.1 = e.offset →
      readLimit maxBytes.toInt.toNat < batchSize x.2) :
    ZeroCopyAgrees s o maxBytes := by
  intro name hname
  obtain ⟨cur, hcur, hfd, hbase, hbytes, hstart, d, rest, hd, hdrop⟩ := inv.indexed hlookup
  have hread := inv.read? hcur
  obtain ⟨hlarge, hinfo⟩ := spliceInfo_eq hfd hbytes hlookup hstart hmax
    (Option.ne_none_iff_exists'.mpr ⟨name, hname⟩)
  obtain rfl : segmentName cur.base = name := by
    rw [hinfo] at hname
    exact Option.some.inj hname
  have htorn : ¬ StartsComplete
      ((cur.bytes.drop e.filePosition).take (readLimit maxBytes.toInt.toNat)) := by
    rw [hdrop]
    refine not_startsComplete_take ?_
    rw [batchSize_append (hcomplete _ hd).prefix_le]
    exact hlong _ hd rfl
  have hlimit : maxBytes.toInt.toNat ≤ readLimit maxBytes.toInt.toNat := by
    rw [readLimit]
    omega
  have hne : (cur.bytes.drop e.filePosition).take (readLimit maxBytes.toInt.toNat) ≠ [] := by
    intro hnil
    rcases List.take_eq_nil_iff.mp hnil with h | h
    · omega
    · rw [h] at hlarge
      exact absurd hlarge (by decide)
  refine ⟨cur.bytes, hread, ?_⟩
  rw [fetch_eq hmax (by rw [hlookup, Option.map_some, Option.getD_some]) rfl
    (by rw [hlookup, Option.map_some, Option.getD_some, hbase]) (.inl hclosed) hread hstart hne,
    fetchRecords_torn htorn, hinfo, List.take_take, Nat.min_eq_left hlimit]
  refine congrArg Except.ok ?_
  dsimp only
  rw [List.take_eq_take_iff]
  omega

/-- A log with one payload of `n` records. -/
def oneSegment (logRoot topicName : Bytes) (partition : Int32) (data : Bytes) (n : Int32) :
    PartitionStore where
  ctx := {
    logRoot := logRoot, topicName := topicName, partition := partition
    nextOffset := n.toInt64
    currentSegmentBytes := data.length
    currentSegmentIndex := [⟨0, 0⟩]
    writeFd := some (segmentName 0) }
  dir := [(segmentName 0, data)]

/-- The first payload of a log without a size limit. -/
theorem exec_produce_first {data : Bytes} {n : Int32} (hcount : recordBatchCount data = .ok n)
    (logRoot topicName : Bytes) (partition : Int32) :
    logMachine.exec (.fresh logRoot topicName partition 0 false)
        [.produce { written := data.length } data] =
      oneSegment logRoot topicName partition data n := by
  have hnew : segmentName 0 ∉ ([] : Dir).map Prod.fst := List.not_mem_nil
  have hdir : Dir.append (Dir.create [] (segmentName 0)) (segmentName 0) data =
      [(segmentName 0, data)] := by
    rw [Dir.create_new hnew, Dir.append_last hnew]
    rfl
  simp [logMachine, Machine.next, PartitionStore.produce, PartitionStore.fresh, produce, hcount,
    roll, Rolls, ensureWriteFd, openCurrent, store, pushIndex, advance, writePayload, hdir,
    oneSegment]

/-- The batch with one value. -/
def valueBatch (v : Bytes) : Bytes := makeRecordBatchV2 [v]

/-- The call that stores it. -/
def produceValue (v : Bytes) : LogInput :=
  .produce { written := (valueBatch v).length } (valueBatch v)

section LargeValue

-- the value itself does not matter below, and is kept out of the computations
variable {v : Bytes} (hv : v.length = 70000)

include hv

theorem length_largeRecords : (makeRecords [v]).length = 70011 := by
  have hbody : (writeSignedVarint (Int32.ofNat (70000 + 6))).length = 3 := by decide
  have hsize : (writeSignedVarint (Int32.ofNat 70000)).length = 3 := by decide
  have hzero : (writeSignedVarint 0).length = 1 := by decide
  have hnull : (writeSignedVarint (-1)).length = 1 := by decide
  simp only [makeRecords, makeRecord, List.flatMap_singleton, List.length_append,
    List.length_singleton, hv, hbody, hsize, hzero, hnull]

theorem length_largeBatch : (valueBatch v).length = 70068 := by
  rw [valueBatch, length_makeRecordBatchV2, length_largeRecords hv]

theorem batchSize_largeBatch :
    batchSize (valueBatch v) = 70068 ∧ StartsComplete (valueBatch v) := by
  have h := @batchSize_frameBatch_append (makeRecords [v])
    (by rw [length_largeRecords hv]; decide) 1 []
  rw [List.append_nil] at h
  rw [← length_largeBatch hv]
  exact h

omit hv in
theorem recordBatchCount_valueBatch (v : Bytes) : recordBatchCount (valueBatch v) = .ok 1 :=
  recordBatchCount_makeRecordBatchV2 [v]

theorem producesBatch_large : ∀ i ∈ [produceValue v], ProducesBatch i := by
  intro i hi
  rw [List.mem_singleton.mp hi]
  exact ⟨le_rfl, (batchSize_largeBatch hv).2, 1, countOf_eq_some (recordBatchCount_valueBatch v),
    le_rfl⟩

omit hv in
theorem exec_produceValue (v : Bytes) :
    logMachine.exec (.fresh (ascii "logs") (ascii "t") 0 0 false) [produceValue v] =
      oneSegment (ascii "logs") (ascii "t") 0 (valueBatch v) 1 :=
  exec_produce_first (recordBatchCount_valueBatch v) _ _ _

omit hv in
theorem inRange_produceValue (v : Bytes) :
    logMachine.Within InRange (.fresh (ascii "logs") (ascii "t") 0 0 false) [produceValue v] := by
  refine ⟨fun n hn => ?_, trivial⟩
  rw [Option.mem_unique hn (countOf_eq_some (recordBatchCount_valueBatch v))]
  decide

/-- The window of a fetch of 1000 bytes has 2000 bytes. -/
theorem tornWindow_large :
    TornWindow (logMachine.trace (.fresh (ascii "logs") (ascii "t") 0 0 false) [produceValue v])
      (logMachine.exec (.fresh (ascii "logs") (ascii "t") 0 0 false) [produceValue v]) 0 1000 := by
  refine ⟨by decide, ⟨0, 0⟩, ?_, fun x hx _ => ?_⟩
  · rw [exec_produceValue]
    rfl
  · obtain ⟨env, henv⟩ := exists_produce_of_mem_stored hx
    have hdata : x.2 = valueBatch v := (LogInput.produce.inj (List.mem_singleton.mp henv)).2
    rw [hdata, (batchSize_largeBatch hv).1]
    decide

theorem spliceInfo_large (maxBytes : Int32) :
    (oneSegment (ascii "logs") (ascii "t") 0 (valueBatch v) 1).ctx.spliceInfo 0 maxBytes =
      ⟨some (segmentName 0), 0, min 70068 (maxBytes.toInt % 2 ^ 64).toNat⟩ := by
  rw [oneSegment, length_largeBatch hv]
  rfl

/-- A fetch of 70000 bytes decodes the batch. -/
theorem fetch_large :
    ∃ r : Bytes, ((oneSegment (ascii "logs") (ascii "t") 0 (valueBatch v) 1).ctx.fetch
      [(segmentName 0, valueBatch v)] 0 70000 true).2 = .ok r ∧ r <+: v := by
  have hwf : ∀ vs ∈ [[v]], WellFormedBatch vs := by
    intro vs hvs
    rw [List.mem_singleton.mp hvs]
    refine ⟨List.cons_ne_nil _ _, fun w hw => ?_, by rw [length_largeRecords hv]; decide⟩
    rw [List.mem_singleton.mp hw]
    exact List.ne_nil_of_length_eq_add_one hv
  have hread : Dir.read? [(segmentName 0, valueBatch v)] (segmentName 0) = some (valueBatch v) := by
    simp [Dir.read?]
  have hlimit : bytesBetween [(0, valueBatch v)] 0 0 ≤ readLimit 70000 := by
    rw [bytesBetween_cons, length_largeBatch hv, if_pos ⟨le_rfl, le_rfl⟩]
    decide
  obtain ⟨r, hr, -, -, hprefix⟩ := fetch_covered [] [[v]] []
    (c := (oneSegment (ascii "logs") (ascii "t") 0 (valueBatch v) 1).ctx) (o := 0)
    (by decide : 0 < (70000 : Int32).toInt) rfl rfl rfl (.inl rfl) hread (Nat.zero_le _) hwf
    (List.flatMap_singleton _ _).symm rfl le_rfl (by simp) (by simp) hlimit
  exact ⟨r, hr, by simpa using hprefix⟩

/-- The splice begins with the header of the batch. -/
theorem not_zeroCopyAgrees_large (hzero : 0 ∉ v) :
    ¬ ZeroCopyAgrees (oneSegment (ascii "logs") (ascii "t") 0 (valueBatch v) 1) 0 70000 := by
  intro h
  rw [ZeroCopyAgrees, spliceInfo_large hv] at h
  obtain ⟨file, hfile, hfetch⟩ := h (segmentName 0) rfl
  obtain ⟨r, hr, hprefix⟩ := fetch_large hv
  have hread : Dir.read? [(segmentName 0, valueBatch v)] (segmentName 0) = some (valueBatch v) := by
    simp [Dir.read?]
  obtain rfl : valueBatch v = file := Option.some.inj (hread.symm.trans hfile)
  obtain ⟨rest, hrest⟩ : ∃ rest, (valueBatch v).take 70000 = 0 :: rest := ⟨_, rfl⟩
  obtain rfl : r = 0 :: rest := by
    rw [← hrest]
    exact Except.ok.inj (hr.symm.trans hfetch)
  have hmem : 0 ∈ v := hprefix.subset List.mem_cons_self
  exact hzero hmem

end LargeValue

/-- A value of 70000 bytes. -/
def largeValue : Bytes := List.replicate 70000 1

theorem length_largeValue : largeValue.length = 70000 := List.length_replicate

end TinyKafka
