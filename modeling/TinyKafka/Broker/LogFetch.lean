import TinyKafka.Broker.FetchWindow

/-!
# Fetching by offset

Runs of `produce` calls with batches of `make_record_batch_v2` and of fetches. Three things
can go wrong in `fetch(o, max_bytes)`. The index only covers the current segment, so without
an entry it falls back to the *first* segment; a read descriptor that is open stays on
whichever segment it was opened for; and a window that ends before the batch of record `o`
does gives undecoded bytes or nothing. The first two need several segments, the third happens
with one small batch (`not_fetchesRecords_window`).

`fetchesRecords_of_covered`: when the descriptor is closed or on the right segment and the
window reaches to the end of the batch that holds `o`, `fetch` returns the values from record
`o` on, cut to `max_bytes`.
-/

namespace TinyKafka

open PartitionContext

/-- The calls of a run: batches built by `make_record_batch_v2` and fetches. -/
inductive BatchCall
  | produce (values : List Bytes) (nowMs : Int64)
  | fetch (offset : Int64) (maxBytes : Int32)
  | fetchAll
  deriving DecidableEq, Repr

namespace BatchCall

/-- The call on the context; the system does what it is asked, and writes are complete. -/
def input : BatchCall → LogInput
  | .produce values nowMs =>
    .produce { written := (makeRecordBatchV2 values).length, nowMs := nowMs }
      (makeRecordBatchV2 values)
  | .fetch offset maxBytes => .fetch offset maxBytes true
  | .fetchAll => .fetchAll

/-- The batch a call stores. -/
def batch? : BatchCall → Option (List Bytes)
  | .produce values _ => some values
  | _ => none

/-- Batches are well formed. -/
def WellFormed : BatchCall → Prop
  | .produce values _ => WellFormedBatch values
  | _ => True

instance : DecidablePred WellFormed
  | .produce values _ => inferInstanceAs (Decidable (WellFormedBatch values))
  | .fetch _ _ | .fetchAll => .isTrue trivial

theorem exists_of_batch?_eq_some {c : BatchCall} {values : List Bytes}
    (h : c.batch? = some values) : ∃ nowMs, c = .produce values nowMs := by
  cases c with
  | produce values' nowMs => exact ⟨nowMs, by rw [Option.some.inj h]⟩
  | fetch offset maxBytes | fetchAll => cases h

end BatchCall

/-- The batches of a run. -/
def batches (calls : List BatchCall) : List (List Bytes) := calls.filterMap BatchCall.batch?

theorem batches_concat (calls : List BatchCall) (c : BatchCall) :
    batches (calls ++ [c]) = batches calls ++ c.batch?.toList := by
  rw [batches, batches, List.filterMap_append, List.filterMap_cons]
  cases c.batch? <;> rfl

/-- The store after a run of calls on a new context. -/
def afterCalls (s₀ : PartitionStore) (calls : List BatchCall) : PartitionStore :=
  logMachine.exec s₀ (calls.map BatchCall.input)

/-- The history of such a run. -/
def historyOf (s₀ : PartitionStore) (calls : List BatchCall) : List (LogInput × LogOutput) :=
  logMachine.trace s₀ (calls.map BatchCall.input)

/-- **Fetch by offset returns the records at that offset**, at every step of a run: for an
offset below the next one and a positive `max_bytes`, a non-empty string of at most
`max_bytes` bytes that is a prefix of the values from that record on. -/
def FetchesRecords (s₀ : PartitionStore) (calls : List BatchCall) : Prop :=
  ∀ pre post o maxBytes, calls = pre ++ .fetch o maxBytes :: post →
    0 ≤ o.toInt → o.toInt < (afterCalls s₀ pre).ctx.nextOffset.toInt → 0 < maxBytes.toInt →
    ∃ bs : Bytes,
      logMachine.out (afterCalls s₀ pre) (.fetch o maxBytes true) = .fetched (.ok bs) ∧
      bs ≠ [] ∧ bs.length ≤ maxBytes.toInt.toNat ∧
      bs <+: (((batches pre).flatten.drop o.toInt.toNat).flatten)

/-- The lookup of a fetch selects a segment that the read descriptor is on or can be opened
on, and the window from there reaches the end of the batch that holds the offset. Without an
index entry the first segment is selected, and has to hold the offset. -/
def Covers (h : List (LogInput × LogOutput)) (s : PartitionStore) (o : Int64)
    (maxBytes : Int32) : Option SparseIndexEntry → Prop
  | some e =>
    (s.ctx.readFd = none ∨ s.ctx.readFd = some (segmentName s.ctx.currentSegmentBaseOffset)) ∧
      bytesBetween (stored h) e.offset.toInt o.toInt ≤ readLimit maxBytes.toInt.toNat
  | none =>
    (s.ctx.readFd = none ∨ s.ctx.readFd = some (segmentName 0)) ∧
      bytesBetween (stored h) 0 o.toInt ≤ readLimit maxBytes.toInt.toNat ∧
      bytesBetween (stored h) 0 o.toInt ≤ ((s.dir.read? (segmentName 0)).map List.length).getD 0

instance (h : List (LogInput × LogOutput)) (s : PartitionStore) (o : Int64) (maxBytes : Int32) :
    DecidablePred (Covers h s o maxBytes)
  | some _ => inferInstanceAs (Decidable ((_ ∨ _) ∧ _))
  | none => inferInstanceAs (Decidable ((_ ∨ _) ∧ _ ∧ _))

/-- A fetch of an offset in the log covers it. -/
def FetchCovered (h : List (LogInput × LogOutput)) (s : PartitionStore) : LogInput → Prop
  | .fetch o maxBytes _ =>
    0 ≤ o.toInt → o.toInt < s.ctx.nextOffset.toInt → 0 < maxBytes.toInt →
      Covers h s o maxBytes (s.ctx.lookup o)
  | _ => True

instance (h : List (LogInput × LogOutput)) (s : PartitionStore) :
    DecidablePred (FetchCovered h s)
  | .fetch _ _ _ => inferInstanceAs (Decidable (_ → _ → _ → _))
  | .produce _ _ | .fetchAll | .spliceInfo _ _ | .fileFd _ | .complete _ _ => .isTrue trivial

/-! ### Runs -/

/-- A well-formed batch is stored at the next offset, which moves by the number of its
values. -/
theorem next_produce_batch {segs : List Segment} {s : PartitionStore} (inv : LogInv segs s)
    {values : List Bytes} (hwf : WellFormedBatch values) (nowMs : Int64) {n : ℕ}
    (hnext : s.ctx.nextOffset.toInt = n) (hrange : n + values.length < 2 ^ 63) :
    let i := (BatchCall.produce values nowMs).input
    LogInput.stored? (i, logMachine.out s i) = some (Int64.ofNat n, makeRecordBatchV2 values) ∧
    (logMachine.next s i).ctx.nextOffset.toInt = (n + values.length : ℕ) ∧
    ∃ segs', LogInv segs' (logMachine.next s i) ∧
      segs'.flatten = segs.flatten ++ [(Int64.ofNat n, makeRecordBatchV2 values)] := by
  let data := makeRecordBatchV2 values
  let env : ProduceEnv := { written := data.length, nowMs := nowMs }
  have hinput : (BatchCall.produce values nowMs).input = .produce env data := rfl
  dsimp only
  rw [hinput, next_produce, out_produce]
  obtain ⟨hne, -, hbatch⟩ := hwf
  have hlen := length_le_makeRecords values
  have hpos := List.length_pos_of_ne_nil hne
  have hcount := recordBatchCount_makeRecordBatchV2 values
  have hint : (Int32.ofNat values.length).toInt = values.length :=
    Int32.toInt_ofNat_of_lt (by omega)
  have hofNat : s.ctx.nextOffset = Int64.ofNat n := by
    refine Int64.toInt_inj.mp ?_
    rw [hnext, Int64.toInt_ofNat_of_lt (by omega)]
  have htaken : TakenUp s env data (Int32.ofNat values.length) := ⟨hcount, rfl, .inr rfl⟩
  -- the count in the header is that of the records, so the next offset does not wrap around
  have hforward : AdvancesForward s (.produce env data) := by
    intro m hm _
    obtain rfl : Int32.ofNat values.length = m := Except.ok.inj (hcount.symm.trans hm.1)
    rw [hint, hnext]
    omega
  rcases produce_offsets s env data with ⟨m, hm, hbase, hadv⟩ | ⟨hnot, -⟩
  · obtain rfl : Int32.ofNat values.length = m := Except.ok.inj (hcount.symm.trans hm.1)
    have hstored : LogInput.stored? (.produce env data, .produced (s.produce env data).2) =
        some (Int64.ofNat n, data) := by
      rw [← hofNat]
      exact stored?_produced hbase inv.nonneg
    refine ⟨hstored, ?_, ?_⟩
    · rw [hadv, toInt_add_toInt64 inv.nonneg, if_pos (by omega), hint, hnext]
      rfl
    · obtain ⟨segs', inv', hsegs'⟩ := inv.produce hforward le_rfl
      refine ⟨segs', inv', ?_⟩
      rw [hsegs', hstored]
      rfl
  · exact absurd htaken (hnot _)

/-- The two reads store nothing and move no offset. -/
theorem next_of_batch?_eq_none {segs : List Segment} {s : PartitionStore} (inv : LogInv segs s)
    {c : BatchCall} (hc : c.batch? = none) :
    LogInput.stored? (c.input, logMachine.out s c.input) = none ∧
      (logMachine.next s c.input).ctx.nextOffset = s.ctx.nextOffset ∧
      LogInv segs (logMachine.next s c.input) := by
  have hread : ∀ env data, c.input ≠ .produce env data := by
    cases c with
    | produce values nowMs => cases hc
    | fetch offset maxBytes | fetchAll => exact fun _ _ h => by cases h
  refine ⟨?_, (other_offsets s hread).2, inv.other hread⟩
  cases c with
  | produce values nowMs => cases hc
  | fetch offset maxBytes | fetchAll => rfl

/-- After a run of well-formed batches the context stands for a log of exactly these batches,
at consecutive offsets. -/
theorem afterCalls_spec (logRoot topicName : Bytes) (partition : Int32) (segmentBytes : ℕ)
    {calls : List BatchCall} (hwf : ∀ c ∈ calls, c.WellFormed)
    (hrange : (batches calls).flatten.length < 2 ^ 63) :
    let s₀ := PartitionStore.fresh logRoot topicName partition segmentBytes false
    stored (historyOf s₀ calls) = layout 0 (batches calls) ∧
    (afterCalls s₀ calls).ctx.nextOffset.toInt = (batches calls).flatten.length ∧
    ∃ segs, LogInv segs (afterCalls s₀ calls) ∧ segs.flatten = layout 0 (batches calls) := by
  intro s₀
  induction calls using List.reverseRecOn with
  | nil => exact ⟨rfl, rfl, [], LogInv.init _ _ _ _, rfl⟩
  | append_singleton calls c ih =>
    rw [batches_concat, List.flatten_append, List.length_append] at hrange
    obtain ⟨hstored, hnext, segs, inv, hsegs⟩ :=
      ih (fun c' hc' => hwf c' (List.mem_append_left _ hc')) (by omega)
    have hafter : afterCalls s₀ (calls ++ [c]) =
        logMachine.next (afterCalls s₀ calls) c.input := by simp [afterCalls]
    have hhistory : historyOf s₀ (calls ++ [c]) = historyOf s₀ calls ++
        [(c.input, logMachine.out (afterCalls s₀ calls) c.input)] := by
      simp [historyOf, afterCalls]
    rw [hafter, hhistory, stored_concat, batches_concat, hstored]
    cases hbatch : c.batch? with
    | none =>
      obtain ⟨hs, hn, inv'⟩ := next_of_batch?_eq_none inv hbatch
      simp only [hs, hn, hnext, Option.toList_none, List.append_nil, true_and]
      exact ⟨segs, inv', hsegs⟩
    | some values =>
      obtain ⟨nowMs, rfl⟩ := BatchCall.exists_of_batch?_eq_some hbatch
      have hvalues : WellFormedBatch values :=
        hwf _ (List.mem_append_right _ List.mem_cons_self)
      obtain ⟨hs, hn, segs', inv', hsegs'⟩ := next_produce_batch inv hvalues nowMs hnext
        (by simpa [BatchCall.batch?] using hrange)
      have hlayout : layout 0 (batches calls ++ [values]) = layout 0 (batches calls) ++
          [(Int64.ofNat (batches calls).flatten.length, makeRecordBatchV2 values)] := by
        rw [layout_append, Nat.zero_add]
        rfl
      rw [hs, hn, Option.toList_some, Option.toList_some, hlayout, List.flatten_append,
        List.length_append, List.flatten_singleton]
      exact ⟨rfl, rfl, segs', inv', by rw [hsegs', hsegs]⟩

/-! ### Covered fetches -/

/-- A fetch that reads the batches `bs`, which follow `as` in the log, in a window that
reaches the end of the batch of record `o`. -/
theorem fetch_covered (as bs cs : List (List Bytes)) {c : PartitionContext} {dir : Dir}
    {o base entry : Int64} {maxBytes : Int32} {start : ℕ} {file : Bytes} (hmax : 0 < maxBytes.toInt)
    (hstart : ((c.lookup o).map SparseIndexEntry.filePosition).getD 0 = start)
    (hentry : ((c.lookup o).map SparseIndexEntry.offset).getD 0 = entry)
    (hbase : ((c.lookup o).map fun _ => c.currentSegmentBaseOffset).getD 0 = base)
    (hfd : c.readFd = none ∨ c.readFd = some (segmentName base))
    (hread : dir.read? (segmentName base) = some file) (hle : start ≤ file.length)
    (hwf : ∀ vs ∈ bs, WellFormedBatch vs)
    (hfile : file.drop start = bs.flatMap makeRecordBatchV2)
    (hoffset : entry.toInt = as.flatten.length) (ho : entry.toInt ≤ o.toInt)
    (ho' : o.toInt < as.flatten.length + bs.flatten.length)
    (hrange : as.flatten.length + bs.flatten.length < 2 ^ 63)
    (hlimit : bytesBetween (layout as.flatten.length bs) as.flatten.length o.toInt ≤
      readLimit maxBytes.toInt.toNat) :
    ∃ r : Bytes, (c.fetch dir o maxBytes true).2 = .ok r ∧ r ≠ [] ∧
      r.length ≤ maxBytes.toInt.toNat ∧
      r <+: (((as ++ bs ++ cs).flatten.drop o.toInt.toNat).flatten) := by
  obtain ⟨k, hk⟩ : ∃ k : ℕ, o.toInt = k := ⟨o.toInt.toNat, by omega⟩
  rw [hk] at ho ho' hlimit
  have hskip : (o - entry).toInt = k - as.flatten.length := by
    have hlt := o.toInt_lt
    rw [Int64.toInt_sub, Int.bmod_eq_of_le (by omega) (by omega)]
    omega
  have hread' := lt_length_takeBatches (n := as.flatten.length) (o := k) (by omega) (by omega)
    (by omega) hlimit
  have hmax' : 0 < maxBytes.toInt.toNat := by omega
  have hk' : k - as.flatten.length <
      (takeBatches (readLimit maxBytes.toInt.toNat) bs).flatten.length := by omega
  obtain ⟨hne, hprefix⟩ := window_prefix hwf hmax' hk'
  have hwindow := fetchRecords_window hwf hskip hread' (by omega)
  -- an empty read would give an empty result, and there is a record in the window
  have hraw : (file.drop start).take (readLimit maxBytes.toInt.toNat) ≠ [] := by
    rw [hfile]
    intro hnil
    rw [hnil] at hwindow
    have hempty : fetchRecords [] (o - entry) maxBytes.toInt.toNat = .ok [] := by
      simp [fetchRecords, parseRecordBatch, parseBatches, parsedSoFar]
    rw [hempty] at hwindow
    exact hne (Except.ok.inj hwindow).symm
  refine ⟨_, ?_, hne, List.length_take_le _ _, hprefix.trans ?_⟩
  · rw [fetch_eq hmax hstart hentry hbase hfd hread hle hraw, hfile, hwindow]
  · have hdrop : (as ++ bs ++ cs).flatten.drop o.toInt.toNat =
        bs.flatten.drop (k - as.flatten.length) ++ cs.flatten := by
      rw [hk, Int.toNat_natCast, List.append_assoc, List.flatten_append, List.flatten_append,
        List.drop_append, List.drop_of_length_le (by omega), List.nil_append,
        List.drop_append_of_le_length (by omega)]
    rw [hdrop, List.flatten_append]
    exact List.prefix_append _ _

/-- Payloads within the range all count. -/
theorem bytesBetween_all {l : List (Int64 × Bytes)} {a o : ℤ}
    (h : ∀ e ∈ l, a ≤ e.1.toInt ∧ e.1.toInt ≤ o) :
    bytesBetween l a o = (Segment.bytes l).length := by
  induction l with
  | nil => rfl
  | cons e l ih =>
    rw [bytesBetween_cons, if_pos (h e List.mem_cons_self),
      ih fun e' he' => h e' (List.mem_cons_of_mem e he'), Segment.bytes, Segment.bytes,
      List.flatMap_cons, List.length_append]

/-- The offsets of stored batches lie between the first number and the number of records
behind them. -/
theorem offset_of_mem_layout {n : ℕ} {bs : List (List Bytes)}
    (hne : ∀ vs ∈ bs, WellFormedBatch vs) (hrange : n + bs.flatten.length < 2 ^ 63)
    {e : Int64 × Bytes} (he : e ∈ layout n bs) :
    (n : ℤ) ≤ e.1.toInt ∧ e.1.toInt < n + bs.flatten.length := by
  induction bs generalizing n with
  | nil => cases he
  | cons vs bs ih =>
    have hpos := List.length_pos_of_ne_nil (hne vs List.mem_cons_self).1
    rw [List.flatten_cons, List.length_append] at hrange ⊢
    rcases List.mem_cons.mp he with rfl | he
    · rw [Int64.toInt_ofNat_of_lt (by omega)]
      omega
    · have h := ih (fun ws hws => hne ws (List.mem_cons_of_mem vs hws)) (by omega) he
      push_cast at h ⊢
      omega

theorem wellFormedBatch_of_mem {calls : List BatchCall} (hwf : ∀ c ∈ calls, c.WellFormed)
    {vs : List Bytes} (h : vs ∈ batches calls) : WellFormedBatch vs := by
  obtain ⟨c, hc, hbatch⟩ := List.mem_filterMap.mp h
  have hwfc := hwf c hc
  cases c with
  | produce values nowMs =>
    rw [← Option.some.inj hbatch]
    exact hwfc
  | fetch offset maxBytes => cases hbatch
  | fetchAll => cases hbatch

/-- With an index entry the current segment is read from the entry on. -/
private theorem fetch_indexed {segs : List Segment} {s : PartitionStore} (inv : LogInv segs s)
    {bs : List (List Bytes)} (hsegs : segs.flatten = layout 0 bs)
    (hwf : ∀ vs ∈ bs, WellFormedBatch vs) (hrange : bs.flatten.length < 2 ^ 63) {o : Int64}
    {maxBytes : Int32} (ho : o.toInt < bs.flatten.length) (hmax : 0 < maxBytes.toInt)
    {e : SparseIndexEntry} (hlookup : s.ctx.lookup o = some e)
    (hfd : s.ctx.readFd = none ∨
      s.ctx.readFd = some (segmentName s.ctx.currentSegmentBaseOffset))
    (hlimit : bytesBetween (layout 0 bs) e.offset.toInt o.toInt ≤
      readLimit maxBytes.toInt.toNat) :
    ∃ r : Bytes, (s.ctx.fetch s.dir o maxBytes true).2 = .ok r ∧ r ≠ [] ∧
      r.length ≤ maxBytes.toInt.toNat ∧ r <+: ((bs.flatten.drop o.toInt.toNat).flatten) := by
  obtain ⟨hmem, hle⟩ := lookup_spec hlookup
  rcases inv.current with ⟨init, cur, rfl, -, hbase, -, hindex⟩ | ⟨-, -, -, hindex⟩
  · rw [hindex] at hmem
    obtain ⟨l, d, l', hcur, hpos⟩ := Segment.mem_index hmem
    -- the log up to the entry, and from the entry on
    have hsplit : layout 0 bs = (init.flatten ++ l) ++ ((e.offset, d) :: l') := by
      rw [← hsegs, List.flatten_append, hcur]
      simp
    obtain ⟨as, cs, rfl, hfront, hrest⟩ := layout_split hsplit
    rw [Nat.zero_add] at hrest
    rw [List.flatten_append, List.length_append] at ho hrange
    have hentry : e.offset.toInt = as.flatten.length := by
      cases cs with
      | nil => cases hrest
      | cons vs cs =>
        rw [layout, List.cons.injEq] at hrest
        have hoff : e.offset = Int64.ofNat as.flatten.length := congrArg Prod.fst hrest.1
        rw [hoff, Int64.toInt_ofNat_of_lt (by omega)]
    have hlimit' : bytesBetween (layout as.flatten.length cs) as.flatten.length o.toInt ≤
        readLimit maxBytes.toInt.toNat := by
      have hbelow : bytesBetween (layout 0 as) e.offset.toInt o.toInt = 0 := by
        refine bytesBetween_of_lt fun x hx => ?_
        have h := offset_of_mem_layout (fun vs hvs => hwf vs (List.mem_append_left _ hvs))
          (by omega) hx
        omega
      rw [layout_append, bytesBetween_append, hbelow, Nat.zero_add, Nat.zero_add, hentry] at hlimit
      exact hlimit
    have hfile : cur.bytes.drop e.filePosition = cs.flatMap makeRecordBatchV2 := by
      rw [hpos, Nat.zero_add, hcur, Segment.bytes_append, List.drop_left, hrest, bytes_layout]
    have hstart : e.filePosition ≤ cur.bytes.length := by
      rw [hpos, Nat.zero_add, hcur, Segment.bytes_append, List.length_append]
      omega
    have hcurmem : cur ∈ init ++ [cur] := by simp
    rw [hbase] at hfd
    have h := fetch_covered as cs [] hmax (by rw [hlookup]; rfl)
      (by rw [hlookup]; rfl) (by rw [hlookup]; exact hbase) hfd (inv.read? hcurmem) hstart
      (fun vs hvs => hwf vs (List.mem_append_right _ hvs)) hfile hentry hle (by omega) (by omega)
      hlimit'
    rwa [List.append_nil] at h
  · rw [hindex] at hmem
    cases hmem

/-- A record behind the first segment needs more bytes than the segment has. -/
private theorem lt_of_bytesBetween_le {as cs : List (List Bytes)} {o : Int64}
    (has : ∀ vs ∈ as, WellFormedBatch vs)
    (hrange : as.flatten.length + cs.flatten.length < 2 ^ 63) (h0 : 0 ≤ o.toInt)
    (ho : o.toInt < (as.flatten.length + cs.flatten.length : ℕ))
    (hfirst : bytesBetween (layout 0 as) 0 o.toInt +
      bytesBetween (layout as.flatten.length cs) 0 o.toInt ≤ (Segment.bytes (layout 0 as)).length) :
    o.toInt < as.flatten.length := by
  by_contra hge
  have hall : bytesBetween (layout 0 as) 0 o.toInt = (Segment.bytes (layout 0 as)).length := by
    refine bytesBetween_all fun x hx => ?_
    have h := offset_of_mem_layout has (by omega) hx
    omega
  have hmore : 0 < bytesBetween (layout as.flatten.length cs) 0 o.toInt := by
    cases cs with
    | nil =>
      rw [List.flatten_nil, List.length_nil] at ho
      omega
    | cons vs cs =>
      have hint : (Int64.ofNat as.flatten.length).toInt = as.flatten.length :=
        Int64.toInt_ofNat_of_lt (by omega)
      rw [layout, bytesBetween_cons, if_pos (by rw [hint]; omega), length_makeRecordBatchV2]
      omega
  omega

/-- Without one the first segment is read from its start. -/
private theorem fetch_unindexed {segs : List Segment} {s : PartitionStore} (inv : LogInv segs s)
    {bs : List (List Bytes)} (hsegs : segs.flatten = layout 0 bs)
    (hwf : ∀ vs ∈ bs, WellFormedBatch vs) (hrange : bs.flatten.length < 2 ^ 63) {o : Int64}
    {maxBytes : Int32} (h0 : 0 ≤ o.toInt) (ho : o.toInt < bs.flatten.length)
    (hmax : 0 < maxBytes.toInt) (hlookup : s.ctx.lookup o = none)
    (hfd : s.ctx.readFd = none ∨ s.ctx.readFd = some (segmentName 0))
    (hlimit : bytesBetween (layout 0 bs) 0 o.toInt ≤ readLimit maxBytes.toInt.toNat)
    (hfirst : bytesBetween (layout 0 bs) 0 o.toInt ≤
      ((s.dir.read? (segmentName 0)).map List.length).getD 0) :
    ∃ r : Bytes, (s.ctx.fetch s.dir o maxBytes true).2 = .ok r ∧ r ≠ [] ∧
      r.length ≤ maxBytes.toInt.toNat ∧ r <+: ((bs.flatten.drop o.toInt.toNat).flatten) := by
  cases segs with
  | nil =>
    cases bs with
    | nil =>
      rw [List.flatten_nil, List.length_nil] at ho
      omega
    | cons vs bs => cases hsegs
  | cons g segs =>
    obtain ⟨as, cs, rfl, hg, hrest⟩ := layout_split hsegs.symm
    rw [Nat.zero_add] at hrest
    rw [List.flatten_append, List.length_append] at ho hrange
    have hbase : g.base = 0 := by
      cases as with
      | nil => exact absurd hg (inv.ne_nil g List.mem_cons_self)
      | cons vs as => rw [hg]; rfl
    have hread := inv.read? (List.mem_cons_self : g ∈ g :: segs)
    rw [hbase] at hread
    have has : ∀ vs ∈ as, WellFormedBatch vs := fun vs hvs =>
      hwf vs (List.mem_append_left _ hvs)
    rw [layout_append, bytesBetween_append, Nat.zero_add] at hlimit hfirst
    rw [hread, Option.map_some, Option.getD_some, hg] at hfirst
    -- the file holds every byte up to record `o`, so `o` is in the first segment
    have ho' : o.toInt < as.flatten.length := lt_of_bytesBetween_le has hrange h0 ho hfirst
    have hfile : g.bytes.drop 0 = as.flatMap makeRecordBatchV2 := by
      rw [List.drop_zero, hg, bytes_layout]
    have hstart : ((s.ctx.lookup o).map SparseIndexEntry.filePosition).getD 0 = 0 := by
      rw [hlookup]
      rfl
    have hentry : ((s.ctx.lookup o).map SparseIndexEntry.offset).getD 0 = 0 := by
      rw [hlookup]
      rfl
    have hsegment : ((s.ctx.lookup o).map fun _ => s.ctx.currentSegmentBaseOffset).getD 0 =
        0 := by
      rw [hlookup]
      rfl
    exact fetch_covered [] as cs hmax hstart hentry hsegment hfd hread (Nat.zero_le _) has hfile
      rfl h0 (by simpa using ho') (by rw [List.flatten_nil, List.length_nil]; omega)
      (le_trans (Nat.le_add_right _ _) hlimit)

/-- If every fetch within the log is covered and there are fewer than `2 ^ 63` records, every
fetch returns the records at its offset. -/
theorem fetchesRecords_of_covered (logRoot topicName : Bytes) (partition : Int32)
    (segmentBytes : ℕ) {calls : List BatchCall} (hwf : ∀ c ∈ calls, c.WellFormed)
    (hrange : (batches calls).flatten.length < 2 ^ 63)
    (hok : logMachine.WithinTrace FetchCovered []
      (.fresh logRoot topicName partition segmentBytes false) (calls.map BatchCall.input)) :
    FetchesRecords (.fresh logRoot topicName partition segmentBytes false) calls := by
  rintro pre post o maxBytes rfl h0 ho hmax
  have hwf' : ∀ c ∈ pre, c.WellFormed := fun c hc => hwf c (List.mem_append_left _ hc)
  have hrange' : (batches pre).flatten.length < 2 ^ 63 := by
    rw [batches, List.filterMap_append, List.flatten_append, List.length_append] at hrange
    exact lt_of_le_of_lt (Nat.le_add_right _ _) hrange
  obtain ⟨hstored, hnext, segs, inv, hsegs⟩ :=
    afterCalls_spec logRoot topicName partition segmentBytes hwf' hrange'
  rw [List.map_append, List.map_cons, Machine.withinTrace_append] at hok
  have hcovered := hok.2.1 h0 ho hmax
  rw [List.nil_append] at hcovered
  have hbatch : ∀ vs ∈ batches pre, WellFormedBatch vs := fun vs hvs =>
    wellFormedBatch_of_mem hwf' hvs
  have hresult : ∃ r : Bytes, ((afterCalls (.fresh logRoot topicName partition segmentBytes false)
      pre).ctx.fetch (afterCalls (.fresh logRoot topicName partition segmentBytes false) pre).dir o
        maxBytes true).2 = .ok r ∧ r ≠ [] ∧ r.length ≤ maxBytes.toInt.toNat ∧
        r <+: (((batches pre).flatten.drop o.toInt.toNat).flatten) := by
    rw [hnext] at ho
    rw [← historyOf, ← afterCalls] at hcovered
    rcases hlookup : (afterCalls (.fresh logRoot topicName partition segmentBytes false)
      pre).ctx.lookup o with _ | e
    · rw [hlookup] at hcovered
      obtain ⟨hfd, hlimit, hfirst⟩ := hcovered
      rw [hstored] at hlimit hfirst
      exact fetch_unindexed inv hsegs hbatch hrange' h0 ho hmax hlookup hfd hlimit hfirst
    · rw [hlookup] at hcovered
      obtain ⟨hfd, hlimit⟩ := hcovered
      rw [hstored] at hlimit
      exact fetch_indexed inv hsegs hbatch hrange' ho hmax hlookup hfd hlimit
  obtain ⟨r, hr, hne, hlen, hprefix⟩ := hresult
  exact ⟨r, congrArg LogOutput.fetched hr, hne, hlen, hprefix⟩

/-- Two batches in one segment; the second record and then the third one are fetched. -/
def fetchesInSegment : List BatchCall :=
  [.produce [[1], [2, 3]] 0, .fetch 1 100, .produce [[4]] 0, .fetch 2 100]

theorem fetchesRecords_inSegment :
    (∀ c ∈ fetchesInSegment, c.WellFormed) ∧
      (batches fetchesInSegment).flatten.length < 2 ^ 63 ∧
      logMachine.WithinTrace FetchCovered [] (.fresh (ascii "logs") (ascii "t") 0 0 false)
        (fetchesInSegment.map BatchCall.input) ∧
      FetchesRecords (.fresh (ascii "logs") (ascii "t") 0 0 false) fetchesInSegment :=
  ⟨by decide, by decide, by decide,
    fetchesRecords_of_covered _ _ _ _ (by decide) (by decide) (by decide)⟩

/-- One batch with one value of one byte, fetched with `max_bytes = 1`. -/
def fetchOneByte : List BatchCall := [.produce [[1]] 0, .fetch 0 1]

/-- **A fetch returns bytes that are no record's**: the window of two bytes holds no batch,
and `fetch` returns the first byte of the batch header. -/
theorem not_fetchesRecords_window :
    ¬ FetchesRecords (.fresh (ascii "logs") (ascii "t") 0 0 false) fetchOneByte := by
  intro h
  obtain ⟨bs, hout, -, -, hprefix⟩ := h [.produce [[1]] 0] [] 0 1 rfl (by decide) (by decide)
    (by decide)
  have hbytes : logMachine.out (afterCalls (.fresh (ascii "logs") (ascii "t") 0 0 false)
      [.produce [[1]] 0]) (.fetch 0 1 true) = .fetched (.ok [0]) := by rfl
  rw [hbytes] at hout
  obtain rfl : [0] = bs := Except.ok.inj (LogOutput.fetched.inj hout)
  exact absurd hprefix (by decide)

end TinyKafka
