import TinyKafka.Broker.LogContent

/-!
# The window of a fetch

`fetch(o, max_bytes)` starts at the sparse index entry at or before `o`, reads a window of
twice `max_bytes`, decodes the complete batches in it and skips to record `o` by counting.
Here is what this gives on a file of batches at consecutive offsets (`layout`): if the window
reaches the end of the batch that holds record `o`, the values from `o` on that lie in the
complete batches of the window (`fetchRecords_window`), a non-empty prefix of all of them
(`window_prefix`).
-/

namespace TinyKafka

open PartitionContext

/-! ### Batches at consecutive offsets -/

/-- Batches as `produce` stores them, the first record of the first one having number `n`. -/
def layout : (n : ℕ) → List (List Bytes) → List (Int64 × Bytes)
  | _, [] => []
  | n, vs :: bs => (Int64.ofNat n, makeRecordBatchV2 vs) :: layout (n + vs.length) bs

theorem layout_append (n : ℕ) (as bs : List (List Bytes)) :
    layout n (as ++ bs) = layout n as ++ layout (n + as.flatten.length) bs := by
  induction as generalizing n with
  | nil => rfl
  | cons vs as ih =>
    rw [List.cons_append, layout, layout, ih, List.flatten_cons, List.length_append,
      Nat.add_assoc]
    rfl

/-- A cut through stored batches is a cut through the batches. -/
theorem layout_split {n : ℕ} {bs : List (List Bytes)} {l l' : List (Int64 × Bytes)}
    (h : layout n bs = l ++ l') :
    ∃ as cs, bs = as ++ cs ∧ l = layout n as ∧ l' = layout (n + as.flatten.length) cs := by
  induction l generalizing n bs with
  | nil => exact ⟨[], bs, rfl, rfl, h.symm⟩
  | cons e l ih =>
    cases bs with
    | nil => cases h
    | cons vs bs =>
      rw [layout, List.cons_append, List.cons.injEq] at h
      obtain ⟨as, cs, rfl, rfl, hcs⟩ := ih h.2
      refine ⟨vs :: as, cs, rfl, ?_, ?_⟩
      · rw [layout, h.1]
      · rw [hcs, List.flatten_cons, List.length_append, Nat.add_assoc]

theorem bytes_layout (n : ℕ) (bs : List (List Bytes)) :
    Segment.bytes (layout n bs) = bs.flatMap makeRecordBatchV2 := by
  induction bs generalizing n with
  | nil => rfl
  | cons vs bs ih =>
    rw [layout, List.flatMap_cons, ← ih (n + vs.length)]
    rfl

/-- The bytes of the stored payloads with offsets from `a` to `o`. -/
def bytesBetween (l : List (Int64 × Bytes)) (a o : ℤ) : ℕ :=
  ((l.filter fun e => a ≤ e.1.toInt ∧ e.1.toInt ≤ o).map fun e => e.2.length).sum

theorem bytesBetween_append (l l' : List (Int64 × Bytes)) (a o : ℤ) :
    bytesBetween (l ++ l') a o = bytesBetween l a o + bytesBetween l' a o := by
  rw [bytesBetween, List.filter_append, List.map_append, List.sum_append]
  rfl

theorem bytesBetween_cons (e : Int64 × Bytes) (l : List (Int64 × Bytes)) (a o : ℤ) :
    bytesBetween (e :: l) a o =
      (if a ≤ e.1.toInt ∧ e.1.toInt ≤ o then e.2.length else 0) + bytesBetween l a o := by
  rw [bytesBetween, List.filter_cons]
  by_cases h : a ≤ e.1.toInt ∧ e.1.toInt ≤ o
  · simp [h, bytesBetween]
  · simp [h, bytesBetween]

/-- A range that starts later has fewer payloads. -/
theorem bytesBetween_anti (l : List (Int64 × Bytes)) {a a' : ℤ} (h : a ≤ a') (o : ℤ) :
    bytesBetween l a' o ≤ bytesBetween l a o := by
  induction l with
  | nil => exact le_rfl
  | cons e l ih =>
    rw [bytesBetween_cons, bytesBetween_cons]
    refine Nat.add_le_add ?_ ih
    split
    next h' => rw [if_pos ⟨h.trans h'.1, h'.2⟩]
    next => exact Nat.zero_le _

/-- Payloads below the range do not count. -/
theorem bytesBetween_of_lt {l : List (Int64 × Bytes)} {a o : ℤ} (h : ∀ e ∈ l, e.1.toInt < a) :
    bytesBetween l a o = 0 := by
  rw [bytesBetween, List.filter_eq_nil_iff.mpr]
  · rfl
  · intro e he
    have hlt := h e he
    simp
    omega

/-! ### The window -/

/-- The batches that fit completely into a window of `limit` bytes. -/
def takeBatches (limit : ℕ) : List (List Bytes) → List (List Bytes)
  | [] => []
  | vs :: bs =>
    if (makeRecordBatchV2 vs).length ≤ limit then
      vs :: takeBatches (limit - (makeRecordBatchV2 vs).length) bs
    else []

theorem takeBatches_prefix (limit : ℕ) (bs : List (List Bytes)) :
    takeBatches limit bs <+: bs := by
  induction bs generalizing limit with
  | nil => exact List.prefix_rfl
  | cons vs bs ih =>
    rw [takeBatches]
    split
    · exact (List.prefix_cons_inj vs).mpr (ih _)
    · exact List.nil_prefix

theorem length_le_of_mem_takeBatches {limit : ℕ} {bs : List (List Bytes)} {vs : List Bytes}
    (h : vs ∈ takeBatches limit bs) : (makeRecordBatchV2 vs).length ≤ limit := by
  induction bs generalizing limit with
  | nil => cases h
  | cons ws bs ih =>
    rw [takeBatches] at h
    split at h
    next hle =>
      rcases List.mem_cons.mp h with rfl | h
      · exact hle
      · exact (ih h).trans (Nat.sub_le _ _)
    next => cases h

/-- A window over batches holds the complete ones and a part of the next. -/
theorem take_flatMap_batches (limit : ℕ) (bs : List (List Bytes)) :
    ∃ tail : Bytes, (bs.flatMap makeRecordBatchV2).take limit =
        (takeBatches limit bs).flatMap makeRecordBatchV2 ++ tail ∧
      (tail = [] ∨ ∃ vs ∈ bs, ∃ k, k < (makeRecordBatchV2 vs).length ∧
        tail = (makeRecordBatchV2 vs).take k) := by
  induction bs generalizing limit with
  | nil => exact ⟨[], by simp [takeBatches], .inl rfl⟩
  | cons vs bs ih =>
    rw [List.flatMap_cons, takeBatches]
    split
    next hle =>
      obtain ⟨tail, htake, htail⟩ := ih (limit - (makeRecordBatchV2 vs).length)
      refine ⟨tail, ?_, ?_⟩
      · rw [List.take_append, List.take_of_length_le hle, htake, List.flatMap_cons,
          List.append_assoc]
      · rcases htail with h | ⟨ws, hws, h⟩
        · exact .inl h
        · exact .inr ⟨ws, List.mem_cons_of_mem vs hws, h⟩
    next hgt =>
      refine ⟨(makeRecordBatchV2 vs).take limit, ?_, .inr ⟨vs, List.mem_cons_self, limit,
        by omega, rfl⟩⟩
      rw [List.take_append_of_le_length (by omega)]
      rfl

/-- A window that reaches the end of the batch of record `o` holds this record. -/
theorem lt_length_takeBatches {n o limit : ℕ} {bs : List (List Bytes)} (hn : n ≤ o)
    (ho : o < n + bs.flatten.length) (hbound : n + bs.flatten.length < 2 ^ 63)
    (hlimit : bytesBetween (layout n bs) n o ≤ limit) :
    o < n + (takeBatches limit bs).flatten.length := by
  induction bs generalizing n limit with
  | nil => exact ho
  | cons vs bs ih =>
    rw [List.flatten_cons, List.length_append] at ho hbound
    have hint : ((Int64.ofNat n).toInt : ℤ) = n := Int64.toInt_ofNat_of_lt (by omega)
    -- the first batch starts at or before `o`, so it counts
    have hsplit : bytesBetween (layout n (vs :: bs)) n o =
        (makeRecordBatchV2 vs).length + bytesBetween (layout (n + vs.length) bs) n o := by
      rw [layout, bytesBetween_cons, if_pos (by rw [hint]; omega)]
    rw [hsplit] at hlimit
    rw [takeBatches, if_pos (by omega), List.flatten_cons, List.length_append]
    by_cases hlt : o < n + vs.length
    · omega
    · have hrest := bytesBetween_anti (layout (n + vs.length) bs)
        (show (n : ℤ) ≤ (n + vs.length : ℕ) by omega) o
      have hih := @ih (n + vs.length) (limit - (makeRecordBatchV2 vs).length) (by omega) (by omega)
        (by omega) (by omega)
      omega

/-! ### The records in the window -/

/-- The record loop collects the values behind the skipped ones. -/
theorem take_collectRecords (skip : Int64) (maxBytes : ℕ) (records : List Bytes) (i : ℕ)
    (result : Bytes) :
    (collectRecords skip maxBytes records i result).take maxBytes =
      (result ++ (records.drop (skip.toInt - i).toNat).flatten).take maxBytes := by
  induction records generalizing i result with
  | nil => simp [collectRecords]
  | cons v records ih =>
    rw [collectRecords]
    split
    next hskip =>
      have hsucc : (skip.toInt - i).toNat = (skip.toInt - (i + 1 : ℕ)).toNat + 1 := by omega
      rw [ih, hsucc, List.drop_succ_cons]
    next hskip =>
      have hzero : (skip.toInt - i).toNat = 0 := by omega
      have hzero' : (skip.toInt - (i + 1 : ℕ)).toNat = 0 := by omega
      split
      next hfull =>
        rw [hzero, List.drop_zero, List.flatten_cons, ← List.append_assoc,
          List.take_append_of_le_length hfull]
      next =>
        rw [ih, hzero, hzero', List.drop_zero, List.drop_zero, List.flatten_cons,
          List.append_assoc]

/-- What `make_record_batch_v2` is given: at least one value, none of them empty, and a
length that fits its `int32` field. -/
def WellFormedBatch (values : List Bytes) : Prop :=
  values ≠ [] ∧ (∀ v ∈ values, v ≠ []) ∧ (makeRecords values).length + 45 < 2 ^ 31

instance : DecidablePred WellFormedBatch := fun _ => inferInstanceAs (Decidable (_ ∧ _ ∧ _))

/-- A value is part of its batch. -/
theorem length_le_of_mem {values : List Bytes} {v : Bytes} (h : v ∈ values) :
    v.length ≤ (makeRecords values).length := by
  have hsub : (makeRecord v).length ≤ (makeRecords values).length :=
    (List.sublist_flatten_of_mem (List.mem_map_of_mem h)).length_le
  have hle : v.length ≤ (makeRecord v).length := by
    simp only [makeRecord, List.length_append]
    omega
  exact hle.trans hsub

/-- A batch that fits into a window can be decoded. -/
theorem encodable_of_length_le {values : List Bytes} {maxBytes : ℕ}
    (h : (makeRecordBatchV2 values).length ≤ readLimit maxBytes) : Encodable values := by
  have hlen := length_makeRecordBatchV2 values
  have hlimit : readLimit maxBytes ≤ 10485760 := Nat.min_le_right _ _
  refine ⟨fun v hv => ?_, by omega⟩
  have hle := length_le_of_mem hv
  omega

/-- `fetch` on a window over batches that reaches the end of the batch of record `o` returns
the values from record `o` on in the complete batches of the window. -/
theorem fetchRecords_window {bs : List (List Bytes)} (hwf : ∀ vs ∈ bs, WellFormedBatch vs)
    {n o maxBytes : ℕ} {skip : Int64} (hskip : skip.toInt = o - n)
    (hread : o < n + (takeBatches (readLimit maxBytes) bs).flatten.length) (hn : n ≤ o) :
    fetchRecords ((bs.flatMap makeRecordBatchV2).take (readLimit maxBytes)) skip maxBytes =
      .ok ((((takeBatches (readLimit maxBytes) bs).flatten.drop (o - n)).flatten).take
        maxBytes) := by
  obtain ⟨tail, htake, htail⟩ := take_flatMap_batches (readLimit maxBytes) bs
  have htail' : tail = [] ∨ ∃ vs k, (makeRecords vs).length + 45 < 2 ^ 31 ∧
      k < (makeRecordBatchV2 vs).length ∧ tail = (makeRecordBatchV2 vs).take k := by
    rcases htail with h | ⟨vs, hvs, k, hk, h⟩
    · exact .inl h
    · exact .inr ⟨vs, k, (hwf vs hvs).2.2, hk, h⟩
  have hencodable : ∀ vs ∈ takeBatches (readLimit maxBytes) bs, Encodable vs := fun vs hvs =>
    encodable_of_length_le (length_le_of_mem_takeBatches hvs)
  have hne : (takeBatches (readLimit maxBytes) bs).flatten ≠ [] := by
    intro hnil
    rw [hnil, List.length_nil] at hread
    omega
  have hcount : (skip.toInt - (0 : ℕ)).toNat = o - n := by omega
  rw [fetchRecords, htake, parseRecordBatch_append hencodable htail', parsedSoFar, if_neg hne]
  dsimp only
  rw [if_neg hne, take_collectRecords, hcount, List.nil_append]

/-- These values are a non-empty prefix of all values from record `o` on. -/
theorem window_prefix {bs : List (List Bytes)} (hwf : ∀ vs ∈ bs, WellFormedBatch vs)
    {k limit maxBytes : ℕ} (hmax : 0 < maxBytes)
    (hk : k < (takeBatches limit bs).flatten.length) :
    (((takeBatches limit bs).flatten.drop k).flatten).take maxBytes ≠ [] ∧
      (((takeBatches limit bs).flatten.drop k).flatten).take maxBytes <+:
        (bs.flatten.drop k).flatten := by
  obtain ⟨rest, hrest⟩ := takeBatches_prefix limit bs
  constructor
  · obtain ⟨v, l, hv⟩ : ∃ v l, (takeBatches limit bs).flatten.drop k = v :: l :=
      List.exists_cons_of_ne_nil (List.drop_eq_nil_iff.not.mpr (by omega))
    have hmem : v ∈ bs.flatten := by
      rw [← hrest, List.flatten_append]
      exact List.mem_append_left _ (List.mem_of_mem_drop (hv ▸ List.mem_cons_self))
    obtain ⟨vs, hvs, hvmem⟩ := List.mem_flatten.mp hmem
    have hvne : v ≠ [] := (hwf vs hvs).2.1 v hvmem
    rw [hv, List.flatten_cons]
    intro hnil
    rcases List.take_eq_nil_iff.mp hnil with h | h
    · omega
    · exact hvne (List.append_eq_nil_iff.mp h).1
  · refine (List.take_prefix _ _).trans ?_
    conv_rhs => rw [← hrest]
    rw [List.flatten_append, List.drop_append_of_le_length hk.le, List.flatten_append]
    exact List.prefix_append _ _

/-! ### The file that is read -/

/-- Every segment can be read back from the directory. -/
theorem LogInv.read? {segs : List Segment} {s : PartitionStore} (inv : LogInv segs s)
    {g : Segment} (hg : g ∈ segs) : s.dir.read? (segmentName g.base) = some g.bytes := by
  have hnodup : (s.dir.map Prod.fst).Nodup := by
    rw [inv.dir, List.map_map, List.Nodup, List.pairwise_map]
    have hbase := pairwise_base inv.ne_nil inv.increasing
    rw [List.pairwise_map] at hbase
    refine hbase.imp fun hlt hname => ?_
    rw [segmentName_injective hname] at hlt
    exact lt_irrefl _ hlt
  have hmem : g.file ∈ s.dir := by
    rw [inv.dir]
    exact List.mem_map_of_mem hg
  have hfind : s.dir.find? (·.1 = segmentName g.base) = some g.file :=
    List.find?_key_of_mem hnodup hmem
  rw [Dir.read?, hfind]
  rfl

/-- A closed descriptor is opened on the segment asked for. -/
theorem readFd_ensureReadFd {c : PartitionContext} {dir : Dir} {base : Int64}
    (hname : (dir.read? (segmentName base)).isSome)
    (h : c.readFd = none ∨ c.readFd = some (segmentName base)) :
    (c.ensureReadFd dir base true).readFd = some (segmentName base) := by
  rw [ensureReadFd]
  rcases h with h | h
  · rw [h]
    dsimp only
    rw [if_pos ⟨rfl, hname⟩]
  · rw [h]
    exact h

/-- The window from a position within a file. -/
theorem readChunk_eq {dir : Dir} {name file : Bytes} (hread : dir.read? name = some file)
    {start : ℕ} (hstart : start ≤ file.length) (maxBytes : ℕ) :
    readChunk dir (some name) start maxBytes = (file.drop start).take (readLimit maxBytes) := by
  have hsize : sizeDiff file.length start = (file.drop start).length := by
    rw [sizeDiff, if_pos hstart, List.length_drop]
  rw [readChunk, Option.bind_some, hread]
  dsimp only
  rw [hsize, List.take_eq_take_iff]
  omega

/-- `fetch` once the lookup and the file are known. -/
theorem fetch_eq {c : PartitionContext} {dir : Dir} {o base entry : Int64} {maxBytes : Int32}
    {start : ℕ} {file : Bytes} (hmax : 0 < maxBytes.toInt)
    (hstart : ((c.lookup o).map SparseIndexEntry.filePosition).getD 0 = start)
    (hentry : ((c.lookup o).map SparseIndexEntry.offset).getD 0 = entry)
    (hbase : ((c.lookup o).map fun _ => c.currentSegmentBaseOffset).getD 0 = base)
    (hfd : c.readFd = none ∨ c.readFd = some (segmentName base))
    (hread : dir.read? (segmentName base) = some file) (hle : start ≤ file.length)
    (hne : (file.drop start).take (readLimit maxBytes.toInt.toNat) ≠ []) :
    (c.fetch dir o maxBytes true).2 =
      fetchRecords ((file.drop start).take (readLimit maxBytes.toInt.toNat)) (o - entry)
        maxBytes.toInt.toNat := by
  have hpos : ¬ maxBytes ≤ 0 := by
    rw [Int32.le_iff_toInt_le, Int32.toInt_zero]
    omega
  rw [fetch, if_neg hpos]
  dsimp only
  rw [hstart, hentry, hbase, readFd_ensureReadFd (Option.isSome_of_eq_some hread) hfd,
    readChunk_eq hread hle, if_neg hne]

/-- An index entry marks the start of a payload of the segment. -/
theorem Segment.mem_index {g : Segment} {pos : ℕ} {e : SparseIndexEntry}
    (h : e ∈ g.index pos) :
    ∃ l d l', g = l ++ (e.offset, d) :: l' ∧ e.filePosition = pos + (Segment.bytes l).length := by
  induction g generalizing pos with
  | nil => cases h
  | cons p g ih =>
    rcases List.mem_append.mp h with h | h
    · split at h
      · rw [List.mem_singleton.mp h]
        exact ⟨[], p.2, g, rfl, rfl⟩
      · cases h
    · obtain ⟨l, d, l', hg, hpos⟩ := ih h
      refine ⟨p :: l, d, l', by rw [hg]; rfl, ?_⟩
      rw [hpos, Segment.bytes, Segment.bytes, List.flatMap_cons, List.length_append]
      omega

/-- The lookup finds an entry of the index at or before the offset. -/
theorem lookup_spec {c : PartitionContext} {o : Int64} {e : SparseIndexEntry}
    (h : c.lookup o = some e) : e ∈ c.currentSegmentIndex ∧ e.offset.toInt ≤ o.toInt := by
  have hmem := List.mem_of_getLast? h
  refine ⟨(List.takeWhile_sublist _).subset hmem, ?_⟩
  have hle := List.mem_takeWhile_imp hmem
  rw [decide_eq_true_eq, Int64.le_iff_toInt_le] at hle
  exact hle

end TinyKafka
