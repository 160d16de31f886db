import TinyKafka.Broker.LogOffsets

/-!
# The log a partition stands for

What a partition context is for, without files and descriptors: a sequence of stored payloads
with their offsets, cut into segments. `LogInv` ties such a log to the context, the directory
and the sparse index, and `LogInv.produce` says that a `produce` appends the payload it
acknowledges to the log, either to its last segment or as a new one, and changes nothing
else.

The invariant is about contexts that write synchronously (`ring_ == nullptr`), about
complete writes, and about offsets within `int64_t`.
-/

namespace TinyKafka

open PartitionContext

/-- The payloads of one segment with their base offsets. -/
abbrev Segment := List (Int64 × Bytes)

namespace Segment

/-- The base offset of a segment is that of its first payload. -/
def base (g : Segment) : Int64 := (g.head?.map Prod.fst).getD 0

/-- The bytes of a segment. -/
def bytes (g : Segment) : Bytes := g.flatMap Prod.snd

/-- The file of a segment. -/
def file (g : Segment) : Bytes × Bytes := (segmentName g.base, g.bytes)

/-- The index entries of a segment from position `pos` on: one for every payload at an offset
divisible by `1000`. -/
def index : Segment → (pos : ℕ) → List SparseIndexEntry
  | [], _ => []
  | e :: g, pos =>
    (if e.1 % 1000 = 0 then [⟨e.1, pos⟩] else []) ++ index g (pos + e.2.length)

@[simp] theorem base_singleton (e : Int64 × Bytes) : base [e] = e.1 := rfl

theorem base_append {g : Segment} (h : g ≠ []) (l : Segment) : base (g ++ l) = base g := by
  rw [base, base, List.head?_append_of_ne_nil _ h]

theorem base_mem {g : Segment} (h : g ≠ []) : ∃ e ∈ g, e.1 = base g := by
  obtain ⟨e, l, rfl⟩ := List.exists_cons_of_ne_nil h
  exact ⟨e, List.mem_cons_self, rfl⟩

theorem bytes_append (g l : Segment) : bytes (g ++ l) = bytes g ++ bytes l :=
  List.flatMap_append

@[simp] theorem bytes_singleton (e : Int64 × Bytes) : bytes [e] = e.2 := by
  simp [bytes]

theorem index_append (g l : Segment) (pos : ℕ) :
    index (g ++ l) pos = index g pos ++ index l (pos + (bytes g).length) := by
  induction g generalizing pos with
  | nil => rfl
  | cons e g ih =>
    have hlen : (bytes (e :: g)).length = e.2.length + (bytes g).length := by
      simp [bytes]
    rw [List.cons_append, index, index, ih, hlen, List.append_assoc, Nat.add_assoc]

end Segment

/-- The payload a call has stored, with the offset it was given. -/
def LogInput.stored? : LogInput × LogOutput → Option (Int64 × Bytes)
  | (.produce _ data, out) => out.base?.map fun b => (b, data)
  | _ => none

/-- The payloads stored in a history, in call order. -/
def stored (h : List (LogInput × LogOutput)) : List (Int64 × Bytes) :=
  h.filterMap LogInput.stored?

theorem stored_concat (h : List (LogInput × LogOutput)) (e : LogInput × LogOutput) :
    stored (h ++ [e]) = stored h ++ (LogInput.stored? e).toList := by
  rw [stored, stored, List.filterMap_append, List.filterMap_cons]
  cases LogInput.stored? e <;> rfl

/-- How the current segment of a context relates to the log. -/
inductive CurrentSegment (segs : List Segment) (c : PartitionContext) : Prop
  /-- The last segment is open for writing. -/
  | live (init : List Segment) (cur : Segment) (hsegs : segs = init ++ [cur])
      (hfd : c.writeFd = some (segmentName cur.base))
      (hbase : c.currentSegmentBaseOffset = cur.base)
      (hbytes : c.currentSegmentBytes = cur.bytes.length)
      (hindex : c.currentSegmentIndex = cur.index 0)
  /-- The next payload starts a segment. -/
  | fresh (hfd : c.writeFd = none) (hbase : c.currentSegmentBaseOffset = c.nextOffset)
      (hbytes : c.currentSegmentBytes = 0) (hindex : c.currentSegmentIndex = [])

/-- The context and the directory stand for the log `segs`. -/
structure LogInv (segs : List Segment) (s : PartitionStore) : Prop where
  /-- Writes are synchronous. -/
  ring : s.ctx.ring = false
  /-- No write is left to complete. -/
  idle : s.inFlight = []
  /-- No segment is empty. -/
  ne_nil : ∀ g ∈ segs, g ≠ []
  /-- Offsets increase through the log. -/
  increasing : segs.flatten.Pairwise fun a b => a.1.toInt < b.1.toInt
  /-- The next offset is beyond those of the log. -/
  below : ∀ e ∈ segs.flatten, e.1.toInt < s.ctx.nextOffset.toInt
  nonneg : 0 ≤ s.ctx.nextOffset.toInt
  /-- The directory holds the files of the segments. -/
  dir : s.dir = segs.map Segment.file
  current : CurrentSegment segs s.ctx
  /-- A segment is within the size limit unless it holds a single payload. -/
  size : 0 < s.ctx.segmentBytes →
    ∀ g ∈ segs, g.bytes.length ≤ s.ctx.segmentBytes ∨ g.length = 1

/-- A new context stands for the empty log. -/
theorem LogInv.init (logRoot topicName : Bytes) (partition : Int32) (segmentBytes : ℕ) :
    LogInv [] (.fresh logRoot topicName partition segmentBytes false) where
  ring := rfl
  idle := rfl
  ne_nil := nofun
  increasing := List.Pairwise.nil
  below := nofun
  nonneg := le_rfl
  dir := rfl
  current := .fresh rfl rfl rfl rfl
  size := nofun

/-! ### The files -/

/-- A segment whose offset is beyond the log has no file yet. -/
theorem segmentName_not_mem {segs : List Segment} (hne : ∀ g ∈ segs, g ≠ []) {b : Int64}
    (h : ∀ e ∈ segs.flatten, e.1.toInt < b.toInt) :
    segmentName b ∉ (segs.map Segment.file).map Prod.fst := by
  intro hmem
  rw [List.map_map] at hmem
  obtain ⟨g, hg, hname⟩ := List.mem_map.mp hmem
  obtain ⟨e, he, hbase⟩ := Segment.base_mem (hne g hg)
  have hb : g.base = b := segmentName_injective hname
  have hlt := h e (List.mem_flatten_of_mem hg he)
  rw [hbase, hb] at hlt
  exact lt_irrefl _ hlt

/-- Appending to the last file of a directory. -/
theorem Dir.append_last {d : Dir} {name : Bytes} (h : name ∉ d.map Prod.fst) (x y : Bytes) :
    Dir.append (d ++ [(name, x)]) name y = d ++ [(name, x ++ y)] := by
  rw [Dir.append, List.updateKey_append_of_not_mem h]
  simp [List.updateKey]

/-- Creating a new file. -/
theorem Dir.create_new {d : Dir} {name : Bytes} (h : name ∉ d.map Prod.fst) :
    Dir.create d name = d ++ [(name, [])] := by
  rw [Dir.create, List.upsertKey, if_neg h]

/-! ### One call -/

/-- Storing a payload keeps the size and the index in step with the segment. -/
theorem store_current {c : PartitionContext} (cur : Segment)
    (hbytes : c.currentSegmentBytes = cur.bytes.length)
    (hindex : c.currentSegmentIndex = cur.index 0) (data : Bytes) (n : Int32) :
    (c.pushIndex.advance data.length n).currentSegmentBytes =
        (Segment.bytes (cur ++ [(c.nextOffset, data)])).length ∧
      (c.pushIndex.advance data.length n).currentSegmentIndex =
        Segment.index (cur ++ [(c.nextOffset, data)]) 0 := by
  rw [Segment.bytes_append, Segment.index_append, List.length_append, Segment.bytes_singleton,
    ← hbytes, ← hindex, Nat.zero_add]
  rw [advance, pushIndex]
  by_cases h : c.nextOffset % 1000 = 0
  · simp [Segment.index, h]
  · simp [Segment.index, h]

/-- A roll leaves the log alone. -/
theorem LogInv.roll {segs : List Segment} {s : PartitionStore} (inv : LogInv segs s) (n : ℕ) :
    LogInv segs { s with ctx := s.ctx.roll n } := by
  by_cases h : s.ctx.Rolls n
  · rw [PartitionContext.roll, if_pos h]
    exact { inv with current := .fresh rfl rfl rfl rfl }
  · rw [roll_of_not_rolls h]
    exact inv

/-- A payload at the next offset goes to the end of the log. -/
theorem LogInv.offsets_concat {segs : List Segment} {s s' : PartitionStore} (inv : LogInv segs s)
    (data : Bytes) (hnext : s.ctx.nextOffset.toInt < s'.ctx.nextOffset.toInt) :
    ((segs.flatten ++ [(s.ctx.nextOffset, data)]).Pairwise fun a b => a.1.toInt < b.1.toInt) ∧
      ∀ e ∈ segs.flatten ++ [(s.ctx.nextOffset, data)], e.1.toInt < s'.ctx.nextOffset.toInt := by
  constructor
  · rw [List.pairwise_append]
    refine ⟨inv.increasing, List.pairwise_singleton _ _, fun e he e' he' => ?_⟩
    rw [List.mem_singleton.mp he']
    exact inv.below e he
  · intro e he
    rcases List.mem_append.mp he with he | he
    · exact (inv.below e he).trans hnext
    · rw [List.mem_singleton.mp he]
      exact hnext

/-- The payload is appended to the open segment. -/
theorem LogInv.append {init : List Segment} {cur : Segment} {s s' : PartitionStore}
    (inv : LogInv (init ++ [cur]) s) {data : Bytes}
    (hring : s'.ctx.ring = false) (hidle : s'.inFlight = [])
    (hsb : s'.ctx.segmentBytes = s.ctx.segmentBytes)
    (hnext : s.ctx.nextOffset.toInt < s'.ctx.nextOffset.toInt)
    (hdir : s'.dir = s.dir.append (segmentName cur.base) data)
    (hcur : CurrentSegment (init ++ [cur ++ [(s.ctx.nextOffset, data)]]) s'.ctx)
    (hsize : 0 < s.ctx.segmentBytes → cur.bytes.length + data.length ≤ s.ctx.segmentBytes) :
    LogInv (init ++ [cur ++ [(s.ctx.nextOffset, data)]]) s' := by
  have hflat : (init ++ [cur ++ [(s.ctx.nextOffset, data)]]).flatten =
      (init ++ [cur]).flatten ++ [(s.ctx.nextOffset, data)] := by simp
  have hcurne : cur ≠ [] := inv.ne_nil cur (by simp)
  -- the earlier segments start below the current one, so none of them has its file name
  have hinit : ∀ e ∈ init.flatten, e.1.toInt < cur.base.toInt := by
    have hpw := inv.increasing
    rw [List.flatten_append, List.pairwise_append] at hpw
    obtain ⟨e', he', hbase⟩ := Segment.base_mem hcurne
    intro e he
    rw [← hbase]
    exact hpw.2.2 e he e' (by simpa using he')
  have hnew : segmentName cur.base ∉ (init.map Segment.file).map Prod.fst :=
    segmentName_not_mem (fun g hg => inv.ne_nil g (List.mem_append_left _ hg)) hinit
  obtain ⟨hincreasing, hbelow⟩ := inv.offsets_concat data hnext
  rw [← hflat] at hincreasing hbelow
  refine ⟨hring, hidle, ?_, hincreasing, hbelow, le_trans inv.nonneg hnext.le, ?_, hcur, ?_⟩
  · intro g hg
    rcases List.mem_append.mp hg with hg | hg
    · exact inv.ne_nil g (List.mem_append_left _ hg)
    · rw [List.mem_singleton.mp hg]
      simp
  · rw [hdir, inv.dir, List.map_append, List.map_append, List.map_singleton, List.map_singleton,
      Segment.file, Dir.append_last hnew, Segment.file, Segment.base_append hcurne,
      Segment.bytes_append, Segment.bytes_singleton]
  · rw [hsb]
    intro hpos g hg
    rcases List.mem_append.mp hg with hg | hg
    · exact inv.size hpos g (List.mem_append_left _ hg)
    · rw [List.mem_singleton.mp hg, Segment.bytes_append, Segment.bytes_singleton,
        List.length_append]
      exact .inl (hsize hpos)

/-- The payload starts a segment of its own. -/
theorem LogInv.start {segs : List Segment} {s s' : PartitionStore} (inv : LogInv segs s)
    {data : Bytes} (hring : s'.ctx.ring = false) (hidle : s'.inFlight = [])
    (hsb : s'.ctx.segmentBytes = s.ctx.segmentBytes)
    (hnext : s.ctx.nextOffset.toInt < s'.ctx.nextOffset.toInt)
    (hdir : s'.dir = (s.dir.create (segmentName s.ctx.nextOffset)).append
      (segmentName s.ctx.nextOffset) data)
    (hcur : CurrentSegment (segs ++ [[(s.ctx.nextOffset, data)]]) s'.ctx) :
    LogInv (segs ++ [[(s.ctx.nextOffset, data)]]) s' := by
  have hflat : (segs ++ [[(s.ctx.nextOffset, data)]]).flatten =
      segs.flatten ++ [(s.ctx.nextOffset, data)] := by simp
  have hnew := segmentName_not_mem inv.ne_nil inv.below
  obtain ⟨hincreasing, hbelow⟩ := inv.offsets_concat data hnext
  rw [← hflat] at hincreasing hbelow
  refine ⟨hring, hidle, ?_, hincreasing, hbelow, le_trans inv.nonneg hnext.le, ?_, hcur, ?_⟩
  · intro g hg
    rcases List.mem_append.mp hg with hg | hg
    · exact inv.ne_nil g hg
    · rw [List.mem_singleton.mp hg]
      simp
  · rw [hdir, inv.dir, Dir.create_new hnew, Dir.append_last hnew, List.map_append]
    simp [Segment.file]
  · rw [hsb]
    intro hpos g hg
    rcases List.mem_append.mp hg with hg | hg
    · exact inv.size hpos g hg
    · rw [List.mem_singleton.mp hg]
      exact .inr rfl

/-- A call that is taken up at an offset that is not negative moves the next offset up. -/
theorem nextOffset_lt_of_advances {s : PartitionStore} {env : ProduceEnv} {data : Bytes}
    {n : Int32} (hok : AdvancesForward s (.produce env data)) (htaken : TakenUp s env data n)
    (h0 : 0 ≤ s.ctx.nextOffset.toInt) :
    s.ctx.nextOffset.toInt < (s.ctx.nextOffset + n.toInt64).toInt := by
  have h0' : 0 ≤ s.ctx.nextOffset := by
    rw [Int64.le_iff_toInt_le, Int64.toInt_zero]
    exact h0
  obtain ⟨hn, hlt⟩ := hok n htaken h0'
  rw [toInt_add_toInt64 h0, if_pos hlt]
  omega

/-- The result of a stored payload, as the history sees it. -/
theorem stored?_produced {s : PartitionStore} {env : ProduceEnv} {data : Bytes}
    {r : ProduceResult} (hr : r.baseOffset = s.ctx.nextOffset)
    (h0 : 0 ≤ s.ctx.nextOffset.toInt) :
    LogInput.stored? (.produce env data, .produced r) = some (s.ctx.nextOffset, data) := by
  have h0' : 0 ≤ s.ctx.nextOffset := by
    rw [Int64.le_iff_toInt_le, Int64.toInt_zero]
    exact h0
  rw [LogInput.stored?, LogOutput.base?, hr, if_pos h0']
  rfl

/-- The store when `produce` has ended in `p`. -/
def PartitionStore.after (s : PartitionStore) (p : Produced) : PartitionStore :=
  ⟨p.ctx, p.dir, s.inFlight ++ p.submission.toList⟩

/-- The payload is stored in the segment that is open. -/
theorem LogInv.store_live {init : List Segment} {cur : Segment} {s : PartitionStore}
    (inv : LogInv (init ++ [cur]) s) {env : ProduceEnv} {data : Bytes} {n : Int32}
    (hwrite : data.length ≤ env.written) (hroll : ¬ s.ctx.Rolls data.length)
    (hlt : s.ctx.nextOffset.toInt < (s.ctx.nextOffset + n.toInt64).toInt)
    (hfd : s.ctx.writeFd = some (segmentName cur.base))
    (hbase : s.ctx.currentSegmentBaseOffset = cur.base)
    (hbytes : s.ctx.currentSegmentBytes = cur.bytes.length)
    (hindex : s.ctx.currentSegmentIndex = cur.index 0) :
    LogInv (init ++ [cur ++ [(s.ctx.nextOffset, data)]])
      (s.after (s.ctx.store s.dir env (segmentName cur.base) data n)) := by
  have hdata : data.take env.written = data := List.take_of_length_le hwrite
  have hcurne : cur ≠ [] := inv.ne_nil cur (by simp)
  obtain ⟨hbytes', hindex'⟩ := store_current cur hbytes hindex data n
  obtain ⟨hring, hsb, hwfd, hwbase⟩ := store_frame s.ctx s.dir env (segmentName cur.base) data n
  refine inv.append (hring.trans inv.ring) ?_ hsb ?_ ?_ ?_ ?_
  · simp [PartitionStore.after, store, writePayload, inv.ring, inv.idle]
  · simpa [PartitionStore.after, store, advance] using hlt
  · simp [PartitionStore.after, store, writePayload, inv.ring, hdata]
  · refine .live init _ rfl ?_ ?_ hbytes' hindex'
    · rw [Segment.base_append hcurne, ← hfd]
      exact hwfd
    · rw [Segment.base_append hcurne, ← hbase]
      exact hwbase
  · intro hpos
    rw [← hbytes]
    rw [Rolls] at hroll
    omega

/-- The payload is stored in a segment that has just been opened at the next offset. -/
theorem LogInv.store_fresh {segs : List Segment} {s : PartitionStore} (inv : LogInv segs s)
    {env : ProduceEnv} {data : Bytes} {n : Int32} (hwrite : data.length ≤ env.written)
    (hlt : s.ctx.nextOffset.toInt < (s.ctx.nextOffset + n.toInt64).toInt)
    (hbase : s.ctx.currentSegmentBaseOffset = s.ctx.nextOffset)
    (hbytes : s.ctx.currentSegmentBytes = 0) (hindex : s.ctx.currentSegmentIndex = []) :
    LogInv (segs ++ [[(s.ctx.nextOffset, data)]])
      (s.after (s.ctx.openCurrent.store
        (s.dir.create (segmentName s.ctx.currentSegmentBaseOffset)) env
        (segmentName s.ctx.currentSegmentBaseOffset) data n)) := by
  have hdata : data.take env.written = data := List.take_of_length_le hwrite
  have hopen : s.ctx.openCurrent.ring = false := inv.ring
  obtain ⟨hbytes', hindex'⟩ := store_current (c := s.ctx.openCurrent) [] hbytes hindex data n
  obtain ⟨hring, hsb, hwfd, hwbase⟩ := store_frame s.ctx.openCurrent
    (s.dir.create (segmentName s.ctx.currentSegmentBaseOffset)) env
    (segmentName s.ctx.currentSegmentBaseOffset) data n
  refine inv.start (hring.trans hopen) ?_ hsb ?_ ?_ ?_
  · simp [PartitionStore.after, store, writePayload, hopen, inv.idle]
  · simpa [PartitionStore.after, store, advance, openCurrent] using hlt
  · simp [PartitionStore.after, store, writePayload, hopen, hdata, hbase]
  · refine .live segs _ rfl ?_ ?_ hbytes' hindex'
    · rw [Segment.base_singleton, ← hbase]
      exact hwfd
    · rw [Segment.base_singleton, ← hbase]
      exact hwbase

/-- **Step lemma**: a complete `produce` appends to the log the payload it acknowledges, and
nothing otherwise. -/
theorem LogInv.produce {segs : List Segment} {s : PartitionStore} (inv : LogInv segs s)
    {env : ProduceEnv} {data : Bytes} (hok : AdvancesForward s (.produce env data))
    (hwrite : data.length ≤ env.written) :
    ∃ segs', LogInv segs' (s.produce env data).1 ∧
      segs'.flatten = segs.flatten ++
        (LogInput.stored? (.produce env data, .produced (s.produce env data).2)).toList := by
  have hstep := produceStep s.ctx s.dir env data
  have hsame : s.inFlight ++ (none : Option Submission).toList = s.inFlight := by simp
  simp only [PartitionStore.produce]
  generalize s.ctx.produce s.dir env data = p at hstep
  cases hstep with
  | rejected h =>
    refine ⟨segs, ?_, (List.append_nil _).symm⟩
    rw [hsame]
    exact inv
  | openFailed n hn hdirs hfd hopen =>
    refine ⟨segs, ?_, (List.append_nil _).symm⟩
    rw [hsame]
    exact inv.roll data.length
  | appended n name hn hdirs hroll hfd =>
    have htaken : TakenUp s env data n := ⟨hn, hdirs, .inl ⟨hroll, by rw [hfd]; simp⟩⟩
    have hlt := nextOffset_lt_of_advances hok htaken inv.nonneg
    rcases inv.current with ⟨init, cur, rfl, hfd', hbase, hbytes, hindex⟩ | ⟨hfd', -⟩
    · obtain rfl : name = segmentName cur.base := Option.some.inj (hfd.symm.trans hfd')
      refine ⟨_, inv.store_live hwrite hroll hlt hfd hbase hbytes hindex, ?_⟩
      rw [stored?_produced rfl inv.nonneg]
      simp
    · rw [hfd'] at hfd
      cases hfd
  | opened n hn hdirs hfd hopen =>
    have htaken : TakenUp s env data n := ⟨hn, hdirs, .inr hopen⟩
    have hlt := nextOffset_lt_of_advances hok htaken inv.nonneg
    have hnext : (s.ctx.roll data.length).nextOffset = s.ctx.nextOffset := nextOffset_roll _ _
    -- With no open segment the next one starts at the next offset.
    rcases (inv.roll data.length).current with ⟨init, cur, -, hfd', -⟩ | ⟨-, hbase, hbytes, hindex⟩
    · dsimp only at hfd'
      rw [hfd] at hfd'
      cases hfd'
    · rw [← hnext] at hlt
      refine ⟨_, (inv.roll data.length).store_fresh hwrite hlt hbase hbytes hindex, ?_⟩
      rw [stored?_produced hnext inv.nonneg]
      simp

/-- The calls other than `produce` leave the log alone. -/
theorem LogInv.other {segs : List Segment} {s : PartitionStore} (inv : LogInv segs s)
    {i : LogInput} (hp : ∀ env data, i ≠ .produce env data) :
    LogInv segs (logMachine.next s i) := by
  by_cases hc : ∃ k written, i = .complete k written
  · obtain ⟨k, written, rfl⟩ := hc
    have hnext : logMachine.next s (.complete k written) = s := by
      simp [logMachine, Machine.next, PartitionStore.complete, inv.idle]
    rw [hnext]
    exact inv
  · obtain ⟨fd, hfd⟩ := next_of_not_produce s hp fun k written he => hc ⟨k, written, he⟩
    rw [hfd]
    refine { inv with current := ?_ }
    rcases inv.current with ⟨init, cur, hsegs, hwfd, hbase, hbytes, hindex⟩ |
      ⟨hwfd, hbase, hbytes, hindex⟩
    · exact .live init cur hsegs hwfd hbase hbytes hindex
    · exact .fresh hwfd hbase hbytes hindex

/-! ### Runs -/

/-- The write of a `produce` is complete. -/
def LogInput.CompleteWrite : LogInput → Prop
  | .produce env data => data.length ≤ env.written
  | _ => True

instance : DecidablePred LogInput.CompleteWrite
  | .produce _ _ => inferInstanceAs (Decidable (_ ≤ _))
  | .fetchAll | .fetch _ _ _ | .spliceInfo _ _ | .fileFd _ | .complete _ _ => .isTrue trivial

/-- **Run lemma**: after every run of complete writes that advances forward, the context
stands for a log of exactly the payloads that were stored, in call order. -/
theorem LogInv.of_run {logRoot topicName : Bytes} {partition : Int32} {segmentBytes : ℕ}
    {run : List LogInput}
    (hw : logMachine.Within (fun s i => i.CompleteWrite ∧ AdvancesForward s i)
      (.fresh logRoot topicName partition segmentBytes false) run) :
    ∃ segs, LogInv segs
        (logMachine.exec (.fresh logRoot topicName partition segmentBytes false) run) ∧
      segs.flatten = stored
        (logMachine.trace (.fresh logRoot topicName partition segmentBytes false) run) := by
  have hstep : ∀ (h : List (LogInput × LogOutput)) (s : PartitionStore) (i : LogInput),
      (∃ segs, LogInv segs s ∧ segs.flatten = stored h) → i.CompleteWrite ∧ AdvancesForward s i →
      ∃ segs, LogInv segs (logMachine.next s i) ∧
        segs.flatten = stored (h ++ [(i, logMachine.out s i)]) := by
    rintro h s i ⟨segs, inv, hsegs⟩ ⟨hwrite, hok⟩
    rw [stored_concat]
    by_cases hp : ∃ env data, i = .produce env data
    · obtain ⟨env, data, rfl⟩ := hp
      obtain ⟨segs', inv', hsegs'⟩ := inv.produce hok hwrite
      exact ⟨segs', inv', by rw [hsegs', hsegs]; rfl⟩
    · refine ⟨segs, inv.other fun env data he => hp ⟨env, data, he⟩, ?_⟩
      have hnone : LogInput.stored? (i, logMachine.out s i) = none := by
        cases i with
        | produce env data => exact absurd ⟨env, data, rfl⟩ hp
        | _ => rfl
      rw [hnone, Option.toList_none, List.append_nil, hsegs]
  have hinit := LogInv.init logRoot topicName partition segmentBytes
  exact Machine.invariant_trace hstep (h := []) ⟨[], hinit, rfl⟩ hw

end TinyKafka
