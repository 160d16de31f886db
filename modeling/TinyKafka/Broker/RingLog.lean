import TinyKafka.Broker.LogContent

/-!
# The log while writes are on their way

In the server every context has a ring: `produce` answers as soon as the write has been
submitted, and the kernel does the submitted writes later, in any order. Without a free
submission entry `produce` writes at once, ahead of the writes that are still in flight.

`writesDone` lists the writes that have been done in a run, in the order in which they were.
Nothing is lost and nothing is written twice (`ringLog_of_advances`): the writes done and those
in flight are together the payloads that were acknowledged, each going to the file of its
segment, and a file holds what the writes to it have brought. If the kernel does the writes in
the order of their submission, what is in flight is the end of the log, and `fetch()` returns
the rest. `RingInv` is the invariant behind this.

Nothing is assumed about how much of a payload a write brings to the file.
-/

namespace TinyKafka

open PartitionContext

/-- The writes that bring the payloads of a segment to its file. -/
def Segment.writes (g : Segment) : List Submission := g.map fun e => ⟨segmentName g.base, e.2⟩

/-- The bytes that writes, done in this order, have brought to a file. A write comes with the
number of bytes the kernel has written. -/
def fileContent (landed : List (Submission × ℕ)) (name : Bytes) : Bytes :=
  (landed.filter (·.1.name = name)).flatMap fun x => x.1.data.take x.2

theorem fileContent_concat (landed : List (Submission × ℕ)) (x : Submission × ℕ) (name : Bytes) :
    fileContent (landed ++ [x]) name =
      fileContent landed name ++ if x.1.name = name then x.1.data.take x.2 else [] := by
  rw [fileContent, fileContent, List.filter_append, List.flatMap_append, List.filter_singleton]
  by_cases h : x.1.name = name
  · simp [h]
  · simp [h]

theorem fileContent_of_notMem {landed : List (Submission × ℕ)} {name : Bytes}
    (h : ∀ x ∈ landed, x.1.name ≠ name) : fileContent landed name = [] := by
  have hnone : landed.filter (·.1.name = name) = [] :=
    List.filter_eq_nil_iff.mpr fun x hx => by simpa using h x hx
  rw [fileContent, hnone]
  rfl

/-- The write that `produce` has done itself, with the number of bytes: that of a payload which
was taken up and did not go to the ring. -/
def PartitionContext.Produced.written (p : Produced) (env : ProduceEnv) (data : Bytes) :
    Option (Submission × ℕ) :=
  if p.submission.isSome ∨ p.result.baseOffset < 0 then none
  else p.ctx.writeFd.map fun name => (⟨name, data⟩, env.written)

/-- The write to a segment file that is done in a step. -/
def writeDone (s : PartitionStore) : LogInput → Option (Submission × ℕ)
  | .produce env data => (s.ctx.produce s.dir env data).written env data
  | .complete k written => s.inFlight[k]?.map fun w => (w, written)
  | _ => none

/-- The writes done in a run, in the order in which they were. -/
def writesDone (s₀ : PartitionStore) (run : List LogInput) : List (Submission × ℕ) :=
  logMachine.observed writeDone s₀ run

/-- The step is in the order of submission: the write that completes is the oldest, and no
payload is written ahead of those in flight. -/
def InOrder (s : PartitionStore) : LogInput → Prop
  | .produce env _ => s.ctx.ring = true ∧ env.sqe = true ∨ s.inFlight = []
  | .complete k _ => k = 0
  | _ => True

/-- The context, the directory and the writes in flight stand for the log `segs`, of which the
writes `landed` have been done. Where `ordered` holds, they were done in the order of the log. -/
structure RingInv (ordered : Prop) (segs : List Segment) (landed : List (Submission × ℕ))
    (s : PartitionStore) : Prop where
  /-- No segment is empty. -/
  ne_nil : ∀ g ∈ segs, g ≠ []
  /-- Offsets increase through the log. -/
  increasing : segs.flatten.Pairwise fun a b => a.1.toInt < b.1.toInt
  /-- The next offset is beyond those of the log. -/
  below : ∀ e ∈ segs.flatten, e.1.toInt < s.ctx.nextOffset.toInt
  nonneg : 0 ≤ s.ctx.nextOffset.toInt
  /-- The directory holds the files of the segments, as far as they are written. -/
  dir : s.dir = segs.map fun g => (segmentName g.base, fileContent landed (segmentName g.base))
  /-- The writes done and those in flight are those of the log. -/
  writes : (landed.map Prod.fst ++ s.inFlight).Perm (segs.flatMap Segment.writes)
  inOrder : ordered → landed.map Prod.fst ++ s.inFlight = segs.flatMap Segment.writes
  current : CurrentSegment segs s.ctx

namespace RingInv

variable {ordered : Prop} {segs : List Segment} {landed : List (Submission × ℕ)}
  {s : PartitionStore}

/-- A new context stands for the empty log. -/
theorem init (logRoot topicName : Bytes) (partition : Int32) (segmentBytes : ℕ) (ring : Bool) :
    RingInv ordered [] [] (.fresh logRoot topicName partition segmentBytes ring) where
  ne_nil := nofun
  increasing := List.Pairwise.nil
  below := nofun
  nonneg := le_rfl
  dir := rfl
  writes := .refl _
  inOrder _ := rfl
  current := .fresh rfl rfl rfl rfl

/-- The segments have files of their own. -/
theorem nodup (inv : RingInv ordered segs landed s) :
    (segs.map fun g => segmentName g.base).Nodup := by
  have hbase := pairwise_base inv.ne_nil inv.increasing
  rw [List.Nodup, List.pairwise_map]
  rw [List.pairwise_map] at hbase
  refine hbase.imp fun hlt hname => ?_
  rw [segmentName_injective hname] at hlt
  exact lt_irrefl _ hlt

/-- A write of the log goes to the file of one of its segments. -/
theorem exists_of_mem_writes {w : Submission} (hw : w ∈ segs.flatMap Segment.writes) :
    ∃ g ∈ segs, w.name = segmentName g.base := by
  obtain ⟨g, hg, hmem⟩ := List.mem_flatMap.mp hw
  obtain ⟨e, -, rfl⟩ := List.mem_map.mp hmem
  exact ⟨g, hg, rfl⟩

/-- The next offset names no file yet. -/
theorem fileContent_new (inv : RingInv ordered segs landed s) :
    fileContent landed (segmentName s.ctx.nextOffset) = [] := by
  refine fileContent_of_notMem fun x hx hname => ?_
  have hw : x.1 ∈ segs.flatMap Segment.writes :=
    inv.writes.subset (List.mem_append_left _ (List.mem_map_of_mem hx))
  obtain ⟨g, hg, hg'⟩ := exists_of_mem_writes hw
  refine segmentName_not_mem inv.ne_nil inv.below ?_
  rw [List.map_map]
  exact List.mem_map.mpr ⟨g, hg, hg'.symm.trans hname⟩

/-- A roll leaves the log alone. -/
theorem roll (inv : RingInv ordered segs landed s) (n : ℕ) :
    RingInv ordered segs landed { s with ctx := s.ctx.roll n } := by
  by_cases h : s.ctx.Rolls n
  · rw [PartitionContext.roll, if_pos h]
    exact { inv with current := .fresh rfl rfl rfl rfl }
  · rw [roll_of_not_rolls h]
    exact inv

/-! ### A write is done -/

/-- One write less in flight, one more in a file. -/
theorem land (inv : RingInv ordered segs landed s) {k : ℕ} {w : Submission}
    (hk : s.inFlight[k]? = some w) (written : ℕ) (hfirst : ordered → k = 0) :
    RingInv ordered segs (landed ++ [(w, written)]) (s.complete k written) := by
  have hcomplete : s.complete k written =
      { s with dir := s.dir.append w.name (w.data.take written)
               inFlight := s.inFlight.eraseIdx k } := by
    rw [PartitionStore.complete, hk]
  rw [hcomplete]
  refine ⟨inv.ne_nil, inv.increasing, inv.below, inv.nonneg, ?_, ?_, fun hord => ?_, inv.current⟩
  · dsimp only
    rw [inv.dir, Dir.append, List.updateKey_eq_map (by rw [List.map_map]; exact inv.nodup),
      List.map_map]
    refine List.map_congr_left fun g _ => ?_
    rw [Function.comp_apply, fileContent_concat]
    by_cases hname : segmentName g.base = w.name
    · rw [if_pos hname, if_pos hname.symm]
    · rw [if_neg hname, if_neg (Ne.symm hname), List.append_nil]
  · obtain ⟨hlt, rfl⟩ := List.getElem?_eq_some_iff.mp hk
    rw [List.map_append, List.append_assoc]
    exact ((List.getElem_cons_eraseIdx_perm hlt).append_left _).trans inv.writes
  · obtain rfl := hfirst hord
    rw [← inv.inOrder hord, List.map_append, List.append_assoc]
    rcases hflight : s.inFlight with _ | ⟨w', rest⟩
    · rw [hflight] at hk
      cases hk
    · rw [hflight] at hk
      cases hk
      rfl

/-! ### A payload is submitted -/

/-- The offsets after a payload at the next one. -/
theorem offsets_concat (inv : RingInv ordered segs landed s) (data : Bytes) {next : Int64}
    (hnext : s.ctx.nextOffset.toInt < next.toInt) :
    ((segs.flatten ++ [(s.ctx.nextOffset, data)]).Pairwise fun a b => a.1.toInt < b.1.toInt) ∧
      ∀ e ∈ segs.flatten ++ [(s.ctx.nextOffset, data)], e.1.toInt < next.toInt := by
  constructor
  · rw [List.pairwise_append]
    refine ⟨inv.increasing, List.pairwise_singleton _ _, fun e he e' he' => ?_⟩
    rw [List.mem_singleton.mp he']
    exact inv.below e he
  · intro e he
    rcases List.mem_append.mp he with he | he
    · exact (inv.below e he).trans hnext
    · rw [List.mem_singleton.mp he]
      exact hnext

/-- One more write in flight is one more payload at the end of the log. -/
theorem submit (inv : RingInv ordered segs landed s) {segs' : List Segment} {s' : PartitionStore}
    {data name : Bytes} (hne : ∀ g ∈ segs', g ≠ [])
    (hflat : segs'.flatten = segs.flatten ++ [(s.ctx.nextOffset, data)])
    (hwrites : segs'.flatMap Segment.writes = segs.flatMap Segment.writes ++ [⟨name, data⟩])
    (hnext : s.ctx.nextOffset.toInt < s'.ctx.nextOffset.toInt)
    (hdir : s'.dir = segs'.map fun g =>
      (segmentName g.base, fileContent landed (segmentName g.base)))
    (hflight : s'.inFlight = s.inFlight ++ [⟨name, data⟩])
    (hcur : CurrentSegment segs' s'.ctx) : RingInv ordered segs' landed s' := by
  obtain ⟨hincreasing, hbelow⟩ := inv.offsets_concat data hnext
  rw [← hflat] at hincreasing hbelow
  refine ⟨hne, hincreasing, hbelow, le_trans inv.nonneg hnext.le, hdir, ?_, fun hord => ?_, hcur⟩
  · rw [hflight, hwrites, ← List.append_assoc]
    exact inv.writes.append_right _
  · rw [hflight, hwrites, ← List.append_assoc, inv.inOrder hord]

/-- The payload goes to the open segment. -/
theorem submit_live {init : List Segment} {cur : Segment}
    (inv : RingInv ordered (init ++ [cur]) landed s) (data : Bytes) {n : Int32}
    (hlt : s.ctx.nextOffset.toInt < (s.ctx.nextOffset + n.toInt64).toInt)
    (hfd : s.ctx.writeFd = some (segmentName cur.base))
    (hbase : s.ctx.currentSegmentBaseOffset = cur.base)
    (hbytes : s.ctx.currentSegmentBytes = cur.bytes.length)
    (hindex : s.ctx.currentSegmentIndex = cur.index 0) :
    RingInv ordered (init ++ [cur ++ [(s.ctx.nextOffset, data)]]) landed
      ⟨s.ctx.pushIndex.advance data.length n, s.dir,
        s.inFlight ++ [⟨segmentName cur.base, data⟩]⟩ := by
  have hcurne : cur ≠ [] := inv.ne_nil cur (by simp)
  obtain ⟨hbytes', hindex'⟩ := store_current cur hbytes hindex data n
  obtain ⟨entries, hpush⟩ := pushIndex_eq s.ctx
  have hinit : ∀ g ∈ init, g ≠ [] := fun g hg => inv.ne_nil g (List.mem_append_left _ hg)
  refine inv.submit (List.forall_mem_append.mpr ⟨hinit, by simp⟩) (by simp) ?_ ?_ ?_ rfl ?_
  · simp [Segment.writes, Segment.base_append hcurne]
  · simpa [advance] using hlt
  · simp [inv.dir, Segment.base_append hcurne]
  · refine .live init _ rfl ?_ ?_ hbytes' hindex'
    · rw [Segment.base_append hcurne, ← hfd, hpush]
      rfl
    · rw [Segment.base_append hcurne, ← hbase, hpush]
      rfl

/-- The payload starts a segment, whose file has been created for it. -/
theorem submit_fresh (inv : RingInv ordered segs landed s) (data : Bytes) {n : Int32}
    (hlt : s.ctx.nextOffset.toInt < (s.ctx.nextOffset + n.toInt64).toInt)
    (hbase : s.ctx.currentSegmentBaseOffset = s.ctx.nextOffset)
    (hbytes : s.ctx.currentSegmentBytes = 0) (hindex : s.ctx.currentSegmentIndex = []) :
    RingInv ordered (segs ++ [[(s.ctx.nextOffset, data)]]) landed
      ⟨s.ctx.openCurrent.pushIndex.advance data.length n,
        s.dir.create (segmentName s.ctx.currentSegmentBaseOffset),
        s.inFlight ++ [⟨segmentName s.ctx.currentSegmentBaseOffset, data⟩]⟩ := by
  have hnew : segmentName s.ctx.nextOffset ∉ s.dir.map Prod.fst := by
    have h := segmentName_not_mem inv.ne_nil inv.below
    rw [List.map_map] at h
    rw [inv.dir, List.map_map]
    exact h
  obtain ⟨hbytes', hindex'⟩ := store_current (c := s.ctx.openCurrent) [] hbytes hindex data n
  obtain ⟨entries, hpush⟩ := pushIndex_eq s.ctx.openCurrent
  rw [hbase]
  refine inv.submit (List.forall_mem_append.mpr ⟨inv.ne_nil, by simp⟩) (by simp) ?_ ?_ ?_ rfl ?_
  · simp [Segment.writes]
  · simpa [advance, openCurrent] using hlt
  · rw [Dir.create_new hnew, inv.dir, List.map_append, List.map_singleton,
      Segment.base_singleton, inv.fileContent_new]
  · refine .live segs _ rfl ?_ ?_ hbytes' hindex'
    · rw [Segment.base_singleton, ← hbase, hpush]
      rfl
    · rw [Segment.base_singleton, ← hbase, hpush]
      rfl

/-! ### One call -/

/-- A payload is submitted; without an entry for it, or without a ring, the write is done on the
spot, which is a completion of the last write in flight. -/
theorem store {c : PartitionContext} {dir : Dir} {name data : Bytes} {n : Int32}
    (inv : RingInv ordered segs landed
      ⟨c.pushIndex.advance data.length n, dir, s.inFlight ++ [⟨name, data⟩]⟩) (env : ProduceEnv)
    (hfd : c.writeFd = some name) (h0 : 0 ≤ c.nextOffset.toInt)
    (hord : ordered → c.ring = true ∧ env.sqe = true ∨ s.inFlight = []) :
    RingInv ordered segs
      (landed ++ ((c.store dir env name data n).written env data).toList)
      (s.after (c.store dir env name data n)) := by
  by_cases hring : c.ring = true ∧ env.sqe = true
  · simpa [PartitionStore.after, Produced.written, PartitionContext.store, writePayload, hring]
      using inv
  · have hlast := inv.land (k := s.inFlight.length) (w := ⟨name, data⟩) List.getElem?_concat_length
      env.written fun ho => by
        rw [(hord ho).resolve_left hring]
        rfl
    have hbase : ¬ c.nextOffset < 0 := by
      rw [Int64.lt_iff_toInt_lt, Int64.toInt_zero]
      omega
    have hwritten : (c.store dir env name data n).written env data =
        some (⟨name, data⟩, env.written) := by
      have hwfd := (store_frame c dir env name data n).2.2.1
      rw [Produced.written, hwfd, hfd]
      simp [PartitionContext.store, writePayload, hring, hbase]
    rw [hwritten]
    simpa [PartitionStore.complete, PartitionStore.after, PartitionContext.store, writePayload,
      hring, List.eraseIdx_append_of_length_le] using hlast

/-- **Step lemma**: a `produce` adds to the log the payload it acknowledges, and nothing
otherwise. -/
theorem produce (inv : RingInv ordered segs landed s) {env : ProduceEnv} {data : Bytes}
    (hok : AdvancesForward s (.produce env data))
    (hord : ordered → InOrder s (.produce env data)) :
    ∃ segs', RingInv ordered segs' (landed ++ (writeDone s (.produce env data)).toList)
        (s.produce env data).1 ∧
      segs'.flatten = segs.flatten ++
        (LogInput.stored? (.produce env data, .produced (s.produce env data).2)).toList := by
  have hstep := produceStep s.ctx s.dir env data
  have hsame : s.inFlight ++ (none : Option Submission).toList = s.inFlight := by simp
  have hnone : landed ++ (none : Option (Submission × ℕ)).toList = landed := by simp
  have hfailed : (-1 : Int64) < 0 := by decide
  simp only [PartitionStore.produce, writeDone]
  generalize s.ctx.produce s.dir env data = p at hstep
  cases hstep with
  | rejected h =>
    refine ⟨segs, ?_, (List.append_nil _).symm⟩
    rw [hsame, Produced.written, if_pos (.inr hfailed), hnone]
    exact inv
  | openFailed n hn hdirs hfd hopen =>
    refine ⟨segs, ?_, (List.append_nil _).symm⟩
    rw [hsame, Produced.written, if_pos (.inr hfailed), hnone]
    exact inv.roll data.length
  | appended n name hn hdirs hroll hfd =>
    have htaken : TakenUp s env data n := ⟨hn, hdirs, .inl ⟨hroll, by rw [hfd]; simp⟩⟩
    have hlt := nextOffset_lt_of_advances hok htaken inv.nonneg
    rcases inv.current with ⟨init, cur, rfl, hfd', hbase, hbytes, hindex⟩ | ⟨hfd', -⟩
    · obtain rfl : name = segmentName cur.base := Option.some.inj (hfd.symm.trans hfd')
      have hsubmitted := inv.submit_live data hlt hfd hbase hbytes hindex
      refine ⟨_, hsubmitted.store env hfd inv.nonneg hord, ?_⟩
      rw [stored?_produced rfl inv.nonneg]
      simp
    · rw [hfd'] at hfd
      cases hfd
  | opened n hn hdirs hfd hopen =>
    have htaken : TakenUp s env data n := ⟨hn, hdirs, .inr hopen⟩
    have hlt := nextOffset_lt_of_advances hok htaken inv.nonneg
    have hnext : (s.ctx.roll data.length).nextOffset = s.ctx.nextOffset := nextOffset_roll _ _
    -- With no open segment the next one starts at the next offset.
    rcases (inv.roll data.length).current with ⟨init, cur, -, hfd', -⟩ | ⟨-, hbase, hbytes, hindex⟩
    · dsimp only at hfd'
      rw [hfd] at hfd'
      cases hfd'
    · rw [← hnext] at hlt
      have hring : (s.ctx.roll data.length).ring = s.ctx.ring := by
        rw [PartitionContext.roll]
        split <;> rfl
      have hsubmitted := (inv.roll data.length).submit_fresh data hlt hbase hbytes hindex
      have hord' : ordered →
          (s.ctx.roll data.length).openCurrent.ring = true ∧ env.sqe = true ∨ s.inFlight = [] := by
        intro ho
        rw [openCurrent, hring]
        exact hord ho
      refine ⟨_, hsubmitted.store env rfl (inv.roll data.length).nonneg hord', ?_⟩
      rw [stored?_produced hnext inv.nonneg]
      simp

/-- The calls other than `produce` leave the log alone; one write of it may complete. -/
theorem other (inv : RingInv ordered segs landed s) {i : LogInput}
    (hp : ∀ env data, i ≠ .produce env data) (hord : ordered → InOrder s i) :
    RingInv ordered segs (landed ++ (writeDone s i).toList) (logMachine.next s i) := by
  by_cases hc : ∃ k written, i = .complete k written
  · obtain ⟨k, written, rfl⟩ := hc
    rcases hk : s.inFlight[k]? with _ | w
    · have hnext : logMachine.next s (.complete k written) = s := by
        simp [logMachine, Machine.next, PartitionStore.complete, hk]
      rw [hnext, writeDone, hk]
      simpa using inv
    · rw [writeDone, hk]
      exact inv.land hk written hord
  · obtain ⟨fd, hfd⟩ := next_of_not_produce s hp fun k written he => hc ⟨k, written, he⟩
    have hnone : writeDone s i = none := by
      cases i with
      | produce env data => exact absurd rfl (hp env data)
      | complete k written => exact absurd ⟨k, written, rfl⟩ hc
      | _ => rfl
    rw [hfd, hnone, Option.toList_none, List.append_nil]
    refine { inv with current := ?_ }
    rcases inv.current with ⟨init, cur, hsegs, hwfd, hbase, hbytes, hindex⟩ |
      ⟨hwfd, hbase, hbytes, hindex⟩
    · exact .live init cur hsegs hwfd hbase hbytes hindex
    · exact .fresh hwfd hbase hbytes hindex

/-- **Run lemma**: after every run that advances forward the context stands for the log of the
payloads that were acknowledged. -/
theorem of_run {logRoot topicName : Bytes} {partition : Int32} {segmentBytes : ℕ} {ring : Bool}
    {s₀ : PartitionStore} (hs₀ : s₀ = .fresh logRoot topicName partition segmentBytes ring)
    {run : List LogInput} (hw : logMachine.Within AdvancesForward s₀ run)
    (hord : ordered → logMachine.Within InOrder s₀ run) :
    ∃ segs, RingInv ordered segs (writesDone s₀ run) (logMachine.exec s₀ run) ∧
      segs.flatten = stored (logMachine.trace s₀ run) := by
  have hboth : logMachine.Within (fun s i => AdvancesForward s i ∧ (ordered → InOrder s i))
      s₀ run :=
    hw.and (Machine.within_iff _ |>.mpr fun pre i post he ho =>
      (Machine.within_iff _ |>.mp (hord ho)) pre i post he)
  refine Machine.invariant_inputs (I := fun pre s => ∃ segs,
    RingInv ordered segs (writesDone s₀ pre) s ∧ segs.flatten = stored (logMachine.trace s₀ pre))
    ?_ ⟨[], hs₀ ▸ init logRoot topicName partition segmentBytes ring, rfl⟩ hboth
  rintro pre i ⟨segs, inv, hsegs⟩ ⟨hok, hord⟩
  have htrace : logMachine.trace s₀ (pre ++ [i]) =
      logMachine.trace s₀ pre ++ [(i, logMachine.out (logMachine.exec s₀ pre) i)] := by
    rw [Machine.trace_append]
    rfl
  rw [writesDone, Machine.observed_concat, htrace, stored_concat]
  by_cases hp : ∃ env data, i = .produce env data
  · obtain ⟨env, data, rfl⟩ := hp
    obtain ⟨segs', inv', hsegs'⟩ := inv.produce hok hord
    exact ⟨segs', inv', by rw [hsegs', hsegs]; rfl⟩
  · have inv' := inv.other (fun env data he => hp ⟨env, data, he⟩) hord
    have hnone : LogInput.stored? (i, logMachine.out (logMachine.exec s₀ pre) i) = none := by
      cases i with
      | produce env data => exact absurd ⟨env, data, rfl⟩ hp
      | _ => rfl
    exact ⟨segs, inv', by rw [hnone, Option.toList_none, List.append_nil, hsegs]⟩

/-- `fetch()` returns what is in the files, segment after segment. -/
theorem readTopicLog (inv : RingInv ordered segs landed s) :
    readTopicLog s.dir =
      some (segs.flatMap fun g => fileContent landed (segmentName g.base)) := by
  have hsorted : (segs.map fun g => (g.base, fileContent landed (segmentName g.base))).Pairwise
      fun a b => a.1.toInt < b.1.toInt := by
    have h := pairwise_base inv.ne_nil inv.increasing
    rw [List.pairwise_map] at h ⊢
    exact h
  have hread := readTopicLog_segments hsorted
  rw [List.map_map, List.flatMap_map] at hread
  rw [inv.dir]
  exact hread

/-- Whole writes in the order of the log: what is not in the files is in flight. -/
theorem files_append_inFlight (inv : RingInv ordered segs landed s) (hord : ordered)
    (hwhole : ∀ x ∈ landed, x.1.data.length ≤ x.2) :
    (segs.flatMap fun g => fileContent landed (segmentName g.base)) ++
      s.inFlight.flatMap Submission.data = segs.flatten.flatMap Prod.snd := by
  have hcontent (name : Bytes) : fileContent landed name =
      ((landed.map Prod.fst).filter (·.name = name)).flatMap Submission.data := by
    rw [fileContent, List.filter_map, List.flatMap_map]
    refine List.flatMap_congr fun x hx => ?_
    exact List.take_of_length_le (hwhole x (List.mem_of_mem_filter hx))
  have hnames : ∀ g ∈ segs, ∀ w ∈ g.writes, w.name = segmentName g.base := by
    intro g _ w hw
    obtain ⟨e, -, rfl⟩ := List.mem_map.mp hw
    rfl
  have hprefix : landed.map Prod.fst <+: segs.flatMap Segment.writes := by
    rw [← inv.inOrder hord]
    exact List.prefix_append _ _
  have hdone := List.flatMap_filter_key_of_prefix hnames inv.nodup hprefix
  have hdata : (segs.flatMap Segment.writes).flatMap Submission.data =
      segs.flatten.flatMap Prod.snd := by
    rw [← List.flatMap_id (L := segs), List.flatMap_assoc, List.flatMap_assoc]
    refine List.flatMap_congr fun g _ => ?_
    rw [Segment.writes, List.flatMap_map]
    rfl
  calc (segs.flatMap fun g => fileContent landed (segmentName g.base)) ++
        s.inFlight.flatMap Submission.data
      = (landed.map Prod.fst).flatMap Submission.data ++ s.inFlight.flatMap Submission.data := by
        conv_rhs => rw [← hdone, List.flatMap_assoc]
        simp only [hcontent]
    _ = (segs.flatMap Segment.writes).flatMap Submission.data := by
        rw [← List.flatMap_append, inv.inOrder hord]
    _ = segs.flatten.flatMap Prod.snd := hdata

end RingInv

/-! ### Runs -/

/-- **The log while writes are on their way**, after a run from the store `s₀`, with the segments
`segs`. -/
structure RingLog (s₀ : PartitionStore) (run : List LogInput) (segs : List Segment) : Prop where
  /-- The segments hold the acknowledged payloads, in call order. -/
  acknowledged : segs.flatten = stored (logMachine.trace s₀ run)
  ne_nil : ∀ g ∈ segs, g ≠ []
  /-- The segments have files of their own. -/
  increasing : (segs.map fun g => g.base.toInt).Pairwise (· < ·)
  /-- The writes done and those in flight are together the writes of the segments. -/
  writes : ((writesDone s₀ run).map Prod.fst ++ (logMachine.exec s₀ run).inFlight).Perm
    (segs.flatMap Segment.writes)
  /-- The files hold what the writes done have brought. -/
  files : (logMachine.exec s₀ run).dir =
    segs.map fun g => (segmentName g.base, fileContent (writesDone s₀ run) (segmentName g.base))
  /-- `fetch()` returns the files, segment after segment. -/
  fetched : logMachine.out (logMachine.exec s₀ run) .fetchAll =
    .fetchedAll (some
      (segs.flatMap fun g => fileContent (writesDone s₀ run) (segmentName g.base)))
  /-- Whole writes, done in the order of their submission: `fetch()` returns the acknowledged
  payloads up to those in flight. -/
  inOrder : logMachine.Within InOrder s₀ run →
    (∀ x ∈ writesDone s₀ run, x.1.data.length ≤ x.2) →
    (segs.flatMap fun g => fileContent (writesDone s₀ run) (segmentName g.base)) ++
        (logMachine.exec s₀ run).inFlight.flatMap Submission.data =
      (stored (logMachine.trace s₀ run)).flatMap Prod.snd

/-- The invariant gives the log. -/
theorem RingInv.ringLog {s₀ : PartitionStore} {run : List LogInput} {segs : List Segment}
    (inv : RingInv (logMachine.Within InOrder s₀ run) segs (writesDone s₀ run)
      (logMachine.exec s₀ run))
    (hsegs : segs.flatten = stored (logMachine.trace s₀ run)) : RingLog s₀ run segs := by
  refine ⟨hsegs, inv.ne_nil, pairwise_base inv.ne_nil inv.increasing, inv.writes, inv.dir, ?_,
    fun hord hwhole => ?_⟩
  · rw [← inv.readTopicLog]
    rfl
  · rw [← hsegs]
    exact inv.files_append_inFlight hord hwhole

/-- Three payloads through the ring into segments of 100 bytes; the write of the second one is
done first, and the third is still in flight. -/
def secondWriteFirst : List LogInput :=
  let data := makeRecordBatchV2 [[1], [2, 3]]
  [.produce { written := 100 } data, .produce { written := 100 } data, .complete 1 100,
   .produce { written := 100 } data, .complete 0 100, .fetchAll]

end TinyKafka
