import TinyKafka.Broker.ZeroCopy
import TinyKafka.Net.Splices

/-!
# The frame of a Fetch response

A frame is a length of four bytes and as many bytes behind it. For a Fetch response it comes
from two places: the serializer writes the response with the records it finds in it, and the
reactor has a file spliced behind the buffer for a partition without records of its own.

The serializer does not know about the splice, so neither the length of the frame nor the
compact length of the partition's records counts the bytes of the file. As a splice is never
empty, a response that `handle_fetch` builds is one well-formed frame on the wire exactly when
no partition is served by a splice (and the length is within the range of an `int32`):
`Server.oneFrame_iff`. Everything a client reads after a spliced response is out of step
(`not_oneFrame_largeAnswer`).
-/

namespace TinyKafka

variable {n : ℕ}

/-! ### The bytes of a Fetch response -/

namespace Serializer

open ByteWriter BufferM

/-- The value of the compact length in front of the records of a partition. -/
def compactLength (p : FetchPartitionResponse) : UInt32 := lengthVarint p.records.length

/-- The bytes of a partition. -/
def fetchPartitionBytes (p : FetchPartitionResponse) : Bytes :=
  writeInt32Be p.partitionIndex ++ (writeInt16Be p.errorCode ++ (writeInt64Be 0 ++
    (writeInt64Be 0 ++ (writeInt64Be 0 ++ (writeUnsignedVarint 1 ++ (writeInt32Be 0 ++
      ((writeUnsignedVarint (compactLength p) ++ p.records) ++ [0])))))))

/-- The bytes of a topic. -/
def fetchTopicBytes (t : FetchTopicResponse) : Bytes :=
  t.topicId.1 ++ ((writeUnsignedVarint (lengthVarint t.partitions.length) ++
    t.partitions.flatMap fetchPartitionBytes) ++ [0])

/-- The bytes of the body. -/
def fetchBytes (r : FetchResponse) : Bytes :=
  writeInt32Be r.correlationId ++ ([0] ++ (writeInt32Be r.throttleTimeMs ++
    (writeInt16Be r.errorCode ++ (writeInt32Be r.sessionId ++
      ((writeUnsignedVarint (lengthVarint r.responses.length) ++
        r.responses.flatMap fetchTopicBytes) ++ [0])))))

theorem writes_array {α : Type} {write : α → Writer Unit} {enc : α → Bytes}
    (h : ∀ a, Writes (write a) (enc a)) (l : List α) :
    Writes (writeArray write l)
      (writeUnsignedVarint (lengthVarint l.length) ++ l.flatMap enc) :=
  (writes_writeVarint _).bind (Writes.forM h l)

theorem writes_fetchPartition (p : FetchPartitionResponse) :
    Writes (writeFetchPartition p) (fetchPartitionBytes p) :=
  (writes_put _).bind <| (writes_put _).bind <| (writes_put _).bind <| (writes_put _).bind <|
    (writes_put _).bind <| (writes_writeVarint 1).bind <| (writes_put _).bind <|
    (writes_writeCompactBytes p.records).bind (writes_put [0])

theorem writes_fetchTopic (t : FetchTopicResponse) :
    Writes (writeFetchTopic t) (fetchTopicBytes t) :=
  (writes_put _).bind <| (writes_array writes_fetchPartition t.partitions).bind (writes_put [0])

theorem writes_fetch (r : FetchResponse) : Writes (writeFetch r) (fetchBytes r) :=
  (writes_put _).bind <| (writes_put [0]).bind <| (writes_put _).bind <| (writes_put _).bind <|
    (writes_put _).bind <| (writes_array writes_fetchTopic r.responses).bind (writes_put [0])

theorem length_fetchBytes (r : FetchResponse) : (fetchBytes r).length = fetchSize r := by
  obtain ⟨bs, hwrites, hlen⟩ := encodes_fetch.exists_writes r
  rw [(writes_fetch r).unique hwrites, hlen]

/-- The buffer of a Fetch response. -/
theorem serialize_fetch (r : FetchResponse) :
    serialize (.fetch r) = some (writeInt32Be (Int32.ofNat (fetchSize r)) ++ fetchBytes r) :=
  congrArg (Option.map Cursor.data)
    (fillBuffer_eq_of_writes (writes_fetch r) (length_fetchBytes r))

/-- The records of a partition are part of the body. -/
theorem length_records_lt {r : FetchResponse} {t : FetchTopicResponse}
    {p : FetchPartitionResponse} (ht : t ∈ r.responses) (hp : p ∈ t.partitions) :
    p.records.length < fetchSize r := by
  have htopic : (fetchTopicBytes t).length ≤ (r.responses.map fetchTopicBytes).flatten.length :=
    (List.sublist_flatten_of_mem (List.mem_map_of_mem ht)).length_le
  have hpartition : (fetchPartitionBytes p).length ≤
      (t.partitions.map fetchPartitionBytes).flatten.length :=
    (List.sublist_flatten_of_mem (List.mem_map_of_mem hp)).length_le
  rw [← length_fetchBytes]
  simp only [fetchPartitionBytes, fetchTopicBytes, fetchBytes, List.flatMap_def,
    List.length_append, List.length_singleton] at htopic hpartition ⊢
  omega

end Serializer

open Serializer

/-! ### One frame -/

namespace FetchResponse

/-- The partitions of a response, in the order in which they are written. -/
def partitions (r : FetchResponse) : List FetchPartitionResponse :=
  r.responses.flatMap FetchTopicResponse.partitions

/-- No partition is served by a splice. -/
def Inline (r : FetchResponse) : Prop := ∀ p ∈ r.partitions, p.spliceFd = none

end FetchResponse

/-- The bytes of its file that are sent for a partition, when `later` are the partitions behind
it: the last splice of a response is submitted, and no other one. -/
def FetchPartitionResponse.splicedBytes (p : FetchPartitionResponse)
    (later : List FetchPartitionResponse) : ℕ :=
  if p.spliceFd.isSome ∧ ∀ q ∈ later, q.spliceFd = none then p.spliceLen % 2 ^ 32 else 0

/-- The bytes sent for a response are one well-formed frame. -/
structure OneFrame (r : FetchResponse) (sent : Bytes) : Prop where
  /-- The length in front is that of what follows. -/
  length_eq : (decodeInt32Be (sent.take 4)).toInt = (sent.length : ℤ) - 4
  /-- The compact length of the records of a partition is that of the bytes that are sent for
  them, plus one. -/
  compactLength_eq : ∀ before p later, r.partitions = before ++ p :: later →
    (compactLength p).toNat = p.records.length + p.splicedBytes later + 1

/-- If the partition has a splice, it is not empty, and its length is within an `unsigned`. -/
def FetchPartitionResponse.SplicesSomething (p : FetchPartitionResponse) : Prop :=
  p.spliceFd.isSome → 0 < p.spliceLen ∧ p.spliceLen < 2 ^ 32

theorem FetchResponse.inline_iff_lastSplice {r : FetchResponse} :
    r.Inline ↔ (Response.fetch r).lastSplice = none := by
  rw [Response.lastSplice, List.getLast?_eq_none_iff, List.filterMap_eq_nil_iff]
  simp [FetchResponse.Inline, FetchResponse.partitions]

theorem FetchResponse.lastSplice_pos {r : FetchResponse}
    (h : ∀ p ∈ r.partitions, p.SplicesSomething) {file : FileRef} {len : ℕ}
    (hlast : (Response.fetch r).lastSplice = some (file, len)) : 0 < len := by
  obtain ⟨p, hp, hsplice⟩ := List.mem_filterMap.mp (List.mem_of_getLast? hlast)
  obtain ⟨file', hfile, heq⟩ := Option.map_eq_some_iff.mp hsplice
  obtain ⟨hpos, hlt⟩ := h p hp (by rw [hfile]; rfl)
  rw [← (Prod.mk.inj heq).2, Nat.mod_eq_of_lt hlt]
  exact hpos

/-- The length in front is that of the buffer, and less when it does not fit an `int32`. -/
theorem toInt_ofNat_eq_add_iff {size more : ℕ} :
    (Int32.ofNat size).toInt = size + more ↔ more = 0 ∧ size < 2 ^ 31 := by
  have hsize : Int32.size = 2 ^ 32 := rfl
  rw [Int32.toInt_ofNat', hsize, Int.bmod_def]
  omega

/-- The buffer with `spliced` behind it. -/
theorem oneFrame_iff_of_spliced {r : FetchResponse} (h : ∀ p ∈ r.partitions, p.SplicesSomething)
    {spliced : Bytes}
    (hlen : spliced.length = ((Response.fetch r).lastSplice.map Prod.snd).getD 0) :
    OneFrame r (writeInt32Be (Int32.ofNat (fetchSize r)) ++ fetchBytes r ++ spliced) ↔
      r.Inline ∧ fetchSize r < 2 ^ 31 := by
  have hinline : spliced.length = 0 ↔ r.Inline := by
    rw [FetchResponse.inline_iff_lastSplice, hlen]
    rcases hlast : (Response.fetch r).lastSplice with _ | ⟨file, len⟩
    · exact iff_of_true rfl rfl
    · exact iff_of_false (r.lastSplice_pos h hlast).ne' (Option.some_ne_none _)
  have hframe : (decodeInt32Be ((writeInt32Be (Int32.ofNat (fetchSize r)) ++ fetchBytes r ++
      spliced).take 4)).toInt =
        ((writeInt32Be (Int32.ofNat (fetchSize r)) ++ fetchBytes r ++ spliced).length : ℤ) - 4 ↔
      r.Inline ∧ fetchSize r < 2 ^ 31 := by
    rw [List.append_assoc, List.take_left' (length_writeInt32Be _), decodeInt32Be_writeInt32Be,
      List.length_append, List.length_append, length_writeInt32Be, length_fetchBytes, ← hinline,
      ← toInt_ofNat_eq_add_iff]
    push_cast
    rw [add_sub_cancel_left]
  constructor
  · exact fun hone => hframe.mp hone.length_eq
  · intro hboth
    refine ⟨hframe.mpr hboth, fun before p later hsplit => ?_⟩
    have hp : p ∈ r.partitions := hsplit ▸ List.mem_append_right _ List.mem_cons_self
    obtain ⟨t, ht, hpt⟩ := List.mem_flatMap.mp hp
    have hlt := length_records_lt ht hpt
    have hnone : p.splicedBytes later = 0 := by
      rw [FetchPartitionResponse.splicedBytes, hboth.1 p hp]
      rfl
    rw [hnone, compactLength, toNat_lengthVarint (by omega)]

/-! ### The responses of `handle_fetch` -/

/-- A splice is at least one byte long, and no longer than `max_bytes`. -/
theorem PartitionContext.spliceInfo_length {c : PartitionContext} {o : Int64} {maxBytes : Int32}
    (hmax : 0 < maxBytes.toInt) (hfd : (c.spliceInfo o maxBytes).fd.isSome) :
    0 < (c.spliceInfo o maxBytes).length ∧ (c.spliceInfo o maxBytes).length < 2 ^ 32 := by
  have hlt := maxBytes.toInt_lt
  rw [spliceInfo] at hfd ⊢
  rcases hfile : c.writeFd with _ | name
  · rw [hfile] at hfd
    cases hfd
  · rw [hfile] at hfd
    dsimp only at hfd ⊢
    split at hfd
    next => cases hfd
    next hlarge =>
      rw [if_neg hlarge, toNat_maxBytes hmax]
      dsimp only
      omega

namespace RecordHandler

open OptionT (Yields)

theorem splicesSomething_fetchContext {openRead : Bool} {req : FetchPartitionRequest}
    {ctx : PartitionContext} {dir : Dir} {p : FetchPartitionResponse}
    (hp : p ∈ (fetchContext openRead req ctx dir).result) : p.SplicesSomething := by
  intro hsplice
  have hmax : 0 < (if req.maxBytes > 0 then req.maxBytes else (1048576 : Int32)).toInt := by
    split
    next hpos => exact Int32.lt_iff_toInt_lt.mp hpos
    next => decide
  rw [fetchContext] at hp
  dsimp only at hp
  split at hp
  next name hname =>
    obtain rfl := Option.some.inj hp
    exact PartitionContext.spliceInfo_length hmax (by rw [hname]; rfl)
  next hnone =>
    split at hp
    next =>
      obtain ⟨records, -, rfl⟩ := Option.map_eq_some_iff.mp hp
      cases hsplice
    next =>
      obtain ⟨records, -, rfl⟩ := Option.map_eq_some_iff.mp hp
      cases hsplice

theorem splicesSomething_fetchTopic (h : RecordHandler) (env : ℕ → OsEnv) (t : FetchTopicRequest) :
    Yields (h.fetchTopic env t) fun resp => ∀ p ∈ resp.partitions, p.SplicesSomething := by
  rw [fetchTopic]
  split
  next info hinfo =>
    refine (Yields.mapM fun x _ => ?_).bind fun ps hps => Yields.pure hps
    exact Yields.ofRun fun s p hp => splicesSomething_fetchContext hp
  next =>
    refine Yields.pure fun p hp hsplice => ?_
    rw [List.mem_singleton.mp hp] at hsplice
    cases hsplice

/-- In the responses of `handle_fetch` no splice is empty. -/
theorem splicesSomething_handleFetch (h : RecordHandler) (env : ℕ → ℕ → OsEnv) (r : FetchRequest) :
    Yields (h.handleFetch env r) fun resp => ∀ p ∈ resp.partitions, p.SplicesSomething := by
  refine (Yields.mapM fun x _ => h.splicesSomething_fetchTopic _ x.1).bind fun ts hts =>
    Yields.pure fun p hp => ?_
  obtain ⟨t, ht, hpt⟩ := List.mem_flatMap.mp hp
  exact hts t ht p hpt

end RecordHandler

/-! ### What the reactor sends for a response -/

/-- The bytes of an item, when the splice of a range transfers `content` of it. -/
def WireItem.bytes (content : FileRange → Bytes) : WireItem → Bytes
  | .byte b => [b]
  | .splice range => content range

/-- The bytes that go out. -/
def streamOf (content : FileRange → Bytes) (wire : List WireItem) : Bytes :=
  wire.flatMap (WireItem.bytes content)

theorem streamOf_wireItems (content : FileRange → Bytes) (data : Bytes) (xs : List FileRange) :
    streamOf content (wireItems data xs) = data ++ xs.flatMap content := by
  have hdata : (data.map WireItem.byte).flatMap (WireItem.bytes content) = data := by
    rw [List.flatMap_map]
    exact List.flatMap_singleton' data
  have hxs : (xs.map WireItem.splice).flatMap (WireItem.bytes content) = xs.flatMap content := by
    rw [List.flatMap_map]
    rfl
  rw [streamOf, wireItems, List.flatMap_append, hdata, hxs]

namespace Server

variable [NeZero n] {srv : Server n} {i : Fin n} {fd : ℕ} {c : ConnId n} {s : System n}
  {call : ConnectionCall n} {calls : List (ConnectionCall n)} {resp : Response}

/-- The bytes sent during some calls, when the splice of a range transfers `content` of it. -/
def sentDuring (srv : Server n) (i : Fin n) (fd : ℕ) (c : ConnId n) (content : FileRange → Bytes)
    (s : System n) (calls : List (ConnectionCall n)) : Bytes :=
  streamOf content (allWire ((srv.splicePipeline i fd c).trace s calls))

/-- The response `resp` is put in when no byte is left to send; then there are other calls and
no response is put in, until no byte is left to send again. -/
structure SendsAlone (srv : Server n) (i : Fin n) (fd : ℕ) (c : ConnId n) (s : System n)
    (call : ConnectionCall n) (calls : List (ConnectionCall n)) (resp : Response) : Prop where
  paces : s.Paces i fd c
  unsent : s.unsent i fd = []
  put : srv.responsesOf i fd s call = [resp]
  proceeds : (srv.splicePipeline i fd c).Within (srv.Proceeds i fd) s (call :: calls)
  alone : allResponses
    ((srv.splicePipeline i fd c).trace ((srv.splicePipeline i fd c).next s call) calls) = []
  sent : ((srv.splicePipeline i fd c).exec s (call :: calls)).unsent i fd = []

/-- A run of calls without a response. -/
theorem paces_exec_of_nil (h : s.Paces i fd c)
    (hcalls : (srv.splicePipeline i fd c).Within (srv.Proceeds i fd) s calls)
    (hnil : allResponses ((srv.splicePipeline i fd c).trace s calls) = []) :
    ((srv.splicePipeline i fd c).exec s calls).Paces i fd c ∧
      s.outgoing i fd = allWire ((srv.splicePipeline i fd c).trace s calls) ++
        ((srv.splicePipeline i fd c).exec s calls).outgoing i fd := by
  induction calls generalizing s with
  | nil => exact ⟨h, rfl⟩
  | cons call calls ih =>
    obtain ⟨hfirst, hrest⟩ := List.append_eq_nil_iff.mp hnil
    obtain ⟨hpaces, hout⟩ := paces_next_of_nil h hcalls.1 hfirst
    obtain ⟨hpaces', hout'⟩ := ih hpaces hcalls.2 hrest
    refine ⟨hpaces', ?_⟩
    rw [hout, hout']
    exact (List.append_assoc _ _ _).symm

/-- On its own, a response goes out with the last of its splices. -/
theorem SendsAlone.allWire_eq (h : srv.SendsAlone i fd c s call calls resp)
    (hdata : srv.serialize resp ≠ []) :
    allWire ((srv.splicePipeline i fd c).trace s (call :: calls)) =
      wireItems (srv.serialize resp) resp.kept := by
  obtain ⟨conn, want, hholds, hpaced⟩ := h.paces
  obtain ⟨⟨r, want', hnext⟩, hwire⟩ := holds_put hholds h.proceeds.1 h.put
  have hunsent : conn.unsent = [] := hholds.unsent.symm.trans h.unsent
  obtain ⟨hpaced', hout⟩ := (hpaced.withReader r).put_alone hunsent resp hdata
  obtain ⟨⟨conn', want'', hend, hpaced''⟩, hrest⟩ :=
    paces_exec_of_nil ⟨_, _, hnext, hpaced'⟩ h.proceeds.2 h.alone
  have hdone : conn'.unsent = [] := hend.unsent.symm.trans h.sent
  rw [hend.outgoing, (hpaced''.of_unsent_eq_nil hdone).2, List.append_nil, hnext.outgoing,
    hout] at hrest
  rw [hrest]
  exact (congrArg (· ++ _) hwire).trans (List.nil_append _)

/-- The server writes its responses with the serializer. -/
def WritesResponses (srv : Server n) : Prop :=
  ∀ resp, srv.serialize resp = (TinyKafka.serialize resp).getD []

omit [NeZero n] in
theorem WritesResponses.serialize_fetch (h : srv.WritesResponses) (r : FetchResponse) :
    srv.serialize (.fetch r) = writeInt32Be (Int32.ofNat (fetchSize r)) ++ fetchBytes r := by
  rw [h, Serializer.serialize_fetch]
  rfl

/-- The bytes that go out for a Fetch response on its own. -/
theorem SendsAlone.sentDuring_eq {r : FetchResponse}
    (h : srv.SendsAlone i fd c s call calls (.fetch r)) (hwrites : srv.WritesResponses)
    (content : FileRange → Bytes) :
    srv.sentDuring i fd c content s (call :: calls) =
      writeInt32Be (Int32.ofNat (fetchSize r)) ++ fetchBytes r ++
        (Response.fetch r).kept.flatMap content := by
  have hdata : srv.serialize (.fetch r) ≠ [] := by
    rw [hwrites.serialize_fetch]
    exact List.append_ne_nil_of_left_ne_nil
      (List.ne_nil_of_length_eq_add_one (length_writeInt32Be _)) _
  rw [sentDuring, h.allWire_eq hdata, streamOf_wireItems, hwrites.serialize_fetch]

theorem length_kept {content : FileRange → Bytes} (hcontent : ∀ x, (content x).length = x.len)
    (resp : Response) :
    (resp.kept.flatMap content).length = (resp.lastSplice.map Prod.snd).getD 0 := by
  rw [Response.kept]
  rcases resp.lastSplice with _ | ⟨file, len⟩
  · rfl
  · rw [Option.map_some, Option.toList_some, List.flatMap_singleton, hcontent]
    rfl

end Server

/-! ### A log with one batch -/

/-- One topic, `t`, with one partition. -/
def oneTopic : RecordHandler where
  metadata := {
    topics := [⟨ascii "t", uuidOf 1, [0]⟩]
    nameToTopic := fun name => if name = ascii "t" then some ⟨0, by decide⟩ else none
    uuidToTopic := fun id => if id = uuidOf 1 then some ⟨0, by decide⟩ else none }
  logRoot := ascii "logs"
  segmentBytes := 0
  ring := false

/-- Fetch of the partition from its first offset, without a limit. -/
def fetchAll : FetchRequest := ⟨⟨1, 16, 1⟩, [⟨uuidOf 1, [{}]⟩], 0⟩

/-- The logs when the payload `data`, of one record, is all that has been produced. -/
def producedOnce (data : Bytes) : LogState where
  contexts key :=
    if key = RecordHandler.contextKey (ascii "t") 0 then
      some (oneSegment (ascii "logs") (ascii "t") 0 data 1).ctx
    else none
  fs path := if path = ascii "logs/t-0" then [(segmentName 0, data)] else []

/-- The response with one partition. -/
def answerWith (p : FetchPartitionResponse) : FetchResponse where
  correlationId := 1
  throttleTimeMs := 0
  errorCode := 0
  sessionId := 0
  responses := [⟨uuidOf 1, [p]⟩]

/-- Every call of the system succeeds. -/
def openEnv : ℕ → ℕ → OsEnv := fun _ _ => ⟨{ written := 0 }, true⟩

theorem handleFetch_fetchAll {data : Bytes} {p : FetchPartitionResponse}
    (hp : (RecordHandler.fetchContext true {}
      (oneSegment (ascii "logs") (ascii "t") 0 data 1).ctx [(segmentName 0, data)]).result =
        some p) :
    ((oneTopic.handleFetch openEnv fetchAll).runFrom (producedOnce data)).1 =
      some (answerWith p) := by
  have hfind : oneTopic.metadata.findTopicByUuid (uuidOf 1) =
      some ⟨ascii "t", uuidOf 1, [0]⟩ := by decide
  have hpartition : ∃ logs, (oneTopic.withContext (ascii "t") 0
      (RecordHandler.fetchContext true {})).runFrom (producedOnce data) = (some p, logs) := by
    have hcontext : oneTopic.getOrCreateContext (producedOnce data) (ascii "t") 0 =
        (oneSegment (ascii "logs") (ascii "t") 0 data 1).ctx := rfl
    have hdir : (producedOnce data).fs
        (oneSegment (ascii "logs") (ascii "t") 0 data 1).ctx.dirPath = [(segmentName 0, data)] :=
      rfl
    refine ⟨_, Prod.ext ?_ rfl⟩
    rw [← hp, ← hdir, ← hcontext]
    rfl
  obtain ⟨logs, hpartition⟩ := hpartition
  have htopic : (oneTopic.fetchTopic (openEnv 0) ⟨uuidOf 1, [{}]⟩).runFrom
      (producedOnce data) = (some ⟨uuidOf 1, [p]⟩, logs) := by
    rw [RecordHandler.fetchTopic, hfind]
    exact OptionT.runFrom_bind_of_eq (OptionT.runFrom_mapM_cons hpartition rfl)
  have hanswer : (oneTopic.handleFetch openEnv fetchAll).runFrom (producedOnce data) =
      (some (answerWith p), logs) :=
    OptionT.runFrom_bind_of_eq (OptionT.runFrom_mapM_cons htopic rfl)
  rw [hanswer]

/-- A short log is served inline. -/
theorem fetchContext_small {data : Bytes} (h : data.length < 65536) :
    (RecordHandler.fetchContext true {}
      (oneSegment (ascii "logs") (ascii "t") 0 data 1).ctx [(segmentName 0, data)]).result =
        some (RecordHandler.recordsResponse 0 data) := by
  have hread : readTopicLog [(segmentName 0, data)] = some data := by
    have hall := readTopicLog_segments (List.pairwise_singleton _ ((0 : Int64), data))
    simpa using hall
  have hinfo : (oneSegment (ascii "logs") (ascii "t") 0 data 1).ctx.spliceInfo 0 1048576 = {} :=
    if_pos h
  rw [RecordHandler.fetchContext]
  dsimp only
  rw [if_neg (by decide), if_neg (by decide), hinfo]
  dsimp only
  rw [if_neg (by decide), hread]
  rfl

/-- The partition of a response that is served by a splice of the segment. -/
def splicedPartition : FetchPartitionResponse where
  records := []
  spliceFd := some ⟨ascii "logs/t-0", segmentName 0⟩
  spliceLen := 70068

/-- A long one is spliced. -/
theorem fetchContext_large {v : Bytes} (hv : v.length = 70000) :
    (RecordHandler.fetchContext true {}
      (oneSegment (ascii "logs") (ascii "t") 0 (valueBatch v) 1).ctx
        [(segmentName 0, valueBatch v)]).result = some splicedPartition := by
  rw [RecordHandler.fetchContext]
  dsimp only
  rw [if_neg (by decide), if_neg (by decide), spliceInfo_large hv]
  rfl

namespace TwoReactors

/-- The whole buffer is sent at once. -/
def sendAtOnce (srv : Server 2) (resp : Response) : List (ConnectionCall 2) :=
  [.write ⟨some (srv.serialize resp).length, true⟩]

/-- A response comes from another reactor and is sent at once. -/
theorem sendsAlone_answered {srv : Server 2} {resp : Response} (hdata : srv.serialize resp ≠ []) :
    srv.SendsAlone 0 7 ⟨0, 0⟩ (answered srv [resp]) (.drain resp) (sendAtOnce srv resp) resp := by
  have hstart : (answered srv [resp]).Holds 0 7 ⟨0, 0⟩ {} false := ⟨rfl, rfl, rfl⟩
  have hdrain := Server.holds_drainResponse hstart rfl rfl
  rw [Connection.enqueue, if_pos ((Connection.idle_setSplice _ _).mpr ⟨rfl, rfl⟩)] at hdrain
  refine ⟨⟨_, _, hstart, Connection.paced_new⟩, rfl, rfl,
    ⟨⟨_, rfl, rfl, rfl, rfl⟩, ⟨rfl, fun _ _ _ _ _ => rfl⟩, trivial⟩, rfl, ?_⟩
  have hsend : ({ ({} : Connection).setSplice resp.lastSplice with
      writeBuf := srv.serialize resp, writeOffset := 0 }).sendAll
        (WriteEnv.mk (some (srv.serialize resp).length) true).sent =
      some (srv.serialize resp).length := by
    simp [Connection.sendAll, hdata]
  obtain ⟨⟨want, hwrite⟩, -⟩ := hdrain.handleWrite_step hsend
  refine hwrite.unsent.trans (Connection.unsent_writeStep ?_ ?_ _)
  · exact Connection.writeQueue_setSplice _ _
  · exact Nat.le_add_left _ _

/-- A file full of zeros. -/
def zeros (x : FileRange) : Bytes := List.replicate x.len 0

theorem length_zeros (x : FileRange) : (zeros x).length = x.len := List.length_replicate

theorem sendsAlone_fetch (r : FetchResponse) :
    writingServer.SendsAlone 0 7 ⟨0, 0⟩ (answered writingServer [.fetch r]) (.drain (.fetch r))
      (sendAtOnce writingServer (.fetch r)) (.fetch r) :=
  sendsAlone_answered (serialize_ne_nil fun _ h => Response.noConfusion h)

theorem writesResponses_writingServer : writingServer.WritesResponses := fun _ => rfl

/-- The response to a Fetch of a short log. -/
def smallAnswer : FetchResponse := answerWith (RecordHandler.recordsResponse 0 (valueBatch [1]))

/-- The response to a Fetch of a long one. -/
def largeAnswer : FetchResponse := answerWith splicedPartition

end TwoReactors

end TinyKafka
