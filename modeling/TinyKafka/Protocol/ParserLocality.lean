import TinyKafka.Protocol.Parser

/-!
# Parsing depends only on the bytes it consumes

Every arm of `parse_request` is built from reads that look at no byte beyond the cursor they
leave (`CursorM.Local`), so a request that is accepted is accepted with the same result in
front of any further bytes, and no truncation of it is accepted.

The exception is the read of Fetch that is not checked. When it fails the arm goes on with an
arbitrary value, at a cursor with fewer than four bytes left. But a partition, its topic and
the request end with three tag bytes, and two more lengths stand before the last of them, so
these bytes do not suffice and the arm fails later on: the tolerance of `CursorM.Agrees`, four
behind the read, is used up at the end of the arm (`agrees_fetch`).
-/

namespace TinyKafka

open ByteReader CursorM

namespace Parser

/-! ### Arrays, strings and the client id -/

section Arrays

variable {α : Type} {k n : ℕ} {p q : Reader α}

/-- A repetition tolerates what its element does. -/
theorem agrees_readMany (h : Agrees k n p q) (count : ℕ) :
    Agrees k 0 (readMany p count) (readMany q count) := by
  induction count with
  | zero => exact (Agrees.pure []).mono (Nat.zero_le k) (Nat.le_refl 0)
  | succ count ih =>
    have hstep := h.bind fun a => ih.bind fun as => Agrees.pure (a :: as)
    exact hstep.mono (by simp) (Nat.zero_le _)

theorem agrees_compactArray (h : Agrees k n p q) :
    Agrees k 1 (compactArray p) (compactArray q) := by
  have hstep := agrees_readVarint.bind fun len => agrees_readMany h (arrayCount len)
  exact hstep.mono (by simp) (Nat.le_refl 1)

theorem local_readMany (h : Local p) (count : ℕ) : Local (readMany p count) :=
  (agrees_readMany h count).local

theorem local_compactArray (h : Local p) : Local (compactArray p) :=
  (agrees_compactArray h).local

end Arrays

theorem local_skipClientId : Local skipClientId :=
  local_readInt16.bind fun len =>
    .ite ((local_skip len.toInt.toNat).bind fun _ => local_skip 1) (local_skip 1)

/-- Every arm begins with the client id, which it drops. -/
theorem local_skipClientId_bind {α : Type} {f : Unit → Reader α} (h : Local (f ())) :
    Local (skipClientId >>= f) :=
  Local.bind local_skipClientId fun _ => h

theorem local_compactBytes : Local compactBytes :=
  local_readVarint.bind fun len => .ite (local_readBytes (len - 1).toNat) (.pure [])

/-- Skipped bytes take at least their length byte. -/
theorem agrees_skipCompact : Agrees 0 1 skipCompact skipCompact := by
  have hbytes : ∀ len : UInt32, Local (if len > 1 then skip (len - 1).toNat else pure ()) :=
    fun len => .ite (local_skip _) (.pure ())
  exact agrees_readVarint.bind hbytes

theorem local_skipCompact : Local skipCompact := Agrees.local agrees_skipCompact

/-! ### The arms whose reads are all checked -/

theorem local_describeTopic : Local describeTopic :=
  local_readCompactString.bind fun name => (local_skip 1).bind fun _ => .pure name

theorem local_skipCursor : Local skipCursor :=
  local_readInt8.bind fun _ =>
    .ite (local_readCompactString.bind fun _ => local_readInt32.bind fun _ => local_skip 1)
      (.pure ())

theorem local_describeTopicPartitions (header : RequestHeader) :
    Local (describeTopicPartitions header) := by
  refine local_skipClientId_bind <| local_readVarint.bind fun _ => ?_
  refine (local_readMany local_describeTopic _).bind fun _ => local_readInt32.bind fun _ => ?_
  exact Local.bind local_skipCursor fun _ => (local_skip 1).bind fun _ => .pure _

theorem local_metadataTopic : Local metadataTopic :=
  local_readInt16.bind fun len =>
    .ite ((local_readBytes len.toInt.toNat).bind fun name => .pure [name]) (.pure [])

theorem local_metadata (header : RequestHeader) : Local (metadata header) := by
  refine local_skipClientId_bind <| local_readInt32.bind fun _ => ?_
  exact (local_readMany local_metadataTopic _).bind fun _ => local_readInt8.bind fun _ => .pure _

theorem local_producePartition : Local producePartition :=
  local_readInt32.bind fun _ => Local.bind local_compactBytes fun _ =>
    (local_skip 1).bind fun _ => .pure _

theorem local_produceTopic : Local produceTopic :=
  local_readCompactString.bind fun _ => (local_compactArray local_producePartition).bind fun _ =>
    (local_skip 1).bind fun _ => .pure _

theorem local_produce (header : RequestHeader) : Local (produce header) := by
  refine local_skipClientId_bind <| Local.bind local_skipCompact fun _ => ?_
  refine local_readInt16.bind fun _ => local_readInt32.bind fun _ => ?_
  exact (local_compactArray local_produceTopic).bind fun _ => (local_skip 1).bind fun _ => .pure _

theorem local_listOffsetsPartition : Local listOffsetsPartition :=
  local_readInt32.bind fun _ => local_readInt64.bind fun _ => (local_skip 1).bind fun _ => .pure _

theorem local_listOffsetsTopic : Local listOffsetsTopic :=
  local_readCompactString.bind fun _ =>
    (local_compactArray local_listOffsetsPartition).bind fun _ =>
      (local_skip 1).bind fun _ => .pure _

theorem local_listOffsets (header : RequestHeader) : Local (listOffsets header) := by
  refine local_skipClientId_bind <| local_readInt32.bind fun _ => ?_
  refine local_readInt8.bind fun _ => (local_compactArray local_listOffsetsTopic).bind fun _ => ?_
  exact (local_skip 1).bind fun _ => .pure _

theorem local_offsetCommitPartition : Local offsetCommitPartition :=
  local_readInt32.bind fun _ => local_readInt64.bind fun _ => (local_skip 1).bind fun _ => .pure _

theorem local_offsetCommitTopic : Local offsetCommitTopic :=
  local_readCompactString.bind fun _ =>
    (local_compactArray local_offsetCommitPartition).bind fun _ =>
      (local_skip 1).bind fun _ => .pure _

theorem local_offsetCommit (header : RequestHeader) : Local (offsetCommit header) := by
  refine local_skipClientId_bind <| local_readCompactString.bind fun _ => ?_
  refine local_readCompactString.bind fun _ => local_readInt32.bind fun _ => ?_
  exact (local_compactArray local_offsetCommitTopic).bind fun _ =>
    (local_skip 1).bind fun _ => .pure _

theorem local_offsetFetchTopic : Local offsetFetchTopic :=
  local_readCompactString.bind fun _ => (local_compactArray local_readInt32).bind fun _ =>
    (local_skip 1).bind fun _ => .pure _

theorem local_offsetFetch (header : RequestHeader) : Local (offsetFetch header) := by
  refine local_skipClientId_bind <| local_readCompactString.bind fun _ => ?_
  exact (local_compactArray local_offsetFetchTopic).bind fun _ =>
    (local_skip 1).bind fun _ => .pure _

theorem local_findCoordinator (header : RequestHeader) : Local (findCoordinator header) := by
  refine local_skipClientId_bind <| local_readCompactString.bind fun _ => ?_
  exact local_readInt8.bind fun _ => (local_skip 1).bind fun _ => .pure _

theorem local_joinGroupProtocol : Local joinGroupProtocol :=
  local_readCompactString.bind fun _ => Local.bind local_compactBytes fun _ =>
    (local_skip 1).bind fun _ => .pure _

theorem local_joinGroup (header : RequestHeader) : Local (joinGroup header) := by
  refine local_skipClientId_bind <| local_readCompactString.bind fun _ => ?_
  refine local_readInt32.bind fun _ => local_readCompactString.bind fun _ => ?_
  refine local_readCompactString.bind fun _ =>
    (local_compactArray local_joinGroupProtocol).bind fun _ => ?_
  exact (local_skip 1).bind fun _ => .pure _

theorem local_heartbeat (header : RequestHeader) : Local (heartbeat header) := by
  refine local_skipClientId_bind <| local_readCompactString.bind fun _ => ?_
  refine local_readInt32.bind fun _ => local_readCompactString.bind fun _ => ?_
  exact local_readCompactString.bind fun _ => (local_skip 1).bind fun _ => .pure _

theorem local_leaveGroup (header : RequestHeader) : Local (leaveGroup header) := by
  refine local_skipClientId_bind <| local_readCompactString.bind fun _ => ?_
  exact local_readCompactString.bind fun _ => (local_skip 1).bind fun _ => .pure _

theorem local_syncGroupAssignment : Local syncGroupAssignment :=
  local_readCompactString.bind fun _ => Local.bind local_compactBytes fun _ =>
    (local_skip 1).bind fun _ => .pure _

theorem local_syncGroup (header : RequestHeader) : Local (syncGroup header) := by
  refine local_skipClientId_bind <| local_readCompactString.bind fun _ => ?_
  refine local_readInt32.bind fun _ => local_readCompactString.bind fun _ => ?_
  exact (local_compactArray local_syncGroupAssignment).bind fun _ =>
    (local_skip 1).bind fun _ => .pure _

theorem local_requestHeader : Local requestHeader :=
  local_readInt16.bind fun _ => local_readInt16.bind fun _ => local_readInt32.bind fun _ => .pure _

/-! ### The arm with the unchecked read -/

section Fetch

variable (junk junk' : Int32)

/-- The unchecked read always succeeds. When it should not have, fewer than four bytes are
left. -/
theorem agrees_unchecked_readInt32 :
    Agrees 4 0 (unchecked readInt32 junk) (unchecked readInt32 junk') := by
  intro short more o a c ho hrun
  rw [unchecked, runOn_tryCatch] at hrun
  by_cases hroom : Cursor.remaining ⟨short, o⟩ < 4
  · rw [readInt32, fixed, runOn_ofRun, if_pos hroom] at hrun
    obtain ⟨-, rfl⟩ := Prod.mk.inj hrun
    simp only [Cursor.remaining] at hroom
    exact ⟨rfl, Nat.le_refl _, ho, .inr (by dsimp only; omega)⟩
  · -- the read succeeds, and so it does on the longer buffer
    have hok : readInt32.runOn ⟨short, o⟩ = (.ok a, c) := by
      rw [readInt32, fixed, runOn_ofRun, if_neg hroom] at hrun ⊢
      exact hrun
    obtain ⟨hdata, hlow, hhigh, hlong⟩ := agrees_fixed 4 decodeInt32Be short more o a c ho hok
    refine ⟨hdata, by omega, hhigh, ?_⟩
    rcases hlong with hlong | hfew
    · exact .inl (by rw [unchecked, runOn_tryCatch, readInt32, hlong])
    · omega

theorem agrees_fetchPartition :
    Agrees 3 0 (fetchPartition junk) (fetchPartition junk') := by
  -- the tag byte of the partition takes one of the bytes that are left
  have htag : ∀ x : FetchPartitionRequest,
      Agrees 0 1 (skip 1 >>= fun _ => pure x) (skip 1 >>= fun _ => pure x) :=
    fun x => (agrees_fixed 1 _).bind fun _ => Agrees.pure x
  refine local_readInt32.bind_agrees fun i => (local_skip 4).bind_agrees fun _ => ?_
  refine local_readInt64.bind_agrees fun o => (local_skip 4).bind_agrees fun _ => ?_
  refine (local_skip 8).bind_agrees fun _ => ?_
  have hread := (agrees_unchecked_readInt32 junk junk').bind fun m => htag ⟨i, o, m⟩
  exact hread.mono (by simp) (Nat.zero_le _)

theorem agrees_fetchTopic : Agrees 2 0 (fetchTopic junk) (fetchTopic junk') := by
  have htag : ∀ x : FetchTopicRequest,
      Agrees 0 1 (skip 1 >>= fun _ => pure x) (skip 1 >>= fun _ => pure x) :=
    fun x => (agrees_fixed 1 _).bind fun _ => Agrees.pure x
  have hparts := agrees_compactArray (agrees_fetchPartition junk junk')
  have hid : Local readUuid := (agrees_fixed 16 _).local
  refine hid.bind_agrees fun id => ?_
  exact (hparts.bind fun ps => htag ⟨id, ps⟩).mono (by simp) (Nat.zero_le _)

theorem local_skipForgotten : Local skipForgotten :=
  (local_skip 16).bind fun _ => local_readVarint.bind fun len =>
    (local_skip (arrayCount len * 4)).bind fun _ => local_skip 1

/-- **The arm of Fetch** behaves the same on every longer buffer, whatever the unchecked read
yields: behind the topics it needs three more bytes than a failure of that read leaves. -/
theorem agrees_fetch (header : RequestHeader) :
    Agrees 0 0 (fetch junk header) (fetch junk' header) := by
  have htail : ∀ x : Request,
      Agrees 0 3
        (compactArray skipForgotten >>= fun _ => skipCompact >>= fun _ => skip 1 >>= fun _ =>
          pure x)
        (compactArray skipForgotten >>= fun _ => skipCompact >>= fun _ => skip 1 >>= fun _ =>
          pure x) :=
    fun x => (agrees_compactArray local_skipForgotten).bind fun _ =>
      agrees_skipCompact.bind fun _ => (agrees_fixed 1 _).bind fun _ => Agrees.pure x
  have htopics := agrees_compactArray (agrees_fetchTopic junk junk')
  refine local_skipClientId.bind_agrees fun _ => local_readInt32.bind_agrees fun _ => ?_
  refine local_readInt32.bind_agrees fun _ => local_readInt32.bind_agrees fun maxBytes => ?_
  refine local_readInt8.bind_agrees fun _ => local_readInt32.bind_agrees fun _ => ?_
  refine local_readInt32.bind_agrees fun _ => ?_
  exact (htopics.bind fun topics => htail (.fetch ⟨header, topics, maxBytes⟩)).mono (by simp)
    (Nat.zero_le _)

theorem agrees_body (header : RequestHeader) :
    Agrees 0 0 (body junk header) (body junk' header) := by
  rw [body, body]
  split
  · exact .pure _
  · exact local_describeTopicPartitions header
  · exact agrees_fetch junk junk' header
  · exact local_listOffsets header
  · exact local_metadata header
  · exact local_produce header
  · exact local_offsetCommit header
  · exact local_offsetFetch header
  · exact local_findCoordinator header
  · exact local_joinGroup header
  · exact local_heartbeat header
  · exact local_leaveGroup header
  · exact local_syncGroup header
  · exact .throw _

theorem agrees_request : Agrees 0 0 (request junk) (request junk') :=
  local_requestHeader.bind_agrees fun header => agrees_body junk junk' header

end Fetch

end Parser

/-- **Parsing depends only on the bytes it consumes.** When a buffer is accepted as request
`r`, the reader has stayed inside it; the buffer followed by any bytes is accepted as `r`; and
the buffer cut off anywhere before the reader's final offset is not accepted: all of this
whatever values the unchecked read yields in the two runs. -/
theorem parseRequest_local (junk : Int32) (b : Bytes) (r : Request) (c : ByteReader)
    (h : (Parser.request junk).runOn ⟨b, 0⟩ = (.ok r, c)) :
    c.offset ≤ b.length ∧
    (∀ junk' more, parseRequest junk' (b ++ more) = .ok r) ∧
    (∀ junk' m, m < c.offset → ∃ e, parseRequest junk' (b.take m) = .error e) := by
  refine ⟨?_, ?_, ?_⟩
  · exact (Parser.agrees_request junk junk b [] 0 r c (Nat.zero_le _) h).2.2.1
  · intro junk' more
    obtain ⟨-, -, hhigh, hlong⟩ :=
      Parser.agrees_request junk junk' b more 0 r c (Nat.zero_le _) h
    rcases hlong with hlong | hfew
    · rw [parseRequest, hlong]
    · omega
  · intro junk' m hm
    exact (Parser.agrees_request junk' junk).run_take h hm

/-- An ApiVersions request followed by one more byte. -/
def apiVersionsAndMore : Bytes := [0, 18, 0, 4, 0, 0, 0, 7, 255]

theorem parseRequest_local_apiVersions :
    (Parser.request 0).runOn ⟨apiVersionsAndMore, 0⟩ =
      (.ok (.apiVersions ⟨⟨18, 4, 7⟩⟩), ⟨apiVersionsAndMore, 8⟩) ∧
    ∃ e, parseRequest 5 (apiVersionsAndMore.take 7) = .error e :=
  ⟨by rfl, (parseRequest_local 0 apiVersionsAndMore (.apiVersions ⟨⟨18, 4, 7⟩⟩)
    ⟨apiVersionsAndMore, 8⟩ (by rfl)).2.2 5 7 (by decide)⟩

end TinyKafka
