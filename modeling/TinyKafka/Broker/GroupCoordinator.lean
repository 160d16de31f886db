import Mathlib.Logic.Function.Basic
import TinyKafka.ForMathlib.Machine
import TinyKafka.ForMathlib.KeyedList
import TinyKafka.Protocol.Request
import TinyKafka.Protocol.Response

/-!
# The group coordinator

`GroupCoordinator` of `broker/group_coordinator.cpp`: the six stateful handlers and
`handle_find_coordinator`. Every handler runs under the coordinator's mutex, so a run of
the coordinator is a sequence of whole requests (`groupMachine`); the clock readings a
handler takes are part of its input, in nanoseconds of the steady clock.

`groups_` and the two levels of `committed_offsets` are maps that no code iterates over, so
they are partial functions here. The part of a handler that works on one group record is a
function on `GroupMetadata` (`GroupMetadata.join`, `.assign`, `.beat`, `.leave`); the
handlers differ in how they reach the record: JoinGroup and the offset requests create it
when it is absent, the other three answer with an error.
-/

namespace TinyKafka

/-- `GroupState`. -/
inductive GroupState where
  | empty
  | awaitingSync
  | stable
  | dead
deriving DecidableEq

/-- `MemberInfo`; `lastHeartbeat` is a steady-clock reading. -/
structure MemberInfo where
  memberId : Bytes
  protocolMetadata : Bytes
  assignment : Bytes
  lastHeartbeat : ℤ
deriving DecidableEq

/-- `GroupMetadata`, with the source's default member initialisers. -/
structure GroupMetadata where
  state : GroupState := .empty
  generation : Int32 := 0
  sessionTimeoutMs : Int32 := 30000
  members : List MemberInfo := []
  committedOffsets : Bytes → Option (Int32 → Option Int64) := fun _ => none

namespace GroupMetadata

/-- The member ids of a group, in list order. -/
def memberIds (g : GroupMetadata) : List Bytes := g.members.map MemberInfo.memberId

/-- `for (m : members) if (m.member_id == member) { assignment = m.assignment; break; }`,
starting from the empty byte string. -/
def assignmentOf (g : GroupMetadata) (member : Bytes) : Bytes :=
  ((g.members.find? (·.memberId = member)).map MemberInfo.assignment).getD []

/-- `m.last_heartbeat = now` on the first entry of the member. -/
def touch (members : List MemberInfo) (member : Bytes) (now : ℤ) : List MemberInfo :=
  members.updateKey MemberInfo.memberId member fun m => { m with lastHeartbeat := now }

/-- The generation a JoinGroup leaves behind. -/
def joinGeneration (g : GroupMetadata) : Int32 :=
  if g.generation = 0 then 1
  else if g.state = .stable then g.generation + 1
  else g.generation

/-- The member list a JoinGroup leaves behind: a new member is appended with no assignment,
a known one only has its heartbeat refreshed. -/
def joinMembers (g : GroupMetadata) (member : Bytes) (protocols : List JoinGroupProtocol)
    (now : ℤ) : List MemberInfo :=
  if member ∈ g.memberIds then touch g.members member now
  else g.members ++ [{
    memberId := member
    protocolMetadata := (protocols.head?.map JoinGroupProtocol.metadata).getD []
    assignment := []
    lastHeartbeat := now }]

/-- `handle_join_group` on the group record. -/
def join (g : GroupMetadata) (member : Bytes) (r : JoinGroupRequest) (now : ℤ) :
    GroupMetadata :=
  { g with
    members := g.joinMembers member r.protocols now
    sessionTimeoutMs := r.sessionTimeoutMs
    generation := g.joinGeneration
    state := .awaitingSync }

/-- One turn of the assignment loop of `handle_sync_group`: the first entry of the listed
member has its assignment overwritten, or the member is appended with no protocol metadata
when there is no such entry. -/
def assignMember (members : List MemberInfo) (a : SyncGroupAssignment) (now : ℤ) :
    List MemberInfo :=
  members.upsertKey MemberInfo.memberId a.memberId
    (fun m => { m with assignment := a.assignment })
    { memberId := a.memberId
      protocolMetadata := []
      assignment := a.assignment
      lastHeartbeat := now }

/-- The assignment loop of `handle_sync_group`; the `k`-th entry of the request takes the
`k`-th clock reading. -/
def assignMembers (members : List MemberInfo) :
    List SyncGroupAssignment → (ℕ → ℤ) → List MemberInfo
  | [], _ => members
  | a :: as, now => assignMembers (assignMember members a (now 0)) as fun k => now (k + 1)

/-- `handle_sync_group` on the group record, when the request carries assignments. -/
def assign (g : GroupMetadata) (assignments : List SyncGroupAssignment) (now : ℕ → ℤ) :
    GroupMetadata :=
  { g with members := assignMembers g.members assignments now, state := .stable }

/-- `now - m.last_heartbeat > timeout`, the timeout being given in milliseconds. -/
def expired (sessionTimeoutMs : Int32) (now : ℤ) (m : MemberInfo) : Bool :=
  decide (now - m.lastHeartbeat > sessionTimeoutMs.toInt * 1000000)

/-- What both removal paths do after erasing members: an emptied group becomes `Empty`, a
shrunk one is sent back to `AwaitingSync` in a new generation. -/
def afterErase (g : GroupMetadata) (members : List MemberInfo) : GroupMetadata :=
  if members = [] then { g with members := members, state := .empty }
  else if members.length < g.members.length then
    { g with members := members, state := .awaitingSync, generation := g.generation + 1 }
  else { g with members := members }

/-- The members an accepted Heartbeat keeps: the sender is refreshed first, then everyone
whose session has timed out is erased. -/
def beatMembers (g : GroupMetadata) (member : Bytes) (now : ℤ) : List MemberInfo :=
  (touch g.members member now).filter fun m => !expired g.sessionTimeoutMs now m

/-- `handle_heartbeat` on the group record, once the request is accepted. -/
def beat (g : GroupMetadata) (member : Bytes) (now : ℤ) : GroupMetadata :=
  g.afterErase (g.beatMembers member now)

/-- The members a LeaveGroup keeps. -/
def leaveMembers (g : GroupMetadata) (member : Bytes) : List MemberInfo :=
  g.members.filter fun m => m.memberId ≠ member

/-- `handle_leave_group` on the group record; the second component says whether a member was
erased. Without one the record stays as it is, also when it is empty. -/
def leave (g : GroupMetadata) (member : Bytes) : GroupMetadata × Bool :=
  if (g.leaveMembers member).length < g.members.length then
    (g.afterErase (g.leaveMembers member), true)
  else (g, false)

/-- `committed_offsets[topic][partition] = offset`. -/
def commit (g : GroupMetadata) (topic : Bytes) (partition : Int32) (offset : Int64) :
    GroupMetadata :=
  { g with
    committedOffsets := Function.update g.committedOffsets topic
      (some (Function.update ((g.committedOffsets topic).getD fun _ => none)
        partition (some offset))) }

/-- The nested loops of `handle_offset_commit`. -/
def commitAll (g : GroupMetadata) (topics : List OffsetCommitTopicRequest) : GroupMetadata :=
  topics.foldl (fun g t =>
    t.partitions.foldl (fun g p => g.commit t.topicName p.partitionIndex p.committedOffset) g) g

/-- The lookup of `handle_offset_fetch`; `-1` when nothing is committed. -/
def committed (g : GroupMetadata) (topic : Bytes) (partition : Int32) : Int64 :=
  ((g.committedOffsets topic).bind fun m => m partition).getD (-1)

end GroupMetadata

/-- `GroupCoordinator`. -/
structure GroupCoordinator where
  groups : Bytes → Option GroupMetadata := fun _ => none
  nextMemberId : Int32 := 0

namespace GroupCoordinator

/-- `groups_[id]`: the record, created with its defaults when absent. -/
def groupOrNew (c : GroupCoordinator) (id : Bytes) : GroupMetadata := (c.groups id).getD {}

/-- Store a group record. -/
def setGroup (c : GroupCoordinator) (id : Bytes) (g : GroupMetadata) : GroupCoordinator :=
  { c with groups := Function.update c.groups id (some g) }

/-- `handle_find_coordinator`. -/
def handleFindCoordinator (r : FindCoordinatorRequest) : FindCoordinatorResponse where
  correlationId := r.header.correlationId
  throttleTimeMs := 0
  errorCode := 0
  errorMessage := []
  nodeId := 1
  host := ascii "localhost"
  port := 9092

/-- The member id a JoinGroup works with: generated when the request leaves it empty. -/
def joinMember (c : GroupCoordinator) (r : JoinGroupRequest) : Bytes :=
  if r.memberId = [] then ascii "member-" ++ toDecimal (c.nextMemberId + 1).toInt
  else r.memberId

/-- The id counter a JoinGroup leaves behind. -/
def joinCounter (c : GroupCoordinator) (r : JoinGroupRequest) : Int32 :=
  if r.memberId = [] then c.nextMemberId + 1 else c.nextMemberId

/-- `handle_join_group`. -/
def handleJoinGroup (c : GroupCoordinator) (r : JoinGroupRequest) (now : ℤ) :
    GroupCoordinator × JoinGroupResponse :=
  let member := c.joinMember r
  let g := (c.groupOrNew r.groupId).join member r now
  ({ c.setGroup r.groupId g with nextMemberId := c.joinCounter r },
    { correlationId := r.header.correlationId
      throttleTimeMs := 0
      errorCode := 0
      generationId := g.generation
      protocolName := (r.protocols.head?.map JoinGroupProtocol.name).getD []
      leader := (g.members.head?.map MemberInfo.memberId).getD []
      memberId := member
      members := g.members.map fun m => ⟨m.memberId, m.protocolMetadata⟩ })

/-- The response of `handle_sync_group`. -/
def syncResponse (r : SyncGroupRequest) (errorCode : Int16) (assignment : Bytes) :
    SyncGroupResponse where
  correlationId := r.header.correlationId
  throttleTimeMs := 0
  errorCode := errorCode
  protocolType := []
  protocolName := []
  assignment := assignment

/-- The record a SyncGroup or a Heartbeat is checked against: `find`, then the generation
comparison. -/
def groupAt (c : GroupCoordinator) (id : Bytes) (generation : Int32) : Option GroupMetadata :=
  (c.groups id).filter fun g => g.generation = generation

/-- `handle_sync_group`. -/
def handleSyncGroup (c : GroupCoordinator) (r : SyncGroupRequest) (now : ℕ → ℤ) :
    GroupCoordinator × SyncGroupResponse :=
  match c.groupAt r.groupId r.generationId with
  | none => (c, syncResponse r 82 [])
  | some g =>
    if r.assignments ≠ [] then
      let g' := g.assign r.assignments now
      (c.setGroup r.groupId g', syncResponse r 0 (g'.assignmentOf r.memberId))
    else (c, syncResponse r 0 (g.assignmentOf r.memberId))

/-- The response of `handle_heartbeat`. -/
def heartbeatResponse (r : HeartbeatRequest) (errorCode : Int16) : HeartbeatResponse where
  correlationId := r.header.correlationId
  throttleTimeMs := 0
  errorCode := errorCode

/-- `handle_heartbeat`. -/
def handleHeartbeat (c : GroupCoordinator) (r : HeartbeatRequest) (now : ℤ) :
    GroupCoordinator × HeartbeatResponse :=
  match c.groupAt r.groupId r.generationId with
  | none => (c, heartbeatResponse r 82)
  | some g =>
    if g.state ≠ .stable then (c, heartbeatResponse r 82)
    else (c.setGroup r.groupId (g.beat r.memberId now), heartbeatResponse r 0)

/-- The response of `handle_leave_group`. -/
def leaveResponse (r : LeaveGroupRequest) (errorCode : Int16) : LeaveGroupResponse where
  correlationId := r.header.correlationId
  throttleTimeMs := 0
  errorCode := errorCode

/-- `handle_leave_group`. -/
def handleLeaveGroup (c : GroupCoordinator) (r : LeaveGroupRequest) :
    GroupCoordinator × LeaveGroupResponse :=
  match c.groups r.groupId with
  | none => (c, leaveResponse r 25)
  | some g =>
    match g.leave r.memberId with
    | (g', true) => (c.setGroup r.groupId g', leaveResponse r 0)
    | (_, false) => (c, leaveResponse r 25)

/-- `handle_offset_commit`. -/
def handleOffsetCommit (c : GroupCoordinator) (r : OffsetCommitRequest) :
    GroupCoordinator × OffsetCommitResponse :=
  (c.setGroup r.groupId ((c.groupOrNew r.groupId).commitAll r.topics),
    { correlationId := r.header.correlationId
      throttleTimeMs := 0
      topics := r.topics.map fun t =>
        { topicName := t.topicName
          partitions := t.partitions.map fun p =>
            { partitionIndex := p.partitionIndex, errorCode := 0, committedMetadata := [] } } })

/-- `handle_offset_fetch`; the record is created when it is absent. -/
def handleOffsetFetch (c : GroupCoordinator) (r : OffsetFetchRequest) :
    GroupCoordinator × OffsetFetchResponse :=
  let g := c.groupOrNew r.groupId
  (c.setGroup r.groupId g,
    { correlationId := r.header.correlationId
      throttleTimeMs := 0
      topics := r.topics.map fun t =>
        { topicName := t.topicName
          partitions := t.partitionIndexes.map fun p =>
            { partitionIndex := p
              committedOffset := g.committed t.topicName p
              committedMetadata := []
              errorCode := 0 } } })

end GroupCoordinator

/-! ### The coordinator as a machine -/

/-- A request to one of the six stateful handlers, with the clock readings it takes. -/
inductive GroupInput where
  | join (r : JoinGroupRequest) (now : ℤ)
  | sync (r : SyncGroupRequest) (now : ℕ → ℤ)
  | heartbeat (r : HeartbeatRequest) (now : ℤ)
  | leave (r : LeaveGroupRequest)
  | offsetCommit (r : OffsetCommitRequest)
  | offsetFetch (r : OffsetFetchRequest)

/-- The matching responses. -/
inductive GroupOutput where
  | join (r : JoinGroupResponse)
  | sync (r : SyncGroupResponse)
  | heartbeat (r : HeartbeatResponse)
  | leave (r : LeaveGroupResponse)
  | offsetCommit (r : OffsetCommitResponse)
  | offsetFetch (r : OffsetFetchResponse)
deriving DecidableEq

/-- The group a request is addressed to. -/
def GroupInput.groupId : GroupInput → Bytes
  | .join r _ => r.groupId
  | .sync r _ => r.groupId
  | .heartbeat r _ => r.groupId
  | .leave r => r.groupId
  | .offsetCommit r => r.groupId
  | .offsetFetch r => r.groupId

/-- The coordinator, one whole request a step. -/
def groupMachine : Machine GroupCoordinator GroupInput GroupOutput where
  step c
    | .join r now => (c.handleJoinGroup r now).map id .join
    | .sync r now => (c.handleSyncGroup r now).map id .sync
    | .heartbeat r now => (c.handleHeartbeat r now).map id .heartbeat
    | .leave r => (c.handleLeaveGroup r).map id .leave
    | .offsetCommit r => (c.handleOffsetCommit r).map id .offsetCommit
    | .offsetFetch r => (c.handleOffsetFetch r).map id .offsetFetch

end TinyKafka
