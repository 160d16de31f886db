import TinyKafka.Broker.GroupCoordinator

/-!
# What one coordinator request can do to a group

`GroupChange i g g'` lists everything a request `i` can do to a group record, guards
included; `groupChange_next` says that nothing else happens. The absent record and the
default one are both read as `{}` here (`GroupCoordinator.groupOrNew`): the handlers tell
them apart in their error codes only. Later arguments go by cases on `GroupChange` and never
unfold a handler.
-/

namespace TinyKafka

open GroupCoordinator GroupMetadata

/-- Everything request `i` can do to the record of a group. -/
inductive GroupChange : GroupInput → GroupMetadata → GroupMetadata → Prop
  | refl (i g) : GroupChange i g g
  | join (r now member g) : GroupChange (.join r now) g (g.join member r now)
  | assign (r now g) (hgen : g.generation = r.generationId) (hne : r.assignments ≠ []) :
      GroupChange (.sync r now) g (g.assign r.assignments now)
  | beat (r now g) (hgen : g.generation = r.generationId) (hstable : g.state = .stable) :
      GroupChange (.heartbeat r now) g (g.beat r.memberId now)
  | leave (r g) (hlt : (g.leaveMembers r.memberId).length < g.members.length) :
      GroupChange (.leave r) g (g.afterErase (g.leaveMembers r.memberId))
  | commit (r g) : GroupChange (.offsetCommit r) g (g.commitAll r.topics)

namespace GroupCoordinator

@[simp] theorem groupOrNew_setGroup_self (c : GroupCoordinator) (id : Bytes)
    (g : GroupMetadata) : (c.setGroup id g).groupOrNew id = g := by
  simp [groupOrNew, setGroup]

theorem groups_setGroup_of_ne (c : GroupCoordinator) {id id' : Bytes} (g : GroupMetadata)
    (h : id' ≠ id) : (c.setGroup id g).groups id' = c.groups id' :=
  Function.update_of_ne h _ _

/-- A record found under a generation is the stored one, with that generation. -/
theorem groupAt_eq_some {c : GroupCoordinator} {id : Bytes} {γ : Int32} {g : GroupMetadata} :
    c.groupAt id γ = some g ↔ c.groups id = some g ∧ g.generation = γ := by
  simp [groupAt, Option.filter_eq_some_iff]

theorem groupOrNew_of_groups {c : GroupCoordinator} {id : Bytes} {g : GroupMetadata}
    (h : c.groups id = some g) : c.groupOrNew id = g := by
  simp [groupOrNew, h]

theorem groupOrNew_of_groupAt {c : GroupCoordinator} {id : Bytes} {γ : Int32}
    {g : GroupMetadata} (h : c.groupAt id γ = some g) : c.groupOrNew id = g :=
  groupOrNew_of_groups (groupAt_eq_some.mp h).1

end GroupCoordinator

/-! ### The frame: other groups -/

/-- A request leaves the coordinator as it is or stores one record, that of its own group; a
JoinGroup may also move the counter of generated member ids. -/
theorem next_cases (c : GroupCoordinator) (i : GroupInput) :
    groupMachine.next c i = c ∨ (∃ g, groupMachine.next c i = c.setGroup i.groupId g) ∨
      ∃ r now g, i = .join r now ∧ groupMachine.next c i =
        { c.setGroup r.groupId g with nextMemberId := c.joinCounter r } := by
  cases i with
  | join r now => exact .inr (.inr ⟨r, now, _, rfl, rfl⟩)
  | sync r now =>
    simp only [Machine.next, groupMachine, Prod.map, handleSyncGroup]
    cases c.groupAt r.groupId r.generationId with
    | none => exact .inl rfl
    | some g =>
      dsimp only
      split
      · exact .inr (.inl ⟨_, rfl⟩)
      · exact .inl rfl
  | heartbeat r now =>
    simp only [Machine.next, groupMachine, Prod.map, handleHeartbeat]
    cases c.groupAt r.groupId r.generationId with
    | none => exact .inl rfl
    | some g =>
      dsimp only
      split
      · exact .inl rfl
      · exact .inr (.inl ⟨_, rfl⟩)
  | leave r =>
    simp only [Machine.next, groupMachine, Prod.map, handleLeaveGroup]
    cases c.groups r.groupId with
    | none => exact .inl rfl
    | some g =>
      dsimp only
      rcases g.leave r.memberId with ⟨g', _ | _⟩
      · exact .inl rfl
      · exact .inr (.inl ⟨g', rfl⟩)
  | offsetCommit r => exact .inr (.inl ⟨_, rfl⟩)
  | offsetFetch r => exact .inr (.inl ⟨_, rfl⟩)

/-- A request leaves every other group's record as it is. -/
theorem next_groups_of_ne (c : GroupCoordinator) (i : GroupInput) {id : Bytes}
    (h : id ≠ i.groupId) : (groupMachine.next c i).groups id = c.groups id := by
  rcases next_cases c i with hsame | ⟨g, hset⟩ | ⟨r, now, g, rfl, hset⟩
  · rw [hsame]
  · rw [hset]
    exact groups_setGroup_of_ne c g h
  · rw [hset]
    exact groups_setGroup_of_ne c g h

theorem groupOrNew_next_of_ne (c : GroupCoordinator) (i : GroupInput) {id : Bytes}
    (h : id ≠ i.groupId) : (groupMachine.next c i).groupOrNew id = c.groupOrNew id := by
  rw [groupOrNew, groupOrNew, next_groups_of_ne c i h]

/-! ### The group the request is addressed to -/

private theorem groupChange_sync (c : GroupCoordinator) (r : SyncGroupRequest) (now : ℕ → ℤ) :
    GroupChange (.sync r now) (c.groupOrNew r.groupId)
      ((c.handleSyncGroup r now).1.groupOrNew r.groupId) := by
  rw [handleSyncGroup]
  rcases h : c.groupAt r.groupId r.generationId with _ | g
  · exact .refl _ _
  · rw [groupOrNew_of_groupAt h]
    by_cases hne : r.assignments = []
    · simpa [hne, groupOrNew_of_groupAt h] using GroupChange.refl (.sync r now) g
    · simpa [hne] using GroupChange.assign r now g (groupAt_eq_some.mp h).2 hne

private theorem groupChange_heartbeat (c : GroupCoordinator) (r : HeartbeatRequest) (now : ℤ) :
    GroupChange (.heartbeat r now) (c.groupOrNew r.groupId)
      ((c.handleHeartbeat r now).1.groupOrNew r.groupId) := by
  rw [handleHeartbeat]
  rcases h : c.groupAt r.groupId r.generationId with _ | g
  · exact .refl _ _
  · rw [groupOrNew_of_groupAt h]
    by_cases hst : g.state = .stable
    · simpa [hst] using GroupChange.beat r now g (groupAt_eq_some.mp h).2 hst
    · simpa [hst, groupOrNew_of_groupAt h] using GroupChange.refl (.heartbeat r now) g

private theorem groupChange_leave (c : GroupCoordinator) (r : LeaveGroupRequest) :
    GroupChange (.leave r) (c.groupOrNew r.groupId)
      ((c.handleLeaveGroup r).1.groupOrNew r.groupId) := by
  rw [handleLeaveGroup]
  rcases h : c.groups r.groupId with _ | g
  · exact .refl _ _
  · rw [groupOrNew_of_groups h]
    by_cases hlt : (g.leaveMembers r.memberId).length < g.members.length
    · simpa [GroupMetadata.leave, hlt] using GroupChange.leave r g hlt
    · simpa [GroupMetadata.leave, hlt, groupOrNew_of_groups h] using
        GroupChange.refl (.leave r) g

theorem groupOrNew_next_join (c : GroupCoordinator) (r : JoinGroupRequest) (now : ℤ) :
    (groupMachine.next c (.join r now)).groupOrNew r.groupId =
      (c.groupOrNew r.groupId).join (c.joinMember r) r now := by
  simp [Machine.next, groupMachine, handleJoinGroup, groupOrNew, setGroup]

/-- **Inversion.** Whatever a request does to any group is one of the listed changes. -/
theorem groupChange_next (c : GroupCoordinator) (i : GroupInput) (id : Bytes) :
    GroupChange i (c.groupOrNew id) ((groupMachine.next c i).groupOrNew id) := by
  by_cases hid : id = i.groupId
  · subst hid
    cases i with
    | join r now =>
      simpa only [GroupInput.groupId, groupOrNew_next_join] using
        GroupChange.join r now (c.joinMember r) _
    | sync r now => exact groupChange_sync c r now
    | heartbeat r now => exact groupChange_heartbeat c r now
    | leave r => exact groupChange_leave c r
    | offsetCommit r =>
      have h : (groupMachine.next c (.offsetCommit r)).groupOrNew r.groupId =
          (c.groupOrNew r.groupId).commitAll r.topics := groupOrNew_setGroup_self c _ _
      simpa only [GroupInput.groupId, h] using GroupChange.commit r _
    | offsetFetch r =>
      have h : (groupMachine.next c (.offsetFetch r)).groupOrNew r.groupId =
          c.groupOrNew r.groupId := groupOrNew_setGroup_self c _ _
      simpa only [GroupInput.groupId, h] using GroupChange.refl (.offsetFetch r) _
  · rw [groupOrNew_next_of_ne c i hid]
    exact .refl _ _

/-! ### Offsets do not touch the membership -/

namespace GroupMetadata

/-- A commit changes nothing but the committed offsets. -/
theorem commitAll_eq (g : GroupMetadata) (topics : List OffsetCommitTopicRequest) :
    ∃ offsets, g.commitAll topics = { g with committedOffsets := offsets } := by
  have hinner : ∀ (topic : Bytes) (ps : List OffsetCommitPartitionRequest) (g : GroupMetadata),
      ∃ offsets, ps.foldl (fun g p => g.commit topic p.partitionIndex p.committedOffset) g =
        { g with committedOffsets := offsets } := by
    intro topic ps
    induction ps with
    | nil => exact fun g => ⟨g.committedOffsets, rfl⟩
    | cons p ps ih =>
      intro g
      obtain ⟨offsets, h⟩ := ih (g.commit topic p.partitionIndex p.committedOffset)
      exact ⟨offsets, h⟩
  rw [commitAll]
  induction topics generalizing g with
  | nil => exact ⟨g.committedOffsets, rfl⟩
  | cons t topics ih =>
    obtain ⟨offsets, h⟩ := hinner t.topicName t.partitions g
    rw [List.foldl_cons, h]
    obtain ⟨offsets', h'⟩ := ih { g with committedOffsets := offsets }
    exact ⟨offsets', h'⟩

@[simp] theorem commitAll_members (g : GroupMetadata) (topics) :
    (g.commitAll topics).members = g.members := by
  obtain ⟨offsets, h⟩ := g.commitAll_eq topics
  rw [h]

@[simp] theorem commitAll_generation (g : GroupMetadata) (topics) :
    (g.commitAll topics).generation = g.generation := by
  obtain ⟨offsets, h⟩ := g.commitAll_eq topics
  rw [h]

@[simp] theorem commitAll_state (g : GroupMetadata) (topics) :
    (g.commitAll topics).state = g.state := by
  obtain ⟨offsets, h⟩ := g.commitAll_eq topics
  rw [h]

/-! ### Members -/

@[simp] theorem map_memberId_touch (members : List MemberInfo) (member : Bytes) (now : ℤ) :
    (touch members member now).map MemberInfo.memberId = members.map MemberInfo.memberId :=
  List.map_key_updateKey fun _ => rfl

@[simp] theorem length_touch (members : List MemberInfo) (member : Bytes) (now : ℤ) :
    (touch members member now).length = members.length := by
  have h := congrArg List.length (map_memberId_touch members member now)
  rwa [List.length_map, List.length_map] at h

/-- A heartbeat refresh changes nobody's assignment. -/
theorem map_assignment_find?_touch (members : List MemberInfo) (member m : Bytes) (now : ℤ) :
    ((touch members member now).find? (·.memberId = m)).map MemberInfo.assignment =
      (members.find? (·.memberId = m)).map MemberInfo.assignment := by
  by_cases h : m = member
  · subst h
    rw [touch, List.find?_updateKey_self, Option.map_map]
    · rfl
    · exact fun _ => rfl
  · rw [touch, List.find?_updateKey_of_ne _ h]
    exact fun _ => rfl

/-- One assignment keeps the member ids, or appends the listed one when it was absent. -/
theorem map_memberId_assignMember (members : List MemberInfo) (a : SyncGroupAssignment)
    (now : ℤ) :
    (assignMember members a now).map MemberInfo.memberId = members.map MemberInfo.memberId ∨
      a.memberId ∉ members.map MemberInfo.memberId ∧
        (assignMember members a now).map MemberInfo.memberId =
          members.map MemberInfo.memberId ++ [a.memberId] := by
  rw [assignMember]
  exact List.map_key_upsertKey (fun _ => rfl) rfl

/-- The listed member now holds the listed assignment. -/
theorem map_assignment_find?_assignMember_self (members : List MemberInfo)
    (a : SyncGroupAssignment) (now : ℤ) :
    ((assignMember members a now).find? (·.memberId = a.memberId)).map MemberInfo.assignment =
      some a.assignment := by
  rw [assignMember, List.find?_upsertKey_self]
  · cases members.find? (·.memberId = a.memberId) <;> rfl
  · exact fun _ => rfl
  · rfl

/-- Nobody else's entry is affected. -/
theorem find?_assignMember_of_ne (members : List MemberInfo) {a : SyncGroupAssignment}
    (now : ℤ) {m : Bytes} (h : m ≠ a.memberId) :
    (assignMember members a now).find? (·.memberId = m) = members.find? (·.memberId = m) :=
  List.find?_upsertKey_of_ne (fun _ => rfl) rfl h

/-- The assignment loop only ever extends the list of member ids. -/
theorem memberId_assignMembers_subset (members : List MemberInfo)
    (as : List SyncGroupAssignment) (now : ℕ → ℤ) :
    members.map MemberInfo.memberId ⊆
      (assignMembers members as now).map MemberInfo.memberId := by
  induction as generalizing members now with
  | nil => exact fun _ h => h
  | cons a as ih =>
    refine List.Subset.trans ?_ (ih _ _)
    rcases map_memberId_assignMember members a (now 0) with h | ⟨-, h⟩
    · rw [h]
      exact fun _ h => h
    · rw [h]
      exact List.subset_append_left _ _

/-- A JoinGroup keeps every member and adds at most the joining one. -/
theorem map_memberId_joinMembers (g : GroupMetadata) (member : Bytes) (protocols) (now : ℤ) :
    (g.joinMembers member protocols now).map MemberInfo.memberId =
      if member ∈ g.memberIds then g.memberIds else g.memberIds ++ [member] := by
  rw [joinMembers]
  split
  · simp [memberIds]
  · simp [memberIds]

/-- The three outcomes of an erasure: everyone gone, somebody gone, nobody gone. -/
theorem afterErase_cases (g : GroupMetadata) (members : List MemberInfo) :
    (members = [] ∧ (g.afterErase members).state = .empty ∧
        (g.afterErase members).generation = g.generation) ∨
    (members ≠ [] ∧ members.length < g.members.length ∧
        (g.afterErase members).state = .awaitingSync ∧
        (g.afterErase members).generation = g.generation + 1) ∨
    (members ≠ [] ∧ g.members.length ≤ members.length ∧
        (g.afterErase members).state = g.state ∧
        (g.afterErase members).generation = g.generation) := by
  rw [afterErase]
  split
  next h => exact .inl ⟨h, rfl, rfl⟩
  next h =>
    split
    next hlt => exact .inr (.inl ⟨h, hlt, rfl, rfl⟩)
    next hlt => exact .inr (.inr ⟨h, by omega, rfl, rfl⟩)

theorem generation_afterErase (g : GroupMetadata) (members : List MemberInfo) :
    (g.afterErase members).generation = g.generation ∨
      (g.afterErase members).generation = g.generation + 1 := by
  rcases g.afterErase_cases members with h | h | h
  · exact .inl h.2.2
  · exact .inr h.2.2.2
  · exact .inl h.2.2.2

/-- An erasure that starts a rebalance opens a new generation. -/
theorem generation_afterErase_of_awaitingSync {g : GroupMetadata} {members : List MemberInfo}
    (hst : g.state = .stable) (hst' : (g.afterErase members).state = .awaitingSync) :
    (g.afterErase members).generation = g.generation + 1 := by
  rcases g.afterErase_cases members with h | h | h
  · simp [h.2.1] at hst'
  · exact h.2.2.2
  · simp [h.2.2.1, hst] at hst'

@[simp] theorem afterErase_members (g : GroupMetadata) (members : List MemberInfo) :
    (g.afterErase members).members = members := by
  rw [afterErase]
  split
  · rfl
  · split <;> rfl

/-- An accepted Heartbeat that evicts nobody leaves the refreshed list. -/
theorem beatMembers_of_length (g : GroupMetadata) (member : Bytes) (now : ℤ)
    (h : g.members.length ≤ (g.beatMembers member now).length) :
    g.beatMembers member now = touch g.members member now :=
  List.filter_eq_self.mpr <| List.length_filter_eq_length_iff.mp <|
    le_antisymm (List.length_filter_le _ _) (by simpa [beatMembers] using h)

end GroupMetadata

/-! ### Generations -/

/-- A request changes a generation by one or not at all. -/
theorem GroupChange.generation {i : GroupInput} {g g' : GroupMetadata}
    (h : GroupChange i g g') :
    g'.generation = g.generation ∨ g'.generation = g.generation + 1 := by
  cases h with
  | refl => exact .inl rfl
  | join r now member =>
    simp only [GroupMetadata.join, joinGeneration]
    split
    next h0 => exact .inr (by rw [h0]; rfl)
    next =>
      split
      · exact .inr rfl
      · exact .inl rfl
  | assign => exact .inl rfl
  | beat r now => exact g.generation_afterErase (g.beatMembers r.memberId now)
  | leave r => exact g.generation_afterErase (g.leaveMembers r.memberId)
  | commit r => exact .inl (commitAll_generation g r.topics)

/-- The generation of every group is below the largest `int32`, so that the next
`++generation` is defined. -/
def GenerationBounded (c : GroupCoordinator) (i : GroupInput) : Prop :=
  (c.groupOrNew i.groupId).generation ≠ Int32.maxValue

instance (c : GroupCoordinator) (i : GroupInput) : Decidable (GenerationBounded c i) :=
  inferInstanceAs (Decidable (_ ≠ _))

theorem toInt_succ_of_ne_max {a : Int32} (h : a ≠ Int32.maxValue) :
    (a + 1).toInt = a.toInt + 1 := by
  have hlt := a.toInt_lt
  have hge := a.le_toInt
  have hne : a.toInt ≠ 2 ^ 31 - 1 := fun he => h (Int32.toInt_inj.mp (by rw [he]; rfl))
  rw [Int32.toInt_add, Int32.toInt_one]
  rw [Int.bmod_eq_of_le (by omega) (by omega)]

/-- A bounded step never lowers a generation. -/
theorem generation_le_next {c : GroupCoordinator} {i : GroupInput}
    (hb : GenerationBounded c i) (id : Bytes) :
    (c.groupOrNew id).generation.toInt ≤
      ((groupMachine.next c i).groupOrNew id).generation.toInt := by
  by_cases hid : id = i.groupId
  · subst hid
    rcases (groupChange_next c i i.groupId).generation with h | h
    · rw [h]
    · rw [h, toInt_succ_of_ne_max hb]
      omega
  · rw [groupOrNew_next_of_ne c i hid]

/-- **Generations never decrease** along a run within the bound. -/
theorem generation_le_exec {c : GroupCoordinator} {is : List GroupInput}
    (hw : groupMachine.Within GenerationBounded c is) (id : Bytes) :
    (c.groupOrNew id).generation.toInt ≤
      ((groupMachine.exec c is).groupOrNew id).generation.toInt :=
  Machine.rel_exec (I := fun _ => True)
    (R := fun a b => (a.groupOrNew id).generation.toInt ≤ (b.groupOrNew id).generation.toInt)
    (fun _ => le_rfl) (fun _ _ _ => le_trans) (fun _ _ _ _ => trivial)
    (fun _ _ _ hb => generation_le_next hb id) trivial hw

/-! ### Removals -/

/-- A request that removes a member either empties the group or opens a new generation. -/
theorem GroupChange.removal {i : GroupInput} {g g' : GroupMetadata} (h : GroupChange i g g')
    {m : Bytes} (hm : m ∈ g.memberIds) (hm' : m ∉ g'.memberIds) :
    (g'.members = [] ∧ g'.state = .empty) ∨ g'.generation = g.generation + 1 := by
  cases h with
  | refl => exact absurd hm hm'
  | join r now member =>
    refine absurd ?_ hm'
    rw [memberIds, GroupMetadata.join, map_memberId_joinMembers]
    split
    · exact hm
    · exact List.mem_append_left _ hm
  | assign r now => exact absurd (memberId_assignMembers_subset _ _ _ hm) hm'
  | beat r now =>
    rcases g.afterErase_cases (g.beatMembers r.memberId now) with h | h | h
    · exact .inl ⟨by simpa [GroupMetadata.beat] using h.1, h.2.1⟩
    · exact .inr h.2.2.2
    · -- nobody was evicted, so the ids are those of before
      refine absurd ?_ hm'
      simpa [memberIds, GroupMetadata.beat, g.beatMembers_of_length r.memberId now h.2.1] using hm
  | leave r _ hlt =>
    rcases g.afterErase_cases (g.leaveMembers r.memberId) with h | h | h
    · exact .inl ⟨by simpa using h.1, h.2.1⟩
    · exact .inr h.2.2.2
    · omega
  | commit r => exact absurd (by simpa [memberIds] using hm) hm'

end TinyKafka
