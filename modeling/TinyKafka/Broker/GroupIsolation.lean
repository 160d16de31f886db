import TinyKafka.Broker.GroupFencing

/-!
# Groups do not interfere

All groups share one map and one counter for generated member ids. A request reads and
writes the record of its own group; the counter is touched only by a JoinGroup without a
member id. So what a run shows of one group is what the requests addressed to that group
show on their own (`groups_isolated`), provided that every JoinGroup names its member.
-/

namespace TinyKafka

open GroupCoordinator GroupMetadata

/-- The request does not ask for a generated member id. -/
def GroupInput.NamesMember : GroupInput → Prop
  | .join r _ => r.memberId ≠ []
  | _ => True

instance : (i : GroupInput) → Decidable i.NamesMember
  | .join _ _ => inferInstanceAs (Decidable (_ ≠ _))
  | .sync _ _ => .isTrue trivial
  | .heartbeat _ _ => .isTrue trivial
  | .leave _ => .isTrue trivial
  | .offsetCommit _ => .isTrue trivial
  | .offsetFetch _ => .isTrue trivial

section Congr

variable {c c' : GroupCoordinator}

theorem groupOrNew_congr {id : Bytes} (h : c.groups id = c'.groups id) :
    c.groupOrNew id = c'.groupOrNew id := by
  rw [groupOrNew, groupOrNew, h]

theorem groupAt_congr {id : Bytes} (h : c.groups id = c'.groups id) (γ : Int32) :
    c.groupAt id γ = c'.groupAt id γ := by
  rw [groupAt, groupAt, h]

@[simp] theorem groups_setGroup_self (id : Bytes) (g : GroupMetadata) :
    (c.setGroup id g).groups id = some g :=
  Function.update_self _ _ _

private theorem handleSyncGroup_congr (r : SyncGroupRequest) (now : ℕ → ℤ)
    (h : c.groups r.groupId = c'.groups r.groupId) :
    (c.handleSyncGroup r now).2 = (c'.handleSyncGroup r now).2 ∧
      (c.handleSyncGroup r now).1.groups r.groupId =
        (c'.handleSyncGroup r now).1.groups r.groupId := by
  rw [handleSyncGroup, handleSyncGroup, groupAt_congr h]
  cases c'.groupAt r.groupId r.generationId with
  | none => exact ⟨rfl, h⟩
  | some g =>
    dsimp only
    split
    · simp
    · exact ⟨rfl, h⟩

private theorem handleHeartbeat_congr (r : HeartbeatRequest) (now : ℤ)
    (h : c.groups r.groupId = c'.groups r.groupId) :
    (c.handleHeartbeat r now).2 = (c'.handleHeartbeat r now).2 ∧
      (c.handleHeartbeat r now).1.groups r.groupId =
        (c'.handleHeartbeat r now).1.groups r.groupId := by
  rw [handleHeartbeat, handleHeartbeat, groupAt_congr h]
  cases c'.groupAt r.groupId r.generationId with
  | none => exact ⟨rfl, h⟩
  | some g =>
    dsimp only
    split
    · exact ⟨rfl, h⟩
    · simp

private theorem handleLeaveGroup_congr (r : LeaveGroupRequest)
    (h : c.groups r.groupId = c'.groups r.groupId) :
    (c.handleLeaveGroup r).2 = (c'.handleLeaveGroup r).2 ∧
      (c.handleLeaveGroup r).1.groups r.groupId =
        (c'.handleLeaveGroup r).1.groups r.groupId := by
  rw [handleLeaveGroup, handleLeaveGroup, h]
  cases hg : c'.groups r.groupId with
  | none => exact ⟨rfl, h⟩
  | some g =>
    dsimp only
    obtain ⟨g', erased⟩ := g.leave r.memberId
    cases erased with
    | false => exact ⟨rfl, h⟩
    | true => simp

/-- The response to a request, and the record it leaves of its group, depend on the record it
finds there and on nothing else. -/
theorem step_congr (i : GroupInput) (hi : i.NamesMember)
    (h : c.groups i.groupId = c'.groups i.groupId) :
    groupMachine.out c i = groupMachine.out c' i ∧
      (groupMachine.next c i).groups i.groupId = (groupMachine.next c' i).groups i.groupId := by
  cases i with
  | join r now =>
    -- the counter is read only for a member id that the request leaves empty
    have hmember : c.joinMember r = c'.joinMember r := by
      rw [joinMember, joinMember, if_neg hi, if_neg hi]
    have hgroup : c.groupOrNew r.groupId = c'.groupOrNew r.groupId := groupOrNew_congr h
    constructor
    · simp [Machine.out, groupMachine, handleJoinGroup, hmember, hgroup]
    · simp [Machine.next, groupMachine, handleJoinGroup, setGroup, GroupInput.groupId, hmember,
        hgroup]
  | sync r now =>
    obtain ⟨hout, hgroups⟩ := handleSyncGroup_congr r now h
    exact ⟨congrArg GroupOutput.sync hout, hgroups⟩
  | heartbeat r now =>
    obtain ⟨hout, hgroups⟩ := handleHeartbeat_congr r now h
    exact ⟨congrArg GroupOutput.heartbeat hout, hgroups⟩
  | leave r =>
    obtain ⟨hout, hgroups⟩ := handleLeaveGroup_congr r h
    exact ⟨congrArg GroupOutput.leave hout, hgroups⟩
  | offsetCommit r =>
    have hgroup : c.groupOrNew r.groupId = c'.groupOrNew r.groupId := groupOrNew_congr h
    constructor
    · rfl
    · simp [Machine.next, groupMachine, handleOffsetCommit, GroupInput.groupId, hgroup]
  | offsetFetch r =>
    have hgroup : c.groupOrNew r.groupId = c'.groupOrNew r.groupId := groupOrNew_congr h
    constructor
    · simp [Machine.out, groupMachine, handleOffsetFetch, hgroup]
    · simp [Machine.next, groupMachine, handleOffsetFetch, GroupInput.groupId, hgroup]

end Congr

/-! ### Commuting requests -/

/-- A request that names its member leaves the counter alone. -/
theorem nextMemberId_next (c : GroupCoordinator) {i : GroupInput} (hi : i.NamesMember) :
    (groupMachine.next c i).nextMemberId = c.nextMemberId := by
  rcases next_cases c i with hsame | ⟨g, hset⟩ | ⟨r, now, g, rfl, hset⟩
  · rw [hsame]
  · rw [hset]
    rfl
  · rw [hset]
    exact if_neg hi

/-- Two requests to different groups can be taken up in either order. -/
theorem next_comm (c : GroupCoordinator) {i j : GroupInput} (hi : i.NamesMember)
    (hj : j.NamesMember) (hne : i.groupId ≠ j.groupId) :
    groupMachine.next (groupMachine.next c i) j = groupMachine.next (groupMachine.next c j) i := by
  have hij : (groupMachine.next c i).groups j.groupId = c.groups j.groupId :=
    next_groups_of_ne c i hne.symm
  have hji : (groupMachine.next c j).groups i.groupId = c.groups i.groupId :=
    next_groups_of_ne c j hne
  have hgroups : (groupMachine.next (groupMachine.next c i) j).groups =
      (groupMachine.next (groupMachine.next c j) i).groups := by
    -- each request finds its own group as if the other had not come before it
    funext id
    by_cases hid : id = i.groupId
    · subst hid
      rw [next_groups_of_ne _ j hne, (step_congr i hi hji).2]
    · rw [next_groups_of_ne _ i hid]
      by_cases hid' : id = j.groupId
      · subst hid'
        exact (step_congr j hj hij).2
      · rw [next_groups_of_ne _ j hid', next_groups_of_ne _ i hid, next_groups_of_ne _ j hid']
  have hcounter : (groupMachine.next (groupMachine.next c i) j).nextMemberId =
      (groupMachine.next (groupMachine.next c j) i).nextMemberId := by
    rw [nextMemberId_next _ hj, nextMemberId_next _ hi, nextMemberId_next _ hi,
      nextMemberId_next _ hj]
  generalize groupMachine.next (groupMachine.next c i) j = a at hgroups hcounter ⊢
  generalize groupMachine.next (groupMachine.next c j) i = b at hgroups hcounter ⊢
  cases a
  cases b
  subst hgroups hcounter
  rfl

/-! ### Refused requests -/

/-- A request answered with an error code leaves the whole coordinator as it was. -/
theorem next_of_errorCode_ne_zero (c : GroupCoordinator) (i : GroupInput)
    (h : (groupMachine.out c i).errorCode ≠ 0) : groupMachine.next c i = c := by
  cases i with
  | join r now => exact absurd rfl h
  | sync r now =>
    simp only [Machine.out, Machine.next, groupMachine, Prod.map, handleSyncGroup] at h ⊢
    cases hg : c.groupAt r.groupId r.generationId with
    | none => rfl
    | some g =>
      rw [hg] at h
      dsimp only at h
      split at h
      · exact absurd rfl h
      · exact absurd rfl h
  | heartbeat r now =>
    simp only [Machine.out, Machine.next, groupMachine, Prod.map, handleHeartbeat] at h ⊢
    cases hg : c.groupAt r.groupId r.generationId with
    | none => rfl
    | some g =>
      rw [hg] at h
      dsimp only at h ⊢
      split at h
      -- a group that is not `Stable` refuses before it refreshes the session
      next hst => rw [if_pos hst]; rfl
      next => exact absurd rfl h
  | leave r =>
    simp only [Machine.out, Machine.next, groupMachine, Prod.map, handleLeaveGroup] at h ⊢
    cases hg : c.groups r.groupId with
    | none => rfl
    | some g =>
      rw [hg] at h
      dsimp only at h ⊢
      rcases hl : g.leave r.memberId with ⟨g', _ | _⟩
      · rfl
      · rw [hl] at h
        exact absurd rfl h
  | offsetCommit r => exact absurd rfl h
  | offsetFetch r => exact absurd rfl h

/-! ### The theorem -/

/-- **Groups are isolated.** In every run, from any state, whose JoinGroups all name their
member, the responses to the requests addressed to group `id` and the record it ends with are
those of the run restricted to these requests; two requests to different groups commute, in
the state they leave and in both responses; and a request that is answered with an error code
changes nothing at all. -/
theorem groups_isolated (c : GroupCoordinator) (run : List GroupInput)
    (hrun : ∀ i ∈ run, i.NamesMember) :
    (∀ id, (groupMachine.trace c run).filter (fun e => e.1.groupId = id) =
        groupMachine.trace c (run.filter fun i => i.groupId = id) ∧
      (groupMachine.exec c run).groups id =
        (groupMachine.exec c (run.filter fun i => i.groupId = id)).groups id) ∧
    (∀ (c' : GroupCoordinator) (i j : GroupInput), i.NamesMember → j.NamesMember →
      i.groupId ≠ j.groupId →
      groupMachine.exec c' [i, j] = groupMachine.exec c' [j, i] ∧
        groupMachine.out (groupMachine.next c' i) j = groupMachine.out c' j ∧
        groupMachine.out (groupMachine.next c' j) i = groupMachine.out c' i) ∧
    (∀ (c' : GroupCoordinator) (i : GroupInput), (groupMachine.out c' i).errorCode ≠ 0 →
      groupMachine.next c' i = c') := by
  refine ⟨?_, ?_, next_of_errorCode_ne_zero⟩
  · intro id
    exact Machine.isolated_run (V := fun id c => c.groups id) (A := GroupInput.NamesMember)
      (fun c i k _ hk => next_groups_of_ne c i (Ne.symm hk))
      (fun c c' i hi h => step_congr i hi h) id run hrun c c rfl
  · intro c' i j hi hj hne
    refine ⟨next_comm c' hi hj hne, ?_, ?_⟩
    · exact (step_congr j hj (next_groups_of_ne c' i hne.symm)).1
    · exact (step_congr i hi (next_groups_of_ne c' j hne)).1

/-- Members of two groups take turns. -/
def twoGroupsInTurn : List GroupInput :=
  let h : RequestHeader := ⟨11, 0, 1⟩
  [.join ⟨h, ascii "g", 30000, ascii "a", ascii "consumer", []⟩ 0,
   .join ⟨h, ascii "k", 30000, ascii "b", ascii "consumer", []⟩ 0,
   .leave ⟨h, ascii "g", ascii "a"⟩]

theorem groups_isolated_twoGroupsInTurn :
    (∀ i ∈ twoGroupsInTurn, i.NamesMember) ∧
    (groupMachine.exec {} twoGroupsInTurn).groups (ascii "k") =
      (groupMachine.exec {} [.join ⟨⟨11, 0, 1⟩, ascii "k", 30000, ascii "b",
        ascii "consumer", []⟩ 0]).groups (ascii "k") :=
  ⟨by decide, ((groups_isolated {} twoGroupsInTurn (by decide)).1 (ascii "k")).2⟩

end TinyKafka
