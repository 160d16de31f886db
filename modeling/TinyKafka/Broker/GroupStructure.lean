import TinyKafka.Broker.GroupSteps

/-!
# The structure of a group

Members are appended by JoinGroup and by SyncGroup, erased by Heartbeat and LeaveGroup, and
the state field is written by all four. `GroupMetadata.WellFormed` is what they keep between
them: no member id occurs twice, the group is `Empty` exactly when it has no members, and
nothing ever makes it `Dead`. Erasing happens in place and admission at the end of the list,
so the list stays in admission order (`GroupChange.survivorsThenNew`) and the leader of a
JoinGroup response, the first member, changes only when that member is removed.
-/

namespace TinyKafka

open GroupCoordinator GroupMetadata

/-- What every group record satisfies in every reachable state. -/
structure GroupMetadata.WellFormed (g : GroupMetadata) : Prop where
  /-- Member ids are pairwise distinct. -/
  nodup : g.memberIds.Nodup
  /-- A group is `Empty` exactly when it has no members. -/
  empty_iff : g.state = .empty ↔ g.members = []
  /-- No handler ever assigns `Dead`. -/
  ne_dead : g.state ≠ .dead

/-! ### Admission order -/

namespace GroupMetadata

theorem memberIds_join (g : GroupMetadata) (member : Bytes) (r : JoinGroupRequest) (now : ℤ) :
    (g.join member r now).memberIds =
      if member ∈ g.memberIds then g.memberIds else g.memberIds ++ [member] :=
  g.map_memberId_joinMembers member r.protocols now

/-- The joining member is a member afterwards. -/
theorem mem_memberIds_join (g : GroupMetadata) (member : Bytes) (r : JoinGroupRequest)
    (now : ℤ) : member ∈ (g.join member r now).memberIds := by
  rw [memberIds_join]
  split
  next hin => exact hin
  next => exact List.mem_append_right _ (List.mem_singleton_self _)

/-- The assignment loop appends the listed members that are not in the group yet. -/
theorem survivorsThenNew_assignMembers (members : List MemberInfo)
    (as : List SyncGroupAssignment) (now : ℕ → ℤ) :
    ∃ new, (assignMembers members as now).map MemberInfo.memberId =
      members.map MemberInfo.memberId ++ new ∧ new.Nodup ∧
        (members.map MemberInfo.memberId).Disjoint new := by
  induction as generalizing members now with
  | nil => exact ⟨[], by simp [assignMembers], List.nodup_nil, List.disjoint_nil_right _⟩
  | cons a as ih =>
    obtain ⟨new, hids, hnd, hdisj⟩ := ih (assignMember members a (now 0)) fun k => now (k + 1)
    rw [assignMembers]
    rcases map_memberId_assignMember members a (now 0) with h | ⟨hnot, h⟩
    · rw [h] at hids hdisj
      exact ⟨new, hids, hnd, hdisj⟩
    · -- the listed member goes before whatever the rest of the loop appends
      rw [h] at hids hdisj
      obtain ⟨hold, hone⟩ := List.disjoint_append_left.mp hdisj
      refine ⟨a.memberId :: new, by simpa using hids, ?_, ?_⟩
      · exact List.nodup_cons.mpr ⟨fun hin => hone (List.mem_singleton_self _) hin, hnd⟩
      · exact List.disjoint_cons_right.mpr ⟨hnot, hold⟩

/-- A list of assignments that is not empty leaves nobody's group empty. -/
theorem assignMembers_ne_nil (members : List MemberInfo) {as : List SyncGroupAssignment}
    (now : ℕ → ℤ) (h : as ≠ []) : assignMembers members as now ≠ [] := by
  obtain ⟨a, as, rfl⟩ := List.exists_cons_of_ne_nil h
  intro hnil
  have hmem : a.memberId ∈ (assignMember members a (now 0)).map MemberInfo.memberId := by
    by_contra hnot
    have hfind := map_assignment_find?_assignMember_self members a (now 0)
    rw [List.find?_key_of_not_mem hnot] at hfind
    cases hfind
  have hsub := memberId_assignMembers_subset (assignMember members a (now 0)) as
    (fun k => now (k + 1)) hmem
  rw [assignMembers] at hnil
  simp [hnil] at hsub

theorem memberIds_beat_sublist (g : GroupMetadata) (member : Bytes) (now : ℤ) :
    (g.beat member now).memberIds.Sublist g.memberIds := by
  rw [memberIds, GroupMetadata.beat, afterErase_members, memberIds,
    ← map_memberId_touch g.members member now]
  exact List.filter_sublist.map _

theorem memberIds_leave_sublist (g : GroupMetadata) (member : Bytes) :
    (g.afterErase (g.leaveMembers member)).memberIds.Sublist g.memberIds := by
  rw [memberIds, afterErase_members]
  exact List.filter_sublist.map _

end GroupMetadata

/-- **No request reorders a group**: the surviving members keep their order, and whoever is
admitted is appended after them. -/
theorem GroupChange.survivorsThenNew {i : GroupInput} {g g' : GroupMetadata}
    (h : GroupChange i g g') : g.memberIds.SurvivorsThenNew g'.memberIds := by
  cases h with
  | refl => exact .refl _
  | join r now member =>
    rw [memberIds_join]
    split
    next => exact .refl _
    next hnot => exact .append_singleton hnot
  | assign r now =>
    obtain ⟨new, hids, hnd, hdisj⟩ := survivorsThenNew_assignMembers g.members r.assignments now
    exact ⟨g.memberIds, new, hids, List.Sublist.refl _, hnd, hdisj⟩
  -- the two removals filter the list
  | beat r now => exact .of_sublist (g.memberIds_beat_sublist r.memberId now)
  | leave r => exact .of_sublist (g.memberIds_leave_sublist r.memberId)
  | commit r =>
    have hids : (g.commitAll r.topics).memberIds = g.memberIds := by simp [memberIds]
    rw [hids]
    exact .refl _

/-! ### The invariant -/

namespace GroupMetadata

theorem wellFormed_new : ({} : GroupMetadata).WellFormed where
  nodup := List.nodup_nil
  empty_iff := by simp
  ne_dead := by simp

/-- Erasing members of a group that had some restores the correspondence of state and
members. -/
theorem afterErase_state {g : GroupMetadata} (members : List MemberInfo)
    (hne : g.state ≠ .empty) (hdead : g.state ≠ .dead) :
    ((g.afterErase members).state = .empty ↔ (g.afterErase members).members = []) ∧
      (g.afterErase members).state ≠ .dead := by
  rw [afterErase_members]
  rcases g.afterErase_cases members with ⟨hnil, hst, -⟩ | ⟨hnn, -, hst, -⟩ | ⟨hnn, -, hst, -⟩
  · exact ⟨by rw [hst]; simp [hnil], by simp [hst]⟩
  · simp [hst, hnn]
  · simp [hst, hnn, hne, hdead]

end GroupMetadata

/-- Every change keeps a group well formed. -/
theorem GroupChange.wellFormed {i : GroupInput} {g g' : GroupMetadata}
    (h : GroupChange i g g') (hg : g.WellFormed) : g'.WellFormed := by
  have hnd : g'.memberIds.Nodup := h.survivorsThenNew.nodup hg.nodup
  cases h with
  | refl => exact hg
  | join r now member =>
    refine ⟨hnd, ?_, by simp [GroupMetadata.join]⟩
    have hne : (g.join member r now).members ≠ [] := fun hnil => by
      simpa [memberIds, hnil] using g.mem_memberIds_join member r now
    constructor
    · intro hst
      simp [GroupMetadata.join] at hst
    · intro hnil
      exact absurd hnil hne
  | assign r now _ _ hne =>
    refine ⟨hnd, ?_, by simp [GroupMetadata.assign]⟩
    simp [GroupMetadata.assign, assignMembers_ne_nil g.members now hne]
  | beat r now _ _ hstable =>
    obtain ⟨hiff, hdead⟩ := afterErase_state (g.beatMembers r.memberId now)
      (by simp [hstable]) hg.ne_dead
    exact ⟨hnd, hiff, hdead⟩
  | leave r _ hlt =>
    -- somebody was erased, so the group had members and was not `Empty`
    have hne : g.state ≠ .empty := fun he => by simp [hg.empty_iff.mp he] at hlt
    obtain ⟨hiff, hdead⟩ := afterErase_state (g.leaveMembers r.memberId) hne hg.ne_dead
    exact ⟨hnd, hiff, hdead⟩
  | commit r =>
    obtain ⟨offsets, heq⟩ := g.commitAll_eq r.topics
    rw [heq]
    exact ⟨hg.nodup, hg.empty_iff, hg.ne_dead⟩

/-- Every group is well formed at the end of every run. -/
theorem wellFormed_exec (run : List GroupInput) (id : Bytes) :
    ((groupMachine.exec {} run).groupOrNew id).WellFormed :=
  Machine.invariant_exec_all (I := fun c => (c.groupOrNew id).WellFormed)
    (fun c i hc => (groupChange_next c i id).wellFormed hc) wellFormed_new run

/-! ### The leader -/

/-- The first member stays first as long as it stays a member. -/
theorem head?_memberIds_exec {c : GroupCoordinator} {id m : Bytes} (later : List GroupInput)
    (hwf : (c.groupOrNew id).WellFormed)
    (hhead : (c.groupOrNew id).memberIds.head? = some m)
    (hstays : ∀ k, m ∈ ((groupMachine.exec c (later.take k)).groupOrNew id).memberIds) :
    ((groupMachine.exec c later).groupOrNew id).memberIds.head? = some m := by
  induction later generalizing c with
  | nil => exact hhead
  | cons i later ih =>
    have hchange := groupChange_next c i id
    refine ih (hchange.wellFormed hwf) ?_ fun k => hstays (k + 1)
    exact hchange.survivorsThenNew.head? hwf.nodup hhead (hstays 1)

/-- A JoinGroup response shows the group as the request leaves it: all members in order, the
joining one among them, and the first of them as leader. -/
theorem out_join (c : GroupCoordinator) (r : JoinGroupRequest) (now : ℤ) :
    ∃ resp, groupMachine.out c (.join r now) = .join resp ∧
      resp.generationId =
        ((groupMachine.next c (.join r now)).groupOrNew r.groupId).generation ∧
      resp.members = ((groupMachine.next c (.join r now)).groupOrNew r.groupId).members.map
        (fun m => ⟨m.memberId, m.protocolMetadata⟩) ∧
      resp.memberId = c.joinMember r ∧
      resp.memberId ∈ ((groupMachine.next c (.join r now)).groupOrNew r.groupId).memberIds ∧
      ((groupMachine.next c (.join r now)).groupOrNew r.groupId).memberIds.head? =
        some resp.leader := by
  refine ⟨(c.handleJoinGroup r now).2, rfl, ?_⟩
  rw [groupOrNew_next_join]
  have hmem := (c.groupOrNew r.groupId).mem_memberIds_join (c.joinMember r) r now
  set g' := (c.groupOrNew r.groupId).join (c.joinMember r) r now with hg'
  have hne : g'.members ≠ [] := fun hnil => by simp [memberIds, hnil] at hmem
  obtain ⟨m, tail, hcons⟩ := List.exists_cons_of_ne_nil hne
  refine ⟨rfl, rfl, rfl, hmem, ?_⟩
  change (g'.members.map MemberInfo.memberId).head? =
    some ((g'.members.head?.map MemberInfo.memberId).getD [])
  rw [hcons]
  rfl

/-- **The group structure invariant.** In every state a run can reach, every group has
pairwise distinct members, is `Empty` exactly when it has none and is never `Dead`; no
request reorders the members that survive it, so that the first one stays first until it is
removed; and every JoinGroup response lists the members in order, the joining one included,
under the first of them as leader. -/
theorem group_structure (run : List GroupInput) :
    (∀ id g, (groupMachine.exec {} run).groups id = some g → g.WellFormed) ∧
    (∀ i id, ((groupMachine.exec {} run).groupOrNew id).memberIds.SurvivorsThenNew
      ((groupMachine.exec {} (run ++ [i])).groupOrNew id).memberIds) ∧
    (∀ id m later, ((groupMachine.exec {} run).groupOrNew id).memberIds.head? = some m →
      (∀ k, m ∈ ((groupMachine.exec {} (run ++ later.take k)).groupOrNew id).memberIds) →
      ((groupMachine.exec {} (run ++ later)).groupOrNew id).memberIds.head? = some m) ∧
    (∀ r now, ∃ resp,
      groupMachine.out (groupMachine.exec {} run) (.join r now) = .join resp ∧
      resp.members = ((groupMachine.exec {} (run ++ [.join r now])).groupOrNew
        r.groupId).members.map (fun m => ⟨m.memberId, m.protocolMetadata⟩) ∧
      resp.memberId = (groupMachine.exec {} run).joinMember r ∧
      resp.memberId ∈ ((groupMachine.exec {} (run ++ [.join r now])).groupOrNew
        r.groupId).memberIds ∧
      ((groupMachine.exec {} (run ++ [.join r now])).groupOrNew r.groupId).memberIds.head? =
        some resp.leader) := by
  simp only [Machine.exec_append, Machine.exec_cons, Machine.exec_nil]
  refine ⟨?_, ?_, ?_, ?_⟩
  · intro id g hg
    rw [← groupOrNew_of_groups hg]
    exact wellFormed_exec run id
  · intro i id
    exact (groupChange_next _ i id).survivorsThenNew
  · intro id m later hhead hstays
    exact head?_memberIds_exec later (wellFormed_exec run id) hhead hstays
  · intro r now
    obtain ⟨resp, hout, -, hrest⟩ := out_join (groupMachine.exec {} run) r now
    exact ⟨resp, hout, hrest⟩

end TinyKafka
