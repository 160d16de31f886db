import TinyKafka.Broker.GroupAssignment
import TinyKafka.Broker.GroupGenerations

/-!
# A rebalance from the first JoinGroup to a settled group

What the group protocol is for: members join, one of them hands out the assignments, and from
then on everyone can fetch theirs and is kept alive by heartbeats. `rebalanced_of_undisturbed`
says that this works from every state the coordinator can be in, whatever happens in the other
groups meanwhile.

There are three stages. While members join, the group is in `AwaitingSync`, and all of them are
told the same generation and the same leader (`Joined`). A SyncGroup with assignments under this
generation makes it `Stable`. Then it stays as it is (`SettledAs`) through all requests that do
not disturb it: nobody new joins, no member leaves or is late with its heartbeat, and no second
list of assignments is handed in.

The SyncGroup may come from anyone: the coordinator does not ask whether its sender leads.
-/

namespace TinyKafka

open GroupCoordinator GroupMetadata

variable {id : Bytes}

/-! ### Joining -/

/-- A JoinGroup, or a request to another group. -/
def JoinsOrElsewhere (id : Bytes) (i : GroupInput) : Prop :=
  (∃ r now, i = .join r now) ∨ id ≠ i.groupId

/-- Members have joined group `id`, and all of them have been told the generation `γ` and the
first member as the leader. -/
structure Joined (id : Bytes) (γ : Int32) (h : List (GroupInput × GroupOutput))
    (c : GroupCoordinator) : Prop where
  state : (c.groupOrNew id).state = .awaitingSync
  generation : (c.groupOrNew id).generation = γ
  answers : ∀ a ∈ joinAnswers id h, a.generationId = γ ∧
    (c.groupOrNew id).memberIds.head? = some a.leader ∧ a.memberId ∈ (c.groupOrNew id).memberIds

theorem joinAnswers_concat (id : Bytes) (h : List (GroupInput × GroupOutput))
    (e : GroupInput × GroupOutput) :
    joinAnswers id (h ++ [e]) = joinAnswers id h ++ (joinAnswer id e).toList := by
  rw [joinAnswers, joinAnswers, List.filterMap_append, List.filterMap_cons]
  cases joinAnswer id e <;> rfl

theorem joinAnswer_of_ne {i : GroupInput} (hid : id ≠ i.groupId) (c : GroupCoordinator) :
    joinAnswer id (i, groupMachine.out c i) = none := by
  cases i with
  | join r now => exact if_neg (Ne.symm hid)
  | _ => rfl

namespace GroupMetadata

/-- The generation of a rebalance is not the one of a new group. -/
theorem joinGeneration_ne_zero {g : GroupMetadata} (h : 0 ≤ g.generation.toInt) :
    g.joinGeneration ≠ 0 := by
  rw [joinGeneration]
  split
  · decide
  · next hne =>
    split
    · by_cases hmax : g.generation = Int32.maxValue
      · rw [hmax]
        decide
      · intro hzero
        have hsucc := toInt_succ_of_ne_max hmax
        rw [hzero, Int32.toInt_zero] at hsucc
        omega
    · exact hne

/-- A JoinGroup keeps the members there are, and the first of them. -/
theorem memberIds_prefix_join (g : GroupMetadata) (member : Bytes) (r : JoinGroupRequest)
    (now : ℤ) : g.memberIds <+: (g.join member r now).memberIds := by
  rw [memberIds_join]
  split
  · exact List.prefix_rfl
  · exact List.prefix_append _ _

end GroupMetadata

/-- A member joins; the generation is that of the rebalance under way, if there is one. -/
theorem joined_join {γ : Int32} {h : List (GroupInput × GroupOutput)} {c : GroupCoordinator}
    (r : JoinGroupRequest) (now : ℤ) (hγ : (c.groupOrNew r.groupId).joinGeneration = γ)
    (hanswers : ∀ a ∈ joinAnswers r.groupId h, a.generationId = γ ∧
      (c.groupOrNew r.groupId).memberIds.head? = some a.leader ∧
      a.memberId ∈ (c.groupOrNew r.groupId).memberIds) :
    Joined r.groupId γ (h ++ [(.join r now, groupMachine.out c (.join r now))])
      (groupMachine.next c (.join r now)) := by
  obtain ⟨resp, hout, hgen, -, -, hmem, hhead⟩ := out_join c r now
  have hanswer : joinAnswer r.groupId (.join r now, groupMachine.out c (.join r now)) =
      some resp := by
    rw [hout]
    exact if_pos rfl
  have hprefix := (c.groupOrNew r.groupId).memberIds_prefix_join (c.joinMember r) r now
  have hgeneration : ((groupMachine.next c (.join r now)).groupOrNew r.groupId).generation = γ := by
    rw [groupOrNew_next_join]
    exact hγ
  refine ⟨by rw [groupOrNew_next_join]; rfl, hgeneration, ?_⟩
  rw [joinAnswers_concat, hanswer, Option.toList_some]
  refine List.forall_mem_append.mpr ⟨fun a ha => ?_, fun a ha => ?_⟩
  · obtain ⟨hagen, hahead, hamem⟩ := hanswers a ha
    rw [groupOrNew_next_join]
    refine ⟨hagen, ?_, hprefix.subset hamem⟩
    obtain ⟨new, hnew⟩ := hprefix
    rw [← hnew, List.head?_append, hahead, Option.some_or]
  · rw [List.mem_singleton.mp ha]
    exact ⟨hgen.trans hgeneration, hhead, hmem⟩

/-- The joining stage: nobody has joined yet, or all agree. -/
def Joining (id : Bytes) (g : GroupMetadata) (h : List (GroupInput × GroupOutput))
    (c : GroupCoordinator) : Prop :=
  joinAnswers id h = [] ∧ c.groupOrNew id = g ∨ Joined id g.joinGeneration h c

theorem Joining.step {g : GroupMetadata} (hg : 0 ≤ g.generation.toInt)
    {h : List (GroupInput × GroupOutput)} {c : GroupCoordinator} {i : GroupInput}
    (hc : Joining id g h c) (hi : JoinsOrElsewhere id i) :
    Joining id g (h ++ [(i, groupMachine.out c i)]) (groupMachine.next c i) := by
  by_cases hid : id = i.groupId
  · obtain ⟨r, now, rfl⟩ := hi.resolve_right (not_not.mpr hid)
    obtain rfl : id = r.groupId := hid
    refine .inr ?_
    rcases hc with ⟨hnone, hsame⟩ | hjoined
    · refine joined_join r now (congrArg joinGeneration hsame) ?_
      rw [hnone]
      exact nofun
    · refine joined_join r now ?_ hjoined.answers
      rw [joinGeneration_of_awaitingSync hjoined.state, hjoined.generation]
      rw [hjoined.generation]
      exact joinGeneration_ne_zero hg
  · have hanswers : joinAnswers id (h ++ [(i, groupMachine.out c i)]) = joinAnswers id h := by
      rw [joinAnswers_concat, joinAnswer_of_ne hid, Option.toList_none, List.append_nil]
    have hgroup := groupOrNew_next_of_ne c i hid
    rcases hc with ⟨hnone, hsame⟩ | hjoined
    · exact .inl ⟨hanswers.trans hnone, hgroup.trans hsame⟩
    · refine .inr ⟨?_, ?_, ?_⟩
      · rw [hgroup, hjoined.state]
      · rw [hgroup, hjoined.generation]
      · rw [hanswers, hgroup]
        exact hjoined.answers

/-- All who join in one stage are told the same. -/
theorem joined_of_joins {c : GroupCoordinator} (hc : 0 ≤ (c.groupOrNew id).generation.toInt)
    {joins : List GroupInput} (hjoins : ∀ i ∈ joins, JoinsOrElsewhere id i)
    (hsome : joinAnswers id (groupMachine.trace c joins) ≠ []) :
    Joined id (c.groupOrNew id).joinGeneration (groupMachine.trace c joins)
      (groupMachine.exec c joins) := by
  have hw : groupMachine.Within (fun _ i => JoinsOrElsewhere id i) c joins :=
    Machine.within_iff _ |>.mpr fun pre i post he => hjoins i (by simp [he])
  have hjoining : Joining id (c.groupOrNew id) (groupMachine.trace c joins)
      (groupMachine.exec c joins) :=
    Machine.invariant_trace (h := []) (fun _ _ _ hs hi => Joining.step hc hs hi)
      (.inl ⟨rfl, rfl⟩) hw
  exact hjoining.resolve_left fun hnone => hsome hnone.1

/-! ### A settled group -/

namespace GroupMetadata

/-- The group is `Stable` with the generation, the members and the assignments of `g₁`. -/
structure SettledAs (g₁ g : GroupMetadata) : Prop where
  stable : g.state = .stable
  generation : g.generation = g₁.generation
  memberIds : g.memberIds = g₁.memberIds
  assignmentOf : ∀ m, g.assignmentOf m = g₁.assignmentOf m

/-- The request is one that can unsettle the group: a JoinGroup, assignments that are handed in
under the generation of the group, a Heartbeat under it when a session has timed out, or a member
that leaves. -/
def Unsettles (g : GroupMetadata) : GroupInput → Prop
  | .join _ _ => True
  | .sync r _ => r.generationId = g.generation ∧ r.assignments ≠ []
  | .heartbeat r now => r.generationId = g.generation ∧
      ∃ m ∈ touch g.members r.memberId now, expired g.sessionTimeoutMs now m = true
  | .leave r => r.memberId ∈ g.memberIds
  | .offsetCommit _ | .offsetFetch _ => False

instance (g : GroupMetadata) : DecidablePred g.Unsettles
  | .join _ _ => .isTrue trivial
  | .sync _ _ => inferInstanceAs (Decidable (_ ∧ _ ≠ _))
  | .heartbeat _ _ => inferInstanceAs (Decidable (_ ∧ ∃ m ∈ _, _))
  | .leave _ => inferInstanceAs (Decidable (_ ∈ _))
  | .offsetCommit _ | .offsetFetch _ => .isFalse fun h => h

/-- A Heartbeat in time changes no more than the time of the last one. -/
theorem SettledAs.beat {g₁ g : GroupMetadata} (hs : g₁.SettledAs g) (hne : g₁.memberIds ≠ [])
    {member : Bytes} {now : ℤ}
    (htime : ∀ m ∈ touch g.members member now, expired g.sessionTimeoutMs now m = false) :
    g₁.SettledAs (g.beat member now) := by
  have hkept : g.beatMembers member now = touch g.members member now :=
    List.filter_eq_self.mpr fun m hm => by rw [htime m hm]; rfl
  have hnil : touch g.members member now ≠ [] := by
    intro hnil
    have hids := map_memberId_touch g.members member now
    rw [hnil] at hids
    exact hne (hs.memberIds ▸ hids.symm)
  rw [GroupMetadata.beat, hkept]
  rcases g.afterErase_cases (touch g.members member now) with h | h | ⟨-, -, hstate, hgen⟩
  · exact absurd h.1 hnil
  · exact absurd h.2.1 (by rw [length_touch]; exact lt_irrefl _)
  · refine ⟨hstate.trans hs.stable, hgen.trans hs.generation, ?_, fun m => ?_⟩
    · rw [GroupMetadata.memberIds, afterErase_members, map_memberId_touch]
      exact hs.memberIds
    · rw [← hs.assignmentOf, GroupMetadata.assignmentOf, afterErase_members,
        map_assignment_find?_touch]
      rfl

end GroupMetadata

/-- A request that does not unsettle the group leaves it settled. -/
theorem GroupChange.settled {g₁ g g' : GroupMetadata} {i : GroupInput} (h : GroupChange i g g')
    (hs : g₁.SettledAs g) (hne : g₁.memberIds ≠ []) (hi : ¬ g.Unsettles i) : g₁.SettledAs g' := by
  cases h with
  | refl => exact hs
  | join r now member => exact absurd trivial hi
  | assign r now _ hgen has => exact absurd ⟨hgen.symm, has⟩ hi
  | beat r now _ hgen hstable =>
    refine hs.beat hne fun m hm => ?_
    by_contra hexpired
    exact hi ⟨hgen.symm, m, hm, by simpa using hexpired⟩
  | leave r _ hlt =>
    have hall : g.leaveMembers r.memberId = g.members :=
      List.filter_eq_self.mpr fun m hm => decide_eq_true fun hm' =>
        hi (List.mem_map.mpr ⟨m, hm, hm'⟩)
    rw [hall] at hlt
    exact absurd hlt (lt_irrefl _)
  | commit r =>
    obtain ⟨offsets, hcommit⟩ := g.commitAll_eq r.topics
    rw [hcommit]
    exact ⟨hs.stable, hs.generation, hs.memberIds, hs.assignmentOf⟩

/-- A request to another group, or one that does not unsettle group `id`. -/
def LeavesSettled (id : Bytes) (c : GroupCoordinator) (i : GroupInput) : Prop :=
  id = i.groupId → ¬ (c.groupOrNew id).Unsettles i

instance (id : Bytes) (c : GroupCoordinator) (i : GroupInput) : Decidable (LeavesSettled id c i) :=
  inferInstanceAs (Decidable (_ → ¬ _))

theorem settled_next {g₁ : GroupMetadata} (hne : g₁.memberIds ≠ []) {c : GroupCoordinator}
    {i : GroupInput} (hs : g₁.SettledAs (c.groupOrNew id)) (hi : LeavesSettled id c i) :
    g₁.SettledAs ((groupMachine.next c i).groupOrNew id) := by
  by_cases hid : id = i.groupId
  · exact (groupChange_next c i id).settled hs hne (hi hid)
  · rw [groupOrNew_next_of_ne c i hid]
    exact hs

/-- A group that is not `Empty` has been stored. -/
theorem groupAt_of_state {c : GroupCoordinator} (h : (c.groupOrNew id).state ≠ .empty) :
    c.groupAt id (c.groupOrNew id).generation = some (c.groupOrNew id) := by
  rcases hg : c.groups id with _ | g
  · rw [groupOrNew, hg] at h
    exact absurd rfl h
  · rw [groupOrNew_of_groups hg]
    exact groupAt_eq_some.mpr ⟨hg, rfl⟩

section Answers

variable {g₁ : GroupMetadata} {c : GroupCoordinator}

theorem groupAt_of_settled (hs : g₁.SettledAs (c.groupOrNew id)) :
    c.groupAt id g₁.generation = some (c.groupOrNew id) := by
  rw [← hs.generation]
  exact groupAt_of_state (by rw [hs.stable]; decide)

/-- A follower is given what the assignments have for it. -/
theorem out_sync_of_settled (hs : g₁.SettledAs (c.groupOrNew id)) {q : SyncGroupRequest}
    (hid : q.groupId = id) (hgen : q.generationId = g₁.generation) (has : q.assignments = [])
    (now : ℕ → ℤ) : groupMachine.out c (.sync q now) =
      .sync (syncResponse q 0 (g₁.assignmentOf q.memberId)) := by
  have hout : groupMachine.out c (.sync q now) = .sync (c.handleSyncGroup q now).2 := rfl
  rw [hout, handleSyncGroup, hid, hgen, groupAt_of_settled hs]
  dsimp only
  rw [if_neg (not_not.mpr has), hs.assignmentOf]

/-- A Heartbeat is accepted. -/
theorem out_heartbeat_of_settled (hs : g₁.SettledAs (c.groupOrNew id)) {q : HeartbeatRequest}
    (hid : q.groupId = id) (hgen : q.generationId = g₁.generation) (now : ℤ) :
    groupMachine.out c (.heartbeat q now) = .heartbeat (heartbeatResponse q 0) := by
  have hout : groupMachine.out c (.heartbeat q now) =
      .heartbeat (c.handleHeartbeat q now).2 := rfl
  rw [hout, handleHeartbeat, hid, hgen, groupAt_of_settled hs]
  dsimp only
  rw [if_neg (not_not.mpr hs.stable)]

end Answers

/-- The assignments are handed in under the generation of the group. -/
theorem groupOrNew_next_assign {c : GroupCoordinator} {r : SyncGroupRequest}
    (hstate : (c.groupOrNew r.groupId).state ≠ .empty)
    (hgen : r.generationId = (c.groupOrNew r.groupId).generation) (has : r.assignments ≠ [])
    (now : ℕ → ℤ) : (groupMachine.next c (.sync r now)).groupOrNew r.groupId =
      (c.groupOrNew r.groupId).assign r.assignments now := by
  have hnext : groupMachine.next c (.sync r now) = (c.handleSyncGroup r now).1 := rfl
  rw [hnext, handleSyncGroup, hgen, groupAt_of_state hstate]
  dsimp only
  rw [if_pos has]
  exact groupOrNew_setGroup_self _ _ _

/-! ### The whole rebalance -/

/-- **A rebalance of group `id`** from state `c`: the requests `joins`, then the SyncGroup `r`
with assignments, then the requests `later`. -/
structure Rebalanced (id : Bytes) (c : GroupCoordinator) (joins : List GroupInput)
    (r : SyncGroupRequest) (now : ℕ → ℤ) (later : List GroupInput) : Prop where
  /-- Everyone who has joined was told the generation of the SyncGroup and the same leader. -/
  agreed : ∃ leader, ∀ a ∈ joinAnswers id (groupMachine.trace c joins),
    a.generationId = r.generationId ∧ a.leader = leader
  /-- The group is `Stable` in this generation. -/
  stable : ((groupMachine.exec c (joins ++ .sync r now :: later)).groupOrNew id).state = .stable ∧
    ((groupMachine.exec c (joins ++ .sync r now :: later)).groupOrNew id).generation =
      r.generationId
  /-- Everyone who has joined is a member. -/
  members : ∀ a ∈ joinAnswers id (groupMachine.trace c joins),
    a.memberId ∈ ((groupMachine.exec c (joins ++ .sync r now :: later)).groupOrNew id).memberIds
  /-- A follower with an assignment is given it. -/
  synced : ∀ (q : SyncGroupRequest) (now' : ℕ → ℤ) (assignment : Bytes), q.groupId = id →
    q.generationId = r.generationId → q.assignments = [] →
    listedIn r.assignments q.memberId = some assignment →
    groupMachine.out (groupMachine.exec c (joins ++ .sync r now :: later)) (.sync q now') =
      .sync (syncResponse q 0 assignment)
  /-- A Heartbeat is accepted. -/
  alive : ∀ (q : HeartbeatRequest) (now' : ℤ), q.groupId = id →
    q.generationId = r.generationId →
    groupMachine.out (groupMachine.exec c (joins ++ .sync r now :: later)) (.heartbeat q now') =
      .heartbeat (heartbeatResponse q 0)

/-- **A rebalance completes**, from every state the coordinator can be in and with any requests
to other groups in between. -/
theorem rebalanced_of_undisturbed {run joins later : List GroupInput} {r : SyncGroupRequest}
    {now : ℕ → ℤ} (hrun : groupMachine.Within GenerationBounded {} run)
    (hjoins : ∀ i ∈ joins, JoinsOrElsewhere r.groupId i)
    (hleader : ∃ a ∈ joinAnswers r.groupId
      (groupMachine.trace (groupMachine.exec {} run) joins), a.generationId = r.generationId)
    (has : r.assignments ≠ [])
    (hlater : groupMachine.Within (LeavesSettled r.groupId)
      (groupMachine.exec {} (run ++ joins ++ [.sync r now])) later) :
    Rebalanced r.groupId (groupMachine.exec {} run) joins r now later := by
  have hgeneration := generation_le_exec hrun r.groupId
  obtain ⟨leader, hmem, hgen⟩ := hleader
  simp only [Machine.exec_append] at hlater
  generalize groupMachine.exec {} run = c at hgeneration hmem hlater ⊢
  have hjoined := joined_of_joins hgeneration hjoins (List.ne_nil_of_mem hmem)
  have hγ : (c.groupOrNew r.groupId).joinGeneration = r.generationId :=
    ((hjoined.answers leader hmem).1).symm.trans hgen
  rw [hγ] at hjoined
  have hassign := groupOrNew_next_assign (by rw [hjoined.state]; decide) hjoined.generation.symm
    has now
  generalize hg : (groupMachine.exec c joins).groupOrNew r.groupId = g at hassign
  have hsettled : (g.assign r.assignments now).SettledAs
      ((groupMachine.next (groupMachine.exec c joins) (.sync r now)).groupOrNew r.groupId) := by
    rw [hassign]
    exact ⟨rfl, rfl, rfl, fun _ => rfl⟩
  have hne : (g.assign r.assignments now).memberIds ≠ [] := fun hnil =>
    assignMembers_ne_nil g.members now has (List.map_eq_nil_iff.mp hnil)
  have hend : (g.assign r.assignments now).SettledAs
      ((groupMachine.exec c (joins ++ .sync r now :: later)).groupOrNew r.groupId) := by
    rw [Machine.exec_append, Machine.exec_cons]
    exact Machine.invariant_exec
      (I := fun c => (g.assign r.assignments now).SettledAs (c.groupOrNew r.groupId))
      (fun _ _ hs hi => settled_next hne hs hi) hsettled hlater
  have hγ' : (g.assign r.assignments now).generation = r.generationId := by
    rw [← hjoined.generation, hg]
    rfl
  refine ⟨⟨leader.leader, fun a ha => ?_⟩, ⟨hend.stable, hend.generation.trans hγ'⟩,
    fun a ha => ?_, fun q now' assignment hid hq hfollower hlisted => ?_, fun q now' hid hq => ?_⟩
  · obtain ⟨hagen, hahead, -⟩ := hjoined.answers a ha
    obtain ⟨-, hhead, -⟩ := hjoined.answers leader hmem
    exact ⟨hagen, Option.some.inj (hahead.symm.trans hhead)⟩
  · rw [hend.memberIds]
    refine memberId_assignMembers_subset g.members r.assignments now ?_
    rw [← hg]
    exact (hjoined.answers a ha).2.2
  · rw [out_sync_of_settled hend hid (hq.trans hγ'.symm) hfollower, assignmentOf_assign, hlisted]
    rfl
  · exact out_heartbeat_of_settled hend hid (hq.trans hγ'.symm) now'

/-- A second member joins a group that is `Stable` with one; a third client joins another group
meanwhile. -/
def secondMemberJoins : List GroupInput :=
  let h : RequestHeader := ⟨11, 0, 1⟩
  [.join ⟨h, ascii "g", 30000, ascii "b", ascii "consumer", []⟩ 0,
   .join ⟨h, ascii "h", 30000, ascii "c", ascii "consumer", []⟩ 0,
   .join ⟨h, ascii "g", 30000, ascii "a", ascii "consumer", []⟩ 0]

/-- The assignments for both. -/
def bothAssigned : SyncGroupRequest :=
  ⟨⟨14, 0, 1⟩, ascii "g", 2, ascii "a", [⟨ascii "a", [1]⟩, ⟨ascii "b", [2]⟩]⟩

/-- A heartbeat in time, a late client of the other group, and a committed offset. -/
def quietSpell : List GroupInput :=
  [.heartbeat ⟨⟨12, 0, 1⟩, ascii "g", 2, ascii "b", []⟩ 1000000000,
   .heartbeat ⟨⟨12, 0, 1⟩, ascii "h", 1, ascii "c", []⟩ 90000000000,
   .offsetCommit ⟨⟨8, 0, 1⟩, ascii "g", ascii "b", 2, []⟩]

theorem rebalanced_secondMember :
    Rebalanced (ascii "g") (groupMachine.exec {} (rebalanceByJoin.take 2)) secondMemberJoins
      bothAssigned (fun _ => 0) quietSpell := by
  refine rebalanced_of_undisturbed (r := bothAssigned) (by decide) (fun i hi => ?_) (by decide)
    (by decide) (by decide)
  simp only [secondMemberJoins, List.mem_cons, List.not_mem_nil, or_false] at hi
  rcases hi with rfl | rfl | rfl <;> exact .inl ⟨_, _, rfl⟩

end TinyKafka
