import TinyKafka.Broker.GroupSteps

/-!
# Fencing of departed members

A removed member should be fenced: whatever it still sends under the generation it held, or
an older one, is refused. Heartbeat and SyncGroup compare generations and never look at the
membership, so fencing rests on the removal opening a new generation. Both removal paths do
so **only when a member is left**: an emptied group keeps its generation, and SyncGroup,
unlike Heartbeat, does not ask for a `Stable` group either. `fencesDeparted_of_survivors`
is fencing for the runs in which no removal empties its group, and
`not_fencesDeparted_lastMember` is the shortest run that breaks it.
-/

namespace TinyKafka

open GroupCoordinator GroupMetadata

/-- The request removes member `m` from group `id`. -/
def Removes (c : GroupCoordinator) (i : GroupInput) (id m : Bytes) : Prop :=
  m ∈ (c.groupOrNew id).memberIds ∧ m ∉ ((groupMachine.next c i).groupOrNew id).memberIds

instance (c : GroupCoordinator) (i : GroupInput) (id m : Bytes) : Decidable (Removes c i id m) :=
  inferInstanceAs (Decidable (_ ∧ _))

/-- The request is a Heartbeat or a SyncGroup that member `m` sends to group `id` under
generation `γ`. -/
def GroupInput.SentBy (id m : Bytes) (γ : Int32) : GroupInput → Prop
  | .sync r _ => r.groupId = id ∧ r.memberId = m ∧ r.generationId = γ
  | .heartbeat r _ => r.groupId = id ∧ r.memberId = m ∧ r.generationId = γ
  | _ => False

/-- The error code of a response; the offset responses have one per partition, always `0`. -/
def GroupOutput.errorCode : GroupOutput → Int16
  | .join r => r.errorCode
  | .sync r => r.errorCode
  | .heartbeat r => r.errorCode
  | .leave r => r.errorCode
  | .offsetCommit _ => 0
  | .offsetFetch _ => 0

/-- **Fencing**, over a run from the empty coordinator: after request `i` has removed `m`
from group `id`, and as long as `m` is in none of the member lists since, every Heartbeat
and SyncGroup of `m` under a generation up to the one it held is answered with an error. -/
def FencesDeparted (run : List GroupInput) : Prop :=
  ∀ (pre : List GroupInput) (i : GroupInput) (mid : List GroupInput) (last : GroupInput)
    (post : List GroupInput) (id m : Bytes) (γ : Int32),
    run = pre ++ i :: (mid ++ last :: post) →
    Removes (groupMachine.exec {} pre) i id m →
    (∀ k, m ∉ ((groupMachine.exec {} (pre ++ i :: mid.take k)).groupOrNew id).memberIds) →
    last.SentBy id m γ →
    γ.toInt ≤ ((groupMachine.exec {} pre).groupOrNew id).generation.toInt →
    (groupMachine.out (groupMachine.exec {} (pre ++ i :: mid)) last).errorCode ≠ 0

/-- The request does not remove the last member of its group: a LeaveGroup of a member finds
another member in the group, and an accepted Heartbeat finds a member whose session has not
timed out, its sender counting as just heard from. -/
def SurvivorRemains (c : GroupCoordinator) : GroupInput → Prop
  | .leave r =>
    r.memberId ∈ (c.groupOrNew r.groupId).memberIds →
      ∃ m ∈ (c.groupOrNew r.groupId).members, m.memberId ≠ r.memberId
  | .heartbeat r now =>
    (c.groupOrNew r.groupId).generation = r.generationId →
    (c.groupOrNew r.groupId).state = .stable →
      ∃ m ∈ touch (c.groupOrNew r.groupId).members r.memberId now,
        expired (c.groupOrNew r.groupId).sessionTimeoutMs now m = false
  | _ => True

instance (c : GroupCoordinator) : (i : GroupInput) → Decidable (SurvivorRemains c i)
  | .leave _ => inferInstanceAs (Decidable (_ → _))
  | .heartbeat _ _ => inferInstanceAs (Decidable (_ → _ → _))
  | .join _ _ => .isTrue trivial
  | .sync _ _ => .isTrue trivial
  | .offsetCommit _ => .isTrue trivial
  | .offsetFetch _ => .isTrue trivial

/-- No removal empties a group and no generation overflows. -/
def SteadyStep (c : GroupCoordinator) (i : GroupInput) : Prop :=
  SurvivorRemains c i ∧ GenerationBounded c i

instance (c : GroupCoordinator) (i : GroupInput) : Decidable (SteadyStep c i) :=
  inferInstanceAs (Decidable (_ ∧ _))

/-- A LeaveGroup keeps the members other than its sender. -/
theorem leaveMembers_ne_nil {g : GroupMetadata} {member : Bytes} {s : MemberInfo}
    (hs : s ∈ g.members) (hne : s.memberId ≠ member) : g.leaveMembers member ≠ [] :=
  List.ne_nil_of_mem (List.mem_filter.mpr ⟨hs, by simpa using hne⟩)

/-- A Heartbeat keeps the members whose session has not timed out. -/
theorem beatMembers_ne_nil {g : GroupMetadata} {member : Bytes} {now : ℤ} {s : MemberInfo}
    (hs : s ∈ touch g.members member now) (halive : expired g.sessionTimeoutMs now s = false) :
    g.beatMembers member now ≠ [] :=
  List.ne_nil_of_mem (List.mem_filter.mpr ⟨hs, by simp [halive]⟩)

/-- The survivor is in the group after the removal. -/
theorem members_next_ne_nil {c : GroupCoordinator} {i : GroupInput} {m : Bytes}
    (hs : SurvivorRemains c i) (hr : Removes c i i.groupId m) :
    ((groupMachine.next c i).groupOrNew i.groupId).members ≠ [] := by
  obtain ⟨hm, hm'⟩ := hr
  have hchange := groupChange_next c i i.groupId
  generalize (groupMachine.next c i).groupOrNew i.groupId = g' at hchange hm' ⊢
  generalize hg : c.groupOrNew i.groupId = g at hchange hm
  cases hchange with
  | refl => exact absurd hm hm'
  | join r now member =>
    intro hempty
    have h := congrArg (List.map MemberInfo.memberId) hempty
    simp only [GroupMetadata.join, map_memberId_joinMembers, List.map_nil] at h
    split at h
    next hin => exact List.ne_nil_of_mem hin h
    next => simp at h
  | assign r now => exact absurd (memberId_assignMembers_subset _ _ _ hm) hm'
  | beat r now _ hgen hstable =>
    simp only [GroupInput.groupId] at hg
    simp only [SurvivorRemains, hg] at hs
    obtain ⟨s, hmem, halive⟩ := hs hgen hstable
    rw [GroupMetadata.beat, afterErase_members]
    exact beatMembers_ne_nil hmem halive
  | leave r _ hlt =>
    simp only [GroupInput.groupId] at hg
    simp only [SurvivorRemains, hg] at hs
    rw [afterErase_members]
    by_cases hsender : m = r.memberId
    · obtain ⟨s, hmem, hne⟩ := hs (hsender ▸ hm)
      exact leaveMembers_ne_nil hmem hne
    · obtain ⟨s, hmem, rfl⟩ := List.mem_map.mp hm
      exact leaveMembers_ne_nil hmem hsender
  | commit r => exact absurd (by simpa [memberIds] using hm) hm'

/-- A removal that leaves a survivor opens a new generation. -/
theorem generation_of_removes {c : GroupCoordinator} {i : GroupInput} {id m : Bytes}
    (hs : SurvivorRemains c i) (hr : Removes c i id m) :
    id = i.groupId ∧ ((groupMachine.next c i).groupOrNew id).generation =
      (c.groupOrNew id).generation + 1 := by
  obtain rfl : id = i.groupId := by
    by_contra hne
    exact hr.2 (groupOrNew_next_of_ne c i hne ▸ hr.1)
  refine ⟨rfl, ?_⟩
  rcases (groupChange_next c i i.groupId).removal hr.1 hr.2 with ⟨hempty, -⟩ | hgen
  · exact absurd hempty (members_next_ne_nil hs hr)
  · exact hgen

/-- A Heartbeat or SyncGroup that finds no group under its generation is refused. -/
theorem errorCode_out_of_groupAt_eq_none {c : GroupCoordinator} {i : GroupInput}
    {id m : Bytes} {γ : Int32} (hsent : i.SentBy id m γ) (hnone : c.groupAt id γ = none) :
    (groupMachine.out c i).errorCode ≠ 0 := by
  cases i with
  | sync r now =>
    obtain ⟨rfl, rfl, rfl⟩ := hsent
    have h : (groupMachine.out c (.sync r now)).errorCode = 82 := by
      simp [Machine.out, groupMachine, handleSyncGroup, hnone, GroupOutput.errorCode,
        syncResponse]
    rw [h]
    decide
  | heartbeat r now =>
    obtain ⟨rfl, rfl, rfl⟩ := hsent
    have h : (groupMachine.out c (.heartbeat r now)).errorCode = 82 := by
      simp [Machine.out, groupMachine, handleHeartbeat, hnone, GroupOutput.errorCode,
        heartbeatResponse]
    rw [h]
    decide
  | join r now => exact hsent.elim
  | leave r => exact hsent.elim
  | offsetCommit r => exact hsent.elim
  | offsetFetch r => exact hsent.elim

/-- A Heartbeat or SyncGroup under another generation than the group's is refused. -/
theorem errorCode_out_of_ne_generation {c : GroupCoordinator} {i : GroupInput} {id m : Bytes}
    {γ : Int32} (hsent : i.SentBy id m γ) (hne : (c.groupOrNew id).generation ≠ γ) :
    (groupMachine.out c i).errorCode ≠ 0 := by
  refine errorCode_out_of_groupAt_eq_none hsent ?_
  rw [groupAt, Option.filter_eq_none_iff]
  intro g hg
  simpa [groupOrNew_of_groups hg] using hne

/-- **Departed members are fenced** in every run whose removals all leave a survivor and
whose generations stay below the largest `int32`. -/
theorem fencesDeparted_of_survivors (run : List GroupInput)
    (hw : groupMachine.Within SteadyStep {} run) : FencesDeparted run := by
  rintro pre i mid last post id m γ rfl hremoves - hsent hγ
  rw [Machine.within_append, Machine.within_cons, Machine.within_append] at hw
  obtain ⟨-, ⟨hsurv, hbound⟩, hmid, -⟩ := hw
  set c := groupMachine.exec {} pre with hc
  obtain ⟨hid, hgen⟩ := generation_of_removes hsurv hremoves
  -- the new generation is above the held one, and it is never left downwards
  have hstep : ((groupMachine.next c i).groupOrNew id).generation.toInt =
      (c.groupOrNew id).generation.toInt + 1 := by
    rw [hgen]
    subst hid
    exact toInt_succ_of_ne_max hbound
  have hmono := generation_le_exec (hmid.mono fun _ _ h => h.2) id
  refine errorCode_out_of_ne_generation hsent fun heq => ?_
  rw [Machine.exec_append, Machine.exec_cons, ← hc] at heq
  rw [heq] at hmono
  omega

/-- Two members join, the first one leaves and then sends a Heartbeat and a SyncGroup under
the generation it held. -/
def oneOfTwoLeaves : List GroupInput :=
  let h : RequestHeader := ⟨11, 0, 1⟩
  [.join ⟨h, ascii "g", 30000, ascii "a", ascii "consumer", []⟩ 0,
   .join ⟨h, ascii "g", 30000, ascii "b", ascii "consumer", []⟩ 0,
   .leave ⟨h, ascii "g", ascii "a"⟩,
   .heartbeat ⟨h, ascii "g", 1, ascii "a", []⟩ 0,
   .sync ⟨h, ascii "g", 1, ascii "a", []⟩ fun _ => 0]

theorem fencesDeparted_oneOfTwoLeaves :
    groupMachine.Within SteadyStep {} oneOfTwoLeaves ∧ FencesDeparted oneOfTwoLeaves :=
  ⟨by decide, fencesDeparted_of_survivors oneOfTwoLeaves (by decide)⟩

/-- The last member leaves and then sends the SyncGroup it would have sent next: it is
answered with error code `0`. -/
def lastMemberLeaves : List GroupInput :=
  let h : RequestHeader := ⟨11, 0, 1⟩
  [.join ⟨h, ascii "g", 30000, ascii "a", ascii "consumer", []⟩ 0,
   .leave ⟨h, ascii "g", ascii "a"⟩,
   .sync ⟨h, ascii "g", 1, ascii "a", []⟩ fun _ => 0]

/-- **The last member is not fenced**: its removal opens no new generation. -/
theorem not_fencesDeparted_lastMember : ¬ FencesDeparted lastMemberLeaves := by
  intro h
  refine h (lastMemberLeaves.take 1) (.leave ⟨⟨11, 0, 1⟩, ascii "g", ascii "a"⟩) []
    (.sync ⟨⟨11, 0, 1⟩, ascii "g", 1, ascii "a", []⟩ fun _ => 0) [] (ascii "g") (ascii "a") 1
    rfl (by decide) ?_ ⟨rfl, rfl, rfl⟩ (by decide) (by decide)
  intro k
  rw [List.take_nil]
  decide

end TinyKafka
