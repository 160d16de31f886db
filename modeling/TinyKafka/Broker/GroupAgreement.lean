import TinyKafka.Broker.GroupAssignment

/-!
# Assignments of a stable group

A group becomes `Stable` when the first SyncGroup with assignments arrives. The handler
looks at the presence of assignments only, neither at the state of the group nor at who
sends them, so a later SyncGroup of any member rewrites the assignments of a stable group
and may add members to it (`not_fixedWhileStable_follower`).

`fixedWhileStable_of_restates`: if every SyncGroup that reaches a stable group lists only
what is stored there already (a follower's lists nothing), the assignments are fixed for as
long as the group stays stable in its generation.
-/

namespace TinyKafka

open GroupCoordinator GroupMetadata

/-- Group `id` is `Stable` in generation `γ`. -/
def StableAt (c : GroupCoordinator) (id : Bytes) (γ : Int32) : Prop :=
  (c.groupOrNew id).state = .stable ∧ (c.groupOrNew id).generation = γ

instance (c : GroupCoordinator) (id : Bytes) (γ : Int32) : Decidable (StableAt c id γ) :=
  inferInstanceAs (Decidable (_ ∧ _))

/-- The leader of a group is its first member. -/
def GroupMetadata.leader? (g : GroupMetadata) : Option Bytes := g.memberIds.head?

/-- **Agreement while stable**, over a run from the empty coordinator.

* Two SyncGroups of one member that are accepted in a generation in which the group is
  stable at the first of them and stays so up to the second return the same assignment.
* A SyncGroup that somebody else than the leader sends to a stable group under its
  generation leaves the member list, and the assignments in it, as they were. -/
def FixedWhileStable (run : List GroupInput) : Prop :=
  (∀ (pre mid post : List GroupInput) (r r' : SyncGroupRequest) (now now' : ℕ → ℤ)
    (a a' : SyncGroupResponse),
    run = pre ++ .sync r now :: (mid ++ .sync r' now' :: post) →
    r'.groupId = r.groupId → r'.memberId = r.memberId → r'.generationId = r.generationId →
    StableAt (groupMachine.exec {} pre) r.groupId r.generationId →
    (∀ k, StableAt (groupMachine.exec {} (pre ++ .sync r now :: mid.take k)) r.groupId
      r.generationId) →
    groupMachine.out (groupMachine.exec {} pre) (.sync r now) = .sync a →
    groupMachine.out (groupMachine.exec {} (pre ++ .sync r now :: mid)) (.sync r' now') =
      .sync a' →
    a.errorCode = 0 → a'.errorCode = 0 → a'.assignment = a.assignment) ∧
  ∀ (pre post : List GroupInput) (r : SyncGroupRequest) (now : ℕ → ℤ),
    run = pre ++ .sync r now :: post →
    StableAt (groupMachine.exec {} pre) r.groupId r.generationId →
    ((groupMachine.exec {} pre).groupOrNew r.groupId).leader? ≠ some r.memberId →
    ((groupMachine.exec {} (pre ++ [.sync r now])).groupOrNew r.groupId).members =
      ((groupMachine.exec {} pre).groupOrNew r.groupId).members

/-- A SyncGroup under the generation of a stable group lists only members of the group, each
with the assignment it already has. -/
def Restates (c : GroupCoordinator) : GroupInput → Prop
  | .sync r _ =>
    StableAt c r.groupId r.generationId → ∀ x ∈ r.assignments,
      x.memberId ∈ (c.groupOrNew r.groupId).memberIds ∧
        x.assignment = (c.groupOrNew r.groupId).assignmentOf x.memberId
  | _ => True

instance (c : GroupCoordinator) : (i : GroupInput) → Decidable (Restates c i)
  | .sync _ _ => inferInstanceAs (Decidable (_ → ∀ _ ∈ _, _ ∧ _))
  | .leave _ | .heartbeat _ _ | .join _ _ | .offsetCommit _ | .offsetFetch _ => .isTrue trivial

/-! ### One step -/

/-- Listing what is stored leaves the member list as it is. -/
theorem assignMembers_of_restates (members : List MemberInfo) (as : List SyncGroupAssignment)
    (now : ℕ → ℤ)
    (h : ∀ x ∈ as, ∃ e, members.find? (·.memberId = x.memberId) = some e ∧
      x.assignment = e.assignment) :
    assignMembers members as now = members := by
  induction as generalizing now with
  | nil => rfl
  | cons x as ih =>
    obtain ⟨e, hfind, hx⟩ := h x List.mem_cons_self
    have hmem : x.memberId ∈ members.map MemberInfo.memberId := by
      by_contra hnot
      rw [List.find?_key_of_not_mem hnot] at hfind
      cases hfind
    have hone : assignMember members x (now 0) = members := by
      rw [assignMember, List.upsertKey, if_pos hmem]
      refine List.updateKey_eq_self hfind ?_
      rw [hx]
    rw [assignMembers, hone]
    exact ih _ fun y hy => h y (List.mem_cons_of_mem x hy)

/-- A SyncGroup that restates leaves the members of a stable group as they are. -/
theorem members_next_sync {c : GroupCoordinator} {r : SyncGroupRequest} {now : ℕ → ℤ}
    {id : Bytes} {γ : Int32} (hstable : StableAt c id γ) (hok : Restates c (.sync r now)) :
    ((groupMachine.next c (.sync r now)).groupOrNew id).members =
      (c.groupOrNew id).members := by
  rcases assigns_or_quiet c (.sync r now) id with
    ⟨r', now', hi, hid, hgen, hnext, -⟩ | ⟨hquiet, -⟩
  · cases hi
    subst hid
    rw [hnext]
    refine assignMembers_of_restates _ _ _ fun x hx => ?_
    obtain ⟨hmem, has⟩ := hok ⟨hstable.1, hgen.symm⟩ x hx
    rcases hfind : (c.groupOrNew r.groupId).members.find? (·.memberId = x.memberId) with _ | e
    · exact absurd hmem (List.find?_key_eq_none.mp hfind)
    · refine ⟨e, hfind, ?_⟩
      rw [has, assignmentOf, hfind]
      rfl
  · rw [hquiet r now rfl]

/-- A request that assigns nothing keeps the assignments of a group that is stable in one
generation before and after it. -/
theorem GroupChange.assignmentOf_of_stable {i : GroupInput} {g g' : GroupMetadata}
    (h : GroupChange i g g') (hquiet : ∀ r now, i = .sync r now → g' = g)
    (hgen : g'.generation = g.generation) (hstable : g'.state = .stable) (m : Bytes) :
    g'.assignmentOf m = g.assignmentOf m := by
  by_cases hm : m ∈ g.memberIds
  · refine h.assignmentOf_of_mem hquiet hgen hm ?_
    by_contra hm'
    rcases h.removal hm hm' with hempty | hbump
    · rw [hempty.2] at hstable
      cases hstable
    · have hne : g.generation + 1 ≠ g.generation := by grind
      exact hne (hbump.symm.trans hgen)
  · rw [h.assignmentOf_of_not_mem hquiet hm, GroupMetadata.assignmentOf_of_not_mem hm]

/-- **Step lemma**: a request that restates keeps every assignment of a group that is stable
in one generation before and after it. -/
theorem assignmentOf_next {c : GroupCoordinator} {i : GroupInput} {id : Bytes} {γ : Int32}
    (hok : Restates c i) (hstable : StableAt c id γ)
    (hstable' : StableAt (groupMachine.next c i) id γ) (m : Bytes) :
    ((groupMachine.next c i).groupOrNew id).assignmentOf m =
      (c.groupOrNew id).assignmentOf m := by
  rcases assigns_or_quiet c i id with ⟨r, now, hi, -⟩ | ⟨hquiet, -⟩
  · subst hi
    rw [assignmentOf, assignmentOf, members_next_sync hstable hok]
  · exact (groupChange_next c i id).assignmentOf_of_stable hquiet
      (hstable'.2.trans hstable.2.symm) hstable'.1 m

/-! ### Runs -/

/-- **Run lemma**: while the group stays stable in one generation, so do its assignments. -/
theorem assignmentOf_exec {c : GroupCoordinator} {is : List GroupInput} {id : Bytes} {γ : Int32}
    (hw : groupMachine.Within Restates c is)
    (hstable : ∀ k, StableAt (groupMachine.exec c (is.take k)) id γ) (m : Bytes) :
    ((groupMachine.exec c is).groupOrNew id).assignmentOf m =
      (c.groupOrNew id).assignmentOf m := by
  induction is generalizing c with
  | nil => rfl
  | cons i is ih =>
    have hrest : ∀ k, StableAt (groupMachine.exec (groupMachine.next c i) (is.take k)) id γ :=
      fun k => hstable (k + 1)
    rw [Machine.exec_cons, ih hw.2 hrest]
    exact assignmentOf_next hw.1 (hstable 0) (hrest 0) m

/-- If every SyncGroup that reaches a stable group restates what is stored there, then
assignments are fixed while a group is stable. -/
theorem fixedWhileStable_of_restates {run : List GroupInput}
    (hw : groupMachine.Within Restates {} run) : FixedWhileStable run := by
  constructor
  · rintro pre mid post r r' now now' a a' rfl hid hmember hgen hstable hmid hout hout' herr herr'
    rw [Machine.within_append, Machine.within_cons, Machine.within_append,
      Machine.within_cons] at hw
    obtain ⟨-, hr, hwmid, hr', -⟩ := hw
    have hmid' : ∀ k, StableAt (groupMachine.exec (groupMachine.next (groupMachine.exec {} pre)
        (.sync r now)) (mid.take k)) r.groupId r.generationId := by
      intro k
      simpa using hmid k
    have hend := hmid' mid.length
    rw [List.take_length] at hend
    rw [Machine.exec_append, Machine.exec_cons] at hout'
    have hlast := (out_sync hout' herr').2
    rw [hid, hmember, assignmentOf, members_next_sync hend hr', ← assignmentOf] at hlast
    rw [hlast, assignmentOf_exec hwmid hmid', ← (out_sync hout herr).2]
  · rintro pre post r now rfl hstable -
    rw [Machine.within_append, Machine.within_cons] at hw
    rw [Machine.exec_append]
    exact members_next_sync hstable hw.2.1

/-- The leader assigns, both members retrieve, the leader repeats its assignment and the
second member retrieves again. -/
def leaderRepeats : List GroupInput :=
  let h : RequestHeader := ⟨14, 0, 1⟩
  [.join ⟨h, ascii "g", 30000, ascii "a", ascii "consumer", []⟩ 0,
   .join ⟨h, ascii "g", 30000, ascii "b", ascii "consumer", []⟩ 0,
   .sync ⟨h, ascii "g", 1, ascii "a", [⟨ascii "a", [1]⟩, ⟨ascii "b", [2]⟩]⟩ fun _ => 0,
   .sync ⟨h, ascii "g", 1, ascii "b", []⟩ fun _ => 0,
   .sync ⟨h, ascii "g", 1, ascii "a", [⟨ascii "a", [1]⟩, ⟨ascii "b", [2]⟩]⟩ fun _ => 0,
   .sync ⟨h, ascii "g", 1, ascii "b", []⟩ fun _ => 0]

theorem fixedWhileStable_leaderRepeats :
    groupMachine.Within Restates {} leaderRepeats ∧ FixedWhileStable leaderRepeats :=
  ⟨by decide, fixedWhileStable_of_restates (by decide)⟩

/-- The leader assigns, the second member retrieves, and then submits another assignment for
itself. -/
def followerAssigns : List GroupInput :=
  let h : RequestHeader := ⟨14, 0, 1⟩
  [.join ⟨h, ascii "g", 30000, ascii "a", ascii "consumer", []⟩ 0,
   .join ⟨h, ascii "g", 30000, ascii "b", ascii "consumer", []⟩ 0,
   .sync ⟨h, ascii "g", 1, ascii "a", [⟨ascii "a", [1]⟩, ⟨ascii "b", [2]⟩]⟩ fun _ => 0,
   .sync ⟨h, ascii "g", 1, ascii "b", []⟩ fun _ => 0,
   .sync ⟨h, ascii "g", 1, ascii "b", [⟨ascii "b", [9]⟩]⟩ fun _ => 0]

/-- **A follower changes the assignments of a stable group**: its second SyncGroup is
answered with other bytes than its first, and rewrites its entry. -/
theorem not_fixedWhileStable_follower : ¬ FixedWhileStable followerAssigns := by
  rintro ⟨h, -⟩
  have hsame := h (followerAssigns.take 3) [] [] ⟨⟨14, 0, 1⟩, ascii "g", 1, ascii "b", []⟩
    ⟨⟨14, 0, 1⟩, ascii "g", 1, ascii "b", [⟨ascii "b", [9]⟩]⟩ (fun _ => 0) (fun _ => 0) _ _ rfl
    rfl rfl rfl (by decide) (fun k => by rw [List.take_nil]; decide) rfl rfl (by decide)
    (by decide)
  exact absurd hsame (by decide)

end TinyKafka
