import TinyKafka.Broker.GroupIsolation

/-!
# OffsetFetch as a query

`handle_offset_fetch` reads committed offsets, and creates the record of the group when there
is none. A record with the defaults and an absent one are treated alike by the other handlers,
with one exception: a SyncGroup under generation `0` is refused when the group is absent and
accepted when it has a new record. So OffsetFetch requests leave no trace in a run exactly when
every such SyncGroup finds the record of its group (`fetchesUnobserved_iff`).
-/

namespace TinyKafka

open GroupCoordinator GroupMetadata

/-- **OffsetFetch is unobserved** in a run: whatever OffsetFetch requests are inserted, at
whatever places, the requests of the run are answered as before. -/
def FetchesUnobserved (c : GroupCoordinator) (run : List GroupInput) : Prop :=
  ∀ l : List (GroupInput ⊕ OffsetFetchRequest), l.filterMap Sum.getLeft? = run →
    groupMachine.keptOutputs .offsetFetch c l = (groupMachine.trace c run).map Prod.snd

/-- A SyncGroup under generation `0` finds the record of its group. -/
def SyncsKnownGroup (c : GroupCoordinator) : GroupInput → Prop
  | .sync r _ => r.generationId = 0 → (c.groups r.groupId).isSome
  | _ => True

/-- The second coordinator has a new record for some of the groups that the first one does not
have. -/
structure AddsNewGroups (c c' : GroupCoordinator) : Prop where
  counter : c'.nextMemberId = c.nextMemberId
  groups : ∀ id, c'.groups id = c.groups id ∨ c.groups id = none ∧ c'.groups id = some {}

namespace AddsNewGroups

variable {c c' : GroupCoordinator}

theorem refl (c : GroupCoordinator) : AddsNewGroups c c := ⟨rfl, fun _ => .inl rfl⟩

/-- `groups_[id]` does not tell them apart. -/
theorem groupOrNew (h : AddsNewGroups c c') (id : Bytes) : c'.groupOrNew id = c.groupOrNew id := by
  rcases h.groups id with hsame | ⟨hnone, hnew⟩
  · exact groupOrNew_congr hsame
  · rw [GroupCoordinator.groupOrNew, GroupCoordinator.groupOrNew, hnone, hnew]
    rfl

/-- Storing one and the same record on both sides. -/
theorem setGroup (h : AddsNewGroups c c') (id : Bytes) (g : GroupMetadata) :
    AddsNewGroups (c.setGroup id g) (c'.setGroup id g) := by
  refine ⟨h.counter, fun id' => ?_⟩
  rcases eq_or_ne id' id with rfl | hne
  · exact .inl (by rw [groups_setGroup_self, groups_setGroup_self])
  · rw [groups_setGroup_of_ne c' g hne, groups_setGroup_of_ne c g hne]
    exact h.groups id'

/-- An OffsetFetch adds at most a new record. -/
theorem offsetFetch (h : AddsNewGroups c c') (r : OffsetFetchRequest) :
    AddsNewGroups c (groupMachine.next c' (.offsetFetch r)) := by
  refine ⟨h.counter, fun id => ?_⟩
  by_cases hid : id = r.groupId
  · have hnext : (groupMachine.next c' (.offsetFetch r)).groups id =
        some (c'.groupOrNew r.groupId) := by
      rw [hid]
      exact groups_setGroup_self _ _
    rw [hnext, h.groupOrNew, GroupCoordinator.groupOrNew, ← hid]
    cases hc : c.groups id with
    | none => exact .inr ⟨rfl, rfl⟩
    | some g => exact .inl rfl
  · rw [next_groups_of_ne c' (.offsetFetch r) hid]
    exact h.groups id

end AddsNewGroups

/-! ### The other handlers -/

section Refusals

variable {c : GroupCoordinator}

theorem groupAt_of_none {id : Bytes} (h : c.groups id = none) (γ : Int32) :
    c.groupAt id γ = none := by
  rw [groupAt, h]
  rfl

theorem groupAt_of_new {id : Bytes} (h : c.groups id = some {}) {γ : Int32} (hγ : γ ≠ 0) :
    c.groupAt id γ = none := by
  rw [groupAt, h]
  simp [hγ.symm]

/-- A Heartbeat to a group with a new record is refused, since the group is not `Stable`. -/
theorem handleHeartbeat_of_new {r : HeartbeatRequest} (h : c.groups r.groupId = some {})
    (now : ℤ) : c.handleHeartbeat r now = (c, heartbeatResponse r 82) := by
  rw [handleHeartbeat]
  cases hat : c.groupAt r.groupId r.generationId with
  | none => rfl
  | some g =>
    obtain rfl : ({} : GroupMetadata) = g :=
      Option.some.inj (h.symm.trans (groupAt_eq_some.mp hat).1)
    rfl

/-- A LeaveGroup to a group with a new record is refused, since nobody is in it. -/
theorem handleLeaveGroup_of_new {r : LeaveGroupRequest} (h : c.groups r.groupId = some {}) :
    c.handleLeaveGroup r = (c, leaveResponse r 25) := by
  rw [handleLeaveGroup, h]
  rfl

end Refusals

namespace AddsNewGroups

variable {c c' : GroupCoordinator}

/-- A request to a group that both sides have the same record of. -/
theorem step_of_same (h : AddsNewGroups c c') {i : GroupInput} (hi : i.NamesMember)
    (hsame : c'.groups i.groupId = c.groups i.groupId) :
    groupMachine.out c' i = groupMachine.out c i ∧
      AddsNewGroups (groupMachine.next c i) (groupMachine.next c' i) := by
  obtain ⟨hout, hgroup⟩ := step_congr i hi hsame
  refine ⟨hout, ?_, fun id => ?_⟩
  · rw [nextMemberId_next c' hi, nextMemberId_next c hi, h.counter]
  · by_cases hid : id = i.groupId
    · exact .inl (hid ▸ hgroup)
    · rw [next_groups_of_ne c' i hid, next_groups_of_ne c i hid]
      exact h.groups id

/-- A JoinGroup creates the record it does not find. -/
theorem step_join (h : AddsNewGroups c c') (r : JoinGroupRequest) (now : ℤ) :
    groupMachine.out c' (.join r now) = groupMachine.out c (.join r now) ∧
      AddsNewGroups (groupMachine.next c (.join r now)) (groupMachine.next c' (.join r now)) := by
  have hmember : c'.joinMember r = c.joinMember r := by rw [joinMember, joinMember, h.counter]
  have hcounter : c'.joinCounter r = c.joinCounter r := by
    rw [joinCounter, joinCounter, h.counter]
  have hgroup := h.groupOrNew r.groupId
  constructor
  · simp [Machine.out, groupMachine, handleJoinGroup, hmember, hgroup]
  · have hset := h.setGroup r.groupId ((c.groupOrNew r.groupId).join (c.joinMember r) r now)
    refine ⟨hcounter, fun id => ?_⟩
    simpa [Machine.next, groupMachine, handleJoinGroup, hmember, hgroup] using hset.groups id

/-- **Step lemma**: a request is answered alike, except for a SyncGroup under generation `0`
that does not find its group. -/
theorem step (h : AddsNewGroups c c') {i : GroupInput} (hi : SyncsKnownGroup c i) :
    groupMachine.out c' i = groupMachine.out c i ∧
      AddsNewGroups (groupMachine.next c i) (groupMachine.next c' i) := by
  cases i with
  | join r now => exact h.step_join r now
  | offsetCommit r =>
    refine ⟨rfl, ?_⟩
    have hset := h.setGroup r.groupId ((c.groupOrNew r.groupId).commitAll r.topics)
    simpa [Machine.next, groupMachine, handleOffsetCommit, h.groupOrNew] using hset
  | offsetFetch r =>
    have hset := h.setGroup r.groupId (c.groupOrNew r.groupId)
    constructor
    · simp [Machine.out, groupMachine, handleOffsetFetch, h.groupOrNew]
    · simpa [Machine.next, groupMachine, handleOffsetFetch, h.groupOrNew] using hset
  -- The other three look the record up, and refuse on both sides when it is absent on one.
  | sync r now =>
    rcases h.groups r.groupId with hsame | ⟨hnone, hnew⟩
    · exact h.step_of_same trivial hsame
    · have hgen : r.generationId ≠ 0 := fun hzero => by
        have hsome := hi hzero
        rw [hnone] at hsome
        cases hsome
      simp only [Machine.out, Machine.next, groupMachine, handleSyncGroup, groupAt_of_none hnone,
        groupAt_of_new hnew hgen]
      exact ⟨rfl, h⟩
  | heartbeat r now =>
    rcases h.groups r.groupId with hsame | ⟨hnone, hnew⟩
    · exact h.step_of_same trivial hsame
    · simp only [Machine.out, Machine.next, groupMachine, handleHeartbeat_of_new hnew]
      simp only [handleHeartbeat, groupAt_of_none hnone]
      exact ⟨rfl, h⟩
  | leave r =>
    rcases h.groups r.groupId with hsame | ⟨hnone, hnew⟩
    · exact h.step_of_same trivial hsame
    · simp only [Machine.out, Machine.next, groupMachine, handleLeaveGroup_of_new hnew]
      simp only [handleLeaveGroup, hnone]
      exact ⟨rfl, h⟩

end AddsNewGroups

/-! ### Runs -/

theorem errorCode_out_sync (c : GroupCoordinator) (r : SyncGroupRequest) (now : ℕ → ℤ) :
    (groupMachine.out c (.sync r now)).errorCode =
      if (c.groupAt r.groupId r.generationId).isSome then 0 else 82 := by
  simp only [Machine.out, groupMachine, Prod.map, handleSyncGroup]
  cases c.groupAt r.groupId r.generationId with
  | none => rfl
  | some g =>
    dsimp only
    split <;> rfl

/-- A SyncGroup under generation `0` to an absent group is refused, and accepted behind an
OffsetFetch for the group. -/
theorem out_sync_offsetFetch_ne {c : GroupCoordinator} {r : SyncGroupRequest} (now : ℕ → ℤ)
    (hgen : r.generationId = 0) (hnone : c.groups r.groupId = none) {q : OffsetFetchRequest}
    (hq : q.groupId = r.groupId) :
    groupMachine.out (groupMachine.next c (.offsetFetch q)) (.sync r now) ≠
      groupMachine.out c (.sync r now) := by
  have hat : (groupMachine.next c (.offsetFetch q)).groupAt r.groupId r.generationId = some {} := by
    rw [groupAt_eq_some, hgen]
    refine ⟨?_, rfl⟩
    rw [← hq] at hnone ⊢
    refine (groups_setGroup_self _ _).trans ?_
    rw [groupOrNew, hnone]
    rfl
  intro heq
  have hcode := congrArg GroupOutput.errorCode heq
  rw [errorCode_out_sync, errorCode_out_sync, hat, groupAt_of_none hnone] at hcode
  exact absurd hcode (by decide)

/-- An OffsetFetch inserted before a request that answers differently behind it. -/
theorem not_fetchesUnobserved_of_out_ne {c : GroupCoordinator} (pre post : List GroupInput)
    {i : GroupInput} {q : OffsetFetchRequest}
    (hne : groupMachine.out (groupMachine.next (groupMachine.exec c pre) (.offsetFetch q)) i ≠
      groupMachine.out (groupMachine.exec c pre) i) :
    ¬ FetchesUnobserved c (pre ++ i :: post) := by
  intro h
  have hleft : ∀ l : List GroupInput,
      (l.map Sum.inl : List (GroupInput ⊕ OffsetFetchRequest)).filterMap Sum.getLeft? = l := by
    intro l
    rw [List.filterMap_map]
    exact List.filterMap_some
  have hrun := h (pre.map Sum.inl ++ .inr q :: .inl i :: post.map Sum.inl)
    (by rw [List.filterMap_append, hleft]; exact congrArg (pre ++ i :: ·) (hleft post))
  rw [Machine.keptOutputs_map_inl_append, Machine.trace_append, List.map_append,
    List.append_cancel_left_eq, Machine.trace_cons, List.map_cons] at hrun
  exact hne (List.cons.inj hrun).1

/-- **When OffsetFetch is a query.** Inserting OffsetFetch requests into a run changes none of
its responses if and only if every SyncGroup of the run under generation `0` finds the record
of its group. -/
theorem fetchesUnobserved_iff (c : GroupCoordinator) (run : List GroupInput) :
    FetchesUnobserved c run ↔ groupMachine.Within SyncsKnownGroup c run := by
  constructor
  · intro h
    rw [Machine.within_iff]
    rintro pre i post rfl
    by_contra hnot
    cases i with
    | sync r now =>
      rw [SyncsKnownGroup, Classical.not_imp, Option.not_isSome_iff_eq_none] at hnot
      exact not_fetchesUnobserved_of_out_ne pre post
        (out_sync_offsetFetch_ne now hnot.1 hnot.2 (q := ⟨r.header, r.groupId, []⟩) rfl) h
    | _ => exact hnot trivial
  · rintro hw l rfl
    exact Machine.inserted_run (R := AddsNewGroups) (fun _ _ r h => h.offsetFetch r)
      (fun _ _ _ h hok => h.step hok) (.refl c) l hw

/-- **OffsetFetch is observed**: a SyncGroup under generation `0` to a group nobody has heard of
is answered with an error, and without one behind an OffsetFetch for the group. -/
theorem not_fetchesUnobserved_unknownGroup :
    ¬ FetchesUnobserved {} [.sync ⟨⟨14, 0, 1⟩, ascii "g", 0, ascii "a", []⟩ fun _ => 0] :=
  not_fetchesUnobserved_of_out_ne [] [] (q := ⟨⟨9, 0, 1⟩, ascii "g", []⟩)
    (out_sync_offsetFetch_ne _ rfl rfl rfl)

end TinyKafka
