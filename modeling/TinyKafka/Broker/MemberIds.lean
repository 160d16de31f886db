import TinyKafka.Broker.GroupIsolation
import TinyKafka.Broker.GroupStructure
import TinyKafka.Util.Decimal

/-!
# Generated member ids

A JoinGroup without a member id is given `member-` and the next value of a counter, so no two
of them are given the same id (`nodup_idsGiven`). The id also has to be new to the group, and
there it shares one namespace with the ids that clients choose: a JoinGroup may carry any id,
and a SyncGroup lists members that are then appended to the group. Neither is looked at when an
id is generated.

So a generated id is fresh as long as nobody names an id before it has been generated
(`freshIds_of_named`); a client that only sends back ids it was given does not.
-/

namespace TinyKafka

open GroupCoordinator GroupMetadata

/-- The member id that is made of the counter value `n`. -/
def generatedId (n : ℤ) : Bytes := ascii "member-" ++ toDecimal n

/-- The member ids that a request may add to a group because they stand in it. -/
def GroupInput.namedIds : GroupInput → List Bytes
  | .join r _ => if r.memberId = [] then [] else [r.memberId]
  | .sync r _ => r.assignments.map SyncGroupAssignment.memberId
  | .heartbeat _ _ => []
  | .leave _ => []
  | .offsetCommit _ => []
  | .offsetFetch _ => []

/-- How many requests of the run have an id generated for them. -/
def generations (run : List GroupInput) : ℕ := run.countP fun i => ¬ i.NamesMember

/-- The id that was generated for a request, if one was. -/
def idGiven : GroupInput × GroupOutput → Option Bytes
  | (.join r _, .join resp) => if r.memberId = [] then some resp.memberId else none
  | _ => none

/-- A JoinGroup in this state is given an id that nobody in the group has, and adds one member
to it. -/
def GivesFresh (c : GroupCoordinator) (r : JoinGroupRequest) (now : ℤ) : Prop :=
  ∃ resp, groupMachine.out c (.join r now) = .join resp ∧
    resp.memberId ∉ (c.groupOrNew r.groupId).memberIds ∧
      ((groupMachine.next c (.join r now)).groupOrNew r.groupId).members.length =
        (c.groupOrNew r.groupId).members.length + 1

/-- In this run, generated ids are fresh. -/
structure FreshIds (run : List GroupInput) : Prop where
  /-- Nobody in the group has the id already. -/
  fresh : ∀ pre r now post, run = pre ++ .join r now :: post → r.memberId = [] →
    GivesFresh (groupMachine.exec {} pre) r now
  /-- No two requests are given the same id. -/
  distinct : ((groupMachine.trace {} run).filterMap idGiven).Nodup

/-- The request names no id that the counter is yet to reach. -/
def NamesOldIds (c : GroupCoordinator) (i : GroupInput) : Prop :=
  ∀ m ∈ i.namedIds, ∀ n : ℤ, c.nextMemberId.toInt < n → m ≠ generatedId n

/-! ### The counter -/

theorem generatedId_injective : Function.Injective generatedId := by
  intro m n h
  exact toDecimal_injective (List.append_cancel_left h)

theorem generations_cons_of_named {i : GroupInput} (hi : i.NamesMember) (run : List GroupInput) :
    generations (i :: run) = generations run := by
  rw [generations, List.countP_cons_of_neg (by simpa using hi), ← generations]

theorem generations_cons_of_not_named {i : GroupInput} (hi : ¬ i.NamesMember)
    (run : List GroupInput) : generations (i :: run) = generations run + 1 := by
  rw [generations, List.countP_cons_of_pos (by simpa using hi), ← generations]

/-- Ids are generated for the JoinGroups without one. -/
theorem exists_join_of_not_named {i : GroupInput} (hi : ¬ i.NamesMember) :
    ∃ r now, i = .join r now ∧ r.memberId = [] := by
  cases i with
  | join r now => exact ⟨r, now, rfl, not_not.mp hi⟩
  | _ => exact absurd trivial hi

theorem ne_maxValue_of_bound {a : Int32} (h : a.toInt + 1 < 2 ^ 31) : a ≠ Int32.maxValue := by
  rintro rfl
  exact absurd h (by decide)

/-- The counter moves on when an id is generated. -/
theorem toInt_nextMemberId_next {c : GroupCoordinator} {i : GroupInput} (hi : ¬ i.NamesMember)
    (hbound : c.nextMemberId.toInt + 1 < 2 ^ 31) :
    (groupMachine.next c i).nextMemberId.toInt = c.nextMemberId.toInt + 1 := by
  obtain ⟨r, now, rfl, hempty⟩ := exists_join_of_not_named hi
  have hnext : (groupMachine.next c (.join r now)).nextMemberId = c.nextMemberId + 1 :=
    if_pos hempty
  rw [hnext, toInt_succ_of_ne_max (ne_maxValue_of_bound hbound)]

theorem joinMember_eq_generatedId {c : GroupCoordinator} {r : JoinGroupRequest}
    (hempty : r.memberId = []) (hbound : c.nextMemberId.toInt + 1 < 2 ^ 31) :
    c.joinMember r = generatedId (c.nextMemberId.toInt + 1) := by
  rw [joinMember, if_pos hempty, toInt_succ_of_ne_max (ne_maxValue_of_bound hbound), generatedId]

theorem idGiven_of_named {i : GroupInput} (hi : i.NamesMember) (o : GroupOutput) :
    idGiven (i, o) = none := by
  cases i with
  | join r now =>
    cases o with
    | join resp => exact if_neg hi
    | _ => rfl
  | _ => rfl

theorem idGiven_out {c : GroupCoordinator} {i : GroupInput} (hi : ¬ i.NamesMember)
    (hbound : c.nextMemberId.toInt + 1 < 2 ^ 31) :
    idGiven (i, groupMachine.out c i) = some (generatedId (c.nextMemberId.toInt + 1)) := by
  obtain ⟨r, now, rfl, hempty⟩ := exists_join_of_not_named hi
  obtain ⟨resp, hout, -, -, hmember, -⟩ := out_join c r now
  rw [hout, idGiven, if_pos hempty, hmember, joinMember_eq_generatedId hempty hbound]

/-- **The generated ids of a run** are made of the counter values that follow the present
one. -/
theorem filterMap_idGiven {c : GroupCoordinator} {run : List GroupInput}
    (hbound : c.nextMemberId.toInt + generations run < 2 ^ 31) :
    (groupMachine.trace c run).filterMap idGiven =
      (List.range (generations run)).map
        fun k : ℕ => generatedId (c.nextMemberId.toInt + 1 + (k : ℤ)) := by
  induction run generalizing c with
  | nil => rfl
  | cons i run ih =>
    rw [Machine.trace_cons]
    by_cases hi : i.NamesMember
    · rw [generations_cons_of_named hi] at hbound ⊢
      rw [List.filterMap_cons_none (idGiven_of_named hi _), ih (by rwa [nextMemberId_next c hi]),
        nextMemberId_next c hi]
    · rw [generations_cons_of_not_named hi] at hbound ⊢
      have hnext := toInt_nextMemberId_next (c := c) hi (by omega)
      rw [List.filterMap_cons_some (idGiven_out hi (by omega)), ih (by omega), hnext,
        List.range_succ_eq_map, List.map_cons, List.map_map]
      congr 1
      · simp
      · refine List.map_congr_left fun k _ => congrArg generatedId ?_
        simp only [Nat.succ_eq_add_one]
        omega

/-- No two JoinGroups are given the same id. -/
theorem nodup_idsGiven {run : List GroupInput} (hbound : generations run < 2 ^ 31) :
    ((groupMachine.trace {} run).filterMap idGiven).Nodup := by
  have hzero : ({} : GroupCoordinator).nextMemberId.toInt = 0 := rfl
  rw [filterMap_idGiven (by omega)]
  refine List.Nodup.map ?_ List.nodup_range
  intro j k h
  have heq := generatedId_injective h
  omega

/-! ### The members -/

theorem mem_assignMembers {members : List MemberInfo} {as : List SyncGroupAssignment}
    {now : ℕ → ℤ} {m : Bytes}
    (h : m ∈ (assignMembers members as now).map MemberInfo.memberId) :
    m ∈ members.map MemberInfo.memberId ∨ m ∈ as.map SyncGroupAssignment.memberId := by
  induction as generalizing members now with
  | nil => exact .inl h
  | cons a as ih =>
    rw [List.map_cons, List.mem_cons]
    rcases ih h with hold | hlisted
    · rcases map_memberId_assignMember members a (now 0) with hsame | ⟨-, happend⟩
      · exact .inl (hsame ▸ hold)
      · rw [happend, List.mem_append, List.mem_singleton] at hold
        exact hold.imp_right .inl
    · exact .inr (.inr hlisted)

/-- Whoever is in a group after a request was there before, is named in the request, or was
given a generated id. -/
theorem mem_memberIds_next {c : GroupCoordinator} {i : GroupInput} {id m : Bytes}
    (h : m ∈ ((groupMachine.next c i).groupOrNew id).memberIds) :
    m ∈ (c.groupOrNew id).memberIds ∨ m ∈ i.namedIds ∨
      ∃ r now, i = .join r now ∧ r.memberId = [] ∧ m = c.joinMember r := by
  by_cases hid : id = i.groupId
  · subst hid
    have hchange := groupChange_next c i i.groupId
    cases i with
    | join r now =>
      rw [GroupInput.groupId, groupOrNew_next_join, memberIds_join] at h
      split at h
      next => exact .inl h
      next =>
        rcases List.mem_append.mp h with hold | hnew
        · exact .inl hold
        · rw [List.mem_singleton] at hnew
          by_cases hempty : r.memberId = []
          · exact .inr (.inr ⟨r, now, rfl, hempty, hnew⟩)
          · rw [joinMember, if_neg hempty] at hnew
            rw [GroupInput.namedIds, if_neg hempty, List.mem_singleton]
            exact .inr (.inl hnew)
    | sync r now =>
      generalize (groupMachine.next c (.sync r now)).groupOrNew _ = g' at h hchange
      cases hchange with
      | refl => exact .inl h
      | assign => exact (mem_assignMembers h).imp_right .inl
    -- the other requests add nobody
    | heartbeat r now =>
      generalize (groupMachine.next c (.heartbeat r now)).groupOrNew _ = g' at h hchange
      cases hchange with
      | refl => exact .inl h
      | beat => exact .inl ((memberIds_beat_sublist _ _ _).subset h)
    | leave r =>
      generalize (groupMachine.next c (.leave r)).groupOrNew _ = g' at h hchange
      cases hchange with
      | refl => exact .inl h
      | leave => exact .inl ((memberIds_leave_sublist _ _).subset h)
    | offsetCommit r =>
      generalize (groupMachine.next c (.offsetCommit r)).groupOrNew _ = g' at h hchange
      cases hchange with
      | refl => exact .inl h
      | commit => exact .inl (by simpa [memberIds] using h)
    | offsetFetch r =>
      generalize (groupMachine.next c (.offsetFetch r)).groupOrNew _ = g' at h hchange
      cases hchange with
      | refl => exact .inl h
  · rw [groupOrNew_next_of_ne c i hid] at h
    exact .inl h

/-- No member of any group has an id that the counter is yet to reach. -/
def HoldsOldIds (c : GroupCoordinator) : Prop :=
  ∀ id, ∀ m ∈ (c.groupOrNew id).memberIds, ∀ n : ℤ, c.nextMemberId.toInt < n → m ≠ generatedId n

/-- The counter never falls behind an id that is in use. -/
theorem HoldsOldIds.next {c : GroupCoordinator} {i : GroupInput} (hold : HoldsOldIds c)
    (hnamed : NamesOldIds c i)
    (hbound : ¬ i.NamesMember → c.nextMemberId.toInt + 1 < 2 ^ 31) :
    HoldsOldIds (groupMachine.next c i) := by
  intro id m hm n hn
  by_cases hi : i.NamesMember
  · rw [nextMemberId_next c hi] at hn
    rcases mem_memberIds_next hm with hin | hin | ⟨r, now, rfl, hempty, -⟩
    · exact hold id m hin n hn
    · exact hnamed m hin n hn
    · exact absurd hempty hi
  · rw [toInt_nextMemberId_next hi (hbound hi)] at hn
    rcases mem_memberIds_next hm with hin | hin | ⟨r, now, rfl, hempty, rfl⟩
    · exact hold id m hin n (by omega)
    · exact hnamed m hin n (by omega)
    · -- the id that was just generated is not one of the later ones
      rw [joinMember_eq_generatedId hempty (hbound hi)]
      intro heq
      have := generatedId_injective heq
      omega

theorem HoldsOldIds.exec {c : GroupCoordinator} {run : List GroupInput} (hold : HoldsOldIds c)
    (hnamed : groupMachine.Within NamesOldIds c run)
    (hbound : c.nextMemberId.toInt + generations run < 2 ^ 31) :
    HoldsOldIds (groupMachine.exec c run) ∧
      (groupMachine.exec c run).nextMemberId.toInt = c.nextMemberId.toInt + generations run := by
  induction run generalizing c with
  | nil => exact ⟨hold, (Int.add_zero _).symm⟩
  | cons i run ih =>
    obtain ⟨hstep, hrest⟩ := hnamed
    rw [Machine.exec_cons]
    by_cases hi : i.NamesMember
    · rw [generations_cons_of_named hi] at hbound ⊢
      rw [← nextMemberId_next c hi] at hbound ⊢
      exact ih (hold.next hstep fun h => absurd hi h) hrest hbound
    · rw [generations_cons_of_not_named hi] at hbound ⊢
      have hnext := toInt_nextMemberId_next (c := c) hi (by omega)
      obtain ⟨hold', hcounter⟩ :=
        ih (hold.next hstep fun _ => by omega) hrest (by omega)
      exact ⟨hold', by omega⟩

theorem holdsOldIds_init : HoldsOldIds {} := by
  intro id m hm
  cases hm

theorem HoldsOldIds.givesFresh {c : GroupCoordinator} (hold : HoldsOldIds c)
    {r : JoinGroupRequest} (hempty : r.memberId = [])
    (hbound : c.nextMemberId.toInt + 1 < 2 ^ 31) (now : ℤ) : GivesFresh c r now := by
  have hnew : c.joinMember r ∉ (c.groupOrNew r.groupId).memberIds := by
    intro hin
    exact hold r.groupId _ hin (c.nextMemberId.toInt + 1) (by omega)
      (joinMember_eq_generatedId hempty hbound)
  obtain ⟨resp, hout, -, -, hmember, -⟩ := out_join c r now
  refine ⟨resp, hout, hmember ▸ hnew, ?_⟩
  rw [groupOrNew_next_join, GroupMetadata.join, joinMembers, if_neg hnew, List.length_append,
    List.length_singleton]

/-- **When generated ids are fresh**: when no JoinGroup and no SyncGroup of the run names an id
that has not been generated yet. -/
theorem freshIds_of_named {run : List GroupInput} (hcount : generations run < 2 ^ 31 - 1)
    (hnamed : groupMachine.Within NamesOldIds {} run) : FreshIds run where
  fresh := by
    rintro pre r now post rfl hempty
    have hzero : ({} : GroupCoordinator).nextMemberId.toInt = 0 := rfl
    have hpre : generations pre ≤ generations (pre ++ .join r now :: post) := by
      rw [generations, generations, List.countP_append]
      exact Nat.le_add_right _ _
    obtain ⟨hold, hcounter⟩ := holdsOldIds_init.exec
      ((Machine.within_append _).mp hnamed).1 (by omega)
    exact hold.givesFresh hempty (by omega) now
  distinct := nodup_idsGiven (by omega)

/-- A JoinGroup of group `g` with the given member id. -/
def joinAs (member : Bytes) : GroupInput :=
  .join ⟨⟨11, 0, 1⟩, ascii "g", 30000, member, ascii "consumer", []⟩ 0

/-- A member sends back the id it was given, and another one joins. -/
theorem freshIds_rejoin :
    FreshIds [joinAs [], joinAs (ascii "member-1"), joinAs []] := by
  refine freshIds_of_named (by decide) ⟨?_, ?_, ?_, trivial⟩
  · intro m hm
    cases hm
  · intro m hm n hn heq
    have hcounter : (groupMachine.next {} (joinAs [])).nextMemberId.toInt = 1 := by decide
    have hone : m = generatedId 1 := List.mem_singleton.mp hm
    have hvalue := generatedId_injective (hone.symm.trans heq)
    omega
  · intro m hm
    cases hm

/-- An id that a member has when it is generated is not fresh. -/
theorem not_freshIds_of_mem (pre post : List GroupInput) {r : JoinGroupRequest} {now : ℤ}
    (hempty : r.memberId = [])
    (hin : (groupMachine.exec {} pre).joinMember r ∈
      ((groupMachine.exec {} pre).groupOrNew r.groupId).memberIds) :
    ¬ FreshIds (pre ++ .join r now :: post) := by
  intro h
  obtain ⟨resp, hout, hnew, -⟩ := h.fresh pre r now post rfl hempty
  obtain ⟨resp', hout', -, -, hmember, -⟩ := out_join (groupMachine.exec {} pre) r now
  rw [hout] at hout'
  cases hout'
  exact hnew (hmember ▸ hin)

/-- The leader assigns something to a member `member-1` that nobody has heard of. -/
def assignsToUnknown : GroupInput :=
  .sync ⟨⟨14, 0, 1⟩, ascii "g", 1, ascii "a", [⟨ascii "member-1", []⟩]⟩ fun _ => 0

/-- **An id can be taken before it is generated**, by a JoinGroup and by a SyncGroup. -/
theorem not_freshIds_taken :
    (generations [joinAs (ascii "member-1"), joinAs []] = 1 ∧
      ¬ FreshIds [joinAs (ascii "member-1"), joinAs []]) ∧
    (generations [joinAs (ascii "a"), assignsToUnknown, joinAs []] = 1 ∧
      ¬ FreshIds [joinAs (ascii "a"), assignsToUnknown, joinAs []]) := by
  refine ⟨⟨by decide, ?_⟩, ⟨by decide, ?_⟩⟩
  · exact not_freshIds_of_mem [joinAs (ascii "member-1")] [] rfl (by decide)
  · exact not_freshIds_of_mem [joinAs (ascii "a"), assignsToUnknown] [] rfl (by decide)

end TinyKafka
