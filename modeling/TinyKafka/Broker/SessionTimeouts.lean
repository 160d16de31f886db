import TinyKafka.Broker.GroupFencing
import TinyKafka.Broker.GroupStructure

/-!
# Session timeouts

Every member entry has the time of its last sign of life: its last JoinGroup or accepted
Heartbeat, or the SyncGroup that inserted it (`getLast?_signOfLife`). An accepted Heartbeat
erases the members that have been silent for longer than the session timeout, but there is one
timeout per group, and every JoinGroup overwrites it with its own.

So a member can be erased although it asked for a longer timeout, when somebody else joined
with a shorter one; and with a negative timeout the sender of the Heartbeat erases itself.
Neither happens when the timeout of the group is not negative and covers what its members asked
for (`noPrematureEviction_of_covered`), as when all of them ask for the same
(`timeoutsCovered_of_uniform`).
-/

namespace TinyKafka

open GroupCoordinator GroupMetadata

/-- The reading that the assignment loop takes for the first entry that lists the member. -/
def listedAt (as : List SyncGroupAssignment) (now : ℕ → ℤ) (m : Bytes) : Option ℤ :=
  (as.findIdx? (·.memberId = m)).map now

/-- The request is answered with error code `0`. -/
def Accepted (c : GroupCoordinator) (i : GroupInput) : Prop :=
  (groupMachine.out c i).errorCode = 0

instance (c : GroupCoordinator) (i : GroupInput) : Decidable (Accepted c i) :=
  inferInstanceAs (Decidable (_ = _))

/-- The time at which a request counts as a sign of life of member `m` of group `id`: its
JoinGroup, its accepted Heartbeat, or the SyncGroup that inserts it. -/
def signOfLife (id m : Bytes) (c : GroupCoordinator) : GroupInput → Option ℤ
  | .join r now => if r.groupId = id ∧ c.joinMember r = m then some now else none
  | .sync r now =>
    if r.groupId = id ∧ Accepted c (.sync r now) ∧
        (c.groupOrNew id).members.find? (·.memberId = m) = none then
      listedAt r.assignments now m
    else none
  | .heartbeat r now =>
    if r.groupId = id ∧ r.memberId = m ∧ Accepted c (.heartbeat r now) then some now else none
  | .leave _ => none
  | .offsetCommit _ => none
  | .offsetFetch _ => none

/-- The session timeout that member `m` of group `id` asks for with a request. -/
def askedTimeout (id m : Bytes) (c : GroupCoordinator) : GroupInput → Option Int32
  | .join r _ => if r.groupId = id ∧ c.joinMember r = m then some r.sessionTimeoutMs else none
  | .sync _ _ => none
  | .heartbeat _ _ => none
  | .leave _ => none
  | .offsetCommit _ => none
  | .offsetFetch _ => none

/-- The last sign of life of a member in a run. -/
def lastSignOfLife (id m : Bytes) (run : List GroupInput) : Option ℤ :=
  (groupMachine.observed (signOfLife id m) {} run).getLast?

/-- The timeout that a member asked for in its latest JoinGroup. -/
def ownTimeout (id m : Bytes) (run : List GroupInput) : Option Int32 :=
  (groupMachine.observed (askedTimeout id m) {} run).getLast?

/-- **No premature eviction**, over a run from the empty coordinator. -/
structure NoPrematureEviction (run : List GroupInput) : Prop where
  /-- A Heartbeat removes a member only when it has been silent for longer than it asked for. -/
  silent : ∀ pre r now post id m, run = pre ++ .heartbeat r now :: post →
    Removes (groupMachine.exec {} pre) (.heartbeat r now) id m →
    ∃ t, lastSignOfLife id m (pre ++ [.heartbeat r now]) = some t ∧
      ∀ timeout, ownTimeout id m pre = some timeout → timeout.toInt * 1000000 < now - t
  /-- The sender of an accepted Heartbeat is not removed by it. -/
  sender : ∀ pre r now post, run = pre ++ .heartbeat r now :: post →
    Accepted (groupMachine.exec {} pre) (.heartbeat r now) →
    ¬ Removes (groupMachine.exec {} pre) (.heartbeat r now) r.groupId r.memberId

/-- At every accepted Heartbeat of the run, the timeout of the group is not negative and no
member of the group asked for more. -/
def TimeoutsCovered (run : List GroupInput) : Prop :=
  ∀ pre r now post, run = pre ++ .heartbeat r now :: post →
    Accepted (groupMachine.exec {} pre) (.heartbeat r now) →
    0 ≤ ((groupMachine.exec {} pre).groupOrNew r.groupId).sessionTimeoutMs.toInt ∧
      ∀ m ∈ ((groupMachine.exec {} pre).groupOrNew r.groupId).memberIds, ∀ timeout,
        ownTimeout r.groupId m pre = some timeout → timeout.toInt ≤
          ((groupMachine.exec {} pre).groupOrNew r.groupId).sessionTimeoutMs.toInt

/-! ### The time in a member entry -/

namespace GroupMetadata

/-- The time of the last sign of life, from the member's entry. -/
def lastBeat (g : GroupMetadata) (m : Bytes) : Option ℤ :=
  (g.members.find? (·.memberId = m)).map MemberInfo.lastHeartbeat

theorem find?_touch_self (members : List MemberInfo) (m : Bytes) (now : ℤ) :
    (touch members m now).find? (·.memberId = m) =
      (members.find? (·.memberId = m)).map fun x => { x with lastHeartbeat := now } :=
  List.find?_updateKey_self fun _ => rfl

theorem find?_touch_of_ne (members : List MemberInfo) {member m : Bytes} (h : m ≠ member)
    (now : ℤ) :
    (touch members member now).find? (·.memberId = m) = members.find? (·.memberId = m) :=
  List.find?_updateKey_of_ne (fun _ => rfl) h

theorem lastBeat_join_self (g : GroupMetadata) (m : Bytes) (r : JoinGroupRequest) (now : ℤ) :
    (g.join m r now).lastBeat m = some now := by
  rw [lastBeat, GroupMetadata.join, joinMembers]
  split
  next hin =>
    obtain ⟨x, hx⟩ := List.exists_find?_key hin
    rw [find?_touch_self, hx]
    rfl
  next hnew =>
    have hnone : g.members.find? (·.memberId = m) = none := List.find?_key_of_not_mem hnew
    simp [List.find?_append, hnone]

theorem lastBeat_join_of_ne (g : GroupMetadata) {member m : Bytes} (h : m ≠ member)
    (r : JoinGroupRequest) (now : ℤ) : (g.join member r now).lastBeat m = g.lastBeat m := by
  rw [lastBeat, GroupMetadata.join, joinMembers]
  split
  next => rw [find?_touch_of_ne _ h, lastBeat]
  next => simp [List.find?_append, lastBeat, h.symm]

theorem lastBeat_assignMember_self (members : List MemberInfo) (a : SyncGroupAssignment)
    (now : ℤ) :
    ((assignMember members a now).find? (·.memberId = a.memberId)).map MemberInfo.lastHeartbeat =
      some (((members.find? (·.memberId = a.memberId)).map MemberInfo.lastHeartbeat).getD now) := by
  rw [assignMember, List.find?_upsertKey_self]
  · cases members.find? (·.memberId = a.memberId) <;> rfl
  · exact fun _ => rfl
  · rfl

/-- The assignment loop keeps the times of the members that are there. -/
theorem lastBeat_assign (g : GroupMetadata) (as : List SyncGroupAssignment) (now : ℕ → ℤ)
    (m : Bytes) : (g.assign as now).lastBeat m = (g.lastBeat m).or (listedAt as now m) := by
  have hloop : ∀ (members : List MemberInfo) (now : ℕ → ℤ),
      ((assignMembers members as now).find? (·.memberId = m)).map MemberInfo.lastHeartbeat =
        ((members.find? (·.memberId = m)).map MemberInfo.lastHeartbeat).or
          (listedAt as now m) := by
    induction as with
    | nil => simp [assignMembers, listedAt]
    | cons a as ih =>
      intro members now
      rw [assignMembers, ih, listedAt, listedAt, List.findIdx?_cons]
      by_cases hm : a.memberId = m
      · subst hm
        rw [lastBeat_assignMember_self]
        cases members.find? (·.memberId = a.memberId) <;> simp
      · rw [find?_assignMember_of_ne members (now 0) (Ne.symm hm)]
        simp [hm, Function.comp_def]
  exact hloop g.members now

/-- In a list without duplicate ids, a filter does not uncover another entry of a member. -/
theorem find?_filter_key {members : List MemberInfo}
    (hnd : (members.map MemberInfo.memberId).Nodup) {p : MemberInfo → Bool} {m : Bytes}
    {x : MemberInfo} (h : (members.filter p).find? (·.memberId = m) = some x) :
    members.find? (·.memberId = m) = some x ∧ p x := by
  obtain ⟨hin, hp⟩ := List.mem_filter.mp (List.mem_of_find?_eq_some h)
  have hm : x.memberId = m := by simpa using List.find?_some h
  subst hm
  exact ⟨List.find?_key_of_mem hnd hin, hp⟩

/-- What a filter drops does not pass it. -/
theorem not_of_not_mem_filter {members : List MemberInfo} {p : MemberInfo → Bool} {m : Bytes}
    {x : MemberInfo} (hx : members.find? (·.memberId = m) = some x)
    (h : m ∉ (members.filter p).map MemberInfo.memberId) : p x = false := by
  have hm : x.memberId = m := by simpa using List.find?_some hx
  rw [← Bool.not_eq_true]
  intro hp
  refine h (List.mem_map.mpr ⟨x, List.mem_filter.mpr ⟨List.mem_of_find?_eq_some hx, hp⟩, hm⟩)

theorem lastBeat_leave {g : GroupMetadata} (hnd : g.memberIds.Nodup) {member m : Bytes} {t : ℤ}
    (h : (g.afterErase (g.leaveMembers member)).lastBeat m = some t) : g.lastBeat m = some t := by
  rw [lastBeat, afterErase_members, Option.map_eq_some_iff] at h
  obtain ⟨x, hx, rfl⟩ := h
  rw [lastBeat, (find?_filter_key hnd hx).1, Option.map_some]

/-- A member that survives a Heartbeat has its old time, or the present one if it sent it. -/
theorem lastBeat_beat {g : GroupMetadata} (hnd : g.memberIds.Nodup) {member m : Bytes} {now t : ℤ}
    (h : (g.beat member now).lastBeat m = some t) :
    if m = member then t = now else g.lastBeat m = some t := by
  rw [lastBeat, GroupMetadata.beat, afterErase_members, Option.map_eq_some_iff] at h
  obtain ⟨x, hx, rfl⟩ := h
  have htouched := (find?_filter_key (by rw [map_memberId_touch]; exact hnd) hx).1
  split
  next hm =>
    subst hm
    rw [find?_touch_self, Option.map_eq_some_iff] at htouched
    obtain ⟨y, -, rfl⟩ := htouched
    rfl
  next hm =>
    rw [find?_touch_of_ne _ hm] at htouched
    rw [lastBeat, htouched, Option.map_some]

/-- Whoever is erased by a Heartbeat has been silent for longer than the timeout of the group;
the sender counts as just heard from. -/
theorem silent_of_erased {g : GroupMetadata} {member m : Bytes} {now : ℤ}
    (hm : m ∈ g.memberIds) (hm' : m ∉ (g.beat member now).memberIds) :
    ∃ t, (if m = member then t = now else g.lastBeat m = some t) ∧
      g.sessionTimeoutMs.toInt * 1000000 < now - t := by
  rw [memberIds, GroupMetadata.beat, afterErase_members, beatMembers] at hm'
  obtain ⟨x, hx⟩ := List.exists_find?_key hm
  split
  next heq =>
    subst heq
    have htouched : (touch g.members m now).find? (·.memberId = m) =
        some { x with lastHeartbeat := now } := by
      rw [find?_touch_self, hx, Option.map_some]
    have hexpired := not_of_not_mem_filter htouched hm'
    rw [Bool.not_eq_false', expired, decide_eq_true_eq] at hexpired
    exact ⟨now, rfl, hexpired⟩
  next hne =>
    have hexpired := not_of_not_mem_filter ((find?_touch_of_ne _ hne now).trans hx) hm'
    rw [Bool.not_eq_false', expired, decide_eq_true_eq] at hexpired
    exact ⟨x.lastHeartbeat, by rw [lastBeat, hx, Option.map_some], hexpired⟩

end GroupMetadata

/-! ### What the requests do to the times -/

/-- A Heartbeat is refused and changes nothing, or is accepted and works on the group. -/
theorem heartbeat_cases (c : GroupCoordinator) (r : HeartbeatRequest) (now : ℤ) :
    (¬ Accepted c (.heartbeat r now) ∧ groupMachine.next c (.heartbeat r now) = c) ∨
      (Accepted c (.heartbeat r now) ∧
        (groupMachine.next c (.heartbeat r now)).groupOrNew r.groupId =
          (c.groupOrNew r.groupId).beat r.memberId now) := by
  simp only [Accepted, Machine.out, Machine.next, groupMachine, Prod.map, handleHeartbeat]
  rcases hat : c.groupAt r.groupId r.generationId with _ | g
  · exact .inl ⟨by simp [GroupOutput.errorCode, heartbeatResponse], rfl⟩
  · dsimp only
    split
    · exact .inl ⟨by simp [GroupOutput.errorCode, heartbeatResponse], rfl⟩
    · refine .inr ⟨rfl, ?_⟩
      rw [groupOrNew_of_groupAt hat]
      exact groupOrNew_setGroup_self c _ _

/-- A SyncGroup is refused and changes nothing, or is accepted and runs the assignment loop. -/
theorem sync_cases (c : GroupCoordinator) (r : SyncGroupRequest) (now : ℕ → ℤ) :
    (¬ Accepted c (.sync r now) ∧ groupMachine.next c (.sync r now) = c) ∨
      (Accepted c (.sync r now) ∧
        ((groupMachine.next c (.sync r now)).groupOrNew r.groupId).members =
          ((c.groupOrNew r.groupId).assign r.assignments now).members) := by
  simp only [Accepted, Machine.out, Machine.next, groupMachine, Prod.map, handleSyncGroup]
  rcases hat : c.groupAt r.groupId r.generationId with _ | g
  · exact .inl ⟨by simp [GroupOutput.errorCode, syncResponse], rfl⟩
  · rw [groupOrNew_of_groupAt hat]
    dsimp only
    split
    · exact .inr ⟨rfl, congrArg members (groupOrNew_setGroup_self c _ _)⟩
    next hnil =>
      refine .inr ⟨rfl, ?_⟩
      rw [not_not] at hnil
      rw [hnil]
      have hsame : (c.groupOrNew r.groupId).members = g.members := by
        rw [groupOrNew_of_groupAt hat]
      exact hsame

theorem lastBeat_congr {g g' : GroupMetadata} (h : g.members = g'.members) (m : Bytes) :
    g.lastBeat m = g'.lastBeat m := by
  rw [lastBeat, lastBeat, h]

theorem signOfLife_of_ne {id : Bytes} {i : GroupInput} (h : id ≠ i.groupId) (m : Bytes)
    (c : GroupCoordinator) : signOfLife id m c i = none := by
  cases i with
  | join r now => exact if_neg fun hboth => h hboth.1.symm
  | sync r now => exact if_neg fun hboth => h hboth.1.symm
  | heartbeat r now => exact if_neg fun hboth => h hboth.1.symm
  | leave r => rfl
  | offsetCommit r => rfl
  | offsetFetch r => rfl

section Times

/-! A time that a request leaves in a member entry is that of the request, or was there. -/

variable {c : GroupCoordinator} {m : Bytes} {t : ℤ}

theorem lastBeat_next_join {r : JoinGroupRequest} {now : ℤ}
    (h : ((groupMachine.next c (.join r now)).groupOrNew r.groupId).lastBeat m = some t) :
    signOfLife r.groupId m c (.join r now) = some t ∨
      signOfLife r.groupId m c (.join r now) = none ∧
        (c.groupOrNew r.groupId).lastBeat m = some t := by
  rw [groupOrNew_next_join] at h
  by_cases hm : c.joinMember r = m
  · subst hm
    rw [lastBeat_join_self] at h
    exact .inl ((if_pos ⟨rfl, rfl⟩).trans h)
  · rw [lastBeat_join_of_ne _ (Ne.symm hm)] at h
    exact .inr ⟨if_neg fun hboth => hm hboth.2, h⟩

theorem lastBeat_next_sync {r : SyncGroupRequest} {now : ℕ → ℤ}
    (h : ((groupMachine.next c (.sync r now)).groupOrNew r.groupId).lastBeat m = some t) :
    signOfLife r.groupId m c (.sync r now) = some t ∨
      signOfLife r.groupId m c (.sync r now) = none ∧
        (c.groupOrNew r.groupId).lastBeat m = some t := by
  rcases sync_cases c r now with ⟨hrefused, hnext⟩ | ⟨hok, hmembers⟩
  · rw [hnext] at h
    exact .inr ⟨if_neg fun hboth => hrefused hboth.2.1, h⟩
  · rw [lastBeat_congr hmembers, lastBeat_assign] at h
    rcases hfind : (c.groupOrNew r.groupId).members.find? (·.memberId = m) with _ | x
    · rw [lastBeat, hfind, Option.map_none, Option.none_or] at h
      exact .inl ((if_pos ⟨rfl, hok, hfind⟩).trans h)
    · -- the loop gives a member that is there a new assignment only
      have hold : (c.groupOrNew r.groupId).lastBeat m = some x.lastHeartbeat := by
        rw [lastBeat, hfind, Option.map_some]
      have hthere : ¬ (c.groupOrNew r.groupId).members.find? (·.memberId = m) = none := by
        rw [hfind]
        exact Option.some_ne_none x
      rw [hold, Option.some_or] at h
      exact .inr ⟨if_neg fun hboth => hthere hboth.2.2, hold.trans h⟩

theorem lastBeat_next_heartbeat {r : HeartbeatRequest} {now : ℤ}
    (hwf : (c.groupOrNew r.groupId).WellFormed)
    (h : ((groupMachine.next c (.heartbeat r now)).groupOrNew r.groupId).lastBeat m = some t) :
    signOfLife r.groupId m c (.heartbeat r now) = some t ∨
      signOfLife r.groupId m c (.heartbeat r now) = none ∧
        (c.groupOrNew r.groupId).lastBeat m = some t := by
  rcases heartbeat_cases c r now with ⟨hrefused, hnext⟩ | ⟨hok, hbeat⟩
  · rw [hnext] at h
    exact .inr ⟨if_neg fun hboth => hrefused hboth.2.2, h⟩
  · rw [hbeat] at h
    have htime := lastBeat_beat hwf.nodup h
    split at htime
    next hm =>
      subst hm htime
      exact .inl (if_pos ⟨rfl, rfl, hok⟩)
    next hm => exact .inr ⟨if_neg fun hboth => hm hboth.2.1.symm, htime⟩

theorem lastBeat_next {id : Bytes} (hwf : (c.groupOrNew id).WellFormed) {i : GroupInput}
    (h : ((groupMachine.next c i).groupOrNew id).lastBeat m = some t) :
    signOfLife id m c i = some t ∨
      signOfLife id m c i = none ∧ (c.groupOrNew id).lastBeat m = some t := by
  by_cases hid : id = i.groupId
  · subst hid
    have hchange := groupChange_next c i i.groupId
    cases i with
    | join r now => exact lastBeat_next_join h
    | sync r now => exact lastBeat_next_sync h
    | heartbeat r now => exact lastBeat_next_heartbeat hwf h
    | leave r =>
      rw [GroupInput.groupId] at h hchange hwf ⊢
      generalize (groupMachine.next c (.leave r)).groupOrNew r.groupId = g' at h hchange
      cases hchange with
      | refl => exact .inr ⟨rfl, h⟩
      | leave => exact .inr ⟨rfl, lastBeat_leave hwf.nodup h⟩
    | offsetCommit r =>
      rw [GroupInput.groupId] at h hchange ⊢
      generalize (groupMachine.next c (.offsetCommit r)).groupOrNew r.groupId = g' at h hchange
      cases hchange with
      | refl => exact .inr ⟨rfl, h⟩
      | commit => exact .inr ⟨rfl, (lastBeat_congr (commitAll_members _ _) m).symm.trans h⟩
    | offsetFetch r =>
      rw [GroupInput.groupId] at h hchange ⊢
      generalize (groupMachine.next c (.offsetFetch r)).groupOrNew r.groupId = g' at h hchange
      cases hchange with
      | refl => exact .inr ⟨rfl, h⟩
  · rw [groupOrNew_next_of_ne c i hid] at h
    exact .inr ⟨signOfLife_of_ne hid m c, h⟩

end Times

/-- **The time in a member entry is that of the last sign of life.** -/
theorem getLast?_signOfLife {run : List GroupInput} {id m : Bytes} {t : ℤ}
    (h : ((groupMachine.exec {} run).groupOrNew id).lastBeat m = some t) :
    lastSignOfLife id m run = some t := by
  refine Machine.getLast?_observed (V := fun c => (c.groupOrNew id).lastBeat m)
    (I := fun c => (c.groupOrNew id).WellFormed) ?_ ?_ wellFormed_new rfl h
  · intro c i hwf
    exact (groupChange_next c i id).wellFormed hwf
  · intro c i a hwf
    exact lastBeat_next hwf

/-! ### Evictions -/

theorem lastSignOfLife_concat (id m : Bytes) (pre : List GroupInput) (i : GroupInput) :
    lastSignOfLife id m (pre ++ [i]) =
      (signOfLife id m (groupMachine.exec {} pre) i).or (lastSignOfLife id m pre) := by
  rw [lastSignOfLife, Machine.observed_append, lastSignOfLife, Machine.observed,
    Machine.observed, List.append_nil]
  cases signOfLife id m (groupMachine.exec {} pre) i <;> simp

/-- A Heartbeat that removes a member is accepted, and the group is its own. -/
theorem beat_of_removes {c : GroupCoordinator} {r : HeartbeatRequest} {now : ℤ} {id m : Bytes}
    (h : Removes c (.heartbeat r now) id m) :
    id = r.groupId ∧ Accepted c (.heartbeat r now) ∧
      m ∈ (c.groupOrNew r.groupId).memberIds ∧
        m ∉ ((c.groupOrNew r.groupId).beat r.memberId now).memberIds := by
  obtain ⟨hin, hout⟩ := h
  by_cases hid : id = r.groupId
  · subst hid
    rcases heartbeat_cases c r now with ⟨-, hnext⟩ | ⟨hok, hbeat⟩
    · rw [hnext] at hout
      exact absurd hin hout
    · exact ⟨rfl, hok, hin, hbeat ▸ hout⟩
  · rw [groupOrNew_next_of_ne c _ hid] at hout
    exact absurd hin hout

/-- **Whoever is removed by a Heartbeat** has been silent for longer than the timeout that the
group has then. -/
theorem silent_of_removes {pre : List GroupInput} {r : HeartbeatRequest} {now : ℤ} {id m : Bytes}
    (h : Removes (groupMachine.exec {} pre) (.heartbeat r now) id m) :
    ∃ t, lastSignOfLife id m (pre ++ [.heartbeat r now]) = some t ∧
      ((groupMachine.exec {} pre).groupOrNew id).sessionTimeoutMs.toInt * 1000000 < now - t := by
  obtain ⟨rfl, hok, hin, hout⟩ := beat_of_removes h
  obtain ⟨t, htime, hsilent⟩ := silent_of_erased hin hout
  refine ⟨t, ?_, hsilent⟩
  rw [lastSignOfLife_concat]
  split at htime
  next hm =>
    subst hm htime
    rw [signOfLife, if_pos ⟨rfl, rfl, hok⟩, Option.some_or]
  next hm =>
    rw [signOfLife, if_neg fun hboth => hm hboth.2.1.symm, Option.none_or]
    exact getLast?_signOfLife htime

/-- **When no eviction is premature**: when the timeout of the group covers those of its
members. -/
theorem noPrematureEviction_of_covered {run : List GroupInput} (h : TimeoutsCovered run) :
    NoPrematureEviction run where
  silent := by
    intro pre r now post id m hrun hremoves
    obtain ⟨rfl, hok, hin, -⟩ := beat_of_removes hremoves
    obtain ⟨t, htime, hsilent⟩ := silent_of_removes hremoves
    refine ⟨t, htime, fun timeout hown => ?_⟩
    have hle := (h pre r now post hrun hok).2 m hin timeout hown
    omega
  sender := by
    intro pre r now post hrun hok hremoves
    have hnonneg := (h pre r now post hrun hok).1
    obtain ⟨t, htime, hsilent⟩ := silent_of_removes hremoves
    rw [lastSignOfLife_concat, signOfLife, if_pos ⟨rfl, rfl, hok⟩, Option.some_or] at htime
    cases htime
    omega

/-! ### One timeout for all -/

/-- A JoinGroup asks for the session timeout `timeout`. -/
def GroupInput.AsksFor (timeout : Int32) : GroupInput → Prop
  | .join r _ => r.sessionTimeoutMs = timeout
  | _ => True

instance (timeout : Int32) : (i : GroupInput) → Decidable (i.AsksFor timeout)
  | .join _ _ => inferInstanceAs (Decidable (_ = _))
  | .sync _ _ => .isTrue trivial
  | .heartbeat _ _ => .isTrue trivial
  | .leave _ => .isTrue trivial
  | .offsetCommit _ => .isTrue trivial
  | .offsetFetch _ => .isTrue trivial

theorem sessionTimeoutMs_afterErase (g : GroupMetadata) (members : List MemberInfo) :
    (g.afterErase members).sessionTimeoutMs = g.sessionTimeoutMs := by
  rw [afterErase]
  split
  · rfl
  · split <;> rfl

/-- Only a JoinGroup changes the timeout of a group. -/
theorem GroupChange.sessionTimeoutMs {i : GroupInput} {g g' : GroupMetadata}
    (h : GroupChange i g g') :
    g'.sessionTimeoutMs = g.sessionTimeoutMs ∨
      ∃ r now, i = .join r now ∧ g'.sessionTimeoutMs = r.sessionTimeoutMs := by
  cases h with
  | refl => exact .inl rfl
  | join r now => exact .inr ⟨r, now, rfl, rfl⟩
  | assign => exact .inl rfl
  | beat => exact .inl (sessionTimeoutMs_afterErase _ _)
  | leave => exact .inl (sessionTimeoutMs_afterErase _ _)
  | commit r =>
    obtain ⟨offsets, hcommit⟩ := g.commitAll_eq r.topics
    exact .inl (by rw [hcommit])

/-- As long as every JoinGroup asks for `timeout`, a group has this timeout, or its default one
and no members who asked. -/
theorem sessionTimeoutMs_exec {timeout : Int32} {run : List GroupInput}
    (h : ∀ i ∈ run, i.AsksFor timeout) (id : Bytes) :
    ((groupMachine.exec {} run).groupOrNew id).sessionTimeoutMs = timeout ∨
      ((groupMachine.exec {} run).groupOrNew id).sessionTimeoutMs = 30000 ∧
        ∀ m, ownTimeout id m run = none := by
  induction run using List.reverseRecOn with
  | nil => exact .inr ⟨rfl, fun _ => rfl⟩
  | append_singleton run i ih =>
    have hrun := ih fun j hj => h j (List.mem_append_left _ hj)
    have hask := h i (List.mem_append_right _ (List.mem_singleton_self i))
    have hown : ∀ m, askedTimeout id m (groupMachine.exec {} run) i = none →
        ownTimeout id m (run ++ [i]) = ownTimeout id m run := by
      intro m hnone
      rw [ownTimeout, Machine.observed_append, Machine.observed, hnone, ownTimeout]
      simp [Machine.observed]
    rw [Machine.exec_append, Machine.exec_cons, Machine.exec_nil]
    by_cases hjoin : ∃ r now, i = .join r now ∧ r.groupId = id
    · obtain ⟨r, now, rfl, rfl⟩ := hjoin
      rw [groupOrNew_next_join]
      exact .inl hask
    · -- any other request leaves the timeout and asks for nothing in this group
      have hnone : ∀ m, askedTimeout id m (groupMachine.exec {} run) i = none := by
        intro m
        cases i with
        | join r now => exact if_neg fun hboth => hjoin ⟨r, now, rfl, hboth.1⟩
        | _ => rfl
      have hkeep :
          ((groupMachine.next (groupMachine.exec {} run) i).groupOrNew id).sessionTimeoutMs =
            ((groupMachine.exec {} run).groupOrNew id).sessionTimeoutMs := by
        rcases (groupChange_next (groupMachine.exec {} run) i id).sessionTimeoutMs with
          hsame | ⟨r, now, rfl, -⟩
        · exact hsame
        · have hne : id ≠ (GroupInput.join r now).groupId :=
            fun heq => hjoin ⟨r, now, rfl, heq.symm⟩
          rw [groupOrNew_next_of_ne _ _ hne]
      rw [hkeep]
      refine hrun.imp_right fun hdefault => ⟨hdefault.1, fun m => ?_⟩
      rw [hown m (hnone m), hdefault.2 m]

/-- What a member asked for is what all asked for. -/
theorem ownTimeout_eq {timeout : Int32} {run : List GroupInput}
    (h : ∀ i ∈ run, i.AsksFor timeout) {id m : Bytes} {own : Int32}
    (hown : ownTimeout id m run = some own) : own = timeout := by
  have hall : ∀ c, ∀ t ∈ groupMachine.observed (askedTimeout id m) c run, t = timeout := by
    clear hown
    induction run with
    | nil => exact fun c t ht => absurd ht List.not_mem_nil
    | cons i run ih =>
      intro c t ht
      rw [Machine.observed, List.mem_append] at ht
      rcases ht with ht | ht
      · have hask := h i List.mem_cons_self
        cases i with
        | join r now =>
          rw [askedTimeout] at ht
          split at ht
          next => exact (List.mem_singleton.mp ht).trans hask
          next => cases ht
        | _ => cases ht
      · exact ih (fun j hj => h j (List.mem_cons_of_mem i hj)) _ t ht
  exact hall _ own (List.mem_of_getLast? hown)

/-- One timeout for all members covers what each of them asked for. -/
theorem timeoutsCovered_of_uniform (timeout : Int32) (hnonneg : 0 ≤ timeout.toInt)
    {run : List GroupInput} (h : ∀ i ∈ run, i.AsksFor timeout) : TimeoutsCovered run := by
  rintro pre r now post rfl -
  have hpre : ∀ i ∈ pre, i.AsksFor timeout := fun i hi => h i (List.mem_append_left _ hi)
  rcases sessionTimeoutMs_exec hpre r.groupId with hsame | ⟨hdefault, hnone⟩
  · rw [hsame]
    refine ⟨hnonneg, fun m _ own hown => ?_⟩
    rw [ownTimeout_eq hpre hown]
  · rw [hdefault]
    refine ⟨by decide, fun m _ own hown => ?_⟩
    rw [hnone m] at hown
    cases hown

/-- Two members that ask for 30 seconds; after 40 seconds the second one sends a Heartbeat, which
removes the first one. -/
def silentMember : List GroupInput :=
  let h : RequestHeader := ⟨11, 0, 1⟩
  [.join ⟨h, ascii "g", 30000, ascii "a", ascii "consumer", []⟩ 0,
   .join ⟨h, ascii "g", 30000, ascii "b", ascii "consumer", []⟩ 0,
   .sync ⟨h, ascii "g", 1, ascii "a", [⟨ascii "a", []⟩, ⟨ascii "b", []⟩]⟩ fun _ => 0,
   .heartbeat ⟨h, ascii "g", 1, ascii "b", []⟩ 40000000000]

theorem noPrematureEviction_silentMember :
    Removes (groupMachine.exec {} (silentMember.take 3))
        (.heartbeat ⟨⟨11, 0, 1⟩, ascii "g", 1, ascii "b", []⟩ 40000000000) (ascii "g") (ascii "a") ∧
      NoPrematureEviction silentMember :=
  ⟨by decide, noPrematureEviction_of_covered
    (timeoutsCovered_of_uniform 30000 (by decide) (by decide))⟩

/-- The first member asks for 30 seconds, the second one for a tenth of a second, and sends a
Heartbeat after two tenths. -/
def shorterTimeoutJoins : List GroupInput :=
  let h : RequestHeader := ⟨11, 0, 1⟩
  [.join ⟨h, ascii "g", 30000, ascii "a", ascii "consumer", []⟩ 0,
   .join ⟨h, ascii "g", 100, ascii "b", ascii "consumer", []⟩ 0,
   .sync ⟨h, ascii "g", 1, ascii "a", [⟨ascii "a", []⟩, ⟨ascii "b", []⟩]⟩ fun _ => 0,
   .heartbeat ⟨h, ascii "g", 1, ascii "b", []⟩ 200000000]

/-- A member asks for a negative timeout and sends a Heartbeat at once. -/
def negativeTimeout : List GroupInput :=
  let h : RequestHeader := ⟨11, 0, 1⟩
  [.join ⟨h, ascii "g", -1, ascii "a", ascii "consumer", []⟩ 0,
   .sync ⟨h, ascii "g", 1, ascii "a", [⟨ascii "a", []⟩]⟩ fun _ => 0,
   .heartbeat ⟨h, ascii "g", 1, ascii "a", []⟩ 0]

/-- **Evictions can be premature**: a member goes by the timeout that another one asked for, and
the sender of a Heartbeat may remove itself. -/
theorem not_noPrematureEviction :
    ¬ NoPrematureEviction shorterTimeoutJoins ∧ ¬ NoPrematureEviction negativeTimeout := by
  constructor
  · intro h
    obtain ⟨t, htime, hsilent⟩ := h.silent (shorterTimeoutJoins.take 3)
      ⟨⟨11, 0, 1⟩, ascii "g", 1, ascii "b", []⟩ 200000000 [] (ascii "g") (ascii "a") rfl (by decide)
    have hzero : lastSignOfLife (ascii "g") (ascii "a") (shorterTimeoutJoins.take 3 ++
        [.heartbeat ⟨⟨11, 0, 1⟩, ascii "g", 1, ascii "b", []⟩ 200000000]) = some 0 := by decide
    rw [hzero] at htime
    cases htime
    exact absurd (hsilent 30000 (by decide)) (by decide)
  · intro h
    exact h.sender (negativeTimeout.take 2) ⟨⟨11, 0, 1⟩, ascii "g", 1, ascii "a", []⟩ 0 [] rfl
      (by decide) (by decide)

end TinyKafka
