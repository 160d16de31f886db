import TinyKafka.Broker.GroupFencing

/-!
# Which assignment a follower retrieves

A SyncGroup without assignments reads the assignment stored in the sender's member entry.
The entry is written by the SyncGroups that list the member and is **not** cleared when the
group moves to a new generation, nor does the handler ask for a `Stable` group, so a
follower that is faster than its leader reads what it was given under an earlier generation
(`not_noStaleAssignment_rebalance`).

`noStaleAssignment_of_fresh` says when the answer is the one of the current generation: the
member was admitted in it or has been listed in it, and no removal empties a group. The
argument is an invariant between the run so far and the stored entries (`AssignmentInv`):
within one generation nobody is removed, so what is stored is what was listed last.
-/

namespace TinyKafka

open GroupCoordinator GroupMetadata

/-! ### The assignment loop -/

/-- What a list of assignments gives member `m`: the last entry for it wins. -/
def listedIn (as : List SyncGroupAssignment) (m : Bytes) : Option Bytes :=
  (as.reverse.find? (·.memberId = m)).map SyncGroupAssignment.assignment

theorem listedIn_cons (a : SyncGroupAssignment) (as : List SyncGroupAssignment) (m : Bytes) :
    listedIn (a :: as) m =
      (listedIn as m).or (if a.memberId = m then some a.assignment else none) := by
  rw [listedIn, listedIn, List.reverse_cons, List.find?_append, Option.map_or]
  by_cases h : a.memberId = m
  · simp [h]
  · simp [h]

namespace GroupMetadata

/-- The assignment loop gives every listed member its last listed assignment and leaves the
others with theirs. -/
theorem map_assignment_find?_assignMembers (members : List MemberInfo)
    (as : List SyncGroupAssignment) (now : ℕ → ℤ) (m : Bytes) :
    ((assignMembers members as now).find? (·.memberId = m)).map MemberInfo.assignment =
      (listedIn as m).or ((members.find? (·.memberId = m)).map MemberInfo.assignment) := by
  induction as generalizing members now with
  | nil => rfl
  | cons a as ih =>
    rw [assignMembers, ih, listedIn_cons, Option.or_assoc]
    congr 1
    by_cases h : a.memberId = m
    · subst h
      rw [map_assignment_find?_assignMember_self]
      simp
    · rw [find?_assignMember_of_ne _ _ fun he => h he.symm]
      simp [h]

theorem assignmentOf_of_not_mem {g : GroupMetadata} {m : Bytes} (h : m ∉ g.memberIds) :
    g.assignmentOf m = [] := by
  rw [assignmentOf, List.find?_key_of_not_mem h]
  rfl

theorem assignmentOf_assign (g : GroupMetadata) (as : List SyncGroupAssignment) (now : ℕ → ℤ)
    (m : Bytes) :
    (g.assign as now).assignmentOf m = (listedIn as m).getD (g.assignmentOf m) := by
  rw [assignmentOf, assign, map_assignment_find?_assignMembers, assignmentOf]
  cases listedIn as m <;> rfl

/-- A listed member is a member afterwards. -/
theorem mem_memberIds_assign {g : GroupMetadata} {as : List SyncGroupAssignment}
    {now : ℕ → ℤ} {m a : Bytes} (h : listedIn as m = some a) :
    m ∈ (g.assign as now).memberIds := by
  by_contra hm
  have hnone : (assignMembers g.members as now).find? (·.memberId = m) = none :=
    List.find?_key_of_not_mem hm
  have hfind := map_assignment_find?_assignMembers g.members as now m
  rw [h, hnone] at hfind
  simp at hfind

end GroupMetadata

/-! ### Requests that assign nothing -/

/-- A change that is not an assignment leaves a non-member without an assignment, also when
it admits it. -/
theorem GroupChange.assignmentOf_of_not_mem {i : GroupInput} {g g' : GroupMetadata}
    (h : GroupChange i g g') (hquiet : ∀ r now, i = .sync r now → g' = g) {m : Bytes}
    (hm : m ∉ g.memberIds) : g'.assignmentOf m = [] := by
  have hfind : g.members.find? (·.memberId = m) = none := List.find?_key_of_not_mem hm
  cases h with
  | refl => exact GroupMetadata.assignmentOf_of_not_mem hm
  | join r now member =>
    rw [GroupMetadata.join, assignmentOf, joinMembers]
    dsimp only
    split
    · rw [map_assignment_find?_touch, hfind]
      rfl
    · rw [List.find?_append, hfind]
      by_cases hmem : member = m
      · simp [hmem]
      · simp [hmem]
  | assign r now =>
    rw [hquiet r now rfl]
    exact GroupMetadata.assignmentOf_of_not_mem hm
  | beat r now =>
    refine GroupMetadata.assignmentOf_of_not_mem fun hin => hm ?_
    rw [memberIds, GroupMetadata.beat, afterErase_members, beatMembers] at hin
    rw [memberIds, ← map_memberId_touch g.members r.memberId now]
    exact (List.filter_sublist.map _).subset hin
  | leave r =>
    refine GroupMetadata.assignmentOf_of_not_mem fun hin => hm ?_
    rw [memberIds, afterErase_members, leaveMembers] at hin
    exact (List.filter_sublist.map _).subset hin
  | commit r => simpa [assignmentOf] using GroupMetadata.assignmentOf_of_not_mem hm

/-- A change that is neither an assignment nor a new generation keeps the assignment of
every member that stays. -/
theorem GroupChange.assignmentOf_of_mem {i : GroupInput} {g g' : GroupMetadata}
    (h : GroupChange i g g') (hquiet : ∀ r now, i = .sync r now → g' = g)
    (hgen : g'.generation = g.generation) {m : Bytes} (hm : m ∈ g.memberIds)
    (hm' : m ∈ g'.memberIds) : g'.assignmentOf m = g.assignmentOf m := by
  have hne : g.generation + 1 ≠ g.generation := by grind
  cases h with
  | refl => rfl
  | join r now member =>
    rw [GroupMetadata.join, assignmentOf, assignmentOf, joinMembers]
    dsimp only
    split
    · rw [map_assignment_find?_touch]
    · rw [List.find?_append]
      rcases hfind : g.members.find? (·.memberId = m) with _ | a
      · exact absurd hm (List.find?_key_eq_none.mp hfind)
      · rw [hfind]
        rfl
  | assign r now => rw [hquiet r now rfl]
  | beat r now =>
    rcases g.afterErase_cases (g.beatMembers r.memberId now) with h | h | h
    · simp [memberIds, GroupMetadata.beat, h.1] at hm'
    · exact absurd (h.2.2.2.symm.trans hgen) hne
    · rw [GroupMetadata.beat, assignmentOf, afterErase_members,
        g.beatMembers_of_length r.memberId now h.2.1, map_assignment_find?_touch]
      rfl
  | leave r _ hlt =>
    rcases g.afterErase_cases (g.leaveMembers r.memberId) with h | h | h
    · simp [memberIds, h.1] at hm'
    · exact absurd (h.2.2.2.symm.trans hgen) hne
    · omega
  | commit r => simp [assignmentOf]

/-! ### Histories -/

/-- What a past request gave member `m` of group `id` under generation `γ`: it has to be an
accepted SyncGroup of that generation that listed the member. -/
def listedBy (id : Bytes) (γ : Int32) (m : Bytes) : GroupInput × GroupOutput → Option Bytes
  | (.sync r _, .sync a) =>
    if r.groupId = id ∧ r.generationId = γ ∧ a.errorCode = 0 then listedIn r.assignments m
    else none
  | _ => none

/-- What the latest such request of a history gave it. -/
def lastListed (id : Bytes) (γ : Int32) (m : Bytes) (h : List (GroupInput × GroupOutput)) :
    Option Bytes :=
  h.reverse.findSome? (listedBy id γ m)

theorem lastListed_concat (id : Bytes) (γ : Int32) (m : Bytes) (h) (e) :
    lastListed id γ m (h ++ [e]) = (listedBy id γ m e).or (lastListed id γ m h) := by
  rw [lastListed, List.reverse_append, List.reverse_singleton, List.singleton_append,
    List.findSome?_cons]
  cases listedBy id γ m e <;> rfl

/-- In the run, `m` was not a member of `id` before a step that ended in generation `γ`: it
has joined, if at all, in that generation. -/
def AdmittedIn (id m : Bytes) (γ : Int32) : GroupCoordinator → List GroupInput → Prop
  | _, [] => False
  | c, i :: is =>
    (m ∉ (c.groupOrNew id).memberIds ∧
      ((groupMachine.next c i).groupOrNew id).generation = γ) ∨
    AdmittedIn id m γ (groupMachine.next c i) is

instance decidableAdmittedIn (id m : Bytes) (γ : Int32) :
    (c : GroupCoordinator) → (is : List GroupInput) → Decidable (AdmittedIn id m γ c is)
  | _, [] => .isFalse not_false
  | c, i :: is =>
    have := decidableAdmittedIn id m γ (groupMachine.next c i) is
    inferInstanceAs (Decidable ((_ ∧ _) ∨ _))

theorem admittedIn_concat {id m : Bytes} {γ : Int32} {c : GroupCoordinator}
    {is : List GroupInput} {i : GroupInput} :
    AdmittedIn id m γ c (is ++ [i]) ↔ AdmittedIn id m γ c is ∨
      m ∉ ((groupMachine.exec c is).groupOrNew id).memberIds ∧
        ((groupMachine.next (groupMachine.exec c is) i).groupOrNew id).generation = γ := by
  induction is generalizing c with
  | nil => simp [AdmittedIn]
  | cons j is ih => simp only [List.cons_append, AdmittedIn, ih, Machine.exec_cons, or_assoc]

/-- A step either assigns in group `id`, and is then recorded as such, or assigns nothing
there and is not recorded. -/
theorem assigns_or_quiet (c : GroupCoordinator) (i : GroupInput) (id : Bytes) :
    (∃ r now, i = .sync r now ∧ r.groupId = id ∧
      r.generationId = (c.groupOrNew id).generation ∧
      (groupMachine.next c i).groupOrNew id = (c.groupOrNew id).assign r.assignments now ∧
      ∀ γ m, listedBy id γ m (i, groupMachine.out c i) =
        if r.generationId = γ then listedIn r.assignments m else none) ∨
    (∀ r now, i = .sync r now → (groupMachine.next c i).groupOrNew id = c.groupOrNew id) ∧
      ∀ γ m, listedBy id γ m (i, groupMachine.out c i) = none := by
  cases i with
  | sync r now =>
    by_cases hid : r.groupId = id
    · subst hid
      rcases hg : c.groupAt r.groupId r.generationId with _ | g
      · -- refused: an unknown group or a generation that is not current
        have hstep : groupMachine.step c (.sync r now) = (c, .sync (syncResponse r 82 [])) := by
          simp [groupMachine, handleSyncGroup, hg]
        refine .inr ⟨fun _ _ _ => by rw [Machine.next, hstep], fun γ m => ?_⟩
        rw [Machine.out, hstep, listedBy, if_neg]
        exact fun h => absurd h.2.2 (by simp [syncResponse])
      · by_cases has : r.assignments = []
        · -- a follower, which only asks
          have hstep : groupMachine.step c (.sync r now) =
              (c, .sync (syncResponse r 0 (g.assignmentOf r.memberId))) := by
            simp [groupMachine, handleSyncGroup, hg, has]
          refine .inr ⟨fun _ _ _ => by rw [Machine.next, hstep], fun γ m => ?_⟩
          rw [Machine.out, hstep, listedBy, has]
          simp [listedIn]
        · have hstep : groupMachine.step c (.sync r now) =
              (c.setGroup r.groupId (g.assign r.assignments now),
                .sync (syncResponse r 0
                  ((g.assign r.assignments now).assignmentOf r.memberId))) := by
            simp [groupMachine, handleSyncGroup, hg, has]
          refine .inl ⟨r, now, rfl, rfl, ?_, ?_, fun γ m => ?_⟩
          · rw [groupOrNew_of_groupAt hg]
            exact (groupAt_eq_some.mp hg).2.symm
          · rw [Machine.next, hstep, groupOrNew_setGroup_self, groupOrNew_of_groupAt hg]
          · rw [Machine.out, hstep, listedBy]
            simp [syncResponse]
    · refine .inr ⟨fun _ _ _ => ?_, fun γ m => ?_⟩
      · have hne : id ≠ (GroupInput.sync r now).groupId := fun he => hid he.symm
        rw [groupOrNew_next_of_ne c _ hne]
      · have hout : ∃ a, groupMachine.out c (.sync r now) = .sync a :=
          ⟨(c.handleSyncGroup r now).2, rfl⟩
        obtain ⟨a, ha⟩ := hout
        rw [ha, listedBy, if_neg fun h => hid h.1]
  | join r now => exact .inr ⟨by rintro _ _ ⟨⟩, fun _ _ => rfl⟩
  | heartbeat r now => exact .inr ⟨by rintro _ _ ⟨⟩, fun _ _ => rfl⟩
  | leave r => exact .inr ⟨by rintro _ _ ⟨⟩, fun _ _ => rfl⟩
  | offsetCommit r => exact .inr ⟨by rintro _ _ ⟨⟩, fun _ _ => rfl⟩
  | offsetFetch r => exact .inr ⟨by rintro _ _ ⟨⟩, fun _ _ => rfl⟩

/-! ### The invariant -/

/-- What the stored entries of group `id` say about the history `h` that led to them. -/
structure AssignmentInv (h : List (GroupInput × GroupOutput)) (c : GroupCoordinator)
    (id : Bytes) : Prop where
  /-- Nothing has been listed under a later generation. -/
  future : ∀ γ m, (c.groupOrNew id).generation.toInt < γ.toInt → lastListed id γ m h = none
  /-- Nobody has been admitted in a later generation. -/
  past : ∀ γ m, AdmittedIn id m γ {} (h.map Prod.fst) →
    γ.toInt ≤ (c.groupOrNew id).generation.toInt
  /-- Only members have been listed under the current generation. -/
  absent : ∀ m, m ∉ (c.groupOrNew id).memberIds →
    lastListed id (c.groupOrNew id).generation m h = none
  /-- What was listed last under the current generation is stored. -/
  listed : ∀ m a, lastListed id (c.groupOrNew id).generation m h = some a →
    (c.groupOrNew id).assignmentOf m = a
  /-- A member admitted in the current generation and not listed yet has no assignment. -/
  admitted : ∀ m, AdmittedIn id m (c.groupOrNew id).generation {} (h.map Prod.fst) →
    lastListed id (c.groupOrNew id).generation m h = none →
    (c.groupOrNew id).assignmentOf m = []

theorem AssignmentInv.init (id : Bytes) : AssignmentInv [] {} id where
  future _ _ _ := rfl
  past _ _ h := h.elim
  absent _ _ := rfl
  listed _ _ h := nomatch h
  admitted _ h := h.elim

/-- A steady step that keeps the generation keeps every member. -/
theorem mem_next_of_steady {c : GroupCoordinator} {i : GroupInput} {id m : Bytes}
    (hok : SteadyStep c i) (hgen : ((groupMachine.next c i).groupOrNew id).generation =
      (c.groupOrNew id).generation) (hm : m ∈ (c.groupOrNew id).memberIds) :
    m ∈ ((groupMachine.next c i).groupOrNew id).memberIds := by
  by_contra hm'
  have hbump := (generation_of_removes hok.1 ⟨hm, hm'⟩).2
  have hne : (c.groupOrNew id).generation + 1 ≠ (c.groupOrNew id).generation := by grind
  exact hne (hbump.symm.trans hgen)

/-- The invariant survives a SyncGroup that assigns. -/
private theorem AssignmentInv.step_assigns {h : List (GroupInput × GroupOutput)}
    {c : GroupCoordinator} {id : Bytes} (inv : AssignmentInv h c id)
    (hc : groupMachine.exec {} (h.map Prod.fst) = c) {i : GroupInput} {r : SyncGroupRequest}
    {now : ℕ → ℤ} (hr : r.generationId = (c.groupOrNew id).generation)
    (hnext : (groupMachine.next c i).groupOrNew id = (c.groupOrNew id).assign r.assignments now)
    (hby : ∀ γ m, listedBy id γ m (i, groupMachine.out c i) =
      if r.generationId = γ then listedIn r.assignments m else none) :
    AssignmentInv (h ++ [(i, groupMachine.out c i)]) (groupMachine.next c i) id := by
  have hgen : ((groupMachine.next c i).groupOrNew id).generation =
      (c.groupOrNew id).generation := by rw [hnext]; rfl
  have hlast : ∀ m, lastListed id (c.groupOrNew id).generation m
      (h ++ [(i, groupMachine.out c i)]) =
      (listedIn r.assignments m).or (lastListed id (c.groupOrNew id).generation m h) := by
    intro m
    rw [lastListed_concat, hby, if_pos hr]
  refine ⟨fun γ m hlt => ?_, fun γ m hadm => ?_, fun m hm => ?_, fun m a hl => ?_,
    fun m hadm hl => ?_⟩
  · rw [hgen] at hlt
    have hne : r.generationId ≠ γ := fun he => by rw [← hr, he] at hlt; omega
    rw [lastListed_concat, hby, if_neg hne, Option.none_or, inv.future γ m hlt]
  · rw [List.map_append, List.map_singleton, admittedIn_concat, hc, hgen] at hadm
    rw [hgen]
    rcases hadm with hadm | ⟨-, rfl⟩
    · exact inv.past γ m hadm
    · exact le_rfl
  · rw [hgen, hlast]
    have hin : listedIn r.assignments m = none := by
      by_contra hsome
      obtain ⟨a, ha⟩ := Option.ne_none_iff_exists'.mp hsome
      exact hm (hnext ▸ mem_memberIds_assign ha)
    have hold : m ∉ (c.groupOrNew id).memberIds := fun hin =>
      hm (hnext ▸ memberId_assignMembers_subset _ _ _ hin)
    rw [hin, Option.none_or, inv.absent m hold]
  · rw [hgen, hlast] at hl
    rw [hnext, assignmentOf_assign]
    rcases hin : listedIn r.assignments m with _ | b
    · rw [hin, Option.none_or] at hl
      exact inv.listed m a hl
    · rw [hin, Option.some_or, Option.some_inj] at hl
      exact hl
  · rw [hgen, hlast] at hl
    obtain ⟨hin, hl⟩ := Option.or_eq_none_iff.mp hl
    rw [hnext, assignmentOf_assign, hin, Option.getD_none]
    rw [List.map_append, List.map_singleton, admittedIn_concat, hc, hgen] at hadm
    rcases hadm with hadm | ⟨hm, -⟩
    · exact inv.admitted m hadm hl
    · exact assignmentOf_of_not_mem hm

/-- The invariant survives every other steady step. -/
private theorem AssignmentInv.step_quiet {h : List (GroupInput × GroupOutput)}
    {c : GroupCoordinator} {id : Bytes} (inv : AssignmentInv h c id)
    (hc : groupMachine.exec {} (h.map Prod.fst) = c) {i : GroupInput} (hok : SteadyStep c i)
    (hquiet : ∀ r now, i = .sync r now →
      (groupMachine.next c i).groupOrNew id = c.groupOrNew id)
    (hby : ∀ γ m, listedBy id γ m (i, groupMachine.out c i) = none) :
    AssignmentInv (h ++ [(i, groupMachine.out c i)]) (groupMachine.next c i) id := by
  have hchange := groupChange_next c i id
  have hle := generation_le_next hok.2 id
  have hlast : ∀ γ m, lastListed id γ m (h ++ [(i, groupMachine.out c i)]) =
      lastListed id γ m h := by
    intro γ m
    rw [lastListed_concat, hby, Option.none_or]
  -- under a new generation nothing has been listed
  have hnew : ∀ m, lastListed id ((groupMachine.next c i).groupOrNew id).generation m h ≠ none →
      ((groupMachine.next c i).groupOrNew id).generation = (c.groupOrNew id).generation := by
    intro m hsome
    by_contra hne
    have hne' := mt Int32.toInt_inj.mp hne
    exact hsome (inv.future _ m (by omega))
  refine ⟨fun γ m hlt => ?_, fun γ m hadm => ?_, fun m hm => ?_, fun m a hl => ?_,
    fun m hadm hl => ?_⟩
  · rw [hlast]
    exact inv.future γ m (by omega)
  · rw [List.map_append, List.map_singleton, admittedIn_concat, hc] at hadm
    rcases hadm with hadm | ⟨-, rfl⟩
    · exact (inv.past γ m hadm).trans hle
    · exact le_rfl
  · rw [hlast]
    by_contra hsome
    have hgen := hnew m hsome
    have hold : m ∉ (c.groupOrNew id).memberIds := fun hin =>
      hm (mem_next_of_steady hok hgen hin)
    rw [hgen] at hsome
    exact hsome (inv.absent m hold)
  · rw [hlast] at hl
    have hgen := hnew m (by rw [hl]; simp)
    rw [hgen] at hl
    have hm : m ∈ (c.groupOrNew id).memberIds := by
      by_contra hm
      rw [inv.absent m hm] at hl
      cases hl
    rw [hchange.assignmentOf_of_mem hquiet hgen hm (mem_next_of_steady hok hgen hm)]
    exact inv.listed m a hl
  · rw [hlast] at hl
    rw [List.map_append, List.map_singleton, admittedIn_concat, hc] at hadm
    by_cases hm : m ∈ (c.groupOrNew id).memberIds
    · rcases hadm with hadm | ⟨habs, -⟩
      · have hgen : ((groupMachine.next c i).groupOrNew id).generation =
            (c.groupOrNew id).generation :=
          Int32.toInt_inj.mp (le_antisymm (inv.past _ m hadm) hle)
        rw [hchange.assignmentOf_of_mem hquiet hgen hm (mem_next_of_steady hok hgen hm)]
        exact inv.admitted m (hgen ▸ hadm) (hgen ▸ hl)
      · exact absurd hm habs
    · exact hchange.assignmentOf_of_not_mem hquiet hm

/-- The invariant holds for every group after every steady run. -/
theorem AssignmentInv.of_run {run : List GroupInput}
    (hw : groupMachine.Within SteadyStep {} run) (id : Bytes) :
    AssignmentInv (groupMachine.trace {} run) (groupMachine.exec {} run) id := by
  have hstep : ∀ (h : List (GroupInput × GroupOutput)) (c : GroupCoordinator) (i : GroupInput),
      groupMachine.exec {} (h.map Prod.fst) = c ∧ AssignmentInv h c id → SteadyStep c i →
      groupMachine.exec {} ((h ++ [(i, groupMachine.out c i)]).map Prod.fst) =
        groupMachine.next c i ∧
      AssignmentInv (h ++ [(i, groupMachine.out c i)]) (groupMachine.next c i) id := by
    rintro h c i ⟨hc, inv⟩ hok
    refine ⟨by simp [hc], ?_⟩
    rcases assigns_or_quiet c i id with ⟨r, now, -, -, hr, hnext, hby⟩ | ⟨hquiet, hby⟩
    · exact inv.step_assigns hc hr hnext hby
    · exact inv.step_quiet hc hok hquiet hby
  have hrun := Machine.invariant_trace hstep (h := []) ⟨rfl, AssignmentInv.init id⟩ hw
  simpa using hrun.2

/-! ### Retrieval -/

/-- **A follower's answer is of its generation**, over a run from the empty coordinator: an
accepted SyncGroup without assignments returns what the accepted SyncGroups of the same
group and generation listed last for its sender, and nothing when there are none. -/
def NoStaleAssignment (run : List GroupInput) : Prop :=
  ∀ (pre : List GroupInput) (r : SyncGroupRequest) (now : ℕ → ℤ) (post : List GroupInput),
    run = pre ++ .sync r now :: post → r.assignments = [] →
    ∀ a, groupMachine.out (groupMachine.exec {} pre) (.sync r now) = .sync a →
      a.errorCode = 0 →
      a.assignment =
        (lastListed r.groupId r.generationId r.memberId (groupMachine.trace {} pre)).getD []

/-- The request is steady and, if it is a SyncGroup without assignments under the generation
of its group, its sender is no member, or was admitted in this generation, or has been
listed in it. -/
def FreshFollower (h : List (GroupInput × GroupOutput)) (c : GroupCoordinator)
    (i : GroupInput) : Prop :=
  SteadyStep c i ∧
    match i with
    | .sync r _ =>
      r.assignments = [] → (c.groupOrNew r.groupId).generation = r.generationId →
        r.memberId ∉ (c.groupOrNew r.groupId).memberIds ∨
        AdmittedIn r.groupId r.memberId r.generationId {} (h.map Prod.fst) ∨
        lastListed r.groupId r.generationId r.memberId h ≠ none
    | _ => True

instance (h : List (GroupInput × GroupOutput)) (c : GroupCoordinator) :
    (i : GroupInput) → Decidable (FreshFollower h c i)
  | .sync _ _ => inferInstanceAs (Decidable (_ ∧ (_ → _ → _ ∨ _ ∨ _)))
  | .leave _ | .heartbeat _ _ | .join _ _ | .offsetCommit _ | .offsetFetch _ =>
    inferInstanceAs (Decidable (_ ∧ True))

/-- A SyncGroup is accepted under the generation of its group only, and answers with what is
stored for its sender after it. -/
theorem out_sync {c : GroupCoordinator} {r : SyncGroupRequest} {now : ℕ → ℤ}
    {a : SyncGroupResponse} (hout : groupMachine.out c (.sync r now) = .sync a)
    (herr : a.errorCode = 0) :
    (c.groupOrNew r.groupId).generation = r.generationId ∧
      a.assignment = ((groupMachine.next c (.sync r now)).groupOrNew r.groupId).assignmentOf
        r.memberId := by
  have ha : (c.handleSyncGroup r now).2 = a := GroupOutput.sync.inj hout
  have hnext : groupMachine.next c (.sync r now) = (c.handleSyncGroup r now).1 := rfl
  subst ha
  rcases hg : c.groupAt r.groupId r.generationId with _ | g
  · simp [handleSyncGroup, hg, syncResponse] at herr
  · refine ⟨?_, ?_⟩
    · rw [groupOrNew_of_groupAt hg]
      exact (groupAt_eq_some.mp hg).2
    · rw [hnext]
      by_cases has : r.assignments = []
      · simp [handleSyncGroup, hg, has, syncResponse, groupOrNew_of_groupAt hg]
      · simp [handleSyncGroup, hg, has, syncResponse, groupOrNew_setGroup_self]

/-- A SyncGroup without assignments changes nothing. -/
theorem next_follower {c : GroupCoordinator} {r : SyncGroupRequest} {now : ℕ → ℤ}
    (has : r.assignments = []) : groupMachine.next c (.sync r now) = c := by
  have hnext : groupMachine.next c (.sync r now) = (c.handleSyncGroup r now).1 := rfl
  rw [hnext, handleSyncGroup]
  split
  · rfl
  · rw [if_neg (not_not.mpr has)]

/-- If every follower asks after it was admitted or listed in the generation it asks under,
no removal empties a group and no generation overflows, then no follower retrieves an
assignment of another generation. -/
theorem noStaleAssignment_of_fresh {run : List GroupInput}
    (hw : groupMachine.WithinTrace FreshFollower [] {} run) : NoStaleAssignment run := by
  rintro pre r now post rfl has a hout herr
  rw [Machine.withinTrace_append] at hw
  obtain ⟨hpre, ⟨-, hfresh⟩, -⟩ := hw
  have inv := AssignmentInv.of_run (hpre.within fun _ _ _ h => h.1) r.groupId
  obtain ⟨hgen, hstored⟩ := out_sync hout herr
  rw [hstored, next_follower has, ← hgen]
  rcases hl : lastListed r.groupId (((groupMachine.exec {} pre).groupOrNew r.groupId).generation)
    r.memberId (groupMachine.trace {} pre) with _ | b
  · -- not listed yet, so there is nothing to retrieve
    have hcase := hfresh has hgen
    rw [List.nil_append, ← hgen] at hcase
    rcases hcase with hm | hadm | hne
    · exact assignmentOf_of_not_mem hm
    · exact inv.admitted _ hadm hl
    · exact absurd hl hne
  · exact inv.listed _ b hl

/-- Two members join, the first one assigns for both and the second one retrieves. -/
def leaderThenFollower : List GroupInput :=
  let h : RequestHeader := ⟨14, 0, 1⟩
  [.join ⟨h, ascii "g", 30000, ascii "a", ascii "consumer", []⟩ 0,
   .join ⟨h, ascii "g", 30000, ascii "b", ascii "consumer", []⟩ 0,
   .sync ⟨h, ascii "g", 1, ascii "a", [⟨ascii "a", [1]⟩, ⟨ascii "b", [2]⟩]⟩ fun _ => 0,
   .sync ⟨h, ascii "g", 1, ascii "b", []⟩ fun _ => 0]

theorem noStaleAssignment_leaderThenFollower :
    groupMachine.WithinTrace FreshFollower [] {} leaderThenFollower ∧
      NoStaleAssignment leaderThenFollower :=
  ⟨by decide, noStaleAssignment_of_fresh (by decide)⟩

/-- A member is assigned under generation `1`; a second member joins and opens generation
`2`; the first one asks under generation `2` before anybody has assigned in it. -/
def retrievesAfterRebalance : List GroupInput :=
  let h : RequestHeader := ⟨14, 0, 1⟩
  [.join ⟨h, ascii "g", 30000, ascii "a", ascii "consumer", []⟩ 0,
   .sync ⟨h, ascii "g", 1, ascii "a", [⟨ascii "a", [1]⟩]⟩ fun _ => 0,
   .join ⟨h, ascii "g", 30000, ascii "b", ascii "consumer", []⟩ 0,
   .sync ⟨h, ascii "g", 2, ascii "a", []⟩ fun _ => 0]

/-- **A stale assignment is returned**: the entry of generation `1` answers a request of
generation `2`. -/
theorem not_noStaleAssignment_rebalance : ¬ NoStaleAssignment retrievesAfterRebalance := by
  intro h
  have hstale := h (retrievesAfterRebalance.take 3) ⟨⟨14, 0, 1⟩, ascii "g", 2, ascii "a", []⟩
    (fun _ => 0) [] rfl rfl _ rfl (by decide)
  exact absurd hstale (by decide)

end TinyKafka
