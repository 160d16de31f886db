import TinyKafka.Broker.GroupStructure
import TinyKafka.Broker.GroupFencing

/-!
# Generations and their leaders

A generation number stands for one membership of a group: it moves up when a `Stable` group
is rebalanced and stays while a rebalance collects its members (`generation_discipline`),
and Heartbeat and SyncGroup are accepted under the current number only.

One generation should have one leader. The leader of a JoinGroup response is the first
member, and a first member leaves its place in two ways: others survive it, and the removal
opens a new generation; or it was the last one, and the emptied group **keeps its
generation**. The next JoinGroup then takes the first place in a generation that already had
a leader (`not_oneLeaderPerGeneration_revived`). `oneLeaderPerGeneration_of_occupied` covers
the runs in which no JoinGroup revives an emptied group; a SyncGroup may, because it leaves
the group `Stable` and the next JoinGroup moves on to a new generation.
-/

namespace TinyKafka

open GroupCoordinator GroupMetadata

/-! ### The generation discipline -/

/-- A request that sends a `Stable` group back to `AwaitingSync` opens a new generation. -/
theorem GroupChange.generation_of_rebalance {i : GroupInput} {g g' : GroupMetadata}
    (h : GroupChange i g g') (hst : g.state = .stable) (hst' : g'.state = .awaitingSync) :
    g'.generation = g.generation + 1 := by
  cases h with
  | refl => simp [hst] at hst'
  | join r now member =>
    simp only [GroupMetadata.join, joinGeneration, hst, if_true]
    split
    next h0 =>
      rw [h0]
      rfl
    next => rfl
  | assign => simp [GroupMetadata.assign] at hst'
  | beat r now => exact generation_afterErase_of_awaitingSync hst hst'
  | leave r => exact generation_afterErase_of_awaitingSync hst hst'
  | commit r => simp [hst] at hst'

/-- A JoinGroup that meets a rebalance under way joins its generation. -/
theorem joinGeneration_of_awaitingSync {g : GroupMetadata} (hst : g.state = .awaitingSync)
    (hgen : g.generation ≠ 0) : g.joinGeneration = g.generation := by
  rw [joinGeneration, if_neg hgen, hst, if_neg (by simp)]

/-- A Heartbeat or SyncGroup is answered without an error only under the generation that the
group has when the request is taken up. -/
theorem groups_of_errorCode_eq_zero {c : GroupCoordinator} {i : GroupInput} {id m : Bytes}
    {γ : Int32} (hsent : i.SentBy id m γ) (hok : (groupMachine.out c i).errorCode = 0) :
    ∃ g, c.groups id = some g ∧ g.generation = γ := by
  suffices hsome : c.groupAt id γ ≠ none by
    obtain ⟨g, hg⟩ := Option.ne_none_iff_exists'.mp hsome
    exact ⟨g, groupAt_eq_some.mp hg⟩
  intro hnone
  exact errorCode_out_of_groupAt_eq_none hsent hnone hok

/-- **The generation discipline**, at every request `i` of a run within the bound: no
generation is ever lowered; a request that takes a group from `Stable` to `AwaitingSync`
raises its generation; a JoinGroup to a group in `AwaitingSync` with generation at least `1`
leaves it; and a Heartbeat or SyncGroup with error code `0` was sent under the generation of
the stored group. -/
theorem generation_discipline (run : List GroupInput)
    (hw : groupMachine.Within GenerationBounded {} run) (pre : List GroupInput)
    (i : GroupInput) (post : List GroupInput) (hrun : run = pre ++ i :: post) (id : Bytes) :
    ((groupMachine.exec {} pre).groupOrNew id).generation.toInt ≤
      ((groupMachine.exec {} (pre ++ [i])).groupOrNew id).generation.toInt ∧
    (((groupMachine.exec {} pre).groupOrNew id).state = .stable →
      ((groupMachine.exec {} (pre ++ [i])).groupOrNew id).state = .awaitingSync →
      ((groupMachine.exec {} pre).groupOrNew id).generation.toInt <
        ((groupMachine.exec {} (pre ++ [i])).groupOrNew id).generation.toInt) ∧
    (∀ r now, i = .join r now → r.groupId = id →
      ((groupMachine.exec {} pre).groupOrNew id).state = .awaitingSync →
      1 ≤ ((groupMachine.exec {} pre).groupOrNew id).generation.toInt →
      ((groupMachine.exec {} (pre ++ [i])).groupOrNew id).generation =
        ((groupMachine.exec {} pre).groupOrNew id).generation) ∧
    (∀ m γ, i.SentBy id m γ →
      (groupMachine.out (groupMachine.exec {} pre) i).errorCode = 0 →
      ∃ g, (groupMachine.exec {} pre).groups id = some g ∧ g.generation = γ) := by
  have hbound : GenerationBounded (groupMachine.exec {} pre) i :=
    groupMachine.within_iff.mp hw pre i post hrun
  rw [Machine.exec_append, Machine.exec_cons, Machine.exec_nil]
  generalize groupMachine.exec {} pre = c at hbound ⊢
  refine ⟨generation_le_next hbound id, ?_, ?_, ?_⟩
  · intro hst hst'
    have hgen := (groupChange_next c i id).generation_of_rebalance hst hst'
    -- only the group the request is addressed to changes, and that one is bounded
    have hid : id = i.groupId := by
      by_contra hne
      rw [groupOrNew_next_of_ne c i hne, hst] at hst'
      cases hst'
    subst hid
    rw [hgen, toInt_succ_of_ne_max hbound]
    omega
  · rintro r now rfl rfl hst hge
    have hne : (c.groupOrNew r.groupId).generation ≠ 0 := fun h0 => by simp [h0] at hge
    rw [groupOrNew_next_join]
    exact joinGeneration_of_awaitingSync hst hne
  · intro m γ hsent hok
    exact groups_of_errorCode_eq_zero hsent hok

/-- A group is joined, synced into `Stable` and joined by a second member. -/
def rebalanceByJoin : List GroupInput :=
  let h : RequestHeader := ⟨11, 0, 1⟩
  [.join ⟨h, ascii "g", 30000, ascii "a", ascii "consumer", []⟩ 0,
   .sync ⟨h, ascii "g", 1, ascii "a", [⟨ascii "a", [7]⟩]⟩ fun _ => 0,
   .join ⟨h, ascii "g", 30000, ascii "b", ascii "consumer", []⟩ 0]

theorem generation_discipline_rebalanceByJoin :
    groupMachine.Within GenerationBounded {} rebalanceByJoin ∧
    ((groupMachine.exec {} (rebalanceByJoin.take 2)).groupOrNew (ascii "g")).generation.toInt <
      ((groupMachine.exec {} rebalanceByJoin).groupOrNew (ascii "g")).generation.toInt :=
  ⟨by decide,
    (generation_discipline rebalanceByJoin (by decide) (rebalanceByJoin.take 2)
      (.join ⟨⟨11, 0, 1⟩, ascii "g", 30000, ascii "b", ascii "consumer", []⟩ 0) [] rfl
      (ascii "g")).2.1 (by decide) (by decide)⟩

/-! ### One leader per generation -/

/-- The JoinGroup response for group `id` that a request and its answer amount to, if any. -/
def joinAnswer (id : Bytes) : GroupInput × GroupOutput → Option JoinGroupResponse
  | (.join r _, .join resp) => if r.groupId = id then some resp else none
  | _ => none

/-- The JoinGroup responses for group `id` in a history. -/
def joinAnswers (id : Bytes) (h : List (GroupInput × GroupOutput)) : List JoinGroupResponse :=
  h.filterMap (joinAnswer id)

/-- **One leader per generation**, over a run from the empty coordinator: any two JoinGroup
responses for one group with the same generation name the same leader. -/
def OneLeaderPerGeneration (run : List GroupInput) : Prop :=
  ∀ id, ∀ a ∈ joinAnswers id (groupMachine.trace {} run),
    ∀ b ∈ joinAnswers id (groupMachine.trace {} run),
      a.generationId = b.generationId → a.leader = b.leader

/-- A JoinGroup that finds its group without members finds it at generation `0`: it may found
a group, but not revive one that has been emptied. -/
def JoinsOccupied (c : GroupCoordinator) : GroupInput → Prop
  | .join r _ =>
    (c.groupOrNew r.groupId).members = [] → (c.groupOrNew r.groupId).generation = 0
  | _ => True

instance (c : GroupCoordinator) : (i : GroupInput) → Decidable (JoinsOccupied c i)
  | .join _ _ => inferInstanceAs (Decidable (_ → _))
  | .sync _ _ => .isTrue trivial
  | .heartbeat _ _ => .isTrue trivial
  | .leave _ => .isTrue trivial
  | .offsetCommit _ => .isTrue trivial
  | .offsetFetch _ => .isTrue trivial

/-- No JoinGroup revives an emptied group and no generation overflows. -/
def LeaderStep (c : GroupCoordinator) (i : GroupInput) : Prop :=
  JoinsOccupied c i ∧ GenerationBounded c i

instance (c : GroupCoordinator) (i : GroupInput) : Decidable (LeaderStep c i) :=
  inferInstanceAs (Decidable (_ ∧ _))

/-- A request that leaves a group in `AwaitingSync` under the generation it had found it
there, and with the same first member. -/
theorem GroupChange.head?_of_generation {i : GroupInput} {g g' : GroupMetadata}
    (h : GroupChange i g g') (hwf : g.WellFormed)
    (hocc : ∀ r now, i = .join r now → g.members = [] → g.generation = 0)
    (hgen : g'.generation = g.generation) (hst' : g'.state = .awaitingSync) :
    g.state = .awaitingSync ∧
      ∀ m, g.memberIds.head? = some m → g'.memberIds.head? = some m := by
  have hne : g.generation + 1 ≠ g.generation := by grind
  cases h with
  | refl => exact ⟨hst', fun m hm => hm⟩
  | join r now member =>
    -- neither of the two places that move the generation was reached
    have h0 : g.generation ≠ 0 := by
      intro h0
      rw [GroupMetadata.join, joinGeneration, if_pos h0, h0] at hgen
      cases hgen
    have hstable : g.state ≠ .stable := by
      intro hst
      rw [GroupMetadata.join, joinGeneration, if_neg h0, if_pos hst] at hgen
      exact hne hgen
    have hempty : g.state ≠ .empty := fun hst =>
      h0 (hocc r now rfl (hwf.empty_iff.mp hst))
    constructor
    · cases hst : g.state with
      | awaitingSync => rfl
      | empty => exact absurd hst hempty
      | stable => exact absurd hst hstable
      | dead => exact absurd hst hwf.ne_dead
    · intro m hm
      rw [memberIds_join]
      split
      · exact hm
      · rw [List.head?_append, hm, Option.some_or]
  | assign => simp [GroupMetadata.assign] at hst'
  | beat r now _ _ hst =>
    exact absurd ((generation_afterErase_of_awaitingSync hst hst').symm.trans hgen) hne
  | leave r _ hlt =>
    rcases g.afterErase_cases (g.leaveMembers r.memberId) with h | h | h
    · simp [h.2.1] at hst'
    · exact absurd (h.2.2.2.symm.trans hgen) hne
    · omega
  | commit r =>
    rw [commitAll_state] at hst'
    exact ⟨hst', fun m hm => by simpa [memberIds] using hm⟩

/-- What ties the JoinGroup responses given so far to the group as it stands. -/
structure LeaderInv (id : Bytes) (h : List (GroupInput × GroupOutput))
    (c : GroupCoordinator) : Prop where
  wellFormed : (c.groupOrNew id).WellFormed
  /-- No response is ahead of the group. -/
  bound : ∀ a ∈ joinAnswers id h,
    a.generationId.toInt ≤ (c.groupOrNew id).generation.toInt
  /-- While a rebalance is under way its responses name the first member. -/
  current : ∀ a ∈ joinAnswers id h, a.generationId = (c.groupOrNew id).generation →
    (c.groupOrNew id).state = .awaitingSync →
    (c.groupOrNew id).memberIds.head? = some a.leader
  agree : ∀ a ∈ joinAnswers id h, ∀ b ∈ joinAnswers id h,
    a.generationId = b.generationId → a.leader = b.leader

theorem leaderInv_nil (id : Bytes) : LeaderInv id [] {} where
  wellFormed := wellFormed_new
  bound a ha := by simp [joinAnswers] at ha
  current a ha := by simp [joinAnswers] at ha
  agree a ha := by simp [joinAnswers] at ha

/-- A request adds to the JoinGroup responses of a group nothing, or the one that shows the
group as it is now: in `AwaitingSync`, under its generation and its first member. -/
theorem joinAnswer_out (c : GroupCoordinator) (i : GroupInput) (id : Bytes) :
    joinAnswer id (i, groupMachine.out c i) = none ∨
      ∃ resp, joinAnswer id (i, groupMachine.out c i) = some resp ∧
        ((groupMachine.next c i).groupOrNew id).state = .awaitingSync ∧
        resp.generationId = ((groupMachine.next c i).groupOrNew id).generation ∧
        ((groupMachine.next c i).groupOrNew id).memberIds.head? = some resp.leader := by
  cases i with
  | join r now =>
    obtain ⟨resp, hout, hgen, -, -, -, hhead⟩ := out_join c r now
    by_cases hid : r.groupId = id
    · subst hid
      refine .inr ⟨resp, by simp [joinAnswer, hout], ?_, hgen, hhead⟩
      rw [groupOrNew_next_join]
      rfl
    · exact .inl (by simp [joinAnswer, hout, hid])
  | sync => exact .inl rfl
  | heartbeat => exact .inl rfl
  | leave => exact .inl rfl
  | offsetCommit => exact .inl rfl
  | offsetFetch => exact .inl rfl

/-- An old response of the generation the group has now is one of the generation it had, so
that it names the member that is first now. -/
theorem LeaderInv.current_next {id : Bytes} {h : List (GroupInput × GroupOutput)}
    {c : GroupCoordinator} {i : GroupInput} (inv : LeaderInv id h c) (hok : LeaderStep c i)
    {a : JoinGroupResponse} (ha : a ∈ joinAnswers id h)
    (hgen : a.generationId = ((groupMachine.next c i).groupOrNew id).generation)
    (hst : ((groupMachine.next c i).groupOrNew id).state = .awaitingSync) :
    ((groupMachine.next c i).groupOrNew id).memberIds.head? = some a.leader := by
  have hbound := inv.bound a ha
  rw [hgen] at hbound
  have hsame := Int32.toInt_inj.mp (le_antisymm hbound (generation_le_next hok.2 id))
  by_cases hid : id = i.groupId
  · subst hid
    have hocc : ∀ r now, i = .join r now → (c.groupOrNew i.groupId).members = [] →
        (c.groupOrNew i.groupId).generation = 0 := by
      rintro r now rfl
      exact hok.1
    obtain ⟨hst₀, hhead⟩ := (groupChange_next c i i.groupId).head?_of_generation inv.wellFormed
      hocc hsame hst
    exact hhead a.leader (inv.current a ha (hgen.trans hsame) hst₀)
  · rw [groupOrNew_next_of_ne c i hid] at hst ⊢
    exact inv.current a ha (hgen.trans hsame) hst

/-- The invariant is kept by every step within the condition. -/
theorem LeaderInv.step {id : Bytes} {h : List (GroupInput × GroupOutput)}
    {c : GroupCoordinator} {i : GroupInput} (inv : LeaderInv id h c) (hok : LeaderStep c i) :
    LeaderInv id (h ++ [(i, groupMachine.out c i)]) (groupMachine.next c i) := by
  have hchange := groupChange_next c i id
  have hbound : ∀ a ∈ joinAnswers id h, a.generationId.toInt ≤
      ((groupMachine.next c i).groupOrNew id).generation.toInt :=
    fun a ha => (inv.bound a ha).trans (generation_le_next hok.2 id)
  rcases joinAnswer_out c i id with hnone | ⟨resp, hsome, hst, hgen, hhead⟩
  · have hans : joinAnswers id (h ++ [(i, groupMachine.out c i)]) = joinAnswers id h := by
      simp [joinAnswers, hnone]
    refine ⟨hchange.wellFormed inv.wellFormed, ?_, ?_, ?_⟩
    · rw [hans]
      exact hbound
    · rw [hans]
      exact fun a ha => inv.current_next hok ha
    · rw [hans]
      exact inv.agree
  · have hans : ∀ a, a ∈ joinAnswers id (h ++ [(i, groupMachine.out c i)]) ↔
        a ∈ joinAnswers id h ∨ a = resp := by
      intro a
      simp [joinAnswers, List.filterMap_append, hsome]
    -- an old response of the new one's generation names the member that is first now
    have hnew : ∀ a ∈ joinAnswers id h, a.generationId = resp.generationId →
        a.leader = resp.leader := by
      intro a ha hag
      have hfirst := inv.current_next hok ha (hag.trans hgen) hst
      rw [hhead] at hfirst
      exact (Option.some_inj.mp hfirst).symm
    refine ⟨hchange.wellFormed inv.wellFormed, ?_, ?_, ?_⟩
    · intro a ha
      rcases (hans a).mp ha with ha | rfl
      · exact hbound a ha
      · rw [hgen]
    · intro a ha hag hst'
      rcases (hans a).mp ha with ha | rfl
      · exact inv.current_next hok ha hag hst'
      · exact hhead
    · intro a ha b hb hab
      rcases (hans a).mp ha with ha | rfl <;> rcases (hans b).mp hb with hb | rfl
      · exact inv.agree a ha b hb hab
      · exact hnew a ha hab
      · exact (hnew b hb hab.symm).symm
      · rfl

/-- **One leader per generation** in every run in which no JoinGroup revives an emptied group
and the generations stay below the largest `int32`. -/
theorem oneLeaderPerGeneration_of_occupied (run : List GroupInput)
    (hw : groupMachine.Within LeaderStep {} run) : OneLeaderPerGeneration run := by
  intro id
  have hinv := Machine.invariant_trace (I := LeaderInv id)
    (fun h c i inv hok => inv.step hok) (leaderInv_nil id) hw
  rw [List.nil_append] at hinv
  exact hinv.agree

/-- The leader of two leaves, and the other one joins again. -/
def leaderLeaves : List GroupInput :=
  let h : RequestHeader := ⟨11, 0, 1⟩
  [.join ⟨h, ascii "g", 30000, ascii "a", ascii "consumer", []⟩ 0,
   .join ⟨h, ascii "g", 30000, ascii "b", ascii "consumer", []⟩ 0,
   .leave ⟨h, ascii "g", ascii "a"⟩,
   .join ⟨h, ascii "g", 30000, ascii "b", ascii "consumer", []⟩ 0]

theorem oneLeaderPerGeneration_leaderLeaves :
    groupMachine.Within LeaderStep {} leaderLeaves ∧ OneLeaderPerGeneration leaderLeaves :=
  ⟨by decide, oneLeaderPerGeneration_of_occupied leaderLeaves (by decide)⟩

/-- The only member leaves, and another one joins the group it has emptied. -/
def emptiedGroupRevived : List GroupInput :=
  let h : RequestHeader := ⟨11, 0, 1⟩
  [.join ⟨h, ascii "g", 30000, ascii "a", ascii "consumer", []⟩ 0,
   .leave ⟨h, ascii "g", ascii "a"⟩,
   .join ⟨h, ascii "g", 30000, ascii "b", ascii "consumer", []⟩ 0]

/-- **A revived group has a second leader in its old generation**: both responses carry
generation `1`. -/
theorem not_oneLeaderPerGeneration_revived : ¬ OneLeaderPerGeneration emptiedGroupRevived := by
  intro h
  have hlead := h (ascii "g")
    ⟨1, 0, 0, 1, [], ascii "a", ascii "a", [⟨ascii "a", []⟩]⟩ (by decide)
    ⟨1, 0, 0, 1, [], ascii "b", ascii "b", [⟨ascii "b", []⟩]⟩ (by decide) rfl
  exact absurd hlead (by decide)

end TinyKafka
