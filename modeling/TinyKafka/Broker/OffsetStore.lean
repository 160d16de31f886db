import TinyKafka.Broker.GroupSteps

/-!
# Committed offsets: the last commit wins

`committed_offsets` is a nested map inside the group record, next to the membership that the
other handlers rewrite. As seen through OffsetFetch it is the history of the OffsetCommit
requests: `lastCommitted` reads the last entry for a group, topic and partition off the run,
and `offsetFetch_lastCommitted` says that this is what the coordinator answers.
-/

namespace TinyKafka

open GroupCoordinator GroupMetadata

/-- The entries of an OffsetCommit request in the order the handler goes through them: topic,
partition, offset. -/
def commitEntries (topics : List OffsetCommitTopicRequest) : List (Bytes × Int32 × Int64) :=
  topics.flatMap fun t => t.partitions.map fun p =>
    (t.topicName, p.partitionIndex, p.committedOffset)

/-- The offset of an entry, when the entry is for the given topic and partition. -/
def entryFor (topic : Bytes) (partition : Int32) (e : Bytes × Int32 × Int64) : Option Int64 :=
  if e.1 = topic ∧ e.2.1 = partition then some e.2.2 else none

/-- The offsets a request commits for a group, topic and partition, in order. -/
def GroupInput.commitsTo (id topic : Bytes) (partition : Int32) : GroupInput → List Int64
  | .offsetCommit r =>
    if r.groupId = id then (commitEntries r.topics).filterMap (entryFor topic partition) else []
  | _ => []

/-- **The abstract offset store**: the offset of the last entry for a group, topic and
partition among all OffsetCommit requests of a run, and `-1` when there is none. -/
def lastCommitted (run : List GroupInput) (id topic : Bytes) (partition : Int32) : Int64 :=
  ((run.flatMap fun i => i.commitsTo id topic partition).getLast?).getD (-1)

namespace GroupMetadata

/-- What a later lookup sees of one commit. -/
theorem committed_commit (g : GroupMetadata) (t topic : Bytes) (p partition : Int32)
    (offset : Int64) : (g.commit t p offset).committed topic partition =
      (entryFor topic partition (t, p, offset)).getD (g.committed topic partition) := by
  rw [committed, commit, entryFor]
  by_cases ht : t = topic
  · subst ht
    by_cases hp : p = partition
    · subst hp
      simp
    · -- the topic's map is rewritten, at another partition
      have hp' : partition ≠ p := fun h => hp h.symm
      cases h : g.committedOffsets t <;> simp [hp, hp', h, committed]
  · have ht' : topic ≠ t := fun h => ht h.symm
    simp [ht, ht', committed]

theorem commitAll_eq_foldl (g : GroupMetadata) (topics : List OffsetCommitTopicRequest) :
    g.commitAll topics = (commitEntries topics).foldl (fun g e => g.commit e.1 e.2.1 e.2.2) g := by
  rw [commitAll, commitEntries, List.foldl_flatMap]
  simp only [List.foldl_map]

/-- What a later lookup sees of a list of commits: the last one for its topic and partition,
or what was there before. -/
theorem committed_foldl (entries : List (Bytes × Int32 × Int64)) (g : GroupMetadata)
    (topic : Bytes) (partition : Int32) :
    (entries.foldl (fun g e => g.commit e.1 e.2.1 e.2.2) g).committed topic partition =
      ((entries.filterMap (entryFor topic partition)).getLast?).getD
        (g.committed topic partition) := by
  induction entries generalizing g with
  | nil => rfl
  | cons e entries ih =>
    rw [List.foldl_cons, ih, committed_commit]
    cases he : entryFor topic partition e with
    | none => simp [he]
    | some offset => simp [he, List.getLast?_cons]

end GroupMetadata

/-- No request but an OffsetCommit touches the committed offsets. -/
theorem GroupChange.committedOffsets {i : GroupInput} {g g' : GroupMetadata}
    (h : GroupChange i g g') (hi : ∀ r, i ≠ .offsetCommit r) :
    g'.committedOffsets = g.committedOffsets := by
  -- both removal paths write the record through `afterErase`
  have herase : ∀ members, (g.afterErase members).committedOffsets = g.committedOffsets := by
    intro members
    rw [afterErase]
    split
    · rfl
    · split <;> rfl
  cases h with
  | refl => rfl
  | join => rfl
  | assign => rfl
  | beat r now => exact herase _
  | leave r => exact herase _
  | commit r => exact absurd rfl (hi r)

/-- **Refinement step**: a request changes the offset stored for a group, topic and partition
to the last one it commits there, if it commits any. -/
theorem committed_next (c : GroupCoordinator) (i : GroupInput) (id topic : Bytes)
    (partition : Int32) :
    ((groupMachine.next c i).groupOrNew id).committed topic partition =
      ((i.commitsTo id topic partition).getLast?).getD
        ((c.groupOrNew id).committed topic partition) := by
  by_cases hi : ∃ r, i = .offsetCommit r
  · obtain ⟨r, rfl⟩ := hi
    by_cases hid : r.groupId = id
    · subst hid
      have hnext : (groupMachine.next c (.offsetCommit r)).groupOrNew r.groupId =
          (c.groupOrNew r.groupId).commitAll r.topics := groupOrNew_setGroup_self c _ _
      rw [hnext, commitAll_eq_foldl, committed_foldl, GroupInput.commitsTo, if_pos rfl]
    · have hnext : (groupMachine.next c (.offsetCommit r)).groups id = c.groups id :=
        next_groups_of_ne c (.offsetCommit r) (Ne.symm hid)
      rw [groupOrNew, hnext, GroupInput.commitsTo, if_neg hid]
      rfl
  · rw [not_exists] at hi
    have hnone : i.commitsTo id topic partition = [] := by
      cases i with
      | offsetCommit r => exact absurd rfl (hi r)
      | _ => rfl
    rw [hnone, committed, (groupChange_next c i id).committedOffsets hi]
    rfl

theorem committed_exec (c : GroupCoordinator) (run : List GroupInput) (id topic : Bytes)
    (partition : Int32) :
    ((groupMachine.exec c run).groupOrNew id).committed topic partition =
      ((run.flatMap fun i => i.commitsTo id topic partition).getLast?).getD
        ((c.groupOrNew id).committed topic partition) := by
  induction run generalizing c with
  | nil => rfl
  | cons i run ih =>
    rw [Machine.exec_cons, ih, committed_next, List.flatMap_cons, List.getLast?_append]
    cases (run.flatMap fun i => i.commitsTo id topic partition).getLast? <;> rfl

/-- **The last commit wins.** After any run from the empty coordinator, the response to an
OffsetFetch gives for every requested topic and partition the last offset committed for it in
that group, in request order and within a request in list order, and `-1` if there is none;
a request that commits nothing for a group, topic and partition, of whatever kind it is,
leaves what is stored there. -/
theorem offsetFetch_lastCommitted (run : List GroupInput) :
    (∀ r : OffsetFetchRequest,
      groupMachine.out (groupMachine.exec {} run) (.offsetFetch r) = .offsetFetch
        { correlationId := r.header.correlationId
          throttleTimeMs := 0
          topics := r.topics.map fun t =>
            { topicName := t.topicName
              partitions := t.partitionIndexes.map fun p =>
                { partitionIndex := p
                  committedOffset := lastCommitted run r.groupId t.topicName p
                  committedMetadata := []
                  errorCode := 0 } } }) ∧
    (∀ i id topic partition, i.commitsTo id topic partition = [] →
      ((groupMachine.exec {} (run ++ [i])).groupOrNew id).committed topic partition =
        ((groupMachine.exec {} run).groupOrNew id).committed topic partition) := by
  constructor
  · intro r
    have hstore : ∀ topic p, ((groupMachine.exec {} run).groupOrNew r.groupId).committed topic p =
        lastCommitted run r.groupId topic p := committed_exec {} run r.groupId
    simp only [Machine.out, groupMachine, Prod.map, handleOffsetFetch, ← hstore]
  · intro i id topic partition hnone
    rw [Machine.exec_append, Machine.exec_cons, Machine.exec_nil, committed_next, hnone]
    rfl

end TinyKafka
