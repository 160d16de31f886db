import Mathlib.Data.List.Induction
import Mathlib.Data.List.Nodup
import Mathlib.Order.Lattice

/-!
# Lists searched and updated by a key

A vector whose elements carry an identifying key, searched front to back: `List.updateKey`
rewrites the first element with a given key, `List.upsertKey` does so or appends a new
element when there is none. The lemmas say what a later search (`List.find?` by key) sees
and that the list of keys keeps its order: `List.SurvivorsThenNew` is how a list of keys
evolves when entries are only erased in place and appended. `List.foldl_assign` is for a list
whose elements are assignments.
-/

namespace List

variable {α κ : Type*} [DecidableEq κ] (key : α → κ)

/-- Rewrite the first element with key `k`, if any. -/
def updateKey (k : κ) (f : α → α) : List α → List α
  | [] => []
  | a :: l => if key a = k then f a :: l else a :: updateKey k f l

/-- Rewrite the first element with key `k`, or append `new` when no element has it. -/
def upsertKey (k : κ) (f : α → α) (new : α) (l : List α) : List α :=
  if k ∈ l.map key then l.updateKey key k f else l ++ [new]

variable {key} {k k' : κ} {f : α → α} {new : α} {l : List α}

theorem updateKey_cons_self {a : α} (h : key a = k) :
    (a :: l).updateKey key k f = f a :: l :=
  if_pos h

theorem updateKey_cons_of_ne {a : α} (h : key a ≠ k) :
    (a :: l).updateKey key k f = a :: l.updateKey key k f :=
  if_neg h

theorem upsertKey_of_mem (h : k ∈ l.map key) :
    l.upsertKey key k f new = l.updateKey key k f :=
  if_pos h

theorem upsertKey_of_not_mem (h : k ∉ l.map key) : l.upsertKey key k f new = l ++ [new] :=
  if_neg h

theorem exists_find?_key (h : k ∈ l.map key) : ∃ a, l.find? (key · = k) = some a := by
  obtain ⟨a, ha, hak⟩ := mem_map.mp h
  exact Option.isSome_iff_exists.mp (find?_isSome.mpr ⟨a, ha, decide_eq_true hak⟩)

theorem find?_key_of_not_mem (h : k ∉ l.map key) : l.find? (key · = k) = none :=
  find?_eq_none.mpr fun _ ha hak => h (mem_map.mpr ⟨_, ha, of_decide_eq_true hak⟩)

theorem find?_key_eq_none : l.find? (key · = k) = none ↔ k ∉ l.map key := by
  refine ⟨fun hnone hk => ?_, find?_key_of_not_mem⟩
  obtain ⟨a, ha⟩ := exists_find?_key hk
  cases hnone.symm.trans ha

theorem find?_key_of_mem (hnd : (l.map key).Nodup) {a : α} (ha : a ∈ l) :
    l.find? (key · = key a) = some a := by
  induction l with
  | nil => simp at ha
  | cons b l ih =>
    rw [List.map_cons, List.nodup_cons] at hnd
    rcases List.mem_cons.mp ha with rfl | ha
    · simp
    · have hne : key b ≠ key a := fun h => hnd.1 (h ▸ List.mem_map_of_mem ha)
      simpa [hne] using ih hnd.2 ha

/-- The order of the elements does not matter for the search when no key occurs twice. -/
theorem find?_key_of_perm {l' : List α} (hnd : (l.map key).Nodup) (h : l.Perm l') :
    l'.find? (key · = k) = l.find? (key · = k) := by
  by_cases hk : k ∈ l.map key
  · obtain ⟨a, ha⟩ := exists_find?_key hk
    have hkey : key a = k := by simpa using List.find?_some ha
    have hmem : a ∈ l' := h.mem_iff.mp (List.mem_of_find?_eq_some ha)
    rw [ha, ← hkey, find?_key_of_mem ((h.map key).nodup_iff.mp hnd) hmem]
  · have hk' : k ∉ l'.map key := fun hmem => hk ((h.map key).mem_iff.mpr hmem)
    rw [find?_key_of_not_mem hk, find?_key_of_not_mem hk']

/-- What is made of the elements with key `k`, of which there is at most one. -/
theorem filterMap_key {β : Type*} (hnd : (l.map key).Nodup) (g : α → Option β) :
    l.filterMap (fun a => if key a = k then g a else none) =
      ((l.find? (key · = k)).bind g).toList := by
  induction l with
  | nil => rfl
  | cons a l ih =>
    rw [List.map_cons, List.nodup_cons] at hnd
    by_cases ha : key a = k
    · have hrest : l.find? (key · = k) = none := find?_key_of_not_mem (ha ▸ hnd.1)
      rw [List.filterMap_cons, ih hnd.2, hrest]
      rcases hg : g a with _ | b <;> simp [ha, hg]
    · simpa [ha] using ih hnd.2

/-- The search for key `k` passes over a list without it. -/
theorem updateKey_append_of_not_mem {l' : List α} (h : k ∉ l.map key) :
    (l ++ l').updateKey key k f = l ++ l'.updateKey key k f := by
  induction l with
  | nil => rfl
  | cons a l ih =>
    rw [map_cons, mem_cons, not_or] at h
    rw [cons_append, updateKey_cons_of_ne (Ne.symm h.1), ih h.2, cons_append]

/-- With distinct keys the first element with key `k` is the only one. -/
theorem updateKey_eq_map (hnd : (l.map key).Nodup) :
    l.updateKey key k f = l.map fun a => if key a = k then f a else a := by
  induction l with
  | nil => rfl
  | cons a l ih =>
    rw [map_cons, nodup_cons] at hnd
    rw [map_cons]
    by_cases ha : key a = k
    · have hrest : (l.map fun b => if key b = k then f b else b) = l.map id :=
        map_congr_left fun b hb =>
          if_neg fun hbk => hnd.1 (mem_map.mpr ⟨b, hb, hbk.trans ha.symm⟩)
      rw [updateKey_cons_self ha, if_pos ha, hrest, map_id]
    · rw [updateKey_cons_of_ne ha, if_neg ha, ih hnd.2]

/-- Lists whose elements carry the key of the list, one after the other: a prefix of them is
recovered by going through the keys. -/
theorem flatMap_filter_key_of_prefix {β : Type*} {f : β → List α} {keyOf : β → κ} {bs : List β}
    (hkey : ∀ b ∈ bs, ∀ a ∈ f b, key a = keyOf b) (hnd : (bs.map keyOf).Nodup) {l : List α}
    (h : l <+: bs.flatMap f) : (bs.flatMap fun b => l.filter (key · = keyOf b)) = l := by
  induction bs generalizing l with
  | nil => exact (prefix_nil.mp h).symm
  | cons b bs ih =>
    rw [map_cons, nodup_cons] at hnd
    have hne {b' : β} (hb' : b' ∈ bs) : keyOf b' ≠ keyOf b :=
      fun heq => hnd.1 (mem_map.mpr ⟨b', hb', heq⟩)
    -- the prefix ends in the first list, or goes on after it
    obtain ⟨u, v, rfl, hu, hv⟩ : ∃ u v, l = u ++ v ∧ (∀ a ∈ u, key a = keyOf b) ∧
        v <+: bs.flatMap f := by
      rcases prefix_or_prefix_of_prefix h (prefix_append (f b) _) with hl | ⟨v, rfl⟩
      · exact ⟨l, [], (append_nil l).symm, fun a ha => hkey b mem_cons_self a (hl.subset ha),
          nil_prefix⟩
      · exact ⟨f b, v, rfl, hkey b mem_cons_self, (prefix_append_right_inj _).mp h⟩
    have hv' : ∀ a ∈ v, key a ≠ keyOf b := by
      intro a ha
      obtain ⟨b', hb', hmem⟩ := mem_flatMap.mp (hv.subset ha)
      rw [hkey b' (mem_cons_of_mem _ hb') a hmem]
      exact hne hb'
    have hfirst : (u ++ v).filter (key · = keyOf b) = u := by
      rw [filter_append, filter_eq_self.mpr fun a ha => decide_eq_true (hu a ha),
        filter_eq_nil_iff.mpr fun a ha => by simpa using hv' a ha, append_nil]
    have hrest : ∀ b' ∈ bs, (u ++ v).filter (key · = keyOf b') =
        v.filter (key · = keyOf b') := by
      intro b' hb'
      rw [filter_append, filter_eq_nil_iff.mpr fun a ha => ?_, nil_append]
      rw [hu a ha]
      simpa using (hne hb').symm
    rw [flatMap_cons, hfirst, flatMap_congr hrest,
      ih (fun b' hb' => hkey b' (mem_cons_of_mem _ hb')) hnd.2 hv]

/-- Rewriting the first element with key `k` by itself changes nothing. -/
theorem updateKey_eq_self {a : α} (h : l.find? (key · = k) = some a) (hf : f a = a) :
    l.updateKey key k f = l := by
  induction l with
  | nil => rfl
  | cons b l ih =>
    by_cases hb : key b = k
    · have hba : b = a := by simpa [hb] using h
      rw [updateKey_cons_self hb, hba, hf]
    · have hl : l.find? (key · = k) = some a := by simpa [hb] using h
      rw [updateKey_cons_of_ne hb, ih hl]

section Update

variable (hf : ∀ a, key (f a) = key a)

include hf in
@[simp] theorem map_key_updateKey : (l.updateKey key k f).map key = l.map key := by
  induction l with
  | nil => rfl
  | cons a l ih =>
    by_cases ha : key a = k
    · rw [updateKey_cons_self ha, map_cons, map_cons, hf]
    · rw [updateKey_cons_of_ne ha, map_cons, map_cons, ih]

include hf in
theorem find?_updateKey_self :
    (l.updateKey key k f).find? (key · = k) = (l.find? (key · = k)).map f := by
  induction l with
  | nil => rfl
  | cons a l ih =>
    by_cases ha : key a = k
    · rw [updateKey_cons_self ha]
      simp [hf, ha]
    · rw [updateKey_cons_of_ne ha]
      simp [ha, ih]

include hf in
theorem find?_updateKey_of_ne (hne : k' ≠ k) :
    (l.updateKey key k f).find? (key · = k') = l.find? (key · = k') := by
  induction l with
  | nil => rfl
  | cons a l ih =>
    by_cases ha : key a = k
    · have ha' : key a ≠ k' := fun h => hne (h ▸ ha)
      rw [updateKey_cons_self ha]
      simp [hf, ha']
    · rw [updateKey_cons_of_ne ha]
      by_cases ha' : key a = k'
      · simp [ha']
      · simp [ha', ih]

include hf in
/-- An upsert keeps the keys, or appends the new one when it was absent. -/
theorem map_key_upsertKey (hnew : key new = k) :
    (l.upsertKey key k f new).map key = l.map key ∨
      k ∉ l.map key ∧ (l.upsertKey key k f new).map key = l.map key ++ [k] := by
  by_cases h : k ∈ l.map key
  · rw [upsertKey_of_mem h]
    exact .inl (map_key_updateKey hf)
  · rw [upsertKey_of_not_mem h]
    exact .inr ⟨h, by simp [hnew]⟩

include hf in
/-- A search for the upserted key finds the rewritten element, or the appended one. -/
theorem find?_upsertKey_self (hnew : key new = k) :
    (l.upsertKey key k f new).find? (key · = k) =
      some (((l.find? (key · = k)).map f).getD new) := by
  by_cases h : k ∈ l.map key
  · obtain ⟨a, ha⟩ := exists_find?_key h
    rw [upsertKey_of_mem h, find?_updateKey_self hf]
    simp [ha]
  · rw [upsertKey_of_not_mem h]
    simp [List.find?_append, find?_key_of_not_mem h, hnew]

include hf in
/-- A search for another key is not affected by an upsert. -/
theorem find?_upsertKey_of_ne (hnew : key new = k) (hne : k' ≠ k) :
    (l.upsertKey key k f new).find? (key · = k') = l.find? (key · = k') := by
  by_cases h : k ∈ l.map key
  · rw [upsertKey_of_mem h, find?_updateKey_of_ne hf hne]
  · rw [upsertKey_of_not_mem h]
    simp [List.find?_append, hnew, hne.symm]

end Update

/-! ### Assignments one after another -/

/-- **Last-assignment rule.** Every element assigns something to a part of the state (`f`) or
leaves it alone; after all of them the part is what was assigned last. -/
theorem foldl_assign {σ β : Type*} {step : σ → α → σ} {V : σ → β} {f : α → Option β}
    (h : ∀ s a, V (step s a) = (f a).getD (V s)) (s : σ) (l : List α) :
    V (l.foldl step s) = (l.filterMap f).getLast?.getD (V s) := by
  induction l using List.reverseRecOn with
  | nil => rfl
  | append_singleton l a ih =>
    rw [List.foldl_append, List.foldl_cons, List.foldl_nil, h, ih, List.filterMap_append]
    rcases hf : f a with _ | b <;> simp [hf]

/-! ### Lists in admission order -/

section Admission

variable {β : Type*} {l₁ l₂ : List β}

/-- `l₂` comes from `l₁` by erasing elements where they stand and appending new ones: the
survivors keep their order and stand before everything admitted since. -/
def SurvivorsThenNew (l₁ l₂ : List β) : Prop :=
  ∃ kept new, l₂ = kept ++ new ∧ kept.Sublist l₁ ∧ new.Nodup ∧ l₁.Disjoint new

theorem SurvivorsThenNew.refl (l : List β) : l.SurvivorsThenNew l :=
  ⟨l, [], by simp, Sublist.refl l, nodup_nil, disjoint_nil_right l⟩

theorem SurvivorsThenNew.of_sublist (h : l₂.Sublist l₁) : l₁.SurvivorsThenNew l₂ :=
  ⟨l₂, [], by simp, h, nodup_nil, disjoint_nil_right l₁⟩

theorem SurvivorsThenNew.append_singleton {b : β} (h : b ∉ l₁) :
    l₁.SurvivorsThenNew (l₁ ++ [b]) :=
  ⟨l₁, [b], rfl, Sublist.refl l₁, nodup_singleton b, by simpa using h⟩

/-- No repetition is introduced. -/
theorem SurvivorsThenNew.nodup (h : l₁.SurvivorsThenNew l₂) (hnd : l₁.Nodup) : l₂.Nodup := by
  obtain ⟨kept, new, rfl, hkept, hnew, hdisj⟩ := h
  exact nodup_append'.mpr ⟨hnd.sublist hkept, hnew, disjoint_of_subset_left hkept.subset hdisj⟩

/-- A first element that survives stays first. -/
theorem SurvivorsThenNew.head? (h : l₁.SurvivorsThenNew l₂) (hnd : l₁.Nodup) {b : β}
    (hhead : l₁.head? = some b) (hb : b ∈ l₂) : l₂.head? = some b := by
  obtain ⟨kept, new, rfl, hkept, -, hdisj⟩ := h
  obtain ⟨tail, rfl⟩ := head?_eq_some_iff.mp hhead
  have hmem : b ∈ kept :=
    (mem_append.mp hb).resolve_right fun hnew => hdisj mem_cons_self hnew
  -- were `b` skipped, the survivors would all come from the tail, which does not have it
  cases hkept with
  | cons _ htail => exact absurd (htail.subset hmem) (nodup_cons.mp hnd).1
  | cons_cons => rfl

end Admission

/-! ### Ordered insertion -/

section Insert

variable {κ' : Type*} [LinearOrder κ'] (key' : α → κ')

/-- Insert into a list ordered by key, replacing the element with the same key if there is
one: assignment to an entry of an ordered map. -/
def insertKey (a : α) : List α → List α
  | [] => [a]
  | b :: l =>
    if key' a < key' b then a :: b :: l
    else if key' a = key' b then a :: l
    else b :: insertKey a l

variable {key'}

/-- A key above all others goes to the end. -/
theorem insertKey_of_lt {a : α} (h : ∀ b ∈ l, key' b < key' a) :
    insertKey key' a l = l ++ [a] := by
  induction l with
  | nil => rfl
  | cons b l ih =>
    have hb := h b mem_cons_self
    rw [insertKey, if_neg hb.le.not_gt, if_neg hb.ne', ih fun c hc => h c (mem_cons_of_mem b hc)]
    rfl

/-- Inserting the elements of an increasing list one after another gives the list. -/
theorem foldl_insertKey {l l' : List α} (h : (l ++ l').Pairwise fun a b => key' a < key' b) :
    l'.foldl (fun acc a => insertKey key' a acc) l = l ++ l' := by
  induction l' generalizing l with
  | nil => simp
  | cons a l' ih =>
    have hlt : ∀ b ∈ l, key' b < key' a := fun b hb =>
      (pairwise_append.mp h).2.2 b hb a mem_cons_self
    rw [foldl_cons, insertKey_of_lt hlt, ih (by simpa using h), append_assoc]
    rfl

end Insert

end List
