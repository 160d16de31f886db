import Mathlib.Data.List.Basic
import Mathlib.Tactic.Common

/-!
# Encodings that can be read off the front of a string

An encoding is prefix-free when a value and the end of its code are determined by any string
that starts with the code. `PrefixFree N enc key` is this property in the form in which it
composes: of the value only `key` is determined, so that fields which are not encoded do not
matter, and only codes shorter than `N` are considered, so that a length field of bounded
width does not spoil it. Products are prefix-free when their factors are, and so are strings
and lists behind a count that determines their length (`CountCode`).
-/

/-- Two codes shorter than `N` at the front of one string come from values with the same key,
and end at the same place. -/
def PrefixFree {α β κ : Type*} (N : ℕ) (enc : α → List β) (key : α → κ) : Prop :=
  ∀ a b s t, (enc a).length < N → (enc b).length < N → enc a ++ s = enc b ++ t →
    key a = key b ∧ s = t

/-- The codes of two counts below `N` at the front of one string are codes of the same count,
and end at the same place. -/
def CountCode {β : Type*} (N : ℕ) (count : ℕ → List β) : Prop :=
  ∀ n m s t, n < N → m < N → count n ++ s = count m ++ t → n = m ∧ s = t

namespace PrefixFree

variable {α β γ κ μ : Type*} {N : ℕ} {enc enc' : α → List β} {key : α → κ} {key' : α → μ}

/-- Codes of one length, different for different keys. -/
theorem of_length {n : ℕ} (hlen : ∀ a, (enc a).length = n)
    (hinj : ∀ a b, enc a = enc b → key a = key b) : PrefixFree N enc key := by
  intro a b s t _ _ h
  obtain ⟨hab, hst⟩ := List.append_inj h ((hlen a).trans (hlen b).symm)
  exact ⟨hinj a b hab, hst⟩

theorem comp (h : PrefixFree N enc key) (f : γ → α) :
    PrefixFree N (fun c => enc (f c)) fun c => key (f c) :=
  fun a b s t => h (f a) (f b) s t

/-- Less can be asked for. -/
theorem weaken (h : PrefixFree N enc key) (hkey : ∀ a b, key a = key b → key' a = key' b) :
    PrefixFree N enc key' := by
  intro a b s t ha hb heq
  obtain ⟨hk, hst⟩ := h a b s t ha hb heq
  exact ⟨hkey a b hk, hst⟩

/-- One code after another. -/
theorem append (h : PrefixFree N enc key) (h' : PrefixFree N enc' key') :
    PrefixFree N (fun a => enc a ++ enc' a) fun a => (key a, key' a) := by
  intro a b s t ha hb heq
  rw [List.length_append] at ha hb
  rw [List.append_assoc, List.append_assoc] at heq
  obtain ⟨hk, hrest⟩ := h a b _ _ (by omega) (by omega) heq
  obtain ⟨hk', hst⟩ := h' a b s t (by omega) (by omega) hrest
  exact ⟨Prod.ext hk hk', hst⟩

/-- The codes of the elements of a list, when the number of elements is known. -/
theorem flatMap (h : PrefixFree N enc key) {l l' : List α} {s t : List β}
    (hlen : l.length = l'.length) (hl : (l.flatMap enc).length < N)
    (hl' : (l'.flatMap enc).length < N) (heq : l.flatMap enc ++ s = l'.flatMap enc ++ t) :
    l.map key = l'.map key ∧ s = t := by
  induction l generalizing l' with
  | nil =>
    obtain rfl : l' = [] := List.length_eq_zero_iff.mp hlen.symm
    exact ⟨rfl, heq⟩
  | cons a l ih =>
    obtain ⟨b, l', rfl⟩ : ∃ b l'', l' = b :: l'' :=
      List.exists_cons_of_length_pos (by rw [← hlen]; exact Nat.succ_pos _)
    simp only [List.flatMap_cons, List.length_append, List.append_assoc] at hl hl' heq
    obtain ⟨hk, hrest⟩ := h a b _ _ (by omega) (by omega) heq
    obtain ⟨hks, hst⟩ := ih (by simpa using hlen) (by omega) (by omega) hrest
    exact ⟨by rw [List.map_cons, List.map_cons, hk, hks], hst⟩

/-- A length in front makes any encoding prefix-free that is so among values of one length.
A value must not be longer than its code, so that the length of a short code is small. -/
theorem counted {count : ℕ → List β} {len : α → ℕ} (hcount : CountCode N count)
    (hle : ∀ a, len a ≤ (enc a).length)
    (henc : ∀ a b s t, len a = len b → (enc a).length < N → (enc b).length < N →
      enc a ++ s = enc b ++ t → key a = key b ∧ s = t) :
    PrefixFree N (fun a => count (len a) ++ enc a) key := by
  intro a b s t ha hb heq
  rw [List.length_append] at ha hb
  rw [List.append_assoc, List.append_assoc] at heq
  have hla := hle a
  have hlb := hle b
  obtain ⟨hlen, hrest⟩ := hcount (len a) (len b) _ _ (by omega) (by omega) heq
  exact henc a b s t hlen (by omega) (by omega) hrest

/-- A string behind its length. -/
theorem counted_string {count : ℕ → List β} (hcount : CountCode N count) :
    PrefixFree N (fun l : List β => count l.length ++ l) id :=
  counted hcount (fun l => Nat.le_refl l.length) fun _ _ _ _ hlen _ _ heq =>
    List.append_inj heq hlen

/-- The codes of the elements of a list behind its length. -/
theorem counted_flatMap {count : ℕ → List β} (hcount : CountCode N count)
    (h : PrefixFree N enc key) (hpos : ∀ a, 0 < (enc a).length) :
    PrefixFree N (fun l : List α => count l.length ++ l.flatMap enc) fun l => l.map key := by
  refine counted hcount (fun l => ?_) fun l l' s t hlen hl hl' heq => h.flatMap hlen hl hl' heq
  induction l with
  | nil => exact Nat.zero_le _
  | cons a l ih =>
    have ha := hpos a
    rw [List.flatMap_cons, List.length_append, List.length_cons]
    omega

end PrefixFree
