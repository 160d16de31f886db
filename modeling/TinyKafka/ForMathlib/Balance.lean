import Mathlib.Algebra.BigOperators.Group.Finset.Basic
import Mathlib.Algebra.Order.Group.Multiset
import TinyKafka.ForMathlib.Machine

/-!
# Balances

What a machine takes in and gives out, and what it holds in between, counted in a commutative
monoid: a multiset of tokens, a number of bytes. `Machine.balance_run` says that the account
balances over a run when it does in every step. It is the unordered form of
`Machine.queue_run`, for a machine that holds its tokens in several places.
-/

universe u v w

/-- A sum over a family when one member of it changes. -/
theorem sum_update_add {κ α A : Type*} [Fintype κ] [DecidableEq κ] [AddCommMonoid A]
    (g : α → A) (f : κ → α) (k : κ) (a : α) :
    ∑ j, g (Function.update f k a j) + g (f k) = ∑ j, g (f j) + g a := by
  have hrest : ∑ j ∈ Finset.univ.erase k, g (Function.update f k a j) =
      ∑ j ∈ Finset.univ.erase k, g (f j) :=
    Finset.sum_congr rfl fun j hj => by rw [Function.update_of_ne (Finset.ne_of_mem_erase hj)]
  have hupdated := Finset.sum_erase_add Finset.univ (fun j => g (Function.update f k a j))
    (Finset.mem_univ k)
  have hbefore := Finset.sum_erase_add Finset.univ (fun j => g (f j)) (Finset.mem_univ k)
  rw [Function.update_self] at hupdated
  rw [← hupdated, ← hbefore, hrest, add_right_comm]

section Queues

variable {κ α β : Type*} [Fintype κ] [DecidableEq κ] (g : α → β) {f : κ → List α}

/-- The elements of a family of queues, each seen through `g`. -/
def inQueues (f : κ → List α) : Multiset β := ∑ k, ((f k).map g : Multiset β)

theorem inQueues_push (k : κ) (a : α) :
    inQueues g (Function.update f k (f k ++ [a])) = inQueues g f + {g a} := by
  have hsum := sum_update_add (fun l : List α => (l.map g : Multiset β)) f k (f k ++ [a])
  rw [List.map_append, ← Multiset.coe_add, ← add_assoc, add_right_comm] at hsum
  exact add_right_cancel hsum

theorem inQueues_pop {k : κ} {a : α} {rest : List α} (h : f k = a :: rest) :
    inQueues g (Function.update f k rest) + {g a} = inQueues g f := by
  have hsum := sum_update_add (fun l : List α => (l.map g : Multiset β)) f k rest
  rw [h, List.map_cons, ← Multiset.cons_coe, ← Multiset.singleton_add, ← add_assoc] at hsum
  exact add_right_cancel hsum

omit [Fintype κ] in
/-- One queue loses its first element. -/
theorem update_tail_apply (f : κ → List α) (j k : κ) :
    Function.update f j (f j).tail k = (f k).drop (if j == k then 1 else 0) := by
  rcases eq_or_ne j k with rfl | hne
  · rw [Function.update_self, if_pos (beq_self_eq_true j), List.drop_one]
  · rw [Function.update_of_ne hne.symm, if_neg (by simpa using hne), List.drop_zero]

end Queues

namespace Machine

variable {σ : Type u} {ι : Type v} {ο : Type w} {A : Type*} [AddCommMonoid A]

/-- The sum of what `f` reads off the steps of a run. -/
def total (M : Machine σ ι ο) (f : σ → ι → A) (s : σ) : List ι → A
  | [] => 0
  | i :: is => f s i + total M f (M.next s i) is

variable {M : Machine σ ι ο}

/-- **Balance rule.** When in every step what is held (`c`) and what is taken in (`f`) is what
is given out (`g`) and what is held then, the same is true of every run. -/
theorem balance_run {c : σ → A} {f g : σ → ι → A}
    (hstep : ∀ s i, c s + f s i = g s i + c (M.next s i)) (s : σ) (is : List ι) :
    c s + M.total f s is = M.total g s is + c (M.exec s is) := by
  induction is generalizing s with
  | nil => exact add_comm _ _
  | cons i is ih =>
    rw [total, total, ← add_assoc, hstep s i, add_assoc, ih, add_assoc]
    rfl

/-- What is observed in a run, counted. -/
theorem coe_observed {α : Type*} (f : σ → ι → Option α) (s : σ) (is : List ι) :
    (M.observed f s is : Multiset α) =
      M.total (fun s i => ((f s i).toList : Multiset α)) s is := by
  induction is generalizing s with
  | nil => rfl
  | cons i is ih => rw [observed, total, ← ih, Multiset.coe_add]

/-- What is read off the outputs of a run, counted. -/
theorem coe_flatMap_trace {α : Type*} (g : ο → List α) (s : σ) (is : List ι) :
    ((M.trace s is).flatMap (fun e => g e.2) : Multiset α) =
      M.total (fun s i => (g (M.out s i) : Multiset α)) s is := by
  induction is generalizing s with
  | nil => rfl
  | cons i is ih => rw [trace_cons, List.flatMap_cons, total, ← ih, Multiset.coe_add]

theorem total_add (f g : σ → ι → A) (s : σ) (is : List ι) :
    M.total (fun s i => f s i + g s i) s is = M.total f s is + M.total g s is := by
  induction is generalizing s with
  | nil => exact (add_zero 0).symm
  | cons i is ih => rw [total, total, total, ih, add_add_add_comm]

end Machine
