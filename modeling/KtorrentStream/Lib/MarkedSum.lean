import Mathlib.Algebra.BigOperators.Group.Finset.Basic
import Mathlib.Algebra.Order.BigOperators.Group.Finset
import Mathlib.Algebra.BigOperators.Intervals
set_option autoImplicit true

namespace KtorrentStream.Lib
open Finset

def markedSum (f : Nat → Nat) (marked : Nat → Bool) (n : Nat) : Nat := ∑ i ∈ range n, if marked i then f i else 0

variable {f : Nat → Nat} {p q : Nat → Bool} {n k : Nat}

theorem markedSum_congr (same : ∀ i < n, q i = p i) : markedSum f q n = markedSum f p n :=
  sum_congr rfl fun i member => by rw [same i (mem_range.mp member)]

theorem markedSum_turnedOn (inside : k < n) (off : p k = false) (on : q k = true) (others : ∀ i, i ≠ k → q i = p i) :
    markedSum f q n = markedSum f p n + f k := by
  unfold markedSum
  rw [← add_sum_erase _ _ (mem_range.mpr inside),← add_sum_erase (range n) _ (mem_range.mpr inside),off,on,
    sum_congr rfl fun i member => by rw [others i (ne_of_mem_erase member)]]
  simp [Nat.add_comm]

theorem markedSum_all (all : ∀ i < n, p i = true) : markedSum f p n = ∑ i ∈ range n, f i :=
  sum_congr rfl fun i member => by rw [if_pos (all i (mem_range.mp member))]

theorem markedSum_none (none : ∀ i < n, p i = false) : markedSum f p n = 0 :=
  sum_eq_zero fun i member => by rw [none i (mem_range.mp member)]; rfl

theorem markedSum_split : markedSum f (fun i => !p i) n + markedSum f p n = ∑ i ∈ range n, f i := by
  unfold markedSum
  rw [← sum_add_distrib]
  apply sum_congr rfl
  intro i _
  cases here : p i <;> simp [here]

theorem markedSum_succ : markedSum f p (n + 1) = markedSum f p n + if p n then f n else 0 := sum_range_succ _ n

theorem markedSum_filter : (((List.range n).filter p).map f).sum = markedSum f p n := by
  induction n with
  | zero => rfl
  | succ n ih =>
    rw [List.range_succ,List.filter_append,List.map_append,List.sum_append,ih,markedSum_succ]
    cases here : p n <;> simp [here]

end KtorrentStream.Lib
