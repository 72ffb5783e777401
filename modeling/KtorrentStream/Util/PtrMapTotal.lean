import Mathlib.Algebra.BigOperators.Group.Finset.Basic
import Mathlib.Algebra.Order.BigOperators.Group.Finset
import Mathlib.Algebra.GroupWithZero.Nat
import KtorrentStream.Util.PtrMap
set_option autoImplicit true

namespace KtorrentStream.Util.PtrMap
open Finset

variable {β : Type}

-- The sum of what f says of the values.
def total (f : β → Nat) (m : PtrMap β) : Nat := (m.entries.map fun e => f e.2).sum

-- What a key adds to it.
def part (f : β → Nat) (m : PtrMap β) (k : Nat) : Nat := (m.find k).elim 0 f

def keySet (m : PtrMap β) : Finset Nat := (m.entries.map Prod.fst).toFinset

variable {f : β → Nat} {m m' : PtrMap β}

theorem mem_keySet : k ∈ m.keySet ↔ ∃ v, m.find k = some v := by
  simp [keySet,find_eq_some_iff]

theorem part_outside (outside : k ∉ m.keySet) : m.part f k = 0 := by
  unfold part
  cases found : m.find k with
  | none => rfl
  | some v => exact absurd (mem_keySet.mpr ⟨v,found⟩) outside

theorem total_keySet : m.total f = ∑ k ∈ m.keySet, m.part f k := by
  have nodup : (m.entries.map Prod.fst).Nodup := List.pairwise_map.mpr (m.sorted.imp fun less => Nat.ne_of_lt less)
  unfold keySet
  rw [List.sum_toFinset _ nodup,List.map_map]
  apply congrArg List.sum
  apply List.map_congr_left
  intro e member
  show f e.2 = m.part f e.1
  have found : m.find e.1 = some e.2 := (find_eq_some_iff m).mpr member
  rw [part,found]
  rfl

theorem total_sum {keys : Finset Nat} (all : m.keySet ⊆ keys) : m.total f = ∑ k ∈ keys, m.part f k :=
  total_keySet.trans (sum_subset all fun _ _ outside => part_outside outside)

theorem total_congr (same : ∀ k, m'.part f k = m.part f k) : m'.total f = m.total f := by
  rw [total_sum (subset_union_left : m'.keySet ⊆ m'.keySet ∪ m.keySet),
    total_sum (subset_union_right : m.keySet ⊆ m'.keySet ∪ m.keySet)]
  exact sum_congr rfl fun k _ => same k

-- Only what belongs to one key is different.
theorem total_change (k : Nat) (others : ∀ j, j ≠ k → m'.part f j = m.part f j) :
    m'.total f + m.part f k = m.total f + m'.part f k := by
  have all : ∀ m₀ : PtrMap β, m₀.keySet ⊆ m'.keySet ∪ m.keySet ∪ {k} → m₀.total f =
      m₀.part f k + ∑ j ∈ (m'.keySet ∪ m.keySet ∪ {k}).erase k, m₀.part f j := by
    intro m₀ inside
    rw [total_sum inside,add_sum_erase _ _ (mem_union_right _ (mem_singleton_self k))]
  have rest : ∑ j ∈ (m'.keySet ∪ m.keySet ∪ {k}).erase k, m'.part f j = ∑ j ∈ (m'.keySet ∪ m.keySet ∪ {k}).erase k, m.part f j :=
    sum_congr rfl fun j member => others j (ne_of_mem_erase member)
  have one := all m' (subset_union_left.trans subset_union_left)
  have two := all m (subset_union_right.trans subset_union_left)
  omega

theorem part_le_total (k : Nat) : m.part f k ≤ m.total f := by
  by_cases inside : k ∈ m.keySet
  · rw [total_keySet]
    exact single_le_sum (fun _ _ => Nat.zero_le _) inside
  · rw [part_outside inside]
    exact Nat.zero_le _

theorem total_eq_zero : m.total f = 0 ↔ ∀ k, m.part f k = 0 := by
  constructor
  · intro zero k
    have less : m.part f k ≤ m.total f := part_le_total k
    omega
  · intro none
    rw [total_keySet]
    exact sum_eq_zero fun k _ => none k

end KtorrentStream.Util.PtrMap
