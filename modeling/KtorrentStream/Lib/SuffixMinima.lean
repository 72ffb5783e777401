import Mathlib.Order.Lattice
import Mathlib.Data.List.Basic
set_option autoImplicit true

namespace KtorrentStream.Lib

section
variable {α κ : Type} [LinearOrder κ] {key : α → κ}

-- The elements of a list that are below everything behind them, which is all that a
-- sliding minimum has to remember of it.
def lows (key : α → κ) : List α → List α
  | [] => []
  | x :: rest => if ∀ y ∈ rest, key x < key y then x :: lows key rest else lows key rest

theorem lows_subset (xs : List α) : lows key xs ⊆ xs := by
  induction xs with
  | nil => exact List.Subset.refl _
  | cons x rest ih =>
      rw [lows]
      split
      · exact List.cons_subset_cons x ih
      · exact List.subset_cons_of_subset x ih

theorem lows_ascending (xs : List α) : (lows key xs).Pairwise fun x y => key x < key y := by
  induction xs with
  | nil => exact .nil
  | cons x rest ih =>
      rw [lows]
      split
      · rename_i low
        exact .cons (fun y among => low y (lows_subset rest among)) ih
      · exact ih

theorem lows_least (nonempty : xs ≠ []) : ∃ y later, lows key xs = y :: later ∧ y ∈ xs ∧ ∀ x ∈ xs, key y ≤ key x := by
  induction xs with
  | nil => exact absurd rfl nonempty
  | cons x rest ih =>
      rw [lows]
      split
      · rename_i low
        refine ⟨x,lows key rest,rfl,List.mem_cons_self,fun y among => ?_⟩
        rcases List.mem_cons.mp among with rfl | among
        · exact le_refl _
        · exact le_of_lt (low y among)
      · rename_i notLow
        obtain ⟨z,among,lower⟩ : ∃ z ∈ rest, key z ≤ key x := by simpa using notLow
        obtain ⟨y,later,first,here,least⟩ := ih (List.ne_nil_of_mem among)
        refine ⟨y,later,first,List.mem_cons_of_mem x here,fun w inside => ?_⟩
        rcases List.mem_cons.mp inside with rfl | inside
        · exact le_trans (least z among) lower
        · exact least w inside

theorem takeWhile_none {low : α → Bool} {xs : List α} (high : ∀ y ∈ xs, low y = false) : xs.takeWhile low = [] := by
  cases xs with
  | nil => rfl
  | cons y rest => rw [List.takeWhile_cons,high y List.mem_cons_self,if_neg Bool.false_ne_true]

theorem lows_concat (xs : List α) (x : α) :
    lows key (xs ++ [x]) = ((lows key xs).takeWhile fun y => key y < key x) ++ [x] := by
  induction xs with
  | nil => simp [lows]
  | cons y rest ih =>
      have both : (∀ z ∈ rest ++ [x], key y < key z) ↔ (∀ z ∈ rest, key y < key z) ∧ key y < key x := by
        simp only [List.mem_append,List.mem_singleton,or_imp,forall_and,forall_eq]
      rw [List.cons_append,lows,lows,ih]
      by_cases low : ∀ z ∈ rest, key y < key z
      · rw [if_pos low,List.takeWhile_cons]
        by_cases below : key y < key x
        · rw [if_pos (both.mpr ⟨low,below⟩),decide_eq_true below,if_pos rfl,List.cons_append]
        · have none : ∀ z ∈ lows key rest, decide (key z < key x) = false := fun z among =>
            decide_eq_false (not_lt_of_ge (le_trans (le_of_not_gt below) (le_of_lt (low z (lows_subset rest among)))))
          rw [if_neg (fun all => below (both.mp all).2),decide_eq_false below,if_neg Bool.false_ne_true,takeWhile_none none]
      · rw [if_neg low,if_neg (fun all => low (both.mp all).1)]

-- Elements that leave at the front leave the others as they are, where nothing behind
-- an element that stays may leave.
theorem lows_dropWhile {old : α → Bool} {xs : List α} (order : xs.Pairwise fun x y => old x = false → old y = false) :
    (lows key xs).dropWhile old = lows key (xs.dropWhile old) := by
  induction xs with
  | nil => rfl
  | cons x rest ih =>
      obtain ⟨first,order⟩ := List.pairwise_cons.mp order
      cases here : old x with
      | true =>
          rw [List.dropWhile_cons,here,if_pos rfl,← ih order,lows]
          split
          · rw [List.dropWhile_cons,here,if_pos rfl]
          · rfl
      | false =>
          rw [List.dropWhile_cons,here,if_neg Bool.false_ne_true]
          cases list : lows key (x :: rest) with
          | nil => rfl
          | cons y later =>
              have among : y ∈ x :: rest := lows_subset (x :: rest) (list ▸ List.mem_cons_self)
              have stays : old y = false := by
                rcases List.mem_cons.mp among with rfl | among
                · exact here
                · exact first y among here
              rw [List.dropWhile_cons,stays,if_neg Bool.false_ne_true]

theorem filter_eq_dropWhile {old : α → Bool} {xs : List α} (order : xs.Pairwise fun x y => old x = false → old y = false) :
    xs.filter (fun x => !old x) = xs.dropWhile old := by
  induction xs with
  | nil => rfl
  | cons x rest ih =>
      obtain ⟨first,order⟩ := List.pairwise_cons.mp order
      cases here : old x with
      | true =>
          rw [List.filter_cons,List.dropWhile_cons,here,if_pos rfl,Bool.not_true,if_neg Bool.false_ne_true,ih order]
      | false =>
          have all : rest.filter (fun y => !old y) = rest := List.filter_eq_self.mpr fun y among => by rw [first y among here]; rfl
          rw [List.filter_cons,List.dropWhile_cons,here,if_neg Bool.false_ne_true,Bool.not_false,if_pos rfl,all]

end
end KtorrentStream.Lib
