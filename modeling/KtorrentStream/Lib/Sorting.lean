import Mathlib.Data.Prod.Lex
import Mathlib.Order.OrderDual
import Mathlib.Data.List.Sort
set_option autoImplicit true

namespace KtorrentStream.Lib

-- A strict weak order, as a comparator that gives a Bool.
structure StrictWeak (less : α → α → Bool) : Prop where
  irrefl : ∀ a, less a a = false
  trans : ∀ a b c, less a b = true → less b c = true → less a c = true
  incomparable : ∀ a b c, less a b = false → less b c = false → less a c = false

-- Whatever compares by a key is one.
theorem StrictWeak.of_key [LinearOrder β] (key : α → β) : StrictWeak fun a b => decide (key a < key b) := by
  constructor
  · intro a
    exact decide_eq_false (lt_irrefl _)
  · intro a b c ab bc
    exact decide_eq_true ((of_decide_eq_true ab).trans (of_decide_eq_true bc))
  · intro a b c ab bc
    have first := not_lt.mp (of_decide_eq_false ab)
    have second := not_lt.mp (of_decide_eq_false bc)
    exact decide_eq_false (not_lt.mpr (second.trans first))

theorem StrictWeak.asymm {less : α → α → Bool} (weak : StrictWeak less) (ab : less a b = true) : less b a = false := by
  cases ba : less b a with
  | false => rfl
  | true => exact absurd (weak.trans a b a ab ba) (Bool.eq_false_iff.mp (weak.irrefl a))

-- What a sort that need not be stable promises for such a comparator.
structure Sorter (α : Type) where
  sort : (α → α → Bool) → List α → List α
  perm : ∀ less l, StrictWeak less → (sort less l).Perm l
  sorted : ∀ less l, StrictWeak less → (sort less l).Pairwise fun a b => less b a = false

end KtorrentStream.Lib
