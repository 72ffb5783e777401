import Mathlib.Tactic.Common
set_option autoImplicit true

namespace KtorrentStream.Lib

-- A run: neighbouring places below n that all have the property, and as many of them as
-- there are.
structure Run (p : Nat → Bool) (n first last : Nat) : Prop where
  order : first ≤ last
  inside : last < n
  all : ∀ i, first ≤ i → i ≤ last → p i = true
  front : first = 0 ∨ p (first - 1) = false
  back : last + 1 = n ∨ p (last + 1) = false

namespace Run

variable {p q : Nat → Bool} {n : Nat}

theorem covers (run : Run p n a b) (block : ∀ i, c ≤ i → i ≤ d → p i = true) (inside : d < n) (low : c ≤ b) (high : a ≤ d) :
    a ≤ c ∧ d ≤ b := by
  constructor
  · by_contra before
    rcases run.front with zero | stops
    · omega
    · have on := block (a - 1) (by omega) (by omega)
      rw [stops] at on
      cases on
  · by_contra behind
    rcases run.back with ends | stops
    · omega
    · have on := block (b + 1) (by omega) (by omega)
      rw [stops] at on
      cases on

theorem eq_of_meet (run : Run p n a b) (other : Run p n c d) (low : c ≤ b) (high : a ≤ d) : a = c ∧ b = d := by
  have one := run.covers other.all other.inside low high
  have two := other.covers run.all run.inside (Nat.le_trans one.1 other.order) (by omega)
  omega

theorem exists_front (on : p i = true) : ∃ a ≤ i, (∀ j, a ≤ j → j ≤ i → p j = true) ∧ (a = 0 ∨ p (a - 1) = false) := by
  induction i with
  | zero => exact ⟨0,Nat.le_refl 0,fun j _ high => Nat.le_zero.mp high ▸ on,Or.inl rfl⟩
  | succ i ih =>
      cases before : p i with
      | false =>
          refine ⟨i + 1,Nat.le_refl _,fun j low high => ?_,Or.inr before⟩
          rw [Nat.le_antisymm high low]
          exact on
      | true =>
          obtain ⟨a,low,all,front⟩ := ih before
          refine ⟨a,by omega,fun j low high => ?_,front⟩
          rcases Nat.lt_or_ge j (i + 1) with inside | last
          · exact all j low (by omega)
          · rw [Nat.le_antisymm high last]
            exact on

theorem exists_back (on : p i = true) (inside : i < n) :
    ∃ b, i ≤ b ∧ b < n ∧ (∀ j, i ≤ j → j ≤ b → p j = true) ∧ (b + 1 = n ∨ p (b + 1) = false) := by
  induction left : n - i generalizing i with
  | zero => omega
  | succ left ih =>
      by_cases last : i + 1 = n
      · exact ⟨i,Nat.le_refl i,inside,fun j low high => Nat.le_antisymm low high ▸ on,Or.inl last⟩
      · cases next : p (i + 1) with
        | false => exact ⟨i,Nat.le_refl i,inside,fun j low high => Nat.le_antisymm low high ▸ on,Or.inr next⟩
        | true =>
            obtain ⟨b,low,high,all,back⟩ := ih next (by omega) (by omega)
            refine ⟨b,by omega,high,fun j first last => ?_,back⟩
            rcases Nat.lt_or_ge i j with behind | here
            · exact all j behind last
            · rw [Nat.le_antisymm here first]
              exact on

theorem exists_at (on : p i = true) (inside : i < n) : ∃ a b, Run p n a b ∧ a ≤ i ∧ i ≤ b := by
  obtain ⟨a,low,before,front⟩ := exists_front on
  obtain ⟨b,high,small,behind,back⟩ := exists_back on inside
  refine ⟨a,b,⟨by omega,small,fun j first last => ?_,front,back⟩,low,high⟩
  rcases Nat.le_total j i with less | more
  · exact before j first less
  · exact behind j more last

theorem weaken (run : Run q n a b) (weaker : ∀ i, q i = true → p i = true) : ∃ c d, Run p n c d ∧ c ≤ a ∧ b ≤ d := by
  obtain ⟨c,d,wider,low,high⟩ := exists_at (weaker a (run.all a (Nat.le_refl a) run.order)) (Nat.lt_of_le_of_lt run.order run.inside)
  have covers := wider.covers (fun i first last => weaker i (run.all i first last)) run.inside high (Nat.le_trans low run.order)
  exact ⟨c,d,wider,covers⟩

end Run

end KtorrentStream.Lib
