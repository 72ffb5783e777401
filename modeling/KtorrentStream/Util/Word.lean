import Mathlib.Data.Nat.Basic
set_option autoImplicit true

namespace KtorrentStream.Util

-- What is left of a number in a Uint32 or Uint64.
def uint32 (n : Nat) : Nat := n % 4294967296

def uint64 (n : Nat) : Nat := n % 18446744073709551616

theorem uint32_of_lt (small : n < 4294967296) : uint32 n = n := Nat.mod_eq_of_lt small

theorem uint64_of_lt (small : n < 18446744073709551616) : uint64 n = n := Nat.mod_eq_of_lt small

-- The difference of two Uint32.
def uint32Sub (a b : Nat) : Nat := uint32 (a + 4294967296 - b)

theorem uint32Sub_of_le (less : b ≤ a) (small : a < 4294967296) : uint32Sub a b = a - b := by
  unfold uint32Sub uint32
  omega

theorem uint32Sub_lt (a b : Nat) : uint32Sub a b < 4294967296 := by
  unfold uint32Sub uint32
  omega

theorem uint32Sub_mod (less : b ≤ a) (small : a - b < 4294967296) : uint32Sub (uint32 a) (uint32 b) = a - b := by
  unfold uint32Sub uint32
  omega

theorem four_bytes : 0 < 4 := by decide

-- for (Uint32 i = lower; i <= upper; i++)
def upTo (lower upper : Nat) : List Nat := List.range' lower (upper + 1 - lower)

theorem mem_upTo : i ∈ upTo lower upper ↔ lower ≤ i ∧ i ≤ upper := by
  unfold upTo
  rw [List.mem_range'_1]
  omega

theorem upTo_cons (more : lower ≤ upper) : upTo lower upper = lower :: upTo (lower + 1) upper := by
  unfold upTo
  rw [show upper + 1 - lower = (upper - lower) + 1 by omega,List.range'_succ,show upper + 1 - (lower + 1) = upper - lower by omega]

theorem upTo_nil (less : upper < lower) : upTo lower upper = [] := by
  unfold upTo
  rw [show upper + 1 - lower = 0 by omega]
  rfl

theorem find_upTo {p : Nat → Bool} : (upTo lower upper).find? p = some i ↔
    (lower ≤ i ∧ i ≤ upper) ∧ p i = true ∧ ∀ j, lower ≤ j → j < i → p j = false := by
  unfold upTo
  rw [List.find?_range'_eq_some,List.mem_range'_1]
  constructor
  · rintro ⟨on,bounds,before⟩
    exact ⟨by omega,on,fun j low high => by simpa using before j low high⟩
  · rintro ⟨bounds,on,before⟩
    exact ⟨on,by omega,fun j low high => by simpa using before j low high⟩

end KtorrentStream.Util
