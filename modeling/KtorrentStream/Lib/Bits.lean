import Mathlib.Data.Nat.Bitwise
set_option autoImplicit true

namespace KtorrentStream.Lib

theorem bit_of_byte : ∀ (x : Fin 256) (j : Fin 8),
    (UInt8.ofNat x.val &&& (1 <<< UInt8.ofNat j.val) != 0) = x.val.testBit j.val := by
  decide +kernel

theorem byte_bit (x : UInt8) (short : j < 8) : (x &&& (1 <<< UInt8.ofNat j) != 0) = x.toNat.testBit j := by
  have spelled := bit_of_byte ⟨x.toNat,x.toNat_lt⟩ ⟨j,short⟩
  simpa using spelled

theorem shifted_bit (short : i < 8) : ((1 : UInt8) <<< UInt8.ofNat i).toNat = 2 ^ i := by
  have all : ∀ i : Fin 8, ((1 : UInt8) <<< UInt8.ofNat i.val).toNat = 2 ^ i.val := by decide
  exact all ⟨i,short⟩

theorem or_bit (x : UInt8) (short : i < 8) :
    (x ||| 1 <<< UInt8.ofNat i).toNat.testBit j = (x.toNat.testBit j || decide (i = j)) := by
  rw [UInt8.toNat_or,Nat.testBit_or,shifted_bit short,Nat.testBit_two_pow]

theorem and_not_bit (x : UInt8) (short : i < 8) (place : j < 8) :
    (x &&& ~~~ (1 <<< UInt8.ofNat i)).toNat.testBit j = (x.toNat.testBit j && decide (i ≠ j)) := by
  rw [UInt8.toNat_and,Nat.testBit_and]
  congr 1
  have all : ∀ i j : Fin 8, (~~~ ((1 : UInt8) <<< UInt8.ofNat i.val)).toNat.testBit j.val = decide (i.val ≠ j.val) := by
    decide
  exact all ⟨i,short⟩ ⟨j,place⟩

end KtorrentStream.Lib
