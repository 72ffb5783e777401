import KtorrentStream.Lib.BigEndian
set_option autoImplicit true

namespace KtorrentStream.Dht
open KtorrentStream.Lib

@[ext] structure Key where
  hash : List UInt8
  sized : hash.length = 20
  deriving DecidableEq

namespace Key

-- Key(const QByteArray & ba): what is missing of the 20 bytes is zero, what is too much is left out.
def ofByteArray (ba : List UInt8) : Key where
  hash := ba.take 20 ++ List.replicate (20 - ba.length) 0
  sized := by rw [List.length_append,List.length_take,List.length_replicate]; omega

def new : Key := ⟨List.replicate 20 0,rfl⟩

def lt (a b : Key) : Bool := BigEndian.less a.hash b.hash

def le (a b : Key) : Bool := a.lt b || a == b

def gt (a b : Key) : Bool := BigEndian.less b.hash a.hash

def ge (a b : Key) : Bool := a.gt b || a == b

theorem same_length (a b : Key) : a.hash.length = b.hash.length := by rw [a.sized,b.sized]

-- operator + leaves the last carry out.
def add (a b : Key) : Key where
  hash := (BigEndian.add a.hash b.hash).1
  sized := by rw [(BigEndian.add_spec (same_length a b)).1,b.sized]

def addByte (a : Key) (value : UInt8) : Key := a.add ⟨List.replicate 19 0 ++ [value],rfl⟩

def sub (a b : Key) : Key where
  hash := (BigEndian.sub a.hash b.hash).1
  sized := by rw [(BigEndian.sub_spec (same_length a b)).1,b.sized]

def div (a : Key) (value : Nat) : Key where
  hash := BigEndian.div value 0 a.hash
  sized := by rw [BigEndian.div_length,a.sized]

def mid (a b : Key) : Key := if a.le b then a.add ((b.sub a).div 2) else b.add ((a.sub b).div 2)

def max : Key := ⟨List.replicate 20 255,rfl⟩

def min : Key := ⟨List.replicate 20 0,rfl⟩

def toNat (a : Key) : Nat := BigEndian.value a.hash

-- 2^160
def count : Nat := 1461501637330902918203684832716283019655932542976

theorem count_eq : 256 ^ 20 = count := by decide

theorem toNat_lt (a : Key) : a.toNat < count := by
  have small := BigEndian.value_lt a.hash
  rwa [a.sized,count_eq] at small

theorem toNat_inj {a b : Key} (same : a.toNat = b.toNat) : a = b := Key.ext (BigEndian.value_inj (same_length a b) same)

theorem lt_iff (a b : Key) : a.lt b = true ↔ a.toNat < b.toNat := BigEndian.less_iff (same_length a b)

theorem le_iff (a b : Key) : a.le b = true ↔ a.toNat ≤ b.toNat := by
  rw [le,Bool.or_eq_true,lt_iff,beq_iff_eq]
  constructor
  · rintro (less | same)
    · omega
    · rw [same]
  · intro atMost
    by_cases same : a.toNat = b.toNat
    · exact .inr (toNat_inj same)
    · exact .inl (by omega)

theorem add_toNat (a b : Key) : (a.add b).toNat = (a.toNat + b.toNat) % count := by
  have sum := (BigEndian.add_spec (same_length a b)).2
  have small := toNat_lt (a.add b)
  rw [b.sized,count_eq] at sum
  have bit : (BigEndian.add a.hash b.hash).2.toNat ≤ 1 := Bool.toNat_le _
  generalize (BigEndian.add a.hash b.hash).2.toNat = carry at sum bit
  have whole : (a.add b).toNat + carry * count = a.toNat + b.toNat := sum
  rw [← whole,Nat.add_mul_mod_self_right,Nat.mod_eq_of_lt small]

theorem addByte_toNat (a : Key) (value : UInt8) : (a.addByte value).toNat = (a.toNat + value.toNat) % count := by
  have byte : BigEndian.value (List.replicate 19 0 ++ [value]) = value.toNat := by
    simp [BigEndian.value,List.replicate]
  rw [addByte,add_toNat]
  show (a.toNat + BigEndian.value (List.replicate 19 0 ++ [value])) % count = _
  rw [byte]

theorem sub_toNat {a b : Key} (atMost : b.toNat ≤ a.toNat) : (a.sub b).toNat = a.toNat - b.toNat := by
  have difference := (BigEndian.sub_spec (same_length a b)).2
  have small := toNat_lt (a.sub b)
  rw [b.sized,count_eq] at difference
  have bit : (BigEndian.sub a.hash b.hash).2.toNat ≤ 1 := Bool.toNat_le _
  generalize (BigEndian.sub a.hash b.hash).2.toNat = borrow at difference bit
  have whole : a.toNat + borrow * count = b.toNat + (a.sub b).toNat := difference
  have bound := toNat_lt a
  rcases Nat.le_one_iff_eq_zero_or_eq_one.mp bit with rfl | rfl
  · omega
  · omega

theorem div_toNat (a : Key) (positive : 0 < d) : (a.div d).toNat = a.toNat / d := by
  have quotient := BigEndian.div_spec (l := a.hash) positive positive
  rwa [Nat.zero_mul,Nat.zero_add] at quotient

theorem mid_toNat {a b : Key} (atMost : a.toNat ≤ b.toNat) : (mid a b).toNat = a.toNat + (b.toNat - a.toNat) / 2 := by
  have bound := toNat_lt b
  rw [mid,if_pos ((le_iff a b).mpr atMost),add_toNat,div_toNat _ (by decide),sub_toNat atMost]
  exact Nat.mod_eq_of_lt (by omega)

theorem gt_iff (a b : Key) : a.gt b = true ↔ b.toNat < a.toNat := BigEndian.less_iff (same_length b a)

theorem ge_iff (a b : Key) : a.ge b = true ↔ b.toNat ≤ a.toNat := by
  rw [ge,Bool.or_eq_true,gt_iff,beq_iff_eq]
  constructor
  · rintro (less | same)
    · omega
    · rw [same]
  · intro atMost
    by_cases same : a.toNat = b.toNat
    · exact .inr (toNat_inj same)
    · exact .inl (by omega)

-- operator - leaves the last borrow out.
theorem sub_mod (a b : Key) : ((a.sub b).toNat : Int) = ((a.toNat : Int) - b.toNat) % count := by
  have difference := (BigEndian.sub_spec (same_length a b)).2
  have small := toNat_lt (a.sub b)
  rw [b.sized,count_eq] at difference
  generalize (BigEndian.sub a.hash b.hash).2.toNat = borrow at difference
  have whole : a.toNat + borrow * count = b.toNat + (a.sub b).toNat := difference
  have spread : (a.toNat : Int) - b.toNat = (a.sub b).toNat + count * (-(borrow : Int)) := by
    have cast : (a.toNat : Int) + borrow * count = b.toNat + (a.sub b).toNat := by exact_mod_cast whole
    rw [mul_neg,mul_comm (count : Int)]
    omega
  rw [spread,Int.add_mul_emod_self_left]
  exact (Int.emod_eq_of_lt (Int.natCast_nonneg _) (by exact_mod_cast small)).symm

-- The other order is the branch b + (a - b) / 2.
theorem mid_comm (a b : Key) : mid a b = mid b a := by
  rw [mid,mid]
  by_cases upward : a.toNat ≤ b.toNat
  · by_cases downward : b.toNat ≤ a.toNat
    · have same : a = b := toNat_inj (by omega)
      rw [same]
    · rw [if_pos ((le_iff a b).mpr upward),if_neg (fun le => downward ((le_iff b a).mp le))]
  · rw [if_neg (fun le => upward ((le_iff a b).mp le)),if_pos ((le_iff b a).mpr (by omega))]

theorem min_toNat : min.toNat = 0 := by decide

theorem max_toNat : max.toNat = count - 1 := by decide

theorem count_pow : count = 2 ^ 160 := by decide

end Key

theorem mid_eq (a b : Key) : (Key.mid a b).toNat = min a.toNat b.toNat + ((a.toNat : Int) - b.toNat).natAbs / 2 := by
  rcases Nat.le_total a.toNat b.toNat with upward | downward
  · rw [Key.mid_toNat upward]
    omega
  · rw [Key.mid_comm,Key.mid_toNat downward]
    omega

theorem mid_between (a b : Key) : min a.toNat b.toNat ≤ (Key.mid a b).toNat ∧ (Key.mid a b).toNat ≤ max a.toNat b.toNat := by
  rw [mid_eq]
  omega

-- Key arithmetic is 160-bit arithmetic.
theorem key_arithmetic (a b : Key) (v : UInt8) :
    (a.add b).toNat = (a.toNat + b.toNat) % 2 ^ 160 ∧ ((a.sub b).toNat : Int) = ((a.toNat : Int) - b.toNat) % 2 ^ 160 ∧
      (a.addByte v).toNat = (a.toNat + v.toNat) % 2 ^ 160 ∧ (a.div 2).toNat = a.toNat / 2 ∧
      (a.lt b = true ↔ a.toNat < b.toNat) ∧ (a.le b = true ↔ a.toNat ≤ b.toNat) ∧
      (a.gt b = true ↔ a.toNat > b.toNat) ∧ (a.ge b = true ↔ a.toNat ≥ b.toNat) ∧
      (min a.toNat b.toNat ≤ (Key.mid a b).toNat ∧ (Key.mid a b).toNat ≤ max a.toNat b.toNat) ∧
      (Key.mid a b).toNat = min a.toNat b.toNat + ((a.toNat : Int) - b.toNat).natAbs / 2 := by
  have sum := a.add_toNat b
  have difference := a.sub_mod b
  have more := a.addByte_toNat v
  rw [Key.count_pow] at sum difference more
  refine ⟨sum,?_,more,a.div_toNat (by decide),a.lt_iff b,a.le_iff b,a.gt_iff b,a.ge_iff b,mid_between a b,mid_eq a b⟩
  rw [difference]
  norm_cast

end KtorrentStream.Dht
