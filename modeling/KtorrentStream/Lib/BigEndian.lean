import Mathlib.Algebra.Order.Ring.Nat
import Mathlib.Tactic.Ring
set_option autoImplicit true

namespace KtorrentStream.Lib.BigEndian

-- A number as its bytes, the high one first.
def value : List UInt8 → Nat
  | [] => 0
  | b :: bs => b.toNat * 256 ^ bs.length + value bs

theorem value_lt (l : List UInt8) : value l < 256 ^ l.length := by
  induction l with
  | nil => decide
  | cons b bs ih =>
    have byte : b.toNat + 1 ≤ 256 := b.toNat_lt
    have scaled := Nat.mul_le_mul_right (256 ^ bs.length) byte
    rw [List.length_cons,pow_succ,value]
    rw [Nat.add_mul] at scaled
    omega

-- Byte by byte, the first difference decides.
def less : List UInt8 → List UInt8 → Bool
  | a :: as,b :: bs => if a < b then true else if a > b then false else less as bs
  | _,_ => false

theorem less_iff (length : as.length = bs.length) : less as bs = true ↔ value as < value bs := by
  induction as generalizing bs with
  | nil =>
    cases bs with
    | nil => simp [less,value]
    | cons b bs => cases length
  | cons a as ih =>
    cases bs with
    | nil => cases length
    | cons b bs =>
      have rest : as.length = bs.length := Nat.succ.inj length
      have small := value_lt as
      have small' := value_lt bs
      have high {x y : Nat} (less : x < y) : x * 256 ^ bs.length + 256 ^ bs.length ≤ y * 256 ^ bs.length := by
        have scaled := Nat.mul_le_mul_right (256 ^ bs.length) (Nat.succ_le_of_lt less)
        rwa [Nat.succ_mul] at scaled
      simp only [less,value,rest]
      rw [rest] at small
      by_cases below : a < b
      · have := high (UInt8.lt_iff_toNat_lt.mp below)
        rw [if_pos below]
        exact ⟨fun _ => by omega,fun _ => rfl⟩
      · rw [if_neg below]
        by_cases above : a > b
        · have := high (UInt8.lt_iff_toNat_lt.mp above)
          rw [if_pos above]
          exact ⟨fun no => (by cases no),fun _ => by omega⟩
        · have same : a.toNat = b.toNat := by
            rw [UInt8.lt_iff_toNat_lt] at below
            have above' : ¬ b.toNat < a.toNat := fun less => above (UInt8.lt_iff_toNat_lt.mpr less)
            omega
          rw [if_neg above,ih rest,same]
          omega

theorem value_inj (length : as.length = bs.length) (same : value as = value bs) : as = bs := by
  induction as generalizing bs with
  | nil => exact (List.length_eq_zero_iff.mp length.symm).symm
  | cons a as ih =>
    cases bs with
    | nil => cases length
    | cons b bs =>
      have rest : as.length = bs.length := Nat.succ.inj length
      have small := value_lt as
      have small' := value_lt bs
      simp only [value] at same
      rw [rest] at same small
      have heads : a.toNat = b.toNat := by
        have left : (a.toNat * 256 ^ bs.length + value as) / 256 ^ bs.length = a.toNat := by
          rw [Nat.mul_comm,Nat.mul_add_div (Nat.pow_pos (by decide)),Nat.div_eq_of_lt small,Nat.add_zero]
        have right : (b.toNat * 256 ^ bs.length + value bs) / 256 ^ bs.length = b.toNat := by
          rw [Nat.mul_comm,Nat.mul_add_div (Nat.pow_pos (by decide)),Nat.div_eq_of_lt small',Nat.add_zero]
        rw [← left,same,right]
      rw [UInt8.toNat.inj heads,ih rest (by rw [heads] at same; omega)]

-- The sum, and the carry out of the first byte.
def add : List UInt8 → List UInt8 → List UInt8 × Bool
  | a :: as,b :: bs =>
    let (rest,carry) := add as bs
    let r := a.toNat + b.toNat + carry.toNat
    if r > 255 then (UInt8.ofNat (r % 256) :: rest,true) else (UInt8.ofNat r :: rest,false)
  | _,_ => ([],false)

theorem add_spec (length : as.length = bs.length) :
    (add as bs).1.length = bs.length ∧
      value (add as bs).1 + (add as bs).2.toNat * 256 ^ bs.length = value as + value bs := by
  induction as generalizing bs with
  | nil =>
    cases bs with
    | nil => exact ⟨rfl,rfl⟩
    | cons b bs => cases length
  | cons a as ih =>
    cases bs with
    | nil => cases length
    | cons b bs =>
      have rest : as.length = bs.length := Nat.succ.inj length
      obtain ⟨same,sum⟩ := ih rest
      rw [add]
      generalize add as bs = inner_ at same sum
      obtain ⟨digits,carry⟩ := inner_
      simp only at same sum
      have byte := a.toNat_lt
      have byte' := b.toNat_lt
      have bit : carry.toNat ≤ 1 := Bool.toNat_le carry
      by_cases over_ : a.toNat + b.toNat + carry.toNat > 255
      · have back : a.toNat + b.toNat + carry.toNat = (a.toNat + b.toNat + carry.toNat) % 256 + 256 := by omega
        simp only [if_pos over_,List.length_cons,same,value,UInt8.toNat_ofNat',rest,pow_succ,Bool.toNat_true]
        refine ⟨trivial,?_⟩
        rw [Nat.mod_mod_of_dvd _ (by decide)]
        generalize (a.toNat + b.toNat + carry.toNat) % 256 = r at back
        have scaled := congrArg (· * 256 ^ bs.length) back
        simp only [Nat.add_mul] at scaled
        rw [Nat.one_mul,Nat.mul_comm (256 ^ bs.length)]
        omega
      · have small : (a.toNat + b.toNat + carry.toNat) % 2 ^ 8 = a.toNat + b.toNat + carry.toNat := by omega
        simp only [if_neg over_,List.length_cons,same,value,UInt8.toNat_ofNat',rest,small,Bool.toNat_false,Nat.add_mul]
        refine ⟨trivial,?_⟩
        omega

-- The difference, and whether the second number was the larger one.
def sub : List UInt8 → List UInt8 → List UInt8 × Bool
  | a :: as,b :: bs =>
    let (rest,carry) := sub as bs
    if a ≥ b then
      let r := a - b
      if carry then
        if r = 0 then (255 :: rest,true) else ((r - 1) :: rest,false)
      else (r :: rest,false)
    else
      let r := UInt8.ofNat (256 - (b.toNat - a.toNat))
      ((if carry then r - 1 else r) :: rest,true)
  | _,_ => ([],false)

theorem sub_spec (length : as.length = bs.length) :
    (sub as bs).1.length = bs.length ∧
      value as + (sub as bs).2.toNat * 256 ^ bs.length = value bs + value (sub as bs).1 := by
  induction as generalizing bs with
  | nil =>
    cases bs with
    | nil => exact ⟨rfl,rfl⟩
    | cons b bs => cases length
  | cons a as ih =>
    cases bs with
    | nil => cases length
    | cons b bs =>
      have rest : as.length = bs.length := Nat.succ.inj length
      obtain ⟨same,difference⟩ := ih rest
      rw [sub]
      generalize sub as bs = inner_ at same difference
      obtain ⟨digits,carry⟩ := inner_
      simp only at same difference
      have byte := a.toNat_lt
      have byte' := b.toNat_lt
      -- One digit d with its borrow makes up for the difference of the two bytes and the borrow so far.
      have digit (d : UInt8) (borrow : Bool) (made : a.toNat + borrow.toNat * 256 = b.toNat + d.toNat + carry.toNat) :
          (d :: digits).length = (b :: bs).length ∧
            value (a :: as) + borrow.toNat * 256 ^ (b :: bs).length = value (b :: bs) + value (d :: digits) := by
        have scaled := congrArg (· * 256 ^ bs.length) made
        simp only [Nat.add_mul] at scaled
        refine ⟨by rw [List.length_cons,same,List.length_cons],?_⟩
        simp only [value,List.length_cons,same,rest,pow_succ]
        rw [Nat.mul_comm (256 ^ bs.length),← Nat.mul_assoc]
        omega
      by_cases atLeast : a ≥ b
      · have more : b.toNat ≤ a.toNat := UInt8.le_iff_toNat_le.mp atLeast
        have minus : (a - b).toNat = a.toNat - b.toNat := UInt8.toNat_sub_of_le _ _ atLeast
        simp only [if_pos atLeast]
        cases carry with
        | false =>
          rw [if_neg (by decide)]
          refine digit (a - b) false ?_
          simp only [Bool.toNat_false,minus]
          omega
        | true =>
          rw [if_pos rfl]
          by_cases zero : a - b = 0
          · have none : (a - b).toNat = 0 := by rw [zero]; rfl
            rw [if_pos zero]
            refine digit 255 true ?_
            simp only [Bool.toNat_true,show (255 : UInt8).toNat = 255 from rfl]
            omega
          · have some_ : (a - b).toNat ≠ 0 := fun none => zero (UInt8.toNat.inj none)
            have one : (1 : UInt8).toNat = 1 := rfl
            have less : ((a - b) - 1).toNat = (a - b).toNat - 1 := by
              rw [UInt8.toNat_sub_of_le _ _ (UInt8.le_iff_toNat_le.mpr (by omega)),one]
            rw [if_neg zero]
            refine digit (a - b - 1) false ?_
            simp only [Bool.toNat_true,Bool.toNat_false,less]
            omega
      · have fewer : a.toNat < b.toNat := by
          rw [ge_iff_le,UInt8.le_iff_toNat_le] at atLeast
          omega
        have lent : (UInt8.ofNat (256 - (b.toNat - a.toNat))).toNat = 256 - (b.toNat - a.toNat) := by
          rw [UInt8.toNat_ofNat']
          omega
        have one : (1 : UInt8).toNat = 1 := rfl
        simp only [if_neg atLeast]
        cases carry with
        | false =>
          rw [if_neg (by decide)]
          refine digit _ true ?_
          simp only [Bool.toNat_false,Bool.toNat_true,lent]
          omega
        | true =>
          rw [if_pos rfl]
          refine digit _ true ?_
          rw [UInt8.toNat_sub_of_le _ _ (UInt8.le_iff_toNat_le.mpr (by omega)),lent,one]
          simp only [Bool.toNat_true]
          omega

-- Division by a small number, the remainder carried to the next byte.
def div (d rem : Nat) : List UInt8 → List UInt8
  | [] => []
  | b :: bs => UInt8.ofNat ((b.toNat + rem * 256) / d) :: div d ((b.toNat + rem * 256) % d) bs

theorem div_length (d rem : Nat) (l : List UInt8) : (div d rem l).length = l.length := by
  induction l generalizing rem with
  | nil => rfl
  | cons b bs ih => rw [div,List.length_cons,List.length_cons,ih]

theorem div_spec (positive : 0 < d) (small : rem < d) : value (div d rem l) = (rem * 256 ^ l.length + value l) / d := by
  induction l generalizing rem with
  | nil =>
    simp only [div,value,List.length_nil,pow_zero,Nat.mul_one,Nat.add_zero]
    exact (Nat.div_eq_of_lt small).symm
  | cons b bs ih =>
    have byte := b.toNat_lt
    have quotient : (b.toNat + rem * 256) / d < 256 := by
      rw [Nat.div_lt_iff_lt_mul positive]
      have scaled := Nat.mul_le_mul_right 256 (Nat.succ_le_of_lt small)
      rw [Nat.succ_mul] at scaled
      rw [Nat.mul_comm 256 d]
      omega
    rw [div,value,div_length,ih (Nat.mod_lt _ positive),UInt8.toNat_ofNat',Nat.mod_eq_of_lt quotient]
    have parts := Nat.div_add_mod (b.toNat + rem * 256) d
    have whole : rem * 256 ^ (b :: bs).length + value (b :: bs) =
        (((b.toNat + rem * 256) / d) * 256 ^ bs.length) * d + (((b.toNat + rem * 256) % d) * 256 ^ bs.length + value bs) := by
      have scaled := congrArg (· * 256 ^ bs.length) parts
      simp only [Nat.add_mul] at scaled
      simp only [value,List.length_cons,pow_succ]
      rw [show rem * (256 ^ bs.length * 256) = rem * 256 * 256 ^ bs.length by ring,
        show (b.toNat + rem * 256) / d * 256 ^ bs.length * d = d * ((b.toNat + rem * 256) / d) * 256 ^ bs.length by ring]
      omega
    rw [whole,Nat.mul_comm _ d,Nat.mul_add_div positive]

-- The low n bytes of a number, and the bytes it has without leading zeros.
def digits : Nat → Nat → List UInt8
  | 0,_ => []
  | n + 1,x => UInt8.ofNat (x / 256 ^ n) :: digits n x

def size (x : Nat) : Nat := if x = 0 then 0 else x.log2 / 8 + 1

def minimal (x : Nat) : List UInt8 := digits (size x) x

theorem digits_length (n x : Nat) : (digits n x).length = n := by
  induction n with
  | zero => rfl
  | succ n ih => simp [digits,ih]

theorem value_digits (n x : Nat) : value (digits n x) = x % 256 ^ n := by
  induction n with
  | zero => simp [digits,value,Nat.mod_one]
  | succ n ih =>
    have byte : (UInt8.ofNat (x / 256 ^ n)).toNat = x / 256 ^ n % 256 := UInt8.toNat_ofNat'
    rw [digits,value,ih,digits_length,pow_succ,Nat.mod_mul,byte,Nat.mul_comm,Nat.add_comm]

theorem lt_size (x : Nat) : x < 256 ^ size x := by
  unfold size
  split
  · rename_i zero
    simp [zero]
  · have below : x < 2 ^ (x.log2 + 1) := Nat.lt_log2_self
    have rounded : x.log2 + 1 ≤ 8 * (x.log2 / 8 + 1) := by omega
    calc x < 2 ^ (x.log2 + 1) := below
      _ ≤ 2 ^ (8 * (x.log2 / 8 + 1)) := Nat.pow_le_pow_right (by decide) rounded
      _ = 256 ^ (x.log2 / 8 + 1) := pow_mul 2 8 _

theorem value_minimal (x : Nat) : value (minimal x) = x := by
  rw [minimal,value_digits,Nat.mod_eq_of_lt (lt_size x)]

theorem minimal_length (x : Nat) : (minimal x).length = size x := digits_length _ _

theorem size_le_iff (n x : Nat) : size x ≤ n ↔ x < 256 ^ n := by
  constructor
  · intro le
    exact Nat.lt_of_lt_of_le (lt_size x) (Nat.pow_le_pow_right (by decide) le)
  · intro less
    unfold size
    split
    · exact Nat.zero_le _
    · rename_i some'
      have power : (256 : Nat) ^ n = 2 ^ (8 * n) := (pow_mul 2 8 n).symm
      rw [power] at less
      have log : x.log2 < 8 * n := (Nat.log2_lt some').mpr less
      omega

end KtorrentStream.Lib.BigEndian
