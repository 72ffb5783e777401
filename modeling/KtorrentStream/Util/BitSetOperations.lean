import KtorrentStream.Util.BitSet
import Mathlib.Data.Finset.Basic
set_option autoImplicit true

namespace KtorrentStream.Util
namespace BitSet

-- A loop over the first m bits that turns every bit into what f makes of it.
def setFirst (bs : BitSet) (f : Nat → Bool → Bool) (m : Nat) : BitSet :=
  (List.range m).foldl (fun bs i => bs.set i (f i (bs.get i))) bs

def setEach (bs : BitSet) (f : Nat → Bool → Bool) : BitSet := bs.setFirst f bs.numBits

def invert (bs : BitSet) : BitSet := bs.setEach fun _ on => !on

-- operator -= only turns bits off that are on in both.
def subtract (bs other : BitSet) : BitSet :=
  (List.range bs.numBits).foldl (fun bs i => if bs.get i && other.get i then bs.set i false else bs) bs

def clear (bs : BitSet) : BitSet := bs.setAll false

-- The bytes of the other set are 0 behind its end, and num_on is the sum of the
-- BitCount of the new bytes.
def combine (bs : BitSet) (op : UInt8 → UInt8 → UInt8) (other : BitSet) : BitSet where
  numBits := bs.numBits
  data := bs.data.mapIdx fun i byte => op byte (other.data.getD i 0)
  numOn := bs.numOn
  sized := by rw [List.length_mapIdx,bs.sized]

def orBitSet (bs other : BitSet) : BitSet := (bs.combine (· ||| ·) other).updateNumOnBits

def andBitSet (bs other : BitSet) : BitSet := (bs.combine (· &&& ·) other).updateNumOnBits

-- operator ==: memcmp over the bytes.
def equals (bs other : BitSet) : Bool := bs.numBits == other.numBits && bs.data == other.data

-- Any bit of the data, also one behind the last bit of the set.
def bitAt (bs : BitSet) (k : Nat) : Bool := (bs.byteAt k).toNat.testBit (7 - k % 8)

theorem get_eq_bitAt (bs : BitSet) (bound : i < bs.numBits) : bs.get i = bs.bitAt i := bs.get_of_lt bound

theorem numBits_le (bs : BitSet) : bs.numBits ≤ 8 * bs.data.length := by
  rw [bs.sized,numBytesOf]
  split <;> omega

theorem set_same (bs : BitSet) (i : Nat) : bs.set i (bs.get i) = bs := by
  rw [set]
  split
  · rfl
  · cases bs.get i <;> rfl

theorem subtract_eq (bs other : BitSet) : bs.subtract other = bs.setEach fun i on => on && !other.get i := by
  have step : (fun (bs : BitSet) i => if bs.get i && other.get i then bs.set i false else bs) =
      fun bs i => bs.set i (bs.get i && !other.get i) := by
    funext bs i
    cases there : other.get i with
    | true =>
        rw [Bool.and_true,Bool.not_true,Bool.and_false]
        split
        · rfl
        · rename_i off
          have same := bs.set_same i
          rw [Bool.eq_false_of_not_eq_true off] at same
          exact same.symm
    | false =>
        rw [Bool.and_false,if_neg Bool.false_ne_true,Bool.not_false,Bool.and_true,set_same]
  rw [subtract,step]
  rfl

theorem setFirst_succ (bs : BitSet) (f : Nat → Bool → Bool) (m : Nat) :
    bs.setFirst f (m + 1) = (bs.setFirst f m).set m (f m ((bs.setFirst f m).get m)) := by
  rw [setFirst,List.range_succ,List.foldl_append]
  rfl

theorem setFirst_spec (bs : BitSet) (f : Nat → Bool → Bool) (m : Nat) (counted : bs.Counted) :
    (bs.setFirst f m).numBits = bs.numBits ∧ (bs.setFirst f m).Counted ∧
      ∀ i, (bs.setFirst f m).get i = if i < m ∧ i < bs.numBits then f i (bs.get i) else bs.get i := by
  induction m with
  | zero => exact ⟨rfl,counted,fun i => (if_neg (fun both => Nat.not_lt_zero i both.1)).symm⟩
  | succ m ih =>
      obtain ⟨bits,right,gets⟩ := ih
      rw [setFirst_succ]
      refine ⟨(set_numBits ..).trans bits,set_counted right _ _,fun i => ?_⟩
      rw [set_get,bits,gets m,gets i]
      by_cases here : m = i
      · subst here
        by_cases inside : m < bs.numBits
        · rw [if_pos ⟨rfl,inside⟩,if_neg (fun both => Nat.lt_irrefl m both.1),if_pos ⟨Nat.lt_succ_self m,inside⟩]
        · rw [if_neg (fun both => inside both.2),if_neg (fun both => inside both.2),if_neg (fun both => inside both.2)]
      · rw [if_neg (fun both => here both.1)]
        have same : (i < m + 1 ∧ i < bs.numBits) ↔ (i < m ∧ i < bs.numBits) := by omega
        simp only [same]

theorem setEach_numBits (bs : BitSet) (f : Nat → Bool → Bool) : (bs.setEach f).numBits = bs.numBits := by
  have each : ∀ m, (bs.setFirst f m).numBits = bs.numBits := by
    intro m
    induction m with
    | zero => rfl
    | succ m ih => rw [setFirst_succ,set_numBits,ih]
  exact each bs.numBits

theorem setEach_spec (bs : BitSet) (f : Nat → Bool → Bool) (counted : bs.Counted) :
    (bs.setEach f).numBits = bs.numBits ∧ (bs.setEach f).Counted ∧
      ∀ i < bs.numBits, (bs.setEach f).get i = f i (bs.get i) := by
  obtain ⟨bits,right,gets⟩ := bs.setFirst_spec f bs.numBits counted
  exact ⟨bits,right,fun i inside => (gets i).trans (if_pos ⟨inside,inside⟩)⟩

theorem combine_byteAt (bs other : BitSet) (op : UInt8 → UInt8 → UInt8) (bound : k < 8 * bs.data.length) :
    (bs.combine op other).byteAt k = op (bs.byteAt k) (other.byteAt k) := by
  have inside : k / 8 < bs.data.length := by omega
  rw [byteAt,byteAt,byteAt,combine,List.getD_eq_getElem?_getD,List.getElem?_mapIdx,List.getElem?_eq_getElem inside,
    List.getD_eq_getElem?_getD (l := bs.data),List.getElem?_eq_getElem inside]
  rfl

theorem orBitSet_bitAt (bs other : BitSet) (bound : k < 8 * bs.data.length) :
    (bs.orBitSet other).bitAt k = (bs.bitAt k || other.bitAt k) := by
  change ((bs.combine (· ||| ·) other).byteAt k).toNat.testBit _ = _
  rw [combine_byteAt bs other _ bound,UInt8.toNat_or,Nat.testBit_or]
  rfl

theorem andBitSet_bitAt (bs other : BitSet) (bound : k < 8 * bs.data.length) :
    (bs.andBitSet other).bitAt k = (bs.bitAt k && other.bitAt k) := by
  change ((bs.combine (· &&& ·) other).byteAt k).toNat.testBit _ = _
  rw [combine_byteAt bs other _ bound,UInt8.toNat_and,Nat.testBit_and]
  rfl

def padding (bs : BitSet) : Nat :=
  (List.range (8 * bs.data.length - bs.numBits)).countP fun k => bs.bitAt (bs.numBits + k)

theorem padding_eq_zero (bs : BitSet) : bs.padding = 0 ↔ bs.Clean := by
  rw [padding,List.countP_eq_zero]
  constructor
  · intro none k beyond bound
    have off := none (k - bs.numBits) (List.mem_range.mpr (by omega))
    rw [show bs.numBits + (k - bs.numBits) = k by omega] at off
    exact Bool.eq_false_of_not_eq_true off
  · intro clean k member
    have bound := List.mem_range.mp member
    exact Bool.eq_false_iff.mp (clean (bs.numBits + k) (by omega) (by omega))

-- Counting by bytes counts the padding too.
theorem updateNumOnBits_numOn (bs : BitSet) : bs.updateNumOnBits.numOn = bs.count + bs.padding := by
  have enough := bs.numBits_le
  change (bs.data.map bitCount).sum = _
  rw [sum_bitCount,show 8 * bs.data.length = bs.numBits + (8 * bs.data.length - bs.numBits) by omega,
    List.range_add,List.countP_append,List.countP_map,count,padding]
  congr 1
  exact List.countP_congr fun k member => by rw [bs.get_eq_bitAt (List.mem_range.mp member)]; rfl

theorem updateNumOnBits_counted_iff (bs : BitSet) : bs.updateNumOnBits.Counted ↔ bs.Clean := by
  have same : bs.updateNumOnBits.count = bs.count := rfl
  rw [Counted,updateNumOnBits_numOn,same,← padding_eq_zero]
  omega

theorem byte_ext {one two : UInt8} (same : ∀ j < 8, one.toNat.testBit j = two.toNat.testBit j) : one = two := by
  apply UInt8.toNat_inj.mp
  apply Nat.eq_of_testBit_eq
  intro j
  by_cases short : j < 8
  · exact same j short
  · have big : 2 ^ 8 ≤ 2 ^ j := Nat.pow_le_pow_right (by decide) (by omega)
    rw [Nat.testBit_lt_two_pow (Nat.lt_of_lt_of_le one.toNat_lt big),Nat.testBit_lt_two_pow (Nat.lt_of_lt_of_le two.toNat_lt big)]

theorem data_ext {bs other : BitSet} (length : bs.data.length = other.data.length)
    (same : ∀ k < 8 * bs.data.length, bs.bitAt k = other.bitAt k) : bs.data = other.data := by
  apply List.ext_getElem length
  intro i one two
  apply byte_ext
  intro j short
  have bit := same (8 * i + (7 - j)) (by omega)
  rw [bitAt,bitAt,byteAt,byteAt,show (8 * i + (7 - j)) / 8 = i by omega,show 7 - (8 * i + (7 - j)) % 8 = j by omega,
    List.getD_eq_getElem?_getD,List.getD_eq_getElem?_getD,List.getElem?_eq_getElem one,List.getElem?_eq_getElem two] at bit
  exact bit

end BitSet
end KtorrentStream.Util
