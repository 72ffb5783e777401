import Mathlib.Data.UInt
set_option autoImplicit true

namespace KtorrentStream.Utp

-- The comparisons and the difference of 16-bit sequence numbers. In the source
-- both operands are promoted to int, so qAbs(b - a) is a distance of integers
-- and not one of residues.
def seqNrDistance (a b : UInt16) : Nat := ((b.toNat : Int) - a.toNat).natAbs

def seqNrCmpSE (a b : UInt16) : Bool :=
  if seqNrDistance a b < 32768 then a ≤ b else a > b

def seqNrCmpS (a b : UInt16) : Bool :=
  if seqNrDistance a b < 32768 then a < b else a > b

def seqNrDiff (a b : UInt16) : UInt16 :=
  if seqNrDistance a b < 32768 then b - a
  else if b > a then UInt16.ofNat (a.toNat + (65536 - b.toNat))
  else UInt16.ofNat (b.toNat + (65536 - a.toNat))

-- A connection counts its packets without bound; on the wire a number is its
-- residue. The lemmas below say how far apart two counts may be for the three
-- functions to agree with the counts.
def seqOf (count : Nat) : UInt16 := UInt16.ofNat count

@[simp] theorem seqOf_toNat (count : Nat) : (seqOf count).toNat = count % 65536 := by
  simp [seqOf]

theorem seqOf_succ (count : Nat) : seqOf count + 1 = seqOf (count + 1) := by
  simp [seqOf]

theorem seqOf_of_toNat (nr : UInt16) : seqOf nr.toNat = nr := by
  simp [seqOf]

theorem seqOf_sub {m n : Nat} (ordered : m ≤ n) : seqOf n - seqOf m = seqOf (n - m) := by
  apply UInt16.toNat_inj.mp
  simp only [UInt16.toNat_sub,seqOf_toNat]
  omega

theorem seqOf_sub_toNat {m n : Nat} (ordered : m ≤ n) (near : n - m < 65536) :
    (seqOf n - seqOf m).toNat = n - m := by
  rw [seqOf_sub ordered,seqOf_toNat]
  omega

theorem seqOf_inj {m n : Nat} (near : m < n + 65536) (near' : n < m + 65536)
    (equal : seqOf m = seqOf n) : m = n := by
  have residues : m % 65536 = n % 65536 := by
    simpa using congrArg UInt16.toNat equal
  omega

theorem seqNrCmpSE_seqOf {m n : Nat} (near : m < n + 32768) (near' : n < m + 32768) :
    seqNrCmpSE (seqOf m) (seqOf n) = decide (m ≤ n) := by
  rw [seqNrCmpSE]
  simp only [seqNrDistance,seqOf_toNat,UInt16.le_iff_toNat_le,gt_iff_lt,UInt16.lt_iff_toNat_lt]
  split <;> rw [decide_eq_decide] <;> omega

theorem seqNrCmpS_seqOf {m n : Nat} (near : m < n + 32768) (near' : n < m + 32768) :
    seqNrCmpS (seqOf m) (seqOf n) = decide (m < n) := by
  rw [seqNrCmpS]
  simp only [seqNrDistance,seqOf_toNat,gt_iff_lt,UInt16.lt_iff_toNat_lt]
  split <;> rw [decide_eq_decide] <;> omega

-- The difference is right up to a distance of 32768, one more than the
-- comparisons. Past that the second branch measures the other way round.
theorem seqNrDiff_seqOf {m n : Nat} (ordered : m ≤ n) (near : n ≤ m + 32768) :
    (seqNrDiff (seqOf m) (seqOf n)).toNat = n - m := by
  rw [seqNrDiff]
  simp only [seqNrDistance,seqOf_toNat,gt_iff_lt,UInt16.lt_iff_toNat_lt]
  split
  · rw [UInt16.toNat_sub,seqOf_toNat,seqOf_toNat]
    omega
  · split <;> simp only [UInt16.toNat_ofNat'] <;> omega

-- Whatever the two numbers are, a number the comparison takes as ahead is 1 to
-- 32768 steps further on, so it stands for a count of its own.
theorem ahead_of_not_cmpSE (last nr : UInt16) (ahead : seqNrCmpSE nr last = false) :
    1 ≤ (nr - last).toNat ∧ (nr - last).toNat ≤ 32768 := by
  rw [seqNrCmpSE] at ahead
  have bound := UInt16.toNat_lt nr
  have bound' := UInt16.toNat_lt last
  simp only [seqNrDistance,UInt16.le_iff_toNat_le,gt_iff_lt,UInt16.lt_iff_toNat_lt] at ahead
  rw [UInt16.toNat_sub]
  split at ahead <;> simp only [decide_eq_false_iff_not] at ahead <;> omega

theorem seqNrCmpS_of_not_cmpSE {a b : UInt16} (late : seqNrCmpSE a b = false) : seqNrCmpS b a = true := by
  rw [seqNrCmpSE] at late
  rw [seqNrCmpS]
  simp only [seqNrDistance,UInt16.le_iff_toNat_le,gt_iff_lt,UInt16.lt_iff_toNat_lt] at late ⊢
  split at late <;> simp only [decide_eq_false_iff_not] at late <;> split <;> simp only [decide_eq_true_eq] <;> omega

theorem seqOf_add_sub (count : Nat) (nr : UInt16) :
    seqOf (count + (nr - seqOf count).toNat) = nr := by
  apply UInt16.toNat_inj.mp
  have bound := UInt16.toNat_lt nr
  simp only [UInt16.toNat_sub,seqOf_toNat]
  omega

end KtorrentStream.Utp
