import KtorrentStream.Lib.Bits
import Mathlib.Data.List.Count
import Mathlib.Data.List.Range
set_option autoImplicit true

namespace KtorrentStream.Util
open KtorrentStream.Lib

def numBytesOf (numBits : Nat) : Nat := numBits / 8 + (if numBits % 8 > 0 then 1 else 0)

@[ext] structure BitSet where
  numBits : Nat
  data : List UInt8
  numOn : Nat
  sized : data.length = numBytesOf numBits

namespace BitSet

-- 0x01 << (7 - bit): the first bit of the set is the highest bit of its byte.
def mask (i : Nat) : UInt8 := 1 <<< UInt8.ofNat (7 - i % 8)

def byteAt (bs : BitSet) (i : Nat) : UInt8 := bs.data.getD (i / 8) 0

def get (bs : BitSet) (i : Nat) : Bool :=
  if i ≥ bs.numBits then false else bs.byteAt i &&& mask i != 0

def withByte (bs : BitSet) (i : Nat) (byte : UInt8) (numOn : Nat) : BitSet where
  numBits := bs.numBits
  data := bs.data.set (i / 8) byte
  numOn := numOn
  sized := by rw [List.length_set,bs.sized]

def set (bs : BitSet) (i : Nat) (on : Bool) : BitSet :=
  if i ≥ bs.numBits then bs
  else if on && !bs.get i then bs.withByte i (bs.byteAt i ||| mask i) (bs.numOn + 1)
  else if !on && bs.get i then bs.withByte i (bs.byteAt i &&& ~~~ mask i) (bs.numOn - 1)
  else bs

def new (numBits : Nat) : BitSet := ⟨numBits,List.replicate (numBytesOf numBits) 0,0,List.length_replicate⟩

def setAll (bs : BitSet) (on : Bool) : BitSet where
  numBits := bs.numBits
  data := List.replicate (numBytesOf bs.numBits) (if on then 0xFF else 0x00)
  numOn := if on then bs.numBits else 0
  sized := List.length_replicate

-- file.read(bs.getData(),bs.getNumBytes())
def readData (bs : BitSet) (bytes : List UInt8) : BitSet where
  numBits := bs.numBits
  data := (bytes ++ bs.data.drop bytes.length).take bs.data.length
  numOn := bs.numOn
  sized := by rw [← bs.sized,List.length_take,List.length_append,List.length_drop]; omega

-- The entry of the table BitCount.
def bitCount (byte : UInt8) : Nat := (List.range 8).countP fun bit => byte.toNat.testBit (7 - bit)

def updateNumOnBits (bs : BitSet) : BitSet := {bs with numOn := (bs.data.map bitCount).sum}

-- BitSet(d,num_bits): the bits are counted one by one.
def ofData (d : List UInt8) (numBits : Nat) : BitSet :=
  let bs := (new numBits).readData d
  {bs with numOn := (List.range numBits).countP bs.get}

def numOnBits (bs : BitSet) : Nat := bs.numOn

def allOn (bs : BitSet) : Bool := bs.numOn == bs.numBits

theorem inside (bs : BitSet) (bound : i < bs.numBits) : i / 8 < bs.data.length := by
  rw [bs.sized,numBytesOf]
  split <;> omega

theorem get_of_lt (bs : BitSet) (bound : i < bs.numBits) : bs.get i = (bs.byteAt i).toNat.testBit (7 - i % 8) := by
  rw [get,if_neg (by omega),mask,byte_bit _ (by omega)]

theorem get_of_ge (bs : BitSet) (beyond : bs.numBits ≤ i) : bs.get i = false := if_pos beyond

theorem withByte_byteAt (bs : BitSet) (bound : i < bs.numBits) :
    (bs.withByte i byte on).byteAt j = if i / 8 = j / 8 then byte else bs.byteAt j := by
  have place := bs.inside bound
  rw [byteAt,byteAt,withByte,List.getD_eq_getElem?_getD,List.getD_eq_getElem?_getD,List.getElem?_set]
  split <;> rfl

@[simp] theorem set_numBits (bs : BitSet) (i : Nat) (on : Bool) : (bs.set i on).numBits = bs.numBits := by
  unfold set
  split
  · rfl
  · split
    · rfl
    · split <;> rfl

theorem set_get (bs : BitSet) (i j : Nat) (on : Bool) :
    (bs.set i on).get j = if i = j ∧ i < bs.numBits then on else bs.get j := by
  by_cases beyond : i ≥ bs.numBits
  · rw [set,if_pos beyond,if_neg (by omega)]
  have bound : i < bs.numBits := by omega
  by_cases inside : j < bs.numBits
  · have place : i = j ↔ i / 8 = j / 8 ∧ 7 - i % 8 = 7 - j % 8 := by omega
    rw [set,if_neg beyond]
    split
    · rename_i turnOn
      rw [Bool.and_eq_true] at turnOn
      have later : j < (bs.withByte i (bs.byteAt i ||| mask i) (bs.numOn + 1)).numBits := inside
      rw [get_of_lt _ later,withByte_byteAt bs bound,get_of_lt bs inside,mask]
      by_cases same : i / 8 = j / 8
      · rw [if_pos same,or_bit _ (by omega),byteAt,byteAt,same,turnOn.1]
        by_cases bit : 7 - i % 8 = 7 - j % 8
        · simp [place.mpr ⟨same,bit⟩,inside]
        · have other : i ≠ j := fun e => bit (place.mp e).2
          simp [bit,other]
      · rw [if_neg same,if_neg fun e => same (place.mp e.1).1]
    · split
      · rename_i turnOff
        rw [Bool.and_eq_true,Bool.not_eq_true'] at turnOff
        have later : j < (bs.withByte i (bs.byteAt i &&& ~~~ mask i) (bs.numOn - 1)).numBits := inside
        rw [get_of_lt _ later,withByte_byteAt bs bound,get_of_lt bs inside,mask]
        by_cases same : i / 8 = j / 8
        · rw [if_pos same,and_not_bit _ (by omega) (by omega),byteAt,byteAt,same,turnOff.1]
          by_cases bit : 7 - i % 8 = 7 - j % 8
          · simp [place.mpr ⟨same,bit⟩,inside]
          · have other : i ≠ j := fun e => bit (place.mp e).2
            simp [bit,other]
        · rw [if_neg same,if_neg fun e => same (place.mp e.1).1]
      · rename_i keepOff keepOn
        split
        · rename_i same
          rw [← same.1]
          cases on <;> simp_all
        · rfl
  · rw [get_of_ge _ (by simpa using inside),get_of_ge _ (by omega),if_neg (by omega)]

theorem new_numBits (numBits : Nat) : (new numBits).numBits = numBits := rfl

theorem new_get (numBits i : Nat) : (new numBits).get i = false := by
  by_cases bound : i < numBits
  · have zero : (new numBits).byteAt i = 0 := by
      rw [byteAt,new,List.getD_eq_getElem?_getD]
      cases place : (List.replicate (numBytesOf numBits) (0 : UInt8))[i / 8]? with
      | none => rfl
      | some byte => exact (List.mem_replicate.mp (List.mem_of_getElem? place)).2
    rw [get_of_lt (new numBits) bound,zero]
    exact Nat.zero_testBit _
  · exact get_of_ge _ (by show numBits ≤ i; omega)

theorem setAll_get (bs : BitSet) (on : Bool) (bound : i < bs.numBits) : (bs.setAll on).get i = on := by
  have full : (bs.setAll on).byteAt i = if on then 0xFF else 0x00 := by
    have place := (bs.setAll on).inside (i := i) bound
    rw [setAll,List.length_replicate] at place
    rw [byteAt,setAll,List.getD_eq_getElem?_getD,List.getElem?_replicate,if_pos place]
    rfl
  rw [get_of_lt (bs.setAll on) bound,full]
  cases on with
  | false => exact Nat.zero_testBit _
  | true =>
    have all : ∀ k : Fin 8, (0xFF : UInt8).toNat.testBit k.val = true := by decide
    exact all ⟨7 - i % 8,by omega⟩

-- The number of indices the set holds.
def count (bs : BitSet) : Nat := (List.range bs.numBits).countP bs.get

-- num_on is right as long as no bit behind the last one is on.
def Counted (bs : BitSet) : Prop := bs.numOn = bs.count

theorem new_counted (numBits : Nat) : (new numBits).Counted := by
  have none : (List.range numBits).countP (new numBits).get = 0 :=
    List.countP_eq_zero.mpr fun i _ => by rw [new_get]; exact Bool.false_ne_true
  exact none.symm

theorem setAll_counted (bs : BitSet) (on : Bool) : (bs.setAll on).Counted := by
  have all : ∀ i ∈ List.range bs.numBits, (bs.setAll on).get i = on := fun i member =>
    setAll_get bs on (List.mem_range.mp member)
  show (if on then bs.numBits else 0) = (List.range bs.numBits).countP (bs.setAll on).get
  cases on with
  | true => rw [List.countP_eq_length.mpr all]; simp
  | false => rw [List.countP_eq_zero.mpr fun i member => by rw [all i member]; exact Bool.false_ne_true]; simp

-- Changing the predicate at one element of a range moves the count by one.
theorem countP_change {p q : Nat → Bool} (bound : i < n) (off : p i = false) (on : q i = true)
    (others : ∀ j, j ≠ i → q j = p j) : (List.range n).countP q = (List.range n).countP p + 1 := by
  induction n with
  | zero => omega
  | succ n ih =>
    rw [List.range_succ,List.countP_append,List.countP_append,List.countP_singleton,List.countP_singleton]
    by_cases last : i = n
    · have front : (List.range n).countP q = (List.range n).countP p :=
        List.countP_congr fun j member => by rw [others j (by have := List.mem_range.mp member; omega)]
      rw [front,← last,off,on]
      simp
    · rw [ih (by omega),others n (fun e => last e.symm)]
      omega

theorem set_counted (counted : Counted bs) (i : Nat) (on : Bool) : (bs.set i on).Counted := by
  by_cases change : i < bs.numBits ∧ bs.get i ≠ on
  · have others : ∀ j, j ≠ i → (bs.set i on).get j = bs.get j := fun j other => by
      rw [set_get,if_neg fun e => other e.1.symm]
    have here : (bs.set i on).get i = on := by rw [set_get,if_pos ⟨rfl,change.1⟩]
    unfold Counted count at *
    rw [set_numBits]
    cases on with
    | true =>
      have was : bs.get i = false := by simpa using change.2
      rw [countP_change change.1 was here others,← counted]
      simp [set,withByte,was,show ¬ i ≥ bs.numBits by omega]
    | false =>
      have was : bs.get i = true := by simpa using change.2
      have back := countP_change change.1 here was fun j other => (others j other).symm
      have less : (bs.set i false).numOn = bs.numOn - 1 := by
        simp [set,withByte,was,show ¬ i ≥ bs.numBits by omega]
      omega
  · have same : bs.set i on = bs := by
      unfold set
      split
      · rfl
      · have kept : bs.get i = on := by
          by_contra differs
          exact change ⟨by omega,differs⟩
        simp [kept]
    rwa [same]

def Clean (bs : BitSet) : Prop :=
  ∀ k, bs.numBits ≤ k → k < 8 * bs.data.length → (bs.byteAt k).toNat.testBit (7 - k % 8) = false

theorem new_clean (numBits : Nat) : (new numBits).Clean := by
  intro k beyond bound
  have zero : (new numBits).byteAt k = 0 := by
    rw [byteAt,new,List.getD_eq_getElem?_getD,List.getElem?_replicate]
    split <;> rfl
  rw [zero]
  exact Nat.zero_testBit _

theorem withByte_clean (clean : Clean bs) (bound : i < bs.numBits)
    (kept : ∀ j < 8, j ≠ 7 - i % 8 → byte.toNat.testBit j = (bs.byteAt i).toNat.testBit j) :
    (bs.withByte i byte on).Clean := by
  intro k beyond within
  rw [withByte,List.length_set] at within
  have behind : bs.numBits ≤ k := beyond
  rw [withByte_byteAt bs bound]
  split
  · rename_i same
    rw [kept _ (by omega) (by omega),byteAt,same]
    exact clean k behind within
  · exact clean k behind within

theorem set_clean (clean : Clean bs) (i : Nat) (on : Bool) : (bs.set i on).Clean := by
  unfold set
  split
  · exact clean
  · have bound : i < bs.numBits := by omega
    split
    · refine withByte_clean clean bound fun j short other => ?_
      rw [mask,or_bit _ (by omega)]
      simp [Ne.symm other]
    · split
      · refine withByte_clean clean bound fun j short other => ?_
        rw [mask,and_not_bit _ (by omega) short]
        simp [Ne.symm other]
      · exact clean

-- Counting byte by byte is counting bit by bit over all bits of the data.
theorem sum_bitCount (data : List UInt8) :
    (data.map bitCount).sum =
      (List.range (8 * data.length)).countP fun k => (data.getD (k / 8) 0).toNat.testBit (7 - k % 8) := by
  induction data using List.reverseRecOn with
  | nil => rfl
  | append_singleton data byte ih =>
    have front : ∀ k ∈ List.range (8 * data.length),
        ((data ++ [byte]).getD (k / 8) 0).toNat.testBit (7 - k % 8) = (data.getD (k / 8) 0).toNat.testBit (7 - k % 8) := by
      intro k member
      have bound := List.mem_range.mp member
      rw [List.getD_append _ _ _ _ (by omega)]
    have last : ∀ bit ∈ List.range 8,
        ((data ++ [byte]).getD ((8 * data.length + bit) / 8) 0).toNat.testBit (7 - (8 * data.length + bit) % 8) =
          byte.toNat.testBit (7 - bit) := by
      intro bit member
      have bound := List.mem_range.mp member
      rw [show (8 * data.length + bit) / 8 = data.length by omega,show (8 * data.length + bit) % 8 = bit by omega,
        List.getD_append_right _ _ _ _ (Nat.le_refl _)]
      simp
    rw [List.map_append,List.sum_append,ih,List.length_append,List.length_singleton,Nat.mul_add,Nat.mul_one,
      List.range_add,List.countP_append,List.countP_map]
    congr 1
    · exact List.countP_congr fun k member => by rw [front k member]
    · show bitCount byte + 0 = _
      rw [Nat.add_zero,bitCount]
      exact List.countP_congr fun bit member => by rw [Function.comp,last bit member]

theorem updateNumOnBits_counted (clean : Clean bs) : bs.updateNumOnBits.Counted := by
  have enough : bs.numBits ≤ 8 * bs.data.length := by
    rw [bs.sized,numBytesOf]
    split <;> omega
  have same : ∀ k ∈ List.range bs.numBits, (bs.data.getD (k / 8) 0).toNat.testBit (7 - k % 8) = bs.get k := fun k member =>
    (bs.get_of_lt (List.mem_range.mp member)).symm
  show (bs.data.map bitCount).sum = (List.range bs.numBits).countP bs.updateNumOnBits.get
  rw [sum_bitCount,show 8 * bs.data.length = bs.numBits + (8 * bs.data.length - bs.numBits) by omega,
    List.range_add,List.countP_append,List.countP_map]
  have rest : (List.range (8 * bs.data.length - bs.numBits)).countP
      ((fun k => (bs.data.getD (k / 8) 0).toNat.testBit (7 - k % 8)) ∘ (bs.numBits + ·)) = 0 := by
    refine List.countP_eq_zero.mpr fun k member => ?_
    have bound := List.mem_range.mp member
    have off := clean (bs.numBits + k) (by omega) (by omega)
    rw [Function.comp]
    simpa [byteAt] using off
  rw [rest,Nat.add_zero]
  exact List.countP_congr fun k member => by rw [same k member]; rfl

theorem readData_self (bs zero : BitSet) (fits : zero.numBits = bs.numBits) :
    (zero.readData bs.data).updateNumOnBits = bs.updateNumOnBits := by
  have long : zero.data.length = bs.data.length := by rw [zero.sized,bs.sized,fits]
  have same : (bs.data ++ zero.data.drop bs.data.length).take zero.data.length = bs.data := by
    rw [long,List.drop_eq_nil_of_le (by omega),List.append_nil,List.take_length]
  apply BitSet.ext
  · exact fits
  · exact same
  · show (List.map bitCount _).sum = _
    rw [readData]
    simp only [same]
    rfl

end BitSet

end KtorrentStream.Util
