import KtorrentStream.Lib.Along
import KtorrentStream.Util.BitSetOperations
import Mathlib.Data.Finset.SDiff
import Mathlib.Data.Finset.Range
set_option autoImplicit true

namespace KtorrentStream.Util
open KtorrentStream.Lib

-- What is done with a number of bit sets of n bits each. A BITFIELD message has as
-- many bytes as the set.
inductive BitSetCall (n : Nat) where
  | new
  | ofData (bytes : List UInt8) (sized : bytes.length = numBytesOf n)
  | copy (k : Nat)
  | set (k i : Nat) (on : Bool)
  | setAll (k : Nat) (on : Bool)
  | clear (k : Nat)
  | invert (k : Nat)
  | orBitSet (k j : Nat)
  | andBitSet (k j : Nat)
  | subtract (k j : Nat)
  | updateNumOnBits (k : Nat)
  | equals (k j : Nat)

abbrev BitSets (n : Nat) := List {bs : BitSet // bs.numBits = n}

def onPair (all : List α) (k j : Nat) (f : α → α → α) : List α :=
  match all[k]?,all[j]? with
  | some a,some b => all.set k (f a b)
  | _,_ => all

def BitSets.handle {n : Nat} (all : BitSets n) : BitSetCall n → BitSets n
  | .new => all ++ [⟨.new n,rfl⟩]
  | .ofData bytes _ => all ++ [⟨.ofData bytes n,rfl⟩]
  | .copy k => all ++ all[k]?.toList
  | .set k i on => all.modify k fun bs => ⟨bs.val.set i on,(BitSet.set_numBits ..).trans bs.property⟩
  | .setAll k on => all.modify k fun bs => ⟨bs.val.setAll on,bs.property⟩
  | .clear k => all.modify k fun bs => ⟨bs.val.clear,bs.property⟩
  | .invert k => all.modify k fun bs => ⟨bs.val.invert,(BitSet.setEach_numBits ..).trans bs.property⟩
  | .orBitSet k j => onPair all k j fun bs other => ⟨bs.val.orBitSet other.val,bs.property⟩
  | .andBitSet k j => onPair all k j fun bs other => ⟨bs.val.andBitSet other.val,bs.property⟩
  | .subtract k j => onPair all k j fun bs other =>
      ⟨bs.val.subtract other.val,by rw [BitSet.subtract_eq,BitSet.setEach_numBits]; exact bs.property⟩
  | .updateNumOnBits k => all.modify k fun bs => ⟨bs.val.updateNumOnBits,bs.property⟩
  | .equals _ _ => all

-- The same calls on sets of indices below n.
abbrev IndexSets := List (Finset Nat)

def bitOfBytes (bytes : List UInt8) (i : Nat) : Bool := (bytes.getD (i / 8) 0).toNat.testBit (7 - i % 8)

def IndexSets.handle (n : Nat) (all : IndexSets) : BitSetCall n → IndexSets
  | .new => all ++ [∅]
  | .ofData bytes _ => all ++ [(Finset.range n).filter fun i => bitOfBytes bytes i]
  | .copy k => all ++ all[k]?.toList
  | .set k i on => all.modify k fun s => if i < n then (if on then insert i s else s.erase i) else s
  | .setAll k on => all.modify k fun _ => if on then Finset.range n else ∅
  | .clear k => all.modify k fun _ => ∅
  | .invert k => all.modify k fun s => Finset.range n \ s
  | .orBitSet k j => onPair all k j (· ∪ ·)
  | .andBitSet k j => onPair all k j (· ∩ ·)
  | .subtract k j => onPair all k j (· \ ·)
  | .updateNumOnBits _ => all
  | .equals _ _ => all

def BitSet.indices (bs : BitSet) : Finset Nat := (Finset.range bs.numBits).filter fun i => bs.get i

def BitSets.indices (all : BitSets n) : IndexSets := all.map fun bs => bs.val.indices

-- After the call every set stands for the set of indices it should, num_on is its
-- size, and a comparison compares the indices.
def BitSets.Agrees (all : BitSets n) (call : BitSetCall n) : Prop :=
  (all.handle call).indices = all.indices.handle n call ∧
  (∀ bs ∈ all.handle call, bs.val.numOnBits = (List.range n).countP bs.val.get ∧
    (bs.val.allOn = true ↔ ∀ i < n, bs.val.get i = true)) ∧
  ∀ k j a b, call = .equals k j → all[k]? = some a → all[j]? = some b →
    (a.val.equals b.val = true ↔ ∀ i < n, a.val.get i = b.val.get i)

-- Counting and comparing go over the padding too.
def BitSets.Unpadded (all : BitSets n) : BitSetCall n → Prop
  | .orBitSet k j => ∀ a b, all[k]? = some a → all[j]? = some b → a.val.Clean ∧ b.val.Clean
  | .andBitSet k j => ∀ a b, all[k]? = some a → all[j]? = some b →
      ∀ i, n ≤ i → i < 8 * numBytesOf n → ¬ (a.val.bitAt i = true ∧ b.val.bitAt i = true)
  | .updateNumOnBits k => ∀ a, all[k]? = some a → a.val.Clean
  | .equals k j => ∀ a b, all[k]? = some a → all[j]? = some b → (∀ i < n, a.val.get i = b.val.get i) →
      ∀ i, n ≤ i → i < 8 * numBytesOf n → a.val.bitAt i = b.val.bitAt i
  | _ => True

section
variable {all : List α} {P : α → Prop} {g : α → β}

theorem modify_forall {f : α → α} (now : ∀ x ∈ all, P x) (k : Nat) :
    (∀ x ∈ all.modify k f, P x) ↔ ∀ a, all[k]? = some a → P (f a) := by
  constructor
  · intro each a there
    refine each (f a) (List.mem_iff_getElem?.mpr ⟨k,?_⟩)
    rw [List.getElem?_modify_eq,there]
    rfl
  · intro changed x among
    obtain ⟨i,there⟩ := List.mem_iff_getElem?.mp among
    rw [List.getElem?_modify] at there
    cases old : all[i]? with
    | none =>
        rw [old] at there
        cases there
    | some a =>
        rw [old] at there
        obtain rfl : (if k = i then f a else a) = x := Option.some.inj there
        split
        · rename_i here
          exact changed a (here ▸ old)
        · exact now a (List.mem_of_getElem? old)

theorem onPair_forall {f : α → α → α} (now : ∀ x ∈ all, P x) (k j : Nat) :
    (∀ x ∈ onPair all k j f, P x) ↔ ∀ a b, all[k]? = some a → all[j]? = some b → P (f a b) := by
  rw [onPair]
  cases first : all[k]? with
  | none => exact ⟨fun _ _ _ none => (Option.some_ne_none _ none.symm).elim,fun _ => now⟩
  | some a =>
      cases second : all[j]? with
      | none => exact ⟨fun _ _ _ _ none => (Option.some_ne_none _ none.symm).elim,fun _ => now⟩
      | some b =>
          have inside := (List.getElem?_eq_some_iff.mp first).1
          constructor
          · rintro each _ _ ⟨⟩ ⟨⟩
            exact each _ (List.mem_set inside _)
          · intro changed x among
            rcases List.mem_or_eq_of_mem_set among with old | rfl
            · exact now x old
            · exact changed a b rfl rfl

theorem map_modify_of {f : α → α} {h : β → β} (same : ∀ a ∈ all, g (f a) = h (g a)) (k : Nat) :
    (all.modify k f).map g = (all.map g).modify k h := by
  apply List.ext_getElem?
  intro i
  rw [List.getElem?_map,List.getElem?_modify,List.getElem?_modify,List.getElem?_map]
  cases there : all[i]? with
  | none => rfl
  | some a =>
      have each := same a (List.mem_of_getElem? there)
      change some (g (if k = i then f a else a)) = some (if k = i then h (g a) else g a)
      split
      · rw [each]
      · rfl

theorem map_onPair_of {f : α → α → α} {h : β → β → β} (same : ∀ a ∈ all, ∀ b ∈ all, g (f a b) = h (g a) (g b)) (k j : Nat) :
    (onPair all k j f).map g = onPair (all.map g) k j h := by
  rw [onPair,onPair,List.getElem?_map,List.getElem?_map]
  cases first : all[k]? with
  | none => rfl
  | some a =>
      cases second : all[j]? with
      | none => rfl
      | some b =>
          have each := same a (List.mem_of_getElem? first) b (List.mem_of_getElem? second)
          change (all.set k (f a b)).map g = (all.map g).set k (h (g a) (g b))
          rw [List.map_set,each]

end

namespace BitSet

theorem get_inside {bs : BitSet} (on : bs.get i = true) : i < bs.numBits := by
  by_contra beyond
  rw [bs.get_of_ge (Nat.le_of_not_lt beyond)] at on
  cases on

theorem mem_indices (bs : BitSet) (i : Nat) : i ∈ bs.indices ↔ bs.get i = true := by
  rw [indices,Finset.mem_filter,Finset.mem_range]
  exact ⟨fun both => both.2,fun on => ⟨get_inside on,on⟩⟩

theorem allOn_iff {bs : BitSet} (counted : bs.Counted) : bs.allOn = true ↔ ∀ i < bs.numBits, bs.get i = true := by
  rw [allOn,beq_iff_eq,counted,count]
  constructor
  · intro full i inside
    exact (List.countP_eq_length.mp (full.trans List.length_range.symm)) i (List.mem_range.mpr inside)
  · intro every
    exact (List.countP_eq_length.mpr fun i among => every i (List.mem_range.mp among)).trans List.length_range

theorem orBitSet_get (bs other : BitSet) (bits : other.numBits = bs.numBits) (i : Nat) :
    (bs.orBitSet other).get i = (bs.get i || other.get i) := by
  by_cases inside : i < bs.numBits
  · have enough := bs.numBits_le
    rw [get_eq_bitAt (bs.orBitSet other) inside,orBitSet_bitAt bs other (by omega),get_eq_bitAt bs inside,
      get_eq_bitAt other (bits.symm ▸ inside)]
  · have beyond := Nat.le_of_not_lt inside
    rw [bs.get_of_ge beyond,other.get_of_ge (bits.symm ▸ beyond),get_of_ge (bs.orBitSet other) beyond]
    rfl

theorem andBitSet_get (bs other : BitSet) (bits : other.numBits = bs.numBits) (i : Nat) :
    (bs.andBitSet other).get i = (bs.get i && other.get i) := by
  by_cases inside : i < bs.numBits
  · have enough := bs.numBits_le
    rw [get_eq_bitAt (bs.andBitSet other) inside,andBitSet_bitAt bs other (by omega),get_eq_bitAt bs inside,
      get_eq_bitAt other (bits.symm ▸ inside)]
  · have beyond := Nat.le_of_not_lt inside
    rw [bs.get_of_ge beyond,get_of_ge (bs.andBitSet other) beyond]
    rfl

theorem setEach_get (bs : BitSet) (f : Nat → Bool → Bool) (counted : bs.Counted) (i : Nat) :
    (bs.setEach f).get i = (decide (i < bs.numBits) && f i (bs.get i)) := by
  obtain ⟨bits,_,gets⟩ := bs.setEach_spec f counted
  by_cases inside : i < bs.numBits
  · rw [gets i inside,decide_eq_true inside,Bool.true_and]
  · rw [get_of_ge _ (bits.symm ▸ Nat.le_of_not_lt inside),decide_eq_false inside,Bool.false_and]

theorem ofData_get (bytes : List UInt8) (sized : bytes.length = numBytesOf n) (inside : i < n) :
    (ofData bytes n).get i = bitOfBytes bytes i := by
  have whole : (bytes ++ (new n).data.drop bytes.length).take (new n).data.length = bytes :=
    List.take_left' (sized.trans (new n).sized.symm)
  have same : (ofData bytes n).data = bytes := whole
  rw [get_eq_bitAt (ofData bytes n) inside,bitAt,byteAt,same]
  rfl

theorem ofData_counted (bytes : List UInt8) (n : Nat) : (ofData bytes n).Counted := rfl

theorem indices_new (n : Nat) : (new n).indices = ∅ := by
  ext i
  rw [mem_indices,new_get]
  exact ⟨fun off => (Bool.false_ne_true off).elim,fun none => (Finset.notMem_empty i none).elim⟩

theorem indices_ofData (bytes : List UInt8) (sized : bytes.length = numBytesOf n) :
    (ofData bytes n).indices = (Finset.range n).filter fun i => bitOfBytes bytes i := by
  ext i
  rw [mem_indices,Finset.mem_filter,Finset.mem_range]
  constructor
  · intro on
    have inside : i < n := get_inside on
    exact ⟨inside,(ofData_get bytes sized inside).symm.trans on⟩
  · rintro ⟨inside,on⟩
    exact (ofData_get bytes sized inside).trans on

theorem indices_set (bs : BitSet) (i : Nat) (on : Bool) :
    (bs.set i on).indices = if i < bs.numBits then (if on then insert i bs.indices else bs.indices.erase i) else bs.indices := by
  ext j
  rw [mem_indices,set_get]
  by_cases inside : i < bs.numBits
  · rw [if_pos inside]
    cases on with
    | true =>
        rw [if_pos rfl,Finset.mem_insert,mem_indices]
        by_cases here : i = j
        · rw [if_pos ⟨here,inside⟩]
          exact ⟨fun _ => .inl here.symm,fun _ => rfl⟩
        · rw [if_neg fun both => here both.1]
          exact ⟨.inr,fun either => either.resolve_left fun same => here same.symm⟩
    | false =>
        rw [if_neg Bool.false_ne_true,Finset.mem_erase,mem_indices]
        by_cases here : i = j
        · rw [if_pos ⟨here,inside⟩]
          exact ⟨fun off => (Bool.false_ne_true off).elim,fun both => (both.1 here.symm).elim⟩
        · rw [if_neg fun both => here both.1]
          exact ⟨fun there => ⟨fun same => here same.symm,there⟩,fun both => both.2⟩
  · rw [if_neg inside,if_neg fun both => inside both.2,mem_indices]

theorem inside_setAll {bs : BitSet} (there : (bs.setAll on).get i = true) : i < bs.numBits := by
  have inside : i < (bs.setAll on).numBits := get_inside there
  exact inside

theorem indices_setAll (bs : BitSet) (on : Bool) : (bs.setAll on).indices = if on then Finset.range bs.numBits else ∅ := by
  ext i
  rw [mem_indices]
  cases on with
  | true =>
      rw [if_pos rfl,Finset.mem_range]
      exact ⟨fun there => inside_setAll there,fun inside => setAll_get bs true inside⟩
  | false =>
      rw [if_neg Bool.false_ne_true]
      refine ⟨fun there => ?_,fun none => (Finset.notMem_empty i none).elim⟩
      rw [setAll_get bs false (inside_setAll there)] at there
      cases there

theorem indices_invert (bs : BitSet) (counted : bs.Counted) : bs.invert.indices = Finset.range bs.numBits \ bs.indices := by
  ext i
  rw [mem_indices,invert,setEach_get bs _ counted,Finset.mem_sdiff,Finset.mem_range,mem_indices,Bool.and_eq_true,
    decide_eq_true_iff,Bool.not_eq_true',Bool.not_eq_true]

theorem indices_subtract (bs other : BitSet) (counted : bs.Counted) : (bs.subtract other).indices = bs.indices \ other.indices := by
  ext i
  rw [mem_indices,subtract_eq,setEach_get bs _ counted,Finset.mem_sdiff,mem_indices,mem_indices,Bool.and_eq_true,Bool.and_eq_true,
    decide_eq_true_iff,Bool.not_eq_true',Bool.not_eq_true]
  exact ⟨fun both => both.2,fun both => ⟨get_inside both.1,both⟩⟩

theorem indices_orBitSet (bs other : BitSet) (bits : other.numBits = bs.numBits) :
    (bs.orBitSet other).indices = bs.indices ∪ other.indices := by
  ext i
  rw [mem_indices,orBitSet_get bs other bits,Finset.mem_union,mem_indices,mem_indices,Bool.or_eq_true]

theorem indices_andBitSet (bs other : BitSet) (bits : other.numBits = bs.numBits) :
    (bs.andBitSet other).indices = bs.indices ∩ other.indices := by
  ext i
  rw [mem_indices,andBitSet_get bs other bits,Finset.mem_inter,mem_indices,mem_indices,Bool.and_eq_true]

theorem subtract_counted (bs other : BitSet) (counted : bs.Counted) : (bs.subtract other).Counted := by
  rw [subtract_eq]
  exact (bs.setEach_spec _ counted).2.1

theorem clean_iff (bs : BitSet) : bs.Clean ↔ ∀ k, bs.numBits ≤ k → k < 8 * numBytesOf bs.numBits → bs.bitAt k = false := by
  rw [← bs.sized]
  rfl

theorem orBitSet_counted_iff (bs other : BitSet) (bits : other.numBits = bs.numBits) :
    (bs.orBitSet other).Counted ↔ bs.Clean ∧ other.Clean := by
  have each : ∀ k, k < 8 * numBytesOf bs.numBits → (bs.combine (· ||| ·) other).bitAt k = (bs.bitAt k || other.bitAt k) :=
    fun k bound => bs.orBitSet_bitAt other (bs.sized.symm ▸ bound)
  rw [orBitSet,updateNumOnBits_counted_iff,clean_iff,clean_iff,clean_iff,bits]
  change (∀ k, bs.numBits ≤ k → k < 8 * numBytesOf bs.numBits → _) ↔ _
  constructor
  · intro none
    have both := fun k beyond bound => Bool.or_eq_false_iff.mp ((each k bound).symm.trans (none k beyond bound))
    exact ⟨fun k beyond bound => (both k beyond bound).1,fun k beyond bound => (both k beyond bound).2⟩
  · rintro ⟨one,two⟩ k beyond bound
    rw [each k bound,one k beyond bound,two k beyond bound]
    rfl

theorem andBitSet_counted_iff (bs other : BitSet) :
    (bs.andBitSet other).Counted ↔
      ∀ i, bs.numBits ≤ i → i < 8 * numBytesOf bs.numBits → ¬ (bs.bitAt i = true ∧ other.bitAt i = true) := by
  have each : ∀ k, k < 8 * numBytesOf bs.numBits → (bs.combine (· &&& ·) other).bitAt k = (bs.bitAt k && other.bitAt k) :=
    fun k bound => bs.andBitSet_bitAt other (bs.sized.symm ▸ bound)
  rw [andBitSet,updateNumOnBits_counted_iff,clean_iff]
  refine forall_congr' fun k => imp_congr_right fun _ => imp_congr_right fun bound => ?_
  rw [each k bound,← Bool.and_eq_true,Bool.not_eq_true]

-- memcmp compares the padding too.
theorem equals_iff (bs other : BitSet) (bits : other.numBits = bs.numBits) :
    bs.equals other = true ↔ (∀ i < bs.numBits, bs.get i = other.get i) ∧
      ∀ i, bs.numBits ≤ i → i < 8 * numBytesOf bs.numBits → bs.bitAt i = other.bitAt i := by
  have enough := bs.numBits_le
  have length : bs.data.length = other.data.length := by rw [bs.sized,other.sized,bits]
  rw [equals,Bool.and_eq_true,beq_iff_eq,beq_iff_eq,← bs.sized]
  constructor
  · rintro ⟨_,same⟩
    have every : ∀ k, bs.bitAt k = other.bitAt k := fun k => by rw [bitAt,bitAt,byteAt,byteAt,same]
    refine ⟨fun i inside => ?_,fun i _ _ => every i⟩
    rw [get_eq_bitAt bs inside,get_eq_bitAt other (bits.symm ▸ inside),every i]
  · rintro ⟨below,behind⟩
    refine ⟨bits.symm,data_ext length fun k bound => ?_⟩
    by_cases inside : k < bs.numBits
    · have same := below k inside
      rw [get_eq_bitAt bs inside,get_eq_bitAt other (bits.symm ▸ inside)] at same
      exact same
    · exact behind k (Nat.le_of_not_lt inside) bound

end BitSet

namespace BitSets

variable {n : Nat} {all : BitSets n}

def AllCounted (all : BitSets n) : Prop := ∀ bs ∈ all, bs.val.Counted

theorem sizes_iff (all : BitSets n) :
    (∀ bs ∈ all, bs.val.numOnBits = (List.range n).countP bs.val.get ∧ (bs.val.allOn = true ↔ ∀ i < n, bs.val.get i = true)) ↔
      all.AllCounted := by
  refine forall₂_congr fun bs _ => ?_
  obtain ⟨bs,rfl⟩ := bs
  exact ⟨fun both => both.1,fun counted => ⟨counted,BitSet.allOn_iff counted⟩⟩

-- Below the end every call does to the sets what it does to the indices.
theorem handle_indices (counted : all.AllCounted) (call : BitSetCall n) :
    (all.handle call).indices = all.indices.handle n call := by
  have bits : ∀ a b : {bs : BitSet // bs.numBits = n}, b.val.numBits = a.val.numBits := fun a b => b.property.trans a.property.symm
  cases call with
  | new =>
      change List.map _ (all ++ [_]) = _
      rw [List.map_append,List.map_singleton,BitSet.indices_new]
      rfl
  | ofData bytes sized =>
      change List.map _ (all ++ [_]) = _
      rw [List.map_append,List.map_singleton,BitSet.indices_ofData bytes sized]
      rfl
  | copy k =>
      change List.map _ (all ++ _) = List.map _ all ++ (List.map _ all)[k]?.toList
      rw [List.map_append,List.getElem?_map]
      cases all[k]? <;> rfl
  | set k i on =>
      refine map_modify_of (fun a _ => ?_) k
      rw [BitSet.indices_set,a.property]
  | setAll k on =>
      refine map_modify_of (fun a _ => ?_) k
      rw [BitSet.indices_setAll,a.property]
  | clear k => exact map_modify_of (fun a _ => a.val.indices_setAll false) k
  | invert k =>
      refine map_modify_of (fun a among => ?_) k
      rw [BitSet.indices_invert _ (counted a among),a.property]
  | orBitSet k j => exact map_onPair_of (fun a _ b _ => a.val.indices_orBitSet b.val (bits a b)) k j
  | andBitSet k j => exact map_onPair_of (fun a _ b _ => a.val.indices_andBitSet b.val (bits a b)) k j
  | subtract k j => exact map_onPair_of (fun a among b _ => a.val.indices_subtract b.val (counted a among)) k j
  | updateNumOnBits k =>
      have same : all.indices.modify k id = all.indices := List.modify_id _ _
      have kept : BitSets.indices (all.modify k fun bs => ⟨bs.val.updateNumOnBits,bs.property⟩) = all.indices.modify k id := by
        refine map_modify_of (fun a _ => ?_) k
        rfl
      exact kept.trans same
  | equals k j => rfl

theorem handle_counted_iff (counted : all.AllCounted) (call : BitSetCall n) (other : ∀ k j, call ≠ .equals k j) :
    (all.handle call).AllCounted ↔ all.Unpadded call := by
  have bits : ∀ a b : {bs : BitSet // bs.numBits = n}, b.val.numBits = a.val.numBits := fun a b => b.property.trans a.property.symm
  have always : ∀ {P : Prop}, P → (P ↔ True) := fun here => ⟨fun _ => trivial,fun _ => here⟩
  cases call with
  | new =>
      refine always fun bs among => ?_
      rcases List.mem_append.mp among with old | new
      · exact counted bs old
      · rw [List.mem_singleton.mp new]
        exact BitSet.new_counted n
  | ofData bytes sized =>
      refine always fun bs among => ?_
      rcases List.mem_append.mp among with old | new
      · exact counted bs old
      · rw [List.mem_singleton.mp new]
        exact BitSet.ofData_counted bytes n
  | copy k =>
      refine always fun bs among => ?_
      rcases List.mem_append.mp among with old | new
      · exact counted bs old
      · exact counted bs (List.mem_of_getElem? (Option.mem_toList.mp new))
  | set k i on => exact always ((modify_forall counted k).mpr fun a there => BitSet.set_counted (counted a (List.mem_of_getElem? there)) i on)
  | setAll k on => exact always ((modify_forall counted k).mpr fun a _ => BitSet.setAll_counted a.val on)
  | clear k => exact always ((modify_forall counted k).mpr fun a _ => BitSet.setAll_counted a.val false)
  | invert k =>
      exact always ((modify_forall counted k).mpr fun a there => (a.val.setEach_spec _ (counted a (List.mem_of_getElem? there))).2.1)
  | orBitSet k j =>
      refine (onPair_forall counted k j).trans ?_
      exact forall₂_congr fun a b => imp_congr_right fun _ => imp_congr_right fun _ => a.val.orBitSet_counted_iff b.val (bits a b)
  | andBitSet k j =>
      refine (onPair_forall counted k j).trans ?_
      refine forall₂_congr fun a b => imp_congr_right fun _ => imp_congr_right fun _ => ?_
      have condition := a.val.andBitSet_counted_iff b.val
      rw [a.property] at condition
      exact condition
  | subtract k j =>
      exact always ((onPair_forall counted k j).mpr fun a b first _ => a.val.subtract_counted b.val (counted a (List.mem_of_getElem? first)))
  | updateNumOnBits k =>
      refine (modify_forall counted k).trans ?_
      exact forall_congr' fun a => imp_congr_right fun _ => a.val.updateNumOnBits_counted_iff
  | equals k j => exact absurd rfl (other k j)

-- A call is as it should be exactly if the padding has no part in it.
theorem agrees_iff (counted : all.AllCounted) (call : BitSetCall n) : all.Agrees call ↔ all.Unpadded call := by
  have indices := handle_indices counted call
  rw [Agrees,sizes_iff]
  by_cases comparison : ∃ k j, call = .equals k j
  · obtain ⟨k,j,rfl⟩ := comparison
    have each : ∀ a b : {bs : BitSet // bs.numBits = n}, (a.val.equals b.val = true ↔ ∀ i < n, a.val.get i = b.val.get i) ↔
        ((∀ i < n, a.val.get i = b.val.get i) → ∀ i, n ≤ i → i < 8 * numBytesOf n → a.val.bitAt i = b.val.bitAt i) := by
      intro a b
      have rule := a.val.equals_iff b.val (b.property.trans a.property.symm)
      rw [a.property] at rule
      rw [rule]
      exact and_iff_left_iff_imp
    constructor
    · rintro ⟨_,_,same⟩ a b first second
      exact (each a b).mp (same k j a b rfl first second)
    · intro unpadded
      refine ⟨indices,counted,?_⟩
      rintro _ _ a b ⟨⟩ first second
      exact (each a b).mpr (unpadded a b first second)
  · have other : ∀ k j, call ≠ .equals k j := fun k j same => comparison ⟨k,j,same⟩
    rw [handle_counted_iff counted call other]
    constructor
    · exact fun both => both.2.1
    · exact fun unpadded => ⟨indices,unpadded,fun k j a b same => absurd same (other k j)⟩

-- Every run of calls on bit sets of n bits.
theorem bitsets_agree_iff (n : Nat) (calls : List (BitSetCall n)) :
    Along BitSets.handle BitSets.Agrees [] calls ↔ Along BitSets.handle BitSets.Unpadded [] calls := by
  have allowed : Along BitSets.handle (fun _ _ => True) ([] : BitSets n) calls := Along.always (fun _ _ => trivial) _ _
  apply Along.congr (I := AllCounted) allowed
  · intro bs none
    cases none
  · exact fun all call counted _ => agrees_iff counted call
  · intro all call counted _ unpadded
    exact (sizes_iff _).mp ((agrees_iff counted call).mpr unpadded).2.1

-- A set of four bits that is filled, and a full one that was received: they hold the
-- same indices, but one has bits behind its end, which are counted as well.
theorem padding_counts :
    (BitSet.ofData [0xF0] 4).equals ((BitSet.new 4).setAll true) = false ∧
    ((BitSet.new 4).setAll true).updateNumOnBits.numOnBits = 8 ∧
    ¬ ∀ (n : Nat) (calls : List (BitSetCall n)), Along BitSets.handle BitSets.Agrees [] calls := by
  refine ⟨by decide +kernel,by decide +kernel,fun always => ?_⟩
  have after := (always 4 [.new,.setAll 0 true,.updateNumOnBits 0]).2.2.1
  have size := (after.2.1 ⟨((BitSet.new 4).setAll true).updateNumOnBits,rfl⟩ List.mem_cons_self).1
  exact absurd size (by decide +kernel)

end BitSets

end KtorrentStream.Util
