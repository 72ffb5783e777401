import KtorrentStream.Util.BitSet
set_option autoImplicit true

namespace KtorrentStream.Peer
open KtorrentStream.Util

structure ChunkCounter where
  cnt : List Nat

namespace ChunkCounter

def new (numChunks : Nat) : ChunkCounter := ⟨List.replicate numChunks 0⟩

def reset (c : ChunkCounter) : ChunkCounter := new c.cnt.length

def get (c : ChunkCounter) (idx : Nat) : Nat := c.cnt.getD idx 0

def inc (c : ChunkCounter) (idx : Nat) : ChunkCounter :=
  if idx < c.cnt.length then ⟨c.cnt.set idx (c.get idx + 1)⟩ else c

def dec (c : ChunkCounter) (idx : Nat) : ChunkCounter :=
  if idx < c.cnt.length ∧ c.get idx > 0 then ⟨c.cnt.set idx (c.get idx - 1)⟩ else c

def decBitSet (c : ChunkCounter) (bs : BitSet) : ChunkCounter :=
  (List.range c.cnt.length).foldl (fun c i => if bs.get i then c.dec i else c) c

def incBitSet (c : ChunkCounter) (bs : BitSet) : ChunkCounter :=
  (List.range c.cnt.length).foldl (fun c i => if bs.get i then c.inc i else c) c

theorem new_get (numChunks i : Nat) : (new numChunks).get i = 0 := by
  rw [get,new,List.getD_eq_getElem?_getD,List.getElem?_replicate]
  split <;> rfl

theorem get_of_ge (c : ChunkCounter) (beyond : c.cnt.length ≤ i) : c.get i = 0 := List.getD_eq_default _ _ beyond

theorem get_set (c : ChunkCounter) (inside : i < c.cnt.length) :
    (ChunkCounter.mk (c.cnt.set i n)).get j = if i = j then n else c.get j := by
  rw [get,get,List.getD_eq_getElem?_getD,List.getD_eq_getElem?_getD,List.getElem?_set]
  by_cases same : i = j
  · rw [if_pos same,if_pos same,if_pos inside]
    rfl
  · rw [if_neg same,if_neg same]

@[simp] theorem inc_length (c : ChunkCounter) (i : Nat) : (c.inc i).cnt.length = c.cnt.length := by
  unfold inc
  split
  · exact List.length_set
  · rfl

@[simp] theorem dec_length (c : ChunkCounter) (i : Nat) : (c.dec i).cnt.length = c.cnt.length := by
  unfold dec
  split
  · exact List.length_set
  · rfl

theorem inc_get (c : ChunkCounter) : (c.inc i).get j = c.get j + if i = j ∧ i < c.cnt.length then 1 else 0 := by
  unfold inc
  by_cases inside : i < c.cnt.length
  · rw [if_pos inside,get_set c inside]
    by_cases same : i = j
    · subst same
      rw [if_pos rfl,if_pos ⟨rfl,inside⟩]
    · rw [if_neg same,if_neg fun both => same both.1,Nat.add_zero]
  · rw [if_neg inside,if_neg fun both => inside both.2,Nat.add_zero]

theorem dec_get (c : ChunkCounter) : (c.dec i).get j = c.get j - if i = j then 1 else 0 := by
  unfold dec
  by_cases change : i < c.cnt.length ∧ c.get i > 0
  · rw [if_pos change,get_set c change.1]
    by_cases same : i = j
    · simp [same]
    · simp [same]
  · rw [if_neg change]
    by_cases same : i = j
    · have zero : c.get j = 0 := by
        rw [← same]
        by_cases inside : i < c.cnt.length
        · simpa [inside] using change
        · exact get_of_ge c (by omega)
      omega
    · simp [same]

theorem foldl_dec (bits : Nat → Bool) (c : ChunkCounter) (n : Nat) :
    ((List.range n).foldl (fun c i => if bits i then c.dec i else c) c).get j =
      c.get j - if j < n ∧ bits j = true then 1 else 0 := by
  induction n with
  | zero => simp
  | succ n ih =>
    rw [List.range_succ,List.foldl_append,List.foldl_cons,List.foldl_nil]
    by_cases last : j = n
    · rw [last] at ih ⊢
      cases on : bits n with
      | true => simp [dec_get,ih,on]
      | false => simp [ih,on]
    · have bound : j < n + 1 ↔ j < n := by omega
      cases on : bits n with
      | true => simp [dec_get,ih,bound,Ne.symm last]
      | false => simp [ih,bound]

theorem decBitSet_get (c : ChunkCounter) (bs : BitSet) : (c.decBitSet bs).get j = c.get j - (bs.get j).toNat := by
  rw [decBitSet,foldl_dec]
  by_cases inside : j < c.cnt.length
  · cases on : bs.get j <;> simp [inside]
  · rw [get_of_ge c (by omega)]
    omega

theorem foldl_length {change : ChunkCounter → Nat → ChunkCounter} (same : ∀ c i, (change c i).cnt.length = c.cnt.length)
    (bits : Nat → Bool) (l : List Nat) (c : ChunkCounter) :
    (l.foldl (fun c i => if bits i then change c i else c) c).cnt.length = c.cnt.length := by
  induction l generalizing c with
  | nil => rfl
  | cons i rest ih =>
    rw [List.foldl_cons,ih]
    split
    · exact same c i
    · rfl

@[simp] theorem decBitSet_length (c : ChunkCounter) (bs : BitSet) : (c.decBitSet bs).cnt.length = c.cnt.length :=
  foldl_length dec_length _ _ c

@[simp] theorem incBitSet_length (c : ChunkCounter) (bs : BitSet) : (c.incBitSet bs).cnt.length = c.cnt.length :=
  foldl_length inc_length _ _ c

theorem incBitSet_none (c : ChunkCounter) (none : ∀ i, bs.get i = false) : c.incBitSet bs = c := by
  rw [incBitSet]
  induction List.range c.cnt.length with
  | nil => rfl
  | cons i rest ih =>
    rw [List.foldl_cons,none i]
    exact ih

end ChunkCounter

end KtorrentStream.Peer
