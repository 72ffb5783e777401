import Mathlib.Data.List.Basic
import Mathlib.Data.List.Pairwise
set_option autoImplicit true

namespace KtorrentStream.Util

-- std::map: the entries in the order of their keys, each key once.
structure PtrMap (β : Type) where
  entries : List (Nat × β)
  sorted : entries.Pairwise fun a b => a.1 < b.1

namespace PtrMap

variable {β : Type}

def empty : PtrMap β := ⟨[],.nil⟩

def find (m : PtrMap β) (k : Nat) : Option β := (m.entries.find? fun e => e.1 == k).map Prod.snd

def contains (m : PtrMap β) (k : Nat) : Bool := (m.find k).isSome

def count (m : PtrMap β) : Nat := m.entries.length

def insertEntry (k : Nat) (v : β) : List (Nat × β) → List (Nat × β)
  | [] => [(k,v)]
  | e :: rest =>
    if k < e.1 then (k,v) :: e :: rest
    else if k = e.1 then (k,v) :: rest
    else e :: insertEntry k v rest

theorem mem_insertEntry (member : e ∈ insertEntry k v l) : e = (k,v) ∨ e ∈ l := by
  induction l with
  | nil => exact .inl (List.mem_singleton.mp member)
  | cons head rest ih =>
    unfold insertEntry at member
    split at member
    · exact List.mem_cons.mp member
    · split at member
      · rcases List.mem_cons.mp member with same | later
        · exact .inl same
        · exact .inr (List.mem_cons_of_mem _ later)
      · rcases List.mem_cons.mp member with rfl | later
        · exact .inr List.mem_cons_self
        · exact (ih later).imp_right (List.mem_cons_of_mem _)

theorem insertEntry_sorted {l : List (Nat × β)} (sorted : l.Pairwise fun a b => a.1 < b.1) :
    (insertEntry k v l).Pairwise fun a b => a.1 < b.1 := by
  induction sorted with
  | nil => exact List.pairwise_singleton _ _
  | @cons head rest first others ih =>
    unfold insertEntry
    split
    · rename_i less
      refine .cons ?_ (.cons first others)
      intro e member
      rcases List.mem_cons.mp member with rfl | later
      · exact less
      · exact Nat.lt_trans less (first e later)
    · split
      · rename_i same
        exact .cons (fun e later => by rw [same]; exact first e later) others
      · refine .cons ?_ ih
        intro e member
        rcases mem_insertEntry member with rfl | later
        · show head.1 < k
          omega
        · exact first e later

def insert (m : PtrMap β) (k : Nat) (v : β) : PtrMap β := ⟨insertEntry k v m.entries,insertEntry_sorted m.sorted⟩

def erase (m : PtrMap β) (k : Nat) : PtrMap β := ⟨m.entries.filter fun e => e.1 != k,m.sorted.filter _⟩

-- The values are pointers: a change to the object shows in the map.
def mapValues (m : PtrMap β) (f : Nat → β → β) : PtrMap β where
  entries := m.entries.map fun e => (e.1,f e.1 e.2)
  sorted := List.pairwise_map.mpr m.sorted

def modify (m : PtrMap β) (k : Nat) (f : β → β) : PtrMap β := m.mapValues fun k' v => if k' = k then f v else v

theorem find_eq_some_iff (m : PtrMap β) : m.find k = some v ↔ (k,v) ∈ m.entries := by
  unfold find
  obtain ⟨entries,sorted⟩ := m
  induction sorted with
  | nil => simp
  | @cons head rest first others ih =>
    rw [List.find?_cons]
    by_cases same : head.1 = k
    · simp only [same,beq_self_eq_true,Option.map_some,Option.some.injEq]
      constructor
      · rintro rfl
        exact List.mem_cons.mpr (.inl (by rw [← same]))
      · intro member
        rcases List.mem_cons.mp member with here | later
        · rw [← here]
        · have := first _ later
          simp only at this
          omega
    · have other : (head.1 == k) = false := by simpa using same
      rw [other,ih]
      constructor
      · exact List.mem_cons_of_mem _
      · intro member
        rcases List.mem_cons.mp member with here | later
        · exact absurd (by rw [← here]) same
        · exact later

theorem find_empty : (empty : PtrMap β).find k = none := rfl

theorem find_insert (m : PtrMap β) : (m.insert k v).find j = if j = k then some v else m.find j := by
  obtain ⟨entries,sorted⟩ := m
  show ((insertEntry k v entries).find? _).map _ = if j = k then some v else (entries.find? _).map _
  clear sorted
  induction entries with
  | nil =>
    rw [insertEntry,List.find?_cons]
    by_cases same : j = k
    · simp [same]
    · have other : (k == j) = false := by simpa using Ne.symm same
      simp [same,other]
  | cons head rest ih =>
    unfold insertEntry
    split
    · rw [List.find?_cons]
      by_cases same : j = k
      · simp [same]
      · have other : (k == j) = false := by simpa using Ne.symm same
        simp [same,other]
    · split
      · rename_i here
        rw [List.find?_cons,List.find?_cons,← here]
        by_cases same : j = k
        · simp [same]
        · have other : (k == j) = false := by simpa using Ne.symm same
          simp [same,other]
      · rename_i later
        rw [List.find?_cons,List.find?_cons]
        by_cases same : head.1 = j
        · have different : j ≠ k := fun e => later (by omega)
          simp [same,different]
        · have other : (head.1 == j) = false := by simpa using same
          simp only [other]
          exact ih

theorem find_erase (m : PtrMap β) : (m.erase k).find j = if j = k then none else m.find j := by
  apply Option.ext
  intro v
  rw [find_eq_some_iff]
  show (j,v) ∈ m.entries.filter _ ↔ _
  rw [List.mem_filter,← find_eq_some_iff]
  by_cases same : j = k
  · simp [same]
  · simp [same]

theorem find_mapValues (m : PtrMap β) (f : Nat → β → β) : (m.mapValues f).find k = (m.find k).map (f k) := by
  apply Option.ext
  intro v
  rw [find_eq_some_iff,mapValues]
  simp only [List.mem_map,Prod.mk.injEq,Option.map_eq_some_iff]
  constructor
  · rintro ⟨⟨_,old⟩,member,rfl,rfl⟩
    exact ⟨old,(m.find_eq_some_iff).mpr member,rfl⟩
  · rintro ⟨old,found,rfl⟩
    exact ⟨(k,old),(m.find_eq_some_iff).mp found,rfl,rfl⟩

theorem find_modify (m : PtrMap β) (f : β → β) :
    (m.modify k f).find j = if j = k then (m.find j).map f else m.find j := by
  rw [modify,find_mapValues]
  by_cases same : j = k
  · rw [if_pos same]
    simp only [if_pos same]
  · rw [if_neg same]
    simp only [if_neg same]
    exact Option.map_id'

theorem absent_iff (m : PtrMap β) : m.find k = none ↔ ∀ e ∈ m.entries, e.1 ≠ k := by
  constructor
  · intro absent e member here
    have found := (m.find_eq_some_iff).mpr (show (k,e.2) ∈ m.entries by rw [← here]; exact member)
    rw [absent] at found
    cases found
  · intro absent
    cases found : m.find k with
    | none => rfl
    | some v => exact absurd rfl (absent _ ((m.find_eq_some_iff).mp found))

theorem insertEntry_perm {l : List (Nat × β)} (absent : ∀ e ∈ l, e.1 ≠ k) (v : β) : (insertEntry k v l).Perm ((k,v) :: l) := by
  induction l with
  | nil => exact .refl _
  | cons head rest ih =>
    unfold insertEntry
    split
    · exact .refl _
    · rw [if_neg (Ne.symm (absent head List.mem_cons_self))]
      exact ((ih fun e member => absent e (List.mem_cons_of_mem _ member)).cons head).trans (.swap _ _ _)

theorem insert_perm (m : PtrMap β) (v : β) (absent : m.find k = none) : (m.insert k v).entries.Perm ((k,v) :: m.entries) :=
  insertEntry_perm (m.absent_iff.mp absent) v

theorem erase_perm (m : PtrMap β) (found : m.find k = some v) : m.entries.Perm ((k,v) :: (m.erase k).entries) := by
  have member := (m.find_eq_some_iff).mp found
  obtain ⟨entries,sorted⟩ := m
  simp only [erase]
  clear found
  induction sorted with
  | nil => cases member
  | @cons head rest first others ih =>
    rw [List.filter_cons]
    rcases List.mem_cons.mp member with rfl | later
    · have same : rest.filter (fun e => e.1 != k) = rest := by
        apply List.filter_eq_self.mpr
        intro e inside
        have := first e inside
        simp only at this
        simp only [bne_iff_ne]
        omega
      rw [if_neg (by simp),same]
    · have other : head.1 ≠ k := by
        have := first _ later
        simp only at this
        omega
      rw [if_pos (by simp [other])]
      exact ((ih later).cons head).trans (.swap _ _ _)

theorem erase_of_none (m : PtrMap β) (absent : m.find k = none) : m.erase k = m := by
  have same : m.entries.filter (fun e => e.1 != k) = m.entries := by
    apply List.filter_eq_self.mpr
    intro e member
    rw [bne_iff_ne]
    exact m.absent_iff.mp absent e member
  obtain ⟨entries,sorted⟩ := m
  simp only [erase,mk.injEq]
  exact same

theorem insertEntry_map (f : β → γ) (k : Nat) (v : β) (l : List (Nat × β)) :
    (insertEntry k v l).map (fun e => (e.1,f e.2)) = insertEntry k (f v) (l.map fun e => (e.1,f e.2)) := by
  induction l with
  | nil => rfl
  | cons head rest ih =>
    rw [List.map_cons,insertEntry,insertEntry]
    split
    · rfl
    · split
      · rfl
      · rw [List.map_cons,ih]

-- How many values have a property, after one of them is replaced, added or
-- taken out.
def countValues (m : PtrMap β) (f : β → Bool) : Nat := m.entries.countP fun e => f e.2

theorem countValues_modify (m : PtrMap β) (f : β → Bool) (v' : β) (found : m.find k = some v) :
    (m.modify k fun _ => v').countValues f + (f v).toNat = m.countValues f + (f v').toNat := by
  have member := (m.find_eq_some_iff).mp found
  obtain ⟨entries,sorted⟩ := m
  simp only [countValues,modify,mapValues]
  clear found
  induction sorted with
  | nil => cases member
  | @cons head rest first others ih =>
    rw [List.map_cons,List.countP_cons,List.countP_cons]
    rcases List.mem_cons.mp member with rfl | later
    · have same : rest.map (fun e => (e.1,if e.1 = k then v' else e.2)) = rest := by
        refine (List.map_congr_left fun e inside => ?_).trans (List.map_id _)
        have := first e inside
        rw [if_neg (by simp only at this; omega)]
        rfl
      rw [same,if_pos rfl]
      cases f v <;> cases f v' <;> simp
    · have other : head.1 ≠ k := by
        have := first _ later
        simp only at this
        omega
      have behind := ih later
      rw [if_neg other]
      show _ + (if f head.2 = true then 1 else 0) + _ = _
      omega

theorem countValues_insert (m : PtrMap β) (f : β → Bool) (v : β) (absent : m.find k = none) :
    (m.insert k v).countValues f = m.countValues f + (f v).toNat := by
  unfold countValues
  rw [(m.insert_perm v absent).countP_eq,List.countP_cons]
  cases f v <;> rfl

theorem countValues_erase (m : PtrMap β) (f : β → Bool) (none : ∀ v, m.find k = some v → f v = false) :
    (m.erase k).countValues f = m.countValues f := by
  simp only [countValues,erase,List.countP_filter]
  apply List.countP_congr
  intro e member
  by_cases here : e.1 = k
  · have off := none e.2 ((m.find_eq_some_iff).mpr (by rw [← here]; exact member))
    simp [off]
  · simp [here]

theorem countValues_erase_found (m : PtrMap β) (f : β → Bool) (found : m.find k = some v) :
    (m.erase k).countValues f + (f v).toNat = m.countValues f := by
  unfold countValues
  rw [(m.erase_perm found).countP_eq,List.countP_cons]
  cases f v <;> rfl

theorem countValues_pos (m : PtrMap β) (f : β → Bool) (found : m.find k = some v) (on : f v = true) : 0 < m.countValues f :=
  List.countP_pos_iff.mpr ⟨(k,v),(m.find_eq_some_iff).mp found,on⟩

theorem count_insert (m : PtrMap β) (v : β) (absent : m.find k = none) : (m.insert k v).count = m.count + 1 :=
  (m.insert_perm v absent).length_eq

theorem count_insert_le (m : PtrMap β) (k : Nat) (v : β) : (m.insert k v).count ≤ m.count + 1 := by
  obtain ⟨entries,sorted⟩ := m
  show (insertEntry k v entries).length ≤ entries.length + 1
  clear sorted
  induction entries with
  | nil => exact Nat.le_refl _
  | cons head rest ih =>
    unfold insertEntry
    split
    · exact Nat.le_refl _
    · split
      · exact Nat.le_succ _
      · exact Nat.succ_le_succ ih

theorem count_erase (m : PtrMap β) (found : m.find k = some v) : (m.erase k).count + 1 = m.count :=
  (m.erase_perm found).length_eq.symm

theorem count_erase_le (m : PtrMap β) (k : Nat) : (m.erase k).count ≤ m.count := List.length_filter_le _ _

theorem count_modify (m : PtrMap β) (k : Nat) (f : β → β) : (m.modify k f).count = m.count := List.length_map _

end PtrMap

end KtorrentStream.Util
