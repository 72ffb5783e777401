import KtorrentStream.Util.ResourceManager
import Mathlib.Data.Nat.Basic
import Mathlib.Algebra.BigOperators.Group.List.Basic
set_option autoImplicit true

namespace KtorrentStream.Util
open KtorrentStream.Lib

-- The resources that add has been called with.
def ResourceManager.added (calls : List ResourceManager.Call) : List Resource :=
  calls.filterMap fun
    | .add r => some r
    | .remove _ => none

def ofGroup (name : QString) (resources : List Resource) : List Resource := resources.filter fun r => r.groupName = name

def Pending.total (pending : Pending) : Nat := (pending.map fun e => e.2.length).sum

theorem ofGroup_append (name : QString) (one two : List Resource) :
    ofGroup name (one ++ two) = ofGroup name one ++ ofGroup name two := List.filter_append ..

theorem ofGroup_own (own : r.groupName = name) : ofGroup name [r] = [r] := by
  simp [ofGroup,own]

theorem ofGroup_other (other : r.groupName ≠ name) : ofGroup name [r] = [] := by
  simp [ofGroup,other]

namespace Pending

variable {pending : Pending} {i : Nat}

theorem mem_keys : name ∈ pending.keys ↔ ∃ queue, (name,queue) ∈ pending := by
  simp [keys]

theorem mem_waiting : name ∈ pending.waiting ↔ ∃ queue, (name,queue) ∈ pending ∧ queue ≠ [] := by
  simp [waiting,keys]

theorem waiting_subset : pending.waiting ⊆ pending.keys := by
  intro name waits
  obtain ⟨queue,among,_⟩ := mem_waiting.mp waits
  exact mem_keys.mpr ⟨queue,among⟩

theorem keys_length (pending : Pending) : pending.keys.length = pending.length := List.length_map _

theorem keys_at (here : pending[i]? = some (name,queue)) : pending.keys[i]? = some name := by
  rw [keys,List.getElem?_map,here]
  rfl

theorem keys_map {f : QString × List Resource → QString × List Resource} (named : ∀ e, (f e).1 = e.1) (pending : Pending) :
    keys (pending.map f) = pending.keys := by
  rw [keys,List.map_map]
  exact List.map_congr_left fun e _ => named e

theorem same_queue (distinct : pending.keys.Nodup) (one : (name,queue) ∈ pending) (two : (name,queue') ∈ pending) :
    queue = queue' := by
  induction pending with
  | nil => cases one
  | cons e rest ih =>
      obtain ⟨fresh,distinct⟩ := List.nodup_cons.mp distinct
      rcases List.mem_cons.mp one with rfl | one <;> rcases List.mem_cons.mp two with same | two
      · exact (Prod.mk.inj same).2.symm
      · exact absurd (mem_keys.mpr ⟨_,two⟩) fresh
      · rw [← same] at fresh
        exact absurd (mem_keys.mpr ⟨_,one⟩) fresh
      · exact ih distinct one two

theorem keys_set (here : pending[i]? = some (name,queue)) : keys (pending.set i (name,queue')) = pending.keys := by
  apply List.ext_getElem?
  intro j
  rw [keys,List.map_set,List.getElem?_set]
  split
  · rename_i same
    subst same
    rw [if_pos (by simpa using (List.getElem?_eq_some_iff.mp here).1)]
    exact (keys_at here).symm
  · rfl

theorem mem_set (distinct : pending.keys.Nodup) (here : pending[i]? = some (name,queue))
    (among : e ∈ pending.set i (name,queue')) : e = (name,queue') ∨ (e ∈ pending ∧ e.1 ≠ name) := by
  obtain ⟨j,inside⟩ := List.mem_iff_getElem?.mp among
  rw [List.getElem?_set] at inside
  split at inside
  · split at inside
    · exact .inl (Option.some.inj inside).symm
    · cases inside
  · rename_i other
    refine .inr ⟨List.mem_iff_getElem?.mpr ⟨j,inside⟩,?_⟩
    rintro rfl
    have inRange : i < pending.keys.length := (List.getElem?_eq_some_iff.mp (keys_at here)).1
    exact other ((List.getElem?_inj inRange distinct).mp ((keys_at here).trans (keys_at inside).symm))

theorem total_set {pending : Pending} {i : Nat} (here : pending[i]? = some (name,r :: rest)) : total (pending.set i (name,rest)) + 1 = pending.total := by
  induction pending generalizing i with
  | nil => cases here
  | cons e pending ih =>
      cases i with
      | zero =>
          obtain rfl := Option.some.inj here
          simp [total]
          omega
      | succ i =>
          have smaller := ih here
          simp only [total,List.set_cons_succ,List.map_cons,List.sum_cons] at smaller ⊢
          omega

theorem keys_insertGroup (name : QString) (pending : Pending) :
    ∃ earlier later, pending.keys = earlier ++ later ∧ (pending.insertGroup name).keys = earlier ++ name :: later := by
  induction pending with
  | nil => exact ⟨[],[],rfl,rfl⟩
  | cons e rest ih =>
      rw [insertGroup]
      split
      · exact ⟨[],e.1 :: keys rest,rfl,rfl⟩
      · obtain ⟨earlier,later,split,inserted⟩ := ih
        exact ⟨e.1 :: earlier,later,congrArg (e.1 :: ·) split,congrArg (e.1 :: ·) inserted⟩

theorem mem_insertGroup : e ∈ pending.insertGroup name ↔ e = (name,[]) ∨ e ∈ pending := by
  induction pending with
  | nil => simp [insertGroup]
  | cons first rest ih =>
      rw [insertGroup]
      split
      · exact List.mem_cons
      · rw [List.mem_cons,ih,List.mem_cons,or_left_comm]

end Pending

-- What every operation keeps, whatever has been added so far.
structure Kept (s : ResourceManager) (asked : List Resource) : Prop where
  distinct : s.pending.keys.Nodup
  own : ∀ e ∈ s.pending, ∀ r ∈ e.2, r.groupName = e.1
  queued : ∀ e ∈ s.pending, (ofGroup e.1 s.acquired ++ e.2).Sublist (ofGroup e.1 asked)
  ordered : ∀ name, (ofGroup name s.acquired).Sublist (ofGroup name asked)
  within : s.active.length ≤ s.maxActiveResources

theorem length_insert_le (r : Resource) (active : List Resource) : (active.insert r).length ≤ active.length + 1 := by
  rw [List.length_insert]
  split
  · exact Nat.le_succ _
  · exact Nat.le_refl _

theorem Kept.activate {i : Nat} (kept : Kept s asked) (here : s.pending[i]? = some (name,r :: rest))
    (room : s.active.length < s.maxActiveResources) : Kept (s.activate i name r rest) asked := by
  have among := List.mem_iff_getElem?.mpr ⟨i,here⟩
  have own : r.groupName = name := kept.own _ among r List.mem_cons_self
  have next : (ofGroup name (s.acquired ++ [r]) ++ rest).Sublist (ofGroup name asked) := by
    rw [ofGroup_append,ofGroup_own own,List.append_assoc]
    exact kept.queued _ among
  refine ⟨?_,?_,?_,?_,?_⟩
  · exact (Pending.keys_set here).symm ▸ kept.distinct
  · intro e inside r' waits
    rcases Pending.mem_set kept.distinct here inside with rfl | ⟨old,_⟩
    · exact kept.own _ among r' (List.mem_cons_of_mem r waits)
    · exact kept.own e old r' waits
  · intro e inside
    rcases Pending.mem_set kept.distinct here inside with rfl | ⟨old,other⟩
    · exact next
    · change (ofGroup e.1 (s.acquired ++ [r]) ++ e.2).Sublist _
      rw [ofGroup_append,ofGroup_other (own.trans_ne other.symm),List.append_nil]
      exact kept.queued e old
  · intro g
    change (ofGroup g (s.acquired ++ [r])).Sublist _
    by_cases same : r.groupName = g
    · obtain rfl := own.symm.trans same
      exact (List.sublist_append_left _ _).trans next
    · rw [ofGroup_append,ofGroup_other same,List.append_nil]
      exact kept.ordered g
  · exact (length_insert_le r s.active).trans room

namespace Scan

theorem visit_cases {l : Scan} (visited : l.visit = some l') :
    ∃ name queue, l.manager.pending[l.i]? = some (name,queue) ∧ l'.i = l.next ∧ l'.start = l.start ∧
      ((queue = [] ∧ l'.manager = l.manager ∧ l'.activated = l.activated) ∨
        ∃ r rest, queue = r :: rest ∧ l'.manager = l.manager.activate l.i name r rest ∧ l'.activated = l.activated + 1) := by
  unfold visit at visited
  split at visited
  · cases visited
  · rename_i name here
    obtain rfl := Option.some.inj visited
    exact ⟨name,[],here,rfl,rfl,.inl ⟨rfl,rfl,rfl⟩⟩
  · rename_i name r rest here
    obtain rfl := Option.some.inj visited
    exact ⟨name,r :: rest,here,rfl,rfl,.inr ⟨r,rest,rfl,rfl,rfl⟩⟩

-- Whatever a visit with a free slot keeps, the loop keeps.
theorem run_induct {H : Scan → Prop}
    (visited : ∀ l l', H l → l.manager.active.length < l.manager.maxActiveResources → l.visit = some l' → H l')
    (cycled : ∀ l, H l → H {l with activated := 0}) (now : H l) (done : run fuel l = some l') : H l' := by
  induction fuel generalizing l with
  | zero => cases done
  | succ fuel ih =>
      rw [run] at done
      split at done
      · rename_i room
        obtain ⟨next,step,done⟩ := Option.bind_eq_some_iff.mp done
        have after := visited l next now room step
        split at done
        · split at done
          · exact Option.some.inj done ▸ after
          · exact ih (cycled next after) done
        · exact ih after done
      · exact Option.some.inj done ▸ now

-- m lists have been passed since the start of the cycle, and as long as none of them
-- gave anything they are all empty.
structure Scanning (l : Scan) (m : Nat) : Prop where
  start : l.start < l.manager.pending.length
  passed : m < l.manager.pending.length
  here : l.i < l.manager.pending.length
  place : l.i = l.start + m ∨ l.i + l.manager.pending.length = l.start + m
  clear : l.activated = 0 → ∀ j e, l.manager.pending[j]? = some e →
    (l.start ≤ j ∧ j < l.start + m) ∨ j + l.manager.pending.length < l.start + m → e.2 = []

-- An upper bound on the activations to come, one more for a cycle that had one already.
def credit (l : Scan) : Nat := l.manager.pending.total + if l.activated = 0 then 0 else 1

def need (l : Scan) (m : Nat) : Nat := l.manager.pending.length * l.credit + (l.manager.pending.length - m)

theorem visit_some {l : Scan} (inside : l.i < l.manager.pending.length) : ∃ l', l.visit = some l' := by
  unfold visit
  rw [List.getElem?_eq_getElem inside]
  rcases l.manager.pending[l.i] with ⟨name,_ | ⟨r,rest⟩⟩
  · exact ⟨_,rfl⟩
  · exact ⟨_,rfl⟩

theorem visit_length {l : Scan} (visited : l.visit = some l') : l'.manager.pending.length = l.manager.pending.length := by
  obtain ⟨name,queue,here,_,_,⟨_,same,_⟩ | ⟨r,rest,_,manager,_⟩⟩ := visit_cases visited
  · rw [same]
  · rw [manager]
    exact List.length_set

theorem visit_credit {l : Scan} (visited : l.visit = some l') :
    l'.credit ≤ l.credit ∧ (l'.activated ≠ 0 → l'.manager.pending.total < l.credit) := by
  obtain ⟨name,queue,here,_,_,⟨_,same,activated⟩ | ⟨r,rest,rfl,manager,activated⟩⟩ := visit_cases visited
  · rw [credit,credit,same,activated]
    refine ⟨Nat.le_refl _,fun some => ?_⟩
    rw [if_neg some]
    exact Nat.lt_succ_self _
  · have fewer := Pending.total_set here
    have total : l'.manager.pending.total + 1 = l.manager.pending.total := by rw [manager]; exact fewer
    rw [credit,credit,activated,if_neg (Nat.succ_ne_zero _),total]
    refine ⟨Nat.le_add_right _ _,fun _ => ?_⟩
    omega

theorem next_place {l : Scan} (scanning : Scanning l m) (visited : l.visit = some l') :
    l'.start = l.start ∧ l'.i < l.manager.pending.length ∧
      (l'.i = l.start + (m + 1) ∨ l'.i + l.manager.pending.length = l.start + (m + 1)) := by
  obtain ⟨_,_,_,moved,start,_⟩ := visit_cases visited
  have begun := scanning.start
  have passed := scanning.passed
  have here := scanning.here
  have place := scanning.place
  refine ⟨start,?_⟩
  rw [moved,next]
  split <;> omega

theorem next_clear {l : Scan} (scanning : Scanning l m) (visited : l.visit = some l') (none : l'.activated = 0) :
    ∀ j e, l'.manager.pending[j]? = some e →
      (l.start ≤ j ∧ j < l.start + (m + 1)) ∨ j + l.manager.pending.length < l.start + (m + 1) → e.2 = [] := by
  obtain ⟨name,queue,here,_,_,⟨rfl,same,activated⟩ | ⟨r,rest,_,_,activated⟩⟩ := visit_cases visited
  · intro j e found range
    rw [same] at found
    by_cases now : j = l.i
    · obtain rfl := Option.some.inj ((now ▸ found).symm.trans here)
      rfl
    · have inside := (List.getElem?_eq_some_iff.mp found).1
      have bound := scanning.here
      have place := scanning.place
      exact scanning.clear (activated.symm.trans none) j e found (by omega)
  · rw [activated] at none
    cases none

theorem scanning_next {l : Scan} (scanning : Scanning l m) (visited : l.visit = some l') (passed : m + 1 < l.manager.pending.length) :
    Scanning l' (m + 1) := by
  have length := visit_length visited
  obtain ⟨start,inside,place⟩ := next_place scanning visited
  refine ⟨?_,?_,?_,?_,?_⟩
  · rw [start,length]
    exact scanning.start
  · rw [length]
    exact passed
  · rw [length]
    exact inside
  · rw [start,length]
    exact place
  · intro none
    rw [start,length]
    exact next_clear scanning visited none

theorem scanning_start {l : Scan} (inside : l.start < l.manager.pending.length) (here : l.i = l.start) : Scanning l 0 := by
  refine ⟨inside,Nat.zero_lt_of_lt inside,here ▸ inside,.inl here,?_⟩
  intro _ j e _ range
  omega

-- Every slot is taken, or nothing is pending.
def Busy (s : ResourceManager) : Prop := s.active.length < s.maxActiveResources → ∀ e ∈ s.pending, e.2 = []

theorem run_ends {l : Scan} (scanning : Scanning l m) (enough : l.need m ≤ fuel) :
    ∃ l', run fuel l = some l' ∧ l'.i < l'.manager.pending.length ∧ Busy l'.manager := by
  induction fuel generalizing l m with
  | zero =>
      have passed := scanning.passed
      rw [need] at enough
      omega
  | succ fuel ih =>
      rw [run]
      split
      · obtain ⟨next,visited⟩ := visit_some scanning.here
        have length := visit_length visited
        obtain ⟨start,inside,place⟩ := next_place scanning visited
        obtain ⟨less,paid⟩ := visit_credit visited
        have passed := scanning.passed
        have begun := scanning.start
        rw [visited,Option.bind_some]
        split
        · rename_i around
          split
          · -- A whole cycle without an activation has passed every list.
            rename_i none
            refine ⟨next,rfl,length ▸ inside,?_⟩
            intro _ e among
            obtain ⟨j,found⟩ := List.mem_iff_getElem?.mp among
            have bound := (List.getElem?_eq_some_iff.mp found).1
            exact next_clear scanning visited none j e found (by omega)
          · rename_i some
            apply ih (l := {next with activated := 0}) (m := 0)
            · exact scanning_start (by rw [start,length]; exact begun) around
            · have spent := Nat.mul_le_mul_left l.manager.pending.length (paid some)
              rw [Nat.mul_succ] at spent
              rw [need] at enough
              rw [need,credit]
              simp only [length,if_true,Nat.add_zero,Nat.sub_zero]
              omega
        · rename_i further
          apply ih (scanning_next scanning visited (by omega))
          have spent := Nat.mul_le_mul_left l.manager.pending.length less
          rw [need] at enough ⊢
          rw [length]
          omega
      · rename_i full
        exact ⟨l,rfl,scanning.here,fun room => absurd room full⟩

-- What the loop keeps of the manager it began with.
structure Continues (s : ResourceManager) (asked : List Resource) (now : ResourceManager) : Prop where
  kept : Kept now asked
  most : now.maxActiveResources = s.maxActiveResources
  keys : now.pending.keys = s.pending.keys

-- The groups from a place on are in the order in which they are asked.
def Turns (now : ResourceManager) (i : Nat) : Prop := RoundRobin now.log (turned i now.pending.keys) now.pending.waiting

theorem visit_continues {l : Scan} (continues : Continues s asked l.manager) (room : l.manager.active.length < l.manager.maxActiveResources)
    (visited : l.visit = some l') : Continues s asked l'.manager := by
  obtain ⟨name,queue,here,_,_,⟨_,same,_⟩ | ⟨r,rest,rfl,manager,_⟩⟩ := visit_cases visited
  · rw [same]
    exact continues
  · refine ⟨?_,?_,?_⟩
    · rw [manager]
      exact continues.kept.activate here room
    · rw [manager]
      exact continues.most
    · rw [manager]
      exact (Pending.keys_set here).trans continues.keys

theorem idle_group {pending : Pending} {i : Nat} (distinct : pending.keys.Nodup) (here : pending[i]? = some (name,[])) : name ∉ pending.waiting := by
  intro waits
  obtain ⟨queue,among,some_⟩ := Pending.mem_waiting.mp waits
  exact some_ (Pending.same_queue distinct among (List.mem_iff_getElem?.mpr ⟨i,here⟩))

theorem visit_turns {l : Scan} (distinct : l.manager.pending.keys.Nodup) (turns : Turns l.manager l.i) (visited : l.visit = some l') :
    Turns l'.manager l'.i := by
  obtain ⟨name,queue,here,moved,_,cases_⟩ := visit_cases visited
  obtain ⟨rest,order,after⟩ := turned_next (Pending.keys_at here)
  rw [Pending.keys_length] at after
  unfold Turns at turns ⊢
  rw [order] at turns
  rw [moved,next]
  rcases cases_ with ⟨rfl,same,_⟩ | ⟨r,queue,rfl,manager,_⟩
  · rw [same,after]
    exact turns.skip (idle_group distinct here)
  · have keys : (l.manager.activate l.i name r queue).pending.keys = l.manager.pending.keys := Pending.keys_set here
    rw [manager,keys,after]
    refine turns.serve ?_ ?_
    · rw [← order]
      exact turned_nodup l.i distinct
    · intro h waits
      rw [← order,mem_turned,← keys]
      exact Pending.waiting_subset waits

end Scan

-- The scan stands on a group, or there is nothing yet.
def Placed (s : ResourceManager) : Prop := s.current ∈ s.pending.keys ∨ (s.pending = [] ∧ s.active = [] ∧ s.current = [])

def InTurn (s : ResourceManager) : Prop := Scan.Turns s s.place

theorem place_at {s : ResourceManager} (among : s.current ∈ s.pending.keys) : s.pending.keys[s.place]? = some s.current := by
  cases found : s.pending.keys.idxOf? s.current with
  | none => exact absurd among (List.idxOf?_eq_none_iff.mp found)
  | some i =>
      have place : s.place = i := by rw [ResourceManager.place,found]; rfl
      obtain ⟨inside,same,_⟩ := List.idxOf?_eq_some_iff.mp found
      rw [place]
      exact List.getElem?_eq_some_iff.mpr ⟨inside,same⟩

theorem place_of {s : ResourceManager} (distinct : s.pending.keys.Nodup) (here : s.pending.keys[i]? = some s.current) : s.place = i := by
  have there := place_at (List.mem_iff_getElem?.mpr ⟨i,here⟩)
  exact (List.getElem?_inj (List.getElem?_eq_some_iff.mp there).1 distinct).mp (there.trans here.symm)

structure Updates (s s' : ResourceManager) (asked : List Resource) : Prop where
  kept : Kept s' asked
  most : s'.maxActiveResources = s.maxActiveResources
  current : s'.current ∈ s'.pending.keys
  busy : Scan.Busy s'
  turns : InTurn s → InTurn s'

theorem update_spec {s : ResourceManager} (kept : Kept s asked) (among : s.current ∈ s.pending.keys) :
    ∃ s', s.update = some s' ∧ Updates s s' asked := by
  unfold ResourceManager.update
  split
  · rename_i full
    exact ⟨s,rfl,kept,rfl,among,fun room => absurd room (Nat.not_lt.mpr full),id⟩
  · have here := place_at among
    have inside : s.place < s.pending.length := by
      rw [← Pending.keys_length]
      exact (List.getElem?_eq_some_iff.mp here).1
    have start := Scan.scanning_start (l := ⟨s,s.place,s.place,0⟩) inside rfl
    have enough : Scan.need ⟨s,s.place,s.place,0⟩ 0 ≤ s.rounds := by
      rw [Scan.need,Scan.credit,if_pos rfl,Nat.add_zero,Nat.sub_zero,ResourceManager.rounds,Nat.mul_succ]
      exact Nat.le_succ _
    obtain ⟨l,done,stands,busy⟩ := Scan.run_ends start enough
    have continues : Scan.Continues s asked l.manager :=
      Scan.run_induct (H := fun l => Scan.Continues s asked l.manager) (fun _ _ now room visited => Scan.visit_continues now room visited)
        (fun _ now => now) ⟨kept,rfl,rfl⟩ done
    have turns : InTurn s → Scan.Turns l.manager l.i := by
      intro now
      have begun : Scan.Continues s asked s ∧ Scan.Turns s s.place := ⟨⟨kept,rfl,rfl⟩,now⟩
      have both := Scan.run_induct (H := fun l => Scan.Continues s asked l.manager ∧ Scan.Turns l.manager l.i)
        (fun _ _ now room visited => ⟨Scan.visit_continues now.1 room visited,Scan.visit_turns now.1.kept.distinct now.2 visited⟩)
        (fun _ now => now) begun done
      exact both.2
    have found := List.getElem?_eq_getElem stands
    rw [done,Option.bind_some,found,Option.map_some]
    have key : l.manager.pending.keys[l.i]? = some (l.manager.pending[l.i]).1 := Pending.keys_at found
    refine ⟨_,rfl,⟨continues.kept.distinct,continues.kept.own,continues.kept.queued,continues.kept.ordered,continues.kept.within⟩,
      continues.most,List.mem_iff_getElem?.mpr ⟨l.i,key⟩,busy,fun now => ?_⟩
    have place := place_of (s := {l.manager with current := (l.manager.pending[l.i]).1}) continues.kept.distinct key
    unfold InTurn
    rw [place]
    exact turns now

theorem Kept.stand (kept : Kept s asked) (c : QString) : Kept {s with current := c} asked :=
  ⟨kept.distinct,kept.own,kept.queued,kept.ordered,kept.within⟩

theorem Kept.insert (kept : Kept s asked) (fresh : name ∉ s.pending.keys) :
    Kept {s with pending := s.pending.insertGroup name} asked := by
  obtain ⟨earlier,later,keys,inserted⟩ := Pending.keys_insertGroup name s.pending
  refine ⟨?_,?_,?_,kept.ordered,kept.within⟩
  · change (s.pending.insertGroup name).keys.Nodup
    rw [inserted,List.nodup_middle,List.nodup_cons,← keys]
    exact ⟨fresh,kept.distinct⟩
  · intro e among r waits
    rcases Pending.mem_insertGroup.mp among with rfl | old
    · cases waits
    · exact kept.own e old r waits
  · intro e among
    rcases Pending.mem_insertGroup.mp among with rfl | old
    · rw [List.append_nil]
      exact kept.ordered name
    · exact kept.queued e old

theorem keys_append (pending : Pending) (r : Resource) : Pending.keys (ResourceManager.append pending r) = pending.keys := by
  apply Pending.keys_map
  intro e
  split <;> rfl

theorem mem_append {pending : Pending} : e ∈ ResourceManager.append pending r ↔
    ∃ old ∈ pending, e = if old.1 = r.groupName then (old.1,old.2 ++ [r]) else old := by
  rw [ResourceManager.append,List.mem_map]
  simp only [eq_comm]

theorem waiting_append {pending : Pending} : pending.waiting ⊆ Pending.waiting (ResourceManager.append pending r) := by
  intro name waits
  obtain ⟨queue,among,some⟩ := Pending.mem_waiting.mp waits
  apply Pending.mem_waiting.mpr
  by_cases own : name = r.groupName
  · exact ⟨queue ++ [r],mem_append.mpr ⟨_,among,(if_pos own).symm⟩,List.append_ne_nil_of_left_ne_nil some [r]⟩
  · exact ⟨queue,mem_append.mpr ⟨_,among,(if_neg own).symm⟩,some⟩

theorem Kept.append (kept : Kept s asked) (r : Resource) :
    Kept {s with pending := ResourceManager.append s.pending r} (asked ++ [r]) := by
  refine ⟨?_,?_,?_,?_,kept.within⟩
  · change (Pending.keys (ResourceManager.append s.pending r)).Nodup
    rw [keys_append]
    exact kept.distinct
  · intro e among x waits
    obtain ⟨old,inside,rfl⟩ := mem_append.mp among
    split at waits
    · rename_i own
      rw [if_pos own]
      rcases List.mem_append.mp waits with earlier | last
      · exact kept.own old inside x earlier
      · rw [List.mem_singleton.mp last]
        exact own.symm
    · rename_i other
      rw [if_neg other]
      exact kept.own old inside x waits
  · intro e among
    obtain ⟨old,inside,rfl⟩ := mem_append.mp among
    split
    · rename_i own
      rw [ofGroup_append,ofGroup_own own.symm,← List.append_assoc]
      exact (kept.queued old inside).append (.refl [r])
    · rename_i other
      rw [ofGroup_append,ofGroup_other (Ne.symm other),List.append_nil]
      exact kept.queued old inside
  · intro name
    rw [ofGroup_append]
    exact (kept.ordered name).trans (List.sublist_append_left _ _)

-- What holds between two calls.
structure Standing (s : ResourceManager) (asked : List Resource) : Prop where
  kept : Kept s asked
  placed : Placed s
  busy : Scan.Busy s

-- current is taken for not set although the scan stands on the group without a name.
def ResourceManager.Disturbs (s : ResourceManager) : ResourceManager.Call → Prop
  | .add r => s.current = [] ∧ s.pending ≠ [] ∧ r.groupName ≠ []
  | .remove _ => False

def ResourceManager.Undisturbed (s : ResourceManager) : List ResourceManager.Call → Prop
  | [] => True
  | call :: rest => ¬ s.Disturbs call ∧ ∀ s', s.step call = some s' → s'.Undisturbed rest

-- The pending list of add before the resource goes in.
def ResourceManager.opened (s : ResourceManager) (name : QString) : Pending :=
  if name ∈ s.pending.keys then s.pending else s.pending.insertGroup name

theorem Kept.opened (kept : Kept s asked) (name : QString) : Kept {s with pending := s.opened name} asked := by
  rw [ResourceManager.opened]
  split
  · exact kept
  · rename_i fresh
    exact kept.insert fresh

theorem keys_opened (s : ResourceManager) (name : QString) : name ∈ (s.opened name).keys ∧ s.pending.keys ⊆ (s.opened name).keys := by
  rw [ResourceManager.opened]
  split
  · rename_i known
    exact ⟨known,fun _ among => among⟩
  · obtain ⟨earlier,later,keys,inserted⟩ := Pending.keys_insertGroup name s.pending
    rw [keys,inserted]
    refine ⟨List.mem_append_right _ List.mem_cons_self,fun other among => ?_⟩
    rcases List.mem_append.mp among with one | two
    · exact List.mem_append_left _ one
    · exact List.mem_append_right _ (List.mem_cons_of_mem _ two)

theorem waiting_opened (s : ResourceManager) (name : QString) : s.pending.waiting ⊆ (s.opened name).waiting := by
  intro other waits
  obtain ⟨queue,among,some⟩ := Pending.mem_waiting.mp waits
  apply Pending.mem_waiting.mpr
  rw [ResourceManager.opened]
  split
  · exact ⟨queue,among,some⟩
  · exact ⟨queue,Pending.mem_insertGroup.mpr (.inr among),some⟩

-- A new group comes in somewhere along the order in which the groups are asked.
theorem turned_opened {s : ResourceManager} (distinct : (s.opened name).keys.Nodup) (among : s.current ∈ s.pending.keys) :
    (turned s.place s.pending.keys).Sublist (turned (ResourceManager.place {s with pending := s.opened name}) (s.opened name).keys) := by
  have here := place_at among
  by_cases known : name ∈ s.pending.keys
  · rw [ResourceManager.opened,if_pos known]
  · obtain ⟨earlier,later,keys,inserted⟩ := Pending.keys_insertGroup name s.pending
    rw [ResourceManager.opened,if_neg known] at distinct ⊢
    have there : (earlier ++ name :: later)[if s.place < earlier.length then s.place else s.place + 1]? = some s.current := by
      rw [keys] at here
      split
      · rename_i before
        rw [List.getElem?_append_left before] at here ⊢
        exact here
      · rename_i after
        rw [List.getElem?_append_right (Nat.not_lt.mp after)] at here
        rw [List.getElem?_append_right (Nat.le_succ_of_le (Nat.not_lt.mp after)),Nat.succ_sub (Nat.not_lt.mp after),
          List.getElem?_cons_succ]
        exact here
    have place := place_of (s := {s with pending := s.pending.insertGroup name}) distinct (inserted ▸ there)
    rw [place,keys,inserted]
    exact turned_insert name s.place earlier later

theorem Updates.standing (updates : Updates s s' asked) : Standing s' asked :=
  ⟨updates.kept,.inl updates.current,updates.busy⟩

def ResourceManager.queued (s : ResourceManager) (r : Resource) : ResourceManager :=
  {s with
    pending := append (s.opened r.groupName) r
    current := if s.current.isEmpty then r.groupName else s.current}

theorem queued_kept (kept : Kept s asked) (r : Resource) : Kept (s.queued r) (asked ++ [r]) :=
  ((kept.opened r.groupName).append r).stand _

theorem queued_current (placed : Placed s) (r : Resource) : (s.queued r).current ∈ (s.queued r).pending.keys := by
  obtain ⟨own,more⟩ := keys_opened s r.groupName
  change (if s.current.isEmpty then r.groupName else s.current) ∈ Pending.keys (ResourceManager.append (s.opened r.groupName) r)
  rw [keys_append]
  split
  · exact own
  · rename_i named
    rcases placed with among | ⟨_,_,none⟩
    · exact more among
    · exact absurd (List.isEmpty_iff.mpr none) named

theorem queued_turns (kept : Kept s asked) (placed : Placed s) (calm : ¬ s.Disturbs (.add r)) (turns : InTurn s) :
    InTurn (s.queued r) := by
  have wider : s.pending.waiting ⊆ (s.queued r).pending.waiting := fun _ waits => waiting_append (waiting_opened s r.groupName waits)
  refine RoundRobin.grow turns ?_ wider
  have keys : (s.queued r).pending.keys = (s.opened r.groupName).keys := keys_append _ r
  rcases placed with among | ⟨nothing,_,_⟩
  · have current : (s.queued r).current = s.current := by
      change (if s.current.isEmpty then r.groupName else s.current) = s.current
      split
      · rename_i unnamed
        have none := List.isEmpty_iff.mp unnamed
        have some : s.pending ≠ [] := fun nothing => by
          rw [nothing] at among
          cases among
        by_contra other
        exact calm ⟨none,some,fun same => other (same.trans none.symm)⟩
      · rfl
    have place : (s.queued r).place = ResourceManager.place {s with pending := s.opened r.groupName} := by
      rw [ResourceManager.place,keys,current]
      rfl
    rw [place,keys]
    exact turned_opened (kept.opened r.groupName).distinct among
  · rw [nothing]
    change (turned s.place []).Sublist _
    rw [turned,List.drop_nil,List.take_nil]
    exact List.nil_sublist _

theorem add_spec (standing : Standing s asked) (r : Resource) :
    ∃ s', s.add r = some s' ∧ Standing s' (asked ++ [r]) ∧ s'.maxActiveResources = s.maxActiveResources ∧
      (¬ s.Disturbs (.add r) → InTurn s → InTurn s') := by
  obtain ⟨s',updated,updates⟩ := update_spec (queued_kept standing.kept r) (queued_current standing.placed r)
  exact ⟨s',updated,updates.standing,updates.most,fun calm turns => updates.turns (queued_turns standing.kept standing.placed calm turns)⟩

theorem removed_keys (pending : Pending) (r : Resource) :
    Pending.keys (pending.map fun e => if e.1 = r.groupName then (e.1,e.2.filter (· ≠ r)) else e) = pending.keys := by
  apply Pending.keys_map
  intro e
  split <;> rfl

theorem removed_queue {pending : Pending} (among : e ∈ pending.map fun e => if e.1 = r.groupName then (e.1,e.2.filter (· ≠ r)) else e) :
    ∃ old ∈ pending, e.1 = old.1 ∧ e.2.Sublist old.2 := by
  obtain ⟨old,inside,rfl⟩ := List.mem_map.mp among
  refine ⟨old,inside,?_⟩
  split
  · exact ⟨rfl,List.filter_sublist⟩
  · exact ⟨rfl,.refl _⟩

theorem Kept.dequeue (kept : Kept s asked) (r : Resource) :
    Kept {s with pending := s.pending.map fun e => if e.1 = r.groupName then (e.1,e.2.filter (· ≠ r)) else e} asked := by
  refine ⟨?_,?_,?_,kept.ordered,kept.within⟩
  · exact (removed_keys s.pending r).symm ▸ kept.distinct
  · intro e among x waits
    obtain ⟨old,inside,name,fewer⟩ := removed_queue among
    rw [name]
    exact kept.own old inside x (fewer.subset waits)
  · intro e among
    obtain ⟨old,inside,name,fewer⟩ := removed_queue among
    rw [name]
    exact ((List.Sublist.refl _).append fewer).trans (kept.queued old inside)

theorem Kept.release (kept : Kept s asked) (r : Resource) : Kept {s with active := s.active.erase r} asked :=
  ⟨kept.distinct,kept.own,kept.queued,kept.ordered,(List.length_erase_le).trans kept.within⟩

theorem remove_spec (standing : Standing s asked) (r : Resource) :
    ∃ s', s.remove r = some s' ∧ Standing s' asked ∧ s'.maxActiveResources = s.maxActiveResources ∧
      (InTurn s → ∃ waiting, RoundRobin s'.log (turned s'.place s'.pending.keys) waiting) := by
  unfold ResourceManager.remove
  split
  · rename_i active
    have among : s.current ∈ s.pending.keys := by
      rcases standing.placed with among | ⟨_,none,_⟩
      · exact among
      · rw [none] at active
        cases active
    obtain ⟨s',updated,updates⟩ := update_spec (standing.kept.release r) among
    exact ⟨s',updated,updates.standing,updates.most,fun turns => ⟨_,updates.turns turns⟩⟩
  · have keys := removed_keys s.pending r
    refine ⟨_,rfl,⟨standing.kept.dequeue r,?_,?_⟩,rfl,?_⟩
    · rcases standing.placed with among | ⟨nothing,none,unset⟩
      · exact .inl (keys.symm ▸ among)
      · exact .inr ⟨by rw [nothing]; rfl,none,unset⟩
    · intro room e inside
      obtain ⟨old,earlier,_,fewer⟩ := removed_queue inside
      exact List.sublist_nil.mp (standing.busy room old earlier ▸ fewer)
    · intro turns
      refine ⟨s.pending.waiting,?_⟩
      rw [ResourceManager.place,keys]
      exact turns

theorem Standing.mark (standing : Standing s asked) : Standing s.mark asked :=
  ⟨⟨standing.kept.distinct,standing.kept.own,standing.kept.queued,standing.kept.ordered,standing.kept.within⟩,
    standing.placed,standing.busy⟩

theorem mark_turns {s : ResourceManager} (turns : RoundRobin s.log (turned s.place s.pending.keys) waiting) : InTurn s.mark :=
  turns.mark s.pending.waiting

theorem step_spec (standing : Standing s asked) (call : ResourceManager.Call) :
    ∃ s', s.step call = some s' ∧ Standing s' (asked ++ ResourceManager.added [call]) ∧ s'.maxActiveResources = s.maxActiveResources ∧
      (¬ s.Disturbs call → InTurn s → InTurn s') := by
  cases call with
  | add r =>
      obtain ⟨s',added,after,most,turns⟩ := add_spec standing r
      refine ⟨s'.mark,?_,after.mark,most,fun calm now => mark_turns (turns calm now)⟩
      rw [ResourceManager.step,added,Option.map_some]
  | remove r =>
      obtain ⟨s',removed,after,most,turns⟩ := remove_spec standing r
      refine ⟨s'.mark,?_,?_,most,fun _ now => ?_⟩
      · rw [ResourceManager.step,removed,Option.map_some]
      · rw [show ResourceManager.added [.remove r] = [] from rfl,List.append_nil]
        exact after.mark
      · obtain ⟨waiting,turns⟩ := turns now
        exact mark_turns turns

theorem added_cons (call : ResourceManager.Call) (calls : List ResourceManager.Call) :
    ResourceManager.added (call :: calls) = ResourceManager.added [call] ++ ResourceManager.added calls := by
  cases call with
  | add r => rfl
  | remove r => rfl

theorem performAll_spec (standing : Standing s asked) (calls : List ResourceManager.Call) :
    ∃ s', s.performAll calls = some s' ∧ Standing s' (asked ++ ResourceManager.added calls) ∧
      s'.maxActiveResources = s.maxActiveResources ∧ (s.Undisturbed calls → InTurn s → InTurn s') := by
  induction calls generalizing s asked with
  | nil =>
      refine ⟨s,rfl,?_,rfl,fun _ now => now⟩
      rw [show ResourceManager.added [] = [] from rfl,List.append_nil]
      exact standing
  | cons call rest ih =>
      obtain ⟨next,stepped,between,same,turn⟩ := step_spec standing call
      obtain ⟨s',performed,after,most,turns⟩ := ih between
      refine ⟨s',?_,?_,most.trans same,fun calm now => turns (calm.2 next stepped) (turn calm.1 now)⟩
      · rw [ResourceManager.performAll,List.foldlM_cons,stepped]
        exact performed
      · rw [added_cons,← List.append_assoc]
        exact after

theorem new_standing (maxActiveResources : Nat) : Standing (.new maxActiveResources) [] := by
  refine ⟨⟨List.nodup_nil,?_,?_,fun _ => .refl _,Nat.zero_le _⟩,.inr ⟨rfl,rfl,rfl⟩,?_⟩
  · intro e among
    cases among
  · intro e among
    cases among
  · intro _ e among
    cases among

theorem new_turns (maxActiveResources : Nat) : InTurn (.new maxActiveResources) := RoundRobin.nil _ _

-- Within a group the resources are acquired in the order added, so none twice.
theorem Kept.acquired_nodup (kept : Kept s asked) (once : asked.Nodup) : s.acquired.Nodup := by
  rw [List.nodup_iff_count_le_one]
  intro r
  have own : ∀ resources, (ofGroup r.groupName resources).count r = resources.count r :=
    fun _ => List.count_filter (decide_eq_true rfl)
  have ordered := (kept.ordered r.groupName).count_le r
  rw [own,own] at ordered
  exact ordered.trans (List.nodup_iff_count_le_one.mp once r)

theorem ResourceManager.fair_share (maxActiveResources : Nat) (calls : List Call) (once : (added calls).Nodup) :
    ∃ s, performAll (new maxActiveResources) calls = some s ∧ s.active.length ≤ maxActiveResources ∧
      (s.active.length < maxActiveResources → ∀ e ∈ s.pending, e.2 = []) ∧ s.acquired.Nodup ∧
      (∀ name, (ofGroup name s.acquired).Sublist (ofGroup name (added calls))) ∧
      ((new maxActiveResources).Undisturbed calls → Fair s.log) := by
  obtain ⟨s,performed,standing,most,turns⟩ := performAll_spec (new_standing maxActiveResources) calls
  rw [List.nil_append] at standing
  have most : s.maxActiveResources = maxActiveResources := most
  refine ⟨s,performed,?_,?_,standing.kept.acquired_nodup once,standing.kept.ordered,?_⟩
  · rw [← most]
    exact standing.kept.within
  · intro room
    rw [← most] at room
    exact standing.busy room
  · intro calm
    exact (turns calm (new_turns maxActiveResources)).fair

-- Two groups and one slot, which the second group gets when the first lets go of it.
theorem ResourceManager.slot_passed : ∃ s, performAll (new 1) [.add ⟨1,[97]⟩,.add ⟨2,[98]⟩,.remove ⟨1,[97]⟩] = some s ∧
    s.acquired = [⟨1,[97]⟩,⟨2,[98]⟩] ∧ Fair s.log := by
  obtain ⟨s,performed,_,_,_,_,fair⟩ := fair_share 1 [.add ⟨1,[97]⟩,.add ⟨2,[98]⟩,.remove ⟨1,[97]⟩] (by decide)
  have reached : performAll (new 1) [.add ⟨1,[97]⟩,.add ⟨2,[98]⟩,.remove ⟨1,[97]⟩] = some _ := rfl
  obtain rfl := Option.some.inj (reached.symm.trans performed)
  refine ⟨_,performed,rfl,fair ⟨fun calm => calm.2.1 rfl,fun s one => ?_⟩⟩
  obtain rfl := Option.some.inj one
  refine ⟨fun calm => ?_,fun s two => ?_⟩
  · cases calm.1
  · obtain rfl := Option.some.inj two
    exact ⟨id,fun _ _ => trivial⟩

def ResourceManager.overlooked : List Call :=
  [.add ⟨1,[98]⟩,.add ⟨2,[]⟩,.add ⟨3,[98]⟩,.add ⟨4,[98]⟩,.remove ⟨1,[98]⟩,.add ⟨5,[98]⟩,.remove ⟨3,[98]⟩]

-- The scan stands on the group without a name when a resource is added to the other one,
-- which then gets the slot a second time.
theorem ResourceManager.nameless_overlooked : (added overlooked).Nodup ∧ ∃ s, performAll (new 1) overlooked = some s ∧ ¬ Fair s.log := by
  refine ⟨by decide,_,rfl,fun fair => ?_⟩
  obtain ⟨x,among,served⟩ := fair [⟨some [98],[]⟩,⟨none,[]⟩,⟨none,[[]]⟩,⟨none,[[],[98]]⟩,⟨none,[[],[98]]⟩] ⟨some [98],[[],[98]]⟩
    [⟨none,[[],[98]]⟩,⟨none,[[],[98]]⟩] ⟨some [98],[[],[98]]⟩ [⟨none,[[],[98]]⟩] [98] [] rfl rfl rfl (by decide) (by decide) (by decide)
  simp only [List.mem_cons,List.not_mem_nil,or_false,or_self] at among
  rw [among] at served
  cases served
end KtorrentStream.Util
