import KtorrentStream.Util.FairShare
set_option autoImplicit true

namespace KtorrentStream.Util

namespace ResourceManager

-- pending.isEmpty() is about the map, not about the queues in it.
def acquire (s : ResourceManager) (r : Resource) : Option (Bool × ResourceManager) :=
  if s.active.length < s.maxActiveResources ∧ s.pending = [] then (s.add r).map fun s => (true,s) else some (false,s)

-- remove is what release and the destructor of a resource do.
inductive Request where
  | add (r : Resource)
  | acquire (r : Resource)
  | remove (r : Resource)

def Request.isRemove : Request → Bool
  | .remove _ => true
  | _ => false

def request (s : ResourceManager) : Request → Option ResourceManager
  | .add r => s.add r
  | .acquire r => (s.acquire r).map Prod.snd
  | .remove r => s.remove r

def requestAll (s : ResourceManager) (history : List Request) : Option ResourceManager := history.foldlM request s

-- The answer of acquire is right, and it says whether the resource is active now.
structure Grants (s s' : ResourceManager) (r : Resource) (granted : Bool) : Prop where
  answer : granted = true ↔ s.active.length < s.maxActiveResources ∧ ∀ e ∈ s.pending, e.2 = []
  active : r ∈ s'.active ↔ granted = true

end ResourceManager

open ResourceManager

variable {s s' : ResourceManager} {asked : List Resource}

theorem placed_none (placed : Placed s) (none : s.pending = []) : s.active = [] ∧ s.current = [] := by
  rcases placed with among | ⟨_,active,current⟩
  · rw [none] at among
    cases among
  · exact ⟨active,current⟩

theorem current_some (among : s.current ∈ s.pending.keys) : s.pending ≠ [] := by
  intro none
  rw [none] at among
  cases among

theorem first_added (placed : Placed s) (none : s.pending = []) (room : s.active.length < s.maxActiveResources) (r : Resource) :
    ∃ s', s.add r = some s' ∧ s'.active = [r] := by
  obtain ⟨active,current⟩ := placed_none placed none
  obtain ⟨most,_,_,_,acquired,log⟩ := s
  dsimp only at none active current room
  subst none active current
  have queued : append (Pending.insertGroup r.groupName []) r = [(r.groupName,[r])] := by
    simp [append,Pending.insertGroup]
  have absent : r.groupName ∉ Pending.keys [] := List.not_mem_nil
  have place : place ⟨most,[],[(r.groupName,[r])],r.groupName,acquired,log⟩ = 0 := by
    simp [ResourceManager.place,Pending.keys]
  unfold add
  dsimp only
  rw [if_neg absent,queued,if_pos List.isEmpty_nil,update,if_neg (Nat.not_le.mpr room),place]
  refine ⟨{activate ⟨most,[],[(r.groupName,[r])],r.groupName,acquired,log⟩ 0 r.groupName r [] with current := r.groupName},?_,rfl⟩
  have cycle : Scan.run 3 ⟨⟨most,[],[(r.groupName,[r])],r.groupName,acquired,log⟩,0,0,0⟩ =
      Scan.run 2 ⟨activate ⟨most,[],[(r.groupName,[r])],r.groupName,acquired,log⟩ 0 r.groupName r [],0,0,0⟩ := by
    rw [Scan.run]
    exact if_pos room
  show (Scan.run 3 _).bind _ = _
  rw [cycle,Scan.run]
  split <;> rfl

theorem added_used (standing : Standing s asked) (r : Resource) :
    ∃ s', s.add r = some s' ∧ Standing s' (asked ++ [r]) ∧ s'.maxActiveResources = s.maxActiveResources ∧ s'.pending ≠ [] := by
  obtain ⟨s',updated,updates⟩ := update_spec (queued_kept standing.kept r) (queued_current standing.placed r)
  exact ⟨s',updated,updates.standing,updates.most,current_some updates.current⟩

theorem removed_used (standing : Standing s asked) (r : Resource) :
    ∃ s', s.remove r = some s' ∧ Standing s' asked ∧ s'.maxActiveResources = s.maxActiveResources ∧ (s'.pending = [] ↔ s.pending = []) := by
  obtain ⟨s',removed,standing',most,_⟩ := remove_spec standing r
  refine ⟨s',removed,standing',most,?_⟩
  unfold remove at removed
  split at removed
  · rename_i active
    have among : s.current ∈ s.pending.keys := by
      rcases standing.placed with among | ⟨_,none,_⟩
      · exact among
      · rw [none] at active
        cases active
    obtain ⟨s₂,updated,updates⟩ := update_spec (standing.kept.release r) among
    obtain rfl := Option.some.inj (updated.symm.trans removed)
    exact ⟨fun none => absurd none (current_some updates.current),fun none => absurd none (current_some among)⟩
  · cases removed
    exact List.map_eq_nil_iff

-- The map stays empty as long as nothing has been added or acquired.
structure Used (s s' : ResourceManager) (history : List Request) : Prop where
  unused : s.pending = [] → (∀ q ∈ history, q.isRemove = true) → s'.pending = []
  used : 0 < s.maxActiveResources → s'.pending = [] → s.pending = [] ∧ ∀ q ∈ history, q.isRemove = true

theorem request_spec (standing : Standing s asked) (q : Request) :
    ∃ s' asked', s.request q = some s' ∧ Standing s' asked' ∧ s'.maxActiveResources = s.maxActiveResources ∧ Used s s' [q] := by
  cases q with
  | add r =>
    obtain ⟨s',added,standing',most,some⟩ := added_used standing r
    refine ⟨s',_,added,standing',most,fun _ removes => ?_,fun _ none => absurd none some⟩
    have remove := removes _ (List.mem_singleton_self _)
    cases remove
  | remove r =>
    obtain ⟨s',removed,standing',most,same⟩ := removed_used standing r
    refine ⟨s',_,removed,standing',most,fun none _ => same.mpr none,fun _ none => ⟨same.mp none,fun q member => ?_⟩⟩
    rw [List.mem_singleton.mp member]
    rfl
  | acquire r =>
    show ∃ s' asked', (s.acquire r).map Prod.snd = some s' ∧ _
    unfold acquire
    split
    · obtain ⟨s',added,standing',most,some⟩ := added_used standing r
      refine ⟨s',_,?_,standing',most,fun _ removes => ?_,fun _ none => absurd none some⟩
      · rw [added]
        rfl
      · have remove := removes _ (List.mem_singleton_self _)
        cases remove
    · rename_i refused
      refine ⟨s,asked,rfl,standing,rfl,fun none _ => none,fun more none => ?_⟩
      refine absurd ⟨?_,none⟩ refused
      rw [(placed_none standing.placed none).1]
      exact more

theorem requestAll_spec (standing : Standing s asked) (history : List Request) :
    ∃ s' asked', s.requestAll history = some s' ∧ Standing s' asked' ∧ s'.maxActiveResources = s.maxActiveResources ∧ Used s s' history := by
  induction history generalizing s asked with
  | nil => exact ⟨s,asked,rfl,standing,rfl,fun none _ => none,fun _ none => ⟨none,fun q member => by cases member⟩⟩
  | cons q rest ih =>
    obtain ⟨next,_,requested,between,most,first⟩ := request_spec standing q
    obtain ⟨s',asked',performed,after,same,later⟩ := ih between
    refine ⟨s',asked',?_,after,same.trans most,?_,?_⟩
    · rw [requestAll,List.foldlM_cons,requested]
      exact performed
    · intro none removes
      refine later.unused (first.unused none fun q' member => ?_) fun q' member => removes q' (List.mem_cons_of_mem _ member)
      rw [List.mem_singleton.mp member]
      exact removes q List.mem_cons_self
    · intro more none
      obtain ⟨between,removes⟩ := later.used (most ▸ more) none
      obtain ⟨before,remove⟩ := first.used more between
      refine ⟨before,fun q' member => ?_⟩
      rcases List.mem_cons.mp member with rfl | inside
      · exact remove q' (List.mem_singleton_self _)
      · exact removes q' inside

-- acquire is right until the first resource has been added or acquired, and where all
-- are taken.
theorem ResourceManager.acquire_grants (maxActiveResources : Nat) (history : List Request) (r : Resource) :
    ∃ s granted s', requestAll (new maxActiveResources) history = some s ∧ s.acquire r = some (granted,s') ∧
      (Grants s s' r granted ↔
        r ∉ s.active ∧ ((∀ q ∈ history, q.isRemove = true) ∨ maxActiveResources ≤ s.active.length)) := by
  obtain ⟨s,asked,performed,standing,most,used⟩ := requestAll_spec (new_standing maxActiveResources) history
  have most : s.maxActiveResources = maxActiveResources := most
  have waiting : (s.active.length < s.maxActiveResources ∧ ∀ e ∈ s.pending, e.2 = []) ↔ s.active.length < s.maxActiveResources :=
    ⟨And.left,fun room => ⟨room,standing.busy room⟩⟩
  by_cases first : s.active.length < s.maxActiveResources ∧ s.pending = []
  · obtain ⟨s',added,active⟩ := first_added standing.placed first.2 first.1 r
    refine ⟨s,true,s',performed,by rw [acquire,if_pos first,added]; rfl,fun _ => ⟨?_,.inl ?_⟩,fun _ => ⟨?_,?_⟩⟩
    · rw [(placed_none standing.placed first.2).1]
      exact List.not_mem_nil
    · exact (used.used (show 0 < maxActiveResources by omega) first.2).2
    · rw [waiting]
      exact ⟨fun _ => first.1,fun _ => rfl⟩
    · rw [active]
      exact ⟨fun _ => rfl,fun _ => List.mem_singleton_self r⟩
  · refine ⟨s,false,s,performed,by rw [acquire,if_neg first],fun grants => ?_,fun ⟨idle,right⟩ => ⟨?_,?_⟩⟩
    · refine ⟨fun active => Bool.false_ne_true (grants.active.mp active),.inr ?_⟩
      by_contra room
      exact Bool.false_ne_true (grants.answer.mpr (waiting.mpr (by omega)))
    · rw [waiting]
      refine ⟨fun granted => absurd granted Bool.false_ne_true,fun room => ?_⟩
      rcases right with removes | full
      · exact absurd ⟨room,used.unused rfl removes⟩ first
      · omega
    · exact ⟨fun active => absurd active idle,fun granted => absurd granted Bool.false_ne_true⟩

-- The second resource is refused although the first has been released.
theorem ResourceManager.acquire_refused : ∃ s s', requestAll (new 1) [.acquire ⟨1,[97]⟩,.remove ⟨1,[97]⟩] = some s ∧
    s.acquire ⟨2,[97]⟩ = some (false,s') ∧ ¬ Grants s s' ⟨2,[97]⟩ false :=
  ⟨_,_,rfl,rfl,fun grants => Bool.false_ne_true (grants.answer.mpr ⟨by decide,by decide⟩)⟩

end KtorrentStream.Util
