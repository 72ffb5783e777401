import Mathlib.Algebra.Order.BigOperators.Group.List
import Mathlib.Algebra.Order.Ring.Nat
import KtorrentStream.Net.NetworkThread
set_option autoImplicit true

namespace KtorrentStream.Net.NetworkThread
open SocketGroup

variable {g g' g₀ : SocketGroup} {answers : Nat → Nat} {allowance : Nat}

-- A group and what became of it later in the pass: what it moved and what
-- its own limit leaves it is together what calcAllowance gave it.
structure Own (now : Nat) (g₀ g : SocketGroup) : Prop where
  limit : g.limit = g₀.limit
  kept : 0 < g₀.limit → g.moved + g.groupAllowance = (g₀.calcAllowance now).groupAllowance

theorem Own.calcAllowance (now : Nat) (g : SocketGroup) : Own now g (g.calcAllowance now) := by
  refine ⟨rfl,?_⟩
  intro _
  exact Nat.zero_add _

theorem Own.processed (own : Own now g₀ g) (done : Processed answers g a d) : Own now g₀ d.group := by
  refine ⟨done.limit.trans own.limit,?_⟩
  intro limited
  have positive : 0 < g.limit := by rwa [own.limit]
  rw [done.own positive,own.kept limited]

theorem Own.clear (own : Own now g₀ g) : Own now g₀ g.clear := ⟨own.limit,own.kept⟩

theorem assuredShare_le : assuredShare g ≤ g.groupAssured := by
  unfold assuredShare SocketGroup.share
  split
  · split
    · exact Nat.min_le_left _ _
    · exact Nat.le_refl _
  · exact Nat.zero_le _

-- What the assured rate of one group does to the allowance.
structure Assured (answers : Nat → Nat) (g : SocketGroup) (allowance : Nat) (r : SocketGroup × Nat × Nat) : Prop where
  own : ∀ now g₀, Own now g₀ g → Own now g₀ r.1
  grown : g.moved ≤ r.1.moved
  covered : (0 < assuredShare g → 0 < allowance) → r.1.moved + r.2.1 = g.moved + allowance ∧ r.1.moved ≤ g.moved + assuredShare g
  greedy : (∀ k, g.groupAllowance ≤ answers k ∧ allowance ≤ answers k ∧ 0 < answers k) →
    r.2.1 = allowance - assuredShare g ∧ g.moved + min allowance (assuredShare g) ≤ r.1.moved ∧
      (allowance = 0 → 0 < assuredShare g → g.moved < r.1.moved)

theorem moved_of_share (done : Processed answers g a d) (none : assuredShare g = 0) (assured : 0 < g.groupAssured) :
    d.group.moved = g.moved := by
  by_cases real : true ∈ g.sockets
  · rw [assuredShare,if_pos real,SocketGroup.share] at none
    split at none
    · rename_i limited
      have own := done.own limited
      have grown := done.grown
      omega
    · omega
  · exact done.nulls real

theorem moved_le_share (done : Processed answers g a d) (positive : 0 < a) (most : a ≤ g.groupAssured) :
    d.group.moved ≤ g.moved + assuredShare g := by
  have capped := done.capped positive
  by_cases real : true ∈ g.sockets
  · rw [assuredShare,if_pos real,SocketGroup.share]
    split
    · rename_i limited
      have own := done.own limited
      omega
    · omega
  · rw [done.nulls real]
    exact Nat.le_add_right _ _

theorem share_min (real : true ∈ g.sockets) (allowance : Nat) :
    g.share (min g.groupAssured allowance) = min allowance (assuredShare g) := by
  rw [assuredShare,if_pos real,SocketGroup.share,SocketGroup.share]
  split <;> omega

theorem assuredGroup_spec (answers : Nat → Nat) (g : SocketGroup) (allowance calls : Nat) :
    ∃ r, assuredGroup answers g allowance calls = some r ∧ Assured answers g allowance r := by
  unfold assuredGroup
  by_cases assured : g.sockets.length > 0 ∧ g.groupAssured > 0
  · rw [if_pos assured]
    have quota : (if g.groupAssured > allowance then allowance else g.groupAssured) = min g.groupAssured allowance := by
      split <;> omega
    rw [quota]
    obtain ⟨d,result,done⟩ := process_spec (List.length_pos_iff.mp assured.1) answers (min g.groupAssured allowance) calls
    refine ⟨(d.group,allowance - (min g.groupAssured allowance - d.allowance),d.calls),by simp [result],
      fun _ _ own => own.processed done,done.grown,?_,?_⟩
    · intro some'
      have grown := done.grown
      by_cases zero : allowance = 0
      · -- Nothing is left: the group must have nothing to move.
        have none : assuredShare g = 0 := by
          by_contra share
          have := some' (by omega)
          omega
        have same := moved_of_share done none assured.2
        dsimp only
        omega
      · have positive : 0 < min g.groupAssured allowance := by omega
        have capped := done.capped positive
        have most := moved_le_share done positive (Nat.min_le_left _ _)
        dsimp only
        omega
    · intro greedy
      have all : Greedy answers g (min g.groupAssured allowance) :=
        ⟨fun k => (greedy k).1,fun k => Nat.le_trans (Nat.min_le_right _ _) (greedy k).2.1,fun k => (greedy k).2.2⟩
      have grown := done.grown
      by_cases none : assuredShare g = 0
      · have same := moved_of_share done none assured.2
        by_cases zero : allowance = 0
        · dsimp only
          omega
        · have capped := done.capped (by omega)
          dsimp only
          omega
      have real : true ∈ g.sockets := by
        by_contra absent
        exact none (by rw [assuredShare,if_neg absent])
      by_cases zero : allowance = 0
      · have beyond := done.beyond all real (by omega) (fun limited => by
          rw [assuredShare,if_pos real,SocketGroup.share,if_pos limited] at none
          omega)
        dsimp only
        omega
      · have positive : 0 < min g.groupAssured allowance := by omega
        have capped := done.capped positive
        have moved := done.all all real positive
        rw [share_min real] at moved
        dsimp only
        omega
  · rw [if_neg assured]
    have none : assuredShare g = 0 := by
      by_cases real : true ∈ g.sockets
      · have some' := List.length_pos_of_mem real
        have le : assuredShare g ≤ _ := assuredShare_le
        omega
      · rw [assuredShare,if_neg real]
    refine ⟨_,rfl,fun _ _ own => own,Nat.le_refl _,?_,?_⟩
    · intro _
      rw [none]
      exact ⟨rfl,Nat.le_refl _⟩
    · intro _
      rw [none]
      exact ⟨rfl,by simp,by omega⟩

theorem Covered.mono (covered : Covered now a groups) (more : a ≤ b) : Covered now b groups := by
  intro before g after split' share
  exact Nat.lt_of_lt_of_le (covered before g after split' share) more

theorem Covered.head (covered : Covered now a (g :: rest)) (share : 0 < assuredShare (g.calcAllowance now)) : 0 < a :=
  covered [] g rest rfl share

theorem Covered.tail (covered : Covered now a (g :: rest)) : Covered now (a - assuredShare (g.calcAllowance now)) rest := by
  intro before g' after split' share
  have less := covered (g :: before) g' after (by rw [split',List.cons_append]) share
  rw [List.map_cons,List.sum_cons] at less
  omega

theorem total_cons (g : SocketGroup) (rest : List SocketGroup) : total (g :: rest) = g.moved + total rest := by
  simp [total]

theorem numSockets_cons (g : SocketGroup) (rest : List SocketGroup) :
    numSockets (g :: rest) = g.sockets.length + numSockets rest := by
  simp [numSockets]

-- The whole assured phase, whatever the sockets do.
theorem assuredPhase_spec (answers : Nat → Nat) (now : Nat) (groups : List SocketGroup) (allowance calls : Nat) :
    ∃ r, assuredPhase answers now groups allowance calls = some r ∧ List.Forall₂ (Own now) groups r.1 ∧
      (Covered now allowance groups → total r.1 + r.2.1 = allowance) := by
  induction groups generalizing allowance calls with
  | nil => exact ⟨_,rfl,.nil,fun _ => Nat.zero_add _⟩
  | cons g rest ih =>
    obtain ⟨⟨g',allowance',calls'⟩,result,assured⟩ := assuredGroup_spec answers (g.calcAllowance now) allowance calls
    obtain ⟨r,result',own,covered'⟩ := ih allowance' calls'
    refine ⟨(g' :: r.1,r.2),?_,?_,?_⟩
    · simp [assuredPhase,result,result']
    · exact .cons (assured.own now g (Own.calcAllowance now g)) own
    · intro covered
      obtain ⟨kept,most⟩ := assured.covered covered.head
      have fresh : (g.calcAllowance now).moved = 0 := rfl
      rw [fresh] at kept most
      have enough : allowance - assuredShare (g.calcAllowance now) ≤ allowance' := by
        dsimp only at kept most
        omega
      have later := covered' (covered.tail.mono enough)
      dsimp only at kept most ⊢
      rw [total_cons]
      omega

-- Sockets that move all they may use up the shares of the groups, one after
-- the other; a group that finds nothing left goes beyond the allowance.
theorem assuredPhase_greedy (greedy : ∀ k, allowance ≤ answers k ∧ 0 < answers k)
    (own : ∀ g ∈ groups, ∀ k, (g.calcAllowance now).groupAllowance ≤ answers k)
    (result : assuredPhase answers now groups allowance calls = some r) (covered : ¬ Covered now allowance groups) :
    allowance < total r.1 := by
  induction groups generalizing allowance calls r with
  | nil =>
    refine absurd ?_ covered
    intro before g after split'
    simp at split'
  | cons g rest ih =>
    obtain ⟨⟨g',allowance',calls'⟩,first,assured⟩ := assuredGroup_spec answers (g.calcAllowance now) allowance calls
    obtain ⟨r',second,_⟩ := assuredPhase_spec answers now rest allowance' calls'
    have all : r = (g' :: r'.1,r'.2) := by
      simp [assuredPhase,first,second] at result
      exact result.symm
    obtain ⟨left,least,beyond⟩ := assured.greedy fun k => ⟨own g List.mem_cons_self k,greedy k⟩
    have fresh : (g.calcAllowance now).moved = 0 := rfl
    rw [fresh] at least beyond
    subst all
    rw [total_cons]
    dsimp only at left least beyond
    by_cases here : 0 < assuredShare (g.calcAllowance now) ∧ allowance = 0
    · have more := beyond here.2 here.1
      omega
    have later : ¬ Covered now allowance' rest := by
      intro rest'
      refine covered ?_
      intro before g₁ after split' share
      cases before with
      | nil =>
        obtain ⟨rfl,rfl⟩ := List.cons.inj split'
        show 0 < allowance
        omega
      | cons g₂ before =>
        obtain ⟨rfl,tail⟩ := List.cons.inj split'
        have less := rest' before g₁ after tail share
        rw [List.map_cons,List.sum_cons]
        omega
    have rest' := ih (fun k => ⟨by have := (greedy k).1; omega,(greedy k).2⟩)
      (fun g member => own g (List.mem_cons_of_mem _ member)) second later
    omega

-- One group of a limited pass.
structure Passed (g : SocketGroup) (allowance : Nat) (r : SocketGroup × Nat × Nat × Nat) : Prop where
  own : ∀ now g₀, Own now g₀ g → Own now g₀ r.1
  kept : r.1.moved + r.2.2.1 = g.moved + allowance
  grown : g.moved ≤ r.1.moved
  ready : r.2.1 = r.1.sockets.length
  less : g.sockets ≠ [] → r.2.2.1 + r.1.sockets.length < allowance + g.sockets.length
  same : g.sockets = [] → r.1 = g ∧ r.2.2.1 = allowance

theorem limitedGroup_spec (answers : Nat → Nat) (ready : 0 < numReady) (g : SocketGroup) (positive : 0 < allowance) (calls : Nat) :
    ∃ r, limitedGroup answers numReady g allowance calls = some r ∧ Passed g allowance r := by
  by_cases none : g.sockets.length > 0
  · have some' : g.sockets ≠ [] := List.length_pos_iff.mp none
    unfold limitedGroup
    rw [if_pos none,if_neg (by omega)]
    generalize (g.sockets.length * allowance + numReady - 1) / numReady = ceiling
    have quota : 0 < (if ceiling > allowance ∨ ceiling = 0 then allowance else ceiling) ∧
        (if ceiling > allowance ∨ ceiling = 0 then allowance else ceiling) ≤ allowance := by
      split <;> omega
    dsimp only
    generalize (if ceiling > allowance ∨ ceiling = 0 then allowance else ceiling) = most at quota
    obtain ⟨d,result,done⟩ := process_spec some' answers most calls
    have capped := done.capped quota.1
    have grown := done.grown
    have less := done.progress quota.1
    have left : (if allowance ≥ most - d.allowance then allowance - (most - d.allowance) else 0) =
        allowance - (most - d.allowance) := if_pos (by omega)
    rw [result,Option.map_some,left]
    refine ⟨_,rfl,?_⟩
    split
    · refine ⟨fun _ _ own => own.processed done,?_,grown,rfl,?_,fun empty => absurd empty some'⟩
      · dsimp only
        omega
      · intro _
        dsimp only
        omega
    · refine ⟨fun _ _ own => (own.processed done).clear,?_,grown,rfl,?_,fun empty => absurd empty some'⟩
      · show d.group.moved + (allowance - (most - d.allowance)) = _
        omega
      · intro _
        show allowance - (most - d.allowance) + 0 < _
        omega
  · have empty : g.sockets = [] := List.length_eq_zero_iff.mp (by omega)
    refine ⟨(g,0,allowance,calls),by simp [limitedGroup,empty],fun _ _ own => own,rfl,Nat.le_refl _,?_,fun some' => absurd empty some',fun _ => ⟨rfl,rfl⟩⟩
    rw [empty]
    rfl

theorem doGroupsLimited_spec (answers : Nat → Nat) (ready : 0 < numReady) (start : List SocketGroup) (groups : List SocketGroup)
    (own : List.Forall₂ (Own now) start groups) (allowance calls : Nat) :
    ∃ r, doGroupsLimited answers numReady groups allowance calls = some r ∧ List.Forall₂ (Own now) start r.1 ∧
      total r.1 + r.2.2.1 = total groups + allowance ∧ total groups ≤ total r.1 ∧ r.2.2.1 + numSockets r.1 ≤ allowance + numSockets groups ∧
      (0 < r.2.1 → r.2.2.1 + numSockets r.1 < allowance + numSockets groups) := by
  induction own generalizing allowance calls with
  | nil => exact ⟨_,rfl,.nil,rfl,Nat.le_refl _,Nat.le_refl _,by simp⟩
  | @cons g₀ g start rest own owns ih =>
    unfold doGroupsLimited
    by_cases positive : allowance > 0
    · rw [if_pos positive]
      obtain ⟨⟨g',ready',allowance',calls'⟩,first,passed⟩ := limitedGroup_spec answers ready g positive calls
      obtain ⟨r,second,owns',kept,grown,fewer,less⟩ := ih allowance' calls'
      refine ⟨(g' :: r.1,ready' + r.2.1,r.2.2),by simp [first,second],.cons (passed.own _ _ own) owns',?_,?_,?_,?_⟩
      · have kept' := passed.kept
        dsimp only at kept' ⊢
        rw [total_cons,total_cons]
        omega
      · rw [total_cons,total_cons]
        exact Nat.add_le_add passed.grown grown
      · dsimp only
        rw [numSockets_cons,numSockets_cons]
        by_cases empty : g.sockets = []
        · obtain ⟨same,left⟩ := passed.same empty
          dsimp only at same left
          subst same left
          omega
        · have less' := passed.less empty
          dsimp only at less'
          omega
      · intro still
        dsimp only at still ⊢
        rw [numSockets_cons,numSockets_cons]
        by_cases empty : g.sockets = []
        · obtain ⟨same,left⟩ := passed.same empty
          have none := passed.ready
          dsimp only at same left none
          subst same left
          rw [empty,List.length_nil] at none
          have := less (by omega)
          omega
        · have less' := passed.less empty
          dsimp only at less'
          omega
    · rw [if_neg positive]
      exact ⟨_,rfl,.cons own owns,rfl,Nat.le_refl _,Nat.le_refl _,by simp⟩

theorem whileReady_spec (answers : Nat → Nat) (start : List SocketGroup) (groups : List SocketGroup)
    (own : List.Forall₂ (Own now) start groups) (some' : 0 < rounds)
    (enough : 0 < numReady → allowance + numSockets groups < rounds) (calls : Nat) :
    ∃ r, whileReady answers rounds groups numReady allowance calls = some r ∧ List.Forall₂ (Own now) start r ∧
      total groups ≤ total r ∧ total r ≤ total groups + allowance := by
  induction rounds generalizing groups numReady allowance calls with
  | zero => omega
  | succ rounds ih =>
    unfold whileReady
    by_cases more : allowance > 0 ∧ numReady > 0
    · rw [if_pos more]
      obtain ⟨⟨groups',still,allowance',calls'⟩,result,own',kept,grown,fewer,less⟩ :=
        doGroupsLimited_spec answers more.2 start groups own allowance calls
      have before := enough more.2
      dsimp only at kept grown fewer less own'
      have enough' : 0 < (if still > 0 then 1 else 0) → allowance' + numSockets groups' < rounds := by
        intro again
        split at again
        · rename_i some'
          have := less some'
          omega
        · omega
      obtain ⟨r,last,own'',least,most⟩ := ih groups' own' (by omega) enough' calls'
      refine ⟨r,?_,own'',?_,?_⟩
      · rw [result]
        exact last
      · exact Nat.le_trans grown least
      · omega
    · rw [if_neg more]
      exact ⟨groups,rfl,own,Nat.le_refl _,Nat.le_add_right _ _⟩

theorem doGroups_spec (answers : Nat → Nat) (groups : List SocketGroup) (prevRunTime numReady now : Nat) {limit : Nat} (limited : 0 < limit) :
    ∃ r result, assuredPhase answers now groups (bytesIn limit (now - prevRunTime)) 0 = some r ∧
      doGroups answers groups prevRunTime numReady now limit = some result ∧ List.Forall₂ (Own now) groups result ∧
      total r.1 ≤ total result ∧ total result ≤ total r.1 + r.2.1 := by
  obtain ⟨r,first,own,_⟩ := assuredPhase_spec answers now groups (bytesIn limit (now - prevRunTime)) 0
  obtain ⟨result,second,own',least,most⟩ :=
    whileReady_spec answers groups r.1 own (Nat.succ_pos (r.2.1 + numSockets r.1)) (fun _ => Nat.lt_succ_self _) r.2.2
  have cleared : total (result.map SocketGroup.clear) = total result := by
    unfold total
    rw [List.map_map]
    rfl
  refine ⟨r,result.map SocketGroup.clear,first,?_,?_,?_⟩
  · unfold doGroups
    rw [if_neg (by omega)]
    simp only [first,Option.bind_some]
    exact (congrArg (Option.map _) second).trans rfl
  · rw [List.forall₂_map_right_iff]
    exact own'.imp fun _ _ own => own.clear
  · rw [cleared]
    exact ⟨least,most⟩

-- With a global limit, the pass ends and keeps to all the caps, whatever the
-- sockets do, exactly if the assured rates leave every group something.
theorem capped_iff_covered (groups : List SocketGroup) (prevRunTime numReady now limit : Nat) (limited : 0 < limit) :
    (∀ answers, ∃ result, doGroups answers groups prevRunTime numReady now limit = some result ∧
      Capped now (bytesIn limit (now - prevRunTime)) groups result) ↔
    Covered now (bytesIn limit (now - prevRunTime)) groups := by
  constructor
  · intro capped
    by_contra uncovered
    -- The sockets that move all they may show it.
    let most := bytesIn limit (now - prevRunTime) + (groups.map fun g => (g.calcAllowance now).groupAllowance).sum + 1
    obtain ⟨result,done,_,within⟩ := capped fun _ => most
    obtain ⟨r,result',first,second,_,least,_⟩ := doGroups_spec (fun _ => most) groups prevRunTime numReady now limited
    obtain rfl : result = result' := Option.some.inj (done.symm.trans second)
    have beyond := assuredPhase_greedy (fun _ => ⟨by omega,by omega⟩) (fun g member _ => by
      have part : (g.calcAllowance now).groupAllowance ≤ (groups.map fun g => (g.calcAllowance now).groupAllowance).sum :=
        List.le_sum_of_mem (List.mem_map.mpr ⟨g,member,rfl⟩)
      omega) first uncovered
    omega
  · intro covered answers
    obtain ⟨r,result,first,second,own,_,most⟩ := doGroups_spec answers groups prevRunTime numReady now limited
    obtain ⟨r',first',_,kept⟩ := assuredPhase_spec answers now groups (bytesIn limit (now - prevRunTime)) 0
    obtain rfl : r = r' := Option.some.inj (first.symm.trans first')
    have all := kept covered
    refine ⟨result,second,?_,by omega⟩
    refine own.imp ?_
    intro g g' own limited
    have := own.kept limited
    omega

-- A group with two sockets and an assured rate.
def assuredGroups : List SocketGroup := [⟨0,1000,[true,true],0,0,0,0⟩,⟨3000,0,[true,false],0,0,0,0⟩]

theorem assured_capped : 0 < 2000 ∧ ∀ answers, ∃ result, doGroups answers assuredGroups 0 4 1 2000 = some result ∧
    Capped 1 (bytesIn 2000 1) assuredGroups result := by
  refine ⟨by decide,(capped_iff_covered assuredGroups 0 4 1 2000 (by decide)).mpr ?_⟩
  intro before g after split' share
  cases before with
  | nil => decide
  | cons g₁ before =>
    simp only [assuredGroups,List.cons_append,List.cons.injEq] at split'
    obtain ⟨rfl,split'⟩ := split'
    cases before with
    | nil => decide
    | cons g₂ before =>
      simp at split'

-- Two groups of which each has an assured rate as large as the global limit:
-- the first uses it up, and the second then gets 0, which is no limit.
def rivalGroups : List SocketGroup := [⟨0,1000,[true],0,0,0,0⟩,⟨0,1000,[true],0,0,0,0⟩]

theorem rivals_not_capped : 0 < 1000 ∧ ¬ ∀ answers, ∃ result, doGroups answers rivalGroups 0 2 1 1000 = some result ∧
    Capped 1 (bytesIn 1000 1) rivalGroups result := by
  refine ⟨by decide,?_⟩
  intro capped
  obtain ⟨result,done,_,within⟩ := capped fun _ => 5
  have six : (doGroups (fun _ => 5) rivalGroups 0 2 1 1000).map total = some 6 := by decide
  rw [done,Option.map_some,Option.some.injEq] at six
  have one : bytesIn 1000 1 = 1 := by decide
  omega

end KtorrentStream.Net.NetworkThread
