import Mathlib.Data.List.Basic
import Mathlib.Data.Nat.Basic
set_option autoImplicit true

namespace KtorrentStream.Net

-- What a TrafficShapedSocket does is not known: the k-th call of read or
-- write would move answers k bytes, and moves no more than max if max is not 0.
def moveBytes (answers : Nat → Nat) (max calls : Nat) : Nat :=
  if max = 0 then answers calls else min (answers calls) max

-- A socket is false if the pointer is 0. The times are in milliseconds, and
-- moved only records the bytes moved since calcAllowance.
structure SocketGroup where
  limit : Nat
  assuredRate : Nat
  sockets : List Bool
  prevRunTime : Nat
  groupAllowance : Nat
  groupAssured : Nat
  moved : Nat

-- ceil(rate * (now - prev_run_time) * 0.001)
def bytesIn (rate elapsed : Nat) : Nat := (rate * elapsed + 999) / 1000

namespace SocketGroup

-- The loop of processLimited: the iterator stands between seen and rest.
structure Turn where
  seen : List Bool
  rest : List Bool
  allowance : Nat
  calls : Nat
  moved : Nat

namespace Turn

def sockets (t : Turn) : List Bool := t.seen ++ t.rest

def wrap (t : Turn) : Turn := if t.rest = [] then {t with seen := [],rest := t.seen} else t

-- The socket at the iterator, with rest after it.
def visit (answers : Nat → Nat) (bslot : Nat) (t : Turn) (socket : Bool) (rest : List Bool) : Turn :=
  if socket then
    let as := if bslot > t.allowance then t.allowance else bslot
    let ret := moveBytes answers as t.calls
    {seen := if ret ≠ as then t.seen else t.seen ++ [socket],
      rest,
      allowance := if ret > t.allowance then 0 else t.allowance - ret,
      calls := t.calls + 1,
      moved := t.moved + ret}
  else {t with rest}

-- None: the iterator is at the end, or the rounds do not suffice.
def loop (answers : Nat → Nat) (bslot : Nat) : Nat → Turn → Option Turn
  | 0,_ => none
  | rounds + 1,t =>
    if t.sockets.length > 0 ∧ t.allowance > 0 then
      match t.rest with
      | [] => none
      | socket :: rest => loop answers bslot rounds (t.visit answers bslot socket rest).wrap
    else some t

end Turn

-- What process gives: whether more can be done, the group, the allowance that
-- is left and the number of calls so far.
structure Done where
  again : Bool
  group : SocketGroup
  allowance : Nat
  calls : Nat

def clear (g : SocketGroup) : SocketGroup := {g with sockets := []}

def processUnlimited (answers : Nat → Nat) (g : SocketGroup) (calls : Nat) : SocketGroup × Nat :=
  let (moved,calls) := g.sockets.foldl
    (fun (moved,calls) socket => if socket then (moved + moveBytes answers 0 calls,calls + 1) else (moved,calls))
    (g.moved,calls)
  ({g with moved},calls)

-- None: a division by 0, or a loop that does not end.
def processLimited (answers : Nat → Nat) (g : SocketGroup) (allowance calls : Nat) : Option Done :=
  if g.sockets.length = 0 then none
  else
    let bslot := allowance / g.sockets.length + 1
    (Turn.loop answers bslot (allowance + g.sockets.length + 1) ⟨[],g.sockets,allowance,calls,g.moved⟩).map fun t =>
      ⟨t.sockets.length > 0,{g with sockets := t.sockets,moved := t.moved},t.allowance,t.calls⟩

def calcAllowance (g : SocketGroup) (now : Nat) : SocketGroup := {g with
  groupAllowance := if g.limit > 0 then bytesIn g.limit (now - g.prevRunTime) else 0,
  groupAssured := if g.assuredRate > 0 then bytesIn g.assuredRate (now - g.prevRunTime) else 0,
  prevRunTime := now,
  moved := 0}

-- If the group's allowance is used up, the group can no longer do anything.
def finish (d : Done) : Done :=
  if d.group.groupAllowance = 0 then {d with again := false,group := d.group.clear} else d

-- read and write are treated alike, so up is left out.
def process (answers : Nat → Nat) (g : SocketGroup) (globalAllowance calls : Nat) : Option Done :=
  if g.limit > 0 then
    if g.groupAllowance = 0 then some ⟨false,g.clear,globalAllowance,calls⟩
    else if globalAllowance = 0 then
      (g.processLimited answers g.groupAllowance calls).map fun d =>
        finish {d with group := {d.group with groupAllowance := d.allowance},allowance := globalAllowance}
    else if globalAllowance ≤ g.groupAllowance then
      (g.processLimited answers globalAllowance calls).map fun d =>
        let done := globalAllowance - d.allowance
        finish {d with group := {d.group with
          groupAllowance := if g.groupAllowance < done then 0 else g.groupAllowance - done}}
    else
      (g.processLimited answers g.groupAllowance calls).map fun d =>
        let done := g.groupAllowance - d.allowance
        finish {d with
          group := {d.group with groupAllowance := d.allowance},
          allowance := if globalAllowance < done then 0 else globalAllowance - done}
  else if globalAllowance > 0 then g.processLimited answers globalAllowance calls
  else
    let (g,calls) := g.processUnlimited answers calls
    some ⟨false,g,globalAllowance,calls⟩

end SocketGroup

variable {max calls : Nat} {answers : Nat → Nat}

theorem moveBytes_le (positive : 0 < max) : moveBytes answers max calls ≤ max := by
  unfold moveBytes
  rw [if_neg (by omega)]
  exact Nat.min_le_right _ _

theorem moveBytes_greedy (positive : 0 < max) (greedy : max ≤ answers calls) : moveBytes answers max calls = max := by
  unfold moveBytes
  rw [if_neg (by omega)]
  exact Nat.min_eq_right greedy

namespace SocketGroup

namespace Turn

variable {t : Turn} {rest : List Bool}

theorem wrap_sockets : t.wrap.sockets = t.sockets := by
  unfold wrap
  split
  · rename_i last
    simp [sockets,last]
  · rfl

theorem wrap_allowance : t.wrap.allowance = t.allowance := by
  unfold wrap
  split <;> rfl

theorem wrap_moved : t.wrap.moved = t.moved := by
  unfold wrap
  split <;> rfl

-- After the wrap the iterator is at the end only if there is no socket left.
theorem wrap_rest (last : t.wrap.rest = []) : t.wrap.seen = [] := by
  unfold wrap at last ⊢
  split
  · rfl
  · rename_i more
    rw [if_neg more] at last
    exact absurd last more

theorem slot (positive : 0 < bslot) (some' : 0 < t.allowance) :
    0 < (if bslot > t.allowance then t.allowance else bslot) ∧ (if bslot > t.allowance then t.allowance else bslot) ≤ t.allowance := by
  split <;> omega

theorem visit_spec (answers : Nat → Nat) (positive : 0 < bslot) (some' : 0 < t.allowance) (here : t.rest = socket :: rest) :
    (t.visit answers bslot socket rest).moved + (t.visit answers bslot socket rest).allowance = t.moved + t.allowance ∧
    t.moved ≤ (t.visit answers bslot socket rest).moved ∧
    (t.visit answers bslot socket rest).allowance + (t.visit answers bslot socket rest).sockets.length <
      t.allowance + t.sockets.length ∧
    (t.visit answers bslot socket rest).sockets.length ≤ t.sockets.length := by
  unfold visit sockets
  rw [here]
  cases socket with
  | false =>
    refine ⟨rfl,Nat.le_refl _,?_,?_⟩
    · simp
    · simp
  | true =>
    obtain ⟨slot,fits⟩ := slot positive some'
    have most : moveBytes answers _ t.calls ≤ _ := moveBytes_le slot
    simp only [if_true]
    generalize (if bslot > t.allowance then t.allowance else bslot) = as at slot fits most
    generalize moveBytes answers as t.calls = ret at most
    rw [if_neg (by omega : ¬ ret > t.allowance)]
    by_cases full : ret = as
    · simp only [full,ne_eq,not_true_eq_false,if_false,List.length_append,List.length_cons,List.length_nil]
      omega
    · simp only [ne_eq,full,not_false_eq_true,if_true,List.length_append,List.length_cons]
      omega

theorem visit_null (t : Turn) (bslot : Nat) (rest : List Bool) : (t.visit answers bslot false rest).moved = t.moved := rfl

theorem visit_member (here : t.rest = socket :: rest) (member : s ∈ (t.visit answers bslot socket rest).sockets) :
    s ∈ t.sockets := by
  unfold sockets
  rw [here,List.mem_append,List.mem_cons]
  cases socket with
  | false =>
    have kept : s ∈ t.seen ++ rest := member
    rcases List.mem_append.mp kept with before | after
    · exact .inl before
    · exact .inr (.inr after)
  | true =>
    rcases List.mem_append.mp member with before | after
    · simp only [visit,if_true] at before
      generalize (if bslot > t.allowance then t.allowance else bslot) = as at before
      split at before
      · exact .inl before
      · rcases List.mem_append.mp before with before | same
        · exact .inl before
        · exact .inr (.inl (List.mem_singleton.mp same))
    · exact .inr (.inr after)

-- A socket that moves all it may is kept.
theorem visit_greedy (positive : 0 < bslot) (some' : 0 < t.allowance) (here : t.rest = socket :: rest)
    (greedy : ∀ k, t.allowance ≤ answers k) (real : true ∈ t.sockets) :
    true ∈ (t.visit answers bslot socket rest).sockets := by
  unfold sockets at real ⊢
  rw [here] at real
  cases socket with
  | false => simpa [visit] using real
  | true =>
    obtain ⟨slot,fits⟩ := slot positive some'
    have all := moveBytes_greedy slot (Nat.le_trans fits (greedy t.calls))
    unfold visit
    simp [all]

theorem loop_spec (answers : Nat → Nat) (t : Turn) (positive : 0 < bslot) (inside : t.rest = [] → t.seen = []) (enough : t.allowance + t.sockets.length < rounds) :
    ∃ t', loop answers bslot rounds t = some t' ∧ t'.moved + t'.allowance = t.moved + t.allowance ∧ t.moved ≤ t'.moved ∧
      t'.sockets.length ≤ t.sockets.length ∧ (t'.sockets = [] ∨ t'.allowance = 0) ∧
      (true ∉ t.sockets → t'.moved = t.moved) ∧
      ((∀ k, t.allowance ≤ answers k) → true ∈ t.sockets → t'.allowance = 0) := by
  induction rounds generalizing t with
  | zero => omega
  | succ rounds ih =>
    unfold loop
    split
    · rename_i more
      cases here : t.rest with
      | nil =>
        have empty : t.sockets = [] := by simp [sockets,here,inside here]
        rw [empty] at more
        cases more.1
      | cons socket rest =>
        obtain ⟨kept,grown,less,fewer⟩ := visit_spec answers positive more.2 here
        generalize next : t.visit answers bslot socket rest = t₁ at kept grown less fewer
        have enough₁ : t₁.wrap.allowance + t₁.wrap.sockets.length < rounds := by
          rw [wrap_allowance,wrap_sockets]
          omega
        obtain ⟨t',result,kept',grown',fewer',over',nulls',all'⟩ := ih t₁.wrap wrap_rest enough₁
        rw [wrap_allowance,wrap_moved] at kept'
        rw [wrap_moved] at grown'
        rw [wrap_sockets] at fewer'
        rw [← next] at result
        refine ⟨t',result,by omega,by omega,by omega,over',?_,?_⟩
        · intro none
          have first : socket = false := by
            cases socket with
            | false => rfl
            | true => exact absurd (by simp [sockets,here]) none
          have later : true ∉ t₁.wrap.sockets := by
            rw [wrap_sockets]
            intro member
            rw [← next] at member
            exact none (visit_member here member)
          rw [nulls' later,wrap_moved,← next]
          subst first
          exact visit_null t bslot rest
        · intro greedy real
          refine all' ?_ ?_
          · intro k
            rw [wrap_allowance]
            have := greedy k
            omega
          · rw [wrap_sockets,← next]
            exact visit_greedy positive more.2 here greedy real
    · rename_i over'
      refine ⟨t,rfl,rfl,Nat.le_refl _,Nat.le_refl _,?_,fun _ => rfl,?_⟩
      · by_cases empty : t.sockets = []
        · exact .inl empty
        · have some' := List.length_pos_iff.mpr empty
          exact .inr (by omega)
      · intro _ real
        have some' := List.length_pos_of_mem real
        omega

end Turn

variable {g : SocketGroup}

-- What the limited loop does to a group.
structure Limited (answers : Nat → Nat) (g : SocketGroup) (allowance : Nat) (d : Done) : Prop where
  group : d.group = {g with sockets := d.group.sockets,moved := d.group.moved}
  kept : d.group.moved + d.allowance = g.moved + allowance
  grown : g.moved ≤ d.group.moved
  fewer : d.group.sockets.length ≤ g.sockets.length
  ended : d.group.sockets = [] ∨ d.allowance = 0
  nulls : true ∉ g.sockets → d.group.moved = g.moved
  greedy : (∀ k, allowance ≤ answers k) → true ∈ g.sockets → d.allowance = 0

theorem processLimited_spec (some' : g.sockets ≠ []) (answers : Nat → Nat) (allowance calls : Nat) :
    ∃ d, g.processLimited answers allowance calls = some d ∧ Limited answers g allowance d := by
  have count : ¬ g.sockets.length = 0 := fun zero => some' (List.length_eq_zero_iff.mp zero)
  obtain ⟨t,result,kept,grown,fewer,over',nulls,all⟩ := Turn.loop_spec answers ⟨[],g.sockets,allowance,calls,g.moved⟩
    (Nat.succ_pos (allowance / g.sockets.length)) (fun _ => rfl) (Nat.lt_succ_self (allowance + g.sockets.length))
  refine ⟨⟨t.sockets.length > 0,{g with sockets := t.sockets,moved := t.moved},t.allowance,t.calls⟩,?_,?_⟩
  · unfold processLimited
    rw [if_neg count]
    exact (congrArg (Option.map _) result).trans rfl
  · exact ⟨rfl,kept,grown,fewer,over',nulls,all⟩

theorem processUnlimited_moved (answers : Nat → Nat) (g : SocketGroup) (calls : Nat) :
    g.moved ≤ (g.processUnlimited answers calls).1.moved ∧
    (true ∉ g.sockets → (g.processUnlimited answers calls).1.moved = g.moved) ∧
    ((∀ k, 0 < answers k) → true ∈ g.sockets → g.moved < (g.processUnlimited answers calls).1.moved) := by
  unfold processUnlimited
  generalize g.moved = moved
  dsimp only
  induction g.sockets generalizing moved calls with
  | nil => exact ⟨Nat.le_refl _,fun _ => rfl,fun _ real => by cases real⟩
  | cons socket rest ih =>
    rw [List.foldl_cons]
    cases socket with
    | false =>
      obtain ⟨grown,nulls,all⟩ := ih calls moved
      exact ⟨grown,fun none => nulls fun member => none (List.mem_cons_of_mem _ member),
        fun some' real => all some' (by simpa using real)⟩
    | true =>
      obtain ⟨grown,_,_⟩ := ih (calls + 1) (moved + moveBytes answers 0 calls)
      refine ⟨by simp only [if_true]; omega,fun none => absurd List.mem_cons_self none,?_⟩
      intro some' _
      have one : moveBytes answers 0 calls = answers calls := by simp [moveBytes]
      have positive := some' calls
      simp only [if_true]
      omega

-- What the group may move of an allowance.
def share (g : SocketGroup) (allowance : Nat) : Nat := if g.limit > 0 then min allowance g.groupAllowance else allowance

-- The sockets always move all they may.
structure Greedy (answers : Nat → Nat) (g : SocketGroup) (allowance : Nat) : Prop where
  own : ∀ k, g.groupAllowance ≤ answers k
  global : ∀ k, allowance ≤ answers k
  some' : ∀ k, 0 < answers k

structure Processed (answers : Nat → Nat) (g : SocketGroup) (globalAllowance : Nat) (d : Done) : Prop where
  limit : d.group.limit = g.limit
  grown : g.moved ≤ d.group.moved
  capped : 0 < globalAllowance → d.group.moved + d.allowance = g.moved + globalAllowance
  uncapped : globalAllowance = 0 → d.allowance = 0
  own : 0 < g.limit → d.group.moved + d.group.groupAllowance = g.moved + g.groupAllowance
  progress : 0 < globalAllowance → d.allowance + d.group.sockets.length < globalAllowance + g.sockets.length
  fewer : d.group.sockets.length ≤ g.sockets.length
  nulls : true ∉ g.sockets → d.group.moved = g.moved
  all : Greedy answers g globalAllowance → true ∈ g.sockets → 0 < globalAllowance →
    d.group.moved = g.moved + g.share globalAllowance
  beyond : Greedy answers g globalAllowance → true ∈ g.sockets → globalAllowance = 0 →
    (g.limit > 0 → 0 < g.groupAllowance) → g.moved < d.group.moved

theorem finish_spec (d : Done) : (finish d).group.limit = d.group.limit ∧ (finish d).group.moved = d.group.moved ∧
    (finish d).allowance = d.allowance ∧ (finish d).group.groupAllowance = d.group.groupAllowance ∧
    (finish d).group.sockets.length ≤ d.group.sockets.length ∧
    (d.group.groupAllowance = 0 → (finish d).group.sockets = []) := by
  unfold finish
  split
  · exact ⟨rfl,rfl,rfl,rfl,Nat.zero_le _,fun _ => rfl⟩
  · rename_i some'
    exact ⟨rfl,rfl,rfl,rfl,Nat.le_refl _,fun zero => absurd zero some'⟩

theorem Limited.limit {d : Done} (limited : Limited answers g allowance d) : d.group.limit = g.limit := by
  rw [limited.group]

theorem Limited.less {d : Done} (limited : Limited answers g allowance d) (some' : g.sockets ≠ []) (positive : 0 < allowance) :
    d.allowance + d.group.sockets.length < allowance + g.sockets.length := by
  have count := List.length_pos_iff.mpr some'
  have kept := limited.kept
  have grown := limited.grown
  have fewer := limited.fewer
  rcases limited.ended with empty | zero
  · rw [empty,List.length_nil]
    omega
  · omega

-- A group with a limit of its own, whose loop got the allowance a; own and
-- left are then the two allowances.
theorem finish_processed {d : Done} (done : Limited answers g a d)
    (kept : d.group.moved + own = g.moved + g.groupAllowance)
    (capped : 0 < globalAllowance → d.group.moved + left = g.moved + globalAllowance)
    (uncapped : globalAllowance = 0 → left = 0)
    (progress : 0 < globalAllowance → left + d.group.sockets.length < globalAllowance + g.sockets.length)
    (all : Greedy answers g globalAllowance → true ∈ g.sockets → 0 < globalAllowance →
      d.group.moved = g.moved + g.share globalAllowance)
    (beyond : Greedy answers g globalAllowance → true ∈ g.sockets → globalAllowance = 0 → g.moved < d.group.moved) :
    Processed answers g globalAllowance (finish {d with group := {d.group with groupAllowance := own},allowance := left}) := by
  obtain ⟨limit,moved,allowance,own',fewer,_⟩ :=
    finish_spec {d with group := {d.group with groupAllowance := own},allowance := left}
  have grown := done.grown
  refine ⟨limit.trans done.limit,?_,?_,?_,?_,?_,?_,?_,?_,?_⟩
  · rw [moved]
    exact grown
  · intro positive
    rw [moved,allowance]
    exact capped positive
  · intro zero
    exact allowance.trans (uncapped zero)
  · intro _
    rw [moved,own']
    exact kept
  · intro positive
    rw [allowance]
    exact Nat.lt_of_le_of_lt (Nat.add_le_add_left fewer left) (progress positive)
  · exact Nat.le_trans fewer done.fewer
  · intro none
    exact moved.trans (done.nulls none)
  · intro greedy real positive
    rw [moved]
    exact all greedy real positive
  · intro greedy real zero _
    rw [moved]
    exact beyond greedy real zero

theorem process_spec (some' : g.sockets ≠ []) (answers : Nat → Nat) (globalAllowance calls : Nat) :
    ∃ d, g.process answers globalAllowance calls = some d ∧ Processed answers g globalAllowance d := by
  have count := List.length_pos_iff.mpr some'
  unfold process
  by_cases limited : g.limit > 0
  · rw [if_pos limited]
    by_cases empty : g.groupAllowance = 0
    · rw [if_pos empty]
      refine ⟨_,rfl,rfl,Nat.le_refl _,fun _ => rfl,id,fun _ => rfl,?_,Nat.zero_le _,fun _ => rfl,?_,?_⟩
      · intro _
        show globalAllowance + 0 < _
        omega
      · intro _ _ _
        rw [share,if_pos limited,empty,Nat.min_zero]
        rfl
      · intro _ _ _ some'
        exact absurd (some' limited) (by omega)
    rw [if_neg empty]
    by_cases free : globalAllowance = 0
    · -- No global allowance is left, and only the group's own is watched.
      rw [if_pos free]
      obtain ⟨d,result,done⟩ := processLimited_spec some' answers g.groupAllowance calls
      rw [result]
      refine ⟨_,rfl,finish_processed done done.kept (by omega) id (by omega) (by omega) ?_⟩
      intro greedy real _
      have kept := done.kept
      have zero := done.greedy greedy.own real
      omega
    rw [if_neg free]
    by_cases small : globalAllowance ≤ g.groupAllowance
    · rw [if_pos small]
      obtain ⟨d,result,done⟩ := processLimited_spec some' answers globalAllowance calls
      have kept := done.kept
      have grown := done.grown
      have less := done.less some' (by omega)
      rw [result]
      refine ⟨_,rfl,finish_processed done ?_ (fun _ => kept) (fun zero => absurd zero free) (fun _ => less) ?_
        (fun _ _ zero => absurd zero free)⟩
      · rw [if_neg (by omega)]
        omega
      · intro greedy real _
        have zero := done.greedy greedy.global real
        rw [share,if_pos limited,Nat.min_eq_left small]
        omega
    · rw [if_neg small]
      obtain ⟨d,result,done⟩ := processLimited_spec some' answers g.groupAllowance calls
      have kept := done.kept
      have grown := done.grown
      have less := done.less some' (by omega)
      rw [result]
      have left : ¬ globalAllowance < g.groupAllowance - d.allowance := by omega
      refine ⟨_,rfl,finish_processed done kept ?_ (fun zero => absurd zero free) ?_ ?_ (fun _ _ zero => absurd zero free)⟩
      · intro _
        rw [if_neg left]
        omega
      · intro _
        rw [if_neg left]
        omega
      · intro greedy real _
        have zero := done.greedy greedy.own real
        rw [share,if_pos limited,Nat.min_eq_right (by omega)]
        omega
  · rw [if_neg limited]
    by_cases positive : globalAllowance > 0
    · rw [if_pos positive]
      obtain ⟨d,result,done⟩ := processLimited_spec some' answers globalAllowance calls
      refine ⟨d,result,done.limit,done.grown,fun _ => done.kept,by omega,by omega,fun _ => done.less some' positive,
        done.fewer,done.nulls,?_,by omega⟩
      intro greedy real _
      have kept := done.kept
      have zero := done.greedy greedy.global real
      rw [share,if_neg limited]
      omega
    · rw [if_neg positive]
      obtain ⟨grown,nulls,all⟩ := processUnlimited_moved answers g calls
      refine ⟨_,rfl,rfl,grown,by omega,id,by omega,by omega,Nat.le_refl _,nulls,by omega,?_⟩
      intro greedy real _ _
      exact all greedy.some' real

end SocketGroup

end KtorrentStream.Net
