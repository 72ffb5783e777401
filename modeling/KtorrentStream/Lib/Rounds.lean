import Mathlib.Data.List.Nodup
set_option autoImplicit true

namespace KtorrentStream.Lib

section
variable {σ ρ : Type} {round : σ → Option (σ × List ρ)}

-- A loop that makes rounds as long as there is one to make, with what the rounds put out.
-- None: the fuel does not suffice.
def rounds (round : σ → Option (σ × List ρ)) : Nat → σ → Option (σ × List ρ)
  | 0,s => if (round s).isNone then some (s,[]) else none
  | fuel + 1,s =>
    match round s with
    | none => some (s,[])
    | some (s',out) => (rounds round fuel s').map fun r => (r.1,out ++ r.2)

-- Where every round makes something smaller, so many rounds end the loop.
theorem rounds_end (size : σ → Nat) (shrinks : ∀ s s' out, round s = some (s',out) → size s' < size s) (enough : size s ≤ fuel) :
    ∃ s' out, rounds round fuel s = some (s',out) ∧ round s' = none := by
  induction fuel generalizing s with
  | zero =>
    cases made : round s with
    | none => exact ⟨s,[],by rw [rounds,made]; rfl,made⟩
    | some r =>
      have := shrinks s r.1 r.2 made
      omega
  | succ fuel ih =>
    cases made : round s with
    | none => exact ⟨s,[],by rw [rounds,made],made⟩
    | some r =>
      have smaller := shrinks s r.1 r.2 made
      obtain ⟨s',out,rest,last⟩ := ih (s := r.1) (by omega)
      exact ⟨s',r.2 ++ out,by rw [rounds,made]; dsimp only; rw [rest]; rfl,last⟩

-- What every round keeps of a state and all that was put out before.
theorem rounds_keep {P : σ → List ρ → Prop} (keeps : ∀ s log s' out, P s log → round s = some (s',out) → P s' (log ++ out))
    (now : P s log) (ran : rounds round fuel s = some (s',out)) : P s' (log ++ out) := by
  induction fuel generalizing s log out with
  | zero =>
    rw [rounds] at ran
    split at ran
    · cases ran
      rw [List.append_nil]
      exact now
    · cases ran
  | succ fuel ih =>
    cases made : round s with
    | none =>
      rw [rounds,made] at ran
      cases ran
      rw [List.append_nil]
      exact now
    | some r =>
      rw [rounds,made] at ran
      obtain ⟨rest,again,same⟩ := Option.map_eq_some_iff.mp ran
      cases same
      rw [← List.append_assoc]
      exact ih (keeps s log r.1 r.2 now made) again

end

-- A loop over a work set: while it may go on, it takes out the first element, and does
-- something with it unless it has been seen.
structure WorkLoop (σ α ρ : Type) where
  todo : σ → List α
  may : σ → Bool
  seen : σ → α → Bool
  erase : σ → List α → σ
  send : σ → α → List α → σ × ρ

namespace WorkLoop
variable {σ α ρ : Type} (w : WorkLoop σ α ρ)

def round (s : σ) : Option (σ × List ρ) :=
  match w.todo s with
  | [] => none
  | e :: rest =>
    if w.may s then
      if w.seen s e then some (w.erase s rest,[]) else some ((w.send s e rest).1,[(w.send s e rest).2])
    else none

def loop (s : σ) : Option (σ × List ρ) := rounds w.round (w.todo s).length s

variable {w : WorkLoop σ α ρ} {s s' : σ} {out : List ρ}

theorem round_cases (made : w.round s = some (s',out)) : ∃ e rest, w.todo s = e :: rest ∧
    (w.seen s e = true ∧ s' = w.erase s rest ∧ out = [] ∨
      ¬ w.seen s e = true ∧ s' = (w.send s e rest).1 ∧ out = [(w.send s e rest).2]) := by
  unfold round at made
  split at made
  · cases made
  · rename_i e rest todo
    split at made
    · split at made
      · rename_i seen
        cases made
        exact ⟨e,rest,todo,.inl ⟨seen,rfl,rfl⟩⟩
      · rename_i fresh
        cases made
        exact ⟨e,rest,todo,.inr ⟨fresh,rfl,rfl⟩⟩
    · cases made

-- Every round takes an element out, and the loop ends.
structure Ends (w : WorkLoop σ α ρ) : Prop where
  shrinks : ∀ s s' out, w.round s = some (s',out) → (w.todo s').length < (w.todo s).length
  ended : ∀ s, ∃ s' out, w.loop s = some (s',out) ∧ w.round s' = none

theorem ends (erased : ∀ s rest, w.todo (w.erase s rest) = rest) (sent : ∀ s e rest, w.todo (w.send s e rest).1 = rest) : w.Ends := by
  have shrinks (s s' : σ) (out : List ρ) (made : w.round s = some (s',out)) : (w.todo s').length < (w.todo s).length := by
    obtain ⟨e,rest,todo,⟨_,rfl,_⟩ | ⟨_,rfl,_⟩⟩ := round_cases made
    · rw [todo,erased]
      exact Nat.lt_succ_self _
    · rw [todo,sent]
      exact Nat.lt_succ_self _
  exact ⟨shrinks,fun _ => rounds_end (fun s => (w.todo s).length) shrinks (Nat.le_refl _)⟩

theorem loop_keep {P : σ → List ρ → Prop} (keeps : ∀ s log s' out, P s log → w.round s = some (s',out) → P s' (log ++ out))
    (now : P s log) (ran : w.loop s = some (s',out)) : P s' (log ++ out) := rounds_keep keeps now ran

theorem rounds_recursion (run put : σ → List α → σ) (putTodo : ∀ s l, w.todo (put s l) = l)
    (empty : ∀ s, run s [] = put s []) (stop : ∀ s e rest, w.may (put s (e :: rest)) = false → run s (e :: rest) = put s (e :: rest))
    (skip : ∀ s e rest, w.may (put s (e :: rest)) = true → w.seen (put s (e :: rest)) e = true →
      w.erase (put s (e :: rest)) rest = put s rest ∧ run s (e :: rest) = run s rest)
    (send : ∀ s e rest, w.may (put s (e :: rest)) = true → w.seen (put s (e :: rest)) e = false →
      ∃ s', (w.send (put s (e :: rest)) e rest).1 = put s' rest ∧ run s (e :: rest) = run s' rest)
    (s : σ) (l : List α) (enough : l.length ≤ fuel) : ∃ out, rounds w.round fuel (put s l) = some (run s l,out) := by
  induction l generalizing s fuel with
  | nil =>
    have none : w.round (put s []) = none := by
      unfold round
      rw [putTodo]
    refine ⟨[],?_⟩
    rw [empty]
    cases fuel with
    | zero => rw [rounds,none]; rfl
    | succ fuel => rw [rounds,none]
  | cons e rest ih =>
    cases fuel with
    | zero => cases enough
    | succ fuel =>
      have fewer : rest.length ≤ fuel := Nat.le_of_succ_le_succ enough
      rw [rounds]
      have made : w.round (put s (e :: rest)) = if w.may (put s (e :: rest)) then
          if w.seen (put s (e :: rest)) e then some (w.erase (put s (e :: rest)) rest,[])
          else some ((w.send (put s (e :: rest)) e rest).1,[(w.send (put s (e :: rest)) e rest).2]) else none := by
        unfold round
        rw [putTodo]
      rw [made]
      cases may : w.may (put s (e :: rest)) with
      | false => exact ⟨[],by rw [stop s e rest may]; rfl⟩
      | true =>
        cases seen : w.seen (put s (e :: rest)) e with
        | true =>
          obtain ⟨erased,same⟩ := skip s e rest may seen
          obtain ⟨out,ran⟩ := ih s fewer
          refine ⟨[] ++ out,?_⟩
          rw [erased,same]
          simp [ran]
        | false =>
          obtain ⟨s',sent,same⟩ := send s e rest may seen
          obtain ⟨out,ran⟩ := ih s' fewer
          refine ⟨[(w.send (put s (e :: rest)) e rest).2] ++ out,?_⟩
          rw [sent,same]
          simp [ran]

end WorkLoop

-- Every key was used once, and those used are among the visited.
structure Once (key : α → κ) (visited : List κ) (used : List α) : Prop where
  nodup : (used.map key).Nodup
  visited : ∀ e ∈ used, key e ∈ visited

namespace Once
variable {key : α → κ} {visited visited' : List κ} {used : List α} {e : α}

theorem empty (key : α → κ) (visited : List κ) : Once key visited [] := ⟨List.nodup_nil,fun _ member => nomatch member⟩

theorem mono (once : Once key visited used) (grows : visited ⊆ visited') : Once key visited' used :=
  ⟨once.nodup,fun e member => grows (once.visited e member)⟩

theorem use (once : Once key visited used) (fresh : key e ∉ visited) (grows : visited ⊆ visited') (now : key e ∈ visited') :
    Once key visited' (used ++ [e]) := by
  refine ⟨?_,fun x member => ?_⟩
  · rw [List.map_append,List.nodup_append]
    refine ⟨once.nodup,List.nodup_singleton _,?_⟩
    intro k old k' last same
    obtain ⟨x,member,rfl⟩ := List.mem_map.mp old
    rw [List.map_singleton,List.mem_singleton] at last
    exact fresh (last ▸ same ▸ once.visited x member)
  · rcases List.mem_append.mp member with old | last
    · exact grows (once.visited x old)
    · rw [List.mem_singleton.mp last]
      exact now

theorem all (once : Once key visited used) : used.Nodup := once.nodup.of_map

end Once

end KtorrentStream.Lib
