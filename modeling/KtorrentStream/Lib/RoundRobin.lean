import Mathlib.Data.List.Induction
import Mathlib.Data.List.Nodup
set_option autoImplicit true

namespace KtorrentStream.Lib

-- The history of a scheduler over several groups. At each moment a group may have been
-- served, and some groups are left waiting.
structure Moment (κ : Type) where
  served : Option κ
  waiting : List κ

-- Between two services of one group, every other group that has been waiting all the
-- time has been served.
def Fair (log : List (Moment κ)) : Prop :=
  ∀ earlier m between m' later g h, log = earlier ++ m :: (between ++ m' :: later) → m.served = some g → m'.served = some g →
    h ≠ g → h ∈ m.waiting → (∀ x ∈ between, h ∈ x.waiting) → ∃ x ∈ between, x.served = some h

-- g has been served, and h has been waiting without being served since then.
def Owed (log : List (Moment κ)) (g h : κ) : Prop :=
  ∃ earlier m later, log = earlier ++ m :: later ∧ m.served = some g ∧ h ∈ m.waiting ∧
    ∀ x ∈ later, h ∈ x.waiting ∧ x.served ≠ some h

theorem fair_nil : Fair ([] : List (Moment κ)) := by
  intro earlier m between m' later g h whole
  cases earlier <;> cases whole

theorem owed_nil (g h : κ) : ¬ Owed [] g h := by
  rintro ⟨earlier,m,later,whole,_⟩
  cases earlier <;> cases whole

theorem Owed.of_concat {x : Moment κ} (owed : Owed (log ++ [x]) g h) :
    h ∈ x.waiting ∧ (x.served = some g ∨ (Owed log g h ∧ x.served ≠ some h)) := by
  obtain ⟨earlier,m,later,whole,served,waits,since⟩ := owed
  induction later using List.reverseRecOn with
  | nil =>
      obtain ⟨rfl,same⟩ := List.append_inj' whole rfl
      obtain rfl := List.singleton_inj.mp same
      exact ⟨waits,.inl served⟩
  | append_singleton later y _ =>
      rw [← List.cons_append,← List.append_assoc] at whole
      obtain ⟨rfl,same⟩ := List.append_inj' whole rfl
      obtain rfl := List.singleton_inj.mp same
      have last := since x (List.mem_append_right _ List.mem_cons_self)
      exact ⟨last.1,.inr ⟨⟨earlier,m,later,rfl,served,waits,fun z among => since z (List.mem_append_left _ among)⟩,last.2⟩⟩

theorem Fair.concat {x : Moment κ} (fair : Fair log) (paid : ∀ g, x.served = some g → ∀ h, h ≠ g → ¬ Owed log g h) :
    Fair (log ++ [x]) := by
  intro earlier m between m' later g h whole served served' other waits since
  induction later using List.reverseRecOn with
  | nil =>
      rw [← List.cons_append,← List.append_assoc] at whole
      obtain ⟨rfl,same⟩ := List.append_inj' whole rfl
      obtain rfl := List.singleton_inj.mp same
      by_contra never
      exact paid g served' h other ⟨earlier,m,between,rfl,served,waits,fun y among => ⟨since y among,fun turn => never ⟨y,among,turn⟩⟩⟩
  | append_singleton later y _ =>
      rw [← List.cons_append,← List.append_assoc,← List.cons_append,← List.append_assoc] at whole
      obtain ⟨rfl,_⟩ := List.append_inj' whole rfl
      exact fair earlier m between m' later g h (List.append_assoc _ _ _) served served' other waits since

-- h comes before g in the order in which the groups will be asked.
def Before (h g : κ) (order : List κ) : Prop := [h,g].Sublist order

theorem Before.mem (before : Before h g order) : h ∈ order ∧ g ∈ order :=
  ⟨before.subset List.mem_cons_self,before.subset (List.mem_cons_of_mem _ List.mem_cons_self)⟩

theorem Before.tail (before : Before h g (k :: rest)) (other : h ≠ k) : Before h g rest := by
  cases before with
  | cons _ later => exact later
  | cons_cons _ later => exact absurd rfl other

theorem Before.turn (before : Before h g (k :: rest)) (other : h ≠ k) : Before h g (rest ++ [k]) :=
  (before.tail other).trans (List.sublist_append_left _ _)

theorem before_last (among : h ∈ rest) : Before h k (rest ++ [k]) :=
  List.Sublist.append (List.singleton_sublist.mpr among) (List.Sublist.refl [k])

theorem not_before_first (distinct : (k :: rest).Nodup) (other : h ≠ k) : ¬ Before h k (k :: rest) :=
  fun before => (List.nodup_cons.mp distinct).1 (before.tail other).mem.2

-- Whoever is owed a turn is asked before the one that had its turn, and still waits.
structure RoundRobin (log : List (Moment κ)) (order waiting : List κ) : Prop where
  fair : Fair log
  owed : ∀ g h, h ≠ g → Owed log g h → Before h g order ∧ h ∈ waiting

namespace RoundRobin

theorem nil (order waiting : List κ) : RoundRobin [] order waiting :=
  ⟨fair_nil,fun g h _ owed => absurd owed (owed_nil g h)⟩

theorem skip (turns : RoundRobin log (k :: rest) waiting) (idle : k ∉ waiting) : RoundRobin log (rest ++ [k]) waiting := by
  refine ⟨turns.fair,?_⟩
  intro g h other owed
  obtain ⟨before,waits⟩ := turns.owed g h other owed
  refine ⟨before.turn ?_,waits⟩
  rintro rfl
  exact idle waits

theorem serve (turns : RoundRobin log (k :: rest) waiting) (distinct : (k :: rest).Nodup) (known : waiting' ⊆ k :: rest) :
    RoundRobin (log ++ [⟨some k,waiting'⟩]) (rest ++ [k]) waiting' := by
  constructor
  · apply turns.fair.concat
    intro g served h other owed
    obtain rfl := Option.some.inj served
    exact not_before_first distinct other (turns.owed k h other owed).1
  · intro g h other owed
    obtain ⟨waits,rfl | ⟨earlier,unserved⟩⟩ := owed.of_concat.imp_right (Or.imp_left Option.some.inj)
    · exact ⟨before_last (List.mem_of_ne_of_mem other (known waits)),waits⟩
    · exact ⟨(turns.owed g h other earlier).1.turn fun same => unserved (congrArg some same.symm),waits⟩

theorem mark {log : List (Moment κ)} (turns : RoundRobin log order waiting) (waiting' : List κ) :
    RoundRobin (log ++ [⟨none,waiting'⟩]) order waiting' := by
  constructor
  · apply turns.fair.concat
    intro g served
    cases served
  · intro g h other owed
    obtain ⟨waits,served | ⟨earlier,_⟩⟩ := owed.of_concat
    · cases served
    · exact ⟨(turns.owed g h other earlier).1,waits⟩

theorem grow (turns : RoundRobin log order waiting) (more : order.Sublist order') (wider : waiting ⊆ waiting') :
    RoundRobin log order' waiting' := by
  refine ⟨turns.fair,?_⟩
  intro g h other owed
  obtain ⟨before,waits⟩ := turns.owed g h other owed
  exact ⟨List.Sublist.trans before more,wider waits⟩

end RoundRobin

-- A list from its i-th element on, around its end.
def turned (i : Nat) (l : List κ) : List κ := l.drop i ++ l.take i

theorem turned_nodup (i : Nat) (distinct : l.Nodup) : (turned i l).Nodup := by
  have whole : (l.take i ++ l.drop i).Nodup := by
    rw [List.take_append_drop]
    exact distinct
  exact List.nodup_append_comm.mp whole

theorem mem_turned (i : Nat) (l : List κ) : k ∈ turned i l ↔ k ∈ l := by
  rw [turned,List.mem_append,Or.comm,← List.mem_append,List.take_append_drop]

theorem turned_next {l : List κ} (here : l[i]? = some k) :
    ∃ rest, turned i l = k :: rest ∧ turned (if i + 1 = l.length then 0 else i + 1) l = rest ++ [k] := by
  obtain ⟨inside,rfl⟩ := List.getElem?_eq_some_iff.mp here
  refine ⟨l.drop (i + 1) ++ l.take i,?_,?_⟩
  · rw [turned,List.drop_eq_getElem_cons inside,List.cons_append]
  · split
    · rename_i last
      rw [turned,List.drop_zero,List.take_zero,List.append_nil,last,List.drop_length,List.nil_append,
        List.take_append_getElem,last,List.take_length]
    · rw [turned,List.append_assoc,List.take_append_getElem]

theorem turned_insert (new : κ) (i : Nat) (earlier later : List κ) :
    (turned i (earlier ++ later)).Sublist (turned (if i < earlier.length then i else i + 1) (earlier ++ new :: later)) := by
  split
  · rename_i before
    rw [turned,turned,List.drop_append_of_le_length (Nat.le_of_lt before),List.take_append_of_le_length (Nat.le_of_lt before),
      List.drop_append_of_le_length (Nat.le_of_lt before),List.take_append_of_le_length (Nat.le_of_lt before)]
    exact ((List.Sublist.refl _).append (List.sublist_cons_self new later)).append (.refl _)
  · rename_i after
    obtain ⟨j,rfl⟩ := Nat.exists_eq_add_of_le (Nat.not_lt.mp after)
    rw [turned,turned,Nat.add_assoc,List.drop_length_add_append,List.take_length_add_append,List.drop_length_add_append,
      List.take_length_add_append,List.drop_succ_cons,List.take_succ_cons]
    exact (List.Sublist.refl _).append ((List.Sublist.refl _).append (List.sublist_cons_self new _))

end KtorrentStream.Lib
