import Mathlib.Data.List.Basic
set_option autoImplicit true

namespace KtorrentStream.Lib

section
variable {σ ε ω : Type}

-- A run of a partial step function, and what an observer notes down: what it sees
-- after each event that concerns it.
inductive Follows (step : σ → ε → Option σ) (concerns : ε → Bool) (observe : σ → ω) : σ → List ε → σ → List ω → Prop where
  | done : Follows step concerns observe s [] s []
  | heard {s s' last : σ} {e : ε} {rest : List ε} {later : List ω} (stepped : step s e = some s') (mine : concerns e = true)
      (run : Follows step concerns observe s' rest last later) :
      Follows step concerns observe s (e :: rest) last (observe s' :: later)
  | ignored {s s' last : σ} {e : ε} {rest : List ε} {later : List ω} (stepped : step s e = some s') (other : concerns e = false)
      (run : Follows step concerns observe s' rest last later) : Follows step concerns observe s (e :: rest) last later

-- What is observed moves with the events that concern it and depends on nothing else.
structure Isolated (step : σ → ε → Option σ) (concerns : ε → Bool) (observe : σ → ω) (valid : σ → Prop) : Prop where
  kept : ∀ {s s' e}, valid s → step s e = some s' → valid s'
  unmoved : ∀ {s s' e}, valid s → concerns e = false → step s e = some s' → observe s' = observe s
  determined : ∀ {s s' t t' e}, valid s → valid t → observe s = observe t → concerns e = true →
    step s e = some s' → step t e = some t' → observe s' = observe t'

variable {step : σ → ε → Option σ} {concerns : ε → Bool} {observe : σ → ω} {valid : σ → Prop}

theorem Isolated.silent (isolated : Isolated step concerns observe valid) (start : valid s)
    (run : Follows step concerns observe s events last seen) (none : events.filter concerns = []) :
    seen = [] ∧ observe last = observe s := by
  induction run with
  | done => exact ⟨rfl,rfl⟩
  | heard _ mine _ _ =>
      rw [List.filter_cons_of_pos mine] at none
      cases none
  | ignored stepped other _ ih =>
      rw [List.filter_cons_of_neg (Bool.eq_false_iff.mp other)] at none
      obtain ⟨empty,same⟩ := ih (isolated.kept start stepped) none
      exact ⟨empty,same.trans (isolated.unmoved start other stepped)⟩

-- What comes before the first event that concerns the observer changes nothing.
theorem Isolated.first (isolated : Isolated step concerns observe valid) (start : valid s)
    (run : Follows step concerns observe s events last seen) (begins : events.filter concerns = e :: es) :
    ∃ before after rest later, valid before ∧ observe before = observe s ∧ step before e = some after ∧
      Follows step concerns observe after rest last later ∧ rest.filter concerns = es ∧ seen = observe after :: later := by
  induction run with
  | done => cases begins
  | @heard s after _ _ rest later stepped mine run =>
      rw [List.filter_cons_of_pos mine] at begins
      obtain ⟨rfl,same⟩ := List.cons.inj begins
      exact ⟨s,after,rest,later,start,rfl,stepped,run,same,rfl⟩
  | ignored stepped other _ ih =>
      rw [List.filter_cons_of_neg (Bool.eq_false_iff.mp other)] at begins
      obtain ⟨before,after,rest,later,valid,still,found⟩ := ih (isolated.kept start stepped) begins
      exact ⟨before,after,rest,later,valid,still.trans (isolated.unmoved start other stepped),found⟩

-- Two runs in which the same events concern the observer look the same to it.
theorem Isolated.agree (isolated : Isolated step concerns observe valid) (start : valid s) (start' : valid t)
    (alike : observe s = observe t) (run : Follows step concerns observe s events last seen)
    (run' : Follows step concerns observe t events' last' seen') (same : events'.filter concerns = events.filter concerns) :
    seen = seen' ∧ observe last = observe last' := by
  induction run generalizing t events' seen' with
  | done =>
      obtain ⟨empty,still⟩ := isolated.silent start' run' same
      exact ⟨empty.symm,alike.trans still.symm⟩
  | heard stepped mine _ ih =>
      rw [List.filter_cons_of_pos mine] at same
      obtain ⟨before,after,rest,later,ready,still,stepped',went,left,rfl⟩ := isolated.first start' run' same
      have next := isolated.determined start ready (alike.trans still.symm) mine stepped stepped'
      obtain ⟨seen,final⟩ := ih (isolated.kept start stepped) (isolated.kept ready stepped') next went left
      exact ⟨by rw [next,seen],final⟩
  | ignored stepped other _ ih =>
      rw [List.filter_cons_of_neg (Bool.eq_false_iff.mp other)] at same
      exact ih (isolated.kept start stepped) start' ((isolated.unmoved start other stepped).trans alike) run' same

theorem follows_of_foldlM (step : σ → ε → Option σ) (concerns : ε → Bool) (observe : σ → ω)
    (ran : events.foldlM step s = some last) : ∃ seen, Follows step concerns observe s events last seen := by
  induction events generalizing s with
  | nil =>
      cases ran
      exact ⟨[],.done⟩
  | cons e rest ih =>
      rw [List.foldlM_cons] at ran
      obtain ⟨next,stepped,ran⟩ := Option.bind_eq_some_iff.mp ran
      obtain ⟨later,run⟩ := ih ran
      cases mine : concerns e with
      | true => exact ⟨_,.heard stepped mine run⟩
      | false => exact ⟨_,.ignored stepped mine run⟩

end
end KtorrentStream.Lib
