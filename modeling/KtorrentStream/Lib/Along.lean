import Mathlib.Init
set_option autoImplicit true

namespace KtorrentStream.Lib

section
variable {σ ε : Type} {step : σ → ε → σ}

theorem foldl_related {R : σ → σ → Prop} (refl : ∀ s, R s s) (trans : ∀ {a b c}, R a b → R b c → R a c) (events : List ε)
    (each : ∀ s, ∀ e ∈ events, R s (step s e)) (s : σ) : R s (events.foldl step s) := by
  induction events generalizing s with
  | nil => exact refl s
  | cons e rest ih =>
      rw [List.foldl_cons]
      have first := each s e List.mem_cons_self
      exact trans first (ih (fun s e' member => each s e' (List.mem_cons_of_mem _ member)) (step s e))

theorem foldl_fixed {α : Sort u} {f : σ → α} (each : ∀ s e, f (step s e) = f s) (events : List ε) (s : σ) : f (events.foldl step s) = f s :=
  @foldl_related σ ε step (fun s s' => f s' = f s) (fun _ => rfl) (fun ab bc => bc.trans ab) events (fun s e _ => each s e) s

-- Steps at single places, of which a view of one place sees the steps there only: a
-- step that changes nothing more when it is repeated is seen once or not at all.
theorem foldl_local {σ ε α : Type} [DecidableEq ε] {step : σ → ε → σ} {f : σ → α} {g : α → α} {c : ε} (again : ∀ v, g (g v) = g v)
    (each : ∀ s i, f (step s i) = if c = i then g (f s) else f s) (places : List ε) (s : σ) :
    f (places.foldl step s) = if c ∈ places then g (f s) else f s := by
  induction places generalizing s with
  | nil => rfl
  | cons i rest ih =>
      rw [List.foldl_cons,ih,each]
      by_cases here : c = i
      · rw [if_pos here,again,ite_self,if_pos (here ▸ List.mem_cons_self)]
      · rw [if_neg here]
        simp [here]

end

section
variable {σ ε : Type} {step : σ → ε → σ} {P Q A : σ → ε → Prop} {s : σ}

-- Every step of a run is taken in a state in which P holds of it.
def Along (step : σ → ε → σ) (P : σ → ε → Prop) : σ → List ε → Prop
  | _,[] => True
  | s,e :: rest => P s e ∧ Along step P (step s e) rest

theorem Along.always (each : ∀ s e, P s e) (s : σ) (events : List ε) : Along step P s events := by
  induction events generalizing s with
  | nil => trivial
  | cons e rest ih => exact ⟨each s e,ih (step s e)⟩

theorem Along.last (along : Along step P s (before ++ e :: after)) : P (before.foldl step s) e := by
  induction before generalizing s with
  | nil => exact along.1
  | cons _ _ ih => exact ih along.2

theorem Along.kept {I : σ → Prop} (now : I s) (each : ∀ s e, I s → P s e → I (step s e)) (along : Along step P s events) : I (events.foldl step s) := by
  induction events generalizing s with
  | nil => exact now
  | cons e rest ih => exact ih (each s e now along.1) along.2

-- Two conditions that agree on every step of a run, where an invariant may be used
-- that the steps keep that meet them.
theorem Along.congr {I : σ → Prop} (allowed : Along step A s events) (now : I s)
    (same : ∀ s e, I s → A s e → (P s e ↔ Q s e)) (keep : ∀ s e, I s → A s e → Q s e → I (step s e)) :
    Along step P s events ↔ Along step Q s events := by
  induction events generalizing s with
  | nil => exact Iff.rfl
  | cons e rest ih =>
      rw [Along,Along,same s e now allowed.1]
      exact and_congr_right fun here => ih allowed.2 (keep s e now allowed.1 here)

-- L holds of all the states of a run if and only if every step meets Q, where an
-- invariant says what L needs and Q is what it takes to keep both.
theorem Along.states {I L : σ → Prop} (now : I s) (law : ∀ s, I s → L s) (same : ∀ s e, I s → (L (step s e) → Q s e))
    (keep : ∀ s e, I s → Q s e → I (step s e)) (events : List ε) :
    (∀ done, done <+: events → L (done.foldl step s)) ↔ Along step Q s events := by
  induction events generalizing s with
  | nil =>
      refine iff_of_true (fun done before => ?_) trivial
      rw [List.prefix_nil.mp before]
      exact law s now
  | cons e rest ih =>
      constructor
      · intro all
        have meets := same s e now (all [e] (List.prefix_append [e] rest))
        exact ⟨meets,(ih (keep s e now meets)).mp fun done before => all (e :: done) ((List.prefix_cons_inj e).mpr before)⟩
      · rintro ⟨meets,along⟩ done before
        rcases List.prefix_cons_iff.mp before with rfl | ⟨done,rfl,inner⟩
        · exact law s now
        · exact (ih (keep s e now meets)).mpr along done inner

-- What is recorded by some steps, and recorded anew by others that forget what they do
-- not record, has been recorded by the last of these or after it.
theorem foldl_since {P : σ → Prop} {saves : ε → Prop} {records : σ → ε → Prop} (each : ∀ s e, P (step s e) ↔ records s e ∨ ¬ saves e ∧ P s)
    (events : List ε) (s : σ) : P (events.foldl step s) ↔ (P s ∧ ∀ e ∈ events, ¬ saves e) ∨
      ∃ before e after, events = before ++ e :: after ∧ records (before.foldl step s) e ∧ ∀ later ∈ after, ¬ saves later := by
  induction events generalizing s with
  | nil => simp
  | cons e rest ih =>
      rw [List.foldl_cons,ih,each,List.forall_mem_cons]
      constructor
      · rintro (⟨records | ⟨quiet,held⟩,later⟩ | ⟨before,e',after,rfl,recorded,later⟩)
        · exact .inr ⟨[],e,rest,rfl,records,later⟩
        · exact .inl ⟨held,quiet,later⟩
        · exact .inr ⟨e :: before,e',after,rfl,recorded,later⟩
      · rintro (⟨held,quiet,later⟩ | ⟨before,e',after,split,recorded,later⟩)
        · exact .inl ⟨.inr ⟨quiet,held⟩,later⟩
        · cases before with
          | nil =>
              obtain ⟨rfl,rfl⟩ := List.cons.inj split
              exact .inl ⟨.inl recorded,later⟩
          | cons first before =>
              obtain ⟨rfl,rfl⟩ := List.cons.inj split
              exact .inr ⟨before,e',after,rfl,recorded,later⟩

end

section
variable {σ ε : Type} {step : σ → ε → Option σ} {P : σ → ε → Prop} {I : σ → List ε → Prop} {J : σ → Prop} {s : σ} {past : List ε}

def Through (step : σ → ε → Option σ) (P : σ → ε → Prop) : σ → List ε → Prop
  | _,[] => True
  | s,e :: rest => P s e ∧ ∀ s', step s e = some s' → Through step P s' rest

-- Steps that do not get stuck where I holds of the state and what has happened keep I, and
-- those that meet P keep J too.
theorem Through.run (steps : ∀ s past e, I s past → ∃ s', step s e = some s' ∧ I s' (past ++ [e]) ∧ (P s e → J s → J s'))
    (now : I s past) (events : List ε) :
    ∃ s', events.foldlM step s = some s' ∧ I s' (past ++ events) ∧ (Through step P s events → J s → J s') := by
  induction events generalizing s past with
  | nil =>
      refine ⟨s,rfl,?_,fun _ holds => holds⟩
      rw [List.append_nil]
      exact now
  | cons e rest ih =>
      obtain ⟨next,stepped,between,one⟩ := steps s past e now
      obtain ⟨s',ran,after,others⟩ := ih between
      refine ⟨s',?_,?_,fun through holds => others (through.2 next stepped) (one through.1 holds)⟩
      · rw [List.foldlM_cons,stepped]
        exact ran
      · rw [List.append_cons]
        exact after

end
end KtorrentStream.Lib
