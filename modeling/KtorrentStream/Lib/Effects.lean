import Mathlib.Logic.Relation
set_option autoImplicit true

namespace KtorrentStream.Lib

-- Weakest preconditions for computations with a state that may throw. What was
-- done to the state before an exception stays done, so both ways out of a
-- computation have a state to speak about.
def wp (x : EStateM ε σ α) (Q : α → σ → Prop) (E : ε → σ → Prop) (s : σ) : Prop :=
  match x s with
  | .ok a s' => Q a s'
  | .error e s' => E e s'

section Rules
variable {Q : α → σ → Prop} {E : ε → σ → Prop} {s : σ}

theorem wp_pure (a : α) : wp (pure a : EStateM ε σ α) Q E s ↔ Q a s := Iff.rfl

theorem wp_bind {Q : β → σ → Prop} (x : EStateM ε σ α) (f : α → EStateM ε σ β) :
    wp (x >>= f) Q E s ↔ wp x (fun a s' => wp (f a) Q E s') E s := by
  show wp (EStateM.bind x f) Q E s ↔ _
  simp only [wp,EStateM.bind]
  cases x s <;> rfl

theorem wp_get {Q : σ → σ → Prop} : wp (get : EStateM ε σ σ) Q E s ↔ Q s s := Iff.rfl

theorem wp_set {Q : PUnit → σ → Prop} (s' : σ) : wp (set s' : EStateM ε σ PUnit) Q E s ↔ Q ⟨⟩ s' := Iff.rfl

theorem wp_modify {Q : PUnit → σ → Prop} (f : σ → σ) : wp (modify f : EStateM ε σ PUnit) Q E s ↔ Q ⟨⟩ (f s) := Iff.rfl

theorem wp_tryCatch (x : EStateM ε σ α) (handle : ε → EStateM ε σ α) :
    wp (tryCatch x handle) Q E s ↔ wp x Q (fun e s' => wp (handle e) Q E s') s := by
  show wp (EStateM.tryCatch x handle) Q E s ↔ _
  unfold wp
  delta EStateM.tryCatch
  dsimp only
  cases x s <;> rfl

theorem wp_mono {Q' : α → σ → Prop} {E' : ε → σ → Prop} {x : EStateM ε σ α} (proved : wp x Q E s)
    (returned : ∀ a s', Q a s' → Q' a s') (threw : ∀ e s', E e s' → E' e s') : wp x Q' E' s := by
  simp only [wp] at *
  cases result : x s with
  | ok a s' =>
      rw [result] at proved
      exact returned a s' proved
  | error e s' =>
      rw [result] at proved
      exact threw e s' proved

theorem wp_and {Q' : α → σ → Prop} {E' : ε → σ → Prop} {x : EStateM ε σ α} (one : wp x Q E s) (other : wp x Q' E' s) :
    wp x (fun a s' => Q a s' ∧ Q' a s') (fun e s' => E e s' ∧ E' e s') s := by
  simp only [wp] at *
  cases result : x s with
  | ok a s' =>
      rw [result] at one other
      exact ⟨one,other⟩
  | error e s' =>
      rw [result] at one other
      exact ⟨one,other⟩

theorem wp_ok {x : EStateM ε σ α} (proved : wp x Q E s) (result : x s = .ok a s') : Q a s' := by
  rw [wp,result] at proved
  exact proved

theorem wp_error {x : EStateM ε σ α} (proved : wp x Q E s) (result : x s = .error e s') : E e s' := by
  rw [wp,result] at proved
  exact proved

-- x returns from this state.
def Returns (x : EStateM ε σ α) (s : σ) : Prop := wp x (fun _ _ => True) (fun _ _ => False) s

theorem Returns.intro {x : EStateM ε σ α} (proved : wp x Q (fun _ _ => False) s) : Returns x s :=
  wp_mono proved (fun _ _ _ => trivial) (fun _ _ threw => threw)

theorem Returns.bind {x : EStateM ε σ α} {f : α → EStateM ε σ β} (proved : wp x Q E s) (first : Returns x s)
    (rest : ∀ a s', Q a s' → Returns (f a) s') : Returns (x >>= f) s := by
  rw [Returns,wp_bind]
  exact wp_mono (wp_and proved first) (fun a s' both => rest a s' both.1) (fun _ _ both => both.2)

end Rules

-- x moves every state along R, whether it returns or throws.
def Moves (R : σ → σ → Prop) (x : EStateM ε σ α) : Prop := ∀ s, wp x (fun _ s' => R s s') (fun _ s' => R s s') s

section Moves
variable {R : σ → σ → Prop}

theorem Moves.after (moves : Moves R x) (trans : ∀ {a b c}, R a b → R b c → R a c) (before : R s₀ s) :
    wp x (fun _ s' => R s₀ s') (fun _ s' => R s₀ s') s :=
  wp_mono (moves s) (fun _ _ step => trans before step) (fun _ _ step => trans before step)

theorem Moves.pure (refl : ∀ s, R s s) (a : α) : Moves R (pure a : EStateM ε σ α) := fun s => refl s

theorem Moves.throw (refl : ∀ s, R s s) (e : ε) : Moves R (throw e : EStateM ε σ α) := fun s => refl s

theorem Moves.modify {f : σ → σ} (step : ∀ s, R s (f s)) : Moves R (modify f : EStateM ε σ PUnit) := step

theorem Moves.bind {x : EStateM ε σ α} {f : α → EStateM ε σ β} (trans : ∀ {a b c}, R a b → R b c → R a c)
    (first : Moves R x) (rest : ∀ a, Moves R (f a)) : Moves R (x >>= f) := by
  intro s
  rw [wp_bind]
  exact wp_mono (first s) (fun a s' step => (rest a).after trans step) (fun _ _ step => step)

theorem Moves.tryCatch {x : EStateM ε σ α} {handle : ε → EStateM ε σ α} (trans : ∀ {a b c}, R a b → R b c → R a c)
    (first : Moves R x) (rest : ∀ e, Moves R (handle e)) : Moves R (tryCatch x handle) := by
  intro s
  rw [wp_tryCatch]
  exact wp_mono (first s) (fun _ _ step => step) (fun e s' step => (rest e).after trans step)

end Moves
end KtorrentStream.Lib
