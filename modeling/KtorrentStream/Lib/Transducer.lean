import Mathlib.Init
set_option autoImplicit true

namespace KtorrentStream.Lib

-- A machine that turns every item it is given into one item.
def transduce {σ α β : Type} (step : σ → α → β × σ) : σ → List α → List β × σ
  | s,[] => ([],s)
  | s,a :: rest =>
    let head := step s a
    let tail := transduce step head.2 rest
    (head.1 :: tail.1,tail.2)

variable {σ α β : Type} {step : σ → α → β × σ}

theorem transduce_append (s : σ) (before after : List α) : transduce step s (before ++ after) =
    ((transduce step s before).1 ++ (transduce step (transduce step s before).2 after).1,
      (transduce step (transduce step s before).2 after).2) := by
  induction before generalizing s with
  | nil => rfl
  | cons a rest ih =>
      rw [List.cons_append,transduce,ih]
      rfl

theorem transduce_length (s : σ) (items : List α) : (transduce step s items).1.length = items.length := by
  induction items generalizing s with
  | nil => rfl
  | cons a rest ih =>
      rw [transduce]
      exact congrArg (· + 1) (ih (step s a).2)

end KtorrentStream.Lib
