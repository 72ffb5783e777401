import Mathlib.Data.List.Basic
set_option autoImplicit true

namespace KtorrentStream.Lib

-- A stream of messages, each behind a header of fixed width that gives its length.
-- A length of zero is a header with no message; a length above the limit ends the stream.
structure Framing (β : Type u) where
  width : Nat
  positive : 0 < width
  lengthOf : List β → Nat
  limit : Nat

namespace Framing

def messages (f : Framing β) (s : List β) : List (List β) :=
  if s.length < f.width then []
  else if f.lengthOf (s.take f.width) = 0 then f.messages (s.drop f.width)
  else if f.limit < f.lengthOf (s.take f.width) then []
  else if (s.drop f.width).length < f.lengthOf (s.take f.width) then []
  else (s.drop f.width).take (f.lengthOf (s.take f.width)) ::
    f.messages ((s.drop f.width).drop (f.lengthOf (s.take f.width)))
termination_by s.length
decreasing_by all_goals have := f.positive; simp only [List.length_drop]; omega

-- A length above the limit is reached.
def oversize (f : Framing β) (s : List β) : Bool :=
  if s.length < f.width then false
  else if f.lengthOf (s.take f.width) = 0 then f.oversize (s.drop f.width)
  else if f.limit < f.lengthOf (s.take f.width) then true
  else if (s.drop f.width).length < f.lengthOf (s.take f.width) then false
  else f.oversize ((s.drop f.width).drop (f.lengthOf (s.take f.width)))
termination_by s.length
decreasing_by all_goals have := f.positive; simp only [List.length_drop]; omega

variable {f : Framing β} {head body s : List β}

theorem messages_short (short : s.length < f.width) : f.messages s = [] := by
  rw [messages,if_pos short]

theorem oversize_short (short : s.length < f.width) : f.oversize s = false := by
  rw [oversize,if_pos short]

theorem not_short (whole : head.length = f.width) : ¬ (head ++ s).length < f.width := by
  rw [List.length_append]
  omega

theorem messages_empty (whole : head.length = f.width) (empty : f.lengthOf head = 0) :
    f.messages (head ++ s) = f.messages s := by
  rw [messages,if_neg (not_short whole),List.take_left' whole,List.drop_left' whole,if_pos empty]

theorem oversize_empty (whole : head.length = f.width) (empty : f.lengthOf head = 0) :
    f.oversize (head ++ s) = f.oversize s := by
  rw [oversize,if_neg (not_short whole),List.take_left' whole,List.drop_left' whole,if_pos empty]

theorem messages_over (whole : head.length = f.width) (over_ : f.limit < f.lengthOf head) :
    f.messages (head ++ s) = [] := by
  rw [messages,if_neg (not_short whole),List.take_left' whole,List.drop_left' whole,if_neg (by omega),if_pos over_]

theorem oversize_over (whole : head.length = f.width) (over_ : f.limit < f.lengthOf head) :
    f.oversize (head ++ s) = true := by
  rw [oversize,if_neg (not_short whole),List.take_left' whole,List.drop_left' whole,if_neg (by omega),if_pos over_]

theorem messages_begun (whole : head.length = f.width) (fits : f.lengthOf head ≤ f.limit)
    (part : s.length < f.lengthOf head) : f.messages (head ++ s) = [] := by
  rw [messages,if_neg (not_short whole),List.take_left' whole,List.drop_left' whole,if_neg (by omega),
    if_neg (by omega),if_pos part]

theorem oversize_begun (whole : head.length = f.width) (fits : f.lengthOf head ≤ f.limit)
    (part : s.length < f.lengthOf head) : f.oversize (head ++ s) = false := by
  rw [oversize,if_neg (not_short whole),List.take_left' whole,List.drop_left' whole,if_neg (by omega),
    if_neg (by omega),if_pos part]

theorem messages_message (whole : head.length = f.width) (some_ : 0 < f.lengthOf head)
    (fits : f.lengthOf head ≤ f.limit) (length : body.length = f.lengthOf head) :
    f.messages (head ++ (body ++ s)) = body :: f.messages s := by
  have enough : ¬ (body ++ s).length < f.lengthOf head := by
    rw [List.length_append]
    omega
  rw [messages,if_neg (not_short whole),List.take_left' whole,List.drop_left' whole,if_neg (by omega),
    if_neg (by omega),if_neg enough,List.take_left' length,List.drop_left' length]

theorem oversize_message (whole : head.length = f.width) (some_ : 0 < f.lengthOf head)
    (fits : f.lengthOf head ≤ f.limit) (length : body.length = f.lengthOf head) :
    f.oversize (head ++ (body ++ s)) = f.oversize s := by
  have enough : ¬ (body ++ s).length < f.lengthOf head := by
    rw [List.length_append]
    omega
  rw [oversize,if_neg (not_short whole),List.take_left' whole,List.drop_left' whole,if_neg (by omega),
    if_neg (by omega),if_neg enough,List.drop_left' length]

-- Of the stream s the messages done are complete and rest is not read yet, whatever
-- comes behind s.
def Read (f : Framing β) (s : List β) (done : List (List β)) (rest : List β) : Prop :=
  ∀ t, f.messages (s ++ t) = done ++ f.messages (rest ++ t) ∧ f.oversize (s ++ t) = f.oversize (rest ++ t)

namespace Read

theorem start : f.Read s [] s := fun _ => ⟨rfl,rfl⟩

theorem more (read : f.Read s done rest) (x : List β) : f.Read (s ++ x) done (rest ++ x) := by
  intro t
  rw [List.append_assoc,List.append_assoc]
  exact read (x ++ t)

theorem empty (read : f.Read s done (head ++ rest)) (whole : head.length = f.width)
    (empty : f.lengthOf head = 0) : f.Read s done rest := by
  intro t
  obtain ⟨messages,oversize⟩ := read t
  rw [List.append_assoc] at messages oversize
  rw [messages_empty whole empty] at messages
  rw [oversize_empty whole empty] at oversize
  exact ⟨messages,oversize⟩

theorem message (read : f.Read s done (head ++ (body ++ rest))) (whole : head.length = f.width)
    (some_ : 0 < f.lengthOf head) (fits : f.lengthOf head ≤ f.limit) (length : body.length = f.lengthOf head) :
    f.Read s (done ++ [body]) rest := by
  intro t
  obtain ⟨messages,oversize⟩ := read t
  rw [List.append_assoc,List.append_assoc] at messages oversize
  rw [messages_message whole some_ fits length] at messages
  rw [oversize_message whole some_ fits length] at oversize
  rw [List.append_assoc]
  exact ⟨messages,oversize⟩

theorem messages_eq (read : f.Read s done rest) : f.messages s = done ++ f.messages rest := by
  have now := (read []).1
  rwa [List.append_nil,List.append_nil] at now

theorem oversize_eq (read : f.Read s done rest) : f.oversize s = f.oversize rest := by
  have now := (read []).2
  rwa [List.append_nil,List.append_nil] at now

end Read

theorem messages_prefix (f : Framing β) (s t : List β) : f.messages s <+: f.messages (s ++ t) ∧ (f.oversize s = true → f.oversize (s ++ t) = true) := by
  induction s using messages.induct f with
  | case1 s short =>
      rw [messages_short short,oversize_short short]
      exact ⟨List.nil_prefix,fun never => (by cases never)⟩
  | case2 s long zero ih =>
      have whole : (s.take f.width).length = f.width := List.length_take_of_le (by omega)
      rw [← List.take_append_drop f.width s,List.append_assoc,messages_empty whole zero,messages_empty whole zero,oversize_empty whole zero,
        oversize_empty whole zero]
      exact ih
  | case3 s long some_ above =>
      have whole : (s.take f.width).length = f.width := List.length_take_of_le (by omega)
      rw [← List.take_append_drop f.width s,List.append_assoc,messages_over whole above,oversize_over whole above,oversize_over whole above]
      exact ⟨List.nil_prefix,fun _ => rfl⟩
  | case4 s long some_ fits part =>
      have whole : (s.take f.width).length = f.width := List.length_take_of_le (by omega)
      rw [← List.take_append_drop f.width s,messages_begun whole (by omega) part,oversize_begun whole (by omega) part]
      exact ⟨List.nil_prefix,fun never => (by cases never)⟩
  | case5 s long some_ fits enough ih =>
      have whole : (s.take f.width).length = f.width := List.length_take_of_le (by omega)
      have body : ((s.drop f.width).take (f.lengthOf (s.take f.width))).length = f.lengthOf (s.take f.width) := List.length_take_of_le (by omega)
      have split : s = s.take f.width ++ ((s.drop f.width).take (f.lengthOf (s.take f.width)) ++ (s.drop f.width).drop (f.lengthOf (s.take f.width))) := by
        rw [List.take_append_drop,List.take_append_drop]
      have positive : 0 < f.lengthOf (s.take f.width) := by omega
      have small : f.lengthOf (s.take f.width) ≤ f.limit := by omega
      generalize s.take f.width = head at *
      generalize (s.drop f.width).take (f.lengthOf head) = message at *
      generalize (s.drop f.width).drop (f.lengthOf head) = rest at *
      rw [split,List.append_assoc,List.append_assoc,messages_message whole positive small body,messages_message whole positive small body,
        oversize_message whole positive small body,oversize_message whole positive small body]
      exact ⟨(List.prefix_cons_inj message).mpr ih.1,ih.2⟩

theorem messages_flatMap {header : List β → List β} {ms : List (List β)}
    (whole : ∀ m ∈ ms, (header m).length = f.width) (length : ∀ m ∈ ms, f.lengthOf (header m) = m.length)
    (some_ : ∀ m ∈ ms, m ≠ []) (fits : ∀ m ∈ ms, m.length ≤ f.limit) :
    f.messages (ms.flatMap fun m => header m ++ m) = ms ∧
      f.oversize (ms.flatMap fun m => header m ++ m) = false := by
  induction ms with
  | nil => exact ⟨messages_short f.positive,oversize_short f.positive⟩
  | cons m rest ih =>
    obtain ⟨messages,oversize⟩ := ih (fun m' member => whole m' (by simp [member])) (fun m' member => length m' (by simp [member]))
      (fun m' member => some_ m' (by simp [member])) (fun m' member => fits m' (by simp [member]))
    have here : m ∈ m :: rest := by simp
    have long := List.length_pos_iff.mpr (some_ m here)
    have short := fits m here
    rw [← length m here] at long short
    rw [List.flatMap_cons,List.append_assoc,messages_message (whole m here) long short (length m here).symm,
      oversize_message (whole m here) long short (length m here).symm,messages,oversize]
    exact ⟨rfl,rfl⟩

end Framing

end KtorrentStream.Lib
