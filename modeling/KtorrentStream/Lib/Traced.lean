import Mathlib.Data.List.Basic
set_option autoImplicit true

namespace KtorrentStream.Lib

-- A result, and the places that were looked at for it in their order.
structure Traced (π : Type u) (α : Type v) where
  places : List π
  result : α

namespace Traced

instance : Monad (Traced π) where
  pure a := ⟨[],a⟩
  bind x f := ⟨x.places ++ (f x.result).places,(f x.result).result⟩

instance : LawfulMonad (Traced π) := LawfulMonad.mk' (Traced π)
  (fun x => congrArg (Traced.mk · x.result) (List.append_nil x.places))
  (fun _ _ => rfl)
  (fun x f g => congrArg (Traced.mk · _) (List.append_assoc x.places (f x.result).places _))

-- The places from off on, as many as there are values asked for.
def reads (place : Nat → π) (value : Nat → α) (off len : Nat) : Traced π (List α) :=
  ⟨(List.range' off len).map place,(List.range' off len).map value⟩

-- Nothing outside P is looked at.
def Within (P : π → Prop) (x : Traced π α) : Prop := ∀ p ∈ x.places, P p

@[simp] theorem pure_result (a : α) : (pure a : Traced π α).result = a := rfl

@[simp] theorem bind_result (x : Traced π α) (f : α → Traced π β) : (x >>= f).result = (f x.result).result := rfl

@[simp] theorem map_result (f : α → β) (x : Traced π α) : (f <$> x).result = f x.result := rfl

@[simp] theorem reads_result (place : Nat → π) (value : Nat → α) (off len : Nat) :
    (reads place value off len).result = (List.range' off len).map value := rfl

@[simp] theorem within_pure (P : π → Prop) (a : α) : (pure a : Traced π α).Within P := by
  intro p member
  cases member

@[simp] theorem within_bind (P : π → Prop) (x : Traced π α) (f : α → Traced π β) :
    (x >>= f).Within P ↔ x.Within P ∧ (f x.result).Within P := List.forall_mem_append

@[simp] theorem within_map (P : π → Prop) (f : α → β) (x : Traced π α) : (f <$> x).Within P ↔ x.Within P := by
  show (x >>= fun a => pure (f a)).Within P ↔ _
  rw [within_bind]
  exact and_iff_left (within_pure P _)

theorem within_reads (P : π → Prop) (place : Nat → π) (value : Nat → α) (off len : Nat) :
    (reads place value off len).Within P ↔ ∀ i, off ≤ i → i < off + len → P (place i) := by
  constructor
  · intro inside i above below
    exact inside (place i) (List.mem_map_of_mem (List.mem_range'_1.mpr ⟨above,below⟩))
  · intro inside p member
    obtain ⟨i,bounds,rfl⟩ := List.mem_map.mp member
    obtain ⟨above,below⟩ := List.mem_range'_1.mp bounds
    exact inside i above below

theorem mapM_result (f : α → Traced π β) (items : List α) : (items.mapM f).result = items.map fun a => (f a).result := by
  induction items with
  | nil => rfl
  | cons a rest ih =>
      rw [List.mapM_cons]
      simp only [bind_result,pure_result,ih,List.map_cons]

theorem within_mapM (P : π → Prop) (f : α → Traced π β) (items : List α) :
    (items.mapM f).Within P ↔ ∀ a ∈ items, (f a).Within P := by
  induction items with
  | nil => exact iff_of_true (within_pure P _) (by simp)
  | cons a rest ih =>
      rw [List.mapM_cons]
      simp only [within_bind,within_pure,and_true,ih,List.forall_mem_cons]

end Traced

end KtorrentStream.Lib
