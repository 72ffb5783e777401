import Mathlib.Data.Nat.Digits.Defs
import Mathlib.Data.Nat.Digits.Lemmas
import KtorrentStream.Lib.BigEndian
set_option autoImplicit true

namespace KtorrentStream.Lib.Radix

-- The number with these digits, the high one first.
def value (base : Nat) (digits : List Nat) : Nat := Nat.ofDigits base digits.reverse

theorem value_append (base : Nat) (high low : List Nat) : value base (high ++ low) = value base high * base ^ low.length + value base low := by
  rw [value,List.reverse_append,Nat.ofDigits_append,List.length_reverse,Nat.add_comm,Nat.mul_comm]
  rfl

theorem value_cons (base d : Nat) (low : List Nat) : value base (d :: low) = d * base ^ low.length + value base low := by
  have first : value base [d] = d := Nat.ofDigits_singleton
  have whole := value_append base [d] low
  rw [first] at whole
  exact whole

-- Digits that are taken together are digits of a power of the base.
theorem value_groups (base n : Nat) (groups : List (List Nat)) (size : ∀ g ∈ groups, g.length = n) :
    value base groups.flatten = value (base ^ n) (groups.map (value base)) := by
  induction groups with
  | nil => rfl
  | cons g rest ih =>
      have others := ih fun g' member => size g' (List.mem_cons_of_mem _ member)
      have length : rest.flatten.length = n * rest.length := by
        rw [List.length_flatten,List.map_congr_left (fun g' member => size g' (List.mem_cons_of_mem _ member)),List.map_const',
          List.sum_replicate_nat,Nat.mul_comm]
      rw [List.flatten_cons,value_append,List.map_cons,value_cons,List.length_map,others,length,pow_mul]

theorem value_lt (small : ∀ d ∈ digits, d < base) : value base digits < base ^ digits.length := by
  induction digits with
  | nil => exact Nat.one_pos
  | cons d low ih =>
      have first := small d List.mem_cons_self
      have others := ih fun d' member => small d' (List.mem_cons_of_mem _ member)
      have scaled := Nat.mul_le_mul_right (base ^ low.length) (Nat.succ_le_of_lt first)
      rw [Nat.succ_mul] at scaled
      rw [value_cons,List.length_cons,pow_succ,Nat.mul_comm _ base]
      omega

theorem value_bytes (bytes : List UInt8) : BigEndian.value bytes = value 256 (bytes.map UInt8.toNat) := by
  induction bytes with
  | nil => rfl
  | cons b rest ih => rw [BigEndian.value,List.map_cons,value_cons,List.length_map,ih]

theorem window_eq {α : Type} (items : List α) (d : α) (inside : o + k ≤ items.length) :
    ((List.range k).map fun j => items.getD (o + j) d) = (items.drop o).take k := by
  apply List.ext_getElem
  · rw [List.length_map,List.length_range,List.length_take,List.length_drop]
    omega
  · intro j low _
    rw [List.length_map,List.length_range] at low
    rw [List.getElem_map,List.getElem_range,List.getElem_take,List.getElem_drop,List.getD_eq_getElem?_getD,
      List.getElem?_eq_getElem (by omega),Option.getD_some]

theorem groups_flatten {α : Type} (n k : Nat) (items : List α) (d : α) (length : items.length = n * k) :
    ((List.range n).map fun i => (List.range k).map fun j => items.getD (i * k + j) d).flatten = items := by
  induction n generalizing items with
  | zero =>
      rw [Nat.zero_mul] at length
      exact (List.length_eq_zero_iff.mp length).symm
  | succ n ih =>
      rw [Nat.succ_mul] at length
      have first := @window_eq 0 k α items d (by omega)
      have rest := ih (items.drop k) (by rw [List.length_drop]; omega)
      have shifted (i j : Nat) : items.getD ((i + 1) * k + j) d = (items.drop k).getD (i * k + j) d := by
        rw [List.getD_eq_getElem?_getD,List.getD_eq_getElem?_getD,List.getElem?_drop]
        congr 2
        rw [Nat.succ_mul]
        omega
      rw [List.range_succ_eq_map,List.map_cons,List.flatten_cons,List.map_map]
      simp only [Function.comp_def,Nat.succ_eq_add_one,shifted,Nat.zero_mul]
      rw [rest,first,List.drop_zero,List.take_append_drop]

end KtorrentStream.Lib.Radix
