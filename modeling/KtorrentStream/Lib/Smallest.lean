import Mathlib.Data.Finset.Card
import Mathlib.Data.Finset.Max
import Mathlib.Order.Interval.Finset.Nat
set_option autoImplicit true

namespace KtorrentStream.Lib
open Finset

variable {α : Type} [LinearOrder α] {k : Nat} {seen held : Finset α} {d m : α}

-- Of the elements seen, the k smallest, or all while there are not so many.
structure Smallest (k : Nat) (seen held : Finset α) : Prop where
  among : held ⊆ seen
  count : held.card = min k seen.card
  nearer : ∀ x ∈ held, ∀ y ∈ seen, y ∉ held → x < y

theorem Smallest.empty (k : Nat) : Smallest k (∅ : Finset α) ∅ :=
  ⟨Subset.rfl,(Nat.min_zero k).symm,fun x member => absurd member (notMem_empty x)⟩

theorem Smallest.all (smallest : Smallest k seen held) (room : held.card < k) : held = seen := by
  have count := smallest.count
  exact eq_of_subset_of_card_le smallest.among (by omega)

theorem Smallest.insert_room (smallest : Smallest k seen held) (room : held.card < k) : Smallest k (insert d seen) (insert d held) := by
  obtain rfl := smallest.all room
  refine ⟨Subset.rfl,?_,fun x _ y member absent => absurd member absent⟩
  have most := card_insert_le d held
  omega

-- There is no room, and m is the largest element held.
structure Full (k : Nat) (held : Finset α) (m : α) : Prop where
  count : held.card = k
  member : m ∈ held
  largest : ∀ x ∈ held, x ≤ m

theorem Smallest.seen_card (smallest : Smallest k seen held) (full : Full k held m) : k ≤ seen.card :=
  full.count ▸ card_le_card smallest.among

theorem Smallest.replace (smallest : Smallest k seen held) (full : Full k held m) (less : d < m) (absent : d ∉ held) :
    Smallest k (insert d seen) ((insert d held).erase m) := by
  have many := smallest.seen_card full
  have other : m ≠ d := fun same => absent (same ▸ full.member)
  refine ⟨?_,?_,?_⟩
  · exact (erase_subset _ _).trans (insert_subset_insert d smallest.among)
  · have more : seen.card ≤ (insert d seen).card := card_le_card (subset_insert d seen)
    rw [card_erase_of_mem (mem_insert_of_mem full.member),card_insert_of_notMem absent,full.count,Nat.min_eq_left (many.trans more)]
    rfl
  · intro x inside y member outside
    obtain ⟨notLargest,inside⟩ := mem_erase.mp inside
    have least : x < m := by
      rcases mem_insert.mp inside with rfl | old
      · exact less
      · exact lt_of_le_of_ne (full.largest x old) notLargest
    by_cases same : y = m
    · rw [same]
      exact least
    · have apart : y ∉ insert d held := fun there => outside (mem_erase.mpr ⟨same,there⟩)
      rw [mem_insert,not_or] at apart
      have old : y ∈ seen := (mem_insert.mp member).resolve_left apart.1
      exact least.trans (smallest.nearer m full.member y old apart.2)

theorem Smallest.beyond (smallest : Smallest k seen held) (full : Full k held m) (further : m ≤ d) : Smallest k (insert d seen) held := by
  have many := smallest.seen_card full
  refine ⟨smallest.among.trans (subset_insert d seen),?_,?_⟩
  · have more : seen.card ≤ (insert d seen).card := card_le_card (subset_insert d seen)
    rw [full.count,Nat.min_eq_left (many.trans more)]
  · intro x inside y member outside
    rcases mem_insert.mp member with rfl | old
    · refine lt_of_le_of_ne ((full.largest x inside).trans further) ?_
      rintro rfl
      exact outside inside
    · exact smallest.nearer x inside y old outside

-- An element that is there already must not cost the largest one its place.
theorem Smallest.lost (smallest : Smallest k seen held) (full : Full k held m) (more : 0 < k) : ¬ Smallest k (insert d seen) (held.erase m) := by
  intro left
  have many := smallest.seen_card full
  have grown : seen.card ≤ (insert d seen).card := card_le_card (subset_insert d seen)
  have count := left.count
  rw [card_erase_of_mem full.member,full.count,Nat.min_eq_left (many.trans grown)] at count
  omega

theorem Smallest.rank (smallest : Smallest k seen held) (full : Full k held m) :
    d ∈ held ∧ d < m ↔ d ∈ seen ∧ (seen.filter (· < d)).card + 1 < k := by
  constructor
  · rintro ⟨inside,less⟩
    refine ⟨smallest.among inside,?_⟩
    have below : seen.filter (· < d) ⊆ (held.erase m).erase d := by
      intro y member
      obtain ⟨old,smaller⟩ := mem_filter.mp member
      have there : y ∈ held := by
        by_contra outside
        exact lt_asymm smaller (smallest.nearer d inside y old outside)
      exact mem_erase.mpr ⟨ne_of_lt smaller,mem_erase.mpr ⟨ne_of_lt (smaller.trans less),there⟩⟩
    have few := card_le_card below
    rw [card_erase_of_mem (mem_erase.mpr ⟨ne_of_lt less,inside⟩),card_erase_of_mem full.member,full.count] at few
    have two : 1 < held.card := one_lt_card.mpr ⟨d,inside,m,full.member,ne_of_lt less⟩
    rw [full.count] at two
    omega
  · rintro ⟨old,few⟩
    have inside : d ∈ held := by
      by_contra outside
      have all : held ⊆ seen.filter (· < d) := fun x member =>
        mem_filter.mpr ⟨smallest.among member,smallest.nearer x member d old outside⟩
      have many := card_le_card all
      rw [full.count] at many
      omega
    refine ⟨inside,lt_of_le_of_ne (full.largest d inside) ?_⟩
    rintro rfl
    have others : held.erase d ⊆ seen.filter (· < d) := by
      intro x member
      obtain ⟨other,member⟩ := mem_erase.mp member
      exact mem_filter.mpr ⟨smallest.among member,lt_of_le_of_ne (full.largest x member) other⟩
    have many := card_le_card others
    rw [card_erase_of_mem inside,full.count] at many
    omega

end KtorrentStream.Lib
