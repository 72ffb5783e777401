import Mathlib.Data.List.Nodup
import Mathlib.Data.List.Perm.Subperm
import KtorrentStream.Dht.RPCServer
set_option autoImplicit true

namespace KtorrentStream.Dht
open RPCServer

-- What holds of the calls at any time, with q as the queue.
structure Core (s : RPCServer) (q : List Nat) : Prop where
  oneByte : ∀ e ∈ s.calls, ∃ b, e.1 = [b] ∧ s.mtidOf e.2 = [b]
  distinct : (s.calls.map (·.1)).Nodup
  armed : ∀ c, c ∈ s.armed ↔ c ∈ s.outstanding
  isSent : ∀ c ∈ s.outstanding, c ∈ s.sent
  sentOnce : s.sent.Nodup
  notDone : ∀ c ∈ s.outstanding, c ∉ s.answered ++ s.expired
  doneSent : ∀ c ∈ s.answered ++ s.expired, c ∈ s.sent
  once : (s.answered ++ s.expired).Nodup
  unsent : ∀ c ∈ q, c ∉ s.sent
  made : ∀ c ∈ s.sent ++ s.queued, c < s.made
  all : ∀ c < s.made, c ∈ s.sent ∨ c ∈ q
  kept : ∀ c ∈ s.sent, c ∈ s.outstanding ∨ c ∈ s.answered ++ s.expired
  order : s.queued = s.sent.filter (· ∈ s.queued) ++ q
  queuedOnce : s.queued.Nodup

-- The bookkeeping that the server keeps between two events.
structure Bookkeeping (s : RPCServer) : Prop extends Core s s.callQueue where
  waiting : s.callQueue ≠ [] → ∀ b, s.contains [b] = true

theorem contains_iff (s : RPCServer) : s.contains mtid = true ↔ mtid ∈ s.calls.map (·.1) := by
  simp [RPCServer.contains,List.any_eq_true,List.mem_map]

theorem find_some (found : RPCServer.find s mtid = some c) : (mtid,c) ∈ s.calls := by
  unfold RPCServer.find at found
  cases there : s.calls.find? (·.1 == mtid) with
  | none => rw [there] at found; cases found
  | some e =>
    rw [there] at found
    have key : e.1 = mtid := by simpa using List.find?_some there
    have value : e.2 = c := by simpa using found
    rw [← key,← value]
    exact List.mem_of_find?_eq_some there

theorem find_of_mem (distinct : (s.calls.map (·.1)).Nodup) (member : (mtid,c) ∈ s.calls) : RPCServer.find s mtid = some c := by
  unfold RPCServer.find
  cases there : s.calls.find? (·.1 == mtid) with
  | none =>
    have none := List.find?_eq_none.mp there _ member
    simp at none
  | some e =>
    have key : e.1 = mtid := by simpa using List.find?_some there
    have same : e = (mtid,c) := List.inj_on_of_nodup_map distinct (List.mem_of_find?_eq_some there) member key
    rw [same]
    rfl

def allMtids : List (List UInt8) := (List.range 256).map fun n => [UInt8.ofNat n]

theorem mem_allMtids (b : UInt8) : [b] ∈ allMtids :=
  List.mem_map.mpr ⟨b.toNat,List.mem_range.mpr b.toNat_lt,by simp⟩

theorem allMtids_nodup : allMtids.Nodup := by
  refine List.Nodup.map_on ?_ List.nodup_range
  intro n small k small' same
  have bytes : UInt8.ofNat n = UInt8.ofNat k := by simpa using same
  have values := congrArg UInt8.toNat bytes
  rw [UInt8.toNat_ofNat',UInt8.toNat_ofNat'] at values
  have := List.mem_range.mp small
  have := List.mem_range.mp small'
  omega

theorem calls_le (core : Core s q) : s.calls.length ≤ 256 := by
  have subset : s.calls.map (·.1) ⊆ allMtids := by
    intro key member
    obtain ⟨e,there,rfl⟩ := List.mem_map.mp member
    obtain ⟨b,key,_⟩ := core.oneByte e there
    rw [key]
    exact mem_allMtids b
  have length := (List.subperm_of_subset core.distinct subset).length_le
  simpa [allMtids] using length

theorem length_of_full (full : ∀ b, RPCServer.contains s [b] = true) : 256 ≤ s.calls.length := by
  have subset : allMtids ⊆ s.calls.map (·.1) := by
    intro key member
    obtain ⟨n,_,rfl⟩ := List.mem_map.mp member
    exact (contains_iff s).mp (full _)
  have length := (List.subperm_of_subset allMtids_nodup subset).length_le
  simpa [allMtids] using length

theorem full_of_length (core : Core s q) (many : ¬ s.calls.length < 256) (b : UInt8) : s.contains [b] = true := by
  have subset : s.calls.map (·.1) ⊆ allMtids := by
    intro key member
    obtain ⟨e,there,rfl⟩ := List.mem_map.mp member
    obtain ⟨b,key,_⟩ := core.oneByte e there
    rw [key]
    exact mem_allMtids b
  have perm := (List.subperm_of_subset core.distinct subset).perm_of_length_le (by simp [allMtids]; omega)
  exact (contains_iff s).mpr (perm.mem_iff.mpr (mem_allMtids b))

theorem add_sub_byte (m b : UInt8) : m + UInt8.ofNat (b - m).toNat = b := by
  apply UInt8.toNat.inj
  have small := m.toNat_lt
  have small' := b.toNat_lt
  rw [UInt8.ofNat_toNat,UInt8.toNat_add,UInt8.toNat_sub]
  omega

theorem succ_byte (m : UInt8) (k : Nat) : m + UInt8.ofNat k + 1 = m + UInt8.ofNat (k + 1) := by
  apply UInt8.toNat.inj
  have one : (1 : UInt8).toNat = 1 := rfl
  rw [UInt8.toNat_add,UInt8.toNat_add,UInt8.toNat_add,UInt8.toNat_ofNat',UInt8.toNat_ofNat',one]
  omega

theorem zero_byte (m : UInt8) : m + UInt8.ofNat 0 = m := by
  apply UInt8.toNat.inj
  have small := m.toNat_lt
  rw [UInt8.toNat_add,UInt8.toNat_ofNat']
  omega

theorem byte_ne (less : k < 255) (m : UInt8) : m + UInt8.ofNat (k + 1) ≠ m := by
  intro same
  have values := congrArg UInt8.toNat same
  have small := m.toNat_lt
  rw [UInt8.toNat_add,UInt8.toNat_ofNat'] at values
  omega

-- The k-th round looks at the k-th mtid after start; the last of the 256 comes back to it.
theorem searchFrom_spec (s : RPCServer) (start : UInt8) (rounds k : Nat) (left : k + rounds = 256) (some_ : 0 < rounds)
    (before : ∀ j < k, s.contains [start + UInt8.ofNat j] = true) :
    (∃ m, s.searchFrom start rounds (start + UInt8.ofNat k) = some (some m) ∧ s.contains [m] = false) ∨
      (s.searchFrom start rounds (start + UInt8.ofNat k) = some none ∧ ∀ b, s.contains [b] = true) := by
  induction rounds generalizing k with
  | zero => omega
  | succ rounds ih =>
    rw [RPCServer.searchFrom,succ_byte]
    cases taken : s.contains [start + UInt8.ofNat k] with
    | false => exact .inl ⟨_,if_neg (by decide),taken⟩
    | true =>
      have upTo : ∀ j < k + 1, s.contains [start + UInt8.ofNat j] = true := by
        intro j less
        by_cases last : j = k
        · rw [last]
          exact taken
        · exact before j (by omega)
      rw [if_pos rfl]
      by_cases done : rounds = 0
      · have last : start + UInt8.ofNat (k + 1) = start := by
          rw [show k + 1 = 256 by omega]
          exact zero_byte start
        refine .inr ⟨if_pos last,fun b => ?_⟩
        rw [← add_sub_byte start b]
        exact upTo _ (by have := (b - start).toNat_lt; omega)
      · rw [if_neg (byte_ne (by omega) start)]
        exact ih (k + 1) (by omega) (by omega) upTo

theorem searchFree_spec (s : RPCServer) (m : UInt8) (rounds k : Nat) (left : k + rounds = 256)
    (before : ∀ j < k, s.contains [m + UInt8.ofNat j] = true) (free : ∃ b, s.contains [b] = false) :
    ∃ m', s.searchFree rounds (m + UInt8.ofNat k) = some m' ∧ s.contains [m'] = false := by
  induction rounds generalizing k with
  | zero =>
    obtain ⟨b,free⟩ := free
    have taken := before (b - m).toNat (by have := (b - m).toNat_lt; omega)
    rw [add_sub_byte,free] at taken
    cases taken
  | succ rounds ih =>
    rw [RPCServer.searchFree,succ_byte]
    cases taken : s.contains [m + UInt8.ofNat k] with
    | false => exact ⟨_,if_neg (by decide),taken⟩
    | true =>
      rw [if_pos rfl]
      refine ih (k + 1) (by omega) ?_
      intro j less
      by_cases last : j = k
      · rw [last]
        exact taken
      · exact before j (by omega)

theorem filter_free (s : RPCServer) (free : s.contains mtid = false) : s.calls.filter (·.1 != mtid) = s.calls := by
  apply List.filter_eq_self.mpr
  intro e member
  rw [bne_iff_ne]
  intro same
  have there := (contains_iff s).mpr (List.mem_map.mpr ⟨e,member,same⟩)
  rw [free] at there
  cases there

theorem send_calls (s : RPCServer) (c : Nat) (free : s.contains [m] = false) : (s.send c m).calls = ([m],c) :: s.calls :=
  congrArg (([m],c) :: ·) (filter_free s free)

-- What is sent next is a new call, or the first in the queue.
inductive Next (s : RPCServer) (n c : Nat) (q' : List Nat) : List Nat → Prop
  | new (call : c = s.made) (count : n = s.made + 1) : Next s n c q' q'
  | queued (count : n = s.made) : Next s n c q' (c :: q')

theorem Next.order {s : RPCServer} (next : Next s n c q' q) (core : Core s q) :
    s.queued = (s.sent ++ [c]).filter (· ∈ s.queued) ++ q' := by
  rw [List.filter_append]
  cases next with
  | new call count =>
    have notQueued : c ∉ s.queued := fun member => by
      have := core.made c (List.mem_append.mpr (.inr member))
      omega
    have nothing : [c].filter (· ∈ s.queued) = [] := by simp [notQueued]
    rw [nothing,List.append_nil]
    exact core.order
  | queued count =>
    have member : c ∈ s.queued := by
      rw [core.order]
      simp
    have one : [c].filter (· ∈ s.queued) = [c] := by simp [member]
    rw [one,List.append_assoc,List.singleton_append]
    exact core.order

theorem Next.behind {s : RPCServer} (next : Next s n c q' q) (core : Core s q) (member : x ∈ q') : x ≠ c ∧ x ∈ q := by
  cases next with
  | new call count =>
    have queued : x ∈ s.queued := by
      rw [core.order]
      exact List.mem_append.mpr (.inr member)
    have := core.made x (List.mem_append.mpr (.inr queued))
    exact ⟨by omega,member⟩
  | queued count =>
    have nodup := core.queuedOnce
    rw [core.order] at nodup
    have tail := (List.nodup_append.mp nodup).2.1
    exact ⟨fun same => (List.nodup_cons.mp tail).1 (same ▸ member),List.mem_cons_of_mem _ member⟩

theorem Next.all {s : RPCServer} (next : Next s n c q' q) (core : Core s q) (less : x < n) : x ∈ s.sent ++ [c] ∨ x ∈ q' := by
  cases next with
  | new call count =>
    by_cases last : x = c
    · exact .inl (by simp [last])
    · rcases core.all x (by omega) with old | waiting
      · exact .inl (List.mem_append.mpr (.inl old))
      · exact .inr waiting
  | queued count =>
    rcases core.all x (by omega) with old | waiting
    · exact .inl (List.mem_append.mpr (.inl old))
    · rcases List.mem_cons.mp waiting with rfl | later
      · exact .inl (by simp)
      · exact .inr later

theorem send_core {s : RPCServer} (core : Core s q) (free : s.contains [m] = false) (unsent : c ∉ s.sent)
    (nextMtid : UInt8) (made : s.made ≤ n) (below : c < n) (next : Next s n c q' q) :
    Core {s.send c m with nextMtid := nextMtid,made := n} q' := by
  have calls := send_calls s c free
  have outstanding : (s.send c m).outstanding = c :: s.outstanding := by
    rw [RPCServer.outstanding,calls]
    rfl
  have other (x : Nat) (old : x ∈ s.outstanding) : x ≠ c := fun same => unsent (same ▸ core.isSent x old)
  constructor
  · intro e member
    have member : e ∈ (s.send c m).calls := member
    rw [calls] at member
    show ∃ b, e.1 = [b] ∧ Function.update s.mtidOf c [m] e.2 = [b]
    rcases List.mem_cons.mp member with rfl | old
    · exact ⟨m,rfl,Function.update_self _ _ _⟩
    · obtain ⟨b,key,mtid⟩ := core.oneByte e old
      refine ⟨b,key,?_⟩
      rw [Function.update_of_ne (other e.2 (List.mem_map.mpr ⟨e,old,rfl⟩))]
      exact mtid
  · show ((s.send c m).calls.map (·.1)).Nodup
    rw [calls,List.map_cons,List.nodup_cons]
    refine ⟨fun member => ?_,core.distinct⟩
    rw [(contains_iff s).mpr member] at free
    cases free
  · intro x
    show x ∈ c :: s.armed ↔ x ∈ (s.send c m).outstanding
    rw [outstanding,List.mem_cons,List.mem_cons,core.armed x]
  · intro x member
    have member : x ∈ (s.send c m).outstanding := member
    rw [outstanding] at member
    show x ∈ s.sent ++ [c]
    rcases List.mem_cons.mp member with rfl | old
    · simp
    · exact List.mem_append.mpr (.inl (core.isSent x old))
  · show (s.sent ++ [c]).Nodup
    rw [List.nodup_append]
    refine ⟨core.sentOnce,List.nodup_singleton c,?_⟩
    intro x old y last same
    rw [List.mem_singleton.mp last] at same
    exact unsent (same ▸ old)
  · intro x member
    have member : x ∈ (s.send c m).outstanding := member
    rw [outstanding] at member
    show x ∉ s.answered ++ s.expired
    rcases List.mem_cons.mp member with rfl | old
    · exact fun done => unsent (core.doneSent x done)
    · exact core.notDone x old
  · intro x done
    exact List.mem_append.mpr (.inl (core.doneSent x done))
  · exact core.once
  · intro x member
    show x ∉ s.sent ++ [c]
    rw [List.mem_append,List.mem_singleton]
    rintro (old | last)
    · exact core.unsent x (next.behind core member).2 old
    · exact (next.behind core member).1 last
  · intro x member
    show x < n
    have member : x ∈ s.sent ++ [c] ++ s.queued := member
    rw [List.append_assoc] at member
    rcases List.mem_append.mp member with old | more
    · exact Nat.lt_of_lt_of_le (core.made x (List.mem_append.mpr (.inl old))) made
    · rcases List.mem_cons.mp more with rfl | queued
      · exact below
      · exact Nat.lt_of_lt_of_le (core.made x (List.mem_append.mpr (.inr queued))) made
  · exact fun x less => next.all core less
  · intro x member
    show x ∈ (s.send c m).outstanding ∨ x ∈ s.answered ++ s.expired
    rw [outstanding]
    have member : x ∈ s.sent ++ [c] := member
    rcases List.mem_append.mp member with old | last
    · rcases core.kept x old with there | done
      · exact .inl (List.mem_cons_of_mem _ there)
      · exact .inr done
    · exact .inl (List.mem_cons.mpr (.inl (List.mem_singleton.mp last)))
  · exact next.order core
  · exact core.queuedOnce

theorem enqueue_core {s : RPCServer} (core : Core s q) :
    Core {s with callQueue := q ++ [s.made],queued := s.queued ++ [s.made],made := s.made + 1} (q ++ [s.made]) := by
  have notSent : s.made ∉ s.sent := fun member => by
    have := core.made s.made (List.mem_append.mpr (.inl member))
    omega
  have notQueued : s.made ∉ s.queued := fun member => by
    have := core.made s.made (List.mem_append.mpr (.inr member))
    omega
  refine ⟨core.oneByte,core.distinct,core.armed,core.isSent,core.sentOnce,core.notDone,core.doneSent,core.once,
    ?_,?_,?_,core.kept,?_,?_⟩
  · intro x member
    rcases List.mem_append.mp member with old | last
    · exact core.unsent x old
    · rw [List.mem_singleton.mp last]
      exact notSent
  · intro x member
    show x < s.made + 1
    rw [← List.append_assoc] at member
    rcases List.mem_append.mp member with old | last
    · have := core.made x old
      omega
    · rw [List.mem_singleton.mp last]
      omega
  · intro x less
    have less : x < s.made + 1 := less
    by_cases last : x = s.made
    · exact .inr (by simp [last])
    · rcases core.all x (by omega) with sent | waiting
      · exact .inl sent
      · exact .inr (List.mem_append.mpr (.inl waiting))
  · show s.queued ++ [s.made] = s.sent.filter (· ∈ s.queued ++ [s.made]) ++ (q ++ [s.made])
    have same : s.sent.filter (· ∈ s.queued ++ [s.made]) = s.sent.filter (· ∈ s.queued) := by
      apply List.filter_congr
      intro x member
      have other : x ≠ s.made := fun same => notSent (same ▸ member)
      simp [other]
    rw [same,← List.append_assoc,← core.order]
  · show (s.queued ++ [s.made]).Nodup
    rw [List.nodup_append]
    refine ⟨core.queuedOnce,List.nodup_singleton _,?_⟩
    intro x old y last same
    rw [List.mem_singleton.mp last] at same
    exact notQueued (same ▸ old)

theorem doCall_spec (book : Bookkeeping s) :
    ∃ s', s.doCall = some s' ∧ Bookkeeping s' ∧ s.calls ⊆ s'.calls := by
  have unsent : s.made ∉ s.sent := fun member => by
    have := book.made s.made (List.mem_append.mpr (.inl member))
    omega
  unfold RPCServer.doCall
  have search := searchFrom_spec s s.nextMtid 256 0 (by omega) (by omega) (by simp)
  rw [zero_byte] at search
  rcases search with ⟨m,found,free⟩ | ⟨none_,full⟩
  · have core := send_core book.toCore free unsent m (Nat.le_succ _) (Nat.lt_succ_self _) (.new rfl rfl)
    have idle : s.callQueue = [] := by
      by_contra waiting
      rw [book.waiting waiting m] at free
      cases free
    simp only [found]
    refine ⟨_,rfl,⟨core,fun waiting => absurd idle waiting⟩,?_⟩
    show s.calls ⊆ (s.send s.made m).calls
    rw [send_calls s s.made free]
    exact List.subset_cons_self _ _
  · simp only [none_]
    exact ⟨_,rfl,⟨enqueue_core book.toCore,fun _ => full⟩,List.Subset.refl _⟩

theorem doCalls_spec (book : Bookkeeping s) (n : Nat) : ∃ s', s.doCalls n = some s' ∧ Bookkeeping s' ∧ s.calls ⊆ s'.calls := by
  induction n generalizing s with
  | zero => exact ⟨s,rfl,book,List.Subset.refl _⟩
  | succ n ih =>
    obtain ⟨s₁,first,book₁,subset₁⟩ := doCall_spec book
    obtain ⟨s₂,rest,book₂,subset₂⟩ := ih book₁
    exact ⟨s₂,by rw [RPCServer.doCalls,first]; exact rest,book₂,List.Subset.trans subset₁ subset₂⟩

theorem Core.withQueue (core : Core s q) (q' : List Nat) : Core {s with callQueue := q'} q :=
  ⟨core.oneByte,core.distinct,core.armed,core.isSent,core.sentOnce,core.notDone,core.doneSent,core.once,
    core.unsent,core.made,core.all,core.kept,core.order,core.queuedOnce⟩

theorem doQueuedFrom_spec (core : Core s q) : ∃ s', s.doQueuedFrom q = some s' ∧ Bookkeeping s' := by
  induction q generalizing s with
  | nil => exact ⟨_,rfl,core.withQueue [],fun waiting => absurd rfl waiting⟩
  | cons c rest ih =>
    rw [RPCServer.doQueuedFrom]
    by_cases room : s.calls.length < 256
    · have free : ∃ b, s.contains [b] = false := by
        by_contra taken
        push Not at taken
        have := length_of_full fun b => by simpa using taken b
        omega
      have search := searchFree_spec s s.nextMtid 256 0 (by omega) (by simp) free
      rw [zero_byte] at search
      obtain ⟨m,found,free⟩ := search
      have below : c < s.made := core.made c (by rw [core.order]; simp)
      have next := send_core core free (core.unsent c List.mem_cons_self) (m + 1) (Nat.le_refl _) below (.queued rfl)
      rw [if_pos room]
      simp only [found]
      exact ih next
    · rw [if_neg room]
      exact ⟨_,rfl,core.withQueue (c :: rest),fun _ b => full_of_length core room b⟩

-- What completing a call leaves: it is gone from the calls and recorded once.
structure Completes (s : RPCServer) (mtid : List UInt8) (c : Nat) (s' : RPCServer) : Prop where
  calls : s'.calls = s.calls.filter (·.1 != mtid)
  armed : ∀ x, x ∈ s'.armed ↔ x ∈ s.armed ∧ x ≠ c
  done : (s'.answered ++ s'.expired).Perm (c :: (s.answered ++ s.expired))
  mtidOf : s'.mtidOf = s.mtidOf
  sent : s'.sent = s.sent
  queued : s'.queued = s.queued
  made : s'.made = s.made

theorem outstanding_completes (core : Core s q) (there : (mtid,c) ∈ s.calls) (completes : Completes s mtid c s') (x : Nat) :
    x ∈ s'.outstanding ↔ x ∈ s.outstanding ∧ x ≠ c := by
  unfold RPCServer.outstanding
  rw [completes.calls,List.mem_map,List.mem_map]
  constructor
  · rintro ⟨e,member,rfl⟩
    obtain ⟨old,other⟩ := List.mem_filter.mp member
    refine ⟨⟨e,old,rfl⟩,fun same => ?_⟩
    obtain ⟨b,key,mtidOf⟩ := core.oneByte e old
    obtain ⟨b',key',mtidOf'⟩ := core.oneByte _ there
    rw [same,mtidOf'] at mtidOf
    rw [bne_iff_ne,key,← mtidOf,← key'] at other
    exact other rfl
  · rintro ⟨⟨e,old,rfl⟩,other⟩
    refine ⟨e,List.mem_filter.mpr ⟨old,?_⟩,rfl⟩
    rw [bne_iff_ne]
    intro same
    have equal := List.inj_on_of_nodup_map core.distinct old there same
    rw [equal] at other
    exact other rfl

theorem completes_core (core : Core s q) (there : (mtid,c) ∈ s.calls) (completes : Completes s mtid c s') : Core s' q := by
  have outstanding := outstanding_completes core there completes
  have here : c ∈ s.outstanding := List.mem_map.mpr ⟨_,there,rfl⟩
  have kept {e : List UInt8 × Nat} (member : e ∈ s'.calls) : e ∈ s.calls := by
    rw [completes.calls] at member
    exact (List.mem_filter.mp member).1
  refine ⟨?_,?_,?_,?_,?_,?_,?_,?_,?_,?_,?_,?_,?_,?_⟩
  · intro e member
    rw [completes.mtidOf]
    exact core.oneByte e (kept member)
  · rw [completes.calls]
    exact core.distinct.sublist (List.Sublist.map _ List.filter_sublist)
  · intro x
    rw [completes.armed,outstanding,core.armed]
  · intro x member
    rw [completes.sent]
    exact core.isSent x ((outstanding x).mp member).1
  · rw [completes.sent]
    exact core.sentOnce
  · intro x member
    obtain ⟨old,other⟩ := (outstanding x).mp member
    rw [completes.done.mem_iff,List.mem_cons]
    rintro (same | done)
    · exact other same
    · exact core.notDone x old done
  · intro x member
    rw [completes.sent]
    rcases List.mem_cons.mp (completes.done.mem_iff.mp member) with rfl | done
    · exact core.isSent x here
    · exact core.doneSent x done
  · rw [completes.done.nodup_iff,List.nodup_cons]
    exact ⟨core.notDone c here,core.once⟩
  · intro x member
    rw [completes.sent]
    exact core.unsent x member
  · rw [completes.sent,completes.queued,completes.made]
    exact core.made
  · rw [completes.sent,completes.made]
    exact core.all
  · intro x member
    rw [completes.sent] at member
    rw [outstanding,completes.done.mem_iff,List.mem_cons]
    by_cases same : x = c
    · exact .inr (.inl same)
    · rcases core.kept x member with there | done
      · exact .inl ⟨there,same⟩
      · exact .inr (.inr done)
  · rw [completes.sent,completes.queued]
    exact core.order
  · rw [completes.queued]
    exact core.queuedOnce

theorem response_spec (book : Bookkeeping s) (mtid : List UInt8) (listeners : Nat) :
    ∃ s', s.response mtid listeners = some s' ∧ Bookkeeping s' := by
  unfold RPCServer.response
  cases found : s.find mtid with
  | none => exact ⟨s,rfl,book⟩
  | some c =>
    obtain ⟨s₁,heard,book₁,subset⟩ := doCalls_spec book listeners
    have completes : Completes s₁ mtid c
        {s₁.erase mtid with armed := s₁.armed.filter (· != c),answered := s₁.answered ++ [c]} := by
      refine ⟨rfl,fun x => by simp [List.mem_filter],?_,rfl,rfl,rfl,rfl⟩
      show (s₁.answered ++ [c] ++ s₁.expired).Perm _
      rw [List.append_assoc]
      exact List.perm_middle
    simp only [heard]
    exact doQueuedFrom_spec (completes_core book₁.toCore (subset (find_some found)) completes)

theorem callTimeout_spec (book : Bookkeeping s) (c : Nat) : ∃ s', s.callTimeout c = some s' ∧ Bookkeeping s' := by
  unfold RPCServer.callTimeout
  by_cases armed : c ∈ s.armed
  · rw [if_pos armed]
    obtain ⟨e,there,rfl⟩ := List.mem_map.mp ((book.armed c).mp armed)
    obtain ⟨b,key,mtid⟩ := book.oneByte e there
    have entry : (s.mtidOf e.2,e.2) ∈ s.calls := by
      rw [mtid,← key]
      exact there
    have found := find_of_mem book.distinct entry
    unfold RPCServer.timedOut
    have same : RPCServer.find {s with armed := s.armed.filter (· != e.2),expired := s.expired ++ [e.2]} (s.mtidOf e.2) = some e.2 := found
    rw [same]
    apply doQueuedFrom_spec
    refine completes_core book.toCore entry ⟨rfl,fun x => by simp [List.mem_filter],?_,rfl,rfl,rfl,rfl⟩
    show (s.answered ++ (s.expired ++ [e.2])).Perm _
    rw [← List.append_assoc]
    exact List.perm_append_singleton _ _
  · rw [if_neg armed]
    exact ⟨s,rfl,book⟩

theorem step_bookkeeping (book : Bookkeeping s) (event : RPCEvent) : ∃ s', s.step event = some s' ∧ Bookkeeping s' := by
  cases event with
  | doCall =>
    obtain ⟨s',called,book',_⟩ := doCall_spec book
    exact ⟨s',called,book'⟩
  | response mtid listeners => exact response_spec book mtid listeners
  | timeout c => exact callTimeout_spec book c
  | doQueuedCalls => exact doQueuedFrom_spec book.toCore

theorem new_bookkeeping : Bookkeeping RPCServer.new := by
  refine ⟨⟨?_,List.nodup_nil,?_,?_,List.nodup_nil,?_,?_,List.nodup_nil,?_,?_,?_,?_,rfl,List.nodup_nil⟩,fun waiting => absurd rfl waiting⟩
  all_goals simp [RPCServer.new,RPCServer.outstanding]

theorem run_bookkeeping (book : Bookkeeping s) (events : List RPCEvent) : ∃ s', s.run events = some s' ∧ Bookkeeping s' := by
  induction events generalizing s with
  | nil => exact ⟨s,rfl,book⟩
  | cons event rest ih =>
    obtain ⟨s₁,first,book₁⟩ := step_bookkeeping book event
    obtain ⟨s₂,others,book₂⟩ := ih book₁
    exact ⟨s₂,by rw [RPCServer.run,first]; exact others,book₂⟩

-- One more call is made: it is sent with a free mtid, or it is the last in the queue.
structure Called (s s' : RPCServer) : Prop where
  made : s'.made = s.made + 1
  answered : s'.answered = s.answered
  expired : s'.expired = s.expired
  placed : (∃ m, s.contains [m] = false ∧ s'.calls = ([m],s.made) :: s.calls ∧ s'.mtidOf s.made = [m] ∧
      s'.sent = s.sent ++ [s.made] ∧ s'.callQueue = s.callQueue) ∨
    (∀ b, s.contains [b] = true) ∧ s'.calls = s.calls ∧ s'.sent = s.sent ∧ s'.callQueue = s.callQueue ++ [s.made]

theorem doCall_called (called : RPCServer.doCall s = some s') : Called s s' := by
  unfold RPCServer.doCall at called
  have search := searchFrom_spec s s.nextMtid 256 0 (by omega) (by omega) (by simp)
  rw [zero_byte] at search
  rcases search with ⟨m,found,free⟩ | ⟨none_,full⟩
  · simp only [found] at called
    cases called
    exact ⟨rfl,rfl,rfl,.inl ⟨m,free,send_calls s s.made free,Function.update_self _ _ _,rfl,rfl⟩⟩
  · simp only [none_] at called
    cases called
    exact ⟨rfl,rfl,rfl,.inr ⟨full,rfl,rfl,rfl⟩⟩

-- More calls are made, and none is completed.
structure Makes (n : Nat) (s s' : RPCServer) : Prop where
  made : s'.made = s.made + n
  answered : s'.answered = s.answered
  expired : s'.expired = s.expired

theorem doCalls_makes (called : RPCServer.doCalls s n = some s') : Makes n s s' := by
  induction n generalizing s with
  | zero =>
    cases called
    exact ⟨rfl,rfl,rfl⟩
  | succ n ih =>
    rw [RPCServer.doCalls] at called
    obtain ⟨s₁,first,rest⟩ := Option.bind_eq_some_iff.mp called
    have one := doCall_called first
    have others := ih rest
    refine ⟨?_,others.answered.trans one.answered,others.expired.trans one.expired⟩
    rw [others.made,one.made]
    omega

theorem doQueuedFrom_makes (ran : RPCServer.doQueuedFrom s q = some s') : Makes 0 s s' := by
  induction q generalizing s with
  | nil =>
    cases ran
    exact ⟨rfl,rfl,rfl⟩
  | cons c rest ih =>
    rw [RPCServer.doQueuedFrom] at ran
    split at ran
    · split at ran
      · cases ran
      · exact ⟨(ih ran).made,(ih ran).answered,(ih ran).expired⟩
    · cases ran
      exact ⟨rfl,rfl,rfl⟩

-- What an event does to the records: nothing but what it asks for.
structure Records (s : RPCServer) (event : RPCEvent) (s' : RPCServer) : Prop where
  made : s'.made = s.made + s.asks event
  answered : s'.answered = s.answered ++ s.answers event
  expired : s'.expired = s.expired ++ s.expires event

theorem Makes.records (makes : Makes 0 s s') (asks : s.asks event = 0) (answers : s.answers event = []) (expires : s.expires event = []) :
    Records s event s' := by
  refine ⟨?_,?_,?_⟩
  · rw [asks,makes.made]
  · rw [answers,List.append_nil,makes.answered]
  · rw [expires,List.append_nil,makes.expired]

theorem response_records (responded : RPCServer.response s mtid listeners = some s') : Records s (.response mtid listeners) s' := by
  unfold RPCServer.response at responded
  cases found : s.find mtid with
  | none =>
    rw [found] at responded
    cases responded
    refine Makes.records ⟨rfl,rfl,rfl⟩ ?_ ?_ rfl
    · rw [RPCServer.asks,found]
      rfl
    · rw [RPCServer.answers,found]
      rfl
  | some c =>
    rw [found] at responded
    obtain ⟨s₁,heard,rest⟩ := Option.bind_eq_some_iff.mp responded
    have calls := doCalls_makes heard
    have queued := doQueuedFrom_makes rest
    refine ⟨?_,?_,?_⟩
    · rw [queued.made,RPCServer.asks,found]
      exact calls.made
    · rw [queued.answered,RPCServer.answers,found]
      exact congrArg (· ++ [c]) calls.answered
    · rw [queued.expired]
      exact calls.expired.trans (List.append_nil _).symm

theorem callTimeout_records (fired : RPCServer.callTimeout s c = some s') : Records s (.timeout c) s' := by
  unfold RPCServer.callTimeout at fired
  by_cases armed : c ∈ s.armed
  · rw [if_pos armed] at fired
    unfold RPCServer.timedOut at fired
    have emptied : ∃ s₁, Makes 0 s₁ s' ∧ s₁.made = s.made ∧ s₁.answered = s.answered ∧ s₁.expired = s.expired ++ [c] := by
      split at fired
      · exact ⟨_,doQueuedFrom_makes fired,rfl,rfl,rfl⟩
      · exact ⟨_,doQueuedFrom_makes fired,rfl,rfl,rfl⟩
    obtain ⟨s₁,makes,made,answered,expired⟩ := emptied
    refine ⟨makes.made.trans made,?_,?_⟩
    · rw [makes.answered,answered]
      exact (List.append_nil _).symm
    · rw [makes.expired,expired,RPCServer.expires,if_pos armed]
  · rw [if_neg armed] at fired
    cases fired
    exact Makes.records ⟨rfl,rfl,rfl⟩ rfl rfl (if_neg armed)

theorem step_records (stepped : RPCServer.step s event = some s') : Records s event s' := by
  cases event with
  | doCall =>
    have called := doCall_called stepped
    exact ⟨called.made,called.answered.trans (List.append_nil _).symm,called.expired.trans (List.append_nil _).symm⟩
  | response mtid listeners => exact response_records stepped
  | timeout c => exact callTimeout_records stepped
  | doQueuedCalls => exact (doQueuedFrom_makes stepped).records rfl rfl rfl

theorem run_made (events : List RPCEvent) (ran : RPCServer.run s events = some s') : s'.made = s.made + s.asked events := by
  induction events generalizing s with
  | nil =>
    cases ran
    rfl
  | cons event rest ih =>
    obtain ⟨s₁,first,others⟩ := Option.bind_eq_some_iff.mp ran
    rw [RPCServer.asked,first,ih others,(step_records first).made,Nat.add_assoc]
    rfl

-- The calls that wait for an answer have different mtids of one byte, and their requests
-- carry them; the calls that were queued go out in that order, and none waits while an mtid
-- is free; each call waits for its answer, is in the queue or has been completed, in one
-- place only.
structure CallsKept (s : RPCServer) : Prop where
  oneByte : ∀ e ∈ s.calls, ∃ b, e.1 = [b] ∧ s.mtidOf e.2 = [b]
  distinct : (s.calls.map (·.1)).Nodup
  most : s.calls.length ≤ 256
  order : s.queued = s.sent.filter (· ∈ s.queued) ++ s.callQueue
  sentOnce : s.sent.Nodup
  waiting : s.callQueue ≠ [] → ∀ b, s.contains [b] = true
  places : (s.outstanding ++ (s.callQueue ++ (s.answered ++ s.expired))).Perm (List.range s.made)

theorem outstanding_nodup (core : Core s q) : s.outstanding.Nodup := by
  refine (List.Nodup.of_map _ core.distinct).map_on fun e member e' member' same => ?_
  obtain ⟨b,key,mtid⟩ := core.oneByte e member
  obtain ⟨b',key',mtid'⟩ := core.oneByte e' member'
  refine List.inj_on_of_nodup_map core.distinct member member' ?_
  rw [key,key',← mtid,← mtid',same]

theorem places_of_core (core : Core s q) : (s.outstanding ++ (q ++ (s.answered ++ s.expired))).Perm (List.range s.made) := by
  have queueOnce : q.Nodup := by
    have once := core.queuedOnce
    rw [core.order] at once
    exact (List.nodup_append.mp once).2.1
  have apart : (q ++ (s.answered ++ s.expired)).Nodup := by
    refine List.nodup_append.mpr ⟨queueOnce,core.once,?_⟩
    rintro c waiting _ done rfl
    exact core.unsent c waiting (core.doneSent c done)
  refine (List.perm_ext_iff_of_nodup (List.nodup_append.mpr ⟨outstanding_nodup core,apart,?_⟩) List.nodup_range).mpr fun c => ?_
  · rintro c there _ elsewhere rfl
    rcases List.mem_append.mp elsewhere with waiting | done
    · exact core.unsent c waiting (core.isSent c there)
    · exact core.notDone c there done
  · rw [List.mem_append,List.mem_append,List.mem_range]
    constructor
    · rintro (there | waiting | done)
      · exact core.made c (List.mem_append.mpr (.inl (core.isSent c there)))
      · have queued : c ∈ s.queued := by
          rw [core.order]
          exact List.mem_append.mpr (.inr waiting)
        exact core.made c (List.mem_append.mpr (.inr queued))
      · exact core.made c (List.mem_append.mpr (.inl (core.doneSent c done)))
    · intro less
      rcases core.all c less with sent | waiting
      · exact (core.kept c sent).imp_right .inr
      · exact .inr (.inl waiting)

theorem kept_of_bookkeeping (book : Bookkeeping s) : CallsKept s :=
  ⟨book.oneByte,book.distinct,calls_le book.toCore,book.order,book.sentOnce,book.waiting,places_of_core book.toCore⟩

theorem CallsKept.count (kept : CallsKept s) : s.calls.length + (s.callQueue.length + (s.answered.length + s.expired.length)) = s.made := by
  have length := kept.places.length_eq
  rw [List.length_append,List.length_append,List.length_append,List.length_range] at length
  rw [← List.length_map (·.2)]
  exact length

-- In every run the loops end, and the calls are those that the events make. The next call
-- takes a free mtid or the last place in the queue; the next event of any kind completes
-- the call it is for, and no other.
theorem calls_kept (events : List RPCEvent) : ∃ s, RPCServer.new.run events = some s ∧ CallsKept s ∧ s.made = RPCServer.new.asked events ∧
    (∃ s', s.doCall = some s' ∧ Called s s') ∧ ∀ event, ∃ s', s.step event = some s' ∧ Records s event s' := by
  obtain ⟨s,ran,book⟩ := run_bookkeeping new_bookkeeping events
  refine ⟨s,ran,kept_of_bookkeeping book,(run_made events ran).trans (Nat.zero_add _),?_,fun event => ?_⟩
  · obtain ⟨s',called,_⟩ := doCall_spec book
    exact ⟨s',called,doCall_called called⟩
  · obtain ⟨s',stepped,_⟩ := step_bookkeeping book event
    exact ⟨s',stepped,step_records stepped⟩

theorem run_concat (events : List RPCEvent) (event : RPCEvent) (s : RPCServer) :
    s.run (events ++ [event]) = (s.run events).bind (·.step event) := by
  induction events generalizing s with
  | nil => exact Option.bind_fun_some (s.step event)
  | cons first rest ih =>
    show (s.step first).bind _ = ((s.step first).bind fun s => s.run rest).bind _
    rw [Option.bind_assoc]
    exact congrArg _ (funext ih)

theorem replicate_doCall (n : Nat) (s : RPCServer) : s.run (List.replicate n .doCall) = s.doCalls n := by
  induction n generalizing s with
  | zero => rfl
  | succ n ih => exact congrArg (s.doCall.bind ·) (funext ih)

-- One call more than there are mtids: it waits, and goes out when one of them is answered.
theorem waiting_call_sent : ∃ s s', RPCServer.new.run (List.replicate 257 .doCall) = some s ∧ s.callQueue ≠ [] ∧
    s.step (.response [7] 0) = some s' ∧ s'.answered.length = 1 ∧ s'.calls.length = 256 ∧ s'.callQueue = [] := by
  obtain ⟨s,ran,kept,_,_,next⟩ := calls_kept (List.replicate 257 .doCall)
  obtain ⟨s',answered,records⟩ := next (.response [7] 0)
  obtain ⟨_,ran',kept',_⟩ := calls_kept (List.replicate 257 .doCall ++ [.response [7] 0])
  rw [run_concat,ran,Option.bind_some,answered] at ran'
  cases ran'
  have makes : Makes 257 RPCServer.new s := doCalls_makes ((replicate_doCall 257 .new).symm.trans ran)
  have made : s.made = 257 := makes.made
  have none_ : s.answered = [] ∧ s.expired = [] := ⟨makes.answered,makes.expired⟩
  have count := kept.count
  rw [made,none_.1,none_.2] at count
  have waits : s.callQueue ≠ [] := by
    intro empty
    have most := kept.most
    rw [empty] at count
    simp only [List.length_nil] at count
    omega
  obtain ⟨c,found⟩ : ∃ c, s.find [7] = some c := by
    obtain ⟨⟨mtid,c⟩,member,key⟩ := List.mem_map.mp ((contains_iff s).mp (kept.waiting waits 7))
    have key : mtid = [7] := key
    subst key
    exact ⟨c,find_of_mem kept.distinct member⟩
  have one : s'.answered.length = 1 := by
    rw [records.answered,none_.1,RPCServer.answers,found]
    rfl
  have count' := kept'.count
  have asked : s'.made = 257 := by
    rw [records.made,made,RPCServer.asks,found]
    rfl
  have expired : s'.expired = [] := by
    rw [records.expired,none_.2]
    rfl
  rw [asked,one,expired] at count'
  have most := kept'.most
  simp only [List.length_nil] at count'
  have queue : s'.callQueue = [] := by
    by_contra waiting
    have full := length_of_full (kept'.waiting waiting)
    have some_ := List.length_pos_iff.mpr waiting
    omega
  rw [queue,List.length_nil] at count'
  exact ⟨s,s',ran,waits,answered,one,by omega,queue⟩

end KtorrentStream.Dht
