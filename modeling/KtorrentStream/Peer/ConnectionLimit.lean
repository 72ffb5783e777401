import Mathlib.Data.List.Count
import KtorrentStream.Util.PtrMapTotal
set_option autoImplicit true

namespace KtorrentStream.Peer
open Util

-- An info hash is its 20 bytes read as one number. The counts are Uint32, which is the
-- same while fewer than 2^32 tokens are out.
structure ConnectionLimit where
  globalLimit : Nat
  globalTotal : Nat
  torrentLimit : Nat
  torrentTotals : PtrMap Nat

namespace ConnectionLimit

-- system is SystemConnectionLimit().
def new (system : Nat) : ConnectionLimit := ⟨system,0,0,PtrMap.empty⟩

def setLimits (c : ConnectionLimit) (system globalLimit torrentLimit : Nat) : ConnectionLimit := {c with
  globalLimit := if globalLimit > system then system else globalLimit,
  torrentLimit}

-- None is the null Token::Ptr: nothing has changed then.
def acquire (c : ConnectionLimit) (hash : Nat) : Option ConnectionLimit :=
  if c.globalLimit ≠ 0 ∧ c.globalTotal ≥ c.globalLimit then none
  else match c.torrentTotals.find hash with
    | none => some {c with
        torrentTotals := c.torrentTotals.insert hash 1,
        globalTotal := c.globalTotal + 1}
    | some value =>
      if c.torrentLimit = 0 ∨ value < c.torrentLimit then some {c with
        torrentTotals := c.torrentTotals.insert hash (value + 1),
        globalTotal := c.globalTotal + 1}
      else none

def release (c : ConnectionLimit) (hash : Nat) : ConnectionLimit :=
  match c.torrentTotals.find hash with
  | none => c
  | some value =>
    let value := if value > 0 then value - 1 else value
    {c with
      torrentTotals := if value = 0 then c.torrentTotals.erase hash else c.torrentTotals.insert hash value,
      globalTotal := if c.globalTotal > 0 then c.globalTotal - 1 else c.globalTotal}

-- How many tokens of a torrent are counted.
def torrentTotal (c : ConnectionLimit) (hash : Nat) : Nat := c.torrentTotals.part id hash

-- Both limits leave room for one more token; a limit of 0 is none.
def Room (c : ConnectionLimit) (hash : Nat) : Prop :=
  (c.globalLimit = 0 ∨ c.globalTotal < c.globalLimit) ∧ (c.torrentLimit = 0 ∨ c.torrentTotal hash < c.torrentLimit)

def Within (c : ConnectionLimit) (hash : Nat) : Prop :=
  (c.globalLimit = 0 ∨ c.globalTotal ≤ c.globalLimit) ∧ (c.torrentLimit = 0 ∨ c.torrentTotal hash ≤ c.torrentLimit)

end ConnectionLimit

-- The limit with the tokens that are out, each with its torrent.
structure Connections where
  limit : ConnectionLimit
  tokens : List Nat

inductive LimitEvent
  | acquire (hash : Nat)
  | destroy (token : Nat)
  | setLimits (system globalLimit torrentLimit : Nat)

def LimitEvent.sets : LimitEvent → Bool
  | .setLimits _ _ _ => true
  | _ => false

namespace Connections

def new (system : Nat) : Connections := ⟨.new system,[]⟩

-- The destructor of a token releases it.
def step (s : Connections) : LimitEvent → Connections
  | .acquire hash => match s.limit.acquire hash with
    | none => s
    | some limit => ⟨limit,hash :: s.tokens⟩
  | .destroy token => match s.tokens[token]? with
    | none => s
    | some hash => ⟨s.limit.release hash,s.tokens.eraseIdx token⟩
  | .setLimits system globalLimit torrentLimit => {s with limit := s.limit.setLimits system globalLimit torrentLimit}

def run (s : Connections) (events : List LimitEvent) : Connections := events.foldl step s

-- Every torrent has the count of its tokens, and an entry only while it has
-- some.
structure Counted (s : Connections) : Prop where
  global : s.limit.globalTotal = s.tokens.length
  torrent : ∀ hash, s.limit.torrentTotal hash = s.tokens.count hash
  positive : ∀ hash, s.limit.torrentTotals.find hash ≠ some 0

end Connections

namespace ConnectionLimit

variable {c c' : ConnectionLimit} {hash : Nat}

theorem torrentTotal_of_find (found : c.torrentTotals.find hash = some value) : c.torrentTotal hash = value := by
  simp [torrentTotal,PtrMap.part,found]

theorem torrentTotal_of_absent (absent : c.torrentTotals.find hash = none) : c.torrentTotal hash = 0 := by
  simp [torrentTotal,PtrMap.part,absent]

theorem acquire_cases (done : c.acquire hash = some c') : c.Room hash ∧ c' = {c with
    torrentTotals := c.torrentTotals.insert hash (c.torrentTotal hash + 1),
    globalTotal := c.globalTotal + 1} := by
  unfold acquire at done
  split at done
  · cases done
  rename_i open'
  have room : c.globalLimit = 0 ∨ c.globalTotal < c.globalLimit := by omega
  cases found : c.torrentTotals.find hash with
  | none =>
    have zero := torrentTotal_of_absent found
    simp only [found,Option.some.injEq] at done
    refine ⟨⟨room,?_⟩,?_⟩
    · rw [zero]
      omega
    · rw [zero,← done]
  | some value =>
    have total := torrentTotal_of_find found
    simp only [found] at done
    split at done
    · rename_i below
      refine ⟨⟨room,?_⟩,?_⟩
      · rw [total]
        exact below
      · rw [total]
        exact (Option.some.inj done).symm
    · cases done

theorem acquire_of_room (room : c.Room hash) : (c.acquire hash).isSome := by
  obtain ⟨global,torrent⟩ := room
  unfold acquire
  rw [if_neg (by omega)]
  cases found : c.torrentTotals.find hash with
  | none => rfl
  | some value =>
    rw [torrentTotal_of_find found] at torrent
    simp [torrent]

theorem acquire_within (done : c.acquire hash = some c') : c'.Within hash := by
  obtain ⟨⟨global,torrent⟩,rfl⟩ := acquire_cases done
  refine ⟨global,?_⟩
  simp only [torrentTotal,PtrMap.part,PtrMap.find_insert,if_true,Option.elim_some,id] at torrent ⊢
  exact torrent

theorem acquire_limits (done : c.acquire hash = some c') : c'.globalLimit = c.globalLimit ∧ c'.torrentLimit = c.torrentLimit := by
  obtain ⟨_,rfl⟩ := acquire_cases done
  exact ⟨rfl,rfl⟩

theorem release_limits (c : ConnectionLimit) (hash : Nat) :
    (c.release hash).globalLimit = c.globalLimit ∧ (c.release hash).torrentLimit = c.torrentLimit := by
  unfold release
  split <;> exact ⟨rfl,rfl⟩

theorem acquire_total (done : c.acquire hash = some c') (other : Nat) :
    c'.torrentTotal other = c.torrentTotal other + if other = hash then 1 else 0 := by
  obtain ⟨_,rfl⟩ := acquire_cases done
  simp only [torrentTotal,PtrMap.part,PtrMap.find_insert]
  by_cases same : other = hash
  · simp [same]
  · simp [same]

-- No count is below 0: a token's torrent has an entry, and both counts are
-- one less.
theorem release_cases (found : c.torrentTotals.find hash = some (value + 1)) (some' : 0 < c.globalTotal) :
    (c.release hash).globalTotal + 1 = c.globalTotal ∧
    ∀ other, (c.release hash).torrentTotals.find other =
      if other = hash then if value = 0 then none else some value else c.torrentTotals.find other := by
  unfold release
  simp only [found,Nat.zero_lt_succ,gt_iff_lt,if_true,Nat.add_sub_cancel,some']
  refine ⟨by omega,?_⟩
  intro other
  split
  · rw [PtrMap.find_erase]
  · rw [PtrMap.find_insert]

theorem release_total (found : c.torrentTotals.find hash = some (value + 1)) (some' : 0 < c.globalTotal) (other : Nat) :
    (c.release hash).torrentTotal other = c.torrentTotal other - if other = hash then 1 else 0 := by
  have now := (release_cases found some').2 other
  simp only [torrentTotal,PtrMap.part,now]
  by_cases same : other = hash
  · subst same
    simp only [if_true,found]
    split
    · rename_i zero
      simp [zero]
    · simp
  · simp [same]

end ConnectionLimit

namespace Connections

variable {s : Connections} {hash : Nat} {limit : ConnectionLimit}

theorem new_counted (system : Nat) : (new system).Counted := by
  refine ⟨rfl,?_,?_⟩
  · intro hash
    rfl
  · intro hash found
    cases found

theorem Counted.entry (counted : s.Counted) (live : hash ∈ s.tokens) :
    0 < s.limit.globalTotal ∧ ∃ value, s.limit.torrentTotals.find hash = some (value + 1) := by
  refine ⟨?_,?_⟩
  · rw [counted.global]
    exact List.length_pos_of_mem live
  · have total := counted.torrent hash
    have some' : 0 < s.tokens.count hash := List.count_pos_iff.mpr live
    cases found : s.limit.torrentTotals.find hash with
    | none =>
      rw [ConnectionLimit.torrentTotal_of_absent found] at total
      omega
    | some value =>
      rw [ConnectionLimit.torrentTotal_of_find found] at total
      exact ⟨value - 1,by congr 1; omega⟩

theorem acquire_counted (counted : s.Counted) (done : s.limit.acquire hash = some limit) :
    Counted ⟨limit,hash :: s.tokens⟩ := by
  refine ⟨?_,?_,?_⟩
  · obtain ⟨_,rfl⟩ := ConnectionLimit.acquire_cases done
    simp [counted.global]
  · intro other
    show limit.torrentTotal other = (hash :: s.tokens).count other
    rw [ConnectionLimit.acquire_total done,counted.torrent,List.count_cons]
    by_cases same : other = hash
    · simp [same]
    · simp [same,Ne.symm same]
  · obtain ⟨_,rfl⟩ := ConnectionLimit.acquire_cases done
    intro other found
    simp only [PtrMap.find_insert] at found
    split at found
    · simp at found
    · exact counted.positive other found

theorem count_eraseIdx {l : List Nat} (here : l[k]? = some hash) (other : Nat) :
    (l.eraseIdx k).count other = l.count other - if other = hash then 1 else 0 := by
  obtain ⟨inside,rfl⟩ := List.getElem?_eq_some_iff.mp here
  have all := (List.getElem_cons_eraseIdx_perm inside).count_eq other
  rw [List.count_cons] at all
  by_cases same : other = l[k]
  · simp only [same,beq_self_eq_true,if_true] at all ⊢
    omega
  · simp only [beq_iff_eq,Ne.symm same,same,if_false] at all ⊢
    omega

theorem destroy_counted (counted : s.Counted) (here : s.tokens[k]? = some hash) :
    Counted ⟨s.limit.release hash,s.tokens.eraseIdx k⟩ := by
  obtain ⟨some',value,found⟩ := counted.entry (List.mem_of_getElem? here)
  obtain ⟨global,torrents⟩ := ConnectionLimit.release_cases found some'
  refine ⟨?_,?_,?_⟩
  · have inside : k < s.tokens.length := (List.getElem?_eq_some_iff.mp here).1
    have all := counted.global
    rw [List.length_eraseIdx_of_lt inside]
    show (s.limit.release hash).globalTotal = _
    omega
  · intro other
    rw [count_eraseIdx here,← counted.torrent]
    exact ConnectionLimit.release_total found some' other
  · intro other entry
    rw [torrents other] at entry
    split at entry
    · split at entry
      · cases entry
      · rename_i positive
        exact positive (Option.some.inj entry)
    · exact counted.positive other entry

theorem step_counted (counted : s.Counted) (event : LimitEvent) : (s.step event).Counted := by
  cases event with
  | acquire hash =>
    simp only [step]
    cases done : s.limit.acquire hash with
    | none => exact counted
    | some limit => exact acquire_counted counted done
  | destroy token =>
    simp only [step]
    cases here : s.tokens[token]? with
    | none => exact counted
    | some hash => exact destroy_counted counted here
  | setLimits system globalLimit torrentLimit => exact ⟨counted.global,counted.torrent,counted.positive⟩

theorem run_counted (counted : s.Counted) (events : List LimitEvent) : (s.run events).Counted := by
  induction events generalizing s with
  | nil => exact counted
  | cons event rest ih => exact ih (step_counted counted event)

-- Only setLimits changes the limits.
theorem run_limits (s : Connections) (events : List LimitEvent) (kept : ∀ event ∈ events, event.sets = false) :
    (s.run events).limit.globalLimit = s.limit.globalLimit ∧ (s.run events).limit.torrentLimit = s.limit.torrentLimit := by
  induction events generalizing s with
  | nil => exact ⟨rfl,rfl⟩
  | cons event rest ih =>
    have later := ih (s.step event) fun e member => kept e (List.mem_cons_of_mem _ member)
    have now : (s.step event).limit.globalLimit = s.limit.globalLimit ∧ (s.step event).limit.torrentLimit = s.limit.torrentLimit := by
      cases event with
      | acquire hash =>
        unfold step
        dsimp only
        split
        · exact ⟨rfl,rfl⟩
        · rename_i limit done
          exact ConnectionLimit.acquire_limits done
      | destroy token =>
        unfold step
        dsimp only
        split
        · exact ⟨rfl,rfl⟩
        · exact s.limit.release_limits _
      | setLimits system globalLimit torrentLimit => cases kept _ List.mem_cons_self
    exact ⟨later.1.trans now.1,later.2.trans now.2⟩

theorem Counted.total (counted : s.Counted) : s.limit.torrentTotals.total id = s.tokens.length := by
  have inside : s.limit.torrentTotals.keySet ⊆ s.tokens.toFinset := by
    intro hash member
    obtain ⟨value,found⟩ := PtrMap.mem_keySet.mp member
    have total := counted.torrent hash
    rw [ConnectionLimit.torrentTotal_of_find found] at total
    have positive : value ≠ 0 := fun zero => counted.positive hash (by rw [found,zero])
    exact List.mem_toFinset.mpr (List.count_pos_iff.mp (by omega))
  rw [PtrMap.total_sum inside]
  calc ∑ hash ∈ s.tokens.toFinset, s.limit.torrentTotal hash
      = ∑ hash ∈ s.tokens.toFinset, s.tokens.count hash := Finset.sum_congr rfl fun hash _ => counted.torrent hash
    _ = s.tokens.length := List.sum_toFinset_count_eq_length s.tokens

theorem connections_counted (system : Nat) (events : List LimitEvent) :
    let s := (new system).run events
    (s.limit.globalTotal = s.limit.torrentTotals.total id ∧ s.limit.globalTotal = s.tokens.length) ∧
    (∀ hash ∈ s.tokens, (s.limit.release hash).globalTotal + 1 = s.limit.globalTotal ∧
      (s.limit.release hash).torrentTotal hash + 1 = s.limit.torrentTotal hash) ∧
    (∀ hash limit, s.limit.acquire hash = some limit → limit.Within hash) ∧
    (∀ hash, s.limit.Room hash → (s.limit.acquire hash).isSome) ∧
    ((∀ event ∈ events, event.sets = false) → s.limit.globalLimit = system ∧ s.limit.torrentLimit = 0) ∧
    ∀ before after now globalLimit torrentLimit, events = before ++ .setLimits now globalLimit torrentLimit :: after →
      (∀ event ∈ after, event.sets = false) → s.limit.globalLimit = min globalLimit now ∧ s.limit.torrentLimit = torrentLimit := by
  intro s
  have counted : s.Counted := run_counted (new_counted system) events
  refine ⟨⟨counted.global.trans counted.total.symm,counted.global⟩,?_,?_,?_,run_limits (new system) events,?_⟩
  · intro hash live
    obtain ⟨some',value,found⟩ := counted.entry live
    refine ⟨(ConnectionLimit.release_cases found some').1,?_⟩
    rw [ConnectionLimit.release_total found some',ConnectionLimit.torrentTotal_of_find found]
    simp
  · intro hash limit
    exact ConnectionLimit.acquire_within
  · intro hash
    exact ConnectionLimit.acquire_of_room
  · rintro before after now globalLimit torrentLimit rfl kept
    have limits := run_limits (((new system).run before).step (.setLimits now globalLimit torrentLimit)) after kept
    have split : s = (((new system).run before).step (.setLimits now globalLimit torrentLimit)).run after := List.foldl_append
    rw [split,limits.1,limits.2]
    refine ⟨?_,rfl⟩
    show (if globalLimit > now then now else globalLimit) = min globalLimit now
    split <;> omega

end Connections

end KtorrentStream.Peer
