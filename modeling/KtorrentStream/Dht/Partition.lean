import Mathlib.Data.List.Infix
import KtorrentStream.Dht.KBucketTable
import KtorrentStream.Dht.BucketNodes
set_option autoImplicit true

namespace KtorrentStream.Dht
open KtorrentStream.Net

namespace KBucket

-- What the operations on one bucket can do: the range stays, and a node can only come
-- from the entries, from those that wait, or from outside (extra).
structure Moves (extra : List (Address × Key)) (b after : KBucket) : Prop where
  minKey : after.minKey = b.minKey
  maxKey : after.maxKey = b.maxKey
  ourId : after.ourId = b.ourId
  inside : nodes after.entries ⊆ nodes b.entries ++ nodes b.waiting ++ extra
  waits : nodes after.waiting ⊆ nodes b.waiting ++ extra
  atMost : b.entries.length ≤ K → after.entries.length ≤ K

theorem moves_refl (extra : List (Address × Key)) (b : KBucket) : Moves extra b b :=
  ⟨rfl,rfl,rfl,by simp [List.append_assoc],by simp,id⟩

theorem moves_trans {extra : List (Address × Key)} {a b c : KBucket} (first : Moves extra a b) (second : Moves extra b c) :
    Moves extra a c := by
  refine ⟨second.minKey.trans first.minKey,second.maxKey.trans first.maxKey,second.ourId.trans first.ourId,?_,?_,?_⟩
  · intro n member
    have there := second.inside member
    simp only [List.mem_append] at there
    rcases there with (there | there) | there
    · exact first.inside there
    · have := first.waits there
      simp only [List.mem_append] at this ⊢
      rcases this with this | this
      · exact .inl (.inr this)
      · exact .inr this
    · exact List.mem_append_right _ there
  · intro n member
    rcases List.mem_append.mp (second.waits member) with there | there
    · exact first.waits there
    · exact List.mem_append_right _ there
  · exact fun few => second.atMost (first.atMost few)

theorem moves_waiting {b after : KBucket} {n : Address × Key} (moves : Moves [n] b after) (waits : n ∈ nodes b.waiting) :
    Moves [] b after := by
  refine ⟨moves.minKey,moves.maxKey,moves.ourId,?_,?_,moves.atMost⟩
  · intro k member
    have there := moves.inside member
    simp only [List.mem_append,List.mem_singleton,List.not_mem_nil,or_false] at there ⊢
    rcases there with there | rfl
    · exact there
    · exact .inr waits
  · intro k member
    have there := moves.waits member
    simp only [List.mem_append,List.mem_singleton,List.not_mem_nil,or_false] at there ⊢
    rcases there with there | rfl
    · exact there
    · exact waits

theorem length_replace {gone : KBucketEntry → Bool} {l : List KBucketEntry} (found : l.any gone = true) (x : KBucketEntry) :
    (l.eraseP gone ++ [x]).length = l.length := by
  obtain ⟨e,member,picked⟩ := List.any_eq_true.mp found
  have shorter := List.length_eraseP_of_mem member picked
  have some := List.length_pos_of_mem member
  rw [List.length_append,shorter,List.length_singleton]
  omega

theorem nodes_replace {gone : KBucketEntry → Bool} {l : List KBucketEntry} {x : KBucketEntry}
    (member : n ∈ nodes (l.eraseP gone ++ [x])) : n ∈ nodes l ∨ n = x.node := by
  rw [nodes,List.map_append] at member
  rcases List.mem_append.mp member with old | new
  · exact .inl ((List.eraseP_sublist.map _).subset old)
  · exact .inr (List.mem_singleton.mp new)

theorem replaced_moves {gone : KBucketEntry → Bool} {b : KBucket} (found : b.entries.any gone = true) (x : KBucketEntry) :
    Moves [x.node] b {b with entries := b.entries.eraseP gone ++ [x]} := by
  refine ⟨rfl,rfl,rfl,?_,List.subset_append_left _ _,?_⟩
  · intro n member
    rcases nodes_replace member with old | rfl
    · exact List.mem_append_left _ (List.mem_append_left _ old)
    · exact List.mem_append_right _ (List.mem_singleton_self _)
  · intro few
    exact (length_replace found x).symm ▸ few

theorem replaceBadEntry_moves {now : Nat} {b after : KBucket} (replaced : b.replaceBadEntry now entry = some after) :
    Moves [entry.node] b after := by
  unfold replaceBadEntry at replaced
  split at replaced
  · rename_i bad
    cases replaced
    exact replaced_moves bad entry
  · cases replaced

theorem nodes_length {l after : List KBucketEntry} (same : nodes after = nodes l) : after.length = l.length := by
  have lengths := congrArg List.length same
  simpa [nodes] using lengths

theorem pingQuestionable_moves (now : Nat) (b : KBucket) (calls : Nat) (entry : KBucketEntry) :
    Moves [entry.node] b (b.pingQuestionable now calls entry).1 := by
  unfold pingQuestionable
  split
  · refine ⟨rfl,rfl,rfl,?_,?_,id⟩
    · exact fun n member => List.mem_append_left _ (List.mem_append_left _ member)
    · intro n member
      simpa [nodes,waiting,or_assoc] using member
  · cases pinged : pingFirst now b.entries with
    | none => exact moves_refl _ b
    | some result =>
      have same := pingFirst_nodes pinged
      refine ⟨rfl,rfl,rfl,?_,?_,?_⟩
      · intro n member
        exact List.mem_append_left _ (List.mem_append_left _ (same ▸ member))
      · intro n member
        simp only [nodes,waiting,List.map_append,List.map_cons,List.map_nil,List.mem_append,List.mem_singleton] at member ⊢
        tauto
      · exact fun few => (nodes_length same).symm ▸ few

theorem replaceOrPing_moves (now : Nat) (b : KBucket) (calls : Nat) (entry : KBucketEntry) :
    Moves [entry.node] b (b.replaceOrPing now calls entry).1 := by
  unfold replaceOrPing
  cases replaced : b.replaceBadEntry now entry with
  | some after => exact replaceBadEntry_moves replaced
  | none => exact pingQuestionable_moves now b calls entry

theorem insert_moves (now : Nat) (b : KBucket) (calls : Nat) (entry : KBucketEntry) :
    Moves [entry.node] b (b.insert now calls entry).1 := by
  unfold KBucket.insert
  by_cases found : b.entries.any (·.same entry) = true
  · rw [if_pos found]
    exact replaced_moves found entry
  rw [if_neg found]
  by_cases room : b.entries.length < K
  · rw [if_pos room]
    refine ⟨rfl,rfl,rfl,?_,List.subset_append_left _ _,?_⟩
    · intro n member
      rw [nodes,List.map_append] at member
      rcases List.mem_append.mp member with old | new
      · exact List.mem_append_left _ (List.mem_append_left _ old)
      · exact List.mem_append_right _ new
    · intro _
      rw [List.length_append]
      exact room
  rw [if_neg room]
  cases replaced : b.replaceBadEntry now entry with
  | some after => exact replaceBadEntry_moves replaced
  | none =>
    by_cases full : b.entries.length = K ∧ b.splitAllowed
    · simp only [full,and_self,if_true]
      exact moves_refl _ b
    · simp only [full,if_false]
      exact pingQuestionable_moves now b calls entry

-- A split is asked for only where it is allowed, and then the bucket is as it was.
theorem insert_full {now calls : Nat} {b : KBucket} {entry : KBucketEntry} (full : (b.insert now calls entry).2.2 = true) :
    b.keyInRange b.ourId = true := by
  unfold KBucket.insert at full
  split at full
  · cases full
  split at full
  · cases full
  cases replaced : b.replaceBadEntry now entry with
  | some after => rw [replaced] at full; cases full
  | none =>
    rw [replaced] at full
    by_cases allowed : b.entries.length = K ∧ b.splitAllowed
    · have split := allowed.2
      unfold splitAllowed at split
      by_cases ours : b.keyInRange b.ourId = true
      · exact ours
      · simp [ours] at split
    · simp only [allowed,if_false] at full
      cases full

theorem find_waits {b : KBucket} {c : Nat} {ping : BusyPing} (busy : b.busyPinging.find? (·.call == c) = some ping) :
    ping.entry.node ∈ nodes b.waiting :=
  List.mem_map_of_mem (List.mem_append_left _ (List.mem_map_of_mem (List.mem_of_find?_eq_some busy)))

theorem filter_moves (b : KBucket) (c : Nat) : Moves [] b {b with busyPinging := b.busyPinging.filter (·.call != c)} := by
  refine ⟨rfl,rfl,rfl,?_,?_,id⟩
  · exact fun n member => List.mem_append_left _ (List.mem_append_left _ member)
  · intro n member
    rw [List.append_nil]
    refine ((List.Sublist.append ?_ (List.Sublist.refl _)).map _).subset member
    exact List.filter_sublist.map _

theorem moves_more (moves : Moves [] b after) (extra : List (Address × Key)) : Moves extra b after := by
  refine ⟨moves.minKey,moves.maxKey,moves.ourId,?_,?_,moves.atMost⟩
  · intro n member
    have there := moves.inside member
    rw [List.append_nil] at there
    exact List.mem_append_left _ there
  · intro n member
    have there := moves.waits member
    rw [List.append_nil] at there
    exact List.mem_append_left _ there

theorem onResponse_moves (now : Nat) (b : KBucket) (calls c : Nat) : Moves [] b (b.onResponse now calls c).1 := by
  unfold onResponse
  cases busy : b.busyPinging.find? (·.call == c) with
  | none => exact moves_refl _ b
  | some ping =>
    refine moves_waiting (moves_trans (moves_more (filter_moves b c) _) ?_) (find_waits busy)
    exact replaceOrPing_moves now _ calls ping.entry

theorem nextPending_moves (now : Nat) (b : KBucket) (calls : Nat) : Moves [] b (b.nextPending now calls).1 := by
  unfold nextPending
  split
  · cases pending : b.pendingEntries with
    | nil => exact moves_refl _ b
    | cons entry rest =>
      have there : entry.node ∈ nodes b.waiting := by simp [nodes,waiting,pending]
      have shorter : Moves [entry.node] b {b with pendingEntries := rest} := by
        refine ⟨rfl,rfl,rfl,?_,?_,id⟩
        · exact fun n member => List.mem_append_left _ (List.mem_append_left _ member)
        · intro n member
          simp only [nodes,waiting,pending,List.map_append,List.map_cons,List.mem_append,List.mem_cons] at member ⊢
          tauto
      exact moves_waiting (moves_trans shorter (replaceOrPing_moves now _ calls entry)) there
  · exact moves_refl _ b

theorem replaceTimedOut_moves (b : KBucket) (ping : BusyPing) :
    Moves [ping.entry.node] b {b with entries := b.replaceTimedOut ping} := by
  unfold replaceTimedOut
  split
  · rename_i found
    exact replaced_moves found ping.entry
  · exact moves_refl _ b

theorem onTimeoutCall_moves (now : Nat) (b : KBucket) (calls c : Nat) : Moves [] b (b.onTimeoutCall now calls c).1 := by
  unfold onTimeoutCall
  cases busy : b.busyPinging.find? (·.call == c) with
  | none => exact moves_refl _ b
  | some ping =>
    have replaced := moves_waiting (replaceTimedOut_moves b ping) (find_waits busy)
    have ended := filter_moves {b with entries := b.replaceTimedOut ping} c
    exact moves_trans replaced (moves_trans ended (nextPending_moves now _ calls))

theorem onTimeout_moves {b after : KBucket} (found : b.onTimeout addr = some after) : Moves [] b after := by
  obtain ⟨l,timed,rfl⟩ := Option.map_eq_some_iff.mp found
  have same := timeoutFirst_nodes timed
  refine ⟨rfl,rfl,rfl,?_,List.subset_append_left _ _,?_⟩
  · exact fun n member => List.mem_append_left _ (List.mem_append_left _ (same ▸ member))
  · exact fun few => (nodes_length same).symm ▸ few

-- Nothing in the bucket, and nothing that waits for it, is outside its range.
structure Valid (b : KBucket) : Prop where
  inside : ∀ n ∈ nodes b.entries, b.keyInRange n.2 = true
  waits : ∀ n ∈ nodes b.waiting, b.keyInRange n.2 = true
  atMost : b.entries.length ≤ K

theorem new_valid (minKey maxKey ourId : Key) : (new minKey maxKey ourId).Valid :=
  ⟨fun _ member => (nomatch member),fun _ member => (nomatch member),Nat.zero_le _⟩

theorem keyInRange_iff (b : KBucket) (k : Key) :
    b.keyInRange k = true ↔ b.minKey.toNat ≤ k.toNat ∧ k.toNat ≤ b.maxKey.toNat := by
  rw [keyInRange,Bool.and_eq_true,Key.le_iff,Key.le_iff]

theorem moves_range (moves : Moves extra b after) (k : Key) : after.keyInRange k = b.keyInRange k := by
  rw [keyInRange,keyInRange,moves.minKey,moves.maxKey]

theorem moves_valid {b after : KBucket} (moves : Moves extra b after) (valid : b.Valid)
    (outside : ∀ n ∈ extra, b.keyInRange n.2 = true) : after.Valid := by
  refine ⟨?_,?_,moves.atMost valid.atMost⟩
  · intro n member
    rw [moves_range moves]
    have there := moves.inside member
    simp only [List.mem_append] at there
    rcases there with (there | there) | there
    · exact valid.inside n there
    · exact valid.waits n there
    · exact outside n there
  · intro n member
    rw [moves_range moves]
    rcases List.mem_append.mp (moves.waits member) with there | there
    · exact valid.waits n there
    · exact outside n there

theorem insert_valid (now : Nat) {b : KBucket} (calls : Nat) {entry : KBucketEntry} (valid : b.Valid)
    (inRange : b.keyInRange entry.nodeId = true) : (b.insert now calls entry).1.Valid := by
  refine moves_valid (insert_moves now b calls entry) valid ?_
  intro n member
  rw [List.mem_singleton.mp member]
  exact inRange

-- A half of a bucket, with its range.
structure Half (minKey maxKey ourId : Key) (b : KBucket) : Prop where
  minKey : b.minKey = minKey
  maxKey : b.maxKey = maxKey
  ourId : b.ourId = ourId
  valid : b.Valid

variable {ourId : Key}

theorem new_half (minKey maxKey ourId : Key) : Half minKey maxKey ourId (new minKey maxKey ourId) :=
  ⟨rfl,rfl,rfl,new_valid minKey maxKey ourId⟩

theorem insert_half {b : KBucket} (now calls : Nat) {entry : KBucketEntry} (half : Half lowest highest ourId b)
    (inRange : b.keyInRange entry.nodeId = true) : Half lowest highest ourId (b.insert now calls entry).1 := by
  have moves := insert_moves now b calls entry
  exact ⟨moves.minKey.trans half.minKey,moves.maxKey.trans half.maxKey,moves.ourId.trans half.ourId,
    insert_valid now calls half.valid inRange⟩

theorem distribute_halves (now calls : Nat) {left right : KBucket} (l : List KBucketEntry)
    (leftHalf : Half lowest middle ourId left) (rightHalf : Half next highest ourId right)
    (covered : ∀ e ∈ l, left.keyInRange e.nodeId = true ∨ right.keyInRange e.nodeId = true) :
    Half lowest middle ourId (distribute now calls left right l).1 ∧
    Half next highest ourId (distribute now calls left right l).2.1 := by
  induction l generalizing left right calls with
  | nil => exact ⟨leftHalf,rightHalf⟩
  | cons e rest ih =>
    have later : ∀ e ∈ rest, left.keyInRange e.nodeId = true ∨ right.keyInRange e.nodeId = true :=
      fun e member => covered e (List.mem_cons_of_mem _ member)
    unfold distribute
    by_cases inLeft : left.keyInRange e.nodeId = true
    · rw [if_pos inLeft]
      have range := moves_range (insert_moves now left calls e)
      exact ih _ (insert_half now calls leftHalf inLeft) rightHalf fun e member => range e.nodeId ▸ later e member
    · rw [if_neg inLeft]
      have inRight := (covered e List.mem_cons_self).resolve_left inLeft
      have range := moves_range (insert_moves now right calls e)
      exact ih _ leftHalf (insert_half now calls rightHalf inRight) fun e member => range e.nodeId ▸ later e member

-- The middle is at least one key above the lowest and two keys below the highest: that is
-- what UnableToSplit leaves, whatever splitAllowed has computed.
theorem split_halves {now calls : Nat} {b left right : KBucket} (valid : b.Valid)
    (range : b.minKey.toNat ≤ b.maxKey.toNat) (done : b.split now calls = some (left,right,after)) :
    ∃ middle next, next.toNat = middle.toNat + 1 ∧ b.minKey.toNat < middle.toNat ∧ next.toNat < b.maxKey.toNat ∧
      Half b.minKey middle b.ourId left ∧ Half next b.maxKey b.ourId right := by
  unfold split at done
  dsimp only at done
  split at done
  · cases done
  rename_i apart
  have half := Key.mid_toNat range
  generalize middleIs : Key.mid b.minKey b.maxKey = middle at done apart half
  have notLowest : middle.toNat ≠ b.minKey.toNat := fun same => apart (.inl (Key.toNat_inj same))
  have nextIs := Key.addByte_toNat middle 1
  have notHighest : (middle.addByte 1).toNat ≠ b.maxKey.toNat := fun same => apart (.inr (Key.toNat_inj same))
  generalize middle.addByte 1 = next at done apart nextIs notHighest
  have bound := Key.toNat_lt b.maxKey
  have one : (1 : UInt8).toNat = 1 := rfl
  rw [one,Nat.mod_eq_of_lt (by omega)] at nextIs
  have covered : ∀ e ∈ b.entries, (new b.minKey middle b.ourId).keyInRange e.nodeId = true ∨
      (new next b.maxKey b.ourId).keyInRange e.nodeId = true := by
    intro e member
    have inRange := (keyInRange_iff b e.nodeId).mp (valid.inside e.node (List.mem_map_of_mem member))
    rw [keyInRange_iff,keyInRange_iff]
    show (b.minKey.toNat ≤ _ ∧ _ ≤ middle.toNat) ∨ (next.toNat ≤ _ ∧ _ ≤ b.maxKey.toNat)
    omega
  have halves := distribute_halves now calls b.entries (new_half b.minKey middle b.ourId)
    (new_half next b.maxKey b.ourId) covered
  rw [Option.some.inj done] at halves
  exact ⟨middle,next,nextIs,by omega,by omega,halves.1,halves.2⟩

end KBucket

namespace KBucketTable
open KBucket

-- The buckets follow each other from the key lo on to the last key of all.
def Chain (ourId : Key) : Nat → List KBucket → Prop
  | lo,[] => lo = Key.count
  | lo,b :: rest => b.minKey.toNat = lo ∧ lo ≤ b.maxKey.toNat ∧ b.ourId = ourId ∧ b.Valid ∧
      Chain ourId (b.maxKey.toNat + 1) rest

variable {ourId : Key} {buckets rest : List KBucket}

theorem half_chain {b : KBucket} (half : Half lowest highest ourId b) (range : lowest.toNat ≤ highest.toNat)
    (follows : Chain ourId (highest.toNat + 1) rest) : Chain ourId lowest.toNat (b :: rest) := by
  refine ⟨congrArg Key.toNat half.minKey,?_,half.ourId,half.valid,?_⟩
  · rw [half.maxKey]
    exact range
  · rw [half.maxKey]
    exact follows

theorem moves_chain {b after : KBucket} (moves : Moves extra b after) (outside : ∀ n ∈ extra, b.keyInRange n.2 = true)
    (chain : Chain ourId lo (b :: rest)) : Chain ourId lo (after :: rest) := by
  obtain ⟨starts,range,ours,valid,follows⟩ := chain
  have half : Half b.minKey b.maxKey ourId after :=
    ⟨moves.minKey,moves.maxKey,moves.ourId.trans ours,moves_valid moves valid outside⟩
  rw [← starts] at range ⊢
  exact half_chain half range follows

theorem insertSplit_chain (now calls : Nat) {entry : KBucketEntry} {b : KBucket}
    (inRange : b.keyInRange entry.nodeId = true) (chain : Chain ourId lo (b :: rest)) :
    Chain ourId lo ((insertSplit now calls entry b).1 ++ rest) := by
  unfold insertSplit
  cases done : b.split now calls with
  | none => exact chain
  | some result =>
    obtain ⟨left,right,after⟩ := result
    obtain ⟨starts,range,ours,valid,follows⟩ := chain
    obtain ⟨middle,next,nextIs,low,high,leftHalf,rightHalf⟩ := split_halves valid (starts ▸ range) done
    rw [ours] at leftHalf rightHalf
    rw [← starts]
    have ends : next.toNat ≤ b.maxKey.toNat := Nat.le_of_lt high
    by_cases inLeft : left.keyInRange entry.nodeId = true
    · simp only [inLeft,if_true]
      refine half_chain (insert_half now after leftHalf inLeft) (Nat.le_of_lt low) ?_
      rw [← nextIs]
      exact half_chain rightHalf ends follows
    · simp only [inLeft]
      have inRight : right.keyInRange entry.nodeId = true := by
        have whole := (keyInRange_iff b entry.nodeId).mp inRange
        have below := (keyInRange_iff left entry.nodeId).not.mp inLeft
        rw [keyInRange_iff,rightHalf.minKey,rightHalf.maxKey]
        rw [leftHalf.minKey,leftHalf.maxKey] at below
        omega
      refine half_chain leftHalf (Nat.le_of_lt low) ?_
      rw [← nextIs]
      exact half_chain (insert_half now after rightHalf inRight) ends follows

theorem insertBucket_chain (now calls : Nat) {entry : KBucketEntry} {b : KBucket}
    (inRange : b.keyInRange entry.nodeId = true) (chain : Chain ourId lo (b :: rest)) :
    Chain ourId lo ((insertBucket now calls entry b).1 ++ rest) := by
  have moves := insert_moves now b calls entry
  have inserted : Chain ourId lo ((b.insert now calls entry).1 :: rest) := by
    refine moves_chain moves ?_ chain
    intro n member
    rw [List.mem_singleton.mp member]
    exact inRange
  unfold insertBucket
  by_cases full : (b.insert now calls entry).2.2 = true
  · simp only [full,if_true]
    refine insertSplit_chain now _ ?_ inserted
    rw [moves_range moves]
    exact inRange
  · simp only [full]
    exact inserted

theorem insertFirst_chain (now calls : Nat) (entry : KBucketEntry) (chain : Chain ourId lo buckets) :
    Chain ourId lo (insertFirst now calls entry buckets).1 := by
  induction buckets generalizing lo with
  | nil => exact chain
  | cons b rest ih =>
    unfold insertFirst
    by_cases inRange : b.keyInRange entry.nodeId = true
    · rw [if_pos inRange]
      exact insertBucket_chain now calls inRange chain
    · rw [if_neg inRange]
      obtain ⟨starts,range,ours,valid,follows⟩ := chain
      exact ⟨starts,range,ours,valid,ih follows⟩

theorem tellListener_chain {react : KBucket → KBucket × Nat} (moves : ∀ b, Moves [] b (react b).1) (c calls : Nat)
    (chain : Chain ourId lo buckets) : Chain ourId lo (tellListener c react calls buckets).1 := by
  induction buckets generalizing lo with
  | nil => exact chain
  | cons b rest ih =>
    unfold tellListener
    split
    · exact moves_chain (moves b) (fun n member => by cases member) chain
    · obtain ⟨starts,range,ours,valid,follows⟩ := chain
      exact ⟨starts,range,ours,valid,ih follows⟩

theorem timeoutIn_chain (addr : Address) (chain : Chain ourId lo buckets) : Chain ourId lo (timeoutIn addr buckets) := by
  induction buckets generalizing lo with
  | nil => exact chain
  | cons b rest ih =>
    unfold timeoutIn
    cases found : b.onTimeout addr with
    | some after => exact moves_chain (onTimeout_moves found) (fun n member => by cases member) chain
    | none =>
      obtain ⟨starts,range,ours,valid,follows⟩ := chain
      exact ⟨starts,range,ours,valid,ih follows⟩

-- A bucket without our own id is there afterwards with the same range.
def Kept (ourId : Key) (before after : List KBucket) : Prop :=
  ∀ b ∈ before, b.keyInRange ourId = false → ∃ b' ∈ after, b'.minKey = b.minKey ∧ b'.maxKey = b.maxKey

theorem kept_refl (ourId : Key) (buckets : List KBucket) : Kept ourId buckets buckets :=
  fun b member _ => ⟨b,member,rfl,rfl⟩

theorem kept_cons (b : KBucket) (kept : Kept ourId rest after) : Kept ourId (b :: rest) (b :: after) := by
  intro a member apart
  rcases List.mem_cons.mp member with rfl | member
  · exact ⟨a,List.mem_cons_self,rfl,rfl⟩
  · obtain ⟨a',member',same⟩ := kept a member apart
    exact ⟨a',List.mem_cons_of_mem _ member',same⟩

theorem kept_moves {b after : KBucket} (moves : Moves extra b after) : Kept ourId (b :: rest) (after :: rest) := by
  intro a member apart
  rcases List.mem_cons.mp member with rfl | member
  · exact ⟨after,List.mem_cons_self,moves.minKey,moves.maxKey⟩
  · exact ⟨a,List.mem_cons_of_mem _ member,rfl,rfl⟩

theorem insertBucket_kept (now calls : Nat) (entry : KBucketEntry) {b : KBucket} (ours : b.ourId = ourId) :
    Kept ourId (b :: rest) ((insertBucket now calls entry b).1 ++ rest) := by
  unfold insertBucket
  by_cases full : (b.insert now calls entry).2.2 = true
  · have contains := insert_full full
    rw [ours] at contains
    intro a member apart
    rcases List.mem_cons.mp member with rfl | member
    · rw [contains] at apart
      cases apart
    · exact ⟨a,List.mem_append_right _ member,rfl,rfl⟩
  · simp only [full]
    exact kept_moves (insert_moves now b calls entry)

theorem insertFirst_kept (now calls : Nat) (entry : KBucketEntry) (chain : Chain ourId lo buckets) :
    Kept ourId buckets (insertFirst now calls entry buckets).1 := by
  induction buckets generalizing lo with
  | nil => exact kept_refl ourId []
  | cons b rest ih =>
    unfold insertFirst
    split
    · exact insertBucket_kept now calls entry chain.2.2.1
    · exact kept_cons b (ih chain.2.2.2.2)

theorem tellListener_kept {react : KBucket → KBucket × Nat} (moves : ∀ b, Moves [] b (react b).1) (c calls : Nat)
    (buckets : List KBucket) : Kept ourId buckets (tellListener c react calls buckets).1 := by
  induction buckets with
  | nil => exact kept_refl ourId []
  | cons b rest ih =>
    unfold tellListener
    split
    · exact kept_moves (moves b)
    · exact kept_cons b ih

theorem timeoutIn_kept (addr : Address) (buckets : List KBucket) : Kept ourId buckets (timeoutIn addr buckets) := by
  induction buckets with
  | nil => exact kept_refl ourId []
  | cons b rest ih =>
    unfold timeoutIn
    cases found : b.onTimeout addr with
    | some after => exact kept_moves (onTimeout_moves found)
    | none => exact kept_cons b ih

-- Before the first insert there is no bucket.
def Started (t : KBucketTable) : Prop := Chain t.ourId 0 t.buckets

theorem initial_chain (ourId : Key) : Chain ourId 0 [KBucket.new Key.min Key.max ourId] := by
  have last : Chain ourId (Key.max.toNat + 1) [] := by
    rw [Key.max_toNat]
    rfl
  have chain := half_chain (new_half Key.min Key.max ourId) (by decide) last
  rwa [Key.min_toNat] at chain

theorem insert_started (now : Nat) (t : KBucketTable) (calls : Nat) (entry : KBucketEntry)
    (before : t.buckets = [] ∨ t.Started) : (t.insert now calls entry).1.Started := by
  have chain : Chain t.ourId 0 (if t.buckets.isEmpty then [KBucket.new Key.min Key.max t.ourId] else t.buckets) := by
    split
    · exact initial_chain t.ourId
    · rename_i some
      rcases before with none | started
      · rw [none] at some
        exact absurd rfl some
      · exact started
  exact insertFirst_chain now calls entry chain

theorem step_started (now : Nat) (t : KBucketTable) (calls : Nat) (event : BucketEvent) (started : t.Started) :
    (t.step now calls event).1.Started := by
  cases event with
  | insert entry => exact insert_started now t calls entry (.inr started)
  | onResponse c => exact tellListener_chain (fun b => onResponse_moves now b calls c) c calls started
  | onTimeoutCall c => exact tellListener_chain (fun b => onTimeoutCall_moves now b calls c) c calls started
  | onTimeout addr => exact timeoutIn_chain addr started
  | otherCall => exact started

theorem step_kept (now : Nat) (t : KBucketTable) (calls : Nat) (event : BucketEvent) (started : t.Started) :
    Kept t.ourId t.buckets (t.step now calls event).1.buckets := by
  cases event with
  | insert entry =>
    have some : t.buckets.isEmpty = false := by
      cases none : t.buckets with
      | nil =>
        unfold Started at started
        rw [none] at started
        cases started
      | cons => rfl
    show Kept t.ourId t.buckets (insertFirst now calls entry (if t.buckets.isEmpty = true then _ else t.buckets)).1
    rw [some]
    exact insertFirst_kept now calls entry started
  | onResponse c => exact tellListener_kept (fun b => onResponse_moves now b calls c) c calls t.buckets
  | onTimeoutCall c => exact tellListener_kept (fun b => onTimeoutCall_moves now b calls c) c calls t.buckets
  | onTimeout addr => exact timeoutIn_kept addr t.buckets
  | otherCall => exact kept_refl _ _

theorem step_ourId (now : Nat) (t : KBucketTable) (calls : Nat) (event : BucketEvent) :
    (t.step now calls event).1.ourId = t.ourId := by
  cases event <;> rfl

theorem run_ourId (t : KBucketTable) (calls : Nat) (events : List (Nat × BucketEvent)) :
    (t.run calls events).1.ourId = t.ourId := by
  induction events generalizing t calls with
  | nil => rfl
  | cons head rest ih => exact (ih _ _).trans (step_ourId head.1 t calls head.2)

theorem run_started (t : KBucketTable) (calls : Nat) (events : List (Nat × BucketEvent)) (started : t.Started) :
    (t.run calls events).1.Started := by
  induction events generalizing t calls with
  | nil => exact started
  | cons head rest ih => exact ih _ _ (step_started head.1 t calls head.2 started)

theorem step_none (now : Nat) (t : KBucketTable) (calls : Nat) (event : BucketEvent) (none : t.buckets = []) :
    (t.step now calls event).1.buckets = [] ∨ (t.step now calls event).1.Started := by
  cases event with
  | insert entry => exact .inr (insert_started now t calls entry (.inl none))
  | onResponse c => exact .inl (by simp [step,onResponse,none,tellListener])
  | onTimeoutCall c => exact .inl (by simp [step,onTimeoutCall,none,tellListener])
  | onTimeout addr => exact .inl (by simp [step,onTimeout,none,timeoutIn])
  | otherCall => exact .inl none

theorem run_inserted (t : KBucketTable) (calls : Nat) (events : List (Nat × BucketEvent)) (none : t.buckets = [])
    (inserted : (now,.insert entry) ∈ events) : (t.run calls events).1.Started := by
  induction events generalizing t calls with
  | nil => cases inserted
  | cons head rest ih =>
    rcases List.mem_cons.mp inserted with rfl | later
    · exact run_started _ _ rest (insert_started now t calls entry (.inl none))
    · rcases step_none head.1 t calls head.2 none with none | started
      · exact ih _ _ none later
      · exact run_started _ _ rest started

-- The ranges of the buckets part the keys among them, in order; the entries are where they
-- belong, and most is the number of entries a bucket may have.
structure Partitioned (most : Nat) (buckets : List KBucket) : Prop where
  nonempty : ∀ b ∈ buckets, b.minKey.toNat ≤ b.maxKey.toNat
  disjoint : buckets.Pairwise fun a b => ∀ k, ¬(a.keyInRange k = true ∧ b.keyInRange k = true)
  sorted : buckets.Pairwise fun a b => a.maxKey.toNat < b.minKey.toNat
  cover : ∀ k : Key, ∃ b ∈ buckets, b.keyInRange k = true
  inside : ∀ b ∈ buckets, ∀ e ∈ b.entries, b.keyInRange e.nodeId = true
  atMost : ∀ b ∈ buckets, b.entries.length ≤ most

theorem chain_above (chain : Chain ourId lo buckets) : ∀ b ∈ buckets, lo ≤ b.minKey.toNat := by
  induction buckets generalizing lo with
  | nil => exact fun _ member => nomatch member
  | cons b rest ih =>
    obtain ⟨starts,range,_,_,follows⟩ := chain
    intro a member
    rcases List.mem_cons.mp member with rfl | member
    · exact starts.ge
    · have := ih follows a member
      omega

theorem chain_cover (chain : Chain ourId lo buckets) (k : Key) (reaches : lo ≤ k.toNat) :
    ∃ b ∈ buckets, b.keyInRange k = true := by
  induction buckets generalizing lo with
  | nil =>
    have small := Key.toNat_lt k
    have ends : lo = Key.count := chain
    omega
  | cons b rest ih =>
    obtain ⟨starts,range,_,_,follows⟩ := chain
    by_cases here : k.toNat ≤ b.maxKey.toNat
    · exact ⟨b,List.mem_cons_self,(keyInRange_iff b k).mpr ⟨starts ▸ reaches,here⟩⟩
    · obtain ⟨a,member,inRange⟩ := ih follows (by omega)
      exact ⟨a,List.mem_cons_of_mem _ member,inRange⟩

theorem chain_sorted (chain : Chain ourId lo buckets) : buckets.Pairwise fun a b => a.maxKey.toNat < b.minKey.toNat := by
  induction buckets generalizing lo with
  | nil => exact .nil
  | cons b rest ih => exact .cons (chain_above chain.2.2.2.2) (ih chain.2.2.2.2)

theorem chain_member (chain : Chain ourId lo buckets) (member : b ∈ buckets) :
    b.minKey.toNat ≤ b.maxKey.toNat ∧ b.Valid := by
  induction buckets generalizing lo with
  | nil => cases member
  | cons a rest ih =>
    obtain ⟨starts,range,_,valid,follows⟩ := chain
    rcases List.mem_cons.mp member with rfl | member
    · exact ⟨starts ▸ range,valid⟩
    · exact ih follows member

theorem chain_partitioned (chain : Chain ourId 0 buckets) : Partitioned K buckets := by
  refine ⟨fun b member => (chain_member chain member).1,?_,chain_sorted chain,?_,?_,?_⟩
  · refine (chain_sorted chain).imp ?_
    intro a b before k both
    have first := (keyInRange_iff a k).mp both.1
    have second := (keyInRange_iff b k).mp both.2
    omega
  · exact fun k => chain_cover chain k (Nat.zero_le _)
  · exact fun b member e there => (chain_member chain member).2.inside e.node (List.mem_map_of_mem there)
  · exact fun b member => (chain_member chain member).2.atMost

theorem table_partitioned (ourId : Key) (calls : Nat) (events : List (Nat × BucketEvent))
    (inserted : ∃ now entry, (now,.insert entry) ∈ events) :
    Partitioned 20 ((new ourId).run calls events).1.buckets ∧
    ∀ now event, ∀ b ∈ ((new ourId).run calls events).1.buckets, b.keyInRange ourId = false →
      ∃ b' ∈ (((new ourId).run calls events).1.step now ((new ourId).run calls events).2 event).1.buckets,
        b'.minKey = b.minKey ∧ b'.maxKey = b.maxKey := by
  obtain ⟨now,entry,member⟩ := inserted
  have started := run_inserted (new ourId) calls events rfl member
  have kept now event := step_kept now _ ((new ourId).run calls events).2 event started
  rw [run_ourId] at kept
  exact ⟨chain_partitioned started,kept⟩

-- The twenty-first node splits the bucket.
theorem split_table_partitioned : Partitioned 20 ((new Key.max).run 0 (spreadEvents 24)).1.buckets ∧
    ((new Key.max).run 0 (spreadEvents 24)).1.buckets.map (·.entries.length) = [13,11] :=
  ⟨(table_partitioned Key.max 0 (spreadEvents 24) ⟨0,sampleEntry 0,List.mem_cons_self⟩).1,by decide +kernel⟩

def nineEvents : List (Nat × BucketEvent) := (List.range 9).map fun n => (0,.insert (sampleEntry n))

theorem nine_in_one_bucket :
    ¬∀ (ourId : Key) (events : List (Nat × BucketEvent)), (∃ now entry, (now,.insert entry) ∈ events) →
      Partitioned 8 ((new ourId).run 0 events).1.buckets := by
  intro all
  have partitioned := all Key.max nineEvents ⟨0,sampleEntry 0,List.mem_cons_self⟩
  have nine : ¬∀ b ∈ ((new Key.max).run 0 nineEvents).1.buckets, b.entries.length ≤ 8 := by decide +kernel
  exact nine partitioned.atMost

end KBucketTable

end KtorrentStream.Dht
