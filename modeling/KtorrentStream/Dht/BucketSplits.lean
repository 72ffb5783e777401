import Mathlib.Data.Finset.Dedup
import KtorrentStream.Dht.Partition
import KtorrentStream.Dht.TablePersistence
set_option autoImplicit true

namespace KtorrentStream.Dht
open KtorrentStream.Net KtorrentStream.Bcodec KtorrentStream.Util

namespace KBucket

def Takes (now : Nat) (b : KBucket) (entry : KBucketEntry) : Prop :=
  b.entries.any (·.same entry) = true ∨ b.entries.length < K ∨ b.entries.any (·.isBad now) = true

-- The first questionable entry is bad with one more ping.
def PushedOver (now : Nat) (entries : List KBucketEntry) : Prop :=
  ∃ e, entries.find? (·.isQuestionable now) = some e ∧ 2 ≤ e.questionablePings

variable {now calls : Nat} {b : KBucket} {entry : KBucketEntry}

theorem insert_takes (calls : Nat) (takes : b.Takes now entry) :
    entry.node ∈ nodes (b.insert now calls entry).1.entries ∧ (b.insert now calls entry).2.2 = false := by
  have last (l : List KBucketEntry) : entry.node ∈ nodes (l ++ [entry]) := List.mem_map_of_mem (List.mem_append_right _ List.mem_cons_self)
  unfold KBucket.insert
  by_cases found : b.entries.any (·.same entry) = true
  · rw [if_pos found]
    exact ⟨last _,rfl⟩
  rw [if_neg found]
  by_cases room : b.entries.length < K
  · rw [if_pos room]
    exact ⟨last _,rfl⟩
  rw [if_neg room]
  have bad := (takes.resolve_left found).resolve_left room
  have replaced : b.replaceBadEntry now entry = some {b with entries := b.entries.eraseP (·.isBad now) ++ [entry]} := if_pos bad
  simp only [replaced]
  exact ⟨last _,trivial⟩

theorem insert_full_eq (calls : Nat) (full : ¬ b.Takes now entry) : b.insert now calls entry =
    if b.entries.length = K ∧ b.splitAllowed then (b,calls,true)
    else ((b.pingQuestionable now calls entry).1,(b.pingQuestionable now calls entry).2,false) := by
  have notFound : ¬ b.entries.any (·.same entry) = true := fun found => full (.inl found)
  have noRoom : ¬ b.entries.length < K := fun room => full (.inr (.inl room))
  have notBad : ¬ b.entries.any (·.isBad now) = true := fun bad => full (.inr (.inr bad))
  have none : b.replaceBadEntry now entry = none := if_neg notBad
  unfold KBucket.insert
  rw [if_neg notFound,if_neg noRoom]
  simp only [none]

theorem not_takes_node (full : ¬ b.Takes now entry) : entry.node ∉ nodes b.entries := by
  intro member
  obtain ⟨x,there,same⟩ := List.mem_map.mp member
  exact full (.inl (List.any_eq_true.mpr ⟨x,there,(same_iff x entry).mpr same⟩))

theorem not_takes_bad (full : ¬ b.Takes now entry) : b.entries.any (·.isBad now) = false :=
  Bool.eq_false_iff.mpr fun bad => full (.inr (.inr bad))

theorem not_takes_length (full : ¬ b.Takes now entry) (atMost : b.entries.length ≤ K) : b.entries.length = K :=
  Nat.le_antisymm atMost (Nat.le_of_not_lt fun room => full (.inr (.inl room)))

theorem ping_bad (e : KBucketEntry) (questionable : e.isQuestionable now = true) (good : e.isBad now = false) :
    e.onPingQuestionable.isBad now = decide (2 ≤ e.questionablePings) := by
  have old : e.isGood now = false := by
    unfold KBucketEntry.isQuestionable at questionable
    unfold KBucketEntry.isGood
    rw [questionable]
    rfl
  have same : e.onPingQuestionable.isGood now = e.isGood now := rfl
  unfold KBucketEntry.isBad at good ⊢
  rw [old,if_neg Bool.false_ne_true,Bool.or_eq_false_iff] at good
  rw [same,old,if_neg Bool.false_ne_true]
  have failed : decide (e.onPingQuestionable.failedQueries > 2) = false := good.1
  rw [failed,Bool.false_or]
  show decide (e.questionablePings + 1 > 2) = _
  exact decide_eq_decide.mpr (by omega)

theorem pingFirst_bad (l : List KBucketEntry) (good : l.any (·.isBad now) = false) :
    match pingFirst now l with
    | none => ¬ PushedOver now l
    | some (pinged,_) => pinged.any (·.isBad now) = true ↔ PushedOver now l := by
  induction l with
  | nil => exact fun ⟨e,found,_⟩ => nomatch found
  | cons e rest ih =>
    rw [List.any_cons,Bool.or_eq_false_iff] at good
    unfold pingFirst
    by_cases questionable : e.isQuestionable now = true
    · have first : (e :: rest).find? (·.isQuestionable now) = some e := List.find?_cons_of_pos questionable
      rw [if_pos questionable]
      dsimp only
      rw [List.any_cons,ping_bad e questionable good.1,good.2,Bool.or_false,decide_eq_true_eq]
      unfold PushedOver
      rw [first]
      constructor
      · exact fun pings => ⟨e,rfl,pings⟩
      · rintro ⟨x,same,pings⟩
        cases same
        exact pings
    · have later : (e :: rest).find? (·.isQuestionable now) = rest.find? (·.isQuestionable now) := List.find?_cons_of_neg questionable
      have same : PushedOver now (e :: rest) ↔ PushedOver now rest := by
        unfold PushedOver
        rw [later]
      rw [if_neg questionable]
      have others := ih good.2
      cases pinged : pingFirst now rest with
      | none =>
        rw [pinged] at others
        exact fun tipped => others (same.mp tipped)
      | some result =>
        rw [pinged] at others
        dsimp only [Option.map_some] at others ⊢
        rw [List.any_cons,good.1,Bool.false_or,same]
        exact others

theorem splitAllowed_congr {b b' : KBucket} (minKey : b'.minKey = b.minKey) (maxKey : b'.maxKey = b.maxKey) (ourId : b'.ourId = b.ourId) :
    b'.splitAllowed = b.splitAllowed := by
  unfold splitAllowed keyInRange
  rw [minKey,maxKey,ourId]

theorem keyInRange_congr {b b' : KBucket} (minKey : b'.minKey = b.minKey) (maxKey : b'.maxKey = b.maxKey) (k : Key) :
    b'.keyInRange k = b.keyInRange k := by
  unfold keyInRange
  rw [minKey,maxKey]

-- A bucket that only pings keeps its nodes; a bad one comes up where the ping pushes it over.
structure Pinged (now : Nat) (b after : KBucket) : Prop where
  minKey : after.minKey = b.minKey
  maxKey : after.maxKey = b.maxKey
  ourId : after.ourId = b.ourId
  nodes : nodes after.entries = nodes b.entries
  bad : after.entries.any (·.isBad now) = true ↔ b.busyPinging.length < 2 ∧ PushedOver now b.entries

theorem pingQuestionable_pinged (calls : Nat) (entry : KBucketEntry) (good : b.entries.any (·.isBad now) = false) :
    Pinged now b (b.pingQuestionable now calls entry).1 := by
  unfold pingQuestionable
  by_cases busy : b.busyPinging.length ≥ 2
  · rw [if_pos busy]
    refine ⟨rfl,rfl,rfl,rfl,?_⟩
    show b.entries.any (·.isBad now) = true ↔ _
    rw [good]
    exact ⟨fun bad => absurd bad Bool.false_ne_true,fun tipped => absurd tipped.1 (by omega)⟩
  · rw [if_neg busy]
    have pings := pingFirst_bad b.entries good
    cases pinged : pingFirst now b.entries with
    | none =>
      rw [pinged] at pings
      refine ⟨rfl,rfl,rfl,rfl,?_⟩
      show b.entries.any (·.isBad now) = true ↔ _
      rw [good]
      exact ⟨fun bad => absurd bad Bool.false_ne_true,fun tipped => absurd tipped.2 pings⟩
    | some result =>
      rw [pinged] at pings
      have pings : result.1.any (·.isBad now) = true ↔ PushedOver now b.entries := pings
      refine ⟨rfl,rfl,rfl,pingFirst_nodes pinged,?_⟩
      show result.1.any (·.isBad now) = true ↔ _
      rw [pings]
      exact ⟨fun tipped => ⟨by omega,tipped⟩,fun both => both.2⟩

-- A half after the entries that belong to it have been put into it.
structure Filled (start after : KBucket) (l : List KBucketEntry) : Prop where
  minKey : after.minKey = start.minKey
  maxKey : after.maxKey = start.maxKey
  ourId : after.ourId = start.ourId
  busyPinging : after.busyPinging = start.busyPinging
  distinct : (nodes after.entries).Nodup
  nodes : ∀ n, n ∈ nodes after.entries ↔ n ∈ nodes start.entries ∨ n ∈ nodes l
  entries : ∀ x ∈ after.entries, x ∈ start.entries ∨ x ∈ l
  whole : (KBucket.nodes (start.entries ++ l)).Nodup → after.entries = start.entries ++ l

theorem filled_none (distinct : (nodes b.entries).Nodup) : Filled b b [] := by
  refine ⟨rfl,rfl,rfl,rfl,distinct,fun n => ?_,fun x member => .inl member,fun _ => (List.append_nil _).symm⟩
  constructor
  · exact fun member => .inl member
  · rintro (member | member)
    · exact member
    · cases member

theorem nodes_append (xs ys : List KBucketEntry) : nodes (xs ++ ys) = nodes xs ++ nodes ys := List.map_append

theorem insert_filled (now calls : Nat) (e : KBucketEntry) (room : b.entries.length < K) (distinct : (nodes b.entries).Nodup) :
    Filled b (b.insert now calls e).1 [e] := by
  unfold KBucket.insert
  by_cases found : b.entries.any (·.same e) = true
  · rw [if_pos found]
    obtain ⟨x,there,same⟩ := List.any_eq_true.mp found
    have apart := eraseP_same distinct found
    refine ⟨rfl,rfl,rfl,rfl,replace_nodup distinct apart,fun n => ?_,fun x member => ?_,fun whole => ?_⟩
    · show n ∈ KBucket.nodes (b.entries.eraseP _ ++ [e]) ↔ _
      rw [nodes_append,List.mem_append]
      constructor
      · rintro (old | last)
        · exact .inl ((List.eraseP_sublist.map _).subset old)
        · exact .inr last
      · rintro (old | last)
        · obtain ⟨y,member,rfl⟩ := List.mem_map.mp old
          by_cases gone : y.same e = true
          · exact .inr (List.mem_singleton.mpr ((same_iff y e).mp gone))
          · exact .inl (List.mem_map_of_mem ((List.mem_eraseP_of_neg (p := fun x => x.same e) gone).mpr member))
        · exact .inr last
    · rcases List.mem_append.mp member with old | last
      · exact .inl (List.eraseP_subset old)
      · exact .inr last
    · rw [nodes_append,List.nodup_append] at whole
      exact absurd ((same_iff x e).mp same) (whole.2.2 x.node (List.mem_map_of_mem there) e.node List.mem_cons_self)
  · rw [if_neg found,if_pos room]
    have absent : ∀ x ∈ b.entries, x.node ≠ e.node := fun x member same =>
      found (List.any_eq_true.mpr ⟨x,member,(same_iff x e).mpr same⟩)
    refine ⟨rfl,rfl,rfl,rfl,append_nodup distinct absent,fun n => ?_,fun x member => List.mem_append.mp member,fun _ => rfl⟩
    show n ∈ KBucket.nodes (b.entries ++ [e]) ↔ _
    rw [nodes_append,List.mem_append]

theorem filled_trans {start mid after : KBucket} (first : Filled start mid xs) (second : Filled mid after ys) :
    Filled start after (xs ++ ys) := by
  refine ⟨second.minKey.trans first.minKey,second.maxKey.trans first.maxKey,second.ourId.trans first.ourId,
    second.busyPinging.trans first.busyPinging,second.distinct,fun n => ?_,fun x member => ?_,fun whole => ?_⟩
  · rw [second.nodes,first.nodes,nodes_append,List.mem_append,or_assoc]
  · rw [List.mem_append,← or_assoc]
    exact (second.entries x member).imp_left (first.entries x)
  · rw [← List.append_assoc] at whole ⊢
    have front : (KBucket.nodes (start.entries ++ xs)).Nodup := by
      rw [nodes_append] at whole
      exact whole.of_append_left
    rw [← first.whole front] at whole ⊢
    exact second.whole whole

theorem filled_length (filled : Filled start after l) : after.entries.length ≤ start.entries.length + l.length := by
  have subset : KBucket.nodes after.entries ⊆ KBucket.nodes (start.entries ++ l) := by
    intro n member
    rw [nodes_append,List.mem_append]
    exact (filled.nodes n).mp member
  have length := (List.subperm_of_subset filled.distinct subset).length_le
  simpa [KBucket.nodes] using length

-- The two halves hold what belongs to them, as long as that is not too much for one of them.
theorem distribute_filled (now calls : Nat) {left right : KBucket} (l : List KBucketEntry)
    (leftDistinct : (nodes left.entries).Nodup) (rightDistinct : (nodes right.entries).Nodup)
    (leftRoom : left.entries.length + l.length ≤ K) (rightRoom : right.entries.length + l.length ≤ K) :
    Filled left (distribute now calls left right l).1 (l.filter fun e => left.keyInRange e.nodeId) ∧
      Filled right (distribute now calls left right l).2.1 (l.filter fun e => !left.keyInRange e.nodeId) := by
  induction l generalizing left right calls with
  | nil => exact ⟨filled_none leftDistinct,filled_none rightDistinct⟩
  | cons e rest ih =>
    rw [List.length_cons] at leftRoom rightRoom
    unfold distribute
    by_cases inLeft : left.keyInRange e.nodeId = true
    · rw [if_pos inLeft]
      have first := insert_filled now calls e (by omega) leftDistinct
      have length := filled_length first
      rw [List.length_singleton] at length
      have range (k : Key) : (left.insert now calls e).1.keyInRange k = left.keyInRange k := keyInRange_congr first.minKey first.maxKey k
      have others := ih (left.insert now calls e).2.1 first.distinct rightDistinct (by omega) (by omega)
      simp only [range] at others
      have kept : (e :: rest).filter (fun e => left.keyInRange e.nodeId) = [e] ++ rest.filter fun e => left.keyInRange e.nodeId :=
        List.filter_cons_of_pos inLeft
      have dropped : (e :: rest).filter (fun e => !left.keyInRange e.nodeId) = rest.filter fun e => !left.keyInRange e.nodeId :=
        List.filter_cons_of_neg (by rw [inLeft]; decide)
      rw [kept,dropped]
      exact ⟨filled_trans first others.1,others.2⟩
    · rw [if_neg inLeft]
      have first := insert_filled now calls e (by omega) rightDistinct
      have length := filled_length first
      rw [List.length_singleton] at length
      have others := ih (right.insert now calls e).2.1 leftDistinct first.distinct (by omega) (by omega)
      have dropped : (e :: rest).filter (fun e => left.keyInRange e.nodeId) = rest.filter fun e => left.keyInRange e.nodeId :=
        List.filter_cons_of_neg inLeft
      have kept : (e :: rest).filter (fun e => !left.keyInRange e.nodeId) = [e] ++ rest.filter fun e => !left.keyInRange e.nodeId :=
        List.filter_cons_of_pos (by simpa using inLeft)
      rw [kept,dropped]
      exact ⟨others.1,filled_trans first others.2⟩

-- The halves of a bucket, and what UnableToSplit leaves.
def leftHalf (b : KBucket) : KBucket := new b.minKey (Key.mid b.minKey b.maxKey) b.ourId

def rightHalf (b : KBucket) : KBucket := new ((Key.mid b.minKey b.maxKey).addByte 1) b.maxKey b.ourId

def canSplit (b : KBucket) : Bool :=
  !(Key.mid b.minKey b.maxKey == b.minKey || (Key.mid b.minKey b.maxKey).addByte 1 == b.maxKey)

def halfOf (b : KBucket) (id : Key) : KBucket := if b.leftHalf.keyInRange id then b.leftHalf else b.rightHalf

def otherHalf (b : KBucket) (id : Key) : KBucket := if b.leftHalf.keyInRange id then b.rightHalf else b.leftHalf

-- Whether an entry goes to the same half as an id.
def beside (b : KBucket) (id : Key) (e : KBucketEntry) : Bool := b.leftHalf.keyInRange e.nodeId == b.leftHalf.keyInRange id

theorem split_eq (now calls : Nat) (can : b.canSplit = true) :
    b.split now calls = some (distribute now calls b.leftHalf b.rightHalf b.entries) := by
  unfold canSplit at can
  rw [Bool.not_eq_true',Bool.or_eq_false_iff,beq_eq_false_iff_ne,beq_eq_false_iff_ne] at can
  exact if_neg (not_or.mpr can)

theorem split_none (now calls : Nat) (cannot : b.canSplit = false) : b.split now calls = none := by
  unfold canSplit at cannot
  rw [Bool.not_eq_false',Bool.or_eq_true,beq_iff_eq,beq_iff_eq] at cannot
  exact if_pos cannot

theorem middle_next (can : b.canSplit = true) (range : b.minKey.toNat ≤ b.maxKey.toNat) :
    ((Key.mid b.minKey b.maxKey).addByte 1).toNat = (Key.mid b.minKey b.maxKey).toNat + 1 := by
  unfold canSplit at can
  rw [Bool.not_eq_true',Bool.or_eq_false_iff,beq_eq_false_iff_ne,beq_eq_false_iff_ne] at can
  have middle := Key.mid_toNat range
  have next := Key.addByte_toNat (Key.mid b.minKey b.maxKey) 1
  have bound := Key.toNat_lt b.maxKey
  have notLowest : (Key.mid b.minKey b.maxKey).toNat ≠ b.minKey.toNat := fun same => can.1 (Key.toNat_inj same)
  have one : (1 : UInt8).toNat = 1 := rfl
  rwa [one,Nat.mod_eq_of_lt (by omega)] at next

-- Every key of the bucket is in one half, and in one only.
theorem halfOf_has {id : Key} (can : b.canSplit = true) (range : b.minKey.toNat ≤ b.maxKey.toNat) (inRange : b.keyInRange id = true) :
    (b.halfOf id).keyInRange id = true := by
  unfold halfOf
  split
  · assumption
  · rename_i notLeft
    have next := middle_next can range
    have whole := (keyInRange_iff b id).mp inRange
    have below : ¬ (b.minKey.toNat ≤ id.toNat ∧ id.toNat ≤ (Key.mid b.minKey b.maxKey).toNat) := (keyInRange_iff b.leftHalf id).not.mp notLeft
    refine (keyInRange_iff b.rightHalf id).mpr ⟨?_,whole.2⟩
    show ((Key.mid b.minKey b.maxKey).addByte 1).toNat ≤ id.toNat
    omega

theorem other_apart (can : b.canSplit = true) (range : b.minKey.toNat ≤ b.maxKey.toNat) (id : Key) :
    ¬ (b.otherHalf id).keyInRange id = true := by
  unfold otherHalf
  split
  · rename_i inLeft
    intro inRight
    have next := middle_next can range
    have below : id.toNat ≤ (Key.mid b.minKey b.maxKey).toNat := ((keyInRange_iff b.leftHalf id).mp inLeft).2
    have above : ((Key.mid b.minKey b.maxKey).addByte 1).toNat ≤ id.toNat := ((keyInRange_iff b.rightHalf id).mp inRight).1
    omega
  · rename_i notLeft
    exact notLeft

end KBucket

namespace KBucketTable
open KBucket

variable {now calls : Nat} {b : KBucket} {entry : KBucketEntry}

-- A split leaves the half that the entry goes to, and the other one.
theorem insertSplit_parts (now calls : Nat) (entry : KBucketEntry) (can : b.canSplit = true) (few : b.entries.length ≤ K) :
    ∃ half other c, Filled (b.halfOf entry.nodeId) half (b.entries.filter (b.beside entry.nodeId)) ∧
      Filled (b.otherHalf entry.nodeId) other (b.entries.filter fun e => !b.beside entry.nodeId e) ∧
      ((insertSplit now calls entry b).1 = [(half.insert now c entry).1,other] ∨
        (insertSplit now calls entry b).1 = [other,(half.insert now c entry).1]) := by
  have filled := @distribute_filled now calls b.leftHalf b.rightHalf b.entries List.nodup_nil List.nodup_nil
    (by rw [show b.leftHalf.entries.length = 0 from rfl]; omega) (by rw [show b.rightHalf.entries.length = 0 from rfl]; omega)
  have range (k : Key) : (distribute now calls b.leftHalf b.rightHalf b.entries).1.keyInRange k = b.leftHalf.keyInRange k :=
    keyInRange_congr filled.1.minKey filled.1.maxKey k
  unfold insertSplit
  rw [split_eq now calls can]
  dsimp only
  rw [range]
  cases inLeft : b.leftHalf.keyInRange entry.nodeId with
  | true =>
    have same : b.beside entry.nodeId = fun e => b.leftHalf.keyInRange e.nodeId := by
      funext e
      unfold beside
      rw [inLeft,beq_true]
    have other : (fun e => !b.beside entry.nodeId e) = fun e => !b.leftHalf.keyInRange e.nodeId := by
      rw [same]
    rw [same]
    unfold halfOf otherHalf
    rw [if_pos inLeft,if_pos inLeft]
    exact ⟨_,_,_,filled.1,filled.2,.inl rfl⟩
  | false =>
    have same : b.beside entry.nodeId = fun e => !b.leftHalf.keyInRange e.nodeId := by
      funext e
      unfold beside
      rw [inLeft,beq_false]
    have other : (fun e : KBucketEntry => !!b.leftHalf.keyInRange e.nodeId) = fun e => b.leftHalf.keyInRange e.nodeId := by
      funext e
      exact Bool.not_not _
    rw [same,other]
    unfold halfOf otherHalf
    rw [if_neg (by rw [inLeft]; decide),if_neg (by rw [inLeft]; decide)]
    exact ⟨_,_,_,filled.2,filled.1,.inr rfl⟩

-- The half of an entry is full after the split only if all the entries are in it, each once.
theorem half_full {start half : KBucket} (empty : start.entries = []) (keep : KBucketEntry → Bool)
    (filled : Filled start half (b.entries.filter keep)) (full : b.entries.length = K) :
    half.entries.length = K ↔ (∀ e ∈ b.entries, keep e = true) ∧ (nodes b.entries).Nodup := by
  constructor
  · intro all
    have subset : nodes half.entries ⊆ nodes (b.entries.filter keep) := by
      intro n member
      rcases (filled.nodes n).mp member with old | new
      · rw [empty] at old
        cases old
      · exact new
    have atMost : half.entries.length ≤ (b.entries.filter keep).length := by
      have length := (List.subperm_of_subset filled.distinct subset).length_le
      simpa [nodes] using length
    have every : ∀ e ∈ b.entries, keep e = true := by
      have length := List.length_filter_le keep b.entries
      exact List.length_filter_eq_length_iff.mp (by omega)
    refine ⟨every,?_⟩
    rw [List.filter_eq_self.mpr every] at subset
    have whole := (List.subperm_of_subset filled.distinct subset).perm_of_length_le (by simp [nodes]; omega)
    exact whole.nodup_iff.mp filled.distinct
  · rintro ⟨every,distinct⟩
    have same := List.filter_eq_self.mpr every
    have whole := filled.whole (by rw [empty,same]; exact distinct)
    rw [whole,empty,same]
    exact full

-- When the entry is in the table afterwards, or its bucket is full, without a bad entry and
-- cannot be split.
def Manages (now : Nat) (b : KBucket) (entry : KBucketEntry) : Prop :=
  b.Takes now entry ∨
    b.splitAllowed = false ∧ (b.busyPinging.length < 2 → ¬ PushedOver now b.entries) ∨
    b.splitAllowed = true ∧ b.canSplit = true ∧
      ((∃ e ∈ b.entries, b.beside entry.nodeId e = false) ∨ ¬ (nodes b.entries).Nodup ∨
        (b.halfOf entry.nodeId).splitAllowed = false ∧ ¬ PushedOver now b.entries)

structure Refuses (now : Nat) (entry : KBucketEntry) (b : KBucket) : Prop where
  responsible : b.keyInRange entry.nodeId = true
  full : b.entries.length = K
  noBad : b.entries.any (·.isBad now) = false
  unsplit : b.splitAllowed = false

def allNodes (buckets : List KBucket) : List (Address × Key) := buckets.flatMap fun b => nodes b.entries

def MeetsIn (now : Nat) (before after : List KBucket) (entry : KBucketEntry) : Prop :=
  entry.node ∈ allNodes after ∨ (∃ b ∈ after, Refuses now entry b) ∧ allNodes before ⊆ allNodes after

theorem pinged_refuses {after : KBucket} (pinged : Pinged now b after) (inRange : b.keyInRange entry.nodeId = true)
    (full : b.entries.length = K) (unsplit : b.splitAllowed = false)
    (calm : ¬ (b.busyPinging.length < 2 ∧ PushedOver now b.entries)) : Refuses now entry after := by
  refine ⟨?_,?_,?_,?_⟩
  · rw [keyInRange_congr pinged.minKey pinged.maxKey]
    exact inRange
  · rw [nodes_length pinged.nodes]
    exact full
  · exact Bool.eq_false_iff.mpr fun bad => calm (pinged.bad.mp bad)
  · rw [splitAllowed_congr pinged.minKey pinged.maxKey pinged.ourId]
    exact unsplit

theorem pinged_not_refuses {after : KBucket} (pinged : Pinged now b after)
    (upset : b.splitAllowed = true ∨ b.busyPinging.length < 2 ∧ PushedOver now b.entries) : ¬ Refuses now entry after := by
  intro refuses
  have unsplit := refuses.unsplit
  rw [splitAllowed_congr pinged.minKey pinged.maxKey pinged.ourId] at unsplit
  rcases upset with allowed | tipped
  · rw [allowed] at unsplit
    cases unsplit
  · have bad := pinged.bad.mpr tipped
    rw [refuses.noBad] at bad
    cases bad

theorem insert_refused (calls : Nat) (refused : ¬ b.Takes now entry) :
    nodes (b.insert now calls entry).1.entries = nodes b.entries := by
  rw [insert_full_eq calls refused]
  split
  · rfl
  · exact (pingQuestionable_pinged calls entry (not_takes_bad refused)).nodes

-- A full bucket that does not ask for a split refuses, unless an entry of it is pushed over.
theorem insert_refuses_iff (calls : Nat) (refused : ¬ b.Takes now entry) (full : b.entries.length = K) (inRange : b.keyInRange entry.nodeId = true) :
    Refuses now entry (b.insert now calls entry).1 ↔ b.splitAllowed = false ∧ (b.busyPinging.length < 2 → ¬ PushedOver now b.entries) := by
  rw [insert_full_eq calls refused,full]
  cases split : b.splitAllowed with
  | true =>
    rw [if_pos ⟨rfl,rfl⟩]
    refine ⟨fun refuses => ?_,fun both => Bool.noConfusion both.1⟩
    have unsplit := refuses.unsplit
    rw [split] at unsplit
    cases unsplit
  | false =>
    have pinged := pingQuestionable_pinged calls entry (not_takes_bad refused)
    rw [if_neg (fun both => Bool.false_ne_true both.2)]
    constructor
    · exact fun refuses => ⟨rfl,fun few tipped => pinged_not_refuses pinged (.inr ⟨few,tipped⟩) refuses⟩
    · exact fun calm => pinged_refuses pinged inRange full split fun tipped => calm.2 tipped.1 tipped.2

theorem insert_unsplit (calls : Nat) (inRange : b.keyInRange entry.nodeId = true) (few : b.entries.length ≤ K)
    (unsplit : ¬ b.Takes now entry → b.splitAllowed = false) :
    MeetsIn now [b] [(b.insert now calls entry).1] entry ↔
      b.Takes now entry ∨ (b.busyPinging.length < 2 → ¬ PushedOver now b.entries) := by
  by_cases takes : b.Takes now entry
  · refine ⟨fun _ => .inl takes,fun _ => .inl ?_⟩
    simpa [allNodes] using (insert_takes calls takes).1
  · have refusesIff := insert_refuses_iff calls takes (not_takes_length takes few) inRange
    have same := insert_refused calls takes
    constructor
    · rintro (inside | ⟨⟨after,member,refuses⟩,_⟩)
      · simp only [allNodes,List.flatMap_cons,List.flatMap_nil,List.append_nil,same] at inside
        exact absurd inside (not_takes_node takes)
      · rw [List.mem_singleton.mp member] at refuses
        exact .inr (refusesIff.mp refuses).2
    · rintro (takes' | calm)
      · exact absurd takes' takes
      · refine .inr ⟨⟨_,List.mem_singleton_self _,refusesIff.mpr ⟨unsplit takes,calm⟩⟩,?_⟩
        simp [allNodes,same]

theorem halves_meet {half other after : KBucket} {new : List KBucket} (made : new = [after,other] ∨ new = [other,after])
    (apart : entry.node ∉ nodes other.entries) (outside : ¬ other.keyInRange entry.nodeId = true)
    (all : nodes b.entries ⊆ nodes half.entries ++ nodes other.entries)
    (kept : entry.node ∉ nodes after.entries → nodes after.entries = nodes half.entries) :
    MeetsIn now [b] new entry ↔ entry.node ∈ nodes after.entries ∨ Refuses now entry after := by
  have members (x : KBucket) : x ∈ new ↔ x = after ∨ x = other := by
    rcases made with rfl | rfl
    · simp
    · simp [or_comm]
  have inside (n : Address × Key) : n ∈ allNodes new ↔ n ∈ nodes after.entries ∨ n ∈ nodes other.entries := by
    unfold allNodes
    rw [List.mem_flatMap]
    constructor
    · rintro ⟨x,member,there⟩
      rcases (members x).mp member with rfl | rfl
      · exact .inl there
      · exact .inr there
    · rintro (there | there)
      · exact ⟨after,(members after).mpr (.inl rfl),there⟩
      · exact ⟨other,(members other).mpr (.inr rfl),there⟩
  unfold MeetsIn
  rw [inside]
  constructor
  · rintro ((there | there) | ⟨⟨x,member,refuses⟩,_⟩)
    · exact .inl there
    · exact absurd there apart
    · rcases (members x).mp member with rfl | rfl
      · exact .inr refuses
      · exact absurd refuses.responsible outside
  · by_cases there : entry.node ∈ nodes after.entries
    · exact fun _ => .inl (.inl there)
    · rintro (there' | refuses)
      · exact absurd there' there
      · refine .inr ⟨⟨after,(members after).mpr (.inl rfl),refuses⟩,fun n old => ?_⟩
        rw [inside,kept there]
        have old : n ∈ nodes b.entries := by simpa [allNodes] using old
        exact List.mem_append.mp (all old)

theorem halfOf_empty (b : KBucket) (id : Key) : (b.halfOf id).entries = [] ∧ (b.halfOf id).busyPinging = [] := by
  unfold halfOf
  split
  · exact ⟨rfl,rfl⟩
  · exact ⟨rfl,rfl⟩

theorem otherHalf_empty (b : KBucket) (id : Key) : (b.otherHalf id).entries = [] := by
  unfold otherHalf
  split
  · rfl
  · rfl

section Filling

-- A half, filled from nothing with some of the entries of b.
variable {start half : KBucket} {keep : KBucketEntry → Bool} (empty : start.entries = [])
  (filled : Filled start half (b.entries.filter keep))

include empty filled in
theorem filled_from : ∀ e ∈ half.entries, e ∈ b.entries := by
  intro e member
  rcases filled.entries e member with old | new
  · rw [empty] at old
    cases old
  · exact (List.mem_filter.mp new).1

include empty filled in
theorem filled_few (few : b.entries.length ≤ K) : half.entries.length ≤ K := by
  have bound := filled_length filled
  have shorter := List.length_filter_le keep b.entries
  rw [empty,List.length_nil] at bound
  omega

include empty filled in
theorem filled_whole (every : ∀ e ∈ b.entries, keep e = true) (distinct : (nodes b.entries).Nodup) : half.entries = b.entries := by
  have whole := filled.whole
  rw [empty,List.filter_eq_self.mpr every,List.nil_append] at whole
  exact whole distinct

include empty filled in
-- The half has room only when an entry went to the other one or was there twice.
theorem filled_takes (full : ¬ b.Takes now entry) (few : b.entries.length ≤ K) (takes : half.Takes now entry) :
    (∃ e ∈ b.entries, keep e = false) ∨ ¬ (nodes b.entries).Nodup := by
  have room : half.entries.length < K := by
    rcases takes with found | room | bad
    · obtain ⟨e,there,same⟩ := List.any_eq_true.mp found
      exact absurd (List.any_eq_true.mpr ⟨e,filled_from empty filled e there,same⟩) fun found => full (.inl found)
    · exact room
    · obtain ⟨e,there,isBad⟩ := List.any_eq_true.mp bad
      exact absurd (List.any_eq_true.mpr ⟨e,filled_from empty filled e there,isBad⟩) fun bad => full (.inr (.inr bad))
  have not_all := (half_full empty keep filled (not_takes_length full few)).not.mp (Nat.ne_of_lt room)
  by_cases every : ∀ e ∈ b.entries, keep e = true
  · exact .inr fun distinct => not_all ⟨every,distinct⟩
  · push Not at every
    obtain ⟨e,member,apart⟩ := every
    exact .inl ⟨e,member,Bool.eq_false_iff.mpr apart⟩

end Filling

theorem halves_all {start start' half other : KBucket} {keep : KBucketEntry → Bool} (filled : Filled start half (b.entries.filter keep))
    (rest : Filled start' other (b.entries.filter fun e => !keep e)) : nodes b.entries ⊆ nodes half.entries ++ nodes other.entries := by
  intro n member
  obtain ⟨e,there,rfl⟩ := List.mem_map.mp member
  rw [List.mem_append]
  by_cases kept : keep e = true
  · exact .inl ((filled.nodes e.node).mpr (.inr (List.mem_map_of_mem (List.mem_filter.mpr ⟨there,kept⟩))))
  · exact .inr ((rest.nodes e.node).mpr (.inr (List.mem_map_of_mem (List.mem_filter.mpr ⟨there,by simpa using kept⟩))))

theorem insertSplit_meets (calls : Nat) (inRange : b.keyInRange entry.nodeId = true) (range : b.minKey.toNat ≤ b.maxKey.toNat)
    (few : b.entries.length ≤ K) (full : ¬ b.Takes now entry) (can : b.canSplit = true) :
    MeetsIn now [b] (insertSplit now calls entry b).1 entry ↔
      (∃ e ∈ b.entries, b.beside entry.nodeId e = false) ∨ ¬ (nodes b.entries).Nodup ∨
        (b.halfOf entry.nodeId).splitAllowed = false ∧ ¬ PushedOver now b.entries := by
  obtain ⟨half,other,c,filled,rest,made⟩ := insertSplit_parts now calls entry can few
  obtain ⟨empty,idle⟩ := halfOf_empty b entry.nodeId
  have apart : entry.node ∉ nodes other.entries := by
    intro member
    obtain ⟨e,there,same⟩ := List.mem_map.mp member
    exact not_takes_node full (List.mem_map.mpr ⟨e,filled_from (otherHalf_empty b entry.nodeId) rest e there,same⟩)
  have outside : ¬ other.keyInRange entry.nodeId = true := by
    rw [keyInRange_congr rest.minKey rest.maxKey]
    exact other_apart can range entry.nodeId
  have inHalf : half.keyInRange entry.nodeId = true := by
    rw [keyInRange_congr filled.minKey filled.maxKey]
    exact halfOf_has can range inRange
  have kept : entry.node ∉ nodes (half.insert now c entry).1.entries →
      nodes (half.insert now c entry).1.entries = nodes half.entries :=
    fun missing => insert_refused c fun takes => missing (insert_takes c takes).1
  rw [halves_meet made apart outside (halves_all filled rest) kept]
  by_cases takes : half.Takes now entry
  · refine ⟨fun _ => ?_,fun _ => .inl (insert_takes c takes).1⟩
    exact (filled_takes empty filled full few takes).imp_right .inl
  · have length := not_takes_length takes (filled_few empty filled few)
    have every := (half_full empty _ filled (not_takes_length full few)).mp length
    have missing : entry.node ∉ nodes (half.insert now c entry).1.entries := by
      rw [insert_refused c takes]
      exact not_takes_node takes
    have noneApart : ¬ ∃ e ∈ b.entries, b.beside entry.nodeId e = false := by
      rintro ⟨e,member,apart⟩
      rw [every.1 e member] at apart
      cases apart
    have busy : half.busyPinging.length < 2 := by
      rw [filled.busyPinging,idle]
      exact Nat.zero_lt_two
    rw [insert_refuses_iff c takes length inHalf,splitAllowed_congr filled.minKey filled.maxKey filled.ourId,
      filled_whole empty filled every.1 every.2]
    constructor
    · rintro (there | ⟨unsplit,calm⟩)
      · exact absurd there missing
      · exact .inr (.inr ⟨unsplit,calm busy⟩)
    · rintro (apart | repeated | ⟨unsplit,calm⟩)
      · exact absurd apart noneApart
      · exact absurd every.2 repeated
      · exact .inr ⟨unsplit,fun _ => calm⟩

theorem insertBucket_stays (stays : (b.insert now calls entry).2.2 = false) :
    (insertBucket now calls entry b).1 = [(b.insert now calls entry).1] := by
  unfold insertBucket
  generalize b.insert now calls entry = result at stays ⊢
  obtain ⟨after,calls,full⟩ := result
  cases stays
  rfl

theorem insertBucket_splits (asked : b.insert now calls entry = (b,calls,true)) :
    insertBucket now calls entry b = insertSplit now calls entry b := by
  unfold insertBucket
  rw [asked]
  rfl

theorem insertBucket_meets (calls : Nat) (inRange : b.keyInRange entry.nodeId = true) (range : b.minKey.toNat ≤ b.maxKey.toNat)
    (few : b.entries.length ≤ K) : MeetsIn now [b] (insertBucket now calls entry b).1 entry ↔ Manages now b entry := by
  by_cases asks : ¬ b.Takes now entry ∧ b.splitAllowed = true
  · obtain ⟨full,allowed⟩ := asks
    have asked : b.insert now calls entry = (b,calls,true) := by
      rw [insert_full_eq calls full,if_pos ⟨not_takes_length full few,allowed⟩]
    rw [insertBucket_splits asked]
    have simpler : Manages now b entry ↔ b.canSplit = true ∧ ((∃ e ∈ b.entries, b.beside entry.nodeId e = false) ∨
        ¬ (nodes b.entries).Nodup ∨ (b.halfOf entry.nodeId).splitAllowed = false ∧ ¬ PushedOver now b.entries) := by
      unfold Manages
      rw [allowed]
      constructor
      · rintro (takes | ⟨unsplit,_⟩ | ⟨_,rest⟩)
        · exact absurd takes full
        · cases unsplit
        · exact rest
      · exact fun rest => .inr (.inr ⟨rfl,rest⟩)
    rw [simpler]
    cases can : b.canSplit with
    | true =>
      rw [insertSplit_meets calls inRange range few full can]
      exact ⟨fun rest => ⟨rfl,rest⟩,fun both => both.2⟩
    | false =>
      refine ⟨fun meets => ?_,fun both => nomatch both.1⟩
      have stays : (insertSplit now calls entry b).1 = [b] := by
        unfold insertSplit
        rw [split_none now calls can]
      rw [stays] at meets
      rcases meets with there | ⟨⟨x,member,refuses⟩,_⟩
      · exact absurd (by simpa [allNodes] using there) (not_takes_node full)
      · rw [List.mem_singleton.mp member] at refuses
        have unsplit := refuses.unsplit
        rw [allowed] at unsplit
        cases unsplit
  · have unsplit (full : ¬ b.Takes now entry) : b.splitAllowed = false := Bool.eq_false_iff.mpr fun allowed => asks ⟨full,allowed⟩
    have flag : (b.insert now calls entry).2.2 = false := by
      by_cases takes : b.Takes now entry
      · exact (insert_takes calls takes).2
      · rw [insert_full_eq calls takes,if_neg (by rw [unsplit takes]; exact fun both => Bool.false_ne_true both.2)]
    rw [insertBucket_stays flag,insert_unsplit calls inRange few unsplit]
    unfold Manages
    constructor
    · rintro (takes | calm)
      · exact .inl takes
      · by_cases takes : b.Takes now entry
        · exact .inl takes
        · exact .inr (.inl ⟨unsplit takes,calm⟩)
    · rintro (takes | ⟨_,calm⟩ | ⟨allowed,_⟩)
      · exact .inl takes
      · exact .inr calm
      · exact .inl (by_contra fun takes => asks ⟨takes,allowed⟩)

-- The buckets that an insert works on.
def findIn (t : KBucketTable) : List KBucket := if t.buckets.isEmpty then [KBucket.new Key.min Key.max t.ourId] else t.buckets

def findBucket (t : KBucketTable) (id : Key) : Option KBucket := t.findIn.find? (·.keyInRange id)

theorem findIn_chain (t : KBucketTable) (chained : t.buckets = [] ∨ t.Started) : Chain t.ourId 0 t.findIn := by
  unfold findIn
  split
  · exact initial_chain t.ourId
  · rename_i some
    rcases chained with none | started
    · rw [none] at some
      exact absurd rfl some
    · exact started

theorem findIn_nodes (t : KBucketTable) : allNodes t.findIn = allNodes t.buckets := by
  unfold findIn
  cases none : t.buckets with
  | nil => rfl
  | cons => rfl

theorem insertFirst_found (now calls : Nat) {entry : KBucketEntry} {buckets : List KBucket}
    (found : buckets.find? (·.keyInRange entry.nodeId) = some b) : ∃ front rest, buckets = front ++ b :: rest ∧
      (insertFirst now calls entry buckets).1 = front ++ ((insertBucket now calls entry b).1 ++ rest) := by
  induction buckets with
  | nil => cases found
  | cons a rest ih =>
    unfold insertFirst
    by_cases inRange : a.keyInRange entry.nodeId = true
    · have inBucket : (a :: rest).find? (·.keyInRange entry.nodeId) = some a := List.find?_cons_of_pos inRange
      rw [inBucket] at found
      cases found
      rw [if_pos inRange]
      exact ⟨[],rest,rfl,rfl⟩
    · have beyond : (a :: rest).find? (·.keyInRange entry.nodeId) = rest.find? (·.keyInRange entry.nodeId) :=
        List.find?_cons_of_neg inRange
      rw [beyond] at found
      obtain ⟨front,behind,rfl,done⟩ := ih found
      rw [if_neg inRange]
      exact ⟨a :: front,behind,rfl,congrArg (a :: ·) done⟩

theorem mem_allNodes {buckets : List KBucket} : n ∈ allNodes buckets ↔ ∃ b ∈ buckets, n ∈ nodes b.entries := List.mem_flatMap

theorem meets_around {front rest new : List KBucket} (partitioned : Partitioned K (front ++ b :: rest))
    (inRange : b.keyInRange entry.nodeId = true) :
    MeetsIn now (front ++ b :: rest) (front ++ (new ++ rest)) entry ↔ MeetsIn now [b] new entry := by
  have apart : ∀ a ∈ front ++ rest, ∀ k, b.keyInRange k = true → ¬ a.keyInRange k = true := by
    have disjoint := partitioned.disjoint
    rw [List.pairwise_append] at disjoint
    intro a member k inB inA
    rcases List.mem_append.mp member with before | behind
    · exact disjoint.2.2 a before b List.mem_cons_self k ⟨inA,inB⟩
    · exact (List.pairwise_cons.mp disjoint.2.1).1 a behind k ⟨inB,inA⟩
  have belongs : ∀ a ∈ front ++ b :: rest, ∀ n ∈ nodes a.entries, a.keyInRange n.2 = true := by
    intro a member n there
    obtain ⟨e,inside,rfl⟩ := List.mem_map.mp there
    exact partitioned.inside a member e inside
  have others : ∀ a ∈ front ++ rest, a ∈ front ++ b :: rest := by
    intro a member
    rcases List.mem_append.mp member with before | behind
    · exact List.mem_append_left _ before
    · exact List.mem_append_right _ (List.mem_cons_of_mem _ behind)
  have elsewhere (n : Address × Key) (key : b.keyInRange n.2 = true) : n ∉ allNodes (front ++ rest) := by
    intro member
    obtain ⟨a,around,there⟩ := mem_allNodes.mp member
    exact apart a around n.2 key (belongs a (others a around) n there)
  have splits (n : Address × Key) (middle : List KBucket) :
      n ∈ allNodes (front ++ (middle ++ rest)) ↔ n ∈ allNodes middle ∨ n ∈ allNodes (front ++ rest) := by
    simp only [allNodes,List.flatMap_append,List.mem_append]
    tauto
  unfold MeetsIn
  constructor
  · rintro (inside | ⟨⟨a,member,refuses⟩,kept⟩)
    · exact .inl (((splits _ new).mp inside).resolve_right (elsewhere entry.node inRange))
    · refine .inr ⟨⟨a,?_,refuses⟩,fun n old => ?_⟩
      · have around : a ∉ front ++ rest := fun around => apart a around entry.nodeId inRange refuses.responsible
        simp only [List.mem_append] at member around
        tauto
      · obtain ⟨a,member',there⟩ := mem_allNodes.mp old
        rw [List.mem_singleton.mp member'] at there
        have key := belongs b (List.mem_append_right _ List.mem_cons_self) n there
        have after := kept (mem_allNodes.mpr ⟨b,List.mem_append_right _ List.mem_cons_self,there⟩)
        exact ((splits n new).mp after).resolve_right (elsewhere n key)
  · rintro (inside | ⟨⟨a,member,refuses⟩,kept⟩)
    · exact .inl ((splits _ new).mpr (.inl inside))
    · refine .inr ⟨⟨a,by simp [member],refuses⟩,fun n old => ?_⟩
      have whole : front ++ b :: rest = front ++ ([b] ++ rest) := rfl
      rw [whole] at old
      exact (splits n new).mpr (((splits n [b]).mp old).imp_left (kept ·))

-- The tables there can be: new ones, those that a session has worked on, and those that are
-- loaded from the file that an earlier session has saved.
inductive Reached (qn : QtNumber) : KBucketTable × Nat → Prop
  | new (ourId : Key) (calls : Nat) : Reached qn (new ourId,calls)
  | step (time : Nat) (event : BucketEvent) : Reached qn s → Reached qn (s.1.step time s.2 event)
  | loaded (time : Nat) (ourId : Key) (calls : Nat) : Reached qn saved → data.bytes = saved.1.saveTable →
      (KBucketTable.new ourId).loadTable qn time data = some t → Reached qn (t,calls)

theorem reloaded_valid {b : KBucket} (now : Nat) (ourId : Key) (valid : b.Valid) : (b.reloaded now ourId).Valid := by
  have same : nodes (b.reloaded now ourId).entries = nodes b.entries := by
    show nodes (b.entries.map _) = _
    unfold nodes
    rw [List.map_map]
    rfl
  refine ⟨?_,fun n member => (nomatch member),?_⟩
  · rw [same]
    exact valid.inside
  · rw [nodes_length same]
    exact valid.atMost

theorem reloaded_chain {buckets : List KBucket} (now : Nat) (ourId : Key) (chain : Chain otherId lo buckets) :
    Chain ourId lo (buckets.map (·.reloaded now ourId)) := by
  induction buckets generalizing lo with
  | nil => exact chain
  | cons b rest ih =>
    obtain ⟨starts,range,_,valid,follows⟩ := chain
    exact ⟨starts,range,rfl,reloaded_valid now ourId valid,ih follows⟩

theorem reached_chained {qn : QtNumber} (reached : Reached qn s) : s.1.buckets = [] ∨ s.1.Started := by
  induction reached with
  | new ourId calls => exact .inl rfl
  | @step s now event _ ih =>
    rcases ih with none | started
    · exact step_none now s.1 s.2 event none
    · exact .inr (step_started now s.1 s.2 event started)
  | @loaded saved data t time ourId calls _ written read ih =>
    rw [loadTable_saved qn time ourId saved.1 data written] at read
    cases read
    rcases ih with none | started
    · left
      show saved.1.buckets.map _ = []
      rw [none]
      rfl
    · exact .inr (reloaded_chain time ourId started)

-- What an insert should do to a table.
def InsertMeets (now : Nat) (t : KBucketTable) (calls : Nat) (entry : KBucketEntry) : Prop :=
  MeetsIn now t.buckets (t.insert now calls entry).1.buckets entry

theorem insert_meets (qn : QtNumber) {s : KBucketTable × Nat} (reached : Reached qn s) (now : Nat) (entry : KBucketEntry) :
    InsertMeets now s.1 s.2 entry ↔ ∃ b, s.1.findBucket entry.nodeId = some b ∧ Manages now b entry := by
  obtain ⟨t,calls⟩ := s
  have chain := findIn_chain t (reached_chained reached)
  have partitioned := chain_partitioned chain
  obtain ⟨b,found⟩ : ∃ b, t.findBucket entry.nodeId = some b := by
    obtain ⟨b,member,inRange⟩ := partitioned.cover entry.nodeId
    exact Option.isSome_iff_exists.mp (List.find?_isSome.mpr ⟨b,member,inRange⟩)
  have inRange : b.keyInRange entry.nodeId = true := List.find?_some (p := fun a : KBucket => a.keyInRange entry.nodeId) found
  obtain ⟨front,rest,whole,done⟩ := insertFirst_found now calls found
  have member : b ∈ t.findIn := List.mem_of_find?_eq_some found
  have place := chain_member chain member
  have meets : InsertMeets now t calls entry ↔ Manages now b entry := by
    have after : (t.insert now calls entry).1.buckets = (insertFirst now calls entry t.findIn).1 := rfl
    have before : InsertMeets now t calls entry ↔ MeetsIn now t.findIn (insertFirst now calls entry t.findIn).1 entry := by
      unfold InsertMeets MeetsIn
      rw [after,findIn_nodes]
    rw [whole] at partitioned
    rw [before,done,whole,meets_around partitioned inRange]
    exact insertBucket_meets calls inRange place.1 place.2.atMost
  rw [meets]
  constructor
  · exact fun manages => ⟨b,found,manages⟩
  · rintro ⟨a,same,manages⟩
    rw [found] at same
    cases same
    exact manages

theorem reached_run {qn : QtNumber} (reached : Reached qn s) (events : List (Nat × BucketEvent)) : Reached qn (s.1.run s.2 events) := by
  induction events generalizing s with
  | nil => exact reached
  | cons head rest ih => exact ih (.step head.1 head.2 reached)

-- The only bucket is full, with nodes in both halves.
theorem spread_insert_meets : ((new Key.max).run 0 (spreadEvents 20)).1.buckets.map (·.entries.length) = [20] ∧
    InsertMeets 0 ((new Key.max).run 0 (spreadEvents 20)).1 ((new Key.max).run 0 (spreadEvents 20)).2 (sampleEntry 200) ∧
    (((new Key.max).run 0 (spreadEvents 20)).1.insert 0 ((new Key.max).run 0 (spreadEvents 20)).2 (sampleEntry 200)).1.buckets.map (·.entries.length) = [13,8] := by
  have splits : ∀ b ∈ ((new Key.max).run 0 (spreadEvents 20)).1.buckets,
      b.splitAllowed = true ∧ b.canSplit = true ∧ ∃ e ∈ b.entries, b.beside (sampleEntry 200).nodeId e = false := by
    decide +kernel
  refine ⟨by decide +kernel,(insert_meets .plain (reached_run (.new Key.max 0) (spreadEvents 20)) 0 (sampleEntry 200)).mpr ?_,by decide +kernel⟩
  have there : (((new Key.max).run 0 (spreadEvents 20)).1.findBucket (sampleEntry 200).nodeId).isSome = true := by decide +kernel
  obtain ⟨b,found⟩ := Option.isSome_iff_exists.mp there
  obtain ⟨allowed,can,beside⟩ := splits b (List.mem_of_find?_eq_some found)
  exact ⟨b,found,.inr (.inr ⟨allowed,can,.inl beside⟩)⟩

-- Twenty nodes in the lower half of a new table, and then one more.
def clusteredEvents : List (Nat × BucketEvent) := (List.range 20).map fun n => (0,.insert (sampleEntry n))

theorem one_split_only : ¬∀ (qn : QtNumber) (s : KBucketTable × Nat), Reached qn s → ∀ now entry, InsertMeets now s.1 s.2 entry := by
  intro all
  have meets := all .plain _ (reached_run (.new Key.min 0) clusteredEvents) 0 (sampleEntry 20)
  rcases meets with inside | ⟨⟨b,member,refuses⟩,_⟩
  · have lost : (sampleEntry 20).node ∉ allNodes (((new Key.min).run 0 clusteredEvents).1.insert 0 0 (sampleEntry 20)).1.buckets := by
      decide +kernel
    exact lost inside
  · have allowed : ∀ b ∈ (((new Key.min).run 0 clusteredEvents).1.insert 0 0 (sampleEntry 20)).1.buckets,
        b.keyInRange (sampleEntry 20).nodeId = true → b.splitAllowed = true := by
      decide +kernel
    have split := allowed b member refuses.responsible
    rw [refuses.unsplit] at split
    cases split

end KBucketTable

end KtorrentStream.Dht
