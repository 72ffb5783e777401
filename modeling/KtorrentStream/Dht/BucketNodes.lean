import Mathlib.Data.List.Nodup
import KtorrentStream.Dht.KBucket
set_option autoImplicit true

namespace KtorrentStream.Dht
open KtorrentStream.Net

namespace KBucket

def nodes (entries : List KBucketEntry) : List (Address × Key) := entries.map (·.node)

-- The entries that wait for room: behind a ping, or for a ping to be sent.
def waiting (b : KBucket) : List KBucketEntry := b.busyPinging.map (·.entry) ++ b.pendingEntries

-- Once the first entry that gone picks has left, no entry that stays is the node of x.
def Absent (x : KBucketEntry) (gone : KBucketEntry → Bool) (entries : List KBucketEntry) : Prop :=
  entries.any gone = true → ∀ e ∈ entries.eraseP gone, e.node ≠ x.node

-- Only insert looks whether the node is there already. The other two put an entry that
-- waited into the bucket without looking.
def Fresh (now : Nat) (b : KBucket) : BucketEvent → Prop
  | .onResponse c => ∀ ping ∈ b.busyPinging.find? (·.call == c), Absent ping.entry (·.isBad now) b.entries
  | .onTimeoutCall c => ∀ ping ∈ b.busyPinging.find? (·.call == c),
      Absent ping.entry (·.addr == ping.dest) b.entries ∧
      ((b.busyPinging.filter (·.call != c)).length < 2 → ∀ entry ∈ b.pendingEntries.head?,
        Absent entry (·.isBad now) (b.replaceTimedOut ping))
  | _ => True

def FreshRun (b : KBucket) (calls : Nat) : List (Nat × BucketEvent) → Prop
  | [] => True
  | (now,event) :: rest => b.Fresh now event ∧ FreshRun (b.step now calls event).1 (b.step now calls event).2 rest

variable {l after : List KBucketEntry} {entry x : KBucketEntry}

theorem same_iff (a b : KBucketEntry) : a.same b = true ↔ a.node = b.node := by
  simp [KBucketEntry.same,KBucketEntry.node]

theorem append_nodup (distinct : (nodes l).Nodup) (absent : ∀ e ∈ l, e.node ≠ x.node) :
    (nodes (l ++ [x])).Nodup := by
  rw [nodes,List.map_append,List.map_singleton,← List.concat_eq_append]
  apply List.Nodup.concat _ distinct
  intro member
  obtain ⟨e,there,same⟩ := List.mem_map.mp member
  exact absent e there same

theorem eraseP_nodup (gone : KBucketEntry → Bool) (distinct : (nodes l).Nodup) :
    (nodes (l.eraseP gone)).Nodup :=
  distinct.sublist ((List.eraseP_sublist).map _)

theorem replace_nodup {gone : KBucketEntry → Bool} (distinct : (nodes l).Nodup)
    (absent : ∀ e ∈ l.eraseP gone, e.node ≠ x.node) : (nodes (l.eraseP gone ++ [x])).Nodup :=
  append_nodup (eraseP_nodup gone distinct) absent

-- In a bucket without duplicates the found entry is the only one of its node.
theorem eraseP_same (distinct : (nodes l).Nodup) (found : l.any (·.same x) = true) :
    ∀ e ∈ l.eraseP (·.same x), e.node ≠ x.node := by
  induction l with
  | nil => cases found
  | cons head rest ih =>
    have parts := List.nodup_cons.mp distinct
    by_cases same : head.same x = true
    · rw [List.eraseP_cons,same,cond_true]
      intro e member equal
      apply parts.1
      exact List.mem_map.mpr ⟨e,member,equal.trans ((same_iff head x).mp same).symm⟩
    · rw [List.eraseP_cons,Bool.eq_false_iff.mpr same,cond_false]
      have later : rest.any (·.same x) = true := by simpa [same] using found
      intro e member equal
      rcases List.mem_cons.mp member with rfl | member
      · exact same ((same_iff _ _).mpr equal)
      · exact ih parts.2 later e member equal

theorem pingFirst_nodes (pinged : pingFirst now l = some (after,addr)) : nodes after = nodes l := by
  induction l generalizing after with
  | nil => cases pinged
  | cons head rest ih =>
    unfold pingFirst at pinged
    split at pinged
    · cases pinged
      rfl
    · obtain ⟨⟨tail,dest⟩,later,same⟩ := Option.map_eq_some_iff.mp pinged
      cases same
      exact congrArg (head.node :: ·) (ih later)

theorem timeoutFirst_nodes (found : timeoutFirst addr l = some after) : nodes after = nodes l := by
  induction l generalizing after with
  | nil => cases found
  | cons head rest ih =>
    unfold timeoutFirst at found
    split at found
    · cases found
      rfl
    · obtain ⟨tail,later,rfl⟩ := Option.map_eq_some_iff.mp found
      exact congrArg (head.node :: ·) (ih later)

theorem pingQuestionable_nodes (now : Nat) (b : KBucket) (calls : Nat) (entry : KBucketEntry) :
    nodes (b.pingQuestionable now calls entry).1.entries = nodes b.entries := by
  unfold pingQuestionable
  split
  · rfl
  · cases pinged : pingFirst now b.entries with
    | none => rfl
    | some result => exact pingFirst_nodes pinged

theorem replaceBadEntry_nodup {now : Nat} {b after : KBucket} (distinct : (nodes b.entries).Nodup)
    (absent : Absent entry (·.isBad now) b.entries) (replaced : b.replaceBadEntry now entry = some after) :
    (nodes after.entries).Nodup := by
  unfold replaceBadEntry at replaced
  split at replaced
  · rename_i bad
    cases replaced
    exact replace_nodup distinct (absent bad)
  · cases replaced

theorem replaceOrPing_nodup (now : Nat) (b : KBucket) (calls : Nat) (distinct : (nodes b.entries).Nodup)
    (absent : Absent entry (·.isBad now) b.entries) : (nodes (b.replaceOrPing now calls entry).1.entries).Nodup := by
  unfold replaceOrPing
  cases replaced : b.replaceBadEntry now entry with
  | some after => exact replaceBadEntry_nodup distinct absent replaced
  | none => exact (pingQuestionable_nodes now b calls entry).symm ▸ distinct

theorem insert_nodup (now : Nat) (b : KBucket) (calls : Nat) (entry : KBucketEntry)
    (distinct : (nodes b.entries).Nodup) : (nodes (b.insert now calls entry).1.entries).Nodup := by
  unfold KBucket.insert
  by_cases found : b.entries.any (·.same entry) = true
  · rw [if_pos found]
    exact replace_nodup distinct (eraseP_same distinct found)
  rw [if_neg found]
  have absent : ∀ e ∈ b.entries, e.node ≠ entry.node := by
    intro e member equal
    exact found (List.any_eq_true.mpr ⟨e,member,(same_iff _ _).mpr equal⟩)
  by_cases room : b.entries.length < K
  · rw [if_pos room]
    exact append_nodup distinct absent
  rw [if_neg room]
  cases replaced : b.replaceBadEntry now entry with
  | some after =>
    refine replaceBadEntry_nodup distinct ?_ replaced
    exact fun _ e member => absent e (List.mem_of_mem_eraseP member)
  | none =>
    by_cases full : b.entries.length = K ∧ b.splitAllowed
    · simp only [full,and_self,if_true]
      exact distinct
    · simp only [full,if_false]
      exact (pingQuestionable_nodes now b calls entry).symm ▸ distinct

theorem replaceTimedOut_nodup (b : KBucket) (ping : BusyPing) (distinct : (nodes b.entries).Nodup)
    (absent : Absent ping.entry (·.addr == ping.dest) b.entries) : (nodes (b.replaceTimedOut ping)).Nodup := by
  unfold replaceTimedOut
  split
  · rename_i there
    exact replace_nodup distinct (absent there)
  · exact distinct

theorem step_nodup (now : Nat) (b : KBucket) (calls : Nat) (event : BucketEvent)
    (distinct : (nodes b.entries).Nodup) (fresh : b.Fresh now event) :
    (nodes (b.step now calls event).1.entries).Nodup := by
  cases event with
  | insert entry => exact insert_nodup now b calls entry distinct
  | onResponse c =>
    show (nodes (b.onResponse now calls c).1.entries).Nodup
    unfold onResponse
    cases busy : b.busyPinging.find? (·.call == c) with
    | none => exact distinct
    | some ping => exact replaceOrPing_nodup now _ calls distinct (fresh ping busy)
  | onTimeoutCall c =>
    show (nodes (b.onTimeoutCall now calls c).1.entries).Nodup
    unfold onTimeoutCall
    cases busy : b.busyPinging.find? (·.call == c) with
    | none => exact distinct
    | some ping =>
      obtain ⟨first,second⟩ := fresh ping busy
      have replaced := replaceTimedOut_nodup b ping distinct first
      show (nodes (nextPending now _ calls).1.entries).Nodup
      unfold nextPending
      by_cases few : (b.busyPinging.filter (·.call != c)).length < 2
      · simp only [few,if_true]
        cases pending : b.pendingEntries with
        | nil => exact replaced
        | cons entry rest => exact replaceOrPing_nodup now _ calls replaced (second few entry (by rw [pending]; rfl))
      · simp only [few,if_false]
        exact replaced
  | onTimeout addr =>
    show (nodes ((b.onTimeout addr).getD b).entries).Nodup
    unfold onTimeout
    cases found : timeoutFirst addr b.entries with
    | none => exact distinct
    | some after => exact (timeoutFirst_nodes found).symm ▸ distinct
  | otherCall => exact distinct

theorem run_nodup (b : KBucket) (calls : Nat) (events : List (Nat × BucketEvent))
    (distinct : (nodes b.entries).Nodup) (fresh : b.FreshRun calls events) :
    (nodes (b.run calls events).1.entries).Nodup := by
  induction events generalizing b calls with
  | nil => exact distinct
  | cons head rest ih =>
    obtain ⟨now,event⟩ := head
    exact ih _ _ (step_nodup now b calls event distinct fresh.1) fresh.2

-- Wherever a run that puts no waiting entry beside itself has come, no node is in the
-- bucket twice, and the next step does not bring in a waiting entry a second time either.
theorem bucket_nodes_distinct (minKey maxKey ourId : Key) (calls : Nat) (events : List (Nat × BucketEvent))
    (fresh : (new minKey maxKey ourId).FreshRun calls events) :
    (nodes ((new minKey maxKey ourId).run calls events).1.entries).Nodup ∧
    ∀ now event, ((new minKey maxKey ourId).run calls events).1.Fresh now event →
      ∀ entry ∈ ((new minKey maxKey ourId).run calls events).1.waiting,
        entry.node ∈ nodes ((new minKey maxKey ourId).run calls events).1.entries →
        (nodes (((new minKey maxKey ourId).run calls events).1.step now
          ((new minKey maxKey ourId).run calls events).2 event).1.entries).count entry.node ≤ 1 := by
  have distinct := run_nodup (new minKey maxKey ourId) calls events List.nodup_nil fresh
  refine ⟨distinct,?_⟩
  intro now event next entry _ _
  exact List.nodup_iff_count_le_one.mp (step_nodup now _ _ event distinct next) entry.node

instance : Decidable (Absent x gone l) := inferInstanceAs (Decidable (_ → _))

instance (now : Nat) (b : KBucket) : (event : BucketEvent) → Decidable (b.Fresh now event)
  | .insert _ => isTrue trivial
  | .onResponse _ => inferInstanceAs (Decidable (∀ ping ∈ _,_))
  | .onTimeoutCall _ => inferInstanceAs (Decidable (∀ ping ∈ _,_ ∧ (_ → ∀ entry ∈ _,_)))
  | .onTimeout _ => isTrue trivial
  | .otherCall => isTrue trivial

instance decidableFreshRun (b : KBucket) (calls : Nat) : (events : List (Nat × BucketEvent)) → Decidable (b.FreshRun calls events)
  | [] => isTrue trivial
  | (now,event) :: rest =>
    have := decidableFreshRun (b.step now calls event).1 (b.step now calls event).2 rest
    inferInstanceAs (Decidable (_ ∧ _))

def sampleEntry (n : Nat) : KBucketEntry := ⟨.v4 (UInt32.ofNat n) 6881,Key.ofByteArray [UInt8.ofNat n],0,0,0⟩

-- Nodes all over the key space.
def spreadEvents (count : Nat) : List (Nat × BucketEvent) := (List.range count).map fun n => (0,.insert (sampleEntry (n * 10)))

def sampleMax : Key := Key.ofByteArray [127]

-- Twenty nodes that have not answered for a while, and then one more that has to wait for a ping.
def fullEvents : List (Nat × BucketEvent) :=
  (List.range 20).map (fun n => (0,.insert (sampleEntry n))) ++ [(1000000,.insert (sampleEntry 20))]

theorem full_bucket_distinct :
    (nodes ((new Key.min sampleMax Key.max).run 0 (fullEvents ++ [(1000000,.onTimeoutCall 0)])).1.entries).Nodup := by
  have fresh : (new Key.min sampleMax Key.max).FreshRun 0 (fullEvents ++ [(1000000,.onTimeoutCall 0)]) := by
    decide +kernel
  exact (bucket_nodes_distinct Key.min sampleMax Key.max 0 _ fresh).1

-- The node that waits is inserted again once the second node is known to be bad: this time
-- it gets in, and the timeout of the ping brings it in once more.
def twiceEvents : List (Nat × BucketEvent) :=
  fullEvents ++ List.replicate 3 (1000000,.onTimeout (sampleEntry 1).addr) ++
    [(1000000,.insert (sampleEntry 20)),(1000000,.onTimeoutCall 0)]

theorem waiting_node_twice :
    ¬∀ events : List (Nat × BucketEvent), (nodes ((new Key.min sampleMax Key.max).run 0 events).1.entries).Nodup := by
  intro all
  exact absurd (all twiceEvents) (by decide +kernel)

end KBucket

end KtorrentStream.Dht
