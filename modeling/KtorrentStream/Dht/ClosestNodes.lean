import KtorrentStream.Dht.BucketNodes
import KtorrentStream.Dht.KClosestNodesSearch
set_option autoImplicit true

namespace KtorrentStream.Util.PtrMap
open Finset

variable {β : Type} {m : PtrMap β}

theorem find_insertNew (m : PtrMap β) : (m.insertNew k v).find j = if j = k then some ((m.find k).getD v) else m.find j := by
  unfold insertNew contains
  cases found : m.find k with
  | none =>
    rw [if_neg (by simp),find_insert]
    rfl
  | some old =>
    rw [if_pos (by rfl)]
    by_cases same : j = k
    · rw [if_pos same,same,found]
      rfl
    · rw [if_neg same]

theorem keySet_insertNew (m : PtrMap β) (k : Nat) (v : β) : (m.insertNew k v).keySet = Insert.insert k m.keySet := by
  ext j
  rw [mem_insert,mem_keySet,mem_keySet,find_insertNew]
  by_cases same : j = k
  · simp [same]
  · simp [same]

theorem keySet_erase (m : PtrMap β) (k : Nat) : (m.erase k).keySet = m.keySet.erase k := by
  ext j
  rw [mem_erase,mem_keySet,mem_keySet,find_erase]
  by_cases same : j = k
  · simp [same]
  · simp [same]

theorem count_keySet (m : PtrMap β) : m.count = m.keySet.card := by
  have distinct : (m.entries.map Prod.fst).Nodup := List.pairwise_map.mpr (m.sorted.imp fun less => Nat.ne_of_lt less)
  unfold keySet count
  rw [List.toFinset_card_of_nodup distinct,List.length_map]

theorem lastKey_none : m.lastKey = none ↔ m.count = 0 := by
  unfold lastKey count
  rw [Option.map_eq_none_iff,List.getLast?_eq_none_iff,List.length_eq_zero_iff]

theorem lastKey_some (last : m.lastKey = some k) : k ∈ m.keySet ∧ ∀ j ∈ m.keySet, j ≤ k := by
  unfold lastKey at last
  obtain ⟨e,ends,rfl⟩ := Option.map_eq_some_iff.mp last
  obtain ⟨before,split⟩ := List.getLast?_eq_some_iff.mp ends
  have sorted := m.sorted
  unfold keySet
  rw [split] at sorted ⊢
  constructor
  · simp
  · intro j member
    rw [List.mem_toFinset,List.map_append,List.mem_append] at member
    rcases member with earlier | here
    · obtain ⟨e',inside,rfl⟩ := List.mem_map.mp earlier
      exact Nat.le_of_lt ((List.pairwise_append.mp sorted).2.2 e' inside e (List.mem_singleton_self e))
    · rw [List.map_singleton,List.mem_singleton] at here
      exact Nat.le_of_eq here

end KtorrentStream.Util.PtrMap

namespace KtorrentStream.Dht
open KtorrentStream.Lib KtorrentStream.Util KtorrentStream.Net Finset

theorem xor_twice {l m : List UInt8} (same : l.length = m.length) :
    List.zipWith (· ^^^ ·) l (List.zipWith (· ^^^ ·) l m) = m := by
  induction l generalizing m with
  | nil =>
    cases m with
    | nil => rfl
    | cons => cases same
  | cons x l ih =>
    cases m with
    | nil => cases same
    | cons y m =>
      rw [List.zipWith_cons_cons,List.zipWith_cons_cons,ih (Nat.succ.inj same),← UInt8.xor_assoc,UInt8.xor_self,UInt8.zero_xor]

theorem Key.distance_distance (a b : Key) : Key.distance a (Key.distance a b) = b := Key.ext (xor_twice (Key.same_length a b))

theorem Key.distance_inj {key a b : Key} (same : (Key.distance key a).toNat = (Key.distance key b).toNat) : a = b := by
  rw [← Key.distance_distance key a,← Key.distance_distance key b,Key.toNat_inj same]

def distanceTo (key : Key) (e : KBucketEntry) : Nat := (Key.distance key e.nodeId).toNat

def ids (offered : List KBucketEntry) : Finset Key := (offered.map (·.nodeId)).toFinset

-- What the search has to hold after these offers.
structure Closest (key : Key) (k : Nat) (offered : List KBucketEntry) (s : KClosestNodesSearch) : Prop where
  count : s.emap.count = min k (ids offered).card
  entries : ∀ d e, s.emap.find d = some e → e ∈ offered ∧ d = distanceTo key e
  nearest : ∀ d e, s.emap.find d = some e → ∀ x ∈ offered,
    (∀ d' e', s.emap.find d' = some e' → e'.nodeId ≠ x.nodeId) → distanceTo key e < distanceTo key x

-- The id is offered again although it is one of the k - 1 closest of at least k.
def Again (key : Key) (k : Nat) (before : List KBucketEntry) (e : KBucketEntry) : Prop :=
  k ≤ (ids before).card ∧ e.nodeId ∈ ids before ∧
    ((ids before).filter fun i => (Key.distance key i).toNat < distanceTo key e).card + 1 < k

def distances (key : Key) (offered : List KBucketEntry) : Finset Nat := (offered.map (distanceTo key)).toFinset

variable {key : Key} {k : Nat} {offered before : List KBucketEntry} {s s' : KClosestNodesSearch} {e x : KBucketEntry}

theorem distances_ids (key : Key) (offered : List KBucketEntry) :
    distances key offered = (ids offered).image fun i => (Key.distance key i).toNat := by
  ext d
  simp [distances,ids,distanceTo]

theorem distances_card (key : Key) (offered : List KBucketEntry) : (distances key offered).card = (ids offered).card := by
  rw [distances_ids]
  exact card_image_of_injective _ fun _ _ => Key.distance_inj

theorem mem_distances (key : Key) (offered : List KBucketEntry) (e : KBucketEntry) : distanceTo key e ∈ distances key offered ↔ e.nodeId ∈ ids offered := by
  rw [distances_ids,mem_image]
  constructor
  · rintro ⟨i,member,same⟩
    exact Key.distance_inj same ▸ member
  · intro member
    exact ⟨e.nodeId,member,rfl⟩

theorem distances_below (key : Key) (offered : List KBucketEntry) (d : Nat) :
    ((distances key offered).filter (· < d)).card = ((ids offered).filter fun i => (Key.distance key i).toNat < d).card := by
  rw [distances_ids,filter_image]
  exact card_image_of_injective _ fun _ _ => Key.distance_inj

theorem distances_append (key : Key) (offered : List KBucketEntry) (e : KBucketEntry) :
    distances key (offered ++ [e]) = insert (distanceTo key e) (distances key offered) := by
  ext d
  simp [distances]

def Placed (key : Key) (offered : List KBucketEntry) (s : KClosestNodesSearch) : Prop :=
  ∀ d e, s.emap.find d = some e → e ∈ offered ∧ d = distanceTo key e

theorem held_iff (placed : Placed key offered s) (x : KBucketEntry) :
    distanceTo key x ∈ s.emap.keySet ↔ ∃ d e, s.emap.find d = some e ∧ e.nodeId = x.nodeId := by
  rw [PtrMap.mem_keySet]
  constructor
  · rintro ⟨e,found⟩
    exact ⟨_,e,found,(Key.distance_inj (placed _ e found).2).symm⟩
  · rintro ⟨d,e,found,same⟩
    have place := (placed d e found).2
    unfold distanceTo at place ⊢
    rw [← same,← place]
    exact ⟨e,found⟩

theorem closest_iff (placed : Placed key offered s) :
    Closest key k offered s ↔ Smallest k (distances key offered) s.emap.keySet := by
  constructor
  · intro closest
    refine ⟨?_,?_,?_⟩
    · intro d member
      obtain ⟨e,found⟩ := PtrMap.mem_keySet.mp member
      obtain ⟨among,rfl⟩ := placed d e found
      exact (mem_distances _ _ _).mpr (by simpa [ids] using ⟨e,among,rfl⟩)
    · rw [← PtrMap.count_keySet,closest.count,distances_card]
    · intro d member d' member' outside
      obtain ⟨e,found⟩ := PtrMap.mem_keySet.mp member
      obtain ⟨x,among,rfl⟩ := List.mem_map.mp (List.mem_toFinset.mp member')
      rw [(placed d e found).2]
      refine closest.nearest d e found x among fun d' e' found' same => outside ?_
      exact (held_iff placed x).mpr ⟨d',e',found',same⟩
  · intro smallest
    refine ⟨?_,placed,?_⟩
    · rw [PtrMap.count_keySet,smallest.count,distances_card]
    · intro d e found x among apart
      have here := smallest.nearer d (PtrMap.mem_keySet.mpr ⟨e,found⟩) (distanceTo key x)
        (List.mem_toFinset.mpr (List.mem_map_of_mem among)) fun there => by
          obtain ⟨d',e',found',same⟩ := (held_iff placed x).mp there
          exact apart d' e' found' same
      rw [(placed d e found).2] at here
      exact here

theorem placed_more (placed : Placed key offered s) (e : KBucketEntry) : Placed key (offered ++ [e]) s :=
  fun d x found => ⟨List.mem_append_left _ (placed d x found).1,(placed d x found).2⟩

theorem placed_insert (placed : Placed key offered s) (e : KBucketEntry) :
    Placed key (offered ++ [e]) {s with emap := s.emap.insertNew (distanceTo key e) e} := by
  intro d x found
  rw [PtrMap.find_insertNew] at found
  split at found
  · rename_i here
    cases there : s.emap.find (distanceTo key e) with
    | none =>
      rw [there] at found
      cases found
      exact ⟨List.mem_append_right _ (List.mem_singleton_self e),here⟩
    | some old =>
      rw [there] at found
      cases found
      exact here ▸ placed_more placed e _ old there
  · exact placed_more placed e d x found

theorem placed_erase (placed : Placed key offered s) (d : Nat) : Placed key offered {s with emap := s.emap.erase d} := by
  intro d' x found
  rw [PtrMap.find_erase] at found
  split at found
  · cases found
  · exact placed d' x found

structure SearchFor (key : Key) (k : Nat) (offered : List KBucketEntry) (s : KClosestNodesSearch) : Prop where
  target : s.key = key
  most : s.maxEntries = k
  placed : Placed key offered s

theorem tryInsert_closest (some_entries : 1 ≤ k) (search : SearchFor key k before s) (closest : Closest key k before s) (e : KBucketEntry) :
    ∃ s', s.tryInsert e = some s' ∧ SearchFor key k (before ++ [e]) s' ∧
      (Closest key k (before ++ [e]) s' ↔ ¬ Again key k before e) := by
  obtain ⟨rfl,rfl,placed⟩ := search
  have smallest := (closest_iff placed).mp closest
  have count := PtrMap.count_keySet s.emap
  unfold KClosestNodesSearch.tryInsert
  dsimp only
  rw [show (Key.distance s.key e.nodeId).toNat = distanceTo s.key e from rfl]
  unfold Again
  rw [← distances_card s.key,← mem_distances s.key,← distances_below]
  have inserted := placed_insert placed e
  by_cases room : s.emap.count < s.maxEntries
  · rw [if_pos room]
    rw [count] at room
    refine ⟨_,rfl,⟨rfl,rfl,inserted⟩,fun _ again => ?_,fun _ => ?_⟩
    · rw [← smallest.all room] at again
      omega
    · rw [closest_iff inserted,distances_append,PtrMap.keySet_insertNew]
      exact smallest.insert_room room
  · rw [if_neg room]
    cases last : s.emap.lastKey with
    | none =>
      have none := PtrMap.lastKey_none.mp last
      omega
    | some m =>
      obtain ⟨member,largest⟩ := PtrMap.lastKey_some last
      have most := smallest.count
      have full : Full s.maxEntries s.emap.keySet m := ⟨by omega,member,largest⟩
      have many := smallest.seen_card full
      have rank := smallest.rank (d := distanceTo s.key e) full
      dsimp only
      by_cases less : distanceTo s.key e < m
      · rw [if_pos less]
        have erased := placed_erase inserted m
        refine ⟨_,rfl,⟨rfl,rfl,erased⟩,?_⟩
        rw [closest_iff erased,distances_append,PtrMap.keySet_erase,PtrMap.keySet_insertNew]
        by_cases there : distanceTo s.key e ∈ s.emap.keySet
        · rw [insert_eq_of_mem there]
          exact ⟨fun still => absurd still (smallest.lost full some_entries),fun fresh => absurd ⟨many,rank.mp ⟨there,less⟩⟩ fresh⟩
        · exact ⟨fun _ again => there (rank.mpr again.2).1,fun _ => smallest.replace full less there⟩
      · rw [if_neg less]
        have more := placed_more placed e
        refine ⟨_,rfl,⟨rfl,rfl,more⟩,fun _ again => less (rank.mpr again.2).2,fun _ => ?_⟩
        rw [closest_iff more,distances_append]
        exact smallest.beyond full (Nat.not_lt.mp less)

theorem tryAll_append (s : KClosestNodesSearch) (one two : List KBucketEntry) :
    s.tryAll (one ++ two) = (s.tryAll one).bind fun s => s.tryAll two := List.foldlM_append

-- After every offer of a sequence.
def AlwaysClosest (key : Key) (k : Nat) (offers : List KBucketEntry) : Prop :=
  ∀ before rest, offers = before ++ rest → ∃ s, (KClosestNodesSearch.new key k).tryAll before = some s ∧ Closest key k before s

def NeverAgain (key : Key) (k : Nat) (offers : List KBucketEntry) : Prop :=
  ∀ before e rest, offers = before ++ e :: rest → ¬ Again key k before e

theorem new_search (key : Key) (k : Nat) : SearchFor key k [] (.new key k) := ⟨rfl,rfl,fun d e found => by cases found⟩

theorem new_closest (key : Key) (k : Nat) : Closest key k [] (.new key k) :=
  (closest_iff (new_search key k).placed).mpr (Smallest.empty k)

theorem tryAll_closest (some_entries : 1 ≤ k) (offers : List KBucketEntry) (never : NeverAgain key k offers) :
    ∃ s, (KClosestNodesSearch.new key k).tryAll offers = some s ∧ SearchFor key k offers s ∧ Closest key k offers s := by
  induction offers using List.reverseRecOn with
  | nil => exact ⟨_,rfl,new_search key k,new_closest key k⟩
  | append_singleton before e ih =>
    obtain ⟨s,searched,search,closest⟩ := ih fun first e' rest split =>
      never first e' (rest ++ [e]) (by rw [split,List.append_assoc,List.cons_append])
    obtain ⟨s',inserted,search',result⟩ := tryInsert_closest some_entries search closest e
    refine ⟨s',?_,search',result.mpr (never before e [] rfl)⟩
    rw [tryAll_append,searched]
    show [e].foldlM KClosestNodesSearch.tryInsert s = some s'
    rw [List.foldlM_cons,inserted]
    rfl

-- The search after an offer, from a search that holds the closest, shows whether it came again.
theorem never_again (some_entries : 1 ≤ k) (offers : List KBucketEntry) (always : AlwaysClosest key k offers) : NeverAgain key k offers := by
  induction offers using List.reverseRecOn with
  | nil =>
    intro before e rest split
    exact absurd split.symm (by simp)
  | append_singleton before e ih =>
    have earlier : NeverAgain key k before := ih fun first rest split => always first (rest ++ [e]) (by rw [split,List.append_assoc])
    intro first e' rest split
    rcases List.eq_nil_or_concat rest with rfl | ⟨rest,last,rfl⟩
    · obtain ⟨rfl,same⟩ := List.append_inj' split rfl
      cases same
      obtain ⟨s,searched,search,closest⟩ := tryAll_closest some_entries before earlier
      obtain ⟨s',inserted,_,result⟩ := tryInsert_closest some_entries search closest e
      obtain ⟨s₂,all,right⟩ := always (before ++ [e]) [] (List.append_nil _).symm
      rw [tryAll_append,searched] at all
      have stepped : [e].foldlM KClosestNodesSearch.tryInsert s = some s₂ := all
      rw [List.foldlM_cons,inserted] at stepped
      cases stepped
      exact result.mp right
    · rw [List.concat_eq_append] at split
      have shorter : before ++ [e] = (first ++ e' :: rest) ++ [last] := by
        rw [split,List.append_assoc,List.cons_append]
      exact earlier first e' rest (List.append_inj_left' shorter rfl)

-- Routing tables

def KBucketTable.allEntries (t : KBucketTable) : List KBucketEntry := t.buckets.flatMap (·.entries)

def NodeTables.entriesOf (n : NodeTables) (wantIpv4 wantIpv6 : Bool) : List KBucketEntry :=
  (if wantIpv4 then n.ipv4Table.allEntries else []) ++ if wantIpv6 then n.ipv6Table.allEntries else []

theorem table_search (t : KBucketTable) (kns : KClosestNodesSearch) : t.findKClosestNodes kns = kns.tryAll t.allEntries := by
  obtain ⟨ourId,buckets⟩ := t
  unfold KBucketTable.findKClosestNodes KBucketTable.allEntries
  dsimp only
  induction buckets generalizing kns with
  | nil => rfl
  | cons b rest ih =>
    rw [List.foldlM_cons,List.flatMap_cons,tryAll_append]
    exact congrArg (Option.bind _) (funext ih)

theorem node_search (n : NodeTables) (kns : KClosestNodesSearch) (wantIpv4 wantIpv6 : Bool) :
    n.findKClosestNodes kns wantIpv4 wantIpv6 = kns.tryAll (n.entriesOf wantIpv4 wantIpv6) := by
  unfold NodeTables.findKClosestNodes NodeTables.entriesOf
  rw [tryAll_append]
  simp only [Option.bind_eq_bind,table_search]
  cases wantIpv4 with
  | true =>
    apply congrArg (Option.bind _)
    funext s
    cases wantIpv6 <;> rfl
  | false => cases wantIpv6 <;> rfl

theorem packNode_adds (c : PackedNodeContainer) (e : KBucketEntry) :
    packNode c e = some (if e.addr.ipVersion = 4 then {c with nodes := c.nodes ++ entryBytes e.addr e.nodeId}
      else {c with nodes6 := c.nodes6 ++ entryBytes e.addr e.nodeId}) := by
  have length := entryBytes_length e.addr e.nodeId
  unfold packNode
  rw [packBucketEntry_new e _ length.symm]
  generalize entryBytes e.addr e.nodeId = bytes at length
  show some (c.addNode bytes) = _
  unfold PackedNodeContainer.addNode
  by_cases four : e.addr.ipVersion = 4
  · rw [if_pos four] at length
    rw [if_pos four,if_pos length]
  · rw [if_neg four] at length
    rw [if_neg four,if_neg (by omega)]

theorem packAll (entries : List (Nat × KBucketEntry)) (c : PackedNodeContainer) :
    entries.foldlM (fun c e => packNode c e.2) c =
      some ⟨c.nodes ++ ((entries.map Prod.snd).filter (·.addr.ipVersion = 4)).flatMap (fun e => entryBytes e.addr e.nodeId),
        c.nodes6 ++ ((entries.map Prod.snd).filter (·.addr.ipVersion ≠ 4)).flatMap fun e => entryBytes e.addr e.nodeId⟩ := by
  induction entries generalizing c with
  | nil => simp
  | cons e rest ih =>
    rw [List.foldlM_cons,packNode_adds,Option.bind_eq_bind,Option.bind_some,ih]
    by_cases four : e.2.addr.ipVersion = 4
    · simp [four]
    · simp [four]

-- The nodes in a response: those of a search that holds the closest, nearest first.
def Responds (n : NodeTables) (target : Key) (wantIpv4 wantIpv6 : Bool) : Prop :=
  ∃ s, Closest target K (n.entriesOf wantIpv4 wantIpv6) s ∧ n.closest target wantIpv4 wantIpv6 =
    some ⟨((s.emap.entries.map Prod.snd).filter (·.addr.ipVersion = 4)).flatMap (fun e => entryBytes e.addr e.nodeId),
      ((s.emap.entries.map Prod.snd).filter (·.addr.ipVersion ≠ 4)).flatMap fun e => entryBytes e.addr e.nodeId⟩

theorem closest_nodes (key : Key) (k : Nat) (some_entries : 1 ≤ k) :
    (∀ offers, AlwaysClosest key k offers ↔ NeverAgain key k offers) ∧
      ∀ n target wantIpv4 wantIpv6, NeverAgain target K (n.entriesOf wantIpv4 wantIpv6) → Responds n target wantIpv4 wantIpv6 := by
  refine ⟨fun offers => ⟨never_again some_entries offers,fun never before rest split => ?_⟩,fun n target wantIpv4 wantIpv6 never => ?_⟩
  · obtain ⟨s,searched,_,closest⟩ := tryAll_closest some_entries before fun first e more same =>
      never first e (more ++ rest) (by rw [split,same,List.append_assoc,List.cons_append])
    exact ⟨s,searched,closest⟩
  · obtain ⟨s,searched,_,closest⟩ := tryAll_closest (by decide) (n.entriesOf wantIpv4 wantIpv6) never
    refine ⟨s,closest,?_⟩
    unfold NodeTables.closest KClosestNodesSearch.pack
    rw [node_search,searched,Option.bind_eq_bind,Option.bind_some,packAll]
    rfl

-- Different ids are never offered again.
theorem never_of_distinct {offers : List KBucketEntry} (distinct : (offers.map (·.nodeId)).Nodup) : NeverAgain key k offers := by
  rintro before e rest rfl again
  rw [List.map_append,List.map_cons,List.nodup_append] at distinct
  have earlier := again.2.1
  unfold ids at earlier
  exact distinct.2.2 e.nodeId (List.mem_toFinset.mp earlier) e.nodeId List.mem_cons_self rfl

theorem two_closest : 1 ≤ 2 ∧ AlwaysClosest Key.new 2 [KBucket.sampleEntry 3,KBucket.sampleEntry 1,KBucket.sampleEntry 2] :=
  ⟨by decide,((closest_nodes Key.new 2 (by decide)).1 [KBucket.sampleEntry 3,KBucket.sampleEntry 1,KBucket.sampleEntry 2]).mpr (never_of_distinct (by decide))⟩

-- The closest of two nodes is offered again, and the other one is lost.
theorem offered_again : ¬ ∃ s, (KClosestNodesSearch.new Key.new 2).tryAll [KBucket.sampleEntry 1,KBucket.sampleEntry 2,KBucket.sampleEntry 1] = some s ∧
    Closest Key.new 2 [KBucket.sampleEntry 1,KBucket.sampleEntry 2,KBucket.sampleEntry 1] s := by
  rintro ⟨s,searched,closest⟩
  have held : ((KClosestNodesSearch.new Key.new 2).tryAll [KBucket.sampleEntry 1,KBucket.sampleEntry 2,KBucket.sampleEntry 1]).map (·.emap.count) = some 1 := by
    decide +kernel
  rw [searched] at held
  have one : s.emap.count = 1 := Option.some.inj held
  have two : (ids [KBucket.sampleEntry 1,KBucket.sampleEntry 2,KBucket.sampleEntry 1]).card = 2 := by decide +kernel
  have count := closest.count
  rw [one,two] at count
  cases count

end KtorrentStream.Dht
