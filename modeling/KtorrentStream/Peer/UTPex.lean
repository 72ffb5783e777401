import Mathlib.Data.Set.Basic
import KtorrentStream.Net.Address
import KtorrentStream.Util.Bytes
import KtorrentStream.Util.PtrMapTotal
import KtorrentStream.Bcodec.Fields
set_option autoImplicit true

namespace KtorrentStream.Peer
open Util Net Bcodec Torrent

structure ConnectedPeer where
  id : Nat
  address : Address
  seeder : Bool
  fastExtensions : Bool

-- The three byte arrays of a message, and the packet they are sent in.
structure PexMessage where
  added : List UInt8
  addedF : List UInt8
  dropped : List UInt8
  deriving DecidableEq

def PexMessage.packet (m : PexMessage) : List UInt8 :=
  encode [.beginDict,.writeByteArray (ascii "added"),.writeByteArray m.added,.writeByteArray (ascii "added.f"),
    .writeByteArray m.addedF,.writeByteArray (ascii "dropped"),.writeByteArray m.dropped,.finish]

-- receiver is the id of the peer the messages go to.
structure UTPex where
  receiver : Nat
  peers : PtrMap Address
  added : PtrMap Address
  flags : PtrMap UInt8
  npeers : PtrMap Address

namespace UTPex

def new (receiver : Nat) : UTPex := ⟨receiver,.empty,.empty,.empty,.empty⟩

-- std::map::insert leaves an entry that is already there.
def insertNew (m : PtrMap β) (k : Nat) (v : β) : PtrMap β := if m.contains k then m else m.insert k v

def flagOf (p : ConnectedPeer) : UInt8 := (if p.seeder then 2 else 0) ||| (if p.fastExtensions then 1 else 0)

def visit (u : UTPex) (p : ConnectedPeer) : UTPex :=
  if p.id = u.receiver then u
  else if u.peers.contains p.id then {u with
    npeers := insertNew u.npeers p.id p.address,
    peers := u.peers.erase p.id}
  else {u with
    npeers := insertNew u.npeers p.id p.address,
    added := insertNew u.added p.id p.address,
    flags := if p.address.ipVersion = 4 then insertNew u.flags p.id (flagOf p) else u.flags}

-- Only IPv4 addresses are written.
def encodeAddress : Address → List UInt8
  | .v4 ip port => writeUint32 ip.toNat ++ writeUint16 port.toNat
  | .v6 .. => []

def encodePeers (ps : PtrMap Address) : List UInt8 := ps.entries.flatMap fun e => encodeAddress e.2

def encodeFlags (flags : PtrMap UInt8) : List UInt8 := flags.entries.map Prod.snd

-- peer->sendExtProtMsg is the message, if there is one. snapshot is what
-- PeerManager::visit goes through.
def update (u : UTPex) (snapshot : List ConnectedPeer) : Option PexMessage × UTPex :=
  let u := snapshot.foldl visit u
  let message :=
    if ¬ (u.peers.count = 0 ∧ u.added.count = 0) then some {
      added := encodePeers u.added,
      addedF := if u.added.count = 0 then [] else encodeFlags u.flags,
      dropped := encodePeers u.peers}
    else none
  (message,{u with peers := u.npeers,added := .empty,flags := .empty,npeers := .empty})

end UTPex

-- A receiver takes six bytes for each entry.
def unpackPeers : List UInt8 → List Address
  | a :: b :: c :: d :: e :: f :: rest =>
    .v4 (UInt32.ofNat (readUint32 [a,b,c,d] 0)) (UInt16.ofNat (readUint16 [e,f] 0)) :: unpackPeers rest
  | _ => []

-- It takes out what is dropped and then puts in what is added.
def receive (known : Set Address) (m : PexMessage) : Set Address :=
  {a | a ∈ unpackPeers m.added ∨ (a ∈ known ∧ a ∉ unpackPeers m.dropped)}

structure Exchange where
  utpex : UTPex
  known : Set Address

namespace Exchange

def new (receiver : Nat) : Exchange := ⟨.new receiver,∅⟩

def round (x : Exchange) (snapshot : List ConnectedPeer) : Exchange :=
  let (message,utpex) := x.utpex.update snapshot
  ⟨utpex,match message with
    | none => x.known
    | some m => receive x.known m⟩

def run (receiver : Nat) (snapshots : List (List ConnectedPeer)) : Exchange := snapshots.foldl round (new receiver)

end Exchange

-- Peer k of a snapshot is not the receiver and has address a.
def Here (receiver : Nat) (snapshot : List ConnectedPeer) (k : Nat) (a : Address) : Prop :=
  ∃ p ∈ snapshot, p.id = k ∧ k ≠ receiver ∧ p.address = a

def addresses (receiver : Nat) (snapshot : List ConnectedPeer) : Set Address := {a | ∃ k, Here receiver snapshot k a}

-- An id is always the same peer's, and the peers of a snapshot are IPv4 peers
-- with different addresses.
structure Snapshots (snapshots : List (List ConnectedPeer)) : Prop where
  ids : ∀ snapshot ∈ snapshots, (snapshot.map ConnectedPeer.id).Nodup
  kept : ∀ one ∈ snapshots, ∀ two ∈ snapshots, ∀ p ∈ one, ∀ q ∈ two, p.id = q.id → p.address = q.address
  apart : ∀ snapshot ∈ snapshots, ∀ p ∈ snapshot, ∀ q ∈ snapshot, p.address = q.address → p.id = q.id
  ipv4 : ∀ snapshot ∈ snapshots, ∀ p ∈ snapshot, p.address.ipVersion = 4

-- What the receiver's decoder finds in the packet; data begins behind the message id and
-- the extended id.
def PexMessage.ReadFrom (qn : QtNumber) (m : PexMessage) (data : QByteArray) : Prop :=
  ∃ dict off len pos, decode qn data 0 = .ok (some (.dict dict off len),pos) ∧
    BDictNode.getValue dict "added" = some (.string m.added) ∧
    BDictNode.getValue dict "added.f" = some (.string m.addedF) ∧
    BDictNode.getValue dict "dropped" = some (.string m.dropped)

theorem packet_fields (qn : QtNumber) (m : PexMessage) (data : QByteArray) (sent : data.bytes = m.packet) : m.ReadFrom qn data := by
  let fields : List (List UInt8 × BTree) := [(ascii "added",.str m.added),(ascii "added.f",.str m.addedF),(ascii "dropped",.str m.dropped)]
  have bytes : data.bytes = (BTree.dict fields).calls.flatMap Call.bytes ++ [] := by
    rw [sent,PexMessage.packet,encode_eq,List.append_nil]
    rfl
  have short := data.size_lt
  rw [bytes,List.append_nil] at short
  have sized := natural_encodable (.dict fields) ⟨trivial,trivial,trivial,trivial⟩ short
  obtain ⟨node,decoded,same,plain⟩ := decode_encoded qn _ sized data bytes
  obtain ⟨dict,off,len,rfl,tree,ints⟩ := tree_dict same plain
  exact ⟨dict,off,len,_,decoded,getValue_str tree ints rfl,getValue_str tree ints rfl,getValue_str tree ints rfl⟩

namespace UTPex

variable {me : Nat} {u : UTPex} {old : PtrMap Address} {seen : List ConnectedPeer} {p : ConnectedPeer}

theorem find_insertNew {m : PtrMap β} (absent : m.find k = none) (v : β) (j : Nat) :
    (insertNew m k v).find j = if j = k then some v else m.find j := by
  unfold insertNew
  rw [if_neg (by simp [PtrMap.contains,absent]),PtrMap.find_insert]

theorem here_append (me : Nat) (seen : List ConnectedPeer) (p : ConnectedPeer) (k : Nat) (a : Address) :
    Here me (seen ++ [p]) k a ↔ Here me seen k a ∨ (p.id = k ∧ k ≠ me ∧ p.address = a) := by
  unfold Here
  simp only [List.mem_append,List.mem_singleton]
  constructor
  · rintro ⟨q,inside | rfl,rest⟩
    · exact .inl ⟨q,inside,rest⟩
    · exact .inr rest
  · rintro (⟨q,inside,rest⟩ | rest)
    · exact ⟨q,.inl inside,rest⟩
    · exact ⟨p,.inr rfl,rest⟩

-- The four maps while the peers are visited: seen are those that were.
structure Visited (me : Nat) (old : PtrMap Address) (seen : List ConnectedPeer) (u : UTPex) : Prop where
  receiver : u.receiver = me
  npeers : ∀ k a, u.npeers.find k = some a ↔ Here me seen k a
  added : ∀ k a, u.added.find k = some a ↔ old.find k = none ∧ Here me seen k a
  peers : ∀ k a, u.peers.find k = some a ↔ old.find k = some a ∧ ∀ a', ¬ Here me seen k a'
  flags : ∀ k, (u.flags.find k).isSome = (u.added.find k).isSome

theorem absent_of_new (new : p.id ∉ seen.map ConnectedPeer.id) (a : Address) : ¬ Here me seen p.id a := by
  rintro ⟨q,inside,same,_⟩
  exact new (List.mem_map.mpr ⟨q,inside,same⟩)

theorem visited_own (visited : Visited me old seen u) (own : p.id = me) : Visited me old (seen ++ [p]) u := by
  have skipped : ∀ k a, ¬ (p.id = k ∧ k ≠ me ∧ p.address = a) := by
    rintro k a ⟨rfl,other,_⟩
    exact other own
  refine ⟨visited.receiver,?_,?_,?_,visited.flags⟩
  · intro k a
    rw [here_append,visited.npeers]
    simp [skipped]
  · intro k a
    rw [here_append,visited.added]
    simp [skipped]
  · intro k a
    simp only [here_append,visited.peers,skipped,or_false]

theorem visited_free (visited : Visited me old seen u) (new : p.id ∉ seen.map ConnectedPeer.id) :
    u.npeers.find p.id = none ∧ u.added.find p.id = none ∧ u.flags.find p.id = none := by
  have absent := fun a => @absent_of_new me seen p new a
  have freeA : u.added.find p.id = none := by
    cases found : u.added.find p.id with
    | none => rfl
    | some a => exact absurd ((visited.added p.id a).mp found).2 (absent a)
  refine ⟨?_,freeA,?_⟩
  · cases found : u.npeers.find p.id with
    | none => rfl
    | some a => exact absurd ((visited.npeers p.id a).mp found) (absent a)
  · have same := visited.flags p.id
    rw [freeA] at same
    simpa using same

section Visit

variable (visited : Visited me old seen u) (new : p.id ∉ seen.map ConnectedPeer.id) (other : p.id ≠ me)

include visited new other in
theorem visited_npeers (k : Nat) (a : Address) :
    (insertNew u.npeers p.id p.address).find k = some a ↔ Here me (seen ++ [p]) k a := by
  have absent := fun a => @absent_of_new me seen p new a
  rw [find_insertNew (visited_free visited new).1,here_append]
  by_cases same : k = p.id
  · subst same
    simp [absent,other]
  · simp [same,Ne.symm same,visited.npeers]

include visited new other in
theorem visited_known (found₀ : old.find p.id = some a₀) :
    Visited me old (seen ++ [p]) {u with npeers := insertNew u.npeers p.id p.address,peers := u.peers.erase p.id} := by
  refine ⟨visited.receiver,visited_npeers visited new other,?_,?_,visited.flags⟩
  · intro k a
    rw [here_append,visited.added]
    by_cases same : k = p.id
    · subst same
      simp [found₀]
    · simp [Ne.symm same]
  · intro k a
    show (u.peers.erase p.id).find k = some a ↔ _
    rw [PtrMap.find_erase]
    by_cases same : k = p.id
    · subst same
      have now : Here me (seen ++ [p]) p.id p.address := (here_append ..).mpr (.inr ⟨rfl,other,rfl⟩)
      rw [if_pos rfl]
      constructor
      · intro found
        cases found
      · rintro ⟨_,gone⟩
        exact absurd now (gone _)
    · simp [same,here_append,Ne.symm same,visited.peers]

include visited new other in
theorem visited_new (none_ : old.find p.id = none) : Visited me old (seen ++ [p])
    {u with
      npeers := insertNew u.npeers p.id p.address
      added := insertNew u.added p.id p.address
      flags := insertNew u.flags p.id (flagOf p)} := by
  have absent := fun a => @absent_of_new me seen p new a
  obtain ⟨_,freeA,freeF⟩ := visited_free visited new
  refine ⟨visited.receiver,visited_npeers visited new other,?_,?_,?_⟩
  · intro k a
    show (insertNew u.added p.id p.address).find k = some a ↔ _
    rw [find_insertNew freeA,here_append]
    by_cases same : k = p.id
    · subst same
      simp [absent,other,none_]
    · simp [same,Ne.symm same,visited.added]
  · intro k a
    show u.peers.find k = some a ↔ _
    by_cases same : k = p.id
    · subst same
      simp [visited.peers,none_]
    · simp [here_append,Ne.symm same,visited.peers]
  · intro k
    show ((insertNew u.flags p.id (flagOf p)).find k).isSome = ((insertNew u.added p.id p.address).find k).isSome
    rw [find_insertNew freeF,find_insertNew freeA]
    split
    · rfl
    · exact visited.flags k

end Visit

theorem visit_visited (visited : Visited me old seen u) (new : p.id ∉ seen.map ConnectedPeer.id)
    (ipv4 : p.address.ipVersion = 4) : Visited me old (seen ++ [p]) (u.visit p) := by
  have absent := fun a => @absent_of_new me seen p new a
  have was : ∀ a, u.peers.find p.id = some a ↔ old.find p.id = some a := by
    intro a
    rw [visited.peers]
    simp [absent]
  unfold visit
  by_cases own : p.id = u.receiver
  · rw [if_pos own]
    exact visited_own visited (own.trans visited.receiver)
  rw [if_neg own]
  have other : p.id ≠ me := fun same => own (same.trans visited.receiver.symm)
  by_cases known : u.peers.contains p.id = true
  · rw [if_pos known]
    obtain ⟨a,found⟩ := Option.isSome_iff_exists.mp known
    exact visited_known visited new other ((was a).mp found)
  · rw [if_neg known]
    rw [if_pos ipv4]
    have none_ : old.find p.id = none := by
      cases found : old.find p.id with
      | none => rfl
      | some a => exact absurd (Option.isSome_iff_exists.mpr ⟨a,(was a).mpr found⟩) known
    exact visited_new visited new other none_

theorem start_visited (clean : u.added = .empty ∧ u.flags = .empty ∧ u.npeers = .empty) : Visited u.receiver u.peers [] u := by
  obtain ⟨added,flags,npeers⟩ := clean
  refine ⟨rfl,?_,?_,?_,?_⟩
  · intro k a
    simp [npeers,PtrMap.find_empty,Here]
  · intro k a
    simp [added,PtrMap.find_empty,Here]
  · intro k a
    simp [Here]
  · intro k
    rw [added,flags]
    rfl

theorem foldl_visited (visited : Visited me old seen u) (snapshot : List ConnectedPeer)
    (ids : ((seen ++ snapshot).map ConnectedPeer.id).Nodup) (ipv4 : ∀ p ∈ snapshot, p.address.ipVersion = 4) :
    Visited me old (seen ++ snapshot) (snapshot.foldl visit u) := by
  induction snapshot generalizing seen u with
  | nil =>
    rw [List.append_nil]
    exact visited
  | cons p rest ih =>
    have split' : seen ++ p :: rest = (seen ++ [p]) ++ rest := by simp
    have new : p.id ∉ seen.map ConnectedPeer.id := by
      rw [List.map_append,List.map_cons,List.nodup_middle,List.nodup_cons] at ids
      exact fun inside => ids.1 (List.mem_append_left _ inside)
    rw [split'] at ids ⊢
    exact ih (visit_visited visited new (ipv4 p List.mem_cons_self)) ids fun q inside => ipv4 q (List.mem_cons_of_mem _ inside)

theorem unpack_encode {l : List (Nat × Address)} (ipv4 : ∀ e ∈ l, e.2.ipVersion = 4) :
    unpackPeers (l.flatMap fun e => encodeAddress e.2) = l.map Prod.snd := by
  induction l with
  | nil => rfl
  | cons e rest ih =>
    obtain ⟨k,a⟩ := e
    cases a with
    | v6 => exact absurd (ipv4 _ List.mem_cons_self) (by simp [Address.ipVersion])
    | v4 ip port =>
      rw [List.flatMap_cons,List.map_cons,← ih fun e inside => ipv4 e (List.mem_cons_of_mem _ inside)]
      have four := readUint32_write ip.toNat_lt []
      have two := readUint16_write port.toNat_lt []
      rw [List.append_nil] at four two
      show Address.v4 (UInt32.ofNat (readUint32 (writeUint32 ip.toNat) 0)) (UInt16.ofNat (readUint16 (writeUint16 port.toNat) 0)) :: _ = _
      rw [four,two]
      simp

theorem mem_unpack {m : PtrMap Address} (ipv4 : ∀ k a, m.find k = some a → a.ipVersion = 4) (a : Address) :
    a ∈ unpackPeers (encodePeers m) ↔ ∃ k, m.find k = some a := by
  unfold encodePeers
  rw [unpack_encode fun e inside => ipv4 e.1 e.2 ((m.find_eq_some_iff).mpr inside),List.mem_map]
  constructor
  · rintro ⟨e,inside,rfl⟩
    exact ⟨e.1,(m.find_eq_some_iff).mpr inside⟩
  · rintro ⟨k,found⟩
    exact ⟨(k,a),(m.find_eq_some_iff).mp found,rfl⟩

theorem count_zero {m : PtrMap β} : m.count = 0 ↔ ∀ k v, m.find k ≠ some v := by
  unfold PtrMap.count
  rw [List.length_eq_zero_iff]
  constructor
  · intro empty k v found
    have inside := (m.find_eq_some_iff).mp found
    rw [empty] at inside
    cases inside
  · intro none
    apply List.eq_nil_iff_forall_not_mem.mpr
    intro e inside
    exact none e.1 e.2 ((m.find_eq_some_iff).mpr inside)

theorem count_keySet (m : PtrMap β) : m.count = m.keySet.card := by
  have nodup : (m.entries.map Prod.fst).Nodup := List.pairwise_map.mpr (m.sorted.imp fun less => Nat.ne_of_lt less)
  unfold PtrMap.keySet PtrMap.count
  rw [List.toFinset_card_of_nodup nodup,List.length_map]

theorem count_congr {m : PtrMap β} {m' : PtrMap γ} (same : ∀ k, (m.find k).isSome = (m'.find k).isSome) : m.count = m'.count := by
  rw [count_keySet,count_keySet]
  congr 1
  ext k
  rw [PtrMap.mem_keySet,PtrMap.mem_keySet,← Option.isSome_iff_exists,← Option.isSome_iff_exists,same]

end UTPex

namespace Exchange

variable {me : Nat} {x : Exchange} {previous snapshot : List ConnectedPeer}

-- Between the rounds the map holds the last snapshot, and the receiver knows
-- its addresses.
structure Synced (me : Nat) (snapshot : List ConnectedPeer) (x : Exchange) : Prop where
  receiver : x.utpex.receiver = me
  clean : x.utpex.added = .empty ∧ x.utpex.flags = .empty ∧ x.utpex.npeers = .empty
  peers : ∀ k a, x.utpex.peers.find k = some a ↔ Here me snapshot k a
  known : x.known = addresses me snapshot

theorem new_synced (me : Nat) : Synced me [] (new me) := by
  refine ⟨rfl,⟨rfl,rfl,rfl⟩,?_,?_⟩
  · intro k a
    simp [new,UTPex.new,PtrMap.find_empty,Here]
  · simp [new,addresses,Here]

theorem here_ipv4 (ipv4 : ∀ p ∈ snapshot, p.address.ipVersion = 4) (here : Here me snapshot k a) : a.ipVersion = 4 := by
  obtain ⟨p,inside,_,_,rfl⟩ := here
  exact ipv4 p inside

-- What two snapshots that follow each other have in common.
structure Next (previous snapshot : List ConnectedPeer) : Prop where
  ids : (snapshot.map ConnectedPeer.id).Nodup
  kept : ∀ p ∈ previous, ∀ q ∈ snapshot, p.id = q.id → p.address = q.address
  apart : ∀ p ∈ previous, ∀ q ∈ previous, p.address = q.address → p.id = q.id
  before : ∀ p ∈ previous, p.address.ipVersion = 4
  after : ∀ p ∈ snapshot, p.address.ipVersion = 4

theorem visited_of_synced (synced : Synced me previous x) (next : Next previous snapshot) :
    UTPex.Visited me x.utpex.peers snapshot (snapshot.foldl UTPex.visit x.utpex) := by
  have start := UTPex.start_visited synced.clean
  rw [synced.receiver] at start
  have all := UTPex.foldl_visited start snapshot (by simpa using next.ids) next.after
  rwa [List.nil_append] at all

-- Taking out the dropped and putting in the added addresses gives the new
-- snapshot: a dropped address is no other peer's that stays.
theorem received_addresses (next : Next previous snapshot) (a : Address) :
    ((∃ k, (∀ b, ¬ Here me previous k b) ∧ Here me snapshot k a) ∨
      ((∃ k, Here me previous k a) ∧ ¬ ∃ k, Here me previous k a ∧ ∀ b, ¬ Here me snapshot k b)) ↔
    ∃ k, Here me snapshot k a := by
  constructor
  · rintro (⟨k,_,here⟩ | ⟨⟨k,here⟩,stays⟩)
    · exact ⟨k,here⟩
    · by_contra gone
      refine stays ⟨k,here,?_⟩
      intro b later
      obtain ⟨p,inside,id,_,address⟩ := here
      obtain ⟨q,inside',id',other,address'⟩ := later
      have same := next.kept p inside q inside' (id.trans id'.symm)
      exact gone ⟨k,q,inside',id',other,same.symm.trans address⟩
  · rintro ⟨k,here⟩
    by_cases before : ∃ b, Here me previous k b
    · refine .inr ⟨?_,?_⟩
      · obtain ⟨b,p,inside,id,other,address⟩ := before
        obtain ⟨q,inside',id',_,address'⟩ := here
        have same := next.kept p inside q inside' (id.trans id'.symm)
        exact ⟨k,p,inside,id,other,same.trans address'⟩
      · rintro ⟨j,⟨p,inside,id,_,address⟩,gone⟩
        obtain ⟨b,p',inside',id',_,_⟩ := before
        obtain ⟨q,inside'',id'',other,address''⟩ := here
        have same := next.kept p' inside' q inside'' (id'.trans id''.symm)
        have j' := next.apart p inside p' inside' (address.trans (address''.symm.trans same.symm))
        have jk : j = k := id.symm.trans (j'.trans id')
        subst jk
        exact gone a ⟨q,inside'',id'',other,address''⟩
    · exact .inl ⟨k,fun b there => before ⟨b,there⟩,here⟩

theorem old_none (synced : Synced me previous x) (k : Nat) : x.utpex.peers.find k = none ↔ ∀ a, ¬ Here me previous k a := by
  constructor
  · intro none a here
    rw [← synced.peers,none] at here
    cases here
  · intro none
    cases found : x.utpex.peers.find k with
    | none => rfl
    | some a => exact absurd ((synced.peers k a).mp found) (none a)

section Sent

-- u is what the visits leave: its maps are what the message is made of.
variable {u : UTPex} (synced : Synced me previous x) (visited : UTPex.Visited me x.utpex.peers snapshot u)

include synced visited in
theorem added_addresses (next : Next previous snapshot) (a : Address) : a ∈ unpackPeers (UTPex.encodePeers u.added) ↔
    ∃ k, (∀ b, ¬ Here me previous k b) ∧ Here me snapshot k a := by
  rw [UTPex.mem_unpack fun k a found => here_ipv4 next.after ((visited.added k a).mp found).2]
  simp only [visited.added,old_none synced]

include synced visited in
theorem dropped_addresses (next : Next previous snapshot) (a : Address) : a ∈ unpackPeers (UTPex.encodePeers u.peers) ↔
    ∃ k, Here me previous k a ∧ ∀ b, ¬ Here me snapshot k b := by
  rw [UTPex.mem_unpack fun k a found => here_ipv4 next.before ((synced.peers k a).mp ((visited.peers k a).mp found).1)]
  simp only [visited.peers,synced.peers]

include visited in
theorem flags_length (next : Next previous snapshot) :
    (if u.added.count = 0 then [] else UTPex.encodeFlags u.flags).length = (unpackPeers (UTPex.encodePeers u.added)).length := by
  have ipv4 : ∀ e ∈ u.added.entries, e.2.ipVersion = 4 := fun e inside =>
    here_ipv4 next.after ((visited.added e.1 e.2).mp ((u.added.find_eq_some_iff).mpr inside)).2
  have entries : (unpackPeers (UTPex.encodePeers u.added)).length = u.added.count := by
    unfold UTPex.encodePeers
    rw [UTPex.unpack_encode ipv4,List.length_map]
    rfl
  rw [entries]
  split
  · rename_i none
    exact none.symm
  · unfold UTPex.encodeFlags
    rw [List.length_map]
    exact UTPex.count_congr visited.flags

include synced visited in
theorem none_dropped : u.peers.count = 0 ↔ ∀ k a, Here me previous k a → ∃ b, Here me snapshot k b := by
  rw [UTPex.count_zero]
  simp only [ne_eq,visited.peers,synced.peers]
  constructor
  · intro none k a here
    by_contra gone
    exact none k a ⟨here,fun b there => gone ⟨b,there⟩⟩
  · rintro stay k a ⟨here,gone⟩
    obtain ⟨b,there⟩ := stay k a here
    exact gone b there

include synced visited in
theorem none_added : u.added.count = 0 ↔ ∀ k a, Here me snapshot k a → ∃ b, Here me previous k b := by
  rw [UTPex.count_zero]
  simp only [ne_eq,visited.added,old_none synced]
  constructor
  · intro none k a here
    by_contra new
    exact none k a ⟨fun b there => new ⟨b,there⟩,here⟩
  · rintro known k a ⟨new,here⟩
    obtain ⟨b,there⟩ := known k a here
    exact new b there

end Sent

theorem quiet_addresses (next : Next previous snapshot) (stay : ∀ k a, Here me previous k a → ∃ b, Here me snapshot k b)
    (known : ∀ k a, Here me snapshot k a → ∃ b, Here me previous k b) : addresses me previous = addresses me snapshot := by
  ext a
  constructor
  · rintro ⟨k,here⟩
    obtain ⟨b,there⟩ := stay k a here
    obtain ⟨p,inside,id,other,address⟩ := here
    obtain ⟨q,inside',id',_,_⟩ := there
    exact ⟨k,q,inside',id',other,(next.kept p inside q inside' (id.trans id'.symm)).symm.trans address⟩
  · rintro ⟨k,here⟩
    obtain ⟨b,there⟩ := known k a here
    obtain ⟨p,inside,id,other,_⟩ := there
    obtain ⟨q,inside',id',_,address⟩ := here
    exact ⟨k,p,inside,id,other,(next.kept p inside q inside' (id.trans id'.symm)).trans address⟩

theorem round_synced (synced : Synced me previous x) (next : Next previous snapshot) :
    Synced me snapshot (x.round snapshot) ∧
    (∀ m, (x.utpex.update snapshot).1 = some m → m.addedF.length = (unpackPeers m.added).length) ∧
    ((∀ k, (∃ a, Here me previous k a) ↔ ∃ a, Here me snapshot k a) → (x.utpex.update snapshot).1 = none) := by
  have visited := visited_of_synced synced next
  generalize state : snapshot.foldl UTPex.visit x.utpex = u at visited
  have utpex : (x.round snapshot).utpex = {u with peers := u.npeers,added := .empty,flags := .empty,npeers := .empty} := by
    rw [← state]
    rfl
  have synced' : (x.round snapshot).known = addresses me snapshot → Synced me snapshot (x.round snapshot) := by
    intro known
    refine ⟨?_,?_,?_,known⟩
    · rw [utpex]
      exact visited.receiver
    · rw [utpex]
      exact ⟨rfl,rfl,rfl⟩
    · rw [utpex]
      exact visited.npeers
  have known : (x.round snapshot).known = match (x.utpex.update snapshot).1 with
    | none => x.known
    | some m => receive x.known m := rfl
  have update : (x.utpex.update snapshot).1 = if ¬ (u.peers.count = 0 ∧ u.added.count = 0) then some {
      added := UTPex.encodePeers u.added,
      addedF := if u.added.count = 0 then [] else UTPex.encodeFlags u.flags,
      dropped := UTPex.encodePeers u.peers} else none := by
    rw [← state]
    rfl
  have noneDropped := none_dropped synced visited
  have noneAdded := none_added synced visited
  by_cases quiet : u.peers.count = 0 ∧ u.added.count = 0
  · rw [if_neg (not_not_intro quiet)] at update
    refine ⟨synced' ?_,by simp [update],fun _ => update⟩
    rw [known,update]
    show x.known = _
    rw [synced.known]
    exact quiet_addresses next (noneDropped.mp quiet.1) (noneAdded.mp quiet.2)
  · rw [if_pos quiet] at update
    refine ⟨synced' ?_,?_,?_⟩
    · rw [known,update]
      ext a
      show a ∈ unpackPeers (UTPex.encodePeers u.added) ∨ (a ∈ x.known ∧ a ∉ unpackPeers (UTPex.encodePeers u.peers)) ↔ _
      rw [added_addresses synced visited next,dropped_addresses synced visited next,synced.known]
      exact received_addresses next a
    · intro m sent
      rw [update,Option.some.injEq] at sent
      rw [← sent]
      exact flags_length visited next
    · intro same
      refine absurd ⟨noneDropped.mpr ?_,noneAdded.mpr ?_⟩ quiet
      · intro k a here
        exact (same k).mp ⟨a,here⟩
      · intro k a here
        exact (same k).mpr ⟨a,here⟩

theorem next_of_snapshots (valid : Snapshots snapshots) (one : previous ∈ snapshots) (two : snapshot ∈ snapshots) :
    Next previous snapshot :=
  ⟨valid.ids snapshot two,valid.kept previous one snapshot two,valid.apart previous one,valid.ipv4 previous one,valid.ipv4 snapshot two⟩

theorem next_of_first (valid : Snapshots snapshots) (member : snapshot ∈ snapshots) : Next [] snapshot := by
  refine ⟨valid.ids snapshot member,?_,?_,?_,valid.ipv4 snapshot member⟩
  · intro p inside
    cases inside
  · intro p inside
    cases inside
  · intro p inside
    cases inside

theorem Snapshots.before (valid : Snapshots (history ++ [last])) : Snapshots history := by
  have inside : ∀ {snapshot}, snapshot ∈ history → snapshot ∈ history ++ [last] := List.mem_append_left _
  refine ⟨?_,?_,?_,?_⟩
  · intro snapshot member
    exact valid.ids snapshot (inside member)
  · intro one member two member'
    exact valid.kept one (inside member) two (inside member')
  · intro snapshot member
    exact valid.apart snapshot (inside member)
  · intro snapshot member
    exact valid.ipv4 snapshot (inside member)

theorem Snapshots.next (valid : Snapshots (history ++ [last])) : Next (history.getLastD []) last := by
  have there : last ∈ history ++ [last] := List.mem_append_right _ (List.mem_singleton_self _)
  cases history with
  | nil => exact next_of_first valid there
  | cons first rest =>
    rw [List.getLastD_cons]
    exact next_of_snapshots valid (List.mem_append_left _ List.getLastD_mem_cons) there

theorem run_synced (me : Nat) (history : List (List ConnectedPeer)) (valid : Snapshots history) :
    Synced me (history.getLastD []) (run me history) := by
  induction history using List.reverseRecOn with
  | nil => exact new_synced me
  | append_singleton history last ih =>
    rw [run,List.foldl_append,List.getLastD_concat]
    exact (round_synced (ih (Snapshots.before valid)) (Snapshots.next valid)).1

-- After every round the receiver knows the snapshot, every added entry has
-- its flags, the message is read from its packet as it was, and nothing is sent if the
-- peers are the same.
theorem pex_reconstructs (me : Nat) (history : List (List ConnectedPeer)) (last : List ConnectedPeer)
    (valid : Snapshots (history ++ [last])) :
    (run me (history ++ [last])).known = addresses me last ∧
    (∀ m, ((run me history).utpex.update last).1 = some m → m.addedF.length = (unpackPeers m.added).length ∧
      ∀ qn data, data.bytes = m.packet → m.ReadFrom qn data) ∧
    ((∀ k, (∃ a, Here me (history.getLastD []) k a) ↔ ∃ a, Here me last k a) → ((run me history).utpex.update last).1 = none) := by
  have all := run_synced me (history ++ [last]) valid
  rw [List.getLastD_concat] at all
  obtain ⟨_,flags,quiet⟩ := round_synced (run_synced me history (Snapshots.before valid)) (Snapshots.next valid)
  exact ⟨all.known,fun m sent => ⟨flags m sent,fun qn data => packet_fields qn m data⟩,quiet⟩

-- A peer leaves and comes back under a new id.
def returning : List (List ConnectedPeer) :=
  [[⟨1,.v4 16909060 6881,false,true⟩,⟨2,.v4 84281096 6881,true,true⟩],[⟨2,.v4 84281096 6881,true,true⟩]]

def returned : List ConnectedPeer := [⟨2,.v4 84281096 6881,true,true⟩,⟨3,.v4 16909060 6881,false,true⟩]

theorem returning_reconstructed : Snapshots (returning ++ [returned]) ∧
    (run 2 (returning ++ [returned])).known = addresses 2 returned := by
  have valid : Snapshots (returning ++ [returned]) := by
    constructor
    all_goals simp [returning,returned,Address.ipVersion]
  exact ⟨valid,(pex_reconstructs 2 returning returned valid).1⟩

end Exchange

end KtorrentStream.Peer
