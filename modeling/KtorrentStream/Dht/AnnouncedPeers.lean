import Mathlib.Data.List.Nodup
import KtorrentStream.Dht.Database
set_option autoImplicit true

namespace KtorrentStream.Dht
open Net

namespace Database

variable {db : Database} {key : Key} {now : Nat}

theorem itemsOf_store (db : Database) (key other : Key) (item : DBItem) :
    (db.store key item).itemsOf other = if other = key then db.itemsOf key ++ [item] else db.itemsOf other := by
  unfold itemsOf store
  by_cases same : other = key
  · subst same
    simp [itemsOf]
  · simp [same]

theorem itemsOf_expire (db : Database) (key : Key) (now : Nat) :
    (db.expire now).itemsOf key = (db.itemsOf key).dropWhile fun item => item.expired now := by
  unfold itemsOf expire
  cases found : db.items key with
  | none => simp [found]
  | some list => simp [found]

theorem checkToken_items (generate : List UInt8 → Key) (token : Key) (addr : Address) :
    (db.checkToken generate token addr).2.items = db.items := by
  unfold checkToken
  split
  · rfl
  · split <;> rfl

-- Older items stand in front: what is not dropped is not expired.
theorem dropWhile_expired {items : List DBItem} (sorted : items.Pairwise fun a b => a.timeStamp ≤ b.timeStamp) :
    (items.dropWhile fun item => item.expired now) = items.filter fun item => !item.expired now := by
  induction sorted with
  | nil => rfl
  | @cons head rest older _ ih =>
    rw [List.dropWhile_cons,List.filter_cons]
    by_cases old : head.expired now = true
    · simp [old,ih]
    · have young : ∀ item ∈ rest, (!item.expired now) = true := by
        intro item member
        have later := older item member
        simp only [DBItem.expired,ge_iff_le,decide_eq_true_eq,Bool.not_eq_true',decide_eq_false_iff_not] at old ⊢
        omega
      have fresh : head.expired now = false := by simpa using old
      rw [List.filter_eq_self.mpr young]
      simp [fresh]

end Database

namespace DHT

variable {d : DHT} {generate : List UInt8 → Key} {now : Nat}

theorem announce_accepted {r : AnnounceReq} (accepted : d.accepts generate r = true) (key : Key) :
    (d.announce generate r now).db.itemsOf key =
      if key = r.infoHash then d.db.itemsOf r.infoHash ++ [⟨r.origin,now⟩] else d.db.itemsOf key := by
  simp only [accepts,decide_eq_true_eq] at accepted
  obtain ⟨running,other,valid⟩ := accepted
  have same : ∀ key, (d.db.checkToken generate r.token r.origin).2.itemsOf key = d.db.itemsOf key := by
    intro key
    unfold Database.itemsOf
    rw [Database.checkToken_items]
  unfold announce
  rw [if_neg (by simp [running]),if_neg other]
  generalize d.db.checkToken generate r.token r.origin = checked at valid same
  obtain ⟨ok,db⟩ := checked
  obtain rfl : ok = true := valid
  show (db.store r.infoHash ⟨r.origin,now⟩).itemsOf key = _
  rw [Database.itemsOf_store,same,same]

theorem announce_rejected {r : AnnounceReq} (rejected : ¬ d.accepts generate r = true) (key : Key) :
    (d.announce generate r now).db.itemsOf key = d.db.itemsOf key := by
  unfold announce
  by_cases running : (!d.running) = true
  · rw [if_pos running]
  rw [if_neg running]
  by_cases own : r.id = d.ourId
  · rw [if_pos own]
  rw [if_neg own]
  have same := @Database.checkToken_items d.db generate r.token r.origin
  have invalid : (d.db.checkToken generate r.token r.origin).1 = false := by
    simp only [accepts,decide_eq_true_eq,not_and,Bool.not_eq_true] at rejected
    exact rejected (by simpa using running) own
  generalize d.db.checkToken generate r.token r.origin = checked at invalid same
  obtain ⟨ok,db⟩ := checked
  obtain rfl : ok = false := invalid
  show db.itemsOf key = _
  unfold Database.itemsOf
  rw [show db.items = d.db.items from same]

theorem getPeers_items (r : GetPeersReq) (key : Key) : (d.getPeers generate r now).2.db.itemsOf key = d.db.itemsOf key := by
  unfold getPeers
  split
  · rfl
  · split <;> rfl

end DHT

namespace DHTSession

variable {s : DHTSession} {generate : List UInt8 → Key} {now : Nat} {key ourId : Key}

-- Under every key the announces stand, in their order, that the last expire
-- left.
structure Filed (s : DHTSession) : Prop where
  stored : ∀ key, s.dht.db.itemsOf key = (s.live key s.expiredAt).map fun a => ⟨a.1.origin,a.2⟩
  sorted : s.announces.Pairwise fun a b => a.2 ≤ b.2
  past : ∀ a ∈ s.announces, a.2 ≤ s.clock
  expired : s.expiredAt ≤ s.clock
  ports : ∀ a ∈ s.announces, a.1.port = a.1.origin.port
  once : ∀ key, ((s.dht.db.itemsOf key).map DBItem.addr).Nodup

theorem Filed.announced (filed : s.Filed) (member : a ∈ s.announces) : announced a = a.1.origin := by
  unfold DHTSession.announced
  rw [filed.ports a member,Address.withPort_port]

theorem new_filed : (new ourId).Filed := by
  refine ⟨?_,.nil,?_,Nat.le_refl _,?_,?_⟩
  · intro key
    rfl
  · intro a member
    cases member
  · intro a member
    cases member
  · intro key
    exact List.nodup_nil

theorem announce_filed (filed : s.Filed) (later : s.clock ≤ now) {r : AnnounceReq}
    (met : s.Met generate (.announce r)) : (s.step generate now (.announce r)).Filed := by
  by_cases accepted : s.dht.accepts generate r = true
  · obtain ⟨port,new⟩ := met accepted
    have items := fun key => @DHT.announce_accepted s.dht generate now r accepted key
    have log : (s.step generate now (.announce r)).announces = s.announces ++ [(r,now)] := if_pos accepted
    have expired := filed.expired
    refine ⟨?_,?_,?_,Nat.le_trans expired later,?_,?_⟩
    · intro key
      have young : s.expiredAt - now < maxItemAge := by
        unfold maxItemAge
        omega
      show (s.dht.announce generate r now).db.itemsOf key = ((s.step generate now (.announce r)).announces.filter
        fun a => a.1.infoHash = key ∧ s.expiredAt - a.2 < maxItemAge).map _
      rw [items,log,List.filter_append,List.map_append]
      by_cases same : key = r.infoHash
      · subst same
        rw [if_pos rfl,filed.stored]
        simp [live,young]
      · rw [if_neg same,filed.stored]
        simp [live,Ne.symm same]
    · rw [log,List.pairwise_append]
      refine ⟨filed.sorted,List.pairwise_singleton _ _,?_⟩
      intro a member b last
      rw [List.mem_singleton.mp last]
      exact Nat.le_trans (filed.past a member) later
    · intro a member
      rw [log] at member
      rcases List.mem_append.mp member with before | last
      · exact Nat.le_trans (filed.past a before) later
      · rw [List.mem_singleton.mp last]
        exact Nat.le_refl _
    · intro a member
      rw [log] at member
      rcases List.mem_append.mp member with before | last
      · exact filed.ports a before
      · rw [List.mem_singleton.mp last]
        exact port
    · intro key
      show (((s.dht.announce generate r now).db.itemsOf key).map _).Nodup
      rw [items]
      split
      · rw [List.map_append]
        refine List.Nodup.append (filed.once _) (List.nodup_singleton _) ?_
        intro addr before last
        obtain ⟨item,member,rfl⟩ := List.mem_map.mp before
        exact new item member (List.mem_singleton.mp last)
      · exact filed.once key
  · have items := fun key => @DHT.announce_rejected s.dht generate now r accepted key
    have log : (s.step generate now (.announce r)).announces = s.announces := if_neg accepted
    refine ⟨?_,?_,?_,Nat.le_trans filed.expired later,?_,?_⟩
    · intro key
      show (s.dht.announce generate r now).db.itemsOf key = ((s.step generate now (.announce r)).announces.filter _).map _
      rw [items,log]
      exact filed.stored key
    · rw [log]
      exact filed.sorted
    · rw [log]
      intro a member
      exact Nat.le_trans (filed.past a member) later
    · rw [log]
      exact filed.ports
    · intro key
      show (((s.dht.announce generate r now).db.itemsOf key).map _).Nodup
      rw [items]
      exact filed.once key

theorem getPeers_filed (filed : s.Filed) (later : s.clock ≤ now) (r : GetPeersReq) :
    (s.step generate now (.getPeers r)).Filed := by
  have items : ∀ key, (s.step generate now (.getPeers r)).dht.db.itemsOf key = s.dht.db.itemsOf key := DHT.getPeers_items r
  refine ⟨?_,filed.sorted,?_,Nat.le_trans filed.expired later,filed.ports,?_⟩
  · intro key
    rw [items]
    exact filed.stored key
  · intro a member
    exact Nat.le_trans (filed.past a member) later
  · intro key
    rw [items]
    exact filed.once key

theorem expire_filed (filed : s.Filed) (later : s.clock ≤ now) : (s.step generate now .expire).Filed := by
  have expired := filed.expired
  have items : ∀ key, (s.step generate now .expire).dht.db.itemsOf key =
      (s.dht.db.itemsOf key).dropWhile fun item => item.expired now := fun key => Database.itemsOf_expire _ _ _
  refine ⟨?_,filed.sorted,?_,Nat.le_refl _,filed.ports,?_⟩
  · intro key
    have sorted : ((s.live key s.expiredAt).map fun a => (⟨a.1.origin,a.2⟩ : DBItem)).Pairwise fun a b => a.timeStamp ≤ b.timeStamp :=
      List.pairwise_map.mpr (filed.sorted.filter _)
    rw [items,filed.stored,Database.dropWhile_expired sorted,List.filter_map]
    show (((s.announces.filter _).filter _).map _) = (s.announces.filter _).map _
    rw [List.filter_filter]
    congr 1
    apply List.filter_congr
    intro a member
    have past := filed.past a member
    have at' : (s.step generate now .expire).expiredAt = now := rfl
    simp only [Function.comp,DBItem.expired,Bool.decide_and,ge_iff_le,at']
    by_cases young : now - a.2 < maxItemAge
    · have before : s.expiredAt - a.2 < maxItemAge := by omega
      simp [young,before,Nat.not_le.mpr young]
    · simp [young,Nat.not_lt.mp young]
  · intro a member
    exact Nat.le_trans (filed.past a member) later
  · intro key
    rw [items]
    exact (filed.once key).sublist ((List.dropWhile_sublist _).map _)

theorem reached_filed (reached : Reached generate ourId s) : s.Filed := by
  induction reached with
  | start => exact new_filed
  | @step s now event _ later met ih =>
    cases event with
    | announce r => exact announce_filed ih later met
    | getPeers r => exact getPeers_filed ih later r
    | expire => exact expire_filed ih later

-- With only so many others, a peer is among the first ones.
theorem mem_take_of_few {items : List DBItem} (once : (items.map DBItem.addr).Nodup) (member : item ∈ items)
    (few : (items.filter fun i => i.addr ≠ item.addr).length < n) : item ∈ items.take n := by
  obtain ⟨front,back,rfl⟩ := List.append_of_mem member
  rw [List.map_append,List.map_cons,List.nodup_middle,List.nodup_cons] at once
  have different : ∀ i ∈ front ++ back, i.addr ≠ item.addr := by
    intro i inside same
    apply once.1
    rw [← List.map_append,← same]
    exact List.mem_map_of_mem inside
  have before : front.length < n := by
    have kept : front.filter (fun i => i.addr ≠ item.addr) = front :=
      List.filter_eq_self.mpr fun i inside => by simpa using different i (List.mem_append_left _ inside)
    rw [List.filter_append,kept,List.length_append] at few
    omega
  obtain ⟨more,rfl⟩ : ∃ more, n = front.length + (more + 1) := ⟨n - front.length - 1,by omega⟩
  rw [List.take_append,Nat.add_sub_cancel_left,List.take_succ_cons]
  exact List.mem_append_right _ List.mem_cons_self

theorem getPeers_response {d : DHT} {r : GetPeersReq} (response : (d.getPeers generate r now).1 = some (items,token)) :
    items = d.db.sample r.infoHash 50 r.origin.ipVersion := by
  unfold DHT.getPeers at response
  split at response
  · cases response
  · split at response
    · cases response
    · exact (Prod.mk.inj (Option.some.inj response)).1.symm

-- The peers of every response: an announce that the last expire left is
-- found with the announced port, nothing else is, and nothing twice.
theorem announced_found (reached : Reached generate ourId s) (r : GetPeersReq)
    (response : (s.dht.getPeers generate r now).1 = some (items,token)) :
    (∀ a ∈ s.live r.infoHash s.expiredAt, a.1.origin.ipVersion = r.origin.ipVersion →
      (s.others r.infoHash r.origin.ipVersion (announced a)).length < 50 → announced a ∈ items.map DBItem.addr) ∧
    (∀ peer ∈ items.map DBItem.addr, ∃ a ∈ s.live r.infoHash s.expiredAt, announced a = peer) ∧
    ((∀ item ∈ s.dht.db.itemsOf r.infoHash, item.expired now = false) →
      ∀ peer ∈ items.map DBItem.addr, ∃ a ∈ s.live r.infoHash now, announced a = peer) ∧
    (items.map DBItem.addr).Nodup := by
  have filed := reached_filed reached
  have sampled := getPeers_response response
  have stored := filed.stored r.infoHash
  have origin : ∀ item ∈ items, ∃ a ∈ s.live r.infoHash s.expiredAt, announced a = item.addr ∧ item = ⟨a.1.origin,a.2⟩ := by
    intro item member
    rw [sampled] at member
    have inside := (List.mem_filter.mp (List.mem_of_mem_take member)).1
    rw [stored] at inside
    obtain ⟨a,live,rfl⟩ := List.mem_map.mp inside
    exact ⟨a,live,filed.announced (List.mem_of_mem_filter live),rfl⟩
  refine ⟨?_,?_,?_,?_⟩
  · intro a live version few
    have same := filed.announced (List.mem_of_mem_filter live)
    rw [same] at few ⊢
    have inside : (⟨a.1.origin,a.2⟩ : DBItem) ∈ (s.dht.db.itemsOf r.infoHash).filter fun item => r.origin.ipVersion = item.addr.ipVersion := by
      refine List.mem_filter.mpr ⟨?_,by simp [version]⟩
      rw [stored]
      exact List.mem_map_of_mem live
    rw [sampled]
    refine List.mem_map.mpr ⟨_,mem_take_of_few ?_ inside ?_,rfl⟩
    · exact (filed.once r.infoHash).sublist (List.filter_sublist.map _)
    · rw [List.filter_filter]
      refine Nat.lt_of_le_of_lt (Nat.le_of_eq ?_) few
      unfold others
      congr 1
      apply List.filter_congr
      intro item _
      simp [Bool.and_comm]
  · intro peer member
    obtain ⟨item,inside,rfl⟩ := List.mem_map.mp member
    obtain ⟨a,live,same,_⟩ := origin item inside
    exact ⟨a,live,same⟩
  · intro young peer member
    obtain ⟨item,inside,rfl⟩ := List.mem_map.mp member
    obtain ⟨a,live,same,rfl⟩ := origin item inside
    have kept := (List.mem_filter.mp live)
    have age := young ⟨a.1.origin,a.2⟩ (by rw [stored]; exact List.mem_map_of_mem live)
    simp only [DBItem.expired,ge_iff_le,decide_eq_false_iff_not,Nat.not_le] at age
    refine ⟨a,List.mem_filter.mpr ⟨kept.1,?_⟩,same⟩
    have key : a.1.infoHash = r.infoHash := by
      have both := kept.2
      simp only [decide_eq_true_eq] at both
      exact both.1
    simp [key,age]
  · rw [sampled]
    exact (filed.once r.infoHash).sublist (((List.take_sublist _ _).trans List.filter_sublist).map _)

-- A peer asks for the token, announces itself with its own port, and another
-- asks.
def fixedToken : List UInt8 → Key := fun _ => Key.min

def peerAddress : Address := .v4 16909060 6881

def tokenRequest : GetPeersReq := ⟨Key.new.addByte 1,Key.new.addByte 2,peerAddress⟩

def announceRequest (port : UInt16) : AnnounceReq := ⟨Key.new.addByte 1,Key.new.addByte 2,port,Key.min,peerAddress⟩

def askedRequest : GetPeersReq := ⟨Key.new.addByte 3,Key.new.addByte 2,.v4 84281096 6881⟩

def announcedSession (port : UInt16) : DHTSession :=
  ((new Key.max).step fixedToken 1 (.getPeers tokenRequest)).step fixedToken 2 (.announce (announceRequest port))

theorem announced_reached : Reached fixedToken Key.max (announcedSession 6881) := by
  refine .step (.step .start (Nat.zero_le _) trivial) (by decide) ?_
  intro _
  refine ⟨by decide,?_⟩
  decide

theorem announced_found_again : Reached fixedToken Key.max (announcedSession 6881) ∧
    ((announcedSession 6881).dht.getPeers fixedToken askedRequest 3).1 = some ([⟨peerAddress,2⟩],Key.min) ∧
    announced (announceRequest 6881,2) ∈ [peerAddress] ∧ [peerAddress].Nodup := by
  have response : ((announcedSession 6881).dht.getPeers fixedToken askedRequest 3).1 = some ([⟨peerAddress,2⟩],Key.min) := by
    decide +kernel
  obtain ⟨offered,_,_,once⟩ := announced_found announced_reached askedRequest response
  have live : (announceRequest 6881,2) ∈ (announcedSession 6881).live askedRequest.infoHash (announcedSession 6881).expiredAt :=
    List.mem_filter.mpr ⟨List.mem_cons_self,by decide +kernel⟩
  exact ⟨announced_reached,response,offered _ live rfl (by decide +kernel),once⟩

-- The same with another port than the one the announce came from.
theorem announced_port_lost : (announcedSession 51413).announces = [(announceRequest 51413,2)] ∧
    announced (announceRequest 51413,2) = .v4 16909060 51413 ∧
    ((announcedSession 51413).dht.getPeers fixedToken askedRequest 3).1 = some ([⟨.v4 16909060 6881,2⟩],Key.min) := by
  refine ⟨?_,rfl,?_⟩
  · rfl
  · decide +kernel

end DHTSession

end KtorrentStream.Dht
