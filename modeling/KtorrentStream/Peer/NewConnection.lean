import Mathlib.Algebra.Order.Ring.Rat
import KtorrentStream.Peer.ConnectionLimit
set_option autoImplicit true

namespace KtorrentStream.Peer
open KtorrentStream.Util

-- Of a Peer what its connection depends on; token says whether it still has one.
structure LimitedPeer where
  acaScore : Rat
  killed : Bool
  token : Bool

def LimitedPeer.kill (peer : LimitedPeer) : LimitedPeer := {peer with killed := true,token := false}

def LimitedPeer.bad (peer : LimitedPeer) : Bool := decide (peer.acaScore ≤ -5) && decide (peer.acaScore > -50)

-- A PeerManager with the ConnectionLimit and all tokens that are out. The tokens of its
-- peers are some of those of its torrent.
structure Admission where
  started : Bool
  infoHash : Nat
  connections : Connections
  counted : connections.Counted
  peers : List LimitedPeer
  owned : peers.countP (·.token) ≤ connections.tokens.count infoHash

namespace Connections

variable {s : Connections} {hash : Nat}

theorem destroyed_counted (counted : s.Counted) (out : hash ∈ s.tokens) : Counted ⟨s.limit.release hash,s.tokens.erase hash⟩ := by
  obtain ⟨k,here⟩ := List.getElem?_of_mem out
  have counted' := destroy_counted counted here
  refine ⟨?_,fun other => ?_,counted'.positive⟩
  · have global := counted'.global
    rw [List.length_eraseIdx_of_lt (List.getElem?_eq_some_iff.mp here).1] at global
    rw [List.length_erase_of_mem out]
    exact global
  · have torrent := counted'.torrent other
    rw [count_eraseIdx here] at torrent
    rw [List.count_erase]
    by_cases same : other = hash
    · rw [if_pos same] at torrent
      simpa [same] using torrent
    · rw [if_neg same] at torrent
      simpa [same,Ne.symm same] using torrent

end Connections

namespace Admission

-- The peers when the first bad one is killed, and whether its token goes with it.
def killFirstBad : List LimitedPeer → Option (List LimitedPeer × Bool)
  | [] => none
  | peer :: rest =>
    if peer.bad then some (peer.kill :: rest,peer.token)
    else (killFirstBad rest).map fun r => (peer :: r.1,r.2)

theorem killFirstBad_tokens {peers : List LimitedPeer} (killed : killFirstBad peers = some (left,freed)) :
    left.countP (·.token) + freed.toNat = peers.countP (·.token) ∧ left.length = peers.length := by
  induction peers generalizing left with
  | nil => cases killed
  | cons peer rest ih =>
      unfold killFirstBad at killed
      split at killed
      · cases killed
        cases token : peer.token <;> simp [LimitedPeer.kill,token]
      · cases found : killFirstBad rest with
        | none =>
            rw [found] at killed
            cases killed
        | some r =>
            rw [found] at killed
            cases killed
            obtain ⟨tokens,length⟩ := ih found
            rw [List.countP_cons,List.countP_cons,List.length_cons,List.length_cons,length]
            exact ⟨by omega,rfl⟩

variable (a : Admission)

-- ConnectionLimit::acquire for the torrent, with the new token.
def acquire : Option Connections := (a.connections.limit.acquire a.infoHash).map fun limit => ⟨limit,a.infoHash :: a.connections.tokens⟩

def released (s : Connections) (hash : Nat) : Connections := ⟨s.limit.release hash,s.tokens.erase hash⟩

theorem acquire_cases {a : Admission} (done : a.acquire = some s) : s.Counted ∧ s.tokens = a.infoHash :: a.connections.tokens := by
  unfold acquire at done
  cases granted : a.connections.limit.acquire a.infoHash with
  | none =>
      rw [granted] at done
      cases done
  | some limit =>
      rw [granted] at done
      cases done
      exact ⟨Connections.acquire_counted a.counted granted,rfl⟩

theorem acquired_released {a : Admission} (done : a.acquire = some s) :
    (released s a.infoHash).Counted ∧ (released s a.infoHash).tokens = a.connections.tokens := by
  obtain ⟨counted,tokens⟩ := acquire_cases done
  refine ⟨Connections.destroyed_counted counted (by rw [tokens]; exact List.mem_cons_self),?_⟩
  show s.tokens.erase a.infoHash = _
  rw [tokens,List.erase_cons_head]

-- The token is destroyed when newConnection returns.
def dropToken (s : Connections) (done : a.acquire = some s) : Admission := {a with
  connections := released s a.infoHash
  counted := (acquired_released done).1
  owned := by
    rw [(acquired_released done).2]
    exact a.owned}

theorem freed_token {a : Admission} (killed : killFirstBad a.peers = some (left,true)) : a.infoHash ∈ a.connections.tokens := by
  have tokens := (killFirstBad_tokens killed).1
  have owned := a.owned
  exact List.count_pos_iff.mp (by simp only [Bool.toNat_true] at tokens; omega)

-- killBadPeer
def without (left : List LimitedPeer) (freed : Bool) (killed : killFirstBad a.peers = some (left,freed)) : Admission := {a with
  connections := if freed then released a.connections a.infoHash else a.connections
  counted := by
    cases freed with
    | true => exact Connections.destroyed_counted a.counted (freed_token killed)
    | false => exact a.counted
  peers := left
  owned := by
    have tokens := (killFirstBad_tokens killed).1
    have owned := a.owned
    cases freed with
    | true =>
        show _ ≤ (a.connections.tokens.erase a.infoHash).count a.infoHash
        rw [List.count_erase_self]
        simp only [Bool.toNat_true] at tokens
        omega
    | false =>
        show _ ≤ a.connections.tokens.count a.infoHash
        simp only [Bool.toNat_false] at tokens
        omega}

-- The constructor of Peer kills it where its address is 0.0.0.0.
def createPeer (anyAddress : Bool) (s : Connections) (done : a.acquire = some s) : Admission :=
  if anyAddress then {a.dropToken s done with
    peers := a.peers ++ [⟨0,true,false⟩]
    owned := by
      rw [List.countP_append]
      exact (a.dropToken s done).owned}
  else {a with
    connections := s
    counted := (acquire_cases done).1
    peers := a.peers ++ [⟨0,false,true⟩]
    owned := by
      have owned := a.owned
      rw [(acquire_cases done).2,List.countP_append,List.count_cons_self]
      exact Nat.add_le_add owned (Nat.le_refl 1)}

def newConnection (anyAddress : Bool) : Admission :=
  if !a.started then a
  else match done : a.acquire with
    | some s => a.dropToken s done
    | none => match killed : killFirstBad a.peers with
      | none => a
      | some (left,freed) =>
        match done : (a.without left freed killed).acquire with
        | none => a.without left freed killed
        | some s => (a.without left freed killed).createPeer anyAddress s done

-- acquire grants a token directly, or once a bad peer has been killed.
def Granted : Prop := a.acquire.isSome ∨
  ∃ left freed, ∃ killed : killFirstBad a.peers = some (left,freed), (a.without left freed killed).acquire.isSome

-- The incoming peer is added where there is room, and otherwise no token is kept.
structure Accepts (anyAddress : Bool) : Prop where
  added : (a.newConnection anyAddress).peers.length = a.peers.length + 1 ↔ a.Granted
  returned : (a.newConnection anyAddress).peers.length ≠ a.peers.length + 1 →
    (a.newConnection anyAddress).connections.tokens.Sublist a.connections.tokens

variable {a}

theorem without_tokens (killed : killFirstBad a.peers = some (left,freed)) :
    (a.without left freed killed).connections.tokens.Sublist a.connections.tokens := by
  cases freed with
  | true => exact List.erase_sublist
  | false => exact List.Sublist.refl _

theorem createPeer_length (anyAddress : Bool) (done : a.acquire = some s) : (a.createPeer anyAddress s done).peers.length = a.peers.length + 1 := by
  unfold createPeer
  cases anyAddress <;> simp

inductive Result (a : Admission) : Admission → Prop where
  | direct (done : a.acquire = some s) : Result a (a.dropToken s done)
  | noneBad (full : a.acquire = none) (good : killFirstBad a.peers = none) : Result a a
  | stillFull (full : a.acquire = none) (killed : killFirstBad a.peers = some (left,freed)) (still : (a.without left freed killed).acquire = none) :
      Result a (a.without left freed killed)
  | replaced (full : a.acquire = none) (killed : killFirstBad a.peers = some (left,freed))
      (done : (a.without left freed killed).acquire = some s) (after : Admission) (grown : after.peers.length = a.peers.length + 1) : Result a after

theorem newConnection_result (started : a.started = true) (anyAddress : Bool) : Result a (a.newConnection anyAddress) := by
  unfold newConnection
  rw [if_neg (by rw [started]; decide)]
  split
  · rename_i s done
    exact .direct done
  · rename_i full
    split
    · rename_i good
      exact .noneBad full good
    · rename_i left freed killed
      split
      · rename_i still
        exact .stillFull full killed still
      · rename_i s done
        refine .replaced full killed done _ ?_
        rw [createPeer_length]
        exact congrArg (· + 1) (killFirstBad_tokens killed).2

theorem newConnection_returned (started : a.started = true) (anyAddress : Bool) :
    (a.newConnection anyAddress).peers.length ≠ a.peers.length + 1 →
      (a.newConnection anyAddress).connections.tokens.Sublist a.connections.tokens := by
  have result := newConnection_result started anyAddress
  generalize a.newConnection anyAddress = b at result ⊢
  intro same
  cases result with
  | direct done =>
      show (released _ a.infoHash).tokens.Sublist _
      rw [(acquired_released done).2]
  | noneBad full good => exact List.Sublist.refl _
  | stillFull full killed still => exact without_tokens killed
  | replaced full killed done after grown => exact absurd grown same

-- Incoming connections are accepted as they should be if and only if no token is granted
-- directly. Where no peer is added no token is kept, also then.
theorem accepts_iff_full (started : a.started = true) (anyAddress : Bool) : (a.Accepts anyAddress ↔ a.acquire = none) ∧
    ((a.newConnection anyAddress).peers.length ≠ a.peers.length + 1 →
      (a.newConnection anyAddress).connections.tokens.Sublist a.connections.tokens) := by
  have returned := newConnection_returned started anyAddress
  have result := newConnection_result started anyAddress
  refine ⟨?_,returned⟩
  generalize after : a.newConnection anyAddress = b at result
  constructor
  · intro accepts
    cases result with
    | direct done =>
        have grown := accepts.added.mpr (Or.inl (by rw [done]; rfl))
        rw [after] at grown
        exact absurd grown (Nat.ne_of_lt (Nat.lt_succ_self _))
    | noneBad full good => exact full
    | stillFull full killed still => exact full
    | replaced full killed done after grown => exact full
  · intro full
    have direct : ¬ a.acquire.isSome := by
      rw [full]
      exact Bool.false_ne_true
    cases result with
    | direct done => cases full.symm.trans done
    | noneBad _ good =>
        refine ⟨?_,returned⟩
        rw [after]
        refine iff_of_false (Nat.ne_of_lt (Nat.lt_succ_self _)) ?_
        rintro (granted | ⟨left,freed,killed,_⟩)
        · exact direct granted
        · cases good.symm.trans killed
    | @stillFull left freed _ killed still =>
        refine ⟨?_,returned⟩
        rw [after]
        refine iff_of_false (fun grown => ?_) ?_
        · have same := (killFirstBad_tokens killed).2
          have : left.length = a.peers.length + 1 := grown
          omega
        · rintro (granted | ⟨left',freed',killed',granted⟩)
          · exact direct granted
          · cases killed.symm.trans killed'
            rw [still] at granted
            cases granted
    | @replaced left freed s _ killed done _ grown =>
        refine ⟨?_,returned⟩
        rw [after]
        exact iff_of_true grown (Or.inr ⟨left,freed,killed,by rw [done]; rfl⟩)

-- A limit of so many connections, all tokens of which are with bad peers of one torrent.
def ofBadPeers (system peers : Nat) (fits : peers ≤ ((Connections.new system).run (List.replicate peers (.acquire 7))).tokens.count 7) : Admission where
  started := true
  infoHash := 7
  connections := (Connections.new system).run (List.replicate peers (.acquire 7))
  counted := Connections.run_counted (Connections.new_counted system) _
  peers := List.replicate peers ⟨-10,false,true⟩
  owned := by
    rw [List.countP_replicate]
    exact fits

theorem bad_peer_replaced : (ofBadPeers 1 1 (by decide)).Accepts false ∧ ((ofBadPeers 1 1 (by decide)).newConnection false).peers.length = 2 :=
  ⟨(accepts_iff_full (a := ofBadPeers 1 1 (by decide)) rfl false).1.mpr (by rfl),by decide +kernel⟩

-- No peer is connected and there is room for five.
theorem room_refused : ¬ (ofBadPeers 5 0 (by decide)).Accepts false := by
  intro accepts
  have grown := accepts.added.mpr (Or.inl (by decide))
  revert grown
  decide +kernel

end Admission

end KtorrentStream.Peer
