import Mathlib.Data.List.Nodup
import Mathlib.Order.Lattice
import KtorrentStream.Lib.Along
import KtorrentStream.Util.BitSet
set_option autoImplicit true

namespace KtorrentStream.Torrent
open KtorrentStream.Util KtorrentStream.Lib

-- What the algorithm looks at in a peer, and what its choke and sendUnchoke change. The
-- scores are floating point numbers; here they only have an order.
structure Candidate (S : Type) where
  choked : Bool
  interested : Bool
  seeder : Bool
  partialSeed : Bool
  chunksAvailability : BitSet
  acaScore : S
  uploadRate : Nat
  hasUploadSlot : Bool
  -- the types of the packets that were put in its queue
  sent : List UInt8

namespace Candidate

def sendUnchoke (p : Candidate S) : Candidate S := if p.hasUploadSlot then p else {p with hasUploadSlot := true,sent := p.sent ++ [1]}

def choke (p : Candidate S) : Candidate S := if p.hasUploadSlot then {p with hasUploadSlot := false,sent := p.sent ++ [0]} else p

end Candidate

-- The peers by their ids; a Peer::Ptr is such an id.
abbrev Candidates (S : Type) := Nat → Candidate S

def Candidates.modify (peers : Candidates S) (p : Nat) (f : Candidate S → Candidate S) : Candidates S := Function.update peers p (f (peers p))

-- none is a null pointer. num_slots - 1 is that of a Uint32.
def doUnchoking (numSlots : UInt32) (poup : Option Nat) : List Nat → UInt32 → Candidates S → Candidates S
  | [],_,peers => peers
  | p :: rest,numUnchoked,peers =>
    if poup = none ∧ numUnchoked < numSlots then doUnchoking numSlots poup rest (numUnchoked + 1) (peers.modify p .sendUnchoke)
    else if numUnchoked < numSlots - 1 ∨ some p = poup then
      doUnchoking numSlots poup rest (if some p ≠ poup then numUnchoked + 1 else numUnchoked) (peers.modify p .sendUnchoke)
    else doUnchoking numSlots poup rest numUnchoked (peers.modify p .choke)

structure AdvancedChokeAlgorithm where
  optUnchokedPeerId : Option Nat
  lastOptSelTime : Nat

def optSelInterval : Nat := 30 * 1000

section
variable (peers : Candidates S)

-- The loop does not come to the peer it starts from. The condition that the list contains
-- the peer is always true.
def findFrom (ppl : List Nat) (start : Nat) : Nat → Nat → Option Nat
  | 0,_ => none
  | fuel + 1,i =>
    if i = start then none
    else match ppl[i]? with
      | none => none
      | some p =>
        if (peers p).choked && (peers p).interested && !(peers p).seeder then some p
        else findFrom ppl start fuel ((i + 1) % ppl.length)

-- none for UNDEFINED_ID
def findPlannedOptimisticUnchokedPeer (random : Nat) (ppl : List Nat) : Option Nat :=
  if ppl.length = 0 then none
  else
    let start := random % ppl.length
    findFrom peers ppl start ppl.length ((start + 1) % ppl.length)

def findPeer (peerMap : List Nat) (id : Option Nat) : Option Nat := id.filter (· ∈ peerMap)

-- now - last_opt_sel_time, two TimeStamps
def updateOptimisticPeer (a : AdvancedChokeAlgorithm) (now random : Nat) (peerMap ppl : List Nat) : AdvancedChokeAlgorithm × Option Nat :=
  let poup := findPeer peerMap a.optUnchokedPeerId
  if (now + 18446744073709551616 - a.lastOptSelTime) % 18446744073709551616 > optSelInterval ∨ poup = none then
    let id := findPlannedOptimisticUnchokedPeer peers random ppl
    (⟨id,now⟩,findPeer peerMap id)
  else (a,poup)

-- calcACAScore, as far as it decides who takes part.
def calcACAScore (ours : BitSet) (p : Candidate S) : Bool :=
  if p.seeder || p.partialSeed then false
  else if !((List.range ours.numBits).any fun i => ours.get i && !p.chunksAvailability.get i) || !p.interested then false
  else true

-- qSort need not be stable, so that the sorting is left open.
def doChoking (sort : List Nat → List Nat) (numSlots : UInt32) (ours : BitSet) (now random : Nat) (peerMap : List Nat)
    (a : AdvancedChokeAlgorithm) : AdvancedChokeAlgorithm × Candidates S :=
  let left := (peerMap.filter fun p => !calcACAScore ours (peers p)).foldl (fun peers p => peers.modify p .choke) peers
  let ppl := sort (peerMap.filter fun p => calcACAScore ours (peers p))
  let chosen := updateOptimisticPeer left a now random peerMap ppl
  (chosen.1,doUnchoking numSlots chosen.2 ppl 0 left)

end

def acaGreaterThan [LT S] [DecidableLT S] (peers : Candidates S) (a b : Nat) : Bool := (peers a).acaScore > (peers b).acaScore

def uploadRateGreaterThan (peers : Candidates S) (a b : Nat) : Bool := (peers a).uploadRate > (peers b).uploadRate

def doChokingLeechingState [LT S] [DecidableLT S] (qSort : (Nat → Nat → Bool) → List Nat → List Nat) (peers : Candidates S) :=
  doChoking peers (qSort (acaGreaterThan peers))

def doChokingSeedingState (qSort : (Nat → Nat → Bool) → List Nat → List Nat) (peers : Candidates S) :=
  doChoking peers (qSort (uploadRateGreaterThan peers))

-- Who has to have a slot: as many as there are, the optimistic peer if it takes part, and
-- of the others those that come first.
structure SlotsFilled (n : Nat) (poup : Option Nat) (ppl : List Nat) (slot : Nat → Bool) : Prop where
  count : (ppl.filter slot).length = min n ppl.length
  optimistic : 0 < n → ∀ p ∈ ppl, poup = some p → slot p = true
  best : (ppl.filter fun p => some p ≠ poup).Pairwise fun p q => slot q = true → slot p = true

-- The loop as a list of peers

-- When the peer gets a slot that the loop comes to after so many others.
def Serves (n : UInt32) (poup : Option Nat) (numUnchoked : UInt32) (p : Nat) : Prop :=
  poup = none ∧ numUnchoked < n ∨ numUnchoked < n - 1 ∨ some p = poup

instance : Decidable (Serves n poup numUnchoked p) := by unfold Serves; infer_instance

def counted (poup : Option Nat) (numUnchoked : UInt32) (p : Nat) : UInt32 := if some p ≠ poup then numUnchoked + 1 else numUnchoked

def unchoked (n : UInt32) (poup : Option Nat) : List Nat → UInt32 → List Nat
  | [],_ => []
  | p :: rest,numUnchoked =>
    if Serves n poup numUnchoked p then p :: unchoked n poup rest (counted poup numUnchoked p)
    else unchoked n poup rest numUnchoked

section
variable {n numUnchoked : UInt32} {poup : Option Nat} {ppl : List Nat} {peers : Candidates S}

theorem sendUnchoke_slot (p : Candidate S) : p.sendUnchoke.hasUploadSlot = true := by
  unfold Candidate.sendUnchoke
  split
  · assumption
  · rfl

theorem choke_slot (p : Candidate S) : p.choke.hasUploadSlot = false := by
  unfold Candidate.choke
  split
  · rfl
  · rename_i off
    exact (Bool.not_eq_true _).mp off

theorem modify_self (peers : Candidates S) (p : Nat) (f : Candidate S → Candidate S) : peers.modify p f p = f (peers p) :=
  Function.update_self ..

theorem modify_other (peers : Candidates S) (f : Candidate S → Candidate S) (other : q ≠ p) : peers.modify p f q = peers q :=
  Function.update_of_ne other ..

theorem doUnchoking_cons (n : UInt32) (poup : Option Nat) (p : Nat) (rest : List Nat) (numUnchoked : UInt32) (peers : Candidates S) :
    doUnchoking n poup (p :: rest) numUnchoked peers =
      if Serves n poup numUnchoked p then doUnchoking n poup rest (counted poup numUnchoked p) (peers.modify p .sendUnchoke)
      else doUnchoking n poup rest numUnchoked (peers.modify p .choke) := by
  rw [doUnchoking]
  unfold counted
  by_cases first : poup = none ∧ numUnchoked < n
  · have serves : Serves n poup numUnchoked p := .inl first
    have other : some p ≠ poup := by
      rw [first.1]
      exact Option.some_ne_none p
    rw [if_pos first,if_pos serves,if_pos other]
  · rw [if_neg first]
    by_cases second : numUnchoked < n - 1 ∨ some p = poup
    · have serves : Serves n poup numUnchoked p := .inr second
      rw [if_pos second,if_pos serves]
    · have refused : ¬ Serves n poup numUnchoked p := fun serves => serves.elim first second
      rw [if_neg second,if_neg refused]

theorem unchoked_sublist (n : UInt32) (poup : Option Nat) (ppl : List Nat) (numUnchoked : UInt32) :
    (unchoked n poup ppl numUnchoked).Sublist ppl := by
  induction ppl generalizing numUnchoked with
  | nil => exact .refl _
  | cons p rest ih =>
    rw [unchoked]
    split
    · exact (ih _).cons_cons p
    · exact (ih _).cons p

theorem doUnchoking_other (absent : q ∉ ppl) : doUnchoking n poup ppl numUnchoked peers q = peers q := by
  induction ppl generalizing numUnchoked peers with
  | nil => rfl
  | cons p rest ih =>
    obtain ⟨other,later⟩ := not_or.mp (mt List.mem_cons.mpr absent)
    rw [doUnchoking_cons]
    split
    · rw [ih later,modify_other peers _ other]
    · rw [ih later,modify_other peers _ other]

theorem doUnchoking_slot (distinct : ppl.Nodup) (member : q ∈ ppl) :
    (doUnchoking n poup ppl numUnchoked peers q).hasUploadSlot = decide (q ∈ unchoked n poup ppl numUnchoked) := by
  induction ppl generalizing numUnchoked peers with
  | nil => cases member
  | cons p rest ih =>
    obtain ⟨fresh,distinct⟩ := List.nodup_cons.mp distinct
    rw [doUnchoking_cons,unchoked]
    by_cases serves : Serves n poup numUnchoked p
    · rw [if_pos serves,if_pos serves]
      rcases List.mem_cons.mp member with rfl | later
      · rw [doUnchoking_other fresh,modify_self,sendUnchoke_slot]
        exact (decide_eq_true List.mem_cons_self).symm
      · have other : q ≠ p := fun same => fresh (same ▸ later)
        rw [ih distinct later]
        simp [other]
    · rw [if_neg serves,if_neg serves]
      rcases List.mem_cons.mp member with rfl | later
      · rw [doUnchoking_other fresh,modify_self,choke_slot]
        exact (decide_eq_false fun there => fresh ((unchoked_sublist ..).subset there)).symm
      · exact ih distinct later

-- Slots that are left for the others when the optimistic peer has one.
def cap (n : UInt32) (poup : Option Nat) : Nat := if poup = none then n.toNat else n.toNat - 1

theorem serves_iff (some_slots : 0 < n.toNat) (p : Nat) :
    Serves n poup numUnchoked p ↔ numUnchoked.toNat < cap n poup ∨ some p = poup := by
  have one : (1 : UInt32) ≤ n := UInt32.le_iff_toNat_le.mpr some_slots
  have less : (n - 1).toNat = n.toNat - 1 := UInt32.toNat_sub_of_le _ _ one
  unfold Serves cap
  rw [UInt32.lt_iff_toNat_lt,UInt32.lt_iff_toNat_lt,less]
  by_cases none : poup = none
  · rw [if_pos none]
    simp only [none,true_and,reduceCtorEq,or_false]
    omega
  · rw [if_neg none]
    simp only [none,false_and,false_or]

-- Without slots everybody in the list is served.
theorem unchoked_all (few : numUnchoked.toNat + ppl.length < 4294967295) : unchoked 0 poup ppl numUnchoked = ppl := by
  induction ppl generalizing numUnchoked with
  | nil => rfl
  | cons p rest ih =>
    rw [List.length_cons] at few
    have serves : Serves 0 poup numUnchoked p := by
      refine .inr (.inl (UInt32.lt_iff_toNat_lt.mpr ?_))
      rw [show ((0 : UInt32) - 1).toNat = 4294967295 from rfl]
      omega
    have next : (counted poup numUnchoked p).toNat ≤ numUnchoked.toNat + 1 := by
      unfold counted
      split
      · rw [UInt32.toNat_add,UInt32.toNat_one]
        exact Nat.mod_le _ _
      · exact Nat.le_succ _
    rw [unchoked,if_pos serves,ih (by omega)]

theorem cap_le (n : UInt32) (poup : Option Nat) : cap n poup ≤ n.toNat := by
  unfold cap
  split <;> omega

theorem unchoked_others (some_slots : 0 < n.toNat) (room : numUnchoked.toNat ≤ cap n poup) (ppl : List Nat) :
    (unchoked n poup ppl numUnchoked).filter (fun p => some p ≠ poup) =
      (ppl.filter fun p => some p ≠ poup).take (cap n poup - numUnchoked.toNat) := by
  induction ppl generalizing numUnchoked with
  | nil => simp [unchoked]
  | cons p rest ih =>
    rw [unchoked]
    by_cases optimistic : some p = poup
    · rw [if_pos ((serves_iff some_slots p).mpr (.inr optimistic)),List.filter_cons_of_neg (by simpa using optimistic),
        List.filter_cons_of_neg (by simpa using optimistic),counted,if_neg (by simpa using optimistic)]
      exact ih room
    · rw [List.filter_cons_of_pos (a := p) (l := rest) (by simpa using optimistic)]
      by_cases left : numUnchoked.toNat < cap n poup
      · have small : numUnchoked.toNat + 1 < 4294967296 := by
          have bound := cap_le n poup
          have top := n.toNat_lt
          omega
        have next : (numUnchoked + 1).toNat = numUnchoked.toNat + 1 := by
          rw [UInt32.toNat_add]
          exact Nat.mod_eq_of_lt small
        rw [if_pos ((serves_iff some_slots p).mpr (.inl left)),List.filter_cons_of_pos (by simpa using optimistic),counted,
          if_pos optimistic,ih (by rw [next]; exact left),next,
          show cap n poup - numUnchoked.toNat = (cap n poup - (numUnchoked.toNat + 1)) + 1 by omega,List.take_succ_cons]
      · have full : cap n poup - numUnchoked.toNat = 0 := by omega
        rw [if_neg (fun serves => ((serves_iff some_slots p).mp serves).elim left optimistic),ih room,full,List.take_zero,
          List.take_zero]

theorem unchoked_optimistic (some_slots : 0 < n.toNat) (numUnchoked : UInt32) (member : p ∈ ppl) (optimistic : poup = some p) :
    p ∈ unchoked n poup ppl numUnchoked := by
  induction ppl generalizing numUnchoked with
  | nil => cases member
  | cons q rest ih =>
    rw [unchoked]
    rcases List.mem_cons.mp member with rfl | later
    · rw [if_pos ((serves_iff some_slots p).mpr (.inr optimistic.symm))]
      exact List.mem_cons_self
    · split
      · exact List.mem_cons_of_mem _ (ih _ later)
      · exact ih _ later

theorem others_length (distinct : ppl.Nodup) (poup : Option Nat) :
    (ppl.filter fun p => some p ≠ poup).length + (if ∃ p ∈ ppl, poup = some p then 1 else 0) = ppl.length := by
  cases poup with
  | none => simp
  | some o =>
    have split := List.length_eq_countP_add_countP (fun p => decide (some p ≠ some o)) (l := ppl)
    rw [List.countP_eq_length_filter] at split
    rw [split]
    congr 1
    by_cases member : o ∈ ppl
    · rw [if_pos ⟨o,member,rfl⟩]
      have once : ppl.count o = 1 := List.count_eq_one_of_mem distinct member
      rw [← once]
      exact List.countP_congr fun p _ => by simp
    · rw [if_neg (by rintro ⟨p,there,same⟩; exact member (Option.some.inj same ▸ there)),eq_comm,List.countP_eq_zero]
      intro p there
      have other : p ≠ o := fun same => member (same ▸ there)
      simpa using other

theorem slots_length (distinct : ppl.Nodup) (peers : Candidates S) :
    (ppl.filter fun p => (doUnchoking n poup ppl numUnchoked peers p).hasUploadSlot).length = (unchoked n poup ppl numUnchoked).length := by
  have sub := unchoked_sublist n poup ppl numUnchoked
  apply List.Perm.length_eq
  rw [List.perm_ext_iff_of_nodup (distinct.filter _) (distinct.sublist sub)]
  intro p
  rw [List.mem_filter]
  constructor
  · rintro ⟨member,slot⟩
    rw [doUnchoking_slot distinct member,decide_eq_true_eq] at slot
    exact slot
  · intro served
    refine ⟨sub.subset served,?_⟩
    rw [doUnchoking_slot distinct (sub.subset served),decide_eq_true_eq]
    exact served

-- With slots: the others that have one are the first ones, and the optimistic peer has one.
theorem unchoked_length (distinct : ppl.Nodup) (some_slots : 0 < n.toNat) :
    (unchoked n poup ppl 0).length =
      min (cap n poup) (ppl.filter fun p => some p ≠ poup).length + if ∃ p ∈ ppl, poup = some p then 1 else 0 := by
  have sub := unchoked_sublist n poup ppl 0
  rw [← others_length (distinct.sublist sub) poup,unchoked_others some_slots (Nat.zero_le _),List.length_take]
  have same : (∃ p ∈ unchoked n poup ppl 0, poup = some p) ↔ ∃ p ∈ ppl, poup = some p := by
    constructor
    · rintro ⟨p,member,optimistic⟩
      exact ⟨p,sub.subset member,optimistic⟩
    · rintro ⟨p,member,optimistic⟩
      exact ⟨p,unchoked_optimistic some_slots 0 member optimistic,optimistic⟩
  simp only [same]
  rfl

theorem take_pairwise {l : List Nat} (distinct : l.Nodup) (m : Nat) : l.Pairwise fun p q => q ∈ l.take m → p ∈ l.take m := by
  induction l generalizing m with
  | nil => exact .nil
  | cons first rest ih =>
    obtain ⟨fresh,distinct⟩ := List.nodup_cons.mp distinct
    cases m with
    | zero => exact .imp (fun _ none => by cases none) (List.pairwise_of_forall fun _ _ => trivial)
    | succ m =>
      rw [List.take_succ_cons]
      refine .cons (fun q _ _ => List.mem_cons_self) ((ih distinct m).imp_of_mem fun {p q} _ inQ earlier there => ?_)
      rcases List.mem_cons.mp there with rfl | later
      · exact absurd inQ fresh
      · exact List.mem_cons_of_mem _ (earlier later)

theorem unchoked_none (no_slots : n.toNat = 0) (p : Nat) (rest : List Nat) : unchoked n poup (p :: rest) 0 ≠ [] := by
  have zero : n = 0 := UInt32.toNat_inj.mp no_slots
  have serves : Serves n poup 0 p := by
    rw [zero]
    exact .inr (.inl (by decide))
  rw [unchoked,if_pos serves]
  exact List.cons_ne_nil _ _

end

theorem doUnchoking_slots (n : UInt32) (poup : Option Nat) (ppl : List Nat) (distinct : ppl.Nodup) (peers : Candidates S) :
    SlotsFilled n.toNat poup ppl (fun p => (doUnchoking n poup ppl 0 peers p).hasUploadSlot) ↔
      ppl = [] ∨ 0 < n.toNat ∧ (poup = none ∨ (∃ p ∈ ppl, poup = some p) ∨ ppl.length < n.toNat) := by
  have others := others_length distinct poup
  constructor
  · intro filled
    have count := filled.count
    rw [slots_length distinct] at count
    by_cases some_slots : 0 < n.toNat
    · rw [unchoked_length distinct some_slots] at count
      by_cases none : poup = none
      · exact .inr ⟨some_slots,.inl none⟩
      · unfold cap at count
        rw [if_neg none] at count
        split at count
        · rename_i present
          exact .inr ⟨some_slots,.inr (.inl present)⟩
        · rename_i absent
          rw [if_neg absent] at others
          by_cases empty : ppl = []
          · exact .inl empty
          · have more : 0 < ppl.length := List.length_pos_iff.mpr empty
            exact .inr ⟨some_slots,.inr (.inr (by omega))⟩
    · have zero : n.toNat = 0 := by omega
      rw [zero,Nat.zero_min,List.length_eq_zero_iff] at count
      cases ppl with
      | nil => exact .inl rfl
      | cons p rest => exact absurd count (unchoked_none zero p rest)
  · rintro (rfl | ⟨some_slots,enough⟩)
    · refine ⟨(Nat.min_zero _).symm,fun _ p member => ?_,.nil⟩
      cases member
    · have slot : ∀ p ∈ ppl, (doUnchoking n poup ppl 0 peers p).hasUploadSlot = true ↔ p ∈ unchoked n poup ppl 0 := by
        intro p member
        rw [doUnchoking_slot distinct member,decide_eq_true_eq]
      refine ⟨?_,?_,?_⟩
      · rw [slots_length distinct,unchoked_length distinct some_slots]
        unfold cap
        by_cases none : poup = none
        · have absent : ¬ ∃ p ∈ ppl, poup = some p := by
            rintro ⟨_,_,same⟩
            rw [none] at same
            cases same
          rw [if_pos none]
          rw [if_neg absent] at others ⊢
          omega
        · rw [if_neg none]
          by_cases present : ∃ p ∈ ppl, poup = some p
          · rw [if_pos present] at others ⊢
            omega
          · have few : ppl.length < n.toNat := (enough.resolve_left none).resolve_left present
            rw [if_neg present] at others ⊢
            omega
      · intro _ p member optimistic
        exact (slot p member).mpr (unchoked_optimistic some_slots 0 member optimistic)
      · refine (take_pairwise (distinct.filter _) (cap n poup)).imp_of_mem fun {p q} inP inQ first served => ?_
        have given : (unchoked n poup ppl 0).filter (fun p => some p ≠ poup) =
            (ppl.filter fun p => some p ≠ poup).take (cap n poup - (0 : UInt32).toNat) := unchoked_others some_slots (Nat.zero_le _) ppl
        rw [show cap n poup - (0 : UInt32).toNat = cap n poup from rfl] at given
        obtain ⟨memberP,otherP⟩ := List.mem_filter.mp inP
        obtain ⟨memberQ,otherQ⟩ := List.mem_filter.mp inQ
        rw [← given,List.mem_filter,List.mem_filter] at first
        exact (slot p memberP).mpr (first ⟨(slot q memberQ).mp served,otherQ⟩).1

def downloader : Candidate Nat := ⟨true,true,false,false,.new 1,0,0,false,[]⟩

theorem three_slots_filled : [4,5,6,7].Nodup ∧ 0 < (3 : UInt32).toNat ∧
    SlotsFilled 3 (some 6) [4,5,6,7] (fun p => (doUnchoking 3 (some 6) [4,5,6,7] 0 (fun _ => downloader) p).hasUploadSlot) :=
  ⟨by decide,by decide,(doUnchoking_slots 3 (some 6) [4,5,6,7] (by decide) fun _ => downloader).mpr
    (.inr ⟨by decide,.inr (.inl ⟨6,by decide,rfl⟩)⟩)⟩

-- The slot that is kept for an optimistic peer that does not take part stays empty, and
-- without slots everybody has one.
theorem slot_unused :
    ¬ SlotsFilled 2 (some 3) [4,5] (fun p => (doUnchoking 2 (some 3) [4,5] 0 (fun _ => downloader) p).hasUploadSlot) ∧
      ¬ SlotsFilled 0 none [4,5] (fun p => (doUnchoking 0 none [4,5] 0 (fun _ => downloader) p).hasUploadSlot) :=
  ⟨fun filled => absurd filled.count (by decide +kernel),fun filled => absurd filled.count (by decide +kernel)⟩

-- The torrent's peers, and the rounds of choking

-- What qSort gives for any strict weak order.
structure Sorts (qSort : (Nat → Nat → Bool) → List Nat → List Nat) : Prop where
  perm : ∀ lessThan l, (qSort lessThan l).Perm l
  sorted : ∀ lessThan : Nat → Nat → Bool, (∀ a b, lessThan a b = true → lessThan b a = false) →
    (∀ a b c, lessThan a b = false → lessThan b c = false → lessThan a c = false) →
      ∀ l, (qSort lessThan l).Pairwise fun a b => lessThan b a = false

-- The optimistic peer is to be chosen anew.
def Due (peerMap : List Nat) (now : Nat) (a : AdvancedChokeAlgorithm) : Prop :=
  (now + 18446744073709551616 - a.lastOptSelTime) % 18446744073709551616 > optSelInterval ∨ findPeer peerMap a.optUnchokedPeerId = none

structure Choker (S : Type) where
  peerMap : List Nat
  peers : Candidates S
  peerIdCounter : Nat
  choke : AdvancedChokeAlgorithm

namespace Choker

-- Peers that are not there yet are taken to be like no_one.
def start (noOne : Candidate S) : Choker S := ⟨[],fun _ => {noOne with hasUploadSlot := false,sent := []},1,⟨some 0,0⟩⟩

-- stats: everything but its slot changes in a peer, by its packets and by the timers.
inductive Event (S : Type)
  | newPeer (stats : Candidate S)
  | peerKilled (id : Nat)
  | stats (id : Nat) (now : Candidate S)
  | pause
  | update (haveAll : Bool) (numUploadSlots : UInt32) (ours : BitSet) (now random : Nat)

def round [LT S] [DecidableLT S] (qSort : (Nat → Nat → Bool) → List Nat → List Nat) (haveAll : Bool) (numUploadSlots : UInt32) (ours : BitSet)
    (now random : Nat) (c : Choker S) : Choker S :=
  let done :=
    if haveAll then doChokingSeedingState qSort c.peers numUploadSlots ours now random c.peerMap c.choke
    else doChokingLeechingState qSort c.peers numUploadSlots ours now random c.peerMap c.choke
  {c with choke := done.1,peers := done.2}

def step [LT S] [DecidableLT S] (qSort : (Nat → Nat → Bool) → List Nat → List Nat) (c : Choker S) : Event S → Choker S
  | .newPeer stats => {c with
      peerMap := c.peerMap ++ [c.peerIdCounter]
      peers := Function.update c.peers c.peerIdCounter {stats with hasUploadSlot := false,sent := []}
      peerIdCounter := c.peerIdCounter + 1}
  | .peerKilled id => {c with peerMap := c.peerMap.filter (· ≠ id)}
  | .stats id now => {c with peers := c.peers.modify id fun p => {now with hasUploadSlot := p.hasUploadSlot,sent := p.sent}}
  | .pause => {c with peers := c.peerMap.foldl (fun peers p => peers.modify p .choke) c.peers}
  | .update haveAll numUploadSlots ours now random => c.round qSort haveAll numUploadSlots ours now random

def greater [LT S] [DecidableLT S] (haveAll : Bool) (c : Choker S) : Nat → Nat → Bool :=
  if haveAll then uploadRateGreaterThan c.peers else acaGreaterThan c.peers

-- Who takes part in a round, and who has a slot.
def takers (ours : BitSet) (c : Choker S) : List Nat := c.peerMap.filter fun p => calcACAScore ours (c.peers p)

def slots (c : Choker S) : List Nat := c.peerMap.filter fun p => (c.peers p).hasUploadSlot

def poup (c : Choker S) : Option Nat := findPeer c.peerMap c.choke.optUnchokedPeerId

-- Whether a peer may become the optimistic one.
def Eligible (p : Candidate S) : Prop := p.choked = true ∧ p.interested = true ∧ p.seeder = false

-- What a round of c brings about in c'. With no slots num_slots - 1 is the greatest Uint32.
structure Round [LT S] [DecidableLT S] (haveAll : Bool) (n : Nat) (ours : BitSet) (now : Nat) (c c' : Choker S) : Prop where
  taking : ∀ p ∈ c'.slots, p ∈ c.takers ours
  count : 0 < n → (∀ p, c'.poup = some p → p ∈ c.takers ours) → c'.slots.length = min n (c.takers ours).length
  spare : 0 < n → ∀ p, c'.poup = some p → p ∉ c.takers ours → c'.slots.length = min (n - 1) (c.takers ours).length
  best : 0 < n → ∀ p ∈ c.takers ours, ∀ q ∈ c.takers ours, some p ≠ c'.poup → some q ≠ c'.poup → c.greater haveAll p q = true → q ∈ c'.slots → p ∈ c'.slots
  optimistic : 0 < n → ∀ p ∈ c.takers ours, c'.poup = some p → p ∈ c'.slots
  slotless : n = 0 → (c.takers ours).length < 4294967295 → ∀ p ∈ c.takers ours, p ∈ c'.slots
  kept : ¬ Due c.peerMap now c.choke → c'.choke = c.choke
  chosen : Due c.peerMap now c.choke → c'.choke.lastOptSelTime = now ∧
    (∀ p, c'.choke.optUnchokedPeerId = some p → p ∈ c.takers ours ∧ Eligible (c.peers p)) ∧
    (c'.choke.optUnchokedPeerId = none → ∃ missed, ∀ p ∈ c.takers ours, p ≠ missed → ¬ Eligible (c.peers p))

-- The peer was told in turns that it is unchoked and that it is choked.
def Told (p : Candidate S) : Prop := ∃ k, p.sent = (List.range k).map (fun i => if i % 2 = 0 then 1 else 0) ∧ p.hasUploadSlot = decide (k % 2 = 1)

def Event.isUpdate : Event S → Bool
  | .update _ _ _ _ _ => true
  | _ => false

-- No round comes too late for the optimistic peer that was chosen at that time.
def Event.Within (since : Nat) : Event S → Prop
  | .update _ _ _ now _ => (now + 18446744073709551616 - since) % 18446744073709551616 ≤ optSelInterval
  | _ => True

def run [LT S] [DecidableLT S] (qSort : (Nat → Nat → Bool) → List Nat → List Nat) (noOne : Candidate S) (events : List (Event S)) : Choker S :=
  events.foldl (step qSort) (start noOne)

-- What holds after a run, of its end and of all that led to it.
structure WellServed [LT S] [DecidableLT S] (qSort : (Nat → Nat → Bool) → List Nat → List Nat) (noOne : Candidate S) (events : List (Event S)) : Prop where
  told : ∀ p, Told ((run qSort noOne events).peers p)
  rounds : ∀ haveAll n ours now random, Round haveAll n.toNat ours now (run qSort noOne events)
    ((run qSort noOne events).step qSort (.update haveAll n ours now random))
  bounded : ∀ before haveAll n ours now random after, events = before ++ .update haveAll n ours now random :: after →
    (∀ e ∈ after, e.isUpdate = false) → 0 < n.toNat → (run qSort noOne events).slots.length ≤ n.toNat
  stays : ∀ before after p, events = before ++ after → (run qSort noOne before).choke.optUnchokedPeerId = some p →
    p ∈ (run qSort noOne before).peerMap → p ∈ (run qSort noOne events).peerMap →
      (∀ e ∈ after, e.Within (run qSort noOne before).choke.lastOptSelTime) → (run qSort noOne events).choke = (run qSort noOne before).choke

end Choker

section
variable {peers : Candidates S} {n numUnchoked : UInt32} {poup : Option Nat} {ppl : List Nat} {greater : Nat → Nat → Bool}

theorem choke_off {p : Candidate S} (off : p.hasUploadSlot = false) : p.choke = p := if_neg (by rw [off]; exact Bool.false_ne_true)

theorem chokeAll_eq (l : List Nat) (peers : Candidates S) (p : Nat) :
    l.foldl (fun peers p => peers.modify p Candidate.choke) peers p = if p ∈ l then (peers p).choke else peers p := by
  apply foldl_local (f := fun peers : Candidates S => peers p) (g := Candidate.choke) (c := p)
  · intro q
    exact choke_off (choke_slot q)
  · intro peers i
    by_cases here : p = i
    · rw [if_pos here,here,modify_self]
    · rw [if_neg here,modify_other peers _ here]

-- Of two peers in the list that are not the optimistic one, the one that comes first is served first.
theorem doUnchoking_best (distinct : ppl.Nodup) (sorted : ppl.Pairwise fun a b => greater b a = false) (some_slots : 0 < n.toNat)
    (inP : p ∈ ppl) (inQ : q ∈ ppl) (otherP : some p ≠ poup) (otherQ : some q ≠ poup) (more : greater p q = true)
    (slot : (doUnchoking n poup ppl 0 peers q).hasUploadSlot = true) : (doUnchoking n poup ppl 0 peers p).hasUploadSlot = true := by
  rw [doUnchoking_slot distinct inQ,decide_eq_true_eq] at slot
  rw [doUnchoking_slot distinct inP,decide_eq_true_eq]
  have given : (unchoked n poup ppl 0).filter (fun p => some p ≠ poup) =
      (ppl.filter fun p => some p ≠ poup).take (cap n poup - (0 : UInt32).toNat) := unchoked_others some_slots (Nat.zero_le _) ppl
  generalize cap n poup - (0 : UInt32).toNat = m at given
  have both := (sorted.filter (fun p => decide (some p ≠ poup))).and (take_pairwise (distinct.filter (fun p => decide (some p ≠ poup))) m)
  rw [← given] at both
  have fair : (ppl.filter fun p => some p ≠ poup).Pairwise fun a b =>
      (greater a b = true → b ∈ unchoked n poup ppl 0 → a ∈ unchoked n poup ppl 0) ∧
        (greater b a = true → a ∈ unchoked n poup ppl 0 → b ∈ unchoked n poup ppl 0) := by
    refine both.imp_of_mem fun {a b} _ inB order => ?_
    refine ⟨fun _ served => ?_,fun wrong => ?_⟩
    · exact (List.mem_filter.mp (order.2 (List.mem_filter.mpr ⟨served,(List.mem_filter.mp inB).2⟩))).1
    · rw [order.1] at wrong
      cases wrong
  have other (x : Nat) (here : x ∈ ppl) (apart : some x ≠ poup) : x ∈ ppl.filter fun p => some p ≠ poup :=
    List.mem_filter.mpr ⟨here,decide_eq_true apart⟩
  exact (fair.forall_of_forall_of_flip (fun _ _ => ⟨fun _ => id,fun _ => id⟩) (fair.imp And.symm)
    (other p inP otherP) (other q inQ otherQ)).1 more slot

theorem doUnchoking_keeps {P : Candidate S → Prop} (unchoke : ∀ p, P p → P p.sendUnchoke) (choke : ∀ p, P p → P p.choke)
    (all : ∀ p, P (peers p)) (p : Nat) : P (doUnchoking n poup ppl numUnchoked peers p) := by
  induction ppl generalizing numUnchoked peers with
  | nil => exact all p
  | cons first rest ih =>
      rw [doUnchoking_cons]
      split
      · apply ih
        intro q
        by_cases here : q = first
        · rw [here,modify_self]
          exact unchoke _ (all first)
        · rw [modify_other peers _ here]
          exact all q
      · apply ih
        intro q
        by_cases here : q = first
        · rw [here,modify_self]
          exact choke _ (all first)
        · rw [modify_other peers _ here]
          exact all q

theorem chokeAll_keeps {P : Candidate S → Prop} (choke : ∀ p, P p → P p.choke) (all : ∀ p, P (peers p)) (l : List Nat) (p : Nat) :
    P (l.foldl (fun peers p => peers.modify p Candidate.choke) peers p) := by
  rw [chokeAll_eq]
  split
  · exact choke _ (all p)
  · exact all p

-- The search for the optimistic peer comes to everybody but the one it starts from.
theorem findFrom_some (found : findFrom peers ppl start fuel i = some p) : p ∈ ppl ∧ Choker.Eligible (peers p) := by
  induction fuel generalizing i with
  | zero => cases found
  | succ fuel ih =>
      unfold findFrom at found
      split at found
      · cases found
      · split at found
        · cases found
        · rename_i q there
          split at found
          · rename_i test
            cases found
            simp only [Bool.and_eq_true,Bool.not_eq_true'] at test
            exact ⟨List.mem_of_getElem? there,test.1.1,test.1.2,test.2⟩
          · exact ih found

theorem turn_ne {start k length : Nat} (first : start < length) (begun : 0 < k) (before : k < length) : (start + k) % length ≠ start := by
  by_cases inside : start + k < length
  · rw [Nat.mod_eq_of_lt inside]
    omega
  · rw [Nat.mod_eq_sub_mod (by omega),Nat.mod_eq_of_lt (by omega)]
    omega

theorem findFrom_none (first : start < ppl.length) (begun : 0 < k) (enough : ppl.length ≤ k + fuel)
    (nobody : findFrom peers ppl start fuel ((start + k) % ppl.length) = none) (later : k ≤ j) (before : j < ppl.length)
    (there : ppl[(start + j) % ppl.length]? = some p) : ¬ Choker.Eligible (peers p) := by
  induction fuel generalizing k with
  | zero => omega
  | succ fuel ih =>
      have inside : (start + k) % ppl.length < ppl.length := Nat.mod_lt _ (by omega)
      unfold findFrom at nobody
      rw [if_neg (turn_ne first begun (by omega)),List.getElem?_eq_getElem inside] at nobody
      dsimp only at nobody
      split at nobody
      · cases nobody
      · rename_i test
        rcases Nat.lt_or_eq_of_le later with more | rfl
        · rw [Nat.mod_add_mod] at nobody
          exact ih (Nat.succ_pos k) (by omega) nobody more
        · rw [List.getElem?_eq_getElem inside] at there
          cases there
          rintro ⟨choked,interested,leecher⟩
          rw [choked,interested,leecher] at test
          exact test rfl

theorem findPlanned_some (found : findPlannedOptimisticUnchokedPeer peers random ppl = some p) : p ∈ ppl ∧ Choker.Eligible (peers p) := by
  unfold findPlannedOptimisticUnchokedPeer at found
  split at found
  · cases found
  · exact findFrom_some found

-- Nobody is missed but one.
theorem findPlanned_none (nobody : findPlannedOptimisticUnchokedPeer peers random ppl = none) :
    ∃ missed, ∀ p ∈ ppl, p ≠ missed → ¬ Choker.Eligible (peers p) := by
  unfold findPlannedOptimisticUnchokedPeer at nobody
  split at nobody
  · rename_i empty
    refine ⟨0,fun p member => ?_⟩
    rw [List.length_eq_zero_iff.mp empty] at member
    cases member
  · rename_i some_
    have first : random % ppl.length < ppl.length := Nat.mod_lt _ (by omega)
    dsimp only at nobody
    generalize random % ppl.length = start at first nobody
    refine ⟨ppl[start],fun p member apart => ?_⟩
    obtain ⟨i,inside,rfl⟩ := List.getElem_of_mem member
    have other : i ≠ start := fun same => apart (by subst same; rfl)
    have reach : ∃ j, 1 ≤ j ∧ j < ppl.length ∧ (start + j) % ppl.length = i := by
      rcases Nat.lt_or_gt_of_ne other with below | above
      · refine ⟨i + ppl.length - start,by omega,by omega,?_⟩
        rw [show start + (i + ppl.length - start) = i + ppl.length by omega,Nat.add_mod_right,Nat.mod_eq_of_lt inside]
      · refine ⟨i - start,by omega,by omega,?_⟩
        rw [Nat.add_sub_cancel' (by omega),Nat.mod_eq_of_lt inside]
    obtain ⟨j,later,before,place⟩ := reach
    exact findFrom_none first Nat.one_pos (by omega) nobody later before (by rw [place]; exact List.getElem?_eq_getElem inside)

end

section
variable {peers : Candidates S} {a : AdvancedChokeAlgorithm} {now : Nat} {peerMap : List Nat}

theorem updateOptimisticPeer_due (due : Due peerMap now a) (random : Nat) (ppl : List Nat) :
    updateOptimisticPeer peers a now random peerMap ppl =
      (⟨findPlannedOptimisticUnchokedPeer peers random ppl,now⟩,findPeer peerMap (findPlannedOptimisticUnchokedPeer peers random ppl)) := if_pos due

theorem updateOptimisticPeer_early (early : ¬ Due peerMap now a) (random : Nat) (ppl : List Nat) :
    updateOptimisticPeer peers a now random peerMap ppl = (a,findPeer peerMap a.optUnchokedPeerId) := if_neg early

theorem updateOptimisticPeer_found (peers : Candidates S) (a : AdvancedChokeAlgorithm) (now random : Nat) (peerMap ppl : List Nat) :
    (updateOptimisticPeer peers a now random peerMap ppl).2 =
      findPeer peerMap (updateOptimisticPeer peers a now random peerMap ppl).1.optUnchokedPeerId := by
  by_cases due : Due peerMap now a
  · rw [updateOptimisticPeer_due due]
  · rw [updateOptimisticPeer_early due]

end

namespace Choker

section
variable {c : Choker S} {ours : BitSet}

-- The peers once those are choked that do not take part.
def refused (ours : BitSet) (c : Choker S) : Candidates S :=
  (c.peerMap.filter fun p => !calcACAScore ours (c.peers p)).foldl (fun peers p => peers.modify p .choke) c.peers

theorem refused_taker (taker : p ∈ c.takers ours) : c.refused ours p = c.peers p := by
  unfold refused
  rw [chokeAll_eq,if_neg]
  intro refused
  have takes := (List.mem_filter.mp taker).2
  have not := (List.mem_filter.mp refused).2
  rw [takes] at not
  cases not

theorem refused_other (member : p ∈ c.peerMap) (other : p ∉ c.takers ours) : (c.refused ours p).hasUploadSlot = false := by
  unfold refused
  rw [chokeAll_eq,if_pos]
  · exact choke_slot _
  · apply List.mem_filter.mpr
    refine ⟨member,?_⟩
    cases takes : calcACAScore ours (c.peers p) with
    | true => exact absurd (List.mem_filter.mpr ⟨member,takes⟩) other
    | false => rfl

theorem doChoking_eq (sort : List Nat → List Nat) (n : UInt32) (ours : BitSet) (now random : Nat) (c : Choker S) :
    doChoking c.peers sort n ours now random c.peerMap c.choke =
      ((updateOptimisticPeer (c.refused ours) c.choke now random c.peerMap (sort (c.takers ours))).1,
        doUnchoking n (updateOptimisticPeer (c.refused ours) c.choke now random c.peerMap (sort (c.takers ours))).2
          (sort (c.takers ours)) 0 (c.refused ours)) := rfl

end

section
variable [LT S] [DecidableLT S] {qSort : (Nat → Nat → Bool) → List Nat → List Nat} {c : Choker S} {ours : BitSet} {n : UInt32} {now random : Nat}

theorem round_eq (qSort : (Nat → Nat → Bool) → List Nat → List Nat) (haveAll : Bool) (n : UInt32) (ours : BitSet) (now random : Nat) (c : Choker S) :
    c.round qSort haveAll n ours now random = {c with
      choke := (doChoking c.peers (qSort (c.greater haveAll)) n ours now random c.peerMap c.choke).1
      peers := (doChoking c.peers (qSort (c.greater haveAll)) n ours now random c.peerMap c.choke).2} := by
  unfold round greater doChokingSeedingState doChokingLeechingState
  cases haveAll with
  | true => simp only [if_true]
  | false => simp only [Bool.false_eq_true,if_false]

theorem round_chosen {haveAll : Bool} {chosen : AdvancedChokeAlgorithm × Option Nat}
    (is : updateOptimisticPeer (c.refused ours) c.choke now random c.peerMap (qSort (c.greater haveAll) (c.takers ours)) = chosen) :
    c.round qSort haveAll n ours now random = {c with
      choke := chosen.1
      peers := doUnchoking n chosen.2 (qSort (c.greater haveAll) (c.takers ours)) 0 (c.refused ours)} := by
  rw [round_eq,doChoking_eq,is]

end

theorem told_choke {p : Candidate S} (told : Told p) : Told p.choke := by
  obtain ⟨k,sent,slot⟩ := told
  cases has : p.hasUploadSlot with
  | false =>
      rw [choke_off has]
      exact ⟨k,sent,slot⟩
  | true =>
      rw [has,eq_comm,decide_eq_true_eq] at slot
      unfold Candidate.choke
      rw [if_pos has]
      refine ⟨k + 1,?_,?_⟩
      · rw [List.range_succ,List.map_append,← sent]
        simp [slot]
      · exact (decide_eq_false (by omega)).symm

theorem told_unchoke {p : Candidate S} (told : Told p) : Told p.sendUnchoke := by
  obtain ⟨k,sent,slot⟩ := told
  unfold Candidate.sendUnchoke
  cases has : p.hasUploadSlot with
  | true =>
      rw [if_pos rfl]
      exact ⟨k,sent,slot⟩
  | false =>
      rw [has,eq_comm,decide_eq_false_iff_not] at slot
      rw [if_neg Bool.false_ne_true]
      refine ⟨k + 1,?_,?_⟩
      · rw [List.range_succ,List.map_append,← sent]
        simp [show k % 2 = 0 by omega]
      · exact (decide_eq_true (by omega)).symm

theorem told_other {p : Candidate S} (told : Told p) (now : Candidate S) : Told {now with hasUploadSlot := p.hasUploadSlot,sent := p.sent} := told

structure Tidy (c : Choker S) : Prop where
  distinct : c.peerMap.Nodup
  known : ∀ p ∈ c.peerMap, p < c.peerIdCounter
  told : ∀ p, Told (c.peers p)

theorem Tidy.start (noOne : Candidate S) : Tidy (Choker.start noOne) where
  distinct := .nil
  known _ never := by cases never
  told _ := ⟨0,rfl,rfl⟩

-- Who has a slot once the takers were gone through, in the order of ppl.
theorem slots_iff {c c' : Choker S} (perm : ppl.Perm (c.takers ours)) (map : c'.peerMap = c.peerMap)
    (peers : c'.peers = doUnchoking n c'.poup ppl 0 (c.refused ours)) (p : Nat) :
    p ∈ c'.slots ↔ p ∈ ppl ∧ (doUnchoking n c'.poup ppl 0 (c.refused ours) p).hasUploadSlot = true := by
  unfold slots
  rw [List.mem_filter,map,peers]
  refine and_congr_left fun has => ⟨fun member => ?_,fun member => (List.mem_filter.mp (perm.mem_iff.mp member)).1⟩
  by_contra absent
  rw [doUnchoking_other absent,refused_other member (mt perm.mem_iff.mpr absent)] at has
  cases has

-- All slots are given away, and one more to the optimistic peer when it is a taker.
theorem slots_count {c c' : Choker S} (distinct : c.peerMap.Nodup) (perm : ppl.Perm (c.takers ours)) (map : c'.peerMap = c.peerMap)
    (peers : c'.peers = doUnchoking n c'.poup ppl 0 (c.refused ours)) (some_slots : 0 < n.toNat) :
    ((∀ p, c'.poup = some p → p ∈ c.takers ours) → c'.slots.length = min n.toNat (c.takers ours).length) ∧
    ∀ p, c'.poup = some p → p ∉ c.takers ours → c'.slots.length = min (n.toNat - 1) (c.takers ours).length := by
  have fresh := perm.nodup_iff.mpr (distinct.filter _)
  have others := others_length fresh c'.poup
  have count : c'.slots.length =
      min (cap n c'.poup) (ppl.filter fun p => some p ≠ c'.poup).length + if ∃ p ∈ ppl, c'.poup = some p then 1 else 0 := by
    rw [← unchoked_length fresh some_slots,← slots_length fresh (c.refused ours)]
    apply List.Perm.length_eq
    apply (List.perm_ext_iff_of_nodup (by unfold slots; rw [map]; exact distinct.filter _) (fresh.filter _)).mpr
    intro p
    rw [slots_iff perm map peers,List.mem_filter]
  rw [count,← perm.length_eq]
  unfold cap
  constructor
  · intro taking
    cases chosen : c'.poup with
    | none =>
        have absent : ¬ ∃ q ∈ ppl, none = some q := by simp
        rw [chosen] at others
        rw [if_neg absent] at others ⊢
        rw [if_pos rfl]
        omega
    | some p =>
        have present : ∃ q ∈ ppl, some p = some q := ⟨p,perm.mem_iff.mpr (taking p chosen),rfl⟩
        rw [chosen] at others
        rw [if_pos present] at others ⊢
        rw [if_neg (Option.some_ne_none p)]
        omega
  · intro p chosen other
    have absent : ¬ ∃ q ∈ ppl, some p = some q := by
      rintro ⟨q,member,same⟩
      cases same
      exact other (perm.mem_iff.mp member)
    rw [chosen] at others ⊢
    rw [if_neg absent] at others ⊢
    rw [if_neg (Option.some_ne_none p)]
    omega

theorem by_key [LinearOrder K] (key : Nat → K) : (∀ a b, decide (key a > key b) = true → decide (key b > key a) = false) ∧
    ∀ a b c, decide (key a > key b) = false → decide (key b > key c) = false → decide (key a > key c) = false := by
  simp only [decide_eq_true_eq,decide_eq_false_iff_not,not_lt]
  exact ⟨fun a b more => le_of_lt more,fun a b c first second => le_trans first second⟩

section
variable [LinearOrder S] {qSort : (Nat → Nat → Bool) → List Nat → List Nat} {c : Choker S}

theorem sorted_greater (sorts : Sorts qSort) (haveAll : Bool) (c : Choker S) (l : List Nat) :
    (qSort (c.greater haveAll) l).Pairwise fun a b => c.greater haveAll b a = false := by
  cases haveAll with
  | true => exact sorts.sorted _ (by_key fun p => (c.peers p).uploadRate).1 (by_key fun p => (c.peers p).uploadRate).2 l
  | false => exact sorts.sorted _ (by_key fun p => (c.peers p).acaScore).1 (by_key fun p => (c.peers p).acaScore).2 l

theorem round_served (sorts : Sorts qSort) (distinct : c.peerMap.Nodup) (haveAll : Bool) (n : UInt32) (ours : BitSet) (now random : Nat) :
    Round haveAll n.toNat ours now c (c.round qSort haveAll n ours now random) := by
  have perm := sorts.perm (c.greater haveAll) (c.takers ours)
  have sorted := sorted_greater sorts haveAll c (c.takers ours)
  have fresh := perm.nodup_iff.mpr (distinct.filter _)
  obtain ⟨chosen,is⟩ : ∃ chosen, updateOptimisticPeer (c.refused ours) c.choke now random c.peerMap (qSort (c.greater haveAll) (c.takers ours)) = chosen :=
    ⟨_,rfl⟩
  have found := updateOptimisticPeer_found (c.refused ours) c.choke now random c.peerMap (qSort (c.greater haveAll) (c.takers ours))
  rw [is] at found
  have done : c.round qSort haveAll n ours now random = _ := round_chosen is
  generalize qSort (c.greater haveAll) (c.takers ours) = ppl at *
  generalize c.round qSort haveAll n ours now random = c' at *
  have map : c'.peerMap = c.peerMap := by rw [done]
  have choke : c'.choke = chosen.1 := by rw [done]
  have poup : c'.poup = chosen.2 := by rw [Choker.poup,map,choke,found]
  have peers : c'.peers = doUnchoking n c'.poup ppl 0 (c.refused ours) := by rw [poup,done]
  clear done found
  have slot := slots_iff perm map peers
  have count := slots_count distinct perm map peers
  refine ⟨?_,?_,?_,?_,?_,?_,?_,?_⟩
  · intro p has
    exact perm.mem_iff.mp ((slot p).mp has).1
  · exact fun some_slots => (count some_slots).1
  · exact fun some_slots => (count some_slots).2
  · intro some_slots p inP q inQ otherP otherQ more has
    rw [slot] at has ⊢
    exact ⟨perm.mem_iff.mpr inP,doUnchoking_best fresh sorted some_slots (perm.mem_iff.mpr inP) (perm.mem_iff.mpr inQ) otherP otherQ more has.2⟩
  · intro some_slots p taker optimistic
    rw [slot]
    have member := perm.mem_iff.mpr taker
    refine ⟨member,?_⟩
    rw [doUnchoking_slot fresh member,decide_eq_true_eq]
    exact unchoked_optimistic some_slots 0 member optimistic
  · intro no_slots few p taker
    rw [slot]
    have member := perm.mem_iff.mpr taker
    have zero : n = 0 := UInt32.toNat_inj.mp no_slots
    rw [← perm.length_eq] at few
    refine ⟨member,?_⟩
    rw [doUnchoking_slot fresh member,decide_eq_true_eq,zero,unchoked_all]
    · exact member
    · rw [UInt32.toNat_zero,Nat.zero_add]
      exact few
  · intro early
    rw [choke,← is,updateOptimisticPeer_early early]
  · intro due
    rw [choke,← is,updateOptimisticPeer_due due]
    refine ⟨rfl,?_,?_⟩
    · intro p found
      obtain ⟨member,eligible⟩ := findPlanned_some found
      have taker := perm.mem_iff.mp member
      rw [refused_taker taker] at eligible
      exact ⟨taker,eligible⟩
    · intro nobody
      obtain ⟨missed,all⟩ := findPlanned_none nobody
      refine ⟨missed,fun p taker apart eligible => ?_⟩
      rw [← refused_taker taker] at eligible
      exact all p (perm.mem_iff.mpr taker) apart eligible

theorem round_peerMap (qSort : (Nat → Nat → Bool) → List Nat → List Nat) (haveAll : Bool) (n : UInt32) (ours : BitSet) (now random : Nat) (c : Choker S) :
    (c.round qSort haveAll n ours now random).peerMap = c.peerMap ∧ (c.round qSort haveAll n ours now random).peerIdCounter = c.peerIdCounter := by
  rw [round_chosen rfl]
  exact ⟨rfl,rfl⟩

theorem Tidy.step (tidy : Tidy c) (qSort : (Nat → Nat → Bool) → List Nat → List Nat) (e : Event S) : Tidy (c.step qSort e) := by
  cases e with
  | newPeer stats =>
      refine ⟨?_,?_,?_⟩
      · apply List.Nodup.append tidy.distinct (List.nodup_singleton _)
        intro p member new
        cases List.mem_singleton.mp new
        exact Nat.lt_irrefl _ (tidy.known _ member)
      · intro p member
        rcases List.mem_append.mp member with old | new
        · exact Nat.lt_succ_of_lt (tidy.known p old)
        · cases List.mem_singleton.mp new
          exact Nat.lt_succ_self _
      · intro p
        show Told (Function.update c.peers c.peerIdCounter _ p)
        by_cases here : p = c.peerIdCounter
        · rw [here,Function.update_self]
          exact ⟨0,rfl,rfl⟩
        · rw [Function.update_of_ne here]
          exact tidy.told p
  | peerKilled id => exact ⟨tidy.distinct.filter _,fun p member => tidy.known p (List.mem_filter.mp member).1,tidy.told⟩
  | stats id now =>
      refine ⟨tidy.distinct,tidy.known,fun p => ?_⟩
      show Told (c.peers.modify id _ p)
      by_cases here : p = id
      · rw [here,modify_self]
        exact told_other (tidy.told id) now
      · rw [modify_other c.peers _ here]
        exact tidy.told p
  | pause => exact ⟨tidy.distinct,tidy.known,chokeAll_keeps (P := Told) (fun _ => told_choke) tidy.told _⟩
  | update haveAll n ours now random =>
      obtain ⟨map,counter⟩ := round_peerMap qSort haveAll n ours now random c
      refine ⟨?_,?_,?_⟩
      · exact map.symm ▸ tidy.distinct
      · intro p member
        show p < (c.round qSort haveAll n ours now random).peerIdCounter
        rw [counter]
        exact tidy.known p (map ▸ member)
      · intro p
        show Told ((c.round qSort haveAll n ours now random).peers p)
        rw [round_chosen rfl]
        apply doUnchoking_keeps (P := Told) (fun _ => told_unchoke) (fun _ => told_choke)
        exact chokeAll_keeps (P := Told) (fun _ => told_choke) tidy.told _

theorem Tidy.run (tidy : Tidy c) (events : List (Event S)) : Tidy (events.foldl (Choker.step qSort) c) := by
  induction events generalizing c with
  | nil => exact tidy
  | cons e rest ih => exact ih (tidy.step qSort e)

theorem quiet_slots (tidy : Tidy c) (e : Event S) (quiet : e.isUpdate = false) : (c.step qSort e).slots.length ≤ c.slots.length := by
  cases e with
  | newPeer stats =>
      apply le_of_eq
      have same : c.peerMap.filter (fun p => ((c.step qSort (.newPeer stats)).peers p).hasUploadSlot) = c.slots := by
        apply List.filter_congr
        intro p member
        show (Function.update c.peers c.peerIdCounter _ p).hasUploadSlot = _
        rw [Function.update_of_ne (Nat.ne_of_lt (tidy.known p member))]
      have fresh : ((c.step qSort (.newPeer stats)).peers c.peerIdCounter).hasUploadSlot = false := by
        show (Function.update c.peers c.peerIdCounter _ c.peerIdCounter).hasUploadSlot = false
        rw [Function.update_self]
      show (List.filter _ (c.peerMap ++ [c.peerIdCounter])).length = _
      rw [List.filter_append,same,List.filter_singleton,fresh]
      simp
  | peerKilled id => exact ((List.filter_sublist (l := c.peerMap)).filter _).length_le
  | stats id now =>
      apply le_of_eq
      apply congrArg
      apply List.filter_congr
      intro p _
      show (c.peers.modify id _ p).hasUploadSlot = _
      by_cases here : p = id
      · rw [here,modify_self]
      · rw [modify_other c.peers _ here]
  | pause =>
      have none_ : (c.step qSort .pause).slots = [] := by
        apply List.filter_eq_nil_iff.mpr
        intro p member
        show ¬ (c.peerMap.foldl (fun peers p => peers.modify p Candidate.choke) c.peers p).hasUploadSlot = true
        rw [chokeAll_eq,if_pos (show p ∈ c.peerMap from member),choke_slot]
        exact Bool.false_ne_true
      rw [none_]
      exact Nat.zero_le _
  | update => cases quiet

theorem quiet_run (tidy : Tidy c) (qSort : (Nat → Nat → Bool) → List Nat → List Nat) (events : List (Event S)) (quiet : ∀ e ∈ events, e.isUpdate = false) :
    (events.foldl (Choker.step qSort) c).slots.length ≤ c.slots.length := by
  induction events generalizing c with
  | nil => exact Nat.le_refl _
  | cons e rest ih =>
      have later := ih (tidy.step qSort e) fun e' member => quiet e' (List.mem_cons_of_mem _ member)
      exact later.trans (quiet_slots tidy e (quiet e List.mem_cons_self))

theorem Round.bounded (round : Round haveAll n ours now c c') (some_slots : 0 < n) : c'.slots.length ≤ n := by
  by_cases taking : ∀ p, c'.poup = some p → p ∈ c.takers ours
  · rw [round.count some_slots taking]
    exact Nat.min_le_left _ _
  · simp only [not_forall] at taking
    obtain ⟨p,chosen,other⟩ := taking
    rw [round.spare some_slots p chosen other]
    omega

theorem counter_le (c : Choker S) (e : Event S) : c.peerIdCounter ≤ (c.step qSort e).peerIdCounter := by
  cases e with
  | newPeer => exact Nat.le_succ _
  | update haveAll n ours now random => exact (round_peerMap qSort haveAll n ours now random c).2.ge
  | _ => exact Nat.le_refl _

theorem gone_stays (c : Choker S) (known : p < c.peerIdCounter) (gone : p ∉ c.peerMap) (e : Event S) : p ∉ (c.step qSort e).peerMap := by
  cases e with
  | newPeer stats =>
      intro member
      rcases List.mem_append.mp member with old | new
      · exact gone old
      · exact Nat.ne_of_lt known (List.mem_singleton.mp new)
  | peerKilled id => exact fun member => gone (List.mem_filter.mp member).1
  | update haveAll n ours now random => exact (round_peerMap qSort haveAll n ours now random c).1.symm ▸ gone
  | _ => exact gone

theorem present_before (events : List (Event S)) (known : p < c.peerIdCounter) (present : p ∈ (events.foldl (Choker.step qSort) c).peerMap) : p ∈ c.peerMap := by
  by_contra gone
  induction events generalizing c with
  | nil => exact gone present
  | cons e rest ih =>
      exact ih (known.trans_le (counter_le c e)) present (gone_stays c known gone e)

-- The optimistic peer stays until it has had its time, or leaves.
theorem optimistic_stays (tidy : Tidy c) (events : List (Event S)) (chosen : c.choke.optUnchokedPeerId = some p) (there : p ∈ c.peerMap)
    (present : p ∈ (events.foldl (Choker.step qSort) c).peerMap) (within : ∀ e ∈ events, e.Within c.choke.lastOptSelTime)
    (sorts : Sorts qSort) : (events.foldl (Choker.step qSort) c).choke = c.choke := by
  induction events generalizing c with
  | nil => rfl
  | cons e rest ih =>
      have same : (c.step qSort e).choke = c.choke := by
        cases e with
        | update haveAll n ours now random =>
            apply (round_served sorts tidy.distinct haveAll n ours now random).kept
            rintro (late | lost)
            · exact absurd (within _ List.mem_cons_self) (Nat.not_le.mpr late)
            · rw [chosen,findPeer,Option.filter_eq_none_iff] at lost
              exact lost p rfl (decide_eq_true there)
        | _ => rfl
      have still := present_before rest ((tidy.known p there).trans_le (counter_le c e)) present
      rw [List.foldl_cons,ih (tidy.step qSort e) (same.symm ▸ chosen) still present fun e' member => same.symm ▸ within e' (List.mem_cons_of_mem _ member),same]

end

-- Peers come, change, are paused and leave, and the choker runs, in any order and at any times.
theorem choking_rounds [LinearOrder S] {qSort : (Nat → Nat → Bool) → List Nat → List Nat} (sorts : Sorts qSort) (noOne : Candidate S)
    (events : List (Event S)) : WellServed qSort noOne events := by
  have tidy (before : List (Event S)) : Tidy (run qSort noOne before) := (Tidy.start noOne).run before
  refine ⟨(tidy events).told,?_,?_,?_⟩
  · intro haveAll n ours now random
    exact round_served sorts (tidy events).distinct haveAll n ours now random
  · rintro before haveAll n ours now random after rfl quiet some_slots
    have last := quiet_run ((tidy before).step qSort (.update haveAll n ours now random)) qSort after quiet
    rw [run,List.foldl_append,List.foldl_cons]
    exact last.trans ((round_served sorts (tidy before).distinct haveAll n ours now random).bounded some_slots)
  · rintro before after p rfl chosen there present within
    rw [run,List.foldl_append] at present ⊢
    exact optimistic_stays (tidy before) after chosen there present within sorts

theorem mergeSort_sorts : Sorts fun lessThan l => l.mergeSort fun a b => !lessThan b a where
  perm lessThan l := List.mergeSort_perm l _
  sorted lessThan asymm trans l := by
    have sorted : (l.mergeSort fun a b => !lessThan b a).Pairwise fun a b => (!lessThan b a) = true := by
      apply List.pairwise_mergeSort
      · intro a b c first second
        simp only [Bool.not_eq_true'] at first second ⊢
        exact trans c b a second first
      · intro a b
        cases less : lessThan b a with
        | false => rfl
        | true => simp [asymm b a less]
    exact sorted.imp fun order => by simpa using order

-- Two peers, of which one is paused with the other and then leaves.
-- We have a chunk that both peers want, and one slot for them.
def oneSlot : List (Event Nat) := [.newPeer downloader,.newPeer downloader,.update false 1 ((BitSet.new 1).setAll true) 40000 0,.pause]

theorem two_peers_served : let qSort := fun lessThan l => l.mergeSort fun a b => !lessThan b a
    WellServed qSort downloader oneSlot ∧
      ((run qSort downloader (oneSlot.take 2)).takers ((BitSet.new 1).setAll true)).length = 2 ∧
      (run qSort downloader oneSlot).slots.length ≤ 1 := by
  have served := choking_rounds mergeSort_sorts downloader oneSlot
  refine ⟨served,by decide,?_⟩
  exact served.bounded (oneSlot.take 2) false 1 ((BitSet.new 1).setAll true) 40000 0 [.pause] rfl (by simp [Event.isUpdate]) (by decide)

end Choker

end KtorrentStream.Torrent
