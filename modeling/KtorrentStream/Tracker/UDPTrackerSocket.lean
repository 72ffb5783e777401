import KtorrentStream.Util.Word
import KtorrentStream.Util.Bytes
import KtorrentStream.Util.PtrMapTotal
set_option autoImplicit true

namespace KtorrentStream.Tracker
open Util

inductive Action
  | connect
  | announce
  | scrape
  | error
  deriving DecidableEq

-- The four cases of the switch.
@[irreducible]
def actionOf (type : Nat) : Option Action :=
  if type = 0 then some .connect
  else if type = 1 then some .announce
  else if type = 2 then some .scrape
  else if type = 3 then some .error
  else none

inductive Signal
  | connectReceived (tid connectionId : Nat)
  | announceReceived (tid : Nat) (buf : List UInt8)
  | scrapeReceived (tid : Nat) (buf : List UInt8)
  | error (tid : Nat) (errorString : List UInt8)
  deriving DecidableEq

def readInt64 (buf : List UInt8) (off : Nat) : Nat := readUint32 buf off * 4294967296 + readUint32 buf (off + 4)

-- Private::transactions. An Int32 is its 32 bits. A handler gives what it
-- emits and the table it leaves; it takes the id out before it emits, so
-- that what the slots then start is a step of its own.
abbrev Transactions := PtrMap Action

namespace Transactions

def new : Transactions := PtrMap.empty

def checked (t : Transactions) (action : Action) (tid : Nat) (signal : Signal) : List Signal × Transactions :=
  match t.find tid with
  | none => ([],t)
  | some started =>
    if started ≠ action then ([.error tid []],t.erase tid)
    else ([signal],t.erase tid)

def handleConnect (t : Transactions) (buf : List UInt8) : List Signal × Transactions :=
  if buf.length < 12 then ([],t)
  else
    let tid := readUint32 buf 4
    t.checked .connect tid (.connectReceived tid (readInt64 buf 8))

def handleAnnounce (t : Transactions) (buf : List UInt8) : List Signal × Transactions :=
  if buf.length < 4 then ([],t)
  else
    let tid := readUint32 buf 4
    if (t.find tid).isNone ∨ buf.length < 20 then ([],t)
    else t.checked .announce tid (.announceReceived tid buf)

def handleError (t : Transactions) (buf : List UInt8) : List Signal × Transactions :=
  if buf.length < 4 then ([],t)
  else
    let tid := readUint32 buf 4
    match t.find tid with
    | none => ([],t)
    | some _ => ([.error tid (buf.drop 8)],t.erase tid)

-- (Uint8*)buf.data() is the Buffer object and not its data: the id is taken
-- from the bytes 4..7 of the object, of which object is the word.
def handleScrape (t : Transactions) (object : UInt32) (buf : List UInt8) : List Signal × Transactions :=
  if buf.length < 4 then ([],t)
  else
    let tid := object.toNat
    t.checked .scrape tid (.scrapeReceived tid buf)

def dataReceived (t : Transactions) (object : UInt32) (buf : List UInt8) : List Signal × Transactions :=
  if buf.length < 4 then ([],t)
  else match actionOf (readUint32 buf 0) with
    | some .connect => t.handleConnect buf
    | some .announce => t.handleAnnounce buf
    | some .error => t.handleError buf
    | some .scrape => t.handleScrape object buf
    | none => ([],t)

-- while (transactions.contains(transaction_id)) transaction_id++, for so many
-- rounds.
def searchFree (t : Transactions) : Nat → Nat → Option Nat
  | 0,_ => none
  | rounds + 1,tid => if t.contains tid then t.searchFree rounds (uint32 (tid + 1)) else some tid

-- seed is rand() * time(0). There are no more ids than rounds.
def newTransactionID (t : Transactions) (seed : UInt32) : Option Nat := t.searchFree 4294967296 seed.toNat

end Transactions

inductive TrackerEvent
  | sendConnect (tid : UInt32)
  | sendAnnounce (tid : UInt32)
  | sendScrape (tid : UInt32)
  | cancelTransaction (tid : UInt32)
  | dataReceived (object : UInt32) (buf : List UInt8)

namespace Transactions

def stepBy (handle : Transactions → UInt32 → List UInt8 → List Signal × Transactions) (t : Transactions) :
    TrackerEvent → List Signal × Transactions
  | .sendConnect tid => ([],t.insert tid.toNat .connect)
  | .sendAnnounce tid => ([],t.insert tid.toNat .announce)
  | .sendScrape tid => ([],t.insert tid.toNat .scrape)
  | .cancelTransaction tid => ([],t.erase tid.toNat)
  | .dataReceived object buf => handle t object buf

-- What every event of a run emits, and the table after the run.
def runBy (handle : Transactions → UInt32 → List UInt8 → List Signal × Transactions) (t : Transactions) :
    List TrackerEvent → List (List Signal) × Transactions
  | [] => ([],t)
  | event :: rest =>
    let (signals,next) := t.stepBy handle event
    let (later,last) := runBy handle next rest
    (signals :: later,last)

def run (t : Transactions) (events : List TrackerEvent) : List (List Signal) × Transactions := t.runBy dataReceived events

def response (tid : Nat) (buf : List UInt8) : Action → List Signal
  | .connect => [.connectReceived tid (readInt64 buf 8)]
  | .announce => [.announceReceived tid buf]
  | .scrape => [.scrapeReceived tid buf]
  | .error => [.error tid (buf.drop 8)]

-- What a datagram is for: it answers the id at its bytes 4..7 and no other,
-- once, as a response only if it is of the action the id was started for.
def answer (t : Transactions) (action : Option Action) (tid : Nat) (buf : List UInt8) : List Signal × Transactions :=
  match t.find tid with
  | none => ([],t)
  | some started => match action with
    | none => ([],t)
    | some action =>
      if action = .error ∨ action = started then (response tid buf action,t.erase tid)
      else ([.error tid []],t.erase tid)

def expected (t : Transactions) (buf : List UInt8) : List Signal × Transactions :=
  t.answer (actionOf (readUint32 buf 0)) (readUint32 buf 4) buf

def expectedRun (t : Transactions) (events : List TrackerEvent) : List (List Signal) × Transactions :=
  t.runBy (fun t _ buf => t.expected buf) events

-- The word that handleScrape takes for the id does as well as the id: it is
-- the same, or neither of them is outstanding.
def Read (t : Transactions) : TrackerEvent → Prop
  | .dataReceived object buf => readUint32 buf 0 = 2 →
    object.toNat = readUint32 buf 4 ∨ (t.find object.toNat = none ∧ t.find (readUint32 buf 4) = none)
  | _ => True

def AllRead (t : Transactions) : List TrackerEvent → Prop
  | [] => True
  | event :: rest => t.Read event ∧ AllRead (t.stepBy dataReceived event).2 rest

def Long : TrackerEvent → Prop
  | .dataReceived _ buf => 20 ≤ buf.length
  | _ => True

variable {t : Transactions} {buf : List UInt8}

theorem actionOf_scrape : actionOf type = some .scrape ↔ type = 2 := by
  unfold actionOf
  split_ifs <;> simp_all

-- Only a scrape response is read in another place.
theorem dataReceived_expected (long : 20 ≤ buf.length) (other : readUint32 buf 0 ≠ 2) :
    t.dataReceived object buf = t.expected buf := by
  have whole : ¬ buf.length < 4 := by omega
  have connect : ¬ buf.length < 12 := by omega
  have announce : ¬ buf.length < 20 := by omega
  unfold dataReceived expected
  rw [if_neg whole]
  cases action : actionOf (readUint32 buf 0) with
  | none => cases found : t.find (readUint32 buf 4) <;> simp [answer,found]
  | some kind => cases kind with
    | scrape => exact absurd (actionOf_scrape.mp action) other
    | connect => cases found : t.find (readUint32 buf 4) with
      | none => simp [handleConnect,connect,checked,answer,found]
      | some started => cases started <;> simp [handleConnect,connect,checked,answer,response,found]
    | announce => cases found : t.find (readUint32 buf 4) with
      | none => simp [handleAnnounce,answer,found]
      | some started => cases started <;> simp [handleAnnounce,whole,announce,checked,answer,response,found]
    | error => cases found : t.find (readUint32 buf 4) with
      | none => simp [handleError,answer,found]
      | some started => simp [handleError,whole,answer,response,found]

theorem dataReceived_scrape (long : 20 ≤ buf.length) (scrape : readUint32 buf 0 = 2) :
    t.dataReceived object buf = t.checked .scrape object.toNat (.scrapeReceived object.toNat buf) := by
  have whole : ¬ buf.length < 4 := by omega
  have action := actionOf_scrape.mpr scrape
  simp only [dataReceived,whole,if_false,action,handleScrape]

theorem expected_scrape (scrape : readUint32 buf 0 = 2) :
    t.expected buf = t.checked .scrape (readUint32 buf 4) (.scrapeReceived (readUint32 buf 4) buf) := by
  unfold expected
  rw [actionOf_scrape.mpr scrape]
  cases found : t.find (readUint32 buf 4) with
  | none => simp [answer,checked,found]
  | some started => cases started <;> simp [answer,checked,response,found]

theorem checked_signal (found : t.find tid = some started) (buf : List UInt8) :
    ∃ signal, (t.checked .scrape tid (.scrapeReceived tid buf)).1 = [signal] ∧
      (signal = .error tid [] ∨ signal = .scrapeReceived tid buf) := by
  simp only [checked,found]
  split
  · exact ⟨_,rfl,.inl rfl⟩
  · exact ⟨_,rfl,.inr rfl⟩

theorem checked_none (absent : t.find tid = none) (signal : Signal) : t.checked action tid signal = ([],t) := by
  simp [checked,absent]

theorem step_expected (long : Long event) (read : t.Read event) :
    t.stepBy dataReceived event = t.stepBy (fun t _ buf => t.expected buf) event := by
  cases event with
  | dataReceived object buf =>
    show t.dataReceived object buf = t.expected buf
    by_cases scrape : readUint32 buf 0 = 2
    · rw [dataReceived_scrape long scrape,expected_scrape scrape]
      rcases read scrape with same | ⟨one,two⟩
      · rw [same]
      · rw [checked_none one,checked_none two]
    · exact dataReceived_expected long scrape
  | _ => rfl

theorem step_read (long : Long event)
    (same : (t.stepBy dataReceived event).1 = (t.stepBy (fun t _ buf => t.expected buf) event).1) : t.Read event := by
  cases event with
  | dataReceived object buf =>
    intro scrape
    replace same : (t.dataReceived object buf).1 = (t.expected buf).1 := same
    rw [dataReceived_scrape long scrape,expected_scrape scrape] at same
    cases one : t.find object.toNat with
    | none => cases two : t.find (readUint32 buf 4) with
      | none => exact .inr ⟨rfl,rfl⟩
      | some started =>
        obtain ⟨signal,emitted,_⟩ := checked_signal two buf
        rw [checked_none one,emitted] at same
        cases same
    | some started =>
      obtain ⟨signal,emitted,kind⟩ := checked_signal one buf
      cases two : t.find (readUint32 buf 4) with
      | none =>
        rw [checked_none two,emitted] at same
        cases same
      | some started' =>
        obtain ⟨signal',emitted',kind'⟩ := checked_signal two buf
        rw [emitted,emitted'] at same
        obtain rfl : signal = signal' := List.head_eq_of_cons_eq same
        rcases kind with rfl | rfl
        · rcases kind' with eq | eq
          · exact .inl (Signal.error.inj eq).1
          · cases eq
        · rcases kind' with eq | eq
          · cases eq
          · exact .inl (Signal.scrapeReceived.inj eq).1
  | _ => exact trivial

theorem runBy_cons (handle : Transactions → UInt32 → List UInt8 → List Signal × Transactions) (event : TrackerEvent) (rest : List TrackerEvent) :
    t.runBy handle (event :: rest) = ((t.stepBy handle event).1 :: ((t.stepBy handle event).2.runBy handle rest).1,
      ((t.stepBy handle event).2.runBy handle rest).2) := rfl

theorem run_expected (events : List TrackerEvent) (long : ∀ event ∈ events, Long event) :
    t.run events = t.expectedRun events ↔ t.AllRead events := by
  induction events generalizing t with
  | nil => exact ⟨fun _ => trivial,fun _ => rfl⟩
  | cons event rest ih =>
    have first : Long event := long event List.mem_cons_self
    have later : ∀ event ∈ rest, Long event := fun e member => long e (List.mem_cons_of_mem _ member)
    unfold run expectedRun at ih ⊢
    rw [runBy_cons,runBy_cons]
    constructor
    · intro same
      have heads := List.head_eq_of_cons_eq (congrArg Prod.fst same)
      have tails := List.tail_eq_of_cons_eq (congrArg Prod.fst same)
      have read : t.Read event := step_read first heads
      refine ⟨read,(ih later).mp ?_⟩
      have last := congrArg Prod.snd same
      rw [← step_expected first read] at tails last
      exact Prod.ext tails last
    · rintro ⟨read,rest'⟩
      rw [← step_expected first read,(ih later).mpr rest']

theorem searchFree_free (found : t.searchFree rounds start = some tid) : t.find tid = none := by
  induction rounds generalizing start with
  | zero => cases found
  | succ rounds ih =>
    unfold searchFree at found
    split at found
    · exact ih found
    · rename_i free
      cases found
      simpa [PtrMap.contains] using free

theorem searchFree_none (small : start < 4294967296) (stuck : t.searchFree rounds start = none) :
    ∀ k < rounds, t.contains (uint32 (start + k)) := by
  induction rounds generalizing start with
  | zero =>
    intro k before
    omega
  | succ rounds ih =>
    unfold searchFree at stuck
    split at stuck
    · rename_i here
      intro k before
      cases k with
      | zero => rwa [Nat.add_zero,uint32_of_lt small]
      | succ k =>
        have small' : uint32 (start + 1) < 4294967296 := Nat.mod_lt _ (by decide)
        have next := ih small' stuck k (by omega)
        have shifted : uint32 (uint32 (start + 1) + k) = uint32 (start + (k + 1)) := by
          unfold uint32
          omega
        rwa [shifted] at next
    · cases stuck

theorem newTransactionID_found (room : t.count < 4294967296) (seed : UInt32) : ∃ tid, t.newTransactionID seed = some tid := by
  cases stuck : t.newTransactionID seed with
  | some tid => exact ⟨tid,rfl⟩
  | none =>
    have all := searchFree_none seed.toNat_lt stuck
    have inside : Finset.range 4294967296 ⊆ t.keySet := by
      intro tid member
      have small : tid < 4294967296 := Finset.mem_range.mp member
      have start : seed.toNat < 4294967296 := seed.toNat_lt
      have here := all ((tid + 4294967296 - seed.toNat) % 4294967296) (Nat.mod_lt _ (by decide))
      have same : uint32 (seed.toNat + (tid + 4294967296 - seed.toNat) % 4294967296) = tid := by
        unfold uint32
        omega
      rw [same,PtrMap.contains,Option.isSome_iff_exists] at here
      exact PtrMap.mem_keySet.mpr here
    have many : 4294967296 ≤ t.keySet.card := by
      have le := Finset.card_le_card inside
      rwa [Finset.card_range] at le
    have few : t.keySet.card ≤ t.count := (List.toFinset_card_le _).trans (by simp [PtrMap.count])
    omega

-- In every run the code answers as it should exactly if no scrape response
-- is taken for another id; and a new id is never one that is outstanding.
theorem dispatched_iff_read (events : List TrackerEvent) (long : ∀ event ∈ events, Long event) :
    (new.run events = new.expectedRun events ↔
      new.AllRead events) ∧
    ∀ seed, (∀ tid, (new.run events).2.newTransactionID seed = some tid →
        (new.run events).2.find tid = none) ∧
      ((new.run events).2.count < 4294967296 →
        ∃ tid, (new.run events).2.newTransactionID seed = some tid) := by
  refine ⟨run_expected events long,?_⟩
  intro seed
  refine ⟨?_,?_⟩
  · intro tid found
    exact searchFree_free found
  · intro room
    exact newTransactionID_found room seed

-- A connect response to an id that was started for it.
def connectExchange : List TrackerEvent :=
  [.sendConnect 7,.dataReceived 0 [0,0,0,0,0,0,0,7,1,2,3,4,5,6,7,8,0,0,0,0]]

theorem connect_dispatched : (∀ event ∈ connectExchange, Long event) ∧
    (new.run connectExchange = new.expectedRun connectExchange ↔
      new.AllRead connectExchange) ∧
    new.AllRead connectExchange := by
  have long : ∀ event ∈ connectExchange, Long event := by simp [connectExchange,Long]
  refine ⟨long,(dispatched_iff_read connectExchange long).1,trivial,?_,trivial⟩
  intro scrape
  cases scrape

-- A scrape response for the outstanding id 7, with another word at that
-- place of the Buffer object: nothing is emitted.
def scrapeExchange : List TrackerEvent :=
  [.sendScrape 7,.dataReceived 32767 [0,0,0,2,0,0,0,7,0,0,0,1,0,0,0,2,0,0,0,3]]

theorem scrape_not_dispatched : (∀ event ∈ scrapeExchange, Long event) ∧
    (new.run scrapeExchange).1 = [[],[]] ∧
    (new.expectedRun scrapeExchange).1 =
      [[],[.scrapeReceived 7 [0,0,0,2,0,0,0,7,0,0,0,1,0,0,0,2,0,0,0,3]]] := by
  refine ⟨by simp [scrapeExchange,Long],?_,?_⟩
  · decide +kernel
  · decide +kernel

end Transactions

end KtorrentStream.Tracker
