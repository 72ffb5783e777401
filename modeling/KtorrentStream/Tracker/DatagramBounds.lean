import KtorrentStream.Lib.Traced
import KtorrentStream.Net.Address
import KtorrentStream.Peer.PacketReader
import KtorrentStream.Tracker.UDPTrackerSocket
set_option autoImplicit true

namespace KtorrentStream.Tracker
open Lib Util Net
open Peer.PacketReader (int32)

-- A byte that is read: of the received datagram, or of the Buffer object
-- that holds it.
inductive Place
  | datagram (i : Nat)
  | object (i : Nat)
  deriving DecidableEq

-- A Buffer is larger than what was received into it: beyond is what lies
-- behind. The length of a datagram is 16 bits.
structure Datagram where
  bytes : List UInt8
  beyond : Nat → UInt8
  size_lt : bytes.length < 65536

namespace Datagram

def size (d : Datagram) : Nat := d.bytes.length

def byte (d : Datagram) (i : Nat) : UInt8 := d.bytes.getD i (d.beyond i)

def get (d : Datagram) (off len : Nat) : Traced Place (List UInt8) := .reads .datagram d.byte off len

def readUint32 (d : Datagram) (off : Nat) : Traced Place Nat := (Util.readUint32 · 0) <$> d.get off 4

def readUint16 (d : Datagram) (off : Nat) : Traced Place Nat := (Util.readUint16 · 0) <$> d.get off 2

def readInt64 (d : Datagram) (off : Nat) : Traced Place Nat := (Tracker.readInt64 · 0) <$> d.get off 8

end Datagram

-- ReadInt32((Uint8*)buf.data(),4): buf.data() is the object.
def readObject (object : UInt32) : Traced Place Nat := .reads .object id 4 4 >>= fun _ => pure object.toNat

namespace Datagram

-- The handlers of UDPTrackerSocket with the places that they read.
def handleConnect (d : Datagram) (t : Transactions) : Traced Place (List Signal × Transactions) :=
  if d.size < 12 then pure ([],t)
  else do
    let tid ← d.readUint32 4
    match t.find tid with
    | none => return ([],t)
    | some .connect =>
      let connectionId ← d.readInt64 8
      return ([.connectReceived tid connectionId],t.erase tid)
    | some _ => return ([.error tid []],t.erase tid)

def handleAnnounce (d : Datagram) (t : Transactions) : Traced Place (List Signal × Transactions) :=
  if d.size < 4 then pure ([],t)
  else do
    let tid ← d.readUint32 4
    if (t.find tid).isNone ∨ d.size < 20 then return ([],t)
    else return t.checked .announce tid (.announceReceived tid d.bytes)

def handleError (d : Datagram) (t : Transactions) : Traced Place (List Signal × Transactions) :=
  if d.size < 4 then pure ([],t)
  else do
    let tid ← d.readUint32 4
    match t.find tid with
    | none => return ([],t)
    | some _ =>
      let msg ← d.get 8 (d.size - 8)
      return ([.error tid msg],t.erase tid)

def handleScrape (d : Datagram) (object : UInt32) (t : Transactions) : Traced Place (List Signal × Transactions) :=
  if d.size < 4 then pure ([],t)
  else do
    let tid ← readObject object
    return t.checked .scrape tid (.scrapeReceived tid d.bytes)

-- The switch of dataReceived.
def handle (d : Datagram) (object : UInt32) (t : Transactions) :
    Option Action → Traced Place (List Signal × Transactions)
  | some .connect => d.handleConnect t
  | some .announce => d.handleAnnounce t
  | some .error => d.handleError t
  | some .scrape => d.handleScrape object t
  | none => pure ([],t)

def dataReceived (d : Datagram) (object : UInt32) (t : Transactions) : Traced Place (List Signal × Transactions) :=
  if d.size < 4 then pure ([],t)
  else do
    let type ← d.readUint32 0
    d.handle object t (actionOf type)

end Datagram

inductive RequestEvent
  | none
  | completed
  | started
  | stopped
  deriving DecidableEq

inductive TrackerStatus
  | ok
  | announcing
  | error
  | idle
  deriving DecidableEq

-- What the slots of a UDPTracker read and change; peers are the addresses
-- that PeerSource holds.
structure UDPTracker where
  transactionId : Nat
  scrapeTransactionId : Nat
  connectionId : Nat
  failures : Nat
  interval : Nat
  leechers : Int
  seeders : Int
  totalDownloaded : Int
  event : RequestEvent
  started : Bool
  status : TrackerStatus
  peers : List Address

namespace UDPTracker

-- Uint32 nip = leechers + seeders
def nip (leechers seeders : Int) : Nat := ((leechers + seeders) % 4294967296).toNat

-- for (Uint32 i = 20;i < size && j < nip;i+=6,j++), for the rounds that nip
-- leaves.
def addPeers (d : Datagram) : Nat → Nat → Traced Place (List Address)
  | 0,_ => pure []
  | rounds + 1,i =>
    if i < d.size then do
      let ip ← d.readUint32 i
      let port ← d.readUint16 (i + 4)
      let rest ← addPeers d rounds (uint32 (i + 6))
      return .v4 (UInt32.ofNat ip) (UInt16.ofNat port) :: rest
    else return []

-- What announceReceived assigns, and what follows from event.
def announced (tracker : UDPTracker) (interval : Nat) (leechers seeders : Int) (added : List Address) : UDPTracker :=
  let next := {tracker with
    interval := interval
    leechers := leechers
    seeders := seeders
    peers := tracker.peers ++ added
    connectionId := 0}
  if tracker.event = .stopped then {next with status := .idle}
  else {next with started := tracker.started || decide (tracker.event = .started),event := .none,status := .ok}

def announceReceived (tracker : UDPTracker) (tid : Nat) (d : Datagram) : Traced Place UDPTracker :=
  if tid ≠ tracker.transactionId ∨ d.size < 20 then pure tracker
  else do
    let interval ← d.readUint32 8
    let leechers ← int32 <$> d.readUint32 12
    let seeders ← int32 <$> d.readUint32 16
    let added ← addPeers d (nip leechers seeders) 20
    return tracker.announced interval leechers seeders added

def scraped (tracker : UDPTracker) (seeders totalDownloaded leechers : Int) : UDPTracker :=
  {tracker with seeders := seeders,totalDownloaded := totalDownloaded,leechers := leechers}

def scrapeReceived (tracker : UDPTracker) (tid : Nat) (d : Datagram) : Traced Place UDPTracker :=
  if tid ≠ tracker.scrapeTransactionId ∨ d.size < 20 then pure tracker
  else do
    let seeders ← int32 <$> d.readUint32 8
    let totalDownloaded ← int32 <$> d.readUint32 12
    let leechers ← int32 <$> d.readUint32 16
    return tracker.scraped seeders totalDownloaded leechers

-- The requests that connectReceived then sends are steps of their own.
def connectReceived (tracker : UDPTracker) (tid connectionId : Nat) : UDPTracker :=
  if tid ≠ tracker.transactionId then tracker else {tracker with connectionId := connectionId,failures := 0}

def onError (tracker : UDPTracker) (tid : Nat) : UDPTracker :=
  if tid ≠ tracker.transactionId then tracker else {tracker with status := .error}

-- The slot of a tracker for a signal; the two with a buffer get the bytes of
-- the datagram itself.
def received (tracker : UDPTracker) (d : Datagram) : Signal → Traced Place UDPTracker
  | .connectReceived tid connectionId => pure (tracker.connectReceived tid connectionId)
  | .announceReceived tid _ => tracker.announceReceived tid d
  | .scrapeReceived tid _ => tracker.scrapeReceived tid d
  | .error tid _ => pure (tracker.onError tid)

end UDPTracker

namespace Datagram

variable {d : Datagram} {t : Transactions}

theorem get_clean (clean : ∀ i, d.beyond i = 0) (within : i < len) :
    (d.get off len).result.getD i 0 = d.bytes.getD (off + i) 0 := by
  show ((List.range' off len).map d.byte).getD i 0 = _
  rw [List.getD_eq_getElem?_getD,List.getElem?_map,List.getElem?_range' within,Option.map_some,Option.getD_some,
    Nat.one_mul,byte,clean]

theorem readUint32_clean (clean : ∀ i, d.beyond i = 0) (off : Nat) :
    (d.readUint32 off).result = Util.readUint32 d.bytes off := by
  show Util.readUint32 (d.get off 4).result 0 = _
  simp only [Util.readUint32,Nat.zero_add]
  rw [get_clean clean (by omega),get_clean clean (by omega),get_clean clean (by omega),get_clean clean (by omega),
    Nat.add_zero]

theorem readInt64_clean (clean : ∀ i, d.beyond i = 0) (off : Nat) :
    (d.readInt64 off).result = Tracker.readInt64 d.bytes off := by
  show Tracker.readInt64 (d.get off 8).result 0 = _
  simp only [Tracker.readInt64,Util.readUint32,Nat.zero_add,Nat.add_assoc,Nat.reduceAdd]
  rw [get_clean clean (by omega),get_clean clean (by omega),get_clean clean (by omega),get_clean clean (by omega),
    get_clean clean (by omega),get_clean clean (by omega),get_clean clean (by omega),get_clean clean (by omega),
    Nat.add_zero]

theorem get_rest (off : Nat) : (d.get off (d.size - off)).result = d.bytes.drop off := by
  show (List.range' off (d.size - off)).map d.byte = _
  apply List.ext_getElem?
  intro i
  rw [List.getElem?_map,List.getElem?_drop]
  by_cases inside : i < d.size - off
  · have here : off + i < d.bytes.length := by
      unfold size at inside
      omega
    rw [List.getElem?_range' inside,Option.map_some,byte,Nat.one_mul,List.getElem?_eq_getElem here,
      List.getD_eq_getElem _ _ here]
  · have past : d.bytes.length ≤ off + i := by
      unfold size at inside
      omega
    rw [List.getElem?_eq_none past,List.getElem?_eq_none (by simpa using not_lt.mp inside),Option.map_none]

theorem handleConnect_clean (clean : ∀ i, d.beyond i = 0) : (d.handleConnect t).result = t.handleConnect d.bytes := by
  rw [handleConnect,Transactions.handleConnect,← size]
  split_ifs with short
  · rfl
  · rw [Traced.bind_result,readUint32_clean clean,Transactions.checked]
    cases found : t.find (Util.readUint32 d.bytes 4) with
    | none => rfl
    | some started => cases started with
      | connect =>
          rw [← readInt64_clean clean]
          rfl
      | announce => rfl
      | scrape => rfl
      | error => rfl

theorem handleAnnounce_clean (clean : ∀ i, d.beyond i = 0) : (d.handleAnnounce t).result = t.handleAnnounce d.bytes := by
  rw [handleAnnounce,Transactions.handleAnnounce,← size]
  split_ifs with short
  · rfl
  · rw [Traced.bind_result,readUint32_clean clean]
    dsimp only
    split_ifs with unknown
    · rfl
    · rfl

theorem handleError_clean (clean : ∀ i, d.beyond i = 0) : (d.handleError t).result = t.handleError d.bytes := by
  rw [handleError,Transactions.handleError,← size]
  split_ifs with short
  · rfl
  · rw [Traced.bind_result,readUint32_clean clean]
    dsimp only
    cases t.find (Util.readUint32 d.bytes 4) with
    | none => rfl
    | some _ =>
        rw [← get_rest 8]
        rfl

theorem handleScrape_clean (object : UInt32) : (d.handleScrape object t).result = t.handleScrape object d.bytes := by
  rw [handleScrape,Transactions.handleScrape,← size]
  split_ifs with short
  · rfl
  · rfl

theorem dataReceived_reads (object : UInt32) (whole : ¬ d.size < 4) :
    d.dataReceived object t = d.readUint32 0 >>= fun type => d.handle object t (actionOf type) := by
  rw [dataReceived,if_neg whole]

theorem handle_clean (clean : ∀ i, d.beyond i = 0) (object : UInt32) (x : Traced Place Nat) (same : x.result = type)
    (action : Nat → Option Action) : (x >>= fun type => d.handle object t (action type)).result =
      match action type with
      | some .connect => t.handleConnect d.bytes
      | some .announce => t.handleAnnounce d.bytes
      | some .error => t.handleError d.bytes
      | some .scrape => t.handleScrape object d.bytes
      | none => ([],t) := by
  rw [Traced.bind_result,same]
  cases action type with
  | none => rfl
  | some kind => cases kind with
    | connect => exact handleConnect_clean clean
    | announce => exact handleAnnounce_clean clean
    | error => exact handleError_clean clean
    | scrape => exact handleScrape_clean object

-- With nothing but zeros behind it a datagram is answered as a list of bytes.
theorem dataReceived_clean (clean : ∀ i, d.beyond i = 0) (object : UInt32) (t : Transactions) :
    (d.dataReceived object t).result = t.dataReceived object d.bytes := by
  by_cases short : d.size < 4
  · rw [dataReceived,Transactions.dataReceived,if_pos short,if_pos (show d.bytes.length < 4 from short)]
    rfl
  · have bytes : t.dataReceived object d.bytes = _ := if_neg (show ¬ d.bytes.length < 4 from short)
    have reads := handle_clean (t := t) clean object (d.readUint32 0) (readUint32_clean clean 0) actionOf
    exact (congrArg Traced.result (dataReceived_reads object short)).trans (reads.trans bytes.symm)

end Datagram

-- The socket's table and the trackers, every one of them connected to every
-- signal of the socket.
structure Client where
  transactions : Transactions
  trackers : List UDPTracker

namespace Client

def deliver (d : Datagram) : List Signal → List UDPTracker → Traced Place (List UDPTracker)
  | [],trackers => pure trackers
  | signal :: rest,trackers => do
    let next ← trackers.mapM fun tracker => tracker.received d signal
    deliver d rest next

def dataReceived (c : Client) (object : UInt32) (d : Datagram) : Traced Place Client := do
  let (signals,transactions) ← d.dataReceived object c.transactions
  let trackers ← deliver d signals c.trackers
  return ⟨transactions,trackers⟩

end Client

namespace Datagram

def Holds (d : Datagram) : Place → Prop
  | .datagram i => i < d.size
  | .object _ => False

def word (d : Datagram) (off : Nat) : Nat := (d.readUint32 off).result

def addressAt (d : Datagram) (off : Nat) : Address :=
  .v4 (UInt32.ofNat (d.word off)) (UInt16.ofNat (d.readUint16 (off + 4)).result)

def wholePeers (d : Datagram) : List Address := (List.range ((d.size - 20) / 6)).map fun k => d.addressAt (20 + k * 6)

def announced (d : Datagram) : Int := int32 (d.word 12) + int32 (d.word 16)

def granted (d : Datagram) : List Address := d.wholePeers.take d.announced.toNat

-- The loop ends with a whole peer, or runs out before the last.
def Regular (d : Datagram) : Prop :=
  if 0 ≤ d.announced then d.announced ≤ ((d.size - 20) / 6 : Nat) ∨ 6 ∣ d.size - 20
  else d.size = 20 ∨ d.announced = -4294967296

variable {d : Datagram}

theorem get_within (off len : Nat) : (d.get off len).Within d.Holds ↔ len = 0 ∨ off + len ≤ d.size := by
  rw [get,Traced.within_reads]
  constructor
  · intro inside
    by_cases none : len = 0
    · exact .inl none
    · have last : off + len - 1 < d.size := inside (off + len - 1) (by omega) (by omega)
      omega
  · intro fits i above below
    show i < d.size
    omega

theorem readUint32_within (off : Nat) : (d.readUint32 off).Within d.Holds ↔ off + 4 ≤ d.size := by
  rw [readUint32,Traced.within_map,get_within]
  omega

theorem readUint16_within (off : Nat) : (d.readUint16 off).Within d.Holds ↔ off + 2 ≤ d.size := by
  rw [readUint16,Traced.within_map,get_within]
  omega

theorem readInt64_within (off : Nat) : (d.readInt64 off).Within d.Holds ↔ off + 8 ≤ d.size := by
  rw [readInt64,Traced.within_map,get_within]
  omega

theorem readObject_outside (object : UInt32) : ¬ (readObject object).Within d.Holds := by
  intro inside
  exact inside (.object 4) (List.mem_cons_self ..)

end Datagram

namespace UDPTracker

variable {d : Datagram} {tracker : UDPTracker}

theorem addPeers_within (rounds i : Nat) :
    (addPeers d rounds i).Within d.Holds ↔ rounds ≤ (d.size - i) / 6 ∨ 6 ∣ d.size - i := by
  have short : d.size < 65536 := d.size_lt
  induction rounds generalizing i with
  | zero => exact iff_of_true (Traced.within_pure _ _) (.inl (Nat.zero_le _))
  | succ rounds ih =>
      rw [addPeers]
      split
      · rename_i more
        have next : uint32 (i + 6) = i + 6 := uint32_of_lt (by omega)
        simp only [Traced.within_bind,Traced.within_pure,and_true,ih,next,Datagram.readUint32_within,
          Datagram.readUint16_within]
        omega
      · exact iff_of_true (Traced.within_pure _ _) (by omega)

theorem addPeers_result (rounds i : Nat) : (addPeers d rounds i).result =
    (List.range (min rounds ((d.size - i + 5) / 6))).map fun k => d.addressAt (i + k * 6) := by
  have short : d.size < 65536 := d.size_lt
  induction rounds generalizing i with
  | zero => simp [addPeers]
  | succ rounds ih =>
      rw [addPeers]
      split
      · rename_i more
        have next : uint32 (i + 6) = i + 6 := uint32_of_lt (by omega)
        have count : min (rounds + 1) ((d.size - i + 5) / 6) = min rounds ((d.size - (i + 6) + 5) / 6) + 1 := by omega
        simp only [Traced.bind_result,Traced.pure_result,ih,next]
        rw [count,List.range_succ_eq_map,List.map_cons,List.map_map]
        apply congrArg₂ List.cons
        · simp only [Nat.zero_mul,Nat.add_zero]
          rfl
        · apply List.map_congr_left
          intro k _
          exact congrArg d.addressAt (by simp only [Nat.succ_eq_add_one]; omega)
      · rw [show (d.size - i + 5) / 6 = 0 by omega]
        simp

end UDPTracker

namespace Datagram

variable {d : Datagram}

theorem word_lt (d : Datagram) (off : Nat) : d.word off < 4294967296 := by
  show Util.readUint32 _ 0 < _
  simp only [Util.readUint32,Nat.zero_add]
  have bytes (i : Nat) := UInt8.toNat_lt ((d.get off 4).result.getD i 0)
  have first := bytes 0
  have second := bytes 1
  have third := bytes 2
  have fourth := bytes 3
  omega

theorem int32_range (small : n < 4294967296) : -2147483648 ≤ int32 n ∧ int32 n < 2147483648 := by
  unfold int32
  split
  · omega
  · omega

theorem announced_range (d : Datagram) : -4294967296 ≤ d.announced ∧ d.announced < 4294967295 := by
  have leechers := int32_range (d.word_lt 12)
  have seeders := int32_range (d.word_lt 16)
  unfold announced
  omega

-- What the loop adds is inside the datagram and what was announced in the
-- regular case and in no other.
theorem regular_iff (long : 20 ≤ d.size) :
    (UDPTracker.addPeers d (d.announced % 4294967296).toNat 20).Within d.Holds ∧
      (UDPTracker.addPeers d (d.announced % 4294967296).toNat 20).result = d.granted ↔ d.Regular := by
  have range := d.announced_range
  have lengths : (UDPTracker.addPeers d (d.announced % 4294967296).toNat 20).result = d.granted ↔
      min (d.announced % 4294967296).toNat ((d.size - 20 + 5) / 6) = min d.announced.toNat ((d.size - 20) / 6) := by
    rw [UDPTracker.addPeers_result,granted,wholePeers,← List.map_take,List.take_range]
    constructor
    · intro same
      simpa using congrArg List.length same
    · intro same
      rw [same]
  rw [lengths,UDPTracker.addPeers_within,Regular]
  split
  · rename_i positive
    omega
  · rename_i negative
    omega

end Datagram

namespace UDPTracker

variable {d : Datagram} {tracker : UDPTracker} {tid : Nat}

theorem announced_peers (tracker : UDPTracker) (interval : Nat) (leechers seeders : Int) (added : List Address) :
    (tracker.announced interval leechers seeders added).peers = tracker.peers ++ added := by
  unfold announced
  split <;> rfl

theorem scraped_peers (tracker : UDPTracker) (seeders totalDownloaded leechers : Int) :
    (tracker.scraped seeders totalDownloaded leechers).peers = tracker.peers := rfl

theorem announceReceived_other (other : tracker.transactionId ≠ tid) : tracker.announceReceived tid d = pure tracker := by
  rw [announceReceived,if_pos (.inl (Ne.symm other))]

theorem nip_announced (d : Datagram) :
    nip (int32 (d.readUint32 12).result) (int32 (d.readUint32 16).result) = (d.announced % 4294967296).toNat := by
  simp only [nip,Datagram.announced,Datagram.word]

theorem announceReceived_within (same : tracker.transactionId = tid) (long : 20 ≤ d.size) :
    (tracker.announceReceived tid d).Within d.Holds ↔ (addPeers d (d.announced % 4294967296).toNat 20).Within d.Holds := by
  have known : ¬ (tid ≠ tracker.transactionId ∨ d.size < 20) := by omega
  rw [announceReceived,if_neg known]
  simp only [Traced.within_bind,Traced.within_map,Traced.map_result,Traced.within_pure,Datagram.readUint32_within,
    nip_announced,and_true]
  exact ⟨fun reads => reads.2.2.2,fun reads => ⟨by omega,by omega,by omega,reads⟩⟩

theorem announceReceived_peers (same : tracker.transactionId = tid) (long : 20 ≤ d.size) :
    (tracker.announceReceived tid d).result.peers =
      tracker.peers ++ (addPeers d (d.announced % 4294967296).toNat 20).result := by
  have known : ¬ (tid ≠ tracker.transactionId ∨ d.size < 20) := by omega
  rw [announceReceived,if_neg known]
  rw [Traced.bind_result,Traced.bind_result,Traced.bind_result,Traced.bind_result,Traced.pure_result]
  rw [announced_peers,Traced.map_result,Traced.map_result,nip_announced]

theorem scrapeReceived_quiet (tracker : UDPTracker) (tid : Nat) (d : Datagram) :
    (tracker.scrapeReceived tid d).Within d.Holds ∧ (tracker.scrapeReceived tid d).result.peers = tracker.peers := by
  unfold scrapeReceived
  split
  · exact ⟨Traced.within_pure _ _,rfl⟩
  · refine ⟨?_,scraped_peers ..⟩
    simp only [Traced.within_bind,Traced.within_map,Traced.within_pure,Datagram.readUint32_within,and_true]
    omega

-- Only an announce response makes a slot read what may not be there, and
-- only that adds peers.
theorem received_quiet (tracker : UDPTracker) (d : Datagram) (signal : Signal)
    (quiet : ∀ tid buf, signal ≠ .announceReceived tid buf) :
    (tracker.received d signal).Within d.Holds ∧ (tracker.received d signal).result.peers = tracker.peers := by
  cases signal with
  | connectReceived tid connectionId =>
      refine ⟨Traced.within_pure _ _,?_⟩
      show (tracker.connectReceived tid connectionId).peers = _
      unfold connectReceived
      split <;> rfl
  | announceReceived tid buf => exact absurd rfl (quiet tid buf)
  | scrapeReceived tid buf => exact tracker.scrapeReceived_quiet tid d
  | error tid errorString =>
      refine ⟨Traced.within_pure _ _,?_⟩
      show (tracker.onError tid).peers = _
      unfold onError
      split <;> rfl

end UDPTracker

namespace Datagram

variable {d : Datagram} {t : Transactions}

-- Signals that bring no peers.
def Quiet (signals : List Signal) : Prop := ∀ tid buf, Signal.announceReceived tid buf ∉ signals

theorem quiet_nil : Quiet [] := fun _ _ => List.not_mem_nil

theorem quiet_checked (t : Transactions) (action : Action) (tid : Nat) (quiet : Quiet [signal]) :
    Quiet (t.checked action tid signal).1 := by
  unfold Transactions.checked
  cases t.find tid with
  | none => exact quiet_nil
  | some started =>
      by_cases other : started ≠ action
      · simp only [if_pos other]
        simp [Quiet]
      · simp only [if_neg other]
        exact quiet

theorem handleConnect_within : (d.handleConnect t).Within d.Holds ↔
    d.size < 12 ∨ 16 ≤ d.size ∨ t.find (d.word 4) ≠ some .connect := by
  rw [handleConnect]
  by_cases short : d.size < 12
  · rw [if_pos short]
    exact iff_of_true (Traced.within_pure _ _) (.inl short)
  · rw [if_neg short,Traced.within_bind,readUint32_within]
    show _ ∧ Traced.Within _ (match t.find (d.word 4) with | none => _ | some .connect => _ | some _ => _) ↔ _
    split
    · rename_i absent
      have different : t.find (d.word 4) ≠ some .connect := fun same => nomatch absent.symm.trans same
      exact iff_of_true ⟨by omega,Traced.within_pure _ _⟩ (.inr (.inr different))
    · rename_i own
      simp only [Traced.within_bind,readInt64_within,Traced.within_pure,own,ne_eq,not_true_eq_false,and_true,or_false]
      omega
    · rename_i started wrong other
      have different : t.find (d.word 4) ≠ some .connect := fun same => wrong (Option.some.inj (other.symm.trans same))
      exact iff_of_true ⟨by omega,Traced.within_pure _ _⟩ (.inr (.inr different))

theorem handleConnect_quiet : Quiet (d.handleConnect t).result.1 := by
  rw [handleConnect]
  split
  · exact quiet_nil
  · rw [Traced.bind_result]
    split
    · exact quiet_nil
    · simp [Quiet]
    · simp [Quiet]

theorem handleError_within : (d.handleError t).Within d.Holds ↔ d.size < 4 ∨ 8 ≤ d.size := by
  rw [handleError]
  by_cases short : d.size < 4
  · rw [if_pos short]
    exact iff_of_true (Traced.within_pure _ _) (.inl short)
  · rw [if_neg short,Traced.within_bind,readUint32_within]
    split
    · simp only [Traced.within_pure,and_true]
      omega
    · simp only [Traced.within_bind,get_within,Traced.within_pure,and_true]
      omega

theorem handleError_quiet : Quiet (d.handleError t).result.1 := by
  rw [handleError]
  split
  · exact quiet_nil
  · rw [Traced.bind_result]
    split
    · exact quiet_nil
    · simp [Quiet]

theorem handleScrape_within (object : UInt32) : (d.handleScrape object t).Within d.Holds ↔ d.size < 4 := by
  rw [handleScrape]
  by_cases short : d.size < 4
  · rw [if_pos short]
    exact iff_of_true (Traced.within_pure _ _) short
  · rw [if_neg short,Traced.within_bind]
    exact iff_of_false (fun reads => readObject_outside object reads.1) short

theorem handleScrape_quiet (object : UInt32) : Quiet (d.handleScrape object t).result.1 := by
  rw [handleScrape]
  split
  · exact quiet_nil
  · exact quiet_checked t _ _ (by simp [Quiet])

theorem handleAnnounce_within : (d.handleAnnounce t).Within d.Holds ↔ d.size < 4 ∨ 8 ≤ d.size := by
  rw [handleAnnounce]
  by_cases short : d.size < 4
  · rw [if_pos short]
    exact iff_of_true (Traced.within_pure _ _) (.inl short)
  · rw [if_neg short,Traced.within_bind,readUint32_within]
    split
    · simp only [Traced.within_pure,and_true]
      omega
    · simp only [Traced.within_pure,and_true]
      omega

theorem handleAnnounce_passes (long : 20 ≤ d.size) (own : t.find (d.word 4) = some .announce) :
    (d.handleAnnounce t).result.1 = [.announceReceived (d.word 4) d.bytes] := by
  have whole : ¬ d.size < 4 := by omega
  have enough : ¬ ((t.find (d.word 4)).isNone ∨ d.size < 20) := by
    rw [own]
    simp only [Option.isNone_some,Bool.false_eq_true,false_or]
    omega
  rw [handleAnnounce,if_neg whole,Traced.bind_result]
  show Prod.fst (Traced.result (if (t.find (d.word 4)).isNone ∨ d.size < 20 then _ else _)) = _
  rw [if_neg enough]
  show Prod.fst (t.checked .announce (d.word 4) (.announceReceived (d.word 4) d.bytes)) = _
  rw [Transactions.checked,own]
  rfl

theorem handleAnnounce_quiet (other : d.size < 20 ∨ t.find (d.word 4) ≠ some .announce) :
    Quiet (d.handleAnnounce t).result.1 := by
  rw [handleAnnounce]
  split
  · exact quiet_nil
  · rw [Traced.bind_result]
    split
    · exact quiet_nil
    · rename_i enough
      obtain ⟨found,long⟩ := not_or.mp enough
      show Quiet (t.checked .announce (d.word 4) (.announceReceived (d.word 4) d.bytes)).1
      rw [Transactions.checked]
      cases started : t.find (d.word 4) with
      | none => exact quiet_nil
      | some action =>
          have wrong : action ≠ .announce := by
            intro same
            rcases other with short | different
            · exact long short
            · exact different (same ▸ started)
          simp only [if_pos wrong]
          simp [Quiet]

-- Stated of any type that is read, so that none is computed here.
theorem handle_result (object : UInt32) (x : Traced Place Nat) (action : Nat → Option Action) :
    (x >>= fun type => d.handle object t (action type)).result = (d.handle object t (action x.result)).result := rfl

theorem handle_within (object : UInt32) (x : Traced Place Nat) (action : Nat → Option Action) (typed : x.Within d.Holds) :
    (x >>= fun type => d.handle object t (action type)).Within d.Holds ↔
      (d.handle object t (action x.result)).Within d.Holds := by
  rw [Traced.within_bind]
  exact and_iff_right typed

theorem dataReceived_result (object : UInt32) (whole : ¬ d.size < 4) :
    (d.dataReceived object t).result = (d.handle object t (actionOf (d.readUint32 0).result)).result :=
  (congrArg Traced.result (dataReceived_reads object whole)).trans (handle_result object (d.readUint32 0) actionOf)

theorem dataReceived_within (object : UInt32) (whole : ¬ d.size < 4) : (d.dataReceived object t).Within d.Holds ↔
    (d.handle object t (actionOf (d.readUint32 0).result)).Within d.Holds :=
  (iff_of_eq (congrArg (Traced.Within d.Holds) (dataReceived_reads object whole))).trans
    (handle_within object (d.readUint32 0) actionOf ((readUint32_within 0).mpr (by omega)))

end Datagram

namespace Client

variable {d : Datagram} {c : Client}

-- The peers that a tracker has to get for the signals of a datagram.
def due (c : Client) (object : UInt32) (d : Datagram) (tracker : UDPTracker) : List Address :=
  if .announceReceived tracker.transactionId d.bytes ∈ (d.dataReceived object c.transactions).result.1 then d.granted
  else []

-- The datagram is parsed inside its bounds, and every tracker that it is for
-- has the peers that are whole in it, as many as it announces.
structure Parsed (c : Client) (object : UInt32) (d : Datagram) : Prop where
  inside : (c.dataReceived object d).Within d.Holds
  peers : (c.dataReceived object d).result.trackers.map (·.peers) =
    c.trackers.map fun tracker => tracker.peers ++ c.due object d tracker

-- By the action of the datagram, what its handler does not test.
def HarmlessAs (c : Client) (d : Datagram) : Option Action → Prop
  | none => True
  | some .connect => d.size < 12 ∨ 16 ≤ d.size ∨ c.transactions.find (d.word 4) ≠ some .connect
  | some .announce => 8 ≤ d.size ∧ (d.size < 20 ∨ c.transactions.find (d.word 4) ≠ some .announce ∨
      (∀ tracker ∈ c.trackers, tracker.transactionId ≠ d.word 4) ∨ d.Regular)
  | some .error => 8 ≤ d.size
  | some .scrape => False

def Harmless (c : Client) (d : Datagram) : Prop := d.size < 4 ∨ c.HarmlessAs d (actionOf (d.readUint32 0).result)

theorem dataReceived_within (object : UInt32) : (c.dataReceived object d).Within d.Holds ↔
    (d.dataReceived object c.transactions).Within d.Holds ∧
      (deliver d (d.dataReceived object c.transactions).result.1 c.trackers).Within d.Holds := by
  rw [dataReceived,Traced.within_bind,Traced.within_bind]
  exact ⟨fun reads => ⟨reads.1,reads.2.1⟩,fun reads => ⟨reads.1,reads.2,Traced.within_pure _ _⟩⟩

theorem dataReceived_trackers (object : UInt32) : (c.dataReceived object d).result.trackers =
    (deliver d (d.dataReceived object c.transactions).result.1 c.trackers).result := rfl

theorem deliver_quiet (signals : List Signal) (trackers : List UDPTracker) (quiet : Datagram.Quiet signals) :
    (deliver d signals trackers).Within d.Holds ∧
      (deliver d signals trackers).result.map (·.peers) = trackers.map (·.peers) := by
  induction signals generalizing trackers with
  | nil => exact ⟨Traced.within_pure _ _,rfl⟩
  | cons signal rest ih =>
      have none (tid : Nat) (buf : List UInt8) : signal ≠ .announceReceived tid buf := by
        intro same
        exact quiet tid buf (List.mem_cons.mpr (.inl same.symm))
      have one (tracker : UDPTracker) := tracker.received_quiet d signal none
      obtain ⟨inside,peers⟩ := ih (trackers.mapM fun tracker => UDPTracker.received tracker d signal).result
        (fun tid buf member => quiet tid buf (List.mem_cons_of_mem _ member))
      rw [deliver,Traced.within_bind,Traced.bind_result,peers,Traced.within_mapM,Traced.mapM_result,List.map_map]
      rw [Traced.mapM_result] at inside
      exact ⟨⟨fun tracker _ => (one tracker).1,inside⟩,List.map_congr_left fun tracker _ => (one tracker).2⟩

theorem parsed_quiet (object : UInt32) (quiet : Datagram.Quiet (d.dataReceived object c.transactions).result.1) :
    c.Parsed object d ↔ (d.dataReceived object c.transactions).Within d.Holds := by
  obtain ⟨inside,peers⟩ := deliver_quiet (d := d) _ c.trackers quiet
  constructor
  · intro parsed
    exact ((dataReceived_within object).mp parsed.inside).1
  · intro reads
    refine ⟨(dataReceived_within object).mpr ⟨reads,inside⟩,?_⟩
    rw [dataReceived_trackers,peers]
    apply List.map_congr_left
    intro tracker _
    rw [due,if_neg (quiet _ _),List.append_nil]

theorem parsed_announced (object : UInt32) (long : 20 ≤ d.size)
    (announced : (d.dataReceived object c.transactions).result.1 = [.announceReceived tid d.bytes]) :
    c.Parsed object d ↔ (d.dataReceived object c.transactions).Within d.Holds ∧
      ((∀ tracker ∈ c.trackers, tracker.transactionId ≠ tid) ∨ d.Regular) := by
  have places : (c.dataReceived object d).Within d.Holds ↔ (d.dataReceived object c.transactions).Within d.Holds ∧
      ∀ tracker ∈ c.trackers, (tracker.announceReceived tid d).Within d.Holds := by
    rw [dataReceived_within,announced,deliver,Traced.within_bind,Traced.within_mapM]
    exact and_congr_right fun _ => and_iff_left (Traced.within_pure _ _)
  have trackers : (c.dataReceived object d).result.trackers =
      c.trackers.map fun tracker => (tracker.announceReceived tid d).result := by
    rw [dataReceived_trackers,announced,deliver,Traced.bind_result,Traced.mapM_result]
    rfl
  have owed (tracker : UDPTracker) : c.due object d tracker = if tracker.transactionId = tid then d.granted else [] := by
    rw [due,announced]
    simp
  have each (tracker : UDPTracker) : ((tracker.announceReceived tid d).Within d.Holds ∧
      (tracker.announceReceived tid d).result.peers = tracker.peers ++ c.due object d tracker) ↔
        (tracker.transactionId ≠ tid ∨ d.Regular) := by
    rw [owed]
    by_cases same : tracker.transactionId = tid
    · rw [UDPTracker.announceReceived_within same long,UDPTracker.announceReceived_peers same long,if_pos same,
        List.append_cancel_left_eq,Datagram.regular_iff long]
      exact (or_iff_right (not_not.mpr same)).symm
    · rw [UDPTracker.announceReceived_other same,if_neg same,List.append_nil]
      exact iff_of_true ⟨Traced.within_pure _ _,rfl⟩ (.inl same)
  have parsed : c.Parsed object d ↔ (d.dataReceived object c.transactions).Within d.Holds ∧
      ∀ tracker ∈ c.trackers, (tracker.transactionId ≠ tid ∨ d.Regular) := by
    constructor
    · intro parsed
      have peers := parsed.peers
      rw [trackers,List.map_map] at peers
      have reads := places.mp parsed.inside
      exact ⟨reads.1,fun tracker member =>
        (each tracker).mp ⟨reads.2 tracker member,List.map_inj_left.mp peers tracker member⟩⟩
    · intro reads
      refine ⟨places.mpr ⟨reads.1,fun tracker member => ((each tracker).mpr (reads.2 tracker member)).1⟩,?_⟩
      rw [trackers,List.map_map]
      exact List.map_congr_left fun tracker member => ((each tracker).mpr (reads.2 tracker member)).2
  rw [parsed]
  apply and_congr_right
  intro _
  constructor
  · intro all
    by_cases regular : d.Regular
    · exact .inr regular
    · exact .inl fun tracker member => (all tracker member).resolve_right regular
  · rintro (none | regular) tracker member
    · exact .inl (none tracker member)
    · exact .inr regular

theorem parsed_handled (object : UInt32) (whole : ¬ d.size < 4) (action : Option Action)
    (result : (d.dataReceived object c.transactions).result = (d.handle object c.transactions action).result)
    (within : (d.dataReceived object c.transactions).Within d.Holds ↔
      (d.handle object c.transactions action).Within d.Holds) : c.Parsed object d ↔ c.HarmlessAs d action := by
  have quiet (silent : Datagram.Quiet (d.handle object c.transactions action).result.1) :
      Datagram.Quiet (d.dataReceived object c.transactions).result.1 := by
    rw [result]
    exact silent
  cases action with
  | none =>
      rw [parsed_quiet object (quiet Datagram.quiet_nil),within]
      exact iff_of_true (Traced.within_pure _ _) trivial
  | some kind => cases kind with
    | connect =>
        rw [parsed_quiet object (quiet Datagram.handleConnect_quiet),within]
        exact Datagram.handleConnect_within
    | error =>
        rw [parsed_quiet object (quiet Datagram.handleError_quiet),within]
        exact Datagram.handleError_within.trans (or_iff_right whole)
    | scrape =>
        rw [parsed_quiet object (quiet (Datagram.handleScrape_quiet object)),within]
        exact (Datagram.handleScrape_within object).trans (iff_of_false whole id)
    | announce =>
        have places : (d.handle object c.transactions (some .announce)).Within d.Holds ↔ 8 ≤ d.size :=
          Datagram.handleAnnounce_within.trans (or_iff_right whole)
        rw [HarmlessAs]
        by_cases passes : 20 ≤ d.size ∧ c.transactions.find (d.word 4) = some .announce
        · obtain ⟨long,own⟩ := passes
          have passed := (congrArg Prod.fst result).trans (Datagram.handleAnnounce_passes long own)
          rw [parsed_announced object long passed,within,places,or_iff_right (not_lt.mpr long),
            or_iff_right (not_not.mpr own)]
        · have other : d.size < 20 ∨ c.transactions.find (d.word 4) ≠ some .announce := by
            by_cases long : 20 ≤ d.size
            · exact .inr fun own => passes ⟨long,own⟩
            · exact .inl (not_le.mp long)
          rw [parsed_quiet object (quiet (Datagram.handleAnnounce_quiet other)),within,places]
          apply (and_iff_left _).symm
          rcases other with few | wrong
          · exact .inl few
          · exact .inr (.inl wrong)

theorem parsed_iff_harmless (c : Client) (object : UInt32) (d : Datagram) : c.Parsed object d ↔ c.Harmless d := by
  by_cases short : d.size < 4
  · have nothing : d.dataReceived object c.transactions = pure ([],c.transactions) := by
      rw [Datagram.dataReceived,if_pos short]
    have quiet : Datagram.Quiet (d.dataReceived object c.transactions).result.1 := by
      rw [nothing]
      exact Datagram.quiet_nil
    rw [parsed_quiet object quiet,nothing]
    exact iff_of_true (Traced.within_pure _ _) (.inl short)
  · rw [Harmless,or_iff_right short]
    exact parsed_handled object short (actionOf (d.readUint32 0).result) (Datagram.dataReceived_result object short)
      (Datagram.dataReceived_within object short)

-- An announce response of the four bytes of its action, and one with the
-- first byte of a peer.
def shortAnnounce : Datagram := ⟨[0,0,0,1],fun _ => 0,by decide⟩

def partialPeer : Datagram := ⟨[0,0,0,1,0,0,0,1,0,0,7,8,0,0,0,1,0,0,0,0,127],fun _ => 0,by decide⟩

def announcing : Client := ⟨Transactions.new.insert 1 .announce,[⟨1,0,9,0,0,0,0,0,.started,false,.announcing,[]⟩]⟩

theorem partial_peer_added : ¬ announcing.Parsed 0 shortAnnounce ∧ ¬ announcing.Parsed 0 partialPeer := by
  constructor
  · intro parsed
    have beyond : ¬ ∀ p ∈ (announcing.dataReceived 0 shortAnnounce).places, p ≠ Place.datagram 4 := by decide +kernel
    apply beyond
    rintro p member rfl
    exact Nat.lt_irrefl 4 (parsed.inside _ member)
  · intro parsed
    exact absurd parsed.peers (by decide +kernel)

end Client

end KtorrentStream.Tracker
