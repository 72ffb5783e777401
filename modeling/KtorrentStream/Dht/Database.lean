import Mathlib.Logic.Function.Basic
import KtorrentStream.Dht.RPCMsg
set_option autoImplicit true

namespace KtorrentStream.Dht
open Net
open KtorrentStream.Lib

structure DBItem where
  addr : Address
  timeStamp : Nat
  deriving DecidableEq

def maxItemAge : Nat := 1800000

def DBItem.expired (item : DBItem) (now : Nat) : Bool := now - item.timeStamp ≥ maxItemAge

structure Database where
  items : Key → Option (List DBItem)
  tokens : Key → Option Nat

namespace Database

def new : Database := ⟨fun _ => none,fun _ => none⟩

def itemsOf (db : Database) (key : Key) : List DBItem := (db.items key).getD []

def store (db : Database) (key : Key) (item : DBItem) : Database :=
  {db with items := Function.update db.items key (some (db.itemsOf key ++ [item]))}

-- The first maxEntries items of the version, in their order.
def sample (db : Database) (key : Key) (maxEntries ipVersion : Nat) : List DBItem :=
  ((db.itemsOf key).filter fun item => ipVersion = item.addr.ipVersion).take maxEntries

-- Newer items are at the back: the loop stops at one that is not expired.
def expire (db : Database) (now : Nat) : Database :=
  {db with items := fun key => (db.items key).map (List.dropWhile fun item => item.expired now)}

-- SHA1Hash::generate is a parameter.
def tokenFor (generate : List UInt8 → Key) (addr : Address) (now : Nat) : Key := generate (pack addr ++ BigEndian.digits 8 now)

def genToken (generate : List UInt8 → Key) (db : Database) (addr : Address) (now : Nat) : Key × Database :=
  let token := tokenFor generate addr now
  (token,{db with tokens := Function.update db.tokens token (some now)})

def checkToken (generate : List UInt8 → Key) (db : Database) (token : Key) (addr : Address) : Bool × Database :=
  match db.tokens token with
  | none => (false,db)
  | some ts =>
    if token ≠ tokenFor generate addr ts then (false,db)
    else (true,{db with tokens := Function.update db.tokens token none})

end Database

structure AnnounceReq where
  id : Key
  infoHash : Key
  port : UInt16
  token : Key
  origin : Address

structure GetPeersReq where
  id : Key
  infoHash : Key
  origin : Address

structure DHT where
  running : Bool
  ourId : Key
  db : Database

namespace DHT

-- The port of the request is not used.
def announce (generate : List UInt8 → Key) (d : DHT) (r : AnnounceReq) (now : Nat) : DHT :=
  if !d.running then d
  else if r.id = d.ourId then d
  else match d.db.checkToken generate r.token r.origin with
    | (false,db) => {d with db}
    | (true,db) => {d with db := db.store r.infoHash ⟨r.origin,now⟩}

-- The nodes of the response are left out.
def getPeers (generate : List UInt8 → Key) (d : DHT) (r : GetPeersReq) (now : Nat) : Option (List DBItem × Key) × DHT :=
  if !d.running then (none,d)
  else if r.id = d.ourId then (none,d)
  else
    let dbl := d.db.sample r.infoHash 50 r.origin.ipVersion
    let (token,db) := d.db.genToken generate r.origin now
    (some (dbl,token),{d with db})

def expireDatabaseItems (d : DHT) (now : Nat) : DHT := {d with db := d.db.expire now}

def accepts (generate : List UInt8 → Key) (d : DHT) (r : AnnounceReq) : Bool :=
  d.running ∧ r.id ≠ d.ourId ∧ (d.db.checkToken generate r.token r.origin).1

end DHT

inductive DHTEvent
  | announce (r : AnnounceReq)
  | getPeers (r : GetPeersReq)
  | expire

-- announces are those that were accepted, in their order.
structure DHTSession where
  dht : DHT
  clock : Nat
  announces : List (AnnounceReq × Nat)
  expiredAt : Nat

namespace DHTSession

def new (ourId : Key) : DHTSession := ⟨⟨true,ourId,.new⟩,0,[],0⟩

def step (generate : List UInt8 → Key) (s : DHTSession) (now : Nat) : DHTEvent → DHTSession
  | .announce r => {s with
      dht := s.dht.announce generate r now,
      clock := now,
      announces := if s.dht.accepts generate r then s.announces ++ [(r,now)] else s.announces}
  | .getPeers r => {s with dht := (s.dht.getPeers generate r now).2,clock := now}
  | .expire => {s with dht := s.dht.expireDatabaseItems now,clock := now,expiredAt := now}

-- The announces under a key that were not expired at a time.
def live (s : DHTSession) (key : Key) (now : Nat) : List (AnnounceReq × Nat) :=
  s.announces.filter fun a => a.1.infoHash = key ∧ now - a.2 < maxItemAge

def announced (a : AnnounceReq × Nat) : Address := a.1.origin.withPort a.1.port

def others (s : DHTSession) (key : Key) (ipVersion : Nat) (peer : Address) : List DBItem :=
  (s.dht.db.itemsOf key).filter fun item => ipVersion = item.addr.ipVersion ∧ item.addr ≠ peer

-- What is stored has the UDP source port, and its peer is new to the key.
def Met (generate : List UInt8 → Key) (s : DHTSession) : DHTEvent → Prop
  | .announce r => s.dht.accepts generate r = true →
    r.port = r.origin.port ∧ ∀ item ∈ s.dht.db.itemsOf r.infoHash, item.addr ≠ r.origin
  | _ => True

inductive Reached (generate : List UInt8 → Key) (ourId : Key) : DHTSession → Prop
  | start : Reached generate ourId (new ourId)
  | step : Reached generate ourId s → s.clock ≤ now → s.Met generate event → Reached generate ourId (s.step generate now event)

end DHTSession

end KtorrentStream.Dht
