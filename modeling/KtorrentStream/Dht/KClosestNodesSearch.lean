import KtorrentStream.Util.PtrMapTotal
import KtorrentStream.Lib.Smallest
import KtorrentStream.Dht.KBucketTable
import KtorrentStream.Dht.Pack
set_option autoImplicit true

namespace KtorrentStream.Util.PtrMap

variable {β : Type}

-- std::map::insert leaves a value that is there.
def insertNew (m : PtrMap β) (k : Nat) (v : β) : PtrMap β := if m.contains k then m else m.insert k v

def lastKey (m : PtrMap β) : Option Nat := m.entries.getLast?.map Prod.fst

end KtorrentStream.Util.PtrMap

namespace KtorrentStream.Dht
open KtorrentStream.Lib KtorrentStream.Util KtorrentStream.Net

def Key.distance (a b : Key) : Key where
  hash := List.zipWith (· ^^^ ·) a.hash b.hash
  sized := by rw [List.length_zipWith,a.sized,b.sized]; rfl

-- The keys of emap are distances, here as the numbers they stand for.
structure KClosestNodesSearch where
  key : Key
  emap : PtrMap KBucketEntry
  maxEntries : Nat

namespace KClosestNodesSearch

def new (key : Key) (maxEntries : Nat) : KClosestNodesSearch := ⟨key,.empty,maxEntries⟩

-- None where rbegin() of an empty map is used.
def tryInsert (s : KClosestNodesSearch) (e : KBucketEntry) : Option KClosestNodesSearch :=
  let d := (Key.distance s.key e.nodeId).toNat
  if s.emap.count < s.maxEntries then some {s with emap := s.emap.insertNew d e}
  else match s.emap.lastKey with
    | none => none
    | some max => if d < max then some {s with emap := (s.emap.insertNew d e).erase max} else some s

def tryAll (s : KClosestNodesSearch) (offers : List KBucketEntry) : Option KClosestNodesSearch := offers.foldlM tryInsert s

end KClosestNodesSearch

def KBucket.findKClosestNodes (b : KBucket) (kns : KClosestNodesSearch) : Option KClosestNodesSearch := kns.tryAll b.entries

def KBucketTable.findKClosestNodes (t : KBucketTable) (kns : KClosestNodesSearch) : Option KClosestNodesSearch :=
  t.buckets.foldlM (fun kns b => b.findKClosestNodes kns) kns

structure NodeTables where
  ipv4Table : KBucketTable
  ipv6Table : KBucketTable

def NodeTables.findKClosestNodes (n : NodeTables) (kns : KClosestNodesSearch) (wantIpv4 wantIpv6 : Bool) : Option KClosestNodesSearch := do
  let kns ← if wantIpv4 then n.ipv4Table.findKClosestNodes kns else some kns
  if wantIpv6 then n.ipv6Table.findKClosestNodes kns else some kns

structure PackedNodeContainer where
  nodes : List UInt8
  nodes6 : List UInt8

def PackedNodeContainer.addNode (c : PackedNodeContainer) (a : List UInt8) : PackedNodeContainer :=
  if a.length = 26 then {c with nodes := c.nodes ++ a} else {c with nodes6 := c.nodes6 ++ a}

def packNode (c : PackedNodeContainer) (e : KBucketEntry) : Option PackedNodeContainer :=
  (packBucketEntry e (List.replicate (if e.addr.ipVersion = 4 then 26 else 38) 0) 0).toOption.map c.addNode

def KClosestNodesSearch.pack (s : KClosestNodesSearch) : Option PackedNodeContainer :=
  s.emap.entries.foldlM (fun c e => packNode c e.2) ⟨[],[]⟩

-- What DHT::findNode and DHT::getPeers put into their responses.
def NodeTables.closest (n : NodeTables) (target : Key) (wantIpv4 wantIpv6 : Bool) : Option PackedNodeContainer := do
  let kns ← n.findKClosestNodes (.new target K) wantIpv4 wantIpv6
  kns.pack

end KtorrentStream.Dht
