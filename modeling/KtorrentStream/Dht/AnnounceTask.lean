import Mathlib.Data.List.Sort
import KtorrentStream.Dht.RPCMsg
set_option autoImplicit true

namespace KtorrentStream.Dht
open KtorrentStream.Util KtorrentStream.Bcodec KtorrentStream.Torrent KtorrentStream.Net

-- std::set<KBucketEntry>: operator < compares the ids alone. The other fields of an entry
-- are not read here.
structure TaskNode where
  addr : Address
  id : Key
  deriving DecidableEq

structure AnsweredNode extends TaskNode where
  token : Key
  deriving DecidableEq

-- Nothing happens if there is an element with the same id already.
def setInsert (key : α → Key) (e : α) (l : List α) : List α :=
  if l.any (key · == key e) then l else l.orderedInsert (fun a b => (key a).lt (key b) = true) e

def setContains (nodes : List TaskNode) (id : Key) : Bool := nodes.any (·.id == id)

def maxConcurrentReqs : Nat := 16

structure Heard where
  node : TaskNode
  token : List UInt8

-- An announce_peer request, with the responses that had come before it was sent.
structure Announced where
  node : TaskNode
  request : RPCMsg
  before : List Heard

-- The last two fields only record what has happened.
structure AnnounceTask where
  ourId : Key
  infoHash : Key
  port : UInt16
  todo : List TaskNode
  visited : List TaskNode
  answered : List AnsweredNode
  answeredVisited : List TaskNode
  outstandingReqs : Nat
  finished : Bool
  queued : Bool
  heard : List Heard
  announced : List Announced

def unpackBucketEntry (ba : List UInt8) (off ipVersion : Nat) : Option TaskNode :=
  let key := Key.ofByteArray ((ba.drop off).take 20)
  if ipVersion = 4 then
    if off + 26 > ba.length then none
    else some ⟨.v4 (UInt32.ofNat (readUint32 ba (off + 20))) (UInt16.ofNat (readUint16 ba (off + 24))),key⟩
  else if size : off + 38 > ba.length then none
  else some ⟨.v6 ⟨(ba.drop (off + 20)).take 16,by rw [List.length_take,List.length_drop]; omega⟩
    (UInt16.ofNat (readUint16 ba (off + 36))),key⟩

namespace AnnounceTask

def new (ourId infoHash : Key) (port : UInt16) (todo : List TaskNode) : AnnounceTask :=
  ⟨ourId,infoHash,port,todo,[],[],[],0,false,true,[],[]⟩

def canDoRequest (t : AnnounceTask) : Bool := t.outstandingReqs < maxConcurrentReqs

def addTodo (t : AnnounceTask) (node : Option TaskNode) : AnnounceTask :=
  match node with
  | none => t
  | some e =>
    if !setContains t.visited e.id ∧ t.todo.length < 100 then {t with todo := setInsert TaskNode.id e t.todo} else t

def handleNodes (t : AnnounceTask) (nodes : List UInt8) (ipVersion : Nat) : AnnounceTask :=
  let addressSize := if ipVersion = 4 then 26 else 38
  (List.range (nodes.length / addressSize)).foldl
    (fun t i => t.addTodo (unpackBucketEntry nodes (i * addressSize) ipVersion)) t

def hear (t : AnnounceTask) (node : TaskNode) (raw : List UInt8) : AnnounceTask := {t with heard := t.heard ++ [⟨node,raw⟩]}

def addAnswered (t : AnnounceTask) (e : TaskNode) (token : Key) : AnnounceTask :=
  if setContains t.answeredVisited e.id then t
  else {t with answered := setInsert (fun a : AnsweredNode => a.id) ⟨e,token⟩ t.answered}

-- A response to get_peers. raw is the token in the packet, from which rsp has been parsed.
def callFinished (t : AnnounceTask) (origin : Address) (rsp : RPCMsg) (raw : List UInt8) : AnnounceTask :=
  match rsp.body with
  | .getPeersRsp token _ nodes nodes6 =>
    let t := if nodes.length > 0 then t.handleNodes nodes 4 else t
    let t := if nodes6.length > 0 then t.handleNodes nodes6 6 else t
    (t.hear ⟨origin,rsp.id⟩ raw).addAnswered ⟨origin,rsp.id⟩ token
  | _ => t

-- The mtid is set by doCall.
def announceReq (t : AnnounceTask) (token : Key) : RPCMsg := .new [] t.ourId (.announceReq t.infoHash [] t.port token)

-- while (!answered.empty() && canDoRequest())
def sendAnnounces (t : AnnounceTask) : List AnsweredNode → AnnounceTask
  | [] => {t with answered := []}
  | e :: rest =>
    if t.canDoRequest then
      if setContains t.answeredVisited e.id then t.sendAnnounces rest
      else sendAnnounces {t with
        outstandingReqs := t.outstandingReqs + 1,
        answeredVisited := setInsert TaskNode.id e.toTaskNode t.answeredVisited,
        announced := t.announced ++ [⟨e.toTaskNode,t.announceReq e.token,t.heard⟩]} rest
    else {t with answered := e :: rest}

-- while (!todo.empty() && canDoRequest())
def sendGetPeers (t : AnnounceTask) : List TaskNode → AnnounceTask
  | [] => {t with todo := []}
  | e :: rest =>
    if t.canDoRequest then
      if setContains t.visited e.id then t.sendGetPeers rest
      else sendGetPeers {t with
        outstandingReqs := t.outstandingReqs + 1,
        visited := setInsert TaskNode.id e t.visited} rest
    else {t with todo := e :: rest}

def checkDone (t : AnnounceTask) : AnnounceTask :=
  if t.todo.isEmpty ∧ t.answered.isEmpty ∧ t.outstandingReqs = 0 ∧ !t.finished then {t with finished := true}
  else if t.answeredVisited.length > 50 ∨ t.visited.length > 200 then {t with finished := true}
  else t

def update (t : AnnounceTask) : AnnounceTask :=
  let t := t.sendAnnounces t.answered
  let t := t.sendGetPeers t.todo
  t.checkDone

def updateIfPossible (t : AnnounceTask) : AnnounceTask := if t.canDoRequest ∧ !t.finished then t.update else t

-- The dictionary of a packet that came from origin for a call with the method. The token in
-- it, where there is none the packet is not a response to get_peers.
def rawToken (dict : Entries) : List UInt8 :=
  match BDictNode.getDict dict "r" with
  | none => []
  | some args => ((BDictNode.getValue args "token").map toByteArray).getD []

def onResponse (qt : QtText) (t : AnnounceTask) (method : Method) (origin : Address) (dict : Entries) : AnnounceTask :=
  match build qt (fun _ => method) dict with
  | .ok (some rsp) =>
    if rsp.type ≠ .rspMsg then t
    else
      let t := {t with outstandingReqs := t.outstandingReqs - 1}
      if t.finished then t
      else updateIfPossible (if method = .getPeers then t.callFinished origin rsp (rawToken dict) else t)
  | _ => t

def onTimeout (t : AnnounceTask) : AnnounceTask :=
  let t := {t with outstandingReqs := t.outstandingReqs - 1}
  if t.finished then t else t.updateIfPossible

def start (t : AnnounceTask) : AnnounceTask := if t.queued then update {t with queued := false} else t

def addDHTNode (t : AnnounceTask) (addr : Address) : AnnounceTask :=
  {t with todo := setInsert TaskNode.id ⟨addr,Key.new⟩ t.todo}

end AnnounceTask

inductive TaskEvent
  | start
  | onResponse (method : Method) (origin : Address) (dict : Entries)
  | onTimeout
  | addDHTNode (addr : Address)
  | kill

namespace AnnounceTask

def step (qt : QtText) (t : AnnounceTask) : TaskEvent → AnnounceTask
  | .start => t.start
  | .onResponse method origin dict => t.onResponse qt method origin dict
  | .onTimeout => t.onTimeout
  | .addDHTNode addr => t.addDHTNode addr
  | .kill => {t with finished := true}

def run (qt : QtText) (t : AnnounceTask) : List TaskEvent → AnnounceTask
  | [] => t
  | event :: rest => run qt (t.step qt event) rest

end AnnounceTask

end KtorrentStream.Dht
