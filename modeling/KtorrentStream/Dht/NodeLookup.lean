import KtorrentStream.Lib.Rounds
import KtorrentStream.Dht.TokenEcho
set_option autoImplicit true

namespace KtorrentStream.Dht
open KtorrentStream.Lib KtorrentStream.Util KtorrentStream.Bcodec KtorrentStream.Torrent KtorrentStream.Net

-- A request that a task passes to rpcCall, with the entry it is for.
structure SentRequest where
  node : TaskNode
  request : RPCMsg

structure NodeLookup where
  ourId : Key
  nodeId : Key
  todo : List TaskNode
  visited : List TaskNode
  numNodesRsp : Nat
  outstandingReqs : Nat
  finished : Bool
  queued : Bool

namespace NodeLookup

def new (ourId nodeId : Key) : NodeLookup := ⟨ourId,nodeId,[],[],0,0,false,true⟩

def canDoRequest (t : NodeLookup) : Bool := t.outstandingReqs < maxConcurrentReqs

-- lets not talk to ourself
def addTodo (t : NodeLookup) (node : Option TaskNode) : NodeLookup :=
  match node with
  | none => t
  | some e =>
    if e.id ≠ t.ourId ∧ !setContains t.todo e.id ∧ !setContains t.visited e.id then {t with todo := setInsert TaskNode.id e t.todo}
    else t

def handleNodes (t : NodeLookup) (nodes : List UInt8) (ipVersion : Nat) : NodeLookup :=
  let addressSize := if ipVersion = 4 then 26 else 38
  (List.range (nodes.length / addressSize)).foldl
    (fun t j => t.addTodo (unpackBucketEntry nodes (j * addressSize) ipVersion)) t

def callFinished (t : NodeLookup) (rsp : RPCMsg) : NodeLookup :=
  if t.finished then t
  else if rsp.method = .findNode ∧ rsp.type = .rspMsg then
    match rsp.body with
    | .findNodeRsp nodes nodes6 =>
      let t := if nodes.length > 0 then t.handleNodes nodes 4 else t
      let t := if nodes6.length > 0 then t.handleNodes nodes6 6 else t
      {t with numNodesRsp := t.numNodesRsp + 1}
    | _ => t
  else t

def findNodeReq (t : NodeLookup) : RPCMsg := .new [] t.ourId (.findNodeReq t.nodeId [])

-- while (!todo.empty() && canDoRequest())
def findNodeLoop : WorkLoop NodeLookup TaskNode SentRequest where
  todo t := t.todo
  may t := t.canDoRequest
  seen t e := setContains t.visited e.id
  send t e rest := ({t with
    todo := rest,
    visited := setInsert TaskNode.id e t.visited,
    outstandingReqs := t.outstandingReqs + 1},⟨e,t.findNodeReq⟩)
  erase t rest := {t with todo := rest}

def checkDone (t : NodeLookup) : NodeLookup :=
  if t.todo.isEmpty ∧ t.outstandingReqs = 0 ∧ !t.finished then {t with finished := true}
  else if t.visited.length > 200 then {t with finished := true}
  else t

def update (t : NodeLookup) : Option (NodeLookup × List SentRequest) :=
  (findNodeLoop.loop t).map fun r => (r.1.checkDone,r.2)

end NodeLookup

namespace AnnounceTask

def getPeersReq (t : AnnounceTask) : RPCMsg := .new [] t.ourId (.getPeersReq t.infoHash [])

-- The two loops of update.
def announceLoop : WorkLoop AnnounceTask AnsweredNode SentRequest where
  todo t := t.answered
  may t := t.canDoRequest
  seen t e := setContains t.answeredVisited e.id
  send t e rest := ({t with
    answered := rest,
    outstandingReqs := t.outstandingReqs + 1,
    answeredVisited := setInsert TaskNode.id e.toTaskNode t.answeredVisited,
    announced := t.announced ++ [⟨e.toTaskNode,t.announceReq e.token,t.heard⟩]},⟨e.toTaskNode,t.announceReq e.token⟩)
  erase t rest := {t with answered := rest}

def getPeersLoop : WorkLoop AnnounceTask TaskNode SentRequest where
  todo t := t.todo
  may t := t.canDoRequest
  seen t e := setContains t.visited e.id
  send t e rest := ({t with
    todo := rest,
    outstandingReqs := t.outstandingReqs + 1,
    visited := setInsert TaskNode.id e t.visited},⟨e,t.getPeersReq⟩)
  erase t rest := {t with todo := rest}

def updateRounds (t : AnnounceTask) : Option (AnnounceTask × List SentRequest) := do
  let (t,announces) ← announceLoop.loop t
  let (t,lookups) ← getPeersLoop.loop t
  return (t.checkDone,announces ++ lookups)

end AnnounceTask

-- What is called of a task, by the DHT or by Task itself, which calls update only after the
-- others. started is queued = false in start, responded the decrement of outstanding_reqs in
-- onResponse and onTimeout, and insert the insertion into todo in start, addDHTNode and
-- onResolverResults.
inductive TaskCall
  | started
  | update
  | callFinished (method : Method) (origin : Address) (rsp : RPCMsg) (raw : List UInt8)
  | callTimeout
  | responded
  | insert (e : TaskNode)
  | kill

namespace NodeLookup

def call (t : NodeLookup) : TaskCall → Option (NodeLookup × List SentRequest)
  | .started => some ({t with queued := false},[])
  | .update => t.update
  | .callFinished _ _ rsp _ => some (t.callFinished rsp,[])
  | .callTimeout => some (t,[])
  | .responded => some ({t with outstandingReqs := t.outstandingReqs - 1},[])
  | .insert e => some ({t with todo := setInsert TaskNode.id e t.todo},[])
  | .kill => some ({t with finished := true},[])

end NodeLookup

namespace AnnounceTask

def call (t : AnnounceTask) : TaskCall → Option (AnnounceTask × List SentRequest)
  | .started => some ({t with queued := false},[])
  | .update => t.updateRounds
  | .callFinished method origin rsp raw => some (if method = .getPeers then t.callFinished origin rsp raw else t,[])
  | .callTimeout => some (t,[])
  | .responded => some ({t with outstandingReqs := t.outstandingReqs - 1},[])
  | .insert e => some ({t with todo := setInsert TaskNode.id e t.todo},[])
  | .kill => some ({t with finished := true},[])

end AnnounceTask

-- The calls in their order, with all the requests sent.
def taskCalls (call : σ → TaskCall → Option (σ × List SentRequest)) (t : σ) : List TaskCall → Option (σ × List SentRequest)
  | [] => some (t,[])
  | c :: rest => do
    let (t,sent) ← call t c
    let (t,later) ← taskCalls call t rest
    return (t,sent ++ later)

end KtorrentStream.Dht
