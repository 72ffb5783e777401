import KtorrentStream.Util.Bytes
import KtorrentStream.Bcodec.Fields
import KtorrentStream.Net.Address
import KtorrentStream.Dht.Key
set_option autoImplicit true

namespace KtorrentStream.Dht
open KtorrentStream.Util KtorrentStream.Bcodec KtorrentStream.Torrent KtorrentStream.Net

inductive MsgType
  | reqMsg
  | rspMsg
  | errMsg
  | invalid
  deriving DecidableEq

inductive Method
  | ping
  | findNode
  | getPeers
  | announcePeer
  | none
  deriving DecidableEq

-- What the classes of messages have besides the fields of RPCMsg. Of a DBItem this is the
-- address.
inductive Body
  | pingReq
  | pingRsp
  | findNodeReq (target : Key) (want : List String)
  | findNodeRsp (nodes nodes6 : List UInt8)
  | getPeersReq (infoHash : Key) (want : List String)
  | getPeersRsp (token : Key) (items : List Address) (nodes nodes6 : List UInt8)
  | announceReq (infoHash : Key) (want : List String) (port : UInt16) (token : Key)
  | announceRsp
  | errMsg (msg : String)
  deriving DecidableEq

structure RPCMsg where
  mtid : List UInt8
  method : Method
  type : MsgType
  id : Key
  body : Body
  deriving DecidableEq

def Body.method : Body → Method
  | .pingReq => .ping
  | .pingRsp => .ping
  | .findNodeReq .. => .findNode
  | .findNodeRsp .. => .findNode
  | .getPeersReq .. => .getPeers
  | .getPeersRsp .. => .getPeers
  | .announceReq .. => .announcePeer
  | .announceRsp => .announcePeer
  | .errMsg .. => .none

def Body.type : Body → MsgType
  | .pingReq => .reqMsg
  | .findNodeReq .. => .reqMsg
  | .getPeersReq .. => .reqMsg
  | .announceReq .. => .reqMsg
  | .pingRsp => .rspMsg
  | .findNodeRsp .. => .rspMsg
  | .getPeersRsp .. => .rspMsg
  | .announceRsp => .rspMsg
  | .errMsg .. => .errMsg

-- The constructors, with the mtid that is given or set later.
def RPCMsg.new (mtid : List UInt8) (id : Key) (body : Body) : RPCMsg := ⟨mtid,body.method,body.type,id,body⟩

-- DBItem::pack
def pack : Address → List UInt8
  | .v4 ip port => writeUint32 ip.toNat ++ writeUint16 port.toNat
  | .v6 ip port => ip.val ++ writeUint16 port.toNat

def writeText (text : String) : Call := .writeByteArray (ascii text)

def writeKey (name : String) (key : Key) : List Call := [writeText name,.writeData key.hash]

-- The encode functions of the requests, and those of the responses, differ in their arguments only.
def encodeRequest (mtid : List UInt8) (name : String) (args : List Call) : List UInt8 :=
  encode ([.beginDict,writeText "a",.beginDict] ++ args ++
    [.finish,writeText "q",writeText name,writeText "t",.writeByteArray mtid,writeText "y",writeText "q",.finish])

def encodeResponse (mtid : List UInt8) (args : List Call) : List UInt8 :=
  encode ([.beginDict,writeText "r",.beginDict] ++ args ++
    [.finish,writeText "t",.writeByteArray mtid,writeText "y",writeText "r",.finish])

def writeNodes (name : String) (nodes : List UInt8) : List Call :=
  if nodes.length > 0 then [writeText name,.writeByteArray nodes] else []

def writeValues (items : List Address) : List Call :=
  if items.length > 0 then [writeText "values",.beginList] ++ items.map (fun item => .writeData (pack item)) ++ [.finish]
  else []

def RPCMsg.encode (m : RPCMsg) : List UInt8 :=
  match m.body with
  | .pingReq => encodeRequest m.mtid "ping" (writeKey "id" m.id)
  | .findNodeReq target _ => encodeRequest m.mtid "find_node" (writeKey "id" m.id ++ writeKey "target" target)
  | .getPeersReq infoHash _ => encodeRequest m.mtid "get_peers" (writeKey "id" m.id ++ writeKey "info_hash" infoHash)
  | .announceReq infoHash _ port token => encodeRequest m.mtid "announce_peer" (writeKey "id" m.id ++
      writeKey "info_hash" infoHash ++ [writeText "port",.writeUint32 port.toUInt32] ++ writeKey "token" token)
  | .pingRsp => encodeResponse m.mtid (writeKey "id" m.id)
  | .findNodeRsp nodes nodes6 => encodeResponse m.mtid (writeKey "id" m.id ++ writeNodes "nodes" nodes ++
      writeNodes "nodes6" nodes6)
  | .getPeersRsp token items nodes nodes6 => encodeResponse m.mtid (writeKey "id" m.id ++ writeNodes "nodes" nodes ++
      writeNodes "nodes6" nodes6 ++ writeKey "token" token ++ writeValues items)
  | .announceRsp => encodeResponse m.mtid (writeKey "id" m.id)
  | .errMsg _ => []

-- QString::fromUtf8 is Qt code. Only what it does to ASCII text is assumed.
structure QtText where
  fromUtf8 : List UInt8 → String
  fromUtf8_ascii : ∀ text : String, (∀ c ∈ text.toList, 0 < c.toNat ∧ c.toNat < 128) → fromUtf8 (ascii text) = text

inductive RPCError
  | bnode (err : LoadError)
  | invalidTransactionId                   -- "Invalid DHT transaction ID"
  | unknownMessageType (t : String)        -- "Unknown message type %1"
  | requestArguments                       -- "Invalid request, arguments missing"
  | responseArguments                      -- "Invalid response, arguments missing"
  | dhtResponseArguments                   -- "Arguments missing for DHT response"
  | emptyTransactionId                     -- "Empty transaction ID in DHT response"
  | unknownCall (mtid : List UInt8)        -- "Unknown DHT rpc call (transaction id = %1)"
  | invalidRequestType (str : String)      -- "Invalid request type %1"
  | missingNodes                           -- "Missing nodes or nodes6 parameter"
  | invalidErrorMessage                    -- "Invalid error message"

section
variable (qt : QtText)

def readByteArray (value : Option Value) : Except RPCError (List UInt8) := (getByteArray value).mapError .bnode

def readString (value : Option Value) : Except RPCError String := (readByteArray value).map qt.fromUtf8

def readInt (value : Option Value) : Except RPCError Int := (getInt value).mapError .bnode

-- The value of a list at an index; none where there is no such child.
def listValue (items : List BNode) (i : Nat) : Option Value := items[i]?.bind valueOf

def toByteArray : Value → List UInt8
  | .string s => s
  | _ => []

-- The id is that of the arguments, if there are any.
def parseId (args : Option Entries) : Except RPCError Key :=
  match args with
  | none => .ok Key.new
  | some args => (readByteArray (BDictNode.getValue args "id")).map Key.ofByteArray

-- RPCMsg::parse
def parseMsg (dict : Entries) : Except RPCError (List UInt8 × MsgType × Key) := do
  let mtid ← readByteArray (BDictNode.getValue dict "t")
  if mtid = [] then throw .invalidTransactionId
  let t ← readString qt (BDictNode.getValue dict "y")
  if t = "q" then return (mtid,.reqMsg,← parseId (BDictNode.getDict dict "a"))
  else if t = "r" then return (mtid,.rspMsg,← parseId (BDictNode.getDict dict "r"))
  else if t = "e" then return (mtid,.errMsg,Key.new)
  else throw (.unknownMessageType t)

def message (method : Method) (base : List UInt8 × MsgType × Key) (body : Body) : RPCMsg :=
  ⟨base.1,method,base.2.1,base.2.2,body⟩

def arguments (err : RPCError) (args : Option Entries) : Except RPCError Entries :=
  match args with
  | none => .error err
  | some args => .ok args

-- while the list lasts: want.append(ln->getString(i,0))
def parseWant (args : Entries) : Except RPCError (List String) :=
  match BDictNode.getList args "want" with
  | none => .ok []
  | some items => items.mapM fun n => readString qt (valueOf n)

def parsePingReq (dict : Entries) : Except RPCError RPCMsg := do
  return message .ping (← parseMsg qt dict) .pingReq

def parseFindNodeReq (dict : Entries) : Except RPCError RPCMsg := do
  let base ← parseMsg qt dict
  let args ← arguments .requestArguments (BDictNode.getDict dict "a")
  let target ← readByteArray (BDictNode.getValue args "target")
  let want ← parseWant qt args
  return message .findNode base (.findNodeReq (Key.ofByteArray target) want)

def parseGetPeersReq (dict : Entries) : Except RPCError RPCMsg := do
  let base ← parseMsg qt dict
  let args ← arguments .requestArguments (BDictNode.getDict dict "a")
  let infoHash ← readByteArray (BDictNode.getValue args "info_hash")
  let want ← parseWant qt args
  return message .getPeers base (.getPeersReq (Key.ofByteArray infoHash) want)

-- GetPeersReq::parse comes first.
def parseAnnounceReq (dict : Entries) : Except RPCError RPCMsg := do
  let base ← parseMsg qt dict
  let args ← arguments .requestArguments (BDictNode.getDict dict "a")
  let _ ← readByteArray (BDictNode.getValue args "info_hash")
  let want ← parseWant qt args
  let infoHash ← readByteArray (BDictNode.getValue args "info_hash")
  let port ← readInt (BDictNode.getValue args "port")
  let token ← readByteArray (BDictNode.getValue args "token")
  return message .announcePeer base
    (.announceReq (Key.ofByteArray infoHash) want (UInt16.ofNat (port % 65536).toNat) (Key.ofByteArray token))

def parsePingRsp (dict : Entries) : Except RPCError RPCMsg := do
  return message .ping (← parseMsg qt dict) .pingRsp

-- nodes and nodes6, empty where there is none.
def parseNodes (args : Entries) : List UInt8 × List UInt8 :=
  (((BDictNode.getValue args "nodes").map toByteArray).getD [],((BDictNode.getValue args "nodes6").map toByteArray).getD [])

-- getValue("nodes") || getList("nodes6")
def hasNodes (args : Entries) : Bool :=
  (BDictNode.getValue args "nodes").isSome || (BDictNode.getList args "nodes6").isSome

def parseFindNodeRsp (dict : Entries) : Except RPCError RPCMsg := do
  let base ← parseMsg qt dict
  let args ← arguments .responseArguments (BDictNode.getDict dict "r")
  if !hasNodes args then throw .missingNodes
  return message .findNode base (.findNodeRsp (parseNodes args).1 (parseNodes args).2)

-- Values of another length than 6 or 18 are left out.
def parseItem (d : List UInt8) : Option Address :=
  if d.length = 6 then some (.v4 (UInt32.ofNat (readUint32 d 0)) (UInt16.ofNat (readUint16 d 4)))
  else if size : d.length = 18 then
    some (.v6 ⟨d.take 16,by rw [List.length_take,size]; rfl⟩ (UInt16.ofNat (readUint16 d 16)))
  else none

def parseValues (args : Entries) : Except RPCError (List Address) :=
  match BDictNode.getList args "values" with
  | none => .ok []
  | some items => (items.mapM fun n => readByteArray (valueOf n)).map fun values => values.filterMap parseItem

def parseGetPeersRsp (dict : Entries) : Except RPCError RPCMsg := do
  let base ← parseMsg qt dict
  let args ← arguments .responseArguments (BDictNode.getDict dict "r")
  let token ← readByteArray (BDictNode.getValue args "token")
  let items ← parseValues args
  let nodes := if hasNodes args then parseNodes args else ([],[])
  return message .getPeers base (.getPeersRsp (Key.ofByteArray token) items nodes.1 nodes.2)

def parseAnnounceRsp (dict : Entries) : Except RPCError RPCMsg := do
  let base ← parseMsg qt dict
  let _ ← arguments .responseArguments (BDictNode.getDict dict "r")
  return message .announcePeer base .announceRsp

def parseErrMsg (dict : Entries) : Except RPCError RPCMsg := do
  let base ← parseMsg qt dict
  match BDictNode.getList dict "e" with
  | none => throw .invalidErrorMessage
  | some items => return message .none base (.errMsg (← readString qt (listValue items 1)))

-- RPCMsgFactory. None is the null pointer, for the requests that are ignored.
def buildRequest (dict : Entries) : Except RPCError (Option RPCMsg) := do
  let _ ← arguments .requestArguments (BDictNode.getDict dict "a")
  let str ← readString qt (BDictNode.getValue dict "q")
  if str = "ping" then return some (← parsePingReq qt dict)
  else if str = "find_node" then return some (← parseFindNodeReq qt dict)
  else if str = "get_peers" then return some (← parseGetPeersReq qt dict)
  else if str = "announce_peer" then return some (← parseAnnounceReq qt dict)
  else if str = "vote" then return none
  else throw (.invalidRequestType str)

def buildResponse (findMethod : List UInt8 → Method) (dict : Entries) : Except RPCError (Option RPCMsg) := do
  let _ ← arguments .dhtResponseArguments (BDictNode.getDict dict "r")
  let mtid ← readByteArray (BDictNode.getValue dict "t")
  if mtid = [] then throw .emptyTransactionId
  match findMethod mtid with
  | .ping => return some (← parsePingRsp qt dict)
  | .findNode => return some (← parseFindNodeRsp qt dict)
  | .getPeers => return some (← parseGetPeersRsp qt dict)
  | .announcePeer => return some (← parseAnnounceRsp qt dict)
  | .none => throw (.unknownCall mtid)

def build (findMethod : List UInt8 → Method) (dict : Entries) : Except RPCError (Option RPCMsg) := do
  let t ← readString qt (BDictNode.getValue dict "y")
  if t = "q" then buildRequest qt dict
  else if t = "r" then buildResponse qt findMethod dict
  else if t = "e" then return some (← parseErrMsg qt dict)
  else throw (.unknownMessageType t)

end

end KtorrentStream.Dht
