import KtorrentStream.Dht.RPCMsg
set_option autoImplicit true

namespace KtorrentStream.Dht
open KtorrentStream.Util KtorrentStream.Bcodec KtorrentStream.Torrent KtorrentStream.Net

def keyField (name : String) (key : Key) : List UInt8 × BTree := (ascii name,.str key.hash)

def nodesField (name : String) (nodes : List UInt8) : List (List UInt8 × BTree) :=
  if nodes.length > 0 then [(ascii name,.str nodes)] else []

def valuesField (items : List Address) : List (List UInt8 × BTree) :=
  if items.length > 0 then [(ascii "values",.list (items.map fun item => .str (pack item)))] else []

-- The arguments of a message, as a dictionary.
def argFields (id : Key) : Body → List (List UInt8 × BTree)
  | .findNodeReq target _ => [keyField "id" id,keyField "target" target]
  | .getPeersReq infoHash _ => [keyField "id" id,keyField "info_hash" infoHash]
  | .announceReq infoHash _ port token =>
    [keyField "id" id,keyField "info_hash" infoHash,(ascii "port",.int port.toNat),keyField "token" token]
  | .findNodeRsp nodes nodes6 => [keyField "id" id] ++ nodesField "nodes" nodes ++ nodesField "nodes6" nodes6
  | .getPeersRsp token items nodes nodes6 => [keyField "id" id] ++ nodesField "nodes" nodes ++
      nodesField "nodes6" nodes6 ++ [keyField "token" token] ++ valuesField items
  | _ => [keyField "id" id]

def requestFields (mtid : List UInt8) (name : String) (args : List (List UInt8 × BTree)) : List (List UInt8 × BTree) :=
  [(ascii "a",.dict args),(ascii "q",.str (ascii name)),(ascii "t",.str mtid),(ascii "y",.str (ascii "q"))]

def responseFields (mtid : List UInt8) (args : List (List UInt8 × BTree)) : List (List UInt8 × BTree) :=
  [(ascii "r",.dict args),(ascii "t",.str mtid),(ascii "y",.str (ascii "r"))]

def bytesOf (calls : List Call) : List UInt8 := calls.flatMap Call.bytes

theorem callsEntries_append (xs ys : List (List UInt8 × BTree)) :
    callsEntries (xs ++ ys) = callsEntries xs ++ callsEntries ys := by
  induction xs with
  | nil => rfl
  | cons head rest ih => simp [callsEntries,ih]

theorem bytesOf_append (xs ys : List Call) : bytesOf (xs ++ ys) = bytesOf xs ++ bytesOf ys := List.flatMap_append

theorem encodeRequest_eq (mtid : List UInt8) (name : String) (same : bytesOf calls = bytesOf (callsEntries args)) :
    encodeRequest mtid name calls = bytesOf (BTree.dict (requestFields mtid name args)).calls := by
  rw [encodeRequest,encode_eq]
  show bytesOf _ = _
  simp only [bytesOf_append,same]
  simp [bytesOf,requestFields,BTree.calls,callsEntries,writeText]

theorem encodeResponse_eq (mtid : List UInt8) (same : bytesOf calls = bytesOf (callsEntries args)) :
    encodeResponse mtid calls = bytesOf (BTree.dict (responseFields mtid args)).calls := by
  rw [encodeResponse,encode_eq]
  show bytesOf _ = _
  simp only [bytesOf_append,same]
  simp [bytesOf,responseFields,BTree.calls,callsEntries,writeText]

theorem writeKey_bytes (name : String) (key : Key) : bytesOf (writeKey name key) = bytesOf (callsEntries [keyField name key]) := by
  simp [bytesOf,writeKey,writeText,callsEntries,keyField,BTree.calls,writeData_same]

theorem writeNodes_bytes (name : String) (nodes : List UInt8) :
    bytesOf (writeNodes name nodes) = bytesOf (callsEntries (nodesField name nodes)) := by
  unfold writeNodes nodesField
  split
  · simp [bytesOf,writeText,callsEntries,BTree.calls]
  · rfl

theorem items_bytes (items : List Address) :
    bytesOf (items.map fun item => .writeData (pack item)) = bytesOf (callsItems (items.map fun item => .str (pack item))) := by
  induction items with
  | nil => rfl
  | cons item rest ih =>
    simp only [List.map_cons,callsItems,BTree.calls,bytesOf_append,← ih]
    simp [bytesOf,writeData_same]

theorem writeValues_bytes (items : List Address) : bytesOf (writeValues items) = bytesOf (callsEntries (valuesField items)) := by
  unfold writeValues valuesField
  split
  · rw [bytesOf_append,bytesOf_append,items_bytes]
    simp [bytesOf,writeText,callsEntries,BTree.calls]
  · rfl

theorem writePort_bytes (port : UInt16) :
    bytesOf [writeText "port",.writeUint32 port.toUInt32] = bytesOf (callsEntries [(ascii "port",.int port.toNat)]) := by
  simp [bytesOf,writeText,callsEntries,BTree.calls,Call.bytes]

theorem fields_decoded (qn : QtNumber) (data : QByteArray) (natural : NaturalEntries fields)
    (bytes : data.bytes = bytesOf (BTree.dict fields).calls) :
    ∃ dict off len pos, decode qn data 0 = .ok (some (.dict dict off len),pos) ∧ treeEntries dict = fields ∧
      PlainEntries dict := by
  have short := data.size_lt
  rw [bytes] at short
  have sized := natural_encodable (.dict fields) natural short
  rw [← List.append_nil (bytesOf _)] at bytes
  obtain ⟨node,decoded,same,plain⟩ := decode_encoded qn _ sized data bytes
  obtain ⟨dict,off,len,rfl,tree,ints⟩ := tree_dict same plain
  exact ⟨dict,off,len,_,decoded,tree,ints⟩

-- What the factory finds in the dictionary of a message, whose arguments are under key.
structure Parts (dict : Entries) (key : String) (mtid : List UInt8) (args : Entries) (fields : List (List UInt8 × BTree)) :
    Prop where
  found : BDictNode.getDict dict key = some args
  same : treeEntries args = fields
  plain : PlainEntries args
  transaction : BDictNode.getValue dict "t" = some (.string mtid)
  type : BDictNode.getValue dict "y" = some (.string (ascii (if key = "a" then "q" else "r")))

theorem request_parts (same : treeEntries dict = requestFields mtid name fields) (plain : PlainEntries dict) :
    (∃ args, Parts dict "a" mtid args fields) ∧ BDictNode.getValue dict "q" = some (.string (ascii name)) := by
  have there : field (requestFields mtid name fields) "a" = some (.dict fields) := rfl
  obtain ⟨args,found,inside,ints⟩ := getDict_some same plain there
  exact ⟨⟨args,found,inside,ints,getValue_str same plain rfl,getValue_str same plain rfl⟩,getValue_str same plain rfl⟩

theorem response_parts (same : treeEntries dict = responseFields mtid fields) (plain : PlainEntries dict) :
    ∃ args, Parts dict "r" mtid args fields := by
  have there : field (responseFields mtid fields) "r" = some (.dict fields) := rfl
  obtain ⟨args,found,inside,ints⟩ := getDict_some same plain there
  exact ⟨args,found,inside,ints,getValue_str same plain rfl,getValue_str same plain rfl⟩

theorem readByteArray_string (s : List UInt8) : readByteArray (some (.string s)) = .ok s := rfl

theorem ofByteArray_hash (key : Key) : Key.ofByteArray key.hash = key := by
  apply Key.ext
  show key.hash.take 20 ++ List.replicate (20 - key.hash.length) 0 = key.hash
  rw [key.sized,List.take_of_length_le (Nat.le_of_eq key.sized)]
  simp

theorem ok_bind {ε α β : Type} (x : α) (f : α → Except ε β) : (Except.ok x >>= f) = f x := rfl

theorem error_bind {ε α β : Type} (e : ε) (f : α → Except ε β) : (Except.error e >>= f) = .error e := rfl

theorem pure_ok {ε α : Type} (x : α) : (pure x : Except ε α) = .ok x := rfl

theorem throw_error {ε α : Type} (e : ε) : (throw e : Except ε α) = .error e := rfl

section
variable (qt : QtText)

theorem readString_ascii (text : String) (plain : ∀ c ∈ text.toList, 0 < c.toNat ∧ c.toNat < 128) :
    readString qt (some (.string (ascii text))) = .ok text := by
  rw [readString,readByteArray_string]
  exact congrArg Except.ok (qt.fromUtf8_ascii text plain)

variable {dict args : Entries} {mtid : List UInt8} {fields : List (List UInt8 × BTree)} {id : Key}

theorem parseMsg_request (parts : Parts dict "a" mtid args fields) (ours : field fields "id" = some (.str id.hash)) :
    parseMsg qt dict = if mtid = [] then .error .invalidTransactionId else .ok (mtid,.reqMsg,id) := by
  have found := getValue_str parts.same parts.plain ours
  have type : readString qt (BDictNode.getValue dict "y") = .ok "q" := by
    rw [parts.type]
    exact readString_ascii qt "q" (by simp)
  unfold parseMsg
  rw [parts.transaction,type,parts.found]
  simp only [readByteArray_string,parseId,found,Except.map,ofByteArray_hash]
  by_cases empty : mtid = []
  · simp [empty,ok_bind,error_bind,throw_error]
  · simp [empty,ok_bind,pure_ok]

theorem parseMsg_response (parts : Parts dict "r" mtid args fields) (ours : field fields "id" = some (.str id.hash)) :
    parseMsg qt dict = if mtid = [] then .error .invalidTransactionId else .ok (mtid,.rspMsg,id) := by
  have found := getValue_str parts.same parts.plain ours
  have type : readString qt (BDictNode.getValue dict "y") = .ok "r" := by
    rw [parts.type]
    exact readString_ascii qt "r" (by simp)
  unfold parseMsg
  rw [parts.transaction,type,parts.found]
  simp only [readByteArray_string,parseId,found,Except.map,ofByteArray_hash]
  by_cases empty : mtid = []
  · simp [empty,ok_bind,error_bind,throw_error]
  · simp [empty,ok_bind,pure_ok]

theorem parseWant_none (parts : Parts dict key mtid args fields) (missing : field fields "want" = none) :
    parseWant qt args = .ok [] := by
  rw [parseWant,getList_none parts.same parts.plain (.inl missing)]

theorem readKey (parts : Parts dict key mtid args fields) (there : field fields name = some (.str s)) :
    readByteArray (BDictNode.getValue args name) = .ok s := by
  rw [getValue_str parts.same parts.plain there,readByteArray_string]

theorem arguments_found (parts : Parts dict key mtid args fields) (err : RPCError) :
    arguments err (BDictNode.getDict dict key) = .ok args := by
  rw [parts.found,arguments]

theorem build_request (parts : Parts dict "a" mtid args fields) (findMethod : List UInt8 → Method)
    (request : BDictNode.getValue dict "q" = some (.string (ascii name)))
    (plain : ∀ c ∈ name.toList, 0 < c.toNat ∧ c.toNat < 128) :
    build qt findMethod dict =
      if name = "ping" then some <$> parsePingReq qt dict
      else if name = "find_node" then some <$> parseFindNodeReq qt dict
      else if name = "get_peers" then some <$> parseGetPeersReq qt dict
      else if name = "announce_peer" then some <$> parseAnnounceReq qt dict
      else if name = "vote" then .ok none
      else .error (.invalidRequestType name) := by
  have type : readString qt (BDictNode.getValue dict "y") = .ok "q" := by
    rw [parts.type]
    exact readString_ascii qt "q" (by simp)
  have str : readString qt (BDictNode.getValue dict "q") = .ok name := by
    rw [request]
    exact readString_ascii qt name plain
  unfold build buildRequest
  rw [type,str,arguments_found parts]
  rfl

theorem build_response (parts : Parts dict "r" mtid args fields) (findMethod : List UInt8 → Method) (there : mtid ≠ []) :
    build qt findMethod dict =
      match findMethod mtid with
      | .ping => some <$> parsePingRsp qt dict
      | .findNode => some <$> parseFindNodeRsp qt dict
      | .getPeers => some <$> parseGetPeersRsp qt dict
      | .announcePeer => some <$> parseAnnounceRsp qt dict
      | .none => .error (.unknownCall mtid) := by
  have type : readString qt (BDictNode.getValue dict "y") = .ok "r" := by
    rw [parts.type]
    exact readString_ascii qt "r" (by simp)
  unfold build buildResponse
  rw [type,arguments_found parts,parts.transaction,readByteArray_string]
  simp [ok_bind,there]
  cases findMethod mtid <;> rfl

theorem build_response_empty (parts : Parts dict "r" [] args fields) (findMethod : List UInt8 → Method) :
    build qt findMethod dict = .error .emptyTransactionId := by
  have type : readString qt (BDictNode.getValue dict "y") = .ok "r" := by
    rw [parts.type]
    exact readString_ascii qt "r" (by simp)
  unfold build buildResponse
  rw [type,arguments_found parts,parts.transaction,readByteArray_string]
  rfl

-- What the classes make of their own encoding, once the mtid is not empty.
theorem parsePingReq_eq (parts : Parts dict "a" mtid args (argFields id .pingReq)) (there : mtid ≠ []) :
    parsePingReq qt dict = .ok (.new mtid id .pingReq) := by
  rw [parsePingReq,parseMsg_request qt parts rfl,if_neg there]
  rfl

theorem parseFindNodeReq_eq (parts : Parts dict "a" mtid args (argFields id (.findNodeReq target want))) (there : mtid ≠ []) :
    parseFindNodeReq qt dict = .ok (.new mtid id (.findNodeReq target [])) := by
  have found : readByteArray (BDictNode.getValue args "target") = .ok target.hash := readKey parts rfl
  rw [parseFindNodeReq,parseMsg_request qt parts rfl,if_neg there,arguments_found parts]
  simp only [ok_bind,found,parseWant_none qt parts rfl,ofByteArray_hash]
  rfl

theorem parseGetPeersReq_eq (parts : Parts dict "a" mtid args (argFields id (.getPeersReq infoHash want))) (there : mtid ≠ []) :
    parseGetPeersReq qt dict = .ok (.new mtid id (.getPeersReq infoHash [])) := by
  have found : readByteArray (BDictNode.getValue args "info_hash") = .ok infoHash.hash := readKey parts rfl
  rw [parseGetPeersReq,parseMsg_request qt parts rfl,if_neg there,arguments_found parts]
  simp only [ok_bind,found,parseWant_none qt parts rfl,ofByteArray_hash]
  rfl

theorem parseAnnounceReq_eq (parts : Parts dict "a" mtid args (argFields id (.announceReq infoHash want port token)))
    (there : mtid ≠ []) :
    parseAnnounceReq qt dict = .ok (.new mtid id (.announceReq infoHash [] port token)) := by
  have found : readByteArray (BDictNode.getValue args "info_hash") = .ok infoHash.hash := readKey parts rfl
  have given : readByteArray (BDictNode.getValue args "token") = .ok token.hash := readKey parts rfl
  have bound := port.toNat_lt
  have number : readInt (BDictNode.getValue args "port") = .ok (port.toNat : Int) := by
    rw [getValue_int parts.same parts.plain rfl (by omega)]
    rfl
  have back : UInt16.ofNat ((port.toNat : Int) % 65536).toNat = port := by
    rw [show ((port.toNat : Int) % 65536).toNat = port.toNat by omega]
    exact UInt16.ofNat_toNat
  rw [parseAnnounceReq,parseMsg_request qt parts rfl,if_neg there,arguments_found parts]
  simp only [ok_bind,found,given,number,back,parseWant_none qt parts rfl,ofByteArray_hash]
  rfl

theorem parsePingRsp_eq (parts : Parts dict "r" mtid args (argFields id .pingRsp)) (there : mtid ≠ []) :
    parsePingRsp qt dict = .ok (.new mtid id .pingRsp) := by
  rw [parsePingRsp,parseMsg_response qt parts rfl,if_neg there]
  rfl

theorem parseAnnounceRsp_eq (parts : Parts dict "r" mtid args (argFields id .announceRsp)) (there : mtid ≠ []) :
    parseAnnounceRsp qt dict = .ok (.new mtid id .announceRsp) := by
  rw [parseAnnounceRsp,parseMsg_response qt parts rfl,if_neg there,arguments_found parts]
  rfl

-- An empty list of nodes is not written.
def written (nodes : List UInt8) : Option BTree := if nodes = [] then none else some (.str nodes)

theorem getValue_written (parts : Parts dict key mtid args fields) (there : field fields name = written nodes) :
    BDictNode.getValue args name = if nodes = [] then none else some (.string nodes) := by
  unfold written at there
  split at there
  · rename_i none
    rw [if_pos none]
    exact getValue_none parts.same parts.plain there
  · rename_i some
    rw [if_neg some]
    exact getValue_str parts.same parts.plain there

theorem getList_written (parts : Parts dict key mtid args fields) (there : field fields name = written nodes) :
    BDictNode.getList args name = none := by
  unfold written at there
  split at there
  · exact getList_none parts.same parts.plain (.inl there)
  · exact getList_none parts.same parts.plain (.inr ⟨_,there⟩)

-- nodes6 is written as a string, and hasNodes looks for a list.
theorem hasNodes_written (parts : Parts dict key mtid args fields) (four : field fields "nodes" = written nodes)
    (six : field fields "nodes6" = written nodes6) : hasNodes args = decide (nodes ≠ []) := by
  rw [hasNodes,getValue_written parts four,getList_written parts six]
  by_cases none : nodes = []
  · simp [none]
  · simp [none]

theorem parseNodes_written (parts : Parts dict key mtid args fields) (four : field fields "nodes" = written nodes)
    (six : field fields "nodes6" = written nodes6) : parseNodes args = (nodes,nodes6) := by
  have back (l : List UInt8) : ((if l = [] then none else some (Value.string l)).map toByteArray).getD [] = l := by
    by_cases none : l = []
    · simp [none]
    · simp [none,toByteArray]
  rw [parseNodes,getValue_written parts four,getValue_written parts six,back,back]

theorem parseFindNodeRsp_eq (parts : Parts dict "r" mtid args (argFields id (.findNodeRsp nodes nodes6)))
    (there : mtid ≠ []) : parseFindNodeRsp qt dict =
      if nodes = [] then .error .missingNodes else .ok (.new mtid id (.findNodeRsp nodes nodes6)) := by
  have four : field (argFields id (.findNodeRsp nodes nodes6)) "nodes" = written nodes := by
    cases nodes <;> cases nodes6 <;> rfl
  have six : field (argFields id (.findNodeRsp nodes nodes6)) "nodes6" = written nodes6 := by
    cases nodes <;> cases nodes6 <;> rfl
  rw [parseFindNodeRsp,parseMsg_response qt parts rfl,if_neg there,arguments_found parts]
  simp only [ok_bind,hasNodes_written parts four six,parseNodes_written parts four six]
  by_cases none : nodes = []
  · simp [none,throw_error]
  · simp [none,pure_ok]
    rfl

theorem readPort (front : List UInt8) (port : UInt16) :
    UInt16.ofNat (readUint16 (front ++ writeUint16 port.toNat) front.length) = port := by
  have place := readUint16_append front (writeUint16 port.toNat) 0
  have value := readUint16_write port.toNat_lt []
  rw [List.append_nil] at value
  rw [Nat.add_zero] at place
  rw [place,value,UInt16.ofNat_toNat]

theorem parseItem_pack (item : Address) : parseItem (pack item) = some item := by
  cases item with
  | v4 ip port =>
    have first := readUint32_write ip.toNat_lt (writeUint16 port.toNat)
    unfold parseItem pack
    rw [if_pos (by simp),first,UInt32.ofNat_toNat]
    exact congrArg (some <| Address.v4 ip ·) (readPort (writeUint32 ip.toNat) port)
  | v6 ip port =>
    obtain ⟨bytes,size⟩ := ip
    have last := readPort bytes port
    rw [size] at last
    unfold parseItem pack
    rw [if_neg (by simp [size]),dif_pos (by simp [size])]
    simp only [List.take_left' size,last]

theorem values_read (nodes : List BNode) (strings : List (List UInt8)) (same : treeItems nodes = strings.map .str) :
    (nodes.mapM fun n => readByteArray (valueOf n)) = .ok strings := by
  induction nodes generalizing strings with
  | nil =>
    cases strings with
    | nil => rfl
    | cons => cases same
  | cons n rest ih =>
    cases strings with
    | nil => cases same
    | cons s others =>
      obtain ⟨head,tail⟩ := List.cons_eq_cons.mp same
      obtain ⟨off,len,rfl⟩ := tree_str head
      rw [List.mapM_cons,ih others tail]
      rfl

theorem parseValues_written (parts : Parts dict key mtid args fields)
    (there : field fields "values" = if items = [] then none else some (.list (items.map fun item => .str (pack item)))) :
    parseValues args = .ok items := by
  unfold parseValues
  by_cases none : items = []
  · rw [if_pos none] at there
    rw [getList_none parts.same parts.plain (.inl there),none]
  · rw [if_neg none] at there
    obtain ⟨nodes,list,same,_⟩ := getList_some parts.same parts.plain there
    have strings : treeItems nodes = (items.map pack).map .str := by
      rw [same,List.map_map]
      rfl
    rw [list]
    dsimp only
    rw [values_read nodes _ strings]
    simp [Except.map,List.filterMap_map,parseItem_pack]

-- nodes6 is read only if there are nodes.
theorem parseGetPeersRsp_eq (parts : Parts dict "r" mtid args (argFields id (.getPeersRsp token items nodes nodes6)))
    (there : mtid ≠ []) : parseGetPeersRsp qt dict =
      .ok (.new mtid id (.getPeersRsp token items nodes (if nodes = [] then [] else nodes6))) := by
  have four : field (argFields id (.getPeersRsp token items nodes nodes6)) "nodes" = written nodes := by
    cases nodes <;> cases nodes6 <;> cases items <;> rfl
  have six : field (argFields id (.getPeersRsp token items nodes nodes6)) "nodes6" = written nodes6 := by
    cases nodes <;> cases nodes6 <;> cases items <;> rfl
  have given : field (argFields id (.getPeersRsp token items nodes nodes6)) "token" = some (.str token.hash) := by
    cases nodes <;> cases nodes6 <;> cases items <;> rfl
  have values : field (argFields id (.getPeersRsp token items nodes nodes6)) "values" =
      if items = [] then none else some (.list (items.map fun item => .str (pack item))) := by
    cases nodes <;> cases nodes6 <;> cases items <;> rfl
  have ours : field (argFields id (.getPeersRsp token items nodes nodes6)) "id" = some (.str id.hash) := rfl
  rw [parseGetPeersRsp,parseMsg_response qt parts ours,if_neg there,arguments_found parts]
  simp only [ok_bind,readKey parts given,parseValues_written parts values,hasNodes_written parts four six,
    parseNodes_written parts four six,ofByteArray_hash,pure_ok]
  by_cases none : nodes = []
  · simp [none]
    rfl
  · simp [none]
    rfl

end

-- The name of the request, if it is one.
def requestName : Body → Option String
  | .pingReq => some "ping"
  | .findNodeReq .. => some "find_node"
  | .getPeersReq .. => some "get_peers"
  | .announceReq .. => some "announce_peer"
  | _ => none

theorem requestName_plain (kind : requestName body = some name) : ∀ c ∈ name.toList, 0 < c.toNat ∧ c.toNat < 128 := by
  cases body <;> cases kind <;> simp

def messageFields (mtid : List UInt8) (id : Key) (body : Body) : List (List UInt8 × BTree) :=
  match requestName body with
  | some name => requestFields mtid name (argFields id body)
  | none => responseFields mtid (argFields id body)

theorem encode_fields (mtid : List UInt8) (id : Key) (body : Body) (noError : ∀ msg, body ≠ .errMsg msg) :
    (RPCMsg.new mtid id body).encode = bytesOf (BTree.dict (messageFields mtid id body)).calls := by
  cases body with
  | pingReq => exact encodeRequest_eq mtid "ping" (writeKey_bytes "id" id)
  | pingRsp => exact encodeResponse_eq mtid (writeKey_bytes "id" id)
  | announceRsp => exact encodeResponse_eq mtid (writeKey_bytes "id" id)
  | errMsg msg => exact absurd rfl (noError msg)
  | findNodeReq target want =>
    apply encodeRequest_eq mtid "find_node"
    rw [bytesOf_append,writeKey_bytes,writeKey_bytes,← bytesOf_append,← callsEntries_append]
    rfl
  | getPeersReq infoHash want =>
    apply encodeRequest_eq mtid "get_peers"
    rw [bytesOf_append,writeKey_bytes,writeKey_bytes,← bytesOf_append,← callsEntries_append]
    rfl
  | announceReq infoHash want port token =>
    apply encodeRequest_eq mtid "announce_peer"
    simp only [bytesOf_append,writeKey_bytes,writePort_bytes]
    simp only [← bytesOf_append,← callsEntries_append]
    rfl
  | findNodeRsp nodes nodes6 =>
    apply encodeResponse_eq mtid
    simp only [bytesOf_append,writeKey_bytes,writeNodes_bytes]
    simp only [← bytesOf_append,← callsEntries_append]
    rfl
  | getPeersRsp token items nodes nodes6 =>
    apply encodeResponse_eq mtid
    simp only [bytesOf_append,writeKey_bytes,writeNodes_bytes,writeValues_bytes]
    simp only [← bytesOf_append,← callsEntries_append]
    rfl

theorem naturalEntries_append (xs ys : List (List UInt8 × BTree)) :
    NaturalEntries (xs ++ ys) ↔ NaturalEntries xs ∧ NaturalEntries ys := by
  induction xs with
  | nil => simp [NaturalEntries]
  | cons head rest ih => simp [NaturalEntries,ih,and_assoc]

theorem naturalItems_strings (items : List Address) : NaturalItems (items.map fun item => .str (pack item)) := by
  induction items with
  | nil => trivial
  | cons item rest ih => exact ⟨trivial,ih⟩

theorem argFields_natural (id : Key) (body : Body) : NaturalEntries (argFields id body) := by
  have nodes (name : String) (l : List UInt8) : NaturalEntries (nodesField name l) := by
    unfold nodesField
    split
    · exact ⟨trivial,trivial⟩
    · trivial
  cases body with
  | announceReq infoHash want port token =>
    have bound := port.toNat_lt
    exact ⟨trivial,trivial,⟨by omega,by omega⟩,trivial,trivial⟩
  | findNodeRsp four six =>
    simp only [argFields,naturalEntries_append,nodes]
    exact ⟨⟨⟨trivial,trivial⟩,trivial⟩,trivial⟩
  | getPeersRsp token items four six =>
    have values : NaturalEntries (valuesField items) := by
      unfold valuesField
      split
      · exact ⟨naturalItems_strings items,trivial⟩
      · trivial
    simp only [argFields,naturalEntries_append,nodes,values]
    exact ⟨⟨⟨⟨⟨trivial,trivial⟩,trivial⟩,trivial⟩,⟨trivial,trivial⟩⟩,trivial⟩
  | findNodeReq target want => exact ⟨trivial,trivial,trivial⟩
  | getPeersReq infoHash want => exact ⟨trivial,trivial,trivial⟩
  | pingReq => exact ⟨trivial,trivial⟩
  | pingRsp => exact ⟨trivial,trivial⟩
  | announceRsp => exact ⟨trivial,trivial⟩
  | errMsg msg => exact ⟨trivial,trivial⟩

theorem messageFields_natural (mtid : List UInt8) (id : Key) (body : Body) : NaturalEntries (messageFields mtid id body) := by
  have args := argFields_natural id body
  unfold messageFields
  split
  · exact ⟨args,trivial,trivial,trivial,trivial⟩
  · exact ⟨args,trivial,trivial,trivial⟩

-- The message that the factory makes of an encoding, if it makes one.
def rebuilt (mtid : List UInt8) (id : Key) (body : Body) : Option RPCMsg :=
  if mtid = [] then none
  else match body with
    | .findNodeReq target _ => some (.new mtid id (.findNodeReq target []))
    | .getPeersReq infoHash _ => some (.new mtid id (.getPeersReq infoHash []))
    | .announceReq infoHash _ port token => some (.new mtid id (.announceReq infoHash [] port token))
    | .findNodeRsp nodes nodes6 => if nodes = [] then none else some (.new mtid id (.findNodeRsp nodes nodes6))
    | .getPeersRsp token items nodes nodes6 =>
      some (.new mtid id (.getPeersRsp token items nodes (if nodes = [] then [] else nodes6)))
    | .errMsg _ => none
    | body => some (.new mtid id body)

section
variable (qt : QtText)

theorem build_request_empty {dict args : Entries} {id : Key} (parts : Parts dict "a" [] args fields)
    (ours : field fields "id" = some (.str id.hash)) (findMethod : List UInt8 → Method)
    (request : BDictNode.getValue dict "q" = some (.string (ascii name))) (kind : requestName body = some name) :
    build qt findMethod dict = .error .invalidTransactionId := by
  have none : parseMsg qt dict = .error .invalidTransactionId := by
    rw [parseMsg_request qt parts ours,if_pos rfl]
  have text := requestName_plain kind
  cases body with
  | pingReq =>
    cases kind
    rw [build_request qt parts findMethod request text,if_pos rfl,parsePingReq,none]
    rfl
  | findNodeReq target want =>
    cases kind
    rw [build_request qt parts findMethod request text,if_neg (by decide),if_pos rfl,parseFindNodeReq,none]
    rfl
  | getPeersReq infoHash want =>
    cases kind
    rw [build_request qt parts findMethod request text,if_neg (by decide),if_neg (by decide),if_pos rfl,
      parseGetPeersReq,none]
    rfl
  | announceReq infoHash want port token =>
    cases kind
    rw [build_request qt parts findMethod request text,if_neg (by decide),if_neg (by decide),if_neg (by decide),
      if_pos rfl,parseAnnounceReq,none]
    rfl
  | pingRsp => cases kind
  | findNodeRsp nodes nodes6 => cases kind
  | getPeersRsp token items nodes nodes6 => cases kind
  | announceRsp => cases kind
  | errMsg msg => cases kind

theorem argFields_id (id : Key) (body : Body) : field (argFields id body) "id" = some (.str id.hash) := by
  cases body <;> rfl

theorem build_rebuilt {dict : Entries} (findMethod : List UInt8 → Method) (mtid : List UInt8) (id : Key) (body : Body)
    (noError : ∀ msg, body ≠ .errMsg msg) (resolves : findMethod mtid = body.method)
    (same : treeEntries dict = messageFields mtid id body) (plain : PlainEntries dict) (m : RPCMsg) :
    build qt findMethod dict = .ok (some m) ↔ rebuilt mtid id body = some m := by
  have ours := argFields_id id body
  unfold messageFields at same
  cases kind : requestName body with
  | some name =>
    rw [kind] at same
    obtain ⟨⟨args,parts⟩,request⟩ := request_parts same plain
    by_cases empty : mtid = []
    · subst empty
      rw [build_request_empty qt parts ours findMethod request kind]
      simp [rebuilt]
    · have text := requestName_plain kind
      cases body <;> cases kind <;> rw [build_request qt parts findMethod request text]
      · rw [if_pos rfl,parsePingReq_eq qt parts empty]
        simp [rebuilt,empty]
      · rw [if_neg (by decide),if_pos rfl,parseFindNodeReq_eq qt parts empty]
        simp [rebuilt,empty]
      · rw [if_neg (by decide),if_neg (by decide),if_pos rfl,parseGetPeersReq_eq qt parts empty]
        simp [rebuilt,empty]
      · rw [if_neg (by decide),if_neg (by decide),if_neg (by decide),if_pos rfl,parseAnnounceReq_eq qt parts empty]
        simp [rebuilt,empty]
  | none =>
    rw [kind] at same
    obtain ⟨args,parts⟩ := response_parts same plain
    by_cases empty : mtid = []
    · subst empty
      rw [build_response_empty qt parts]
      simp [rebuilt]
    · rw [build_response qt parts findMethod empty,resolves]
      cases body with
      | pingReq => cases kind
      | findNodeReq target want => cases kind
      | getPeersReq infoHash want => cases kind
      | announceReq infoHash want port token => cases kind
      | errMsg msg => exact absurd rfl (noError msg)
      | pingRsp =>
        simp only [Body.method]
        rw [parsePingRsp_eq qt parts empty]
        simp [rebuilt,empty]
      | announceRsp =>
        simp only [Body.method]
        rw [parseAnnounceRsp_eq qt parts empty]
        simp [rebuilt,empty]
      | findNodeRsp nodes nodes6 =>
        simp only [Body.method]
        rw [parseFindNodeRsp_eq qt parts empty]
        by_cases none : nodes = []
        · simp [rebuilt,empty,none]
        · simp [rebuilt,empty,none]
      | getPeersRsp token items nodes nodes6 =>
        simp only [Body.method]
        rw [parseGetPeersRsp_eq qt parts empty]
        simp [rebuilt,empty]

end

-- The bytes are decoded to a dictionary, and the factory makes the message of it.
def RoundTrips (qn : QtNumber) (qt : QtText) (findMethod : List UInt8 → Method) (data : QByteArray) (m : RPCMsg) : Prop :=
  ∃ dict off len pos, decode qn data 0 = .ok (some (.dict dict off len),pos) ∧ build qt findMethod dict = .ok (some m)

-- Errors are not encoded at all, want is not encoded, and nodes6 without nodes is not read.
def Kept (mtid : List UInt8) : Body → Prop
  | .errMsg _ => False
  | .findNodeReq _ want => mtid ≠ [] ∧ want = []
  | .getPeersReq _ want => mtid ≠ [] ∧ want = []
  | .announceReq _ want _ _ => mtid ≠ [] ∧ want = []
  | .findNodeRsp nodes _ => mtid ≠ [] ∧ nodes ≠ []
  | .getPeersRsp _ _ nodes nodes6 => mtid ≠ [] ∧ (nodes6 ≠ [] → nodes ≠ [])
  | _ => mtid ≠ []

theorem rebuilt_iff (mtid : List UInt8) (id : Key) (body : Body) :
    rebuilt mtid id body = some (.new mtid id body) ↔ Kept mtid body := by
  unfold rebuilt
  by_cases empty : mtid = []
  · rw [if_pos empty]
    cases body <;> simp [Kept,empty]
  · rw [if_neg empty]
    cases body with
    | findNodeRsp nodes nodes6 => by_cases none : nodes = [] <;> simp [Kept,empty,none]
    | getPeersRsp token items nodes nodes6 =>
      by_cases none : nodes = []
      · simp [Kept,empty,none,RPCMsg.new,Body.method,Body.type,eq_comm]
      · simp [Kept,empty,none]
    | findNodeReq target want => simp [Kept,empty,RPCMsg.new,Body.method,Body.type,eq_comm]
    | getPeersReq infoHash want => simp [Kept,empty,RPCMsg.new,Body.method,Body.type,eq_comm]
    | announceReq infoHash want port token => simp [Kept,empty,RPCMsg.new,Body.method,Body.type,eq_comm]
    | pingReq => simp [Kept,empty]
    | pingRsp => simp [Kept,empty]
    | announceRsp => simp [Kept,empty]
    | errMsg msg => simp [Kept]

theorem decode_nothing (qn : QtNumber) (data : QByteArray) (nothing : data.bytes = []) :
    decode qn data 0 = .ok (none,0) := by
  have head : data.bytes[0]? = none := by
    rw [nothing]
    rfl
  rw [decode,decodeFuel,head]

theorem roundTrips_rebuilt (qn : QtNumber) (qt : QtText) (findMethod : List UInt8 → Method) (mtid : List UInt8)
    (id : Key) (body : Body) (data : QByteArray) (encoded : data.bytes = (RPCMsg.new mtid id body).encode)
    (resolves : findMethod mtid = body.method) :
    RoundTrips qn qt findMethod data (.new mtid id body) ↔ rebuilt mtid id body = some (.new mtid id body) := by
  by_cases error : ∃ msg, body = .errMsg msg
  · obtain ⟨msg,rfl⟩ := error
    constructor
    · rintro ⟨dict,off,len,pos,decoded,_⟩
      rw [decode_nothing qn data encoded] at decoded
      cases decoded
    · intro result
      rw [rebuilt_iff] at result
      cases result
  · have noError : ∀ msg, body ≠ .errMsg msg := fun msg same => error ⟨msg,same⟩
    rw [encode_fields mtid id body noError] at encoded
    obtain ⟨dict,off,len,pos,decoded,same,plain⟩ := fields_decoded qn data (messageFields_natural mtid id body) encoded
    have built := build_rebuilt qt findMethod mtid id body noError resolves same plain (.new mtid id body)
    rw [← built]
    constructor
    · rintro ⟨dict',off',len',pos',decoded',result⟩
      rw [decoded] at decoded'
      cases decoded'
      exact result
    · exact fun result => ⟨dict,off,len,pos,decoded,result⟩

theorem message_roundtrip_iff (qn : QtNumber) (qt : QtText) (findMethod : List UInt8 → Method) (mtid : List UInt8)
    (id : Key) (body : Body) (data : QByteArray) (encoded : data.bytes = (RPCMsg.new mtid id body).encode)
    (resolves : findMethod mtid = body.method) :
    RoundTrips qn qt findMethod data (.new mtid id body) ↔ Kept mtid body :=
  (roundTrips_rebuilt qn qt findMethod mtid id body data encoded resolves).trans (rebuilt_iff mtid id body)

-- One such conversion: each byte is a character.
def QtText.plain : QtText where
  fromUtf8 s := String.ofList (s.map fun b => Char.ofNat b.toNat)
  fromUtf8_ascii text small := by
    have back : (ascii text).map (fun b => Char.ofNat b.toNat) = text.toList := by
      rw [ascii,List.map_map]
      conv_rhs => rw [← List.map_id text.toList]
      refine List.map_congr_left fun c member => ?_
      have bound := (small c member).2
      simp only [Function.comp_apply,UInt8.toNat_ofNat',id_eq]
      rw [Nat.mod_eq_of_lt (by omega),Char.ofNat_toNat]
    rw [back,String.ofList_toList]

-- A response to get_peers with all it can have: a token, two peers, and a node of each kind.
def fullResponse : Body :=
  .getPeersRsp (Key.ofByteArray [1,2,3]) [.v4 16909060 6881,.v6 ⟨List.replicate 16 1,by decide⟩ 51413] (List.replicate 26 1) (List.replicate 38 2)

theorem fullResponse_encoded : (RPCMsg.new [97,97] Key.min fullResponse).encode.length < 2^31 := by decide +kernel

theorem full_response_roundtrips : RoundTrips QtNumber.plain QtText.plain (fun _ => .getPeers) ⟨_,fullResponse_encoded⟩
    (.new [97,97] Key.min fullResponse) :=
  (message_roundtrip_iff QtNumber.plain QtText.plain (fun _ => .getPeers) [97,97] Key.min fullResponse ⟨_,fullResponse_encoded⟩ rfl rfl).mpr
    ⟨List.cons_ne_nil _ _,fun _ => List.cons_ne_nil _ _⟩

-- A response to find_node with one IPv6 node and no IPv4 node.
def onlySix : Body := .findNodeRsp [] (List.replicate 38 1)

theorem onlySix_encoded : (RPCMsg.new [97,97] Key.min onlySix).encode.length < 2^31 := by decide +kernel

theorem only_nodes6_lost : ¬∀ (mtid : List UInt8) (id : Key) (body : Body) (data : QByteArray),
    data.bytes = (RPCMsg.new mtid id body).encode →
    RoundTrips QtNumber.plain QtText.plain (fun _ => body.method) data (.new mtid id body) := by
  intro all
  have back := all [97,97] Key.min onlySix ⟨_,onlySix_encoded⟩ rfl
  rw [roundTrips_rebuilt _ _ _ _ _ _ _ rfl rfl] at back
  cases back

end KtorrentStream.Dht
