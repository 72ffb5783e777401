import KtorrentStream.Lib.Along
import KtorrentStream.Dht.AnnounceTask
import KtorrentStream.Dht.MessageRoundTrip
set_option autoImplicit true

namespace KtorrentStream.Dht
open KtorrentStream.Lib KtorrentStream.Util KtorrentStream.Bcodec KtorrentStream.Torrent KtorrentStream.Net

-- The token that a remote node finds in the bytes of a request.
def encodedToken (qn : QtNumber) (data : QByteArray) : Option (List UInt8) :=
  match decode qn data 0 with
  | .ok (some (.dict dict _ _),_) =>
    match BDictNode.getDict dict "a" with
    | none => none
    | some args => (BDictNode.getValue args "token").map toByteArray
  | _ => none

theorem announceReq_token (qn : QtNumber) (mtid : List UInt8) (id infoHash : Key) (want : List String) (port : UInt16)
    (token : Key) (data : QByteArray)
    (encoded : data.bytes = (RPCMsg.new mtid id (.announceReq infoHash want port token)).encode) :
    encodedToken qn data = some token.hash := by
  rw [encode_fields mtid id _ (fun msg same => by cases same)] at encoded
  obtain ⟨dict,off,len,pos,decoded,same,plain⟩ := fields_decoded qn data (messageFields_natural _ _ _) encoded
  obtain ⟨⟨args,parts⟩,_⟩ := request_parts same plain
  have there : field (argFields id (.announceReq infoHash want port token)) "token" = some (.str token.hash) := rfl
  have value := getValue_str parts.same parts.plain there
  rw [encodedToken,decoded]
  dsimp only
  rw [parts.found]
  dsimp only
  rw [value]
  rfl

-- A response to get_peers is parsed with the token that is in the packet.
theorem readByteArray_raw (read : readByteArray value = .ok s) : (value.map toByteArray).getD [] = s := by
  cases value with
  | none => cases read
  | some v =>
    cases v with
    | string strval =>
      cases read
      rfl
    | int ival => cases read
    | int64 bigIval => cases read

theorem arguments_ok (found : arguments err args = .ok entries) : args = some entries := by
  cases args with
  | none => cases found
  | some args =>
    cases found
    rfl

theorem parseGetPeersRsp_token (qt : QtText) (parsed : parseGetPeersRsp qt dict = .ok m)
    (body : m.body = .getPeersRsp token items nodes nodes6) : token = Key.ofByteArray (AnnounceTask.rawToken dict) := by
  unfold parseGetPeersRsp at parsed
  obtain ⟨base,_,parsed⟩ := bind_ok parsed
  obtain ⟨args,found,parsed⟩ := bind_ok parsed
  obtain ⟨raw,read,parsed⟩ := bind_ok parsed
  obtain ⟨values,_,parsed⟩ := bind_ok parsed
  cases parsed
  cases body
  rw [AnnounceTask.rawToken,arguments_ok found]
  exact congrArg Key.ofByteArray (readByteArray_raw read).symm

theorem parsePingReq_body (qt : QtText) (parsed : parsePingReq qt dict = .ok m) : m.body = .pingReq := by
  unfold parsePingReq at parsed
  obtain ⟨base,_,parsed⟩ := bind_ok parsed
  cases parsed
  rfl

theorem parseFindNodeReq_body (qt : QtText) (parsed : parseFindNodeReq qt dict = .ok m) :
    ∃ target want, m.body = .findNodeReq target want := by
  unfold parseFindNodeReq at parsed
  obtain ⟨base,_,parsed⟩ := bind_ok parsed
  obtain ⟨args,_,parsed⟩ := bind_ok parsed
  obtain ⟨target,_,parsed⟩ := bind_ok parsed
  obtain ⟨want,_,parsed⟩ := bind_ok parsed
  cases parsed
  exact ⟨_,_,rfl⟩

theorem parseGetPeersReq_body (qt : QtText) (parsed : parseGetPeersReq qt dict = .ok m) :
    ∃ infoHash want, m.body = .getPeersReq infoHash want := by
  unfold parseGetPeersReq at parsed
  obtain ⟨base,_,parsed⟩ := bind_ok parsed
  obtain ⟨args,_,parsed⟩ := bind_ok parsed
  obtain ⟨infoHash,_,parsed⟩ := bind_ok parsed
  obtain ⟨want,_,parsed⟩ := bind_ok parsed
  cases parsed
  exact ⟨_,_,rfl⟩

theorem parseAnnounceReq_body (qt : QtText) (parsed : parseAnnounceReq qt dict = .ok m) :
    ∃ infoHash want port token, m.body = .announceReq infoHash want port token := by
  unfold parseAnnounceReq at parsed
  obtain ⟨base,_,parsed⟩ := bind_ok parsed
  obtain ⟨args,_,parsed⟩ := bind_ok parsed
  obtain ⟨first,_,parsed⟩ := bind_ok parsed
  obtain ⟨want,_,parsed⟩ := bind_ok parsed
  obtain ⟨infoHash,_,parsed⟩ := bind_ok parsed
  obtain ⟨port,_,parsed⟩ := bind_ok parsed
  obtain ⟨token,_,parsed⟩ := bind_ok parsed
  cases parsed
  exact ⟨_,_,_,_,rfl⟩

theorem parseErrMsg_body (qt : QtText) (parsed : parseErrMsg qt dict = .ok m) : ∃ msg, m.body = .errMsg msg := by
  unfold parseErrMsg at parsed
  obtain ⟨base,_,parsed⟩ := bind_ok parsed
  cases list : BDictNode.getList dict "e" with
  | none =>
    rw [list] at parsed
    cases parsed
  | some items =>
    rw [list] at parsed
    obtain ⟨msg,_,parsed⟩ := bind_ok parsed
    cases parsed
    exact ⟨_,rfl⟩

theorem some_map_ok {x : Except RPCError RPCMsg} (ran : (do return some (← x)) = Except.ok (some m)) : x = .ok m := by
  obtain ⟨a,read,same⟩ := bind_ok ran
  cases same
  exact read

theorem buildRequest_body (qt : QtText) (built : buildRequest qt dict = .ok (some m)) :
    m.body ≠ .getPeersRsp token items nodes nodes6 := by
  unfold buildRequest at built
  obtain ⟨args,_,built⟩ := bind_ok built
  obtain ⟨str,_,built⟩ := bind_ok built
  intro body
  split at built
  · have other := parsePingReq_body qt (some_map_ok built)
    rw [body] at other
    cases other
  split at built
  · obtain ⟨_,_,other⟩ := parseFindNodeReq_body qt (some_map_ok built)
    rw [body] at other
    cases other
  split at built
  · obtain ⟨_,_,other⟩ := parseGetPeersReq_body qt (some_map_ok built)
    rw [body] at other
    cases other
  split at built
  · obtain ⟨_,_,_,_,other⟩ := parseAnnounceReq_body qt (some_map_ok built)
    rw [body] at other
    cases other
  split at built
  · cases built
  · cases built

theorem build_token (qt : QtText) (built : build qt (fun _ => .getPeers) dict = .ok (some m))
    (body : m.body = .getPeersRsp token items nodes nodes6) : token = Key.ofByteArray (AnnounceTask.rawToken dict) := by
  unfold build at built
  obtain ⟨t,_,built⟩ := bind_ok built
  split at built
  · exact absurd body (buildRequest_body qt built)
  split at built
  · unfold buildResponse at built
    obtain ⟨args,_,built⟩ := bind_ok built
    obtain ⟨mtid,_,built⟩ := bind_ok built
    dsimp only at built
    by_cases empty : mtid = []
    · rw [if_pos empty] at built
      cases built
    · rw [if_neg empty] at built
      exact parseGetPeersRsp_token qt (some_map_ok built) body
  split at built
  · obtain ⟨_,other⟩ := parseErrMsg_body qt (some_map_ok built)
    rw [body] at other
    cases other
  · cases built

namespace AnnounceTask

-- What the task takes from a packet, if it is a response to get_peers: who sent it and the
-- token in it.
def answer (qt : QtText) (t : AnnounceTask) (method : Method) (origin : Address) (dict : Entries) :
    Option (TaskNode × List UInt8) :=
  match build qt (fun _ => method) dict with
  | .ok (some rsp) =>
    if rsp.type ≠ .rspMsg ∨ t.finished ∨ method ≠ .getPeers then none
    else match rsp.body with
      | .getPeersRsp .. => some (⟨origin,rsp.id⟩,rawToken dict)
      | _ => none
  | _ => none

-- The key holds a token of 20 bytes only, and the set of answers keeps the first of two
-- that have the same id. A node that has been announced to is not asked again.
def Echoes (qt : QtText) (t : AnnounceTask) : TaskEvent → Prop
  | .onResponse method origin dict => ∀ a ∈ t.answer qt method origin dict,
      setContains t.answeredVisited a.1.id = false →
      ((∀ x ∈ t.answered, x.id ≠ a.1.id) → a.2.length = 20) ∧
      ∀ x ∈ t.answered, x.toTaskNode = a.1 → x.token.hash = a.2
  | _ => True

def EchoesRun (qt : QtText) (t : AnnounceTask) : List TaskEvent → Prop
  | [] => True
  | event :: rest => t.Echoes qt event ∧ EchoesRun qt (t.step qt event) rest

-- Every node that was heard of is waiting or has been announced to, and what waits, and
-- what was sent, has the token that was heard.
structure Faithful (t : AnnounceTask) : Prop where
  known : ∀ h ∈ t.heard, setContains t.answeredVisited h.node.id = true ∨ ∃ x ∈ t.answered, x.id = h.node.id
  waiting : ∀ x ∈ t.answered, setContains t.answeredVisited x.id = false →
    ∀ h ∈ t.heard, h.node = x.toTaskNode → h.token = x.token.hash
  sent : ∀ a ∈ t.announced, ∃ id infoHash port token,
    a.request = RPCMsg.new [] id (.announceReq infoHash [] port token) ∧
    ∀ h ∈ a.before, h.node = a.node → h.token = token.hash

-- The fields that matter are the same.
structure Alike (a b : AnnounceTask) : Prop where
  answered : a.answered = b.answered
  answeredVisited : a.answeredVisited = b.answeredVisited
  heard : a.heard = b.heard
  announced : a.announced = b.announced

theorem alike_faithful {a b : AnnounceTask} (faithful : b.Faithful) (alike : Alike a b) : a.Faithful := by
  obtain ⟨answered,visited,heard,announced⟩ := alike
  exact ⟨by rw [heard,visited,answered]; exact faithful.known,by rw [heard,visited,answered]; exact faithful.waiting,
    by rw [announced]; exact faithful.sent⟩

theorem alike_refl (t : AnnounceTask) : Alike t t := ⟨rfl,rfl,rfl,rfl⟩

theorem alike_trans {a b c : AnnounceTask} (first : Alike a b) (second : Alike b c) : Alike a c :=
  ⟨first.answered.trans second.answered,first.answeredVisited.trans second.answeredVisited,first.heard.trans second.heard,
    first.announced.trans second.announced⟩

theorem addTodo_alike (t : AnnounceTask) (node : Option TaskNode) : Alike (t.addTodo node) t := by
  unfold addTodo
  cases node with
  | none => exact alike_refl t
  | some e =>
    dsimp only
    split
    · exact ⟨rfl,rfl,rfl,rfl⟩
    · exact alike_refl t

theorem foldl_alike (f : AnnounceTask → Nat → AnnounceTask) (each : ∀ t i, Alike (f t i) t) (l : List Nat) (t : AnnounceTask) :
    Alike (l.foldl f t) t :=
  foldl_related (R := fun t t' => Alike t' t) alike_refl (fun ab bc => alike_trans bc ab) l (fun t i _ => each t i) t

theorem handleNodes_alike (t : AnnounceTask) (nodes : List UInt8) (ipVersion : Nat) : Alike (t.handleNodes nodes ipVersion) t :=
  foldl_alike _ (fun t _ => addTodo_alike t _) _ t

theorem sendGetPeers_alike (l : List TaskNode) (t : AnnounceTask) : Alike (t.sendGetPeers l) t := by
  induction l generalizing t with
  | nil => exact ⟨rfl,rfl,rfl,rfl⟩
  | cons e rest ih =>
    unfold sendGetPeers
    split
    · split
      · exact ih t
      · exact alike_trans (ih _) ⟨rfl,rfl,rfl,rfl⟩
    · exact ⟨rfl,rfl,rfl,rfl⟩

theorem checkDone_alike (t : AnnounceTask) : Alike t.checkDone t := by
  unfold checkDone
  split
  · exact ⟨rfl,rfl,rfl,rfl⟩
  split
  · exact ⟨rfl,rfl,rfl,rfl⟩
  · exact alike_refl t

theorem mem_setInsert {key : α → Key} {e x : α} {l : List α} (member : x ∈ setInsert key e l) : x = e ∨ x ∈ l := by
  unfold setInsert at member
  split at member
  · exact .inr member
  · exact (List.mem_orderedInsert _).mp member

theorem setInsert_mem (key : α → Key) (e : α) {x : α} {l : List α} (member : x ∈ l) : x ∈ setInsert key e l := by
  unfold setInsert
  split
  · exact member
  · exact (List.mem_orderedInsert _).mpr (.inr member)

theorem setInsert_key (key : α → Key) (e : α) (l : List α) : ∃ x ∈ setInsert key e l, key x = key e := by
  unfold setInsert
  split
  · rename_i found
    obtain ⟨x,member,same⟩ := List.any_eq_true.mp found
    exact ⟨x,member,by simpa using same⟩
  · exact ⟨e,(List.mem_orderedInsert _).mpr (.inl rfl),rfl⟩

theorem setContains_iff (nodes : List TaskNode) (id : Key) : setContains nodes id = true ↔ ∃ x ∈ nodes, x.id = id := by
  simp [setContains,List.any_eq_true]

theorem setContains_insert (nodes : List TaskNode) (e : TaskNode) : setContains (setInsert TaskNode.id e nodes) e.id = true :=
  (setContains_iff _ _).mpr (setInsert_key TaskNode.id e nodes)

theorem setContains_mono (e : TaskNode) (contained : setContains nodes key = true) :
    setContains (setInsert TaskNode.id e nodes) key = true := by
  obtain ⟨x,member,same⟩ := (setContains_iff _ _).mp contained
  exact (setContains_iff _ _).mpr ⟨x,setInsert_mem TaskNode.id e member,same⟩

-- The first answer leaves the list and its node is among the visited ones.
theorem forget_faithful {t : AnnounceTask} (faithful : Faithful {t with answered := e :: rest})
    (done : setContains t.answeredVisited e.id = true) : Faithful {t with answered := rest} := by
  refine ⟨?_,?_,faithful.sent⟩
  · intro h member
    rcases faithful.known h member with visited | ⟨x,there,same⟩
    · exact .inl visited
    · rcases List.mem_cons.mp there with rfl | there
      · exact .inl (same ▸ done)
      · exact .inr ⟨x,there,same⟩
  · exact fun x member => faithful.waiting x (List.mem_cons_of_mem _ member)

theorem announce_faithful {t : AnnounceTask} (faithful : Faithful {t with answered := e :: rest})
    (fresh : setContains t.answeredVisited e.id = false) : Faithful {t with
      outstandingReqs := t.outstandingReqs + 1,
      answered := e :: rest,
      answeredVisited := setInsert TaskNode.id e.toTaskNode t.answeredVisited,
      announced := t.announced ++ [⟨e.toTaskNode,t.announceReq e.token,t.heard⟩]} := by
  refine ⟨?_,?_,?_⟩
  · intro h member
    rcases faithful.known h member with visited | waiting
    · exact .inl (setContains_mono _ visited)
    · exact .inr waiting
  · intro x member unvisited
    refine faithful.waiting x member ?_
    by_contra visited
    rw [Bool.not_eq_false] at visited
    rw [setContains_mono _ visited] at unvisited
    cases unvisited
  · intro a member
    rcases List.mem_append.mp member with old | new
    · exact faithful.sent a old
    · rw [List.mem_singleton.mp new]
      exact ⟨_,_,_,e.token,rfl,faithful.waiting e List.mem_cons_self fresh⟩

theorem sendAnnounces_faithful (l : List AnsweredNode) (t : AnnounceTask) (faithful : Faithful {t with answered := l}) :
    (t.sendAnnounces l).Faithful := by
  induction l generalizing t with
  | nil => exact faithful
  | cons e rest ih =>
    unfold sendAnnounces
    split
    · split
      · rename_i visited
        exact ih t (forget_faithful faithful visited)
      · rename_i unvisited
        rw [Bool.not_eq_true] at unvisited
        have announced := announce_faithful faithful unvisited
        exact ih _ (forget_faithful announced (setContains_insert _ _))
    · exact faithful

theorem update_faithful (t : AnnounceTask) (faithful : t.Faithful) : t.update.Faithful := by
  have announced := sendAnnounces_faithful t.answered t faithful
  have asked := alike_faithful announced (sendGetPeers_alike (t.sendAnnounces t.answered).todo _)
  exact alike_faithful asked (checkDone_alike _)

theorem updateIfPossible_faithful (t : AnnounceTask) (faithful : t.Faithful) : t.updateIfPossible.Faithful := by
  unfold updateIfPossible
  split
  · exact update_faithful t faithful
  · exact faithful

theorem ofByteArray_twenty (raw : List UInt8) (size : raw.length = 20) : (Key.ofByteArray raw).hash = raw := by
  show raw.take 20 ++ List.replicate (20 - raw.length) 0 = raw
  rw [size,List.take_of_length_le (Nat.le_of_eq size)]
  simp

theorem addAnswered_faithful (t : AnnounceTask) (node : TaskNode) (raw : List UInt8) (faithful : t.Faithful)
    (echoes : setContains t.answeredVisited node.id = false →
      ((∀ x ∈ t.answered, x.id ≠ node.id) → raw.length = 20) ∧ ∀ x ∈ t.answered, x.toTaskNode = node → x.token.hash = raw) :
    ((t.hear node raw).addAnswered node (Key.ofByteArray raw)).Faithful := by
  unfold addAnswered
  by_cases visited : setContains t.answeredVisited node.id = true
  · -- The answer comes too late to matter.
    rw [if_pos (show setContains (t.hear node raw).answeredVisited node.id = true from visited)]
    refine ⟨?_,?_,faithful.sent⟩
    · intro h member
      rcases List.mem_append.mp member with old | new
      · exact faithful.known h old
      · rw [List.mem_singleton.mp new]
        exact .inl visited
    · intro x member unvisited h there same
      rcases List.mem_append.mp there with old | new
      · exact faithful.waiting x member unvisited h old same
      · rw [List.mem_singleton.mp new] at same
        have wasVisited : setContains t.answeredVisited x.id = true := by
          rw [← congrArg TaskNode.id same]
          exact visited
        have notVisited : setContains t.answeredVisited x.id = false := unvisited
        rw [wasVisited] at notVisited
        cases notVisited
  rw [if_neg (show ¬ setContains (t.hear node raw).answeredVisited node.id = true from visited)]
  rw [Bool.not_eq_true] at visited
  obtain ⟨sized,same⟩ := echoes visited
  refine ⟨?_,?_,faithful.sent⟩
  · intro h member
    rcases List.mem_append.mp member with old | new
    · rcases faithful.known h old with done | ⟨x,there,equal⟩
      · exact .inl done
      · exact .inr ⟨x,setInsert_mem _ _ there,equal⟩
    · rw [List.mem_singleton.mp new]
      exact .inr (setInsert_key _ _ _)
  · intro x member unvisited h there equal
    by_cases waits : t.answered.any (fun a => a.id == node.id) = true
    · -- The one that waits stays, and it has the same token.
      have kept : setInsert (fun a : AnsweredNode => a.id) ⟨node,Key.ofByteArray raw⟩ t.answered = t.answered := if_pos waits
      have old : x ∈ t.answered := kept ▸ member
      rcases List.mem_append.mp there with before | new
      · exact faithful.waiting x old unvisited h before equal
      · rw [List.mem_singleton.mp new] at equal ⊢
        exact (same x old equal.symm).symm
    · have none : ∀ a ∈ t.answered, a.id ≠ node.id := by
        intro a inside other
        exact waits (List.any_eq_true.mpr ⟨a,inside,by simpa using other⟩)
      have whole := ofByteArray_twenty raw (sized none)
      rcases mem_setInsert member with rfl | old
      · rcases List.mem_append.mp there with before | new
        · rcases faithful.known h before with done | ⟨a,inside,other⟩
          · rw [equal,visited] at done
            cases done
          · rw [equal] at other
            exact absurd other (none a inside)
        · rw [List.mem_singleton.mp new]
          exact whole.symm
      · rcases List.mem_append.mp there with before | new
        · exact faithful.waiting x old unvisited h before equal
        · rw [List.mem_singleton.mp new] at equal
          exact absurd (congrArg TaskNode.id equal).symm (none x old)

theorem onResponse_faithful (qt : QtText) (t : AnnounceTask) (method : Method) (origin : Address) (dict : Entries)
    (faithful : t.Faithful) (echoes : t.Echoes qt (.onResponse method origin dict)) :
    (t.onResponse qt method origin dict).Faithful := by
  unfold onResponse
  cases built : build qt (fun _ => method) dict with
  | error e => exact faithful
  | ok result =>
    cases result with
    | none => exact faithful
    | some rsp =>
      dsimp only
      by_cases kind : rsp.type ≠ .rspMsg
      · rw [if_pos kind]
        exact faithful
      rw [if_neg kind]
      have fewer : Faithful {t with outstandingReqs := t.outstandingReqs - 1} := alike_faithful faithful ⟨rfl,rfl,rfl,rfl⟩
      by_cases over_ : t.finished = true
      · rw [if_pos over_]
        exact fewer
      rw [if_neg over_]
      apply updateIfPossible_faithful
      by_cases ours : method = .getPeers
      · subst ours
        rw [if_pos rfl]
        unfold callFinished
        cases body : rsp.body with
        | getPeersRsp token items nodes nodes6 =>
          have heard : t.answer qt .getPeers origin dict = some (⟨origin,rsp.id⟩,rawToken dict) := by
            unfold answer
            rw [built]
            dsimp only
            rw [if_neg (by simp [kind,over_]),body]
          have asked (u : AnnounceTask) (alike : Alike u t) :
              ((u.hear ⟨origin,rsp.id⟩ (rawToken dict)).addAnswered ⟨origin,rsp.id⟩ token).Faithful := by
            rw [build_token qt built body]
            refine addAnswered_faithful u _ _ (alike_faithful faithful alike) ?_
            rw [alike.answered,alike.answeredVisited]
            exact echoes _ heard
          dsimp only
          apply asked
          have start : Alike {t with outstandingReqs := t.outstandingReqs - 1} t := ⟨rfl,rfl,rfl,rfl⟩
          have first : Alike (if nodes.length > 0 then handleNodes {t with outstandingReqs := t.outstandingReqs - 1} nodes 4
              else {t with outstandingReqs := t.outstandingReqs - 1}) t := by
            split
            · exact alike_trans (handleNodes_alike _ _ _) start
            · exact start
          split
          · exact alike_trans (handleNodes_alike _ _ _) first
          · exact first
        | pingReq => exact fewer
        | pingRsp => exact fewer
        | findNodeReq => exact fewer
        | findNodeRsp => exact fewer
        | getPeersReq => exact fewer
        | announceReq => exact fewer
        | announceRsp => exact fewer
        | errMsg => exact fewer
      · rw [if_neg ours]
        exact fewer

theorem step_faithful (qt : QtText) (t : AnnounceTask) (event : TaskEvent) (faithful : t.Faithful) (echoes : t.Echoes qt event) :
    (t.step qt event).Faithful := by
  cases event with
  | start =>
    show t.start.Faithful
    unfold start
    split
    · exact update_faithful _ (alike_faithful faithful ⟨rfl,rfl,rfl,rfl⟩)
    · exact faithful
  | onResponse method origin dict => exact onResponse_faithful qt t method origin dict faithful echoes
  | onTimeout =>
    have fewer : Faithful {t with outstandingReqs := t.outstandingReqs - 1} := alike_faithful faithful ⟨rfl,rfl,rfl,rfl⟩
    show t.onTimeout.Faithful
    unfold onTimeout
    dsimp only
    split
    · exact fewer
    · exact updateIfPossible_faithful _ fewer
  | addDHTNode addr => exact alike_faithful faithful ⟨rfl,rfl,rfl,rfl⟩
  | kill => exact alike_faithful faithful ⟨rfl,rfl,rfl,rfl⟩

theorem run_faithful (qt : QtText) (t : AnnounceTask) (events : List TaskEvent) (faithful : t.Faithful)
    (echoes : t.EchoesRun qt events) : (t.run qt events).Faithful := by
  induction events generalizing t with
  | nil => exact faithful
  | cons event rest ih => exact ih _ (step_faithful qt t event faithful echoes.1) echoes.2

theorem new_faithful (ourId infoHash : Key) (port : UInt16) (todo : List TaskNode) :
    (new ourId infoHash port todo).Faithful :=
  ⟨fun _ member => (nomatch member),fun _ member => (nomatch member),fun _ member => (nomatch member)⟩

-- The token of every announce is, in the bytes that are sent with any mtid, the one that the
-- node has sent before.
def TokensEchoed (qn : QtNumber) (t : AnnounceTask) : Prop :=
  ∀ a ∈ t.announced, ∀ h ∈ a.before, h.node = a.node → ∀ (mtid : List UInt8) (data : QByteArray),
    data.bytes = RPCMsg.encode {a.request with mtid := mtid} → encodedToken qn data = some h.token

theorem tokens_echoed (qn : QtNumber) (qt : QtText) (ourId infoHash : Key) (port : UInt16) (todo : List TaskNode)
    (events : List TaskEvent) (echoes : (new ourId infoHash port todo).EchoesRun qt events) :
    ((new ourId infoHash port todo).run qt events).TokensEchoed qn := by
  have faithful := run_faithful qt _ events (new_faithful ourId infoHash port todo) echoes
  intro a member h before same mtid data encoded
  obtain ⟨id,hash,number,token,request,tokens⟩ := faithful.sent a member
  rw [request] at encoded
  rw [tokens h before same]
  exact announceReq_token qn mtid id hash [] number token data encoded

-- The dictionary of a response to get_peers with nothing but a token.
def responseDict (id : Key) (raw : List UInt8) : Entries :=
  [(ascii "r",.dict [(ascii "id",.value (.string id.hash) 0 0),(ascii "token",.value (.string raw) 0 0)] 0 0),
    (ascii "t",.value (.string [97]) 0 0),(ascii "y",.value (.string (ascii "r")) 0 0)]

theorem build_responseDict (qt : QtText) (id : Key) (raw : List UInt8) :
    build qt (fun _ => .getPeers) (responseDict id raw) =
      .ok (some (.new [97] id (.getPeersRsp (Key.ofByteArray raw) [] [] []))) := by
  have same : treeEntries (responseDict id raw) = responseFields [97] [keyField "id" id,(ascii "token",.str raw)] := rfl
  have plain : PlainEntries (responseDict id raw) := ⟨⟨trivial,trivial,trivial⟩,trivial,trivial,trivial⟩
  obtain ⟨args,parts⟩ := response_parts same plain
  have token : readByteArray (BDictNode.getValue args "token") = .ok raw := readKey parts rfl
  have values : parseValues args = .ok [] := by
    rw [parseValues,getList_none parts.same parts.plain (.inl rfl)]
  have nodes : hasNodes args = false := by
    rw [hasNodes,getValue_none parts.same parts.plain rfl,getList_none parts.same parts.plain (.inl rfl)]
    rfl
  rw [build_response qt parts _ (List.cons_ne_nil _ _)]
  dsimp only
  rw [parseGetPeersRsp,parseMsg_response qt parts rfl,if_neg (List.cons_ne_nil _ _),arguments_found parts]
  simp only [ok_bind,token,values,nodes]
  rfl

def sampleOrigin : Address := .v4 16909060 6881

def sampleTask : AnnounceTask := new Key.min Key.max 6881 []

def tokenAnswer (raw : List UInt8) : TaskEvent := .onResponse .getPeers sampleOrigin (responseDict Key.max raw)

theorem step_answered (qt : QtText) (raw : List UInt8) : (sampleTask.step qt (tokenAnswer raw)).announced =
    [⟨⟨sampleOrigin,Key.max⟩,sampleTask.announceReq (Key.ofByteArray raw),[⟨⟨sampleOrigin,Key.max⟩,raw⟩]⟩] := by
  show (sampleTask.onResponse qt .getPeers sampleOrigin (responseDict Key.max raw)).announced = _
  unfold onResponse
  rw [build_responseDict]
  rfl

theorem twenty_bytes_echoed : (sampleTask.run QtText.plain [tokenAnswer (List.replicate 20 7)]).TokensEchoed QtNumber.plain := by
  apply tokens_echoed
  refine ⟨?_,trivial⟩
  intro a heard _
  have answers : answer QtText.plain (new Key.min Key.max 6881 []) .getPeers sampleOrigin
      (responseDict Key.max (List.replicate 20 7)) = some (⟨sampleOrigin,Key.max⟩,List.replicate 20 7) := by
    unfold answer
    rw [build_responseDict]
    rfl
  have same : a = (⟨sampleOrigin,Key.max⟩,List.replicate 20 7) := by
    rw [answers] at heard
    exact (Option.some.inj heard).symm
  rw [same]
  exact ⟨fun _ => rfl,fun x member => (nomatch member)⟩

-- The token "aoeusnth" of eight bytes comes back with twelve zero bytes behind it.
def eightBytes : List UInt8 := [97,111,101,117,115,110,116,104]

theorem eight_encoded : (RPCMsg.encode {sampleTask.announceReq (Key.ofByteArray eightBytes) with mtid := [0]}).length < 2^31 := by
  decide +kernel

theorem eight_bytes_padded : ¬∀ events : List TaskEvent, (sampleTask.run QtText.plain events).TokensEchoed QtNumber.plain := by
  intro all
  have echoed := all [tokenAnswer eightBytes]
  have sent : (sampleTask.run QtText.plain [tokenAnswer eightBytes]).announced = _ := step_answered QtText.plain eightBytes
  unfold TokensEchoed at echoed
  rw [sent] at echoed
  have token := echoed _ List.mem_cons_self _ List.mem_cons_self rfl [0] ⟨_,eight_encoded⟩ rfl
  rw [announceReq_token QtNumber.plain [0] Key.min Key.max [] 6881 (Key.ofByteArray eightBytes) ⟨_,eight_encoded⟩ rfl] at token
  exact absurd token (by decide)

end AnnounceTask

end KtorrentStream.Dht
