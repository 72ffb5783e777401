import KtorrentStream.Dht.RPCCalls
import KtorrentStream.Dht.MessageRoundTrip
set_option autoImplicit true

namespace KtorrentStream.Dht
open KtorrentStream.Util KtorrentStream.Bcodec KtorrentStream.Torrent KtorrentStream.Net

def isIPv4Mapped (ip : {bytes : List UInt8 // bytes.length = 16}) : Bool :=
  ip.val.take 10 = List.replicate 10 0 ∧ (ip.val.drop 10).take 2 = [255,255]

def convertIPv4Mapped : Address → Address
  | .v4 ip port => .v4 ip port
  | .v6 ip port => if isIPv4Mapped ip then .v4 (UInt32.ofNat (readUint32 ip.val 12)) port else .v6 ip port

-- calls.erase, and the timer of the call is gone with it.
def RPCServer.complete (s : RPCServer) (mtid : List UInt8) (c : Nat) : RPCServer := {s.erase mtid with
  armed := s.armed.filter (· != c),
  answered := s.answered ++ [c]}

-- What the server looks at in the request of a call.
structure Request where
  method : Method
  destination : Address

-- The server with the requests of its calls. answers only records which call was completed by
-- a response, and the origin of the response.
structure RPCTable where
  server : RPCServer
  request : Nat → Request
  answers : List (Nat × Address)

namespace RPCTable

def new : RPCTable := ⟨.new,fun _ => ⟨.none,.v4 0 0⟩,[]⟩

def doCall (t : RPCTable) (msg : Request) : Option RPCTable :=
  t.server.doCall.map fun s => {t with server := s,request := Function.update t.request t.server.made msg}

def doCalls (t : RPCTable) : List Request → Option RPCTable
  | [] => some t
  | msg :: rest => (t.doCall msg).bind (doCalls · rest)

def findMethod (t : RPCTable) (mtid : List UInt8) : Method :=
  ((t.server.find mtid).map fun c => (t.request c).method).getD .none

section
variable (qn : QtNumber) (qt : QtText)

-- The message in a datagram. None also where an error is caught.
def message (t : RPCTable) (data : QByteArray) : Option RPCMsg :=
  match decode qn data 0 with
  | .ok (some (.dict dict _ _),_) => (build qt t.findMethod dict).toOption.join
  | _ => none

-- applied are the calls that the DHT makes as the message is applied, heard those that the
-- listeners of a completed call make.
def dataReceived (t : RPCTable) (data : QByteArray) (addr : Address) (applied heard : List Request) : Option RPCTable :=
  match t.message qn qt data with
  | none => some t
  | some msg => do
    let t ← t.doCalls applied
    if msg.type = .rspMsg then
      match t.server.find msg.mtid with
      | none => some t
      | some c =>
        let t ← t.doCalls heard
        let s ← (t.server.complete msg.mtid c).doQueuedCalls
        some {t with server := s,answers := t.answers ++ [(c,convertIPv4Mapped addr)]}
    else some t

end

end RPCTable

inductive TableEvent
  | doCall (msg : Request)
  | dataReceived (data : QByteArray) (addr : Address) (applied heard : List Request)
  | timeout (c : Nat)

namespace RPCTable
section
variable (qn : QtNumber) (qt : QtText)

def step (t : RPCTable) : TableEvent → Option RPCTable
  | .doCall msg => t.doCall msg
  | .dataReceived data addr applied heard => t.dataReceived qn qt data addr applied heard
  | .timeout c => (t.server.callTimeout c).map fun s => {t with server := s}

def run (t : RPCTable) : List TableEvent → Option RPCTable
  | [] => some t
  | event :: rest => (t.step qn qt event).bind fun t => t.run rest

end

-- The call that a message answers.
def AnswerTo (t : RPCTable) (msg : RPCMsg) (c : Nat) : Prop := msg.type = .rspMsg ∧ (msg.mtid,c) ∈ t.server.calls

variable {qn : QtNumber} {qt : QtText} {t t' : RPCTable} {c : Nat}

theorem doCalls_adds (book : Bookkeeping t.server) (msgs : List Request) :
    ∃ t', t.doCalls msgs = some t' ∧ Bookkeeping t'.server ∧ t.server.calls ⊆ t'.server.calls ∧ t'.answers = t.answers := by
  induction msgs generalizing t with
  | nil => exact ⟨t,rfl,book,List.Subset.refl _,rfl⟩
  | cons msg rest ih =>
    obtain ⟨s,called,book₁,subset₁⟩ := doCall_spec book
    have first : t.doCall msg = some {t with server := s,request := Function.update t.request t.server.made msg} := by
      rw [doCall,called]
      rfl
    obtain ⟨t',others,book₂,subset₂,answers⟩ :=
      ih (t := {t with server := s,request := Function.update t.request t.server.made msg}) book₁
    refine ⟨t',?_,book₂,List.Subset.trans subset₁ subset₂,answers⟩
    rw [doCalls,first]
    exact others

theorem searchFree_free {s : RPCServer} {rounds : Nat} {m m' : UInt8} (found : s.searchFree rounds m = some m') :
    s.contains [m'] = false := by
  induction rounds generalizing m with
  | zero => cases found
  | succ rounds ih =>
    rw [RPCServer.searchFree] at found
    split at found
    · exact ih found
    · rename_i free
      cases found
      exact Bool.eq_false_iff.mpr free

-- The calls of the queue are only added.
theorem doQueuedFrom_adds {s s' : RPCServer} {q : List Nat} (ran : s.doQueuedFrom q = some s') :
    s.calls ⊆ s'.calls ∧ s'.answered = s.answered := by
  induction q generalizing s with
  | nil =>
    cases ran
    exact ⟨List.Subset.refl _,rfl⟩
  | cons c rest ih =>
    rw [RPCServer.doQueuedFrom] at ran
    split at ran
    · split at ran
      · cases ran
      · rename_i m found
        obtain ⟨subset,answered⟩ := ih ran
        refine ⟨fun e member => subset ?_,answered⟩
        show e ∈ (s.send c m).calls
        rw [send_calls s c (searchFree_free found)]
        exact List.mem_cons_of_mem _ member
    · cases ran
      exact ⟨List.Subset.refl _,rfl⟩

def Based (qt : QtText) (dict : Entries) (m : RPCMsg) : Prop :=
  ∃ base, parseMsg qt dict = .ok base ∧ m.mtid = base.1 ∧ m.type = base.2.1

theorem parsed_based {parse : Entries → Except RPCError RPCMsg}
    (known : parse ∈ [parsePingReq qt,parseFindNodeReq qt,parseGetPeersReq qt,parseAnnounceReq qt,parsePingRsp qt,
      parseFindNodeRsp qt,parseGetPeersRsp qt,parseAnnounceRsp qt,parseErrMsg qt])
    (parsed : parse dict = .ok m) : Based qt dict m := by
  simp only [List.mem_cons,List.not_mem_nil,or_false] at known
  rcases known with rfl | rfl | rfl | rfl | rfl | rfl | rfl | rfl | rfl
  · obtain ⟨base,based,parsed⟩ := bind_ok parsed
    cases parsed
    exact ⟨base,based,rfl,rfl⟩
  · obtain ⟨base,based,parsed⟩ := bind_ok parsed
    obtain ⟨_,_,parsed⟩ := bind_ok parsed
    obtain ⟨_,_,parsed⟩ := bind_ok parsed
    obtain ⟨_,_,parsed⟩ := bind_ok parsed
    cases parsed
    exact ⟨base,based,rfl,rfl⟩
  · obtain ⟨base,based,parsed⟩ := bind_ok parsed
    obtain ⟨_,_,parsed⟩ := bind_ok parsed
    obtain ⟨_,_,parsed⟩ := bind_ok parsed
    obtain ⟨_,_,parsed⟩ := bind_ok parsed
    cases parsed
    exact ⟨base,based,rfl,rfl⟩
  · obtain ⟨base,based,parsed⟩ := bind_ok parsed
    obtain ⟨_,_,parsed⟩ := bind_ok parsed
    obtain ⟨_,_,parsed⟩ := bind_ok parsed
    obtain ⟨_,_,parsed⟩ := bind_ok parsed
    obtain ⟨_,_,parsed⟩ := bind_ok parsed
    obtain ⟨_,_,parsed⟩ := bind_ok parsed
    obtain ⟨_,_,parsed⟩ := bind_ok parsed
    cases parsed
    exact ⟨base,based,rfl,rfl⟩
  · obtain ⟨base,based,parsed⟩ := bind_ok parsed
    cases parsed
    exact ⟨base,based,rfl,rfl⟩
  · obtain ⟨base,based,parsed⟩ := bind_ok parsed
    obtain ⟨args,_,parsed⟩ := bind_ok parsed
    by_cases nodes : hasNodes args = true
    · simp only [nodes] at parsed
      cases parsed
      exact ⟨base,based,rfl,rfl⟩
    · simp only [nodes] at parsed
      cases parsed
  · obtain ⟨base,based,parsed⟩ := bind_ok parsed
    obtain ⟨_,_,parsed⟩ := bind_ok parsed
    obtain ⟨_,_,parsed⟩ := bind_ok parsed
    obtain ⟨_,_,parsed⟩ := bind_ok parsed
    cases parsed
    exact ⟨base,based,rfl,rfl⟩
  · obtain ⟨base,based,parsed⟩ := bind_ok parsed
    obtain ⟨_,_,parsed⟩ := bind_ok parsed
    cases parsed
    exact ⟨base,based,rfl,rfl⟩
  · obtain ⟨base,based,parsed⟩ := bind_ok parsed
    cases items : BDictNode.getList dict "e" with
    | none =>
      rw [items] at parsed
      cases parsed
    | some items' =>
      rw [items] at parsed
      obtain ⟨_,_,parsed⟩ := bind_ok parsed
      cases parsed
      exact ⟨base,based,rfl,rfl⟩

theorem parseMsg_read (parsed : parseMsg qt dict = .ok base) (read : readString qt (BDictNode.getValue dict "y") = .ok text) :
    readByteArray (BDictNode.getValue dict "t") = .ok base.1 ∧
      base.2.1 = if text = "q" then .reqMsg else if text = "r" then .rspMsg else .errMsg := by
  unfold parseMsg at parsed
  obtain ⟨mtid,first,parsed⟩ := bind_ok parsed
  by_cases empty : mtid = []
  · simp only [empty,if_true] at parsed
    cases parsed
  · simp only [empty,if_false] at parsed
    obtain ⟨same,again,parsed⟩ := bind_ok parsed
    rw [read] at again
    cases again
    by_cases request : text = "q"
    · rw [if_pos request] at parsed
      obtain ⟨id,_,parsed⟩ := bind_ok parsed
      cases parsed
      exact ⟨first,(if_pos request).symm⟩
    · rw [if_neg request] at parsed
      by_cases response : text = "r"
      · rw [if_pos response] at parsed
        obtain ⟨id,_,parsed⟩ := bind_ok parsed
        cases parsed
        exact ⟨first,((if_neg request).trans (if_pos response)).symm⟩
      · rw [if_neg response] at parsed
        by_cases error : text = "e"
        · rw [if_pos error] at parsed
          cases parsed
          exact ⟨first,((if_neg request).trans (if_neg response)).symm⟩
        · rw [if_neg error] at parsed
          cases parsed

theorem buildRequest_parsed (built : buildRequest qt dict = .ok (some m)) : Based qt dict m := by
  unfold buildRequest at built
  obtain ⟨_,_,built⟩ := bind_ok built
  obtain ⟨text,_,built⟩ := bind_ok built
  split at built
  · obtain ⟨m,parsed,built⟩ := bind_ok built
    cases built
    exact parsed_based (by simp) parsed
  · split at built
    · obtain ⟨m,parsed,built⟩ := bind_ok built
      cases built
      exact parsed_based (by simp) parsed
    · split at built
      · obtain ⟨m,parsed,built⟩ := bind_ok built
        cases built
        exact parsed_based (by simp) parsed
      · split at built
        · obtain ⟨m,parsed,built⟩ := bind_ok built
          cases built
          exact parsed_based (by simp) parsed
        · split at built
          · cases built
          · cases built

theorem buildResponse_parsed {findMethod : List UInt8 → Method} (built : buildResponse qt findMethod dict = .ok (some m)) :
    Based qt dict m ∧ ∃ mtid, readByteArray (BDictNode.getValue dict "t") = .ok mtid ∧ findMethod mtid ≠ .none := by
  unfold buildResponse at built
  obtain ⟨_,_,built⟩ := bind_ok built
  obtain ⟨mtid,first,built⟩ := bind_ok built
  by_cases empty : mtid = []
  · simp only [empty,if_true] at built
    cases built
  · simp only [empty,if_false] at built
    cases method : findMethod mtid with
    | none =>
      simp only [method] at built
      cases built
    | ping =>
      simp only [method] at built
      obtain ⟨m,parsed,built⟩ := bind_ok built
      cases built
      exact ⟨parsed_based (by simp) parsed,mtid,first,by rw [method]; decide⟩
    | findNode =>
      simp only [method] at built
      obtain ⟨m,parsed,built⟩ := bind_ok built
      cases built
      exact ⟨parsed_based (by simp) parsed,mtid,first,by rw [method]; decide⟩
    | getPeers =>
      simp only [method] at built
      obtain ⟨m,parsed,built⟩ := bind_ok built
      cases built
      exact ⟨parsed_based (by simp) parsed,mtid,first,by rw [method]; decide⟩
    | announcePeer =>
      simp only [method] at built
      obtain ⟨m,parsed,built⟩ := bind_ok built
      cases built
      exact ⟨parsed_based (by simp) parsed,mtid,first,by rw [method]; decide⟩

-- A response is made only of a dictionary whose transaction id is known.
theorem build_response_known {findMethod : List UInt8 → Method} (built : build qt findMethod dict = .ok (some m))
    (response : m.type = .rspMsg) : findMethod m.mtid ≠ .none := by
  unfold build at built
  obtain ⟨text,read,built⟩ := bind_ok built
  by_cases request : text = "q"
  · rw [if_pos request] at built
    obtain ⟨base,parsed,_,type⟩ := buildRequest_parsed built
    rw [(parseMsg_read parsed read).2,if_pos request,response] at type
    cases type
  · rw [if_neg request] at built
    by_cases answer : text = "r"
    · rw [if_pos answer] at built
      obtain ⟨⟨base,parsed,same,_⟩,mtid,first,known⟩ := buildResponse_parsed built
      rw [(parseMsg_read parsed read).1] at first
      cases first
      rw [same]
      exact known
    · rw [if_neg answer] at built
      split at built
      · obtain ⟨m,parsed,built⟩ := bind_ok built
        cases built
        obtain ⟨base,parsed,_,type⟩ : Based qt dict m := parsed_based (by simp) parsed
        rw [(parseMsg_read parsed read).2,if_neg request,if_neg answer,response] at type
        cases type
      · cases built

theorem response_answers (decoded : t.message qn qt data = some msg) (response : msg.type = .rspMsg) : ∃ c, t.AnswerTo msg c := by
  unfold message at decoded
  split at decoded
  · rename_i dict off len pos read
    cases built : build qt t.findMethod dict with
    | error err =>
      rw [built] at decoded
      cases decoded
    | ok m =>
      rw [built] at decoded
      cases (show m = some msg from decoded)
      have known := build_response_known built response
      cases found : t.server.find msg.mtid with
      | none =>
        unfold findMethod at known
        rw [found] at known
        exact absurd rfl known
      | some c => exact ⟨c,response,find_some found⟩
  · cases decoded

theorem dataReceived_other (book : Bookkeeping t.server) (data : QByteArray) (addr : Address) (applied heard : List Request)
    (other : ∀ msg, t.message qn qt data = some msg → msg.type ≠ .rspMsg) :
    ∃ t', t.dataReceived qn qt data addr applied heard = some t' ∧ Bookkeeping t'.server ∧
      t'.answers = t.answers ∧ t.server.calls ⊆ t'.server.calls := by
  unfold dataReceived
  cases decoded : t.message qn qt data with
  | none => exact ⟨t,rfl,book,rfl,List.Subset.refl _⟩
  | some msg =>
    obtain ⟨t₁,applied_,book₁,subset,answers⟩ := doCalls_adds book applied
    refine ⟨t₁,?_,book₁,answers,subset⟩
    dsimp only
    rw [applied_,Option.bind_eq_bind,Option.bind_some,if_neg (other msg decoded)]

theorem dataReceived_answer (book : Bookkeeping t.server) (addr : Address) (applied heard : List Request) (decoded : t.message qn qt data = some msg) (answer : t.AnswerTo msg c) :
    ∃ t', t.dataReceived qn qt data addr applied heard = some t' ∧ Bookkeeping t'.server ∧
      t'.answers = t.answers ++ [(c,convertIPv4Mapped addr)] ∧ c ∉ t'.server.outstanding ∧
      ∀ e ∈ t.server.calls, e.2 ≠ c → e ∈ t'.server.calls := by
  obtain ⟨t₁,applied_,book₁,subset₁,answers₁⟩ := doCalls_adds book applied
  obtain ⟨t₂,heard_,book₂,subset₂,answers₂⟩ := doCalls_adds book₁ heard
  have there := subset₂ (subset₁ answer.2)
  have completes : Completes t₂.server msg.mtid c (t₂.server.complete msg.mtid c) := by
    refine ⟨rfl,fun x => by simp [RPCServer.complete],?_,rfl,rfl,rfl,rfl⟩
    show (t₂.server.answered ++ [c] ++ t₂.server.expired).Perm _
    rw [List.append_assoc]
    exact List.perm_middle
  have core := completes_core book₂.toCore there completes
  obtain ⟨s,queued,book₃⟩ := doQueuedFrom_spec core
  obtain ⟨added,answered⟩ := doQueuedFrom_adds queued
  refine ⟨{t₂ with server := s,answers := t₂.answers ++ [(c,convertIPv4Mapped addr)]},?_,book₃,?_,?_,?_⟩
  · unfold dataReceived
    rw [decoded]
    dsimp only
    rw [applied_,Option.bind_eq_bind,Option.bind_some,if_pos answer.1,find_of_mem book₁.distinct (subset₁ answer.2)]
    dsimp only
    rw [heard_,Option.bind_some]
    rw [show RPCServer.doQueuedCalls _ = some s from queued]
    rfl
  · show t₂.answers ++ _ = t.answers ++ _
    rw [answers₂,answers₁]
  · intro member
    refine book₃.notDone c member ?_
    rw [answered]
    exact List.mem_append_left _ (List.mem_append_right _ List.mem_cons_self)
  · intro e member other
    refine added (List.mem_filter.mpr ⟨subset₂ (subset₁ member),?_⟩)
    rw [bne_iff_ne]
    intro same
    have equal := List.inj_on_of_nodup_map book₂.distinct (subset₂ (subset₁ member)) there same
    rw [equal] at other
    exact other rfl

theorem dataReceived_cases (qn : QtNumber) (qt : QtText) (t : RPCTable) (data : QByteArray) :
    (∃ msg c, t.message qn qt data = some msg ∧ t.AnswerTo msg c) ∨
      ∀ msg, t.message qn qt data = some msg → msg.type ≠ .rspMsg := by
  by_cases answered : ∃ msg, t.message qn qt data = some msg ∧ msg.type = .rspMsg
  · obtain ⟨msg,decoded,response⟩ := answered
    obtain ⟨c,answer⟩ := response_answers decoded response
    exact .inl ⟨msg,c,decoded,answer⟩
  · exact .inr fun msg decoded response => answered ⟨msg,decoded,response⟩

theorem step_book (qn : QtNumber) (qt : QtText) (book : Bookkeeping t.server) (event : TableEvent) :
    ∃ t', t.step qn qt event = some t' ∧ Bookkeeping t'.server := by
  cases event with
  | doCall msg =>
    obtain ⟨s,called,book',_⟩ := doCall_spec book
    exact ⟨_,congrArg (Option.map _) called,book'⟩
  | dataReceived data addr applied heard =>
    rcases dataReceived_cases qn qt t data with ⟨msg,c,decoded,answer⟩ | other
    · obtain ⟨t',received,book',_⟩ := dataReceived_answer book addr applied heard decoded answer
      exact ⟨t',received,book'⟩
    · obtain ⟨t',received,book',_⟩ := dataReceived_other book data addr applied heard other
      exact ⟨t',received,book'⟩
  | timeout c =>
    obtain ⟨s,timed,book'⟩ := callTimeout_spec book c
    exact ⟨_,congrArg (Option.map _) timed,book'⟩

theorem run_book (qn : QtNumber) (qt : QtText) (book : Bookkeeping t.server) (events : List TableEvent) :
    ∃ t', t.run qn qt events = some t' ∧ Bookkeeping t'.server := by
  induction events generalizing t with
  | nil => exact ⟨t,rfl,book⟩
  | cons event rest ih =>
    obtain ⟨t₁,first,book₁⟩ := step_book qn qt book event
    obtain ⟨t₂,others,book₂⟩ := ih book₁
    refine ⟨t₂,?_,book₂⟩
    rw [run,first]
    exact others

-- After any calls, datagrams and timeouts: a response with the mtid that an outstanding call
-- sent completes this call, wherever it comes from; no other datagram completes a call, and
-- no response is read whose mtid is that of no outstanding call.
theorem responses_complete (qn : QtNumber) (qt : QtText) (events : List TableEvent) : ∃ t, new.run qn qt events = some t ∧
    ∀ data addr applied heard, ∃ t', t.dataReceived qn qt data addr applied heard = some t' ∧
      (∀ msg c, t.message qn qt data = some msg → t.AnswerTo msg c →
        t.server.mtidOf c = msg.mtid ∧ t'.answers = t.answers ++ [(c,convertIPv4Mapped addr)] ∧ c ∉ t'.server.outstanding ∧
          ∀ e ∈ t.server.calls, e.2 ≠ c → e ∈ t'.server.calls) ∧
      ((∀ msg c, t.message qn qt data = some msg → ¬ t.AnswerTo msg c) →
        t'.answers = t.answers ∧ t.server.calls ⊆ t'.server.calls) := by
  obtain ⟨t,ran,book⟩ := run_book qn qt (t := new) new_bookkeeping events
  refine ⟨t,ran,fun data addr applied heard => ?_⟩
  rcases dataReceived_cases qn qt t data with ⟨msg,c,decoded,answer⟩ | other
  · obtain ⟨t',received,_,answers,gone,kept⟩ := dataReceived_answer book addr applied heard decoded answer
    refine ⟨t',received,fun msg' c' decoded' answer' => ?_,fun none => absurd answer (none msg c decoded)⟩
    rw [decoded] at decoded'
    cases decoded'
    have same : c' = c := by
      have found := find_of_mem book.distinct answer.2
      rw [find_of_mem book.distinct answer'.2] at found
      exact Option.some.inj found
    rw [same]
    obtain ⟨b,key,mtid⟩ := book.oneByte _ answer.2
    exact ⟨mtid.trans key.symm,answers,gone,kept⟩
  · obtain ⟨t',received,_,answers,kept⟩ := dataReceived_other book data addr applied heard other
    exact ⟨t',received,fun msg c decoded answer => absurd answer.1 (other msg decoded),fun _ => ⟨answers,kept⟩⟩

theorem dataReceived_request (received : t.dataReceived qn qt data addr [] [] = some t') : t'.request = t.request := by
  unfold dataReceived at received
  split at received
  · cases received
    rfl
  · rw [doCalls,Option.bind_eq_bind,Option.bind_some] at received
    split at received
    · split at received
      · cases received
        rfl
      · rw [doCalls,Option.bind_some] at received
        obtain ⟨s,_,received⟩ := Option.bind_eq_some_iff.mp received
        cases received
        rfl
    · cases received
      rfl

-- A ping goes to one node, and another one answers it.
def pinged : Address := .v4 16909060 6881

def stranger : Address := .v4 84281096 6881

theorem pong_encoded : (RPCMsg.new [0] Key.min .pingRsp).encode.length < 2^31 := by decide +kernel

theorem stranger_completes : ¬ ∀ events t, new.run QtNumber.plain QtText.plain events = some t →
    ∀ a ∈ t.answers, a.2 = (t.request a.1).destination := by
  intro all
  have called : ∃ t, new.doCall ⟨.ping,pinged⟩ = some t ∧ t.server.find [0] = some 0 ∧ t.answers = [] ∧
      (t.request 0).method = .ping ∧ (t.request 0).destination = pinged := ⟨_,rfl,rfl,rfl,rfl,rfl⟩
  obtain ⟨t,first,found,none,method,destination⟩ := called
  have book : Bookkeeping t.server := by
    obtain ⟨t₁,called,book⟩ := step_book .plain .plain (t := new) new_bookkeeping (.doCall ⟨.ping,pinged⟩)
    rw [step,first] at called
    cases called
    exact book
  have resolves : t.findMethod [0] = .ping := by
    unfold findMethod
    rw [found]
    exact method
  obtain ⟨dict,off,len,pos,decoded,built⟩ :=
    (roundTrips_rebuilt QtNumber.plain QtText.plain t.findMethod [0] Key.min .pingRsp ⟨_,pong_encoded⟩ rfl resolves).mpr rfl
  have pong : t.message QtNumber.plain QtText.plain ⟨_,pong_encoded⟩ = some (.new [0] Key.min .pingRsp) := by
    unfold message
    rw [decoded]
    dsimp only
    rw [built]
    rfl
  obtain ⟨t',received,_,answers,_⟩ := dataReceived_answer book stranger [] [] pong ⟨rfl,find_some found⟩
  have ran : new.run QtNumber.plain QtText.plain [.doCall ⟨.ping,pinged⟩,.dataReceived ⟨_,pong_encoded⟩ stranger [] []] = some t' := by
    rw [run,step,first,Option.bind_some,run,step,received]
    rfl
  rw [none,List.nil_append] at answers
  have same := all _ t' ran (0,convertIPv4Mapped stranger) (by rw [answers]; exact List.mem_cons_self)
  rw [dataReceived_request received,destination] at same
  cases same

end RPCTable

end KtorrentStream.Dht
