import KtorrentStream.Lib.Along
import KtorrentStream.Dht.NodeLookup
set_option autoImplicit true

namespace KtorrentStream.Dht
open KtorrentStream.Lib KtorrentStream.Util KtorrentStream.Bcodec KtorrentStream.Torrent KtorrentStream.Net

def nodeIds (nodes : List TaskNode) : List Key := nodes.map (·.id)

theorem setContains_nodeIds (nodes : List TaskNode) (id : Key) : setContains nodes id = true ↔ id ∈ nodeIds nodes := by
  rw [AnnounceTask.setContains_iff]
  exact List.mem_map.symm

theorem nodeIds_insert (nodes : List TaskNode) (e : TaskNode) : nodeIds nodes ⊆ nodeIds (setInsert TaskNode.id e nodes) := by
  intro id member
  obtain ⟨x,old,rfl⟩ := List.mem_map.mp member
  exact List.mem_map.mpr ⟨x,AnnounceTask.setInsert_mem TaskNode.id e old,rfl⟩

theorem id_inserted (nodes : List TaskNode) (e : TaskNode) : e.id ∈ nodeIds (setInsert TaskNode.id e nodes) :=
  List.mem_map.mpr (AnnounceTask.setInsert_key TaskNode.id e nodes)

theorem fresh_id {e : TaskNode} (fresh : ¬ setContains nodes e.id = true) : e.id ∉ nodeIds nodes := fun member => fresh ((setContains_nodeIds nodes e.id).mpr member)

def SentRequest.id (s : SentRequest) : Key := s.node.id

-- What each call keeps of a task and the requests before holds after all of them.
theorem taskCalls_keep {call : σ → TaskCall → Option (σ × List SentRequest)} {P : σ → List SentRequest → Prop}
    (each : ∀ t log c, P t log → ∃ t' out, call t c = some (t',out) ∧ P t' (log ++ out)) (now : P t log) (calls : List TaskCall) :
    ∃ t' sent, taskCalls call t calls = some (t',sent) ∧ P t' (log ++ sent) := by
  induction calls generalizing t log with
  | nil => exact ⟨t,[],rfl,by rw [List.append_nil]; exact now⟩
  | cons c rest ih =>
    obtain ⟨t₁,out,first,next⟩ := each t log c now
    obtain ⟨t₂,sent,others,last⟩ := ih next
    refine ⟨t₂,out ++ sent,?_,by rw [← List.append_assoc]; exact last⟩
    rw [taskCalls,first,Option.bind_eq_bind,Option.bind_some]
    dsimp only
    rw [others]
    rfl

namespace NodeLookup
variable {t t' : NodeLookup} {out log : List SentRequest}

theorem findNodeLoop_ends : findNodeLoop.Ends := WorkLoop.ends (fun _ _ => rfl) fun _ _ _ => rfl

-- The requests so far went to different nodes, which are all visited.
def Sent (t : NodeLookup) (log : List SentRequest) : Prop := Once SentRequest.id (nodeIds t.visited) log

theorem round_sent (sent : t.Sent log) (made : findNodeLoop.round t = some (t',out)) : t'.Sent (log ++ out) := by
  obtain ⟨e,rest,_,⟨_,rfl,rfl⟩ | ⟨fresh,rfl,rfl⟩⟩ := WorkLoop.round_cases made
  · rw [List.append_nil]
    exact sent
  · exact Once.use sent (fresh_id fresh) (nodeIds_insert t.visited e) (id_inserted t.visited e)

theorem checkDone_visited (t : NodeLookup) : t.checkDone.visited = t.visited := by
  unfold checkDone
  split
  · rfl
  · split
    · rfl
    · rfl

theorem update_sent (sent : t.Sent log) : ∃ t' out, t.update = some (t',out) ∧ t'.Sent (log ++ out) := by
  obtain ⟨t₁,out,ran,_⟩ := findNodeLoop_ends.ended t
  have kept : t₁.Sent (log ++ out) := WorkLoop.loop_keep (fun _ _ _ _ => round_sent) sent ran
  refine ⟨t₁.checkDone,out,?_,?_⟩
  · unfold update
    rw [ran]
    rfl
  · unfold Sent
    rw [checkDone_visited]
    exact kept

theorem addTodo_visited (t : NodeLookup) (node : Option TaskNode) : (t.addTodo node).visited = t.visited := by
  unfold addTodo
  split
  · rfl
  · split
    · rfl
    · rfl

theorem handleNodes_visited (t : NodeLookup) (nodes : List UInt8) (ipVersion : Nat) : (t.handleNodes nodes ipVersion).visited = t.visited :=
  foldl_fixed (fun t _ => addTodo_visited t _) _ t

theorem callFinished_visited (t : NodeLookup) (rsp : RPCMsg) : (t.callFinished rsp).visited = t.visited := by
  have handled (t : NodeLookup) (nodes : List UInt8) (ipVersion : Nat) :
      (if nodes.length > 0 then t.handleNodes nodes ipVersion else t).visited = t.visited := by
    split
    · exact handleNodes_visited t nodes ipVersion
    · rfl
  unfold callFinished
  split
  · rfl
  · split
    · split
      · exact (handled _ _ _).trans (handled _ _ _)
      · rfl
    · rfl

theorem call_sent (sent : t.Sent log) (c : TaskCall) : ∃ t' out, t.call c = some (t',out) ∧ t'.Sent (log ++ out) := by
  have silent {t' : NodeLookup} (same : t'.visited = t.visited) : t'.Sent (log ++ []) := by
    unfold Sent
    rw [List.append_nil,same]
    exact sent
  cases c with
  | started => exact ⟨_,[],rfl,silent rfl⟩
  | update => exact update_sent sent
  | callFinished method origin rsp raw => exact ⟨_,[],rfl,silent (callFinished_visited t rsp)⟩
  | callTimeout => exact ⟨_,[],rfl,silent rfl⟩
  | responded => exact ⟨_,[],rfl,silent rfl⟩
  | insert e => exact ⟨_,[],rfl,silent rfl⟩
  | kill => exact ⟨_,[],rfl,silent rfl⟩

end NodeLookup

namespace AnnounceTask
variable {t t' : AnnounceTask} {out log : List SentRequest}

theorem announceLoop_ends : announceLoop.Ends := WorkLoop.ends (fun _ _ => rfl) fun _ _ _ => rfl

theorem getPeersLoop_ends : getPeersLoop.Ends := WorkLoop.ends (fun _ _ => rfl) fun _ _ _ => rfl

theorem sendAnnounces_loop (t : AnnounceTask) : ∃ out, announceLoop.loop t = some (t.sendAnnounces t.answered,out) := by
  refine WorkLoop.rounds_recursion (w := announceLoop) sendAnnounces (fun t answered => {t with answered})
    (fun _ _ => rfl) (fun _ => rfl) ?_ ?_ ?_ t t.answered (Nat.le_refl _)
  · intro t e rest stops
    have stops : t.canDoRequest = false := stops
    rw [sendAnnounces,stops]
    rfl
  · intro t e rest goes seen
    have goes : t.canDoRequest = true := goes
    have seen : setContains t.answeredVisited e.id = true := seen
    exact ⟨rfl,by rw [sendAnnounces,if_pos goes,if_pos seen]⟩
  · intro t e rest goes fresh
    have goes : t.canDoRequest = true := goes
    have fresh : setContains t.answeredVisited e.id = false := fresh
    refine ⟨{t with
      outstandingReqs := t.outstandingReqs + 1,
      answeredVisited := setInsert TaskNode.id e.toTaskNode t.answeredVisited,
      announced := t.announced ++ [⟨e.toTaskNode,t.announceReq e.token,t.heard⟩]},rfl,?_⟩
    rw [sendAnnounces,if_pos goes,fresh]
    rfl

theorem sendGetPeers_loop (t : AnnounceTask) : ∃ out, getPeersLoop.loop t = some (t.sendGetPeers t.todo,out) := by
  refine WorkLoop.rounds_recursion (w := getPeersLoop) sendGetPeers (fun t todo => {t with todo})
    (fun _ _ => rfl) (fun _ => rfl) ?_ ?_ ?_ t t.todo (Nat.le_refl _)
  · intro t e rest stops
    have stops : t.canDoRequest = false := stops
    rw [sendGetPeers,stops]
    rfl
  · intro t e rest goes seen
    have goes : t.canDoRequest = true := goes
    have seen : setContains t.visited e.id = true := seen
    exact ⟨rfl,by rw [sendGetPeers,if_pos goes,if_pos seen]⟩
  · intro t e rest goes fresh
    have goes : t.canDoRequest = true := goes
    have fresh : setContains t.visited e.id = false := fresh
    refine ⟨{t with
      outstandingReqs := t.outstandingReqs + 1,
      visited := setInsert TaskNode.id e t.visited},rfl,?_⟩
    rw [sendGetPeers,if_pos goes,fresh]
    rfl

theorem updateRounds_update (t : AnnounceTask) : ∃ out, t.updateRounds = some (t.update,out) := by
  obtain ⟨announces,first⟩ := sendAnnounces_loop t
  obtain ⟨lookups,second⟩ := sendGetPeers_loop (t.sendAnnounces t.answered)
  refine ⟨announces ++ lookups,?_⟩
  unfold updateRounds
  rw [first,Option.bind_eq_bind,Option.bind_some]
  dsimp only
  rw [second]
  rfl

theorem call_first {c : TaskCall} (first : t.call c = some (t',out)) (rest : ∃ calls sent, taskCalls call t' calls = some (last,sent)) :
    ∃ calls sent, taskCalls call t calls = some (last,sent) := by
  obtain ⟨calls,sent,ran⟩ := rest
  refine ⟨c :: calls,out ++ sent,?_⟩
  rw [taskCalls,first,Option.bind_eq_bind,Option.bind_some]
  dsimp only
  rw [ran]
  rfl

theorem update_calls (t : AnnounceTask) : ∃ calls sent, taskCalls call t calls = some (t.update,sent) := by
  obtain ⟨out,updated⟩ := updateRounds_update t
  exact call_first (c := .update) updated ⟨[],[],rfl⟩

theorem updateIfPossible_calls (t : AnnounceTask) : ∃ calls sent, taskCalls call t calls = some (t.updateIfPossible,sent) := by
  unfold updateIfPossible
  split
  · exact update_calls t
  · exact ⟨[],[],rfl⟩

theorem step_calls (qt : QtText) (t : AnnounceTask) (event : TaskEvent) :
    ∃ calls sent, taskCalls call t calls = some (t.step qt event,sent) := by
  cases event with
  | start =>
    rw [step,start]
    split
    · exact call_first (c := .started) rfl (update_calls _)
    · exact ⟨[],[],rfl⟩
  | onResponse method origin dict =>
    rw [step,onResponse]
    split
    · rename_i rsp _
      split
      · exact ⟨[],[],rfl⟩
      · refine call_first (c := .responded) rfl ?_
        dsimp only
        split
        · exact ⟨[],[],rfl⟩
        · exact call_first (c := .callFinished method origin rsp (rawToken dict)) rfl (updateIfPossible_calls _)
    · exact ⟨[],[],rfl⟩
  | onTimeout =>
    rw [step,onTimeout]
    refine call_first (c := .responded) rfl ?_
    dsimp only
    split
    · exact ⟨[],[],rfl⟩
    · exact call_first (c := .callTimeout) rfl (updateIfPossible_calls _)
  | addDHTNode addr => exact call_first (c := .insert ⟨addr,Key.new⟩) rfl ⟨[],[],rfl⟩
  | kill => exact call_first (c := .kill) rfl ⟨[],[],rfl⟩

def ofMethod (method : Method) (log : List SentRequest) : List SentRequest := log.filter (·.request.method = method)

theorem ofMethod_append (method : Method) (log out : List SentRequest) :
    ofMethod method (log ++ out) = ofMethod method log ++ ofMethod method out := List.filter_append _ _

-- The requests of each kind went to different nodes, which are all visited.
structure Sent (t : AnnounceTask) (log : List SentRequest) : Prop where
  lookups : Once SentRequest.id (nodeIds t.visited) (ofMethod .getPeers log)
  announces : Once SentRequest.id (nodeIds t.answeredVisited) (ofMethod .announcePeer log)
  kinds : ∀ s ∈ log, s.request.method = .getPeers ∨ s.request.method = .announcePeer

theorem Sent.silent (sent : t.Sent log) (visited : t'.visited = t.visited) (answeredVisited : t'.answeredVisited = t.answeredVisited) :
    t'.Sent (log ++ []) := by
  rw [List.append_nil]
  exact ⟨by rw [visited]; exact sent.lookups,by rw [answeredVisited]; exact sent.announces,sent.kinds⟩

theorem kinds_append (kinds : ∀ s ∈ log, s.request.method = .getPeers ∨ s.request.method = .announcePeer)
    (last : s.request.method = .getPeers ∨ s.request.method = .announcePeer) :
    ∀ s' ∈ log ++ [s], s'.request.method = .getPeers ∨ s'.request.method = .announcePeer := by
  intro s' member
  rcases List.mem_append.mp member with old | new
  · exact kinds s' old
  · rw [List.mem_singleton.mp new]
    exact last

theorem announce_sent (sent : t.Sent log) (made : announceLoop.round t = some (t',out)) : t'.Sent (log ++ out) := by
  obtain ⟨e,rest,_,⟨_,rfl,rfl⟩ | ⟨fresh,rfl,rfl⟩⟩ := WorkLoop.round_cases made
  · exact sent.silent rfl rfl
  · refine ⟨?_,?_,kinds_append sent.kinds (.inr rfl)⟩
    · rw [ofMethod_append]
      exact (List.append_nil _).symm ▸ sent.lookups
    · rw [ofMethod_append]
      have unused : SentRequest.id ⟨e.toTaskNode,t.announceReq e.token⟩ ∉ nodeIds t.answeredVisited := fresh_id fresh
      exact sent.announces.use unused (nodeIds_insert t.answeredVisited e.toTaskNode) (id_inserted t.answeredVisited e.toTaskNode)

theorem getPeers_sent (sent : t.Sent log) (made : getPeersLoop.round t = some (t',out)) : t'.Sent (log ++ out) := by
  obtain ⟨e,rest,_,⟨_,rfl,rfl⟩ | ⟨fresh,rfl,rfl⟩⟩ := WorkLoop.round_cases made
  · exact sent.silent rfl rfl
  · refine ⟨?_,?_,kinds_append sent.kinds (.inl rfl)⟩
    · rw [ofMethod_append]
      have unused : SentRequest.id ⟨e,t.getPeersReq⟩ ∉ nodeIds t.visited := fresh_id fresh
      exact sent.lookups.use unused (nodeIds_insert t.visited e) (id_inserted t.visited e)
    · rw [ofMethod_append]
      exact (List.append_nil _).symm ▸ sent.announces

theorem checkDone_visited (t : AnnounceTask) :
    t.checkDone.visited = t.visited ∧ t.checkDone.answeredVisited = t.answeredVisited := by
  unfold checkDone
  split
  · exact ⟨rfl,rfl⟩
  · split
    · exact ⟨rfl,rfl⟩
    · exact ⟨rfl,rfl⟩

theorem update_sent (sent : t.Sent log) : ∃ t' out, t.updateRounds = some (t',out) ∧ t'.Sent (log ++ out) := by
  obtain ⟨t₁,announces,first,_⟩ := announceLoop_ends.ended t
  obtain ⟨t₂,lookups,second,_⟩ := getPeersLoop_ends.ended t₁
  have sent₁ : t₁.Sent (log ++ announces) := WorkLoop.loop_keep (fun _ _ _ _ => announce_sent) sent first
  have sent₂ : t₂.Sent (log ++ announces ++ lookups) := WorkLoop.loop_keep (fun _ _ _ _ => getPeers_sent) sent₁ second
  refine ⟨t₂.checkDone,announces ++ lookups,?_,?_⟩
  · unfold updateRounds
    rw [first,Option.bind_eq_bind,Option.bind_some]
    dsimp only
    rw [second]
    rfl
  · have kept := sent₂.silent (checkDone_visited t₂).1 (checkDone_visited t₂).2
    rw [List.append_nil,List.append_assoc] at kept
    exact kept

-- Where a function sends nothing.
def Visits (t : AnnounceTask) : List TaskNode × List TaskNode := (t.visited,t.answeredVisited)

theorem addTodo_visits (t : AnnounceTask) (node : Option TaskNode) : (t.addTodo node).Visits = t.Visits := by
  unfold addTodo
  split
  · rfl
  · split
    · rfl
    · rfl

theorem handleNodes_visits (t : AnnounceTask) (nodes : List UInt8) (ipVersion : Nat) : (t.handleNodes nodes ipVersion).Visits = t.Visits :=
  foldl_fixed (fun t _ => addTodo_visits t _) _ t

theorem addAnswered_visits (t : AnnounceTask) (e : TaskNode) (token : Key) : (t.addAnswered e token).Visits = t.Visits := by
  unfold addAnswered
  split
  · rfl
  · rfl

theorem callFinished_visits (t : AnnounceTask) (origin : Address) (rsp : RPCMsg) (raw : List UInt8) :
    (t.callFinished origin rsp raw).Visits = t.Visits := by
  have handled (t : AnnounceTask) (nodes : List UInt8) (ipVersion : Nat) :
      (if nodes.length > 0 then t.handleNodes nodes ipVersion else t).Visits = t.Visits := by
    split
    · exact handleNodes_visits t nodes ipVersion
    · rfl
  unfold callFinished
  split
  · exact (addAnswered_visits _ _ _).trans ((handled _ _ _).trans (handled _ _ _))
  · rfl

theorem call_sent (sent : t.Sent log) (c : TaskCall) : ∃ t' out, t.call c = some (t',out) ∧ t'.Sent (log ++ out) := by
  cases c with
  | started => exact ⟨_,[],rfl,sent.silent rfl rfl⟩
  | update => exact update_sent sent
  | callFinished method origin rsp raw =>
    refine ⟨_,[],rfl,?_⟩
    split
    · have same := callFinished_visits t origin rsp raw
      exact sent.silent (congrArg Prod.fst same) (congrArg Prod.snd same)
    · exact sent.silent rfl rfl
  | callTimeout => exact ⟨_,[],rfl,sent.silent rfl rfl⟩
  | responded => exact ⟨_,[],rfl,sent.silent rfl rfl⟩
  | insert e => exact ⟨_,[],rfl,sent.silent rfl rfl⟩
  | kill => exact ⟨_,[],rfl,sent.silent rfl rfl⟩

end AnnounceTask

-- No node is sent two requests of the same method.
def SentOnce (sent : List SentRequest) : Prop := ∀ method, ((sent.filter (·.request.method = method)).map (·.node)).Nodup

theorem nodup_nodes {sent : List SentRequest} (once : (sent.map SentRequest.id).Nodup) : (sent.map (·.node)).Nodup := by
  have ids : ((sent.map (·.node)).map (·.id)).Nodup := by
    rw [List.map_map]
    exact once
  exact ids.of_map

-- Every event of an announce task is a sequence of such calls.
theorem lookups_once (ourId target : Key) (port : UInt16) (todo : List TaskNode) (calls : List TaskCall) :
    (∃ t sent, taskCalls NodeLookup.call (.new ourId target) calls = some (t,sent) ∧ SentOnce sent) ∧
      (∃ t sent, taskCalls AnnounceTask.call (.new ourId target port todo) calls = some (t,sent) ∧ SentOnce sent) ∧
      (NodeLookup.findNodeLoop.Ends ∧ AnnounceTask.announceLoop.Ends ∧ AnnounceTask.getPeersLoop.Ends) ∧
      ∀ qt t event, ∃ calls sent, taskCalls AnnounceTask.call t calls = some (AnnounceTask.step qt t event,sent) := by
  refine ⟨?_,?_,⟨NodeLookup.findNodeLoop_ends,AnnounceTask.announceLoop_ends,AnnounceTask.getPeersLoop_ends⟩,AnnounceTask.step_calls⟩
  · obtain ⟨t,sent,ran,once⟩ := taskCalls_keep (P := NodeLookup.Sent) (fun t log c now => NodeLookup.call_sent now c)
      (Once.empty _ _ : NodeLookup.Sent (.new ourId target) []) calls
    refine ⟨t,sent,ran,fun method => nodup_nodes ?_⟩
    exact once.nodup.sublist (List.Sublist.map _ List.filter_sublist)
  · obtain ⟨t,sent,ran,once⟩ := taskCalls_keep (P := AnnounceTask.Sent) (fun t log c now => AnnounceTask.call_sent now c)
      (⟨Once.empty _ _,Once.empty _ _,fun _ member => nomatch member⟩ : AnnounceTask.Sent (.new ourId target port todo) []) calls
    rw [List.nil_append] at once
    refine ⟨t,sent,ran,fun method => nodup_nodes ?_⟩
    by_cases lookup : method = .getPeers
    · rw [lookup]
      exact once.lookups.nodup
    · by_cases announce : method = .announcePeer
      · rw [announce]
        exact once.announces.nodup
      · have none : sent.filter (fun s => decide (s.request.method = method)) = [] := by
          refine List.filter_eq_nil_iff.mpr fun s member => ?_
          rw [decide_eq_true_eq]
          intro same
          rcases once.kinds s member with kind | kind
          · exact lookup (same.symm.trans kind)
          · exact announce (same.symm.trans kind)
        rw [none]
        exact List.nodup_nil

end KtorrentStream.Dht
