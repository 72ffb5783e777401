import KtorrentStream.Utp.UTPServer
set_option autoImplicit true

namespace KtorrentStream.Utp
open KtorrentStream.Lib KtorrentStream.Util KtorrentStream.Net

-- The server seen from one id: the connection under it, and how many there have been.
structure Slot where
  peer : Option Peer
  created : Nat

def UTPServer.slot (s : UTPServer) (connId : UInt16) : Slot := ⟨s.find connId,s.created connId⟩

-- Each slot goes its own way.
namespace Slot

def deliver (parser : PacketParser) (packet : Buffer) (slot : Slot) : Option Slot :=
  match slot.peer with
  | none => some slot
  | some c =>
      match Utp.handlePacket parser packet c.world with
      | .ok state w => some {slot with peer := if state = .closed then none else some {c with world := w}}
      | .error .transmissionError w => (attempt close w).map fun w' => {slot with peer := some {c with world := w'}}
      | .error .undefined _ => none

def reset (slot : Slot) : Option Slot :=
  match slot.peer with
  | none => some slot
  | some c => (attempt Utp.reset c.world).map fun w => {slot with peer := some {c with world := w}}

def syn (around : UInt16 → Nat → Surroundings) (connId : UInt16) (parser : PacketParser) (packet : Buffer) (addr : Address)
    (slot : Slot) : Option Slot :=
  let w := (around connId slot.created).connection connId .incoming
  if slot.peer.isSome then (attempt sendReset w).map fun _ => {slot with created := slot.created + 1}
  else match Utp.handlePacket parser packet w with
    | .ok _ w' => some ⟨some ⟨addr,w'⟩,slot.created + 1⟩
    | .error .transmissionError _ => some ⟨none,slot.created + 1⟩
    | .error .undefined _ => none

def hear (around : UInt16 → Nat → Surroundings) (connId : UInt16) (parser : PacketParser) (packet : Buffer) (addr : Address)
    (slot : Slot) : Option Slot :=
  if parser.header.type = stData ∨ parser.header.type = stFin ∨ parser.header.type = stState then slot.deliver parser packet
  else if parser.header.type = stReset then slot.reset
  else slot.syn around connId parser packet addr

def connectTo (around : UInt16 → Nat → Surroundings) (connId : UInt16) (addr : Address) (slot : Slot) : Option Slot :=
  if addr.port = 0 then some slot
  else if slot.peer.isSome then none
  else match startConnecting ((around connId slot.created).connection connId .outgoing) with
    | .ok _ w' => some ⟨some ⟨addr,w'⟩,slot.created + 1⟩
    | .error .transmissionError _ => some ⟨none,slot.created + 1⟩
    | .error .undefined _ => none

def request (r : Request) (slot : Slot) : Option Slot :=
  match slot.peer with
  | none => some slot
  | some c => (r.act c.world).map fun w => {slot with peer := some {c with world := w}}

def checkTimeout (now : TimeValue) (slot : Slot) : Slot :=
  {slot with peer := slot.peer.map fun c => {c with world := (finish (Utp.checkTimeout now) c.world).getD c.world}}

def cleanup (slot : Slot) : Slot := {slot with peer := slot.peer.filter fun c => c.world.conn.stats.state ≠ .closed}

-- The connection under an id has this id.
def Keyed (connId : UInt16) (slot : Slot) : Prop :=
  ∀ c, slot.peer = some c → c.world.conn.stats.recvConnectionId = connId

end Slot

-- The id that a datagram is for.
def PacketParser.target (parser : PacketParser) : Option UInt16 :=
  if parser.header.type = stData ∨ parser.header.type = stFin ∨ parser.header.type = stState then some parser.header.connectionId
  else if parser.header.type = stReset then some parser.header.connectionId
  else if parser.header.type = stSyn then some (parser.header.connectionId + 1)
  else none

def ServerEvent.concerns (connId : UInt16) : ServerEvent → Bool
  | .dataReceived packet _ =>
      match parse packet.data with
      | .accepted parser => parser.target = some connId
      | _ => false
  | .connectTo _ id => id = connId
  | .request id _ => id = connId
  | .checkTimeouts _ => true
  | .cleanup => true

def UTPServer.Keyed (s : UTPServer) : Prop := ∀ connId, (s.slot connId).Keyed connId

section
variable {w w' : World} {s s' : UTPServer} {slot slot' : Slot} {connId : UInt16} {around : UInt16 → Nat → Surroundings}

theorem Step.recvConnectionId_of (step : Step cause w w') : w'.conn.stats.recvConnectionId = w.conn.stats.recvConnectionId := by
  cases step with
  | quiet same => exact same.recvConnectionId
  | control _ _ _ _ _ same => exact same.recvConnectionId
  | resent _ _ _ same => exact same.recvConnectionId
  | fresh _ _ _ _ _ _ _ _ _ _ _ _ _ same => exact same.recvConnectionId
  | spilled _ _ _ _ same => exact same.recvConnectionId
  | acked _ _ same => exact same.recvConnectionId
  | refreshed | buffered | received | read | handshake | forward | fin | drained | cleared => rfl

theorem Steps.recvConnectionId_of (steps : Steps cause w w') : w'.conn.stats.recvConnectionId = w.conn.stats.recvConnectionId :=
  Steps.kept Step.recvConnectionId_of steps

theorem attempt_cases (defined : attempt x w = some w') : (∃ a, x w = .ok a w') ∨ x w = .error .transmissionError w' := by
  rw [attempt] at defined
  split at defined
  · rename_i a _ result
    cases defined
    exact .inl ⟨a,result⟩
  · rename_i _ result
    cases defined
    exact .inr result
  · cases defined

-- No function of a connection changes its id.
def KeepsId (w w' : World) : Prop := w'.conn.stats.recvConnectionId = w.conn.stats.recvConnectionId

theorem keeps_of_steps {x : Act α} (cause : Cause) (moves : Moves (Steps cause) x) : Moves KeepsId x :=
  fun w => wp_mono (moves w) (fun _ _ steps => steps.recvConnectionId_of) (fun _ _ steps => steps.recvConnectionId_of)

theorem close_keeps : Moves KeepsId close := keeps_of_steps .other close_moves

theorem checkTimeout_keeps (now : TimeValue) : Moves KeepsId (checkTimeout now) := keeps_of_steps .other checkTimeout_moves

theorem attempt_keeps {x : Act α} (keeps : Moves KeepsId x) (defined : attempt x w = some w') : KeepsId w w' := by
  obtain ⟨a,result⟩ | result := attempt_cases defined
  · have kept := wp_ok (keeps w) result
    exact kept
  · have kept := wp_error (keeps w) result
    exact kept

theorem finish_keeps {x : Act α} (keeps : Moves KeepsId x) : KeepsId w ((finish x w).getD w) := by
  cases result : x w with
  | ok a w' =>
      have kept := wp_ok (keeps w) result
      rw [finish,result]
      exact kept
  | error e w' =>
      rw [finish,result]
      rfl

theorem startConnecting_keeps : Moves KeepsId startConnecting := by
  intro w
  rw [startConnecting,wp_getConn]
  split
  · simp only [sendSYN,modifyStats,modifyConn,wp_bind,wp_modify]
    refine wp_mono (sendPacket_spec _ _ _) ?_ ?_
    · rintro _ w' ⟨same,_⟩
      exact same.recvConnectionId
    · rintro _ w' ⟨_,_,same,_⟩
      exact same.recvConnectionId
  · rfl

theorem Request.act_keeps (r : Request) (defined : r.act w = some w') : KeepsId w w' := by
  cases r with
  | send data =>
      refine attempt_keeps (keeps_of_steps (.send data) fun w => ?_) defined
      exact wp_mono (send_spec data w) (fun _ _ done => done.1) (fun _ _ done => done.1)
  | recv maxLen =>
      refine attempt_keeps (keeps_of_steps (.recv maxLen) fun w => ?_) defined
      exact wp_mono (recv_spec maxLen w) (fun _ _ done => done.1) (fun _ _ done => done.1)
  | close => exact attempt_keeps close_keeps defined

namespace Slot

theorem deliver_keyed (keyed : slot.Keyed connId) (stepped : slot.deliver parser packet = some slot') : slot'.Keyed connId := by
  rw [deliver] at stepped
  split at stepped
  · cases stepped
    exact keyed
  · rename_i c present
    have id := keyed c present
    split at stepped
    · rename_i state w result
      have kept := wp_ok (keeps_of_steps _ (handlePacket_moves parser packet) c.world) result
      cases stepped
      intro c' present'
      dsimp only at present'
      split at present'
      · cases present'
      · cases present'
        exact kept.trans id
    · rename_i w result
      have kept := wp_error (keeps_of_steps _ (handlePacket_moves parser packet) c.world) result
      obtain ⟨w',closed,rfl⟩ := Option.map_eq_some_iff.mp stepped
      rintro _ ⟨⟩
      exact (attempt_keeps close_keeps closed).trans (Eq.trans kept id)
    · cases stepped

theorem reset_keyed (keyed : slot.Keyed connId) (stepped : slot.reset = some slot') : slot'.Keyed connId := by
  rw [reset] at stepped
  split at stepped
  · cases stepped
    exact keyed
  · rename_i c present
    obtain ⟨w,done,rfl⟩ := Option.map_eq_some_iff.mp stepped
    rintro _ ⟨⟩
    exact (attempt_keeps (keeps_of_steps .reset reset_moves) done).trans (keyed c present)

theorem syn_keyed (keyed : slot.Keyed connId) (stepped : slot.syn around connId parser packet addr = some slot') :
    slot'.Keyed connId := by
  rw [syn] at stepped
  split at stepped
  · obtain ⟨w,_,rfl⟩ := Option.map_eq_some_iff.mp stepped
    exact keyed
  · split at stepped
    · rename_i result
      have kept := wp_ok (keeps_of_steps _ (handlePacket_moves parser packet) _) result
      cases stepped
      rintro _ ⟨⟩
      exact kept
    · cases stepped
      rintro c ⟨⟩
    · cases stepped

theorem connectTo_keyed (keyed : slot.Keyed connId) (stepped : slot.connectTo around connId addr = some slot') :
    slot'.Keyed connId := by
  rw [connectTo] at stepped
  split at stepped
  · cases stepped
    exact keyed
  split at stepped
  · cases stepped
  split at stepped
  · rename_i result
    have kept := wp_ok (startConnecting_keeps _) result
    cases stepped
    rintro _ ⟨⟩
    exact kept
  · cases stepped
    rintro c ⟨⟩
  · cases stepped

theorem request_keyed (keyed : slot.Keyed connId) (stepped : slot.request r = some slot') : slot'.Keyed connId := by
  rw [request] at stepped
  split at stepped
  · cases stepped
    exact keyed
  · rename_i c present
    obtain ⟨w,done,rfl⟩ := Option.map_eq_some_iff.mp stepped
    rintro _ ⟨⟩
    exact (r.act_keeps done).trans (keyed c present)

theorem checkTimeout_keyed (keyed : slot.Keyed connId) : (slot.checkTimeout now).Keyed connId := by
  intro c present
  obtain ⟨old,there,rfl⟩ := Option.map_eq_some_iff.mp present
  exact Eq.trans (finish_keeps (checkTimeout_keeps now)) (keyed old there)

theorem cleanup_keyed (keyed : slot.Keyed connId) : slot.cleanup.Keyed connId :=
  fun c present => keyed c (Option.filter_eq_some_iff.mp present).1

def step (around : UInt16 → Nat → Surroundings) (connId : UInt16) (slot : Slot) : ServerEvent → Option Slot
  | .dataReceived packet addr =>
      match parse packet.data with
      | .accepted parser => slot.hear around connId parser packet addr
      | _ => some slot
  | .connectTo addr _ => slot.connectTo around connId addr
  | .request _ r => slot.request r
  | .checkTimeouts now => some (slot.checkTimeout now)
  | .cleanup => some slot.cleanup

theorem hear_keyed (keyed : slot.Keyed connId) (stepped : slot.hear around connId parser packet addr = some slot') :
    slot'.Keyed connId := by
  rw [hear] at stepped
  split at stepped
  · exact deliver_keyed keyed stepped
  · split at stepped
    · exact reset_keyed keyed stepped
    · exact syn_keyed keyed stepped

theorem step_keyed (keyed : slot.Keyed connId) (stepped : slot.step around connId e = some slot') : slot'.Keyed connId := by
  cases e with
  | dataReceived packet addr =>
      rw [step] at stepped
      split at stepped
      · exact hear_keyed keyed stepped
      · cases stepped
        exact keyed
  | connectTo addr => exact connectTo_keyed keyed stepped
  | request _ r => exact request_keyed keyed stepped
  | checkTimeouts now =>
      cases stepped
      exact checkTimeout_keyed keyed
  | cleanup =>
      cases stepped
      exact cleanup_keyed keyed

end Slot

-- From s to s' the slot of connId goes its own way and no other one moves.
structure Moved (s s' : UTPServer) (connId : UInt16) (own : Slot → Option Slot) : Prop where
  here : own (s.slot connId) = some (s'.slot connId)
  others : ∀ j, j ≠ connId → s'.slot j = s.slot j

namespace UTPServer

theorem slot_insert (s : UTPServer) (connId j : UInt16) (c : Peer) :
    (s.insert connId c).slot j = if j = connId then ⟨some c,s.created j⟩ else s.slot j := by
  simp only [slot,find,insert,PtrMap.find_insert,UInt16.toNat_inj]
  split <;> rfl

theorem slot_remove (s : UTPServer) (connId j : UInt16) :
    (s.remove connId).slot j = if j = connId then ⟨none,s.created j⟩ else s.slot j := by
  simp only [slot,find,remove,PtrMap.find_erase,UInt16.toNat_inj]
  split <;> rfl

theorem slot_create (s : UTPServer) (connId j : UInt16) (type : ConnectionType) :
    (s.create around connId type).1.slot j = if j = connId then ⟨s.find j,s.created j + 1⟩ else s.slot j := by
  simp only [slot,find,create]
  split <;> rfl

theorem slot_accepted (s : UTPServer) (connId j : UInt16) : (s.accepted connId).slot j = s.slot j := by
  rw [accepted]
  split <;> rfl

theorem moved_insert (present : own (s.slot connId) = some ⟨some c,s.created connId⟩) : Moved s (s.insert connId c) connId own :=
  ⟨by rw [slot_insert,if_pos rfl,present],fun j other => by rw [slot_insert,if_neg other]⟩

theorem moved_still (still : own (s.slot connId) = some (s.slot connId)) : Moved s s connId own := ⟨still,fun _ _ => rfl⟩

theorem deliver_moved (keyed : s.Keyed) (stepped : s.deliver parser packet = some s') :
    Moved s s' parser.header.connectionId (Slot.deliver parser packet) := by
  rw [deliver] at stepped
  cases present : s.find parser.header.connectionId with
  | none =>
      rw [present] at stepped
      cases stepped
      refine moved_still ?_
      simp only [Slot.deliver,slot,present]
  | some c =>
      simp only [present] at stepped
      cases result : Utp.handlePacket parser packet c.world with
      | ok state w =>
          simp only [result] at stepped
          cases stepped
          have id : w.conn.stats.recvConnectionId = parser.header.connectionId :=
            (wp_ok (keeps_of_steps _ (handlePacket_moves parser packet) c.world) result).trans (keyed _ c present)
          have own : Slot.deliver parser packet (s.slot parser.header.connectionId) =
              some ⟨if state = .closed then none else some {c with world := w},s.created parser.header.connectionId⟩ := by
            simp only [Slot.deliver,slot,present,result]
          by_cases closed : state = .closed
          · rw [if_pos closed] at own ⊢
            rw [id]
            refine ⟨?_,fun j other => ?_⟩
            · rw [slot_remove,if_pos rfl,own]
              rfl
            · rw [slot_remove,if_neg other,slot_insert,if_neg other]
          · rw [if_neg closed] at own ⊢
            exact moved_insert own
      | error fault w =>
          cases fault with
          | transmissionError =>
              simp only [result] at stepped
              obtain ⟨w',closed,rfl⟩ := Option.map_eq_some_iff.mp stepped
              refine moved_insert ?_
              simp only [Slot.deliver,slot,present,result,closed,Option.map_some]
          | undefined =>
              simp only [result] at stepped
              cases stepped

theorem reset_moved (stepped : s.reset hdr = some s') : Moved s s' hdr.connectionId Slot.reset := by
  rw [reset] at stepped
  cases present : s.find hdr.connectionId with
  | none =>
      rw [present] at stepped
      cases stepped
      refine moved_still ?_
      simp only [Slot.reset,slot,present]
  | some c =>
      simp only [present] at stepped
      obtain ⟨w,done,rfl⟩ := Option.map_eq_some_iff.mp stepped
      refine moved_insert ?_
      simp only [Slot.reset,slot,present,done,Option.map_some]

theorem request_moved (stepped : s.request connId r = some s') : Moved s s' connId (Slot.request r) := by
  rw [request] at stepped
  cases present : s.find connId with
  | none =>
      rw [present] at stepped
      cases stepped
      refine moved_still ?_
      simp only [Slot.request,slot,present]
  | some c =>
      simp only [present] at stepped
      obtain ⟨w,done,rfl⟩ := Option.map_eq_some_iff.mp stepped
      refine moved_insert ?_
      simp only [Slot.request,slot,present,done,Option.map_some]

theorem moved_create (around : UInt16 → Nat → Surroundings) (s : UTPServer) (type : ConnectionType) (own : Slot → Option Slot) (peer : Option Peer)
    (result : own (s.slot connId) = some ⟨peer,s.created connId + 1⟩)
    (noted : ∀ j, s'.slot j = if j = connId then ⟨peer,(s.create around connId type).1.created j⟩ else (s.create around connId type).1.slot j) :
    Moved s s' connId own := by
  refine ⟨?_,fun j other => ?_⟩
  · rw [noted,if_pos rfl,result]
    simp only [create,if_pos]
  · rw [noted,if_neg other,slot_create,if_neg other]

theorem syn_moved (stepped : s.syn around parser packet addr = some s') :
    Moved s s' (parser.header.connectionId + 1) (Slot.syn around (parser.header.connectionId + 1) parser packet addr) := by
  generalize target : parser.header.connectionId + 1 = connId at *
  simp only [syn,target] at stepped
  have free : (s.slot connId).peer.isSome = s.contains connId := rfl
  split at stepped
  · rename_i taken
    obtain ⟨w,refused,rfl⟩ := Option.map_eq_some_iff.mp stepped
    refine ⟨?_,fun j other => by rw [slot_create,if_neg other]⟩
    rw [Slot.syn,if_pos (free.trans taken),slot_create,if_pos rfl]
    exact congrArg (Option.map _) refused
  · rename_i available
    cases result : Utp.handlePacket parser packet (s.create around connId .incoming).2 with
    | ok state w =>
        simp only [result] at stepped
        cases stepped
        refine moved_create around s .incoming _ (some ⟨addr,w⟩) ?_ fun j => ?_
        · have result' : Utp.handlePacket parser packet ((around connId (s.slot connId).created).connection connId .incoming) =
              .ok state w := result
          simp only [Slot.syn,free,available,result']
          rfl
        · rw [slot_accepted,slot_insert]
    | error fault w =>
        cases fault with
        | transmissionError =>
            simp only [result] at stepped
            cases stepped
            refine moved_create around s .incoming _ none ?_ fun j => slot_remove _ _ j
            have result' : Utp.handlePacket parser packet ((around connId (s.slot connId).created).connection connId .incoming) =
                .error .transmissionError w := result
            simp only [Slot.syn,free,available,result']
            rfl
        | undefined =>
            simp only [result] at stepped
            cases stepped

theorem connectTo_moved (stepped : s.connectTo around addr connId = some s') :
    Moved s s' connId (Slot.connectTo around connId addr) := by
  simp only [connectTo] at stepped
  have free : (s.slot connId).peer.isSome = s.contains connId := rfl
  split at stepped
  · rename_i none
    cases stepped
    refine moved_still ?_
    rw [Slot.connectTo,if_pos none]
  rename_i port
  split at stepped
  · cases stepped
  rename_i available
  cases result : startConnecting (s.create around connId .outgoing).2 with
  | ok _ w =>
      have result' : startConnecting ((around connId (s.slot connId).created).connection connId .outgoing) = .ok () w := result
      simp only [result] at stepped
      cases stepped
      refine moved_create around s .outgoing _ (some ⟨addr,w⟩) ?_ fun j => slot_insert _ _ j _
      simp only [Slot.connectTo,port,free,available,result']
      rfl
  | error fault w =>
      have result' : startConnecting ((around connId (s.slot connId).created).connection connId .outgoing) = .error fault w := result
      cases fault with
      | transmissionError =>
          simp only [result] at stepped
          cases stepped
          refine moved_create around s .outgoing _ none ?_ fun j => slot_remove _ _ j
          simp only [Slot.connectTo,port,free,available,result']
          rfl
      | undefined =>
          simp only [result] at stepped
          cases stepped

theorem slot_checkTimeouts (stepped : s.checkTimeouts now = some s') (j : UInt16) : s'.slot j = (s.slot j).checkTimeout now := by
  rw [checkTimeouts] at stepped
  split at stepped
  · cases stepped
    simp only [slot,find,PtrMap.find_mapValues,Slot.checkTimeout]
  · cases stepped

theorem slot_cleanup (s : UTPServer) (j : UInt16) : s.cleanup.slot j = (s.slot j).cleanup := by
  simp only [slot,Slot.cleanup,Slot.mk.injEq]
  refine ⟨?_,rfl⟩
  apply Option.ext
  intro c
  rw [find,PtrMap.find_eq_some_iff,Option.filter_eq_some_iff,find,PtrMap.find_eq_some_iff]
  exact List.mem_filter

theorem hear_slot (keyed : s.Keyed) (parsed : parse packet.data = .accepted parser)
    (stepped : s.handlePacket around packet addr = some s') (connId : UInt16) :
    (parser.target ≠ some connId → s'.slot connId = s.slot connId) ∧
    (parser.target = some connId → (s.slot connId).hear around connId parser packet addr = some (s'.slot connId)) := by
  simp only [handlePacket,parsed] at stepped
  split at stepped
  · rename_i passed
    have moved := deliver_moved keyed stepped
    rw [PacketParser.target,if_pos passed]
    refine ⟨fun other => moved.others connId fun here => other (congrArg some here.symm),?_⟩
    rintro ⟨⟩
    rw [Slot.hear,if_pos passed]
    exact moved.here
  rename_i kept
  split at stepped
  · rename_i resets
    have moved := reset_moved stepped
    rw [PacketParser.target,if_neg kept,if_pos resets]
    refine ⟨fun other => moved.others connId fun here => other (congrArg some here.symm),?_⟩
    rintro ⟨⟩
    rw [Slot.hear,if_neg kept,if_pos resets]
    exact moved.here
  rename_i lives
  split at stepped
  · rename_i asks
    have moved := syn_moved stepped
    rw [PacketParser.target,if_neg kept,if_neg lives,if_pos asks]
    refine ⟨fun other => moved.others connId fun here => other (congrArg some here.symm),?_⟩
    rintro ⟨⟩
    rw [Slot.hear,if_neg kept,if_neg lives]
    exact moved.here
  · rename_i unknown
    cases stepped
    rw [PacketParser.target,if_neg kept,if_neg lives,if_neg unknown]
    exact ⟨fun _ => rfl,nofun⟩

theorem parse_short (short : ¬ packet.length ≥ Header.size) : parse packet = .rejected := by
  rw [parse,if_pos (Nat.lt_of_not_ge short)]

theorem step_slot (keyed : s.Keyed) (stepped : s.step around e = some s') (connId : UInt16) :
    (e.concerns connId = false → s'.slot connId = s.slot connId) ∧
    (e.concerns connId = true → (s.slot connId).step around connId e = some (s'.slot connId)) := by
  have of_moved : ∀ {target own}, Moved s s' target own →
      (connId ≠ target → s'.slot connId = s.slot connId) ∧ (target = connId → own (s.slot connId) = some (s'.slot connId)) :=
    fun moved => ⟨moved.others connId,fun here => here ▸ moved.here⟩
  cases e with
  | dataReceived packet addr =>
      have arrived : s.dataReceived around packet addr = some s' := stepped
      rw [dataReceived] at arrived
      cases parsed : parse packet.data with
      | accepted parser =>
          have long : packet.data.length ≥ Header.size := by
            by_contra short
            rw [parse_short short] at parsed
            cases parsed
          rw [if_pos long] at arrived
          obtain ⟨others,here⟩ := hear_slot keyed parsed arrived connId
          simp only [ServerEvent.concerns,parsed,decide_eq_false_iff_not,decide_eq_true_eq,Slot.step]
          exact ⟨others,here⟩
      | rejected =>
          simp only [handlePacket,parsed,ite_self,Option.some_inj] at arrived
          simp only [ServerEvent.concerns,parsed]
          exact ⟨fun _ => by rw [arrived],nofun⟩
      | undefined =>
          simp only [handlePacket,parsed] at arrived
          split at arrived
          · cases arrived
          · rename_i short
            rw [parse_short short] at parsed
            cases parsed
  | connectTo addr target =>
      obtain ⟨others,here⟩ := of_moved (connectTo_moved stepped)
      simp only [ServerEvent.concerns,decide_eq_false_iff_not,decide_eq_true_eq]
      refine ⟨fun other => others (Ne.symm other),?_⟩
      rintro rfl
      exact here rfl
  | request target r =>
      obtain ⟨others,here⟩ := of_moved (request_moved stepped)
      simp only [ServerEvent.concerns,decide_eq_false_iff_not,decide_eq_true_eq]
      exact ⟨fun other => others (Ne.symm other),here⟩
  | checkTimeouts now => exact ⟨nofun,fun _ => by rw [slot_checkTimeouts stepped]; rfl⟩
  | cleanup =>
      cases stepped
      exact ⟨nofun,fun _ => by rw [slot_cleanup]; rfl⟩

theorem step_keyed (keyed : s.Keyed) (stepped : s.step around e = some s') : s'.Keyed := by
  intro connId
  obtain ⟨others,own⟩ := step_slot keyed stepped connId
  cases mine : e.concerns connId with
  | true => exact Slot.step_keyed (keyed connId) (own mine)
  | false =>
      rw [others mine]
      exact keyed connId

end UTPServer

theorem slot_isolated (around : UInt16 → Nat → Surroundings) (connId : UInt16) :
    Isolated (UTPServer.step around) (ServerEvent.concerns connId) (fun s => s.slot connId) UTPServer.Keyed where
  kept := UTPServer.step_keyed
  unmoved := fun keyed other stepped => (UTPServer.step_slot keyed stepped connId).1 other
  determined := by
    intro s s' t t' e keyed keyed' same mine stepped stepped'
    have own := (UTPServer.step_slot keyed stepped connId).2 mine
    have own' := (UTPServer.step_slot keyed' stepped' connId).2 mine
    rw [same] at own
    exact Option.some.inj (own.symm.trans own')

end
end KtorrentStream.Utp
