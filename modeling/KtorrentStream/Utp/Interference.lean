import KtorrentStream.Utp.Slots
import KtorrentStream.Utp.Stream
set_option autoImplicit true

namespace KtorrentStream.Utp
open KtorrentStream.Lib KtorrentStream.Util KtorrentStream.Net

-- A connection is what the datagrams with its id make of it, wherever they come from.
-- Two runs in which these are the same, and what its user and the timer ask for, take
-- it through the same states, and with them to the same delivered bytes; whatever
-- carries another id leaves it alone.
theorem same_id_same_states (around : UInt16 → Nat → Surroundings) (s last last' : UTPServer) (keyed : s.Keyed) (connId : UInt16)
    (events events' : List ServerEvent) (seen seen' : List Slot)
    (run : Follows (UTPServer.step around) (ServerEvent.concerns connId) (fun s => s.slot connId) s events last seen)
    (run' : Follows (UTPServer.step around) (ServerEvent.concerns connId) (fun s => s.slot connId) s events' last' seen')
    (same : events'.filter (ServerEvent.concerns connId) = events.filter (ServerEvent.concerns connId)) :
    (seen = seen' ∧ last.slot connId = last'.slot connId) ∧
    ∀ (t t' : UTPServer) (e : ServerEvent), t.Keyed → e.concerns connId = false → t.step around e = some t' → t'.slot connId = t.slot connId := by
  have isolated := slot_isolated around connId
  refine ⟨isolated.agree keyed keyed rfl run run' same,?_⟩
  intro t t' e keyed other stepped
  exact isolated.unmoved keyed other stepped

def friend : Address := .v4 1 1000
def stranger : Address := .v4 2 2000

def idle : UTPServer := ⟨.empty,fun _ => 0,true,[],[]⟩

def stillLife (_ : UInt16) (_ : Nat) : Surroundings := ⟨fun _ => ⟨0,0⟩,exactGain,(.idle,0),roomForFour⟩

def ServerEvent.isFrom (addr : Address) : ServerEvent → Bool
  | .dataReceived _ from_ => from_ = addr
  | _ => true

def datagramOf (hdr : Header) (payload : List UInt8) (short : payload.length < 1000) : Buffer :=
  ⟨hdr.write ++ payload,by rw [List.length_append,Header.write_length]; omega⟩

-- The first one opens a connection under the id 8. The second one sends a reset to 8,
-- or three bytes.
def opening : ServerEvent := .dataReceived (datagramOf ⟨1,stSyn,0,7,0,0,5000,1,0⟩ [] (by decide)) friend
def strangersReset : ServerEvent := .dataReceived (datagramOf ⟨1,stReset,0,8,0,0,5000,2,5⟩ [] (by decide)) stranger
def strangersBytes : ServerEvent := .dataReceived (datagramOf ⟨1,stData,0,8,0,0,5000,2,5⟩ [1,2,3] (by decide)) stranger

def watched (events : List ServerEvent) : Option (Address × ConnectionState × List (UInt16 × List UInt8)) :=
  (events.foldlM (UTPServer.step stillLife) idle).bind fun s =>
    (s.find 8).map fun c => (c.remote,c.world.conn.stats.state,c.world.arrived)

theorem strangers_interfere :
    [opening,strangersReset].filter (ServerEvent.isFrom friend) = [opening].filter (ServerEvent.isFrom friend) ∧
    [opening,strangersBytes].filter (ServerEvent.isFrom friend) = [opening].filter (ServerEvent.isFrom friend) ∧
    watched [opening] = some (friend,.connected,[]) ∧
    watched [opening,strangersReset] = some (friend,.closed,[]) ∧
    watched [opening,strangersBytes] = some (friend,.connected,[(2,[1,2,3])]) := by
  refine ⟨rfl,rfl,?_,?_,?_⟩
  · decide +kernel
  · decide +kernel
  · decide +kernel

def otherReset : ServerEvent := .dataReceived (datagramOf ⟨1,stReset,0,9,0,0,5000,2,5⟩ [] (by decide)) stranger

theorem other_id_same_states :
    ∃ last last' seen seen',
      Follows (UTPServer.step stillLife) (ServerEvent.concerns 8) (fun s => s.slot 8) idle [opening,strangersBytes] last seen ∧
      Follows (UTPServer.step stillLife) (ServerEvent.concerns 8) (fun s => s.slot 8) idle [opening,otherReset,strangersBytes] last' seen' ∧
      seen = seen' ∧ last.slot 8 = last'.slot 8 := by
  have runs : ([opening,strangersBytes].foldlM (UTPServer.step stillLife) idle).isSome = true ∧
      ([opening,otherReset,strangersBytes].foldlM (UTPServer.step stillLife) idle).isSome = true ∧
      [opening,otherReset,strangersBytes].map (ServerEvent.concerns 8) = [true,false,true] := by decide +kernel
  obtain ⟨last,ran⟩ := Option.isSome_iff_exists.mp runs.1
  obtain ⟨last',ran'⟩ := Option.isSome_iff_exists.mp runs.2.1
  obtain ⟨seen,run⟩ := follows_of_foldlM _ (ServerEvent.concerns 8) (fun s => s.slot 8) ran
  obtain ⟨seen',run'⟩ := follows_of_foldlM _ (ServerEvent.concerns 8) (fun s => s.slot 8) ran'
  have fresh : idle.Keyed := by
    intro connId c present
    cases present
  have marks := runs.2.2
  simp only [List.map_cons,List.map_nil,List.cons.injEq] at marks
  refine ⟨last,last',seen,seen',run,run',(same_id_same_states stillLife idle last last' fresh 8 _ _ seen seen' run run' ?_).1⟩
  simp only [List.filter_cons,marks.1,marks.2.1,marks.2.2.1,List.filter_nil]
  rfl

end KtorrentStream.Utp
