import KtorrentStream.Net.Address
import KtorrentStream.Util.Bytes
set_option autoImplicit true

namespace KtorrentStream.Net
open KtorrentStream.Util

-- The user name and password for the proxy, with QString::toLocal8Bit.
structure SocksAuthentication where
  username : List UInt16
  password : List UInt16
  toLocal8Bit : List UInt16 → List UInt8

namespace SocksAuthentication

variable (q : SocksAuthentication)

def user : List UInt8 := q.toLocal8Bit q.username

def pwd : List UInt8 := q.toLocal8Bit q.password

-- No authentication, and user name and password where there are any; GSSAPI is behind nmethods.
def methods : List UInt8 := [0,2,1,0,0].take (if q.username.length > 0 ∧ q.password.length > 0 then 2 else 1)

end SocksAuthentication

inductive Socks.State where
  | idle
  | connectingToServer
  | connectingToHost
  | connected
  | failed
  deriving DecidableEq

inductive Socks.SetupState where
  | none
  | authRequestSent
  | usernameAndPasswordSent
  | connectRequestSent
  deriving DecidableEq

-- With the bytes that wait on its socket, and those that were sent on it.
structure Socks where
  version : Nat
  dest : Address
  state : Socks.State
  internalState : Socks.SetupState
  unread : List UInt8
  sent : List UInt8

namespace Socks

variable (q : SocksAuthentication) (s : Socks)

def new (version : Nat) (dest : Address) : Socks := ⟨version,dest,.idle,.none,[],[]⟩

def fail : Socks := {s with state := .failed}

def bytesAvailable : Nat := s.unread.length

def readData (len : Nat) : List UInt8 × Socks := (s.unread.take len,{s with unread := s.unread.drop len})

def sendData (data : List UInt8) : Socks := {s with sent := s.sent ++ data}

def userId : List UInt8 := "KTorrent".toList.map fun c => UInt8.ofNat c.toNat

def sendAuthRequest : Socks :=
  if s.version = 5 then
    {s.sendData (5 :: UInt8.ofNat q.methods.length :: q.methods) with internalState := .authRequestSent}
  else
    match s.dest with
    | .v6 _ _ => s.fail
    | .v4 ip port =>
      {s.sendData ([4,1] ++ writeUint16 port.toNat ++ writeUint32 ip.toNat ++ userId ++ [0]) with internalState := .connectRequestSent}

def sendConnectRequest : Socks :=
  let req := match s.dest with
    | .v4 ip port => [5,1,0,1] ++ writeUint32 ip.toNat ++ writeUint16 port.toNat
    | .v6 ip port => [5,1,0,4] ++ ip.val ++ writeUint16 port.toNat
  {s.sendData req with internalState := .connectRequestSent}

-- none when more is written than the 515 bytes of the buffer.
def sendUsernamePassword : Option Socks :=
  let buffer := [1,UInt8.ofNat q.user.length] ++ q.user ++ [UInt8.ofNat q.pwd.length] ++ q.pwd
  if buffer.length > 515 then none else some {s.sendData buffer with internalState := .usernameAndPasswordSent}

def handleAuthReply : Option Socks :=
  let (reply,s) := s.readData 2
  if reply.length ≠ 2 then some s.fail
  else if reply.getD 0 0 ≠ 5 ∨ reply.getD 1 0 = 255 then some s.fail
  else if reply.getD 1 0 = 0 then some s.sendConnectRequest
  else if reply.getD 1 0 = 2 then s.sendUsernamePassword q
  else some s

def handleUsernamePasswordReply : Socks :=
  let (reply,s) := s.readData 2
  if reply.length ≠ 2 then s.fail
  else if reply.getD 0 0 ≠ 1 ∨ reply.getD 1 0 ≠ 0 then s.fail
  else s.sendConnectRequest

-- n bytes are read where least of them have to be there.
def readAddress (least n : Nat) : Socks :=
  if s.bytesAvailable < least then s.fail
  else
    let (addr,s) := s.readData n
    if addr.length ≠ n then s.fail else {s with state := .connected}

def readDomain : Socks :=
  if s.bytesAvailable = 0 then s.fail
  else
    let (len,s) := s.readData 1
    if len.length ≠ 1 then s.fail else s.readAddress (len.getD 0 0).toNat (len.getD 0 0).toNat

def handleConnectReply : Socks :=
  if s.version = 4 then
    let (reply,s) := s.readData 8
    if reply.length ≠ 8 then s.fail
    else if reply.getD 1 0 ≠ 0x5a then s.fail
    else {s with state := .connected}
  else
    let (reply,s) := s.readData 4
    if reply.length ≠ 4 then s.fail
    else if reply.getD 0 0 ≠ 5 ∨ reply.getD 1 0 ≠ 0 then s.fail
    else if reply.getD 3 0 = 1 then s.readAddress 6 6
    else if reply.getD 3 0 = 4 then s.readAddress 18 6
    else if reply.getD 3 0 = 3 then s.readDomain
    else s.fail

def onReadyToRead : Option Socks :=
  if s.state = .connected then some s
  else if s.bytesAvailable = 0 then some s.fail
  else
    match s.internalState with
    | .authRequestSent => s.handleAuthReply q
    | .usernameAndPasswordSent => some s.handleUsernamePasswordReply
    | .connectRequestSent => some s.handleConnectReply
    | .none => some s

-- resolved is socks_server_addr_resolved; connectTo and connecting are what the socket says of the connection to the server.
def setup (resolved connectTo connecting : Bool) : Socks :=
  let s := {s with state := .connectingToServer}
  if !resolved then s
  else if connectTo then {s with state := .connectingToHost}.sendAuthRequest q
  else if connecting then s
  else s.fail

def resolved (succeeded connectTo connecting : Bool) : Socks :=
  if !succeeded then s.fail
  else if s.state = .connectingToServer then s.setup q true connectTo connecting
  else s

def onReadyToWrite (connectSuccesFull : Bool) : Socks :=
  if connectSuccesFull then {s with state := .connectingToHost}.sendAuthRequest q else s.fail

-- Bytes come in, and the socket is ready to read.
def arrive (bytes : List UInt8) : Option Socks := onReadyToRead q {s with unread := s.unread ++ bytes}

-- The connection to the server is there, in one of the ways this can happen.
inductive Begun (version : Nat) (dest : Address) : Socks → Prop
  | atOnce (connecting : Bool) : Begun version dest ((new version dest).setup q true true connecting)
  | resolved (a b connecting : Bool) : Begun version dest (((new version dest).setup q false a b).resolved q true true connecting)
  | written : Begun version dest (((new version dest).setup q true false true).onReadyToWrite q true)
  | later (a b : Bool) : Begun version dest ((((new version dest).setup q false a b).resolved q true false true).onReadyToWrite q true)

end Socks

-- The address in a connect reply, behind its type.
inductive BoundAddress where
  | ipv4 (ip : {bytes : List UInt8 // bytes.length = 4})
  | ipv6 (ip : {bytes : List UInt8 // bytes.length = 16})
  | domain (name : {bytes : List UInt8 // bytes.length ≤ 255})

def BoundAddress.bytes : BoundAddress → List UInt8
  | .ipv4 ip => 1 :: ip.val
  | .ipv6 ip => 4 :: ip.val
  | .domain name => 3 :: UInt8.ofNat name.val.length :: name.val

def BoundAddress.isIPv4 : BoundAddress → Bool
  | .ipv4 _ => true
  | _ => false

-- What a proxy answers when all goes well.
inductive SocksExchange where
  | v4 (null : UInt8) (dummy : {bytes : List UInt8 // bytes.length = 6})
  | v5 (method reserved : UInt8) (bound : BoundAddress) (port : {bytes : List UInt8 // bytes.length = 2})

namespace SocksExchange

def Allowed (q : SocksAuthentication) (version : Nat) (dest : Address) : SocksExchange → Prop
  | .v4 _ _ => version = 4 ∧ dest.ipVersion = 4
  | .v5 method _ _ _ => version = 5 ∧ method ∈ q.methods

-- The replies in front of the one to the connect request.
def first : SocksExchange → List (List UInt8)
  | .v4 _ _ => []
  | .v5 method _ _ _ => if method = 2 then [[5,method],[1,0]] else [[5,method]]

def connectReply : SocksExchange → List UInt8
  | .v4 null dummy => [null,0x5a] ++ dummy.val
  | .v5 _ reserved bound port => [5,0,reserved] ++ bound.bytes ++ port.val

-- The user name and password, where the proxy wants them, are not too long for their buffer.
def Fits (q : SocksAuthentication) : SocksExchange → Prop
  | .v4 _ _ => True
  | .v5 method _ _ _ => method = 2 → q.user.length + q.pwd.length ≤ 512

-- Version 4, or a proxy that has bound an IPv4 address.
def Plain : SocksExchange → Prop
  | .v4 _ _ => True
  | .v5 _ _ bound _ => bound.isIPv4 = true

end SocksExchange

-- CONNECTED is reached with the connect reply and not before it, and the peer's stream
-- behind that reply is left.
structure Consumes (q : SocksAuthentication) (s : Socks) (x : SocksExchange) (stream : List UInt8) : Prop where
  notBefore : ∀ n s', (x.first.take n).foldlM (Socks.arrive q) s = some s' → s'.state ≠ .connected
  consumed : ∃ s', (x.first ++ [x.connectReply ++ stream]).foldlM (Socks.arrive q) s = some s' ∧ s'.state = .connected ∧ s'.unread = stream

variable {q : SocksAuthentication} {s : Socks} {version : Nat} {dest : Address} {rest : List UInt8} {x : SocksExchange}

namespace Socks

theorem begun_eq (begun : Begun q version dest s) : s = {new version dest with state := .connectingToHost}.sendAuthRequest q := by
  cases begun with
  | atOnce connecting => rfl
  | resolved a b connecting => rfl
  | written => rfl
  | later a b => rfl

theorem readData_front (front : List UInt8) (here : s.unread = front ++ rest) (length : front.length = n) : s.readData n = (front,{s with unread := rest}) := by
  rw [readData,here,← length,List.take_left,List.drop_left]

structure Waits (s : Socks) (version : Nat) (waiting : SetupState) : Prop where
  version : s.version = version
  going : s.state = .connectingToHost
  waiting : s.internalState = waiting
  none : s.unread = []

theorem arrive_eq (waits : Waits s version waiting) (some_ : bytes ≠ []) :
    s.arrive q bytes =
      match s.internalState with
      | .authRequestSent => {s with unread := bytes}.handleAuthReply q
      | .usernameAndPasswordSent => some {s with unread := bytes}.handleUsernamePasswordReply
      | .connectRequestSent => some {s with unread := bytes}.handleConnectReply
      | .none => some {s with unread := bytes} := by
  have there : bytes.length ≠ 0 := fun zero => some_ (List.length_eq_zero_iff.mp zero)
  unfold arrive onReadyToRead bytesAvailable
  dsimp only
  rw [waits.none,List.nil_append,waits.going,if_neg (by decide),if_neg there]

theorem arrive_connect (waits : Waits s version .connectRequestSent) (some_ : bytes ≠ []) :
    s.arrive q bytes = some {s with unread := bytes}.handleConnectReply := by
  rw [arrive_eq waits some_]
  split
  · exact absurd (‹s.internalState = _›.symm.trans waits.waiting) (by decide)
  · exact absurd (‹s.internalState = _›.symm.trans waits.waiting) (by decide)
  · rfl
  · exact absurd (‹s.internalState = _›.symm.trans waits.waiting) (by decide)

-- The replies to the offered methods and to the user name and password.
theorem noneSelected (waits : Waits s version .authRequestSent) : s.arrive q [5,0] = some s.sendConnectRequest := by
  rw [arrive_eq waits (by decide),waits.waiting]
  rw [← waits.none]
  rfl

theorem passwordSelected (waits : Waits s version .authRequestSent) :
    s.arrive q [5,2] = s.sendUsernamePassword q := by
  rw [arrive_eq waits (by decide),waits.waiting]
  rw [← waits.none]
  rfl

theorem passwordAccepted (waits : Waits s version .usernameAndPasswordSent) : s.arrive q [1,0] = some s.sendConnectRequest := by
  rw [arrive_eq waits (by decide),waits.waiting]
  rw [← waits.none]
  rfl

theorem sendConnectRequest_waits (waits : Waits s version waiting) : Waits s.sendConnectRequest version .connectRequestSent :=
  ⟨waits.version,waits.going,rfl,waits.none⟩

theorem sendUsernamePassword_eq (q : SocksAuthentication) (s : Socks) :
    s.sendUsernamePassword q =
      if q.user.length + q.pwd.length ≤ 512 then
        some {s.sendData ([1,UInt8.ofNat q.user.length] ++ q.user ++ [UInt8.ofNat q.pwd.length] ++ q.pwd) with internalState := .usernameAndPasswordSent}
      else none := by
  unfold sendUsernamePassword
  dsimp only
  have size : ([1,UInt8.ofNat q.user.length] ++ q.user ++ [UInt8.ofNat q.pwd.length] ++ q.pwd).length = 3 + (q.user.length + q.pwd.length) := by
    simp only [List.length_append,List.length_cons,List.length_nil]
    omega
  rw [size]
  split
  · rw [if_neg (by omega)]
  · rw [if_pos (by omega)]

theorem readAddress_front (front : List UInt8) (here : s.unread = front ++ rest) (enough : least ≤ s.unread.length) (length : front.length = n) :
    s.readAddress least n = {s with unread := rest,state := .connected} := by
  unfold readAddress bytesAvailable
  rw [if_neg (by omega),readData_front front here length]
  dsimp only
  rw [if_neg (fun other => other length)]

theorem readDomain_front {name : List UInt8} (small : name.length ≤ 255) (here : s.unread = [UInt8.ofNat name.length] ++ (name ++ rest)) :
    s.readDomain = {s with unread := rest,state := .connected} := by
  have size : (UInt8.ofNat name.length).toNat = name.length := by
    rw [UInt8.toNat_ofNat']
    omega
  have some_ : s.bytesAvailable ≠ 0 := by
    rw [bytesAvailable,here,List.length_append,List.length_singleton]
    omega
  unfold readDomain
  rw [if_neg some_,readData_front _ here List.length_singleton]
  dsimp only
  rw [if_neg (fun other => other rfl),List.getD_cons_zero,size]
  exact readAddress_front name rfl (by dsimp only; rw [List.length_append]; omega) rfl

end Socks

-- What handleConnectReply leaves of an address and the port behind it.
def BoundAddress.left (port : List UInt8) : BoundAddress → List UInt8
  | .ipv4 _ => []
  | .ipv6 ip => ip.val.drop 6 ++ port
  | .domain _ => port

def SocksExchange.left : SocksExchange → List UInt8
  | .v4 _ _ => []
  | .v5 _ _ bound port => bound.left port.val

namespace Socks

theorem connectReply_v4 (waits : Waits s 4 .connectRequestSent) (null : UInt8) (dummy : {bytes : List UInt8 // bytes.length = 6}) (stream : List UInt8) :
    s.arrive q ((SocksExchange.v4 null dummy).connectReply ++ stream) = some {s with unread := stream,state := .connected} := by
  have length : (SocksExchange.v4 null dummy).connectReply.length = 8 := by
    rw [SocksExchange.connectReply,List.length_append,dummy.property]
    rfl
  rw [arrive_connect waits (by simp [SocksExchange.connectReply])]
  unfold handleConnectReply
  dsimp only
  rw [if_pos waits.version,readData_front _ rfl length]
  dsimp only
  rw [if_neg (fun other => other length),if_neg (fun other => other rfl)]

theorem connectReply_v5 (waits : Waits s 5 .connectRequestSent) (method reserved : UInt8) (bound : BoundAddress)
    (port : {bytes : List UInt8 // bytes.length = 2}) (stream : List UInt8) :
    s.arrive q ((SocksExchange.v5 method reserved bound port).connectReply ++ stream) =
      some {s with unread := bound.left port.val ++ stream,state := .connected} := by
  have two := port.property
  rw [arrive_connect waits (by simp [SocksExchange.connectReply])]
  unfold handleConnectReply
  dsimp only
  rw [if_neg (by rw [waits.version]; decide)]
  cases bound with
  | ipv4 ip =>
    have four := ip.property
    have reply : (SocksExchange.v5 method reserved (.ipv4 ip) port).connectReply ++ stream = [5,0,reserved,1] ++ (ip.val ++ port.val ++ stream) := by
      simp [SocksExchange.connectReply,BoundAddress.bytes]
    rw [reply,readData_front [5,0,reserved,1] rfl (show [5,0,reserved,1].length = 4 from rfl)]
    exact congrArg some (readAddress_front (ip.val ++ port.val) rfl
      (by dsimp only; rw [List.length_append,List.length_append]; omega) (by rw [List.length_append]; omega))
  | ipv6 ip =>
    have sixteen := ip.property
    have reply : (SocksExchange.v5 method reserved (.ipv6 ip) port).connectReply ++ stream =
        [5,0,reserved,4] ++ (ip.val.take 6 ++ (ip.val.drop 6 ++ port.val ++ stream)) := by
      rw [← List.append_assoc (ip.val.take 6),← List.append_assoc (ip.val.take 6),List.take_append_drop]
      simp [SocksExchange.connectReply,BoundAddress.bytes]
    rw [reply,readData_front [5,0,reserved,4] rfl (show [5,0,reserved,4].length = 4 from rfl)]
    exact congrArg some (readAddress_front (ip.val.take 6) rfl
      (by dsimp only; simp only [List.length_append,List.length_take,List.length_drop]; omega) (by rw [List.length_take]; omega))
  | domain name =>
    have reply : (SocksExchange.v5 method reserved (.domain name) port).connectReply ++ stream =
        [5,0,reserved,3] ++ ([UInt8.ofNat name.val.length] ++ (name.val ++ (port.val ++ stream))) := by
      simp [SocksExchange.connectReply,BoundAddress.bytes]
    rw [reply,readData_front [5,0,reserved,3] rfl (show [5,0,reserved,3].length = 4 from rfl)]
    have domain := readDomain_front (s := {s with unread := [UInt8.ofNat name.val.length] ++ (name.val ++ (port.val ++ stream))}) name.property rfl
    exact congrArg some domain

theorem connectReply_eq (allowed : x.Allowed q version dest) (waits : Waits s version .connectRequestSent) (stream : List UInt8) :
    s.arrive q (x.connectReply ++ stream) = some {s with unread := x.left ++ stream,state := .connected} := by
  cases x with
  | v4 null dummy => exact connectReply_v4 (allowed.1 ▸ waits) null dummy stream
  | v5 method reserved bound port => exact connectReply_v5 (allowed.1 ▸ waits) method reserved bound port stream

theorem begun_v4 (begun : Begun q 4 dest s) (v4 : dest.ipVersion = 4) : Waits s 4 .connectRequestSent := by
  rw [begun_eq begun]
  cases dest with
  | v4 ip port => exact ⟨rfl,rfl,rfl,rfl⟩
  | v6 ip port => cases v4

theorem begun_v5 (begun : Begun q 5 dest s) : Waits s 5 .authRequestSent := by
  rw [begun_eq begun]
  exact ⟨rfl,rfl,rfl,rfl⟩

theorem selected (offered : method ∈ q.methods) : method = 0 ∨ method = 2 := by
  unfold SocksAuthentication.methods at offered
  split at offered
  · simpa using offered
  · exact .inl (by simpa using offered)

structure Prepared (q : SocksAuthentication) (s : Socks) (version : Nat) (x : SocksExchange) : Prop where
  going : ∀ n s', (x.first.take n).foldlM (arrive q) s = some s' → s'.state = .connectingToHost
  waits : x.Fits q → ∃ s', x.first.foldlM (arrive q) s = some s' ∧ Waits s' version .connectRequestSent
  stuck : ¬ x.Fits q → x.first.foldlM (arrive q) s = none

theorem none_prepared (waits : Waits s 5 .authRequestSent) (reserved : UInt8) (bound : BoundAddress) (port : {bytes : List UInt8 // bytes.length = 2}) :
    Prepared q s 5 (.v5 0 reserved bound port) := by
  have run : [[5,0]].foldlM (arrive q) s = some s.sendConnectRequest := by
    rw [List.foldlM_cons,noneSelected waits]
    rfl
  refine ⟨?_,fun _ => ⟨_,run,sendConnectRequest_waits waits⟩,fun unfit => absurd (fun two => absurd two (by decide)) unfit⟩
  intro n s' ran
  match n with
  | 0 =>
    cases ran
    exact waits.going
  | n + 1 =>
    rw [List.take_of_length_le (show (SocksExchange.v5 0 reserved bound port).first.length ≤ n + 1 from Nat.le_add_left 1 n)] at ran
    cases run.symm.trans ran
    exact waits.going

theorem password_prepared (waits : Waits s 5 .authRequestSent) (reserved : UInt8) (bound : BoundAddress) (port : {bytes : List UInt8 // bytes.length = 2}) :
    Prepared q s 5 (.v5 2 reserved bound port) := by
  by_cases fits : q.user.length + q.pwd.length ≤ 512
  · have sent := sendUsernamePassword_eq q s
    rw [if_pos fits] at sent
    have between : Waits ({s.sendData ([1,UInt8.ofNat q.user.length] ++ q.user ++ [UInt8.ofNat q.pwd.length] ++ q.pwd) with
        internalState := .usernameAndPasswordSent}) 5 .usernameAndPasswordSent := ⟨waits.version,waits.going,rfl,waits.none⟩
    generalize {s.sendData _ with internalState := SetupState.usernameAndPasswordSent} = s₁ at sent between
    have first : [[5,2]].foldlM (arrive q) s = some s₁ := by
      rw [List.foldlM_cons,passwordSelected waits,sent]
      rfl
    have run : [[5,2],[1,0]].foldlM (arrive q) s = some s₁.sendConnectRequest := by
      rw [List.foldlM_cons,passwordSelected waits,sent,Option.bind_eq_bind,Option.bind_some,List.foldlM_cons,passwordAccepted between]
      rfl
    refine ⟨?_,fun _ => ⟨_,run,sendConnectRequest_waits between⟩,fun unfit => absurd (fun _ => fits) unfit⟩
    intro n s' ran
    match n with
    | 0 =>
      cases ran
      exact waits.going
    | 1 =>
      rw [show ((SocksExchange.v5 2 reserved bound port).first.take 1) = [[5,2]] from rfl,first] at ran
      cases ran
      exact between.going
    | n + 2 =>
      rw [List.take_of_length_le (show (SocksExchange.v5 2 reserved bound port).first.length ≤ n + 2 from Nat.le_add_left 2 n)] at ran
      cases run.symm.trans ran
      exact between.going
  · have sent := sendUsernamePassword_eq q s
    rw [if_neg fits] at sent
    have run (rest : List (List UInt8)) : ([5,2] :: rest).foldlM (arrive q) s = none := by
      rw [List.foldlM_cons,passwordSelected waits,sent]
      rfl
    refine ⟨?_,fun fine => absurd (fine rfl) fits,fun _ => run [[1,0]]⟩
    intro n s' ran
    match n with
    | 0 =>
      cases ran
      exact waits.going
    | n + 1 =>
      rw [show ((SocksExchange.v5 2 reserved bound port).first.take (n + 1)) = [5,2] :: [[1,0]].take n from rfl,run] at ran
      cases ran

theorem prepared (begun : Begun q version dest s) (allowed : x.Allowed q version dest) : Prepared q s version x := by
  cases x with
  | v4 null dummy =>
    obtain ⟨rfl,v4⟩ := allowed
    have waits := begun_v4 begun v4
    refine ⟨fun n s' ran => ?_,fun _ => ⟨s,rfl,waits⟩,fun unfit => absurd trivial unfit⟩
    rw [show (SocksExchange.v4 null dummy).first = [] from rfl,List.take_nil] at ran
    cases ran
    exact waits.going
  | v5 method reserved bound port =>
    obtain ⟨rfl,offered⟩ := allowed
    have waits := begun_v5 begun
    rcases selected offered with rfl | rfl
    · exact none_prepared waits reserved bound port
    · exact password_prepared waits reserved bound port

end Socks

theorem SocksExchange.left_nil : x.left = [] ↔ x.Plain := by
  cases x with
  | v4 null dummy => exact ⟨fun _ => trivial,fun _ => rfl⟩
  | v5 method reserved bound port =>
    have two := port.property
    cases bound with
    | ipv4 ip => exact ⟨fun _ => rfl,fun _ => rfl⟩
    | ipv6 ip =>
      refine ⟨fun nothing => ?_,fun plain => nomatch plain⟩
      have length := congrArg List.length (show ip.val.drop 6 ++ port.val = [] from nothing)
      rw [List.length_append,List.length_drop,ip.property,two] at length
      cases length
    | domain name =>
      refine ⟨fun nothing => ?_,fun plain => nomatch plain⟩
      have length := congrArg List.length (show port.val = [] from nothing)
      rw [two] at length
      cases length

-- The handshake consumes exactly the proxy's replies, unless the proxy has bound an address
-- that is not an IPv4 address.
theorem socks_consumes_iff (begun : Socks.Begun q version dest s) (allowed : x.Allowed q version dest) (stream : List UInt8) :
    Consumes q s x stream ↔ x.Fits q ∧ x.Plain := by
  have prepared := Socks.prepared begun allowed
  have run : (x.first ++ [x.connectReply ++ stream]).foldlM (Socks.arrive q) s =
      (x.first.foldlM (Socks.arrive q) s).bind fun s' => s'.arrive q (x.connectReply ++ stream) := by
    rw [List.foldlM_append]
    refine congrArg (Option.bind _) (funext fun s' => ?_)
    exact Option.bind_fun_some _
  by_cases fits : x.Fits q
  · obtain ⟨s',first,waits⟩ := prepared.waits fits
    rw [first,Option.bind_some,Socks.connectReply_eq allowed waits] at run
    have exact_ : x.left ++ stream = stream ↔ x.Plain := by
      rw [List.append_left_eq_self,SocksExchange.left_nil]
    constructor
    · rintro ⟨_,after,ran,_,unread⟩
      rw [run] at ran
      cases ran
      exact ⟨fits,exact_.mp unread⟩
    · rintro ⟨_,plain⟩
      refine ⟨fun n s₁ ran connected => ?_,_,run,rfl,exact_.mpr plain⟩
      rw [prepared.going n s₁ ran] at connected
      cases connected
  · rw [prepared.stuck fits] at run
    constructor
    · rintro ⟨_,after,ran,_⟩
      rw [run] at ran
      cases ran
    · exact fun fine => absurd fine.1 fits

-- A proxy without authentication, for a peer at 10.0.0.1, port 80.
def withoutAuthentication : SocksAuthentication := ⟨[],[],fun _ => []⟩

def peerAddress : Address := .v4 167772161 80

def proxied : Socks := (Socks.new 5 peerAddress).setup withoutAuthentication true true false

-- The replies of a proxy that has bound 10.0.0.2, ::2, or the name p.
def boundIPv4 : SocksExchange := .v5 0 0 (.ipv4 ⟨[10,0,0,2],rfl⟩) ⟨[0,80],rfl⟩

def boundIPv6 : SocksExchange := .v5 0 0 (.ipv6 ⟨[0,0,0,0,0,0,0,0,0,0,0,0,0,0,0,2],rfl⟩) ⟨[0,80],rfl⟩

def boundDomain : SocksExchange := .v5 0 0 (.domain ⟨[112],by decide⟩) ⟨[0,80],rfl⟩

theorem ipv4_consumed : Consumes withoutAuthentication proxied boundIPv4 [19] :=
  (@socks_consumes_iff withoutAuthentication proxied 5 peerAddress boundIPv4 (.atOnce false) ⟨rfl,by decide⟩ [19]).mpr ⟨fun two => absurd two (by decide),rfl⟩

-- The rest of the address and the port, or the port alone, comes in front of the stream.
theorem address_left : ¬ Consumes withoutAuthentication proxied boundIPv6 [19] ∧ ¬ Consumes withoutAuthentication proxied boundDomain [19] := by
  constructor
  · rintro ⟨_,after,ran,_,unread⟩
    cases ran
    exact absurd unread (by decide)
  · rintro ⟨_,after,ran,_,unread⟩
    cases ran
    exact absurd unread (by decide)

end KtorrentStream.Net
