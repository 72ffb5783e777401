import Mathlib.Logic.Function.Basic
import Mathlib.Data.List.Basic
set_option autoImplicit true

namespace KtorrentStream.Dht

-- The calls are numbered as they are made. calls and callQueue are those of
-- RPCServer::Private, mtidOf gives the mtid in the request of a call and armed the calls
-- whose timer runs. The last four lists only record what has happened: the calls that had
-- to be queued, those whose request was sent, those that were answered and those that timed out.
structure RPCServer where
  calls : List (List UInt8 × Nat)
  callQueue : List Nat
  nextMtid : UInt8
  mtidOf : Nat → List UInt8
  armed : List Nat
  made : Nat
  queued : List Nat
  sent : List Nat
  answered : List Nat
  expired : List Nat

namespace RPCServer

def new : RPCServer := ⟨[],[],0,fun _ => [],[],0,[],[],[],[]⟩

def contains (s : RPCServer) (mtid : List UInt8) : Bool := s.calls.any (·.1 == mtid)

def find (s : RPCServer) (mtid : List UInt8) : Option Nat := (s.calls.find? (·.1 == mtid)).map (·.2)

def erase (s : RPCServer) (mtid : List UInt8) : RPCServer := {s with calls := s.calls.filter (·.1 != mtid)}

def send (s : RPCServer) (c : Nat) (m : UInt8) : RPCServer := {s with
  calls := ([m],c) :: s.calls.filter (·.1 != [m]),
  mtidOf := Function.update s.mtidOf c [m],
  armed := c :: s.armed,
  sent := s.sent ++ [c]}

-- while (calls.contains(mtid)) mtid[0] = ++next_mtid, until it is start again. None: the
-- rounds do not suffice; some none: no mtid is free.
def searchFrom (s : RPCServer) (start : UInt8) : Nat → UInt8 → Option (Option UInt8)
  | 0,_ => none
  | rounds + 1,m =>
    if s.contains [m] then
      if m + 1 = start then some none else s.searchFrom start rounds (m + 1)
    else some (some m)

def doCall (s : RPCServer) : Option RPCServer :=
  let c := s.made
  match s.searchFrom s.nextMtid 256 s.nextMtid with
  | none => none
  | some none => some {s with callQueue := s.callQueue ++ [c],queued := s.queued ++ [c],made := c + 1}
  | some (some m) => some {s.send c m with nextMtid := m,made := c + 1}

def doCalls (s : RPCServer) : Nat → Option RPCServer
  | 0 => some s
  | n + 1 => s.doCall.bind (doCalls · n)

-- while (calls.contains(QByteArray(1, next_mtid))) next_mtid++;
def searchFree (s : RPCServer) : Nat → UInt8 → Option UInt8
  | 0,_ => none
  | rounds + 1,m => if s.contains [m] then s.searchFree rounds (m + 1) else some m

def doQueuedFrom (s : RPCServer) : List Nat → Option RPCServer
  | [] => some {s with callQueue := []}
  | c :: rest =>
    if s.calls.length < 256 then
      match s.searchFree 256 s.nextMtid with
      | none => none
      | some m => doQueuedFrom {s.send c m with nextMtid := m + 1} rest
    else some {s with callQueue := c :: rest}

def doQueuedCalls (s : RPCServer) : Option RPCServer := s.doQueuedFrom s.callQueue

-- A response to a call: the listeners hear of it while the call is still there, and may
-- themselves make calls. The call's timer will not fire any more.
def response (s : RPCServer) (mtid : List UInt8) (listeners : Nat) : Option RPCServer :=
  match s.find mtid with
  | none => some s
  | some c => do
    let s ← s.doCalls listeners
    doQueuedCalls {s.erase mtid with armed := s.armed.filter (· != c),answered := s.answered ++ [c]}

def timedOut (s : RPCServer) (mtid : List UInt8) : Option RPCServer :=
  match s.find mtid with
  | none => s.doQueuedCalls
  | some c => doQueuedCalls {s.erase mtid with armed := s.armed.filter (· != c)}

-- The timer of a call fires: only if it runs, and then not again.
def callTimeout (s : RPCServer) (c : Nat) : Option RPCServer :=
  if c ∈ s.armed then timedOut {s with armed := s.armed.filter (· != c),expired := s.expired ++ [c]} (s.mtidOf c)
  else some s

end RPCServer

inductive RPCEvent
  | doCall
  | response (mtid : List UInt8) (listeners : Nat)
  | timeout (c : Nat)
  | doQueuedCalls

namespace RPCServer

def step (s : RPCServer) : RPCEvent → Option RPCServer
  | .doCall => s.doCall
  | .response mtid listeners => s.response mtid listeners
  | .timeout c => s.callTimeout c
  | .doQueuedCalls => s.doQueuedCalls

def run (s : RPCServer) : List RPCEvent → Option RPCServer
  | [] => some s
  | event :: rest => (s.step event).bind fun s => s.run rest

def outstanding (s : RPCServer) : List Nat := s.calls.map (·.2)

-- What an event asks of the server: the calls it makes, the one it answers and the one it
-- lets time out.

def asks (s : RPCServer) : RPCEvent → Nat
  | .doCall => 1
  | .response mtid listeners => if (s.find mtid).isSome then listeners else 0
  | _ => 0

def answers (s : RPCServer) : RPCEvent → List Nat
  | .response mtid _ => (s.find mtid).toList
  | _ => []

def expires (s : RPCServer) : RPCEvent → List Nat
  | .timeout c => if c ∈ s.armed then [c] else []
  | _ => []

def asked (s : RPCServer) : List RPCEvent → Nat
  | [] => 0
  | event :: rest => s.asks event + ((s.step event).map fun s => s.asked rest).getD 0

end RPCServer

end KtorrentStream.Dht
