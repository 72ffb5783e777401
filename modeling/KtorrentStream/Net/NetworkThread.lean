import Mathlib.Data.List.Forall2
import Mathlib.Algebra.GroupWithZero.Nat
import KtorrentStream.Net.SocketGroup
set_option autoImplicit true

namespace KtorrentStream.Net

-- The groups stand in the order of their ids. As in SocketGroup, none is a
-- division by 0 or a loop that does not end.
namespace NetworkThread

def assuredGroup (answers : Nat → Nat) (g : SocketGroup) (allowance calls : Nat) : Option (SocketGroup × Nat × Nat) :=
  if g.sockets.length > 0 ∧ g.groupAssured > 0 then
    let tmp := if g.groupAssured > allowance then allowance else g.groupAssured
    (g.process answers tmp calls).map fun d => (d.group,allowance - (tmp - d.allowance),d.calls)
  else some (g,allowance,calls)

def assuredPhase (answers : Nat → Nat) (now : Nat) : List SocketGroup → Nat → Nat → Option (List SocketGroup × Nat × Nat)
  | [],allowance,calls => some ([],allowance,calls)
  | g :: rest,allowance,calls =>
    (assuredGroup answers (g.calcAllowance now) allowance calls).bind fun (g,allowance,calls) =>
      (assuredPhase answers now rest allowance calls).map fun (rest,allowance,calls) => (g :: rest,allowance,calls)

def limitedGroup (answers : Nat → Nat) (numReady : Nat) (g : SocketGroup) (allowance calls : Nat) :
    Option (SocketGroup × Nat × Nat × Nat) :=
  if g.sockets.length > 0 then
    if numReady = 0 then none
    else
      let ceiling := (g.sockets.length * allowance + numReady - 1) / numReady
      let groupAllowance := if ceiling > allowance ∨ ceiling = 0 then allowance else ceiling
      (g.process answers groupAllowance calls).map fun d =>
        let done := groupAllowance - d.allowance
        let left := if allowance ≥ done then allowance - done else 0
        if d.again then (d.group,d.group.sockets.length,left,d.calls) else (d.group.clear,0,left,d.calls)
  else some (g,0,allowance,calls)

def doGroupsLimited (answers : Nat → Nat) (numReady : Nat) : List SocketGroup → Nat → Nat → Option (List SocketGroup × Nat × Nat × Nat)
  | [],allowance,calls => some ([],0,allowance,calls)
  | g :: rest,allowance,calls =>
    if allowance > 0 then
      (limitedGroup answers numReady g allowance calls).bind fun (g,ready,allowance,calls) =>
        (doGroupsLimited answers numReady rest allowance calls).map fun (rest,more,allowance,calls) =>
          (g :: rest,ready + more,allowance,calls)
    else some (g :: rest,0,allowance,calls)

-- doGroupsLimited returns num_still_ready > 0: later num_ready is 1 or 0.
def whileReady (answers : Nat → Nat) : Nat → List SocketGroup → Nat → Nat → Nat → Option (List SocketGroup)
  | 0,_,_,_,_ => none
  | rounds + 1,groups,numReady,allowance,calls =>
    if allowance > 0 ∧ numReady > 0 then
      (doGroupsLimited answers numReady groups allowance calls).bind fun (groups,ready,allowance,calls) =>
        whileReady answers rounds groups (if ready > 0 then 1 else 0) allowance calls
    else some groups

def freePhase (answers : Nat → Nat) (now : Nat) : List SocketGroup → Nat → Option (List SocketGroup × Nat)
  | [],calls => some ([],calls)
  | g :: rest,calls =>
    let g := g.calcAllowance now
    (if g.sockets.length > 0 ∧ g.groupAssured > 0 then (g.process answers g.groupAssured calls).map fun d => (d.group,d.calls)
      else some (g,calls)).bind fun (g,calls) =>
        (freePhase answers now rest calls).map fun (rest,calls) => (g :: rest,calls)

def restPhase (answers : Nat → Nat) : List SocketGroup → Nat → Option (List SocketGroup × Nat)
  | [],calls => some ([],calls)
  | g :: rest,calls =>
    (if g.sockets.length > 0 then (g.process answers 0 calls).map fun d => (d.group.clear,d.calls)
      else some (g,calls)).bind fun (g,calls) =>
        (restPhase answers rest calls).map fun (rest,calls) => (g :: rest,calls)

def numSockets (groups : List SocketGroup) : Nat := (groups.map fun g => g.sockets.length).sum

def doGroups (answers : Nat → Nat) (groups : List SocketGroup) (prevRunTime numReady now limit : Nat) : Option (List SocketGroup) :=
  if limit = 0 then
    (freePhase answers now groups 0).bind fun (groups,calls) => (restPhase answers groups calls).map Prod.fst
  else
    let allowance := bytesIn limit (now - prevRunTime)
    (assuredPhase answers now groups allowance 0).bind fun (groups,allowance,calls) =>
      (whileReady answers (allowance + numSockets groups + 1) groups numReady allowance calls).map
        fun groups => groups.map SocketGroup.clear

def total (groups : List SocketGroup) : Nat := (groups.map SocketGroup.moved).sum

-- No group moves more than its allowance, nor do all together.
def Capped (now allowance : Nat) (groups result : List SocketGroup) : Prop :=
  List.Forall₂ (fun g g' => 0 < g.limit → g'.moved ≤ (g.calcAllowance now).groupAllowance) groups result ∧
    total result ≤ allowance

-- The most that a group can move of its assured rate.
def assuredShare (g : SocketGroup) : Nat := if true ∈ g.sockets then g.share g.groupAssured else 0

-- The groups leave some of the allowance to those with an assured rate.
def Covered (now allowance : Nat) (groups : List SocketGroup) : Prop :=
  ∀ before g after, groups = before ++ g :: after → 0 < assuredShare (g.calcAllowance now) →
    (before.map fun g => assuredShare (g.calcAllowance now)).sum < allowance

end NetworkThread

end KtorrentStream.Net
