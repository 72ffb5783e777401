import KtorrentStream.Lib.RoundRobin
import Mathlib.Order.Lattice
import Mathlib.Algebra.GroupWithZero.Nat
set_option autoImplicit true

namespace KtorrentStream.Util
open KtorrentStream.Lib

-- The UTF-16 units of a QString, which are also what operator< compares.
abbrev QString := List UInt16

instance QString.lawfulBEq : LawfulBEq QString := inferInstance

structure Resource where
  pointer : Nat
  groupName : QString
  deriving DecidableEq

abbrev Pending := List (QString × List Resource)

-- pending is a QMap, in the order of its keys; a key stays when its list runs empty.
-- The history is the resources in the order in which acquired() was called on them,
-- and the moments after each activation and after each call.
structure ResourceManager where
  maxActiveResources : Nat
  active : List Resource
  pending : Pending
  current : QString
  acquired : List Resource
  log : List (Moment QString)

def Pending.keys (pending : Pending) : List QString := pending.map Prod.fst

def Pending.waiting (pending : Pending) : List QString := Pending.keys (pending.filter fun e => e.2 ≠ [])

def Pending.insertGroup (name : QString) : Pending → Pending
  | [] => [(name,[])]
  | e :: rest => if name < e.1 then (name,[]) :: e :: rest else e :: insertGroup name rest

namespace ResourceManager

def new (maxActiveResources : Nat) : ResourceManager := ⟨maxActiveResources,[],[],[],[],[]⟩

-- takeFirst on the i-th list, active.insert and acquired().
def activate (s : ResourceManager) (i : Nat) (name : QString) (r : Resource) (rest : List Resource) : ResourceManager :=
  let pending : Pending := s.pending.set i (name,rest)
  {s with
    pending
    active := s.active.insert r
    acquired := s.acquired ++ [r]
    log := s.log ++ [⟨some name,pending.waiting⟩]}

end ResourceManager

-- The variables of the loop in update: the iterators i and start as places in the map.
structure Scan where
  manager : ResourceManager
  i : Nat
  start : Nat
  activated : Nat

namespace Scan

def next (l : Scan) : Nat := if l.i + 1 = l.manager.pending.length then 0 else l.i + 1

-- The end of the map itself has no value.
def visit (l : Scan) : Option Scan :=
  match l.manager.pending[l.i]? with
  | none => none
  | some (_,[]) => some {l with i := l.next}
  | some (name,r :: rest) =>
      some {l with
        manager := l.manager.activate l.i name r rest
        i := l.next
        activated := l.activated + 1}

-- After an entire cycle without an activation the loop ends.
def run : Nat → Scan → Option Scan
  | 0,_ => none
  | fuel + 1,l =>
      if l.manager.active.length < l.manager.maxActiveResources then
        l.visit.bind fun l' =>
          if l'.i = l'.start then
            if l'.activated = 0 then some l' else run fuel {l' with activated := 0}
          else run fuel l'
      else some l

end Scan

namespace ResourceManager

-- Enough rounds for every activation to take a cycle of its own, and one more cycle.
def rounds (s : ResourceManager) : Nat := s.pending.length * ((s.pending.map fun e => e.2.length).sum + 1) + 1

def place (s : ResourceManager) : Nat := (s.pending.keys.idxOf? s.current).getD 0

def update (s : ResourceManager) : Option ResourceManager :=
  if s.active.length ≥ s.maxActiveResources then some s
  else
    (Scan.run s.rounds ⟨s,s.place,s.place,0⟩).bind fun l =>
      l.manager.pending[l.i]?.map fun e => {l.manager with current := e.1}

def append (pending : Pending) (r : Resource) : Pending :=
  pending.map fun e => if e.1 = r.groupName then (e.1,e.2 ++ [r]) else e

def add (s : ResourceManager) (r : Resource) : Option ResourceManager :=
  let pending := if r.groupName ∈ s.pending.keys then s.pending else s.pending.insertGroup r.groupName
  update {s with
    pending := append pending r
    current := if s.current.isEmpty then r.groupName else s.current}

def remove (s : ResourceManager) (r : Resource) : Option ResourceManager :=
  if r ∈ s.active then update {s with active := s.active.erase r}
  else some {s with pending := s.pending.map fun e => if e.1 = r.groupName then (e.1,e.2.filter (· ≠ r)) else e}

-- The end of a call is a moment of the history.
def mark (s : ResourceManager) : ResourceManager := {s with log := s.log ++ [⟨none,s.pending.waiting⟩]}

inductive Call where
  | add (r : Resource)
  | remove (r : Resource)
  deriving DecidableEq

def step (s : ResourceManager) : Call → Option ResourceManager
  | .add r => (s.add r).map mark
  | .remove r => (s.remove r).map mark

def performAll (s : ResourceManager) (calls : List Call) : Option ResourceManager := calls.foldlM step s

end ResourceManager
end KtorrentStream.Util
