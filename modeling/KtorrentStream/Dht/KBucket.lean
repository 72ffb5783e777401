import KtorrentStream.Util.Word
import KtorrentStream.Net.Address
import KtorrentStream.Dht.Key
set_option autoImplicit true

namespace KtorrentStream.Dht
open KtorrentStream.Util KtorrentStream.Net

structure KBucketEntry where
  addr : Address
  nodeId : Key
  lastResponded : Nat
  failedQueries : Nat
  questionablePings : Nat
  deriving DecidableEq

namespace KBucketEntry

def same (a b : KBucketEntry) : Bool := a.addr == b.addr && a.nodeId == b.nodeId

def node (e : KBucketEntry) : Address × Key := (e.addr,e.nodeId)

-- bt::CurrentTime() - last_responded, two Uint64.
def elapsed (e : KBucketEntry) (now : Nat) : Nat := uint64 (now + 18446744073709551616 - e.lastResponded)

def isGood (now : Nat) (e : KBucketEntry) : Bool := !decide (e.elapsed now > 15 * 60 * 1000)

def isQuestionable (now : Nat) (e : KBucketEntry) : Bool := decide (e.elapsed now > 15 * 60 * 1000)

def isBad (now : Nat) (e : KBucketEntry) : Bool :=
  if e.isGood now then false else e.failedQueries > 2 || e.questionablePings > 2

def requestTimeout (e : KBucketEntry) : KBucketEntry := {e with failedQueries := e.failedQueries + 1}

def onPingQuestionable (e : KBucketEntry) : KBucketEntry := {e with questionablePings := e.questionablePings + 1}

end KBucketEntry

def K : Nat := 20

-- A ping that is out: its call, the address it went to and the entry that waits for its end.
structure BusyPing where
  call : Nat
  dest : Address
  entry : KBucketEntry

structure KBucket where
  minKey : Key
  maxKey : Key
  ourId : Key
  entries : List KBucketEntry
  pendingEntries : List KBucketEntry
  busyPinging : List BusyPing

namespace KBucket

def new (minKey maxKey ourId : Key) : KBucket := ⟨minKey,maxKey,ourId,[],[],[]⟩

def keyInRange (b : KBucket) (k : Key) : Bool := b.minKey.le k && k.le b.maxKey

def splitAllowed (b : KBucket) : Bool :=
  if !b.keyInRange b.ourId then false
  else if (b.minKey.addByte (UInt8.ofNat K)).ge b.maxKey then false
  else true

def pingFirst (now : Nat) : List KBucketEntry → Option (List KBucketEntry × Address)
  | [] => none
  | e :: rest =>
    if e.isQuestionable now then some (e.onPingQuestionable :: rest,e.addr)
    else (pingFirst now rest).map fun (rest,addr) => (e :: rest,addr)

-- The server gives each ping a call of its own, numbered by calls.
def pingQuestionable (now : Nat) (b : KBucket) (calls : Nat) (replacement : KBucketEntry) : KBucket × Nat :=
  if b.busyPinging.length ≥ 2 then ({b with pendingEntries := b.pendingEntries ++ [replacement]},calls)
  else match pingFirst now b.entries with
    | none => (b,calls)
    | some (entries,addr) =>
      ({b with entries := entries,busyPinging := b.busyPinging ++ [⟨calls,addr,replacement⟩]},calls + 1)

def replaceBadEntry (now : Nat) (b : KBucket) (entry : KBucketEntry) : Option KBucket :=
  if b.entries.any (·.isBad now) then some {b with entries := b.entries.eraseP (·.isBad now) ++ [entry]}
  else none

-- The last result: the bucket needs to be split.
def insert (now : Nat) (b : KBucket) (calls : Nat) (entry : KBucketEntry) : KBucket × Nat × Bool :=
  if b.entries.any (·.same entry) then
    ({b with entries := b.entries.eraseP (·.same entry) ++ [entry]},calls,false)
  else if b.entries.length < K then ({b with entries := b.entries ++ [entry]},calls,false)
  else match b.replaceBadEntry now entry with
    | some b => (b,calls,false)
    | none =>
      if b.entries.length = K ∧ b.splitAllowed then (b,calls,true)
      else
        let (b,calls) := b.pingQuestionable now calls entry
        (b,calls,false)

def replaceOrPing (now : Nat) (b : KBucket) (calls : Nat) (entry : KBucketEntry) : KBucket × Nat :=
  match b.replaceBadEntry now entry with
  | some b => (b,calls)
  | none => b.pingQuestionable now calls entry

def onResponse (now : Nat) (b : KBucket) (calls c : Nat) : KBucket × Nat :=
  match b.busyPinging.find? (·.call == c) with
  | none => (b,calls)
  | some ping => replaceOrPing now {b with busyPinging := b.busyPinging.filter (·.call != c)} calls ping.entry

def nextPending (now : Nat) (b : KBucket) (calls : Nat) : KBucket × Nat :=
  if b.busyPinging.length < 2 then
    match b.pendingEntries with
    | [] => (b,calls)
    | entry :: rest => replaceOrPing now {b with pendingEntries := rest} calls entry
  else (b,calls)

-- The entry that did not answer the ping makes place for the one that waits.
def replaceTimedOut (b : KBucket) (ping : BusyPing) : List KBucketEntry :=
  if b.entries.any (·.addr == ping.dest) then b.entries.eraseP (·.addr == ping.dest) ++ [ping.entry] else b.entries

def onTimeoutCall (now : Nat) (b : KBucket) (calls c : Nat) : KBucket × Nat :=
  match b.busyPinging.find? (·.call == c) with
  | none => (b,calls)
  | some ping =>
    nextPending now {b with entries := b.replaceTimedOut ping,busyPinging := b.busyPinging.filter (·.call != c)} calls

def timeoutFirst (addr : Address) : List KBucketEntry → Option (List KBucketEntry)
  | [] => none
  | e :: rest => if e.addr == addr then some (e.requestTimeout :: rest) else (timeoutFirst addr rest).map (e :: ·)

def onTimeout (b : KBucket) (addr : Address) : Option KBucket :=
  (timeoutFirst addr b.entries).map fun entries => {b with entries := entries}

def distribute (now calls : Nat) (left right : KBucket) : List KBucketEntry → KBucket × KBucket × Nat
  | [] => (left,right,calls)
  | e :: rest =>
    if left.keyInRange e.nodeId then
      let (left,calls,_) := left.insert now calls e
      distribute now calls left right rest
    else
      let (right,calls,_) := right.insert now calls e
      distribute now calls left right rest

-- None is UnableToSplit.
def split (now : Nat) (b : KBucket) (calls : Nat) : Option (KBucket × KBucket × Nat) :=
  let m := Key.mid b.minKey b.maxKey
  if m = b.minKey ∨ m.addByte 1 = b.maxKey then none
  else some (distribute now calls (new b.minKey m b.ourId) (new (m.addByte 1) b.maxKey b.ourId) b.entries)

end KBucket

-- What happens to one bucket; otherCall is a call that the server makes for somebody else.
inductive BucketEvent
  | insert (entry : KBucketEntry)
  | onResponse (c : Nat)
  | onTimeoutCall (c : Nat)
  | onTimeout (addr : Address)
  | otherCall

namespace KBucket

def step (now : Nat) (b : KBucket) (calls : Nat) : BucketEvent → KBucket × Nat
  | .insert entry => ((b.insert now calls entry).1,(b.insert now calls entry).2.1)
  | .onResponse c => b.onResponse now calls c
  | .onTimeoutCall c => b.onTimeoutCall now calls c
  | .onTimeout addr => ((b.onTimeout addr).getD b,calls)
  | .otherCall => (b,calls + 1)

def run (b : KBucket) (calls : Nat) : List (Nat × BucketEvent) → KBucket × Nat
  | [] => (b,calls)
  | (now,event) :: rest => run (b.step now calls event).1 (b.step now calls event).2 rest

end KBucket

end KtorrentStream.Dht
