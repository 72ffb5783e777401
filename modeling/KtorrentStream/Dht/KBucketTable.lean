import KtorrentStream.Dht.KBucket
set_option autoImplicit true

namespace KtorrentStream.Dht
open KtorrentStream.Net

structure KBucketTable where
  ourId : Key
  buckets : List KBucket

namespace KBucketTable

def new (ourId : Key) : KBucketTable := ⟨ourId,[]⟩

-- The halves take the place of the bucket, and with it go its pings and the entries that wait.
def insertSplit (now calls : Nat) (entry : KBucketEntry) (b : KBucket) : List KBucket × Nat :=
  match b.split now calls with
  | none => ([b],calls)
  | some (left,right,calls) =>
    if left.keyInRange entry.nodeId then
      let (left,calls,_) := left.insert now calls entry
      ([left,right],calls)
    else
      let (right,calls,_) := right.insert now calls entry
      ([left,right],calls)

def insertBucket (now calls : Nat) (entry : KBucketEntry) (b : KBucket) : List KBucket × Nat :=
  let (b,calls,full) := b.insert now calls entry
  if full then insertSplit now calls entry b else ([b],calls)

-- findBucket: the first bucket that has the key in its range.
def insertFirst (now calls : Nat) (entry : KBucketEntry) : List KBucket → List KBucket × Nat
  | [] => ([],calls)
  | b :: rest =>
    if b.keyInRange entry.nodeId then
      let (new,calls) := insertBucket now calls entry b
      (new ++ rest,calls)
    else
      let (rest,calls) := insertFirst now calls entry rest
      (b :: rest,calls)

def insert (now : Nat) (t : KBucketTable) (calls : Nat) (entry : KBucketEntry) : KBucketTable × Nat :=
  let buckets := if t.buckets.isEmpty then [KBucket.new Key.min Key.max t.ourId] else t.buckets
  let (buckets,calls) := insertFirst now calls entry buckets
  ({t with buckets := buckets},calls)

def tellListener (c : Nat) (react : KBucket → KBucket × Nat) (calls : Nat) : List KBucket → List KBucket × Nat
  | [] => ([],calls)
  | b :: rest =>
    if b.busyPinging.any (·.call == c) then ((react b).1 :: rest,(react b).2)
    else
      let (rest,calls) := tellListener c react calls rest
      (b :: rest,calls)

def onResponse (now : Nat) (t : KBucketTable) (calls c : Nat) : KBucketTable × Nat :=
  let (buckets,calls) := tellListener c (·.onResponse now calls c) calls t.buckets
  ({t with buckets := buckets},calls)

def onTimeoutCall (now : Nat) (t : KBucketTable) (calls c : Nat) : KBucketTable × Nat :=
  let (buckets,calls) := tellListener c (·.onTimeoutCall now calls c) calls t.buckets
  ({t with buckets := buckets},calls)

def timeoutIn (addr : Address) : List KBucket → List KBucket
  | [] => []
  | b :: rest =>
    match b.onTimeout addr with
    | some b => b :: rest
    | none => b :: timeoutIn addr rest

def onTimeout (t : KBucketTable) (addr : Address) : KBucketTable := {t with buckets := timeoutIn addr t.buckets}

def step (now : Nat) (t : KBucketTable) (calls : Nat) : BucketEvent → KBucketTable × Nat
  | .insert entry => t.insert now calls entry
  | .onResponse c => t.onResponse now calls c
  | .onTimeoutCall c => t.onTimeoutCall now calls c
  | .onTimeout addr => (t.onTimeout addr,calls)
  | .otherCall => (t,calls + 1)

def run (t : KBucketTable) (calls : Nat) : List (Nat × BucketEvent) → KBucketTable × Nat
  | [] => (t,calls)
  | (now,event) :: rest => run (t.step now calls event).1 (t.step now calls event).2 rest

end KBucketTable

end KtorrentStream.Dht
