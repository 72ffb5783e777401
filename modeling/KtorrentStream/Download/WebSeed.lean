import KtorrentStream.Torrent.Files
set_option autoImplicit true

namespace KtorrentStream.Download
open Util Torrent

-- A torrent with web seeds. Without a file list there is the one file.
structure Seeded where
  files : Files
  multiFile : Bool
  single : multiFile = false → files.numFiles = 1

structure FileRange where
  file : Nat
  off : Nat
  len : Nat
  deriving DecidableEq

namespace WebSeed

-- What the rest of the program says during a call: the chunks that are on disk,
-- and those whose hash fits when they are reported.
structure Moment where
  onDisk : Nat → Bool
  verified : Nat → Bool

-- Bytes that arrived, and where they are kept: a chunk and an offset in it, or
-- nowhere. position is where the server has them in the torrent.
structure Arrival where
  position : Nat
  bytes : List UInt8
  place : Option (Nat × Nat)
  onDisk : Nat → Bool

end WebSeed

-- conn is the HttpConnection with the request it has, and the bytes of the reply
-- that arrived. Behind cache everything is kept for the properties only: the
-- resume point and the requests of this connection, the bytes that arrived, the
-- chunks that were completed with whether they were on disk, and those reported.
structure WebSeed where
  enabled : Bool
  firstChunk : Nat
  lastChunk : Nat
  curChunk : Nat
  bytesOfCurChunk : Nat
  current : Option Nat
  curPiece : Option Nat
  rangeQueue : List FileRange
  conn : Option (Option (FileRange × Nat))
  cache : PosCache
  resumed : Nat
  asked : List FileRange
  arrived : List WebSeed.Arrival
  completed : List (Nat × Bool)
  ready : List Nat

namespace WebSeed
variable (tor : Seeded)

-- The end of fillRangeList: a range in the file of the last one expands it.
def addRange (queue : List FileRange) (r : FileRange) : List FileRange :=
  match queue.getLast? with
  | none => [r]
  | some l => if l.file ≠ r.file then queue ++ [r] else queue.dropLast ++ [{l with len := l.len + r.len}]

def fillFiles (t : Files) (chunk count : Nat) : Nat → Nat → List Nat → List FileRange → List FileRange
  | _,_,[],queue => queue
  | i,passed,k :: rest,queue =>
    let r : FileRange := {
      file := k
      off := if i = 0 then t.fileOffset (t.file k) chunk else 0
      len :=
        if count = 1 then t.chunkLen chunk
        else if i = 0 then (t.file k).lastChunkSize
        else if i + 1 = count then t.chunkLen chunk - passed
        else t.size k}
    fillFiles t chunk count (i + 1) (passed + r.len) rest (addRange queue r)

def fillRangeList (chunk : Nat) (s : WebSeed) : WebSeed :=
  let (tflist,cache) := tor.files.calcChunkPos s.cache chunk
  {s with rangeQueue := fillFiles tor.files chunk tflist.length 0 0 tflist s.rangeQueue,cache := cache}

def fillRanges (s : WebSeed) : WebSeed :=
  (upTo s.firstChunk s.lastChunk).foldl (fun s chunk => fillRangeList tor chunk s) {s with rangeQueue := []}

def get (r : FileRange) (s : WebSeed) : WebSeed :=
  match s.conn with
  | some none => {s with conn := some (some (r,0)),asked := s.asked ++ [r]}
  | _ => s

def wholeLen (s : WebSeed) : Nat :=
  (s.lastChunk - s.firstChunk) * tor.files.chunkSize +
    if s.lastChunk + 1 = tor.files.numChunks then tor.files.totalSize - tor.files.chunkSize * (tor.files.numChunks - 1)
    else tor.files.chunkSize

-- The loop of continueCurChunk; length is a Uint32.
def skipRanges (bytes : Nat) : Nat → List FileRange → Option FileRange × List FileRange
  | _,[] => (none,[])
  | length,r :: queue => if length ≥ bytes then (some r,queue) else skipRanges bytes (uint32 (length + r.len)) queue

def chunkStarted (chunk : Nat) (s : WebSeed) : WebSeed := {s with current := some chunk}

def chunkStopped (s : WebSeed) : WebSeed := {s with current := none}

-- first_chunk = cur_chunk, and the resume point is kept.
def resumeRange (s : WebSeed) : WebSeed :=
  {s with
    firstChunk := s.curChunk,
    resumed := s.curChunk * tor.files.chunkSize + s.bytesOfCurChunk,
    asked := []}

def continueCurChunk (s : WebSeed) : WebSeed :=
  let s := s.resumeRange tor
  let s :=
    if tor.multiFile then
      let s := s.fillRanges tor
      match skipRanges s.bytesOfCurChunk 0 s.rangeQueue with
      | (some r,queue) => {s with rangeQueue := queue}.get r
      | (none,queue) => {s with rangeQueue := queue}
    else
      s.get ⟨0,s.firstChunk * tor.files.chunkSize + s.bytesOfCurChunk,s.wholeLen tor - s.bytesOfCurChunk⟩
  s.chunkStarted s.curChunk

def getNext (s : WebSeed) : WebSeed :=
  match s.rangeQueue with
  | [] => s
  | r :: queue => {s with rangeQueue := queue}.get r

def connectToServer (s : WebSeed) : WebSeed := if s.conn = none then {s with conn := some none} else s

def newRange (first last : Nat) (s : WebSeed) : WebSeed :=
  {s with
    curPiece := none,
    firstChunk := first,
    lastChunk := last,
    curChunk := first,
    bytesOfCurChunk := 0,
    resumed := first * tor.files.chunkSize,
    asked := []}

def download (first last : Nat) (s : WebSeed) : WebSeed :=
  if s.enabled then
    let s := s.connectToServer
    if first = s.curChunk ∧ last = s.lastChunk ∧ s.bytesOfCurChunk > 0 then s.continueCurChunk tor
    else
      let s := s.newRange tor first last
      if tor.multiFile then (s.fillRanges tor).getNext
      else s.get ⟨0,s.firstChunk * tor.files.chunkSize,s.wholeLen tor⟩
  else s

def noChunk : Nat := tor.files.numChunks + 1

def reset (s : WebSeed) : WebSeed :=
  {s.chunkStopped with conn := none,firstChunk := noChunk tor,lastChunk := noChunk tor}

-- One round of the loop of handleData over bytes of one chunk, and the end of the
-- chunk. chunkReady disables the web seed when the hash does not fit, and then
-- AutoDisabled is thrown: the first component says so.
def store (m : Moment) (position : Nat) (bytes : List UInt8) (s : WebSeed) : WebSeed :=
  let piece := if s.curPiece = some s.curChunk then s.curPiece else some s.curChunk
  let kept := !m.onDisk s.curChunk
  {s with
    curPiece := if kept then piece else s.curPiece,
    arrived := s.arrived ++ [⟨position,bytes,if kept then piece.map fun c => (c,s.bytesOfCurChunk) else none,m.onDisk⟩],
    bytesOfCurChunk := s.bytesOfCurChunk + bytes.length}

def chunkEnd (m : Moment) (s : WebSeed) : Bool × WebSeed :=
  let c := s.curChunk
  let s : WebSeed := {s with
    bytesOfCurChunk := 0,
    curChunk := c + 1,
    completed := s.completed ++ [(c,m.onDisk c)],
    ready := if m.onDisk c then s.ready else s.ready ++ [c]}
  if !m.onDisk c && !m.verified c then (true,{s with enabled := false}.reset tor)
  else if s.curChunk ≤ s.lastChunk then (false,{s.chunkStopped with curPiece := some s.curChunk}.chunkStarted s.curChunk)
  else (false,{s.chunkStopped with curPiece := none})

-- none is a crash on current, or a loop that does not end.
def handleData (m : Moment) : Nat → Nat → List UInt8 → WebSeed → Option (Bool × WebSeed)
  | 0,_,_,_ => none
  | fuel + 1,position,tmp,s =>
    if tmp ≠ [] ∧ s.curChunk ≤ s.lastChunk then
      let size := tor.files.chunkLen s.curChunk
      let bl := min (uint32Sub size s.bytesOfCurChunk) tmp.length
      let s := s.store m position (tmp.take bl)
      if s.current = none then none
      else if s.bytesOfCurChunk = size then
        match s.chunkEnd tor m with
        | (true,s) => some (true,s)
        | (false,s) => handleData m fuel (position + bl) (tmp.drop bl) s
      else handleData m fuel (position + bl) (tmp.drop bl) s
    else some (false,s)

-- getData: the bytes that arrived since the last call, and whether that was all.
def getData (bytes : List UInt8) (s : WebSeed) : Option (Nat × List UInt8 × WebSeed) :=
  match s.conn with
  | some (some (r,got)) =>
    let bytes := bytes.take (r.len - got)
    if bytes = [] then none
    else
      some (tor.files.start r.file + r.off + got,bytes,
        {s with conn := some (if r.len ≤ got + bytes.length then none else some (r,got + bytes.length))})
  | _ => none

def rangeDone (s : WebSeed) : WebSeed :=
  if s.curChunk > s.lastChunk then {s with firstChunk := noChunk tor,lastChunk := noChunk tor} else s

def startCurrent (s : WebSeed) : WebSeed := if s.current = none then s.chunkStarted s.curChunk else s

def readData (m : Moment) (bytes : List UInt8) (s : WebSeed) : Option (Bool × WebSeed) :=
  match s.getData tor bytes with
  | none => some (false,s.rangeDone tor)
  | some (position,tmp,s) =>
    if s.curChunk ≤ s.lastChunk then
      match handleData tor m (tmp.length + 1) position tmp s.startCurrent with
      | none => none
      | some (true,s) => some (true,s)
      | some (false,s) => some (false,s.rangeDone tor)
    else some (false,s.rangeDone tor)

inductive Connection
  | alive
  | closed
  | failed

-- A call of update: what the connection is, and the bytes that have arrived.
structure Step where
  bytes : List UInt8
  connection : Connection
  moment : Moment

def busy (s : WebSeed) : Bool := decide (s.firstChunk < tor.files.numChunks)

def proceed (s : WebSeed) : Connection → WebSeed
  | .alive => if s.rangeQueue ≠ [] ∧ s.conn = some none then s.getNext else s
  | .closed =>
    let s := {s with conn := none}.chunkStopped
    if s.lastChunk < tor.files.numChunks then s.download tor s.curChunk s.lastChunk else s
  | .failed => {s.chunkStopped with conn := none,firstChunk := noChunk tor,lastChunk := noChunk tor,curChunk := noChunk tor}

def update (s : WebSeed) (step : Step) : Option WebSeed :=
  if s.conn.isSome && s.busy tor then
    match s.readData tor step.moment step.bytes with
    | none => none
    | some (true,s) => some s
    | some (false,s) => some (s.proceed tor step.connection)
  else some s

def run (steps : List Step) (s : WebSeed) : Option WebSeed := steps.foldlM (update tor) s

end WebSeed

end KtorrentStream.Download
