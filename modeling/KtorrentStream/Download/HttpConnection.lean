import Mathlib.Data.List.Infix
set_option autoImplicit true

namespace KtorrentStream.Download

structure ResponseHeader where
  statusCode : Int
  contentLength : Option Int
  location : Option String
  reasonPhrase : String

structure HttpGet where
  start : Nat
  len : Nat
  dataReceived : Nat
  buffer : List UInt8
  pieceData : List UInt8
  responseHeaderReceived : Bool
  requestSent : Bool
  failureReason : String
  redirected : Bool
  redirectedTo : Option String
  contentLength : Nat
  responseCode : Int

namespace HttpGet

-- QByteArray::indexOf
def indexOf (text : List UInt8) : List UInt8 → Option Nat
  | [] => if text = [] then some 0 else none
  | c :: rest => if text <+: c :: rest then some 0 else (indexOf text rest).map (· + 1)

variable (parse : List UInt8 → ResponseHeader) (g : HttpGet)

-- request is the text of the QHttpRequestHeader.
def new (request : List UInt8) (start len : Nat) : HttpGet := ⟨start,len,0,request,[],false,false,"",false,none,0,0⟩

def finished : Bool := g.dataReceived ≥ g.len

def emptyLine : List UInt8 := [13,10,13,10]

def append (bytes : List UInt8) : HttpGet := {g with dataReceived := g.dataReceived + bytes.length,pieceData := g.pieceData ++ bytes}

-- The header is there up to its empty line, rest is what has arrived behind it.
def onHeader (hdr : ResponseHeader) (rest : List UInt8) : Bool × HttpGet :=
  let g := {g with
    responseHeaderReceived := true
    contentLength := match hdr.contentLength with
      | some length => (length % 18446744073709551616).toNat
      | none => 0
    responseCode := hdr.statusCode}
  if (hdr.statusCode ≥ 300 ∧ hdr.statusCode ≤ 303) ∨ hdr.statusCode = 307 then
    match hdr.location with
    | none => (false,{g with failureReason := "Redirected without a new location."})
    | some location =>
      let g := {g with redirected := true,redirectedTo := some location}
      (true,if rest.length > 0 then g.append rest else g)
  else if ¬ (hdr.statusCode = 200 ∨ hdr.statusCode = 206) then (false,{g with failureReason := hdr.reasonPhrase})
  else (true,if rest.length > 0 then g.append rest else g)

def onDataReady (buf : List UInt8) : Bool × HttpGet :=
  if !g.responseHeaderReceived then
    let buffer := g.buffer ++ buf
    match indexOf emptyLine buffer with
    | none => (true,{g with buffer := buffer})
    | some idx => {g with buffer := buffer}.onHeader (parse (buffer.take (idx + 4))) (buffer.drop (idx + 4))
  else (true,g.append buf)

end HttpGet

inductive HttpConnection.State where
  | idle
  | resolving
  | connecting
  | active
  | error
  | closed
  deriving DecidableEq

-- added is what was given to the socket, if there is one.
structure HttpConnection where
  added : Option (List UInt8)
  state : HttpConnection.State
  request : Option HttpGet
  closeWhenFinished : Bool
  redirected : Bool
  redirectedUrl : Option String
  responseCode : Int

namespace HttpConnection

variable (parse : List UInt8 → ResponseHeader) (c : HttpConnection)

def get (request : List UInt8) (start len : Nat) : Bool × HttpConnection :=
  if c.state = .error ∨ c.request.isSome then (false,c)
  else
    let g := HttpGet.new request start len
    match c.added with
    | none => (true,{c with request := some g})
    | some added => (true,{c with added := some (added ++ g.buffer),request := some {g with requestSent := true}})

def connectFinished (succeeded : Bool) : HttpConnection :=
  if c.state = .connecting then
    if succeeded then
      match c.request,c.added with
      | some g,some added =>
        if !g.requestSent then {c with state := .active,added := some (added ++ g.buffer),request := some {g with requestSent := true}}
        else {c with state := .active}
      | _,_ => {c with state := .active}
    else {c with state := .error}
  else c

def dataSent : HttpConnection :=
  match c.request with
  | some g => if c.state = .active then {c with request := some {g with buffer := []}} else c
  | none => c

def onDataReady (buf : List UInt8) : HttpConnection :=
  match c.request with
  | none => c
  | some g =>
    if c.state = .error then c
    else if buf.length = 0 then {c with state := .closed}
    else
      match g.onDataReady parse buf with
      | (false,g) => {c with state := .error,request := some g,responseCode := g.responseCode}
      | (true,g) => {c with request := some g}

-- The data that is filled in, if any.
def getData : Option (List UInt8) × HttpConnection :=
  match c.request with
  | none => (none,c)
  | some g =>
    if g.redirected then
      if g.dataReceived < g.contentLength then (none,c)
      else (none,{c with redirectedUrl := g.redirectedTo,redirected := true})
    else if g.pieceData.length = 0 then (none,c)
    else if g.finished then
      (some g.pieceData,{c with request := none,state := if c.closeWhenFinished then .closed else c.state})
    else (some g.pieceData,{c with request := some {g with pieceData := []}})

open HttpGet

-- A response: its header, in front of the first empty line, and its body.
structure Response where
  header : List UInt8
  body : List UInt8
  noEmptyLine : ∀ j < header.length, ¬ emptyLine <+: (header ++ emptyLine).drop j

def Response.bytes (r : Response) : List UInt8 := r.header ++ emptyLine ++ r.body

-- A request for len bytes of a file, from start on.
structure RangeRequest where
  file : List UInt8
  start : Nat
  len : Nat
  some_ : 0 < len
  inside : start + len ≤ file.length
  small : file.length < 2147483648

def RangeRequest.range (q : RangeRequest) : List UInt8 := (q.file.drop q.start).take q.len

-- What a server may answer.
inductive Conforms (parse : List UInt8 → ResponseHeader) (q : RangeRequest) (r : Response) : Prop
  | part (code : (parse (r.header ++ emptyLine)).statusCode = 206) (body : r.body = q.range)
  | whole (code : (parse (r.header ++ emptyLine)).statusCode = 200) (body : r.body = q.file)

-- The request is sent, at once or when the connection is there.
inductive Sent (text : List UInt8) (start len : Nat) : HttpConnection → Prop
  | active {c : HttpConnection} (active : c.state = .active) (ready : c.request = none) : Sent text start len (c.get text start len).2.dataSent
  | connecting {c : HttpConnection} (connecting : c.state = .connecting) (ready : c.request = none) :
      Sent text start len (((c.get text start len).2.connectFinished true).dataSent)

inductive HttpEvent where
  | data (buf : List UInt8)
  | getData

structure HttpRun where
  conn : HttpConnection
  out : List UInt8

namespace HttpRun

variable (parse : List UInt8 → ResponseHeader)

def step (s : HttpRun) : HttpEvent → HttpRun
  | .data buf => {s with conn := s.conn.onDataReady parse buf}
  | .getData =>
    match s.conn.getData with
    | (some data,c) => ⟨c,s.out ++ data⟩
    | (none,c) => ⟨c,s.out⟩

def run (s : HttpRun) (events : List HttpEvent) : HttpRun := events.foldl (step parse) s

end HttpRun

-- The bytes of the response that have arrived, and those of the body.
def arrived (events : List HttpEvent) : List UInt8 := events.flatMap fun
  | .data buf => buf
  | .getData => []

def bodyArrived (r : Response) (events : List HttpEvent) : List UInt8 := (arrived events).drop (r.header.length + 4)

-- All through a run what is returned is the beginning of the range, the request is there
-- until the whole range is returned, and what has arrived of the body is returned or waits;
-- one more call to getData ends the request.
structure Delivers (parse : List UInt8 → ResponseHeader) (q : RangeRequest) (r : Response) (s : HttpRun) (events : List HttpEvent) : Prop where
  ordered : ∀ pre, pre <+: events → (s.run parse pre).out <+: q.range
  removed : ∀ pre, pre <+: events → ((s.run parse pre).conn.request = none ↔ (s.run parse pre).out = q.range)
  kept : ∀ pre g, pre <+: events → (s.run parse pre).conn.request = some g → (s.run parse pre).out ++ g.pieceData = bodyArrived r pre
  ends : (s.run parse (events ++ [.getData])).conn.request = none ∧ (s.run parse (events ++ [.getData])).out = q.range

-- The first call to getData that finds at least len bytes of the body, behind pre.
structure FirstTake (r : Response) (len : Nat) (pre events : List HttpEvent) : Prop where
  call : pre ++ [.getData] <+: events
  enough : len ≤ (bodyArrived r pre).length
  before : ∀ earlier, earlier ++ [.getData] <+: pre → (bodyArrived r earlier).length < len

-- It finds exactly len bytes.
def Punctual (r : Response) (len : Nat) (events : List HttpEvent) : Prop :=
  ∀ pre, FirstTake r len pre (events ++ [.getData]) → (bodyArrived r pre).length = len

theorem indexOf_none {text l : List UInt8} (nowhere : ∀ i ≤ l.length, ¬ text <+: l.drop i) : indexOf text l = none := by
  induction l with
  | nil =>
    have other : text ≠ [] := fun empty => nowhere 0 (Nat.le_refl _) (by rw [empty]; exact List.nil_prefix)
    rw [indexOf,if_neg other]
  | cons c rest ih =>
    rw [indexOf,if_neg (show ¬ text <+: c :: rest from nowhere 0 (Nat.zero_le _)),ih (fun i inside => nowhere (i + 1) (Nat.succ_le_succ inside))]
    rfl

theorem indexOf_first {text l : List UInt8} (some_ : text ≠ []) (here : text <+: l.drop i) (before : ∀ j < i, ¬ text <+: l.drop j) :
    indexOf text l = some i := by
  induction l generalizing i with
  | nil =>
    rw [List.drop_nil] at here
    exact absurd (List.prefix_nil.mp here) some_
  | cons c rest ih =>
    cases i with
    | zero => rw [indexOf,if_pos (show text <+: c :: rest from here)]
    | succ i =>
      rw [indexOf,if_neg (show ¬ text <+: c :: rest from before 0 (Nat.succ_pos i)),ih here (fun j less => before (j + 1) (Nat.succ_lt_succ less))]
      rfl

variable {parse : List UInt8 → ResponseHeader} {q : RangeRequest} {r : Response} {a : List UInt8}

theorem early_line (prefix_ : a <+: r.bytes) (line : emptyLine <+: a.drop j) : r.header.length ≤ j := by
  refine Nat.le_of_not_lt fun less => r.noEmptyLine j less ?_
  have whole : emptyLine <+: (r.header ++ emptyLine).drop j ++ r.body := by
    have upTo := line.trans (prefix_.drop j)
    rwa [Response.bytes,List.drop_append_of_le_length (by rw [List.length_append]; omega)] at upTo
  refine List.prefix_of_prefix_length_le whole (List.prefix_append _ _) ?_
  rw [List.length_drop,List.length_append]
  omega

theorem line_early (prefix_ : a <+: r.bytes) (short : a.length < r.header.length + 4) : indexOf emptyLine a = none := by
  refine indexOf_none fun i _ line => ?_
  have late := early_line prefix_ line
  have fits := line.length_le
  rw [List.length_drop,show emptyLine.length = 4 from rfl] at fits
  omega

theorem line_found (prefix_ : a <+: r.bytes) (long : r.header.length + 4 ≤ a.length) :
    indexOf emptyLine a = some r.header.length ∧ a.take (r.header.length + 4) = r.header ++ emptyLine := by
  have four : (r.header ++ emptyLine).length = r.header.length + 4 := List.length_append
  have front : r.header ++ emptyLine <+: a := by
    refine List.prefix_of_prefix_length_le (List.prefix_append _ r.body) prefix_ ?_
    rw [four]
    exact long
  obtain ⟨rest,rfl⟩ := front
  refine ⟨indexOf_first (by decide) ?_ fun j less line => absurd (early_line prefix_ line) (Nat.not_le.mpr less),?_⟩
  · rw [List.append_assoc,List.drop_left]
    exact List.prefix_append _ _
  · rw [← four,List.take_left]

variable {len : Nat} {events pre : List HttpEvent} {s : HttpRun}

theorem arrived_append (events more : List HttpEvent) : arrived (events ++ more) = arrived events ++ arrived more := List.flatMap_append

theorem arrived_data (events : List HttpEvent) (buf : List UInt8) : arrived (events ++ [.data buf]) = arrived events ++ buf := by
  rw [arrived_append]
  exact congrArg (arrived events ++ ·) (List.append_nil buf)

theorem arrived_getData (events : List HttpEvent) : arrived (events ++ [.getData]) = arrived events := by
  rw [arrived_append]
  exact List.append_nil _

theorem bodyArrived_more (all : arrived events <+: r.bytes) : bodyArrived r events <+: r.body := by
  have four : (r.header ++ emptyLine).length = r.header.length + 4 := List.length_append
  have behind := all.drop (r.header.length + 4)
  rwa [Response.bytes,← four,List.drop_left,four] at behind

-- Every call to getData so far found fewer than len bytes of the body.
def NoTake (r : Response) (len : Nat) (events : List HttpEvent) : Prop :=
  ∀ pre, pre ++ [.getData] <+: events → (bodyArrived r pre).length < len

theorem prefix_snoc {x y : HttpEvent} (before : pre ++ [x] <+: events ++ [y]) : pre ++ [x] <+: events ∨ pre = events ∧ x = y := by
  rcases List.prefix_concat_iff.mp before with same | inside
  · exact .inr (List.append_inj' same rfl |>.imp id fun last => List.head_eq_of_cons_eq last)
  · exact .inl inside

theorem NoTake.data (none_ : NoTake r len events) (buf : List UInt8) : NoTake r len (events ++ [.data buf]) := by
  intro pre call
  rcases prefix_snoc call with inside | ⟨_,other⟩
  · exact none_ pre inside
  · cases other

theorem NoTake.getData (none_ : NoTake r len events) (few : (bodyArrived r events).length < len) : NoTake r len (events ++ [.getData]) := by
  intro pre call
  rcases prefix_snoc call with inside | ⟨rfl,_⟩
  · exact none_ pre inside
  · exact few

inductive Progress (r : Response) (len : Nat) (events : List HttpEvent) (s : HttpRun) : Prop
  | header {g : HttpGet} (request : s.conn.request = some g) (state : s.conn.state ≠ .error) (none_ : NoTake r len events)
      (size : g.len = len) (direct : g.redirected = false) (short : (arrived events).length < r.header.length + 4)
      (waits : g.responseHeaderReceived = false) (buffer : g.buffer = arrived events) (received : g.dataReceived = 0)
      (data : g.pieceData = []) (out : s.out = [])
  | body {g : HttpGet} (request : s.conn.request = some g) (state : s.conn.state ≠ .error) (none_ : NoTake r len events)
      (size : g.len = len) (direct : g.redirected = false) (long : r.header.length + 4 ≤ (arrived events).length)
      (header : g.responseHeaderReceived = true) (received : g.dataReceived = (bodyArrived r events).length)
      (data : s.out ++ g.pieceData = bodyArrived r events) (few : s.out.length < len)
  | done {pre : List HttpEvent} (request : s.conn.request = none) (take : FirstTake r len pre events) (out : s.out = bodyArrived r pre)

theorem append_any (g : HttpGet) (rest : List UInt8) : (if rest.length > 0 then g.append rest else g) = g.append rest := by
  cases rest with
  | nil =>
    unfold HttpGet.append
    rw [if_neg (by decide),List.append_nil]
    rfl
  | cons b rest => exact if_pos (Nat.succ_pos _)

theorem onHeader_success (g : HttpGet) {hdr : ResponseHeader} (code : hdr.statusCode = 206 ∨ hdr.statusCode = 200) (rest : List UInt8) :
    ∃ length, g.onHeader hdr rest =
      (true,{g with responseHeaderReceived := true,contentLength := length,responseCode := hdr.statusCode}.append rest) := by
  unfold HttpGet.onHeader
  dsimp only
  rw [if_neg (by omega),if_neg (by omega),append_any]
  exact ⟨_,rfl⟩

theorem step_empty (parse : List UInt8 → ResponseHeader) {g : HttpGet} (request : s.conn.request = some g) (state : s.conn.state ≠ .error) :
    s.step parse (.data []) = {s with conn := {s.conn with state := .closed}} := by
  unfold HttpRun.step HttpConnection.onDataReady
  rw [request]
  dsimp only
  rw [if_neg state,if_pos (show ([] : List UInt8).length = 0 from rfl),← request]

theorem step_data {g g' : HttpGet} (request : s.conn.request = some g) (state : s.conn.state ≠ .error) (some_ : buf ≠ [])
    (ready : g.onDataReady parse buf = (true,g')) : s.step parse (.data buf) = {s with conn := {s.conn with request := some g'}} := by
  unfold HttpRun.step HttpConnection.onDataReady
  rw [request]
  dsimp only
  rw [if_neg state,if_neg (fun zero => some_ (List.length_eq_zero_iff.mp zero)),ready]

theorem step_gone (parse : List UInt8 → ResponseHeader) (request : s.conn.request = none) (e : HttpEvent) : s.step parse e = s := by
  cases e with
  | data buf =>
    unfold HttpRun.step HttpConnection.onDataReady
    rw [request]
  | getData =>
    unfold HttpRun.step HttpConnection.getData
    rw [request]

theorem FirstTake.onward (take : FirstTake r len pre events) (more : List HttpEvent) : FirstTake r len pre (events ++ more) :=
  ⟨take.call.trans (List.prefix_append _ _),take.enough,take.before⟩

-- A request that has ended stays so.
theorem Progress.onGone {pre : List HttpEvent} (parse : List UInt8 → ResponseHeader) (request : s.conn.request = none)
    (take : FirstTake r len pre events) (out : s.out = bodyArrived r pre) (e : HttpEvent) :
    Progress r len (events ++ [e]) (s.step parse e) := by
  rw [step_gone parse request]
  exact .done request (take.onward [e]) out

theorem Progress.onNothing (progress : Progress r len events s) (parse : List UInt8 → ResponseHeader) :
    Progress r len (events ++ [.data []]) (s.step parse (.data [])) := by
  have same : arrived (events ++ [.data []]) = arrived events := by rw [arrived_data,List.append_nil]
  have body : bodyArrived r (events ++ [.data []]) = bodyArrived r events := by rw [bodyArrived,same,bodyArrived]
  cases progress with
  | header request state none_ size direct short waits buffer received data out =>
    rw [step_empty parse request state]
    exact .header request (fun closed => nomatch closed) (none_.data []) size direct (same ▸ short) waits (same ▸ buffer) received data out
  | body request state none_ size direct long header received data few =>
    rw [step_empty parse request state]
    exact .body request (fun closed => nomatch closed) (none_.data []) size direct (same ▸ long) header (body ▸ received) (body ▸ data) few
  | done request take out => exact .onGone parse request take out _

theorem Progress.onData (progress : Progress r len events s) (some_ : 0 < len) (buf : List UInt8)
    (code : (parse (r.header ++ emptyLine)).statusCode = 206 ∨ (parse (r.header ++ emptyLine)).statusCode = 200)
    (all : arrived (events ++ [.data buf]) <+: r.bytes) : Progress r len (events ++ [.data buf]) (s.step parse (.data buf)) := by
  by_cases empty : buf = []
  · rw [empty]
    exact progress.onNothing parse
  have more := arrived_data events buf
  cases progress with
  | @header g request state none_ size direct short waits buffer received data out =>
    have buffered : g.buffer ++ buf = arrived (events ++ [.data buf]) := by rw [buffer,more]
    by_cases still : (arrived (events ++ [.data buf])).length < r.header.length + 4
    · -- The empty line is not there yet.
      have ready : g.onDataReady parse buf = (true,{g with buffer := arrived (events ++ [.data buf])}) := by
        unfold HttpGet.onDataReady
        dsimp only
        rw [waits,buffered,line_early all still]
        rfl
      rw [step_data request state empty ready]
      exact .header rfl state (none_.data buf) size direct still waits rfl received data out
    · have found := line_found all (Nat.le_of_not_lt still)
      have behind : (arrived (events ++ [.data buf])).drop (r.header.length + 4) = bodyArrived r (events ++ [.data buf]) := rfl
      obtain ⟨length,header⟩ := onHeader_success {g with buffer := arrived (events ++ [.data buf])} code (bodyArrived r (events ++ [.data buf]))
      have ready : g.onDataReady parse buf = (true,{g with
          buffer := arrived (events ++ [HttpEvent.data buf])
          responseHeaderReceived := true
          contentLength := length
          responseCode := (parse (r.header ++ emptyLine)).statusCode}.append (bodyArrived r (events ++ [HttpEvent.data buf]))) := by
        unfold HttpGet.onDataReady
        dsimp only
        rw [if_pos (show (!g.responseHeaderReceived) = true by rw [waits]; rfl),buffered,found.1]
        dsimp only
        rw [found.2,behind,header]
      rw [step_data request state empty ready]
      refine .body rfl state (none_.data buf) size direct (Nat.le_of_not_lt still) rfl ?_ ?_ ?_
      · show g.dataReceived + _ = _
        rw [received,Nat.zero_add]
      · show s.out ++ (g.pieceData ++ _) = _
        rw [out,data]
        rfl
      · rw [out]
        exact some_
  | @body g request state none_ size direct long header received data few =>
    have ready : g.onDataReady parse buf = (true,g.append buf) := by
      unfold HttpGet.onDataReady
      rw [header]
      rfl
    have longer : bodyArrived r (events ++ [.data buf]) = bodyArrived r events ++ buf := by
      rw [bodyArrived,more,List.drop_append_of_le_length long]
      rfl
    rw [step_data request state empty ready]
    refine .body rfl state (none_.data buf) size direct ?_ header ?_ ?_ few
    · rw [more,List.length_append]
      omega
    · show g.dataReceived + buf.length = _
      rw [longer,List.length_append,received]
    · show s.out ++ (g.pieceData ++ buf) = _
      rw [longer,← data,List.append_assoc]
  | done request take out => exact .onGone parse request take out _

-- What a call to getData does for a request that is not redirected: there is nothing to
-- return, or it is the end of the request, or there is more to come.
theorem step_nothing {g : HttpGet} (parse : List UInt8 → ResponseHeader) (request : s.conn.request = some g) (direct : g.redirected = false)
    (empty : g.pieceData.length = 0) : s.step parse .getData = s := by
  unfold HttpRun.step HttpConnection.getData
  rw [request]
  dsimp only
  rw [direct,if_neg (by decide),if_pos empty]

theorem step_last {g : HttpGet} (parse : List UInt8 → ResponseHeader) (request : s.conn.request = some g) (direct : g.redirected = false)
    (some_ : g.pieceData.length ≠ 0) (all : g.len ≤ g.dataReceived) : s.step parse .getData =
      ⟨{s.conn with request := none,state := if s.conn.closeWhenFinished then .closed else s.conn.state},s.out ++ g.pieceData⟩ := by
  have finished : g.finished = true := decide_eq_true all
  unfold HttpRun.step HttpConnection.getData
  rw [request]
  dsimp only
  rw [direct,if_neg (by decide),if_neg some_,if_pos finished]

theorem step_next {g : HttpGet} (parse : List UInt8 → ResponseHeader) (request : s.conn.request = some g) (direct : g.redirected = false)
    (some_ : g.pieceData.length ≠ 0) (more : g.dataReceived < g.len) :
    s.step parse .getData = ⟨{s.conn with request := some {g with pieceData := []}},s.out ++ g.pieceData⟩ := by
  have unfinished : ¬ g.finished = true := fun all => Nat.not_le.mpr more (of_decide_eq_true all)
  unfold HttpRun.step HttpConnection.getData
  rw [request]
  dsimp only
  rw [direct,if_neg (by decide),if_neg some_,if_neg unfinished]

theorem Progress.onGetData (progress : Progress r len events s) (some_ : 0 < len) (parse : List UInt8 → ResponseHeader) :
    Progress r len (events ++ [.getData]) (s.step parse .getData) := by
  have same := arrived_getData events
  have body : bodyArrived r (events ++ [.getData]) = bodyArrived r events := by rw [bodyArrived,same,bodyArrived]
  cases progress with
  | @header g request state none_ size direct short waits buffer received data out =>
    have few : (bodyArrived r events).length < len := by
      rw [bodyArrived,List.length_drop]
      omega
    rw [step_nothing parse request direct (by rw [data]; rfl)]
    exact .header request state (none_.getData few) size direct (same ▸ short) waits (same ▸ buffer) received data out
  | @body g request state none_ size direct long header received data few =>
    have lengths := congrArg List.length data
    rw [List.length_append] at lengths
    by_cases empty : g.pieceData.length = 0
    · rw [step_nothing parse request direct empty]
      exact .body request state (none_.getData (by omega)) size direct (same ▸ long) header (body ▸ received) (body ▸ data) few
    · by_cases finished : len ≤ (bodyArrived r events).length
      · rw [step_last parse request direct empty (by rwa [size,received])]
        exact .done rfl ⟨List.prefix_refl _,finished,none_⟩ data
      · have more := Nat.lt_of_not_le finished
        rw [step_next parse request direct empty (by rwa [size,received])]
        refine .body rfl state (none_.getData more) size direct (same ▸ long) header (body ▸ received) ?_ ?_
        · rw [body,← data]
          exact List.append_nil _
        · rw [data]
          exact more
  | done request take out => exact .onGone parse request take out _

theorem Conforms.code (conforms : Conforms parse q r) :
    (parse (r.header ++ emptyLine)).statusCode = 206 ∨ (parse (r.header ++ emptyLine)).statusCode = 200 := by
  cases conforms with
  | part code body => exact .inl code
  | whole code body => exact .inr code

theorem Sent.progress {text : List UInt8} {start : Nat} {c : HttpConnection} (sent : Sent text start len c) (r : Response) : Progress r len [] ⟨c,[]⟩ := by
  have none_ : NoTake r len [] := fun pre call => by
    have some_ := call.length_le
    rw [List.length_append] at some_
    cases some_
  have short : (arrived []).length < r.header.length + 4 := Nat.succ_pos _
  cases sent with
  | @active c active ready =>
    unfold HttpConnection.get
    rw [if_neg (by rw [active,ready]; decide)]
    cases added : c.added with
    | none =>
      unfold HttpConnection.dataSent
      dsimp only
      rw [if_pos active]
      exact .header rfl (fun error => by cases active.symm.trans error) none_ rfl rfl short rfl rfl rfl rfl rfl
    | some added =>
      unfold HttpConnection.dataSent
      dsimp only
      rw [if_pos active]
      exact .header rfl (fun error => by cases active.symm.trans error) none_ rfl rfl short rfl rfl rfl rfl rfl
  | @connecting c connecting ready =>
    unfold HttpConnection.get
    rw [if_neg (by rw [connecting,ready]; decide)]
    cases added : c.added with
    | none =>
      unfold HttpConnection.connectFinished
      dsimp only
      rw [if_pos connecting]
      exact .header rfl (fun error => nomatch error) none_ rfl rfl short rfl rfl rfl rfl rfl
    | some added =>
      unfold HttpConnection.connectFinished
      dsimp only
      rw [if_pos connecting]
      exact .header rfl (fun error => nomatch error) none_ rfl rfl short rfl rfl rfl rfl rfl

theorem run_snoc (parse : List UInt8 → ResponseHeader) (s : HttpRun) (events : List HttpEvent) (e : HttpEvent) :
    s.run parse (events ++ [e]) = (s.run parse events).step parse e := by
  unfold HttpRun.run
  rw [List.foldl_append]
  rfl

-- By induction on the events, one at the end.
theorem Progress.run (begins : Progress r len [] s) (some_ : 0 < len)
    (code : (parse (r.header ++ emptyLine)).statusCode = 206 ∨ (parse (r.header ++ emptyLine)).statusCode = 200)
    (all : arrived events <+: r.bytes) : Progress r len events (s.run parse events) := by
  induction events using List.reverseRecOn with
  | nil => exact begins
  | append_singleton events e ih =>
    have before : arrived events <+: r.bytes := by
      rw [arrived_append] at all
      exact (List.prefix_append _ _).trans all
    rw [run_snoc]
    cases e with
    | data buf => exact (ih before).onData some_ buf code all
    | getData => exact (ih before).onGetData some_ parse

theorem range_length (q : RangeRequest) : q.range.length = q.len := by
  have inside := q.inside
  rw [RangeRequest.range,List.length_take,List.length_drop]
  omega

theorem arrived_of_more (before : pre <+: events) (cut : arrived events = r.bytes) : arrived pre <+: r.bytes := by
  obtain ⟨more,rfl⟩ := before
  rw [← cut,arrived_append]
  exact List.prefix_append _ _

theorem bodyArrived_all (cut : arrived events = r.bytes) : bodyArrived r events = r.body := by
  have four : (r.header ++ emptyLine).length = r.header.length + 4 := List.length_append
  rw [bodyArrived,cut,Response.bytes,← four,List.drop_left]

-- Where the request is gone, the first call that found enough has ended it.
theorem Progress.taken (progress : Progress r len (pre ++ [.getData]) s) (enough : len ≤ (bodyArrived r pre).length)
    (before : ∀ earlier, earlier ++ [.getData] <+: pre → (bodyArrived r earlier).length < len) :
    s.conn.request = none ∧ s.out = bodyArrived r pre := by
  cases progress with
  | header request state none_ => exact absurd (none_ pre (List.prefix_refl _)) (Nat.not_lt.mpr enough)
  | body request state none_ => exact absurd (none_ pre (List.prefix_refl _)) (Nat.not_lt.mpr enough)
  | @done first request take out =>
    rcases prefix_snoc take.call with inside | ⟨rfl,_⟩
    · exact absurd (before first inside) (Nat.not_lt.mpr take.enough)
    · exact ⟨request,out⟩

-- After one more call, when everything has arrived, the request is gone.
theorem Progress.complete (progress : Progress r len (events ++ [.getData]) s) (cut : arrived events = r.bytes) (enough : len ≤ r.body.length) :
    ∃ pre, FirstTake r len pre (events ++ [.getData]) ∧ s.conn.request = none ∧ s.out = bodyArrived r pre := by
  have whole : len ≤ (bodyArrived r events).length := by
    rw [bodyArrived_all cut]
    exact enough
  cases progress with
  | header request state none_ => exact absurd (none_ events (List.prefix_refl _)) (Nat.not_lt.mpr whole)
  | body request state none_ => exact absurd (none_ events (List.prefix_refl _)) (Nat.not_lt.mpr whole)
  | done request take out => exact ⟨_,take,request,out⟩

theorem take_of_prefix {bytes : List UInt8} (before : bytes <+: r.body) (length : bytes.length = len) : bytes = r.body.take len := by
  rw [← length]
  exact List.prefix_iff_eq_take.mp before

theorem FirstTake.front (take : FirstTake r len pre (events ++ [.getData])) : pre <+: events := by
  rcases prefix_snoc take.call with inside | ⟨rfl,_⟩
  · exact (List.prefix_append _ _).trans inside
  · exact List.prefix_refl _

section Returned

variable {range : List UInt8} (progress : Progress r len events s) (same : r.body.take len = range)
  (whole : ∀ pre, FirstTake r len pre events → bodyArrived r pre = range)

include progress same whole in
theorem Progress.ordered (body : bodyArrived r events <+: r.body) : s.out <+: range := by
  cases progress with
  | header request state none_ size direct short waits buffer received data out =>
    rw [out]
    exact List.nil_prefix
  | body request state none_ size direct long header received data few =>
    rw [← same,List.prefix_take_iff]
    refine ⟨List.IsPrefix.trans ?_ body,Nat.le_of_lt few⟩
    rw [← data]
    exact List.prefix_append _ _
  | done request take out =>
    rw [out,whole _ take]

include progress whole in
theorem Progress.removed (some_ : 0 < len) (length : range.length = len) : s.conn.request = none ↔ s.out = range := by
  cases progress with
  | header request state none_ size direct short waits buffer received data out =>
    refine ⟨fun gone => (nomatch request.symm.trans gone),fun all => ?_⟩
    rw [← all,out] at length
    exact absurd length (Nat.ne_of_lt some_)
  | body request state none_ size direct long header received data few =>
    refine ⟨fun gone => (nomatch request.symm.trans gone),fun all => ?_⟩
    rw [all,length] at few
    exact absurd few (Nat.lt_irrefl _)
  | done request take out => exact ⟨fun _ => out.trans (whole _ take),fun _ => request⟩

end Returned

theorem Progress.kept {g : HttpGet} (progress : Progress r len events s) (request : s.conn.request = some g) :
    s.out ++ g.pieceData = bodyArrived r events := by
  cases progress with
  | header request' state none_ size direct short waits buffer received data out =>
    cases request'.symm.trans request
    rw [out,data,bodyArrived,List.drop_eq_nil_of_le (Nat.le_of_lt short)]
    rfl
  | body request' state none_ size direct long header received data few =>
    cases request'.symm.trans request
    exact data
  | done gone take out => cases gone.symm.trans request

theorem delivers_iff_punctual (begins : Progress r q.len [] s) (conforms : Conforms parse q r) (cut : arrived events = r.bytes)
    (enough : q.len ≤ r.body.length) : Delivers parse q r s events ↔ r.body.take q.len = q.range ∧ Punctual r q.len events := by
  have progress (pre : List HttpEvent) (before : pre <+: events) : Progress r q.len pre (s.run parse pre) :=
    begins.run q.some_ conforms.code (arrived_of_more before cut)
  have last : Progress r q.len (events ++ [.getData]) (s.run parse (events ++ [.getData])) := by
    rw [run_snoc]
    exact (progress events (List.prefix_refl _)).onGetData q.some_ parse
  have body (pre : List HttpEvent) (before : pre <+: events) : bodyArrived r pre <+: r.body := bodyArrived_more (arrived_of_more before cut)
  constructor
  · intro delivers
    have punctual : Punctual r q.len events := by
      intro pre take
      have returned : (s.run parse (pre ++ [.getData])).out = bodyArrived r pre ∧ (s.run parse (pre ++ [.getData])).out = q.range := by
        rcases prefix_snoc take.call with inside | ⟨rfl,_⟩
        · obtain ⟨gone,out⟩ := (progress _ inside).taken take.enough take.before
          exact ⟨out,(delivers.removed _ inside).mp gone⟩
        · exact ⟨(last.taken take.enough take.before).2,delivers.ends.2⟩
      rw [← returned.1,returned.2,range_length]
    obtain ⟨pre,take,_,out⟩ := last.complete cut enough
    refine ⟨?_,punctual⟩
    rw [← take_of_prefix (body pre take.front) (punctual pre take),← out]
    exact delivers.ends.2
  · rintro ⟨same,punctual⟩
    have whole {pre : List HttpEvent} (take : FirstTake r q.len pre (events ++ [.getData])) : bodyArrived r pre = q.range := by
      rw [← same]
      exact take_of_prefix (body pre take.front) (punctual pre take)
    have ends {later : List HttpEvent} (before : later <+: events) (pre : List HttpEvent) (take : FirstTake r q.len pre later) :
        bodyArrived r pre = q.range := by
      obtain ⟨more,rfl⟩ := before
      refine whole ?_
      rw [List.append_assoc]
      exact take.onward _
    refine ⟨fun pre before => ?_,fun pre before => ?_,fun pre g before request => ?_,?_⟩
    · exact (progress pre before).ordered same (ends before) (body pre before)
    · exact (progress pre before).removed (ends before) q.some_ (range_length q)
    · exact (progress pre before).kept request
    · obtain ⟨pre,take,gone,out⟩ := last.complete cut enough
      exact ⟨gone,out.trans (whole take)⟩

theorem bodyArrived_le (before : pre <+: events) (cut : arrived events = r.bytes) : (bodyArrived r pre).length ≤ r.body.length :=
  (bodyArrived_more (arrived_of_more before cut)).length_le

-- A body that is the range is never more than that.
theorem punctual_of_length (cut : arrived events = r.bytes) (length : r.body.length = len) : Punctual r len events := by
  intro pre take
  have few := bodyArrived_le take.front cut
  have enough := take.enough
  omega

theorem body_enough (conforms : Conforms parse q r) : q.len ≤ r.body.length := by
  have inside := q.inside
  cases conforms with
  | part code body => rw [body,range_length]
  | whole code body =>
    rw [body]
    omega

theorem at_once (r : Response) : arrived [.data r.bytes] = r.bytes := List.append_nil _

theorem at_once_take (enough : len ≤ r.body.length) : FirstTake r len [.data r.bytes] ([.data r.bytes] ++ [.getData]) := by
  refine ⟨List.prefix_refl _,?_,fun earlier call => ?_⟩
  · rw [bodyArrived_all (at_once r)]
    exact enough
  · rcases prefix_snoc (List.nil_append [HttpEvent.data r.bytes] ▸ call : earlier ++ [.getData] <+: [] ++ [.data r.bytes]) with inside | ⟨_,other⟩
    · have length := inside.length_le
      rw [List.length_append] at length
      cases length
    · cases other

-- A request is answered with exactly its range when the server sends this range. When it
-- sends the whole file, the range has to be its beginning, and getData must be called
-- when exactly this much has come.
theorem web_seed_delivers_iff {text : List UInt8} {c : HttpConnection} (sent : Sent text q.start q.len c) (conforms : Conforms parse q r) :
    (∀ events, arrived events = r.bytes → (Delivers parse q r ⟨c,[]⟩ events ↔
      (parse (r.header ++ emptyLine)).statusCode = 206 ∨ q.file.take q.len = q.range ∧ Punctual r q.len events)) ∧
      ((∀ events, arrived events = r.bytes → Delivers parse q r ⟨c,[]⟩ events) ↔
        (parse (r.header ++ emptyLine)).statusCode = 206 ∨ q.len = q.file.length) := by
  have enough := body_enough conforms
  have each {events : List HttpEvent} (cut : arrived events = r.bytes) :=
    delivers_iff_punctual (sent.progress r) conforms cut enough
  cases conforms with
  | part code body =>
    have length : r.body.length = q.len := by rw [body,range_length]
    have always {events : List HttpEvent} (cut : arrived events = r.bytes) : Delivers parse q r ⟨c,[]⟩ events := by
      refine (each cut).mpr ⟨?_,punctual_of_length cut length⟩
      rw [← length,List.take_length,body]
    exact ⟨fun events cut => ⟨fun _ => .inl code,fun _ => always cut⟩,⟨fun _ => .inl code,fun _ events cut => always cut⟩⟩
  | whole code body =>
    have other : (parse (r.header ++ emptyLine)).statusCode ≠ 206 := by
      rw [code]
      decide
    refine ⟨fun events cut => ?_,?_⟩
    · rw [each cut,body]
      exact ⟨.inr,fun either => either.resolve_left other⟩
    · constructor
      · intro always
        have punctual := ((each (at_once r)).mp (always _ (at_once r))).2 _ (at_once_take enough)
        rw [bodyArrived_all (at_once r),body] at punctual
        exact .inr punctual.symm
      · intro either events cut
        have length := either.resolve_left other
        have inside := q.inside
        refine (each cut).mpr ⟨?_,punctual_of_length cut (by rw [body,length])⟩
        rw [body,RangeRequest.range,show q.start = 0 by omega]
        rfl

-- Two bytes of a file of three, from the second one on or from the first one on.
def lastTwo : RangeRequest := ⟨[1,2,3],1,2,by decide,by decide,by decide⟩

def firstTwo : RangeRequest := ⟨[1,2,3],0,2,by decide,by decide,by decide⟩

-- A header of one line, HTTP/1.1 206 P or HTTP/1.1 200 O.
def partHeader : List UInt8 := [72,84,84,80,47,49,46,49,32,50,48,54,32,80]

def wholeHeader : List UInt8 := [72,84,84,80,47,49,46,49,32,50,48,48,32,79]

def statusLine (text : List UInt8) : ResponseHeader :=
  if text.getD 11 0 = 54 then ⟨206,none,none,"P"⟩ else ⟨200,none,none,"O"⟩

def partResponse : Response := ⟨partHeader,[2,3],by decide⟩

def wholeResponse : Response := ⟨wholeHeader,[1,2,3],by decide⟩

def connection : HttpConnection := ⟨some [],.active,none,false,false,none,0⟩

def asking (q : RangeRequest) : HttpConnection := (connection.get [71] q.start q.len).2.dataSent

theorem part_delivered : Delivers statusLine lastTwo partResponse ⟨asking lastTwo,[]⟩ [.data partResponse.bytes] :=
  (web_seed_delivers_iff (q := lastTwo) (c := asking lastTwo) (.active rfl rfl) (.part (by decide) rfl)).2.mpr (.inl (by decide))
    [.data partResponse.bytes] (List.append_nil partResponse.bytes)

-- The bytes in front of the range, or those behind it, are returned too.
theorem whole_file_returned :
    ¬ Delivers statusLine lastTwo wholeResponse ⟨asking lastTwo,[]⟩ [.data wholeResponse.bytes] ∧
      ¬ Delivers statusLine firstTwo wholeResponse ⟨asking firstTwo,[]⟩ [.data wholeResponse.bytes] :=
  ⟨fun delivers => absurd delivers.ends.2 (by decide),fun delivers => absurd delivers.ends.2 (by decide)⟩

end HttpConnection

end KtorrentStream.Download
