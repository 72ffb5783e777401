import Mathlib.Data.List.Sort
set_option autoImplicit true
set_option linter.dupNamespace false

namespace KtorrentStream.Tracker

-- What is used of a KUrl: the order in a map, and the protocol.
class KUrl (Url : Type) extends LinearOrder Url where
  protocol : Url → String

inductive TrackerKind
  | udp
  | http
  deriving DecidableEq

def TrackerKind.ofProtocol (protocol : String) : Option TrackerKind :=
  if protocol = "udp" then some .udp
  else if protocol = "http" ∨ protocol = "https" then some .http
  else none

-- What answers, failures and timers change in a tracker. connected: connection_id is not zero.
structure Contact where
  failures : Nat
  started : Bool
  interval : Nat
  resolved : Bool
  connected : Bool

-- An object that the manager has a pointer to: its address.
structure Tracker (Url : Type) where
  address : Nat
  url : Url
  kind : TrackerKind
  tier : Int
  enabled : Bool
  contact : Contact

namespace Tracker

variable {Url : Type}

def new (address : Nat) (url : Url) (kind : TrackerKind) (tier : Int) : Tracker Url :=
  ⟨address,url,kind,tier,true,0,false,if kind = .udp then 0 else 5 * 60,false,false⟩

def failureCount (t : Tracker Url) : Nat := t.contact.failures

def setInterval (t : Tracker Url) (i : Nat) : Tracker Url := {t with contact.interval := i}

-- A UDPTracker without a connection makes one, and forgets its failures.
def doRequest (t : Tracker Url) : Tracker Url :=
  match t.kind with
  | .udp => if t.contact.resolved ∧ !t.contact.connected then {t with contact.failures := 0} else t
  | .http => t

def start (t : Tracker Url) : Tracker Url := t.doRequest

def stop (t : Tracker Url) : Tracker Url :=
  if t.contact.started then {t.doRequest with contact.started := false} else t

def reset (t : Tracker Url) : Tracker Url := t.setInterval (5 * 60 * 1000)

def handleFailure (t : Tracker Url) : Tracker Url :=
  if t.failureCount > 5 then t.setInterval 1800
  else if t.failureCount > 2 then t.setInterval 300
  else t.setInterval 30

def setEnabled (on : Bool) (t : Tracker Url) : Tracker Url := {t with enabled := on}

def contacted (contact : Contact) (t : Tracker Url) : Tracker Url := {t with contact := contact}

end Tracker

-- The map of the trackers, in the order of their urls, owns them. leaving: those that were
-- taken out of the map and wait for their timed delete.
structure TrackerManager (Url : Type) where
  priv : Bool
  trackers : List (Tracker Url)
  leaving : List (Tracker Url)
  curr : Option Nat
  customTrackers : List Url
  started : Bool
  allocated : Nat

namespace TrackerManager

variable {Url : Type}

def object (m : TrackerManager Url) (p : Nat) : Option (Tracker Url) := (m.trackers ++ m.leaving).find? (·.address == p)

-- A method of a tracker is called, which changes the tracker wherever it is.
def change (m : TrackerManager Url) (p : Nat) (method : Tracker Url → Tracker Url) : TrackerManager Url :=
  {m with
    trackers := m.trackers.map fun t => if t.address = p then method t else t,
    leaving := m.leaving.map fun t => if t.address = p then method t else t}

-- The same through a pointer. None: there is no object where it points to.
def call (m : TrackerManager Url) (p : Nat) (method : Tracker Url → Tracker Url) : Option (TrackerManager Url) :=
  if (m.object p).isSome then some (m.change p method) else none

-- if (curr) curr->method()
def ifCurr (m : TrackerManager Url) (method : Tracker Url → Tracker Url) : Option (TrackerManager Url) :=
  match m.curr with
  | none => some m
  | some p => m.call p method

def better (t n : Tracker Url) : Tracker Url :=
  if t.failureCount < n.failureCount then t
  else if t.failureCount = n.failureCount then (if t.tier < n.tier then t else n)
  else n

def selectFrom (n : Option (Tracker Url)) : List (Tracker Url) → Option (Tracker Url)
  | [] => n
  | t :: rest =>
    if t.enabled then
      match n with
      | none => selectFrom (some t) rest
      | some n => selectFrom (some (better t n)) rest
    else selectFrom n rest

def selectTracker (m : TrackerManager Url) : Option (Tracker Url) := selectFrom none m.trackers

def switchTracker (m : TrackerManager Url) (trk : Option (Tracker Url)) : TrackerManager Url :=
  {m with curr := trk.map (·.address)}

def start (m : TrackerManager Url) : Option (TrackerManager Url) := do
  if m.started then return m
  let m ←
    if m.priv then
      match m.curr with
      | none => if m.trackers.length > 0 then (m.switchTracker m.selectTracker).ifCurr .start else some m
      | some p => m.call p .start
    else some {m with trackers := m.trackers.map fun t => if t.enabled then t.start else t}
  return {m with started := true}

def stop (m : TrackerManager Url) : Option (TrackerManager Url) := do
  if !m.started then return m
  let m := {m with started := false}
  if m.priv then
    let m ← m.ifCurr .stop
    return {m with trackers := m.trackers.map .reset}
  else return {m with trackers := m.trackers.map fun t => t.stop.reset}

-- The sender of the signal has failed; it is the only one of its trackers that a sender can be.
def onTrackerError (m : TrackerManager Url) (sender : Nat) : Option (TrackerManager Url) := do
  if !m.started then return m
  if !m.priv then m.call sender .handleFailure
  else if m.curr = some sender then
    let trk := m.selectTracker
    if trk.map (·.address) = m.curr then m.call sender .handleFailure
    else
      let m ← m.call sender .stop
      let m := m.switchTracker trk
      let p ← m.curr
      let curr ← m.object p
      if curr.failureCount > 0 then m.call p .handleFailure else m.call p .start
  else m.call sender .handleFailure

variable [KUrl Url]

def find (m : TrackerManager Url) (url : Url) : Option (Tracker Url) := m.trackers.find? (·.url == url)

def addTracker (m : TrackerManager Url) (url : Url) (custom : Bool) (tier : Int) : TrackerManager Url :=
  if (m.find url).isSome then m
  else match TrackerKind.ofProtocol (KUrl.protocol url) with
    | none => m
    | some kind => {m with
        trackers := m.trackers.orderedInsert (fun a b => a.url ≤ b.url) (.new m.allocated url kind tier),
        customTrackers := if custom then m.customTrackers ++ [url] else m.customTrackers,
        allocated := m.allocated + 1}

-- Out of the map: the map deletes the tracker, or does not.
def erase (m : TrackerManager Url) (url : Url) : TrackerManager Url := {m with trackers := m.trackers.filter (·.url != url)}

def release (m : TrackerManager Url) (url : Url) : TrackerManager Url :=
  {m.erase url with leaving := m.leaving ++ m.trackers.filter (·.url == url)}

def removeTracker (m : TrackerManager Url) (url : Url) : Option (TrackerManager Url) := do
  if url ∉ m.customTrackers then return m
  let m := {m with customTrackers := m.customTrackers.filter (· != url)}
  let trk := m.find url
  if m.curr = trk.map (·.address) ∧ m.priv then
    let trk ← trk
    let m := (m.change trk.address .stop).release url
    if m.trackers.length > 0 then (m.switchTracker m.selectTracker).ifCurr .start else return m
  else return m.erase url

def restoreOne (m : TrackerManager Url) (url : Url) : TrackerManager Url :=
  match m.find url with
  | none => m
  | some t =>
    let m := if t.contact.started then m.change t.address .stop else m
    let m := if m.curr = some t.address ∧ m.priv then {m with curr := none} else m
    m.erase url

def restoreDefault (m : TrackerManager Url) : TrackerManager Url :=
  let m := m.customTrackers.foldl restoreOne m
  let m := {m with customTrackers := []}
  if m.priv ∧ m.curr = none then m.switchTracker m.selectTracker else m

def setTrackerEnabled (m : TrackerManager Url) (url : Url) (enabled : Bool) : Option (TrackerManager Url) :=
  match m.find url with
  | none => some m
  | some trk =>
    let m := m.change trk.address (.setEnabled enabled)
    if !enabled then
      let m := m.change trk.address .stop
      if m.curr = some trk.address then (m.switchTracker m.selectTracker).ifCurr .start else some m
    else if !m.priv ∧ m.started then some (m.change trk.address .start)
    else some m

-- The trackers of the torrent, tier by tier.
def addTiers (m : TrackerManager Url) (tier : Int) : List (List Url) → TrackerManager Url
  | [] => m
  | urls :: next => addTiers (urls.foldl (fun m url => m.addTracker url false tier) m) (tier + 1) next

def loadCustomURLs (m : TrackerManager Url) (urls : List Url) : TrackerManager Url :=
  urls.foldl (fun m url => m.addTracker url true 1) m

-- The urls of the lines that begin with a 0.
def loadTrackerStatus (m : TrackerManager Url) (disabled : List Url) : TrackerManager Url :=
  disabled.foldl (fun m url =>
    match m.find url with
    | none => m
    | some trk => m.change trk.address (.setEnabled false)) m

def empty (priv : Bool) : TrackerManager Url := ⟨priv,[],[],none,[],false,0⟩

def new (priv : Bool) (tiers : List (List Url)) (custom disabled : List Url) : TrackerManager Url :=
  let m := (((empty priv).addTiers 1 tiers).loadCustomURLs custom).loadTrackerStatus disabled
  if m.priv then m.switchTracker m.selectTracker else m

end TrackerManager

-- The operations, the error of a tracker, and what happens to trackers in between: their
-- contact to the outside, and the end of those that were removed.
inductive ManagerEvent (Url : Type)
  | start
  | stop
  | addTracker (url : Url) (custom : Bool) (tier : Int)
  | removeTracker (url : Url)
  | restoreDefault
  | setTrackerEnabled (url : Url) (enabled : Bool)
  | trackerError (sender : Nat) (contact : Contact)
  | contacted (tracker : Nat) (contact : Contact)
  | deleted (tracker : Nat)

namespace TrackerManager

variable {Url : Type} [KUrl Url]

-- None: a null pointer is used, or one to an object that has been deleted.
def step (m : TrackerManager Url) : ManagerEvent Url → Option (TrackerManager Url)
  | .start => m.start
  | .stop => m.stop
  | .addTracker url custom tier => some (m.addTracker url custom tier)
  | .removeTracker url => m.removeTracker url
  | .restoreDefault => some m.restoreDefault
  | .setTrackerEnabled url enabled => m.setTrackerEnabled url enabled
  | .trackerError sender contact =>
    match m.object sender with
    | none => some m
    | some _ => (m.change sender (.contacted contact)).onTrackerError sender
  | .contacted tracker contact => some (m.change tracker (.contacted contact))
  | .deleted tracker => some {m with leaving := m.leaving.filter (·.address != tracker)}

end TrackerManager

end KtorrentStream.Tracker
