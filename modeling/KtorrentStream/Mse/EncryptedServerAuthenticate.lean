import KtorrentStream.Mse.KeyExchange
import KtorrentStream.Util.Bytes
set_option autoImplicit true

namespace KtorrentStream.Mse
open Util

-- RC4 works on every byte with the byte of the key stream at its place.
def crypt (stream : Nat → UInt8) (pos : Nat) (data : List UInt8) : List UInt8 := data.mapIdx fun i b => b ^^^ stream (pos + i)

-- What the handshake depends on besides the bytes: SHA1Hash::generate, our private
-- key, the info hashes of the peer managers and the key streams of RC4, each behind
-- the 1024 bytes that RC4Encryptor drops.
structure Host where
  generate : List UInt8 → Hash
  xb : Nat
  infoHashes : List Hash
  unencryptedConnectionsAllowed : Bool
  keystream : Hash → Nat → UInt8

-- The decrypting side of an RC4Encryptor: its key, and how far the stream is used.
structure Decryptor where
  key : Hash
  pos : Nat

def decryptWith (h : Host) : Option Decryptor → List UInt8 → List UInt8
  | none,data => data
  | some d,data => crypt (h.keystream d.key) d.pos data

def usedBy (n : Nat) : Option Decryptor → Option Decryptor := Option.map fun d => {d with pos := d.pos + n}

def placesOf (enc : Option Decryptor) (start n : Nat) : List Nat := if enc.isSome then List.range' start n else []

inductive AuthState where
  | waitingForYA
  | waitingForReq1
  | foundReq1
  | foundInfoHash
  | waitForPadC
  | waitForIA
  | nonEncryptedHandshake
  deriving DecidableEq

-- The socket is a part of the state: the bytes that arrived and are not read, those that
-- were put back, and the encryptor. handshake has what ServerAuthenticate read. next and
-- decrypted are no data of the program: the place in the stream of the first byte that
-- ServerAuthenticate has not read, and the places that were decrypted.
structure EncryptedServerAuthenticate where
  sock : Bool
  state : AuthState
  buf : List UInt8
  s : Nat
  req1Off : Nat
  infoHash : Hash
  cryptoProvide : Nat
  cryptoSelect : Nat
  padCLen : Nat
  iaLen : Nat
  ourRc4 : Option Decryptor
  unread : List UInt8
  reinserted : List UInt8
  enc : Option Decryptor
  handshake : List UInt8
  next : Nat
  decrypted : List Nat

def maxSeaBufSize : Nat := 608 + 20 + 20 + 8 + 4 + 2 + 512 + 2 + 68

-- A call of onReadyRead: the bytes that have arrived for it, and the arrays on the
-- stack as the calls find them.
structure Arrival where
  bytes : List UInt8
  memory : Memory

namespace EncryptedServerAuthenticate

def new : EncryptedServerAuthenticate where
  sock := true
  state := .waitingForYA
  buf := []
  s := 0
  req1Off := 0
  infoHash := fun _ => 0
  cryptoProvide := 0
  cryptoSelect := 0
  padCLen := 0
  iaLen := 0
  ourRc4 := none
  unread := []
  reinserted := []
  enc := none
  handshake := []
  next := 0
  decrypted := []

variable (h : Host) (m : Memory) (a : EncryptedServerAuthenticate)

def failed : EncryptedServerAuthenticate := {a with sock := false}

def bytesAvailable : Nat := a.unread.length + a.reinserted.length

-- EncryptedPacketSocket::readData: when the bytes that were put back do not suffice, they
-- are decrypted, and again together with the bytes that are received behind them.
def readData (len : Nat) : List UInt8 × EncryptedServerAuthenticate :=
  let tr := a.reinserted.length
  if len ≤ tr then
    (decryptWith h a.enc (a.reinserted.take len),
      {a with
        reinserted := a.reinserted.drop len
        enc := usedBy len a.enc
        next := a.next + len
        decrypted := a.decrypted ++ placesOf a.enc a.next len})
  else
    let fresh := a.unread.take (len - tr)
    (decryptWith h (usedBy tr a.enc) (decryptWith h a.enc a.reinserted ++ fresh),
      {a with
        unread := a.unread.drop (len - tr)
        reinserted := []
        enc := usedBy (tr + (tr + fresh.length)) a.enc
        next := a.next + (tr + fresh.length)
        decrypted := a.decrypted ++ placesOf a.enc a.next tr ++ placesOf a.enc a.next (tr + fresh.length)})

def readHandshake (len : Nat) : EncryptedServerAuthenticate :=
  {(a.readData h len).2 with handshake := a.handshake ++ (a.readData h len).1}

-- ServerAuthenticate::onReadyRead. What it makes of the handshake is left to it; with all
-- 68 bytes it is finished.
def serverOnReadyRead : EncryptedServerAuthenticate :=
  if a.bytesAvailable = 0 then a.failed
  else if a.handshake.length = 68 ∨ a.bytesAvailable < 48 then a
  else if a.handshake = [] then
    if a.bytesAvailable < 68 then a.readHandshake h a.bytesAvailable else a.readHandshake h 68
  else a.readHandshake h (68 - a.handshake.length)

def decryptBuf (off n : Nat) : EncryptedServerAuthenticate :=
  {a with
    buf := a.buf.take off ++ (decryptWith h a.ourRc4 ((a.buf.drop off).take n) ++ a.buf.drop (off + n))
    ourRc4 := usedBy n a.ourRc4
    decrypted := a.decrypted ++ placesOf a.ourRc4 off n}

def handOver : EncryptedServerAuthenticate :=
  {a with
    state := .nonEncryptedHandshake
    next := a.buf.length - a.reinserted.length}.serverOnReadyRead h

-- The end of handleIA, with the encryptor of the mode that was selected.
def setMode : EncryptedServerAuthenticate :=
  if a.cryptoSelect.testBit 1 then {a with enc := a.ourRc4,ourRc4 := none}.handOver h
  else if !h.unencryptedConnectionsAllowed && a.cryptoSelect.testBit 0 then a.failed
  else {a with ourRc4 := none}.handOver h

def iaOff : Nat := a.req1Off + 54 + a.padCLen + 2

def reinsert : EncryptedServerAuthenticate :=
  if a.iaLen > 0 then {a with reinserted := a.reinserted ++ a.buf.drop a.iaOff} else a

def handleIA : EncryptedServerAuthenticate := if a.buf.length < a.iaOff + a.iaLen then a else a.reinsert.setMode h

def readIALen : EncryptedServerAuthenticate := {a with iaLen := readUint16 a.buf (a.req1Off + 54 + a.padCLen)}

def awaitIA : EncryptedServerAuthenticate := if a.buf.length < a.req1Off + 54 + a.iaLen then {a with state := .waitForIA} else a.handleIA h

def handlePadC : EncryptedServerAuthenticate :=
  if a.buf.length < a.iaOff then a else (a.decryptBuf h (a.req1Off + 54) (a.padCLen + 2)).readIALen.awaitIA h

-- processVC behind the decryption. The answer with crypto_select goes out at its end.
def readHead : EncryptedServerAuthenticate :=
  {a with
    cryptoProvide := readUint32 a.buf (a.req1Off + 40 + 8)
    padCLen := readUint16 a.buf (a.req1Off + 40 + 12)}

def select : EncryptedServerAuthenticate := {a with cryptoSelect := if a.cryptoProvide.testBit 1 then 2 else 1}

def awaitPadC : EncryptedServerAuthenticate :=
  if a.buf.length < a.req1Off + 14 + a.padCLen then {a with state := .waitForPadC} else a.handlePadC h

def checkPadC : EncryptedServerAuthenticate := if a.padCLen > 512 then a.failed else a.select.awaitPadC h

def checkVC : EncryptedServerAuthenticate :=
  if ((a.buf.drop (a.req1Off + 40)).take 8).any (· ≠ 0) then a.failed else a.readHead.checkPadC h

def startRc4 : EncryptedServerAuthenticate :=
  if a.ourRc4.isNone then {a with ourRc4 := some ⟨encryptionKey h.generate m.serverKeyA.1 true a.s a.infoHash,0⟩} else a

def decryptVC : EncryptedServerAuthenticate :=
  if a.buf.length < a.req1Off + 40 + 14 then a else (a.decryptBuf h (a.req1Off + 40) 14).checkVC h

def processVC : EncryptedServerAuthenticate := (a.startRc4 h m).decryptVC h

def findInfoHash (skey : Hash) : Option Hash := h.infoHashes.find? fun hash => decide ((h.generate (req2Tag ++ hash.bytes)).bytes = skey.bytes)

def hashAt (buf : List UInt8) (off : Nat) : Hash := fun i => buf.getD (off + i) 0

def tagged (tag : List UInt8) (s : Nat) (tmp : Block 100) : List UInt8 := (toBuffer s (write tmp.1 0 tag) 4).take 100

def calculateSKey : EncryptedServerAuthenticate :=
  if a.req1Off + 40 > a.buf.length then a
  else
    match findInfoHash h ((hashAt a.buf (a.req1Off + 20)).xor (h.generate (tagged req3Tag a.s m.calculateSKey))) with
    | none => a.failed
    | some infoHash => {a with infoHash,state := .foundInfoHash}.processVC h m

-- for (Uint32 i = 96;i < buf_size - 20;i++)
def req1At (req1 : Hash) : Option Nat :=
  (List.range' 96 (a.buf.length - 20 - 96)).find? fun i => (a.buf.drop i).take 20 = req1.bytes

def findReq1 : EncryptedServerAuthenticate :=
  if a.buf.length < 116 then a
  else
    match a.req1At (h.generate (tagged req1Tag a.s m.findReq1)) with
    | some i => {a with state := .foundReq1,req1Off := i}.calculateSKey h m
    | none => if a.buf.length > 608 then a.failed else a

def handleYA : EncryptedServerAuthenticate :=
  {a with s := dhSecret h.xb (fromBuffer a.buf 96),state := .waitingForReq1}.findReq1 h m

def fillBuf (ba : Nat) : EncryptedServerAuthenticate :=
  {(a.readData h ba).2 with buf := a.buf ++ (a.readData h ba).1}

def roomFor : Nat := if a.buf.length + a.bytesAvailable > maxSeaBufSize then maxSeaBufSize - a.buf.length else a.bytesAvailable

def firstRead : EncryptedServerAuthenticate := if a.buf.length ≥ 96 then a.handleYA h m else a

def dispatch (ba : Nat) : EncryptedServerAuthenticate :=
  match a.state with
  | .waitingForYA =>
    if ba ≤ 68 && h.unencryptedConnectionsAllowed then {a with state := .nonEncryptedHandshake}.serverOnReadyRead h
    else (a.fillBuf h ba).firstRead h m
  | .waitingForReq1 => (a.fillBuf h ba).findReq1 h m
  | .foundReq1 => (a.fillBuf h ba).calculateSKey h m
  | .foundInfoHash => (a.fillBuf h ba).processVC h m
  | .waitForPadC => (a.fillBuf h ba).handlePadC h
  | .waitForIA => (a.fillBuf h ba).handleIA h
  | .nonEncryptedHandshake => a.serverOnReadyRead h

def arrived (bytes : List UInt8) : EncryptedServerAuthenticate := {a with unread := a.unread ++ bytes}

def readyRead : EncryptedServerAuthenticate := if a.bytesAvailable = 0 then a.failed else a.dispatch h m a.roomFor

def onReadyRead (arrival : Arrival) : EncryptedServerAuthenticate :=
  if !a.sock then a else (a.arrived arrival.bytes).readyRead h arrival.memory

def run (arrivals : List Arrival) : EncryptedServerAuthenticate := arrivals.foldl (onReadyRead h) a

end EncryptedServerAuthenticate

end KtorrentStream.Mse
