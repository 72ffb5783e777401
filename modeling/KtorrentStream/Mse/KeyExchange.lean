import KtorrentStream.Lib.BigEndian
set_option autoImplicit true

namespace KtorrentStream.Mse
open Lib

def write (buf : List UInt8) (off : Nat) (data : List UInt8) : List UInt8 :=
  buf.take off ++ (data ++ buf.drop (off + data.length))

-- mpz_export writes no leading zeros, and nothing behind the number.
def toBuffer (x : Nat) (buf : List UInt8) (off : Nat) : List UInt8 := write buf off (BigEndian.minimal x)

def fromBuffer (buf : List UInt8) (size : Nat) : Nat := BigEndian.value (buf.take size)

def powerMod (x e d : Nat) : Nat := x ^ e % d

def P : Nat :=
  0xFFFFFFFFFFFFFFFFC90FDAA22168C234C4C6628B80DC1CD129024E088A67CC74020BBEA63B139B22514A08798E3404DDEF9519B3CD3A431B302B0A6DF25F14374FE1356D6D51C245E485B576625E7EC6F44C42E9A63A36210000000000090563

def publicKey (priv : Nat) : Nat := powerMod 2 priv P

def dhSecret (ourPriv peerPub : Nat) : Nat := powerMod peerPub ourPriv P

abbrev Hash := Fin 20 → UInt8

def Hash.bytes (h : Hash) : List UInt8 := List.ofFn h

def Hash.xor (h k : Hash) : Hash := fun i => h i ^^^ k i

-- generate is SHA1Hash::generate, buf the local array before its use.
def encryptionKey (generate : List UInt8 → Hash) (buf : List UInt8) (a : Bool) (s : Nat) (skey : Hash) : Hash :=
  let buf := write buf 0 [107,101,121]
  let buf := write buf 3 [if a then 65 else 66]
  let buf := toBuffer s buf 4
  let buf := write buf 100 skey.bytes
  generate (buf.take 120)

-- The arrays on the stack of the two sides, as they are before their use.
abbrev Block (n : Nat) := {bytes : List UInt8 // bytes.length = n}

structure Memory where
  connected : Block 608
  handleYB : Block 120
  clientKeyA : Block 120
  clientKeyB : Block 120
  sendYB : Block 608
  findReq1 : Block 100
  calculateSKey : Block 100
  serverKeyA : Block 120
  serverKeyB : Block 120

-- Padding follows the first 96 of the bytes sent for a public key.
def sentKey (y : Nat) (tmp : Block 608) : List UInt8 := (toBuffer y tmp.1 0).take 96

-- What one side has after the other's public key arrived. req2 is the hash of
-- SKEY that the server looks up, and exchanged what the client sends for it.
structure Keys where
  peer : Nat
  s : Nat
  req1 : Hash
  req2 : Hash
  req3 : Hash
  enc : Hash
  dec : Hash

def req1Tag : List UInt8 := [114,101,113,49]
def req2Tag : List UInt8 := [114,101,113,50]
def req3Tag : List UInt8 := [114,101,113,51]

-- EncryptedAuthenticate::handleYB: one array serves for all three hashes.
def clientKeys (generate : List UInt8 → Hash) (infoHash : Hash) (xa : Nat) (yb : List UInt8) (m : Memory) : Keys :=
  let peer := fromBuffer yb 96
  let s := dhSecret xa peer
  let tmp₁ := toBuffer s (write m.handleYB.1 0 req1Tag) 4
  let tmp₂ := write (write tmp₁ 0 req2Tag) 4 infoHash.bytes
  let tmp₃ := toBuffer s (write tmp₂ 0 req3Tag) 4
  {peer,s,
    req1 := generate (tmp₁.take 100),
    req2 := generate (tmp₂.take 24),
    req3 := generate (tmp₃.take 100),
    enc := encryptionKey generate m.clientKeyA.1 true s infoHash,
    dec := encryptionKey generate m.clientKeyB.1 false s infoHash}

def Keys.exchanged (k : Keys) : Hash := k.req2.xor k.req3

-- EncryptedServerAuthenticate: handleYA, findReq1, calculateSKey and
-- processVC, with the hash that stands for SKEY in what the client sent.
def serverKeys (generate : List UInt8 → Hash) (infoHash : Hash) (xb : Nat) (ya : List UInt8) (exchanged : Hash) (m : Memory) : Keys :=
  let peer := fromBuffer ya 96
  let s := dhSecret xb peer
  let req3 := generate ((toBuffer s (write m.calculateSKey.1 0 req3Tag) 4).take 100)
  {peer,s,
    req1 := generate ((toBuffer s (write m.findReq1.1 0 req1Tag) 4).take 100),
    req2 := exchanged.xor req3,
    req3,
    enc := encryptionKey generate m.serverKeyB.1 false s infoHash,
    dec := encryptionKey generate m.serverKeyA.1 true s infoHash}

def Agree (generate : List UInt8 → Hash) (infoHash : Hash) (xa xb : Nat) (m : Memory) : Prop :=
  let client := clientKeys generate infoHash xa (sentKey (publicKey xb) m.sendYB) m
  let server := serverKeys generate infoHash xb (sentKey (publicKey xa) m.connected) client.exchanged m
  (client.peer = publicKey xb ∧ server.peer = publicKey xa) ∧ client.s = server.s ∧
    (client.req1 = server.req1 ∧ client.req2 = server.req2 ∧ client.req3 = server.req3) ∧
    client.enc = server.dec ∧ client.dec = server.enc

theorem write_length (length : buf.length = n) (room : off + data.length ≤ n) : (write buf off data).length = n := by
  simp only [write,List.length_append,List.length_take,List.length_drop]
  omega

theorem write_behind (room : off + data.length ≤ buf.length) (behind : off + data.length ≤ i) :
    (write buf off data)[i]? = buf[i]? := by
  have front : (buf.take off).length = off := by
    rw [List.length_take]
    omega
  unfold write
  rw [List.getElem?_append_right (by omega),List.getElem?_append_right (by omega),List.getElem?_drop,front]
  congr 1
  omega

theorem write_front (data : List UInt8) (front : buf.take off = before) (room : off + data.length ≤ buf.length) :
    (write buf off data).take (off + data.length) = before ++ data := by
  have length : (buf.take off).length = off := by
    rw [List.length_take]
    omega
  unfold write
  rw [← List.append_assoc,← front]
  exact List.take_left' (by rw [List.length_append,length])

theorem size_eq (large : 256 ^ 95 ≤ x) (small : x < 256 ^ 96) : BigEndian.size x = 96 := by
  have most : BigEndian.size x ≤ 96 := (BigEndian.size_le_iff 96 x).mpr small
  have least : ¬ BigEndian.size x ≤ 95 := fun le => Nat.not_lt.mpr large ((BigEndian.size_le_iff 95 x).mp le)
  omega

theorem fromBuffer_full (full : BigEndian.size x = 96) (room : 96 ≤ buf.length) : fromBuffer ((toBuffer x buf 0).take 96) 96 = x := by
  have bytes := BigEndian.minimal_length x
  have all : (toBuffer x buf 0).take (0 + (BigEndian.minimal x).length) = [] ++ BigEndian.minimal x :=
    write_front _ rfl (by omega)
  rw [bytes,full,Nat.zero_add,List.nil_append] at all
  unfold fromBuffer
  rw [List.take_take,Nat.min_self,all,BigEndian.value_minimal]

-- A shorter number is read back with what was in the last byte of the field.
theorem fromBuffer_short (short : BigEndian.size x ≤ 95) (room : 96 ≤ buf.length)
    (same : fromBuffer ((toBuffer x buf 0).take 96) 96 = x) (other : 96 ≤ buf'.length)
    (same' : fromBuffer ((toBuffer x buf' 0).take 96) 96 = x) : buf[95]? = buf'[95]? := by
  have bytes := BigEndian.minimal_length x
  unfold fromBuffer at same same'
  rw [List.take_take,Nat.min_self] at same same'
  have length : ((toBuffer x buf 0).take 96).length = ((toBuffer x buf' 0).take 96).length := by
    rw [List.length_take,List.length_take,toBuffer,toBuffer,write_length rfl (by omega),write_length rfl (by omega)]
    omega
  have fields := BigEndian.value_inj length (same.trans same'.symm)
  have last : ((toBuffer x buf 0).take 96)[95]? = ((toBuffer x buf' 0).take 96)[95]? := by rw [fields]
  rw [List.getElem?_take_of_lt (by omega),List.getElem?_take_of_lt (by omega)] at last
  rwa [toBuffer,toBuffer,write_behind (by omega) (by omega),write_behind (by omega) (by omega)] at last

end KtorrentStream.Mse
