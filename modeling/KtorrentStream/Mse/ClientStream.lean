import KtorrentStream.Mse.EncryptedServerAuthenticate
import KtorrentStream.Mse.KeyAgreement
set_option autoImplicit true

namespace KtorrentStream.Mse
open Util Lib

section Crypt
variable {stream : Nat → UInt8} {pos : Nat}

@[simp] theorem crypt_length (data : List UInt8) : (crypt stream pos data).length = data.length := List.length_mapIdx

theorem crypt_append (a b : List UInt8) : crypt stream pos (a ++ b) = crypt stream pos a ++ crypt stream (pos + a.length) b := by
  unfold crypt
  rw [List.mapIdx_append]
  congr 2
  funext i b
  rw [Nat.add_assoc,Nat.add_comm i]

theorem crypt_crypt (data : List UInt8) : crypt stream pos (crypt stream pos data) = data := by
  unfold crypt
  rw [List.mapIdx_mapIdx]
  apply List.ext_getElem
  · rw [List.length_mapIdx]
  · intro i one two
    rw [List.getElem_mapIdx]
    show data[i] ^^^ stream (pos + i) ^^^ stream (pos + i) = data[i]
    rw [UInt8.xor_assoc,UInt8.xor_self,UInt8.xor_zero]

theorem crypt_take (n : Nat) (data : List UInt8) : (crypt stream pos data).take n = crypt stream pos (data.take n) := by
  conv_lhs => rw [← List.take_append_drop n data,crypt_append]
  by_cases inside : n ≤ data.length
  · exact List.take_left' (by rw [crypt_length,List.length_take,Nat.min_eq_left inside])
  · rw [List.take_of_length_le (show data.length ≤ n by omega),List.drop_eq_nil_of_le (by omega)]
    rw [List.take_of_length_le (by rw [List.length_append,crypt_length,crypt_length,List.length_nil]; omega),← crypt_append,List.append_nil]

theorem crypt_drop (n : Nat) (data : List UInt8) : (crypt stream pos data).drop n = crypt stream (pos + n) (data.drop n) := by
  by_cases inside : n ≤ data.length
  · have length : (data.take n).length = n := by rw [List.length_take,Nat.min_eq_left inside]
    conv_lhs => rw [← List.take_append_drop n data,crypt_append,length]
    exact List.drop_left' (by rw [crypt_length,length])
  · rw [List.drop_eq_nil_of_le (by rw [crypt_length]; omega),List.drop_eq_nil_of_le (by omega)]
    rfl

end Crypt

-- What a client sends: its public key and the padding, the info hash, what it
-- provides, more padding, the initial payload and the stream behind it.
structure Client where
  ya : List UInt8
  padA : List UInt8
  infoHash : Hash
  provide : Nat
  padC : List UInt8
  ia : List UInt8
  payload : List UInt8
  ya_length : ya.length = 96
  padA_length : padA.length ≤ 512
  provide_lt : provide < 4294967296
  padC_length : padC.length ≤ 512
  ia_length : ia.length ≤ 68

namespace Client
variable (h : Host) (c : Client)

def secret : Nat := dhSecret h.xb (fromBuffer c.ya 96)

def req1 : Hash := h.generate (req1Tag ++ BigEndian.minimal (c.secret h))

def req2 : Hash := h.generate (req2Tag ++ c.infoHash.bytes)

def req3 : Hash := h.generate (req3Tag ++ BigEndian.minimal (c.secret h))

def key : Hash := h.generate ([107,101,121] ++ [65] ++ BigEndian.minimal (c.secret h) ++ c.infoHash.bytes)

-- VC, crypto_provide, len(PadC), PadC, len(IA), IA
def plain : List UInt8 :=
  List.replicate 8 0 ++ (writeUint32 c.provide ++ (writeUint16 c.padC.length ++ (c.padC ++ (writeUint16 c.ia.length ++ c.ia))))

def rc4 : Bool := c.provide.testBit 1

-- Where the hash of req1 and S stands.
def off : Nat := 96 + c.padA.length

def front : List UInt8 := c.ya ++ (c.padA ++ ((c.req1 h).bytes ++ ((c.req2 h).xor (c.req3 h)).bytes))

def cipher : List UInt8 :=
  crypt (h.keystream (c.key h)) 0 c.plain ++
    (if c.rc4 then crypt (h.keystream (c.key h)) c.plain.length c.payload else c.payload)

-- The stream with the first d bytes behind the hashes decrypted.
def opened (d : Nat) : List UInt8 := c.front h ++ (c.plain.take d ++ (c.cipher h).drop d)

def stream : List UInt8 := c.opened h 0

end Client

section
variable {h : Host} {c : Client} {b d n : Nat}

theorem bytes_length (hash : Hash) : hash.bytes.length = 20 := List.length_ofFn

theorem front_length : (c.front h).length = c.off + 40 := by
  unfold Client.front Client.off
  rw [List.length_append,List.length_append,List.length_append,bytes_length,bytes_length,c.ya_length]
  omega

theorem plain_length : c.plain.length = 16 + c.padC.length + c.ia.length := by
  unfold Client.plain
  simp only [List.length_append,List.length_replicate,writeUint32_length,writeUint16_length]
  omega

theorem cipher_length : (c.cipher h).length = c.plain.length + c.payload.length := by
  unfold Client.cipher
  split <;> simp

theorem opened_length (upTo : d ≤ c.plain.length) : (c.opened h d).length = c.off + 40 + c.plain.length + c.payload.length := by
  unfold Client.opened
  rw [List.length_append,List.length_append,List.length_take,List.length_drop,front_length,cipher_length]
  omega

theorem stream_length : (c.stream h).length = c.off + 40 + c.plain.length + c.payload.length := opened_length (Nat.zero_le _)

theorem opened_drop (behind : c.off + 40 + d ≤ b) (upTo : d ≤ c.plain.length) : (c.opened h d).drop b = (c.stream h).drop b := by
  have front := @front_length h c
  have taken : (c.plain.take d).length = d := by rw [List.length_take,Nat.min_eq_left upTo]
  unfold Client.stream Client.opened
  rw [List.drop_append,List.drop_append,List.drop_append,front,taken,List.drop_eq_nil_of_le (by omega),List.drop_eq_nil_of_le (by omega)]
  rw [List.nil_append,List.nil_append,List.drop_drop,List.take_zero,List.nil_append,List.drop_zero]
  congr 1
  omega

theorem opened_more (behind : d = 0 ∨ c.off + 40 + d ≤ b) (upTo : d ≤ c.plain.length) :
    (c.opened h d).take b ++ ((c.stream h).drop b).take n = (c.opened h d).take (b + n) := by
  have rest : (c.opened h d).drop b = (c.stream h).drop b := by
    rcases behind with rfl | behind
    · rfl
    · exact opened_drop behind upTo
  rw [← rest,List.take_add]

theorem cipher_plain (upTo : d + n ≤ c.plain.length) :
    ((c.cipher h).drop d).take n = crypt (h.keystream (c.key h)) d ((c.plain.drop d).take n) := by
  unfold Client.cipher
  rw [List.drop_append_of_le_length (by rw [crypt_length]; omega),List.take_append_of_le_length (by rw [List.length_drop,crypt_length]; omega),
    crypt_drop,Nat.zero_add,crypt_take]

theorem opened_decrypted (upTo : d + n ≤ c.plain.length) (inside : c.off + 40 + d + n ≤ b) :
    ((c.opened h d).take b).take (c.off + 40 + d) ++
      (crypt (h.keystream (c.key h)) d ((((c.opened h d).take b).drop (c.off + 40 + d)).take n) ++
        ((c.opened h d).take b).drop (c.off + 40 + d + n)) = (c.opened h (d + n)).take b := by
  have front := @front_length h c
  have taken : (c.plain.take d).length = d := by
    rw [List.length_take]
    omega
  have head : (c.opened h d).take (c.off + 40 + d) = c.front h ++ c.plain.take d := by
    unfold Client.opened
    rw [← List.append_assoc]
    exact List.take_left' (by rw [List.length_append,front,taken])
  have tail : (c.opened h d).drop (c.off + 40 + d) = (c.cipher h).drop d := by
    unfold Client.opened
    rw [← List.append_assoc]
    exact List.drop_left' (by rw [List.length_append,front,taken])
  have part : (((c.opened h d).take b).drop (c.off + 40 + d)).take n = crypt (h.keystream (c.key h)) d ((c.plain.drop d).take n) := by
    rw [List.drop_take,tail,List.take_take,Nat.min_eq_left (by omega),cipher_plain upTo]
  have rest : ((c.opened h d).take b).drop (c.off + 40 + d + n) = ((c.opened h (d + n)).drop (c.off + 40 + (d + n))).take (b - (c.off + 40 + (d + n))) := by
    rw [List.drop_take,opened_drop (by omega) (by omega),opened_drop (by omega) (by omega),Nat.add_assoc]
  have next : (c.opened h (d + n)).take (c.off + 40 + (d + n)) = c.front h ++ c.plain.take (d + n) := by
    unfold Client.opened
    rw [← List.append_assoc]
    exact List.take_left' (by rw [List.length_append,front,List.length_take]; omega)
  rw [part,crypt_crypt,List.take_take,Nat.min_eq_left (by omega),head,rest,List.append_assoc,← List.append_assoc (c.plain.take d),← List.take_add,
    ← List.append_assoc,← next,← List.take_add]
  congr 1
  omega

theorem opened_shape (upTo : d ≤ c.plain.length) (inside : c.off + 40 + d ≤ b) :
    ∃ rest, (c.opened h d).take b = c.front h ++ (c.plain.take d ++ rest) := by
  have length : (c.front h ++ c.plain.take d).length = c.off + 40 + d := by
    rw [List.length_append,front_length,List.length_take,Nat.min_eq_left upTo]
  refine ⟨((c.cipher h).drop d).take (b - (c.off + 40 + d)),?_⟩
  unfold Client.opened
  rw [← List.append_assoc,← List.append_assoc,List.take_append,length,List.take_of_length_le (by omega)]

theorem plain_head : c.plain.take 14 = List.replicate 8 0 ++ (writeUint32 c.provide ++ writeUint16 c.padC.length) := by
  unfold Client.plain
  rw [← List.append_assoc (writeUint32 _),← List.append_assoc (List.replicate 8 0)]
  exact List.take_left' rfl

theorem plain_middle : c.plain.take (16 + c.padC.length) =
    List.replicate 8 0 ++ (writeUint32 c.provide ++ (writeUint16 c.padC.length ++ (c.padC ++ writeUint16 c.ia.length))) := by
  unfold Client.plain
  rw [← List.append_assoc c.padC,← List.append_assoc (writeUint16 _),← List.append_assoc (writeUint32 _),← List.append_assoc (List.replicate 8 0)]
  apply List.take_left'
  simp only [List.length_append,List.length_replicate,writeUint32_length,writeUint16_length]
  omega

theorem head_read (inside : c.off + 54 ≤ b) :
    ((((c.opened h 14).take b).drop (c.off + 40)).take 8).any (· ≠ 0) = false ∧
    readUint32 ((c.opened h 14).take b) (c.off + 40 + 8) = c.provide ∧ readUint16 ((c.opened h 14).take b) (c.off + 40 + 12) = c.padC.length := by
  have length := @plain_length c
  have small := c.padC_length
  obtain ⟨rest,shape⟩ := @opened_shape h c b 14 (by omega) (by omega)
  rw [shape,plain_head]
  refine ⟨?_,?_,?_⟩
  · rw [List.drop_left' front_length,List.append_assoc,List.take_left' List.length_replicate]
    rfl
  · rw [← @front_length h c,readUint32_append,List.append_assoc]
    have skip := readUint32_append (List.replicate 8 0) (writeUint32 c.provide ++ writeUint16 c.padC.length ++ rest) 0
    rw [List.append_assoc,readUint32_write c.provide_lt] at skip
    exact skip
  · rw [← @front_length h c,readUint16_append]
    have skip := readUint16_append (List.replicate 8 0 ++ writeUint32 c.provide) (writeUint16 c.padC.length ++ rest) 0
    rw [readUint16_write (by omega)] at skip
    simp only [List.append_assoc] at skip ⊢
    exact skip

theorem iaLen_read (inside : c.off + 56 + c.padC.length ≤ b) :
    readUint16 ((c.opened h (16 + c.padC.length)).take b) (c.off + 54 + c.padC.length) = c.ia.length := by
  have length := @plain_length c
  have small := c.ia_length
  obtain ⟨rest,shape⟩ := @opened_shape h c b (16 + c.padC.length) (by omega) (by omega)
  have skip := readUint16_append (List.replicate 8 0 ++ (writeUint32 c.provide ++ (writeUint16 c.padC.length ++ c.padC))) (writeUint16 c.ia.length ++ rest) 0
  have count : (List.replicate 8 (0 : UInt8) ++ (writeUint32 c.provide ++ (writeUint16 c.padC.length ++ c.padC))).length = 14 + c.padC.length := by
    simp only [List.length_append,List.length_replicate,writeUint32_length,writeUint16_length]
    omega
  rw [readUint16_write (by omega),count] at skip
  rw [shape,plain_middle,show c.off + 54 + c.padC.length = (c.front h).length + (14 + c.padC.length + 0) by rw [front_length]; omega,readUint16_append]
  simp only [List.append_assoc] at skip ⊢
  exact skip

end

end KtorrentStream.Mse
