import KtorrentStream.Mse.KeyExchange
set_option autoImplicit true

namespace KtorrentStream.Mse
open Lib

variable {x s : Nat} {buf tag : List UInt8} {infoHash : Hash} {generate : List UInt8 → Hash}

theorem P_lt : P < 256 ^ 96 := by decide +kernel

theorem powerMod_lt (x e : Nat) : powerMod x e P < 256 ^ 96 := Nat.lt_trans (Nat.mod_lt _ (by decide +kernel)) P_lt

theorem dhSecret_public (a b : Nat) : dhSecret a (publicKey b) = 2 ^ (a * b) % P := by
  unfold dhSecret publicKey powerMod
  rw [← Nat.pow_mod,← pow_mul,Nat.mul_comm]

-- A number is read back from its field, whatever was there, exactly if it
-- has all its 96 bytes.
theorem fromBuffer_iff (small : x < 256 ^ 96) (room : 96 ≤ n) :
    (∀ field : Block n, fromBuffer ((toBuffer x field.1 0).take 96) 96 = x) ↔ 256 ^ 95 ≤ x := by
  constructor
  · intro all
    by_contra less
    have short : BigEndian.size x ≤ 95 := (BigEndian.size_le_iff 95 x).mpr (Nat.not_le.mp less)
    have filled : ∀ b : UInt8, (List.replicate n b)[95]? = some b := by
      intro b
      exact List.getElem?_replicate_of_lt (by omega)
    have long : ∀ b : UInt8, 96 ≤ (List.replicate n b).length := by
      intro b
      rwa [List.length_replicate]
    have last := fromBuffer_short short (long 0) (all ⟨_,List.length_replicate⟩) (long 1) (all ⟨_,List.length_replicate⟩)
    rw [filled,filled] at last
    simp at last
  · intro large field
    exact fromBuffer_full (size_eq large small) (by rw [field.2]; omega)

-- The hashed bytes of a secret that fills its field do not depend on what was
-- in the array.
theorem tagged_full (full : BigEndian.size s = 96) (four : tag.length = 4) (room : 100 ≤ buf.length) :
    (toBuffer s (write buf 0 tag) 4).take 100 = tag ++ BigEndian.minimal s := by
  have bytes := BigEndian.minimal_length s
  have length : (write buf 0 tag).length = buf.length := write_length rfl (by omega)
  have front : (write buf 0 tag).take (0 + tag.length) = [] ++ tag := write_front _ rfl (by omega)
  rw [four,Nat.zero_add,List.nil_append] at front
  have field := write_front (BigEndian.minimal s) front (by omega)
  rw [bytes,full] at field
  exact field

theorem encryptionKey_full (full : BigEndian.size s = 96) (room : buf.length = 120) (a : Bool) :
    encryptionKey generate buf a s infoHash =
      generate ([107,101,121] ++ [if a then 65 else 66] ++ BigEndian.minimal s ++ infoHash.bytes) := by
  have bytes := BigEndian.minimal_length s
  have hash : infoHash.bytes.length = 20 := List.length_ofFn
  have length₁ : (write buf 0 [107,101,121]).length = 120 := write_length room (by decide)
  have length₂ : (write (write buf 0 [107,101,121]) 3 [if a then 65 else 66]).length = 120 :=
    write_length length₁ (by show 3 + 1 ≤ 120; decide)
  have length₃ : (toBuffer s (write (write buf 0 [107,101,121]) 3 [if a then 65 else 66]) 4).length = 120 :=
    write_length length₂ (by omega)
  have front₀ : buf.take 0 = [] := rfl
  have front₁ : (write buf 0 [107,101,121]).take 3 = [107,101,121] := write_front [107,101,121] front₀ (by rw [room]; decide)
  have front₂ : (write (write buf 0 [107,101,121]) 3 [if a then 65 else 66]).take 4 = [107,101,121] ++ [if a then 65 else 66] :=
    write_front [if a then 65 else 66] front₁ (by rw [length₁,List.length_singleton]; decide)
  have front₃ := write_front (BigEndian.minimal s) front₂ (by omega)
  rw [bytes,full] at front₃
  have front₄ := write_front infoHash.bytes front₃ (by
    rw [hash]
    exact length₃.symm ▸ Nat.le_refl 120)
  rw [hash] at front₄
  unfold encryptionKey
  exact congrArg generate front₄

theorem tagged_short (short : BigEndian.size s ≤ 95) (four : tag.length = 4) (room : 100 ≤ buf.length) :
    ((toBuffer s (write buf 0 tag) 4).take 100)[99]? = buf[99]? := by
  have bytes := BigEndian.minimal_length s
  have length : (write buf 0 tag).length = buf.length := write_length rfl (by omega)
  rw [List.getElem?_take_of_lt (by omega),toBuffer,write_behind (by omega) (by omega),write_behind (by omega) (by omega)]

theorem xor_xor (h k : Hash) : (h.xor k).xor k = h := by
  funext i
  show h i ^^^ k i ^^^ k i = h i
  rw [UInt8.xor_assoc,UInt8.xor_self,UInt8.xor_zero]

-- With all the bytes known before, one side's arrays hold zeros and the
-- other's ones.
def filled (n : Nat) (b : UInt8) : Block n := ⟨List.replicate n b,List.length_replicate⟩

def Memory.unlike : Memory :=
  ⟨filled 608 0,filled 120 0,filled 120 0,filled 120 0,filled 608 1,filled 100 1,filled 100 1,filled 120 1,filled 120 1⟩

-- A hash that only looks at the last byte of the secret's field.
def lastByte (bytes : List UInt8) : Hash := fun _ => (bytes[99]?).getD 0

theorem agree_of_full {m : Memory} {xa xb : Nat} (ya : 256 ^ 95 ≤ 2 ^ xa % P) (yb : 256 ^ 95 ≤ 2 ^ xb % P)
    (large : 256 ^ 95 ≤ 2 ^ (xa * xb) % P) : Agree generate infoHash xa xb m := by
  have peerA : fromBuffer (sentKey (publicKey xa) m.connected) 96 = publicKey xa :=
    (fromBuffer_iff (powerMod_lt 2 xa) (by decide)).mpr ya m.connected
  have peerB : fromBuffer (sentKey (publicKey xb) m.sendYB) 96 = publicKey xb :=
    (fromBuffer_iff (powerMod_lt 2 xb) (by decide)).mpr yb m.sendYB
  have secretA : dhSecret xa (publicKey xb) = 2 ^ (xa * xb) % P := dhSecret_public xa xb
  have secretB : dhSecret xb (publicKey xa) = 2 ^ (xa * xb) % P := by
    rw [dhSecret_public,Nat.mul_comm]
  unfold Agree clientKeys serverKeys
  simp only [peerA,peerB,secretA,secretB]
  have full : BigEndian.size (2 ^ (xa * xb) % P) = 96 := size_eq large (powerMod_lt 2 (xa * xb))
  generalize 2 ^ (xa * xb) % P = s at full
  have bytes := BigEndian.minimal_length s
  have hash : infoHash.bytes.length = 20 := List.length_ofFn
  have length₁ : (write m.handleYB.1 0 req1Tag).length = 120 := write_length m.handleYB.2 (by decide)
  have length₂ : (toBuffer s (write m.handleYB.1 0 req1Tag) 4).length = 120 := write_length length₁ (by omega)
  have length₃ : (write (toBuffer s (write m.handleYB.1 0 req1Tag) 4) 0 req2Tag).length = 120 :=
    write_length length₂ (by decide)
  have length₄ : (write (write (toBuffer s (write m.handleYB.1 0 req1Tag) 4) 0 req2Tag) 4 infoHash.bytes).length = 120 :=
    write_length length₃ (by omega)
  have req1 : (toBuffer s (write m.handleYB.1 0 req1Tag) 4).take 100 = (toBuffer s (write m.findReq1.1 0 req1Tag) 4).take 100 := by
    rw [tagged_full full rfl (by rw [m.handleYB.2]; decide),tagged_full full rfl (by rw [m.findReq1.2])]
  have req3 := (tagged_full full (show req3Tag.length = 4 from rfl) (by rw [length₄]; decide)).trans
    (tagged_full full (show req3Tag.length = 4 from rfl) (by rw [m.calculateSKey.2])).symm
  refine ⟨⟨trivial,trivial⟩,trivial,⟨?_,?_,?_⟩,?_,?_⟩
  · rw [req1]
  · unfold Keys.exchanged
    rw [req3,xor_xor]
  · rw [req3]
  · rw [encryptionKey_full full m.clientKeyA.2,encryptionKey_full full m.serverKeyA.2]
  · rw [encryptionKey_full full m.clientKeyB.2,encryptionKey_full full m.serverKeyB.2]

theorem lastByte_short (short : BigEndian.size s ≤ 95) (four : tag.length = 4) (room : 100 ≤ n) (b : UInt8) :
    lastByte ((toBuffer s (write (filled n b).1 0 tag) 4).take 100) 0 = b := by
  have long : 100 ≤ (filled n b).1.length := by rwa [(filled n b).2]
  have inside : (filled n b).1[99]? = some b := List.getElem?_replicate_of_lt (by omega)
  unfold lastByte
  rw [tagged_short short four long,inside]
  rfl

theorem full_of_agree {xa xb : Nat} (agree : ∀ m, Agree lastByte infoHash xa xb m) :
    256 ^ 95 ≤ 2 ^ xa % P ∧ 256 ^ 95 ≤ 2 ^ xb % P ∧ 256 ^ 95 ≤ 2 ^ (xa * xb) % P := by
  have ya : 256 ^ 95 ≤ publicKey xa := by
    refine (fromBuffer_iff (n := 608) (powerMod_lt 2 xa) (by decide)).mp ?_
    intro field
    exact (agree {Memory.unlike with connected := field}).1.2
  have yb : 256 ^ 95 ≤ publicKey xb := by
    refine (fromBuffer_iff (n := 608) (powerMod_lt 2 xb) (by decide)).mp ?_
    intro field
    exact (agree {Memory.unlike with sendYB := field}).1.1
  refine ⟨ya,yb,?_⟩
  by_contra less
  obtain ⟨⟨peerB,_⟩,secret,⟨req1,_⟩,_⟩ := agree Memory.unlike
  have secretA : (clientKeys lastByte infoHash xa (sentKey (publicKey xb) Memory.unlike.sendYB) Memory.unlike).s =
      dhSecret xa (publicKey xb) := congrArg (dhSecret xa) peerB
  have short : BigEndian.size (dhSecret xa (publicKey xb)) ≤ 95 := by
    rw [dhSecret_public,BigEndian.size_le_iff]
    exact Nat.not_le.mp less
  rw [← secretA] at short
  have zero := @lastByte_short _ req1Tag 120 short rfl (by decide) 0
  rw [secret] at short
  have one := @lastByte_short _ req1Tag 100 short rfl (by decide) 1
  have same := zero.symm.trans ((congrFun req1 0).trans one)
  simp at same

-- For every number and for every two private keys: the fields are read back,
-- and the two sides agree whatever the memory and the hash function hold,
-- exactly if what is written has its 96 bytes.
theorem agreement_iff_full (x xa xb : Nat) :
    (x < 256 ^ 96 → ((∀ field : Block 96, fromBuffer ((toBuffer x field.1 0).take 96) 96 = x) ↔ 256 ^ 95 ≤ x)) ∧
    ((∀ generate infoHash m, Agree generate infoHash xa xb m) ↔
      256 ^ 95 ≤ 2 ^ xa % P ∧ 256 ^ 95 ≤ 2 ^ xb % P ∧ 256 ^ 95 ≤ 2 ^ (xa * xb) % P) := by
  refine ⟨?_,?_⟩
  · intro small
    exact fromBuffer_iff small (Nat.le_refl 96)
  · constructor
    · intro agree
      exact full_of_agree (agree lastByte fun _ => 0)
    · rintro ⟨ya,yb,large⟩ generate infoHash m
      exact agree_of_full ya yb large

-- The keys 765 and 766 are such.
example : 256 ^ 95 ≤ 2 ^ 765 % P ∧ 256 ^ 95 ≤ 2 ^ 766 % P ∧ 256 ^ 95 ≤ 2 ^ (765 * 766) % P := by decide +kernel

-- The number 2 in a field of zeros is read back as 2 ^ 761, and the private
-- keys 1 and 2 give different secrets.
theorem small_keys_disagree :
    fromBuffer ((toBuffer 2 (filled 96 0).1 0).take 96) 96 = 2 * 256 ^ 95 ∧
    (clientKeys lastByte (fun _ => 0) 1 (sentKey (publicKey 2) (filled 608 0)) Memory.unlike).s ≠
      (serverKeys lastByte (fun _ => 0) 2 (sentKey (publicKey 1) (filled 608 0)) (fun _ => 0) Memory.unlike).s := by
  refine ⟨?_,?_⟩
  · decide +kernel
  · decide +kernel

end KtorrentStream.Mse
