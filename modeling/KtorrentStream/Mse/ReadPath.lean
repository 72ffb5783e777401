import KtorrentStream.Lib.Along
import KtorrentStream.Lib.Transducer
import KtorrentStream.Mse.Handover
import KtorrentStream.Util.Word
set_option autoImplicit true

namespace KtorrentStream.Mse
open KtorrentStream.Lib KtorrentStream.Util

-- The reading side of an EncryptedPacketSocket, with the bytes that wait in its socket.
structure EncryptedPacketSocket (σ : Type) where
  enc : Option σ
  reinsertedData : Option (List UInt8)
  reinsertedDataSize : Nat
  reinsertedDataRead : Nat
  unread : List UInt8

-- What recv gives: so many bytes at most, or -1 as nothing is there yet.
inductive Delivery where
  | amount (n : Nat)
  | nothing

-- The bytes that readData has stored in its buffer, and what it returns.
structure ReadResult (σ : Type) where
  stored : List UInt8
  ret : Nat
  sock : EncryptedPacketSocket σ

-- The cipher is a function of its state and a byte.
def decrypt {σ : Type} (cipher : σ → UInt8 → UInt8 × σ) (enc : Option σ) (data : List UInt8) : List UInt8 × Option σ :=
  match enc with
  | none => (data,none)
  | some s => ((transduce cipher s data).1,some (transduce cipher s data).2)

namespace EncryptedPacketSocket

variable {σ : Type} (cipher : σ → UInt8 → UInt8 × σ) (s : EncryptedPacketSocket σ)

def new : EncryptedPacketSocket σ := ⟨none,none,0,0,[]⟩

def setRC4Encryptor (e : Option σ) : EncryptedPacketSocket σ := {s with enc := e}

def reinsert (d : List UInt8) : EncryptedPacketSocket σ :=
  match s.reinsertedData with
  | some buf => {s with reinsertedData := some (buf ++ d),reinsertedDataSize := uint32 (s.reinsertedDataSize + d.length)}
  | none => {s with reinsertedData := some d,reinsertedDataSize := d.length}

-- reinserted_data_size - reinserted_data_read
def left : Nat := uint32Sub s.reinsertedDataSize s.reinsertedDataRead

def bytesAvailable : Nat :=
  let ba := uint32 s.unread.length
  if s.left > 0 then uint32 (ba + s.left) else ba

-- recv and all behind it, with ret2 bytes in the buffer. None: the decryption goes over
-- bytes that are not stored.
def receive (before : List UInt8) (len : Nat) : Delivery → Option (ReadResult σ)
  | .amount n =>
    let fresh := s.unread.take (min n (len - before.length))
    let done := decrypt cipher s.enc (before ++ fresh)
    some ⟨done.1,fresh.length,{s with unread := s.unread.drop (min n (len - before.length)),enc := done.2}⟩
  | .nothing =>
    let ret := 4294967295
    let whole := uint32 (ret + before.length)
    if s.enc.isSome ∧ whole > before.length then none
    else
      let done := decrypt cipher s.enc (before.take whole)
      some ⟨done.1 ++ before.drop whole,ret,{s with enc := done.2}⟩

def readData (len : Nat) (d : Delivery) : Option (ReadResult σ) :=
  match s.reinsertedData with
  | none => if len = 0 then some ⟨[],0,s⟩ else s.receive cipher [] len d
  | some buf =>
    let tr := s.left
    if tr < len then
      let first := decrypt cipher s.enc ((buf.drop s.reinsertedDataRead).take tr)
      {s with reinsertedData := none,reinsertedDataSize := 0,reinsertedDataRead := 0,enc := first.2}.receive cipher first.1 len d
    else
      let part := decrypt cipher s.enc ((buf.drop s.reinsertedDataRead).take len)
      some ⟨part.1,len,{s with reinsertedDataRead := s.reinsertedDataRead + len,enc := part.2}⟩

def startMonitoring : List UInt8 × EncryptedPacketSocket σ :=
  match s.reinsertedData with
  | none => ([],s)
  | some buf =>
    let part := decrypt cipher s.enc ((buf.drop s.reinsertedDataRead).take s.left)
    (part.1,{s with reinsertedData := none,reinsertedDataSize := 0,enc := part.2})

end EncryptedPacketSocket

-- A run: all that came out of the socket, by readData and for the reader, and all that
-- arrived at it.
structure ReadRun (σ : Type) where
  sock : EncryptedPacketSocket σ
  out : List UInt8
  arrived : List UInt8

inductive ReadEvent where
  | arrive (bytes : List UInt8)
  | readData (len : UInt32) (d : Delivery)
  | startMonitoring

-- The bytes that are put back, and the cipher that is then enabled.
structure Reinserted (σ : Type) where
  pieces : List (List UInt8)
  enc : Option σ
  fits : pieces.flatten.length < 4294967296

namespace ReadRun

variable {σ : Type} (cipher : σ → UInt8 → UInt8 × σ)

def start (b : Reinserted σ) : ReadRun σ :=
  ⟨(b.pieces.foldl EncryptedPacketSocket.reinsert .new).setRC4Encryptor b.enc,[],[]⟩

def step (r : ReadRun σ) : ReadEvent → ReadRun σ
  | .arrive bytes => {r with sock := {r.sock with unread := r.sock.unread ++ bytes},arrived := r.arrived ++ bytes}
  | .readData len d =>
    match r.sock.readData cipher len.toNat d with
    | none => r
    | some result => {r with sock := result.sock,out := r.out ++ result.stored}
  | .startMonitoring => {r with sock := (r.sock.startMonitoring cipher).2,out := r.out ++ (r.sock.startMonitoring cipher).1}

-- readData returns the number of bytes it stored.
def Exact (r : ReadRun σ) : ReadEvent → Prop
  | .readData len d => ∃ result, r.sock.readData cipher len.toNat d = some result ∧ result.ret = result.stored.length
  | _ => True

-- The bytes that came out are the first ones of the stream, decrypted, and the number of
-- those that are left is right.
structure Delivered (b : Reinserted σ) (r : ReadRun σ) : Prop where
  out : r.out = (decrypt cipher b.enc ((b.pieces.flatten ++ r.arrived).take r.out.length)).1
  available : r.sock.bytesAvailable = uint32 (b.pieces.flatten.length - r.out.length + r.sock.unread.length)

def Right (b : Reinserted σ) (r : ReadRun σ) (e : ReadEvent) : Prop := Exact cipher r e ∧ Delivered cipher b (step cipher r e)

-- No readData goes on to the socket while reinserted bytes are left, or when nothing is
-- there; and startMonitoring finds the reinserted data untouched or gone.
def Apart (r : ReadRun σ) : ReadEvent → Prop
  | .arrive _ => True
  | .readData len d =>
    (r.sock.reinsertedData.isSome ∧ len.toNat ≤ r.sock.left) ∨ len.toNat = 0 ∨
      ((r.sock.reinsertedData = none ∨ r.sock.left = 0) ∧ d ≠ .nothing)
  | .startMonitoring => r.sock.reinsertedData = none ∨ r.sock.reinsertedDataRead = 0

end ReadRun


theorem decrypt_append {σ : Type} (cipher : σ → UInt8 → UInt8 × σ) (enc : Option σ) (before after : List UInt8) :
    decrypt cipher enc (before ++ after) =
      ((decrypt cipher enc before).1 ++ (decrypt cipher (decrypt cipher enc before).2 after).1,
        (decrypt cipher (decrypt cipher enc before).2 after).2) := by
  cases enc with
  | none => rfl
  | some s =>
      simp only [decrypt]
      rw [transduce_append]

theorem decrypt_length {σ : Type} (cipher : σ → UInt8 → UInt8 × σ) (enc : Option σ) (data : List UInt8) :
    (decrypt cipher enc data).1.length = data.length := by
  cases enc with
  | none => rfl
  | some s => exact transduce_length s data

namespace EncryptedPacketSocket

variable {σ : Type} {cipher : σ → UInt8 → UInt8 × σ} {s : EncryptedPacketSocket σ}

-- The reinserted bytes that are still to be read.
def waiting (s : EncryptedPacketSocket σ) : List UInt8 :=
  match s.reinsertedData with
  | none => []
  | some buf => buf.drop s.reinsertedDataRead

-- The three fields that describe the reinserted bytes agree.
structure Tidy (s : EncryptedPacketSocket σ) : Prop where
  held : ∀ buf, s.reinsertedData = some buf →
    s.reinsertedDataSize = buf.length ∧ s.reinsertedDataRead ≤ buf.length ∧ buf.length < 4294967296
  gone : s.reinsertedData = none → s.reinsertedDataSize = 0 ∧ s.reinsertedDataRead = 0

theorem Tidy.left_eq (tidy : s.Tidy) : s.left = s.waiting.length := by
  cases data : s.reinsertedData with
  | none =>
      obtain ⟨size,read⟩ := tidy.gone data
      simp only [left,waiting,data,size,read]
      rfl
  | some buf =>
      obtain ⟨size,read,fits⟩ := tidy.held buf data
      simp only [left,waiting,data,List.length_drop,size]
      exact uint32Sub_of_le read fits

theorem Tidy.waiting_small (tidy : s.Tidy) : s.waiting.length < 4294967296 := by
  rw [←tidy.left_eq]
  exact Nat.mod_lt _ (by decide)

theorem Tidy.available (tidy : s.Tidy) : s.bytesAvailable = uint32 (s.waiting.length + s.unread.length) := by
  have small := tidy.waiting_small
  simp only [bytesAvailable,tidy.left_eq,uint32]
  split <;> omega

theorem waiting_of_gone (gone : s.reinsertedData = none) : s.waiting = [] := by
  rw [waiting,gone]

end EncryptedPacketSocket

namespace ReadRun

variable {σ : Type} {cipher : σ → UInt8 → UInt8 × σ} {b : Reinserted σ} {r : ReadRun σ}

-- What came out is the beginning of the stream, decrypted, and what waits is the rest.
structure Following (cipher : σ → UInt8 → UInt8 × σ) (b : Reinserted σ) (r : ReadRun σ) : Prop where
  tidy : r.sock.Tidy
  bound : r.out.length ≤ b.pieces.flatten.length + r.arrived.length
  out : r.out = (decrypt cipher b.enc ((b.pieces.flatten ++ r.arrived).take r.out.length)).1
  enc : r.sock.enc = (decrypt cipher b.enc ((b.pieces.flatten ++ r.arrived).take r.out.length)).2
  rest : r.sock.waiting ++ r.sock.unread = (b.pieces.flatten ++ r.arrived).drop r.out.length
  count : r.sock.waiting.length = b.pieces.flatten.length - r.out.length

theorem Following.delivered (following : Following cipher b r) : Delivered cipher b r where
  out := following.out
  available := by
    rw [following.tidy.available,following.count]

theorem Following.took (following : Following cipher b r) {sock : EncryptedPacketSocket σ} {taken : List UInt8}
    (split : r.sock.waiting ++ r.sock.unread = taken ++ (sock.waiting ++ sock.unread))
    (enc : sock.enc = (decrypt cipher r.sock.enc taken).2) (tidy : sock.Tidy)
    (count : sock.waiting.length = r.sock.waiting.length - taken.length) :
    Following cipher b {r with sock := sock,out := r.out ++ (decrypt cipher r.sock.enc taken).1} := by
  have behind : (b.pieces.flatten ++ r.arrived).drop r.out.length = taken ++ (sock.waiting ++ sock.unread) := following.rest.symm.trans split
  have upTo : (b.pieces.flatten ++ r.arrived).take (r.out.length + taken.length) =
      (b.pieces.flatten ++ r.arrived).take r.out.length ++ taken := by
    rw [List.take_add,behind,List.take_left]
  have room := congrArg List.length behind
  have total : (r.out ++ (decrypt cipher r.sock.enc taken).1).length = r.out.length + taken.length := by
    rw [List.length_append,decrypt_length]
  refine ⟨tidy,?_,?_,?_,?_,?_⟩
  · simp only [List.length_drop,List.length_append,total] at room ⊢
    have := following.bound
    omega
  · show r.out ++ (decrypt cipher r.sock.enc taken).1 = _
    rw [total,upTo,decrypt_append,←following.enc,←following.out]
  · show sock.enc = _
    rw [total,upTo,decrypt_append,←following.enc,enc]
  · show sock.waiting ++ sock.unread = _
    rw [total,←List.drop_drop,behind,List.drop_left]
  · show sock.waiting.length = _
    rw [total,count,following.count]
    omega

theorem Following.arrive (following : Following cipher b r) (bytes : List UInt8) : Following cipher b (r.step cipher (.arrive bytes)) := by
  have bound := following.bound
  rw [←List.length_append] at bound
  have same : (b.pieces.flatten ++ (r.arrived ++ bytes)).take r.out.length = (b.pieces.flatten ++ r.arrived).take r.out.length := by
    rw [←List.append_assoc,List.take_append_of_le_length bound]
  refine ⟨⟨following.tidy.held,following.tidy.gone⟩,?_,?_,?_,?_,following.count⟩
  · have := following.bound
    simp only [step,List.length_append]
    omega
  · simp only [step]
    rw [same]
    exact following.out
  · simp only [step]
    rw [same]
    exact following.enc
  · simp only [step]
    rw [←List.append_assoc b.pieces.flatten,List.drop_append_of_le_length bound,←following.rest,List.append_assoc]
    rfl

theorem Following.readHeld (following : Following cipher b r) (data : r.sock.reinsertedData = some buf) (fits : len.toNat ≤ r.sock.left) :
    Exact cipher r (.readData len d) ∧ Following cipher b (r.step cipher (.readData len d)) := by
  obtain ⟨size,read,small⟩ := following.tidy.held buf data
  have left := following.tidy.left_eq
  have waiting : r.sock.waiting = buf.drop r.sock.reinsertedDataRead := by
    rw [EncryptedPacketSocket.waiting,data]
  have enough : len.toNat ≤ (buf.drop r.sock.reinsertedDataRead).length := by
    rw [←waiting,←left]
    exact fits
  have reads : r.sock.readData cipher len.toNat d =
      some ⟨(decrypt cipher r.sock.enc ((buf.drop r.sock.reinsertedDataRead).take len.toNat)).1,len.toNat,
        {r.sock with
          reinsertedDataRead := r.sock.reinsertedDataRead + len.toNat
          enc := (decrypt cipher r.sock.enc ((buf.drop r.sock.reinsertedDataRead).take len.toNat)).2}⟩ := by
    simp only [EncryptedPacketSocket.readData,data]
    rw [if_neg (Nat.not_lt.mpr fits)]
  have length : ((buf.drop r.sock.reinsertedDataRead).take len.toNat).length = len.toNat := List.length_take_of_le enough
  constructor
  · refine ⟨_,reads,?_⟩
    rw [decrypt_length,length]
  · rw [step,reads]
    apply following.took
    · simp only [EncryptedPacketSocket.waiting,data]
      rw [←List.append_assoc,←List.drop_drop,List.take_append_drop]
    · rfl
    · refine ⟨fun other held => ?_,fun gone => absurd (data.symm.trans gone) (by nofun)⟩
      obtain rfl : buf = other := Option.some.inj (data.symm.trans held)
      refine ⟨size,?_,small⟩
      rw [List.length_drop] at enough
      exact Nat.le_sub_iff_add_le' read |>.mp enough
    · simp only [EncryptedPacketSocket.waiting,data,length,List.length_drop]
      omega

-- A read that goes on to the socket when no reinserted bytes are left.
theorem Following.receive (following : Following cipher b r) {sock : EncryptedPacketSocket σ} (tidy : sock.Tidy)
    (gone : sock.reinsertedData = none) (empty : r.sock.waiting = []) (unread : sock.unread = r.sock.unread) (enc : sock.enc = r.sock.enc)
    (reads : r.sock.readData cipher len.toNat (.amount n) = sock.receive cipher [] len.toNat (.amount n)) :
    Exact cipher r (.readData len (.amount n)) ∧ Following cipher b (r.step cipher (.readData len (.amount n))) := by
  rw [EncryptedPacketSocket.receive,List.nil_append,enc] at reads
  constructor
  · refine ⟨_,reads,?_⟩
    rw [decrypt_length]
  · rw [step,reads]
    apply following.took
    · rw [empty]
      simp only [EncryptedPacketSocket.waiting,gone,List.nil_append]
      rw [List.take_append_drop,unread]
    · rfl
    · exact ⟨tidy.held,tidy.gone⟩
    · rw [empty]
      simp only [EncryptedPacketSocket.waiting,gone]
      exact (Nat.zero_sub _).symm

theorem Following.readEmpty (following : Following cipher b r) (some_len : len.toNat ≠ 0)
    (finished : r.sock.reinsertedData = none ∨ r.sock.left = 0) (arrives : d ≠ .nothing) :
    Exact cipher r (.readData len d) ∧ Following cipher b (r.step cipher (.readData len d)) := by
  cases d with
  | nothing => exact absurd rfl arrives
  | amount n =>
      cases data : r.sock.reinsertedData with
      | none =>
          have reads : r.sock.readData cipher len.toNat (.amount n) = r.sock.receive cipher [] len.toNat (.amount n) := by
            simp only [EncryptedPacketSocket.readData,data]
            rw [if_neg some_len]
          exact following.receive following.tidy data (EncryptedPacketSocket.waiting_of_gone data) rfl rfl reads
      | some buf =>
          have left : r.sock.left = 0 := finished.resolve_left (by rw [data]; nofun)
          have empty : r.sock.waiting = [] := by
            rw [←List.length_eq_zero_iff,←following.tidy.left_eq,left]
          have nothing (enc : Option σ) : decrypt cipher enc [] = ([],enc) := by
            cases enc <;> rfl
          have reads : r.sock.readData cipher len.toNat (.amount n) =
              {r.sock with reinsertedData := none,reinsertedDataSize := 0,reinsertedDataRead := 0}.receive cipher [] len.toNat (.amount n) := by
            simp only [EncryptedPacketSocket.readData,data,left,List.take_zero,nothing]
            rw [if_pos (Nat.pos_of_ne_zero some_len)]
          have tidy : ({r.sock with reinsertedData := none,reinsertedDataSize := 0,reinsertedDataRead := 0} : EncryptedPacketSocket σ).Tidy :=
            ⟨fun _ held => absurd held (by nofun),fun _ => ⟨rfl,rfl⟩⟩
          exact following.receive tidy rfl empty rfl rfl reads

theorem Following.readNone (following : Following cipher b r) (none_len : len.toNat = 0) :
    Exact cipher r (.readData len d) ∧ Following cipher b (r.step cipher (.readData len d)) := by
  cases data : r.sock.reinsertedData with
  | some buf => exact following.readHeld data (none_len ▸ Nat.zero_le _)
  | none =>
      have reads : r.sock.readData cipher len.toNat d = some ⟨[],0,r.sock⟩ := by
        simp only [EncryptedPacketSocket.readData,data]
        rw [if_pos none_len]
      refine ⟨⟨_,reads,rfl⟩,?_⟩
      rw [step,reads]
      simp only [List.append_nil]
      exact following

theorem Following.handedOver (following : Following cipher b r) (data : r.sock.reinsertedData = some buf) (untouched : r.sock.reinsertedDataRead = 0) :
    Following cipher b (r.step cipher .startMonitoring) := by
  obtain ⟨size,read,small⟩ := following.tidy.held buf data
  have waiting : r.sock.waiting = buf.drop r.sock.reinsertedDataRead := by
    rw [EncryptedPacketSocket.waiting,data]
  have whole : (buf.drop r.sock.reinsertedDataRead).take r.sock.left = r.sock.waiting := by
    rw [following.tidy.left_eq,waiting,List.take_length]
  simp only [step,EncryptedPacketSocket.startMonitoring,data,whole]
  apply following.took
  · rfl
  · rfl
  · exact ⟨fun _ held => absurd held (by nofun),fun _ => ⟨rfl,untouched⟩⟩
  · rw [Nat.sub_self]
    rfl

theorem Following.stepped (following : Following cipher b r) (apart : Apart r e) :
    Exact cipher r e ∧ Following cipher b (r.step cipher e) := by
  cases e with
  | arrive bytes => exact ⟨trivial,following.arrive bytes⟩
  | readData len d =>
      rcases apart with ⟨held,fits⟩ | zero | ⟨finished,arrives⟩
      · obtain ⟨buf,data⟩ := Option.isSome_iff_exists.mp held
        exact following.readHeld data fits
      · exact following.readNone zero
      · by_cases zero : len.toNat = 0
        · exact following.readNone zero
        · exact following.readEmpty zero finished arrives
  | startMonitoring =>
      refine ⟨trivial,?_⟩
      cases data : r.sock.reinsertedData with
      | none =>
          simp only [step,EncryptedPacketSocket.startMonitoring,data,List.append_nil]
          exact following
      | some buf => exact following.handedOver data (apart.resolve_left (by rw [data]; nofun))

-- What recv returns is never the whole of what was stored behind other bytes.
theorem receive_short {s : EncryptedPacketSocket σ} {before : List UInt8} (some_before : before ≠ []) (small : before.length < 4294967295)
    {result : ReadResult σ} (received : s.receive cipher before len d = some result) : result.ret ≠ result.stored.length := by
  have positive := List.length_pos_iff.mpr some_before
  cases d with
  | amount n =>
      obtain rfl := Option.some.inj received
      simp only [decrypt_length,List.length_append]
      omega
  | nothing =>
      rw [EncryptedPacketSocket.receive] at received
      simp only at received
      split at received
      · exact absurd received (by nofun)
      · obtain rfl := Option.some.inj received
        simp only [decrypt_length,List.length_append,List.length_take,List.length_drop]
        omega

theorem receive_nothing {s : EncryptedPacketSocket σ} {result : ReadResult σ} (received : s.receive cipher [] len .nothing = some result) :
    result.ret ≠ result.stored.length := by
  rw [EncryptedPacketSocket.receive] at received
  simp only at received
  split at received
  · exact absurd received (by nofun)
  · obtain rfl := Option.some.inj received
    simp [decrypt_length]

-- A read that does not keep them apart does not return the number of bytes it stored.
theorem Following.exact_apart (following : Following cipher b r) (exact : Exact cipher r (.readData len d)) : Apart r (.readData len d) := by
  obtain ⟨result,reads,same⟩ := exact
  by_cases zero : len.toNat = 0
  · exact Or.inr (Or.inl zero)
  · cases data : r.sock.reinsertedData with
    | none =>
        refine Or.inr (Or.inr ⟨Or.inl data,?_⟩)
        rintro rfl
        simp only [EncryptedPacketSocket.readData,data] at reads
        rw [if_neg zero] at reads
        exact receive_nothing reads same
    | some buf =>
        by_cases fits : len.toNat ≤ r.sock.left
        · exact Or.inl ⟨by rw [data]; rfl,fits⟩
        · have crosses := Nat.lt_of_not_ge fits
          simp only [EncryptedPacketSocket.readData,data] at reads
          rw [if_pos crosses] at reads
          have whole : (buf.drop r.sock.reinsertedDataRead).take r.sock.left = r.sock.waiting := by
            rw [following.tidy.left_eq,EncryptedPacketSocket.waiting,data,List.take_length]
          rw [whole] at reads
          by_cases empty : r.sock.waiting = []
          · refine Or.inr (Or.inr ⟨Or.inr ?_,?_⟩)
            · rw [following.tidy.left_eq,empty]
              rfl
            · rintro rfl
              have nothing : (decrypt cipher r.sock.enc ([] : List UInt8)).1 = [] := List.length_eq_zero_iff.mp (decrypt_length cipher _ [])
              rw [empty,nothing] at reads
              exact receive_nothing reads same
          · refine absurd same (receive_short (fun none => empty ?_) ?_ reads)
            · rw [←List.length_eq_zero_iff,←decrypt_length cipher r.sock.enc,none]
              rfl
            · rw [decrypt_length,←following.tidy.left_eq]
              have := len.toNat_lt
              omega

-- The count that is left behind makes bytesAvailable wrong.
theorem Following.monitoring_apart (following : Following cipher b r) (delivered : Delivered cipher b (r.step cipher .startMonitoring)) :
    Apart r .startMonitoring := by
  by_contra touched
  obtain ⟨held,read⟩ := not_or.mp touched
  obtain ⟨buf,data⟩ := Option.ne_none_iff_exists'.mp held
  obtain ⟨size,bound,small⟩ := following.tidy.held buf data
  have whole : (buf.drop r.sock.reinsertedDataRead).take r.sock.left = r.sock.waiting := by
    rw [following.tidy.left_eq,EncryptedPacketSocket.waiting,data,List.take_length]
  have all : (r.step cipher .startMonitoring).out.length = r.out.length + r.sock.waiting.length := by
    simp only [step,EncryptedPacketSocket.startMonitoring,data,whole,List.length_append,decrypt_length]
  have available := delivered.available
  rw [all,following.count] at available
  have none_left : b.pieces.flatten.length - (r.out.length + (b.pieces.flatten.length - r.out.length)) = 0 := by
    omega
  rw [none_left,Nat.zero_add] at available
  simp only [step,EncryptedPacketSocket.startMonitoring,data,EncryptedPacketSocket.bytesAvailable,EncryptedPacketSocket.left,uint32Sub,uint32] at available
  split at available <;> omega

theorem Following.right_iff (following : Following cipher b r) : Right cipher b r e ↔ Apart r e := by
  constructor
  · rintro ⟨exact,delivered⟩
    cases e with
    | arrive bytes => trivial
    | readData len d => exact following.exact_apart exact
    | startMonitoring => exact following.monitoring_apart delivered
  · intro apart
    obtain ⟨exact,after⟩ := following.stepped apart
    exact ⟨exact,after.delivered⟩

end ReadRun

namespace EncryptedPacketSocket

variable {σ : Type} {s : EncryptedPacketSocket σ}

-- The bytes that were put back, before anything is read.
structure Holding (s : EncryptedPacketSocket σ) (bytes : List UInt8) : Prop where
  tidy : s.Tidy
  read : s.reinsertedDataRead = 0
  unread : s.unread = []
  waiting : s.waiting = bytes

theorem Holding.reinsert (holding : s.Holding bytes) (fits : (bytes ++ d).length < 4294967296) : (s.reinsert d).Holding (bytes ++ d) := by
  rw [List.length_append] at fits
  have whole := holding.waiting
  cases data : s.reinsertedData with
  | none =>
      rw [waiting_of_gone data] at whole
      subst bytes
      simp only [EncryptedPacketSocket.reinsert,data]
      refine ⟨⟨fun buf held => ?_,fun gone => absurd gone (by nofun)⟩,holding.read,holding.unread,?_⟩
      · obtain rfl := Option.some.inj held
        refine ⟨rfl,?_,?_⟩
        · rw [holding.read]
          exact Nat.zero_le _
        · omega
      · simp only [EncryptedPacketSocket.waiting,holding.read]
        rfl
  | some buf =>
      obtain ⟨size,_,small⟩ := holding.tidy.held buf data
      obtain rfl : buf = bytes := by
        rw [EncryptedPacketSocket.waiting,data,holding.read] at whole
        exact whole
      simp only [EncryptedPacketSocket.reinsert,data]
      refine ⟨⟨fun other held => ?_,fun gone => absurd gone (by nofun)⟩,holding.read,holding.unread,?_⟩
      · obtain rfl := Option.some.inj held
        refine ⟨?_,?_,?_⟩
        · rw [size,List.length_append,uint32_of_lt fits]
        · rw [holding.read]
          exact Nat.zero_le _
        · rw [List.length_append]
          exact fits
      · simp only [EncryptedPacketSocket.waiting,holding.read]
        rfl

theorem Holding.pieces (holding : s.Holding bytes) (pieces : List (List UInt8)) (fits : (bytes ++ pieces.flatten).length < 4294967296) :
    (pieces.foldl EncryptedPacketSocket.reinsert s).Holding (bytes ++ pieces.flatten) := by
  induction pieces generalizing s bytes with
  | nil =>
      rw [List.flatten_nil,List.append_nil]
      exact holding
  | cons d rest ih =>
      rw [List.flatten_cons,←List.append_assoc] at fits ⊢
      refine ih (holding.reinsert ?_) fits
      rw [List.length_append] at fits
      omega

theorem new_holding : (new : EncryptedPacketSocket σ).Holding [] := ⟨⟨nofun,fun _ => ⟨rfl,rfl⟩⟩,rfl,rfl,rfl⟩

end EncryptedPacketSocket

namespace ReadRun

theorem start_following {σ : Type} (cipher : σ → UInt8 → UInt8 × σ) (b : Reinserted σ) : Following cipher b (start b) := by
  have holding := (EncryptedPacketSocket.new_holding : (EncryptedPacketSocket.new : EncryptedPacketSocket σ).Holding []).pieces b.pieces b.fits
  rw [List.nil_append] at holding
  have nothing : decrypt cipher b.enc ([] : List UInt8) = ([],b.enc) := by
    cases b.enc <;> rfl
  refine ⟨⟨holding.tidy.held,holding.tidy.gone⟩,Nat.zero_le _,?_,?_,?_,?_⟩
  · exact (congrArg Prod.fst nothing).symm
  · exact (congrArg Prod.snd nothing).symm
  · show EncryptedPacketSocket.waiting _ ++ EncryptedPacketSocket.unread _ = b.pieces.flatten ++ []
    rw [←holding.waiting]
    exact congrArg _ holding.unread
  · exact congrArg List.length holding.waiting

theorem right_iff_apart {σ : Type} (cipher : σ → UInt8 → UInt8 × σ) (b : Reinserted σ) (events : List ReadEvent) :
    Delivered cipher b (start b) ∧
      (Along (step cipher) (Right cipher b) (start b) events ↔ Along (step cipher) Apart (start b) events) := by
  have following := start_following cipher b
  have every : Along (step cipher) (fun _ _ => True) (start b) events := Along.always (fun _ _ => trivial) _ _
  refine ⟨following.delivered,every.congr following ?_ ?_⟩
  · intro _ _ following _
    exact following.right_iff
  · intro _ _ following _ apart
    exact (following.stepped apart).2

-- Two bytes were put back and one arrives: the read of three decrypts the first two twice
-- and returns 1.
theorem crossing_decrypts_twice :
    let cipher := fun (key b : UInt8) => (b ^^^ key,key + 1)
    let b : Reinserted UInt8 := ⟨[[10,20]],some 1,by decide⟩
    let events := [.arrive [30],.readData 3 (.amount 1)]
    (events.foldl (step cipher) (start b)).out = [8,18,27] ∧ (decrypt cipher b.enc [10,20,30]).1 = [11,22,29] ∧
      ¬Along (step cipher) (Right cipher b) (start b) events := by
  refine ⟨by decide,by decide,?_⟩
  intro along
  have wrong := along.2.1.2.out
  revert wrong
  decide

end ReadRun

-- The sockets of the handshake are EncryptedPacketSockets: RC4 has a key and a place in its
-- stream.
def rc4 (stream : Nat → UInt8) (pos : Nat) (b : UInt8) : UInt8 × Nat := (b ^^^ stream pos,pos + 1)

theorem transduce_rc4 (stream : Nat → UInt8) (pos : Nat) (data : List UInt8) :
    transduce (rc4 stream) pos data = (crypt stream pos data,pos + data.length) := by
  induction data generalizing pos with
  | nil => rfl
  | cons b rest ih =>
      rw [transduce,rc4,ih,crypt,crypt,List.mapIdx_cons,List.length_cons]
      simp only [Nat.add_zero,Nat.add_assoc,Nat.add_comm 1]

theorem decrypt_rc4 (h : Host) (enc : Option Decryptor) (key : Hash) (keyed : ∀ d, enc = some d → d.key = key) (data : List UInt8) :
    decrypt (rc4 (h.keystream key)) (enc.map Decryptor.pos) data =
      (decryptWith h enc data,(usedBy data.length enc).map Decryptor.pos) := by
  cases enc with
  | none => rfl
  | some d =>
      obtain rfl := keyed d rfl
      simp only [decrypt,Option.map_some,transduce_rc4,decryptWith,usedBy]

namespace EncryptedServerAuthenticate

structure Agrees (key : Hash) (s : EncryptedPacketSocket Nat) (a : EncryptedServerAuthenticate) : Prop where
  tidy : s.Tidy
  waiting : s.waiting = a.reinserted
  unread : s.unread = a.unread
  enc : s.enc = a.enc.map Decryptor.pos
  keyed : ∀ d, a.enc = some d → d.key = key

theorem usedBy_keyed {enc : Option Decryptor} (keyed : ∀ d, enc = some d → d.key = key) : ∀ d, usedBy n enc = some d → d.key = key := by
  cases enc with
  | none => nofun
  | some e =>
      rintro d used
      obtain rfl := Option.some.inj used
      exact keyed e rfl

theorem usedBy_usedBy (enc : Option Decryptor) : usedBy m (usedBy n enc) = usedBy (n + m) enc := by
  cases enc with
  | none => rfl
  | some d => simp only [usedBy,Option.map_some,Nat.add_assoc]

theorem Agrees.readHeld {a : EncryptedServerAuthenticate} {s : EncryptedPacketSocket Nat} {buf : List UInt8} (h : Host) (agrees : Agrees key s a)
    (data : s.reinsertedData = some buf) (fits : len ≤ a.reinserted.length) :
    ∃ result, s.readData (rc4 (h.keystream key)) len d = some result ∧ result.stored = (a.readData h len).1 ∧
      Agrees key result.sock (a.readData h len).2 := by
  have left : s.left = a.reinserted.length := by
    rw [agrees.tidy.left_eq,agrees.waiting]
  have waiting := agrees.waiting
  rw [EncryptedPacketSocket.waiting,data] at waiting
  have length : (a.reinserted.take len).length = len := List.length_take_of_le fits
  obtain ⟨size,read,small⟩ := agrees.tidy.held buf data
  simp only at waiting
  rw [EncryptedPacketSocket.readData,data]
  simp only
  rw [if_neg (by omega),waiting,agrees.enc,decrypt_rc4 h a.enc key agrees.keyed,length,readData]
  simp only
  rw [if_pos fits]
  refine ⟨_,rfl,rfl,?_,?_,agrees.unread,rfl,usedBy_keyed agrees.keyed⟩
  · refine ⟨fun other held => ?_,fun gone => absurd gone (by nofun)⟩
    obtain rfl : buf = other := Option.some.inj held
    refine ⟨size,?_,small⟩
    rw [←waiting,List.length_drop] at fits
    exact Nat.le_sub_iff_add_le' read |>.mp fits
  · simp only [EncryptedPacketSocket.waiting]
    rw [←List.drop_drop,waiting]

theorem Agrees.receive {a : EncryptedServerAuthenticate} {s sock : EncryptedPacketSocket Nat} (h : Host) (agrees : Agrees key s a)
    (tidy : sock.Tidy) (gone : sock.reinsertedData = none) (arrived : sock.unread = a.unread)
    (used : sock.enc = (usedBy a.reinserted.length a.enc).map Decryptor.pos) (crosses : a.reinserted.length < len) :
    ∃ result, sock.receive (rc4 (h.keystream key)) (decryptWith h a.enc a.reinserted) len (.amount len) = some result ∧
      result.stored = (a.readData h len).1 ∧ Agrees key result.sock (a.readData h len).2 := by
  have room : min len (len - a.reinserted.length) = len - a.reinserted.length := Nat.min_eq_right (Nat.sub_le _ _)
  simp only [EncryptedPacketSocket.receive,decryptWith_length,room]
  rw [used,arrived,decrypt_rc4 h _ key (usedBy_keyed agrees.keyed),readData]
  simp only
  rw [if_neg (Nat.not_le.mpr crosses)]
  refine ⟨_,rfl,rfl,⟨tidy.held,tidy.gone⟩,?_,rfl,?_,usedBy_keyed agrees.keyed⟩
  · simp only [EncryptedPacketSocket.waiting,gone]
  · simp only [usedBy_usedBy,List.length_append,decryptWith_length]

-- readData does there what it does here when all that has arrived is delivered.
theorem Agrees.readData {a : EncryptedServerAuthenticate} {s : EncryptedPacketSocket Nat} (h : Host) (agrees : Agrees key s a) (len : Nat) :
    ∃ result, s.readData (rc4 (h.keystream key)) len (.amount len) = some result ∧ result.stored = (a.readData h len).1 ∧
      Agrees key result.sock (a.readData h len).2 := by
  cases data : s.reinsertedData with
  | none =>
      have empty : a.reinserted = [] := agrees.waiting.symm.trans (EncryptedPacketSocket.waiting_of_gone data)
      have nothing : decryptWith h a.enc [] = [] := List.length_eq_zero_iff.mp (decryptWith_length a.enc [])
      have unused : usedBy 0 a.enc = a.enc := by
        cases a.enc <;> rfl
      rw [EncryptedPacketSocket.readData,data]
      simp only
      split
      next zero =>
        subst zero
        rw [EncryptedServerAuthenticate.readData]
        simp only
        rw [if_pos (Nat.zero_le _),List.take_zero,nothing,unused]
        exact ⟨_,rfl,rfl,agrees.tidy,agrees.waiting,agrees.unread,agrees.enc,agrees.keyed⟩
      next some_len =>
        have crosses : a.reinserted.length < len := by
          rw [empty]
          exact Nat.pos_of_ne_zero some_len
        have received := agrees.receive h agrees.tidy data agrees.unread (by rw [empty,List.length_nil,unused,agrees.enc]) crosses
        rw [empty,nothing] at received
        exact received
  | some buf =>
      by_cases fits : len ≤ a.reinserted.length
      · exact agrees.readHeld h data fits
      · have crosses := Nat.lt_of_not_ge fits
        have whole : (buf.drop s.reinsertedDataRead).take s.left = a.reinserted := by
          rw [agrees.tidy.left_eq,←agrees.waiting,EncryptedPacketSocket.waiting,data,List.take_length]
        rw [EncryptedPacketSocket.readData,data]
        simp only
        rw [whole,agrees.enc,decrypt_rc4 h a.enc key agrees.keyed,if_pos (by rw [agrees.tidy.left_eq,agrees.waiting]; exact crosses)]
        refine agrees.receive h ?_ rfl agrees.unread rfl crosses
        exact ⟨fun _ held => absurd held (by nofun),fun _ => ⟨rfl,rfl⟩⟩

end EncryptedServerAuthenticate

end KtorrentStream.Mse
