import KtorrentStream.Utp.Protocol
set_option autoImplicit true

namespace KtorrentStream.Utp

-- What dataReceived hands on: no fewer bytes than a header has, and no more than fit
-- into one UDP datagram.
structure Datagram where
  bytes : List UInt8
  header : 20 ≤ bytes.length
  short : bytes.length < 65536

def PacketParser.dataSize (parser : PacketParser) (packet : List UInt8) : UInt32 :=
  UInt32.ofNat packet.length - UInt32.ofNat parser.dataOffset

-- Nothing behind the packet is read, and what parse reports lies inside it.
def Parse.Safe (packet : List UInt8) : Parse → Prop
  | .undefined => False
  | .rejected => True
  | .accepted parser =>
      20 ≤ parser.dataOffset ∧ parser.dataOffset ≤ packet.length ∧
      parser.dataOffset + (parser.dataSize packet).toNat = packet.length ∧
      ∀ sack, parser.selectiveAck = some sack →
        ∃ off, off + sack.length.toNat ≤ packet.length ∧ sack.bitmask = (packet.drop off).take sack.length.toNat

theorem drop_shorter (next length : UInt8) (rest : List UInt8) :
    (rest.drop length.toNat).length < (next :: length :: rest).length := by
  rw [List.length_drop,List.length_cons,List.length_cons]
  omega

-- The chain of header extensions from one with the given id on. Every extension has
-- both of its bytes, and only a selective ack may claim more than there is.
def ChainFits (extId : UInt8) (bytes : List UInt8) : Prop :=
  if extId = 0 then True
  else
    match bytes with
    | [] => True
    | [_] => False
    | next :: length :: rest =>
        if length.toNat ≤ rest.length then ChainFits next (rest.drop length.toNat) else extId = selectiveAckId
termination_by bytes.length
decreasing_by exact drop_shorter next length rest

theorem chainFits_last (bytes : List UInt8) : ChainFits 0 bytes := by
  rw [ChainFits.eq_def,if_pos rfl]
  trivial

theorem chainFits_nil (extId : UInt8) : ChainFits extId [] := by
  rw [ChainFits]
  split <;> trivial

theorem chainFits_single (more : extId ≠ 0) (byte : UInt8) : ¬ ChainFits extId [byte] := by
  rw [ChainFits,if_neg more]
  exact id

theorem chainFits_cons (more : extId ≠ 0) (next length : UInt8) (rest : List UInt8) :
    ChainFits extId (next :: length :: rest) ↔
      if length.toNat ≤ rest.length then ChainFits next (rest.drop length.toNat) else extId = selectiveAckId := by
  rw [ChainFits,if_neg more]

def MaskInside (packet : List UInt8) (found : Option SelectiveAck) : Prop :=
  ∀ sack, found = some sack → ∃ off, off + sack.length.toNat ≤ packet.length ∧ sack.bitmask = (packet.drop off).take sack.length.toNat

theorem dataSize_inside {packet : List UInt8} (short : packet.length < 65536) (parser : PacketParser)
    (inside : parser.dataOffset ≤ packet.length) : parser.dataOffset + (parser.dataSize packet).toNat = packet.length := by
  have size : (UInt32.ofNat packet.length).toNat = packet.length := UInt32.toNat_ofNat_of_lt' (Nat.lt_trans short (by decide))
  have off : (UInt32.ofNat parser.dataOffset).toNat = parser.dataOffset :=
    UInt32.toNat_ofNat_of_lt' (Nat.lt_of_le_of_lt inside (Nat.lt_trans short (by decide)))
  rw [PacketParser.dataSize,UInt32.toNat_sub_of_le _ _ (UInt32.le_iff_toNat_le.mpr (by rw [size,off]; exact inside)),size,off]
  omega

theorem accepted_safe {packet : List UInt8} (short : packet.length < 65536) (parser : PacketParser) (behind : 20 ≤ parser.dataOffset)
    (masked : MaskInside packet parser.selectiveAck) :
    (Parse.accepted parser).Safe packet ↔ parser.dataOffset ≤ packet.length :=
  ⟨fun safe => safe.2.1,fun inside => ⟨behind,inside,dataSize_inside short parser inside,masked⟩⟩

theorem parseLoop_behind (packet : List UInt8) (hdr : Header) (extId : UInt8) (found : Option SelectiveAck) (fueled : 0 < fuel)
    (past : packet.length < dataOff) : ¬ (parseLoop packet hdr fuel dataOff extId found).Safe packet := by
  obtain ⟨fuel,rfl⟩ := Nat.exists_eq_succ_of_ne_zero (Nat.ne_of_gt fueled)
  rw [parseLoop,if_neg (fun going => Nat.lt_asymm past going.1)]
  exact fun safe => Nat.not_le_of_lt past safe.2.1

theorem drop_two {packet : List UInt8} (first : packet[dataOff]? = some next) (second : packet[dataOff + 1]? = some length) :
    packet.drop dataOff = next :: length :: packet.drop (dataOff + 2) := by
  obtain ⟨inside,rfl⟩ := List.getElem?_eq_some_iff.mp first
  obtain ⟨inside',rfl⟩ := List.getElem?_eq_some_iff.mp second
  rw [List.drop_eq_getElem_cons inside,List.drop_eq_getElem_cons inside']

-- The loop from one extension on is safe exactly if the rest of the chain fits.
theorem parseLoop_safe {packet : List UInt8} (short : packet.length < 65536) (hdr : Header) (inside : dataOff ≤ packet.length)
    (behind : 20 ≤ dataOff) (masked : MaskInside packet found) (enough : packet.length - dataOff < fuel) :
    (parseLoop packet hdr fuel dataOff extId found).Safe packet ↔ ChainFits extId (packet.drop dataOff) := by
  induction fuel generalizing dataOff extId found with
  | zero => exact absurd enough (Nat.not_lt_zero _)
  | succ fuel ih =>
      rw [parseLoop]
      split
      · rename_i going
        obtain ⟨more,some_ext⟩ := going
        cases first : packet[dataOff]? with
        | none => exact absurd (List.getElem?_eq_none_iff.mp first) (Nat.not_le_of_lt more)
        | some next =>
            cases second : packet[dataOff + 1]? with
            | none =>
                have single : packet.drop dataOff = [next] := by
                  have last := List.getElem?_eq_none_iff.mp second
                  obtain ⟨bound,rfl⟩ := List.getElem?_eq_some_iff.mp first
                  rw [List.drop_eq_getElem_cons bound,List.drop_eq_nil_of_le last]
                rw [single]
                exact ⟨False.elim,fun fits => absurd fits (chainFits_single some_ext next)⟩
            | some length =>
                have remaining : (packet.drop (dataOff + 2)).length = packet.length - (dataOff + 2) := List.length_drop
                have two : dataOff + 1 < packet.length := (List.getElem?_eq_some_iff.mp second).1
                dsimp only
                rw [drop_two first second,chainFits_cons some_ext,remaining,List.drop_drop]
                split
                · rename_i kind
                  split
                  · rename_i long
                    rw [if_neg (by omega)]
                    exact ⟨fun _ => kind,fun _ => trivial⟩
                  · rename_i fits
                    rw [if_pos (by omega)]
                    apply ih
                    · omega
                    · omega
                    · intro sack same
                      cases same
                      exact ⟨dataOff + 2,Nat.le_of_not_lt fits,rfl⟩
                    · omega
                · rename_i kind
                  split
                  · rename_i fits
                    apply ih
                    · omega
                    · omega
                    · exact masked
                    · omega
                  · rename_i long
                    refine ⟨fun safe => absurd safe ?_,fun sack => absurd sack kind⟩
                    exact parseLoop_behind _ _ _ _ (by omega) (by omega)
      · rename_i ends
        rw [accepted_safe short ⟨hdr,found,dataOff⟩ behind masked]
        refine ⟨fun _ => ?_,fun _ => inside⟩
        rcases Decidable.not_and_iff_not_or_not.mp ends with past | none
        · rw [List.drop_eq_nil_of_le (Nat.le_of_not_lt past)]
          exact chainFits_nil extId
        · rw [Decidable.not_not.mp none]
          exact chainFits_last _

-- parse is safe exactly on the datagrams whose extensions fit.
theorem parse_safe_iff (d : Datagram) :
    (parse d.bytes).Safe d.bytes ↔ ChainFits (Header.read d.bytes).extension (d.bytes.drop 20) := by
  have header := d.header
  rw [parse,if_neg (show ¬ d.bytes.length < Header.size from Nat.not_lt.mpr header)]
  apply parseLoop_safe d.short _ header (Nat.le_refl 20)
  · intro sack none
    cases none
  · omega

def plainHeader (extension : UInt8) : Header := ⟨1,stData,extension,0,0,0,0,0,0⟩

-- An extension of an unknown kind with one byte is read over the end of the packet,
-- and one that claims 200 bytes leaves the offset of the data there.
theorem chain_leaves_the_packet :
    parse ((plainHeader 2).write ++ [0]) = .undefined ∧
    parse ((plainHeader 2).write ++ [0,200]) = .accepted ⟨plainHeader 2,none,222⟩ ∧
    (PacketParser.dataSize ⟨plainHeader 2,none,222⟩ ((plainHeader 2).write ++ [0,200])).toNat = 4294967096 ∧
    ¬ ∀ d : Datagram, (parse d.bytes).Safe d.bytes := by
  have outside : parse ((plainHeader 2).write ++ [0]) = .undefined := by decide +kernel
  refine ⟨outside,by decide +kernel,by decide +kernel,fun always => ?_⟩
  have safe := always ⟨(plainHeader 2).write ++ [0],by decide,by decide⟩
  rw [outside] at safe
  exact safe

end KtorrentStream.Utp
