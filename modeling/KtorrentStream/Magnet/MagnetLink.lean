import Mathlib.Data.List.GetD
import KtorrentStream.Lib.Radix
set_option autoImplicit true

namespace KtorrentStream.Magnet
open KtorrentStream.Lib

-- The UTF-16 codes of a text.
def utf16 (text : String) : List UInt16 := text.toList.map fun c => UInt16.ofNat c.toNat

def upperAscii (c : UInt16) : UInt16 := if 97 ≤ c ∧ c ≤ 122 then c - 32 else c

-- QChar and QString::toUpper are Qt code. Only what they do to ASCII characters is assumed.
structure QtChar where
  isDigit : UInt16 → Bool
  digitValue : UInt16 → Int
  isLetter : UInt16 → Bool
  isLower : UInt16 → Bool
  toAscii : UInt16 → Int8
  toUpper : List UInt16 → List UInt16
  isDigit_ascii : ∀ c < 128, isDigit c = decide (48 ≤ c ∧ c ≤ 57)
  digitValue_ascii : ∀ c, 48 ≤ c → c ≤ 57 → digitValue c = c.toNat - 48
  isLetter_ascii : ∀ c < 128, isLetter c = decide ((65 ≤ c ∧ c ≤ 90) ∨ (97 ≤ c ∧ c ≤ 122))
  isLower_ascii : ∀ c < 128, isLower c = decide (97 ≤ c ∧ c ≤ 122)
  toAscii_ascii : ∀ c < 128, (toAscii c).toInt = c.toNat
  toUpper_ascii : ∀ s, (∀ c ∈ s, c < 128) → toUpper s = s.map upperAscii

-- What KUrl makes of a magnet link. hostHash is what ([^\.]+).btih finds in the host.
structure Url where
  protocol : List UInt16
  queryItem : String → List UInt16
  path : Option (List UInt16)
  pathNoTrailingSlash : List UInt16
  hostHash : Option (List UInt16)
  encodedQuery : List UInt16

structure MagnetLink where
  magnetString : List UInt16
  infoHash : List UInt8
  torrentUrl : List UInt16
  trackerUrls : List (List UInt16)
  path : List UInt16
  name : List UInt16

-- QUrl::fromPercentEncoding
variable (q : QtChar) (fromPercentEncoding : List UInt16 → List UInt16)

def getTrackers (url : Url) : List (List UInt16) :=
  if url.encodedQuery.length ≤ 1 then []
  else
    let items := (url.encodedQuery.splitOn 38).filter fun item => !item.isEmpty
    let trackers := items.filter fun item => (utf16 "tr=").isPrefixOf item && item.length > 3
    trackers.map fun item => fromPercentEncoding ((item.drop 3).map fun c => if c = 43 then 32 else c)

-- None: an Error is thrown.
def charToHex (ch : UInt16) : Option UInt8 :=
  if q.isDigit ch then some (UInt8.ofInt (q.digitValue ch))
  else if !q.isLetter ch then none
  else if q.isLower ch then some (UInt8.ofInt (10 + (q.toAscii ch).toInt - 97))
  else some (UInt8.ofInt (10 + (q.toAscii ch).toInt - 65))

def base32Char (ch : UInt16) : Option UInt32 :=
  if q.isDigit ch && (q.digitValue ch < 2 || q.digitValue ch > 7) then none
  else if q.isDigit ch then some (UInt32.ofInt (q.digitValue ch + 24))
  else some (UInt32.ofInt ((q.toAscii ch).toInt - 65))

-- Four characters, which are 20 bits.
def base32Part (str : List UInt16) (i : Nat) : Option UInt32 :=
  (List.range 4).foldlM (fun part j => do
    let tmp ← base32Char q (str.getD (i * 4 + j) 0)
    return part + (tmp <<< UInt32.ofNat (5 * (3 - j)))) 0

def hexChar (tmp : UInt32) : UInt16 := if tmp ≥ 10 then (tmp - 10 + 97).toUInt16 else (tmp + 48).toUInt16

def hexDigits (part : UInt32) : List UInt16 :=
  (List.range 5).map fun j => hexChar ((part >>> UInt32.ofNat (4 * (4 - j))) &&& 0xf)

def base32ToHexString (s : List UInt16) : Option (List UInt16) := do
  let str := q.toUpper s
  let parts ← (List.range 8).mapM (base32Part q str)
  return parts.flatMap hexDigits

def hashOf (ih : List UInt16) : Option (List UInt8) :=
  (List.range 20).mapM fun i => do
    let low ← charToHex q (ih.getD (2 * i + 1) 0)
    let high ← charToHex q (ih.getD (2 * i) 0)
    return (high <<< 4) ||| low

namespace MagnetLink

def new : MagnetLink := ⟨[],List.replicate 20 0,[],[],[],[]⟩

def isValid (link : MagnetLink) : Bool := !link.magnetString.isEmpty

def equals (link other : MagnetLink) : Bool := link.infoHash == other.infoHash

def subPath (url : Url) : List UInt16 :=
  match url.queryItem "pt",url.path with
  | [],some path =>
    if path ≠ utf16 "/" then (if url.pathNoTrailingSlash.head? = some 47 then url.pathNoTrailingSlash.tail else url.pathNoTrailingSlash)
    else []
  | pt,_ => pt

-- urn:btih: and the hash, as the link has it or as its host does.
def exactTopic (url : Url) : Option (List UInt16) :=
  let xt := url.queryItem "xt"
  if xt.isEmpty ∨ !(utf16 "urn:btih:").isPrefixOf xt then
    url.hostHash.map fun found => utf16 "urn:btih:" ++ ((found.splitOn 45).headD [])
  else some xt

def parse (url : Url) (mlink : List UInt16) (link : MagnetLink) : MagnetLink :=
  if url.protocol ≠ utf16 "magnet" then link
  else
    let link := {link with torrentUrl := url.queryItem "to",path := subPath url}
    match exactTopic url with
    | none => link
    | some xt =>
      let ih := xt.drop 9
      if ih.length ≠ 40 ∧ ih.length ≠ 32 then link
      else
        match (if ih.length = 32 then base32ToHexString q ih else some ih).bind (hashOf q) with
        | none => link
        | some hash => {link with
          infoHash := hash
          trackerUrls := getTrackers fromPercentEncoding url
          name := url.queryItem "dn"
          magnetString := mlink}

end MagnetLink

-- The digits of the two spellings.
def hexDigit (c : UInt16) : Option Nat :=
  if 48 ≤ c ∧ c ≤ 57 then some (c.toNat - 48)
  else if 65 ≤ c ∧ c ≤ 70 then some (c.toNat - 55)
  else if 97 ≤ c ∧ c ≤ 102 then some (c.toNat - 87)
  else none

def base32Digit (c : UInt16) : Option Nat :=
  if 65 ≤ c ∧ c ≤ 90 then some (c.toNat - 65)
  else if 97 ≤ c ∧ c ≤ 122 then some (c.toNat - 97)
  else if 50 ≤ c ∧ c ≤ 55 then some (c.toNat - 24)
  else none

def Spelled (n : Nat) (digit : UInt16 → Option Nat) (h : List UInt16) : Prop := h.length = n ∧ ∀ c ∈ h, (digit c).isSome

instance (n : Nat) (digit : UInt16 → Option Nat) (h : List UInt16) : Decidable (Spelled n digit h) := inferInstanceAs (Decidable (_ ∧ _))

-- The number that a text denotes.
def denoted (h : List UInt16) : Option Nat :=
  if Spelled 40 hexDigit h then some (Radix.value 16 (h.map fun c => (hexDigit c).getD 0))
  else if Spelled 32 base32Digit h then some (Radix.value 32 (h.map fun c => (base32Digit c).getD 0))
  else none

-- What a link with the hash h has to be.
structure Decoded (h : List UInt16) (link : MagnetLink) : Prop where
  valid : link.isValid = (denoted h).isSome
  hash : ∀ v, denoted h = some v → link.infoHash = BigEndian.digits 20 v
  unset : denoted h = none → link.infoHash = MagnetLink.new.infoHash ∧ link.name = [] ∧ link.trackerUrls = [] ∧ link.magnetString = []

-- A decoder throws an Error, or the length is none of the two.
def Refused (h : List UInt16) : Prop :=
  (h.length ≠ 40 ∧ h.length ≠ 32) ∨ (h.length = 40 ∧ ∃ c ∈ h, q.isDigit c = false ∧ q.isLetter c = false) ∨
    (h.length = 32 ∧ ∃ i < 32, let c := (q.toUpper h).getD i 0; q.isDigit c ∧ (q.digitValue c < 2 ∨ q.digitValue c > 7))

section Options
variable {α β : Type} {f : α → Option β}

theorem mapM_some {g : α → β} (items : List α) (each : ∀ a ∈ items, f a = some (g a)) : items.mapM f = some (items.map g) := by
  induction items with
  | nil => rfl
  | cons a rest ih =>
      rw [List.mapM_cons,each a List.mem_cons_self,ih fun a' member => each a' (List.mem_cons_of_mem _ member)]
      rfl

theorem mapM_none (items : List α) : items.mapM f = none ↔ ∃ a ∈ items, f a = none := by
  induction items with
  | nil => exact ⟨nofun,nofun⟩
  | cons a rest ih =>
      rw [List.mapM_cons,List.exists_mem_cons_iff,←ih]
      cases f a with
      | none => exact ⟨fun _ => .inl rfl,fun _ => rfl⟩
      | some b =>
          rw [or_iff_right (by nofun)]
          cases rest.mapM f with
          | none => exact ⟨fun _ => rfl,fun _ => rfl⟩
          | some bs => exact ⟨nofun,nofun⟩

theorem mapM_length (items : List α) {results : List β} (all : items.mapM f = some results) : results.length = items.length := by
  induction items generalizing results with
  | nil =>
      obtain rfl := Option.some.inj all
      rfl
  | cons a rest ih =>
      rw [List.mapM_cons] at all
      cases first : f a with
      | none =>
          rw [first] at all
          cases all
      | some b =>
          cases others : rest.mapM f with
          | none =>
              rw [first,others] at all
              cases all
          | some bs =>
              rw [first,others] at all
              obtain rfl := Option.some.inj all
              exact congrArg (· + 1) (ih others)

end Options

section Digits
variable {q : QtChar} {c : UInt16} {d : Nat}

theorem hexDigit_ascii (digit : hexDigit c = some d) : c < 128 ∧ d < 16 := by
  unfold hexDigit at digit
  simp only [UInt16.le_iff_toNat_le,UInt16.lt_iff_toNat_lt,UInt16.reduceToNat] at digit ⊢
  split at digit
  · obtain rfl := Option.some.inj digit
    omega
  · split at digit
    · obtain rfl := Option.some.inj digit
      omega
    · split at digit
      · obtain rfl := Option.some.inj digit
        omega
      · cases digit

theorem base32Digit_ascii (digit : base32Digit c = some d) : c < 128 ∧ d < 32 := by
  unfold base32Digit at digit
  simp only [UInt16.le_iff_toNat_le,UInt16.lt_iff_toNat_lt,UInt16.reduceToNat] at digit ⊢
  split at digit
  · obtain rfl := Option.some.inj digit
    omega
  · split at digit
    · obtain rfl := Option.some.inj digit
      omega
    · split at digit
      · obtain rfl := Option.some.inj digit
        omega
      · cases digit

theorem uint8_ofInt {x : Int} (same : x = d) : UInt8.ofInt x = UInt8.ofNat d := by
  subst same
  apply UInt8.toNat.inj
  rw [UInt8.ofInt,UInt8.toNat_ofNat',UInt8.toNat_ofNat']
  omega

theorem uint32_ofInt {x : Int} (same : x = d) : UInt32.ofInt x = UInt32.ofNat d := by
  subst same
  apply UInt32.toNat.inj
  rw [UInt32.ofInt,UInt32.toNat_ofNat',UInt32.toNat_ofNat']
  omega

-- What Qt says of an ASCII digit, upper case letter or lower case letter.
theorem ascii_digit (q : QtChar) (low : 48 ≤ c) (high : c ≤ 57) : q.isDigit c = true ∧ q.digitValue c = c.toNat - 48 := by
  have ascii : c < 128 := by
    simp only [UInt16.le_iff_toNat_le,UInt16.lt_iff_toNat_lt,UInt16.reduceToNat] at high ⊢
    omega
  rw [q.isDigit_ascii c ascii]
  exact ⟨decide_eq_true ⟨low,high⟩,q.digitValue_ascii c low high⟩

theorem ascii_upper (q : QtChar) (low : 65 ≤ c) (high : c ≤ 90) :
    q.isDigit c = false ∧ q.isLetter c = true ∧ q.isLower c = false ∧ (q.toAscii c).toInt = c.toNat := by
  have range : c < 128 ∧ ¬(48 ≤ c ∧ c ≤ 57) ∧ ¬(97 ≤ c ∧ c ≤ 122) := by
    simp only [UInt16.le_iff_toNat_le,UInt16.lt_iff_toNat_lt,UInt16.reduceToNat] at low high ⊢
    omega
  obtain ⟨ascii,notDigit,notLower⟩ := range
  rw [q.isDigit_ascii c ascii,q.isLetter_ascii c ascii,q.isLower_ascii c ascii]
  exact ⟨decide_eq_false notDigit,decide_eq_true (.inl ⟨low,high⟩),decide_eq_false notLower,q.toAscii_ascii c ascii⟩

theorem ascii_lower (q : QtChar) (low : 97 ≤ c) (high : c ≤ 122) :
    q.isDigit c = false ∧ q.isLetter c = true ∧ q.isLower c = true ∧ (q.toAscii c).toInt = c.toNat := by
  have range : c < 128 ∧ ¬(48 ≤ c ∧ c ≤ 57) := by
    simp only [UInt16.le_iff_toNat_le,UInt16.lt_iff_toNat_lt,UInt16.reduceToNat] at low high ⊢
    omega
  obtain ⟨ascii,notDigit⟩ := range
  rw [q.isDigit_ascii c ascii,q.isLetter_ascii c ascii,q.isLower_ascii c ascii]
  exact ⟨decide_eq_false notDigit,decide_eq_true (.inr ⟨low,high⟩),decide_eq_true ⟨low,high⟩,q.toAscii_ascii c ascii⟩

theorem charToHex_digit (q : QtChar) (digit : hexDigit c = some d) : charToHex q c = some (UInt8.ofNat d) := by
  unfold hexDigit at digit
  unfold charToHex
  split at digit
  · rename_i range
    obtain rfl := Option.some.inj digit
    obtain ⟨isDigit,value⟩ := ascii_digit q range.1 range.2
    have low := UInt16.le_iff_toNat_le.mp range.1
    rw [isDigit,if_pos rfl,value]
    exact congrArg some (uint8_ofInt (by simp only [UInt16.reduceToNat] at low; omega))
  · split at digit
    · rename_i range
      obtain rfl := Option.some.inj digit
      have low := UInt16.le_iff_toNat_le.mp range.1
      have high : c ≤ 90 := UInt16.le_trans range.2 (by decide)
      obtain ⟨isDigit,isLetter,isLower,toAscii⟩ := ascii_upper q range.1 high
      rw [isDigit,isLetter,isLower,toAscii]
      exact congrArg some (uint8_ofInt (by simp only [UInt16.reduceToNat] at low; omega))
    · split at digit
      · rename_i range
        obtain rfl := Option.some.inj digit
        have low := UInt16.le_iff_toNat_le.mp range.1
        have high : c ≤ 122 := UInt16.le_trans range.2 (by decide)
        obtain ⟨isDigit,isLetter,isLower,toAscii⟩ := ascii_lower q range.1 high
        rw [isDigit,isLetter,isLower,toAscii]
        exact congrArg some (uint8_ofInt (by simp only [UInt16.reduceToNat] at low; omega))
      · cases digit

theorem upperAscii_same (other : ¬(97 ≤ c ∧ c ≤ 122)) : upperAscii c = c := if_neg other

theorem base32Char_letter (q : QtChar) (low : 65 ≤ c) (high : c ≤ 90) : base32Char q c = some (UInt32.ofNat (c.toNat - 65)) := by
  have least := UInt16.le_iff_toNat_le.mp low
  simp only [UInt16.reduceToNat] at least
  obtain ⟨isDigit,_,_,toAscii⟩ := ascii_upper q low high
  unfold base32Char
  rw [isDigit,toAscii]
  exact congrArg some (uint32_ofInt (by omega))

theorem base32Char_digit (q : QtChar) (digit : base32Digit c = some d) : base32Char q (upperAscii c) = some (UInt32.ofNat d) := by
  unfold base32Digit at digit
  split at digit
  · rename_i range
    obtain rfl := Option.some.inj digit
    have upper : ¬(97 ≤ c ∧ c ≤ 122) := by
      simp only [UInt16.le_iff_toNat_le,UInt16.reduceToNat] at range ⊢
      omega
    rw [upperAscii_same upper]
    exact base32Char_letter q range.1 range.2
  · split at digit
    · rename_i range
      obtain rfl := Option.some.inj digit
      have minus : (c - 32).toNat = c.toNat - 32 := UInt16.toNat_sub_of_le _ _ (UInt16.le_trans (by decide) range.1)
      have upper : 65 ≤ c - 32 ∧ c - 32 ≤ 90 := by
        simp only [UInt16.le_iff_toNat_le,minus,UInt16.reduceToNat] at range ⊢
        omega
      rw [upperAscii,if_pos range,base32Char_letter q upper.1 upper.2,minus,Nat.sub_sub]
    · split at digit
      · rename_i range
        obtain rfl := Option.some.inj digit
        have upper : 48 ≤ c ∧ c ≤ 57 ∧ ¬(97 ≤ c ∧ c ≤ 122) := by
          simp only [UInt16.le_iff_toNat_le,UInt16.reduceToNat] at range ⊢
          omega
        obtain ⟨isDigit,value⟩ := ascii_digit q upper.1 upper.2.1
        have allowed : (decide ((c.toNat : Int) - 48 < 2) || decide ((c.toNat : Int) - 48 > 7)) = false := by
          simp only [UInt16.le_iff_toNat_le,UInt16.reduceToNat] at range
          simp only [Bool.or_eq_false_iff,decide_eq_false_iff_not]
          omega
        rw [upperAscii_same upper.2.2]
        unfold base32Char
        rw [isDigit,value,allowed]
        exact congrArg some (uint32_ofInt (by simp only [UInt16.le_iff_toNat_le,UInt16.reduceToNat] at range; omega))
      · cases digit

theorem hexChar_digit : ∀ d < 16, hexDigit (hexChar (UInt32.ofNat d)) = some d := by
  decide

-- The hexadecimal digits of 20 bits.
def hexValues (part : Nat) : List Nat := (List.range 5).map fun j => part / 16 ^ (4 - j) % 16

theorem hexDigits_eq (part : UInt32) : hexDigits part = (hexValues part.toNat).map fun d => hexChar (UInt32.ofNat d) := by
  unfold hexDigits hexValues
  rw [List.map_map]
  refine List.map_congr_left fun j member => congrArg hexChar ?_
  have bound := List.mem_range.mp member
  apply UInt32.toNat.inj
  have mask : (0xf : UInt32).toNat = 2 ^ 4 - 1 := rfl
  have shift : (UInt32.ofNat (4 * (4 - j))).toNat % 32 = 4 * (4 - j) := by
    rw [UInt32.toNat_ofNat']
    omega
  rw [UInt32.toNat_and,UInt32.toNat_shiftRight,mask,shift,Nat.and_two_pow_sub_one_eq_mod,Nat.shiftRight_eq_div_pow,pow_mul,
    UInt32.toNat_ofNat']
  show _ = part.toNat / 16 ^ (4 - j) % 16 % 2 ^ 32
  rw [Nat.mod_eq_of_lt (b := 2 ^ 32) (by omega)]
  rfl

theorem hexValues_value (small : part < 1048576) : Radix.value 16 (hexValues part) = part := by
  have five : hexValues part = [part / 65536 % 16,part / 4096 % 16,part / 256 % 16,part / 16 % 16,part % 16] := by
    simp [hexValues,List.range,List.range.loop]
  rw [five]
  simp only [Radix.value_cons,List.length_cons,List.length_nil,Nat.reduceAdd,Nat.reducePow]
  rw [show Radix.value 16 [] = 0 from rfl]
  omega

-- A part is none when one of its characters is, and else the number of its digits.
theorem base32Part_none (q : QtChar) (str : List UInt16) (i : Nat) :
    base32Part q str i = none ↔ ∃ j < 4, base32Char q (str.getD (i * 4 + j) 0) = none := by
  have loop (js : List Nat) (part : UInt32) : js.foldlM (fun part j => do
      let tmp ← base32Char q (str.getD (i * 4 + j) 0)
      return part + (tmp <<< UInt32.ofNat (5 * (3 - j)))) part = none ↔ ∃ j ∈ js, base32Char q (str.getD (i * 4 + j) 0) = none := by
    induction js generalizing part with
    | nil => exact ⟨nofun,nofun⟩
    | cons j rest ih =>
        rw [List.foldlM_cons,List.exists_mem_cons_iff]
        cases here : base32Char q (str.getD (i * 4 + j) 0) with
        | none => exact ⟨fun _ => .inl rfl,fun _ => rfl⟩
        | some tmp =>
            rw [or_iff_right (by nofun)]
            exact ih _
  unfold base32Part
  rw [loop]
  simp only [List.mem_range]

theorem base32Part_some (q : QtChar) {str : List UInt16} {i : Nat} {ds : Nat → Nat} (small : ∀ j < 4, ds j < 32)
    (each : ∀ j < 4, base32Char q (str.getD (i * 4 + j) 0) = some (UInt32.ofNat (ds j))) :
    ∃ part, base32Part q str i = some part ∧ part.toNat = Radix.value 32 ((List.range 4).map ds) ∧ part.toNat < 1048576 := by
  have zero := each 0 (by decide)
  have one := each 1 (by decide)
  have two := each 2 (by decide)
  have three := each 3 (by decide)
  have small0 := small 0 (by decide)
  have small1 := small 1 (by decide)
  have small2 := small 2 (by decide)
  have small3 := small 3 (by decide)
  have four : List.range 4 = [0,1,2,3] := rfl
  refine ⟨0 + (UInt32.ofNat (ds 0) <<< UInt32.ofNat 15) + (UInt32.ofNat (ds 1) <<< UInt32.ofNat 10) +
    (UInt32.ofNat (ds 2) <<< UInt32.ofNat 5) + (UInt32.ofNat (ds 3) <<< UInt32.ofNat 0),?_,?_⟩
  · unfold base32Part
    rw [four]
    simp only [List.foldlM_cons,List.foldlM_nil,zero,one,two,three]
    rfl
  · have value : Radix.value 32 ((List.range 4).map ds) = ds 0 * 32768 + ds 1 * 1024 + ds 2 * 32 + ds 3 := by
      rw [four]
      simp only [List.map_cons,List.map_nil,Radix.value_cons,List.length_cons,List.length_nil,Nat.reduceAdd,Nat.reducePow]
      rw [show Radix.value 32 [] = 0 from rfl]
      omega
    rw [value]
    simp only [UInt32.toNat_add,UInt32.toNat_shiftLeft,UInt32.toNat_ofNat',Nat.shiftLeft_eq,UInt32.toNat_zero,Nat.reduceMod,Nat.reducePow]
    omega

end Digits

section Texts
variable {q : QtChar} {h : List UInt16}

theorem spelled_at {digit : UInt16 → Option Nat} (spelled : Spelled n digit h) (inside : k < n) :
    digit (h.getD k 0) = some ((digit (h.getD k 0)).getD 0) := by
  rw [←spelled.1] at inside
  have member : h.getD k 0 ∈ h := by
    rw [List.getD_eq_getElem?_getD,List.getElem?_eq_getElem inside,Option.getD_some]
    exact List.getElem_mem inside
  obtain ⟨d,there⟩ := Option.isSome_iff_exists.mp (spelled.2 _ member)
  rw [there]
  rfl

theorem spelled_groups {digit : UInt16 → Option Nat} (base n k : Nat) (length : h.length = n * k) :
    Radix.value base (h.map fun c => (digit c).getD 0) = Radix.value (base ^ k)
      ((List.range n).map fun i => Radix.value base ((List.range k).map fun j => (digit (h.getD (i * k + j) 0)).getD 0)) := by
  have whole := Radix.groups_flatten n k (h.map fun c => (digit c).getD 0) ((digit 0).getD 0) (by rw [List.length_map,length])
  have groups := Radix.value_groups base k ((List.range n).map fun i => (List.range k).map fun j =>
    (h.map fun c => (digit c).getD 0).getD (i * k + j) ((digit 0).getD 0)) ?_
  · rw [whole,List.map_map] at groups
    rw [groups]
    simp only [Function.comp_def]
    congr 1
    refine List.map_congr_left fun i _ => congrArg _ (List.map_congr_left fun j _ => ?_)
    exact List.getD_map _ _ fun c => (digit c).getD 0
  · intro g member
    obtain ⟨i,_,rfl⟩ := List.mem_map.mp member
    rw [List.length_map,List.length_range]

theorem byte_of_digits : ∀ high < 16, ∀ low < 16,
    ((UInt8.ofNat high <<< 4) ||| UInt8.ofNat low).toNat = Radix.value 16 [high,low] := by
  decide

theorem hashOf_spelled (q : QtChar) (spelled : Spelled 40 hexDigit h) :
    ∃ hash, hashOf q h = some hash ∧ hash.length = 20 ∧ BigEndian.value hash = Radix.value 16 (h.map fun c => (hexDigit c).getD 0) := by
  have each (i : Nat) (member : i ∈ List.range 20) : (do
      let low ← charToHex q (h.getD (2 * i + 1) 0)
      let high ← charToHex q (h.getD (2 * i) 0)
      return (high <<< 4) ||| low) =
        some ((UInt8.ofNat ((hexDigit (h.getD (i * 2) 0)).getD 0) <<< 4) ||| UInt8.ofNat ((hexDigit (h.getD (i * 2 + 1) 0)).getD 0)) := by
    have bound := List.mem_range.mp member
    rw [Nat.mul_comm 2 i,charToHex_digit q (spelled_at spelled (by omega)),charToHex_digit q (spelled_at spelled (by omega))]
    rfl
  refine ⟨_,mapM_some _ each,by rw [List.length_map,List.length_range],?_⟩
  rw [Radix.value_bytes,spelled_groups 16 20 2 spelled.1,List.map_map]
  show Radix.value 256 _ = Radix.value 256 _
  congr 1
  refine List.map_congr_left fun i member => ?_
  have bound := List.mem_range.mp member
  have high := (hexDigit_ascii (spelled_at spelled (show i * 2 < 40 by omega))).2
  have low := (hexDigit_ascii (spelled_at spelled (show i * 2 + 1 < 40 by omega))).2
  exact byte_of_digits _ high _ low

theorem hexValues_small (member : d ∈ hexValues part) : d < 16 := by
  obtain ⟨j,_,rfl⟩ := List.mem_map.mp member
  exact Nat.mod_lt _ (by decide)

theorem hexDigits_values (part : UInt32) : (hexDigits part).map (fun c => (hexDigit c).getD 0) = hexValues part.toNat := by
  rw [hexDigits_eq,List.map_map]
  refine (List.map_congr_left fun d member => ?_).trans (List.map_id _)
  simp only [Function.comp_apply,hexChar_digit d (hexValues_small member)]
  rfl

theorem parts_spelled (parts : List UInt32) (eight : parts.length = 8) : Spelled 40 hexDigit (parts.flatMap hexDigits) := by
  constructor
  · have five (part : UInt32) : (hexDigits part).length = 5 := by
      rw [hexDigits,List.length_map,List.length_range]
    simp only [List.length_flatMap,five,List.map_const',List.sum_replicate_nat,eight]
  · intro c member
    obtain ⟨part,_,there⟩ := List.mem_flatMap.mp member
    rw [hexDigits_eq] at there
    obtain ⟨d,value,rfl⟩ := List.mem_map.mp there
    rw [hexChar_digit d (hexValues_small value)]
    rfl

theorem parts_value (parts : List UInt32) (small : ∀ part ∈ parts, part.toNat < 1048576) :
    Radix.value 16 ((parts.flatMap hexDigits).map fun c => (hexDigit c).getD 0) = Radix.value 1048576 (parts.map UInt32.toNat) := by
  have groups := Radix.value_groups 16 5 (parts.map fun part => hexValues part.toNat) ?_
  · rw [List.map_flatMap,List.flatMap_def]
    simp only [hexDigits_values]
    rw [groups,List.map_map]
    show Radix.value 1048576 _ = _
    congr 1
    exact List.map_congr_left fun part member => hexValues_value (small part member)
  · intro g member
    obtain ⟨part,_,rfl⟩ := List.mem_map.mp member
    rw [hexValues,List.length_map,List.length_range]

theorem base32_spelled (q : QtChar) (spelled : Spelled 32 base32Digit h) :
    ∃ parts : List UInt32, base32ToHexString q h = some (parts.flatMap hexDigits) ∧ parts.length = 8 ∧
      (∀ part ∈ parts, part.toNat < 1048576) ∧
      Radix.value 1048576 (parts.map UInt32.toNat) = Radix.value 32 (h.map fun c => (base32Digit c).getD 0) := by
  have upper : q.toUpper h = h.map upperAscii := by
    refine q.toUpper_ascii h fun c member => ?_
    obtain ⟨d,there⟩ := Option.isSome_iff_exists.mp (spelled.2 c member)
    exact (base32Digit_ascii there).1
  have each (i : Nat) (bound : i < 8) : ∃ part, base32Part q (q.toUpper h) i = some part ∧
      part.toNat = Radix.value 32 ((List.range 4).map fun j => (base32Digit (h.getD (i * 4 + j) 0)).getD 0) ∧ part.toNat < 1048576 := by
    refine base32Part_some q ?_ ?_
    · intro j inside
      exact (base32Digit_ascii (spelled_at spelled (by omega))).2
    · intro j inside
      rw [upper]
      have place : (h.map upperAscii).getD (i * 4 + j) (upperAscii 0) = upperAscii (h.getD (i * 4 + j) 0) := List.getD_map _ _ _
      rw [show upperAscii 0 = 0 from rfl] at place
      rw [place]
      exact base32Char_digit q (spelled_at spelled (by omega))
  have parts (i : Nat) (member : i ∈ List.range 8) : base32Part q (q.toUpper h) i = some ((base32Part q (q.toUpper h) i).getD 0) := by
    obtain ⟨part,there,_⟩ := each i (List.mem_range.mp member)
    rw [there]
    rfl
  refine ⟨(List.range 8).map fun i => (base32Part q (q.toUpper h) i).getD 0,?_,?_,?_,?_⟩
  · rw [base32ToHexString,mapM_some _ parts]
    rfl
  · rw [List.length_map,List.length_range]
  · intro part member
    obtain ⟨i,inside,rfl⟩ := List.mem_map.mp member
    obtain ⟨part,there,_,small⟩ := each i (List.mem_range.mp inside)
    rw [there]
    exact small
  · rw [spelled_groups 32 8 4 spelled.1,List.map_map]
    show Radix.value 1048576 _ = Radix.value 1048576 _
    congr 1
    refine List.map_congr_left fun i inside => ?_
    obtain ⟨part,there,value,_⟩ := each i (List.mem_range.mp inside)
    simp only [Function.comp_apply,there]
    exact value

-- What parse does with a text of one of the two lengths.
def decodeHash (q : QtChar) (ih : List UInt16) : Option (List UInt8) :=
  (if ih.length = 32 then base32ToHexString q ih else some ih).bind (hashOf q)

theorem charToHex_none (q : QtChar) (c : UInt16) : charToHex q c = none ↔ q.isDigit c = false ∧ q.isLetter c = false := by
  unfold charToHex
  cases q.isDigit c <;> cases q.isLetter c <;> cases q.isLower c <;> simp

theorem base32Char_none (q : QtChar) (c : UInt16) :
    base32Char q c = none ↔ q.isDigit c ∧ (q.digitValue c < 2 ∨ q.digitValue c > 7) := by
  unfold base32Char
  cases q.isDigit c with
  | false => simp
  | true =>
      simp
      omega

theorem mem_iff_getD (length : h.length = n) : c ∈ h ↔ ∃ k < n, h.getD k 0 = c := by
  subst length
  rw [List.mem_iff_getElem]
  constructor
  · rintro ⟨k,inside,rfl⟩
    exact ⟨k,inside,List.getD_eq_getElem _ _ inside⟩
  · rintro ⟨k,inside,rfl⟩
    exact ⟨k,inside,(List.getD_eq_getElem _ _ inside).symm⟩

theorem hashOf_none (q : QtChar) (length : h.length = 40) : hashOf q h = none ↔ ∃ c ∈ h, q.isDigit c = false ∧ q.isLetter c = false := by
  have pair (low high : Option UInt8) : (do
      let low ← low
      let high ← high
      return (high <<< 4) ||| low) = none ↔ low = none ∨ high = none := by
    cases low <;> cases high <;> simp
  rw [hashOf,mapM_none]
  simp only [pair,List.mem_range,←charToHex_none]
  constructor
  · rintro ⟨i,bound,none | none⟩
    · exact ⟨_,(mem_iff_getD length).mpr ⟨2 * i + 1,by omega,rfl⟩,none⟩
    · exact ⟨_,(mem_iff_getD length).mpr ⟨2 * i,by omega,rfl⟩,none⟩
  · rintro ⟨c,member,none⟩
    obtain ⟨k,inside,rfl⟩ := (mem_iff_getD length).mp member
    refine ⟨k / 2,by omega,?_⟩
    rcases Nat.mod_two_eq_zero_or_one k with even | odd
    · right
      rw [show 2 * (k / 2) = k by omega]
      exact none
    · left
      rw [show 2 * (k / 2) + 1 = k by omega]
      exact none

theorem base32_none (q : QtChar) (s : List UInt16) : base32ToHexString q s = none ↔
    ∃ i < 32, let c := (q.toUpper s).getD i 0; q.isDigit c ∧ (q.digitValue c < 2 ∨ q.digitValue c > 7) := by
  have parts : base32ToHexString q s = none ↔ (List.range 8).mapM (base32Part q (q.toUpper s)) = none := by
    unfold base32ToHexString
    simp only
    cases (List.range 8).mapM (base32Part q (q.toUpper s)) with
    | none => exact ⟨fun _ => rfl,fun _ => rfl⟩
    | some parts => exact ⟨nofun,nofun⟩
  rw [parts,mapM_none]
  simp only [base32Part_none,base32Char_none,List.mem_range]
  constructor
  · rintro ⟨i,bound,j,inside,none⟩
    exact ⟨i * 4 + j,by omega,none⟩
  · rintro ⟨k,bound,none⟩
    refine ⟨k / 4,by omega,k % 4,by omega,?_⟩
    rw [show k / 4 * 4 + k % 4 = k by omega]
    exact none

theorem base32_parts (q : QtChar) (decoded : base32ToHexString q h = some hex) :
    ∃ parts : List UInt32, hex = parts.flatMap hexDigits ∧ parts.length = 8 := by
  unfold base32ToHexString at decoded
  simp only at decoded
  cases all : (List.range 8).mapM (base32Part q (q.toUpper h)) with
  | none =>
      rw [all] at decoded
      cases decoded
  | some parts =>
      rw [all] at decoded
      exact ⟨parts,(Option.some.inj decoded).symm,mapM_length _ all⟩

-- Nothing is decoded when the length is right and a decoder throws.
theorem decodeHash_none (q : QtChar) (length : h.length = 40 ∨ h.length = 32) : decodeHash q h = none ↔ Refused q h := by
  unfold decodeHash Refused
  rcases length with hex | base32
  · rw [if_neg (by omega),Option.bind_some,hashOf_none q hex]
    simp [hex]
  · have none_iff := base32_none q h
    rw [if_pos base32]
    constructor
    · intro none
      refine .inr (.inr ⟨base32,none_iff.mp ?_⟩)
      by_contra some_hex
      obtain ⟨hex,decoded⟩ := Option.ne_none_iff_exists'.mp some_hex
      obtain ⟨parts,rfl,eight⟩ := base32_parts q decoded
      obtain ⟨hash,hashed,_⟩ := hashOf_spelled q (parts_spelled parts eight)
      rw [decoded,Option.bind_some,hashed] at none
      cases none
    · rintro (⟨_,other⟩ | ⟨other,_⟩ | ⟨_,thrown⟩)
      · exact absurd base32 other
      · rw [base32] at other
        cases other
      · rw [none_iff.mpr thrown]
        rfl

theorem digits_of_value {hash : List UInt8} (length : hash.length = 20) : hash = BigEndian.digits 20 (BigEndian.value hash) := by
  have small := BigEndian.value_lt hash
  apply BigEndian.value_inj
  · rw [length,BigEndian.digits_length]
  · rw [BigEndian.value_digits]
    rw [length] at small
    exact (Nat.mod_eq_of_lt small).symm

theorem decodeHash_denoted (q : QtChar) (there : denoted h = some v) :
    (h.length = 40 ∨ h.length = 32) ∧ decodeHash q h = some (BigEndian.digits 20 v) := by
  unfold denoted at there
  split at there
  · rename_i spelled
    obtain rfl := Option.some.inj there
    obtain ⟨hash,hashed,length,value⟩ := hashOf_spelled q spelled
    refine ⟨.inl spelled.1,?_⟩
    rw [decodeHash,if_neg (by rw [spelled.1]; decide),Option.bind_some,hashed,←value,←digits_of_value length]
  · split at there
    · rename_i spelled
      obtain rfl := Option.some.inj there
      obtain ⟨parts,decoded,eight,small,same⟩ := base32_spelled q spelled
      obtain ⟨hash,hashed,length,value⟩ := hashOf_spelled q (parts_spelled parts eight)
      refine ⟨.inr spelled.1,?_⟩
      rw [decodeHash,if_pos spelled.1,decoded,Option.bind_some,hashed,←same,←parts_value parts small,←value,←digits_of_value length]
    · cases there

end Texts

namespace MagnetLink

variable {q : QtChar} {fromPercentEncoding : List UInt16 → List UInt16} {url : Url} {h mlink : List UInt16}

theorem exactTopic_given (given : url.queryItem "xt" = utf16 "urn:btih:" ++ h) : exactTopic url = some (utf16 "urn:btih:" ++ h) := by
  have starts : (utf16 "urn:btih:").isPrefixOf (utf16 "urn:btih:" ++ h) = true := List.isPrefixOf_iff_prefix.mpr (List.prefix_append _ _)
  unfold exactTopic
  rw [given]
  simp only
  rw [starts]
  rfl

theorem parse_given (magnet : url.protocol = utf16 "magnet") (given : url.queryItem "xt" = utf16 "urn:btih:" ++ h) :
    parse q fromPercentEncoding url mlink new =
      let link := {new with torrentUrl := url.queryItem "to",path := subPath url}
      if h.length ≠ 40 ∧ h.length ≠ 32 then link
      else match decodeHash q h with
        | none => link
        | some hash => {link with
          infoHash := hash
          trackerUrls := getTrackers fromPercentEncoding url
          name := url.queryItem "dn"
          magnetString := mlink} := by
  have prefix_length : (utf16 "urn:btih:").length = 9 := rfl
  unfold parse
  rw [if_neg (not_not.mpr magnet),exactTopic_given given]
  simp only [←prefix_length,List.drop_left]
  rfl

-- A link without a hash is as it should be when the text denotes nothing.
theorem unset_decoded (nothing : denoted h = none) (torrentUrl path : List UInt16) :
    Decoded h {new with torrentUrl := torrentUrl,path := path} where
  valid := by
    rw [nothing]
    rfl
  hash := by
    rw [nothing]
    nofun
  unset _ := ⟨rfl,rfl,rfl,rfl⟩

theorem decoded_iff (q : QtChar) (fromPercentEncoding : List UInt16 → List UInt16) (url : Url) (h mlink : List UInt16)
    (magnet : url.protocol = utf16 "magnet") (given : url.queryItem "xt" = utf16 "urn:btih:" ++ h) (some_text : mlink ≠ []) :
    Decoded h (parse q fromPercentEncoding url mlink new) ↔ (denoted h).isSome ∨ Refused q h := by
  rw [parse_given magnet given]
  simp only
  by_cases other : h.length ≠ 40 ∧ h.length ≠ 32
  · have nothing : denoted h = none := by
      cases there : denoted h with
      | none => rfl
      | some v => exact absurd (decodeHash_denoted q there).1 (by omega)
    rw [if_pos other]
    exact ⟨fun _ => .inr (.inl other),fun _ => unset_decoded nothing _ _⟩
  · have length : h.length = 40 ∨ h.length = 32 := by
      omega
    have refused := decodeHash_none q length
    rw [if_neg other]
    cases decoded : decodeHash q h with
    | none =>
        have nothing : denoted h = none := by
          cases there : denoted h with
          | none => rfl
          | some v => cases decoded.symm.trans (decodeHash_denoted q there).2
        exact ⟨fun _ => .inr (refused.mp decoded),fun _ => unset_decoded nothing _ _⟩
    | some hash =>
        have accepted : ¬Refused q h := by
          intro thrown
          cases decoded.symm.trans (refused.mpr thrown)
        have set : !mlink.isEmpty := by
          rw [List.isEmpty_eq_false_iff.mpr some_text]
          rfl
        rw [or_iff_left accepted]
        constructor
        · intro right
          rw [←right.valid]
          exact set
        · intro some_value
          obtain ⟨v,there⟩ := Option.isSome_iff_exists.mp some_value
          refine ⟨?_,?_,?_⟩
          · rw [some_value]
            exact set
          · intro v' there'
            exact Option.some.inj (decoded.symm.trans (decodeHash_denoted q there').2)
          · intro nothing
            rw [nothing] at there
            cases there

theorem spellings_equal (q : QtChar) (one : denoted h = some v) (other : denoted h' = some v)
    (magnet : url.protocol = utf16 "magnet") (given : url.queryItem "xt" = utf16 "urn:btih:" ++ h)
    (magnet' : url'.protocol = utf16 "magnet") (given' : url'.queryItem "xt" = utf16 "urn:btih:" ++ h') :
    (parse q fromPercentEncoding url mlink new).equals (parse q fromPercentEncoding url' mlink' new) := by
  obtain ⟨length,decoded⟩ := decodeHash_denoted q one
  obtain ⟨length',decoded'⟩ := decodeHash_denoted q other
  rw [parse_given magnet given,parse_given magnet' given']
  simp only
  rw [if_neg (by omega),if_neg (by omega),decoded,decoded']
  exact beq_self_eq_true _

-- A Qt that knows ASCII characters only.
def QtChar.plain : QtChar where
  isDigit c := decide (48 ≤ c ∧ c ≤ 57)
  digitValue c := if 48 ≤ c ∧ c ≤ 57 then c.toNat - 48 else -1
  isLetter c := decide ((65 ≤ c ∧ c ≤ 90) ∨ (97 ≤ c ∧ c ≤ 122))
  isLower c := decide (97 ≤ c ∧ c ≤ 122)
  toAscii c := if c < 128 then Int8.ofInt c.toNat else 0
  toUpper s := s.map upperAscii
  isDigit_ascii _ _ := rfl
  digitValue_ascii _ low high := if_pos ⟨low,high⟩
  isLetter_ascii _ _ := rfl
  isLower_ascii _ _ := rfl
  toAscii_ascii c ascii := by
    have small := UInt16.lt_iff_toNat_lt.mp ascii
    simp only [UInt16.reduceToNat] at small
    rw [if_pos ascii]
    exact Int8.toInt_ofInt_of_le (by omega) (by omega)
  toUpper_ascii _ _ := rfl

-- magnet:?xt=urn:btih: and a hash.
def sampleUrl (h : List UInt16) : Url where
  protocol := utf16 "magnet"
  queryItem key := if key = "xt" then utf16 "urn:btih:" ++ h else []
  path := none
  pathNoTrailingSlash := []
  hostHash := none
  encodedQuery := utf16 "xt=urn:btih:" ++ h

theorem denoted_replicate : (denoted (List.replicate 40 97)).isSome = true := by
  have spelled : Spelled 40 hexDigit (List.replicate 40 97) := by
    refine ⟨List.length_replicate,fun c there => ?_⟩
    rw [List.eq_of_mem_replicate there]
    rfl
  unfold denoted
  rw [if_pos spelled]
  rfl

theorem hexadecimal_decoded : Decoded (List.replicate 40 97) (parse QtChar.plain (fun s => s) (sampleUrl (List.replicate 40 97)) (utf16 "magnet:") new) :=
  (decoded_iff QtChar.plain (fun s => s) (sampleUrl (List.replicate 40 97)) (List.replicate 40 97) (utf16 "magnet:") rfl rfl
    (by decide)).mpr (.inl denoted_replicate)

-- Forty letters g, or thirty-two exclamation marks.
theorem letters_accepted :
    (parse QtChar.plain (fun s => s) (sampleUrl (List.replicate 40 103)) (utf16 "magnet:") new).isValid = true ∧
      ¬Decoded (List.replicate 40 103) (parse QtChar.plain (fun s => s) (sampleUrl (List.replicate 40 103)) (utf16 "magnet:") new) ∧
      ¬Decoded (List.replicate 32 33) (parse QtChar.plain (fun s => s) (sampleUrl (List.replicate 32 33)) (utf16 "magnet:") new) := by
  refine ⟨by decide,?_,?_⟩
  · intro decoded
    have valid := decoded.valid
    revert valid
    decide +kernel
  · intro decoded
    have valid := decoded.valid
    revert valid
    decide +kernel

end MagnetLink

end KtorrentStream.Magnet
