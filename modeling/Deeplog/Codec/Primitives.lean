import Deeplog.Lib.Cbor

/-!
# The primitives of deeppack

What the codecs of records and containers call to emit and to parse single items. What is emitted
is parsed again by the functions for equal types; some bytes are written without deeppack, and
have to be parsed as CBOR asks for.
-/

namespace Deeplog.Codec

open Cbor (Bytes)

/-- A parser, for `parse_context`. -/
abbrev Parse := StateT Bytes Option

inductive TypeCode where
  | posint | negint | binary | text | array | map | tag | special
  deriving DecidableEq

structure ItemHead where
  type : TypeCode
  value : Nat
  indefinite : Bool
  encodedLength : Nat

structure Primitives where
  emitInteger : Int → Bytes
  emitU8string : Bytes → Bytes
  emitBinary : Bytes → Bytes
  emitArray : Nat → Bytes
  emitMap : Nat → Bytes
  encodeFloat : UInt32 → Bytes
  encodeDouble : UInt64 → Bytes
  encodeBool : Bool → Bytes
  parseItemHead : Parse ItemHead
  expectItemHead : TypeCode → Nat → Parse Unit
  parseFiniteHead : TypeCode → Parse Nat
  parseInteger : (max : Nat) → Parse Nat
  parseSigned : Parse Int
  parseText : Parse Bytes
  parseBinary : (n : Nat) → Parse (Vector UInt8 n)
  decodeFloat : Parse UInt32
  decodeDouble : Parse UInt64
  decodeBool : Parse Bool
  skipItem : Parse Unit
  parseItemHead_array : ∀ n rest, n < 24 →
    parseItemHead (emitArray n ++ rest) = some (⟨.array, n, false, 1⟩, rest)
  parseItemHead_byte : ∀ k rest, k < 24 →
    parseItemHead (UInt8.ofNat (0x80 + k) :: rest) = some (⟨.array, k, false, 1⟩, rest)
  expectItemHead_array : ∀ n rest, n < 2 ^ 64 →
    expectItemHead .array n (emitArray n ++ rest) = some ((), rest)
  parseFiniteHead_array : ∀ n rest, n < 2 ^ 64 →
    parseFiniteHead .array (emitArray n ++ rest) = some (n, rest)
  parseFiniteHead_map : ∀ n rest, n < 2 ^ 64 →
    parseFiniteHead .map (emitMap n ++ rest) = some (n, rest)
  parseInteger_emit : ∀ (max n : Nat) rest, n ≤ max → max < 2 ^ 64 →
    parseInteger max (emitInteger n ++ rest) = some (n, rest)
  parseInteger_byte : ∀ max k rest, k < 24 → k ≤ max →
    parseInteger max (UInt8.ofNat k :: rest) = some (k, rest)
  parseInteger_word : ∀ max n rest, n < 2 ^ 64 → n ≤ max →
    parseInteger max (27 :: (Cbor.toBigEndian 8 n ++ rest)) = some (n, rest)
  parseSigned_emit : ∀ n rest, -2 ^ 63 ≤ n → n < 2 ^ 63 →
    parseSigned (emitInteger n ++ rest) = some (n, rest)
  parseText_emit : ∀ bs rest, bs.length < 2 ^ 64 →
    parseText (emitU8string bs ++ rest) = some (bs, rest)
  parseBinary_emit : ∀ (n : Nat) (bs : Vector UInt8 n) rest, n < 2 ^ 64 →
    parseBinary n (emitBinary bs.toList ++ rest) = some (bs, rest)
  decodeFloat_encode : ∀ x rest, decodeFloat (encodeFloat x ++ rest) = some (x, rest)
  decodeDouble_encode : ∀ x rest, decodeDouble (encodeDouble x ++ rest) = some (x, rest)
  decodeBool_encode : ∀ x rest, decodeBool (encodeBool x ++ rest) = some (x, rest)
  skipItem_item : ∀ item rest, Cbor.Item item → skipItem (item ++ rest) = some ((), rest)
  emitInteger_length : ∀ n, 1 ≤ (emitInteger n).length ∧ (emitInteger n).length ≤ 9
  emitInteger_small : ∀ n : Nat, n < 24 → (emitInteger n).length = 1
  emitU8string_length : ∀ bs : Bytes, bs.length < (emitU8string bs).length
  emitU8string_nil : (emitU8string []).length = 1
  emitArray_small : ∀ n < 24, (emitArray n).length = 1
  emitMap_small : ∀ n < 24, (emitMap n).length = 1
  emitBinary_small : ∀ bs : Bytes, bs.length < 24 → (emitBinary bs).length = 1 + bs.length

/-- A step that succeeds is followed by the others. -/
theorem Parse.bind_of_eq {α β : Type} {p : Parse α} {q : α → Parse β} {bs rest : Bytes} {a : α}
    (h : p bs = some (a, rest)) : (p >>= q) bs = q a rest := by
  simp [bind, StateT.bind, h]

theorem Parse.bind_of_none {α β : Type} {p : Parse α} {q : α → Parse β} {bs : Bytes}
    (h : p bs = none) : (p >>= q) bs = none := by
  simp [bind, StateT.bind, h]

@[simp] theorem Parse.pure_apply {α : Type} (a : α) (bs : Bytes) :
    (pure a : Parse α) bs = some (a, bs) := rfl

/-! ## Plain CBOR -/

namespace Primitives

/-- The value of a head, if it is one to be used. -/
def fromHead {α : Type} (f : Cbor.Head → Option α) : Parse α := do
  let head ← (Cbor.readHead : Parse Cbor.Head)
  match f head with
  | some a => pure a
  | none => failure

def majorType : TypeCode → Nat
  | .posint => 0 | .negint => 1 | .binary => 2 | .text => 3
  | .array => 4 | .map => 5 | .tag => 6 | .special => 7

def typeCode : Nat → TypeCode
  | 0 => .posint | 1 => .negint | 2 => .binary | 3 => .text
  | 4 => .array | 5 => .map | 6 => .tag | _ => .special

def itemHead (head : Cbor.Head) : ItemHead where
  type := typeCode head.major
  value := head.value.getD 0
  indefinite := head.value.isNone
  encodedLength := if 24 ≤ head.info ∧ head.info < 28 then 1 + 2 ^ (head.info - 24) else 1

/-- The argument of a head of the given type. -/
def argument (type : TypeCode) (head : Cbor.Head) : Option Nat :=
  if head.major = majorType type then head.value else none

/-- A string of definite length. -/
def readString (type : TypeCode) : Parse Bytes := do
  let n ← fromHead (argument type)
  (Cbor.readBytes n : Parse Bytes)

def integer (lower upper : Int) : Parse Int := do
  let n ← (Cbor.readInt : Parse Int)
  if lower ≤ n ∧ n ≤ upper then pure n else failure

def unsigned (max : Nat) : Parse Nat := do
  let n ← integer 0 max
  pure n.toNat

/-- A float of the given width. -/
def floatBits (info : Nat) : Parse Nat :=
  fromHead fun head => if head.major = 7 ∧ head.info = info then head.value else none

theorem fromHead_encodeHead {α : Type} {f : Cbor.Head → Option α} {major n : Nat} {a : α}
    (hm : major < 8) (hn : n < 2 ^ 64)
    (hf : ∀ info, (n < 24 → info < 24) → f ⟨major, info, some n⟩ = some a) (rest : Bytes) :
    fromHead f (Cbor.encodeHead major n ++ rest) = some (a, rest) := by
  obtain ⟨info, hread, hinfo⟩ := Cbor.readHead_encodeHead hm hn rest
  rw [fromHead, Parse.bind_of_eq hread, hf info hinfo]
  rfl

theorem argument_encodeHead (type : TypeCode) {n : Nat} (hn : n < 2 ^ 64) (rest : Bytes) :
    fromHead (argument type) (Cbor.encodeHead (majorType type) n ++ rest) = some (n, rest) :=
  fromHead_encodeHead (by cases type <;> decide) hn (fun _ _ => if_pos rfl) rest

theorem readString_encode (type : TypeCode) {bs : Bytes} (hlen : bs.length < 2 ^ 64)
    (rest : Bytes) :
    readString type (Cbor.encodeHead (majorType type) bs.length ++ bs ++ rest) =
      some (bs, rest) := by
  rw [List.append_assoc, readString, Parse.bind_of_eq (argument_encodeHead _ hlen _)]
  exact Cbor.readBytes_append rfl rest

theorem integer_encodeInt {lower upper n : Int} (hlow : -2 ^ 64 ≤ n) (hhigh : n < 2 ^ 64)
    (rest : Bytes) : integer lower upper (Cbor.encodeInt n ++ rest) =
      if lower ≤ n ∧ n ≤ upper then some (n, rest) else none := by
  rw [integer, Parse.bind_of_eq (Cbor.readInt_encodeInt hlow hhigh rest)]
  split <;> rfl

theorem unsigned_of_readInt {max n : Nat} {bs rest : Bytes} (hn : n ≤ max)
    (h : Cbor.readInt bs = some ((n : Int), rest)) : unsigned max bs = some (n, rest) := by
  have hread : integer 0 max bs = some ((n : Int), rest) := by
    rw [integer, Parse.bind_of_eq h, if_pos (by omega)]
    rfl
  rw [unsigned, Parse.bind_of_eq hread]
  rfl

theorem floatBits_encode {k n : Nat} (hk : k < 4) (hn : n < 256 ^ 2 ^ k) (rest : Bytes) :
    floatBits (24 + k) (UInt8.ofNat (32 * 7 + (24 + k)) :: (Cbor.toBigEndian (2 ^ k) n ++ rest)) =
      some (n, rest) := by
  rw [floatBits, fromHead, Parse.bind_of_eq (Cbor.readHead_long (by simp) hk hn rest)]
  simp

theorem itemHead_short {major info value : Nat} (h : info < 24) :
    itemHead ⟨major, info, some value⟩ = ⟨typeCode major, value, false, 1⟩ := by
  have hlong : ¬ (24 ≤ info ∧ info < 28) := by omega
  simp [itemHead, hlong]

theorem parseItemHead_encodeHead {n : Nat} (hn : n < 24) (rest : Bytes) :
    fromHead (fun head => some (itemHead head)) (Cbor.encodeHead 4 n ++ rest) =
      some (⟨.array, n, false, 1⟩, rest) := by
  refine fromHead_encodeHead (by decide) (by omega) (fun info hinfo => ?_) rest
  rw [itemHead_short (hinfo hn)]
  rfl

theorem parseItemHead_initial {k : Nat} (hk : k < 24) (rest : Bytes) :
    fromHead (fun head => some (itemHead head)) (UInt8.ofNat (0x80 + k) :: rest) =
      some (⟨.array, k, false, 1⟩, rest) := by
  have hread := Cbor.readHead_short (show 4 < 8 by decide) hk rest
  refine (Parse.bind_of_eq hread).trans ?_
  simp only [itemHead_short hk]
  rfl

/-- The head of the given type with a certain argument. -/
def expectHead (type : TypeCode) (n : Nat) : Parse Unit := do
  let k ← fromHead (argument type)
  if k = n then pure () else failure

theorem expectHead_encodeHead (type : TypeCode) {n : Nat} (hn : n < 2 ^ 64) (rest : Bytes) :
    expectHead type n (Cbor.encodeHead (majorType type) n ++ rest) = some ((), rest) := by
  refine (Parse.bind_of_eq (argument_encodeHead type hn rest)).trans ?_
  rw [if_pos rfl]
  rfl

theorem unsigned_encodeInt {max n : Nat} (hn : n ≤ max) (hmax : max < 2 ^ 64) (rest : Bytes) :
    unsigned max (Cbor.encodeInt n ++ rest) = some (n, rest) :=
  unsigned_of_readInt hn (Cbor.readInt_encodeInt (by omega) (by omega) rest)

theorem unsigned_initial {max k : Nat} (hk : k < 24) (hmax : k ≤ max) (rest : Bytes) :
    unsigned max (UInt8.ofNat k :: rest) = some (k, rest) := by
  have hread : Cbor.readInt (Cbor.encodeInt k ++ rest) = some ((k : Int), rest) :=
    Cbor.readInt_encodeInt (by omega) (by omega) rest
  refine unsigned_of_readInt hmax ?_
  simpa [Cbor.encodeInt, Cbor.encodeHead, hk] using hread

theorem integer_int64 {n : Int} (hlow : -2 ^ 63 ≤ n) (hhigh : n < 2 ^ 63) (rest : Bytes) :
    integer (-2 ^ 63) (2 ^ 63 - 1) (Cbor.encodeInt n ++ rest) = some (n, rest) := by
  refine (integer_encodeInt (by omega) (by omega) rest).trans ?_
  rw [if_pos (by omega)]

/-- A binary string of a length known before. -/
def readBinary (n : Nat) : Parse (Vector UInt8 n) := do
  let bs ← readString .binary
  if h : bs.length = n then pure ⟨bs.toArray, h⟩ else failure

theorem readBinary_encode {n : Nat} (bs : Vector UInt8 n) (hn : n < 2 ^ 64) (rest : Bytes) :
    readBinary n (Cbor.encodeHead 2 bs.toList.length ++ bs.toList ++ rest) =
      some (bs, rest) := by
  have hlen : bs.toList.length < 2 ^ 64 := by simpa using hn
  have hread := readString_encode .binary hlen rest
  refine (Parse.bind_of_eq hread).trans ?_
  rw [dif_pos (by simp)]
  simp [Vector.toList]

def readFloat : Parse UInt32 := do
  let n ← floatBits 26
  pure (.ofNat n)

def readDouble : Parse UInt64 := do
  let n ← floatBits 27
  pure (.ofNat n)

theorem readFloat_encode (x : UInt32) (rest : Bytes) :
    readFloat (0xfa :: Cbor.toBigEndian 4 x.toNat ++ rest) = some (x, rest) := by
  have hread := floatBits_encode (show 2 < 4 by decide) x.toNat_lt rest
  refine (Parse.bind_of_eq hread).trans ?_
  simp

theorem readDouble_encode (x : UInt64) (rest : Bytes) :
    readDouble (0xfb :: Cbor.toBigEndian 8 x.toNat ++ rest) = some (x, rest) := by
  have hread := floatBits_encode (show 3 < 4 by decide) x.toNat_lt rest
  refine (Parse.bind_of_eq hread).trans ?_
  simp

def readBool : Parse Bool := fromHead fun head =>
  if head.major = 7 ∧ head.info < 24 then
    match head.value with
    | some 20 => some false
    | some 21 => some true
    | _ => none
  else none

theorem readBool_encode (x : Bool) (rest : Bytes) :
    readBool ([if x then 0xf5 else 0xf4] ++ rest) = some (x, rest) := by
  have hmajor : 7 < 8 := by decide
  cases x with
  | false => exact Parse.bind_of_eq (Cbor.readHead_short hmajor (show 20 < 24 by decide) rest)
  | true => exact Parse.bind_of_eq (Cbor.readHead_short hmajor (show 21 < 24 by decide) rest)

theorem encodeInt_length (n : Int) :
    1 ≤ (Cbor.encodeInt n).length ∧ (Cbor.encodeInt n).length ≤ 9 := by
  rw [Cbor.encodeInt]
  split
  · exact ⟨(Cbor.encodeHead_length _ _).1, (Cbor.encodeHead_length _ _).2.1⟩
  · exact ⟨(Cbor.encodeHead_length _ _).1, (Cbor.encodeHead_length _ _).2.1⟩

theorem encodeInt_small {n : Nat} (hn : n < 24) : (Cbor.encodeInt n).length = 1 := by
  rw [Cbor.encodeInt, if_pos (by omega)]
  exact (Cbor.encodeHead_length _ _).2.2 (by omega)

theorem length_lt_encodeHead (major : Nat) (bs : Bytes) :
    bs.length < (Cbor.encodeHead major bs.length ++ bs).length := by
  have := (Cbor.encodeHead_length major bs.length).1
  rw [List.length_append]
  omega

theorem encodeHead_short_length (major : Nat) {bs : Bytes} (hbs : bs.length < 24) :
    (Cbor.encodeHead major bs.length ++ bs).length = 1 + bs.length := by
  rw [List.length_append, (Cbor.encodeHead_length major bs.length).2.2 hbs]

def plain : Primitives where
  emitInteger := Cbor.encodeInt
  emitU8string bs := Cbor.encodeHead 3 bs.length ++ bs
  emitBinary bs := Cbor.encodeHead 2 bs.length ++ bs
  emitArray := Cbor.encodeHead 4
  emitMap := Cbor.encodeHead 5
  encodeFloat x := 0xfa :: Cbor.toBigEndian 4 x.toNat
  encodeDouble x := 0xfb :: Cbor.toBigEndian 8 x.toNat
  encodeBool x := [if x then 0xf5 else 0xf4]
  parseItemHead := fromHead fun head => some (itemHead head)
  expectItemHead := expectHead
  parseFiniteHead type := fromHead (argument type)
  parseInteger := unsigned
  parseSigned := integer (-2 ^ 63) (2 ^ 63 - 1)
  parseText := readString .text
  parseBinary := readBinary
  decodeFloat := readFloat
  decodeDouble := readDouble
  decodeBool := readBool
  skipItem := Cbor.skipItem
  parseItemHead_array _ rest hn := parseItemHead_encodeHead hn rest
  parseItemHead_byte _ rest hk := parseItemHead_initial hk rest
  expectItemHead_array _ rest hn := expectHead_encodeHead .array hn rest
  parseFiniteHead_array _ rest hn := argument_encodeHead .array hn rest
  parseFiniteHead_map _ rest hn := argument_encodeHead .map hn rest
  parseInteger_emit _ _ rest hn hmax := unsigned_encodeInt hn hmax rest
  parseInteger_byte _ _ rest hk hmax := unsigned_initial hk hmax rest
  parseInteger_word _ _ rest hn hmax := unsigned_of_readInt hmax (Cbor.readInt_word hn rest)
  parseSigned_emit _ rest hlow hhigh := integer_int64 hlow hhigh rest
  parseText_emit _ rest hlen := readString_encode .text hlen rest
  parseBinary_emit _ bs rest hn := readBinary_encode bs hn rest
  decodeFloat_encode := readFloat_encode
  decodeDouble_encode := readDouble_encode
  decodeBool_encode := readBool_encode
  skipItem_item item _ hitem := Cbor.skipItem_eq_some_iff.mpr ⟨item, hitem, rfl⟩
  emitInteger_length := encodeInt_length
  emitInteger_small _ hn := encodeInt_small hn
  emitU8string_length := length_lt_encodeHead 3
  emitU8string_nil := rfl
  emitArray_small _ hn := (Cbor.encodeHead_length 4 _).2.2 hn
  emitMap_small _ hn := (Cbor.encodeHead_length 5 _).2.2 hn
  emitBinary_small _ hbs := encodeHead_short_length 2 hbs

end Primitives

/-! ## Objects from primitives -/

open Primitives (unsigned)

/-- The parser takes the bytes, whatever follows them. -/
def Reads {α : Type} (p : Parse α) (bs : Bytes) (a : α) : Prop :=
  ∀ rest, p (bs ++ rest) = some (a, rest)

theorem Reads.pure {α : Type} (a : α) : Reads (pure a) [] a := fun _ => rfl

theorem Reads.bind {α β : Type} {p : Parse α} {q : α → Parse β} {x y : Bytes} {a : α} {b : β}
    (hp : Reads p x a) (hq : Reads (q a) y b) : Reads (p >>= q) (x ++ y) b := by
  intro rest
  rw [List.append_assoc, Parse.bind_of_eq (hp _)]
  exact hq rest

def emitUInt (n : Nat) : Bytes := Cbor.encodeHead 0 n

/-- A number that is known beforehand. -/
def expect (p : Parse Nat) (n : Nat) : Parse Unit := do
  let k ← p
  if k = n then pure () else failure

def readUInt32 : Parse UInt32 := do
  let n ← unsigned (2 ^ 32 - 1)
  pure (.ofNat n)

theorem reads_unsigned {max n : Nat} (hn : n ≤ max) (hmax : max < 2 ^ 64) :
    Reads (unsigned max) (emitUInt n) n := by
  intro rest
  exact Primitives.unsigned_encodeInt hn hmax rest

theorem reads_expect {p : Parse Nat} {bs : Bytes} {n : Nat} (h : Reads p bs n) :
    Reads (expect p n) bs () := by
  intro rest
  rw [expect, Parse.bind_of_eq (h rest), if_pos rfl]
  rfl

theorem reads_uint32 (n : UInt32) : Reads readUInt32 (emitUInt n.toNat) n := by
  intro rest
  have hle : n.toNat ≤ 2 ^ 32 - 1 := Nat.le_pred_of_lt n.toNat_lt
  rw [readUInt32, Parse.bind_of_eq (reads_unsigned hle (by simp) rest)]
  simp

end Deeplog.Codec
