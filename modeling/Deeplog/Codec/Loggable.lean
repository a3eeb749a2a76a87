import Mathlib.Algebra.BigOperators.Group.List.Basic
import Deeplog.Codec.Primitives

/-!
# Arguments and attributes

The built-in kinds of values that can be logged: how they are measured and encoded for a record,
and how the `argument_transmorpher` and the `attribute_type_registry` revive them. The types that
are revived are not those that have been encoded.
-/

namespace Deeplog.Codec

open Cbor (Bytes)

/-- The entries of `x_poly_types.inl`. -/
inductive Kind where
  | uint64 | int64 | floatSingle | floatDouble | boolean | string | systemCode | statusCode
  deriving DecidableEq

/-- `reification_type_id` -/
def Kind.id : Kind → Nat
  | .uint64 => 0 | .int64 => 1 | .floatSingle => 2 | .floatDouble => 3
  | .boolean => 4 | .string => 5 | .systemCode => 6 | .statusCode => 7

/-- The built-in kind with an id. -/
def Kind.ofId (id : Nat) : Option Kind :=
  [uint64, int64, floatSingle, floatDouble, boolean, string, systemCode, statusCode].find?
    fun kind => kind.id = id

theorem Kind.ofId_id (kind : Kind) : Kind.ofId kind.id = some kind := by
  cases kind <;> rfl

/-- What a `trivial_system_code_view` shows; the value is an `intptr_t`. -/
structure SystemCode where
  domainId : UInt64
  value : Int64
  domainName : Bytes
  message : Bytes

/-- What a `trivial_status_code_view` shows. -/
structure StatusCode where
  domainId : UInt64
  domainName : Bytes
  message : Bytes

/-- An `any_loggable_ref_storage` with its id. Floats are given by their bits. -/
inductive Loggable where
  | uint64 (value : UInt64)
  | int64 (value : Int64)
  | floatSingle (bits : UInt32)
  | floatDouble (bits : UInt64)
  | boolean (value : Bool)
  | string (value : Bytes)
  | systemCode (code : SystemCode)
  | statusCode (code : StatusCode)

def Loggable.kind : Loggable → Kind
  | .uint64 _ => .uint64 | .int64 _ => .int64 | .floatSingle _ => .floatSingle
  | .floatDouble _ => .floatDouble | .boolean _ => .boolean | .string _ => .string
  | .systemCode _ => .systemCode | .statusCode _ => .statusCode

structure ReifiedSystemCode where
  domainId : Nat
  rawValue : Nat
  domainName : Bytes
  message : Bytes

structure ReifiedStatusCode where
  domainId : Nat
  domainName : Bytes
  message : Bytes

/-- A value that has been decoded again. -/
inductive Reified where
  | uint64 (value : Nat)
  | int64 (value : Int)
  | floatSingle (bits : UInt32)
  | floatDouble (bits : UInt64)
  | boolean (value : Bool)
  | string (value : Bytes)
  | systemCode (code : ReifiedSystemCode)
  | statusCode (code : ReifiedStatusCode)

namespace Primitives

variable (dp : Primitives)

/-! ## Encoding -/

def encodeSystemCode (code : SystemCode) : Bytes :=
  dp.emitArray 4 ++ dp.emitInteger code.domainId.toNat ++ dp.emitInteger code.value.toInt ++
    dp.emitU8string code.domainName ++ dp.emitU8string code.message

def sizeOfSystemCode (code : SystemCode) : Nat :=
  1 + 9 + (dp.emitInteger code.value.toInt).length +
    (dp.emitU8string code.domainName).length + (dp.emitU8string code.message).length

def encodeStatusCode (code : StatusCode) : Bytes :=
  dp.emitArray 3 ++ dp.emitInteger code.domainId.toNat ++
    dp.emitU8string code.domainName ++ dp.emitU8string code.message

def sizeOfStatusCode (code : StatusCode) : Nat :=
  1 + 9 + (dp.emitU8string code.domainName).length + (dp.emitU8string code.message).length

def encode : Loggable → Bytes
  | .uint64 value => dp.emitInteger value.toNat
  | .int64 value => dp.emitInteger value.toInt
  | .floatSingle bits => dp.encodeFloat bits
  | .floatDouble bits => dp.encodeDouble bits
  | .boolean value => dp.encodeBool value
  | .string value => dp.emitU8string value
  | .systemCode code => dp.encodeSystemCode code
  | .statusCode code => dp.encodeStatusCode code

/-- `encoded_size_of`, which is not exact for codes. -/
def encodedSizeOf : Loggable → Nat
  | .systemCode code => dp.sizeOfSystemCode code
  | .statusCode code => dp.sizeOfStatusCode code
  | value => (dp.encode value).length

def encodeAnyLoggable (value : Loggable) : Bytes :=
  dp.emitArray 2 ++ dp.emitInteger value.kind.id ++ dp.encode value

def itemSizeOfAnyLoggable (value : Loggable) : Nat :=
  1 + (dp.emitInteger value.kind.id).length + dp.encodedSizeOf value

theorem encode_length_le (value : Loggable) :
    (dp.encode value).length ≤ dp.encodedSizeOf value := by
  cases value with
  | systemCode code =>
    have harray := dp.emitArray_small 4 (by simp)
    have hid := (dp.emitInteger_length code.domainId.toNat).2
    simp only [encode, encodeSystemCode, encodedSizeOf, sizeOfSystemCode, List.length_append]
    omega
  | statusCode code =>
    have harray := dp.emitArray_small 3 (by simp)
    have hid := (dp.emitInteger_length code.domainId.toNat).2
    simp only [encode, encodeStatusCode, encodedSizeOf, sizeOfStatusCode, List.length_append]
    omega
  | _ => exact Nat.le_refl _

/-- Room is reserved for every argument. -/
theorem encodeAnyLoggable_length_le (value : Loggable) :
    (dp.encodeAnyLoggable value).length ≤ dp.itemSizeOfAnyLoggable value := by
  have harray := dp.emitArray_small 2 (by simp)
  have hencode := dp.encode_length_le value
  simp only [encodeAnyLoggable, itemSizeOfAnyLoggable, List.length_append]
  omega

/-! ## Decoding -/

def decodeSystemCode : Parse ReifiedSystemCode := do
  dp.expectItemHead .array 4
  let domainId ← dp.parseInteger (2 ^ 64 - 1)
  let rawValue ← dp.parseInteger (2 ^ 64 - 1)
  let domainName ← dp.parseText
  let message ← dp.parseText
  pure { domainId, rawValue, domainName, message }

def decodeStatusCode : Parse ReifiedStatusCode := do
  dp.expectItemHead .array 3
  let domainId ← dp.parseInteger (2 ^ 64 - 1)
  let domainName ← dp.parseText
  let message ← dp.parseText
  pure { domainId, domainName, message }

/-- The decoder behind `revive_template` and `reify`. -/
def revive : Kind → Parse Reified
  | .uint64 => do pure (.uint64 (← dp.parseInteger (2 ^ 64 - 1)))
  | .int64 => do pure (.int64 (← dp.parseSigned))
  | .floatSingle => do pure (.floatSingle (← dp.decodeFloat))
  | .floatDouble => do pure (.floatDouble (← dp.decodeDouble))
  | .boolean => do pure (.boolean (← dp.decodeBool))
  | .string => do pure (.string (← dp.parseText))
  | .systemCode => do pure (.systemCode (← dp.decodeSystemCode))
  | .statusCode => do pure (.statusCode (← dp.decodeStatusCode))

/-- The choice of `decode_arg`: two types are always known. -/
def reviveKey (knownTypes : Nat → Option Kind) (key : Nat) : Parse Reified :=
  if key = Kind.uint64.id then dp.revive .uint64
  else if key = Kind.int64.id then dp.revive .int64
  else match knownTypes key with
    | some kind => dp.revive kind
    | none => failure

def parseName (named : Bool) : Parse (Option Bytes) :=
  if named then some <$> dp.parseText else pure none

/-- `argument_transmorpher::decode_arg`: an argument, with its name if it has one. -/
def decodeArg (knownTypes : Nat → Option Kind) : Parse (Option Bytes × Reified) := do
  let tupleHead ← dp.parseItemHead
  if tupleHead.type ≠ .array then failure
  else if tupleHead.indefinite ∨ (tupleHead.value ≠ 2 ∧ tupleHead.value ≠ 3) then failure
  else if tupleHead.encodedLength ≠ 1 then failure
  else do
    let key ← dp.parseInteger (2 ^ 64 - 1)
    let name ← dp.parseName (tupleHead.value = 3)
    let value ← dp.reviveKey knownTypes key
    pure (name, value)

def decodeItems {α : Type} (item : Parse α) : Nat → Parse (List α)
  | 0 => pure []
  | n + 1 => do
    let first ← item
    let others ← decodeItems item n
    pure (first :: others)

/-- `argument_transmorpher::operator()` -/
def decodeArguments (knownTypes : Nat → Option Kind) : Parse (List (Option Bytes × Reified)) := do
  let n ← dp.parseFiniteHead .array
  decodeItems (dp.decodeArg knownTypes) n

/-- `attribute_type_registry::decode` -/
def decodeAttribute (registry : Nat → Option Kind) : Parse (Nat × Reified) := do
  let key ← dp.parseInteger (2 ^ 64 - 1)
  match registry key with
  | some kind => do pure (key, ← dp.revive kind)
  | none => failure

/-- `try_emplace` -/
def tryEmplace (store : List (Nat × Reified)) (attr : Nat × Reified) : List (Nat × Reified) :=
  if store.any (·.1 = attr.1) then store else store ++ [attr]

/-- `codec<attribute_container>::decode`; without a registry, no attributes are accepted. -/
def decodeAttributes (registry : Option (Nat → Option Kind)) : Parse (List (Nat × Reified)) :=
  match registry with
  | none => do
    dp.expectItemHead .map 0
    pure []
  | some registry => do
    let n ← dp.parseFiniteHead .map
    let attrs ← decodeItems (dp.decodeAttribute registry) n
    pure (attrs.foldl tryEmplace [])

end Primitives

/-! ## Round trip -/

/-- The same value of the same kind, without a name. -/
def Loggable.Same : Loggable → Option Bytes × Reified → Prop
  | .uint64 value, (none, .uint64 value') => value' = value.toNat
  | .int64 value, (none, .int64 value') => value' = value.toInt
  | .floatSingle bits, (none, .floatSingle bits') => bits' = bits
  | .floatDouble bits, (none, .floatDouble bits') => bits' = bits
  | .boolean value, (none, .boolean value') => value' = value
  | .string value, (none, .string value') => value' = value
  | .systemCode code, (none, .systemCode code') =>
    code'.domainId = code.domainId.toNat ∧ (code'.rawValue : Int) = code.value.toInt ∧
      code'.domainName = code.domainName ∧ code'.message = code.message
  | .statusCode code, (none, .statusCode code') =>
    code'.domainId = code.domainId.toNat ∧
      code'.domainName = code.domainName ∧ code'.message = code.message
  | _, _ => False

/-- The value of a system code is not negative. -/
def Loggable.NonNegative : Loggable → Prop
  | .systemCode code => 0 ≤ code.value.toInt
  | _ => True

/-- An integer, a float, a bool or a string, of a size that strings can have. -/
def Loggable.Plain : Loggable → Prop
  | .string value => value.length < 2 ^ 64
  | .systemCode _ | .statusCode _ => False
  | _ => True

/-- A negative value is not among those that can be revived. -/
theorem Loggable.Same.nonNegative {value : Loggable} {arg : Option Bytes × Reified}
    (h : value.Same arg) : value.NonNegative := by
  cases value with
  | systemCode code =>
    obtain ⟨_ | name, reified⟩ := arg
    · cases reified with
      | systemCode code' =>
        have hraw : (code'.rawValue : Int) = code.value.toInt := h.2.1
        simp only [NonNegative]
        omega
      | _ => exact h.elim
    · exact h.elim
  | _ => trivial

namespace Primitives

variable (dp : Primitives)

theorem parseText_emit_of_lt {bs : Bytes} (h : (dp.emitU8string bs).length < 2 ^ 32)
    (rest : Bytes) : dp.parseText (dp.emitU8string bs ++ rest) = some (bs, rest) := by
  have := dp.emitU8string_length bs
  exact dp.parseText_emit bs rest (by omega)

theorem parseInteger_emit_uint64 (n : UInt64) (rest : Bytes) :
    dp.parseInteger (2 ^ 64 - 1) (dp.emitInteger n.toNat ++ rest) = some (n.toNat, rest) := by
  have := n.toNat_lt
  exact dp.parseInteger_emit _ _ rest (by omega) (by omega)

theorem decodeSystemCode_encode {code : SystemCode} (hvalue : 0 ≤ code.value.toInt)
    (hsize : (dp.encodeSystemCode code).length < 2 ^ 32) (rest : Bytes) :
    dp.decodeSystemCode (dp.encodeSystemCode code ++ rest) =
      some (⟨code.domainId.toNat, code.value.toInt.toNat, code.domainName, code.message⟩,
        rest) := by
  have hlt := code.value.toInt_lt
  have hcast : code.value.toInt = (code.value.toInt.toNat : Int) := by omega
  have hraw := fun rest => dp.parseInteger_emit (2 ^ 64 - 1) code.value.toInt.toNat rest
    (by omega) (by omega)
  rw [← hcast] at hraw
  simp only [encodeSystemCode, List.length_append] at hsize
  simp only [encodeSystemCode, List.append_assoc, decodeSystemCode]
  rw [Parse.bind_of_eq (dp.expectItemHead_array 4 _ (by simp)),
    Parse.bind_of_eq (dp.parseInteger_emit_uint64 _ _), Parse.bind_of_eq (hraw _),
    Parse.bind_of_eq (dp.parseText_emit_of_lt (by omega) _),
    Parse.bind_of_eq (dp.parseText_emit_of_lt (by omega) _)]
  rfl

theorem decodeStatusCode_encode {code : StatusCode}
    (hsize : (dp.encodeStatusCode code).length < 2 ^ 32) (rest : Bytes) :
    dp.decodeStatusCode (dp.encodeStatusCode code ++ rest) =
      some (⟨code.domainId.toNat, code.domainName, code.message⟩, rest) := by
  simp only [encodeStatusCode, List.length_append] at hsize
  simp only [encodeStatusCode, List.append_assoc, decodeStatusCode]
  rw [Parse.bind_of_eq (dp.expectItemHead_array 3 _ (by simp)),
    Parse.bind_of_eq (dp.parseInteger_emit_uint64 _ _),
    Parse.bind_of_eq (dp.parseText_emit_of_lt (by omega) _),
    Parse.bind_of_eq (dp.parseText_emit_of_lt (by omega) _)]
  rfl

/-- A plain value is revived. -/
theorem revive_plain {value : Loggable} (h : value.Plain) :
    ∃ reified, Reads (dp.revive value.kind) (dp.encode value) reified ∧
      value.Same (none, reified) := by
  cases value with
  | uint64 value =>
    exact ⟨_, fun rest => Parse.bind_of_eq (dp.parseInteger_emit_uint64 value rest), rfl⟩
  | int64 value =>
    exact ⟨_, fun rest => Parse.bind_of_eq
      (dp.parseSigned_emit _ rest value.le_toInt value.toInt_lt), rfl⟩
  | floatSingle bits => exact ⟨_, fun rest =>
      Parse.bind_of_eq (dp.decodeFloat_encode bits rest), rfl⟩
  | floatDouble bits =>
    exact ⟨_, fun rest => Parse.bind_of_eq (dp.decodeDouble_encode bits rest), rfl⟩
  | boolean value => exact ⟨_, fun rest => Parse.bind_of_eq (dp.decodeBool_encode value rest), rfl⟩
  | string value => exact ⟨_, fun rest => Parse.bind_of_eq (dp.parseText_emit value rest h), rfl⟩
  | systemCode | statusCode => exact h.elim

/-- What has been encoded is revived, unless it is a negative system code. -/
theorem revive_encode {value : Loggable} (hvalue : value.NonNegative)
    (hsize : (dp.encode value).length < 2 ^ 32) (rest : Bytes) :
    ∃ reified, dp.revive value.kind (dp.encode value ++ rest) = some (reified, rest) ∧
      value.Same (none, reified) := by
  have hplain : value.Plain → ∃ reified,
      dp.revive value.kind (dp.encode value ++ rest) = some (reified, rest) ∧
        value.Same (none, reified) := by
    intro hplain
    obtain ⟨reified, hreads, hsame⟩ := dp.revive_plain hplain
    exact ⟨reified, hreads rest, hsame⟩
  cases value with
  | string value =>
    have hlength := dp.emitU8string_length value
    simp only [encode] at hsize
    exact hplain (show value.length < 2 ^ 64 by omega)
  | systemCode code =>
    refine ⟨_, Parse.bind_of_eq (dp.decodeSystemCode_encode hvalue hsize rest), rfl, ?_, rfl, rfl⟩
    exact Int.toNat_of_nonneg hvalue
  | statusCode code =>
    exact ⟨_, Parse.bind_of_eq (dp.decodeStatusCode_encode hsize rest), rfl, rfl, rfl⟩
  | _ => exact hplain trivial

theorem parseInteger_id (kind : Kind) (rest : Bytes) :
    dp.parseInteger (2 ^ 64 - 1) (dp.emitInteger kind.id ++ rest) = some (kind.id, rest) :=
  dp.parseInteger_emit _ _ rest (by cases kind <;> decide) (by decide)

theorem reviveKey_id {knownTypes : Nat → Option Kind} {kind : Kind}
    (hknown : knownTypes kind.id = some kind) :
    dp.reviveKey knownTypes kind.id = dp.revive kind := by
  rw [reviveKey, hknown]
  cases kind <;> rfl

/-- What is in front of the value of an argument is read. -/
theorem decodeArg_front (knownTypes : Nat → Option Kind) (value : Loggable) (rest : Bytes) :
    dp.decodeArg knownTypes (dp.encodeAnyLoggable value ++ rest) =
      (do
        let reified ← dp.reviveKey knownTypes value.kind.id
        pure (none, reified) : Parse (Option Bytes × Reified)) (dp.encode value ++ rest) := by
  simp only [encodeAnyLoggable, List.append_assoc, decodeArg]
  rw [Parse.bind_of_eq (dp.parseItemHead_array 2 _ (by simp)), if_neg (by simp), if_neg (by simp),
    if_neg (by simp), Parse.bind_of_eq (dp.parseInteger_id _ _)]
  have hname : dp.parseName (decide ((2 : Nat) = 3)) (dp.encode value ++ rest) =
      some (none, dp.encode value ++ rest) := rfl
  rw [Parse.bind_of_eq hname]

/-- An argument comes back, if its kind is known. -/
theorem decodeArg_encode {knownTypes : Nat → Option Kind} {value : Loggable}
    (hknown : dp.reviveKey knownTypes value.kind.id = dp.revive value.kind)
    (hvalue : value.NonNegative)
    (hsize : (dp.encodeAnyLoggable value).length < 2 ^ 32) (rest : Bytes) :
    ∃ arg, dp.decodeArg knownTypes (dp.encodeAnyLoggable value ++ rest) = some (arg, rest) ∧
      value.Same arg := by
  simp only [encodeAnyLoggable, List.length_append] at hsize
  obtain ⟨reified, hrevive, hsame⟩ := dp.revive_encode hvalue (by omega) rest
  refine ⟨(none, reified), ?_, hsame⟩
  rw [decodeArg_front, hknown, Parse.bind_of_eq hrevive]
  rfl

theorem decodeItems_encode {α β : Type} {item : Parse β} {encode : α → Bytes}
    {Same : α → β → Prop} {values : List α}
    (hitem : ∀ value ∈ values, ∀ rest, ∃ b, item (encode value ++ rest) = some (b, rest) ∧
      Same value b) (rest : Bytes) :
    ∃ items, decodeItems item values.length (values.flatMap encode ++ rest) =
      some (items, rest) ∧ List.Forall₂ Same values items := by
  induction values with
  | nil => exact ⟨[], rfl, .nil⟩
  | cons value values ih =>
    obtain ⟨items, hitems, hsame⟩ := ih fun v hv => hitem v (by simp [hv])
    obtain ⟨b, hb, hvalue⟩ := hitem value (by simp) (values.flatMap encode ++ rest)
    refine ⟨b :: items, ?_, .cons hvalue hsame⟩
    rw [List.flatMap_cons, List.append_assoc, List.length_cons, decodeItems,
      Parse.bind_of_eq hb, Parse.bind_of_eq hitems]
    rfl

/-- An argument of a kind that is not known is refused. -/
theorem decodeArg_unknown {knownTypes : Nat → Option Kind} {value : Loggable}
    (hunknown : dp.reviveKey knownTypes value.kind.id = failure) (rest : Bytes) :
    dp.decodeArg knownTypes (dp.encodeAnyLoggable value ++ rest) = none := by
  rw [decodeArg_front, hunknown]
  rfl

/-- One item that fails is the end of all. -/
theorem decodeItems_failure {α β : Type} {item : Parse β} {encode : α → Bytes} {values : List α}
    (hitem : ∀ value ∈ values, ∀ rest, ∃ b, item (encode value ++ rest) = some (b, rest))
    {rest : Bytes} (hrest : item rest = none) (n : Nat) :
    decodeItems item (values.length + (n + 1)) (values.flatMap encode ++ rest) = none := by
  induction values with
  | nil =>
    rw [List.length_nil, Nat.zero_add, List.flatMap_nil, List.nil_append, decodeItems]
    exact Parse.bind_of_none hrest
  | cons value values ih =>
    obtain ⟨hvalue, hvalues⟩ := List.forall_mem_cons.mp hitem
    obtain ⟨b, hb⟩ := hvalue (values.flatMap encode ++ rest)
    rw [List.flatMap_cons, List.append_assoc, List.length_cons, Nat.add_right_comm, decodeItems,
      Parse.bind_of_eq hb]
    exact Parse.bind_of_none (ih hvalues)

/-- Every argument is at least a byte. -/
theorem length_le_arguments (values : List Loggable) :
    values.length ≤ (values.flatMap dp.encodeAnyLoggable).length := by
  rw [List.length_flatMap]
  refine le_of_eq_of_le (List.length_map _).symm (List.length_le_sum_of_one_le _ fun i hi => ?_)
  obtain ⟨value, -, rfl⟩ := List.mem_map.mp hi
  have := dp.emitArray_small 2 (by simp)
  simp only [encodeAnyLoggable, List.length_append]
  omega

theorem encodeAnyLoggable_length_le_arguments {values : List Loggable} {value : Loggable}
    (h : value ∈ values) :
    (dp.encodeAnyLoggable value).length ≤ (values.flatMap dp.encodeAnyLoggable).length :=
  (List.sublist_flatten_of_mem (List.mem_map_of_mem h)).length_le

/-- All arguments come back. -/
theorem decodeArguments_encode {knownTypes : Nat → Option Kind} {values : List Loggable}
    (hknown : ∀ value ∈ values, dp.reviveKey knownTypes value.kind.id = dp.revive value.kind)
    (hvalue : ∀ value ∈ values, value.NonNegative)
    (hsize : (values.flatMap dp.encodeAnyLoggable).length < 2 ^ 32) (rest : Bytes) :
    ∃ args, dp.decodeArguments knownTypes (dp.emitArray values.length ++
        (values.flatMap dp.encodeAnyLoggable ++ rest)) = some (args, rest) ∧
      List.Forall₂ Loggable.Same values args := by
  have hitem : ∀ value ∈ values, ∀ rest,
      ∃ arg, dp.decodeArg knownTypes (dp.encodeAnyLoggable value ++ rest) = some (arg, rest) ∧
        value.Same arg := by
    intro value hmem rest
    have hle := dp.encodeAnyLoggable_length_le_arguments hmem
    exact dp.decodeArg_encode (hknown value hmem) (hvalue value hmem) (by omega) rest
  obtain ⟨args, hargs, hsame⟩ := decodeItems_encode hitem rest
  have hlength := dp.length_le_arguments values
  refine ⟨args, ?_, hsame⟩
  rw [decodeArguments, Parse.bind_of_eq (dp.parseFiniteHead_array _ _ (by omega))]
  exact hargs

/-- The arguments are refused with the first one of an unknown kind. -/
theorem decodeArguments_unknown {knownTypes : Nat → Option Kind} {before after : List Loggable}
    {unknown : Loggable}
    (hknown : ∀ value ∈ before, dp.reviveKey knownTypes value.kind.id = dp.revive value.kind)
    (hunknown : dp.reviveKey knownTypes unknown.kind.id = failure)
    (hvalue : ∀ value ∈ before, value.NonNegative)
    (hsize : ((before ++ unknown :: after).flatMap dp.encodeAnyLoggable).length < 2 ^ 32)
    (rest : Bytes) :
    dp.decodeArguments knownTypes (dp.emitArray (before ++ unknown :: after).length ++
      ((before ++ unknown :: after).flatMap dp.encodeAnyLoggable ++ rest)) = none := by
  have hlength := dp.length_le_arguments (before ++ unknown :: after)
  have hitem : ∀ value ∈ before, ∀ rest, ∃ arg,
      dp.decodeArg knownTypes (dp.encodeAnyLoggable value ++ rest) = some (arg, rest) := by
    intro value hmem rest
    have hmem' : value ∈ before ++ unknown :: after := List.mem_append_left _ hmem
    have hle := dp.encodeAnyLoggable_length_le_arguments hmem'
    obtain ⟨arg, harg, -⟩ :=
      dp.decodeArg_encode (hknown value hmem) (hvalue value hmem) (by omega) rest
    exact ⟨arg, harg⟩
  rw [decodeArguments, Parse.bind_of_eq (dp.parseFiniteHead_array _ _ (by omega)),
    List.length_append, List.length_cons, List.flatMap_append, List.flatMap_cons,
    List.append_assoc, List.append_assoc]
  exact decodeItems_failure hitem (dp.decodeArg_unknown hunknown _) after.length

end Primitives

end Deeplog.Codec
