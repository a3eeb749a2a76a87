import Deeplog.Codec.Vlog

/-!
# The size of a record

`vlog` asks for a buffer before it writes, and measures with other conditions than it writes with.
An empty scope whose data is not null is one byte that has not been measured; domain ids of codes
are measured with the nine bytes of a large one. What is left of these makes up for the scope.
-/

namespace Deeplog.Codec

open Cbor (Bytes)

/-- A code whose domain id takes less than the nine bytes it is measured with. -/
def Loggable.ShortDomain (dp : Primitives) : Loggable → Prop
  | .systemCode code => (dp.emitInteger code.domainId.toNat).length < 9
  | .statusCode code => (dp.emitInteger code.domainId.toNat).length < 9
  | _ => False

instance (dp : Primitives) : DecidablePred (Loggable.ShortDomain dp)
  | .systemCode _ | .statusCode _ => inferInstanceAs (Decidable (_ < _))
  | .uint64 _ | .int64 _ | .floatSingle _ | .floatDouble _ | .boolean _ | .string _ =>
    .isFalse id

/-- A scope that is written but not measured. -/
def LogContext.HasEmptyScope (logCtx : LogContext) : Prop := logCtx.instrumentationScope = some []

instance (logCtx : LogContext) : Decidable logCtx.HasEmptyScope :=
  inferInstanceAs (Decidable (_ = _))

namespace Primitives

variable (dp : Primitives)

/-- The bytes of an argument's measure that it does not take. -/
def unusedSize : Loggable → Nat
  | .systemCode code => 9 - (dp.emitInteger code.domainId.toNat).length
  | .statusCode code => 9 - (dp.emitInteger code.domainId.toNat).length
  | _ => 0

theorem encode_length_add (value : Loggable) :
    (dp.encode value).length + dp.unusedSize value = dp.encodedSizeOf value := by
  cases value with
  | systemCode code =>
    have harray := dp.emitArray_small 4 (by decide)
    have hid := (dp.emitInteger_length code.domainId.toNat).2
    simp only [encode, encodeSystemCode, encodedSizeOf, sizeOfSystemCode, unusedSize,
      List.length_append]
    omega
  | statusCode code =>
    have harray := dp.emitArray_small 3 (by decide)
    have hid := (dp.emitInteger_length code.domainId.toNat).2
    simp only [encode, encodeStatusCode, encodedSizeOf, sizeOfStatusCode, unusedSize,
      List.length_append]
    omega
  | _ => rfl

theorem encodeAnyLoggable_length_add (value : Loggable) :
    (dp.encodeAnyLoggable value).length + dp.unusedSize value = dp.itemSizeOfAnyLoggable value := by
  have harray := dp.emitArray_small 2 (by decide)
  have hencode := dp.encode_length_add value
  simp only [encodeAnyLoggable, itemSizeOfAnyLoggable, List.length_append]
  omega

theorem unusedSize_pos_iff (value : Loggable) :
    0 < dp.unusedSize value ↔ value.ShortDomain dp := by
  cases value with
  | systemCode code => exact Nat.sub_pos_iff_lt
  | statusCode code => exact Nat.sub_pos_iff_lt
  | _ => simp [unusedSize, Loggable.ShortDomain]

theorem arguments_length_add (values : List Loggable) :
    (values.flatMap dp.encodeAnyLoggable).length + (values.map dp.unusedSize).sum =
      (values.map dp.itemSizeOfAnyLoggable).sum := by
  induction values with
  | nil => rfl
  | cons value values ih =>
    have hvalue := dp.encodeAnyLoggable_length_add value
    simp only [List.flatMap_cons, List.length_append, List.map_cons, List.sum_cons]
    omega

theorem unusedSize_sum_pos_iff (values : List Loggable) :
    0 < (values.map dp.unusedSize).sum ↔ ∃ value ∈ values, value.ShortDomain dp := by
  induction values with
  | nil => simp
  | cons value values ih =>
    have hvalue := dp.unusedSize_pos_iff value
    rw [List.map_cons, List.sum_cons, Nat.add_pos_iff_pos_or_pos, hvalue, ih]
    simp

end Primitives

section Record

variable (dp : Primitives) (logCtx : LogContext) (args : LogArgs) (timeStamp : UInt64)

theorem scopeBytes_length : (scopeBytes dp logCtx).length =
    scopeSize dp logCtx + if logCtx.HasEmptyScope then 1 else 0 := by
  have hnil := dp.emitU8string_nil
  obtain ⟨_ | scope, span⟩ := logCtx
  · simp [scopeBytes, scopeSize, LogContext.HasEmptyScope]
  · by_cases hempty : scope = [] <;>
      simp [scopeBytes, scopeSize, LogContext.HasEmptyScope, hempty, hnil]

/-- What is written and not measured, and what is measured and not written. -/
theorem recordBytes_length_add :
    (recordBytes dp logCtx args timeStamp).length + (args.arguments.map dp.unusedSize).sum =
      totalSize dp logCtx args + if logCtx.HasEmptyScope then 1 else 0 := by
  have htrace := dp.emitBinary_small logCtx.span.traceId.toList (by simp)
  have hspan := dp.emitBinary_small logCtx.span.spanId.toList (by simp)
  rw [Vector.length_toList] at htrace hspan
  have hargs := dp.arguments_length_add args.arguments
  have hmap := dp.emitMap_small _ (numAttributes_lt args)
  have hline := dp.emitInteger_small 3 (by decide)
  have hfile := dp.emitInteger_small 2 (by decide)
  rw [recordBytes, List.length_append, bytesOf_headPieces, bytesOf_tailPieces]
  simp only [totalSize, List.length_append, List.length_cons, Cbor.toBigEndian_length,
    scopeBytes_length]
  split_ifs <;> simp only [List.length_append, List.length_nil] <;> omega

theorem recordBytes_length_le_iff :
    (recordBytes dp logCtx args timeStamp).length ≤ totalSize dp logCtx args ↔
      logCtx.HasEmptyScope → ∃ value ∈ args.arguments, value.ShortDomain dp := by
  have hlength := recordBytes_length_add dp logCtx args timeStamp
  rw [← dp.unusedSize_sum_pos_iff]
  by_cases hempty : logCtx.HasEmptyScope
  · simp only [hempty, if_true, forall_const] at hlength ⊢
    omega
  · simp only [hempty, if_false, false_implies, iff_true] at hlength ⊢
    omega

variable {dp logCtx args timeStamp}

/-- In a buffer of the size that it has asked for, `vlog` writes the whole record without a failed
write, exactly if the scope is not an empty one with data, or an argument with a short domain id
leaves room for it. -/
theorem reserves_enough_iff (hpos : args.severity ≠ 0) (hle : args.severity ≤ 24)
    (hsize : totalSize dp logCtx args < 2 ^ 32) :
    ((recordBytes dp logCtx args timeStamp).length ≤ encodedSize dp logCtx args ∧
      ∀ partly, vlog dp logCtx args partly some timeStamp =
        some (some (recordBytes dp logCtx args timeStamp))) ↔
    (logCtx.HasEmptyScope → ∃ value ∈ args.arguments, value.ShortDomain dp) := by
  have hencoded : encodedSize dp logCtx args = totalSize dp logCtx args := Nat.mod_eq_of_lt hsize
  rw [hencoded, recordBytes_length_le_iff]
  refine ⟨fun h => h.1, fun h => ⟨h, fun partly => ?_⟩⟩
  refine vlog_of_fits hpos hle rfl ?_
  rw [hencoded]
  exact (recordBytes_length_le_iff ..).mpr h

end Record

/-! ## Samples -/

/-- A context with a scope, or without, outside of any span. -/
def scopeContext (scope : Option Bytes) : LogContext := ⟨scope, .empty⟩

/-- A message of one byte, without arguments and location. -/
def shortMessage : LogArgs := ⟨1, [0x61], [], ⟨[], -1, -1, by decide⟩⟩

/-- A message with three arguments, of which a code has a short domain id, and a location. -/
def codeMessage : LogArgs where
  severity := 13
  message := [0x7b, 0x7d]
  arguments := [.uint64 7, .systemCode ⟨1, 5, [0x6e, 0x74], [0x6e, 0x6f]⟩, .string [0x61, 0x62]]
  location := ⟨[0x62, 0x2e, 0x63], 12, 3, by decide⟩

theorem reserves_enough_iff_code :
    (recordBytes .plain (scopeContext (some [])) codeMessage 7).length ≤
        encodedSize .plain (scopeContext (some [])) codeMessage ∧
      ∀ partly, vlog .plain (scopeContext (some [])) codeMessage partly some 7 =
        some (some (recordBytes .plain (scopeContext (some [])) codeMessage 7)) :=
  (reserves_enough_iff (by decide) (by decide) (by decide)).mpr (by decide)

/-- An empty scope with data is written into a buffer that has no room for it. -/
theorem reserves_not_enough : ¬ ∀ (dp : Primitives) (logCtx : LogContext) (args : LogArgs)
    (timeStamp : UInt64), args.severity ≠ 0 → args.severity ≤ 24 →
      totalSize dp logCtx args < 2 ^ 32 →
      (recordBytes dp logCtx args timeStamp).length ≤ encodedSize dp logCtx args ∧
        ∀ partly, vlog dp logCtx args partly some timeStamp =
          some (some (recordBytes dp logCtx args timeStamp)) := by
  intro hall
  have hle := (hall .plain (scopeContext (some [])) shortMessage 7 (by decide) (by decide)
    (by decide)).1
  revert hle
  decide

end Deeplog.Codec
