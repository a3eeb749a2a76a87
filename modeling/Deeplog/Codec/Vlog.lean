import Deeplog.Codec.Loggable

/-!
# Emitting a record

`vlog` measures a record, asks the port for a buffer and writes the record into it. Not all of its
writes are checked: some bytes are stored directly, and of some calls the result is ignored.
-/

namespace Deeplog.Codec

open Cbor (Bytes)

structure SpanContext where
  traceId : Vector UInt8 16
  spanId : Vector UInt8 8
  deriving DecidableEq

/-- An invalid id has no bit set. -/
def SpanContext.empty : SpanContext := ⟨.replicate 16 0, .replicate 8 0⟩

/-- A `log_context` without its port. The scope is a `string_view`, whose data may be null. -/
structure LogContext where
  instrumentationScope : Option Bytes
  span : SpanContext

structure LogLocation where
  filename : Bytes
  line : Int32
  filenameSize : Int16
  filenameSize_le : filenameSize.toInt ≤ filename.length

structure LogArgs where
  severity : Nat
  message : Bytes
  arguments : List Loggable
  location : LogLocation

namespace LogLocation

def hasLine (location : LogLocation) : Bool := 0 ≤ location.line.toInt

def hasFileName (location : LogLocation) : Bool := 0 ≤ location.filenameSize.toInt

/-- The bytes from `filename` to its end. -/
def file (location : LogLocation) : Bytes :=
  location.filename.take location.filenameSize.toInt.toNat

end LogLocation

def LogContext.hasOwnerSpan (logCtx : LogContext) : Bool :=
  logCtx.span.spanId ≠ SpanContext.empty.spanId

/-- A write to the output buffer: directly to its memory, through a call whose result is ignored,
or through one with `DPLX_TRY`. -/
inductive Piece where
  | raw (bs : Bytes)
  | ignored (bs : Bytes)
  | checked (bs : Bytes)

def Piece.bytes : Piece → Bytes
  | .raw bs | .ignored bs | .checked bs => bs

/-- A write into a buffer that cannot grow. `partly` tells how much of a write that fails has been
stored. -/
def Piece.emit (partly : Bytes → Nat → Nat) (capacity : Nat) (out : Bytes) : Piece → Option Bytes
  | .raw bs => some (out ++ bs)
  | .ignored bs =>
    if out.length + bs.length ≤ capacity then some (out ++ bs)
    else some (out ++ bs.take (partly bs (capacity - out.length)))
  | .checked bs => if out.length + bs.length ≤ capacity then some (out ++ bs) else none

section

variable (dp : Primitives) (logCtx : LogContext) (args : LogArgs)

/-- Only a scope that is not empty is measured. -/
def scopeSize : Nat :=
  match logCtx.instrumentationScope with
  | some scope => if scope = [] then 0 else (dp.emitU8string scope).length
  | none => 0

/-- But one whose data is not null is written. -/
def scopeBytes : Bytes :=
  match logCtx.instrumentationScope with
  | some scope => dp.emitU8string scope
  | none => []

/-- The sum of the sizes that `vlog` takes into account. -/
def totalSize : Nat :=
  (dp.emitArray 6).length + (1 + 9) +
    1 + scopeSize dp logCtx +
    (if logCtx.hasOwnerSpan then 17 + 9 else 0) +
    (dp.emitU8string args.message).length +
    (dp.emitArray args.arguments.length).length +
    (args.arguments.map dp.itemSizeOfAnyLoggable).sum +
    1 +
    (if args.location.hasLine then 1 + (dp.emitInteger args.location.line.toInt).length else 0) +
    (if args.location.hasFileName then 1 + (dp.emitU8string args.location.file).length else 0)

/-- It is kept in an `unsigned`. -/
def encodedSize : Nat := totalSize dp logCtx args % 2 ^ 32

/-- The context head tells which parts of the context follow. -/
def contextBits : Nat :=
  (if logCtx.instrumentationScope.isSome then 1 else 0) + (if logCtx.hasOwnerSpan then 2 else 0)

/-- The part of the record up to its arguments. -/
def headPieces (timeStamp : UInt64) : List Piece :=
  [.ignored (dp.emitArray 6),
    .raw [UInt8.ofNat (args.severity - 1), UInt8.ofNat (0x80 + contextBits logCtx)]] ++
  (if logCtx.instrumentationScope.isSome then [.ignored (scopeBytes dp logCtx)] else []) ++
  (if logCtx.hasOwnerSpan then
    [.ignored (dp.emitBinary logCtx.span.traceId.toList),
      .ignored (dp.emitBinary logCtx.span.spanId.toList)]
  else []) ++
  [.raw (27 :: Cbor.toBigEndian 8 timeStamp.toNat),
    .ignored (dp.emitU8string args.message),
    .ignored (dp.emitArray args.arguments.length)]

def numAttributes : Nat := args.location.hasLine.toNat + args.location.hasFileName.toNat

/-- The part of the record from its arguments on. -/
def tailPieces : List Piece :=
  args.arguments.map (fun value => .checked (dp.encodeAnyLoggable value)) ++
  [.checked (dp.emitMap (numAttributes args))] ++
  (if args.location.hasLine then
    [.checked (dp.emitInteger (3 : Nat)), .checked (dp.emitInteger args.location.line.toInt)]
  else []) ++
  (if args.location.hasFileName then
    [.checked (dp.emitInteger (2 : Nat)), .checked (dp.emitU8string args.location.file)]
  else [])

/-- `vlog`: nothing if it fails, otherwise the message on the bus, if there is one. The port gives
a buffer, of which only the capacity matters. -/
def vlog (partly : Bytes → Nat → Nat) (allocate : Nat → Option Nat) (timeStamp : UInt64) :
    Option (Option Bytes) :=
  if args.severity = 0 then some none
  else if 24 < args.severity then none
  else do
    let capacity ← allocate (encodedSize dp logCtx args)
    let message ← (headPieces dp logCtx args timeStamp ++ tailPieces dp args).foldlM
      (Piece.emit partly capacity) []
    pure (some message)

end

/-! ## Room for the record -/

variable {partly : Bytes → Nat → Nat} {capacity : Nat} {out out' : Bytes}

def bytesOf (pieces : List Piece) : Bytes := pieces.flatMap Piece.bytes

/-- What fits is written. -/
theorem emit_of_fits {pieces : List Piece} (h : (out ++ bytesOf pieces).length ≤ capacity) :
    pieces.foldlM (Piece.emit partly capacity) out = some (out ++ bytesOf pieces) := by
  induction pieces generalizing out with
  | nil => simp [bytesOf]
  | cons piece pieces ih =>
    simp only [bytesOf, List.flatMap_cons, ← List.append_assoc] at h ⊢
    have hfits : out.length + piece.bytes.length ≤ capacity := by
      simp only [List.length_append] at h
      omega
    have hpiece : piece.emit partly capacity out = some (out ++ piece.bytes) := by
      cases piece with
      | raw bs => rfl
      | ignored bs => exact if_pos hfits
      | checked bs => exact if_pos hfits
    rw [List.foldlM_cons, hpiece]
    exact ih h

/-- Where every write is checked, success means that everything is there. -/
theorem emit_checked {pieces : List Piece} (hchecked : ∀ p ∈ pieces, ∃ bs, p = .checked bs)
    (h : pieces.foldlM (Piece.emit partly capacity) out = some out') :
    out' = out ++ bytesOf pieces := by
  induction pieces generalizing out with
  | nil =>
    cases h
    simp [bytesOf]
  | cons piece pieces ih =>
    obtain ⟨bs, rfl⟩ := hchecked piece (by simp)
    rw [List.foldlM_cons] at h
    obtain ⟨mid, hmid, htail⟩ := Option.bind_eq_some_iff.mp h
    simp only [Piece.emit] at hmid
    split at hmid <;> cases hmid
    rw [ih (fun p hp => hchecked p (by simp [hp])) htail]
    simp [bytesOf, Piece.bytes]

variable (dp : Primitives) (logCtx : LogContext) (args : LogArgs)

theorem tailPieces_checked : ∀ p ∈ tailPieces dp args, ∃ bs, p = .checked bs := by
  intro p hp
  simp only [tailPieces, List.mem_append, List.mem_map] at hp
  grind

theorem numAttributes_lt : numAttributes args < 24 := by
  have hline := Bool.toNat_le args.location.hasLine
  have hfile := Bool.toNat_le args.location.hasFileName
  simp only [numAttributes]
  omega

theorem arguments_length_le (values : List Loggable) :
    (values.flatMap dp.encodeAnyLoggable).length ≤ (values.map dp.itemSizeOfAnyLoggable).sum := by
  induction values with
  | nil => simp
  | cons value values ih =>
    have hvalue := dp.encodeAnyLoggable_length_le value
    simp only [List.flatMap_cons, List.length_append, List.map_cons, List.sum_cons]
    omega

theorem bytesOf_append (as bs : List Piece) : bytesOf (as ++ bs) = bytesOf as ++ bytesOf bs :=
  List.flatMap_append

/-- The bytes from the arguments on. -/
theorem bytesOf_tailPieces : bytesOf (tailPieces dp args) =
    args.arguments.flatMap dp.encodeAnyLoggable ++ (dp.emitMap (numAttributes args) ++
      ((if args.location.hasLine then
          dp.emitInteger (3 : Nat) ++ dp.emitInteger args.location.line.toInt else []) ++
        (if args.location.hasFileName then
          dp.emitInteger (2 : Nat) ++ dp.emitU8string args.location.file else []))) := by
  have hargs : bytesOf (args.arguments.map fun value => .checked (dp.encodeAnyLoggable value)) =
      args.arguments.flatMap dp.encodeAnyLoggable := by
    simp [bytesOf, List.flatMap_map, Piece.bytes]
  simp only [tailPieces, bytesOf_append, hargs, List.append_assoc]
  congr 1
  split_ifs <;> simp [bytesOf, Piece.bytes]

/-- The bytes up to the arguments. -/
theorem bytesOf_headPieces (timeStamp : UInt64) : bytesOf (headPieces dp logCtx args timeStamp) =
    dp.emitArray 6 ++ UInt8.ofNat (args.severity - 1) :: UInt8.ofNat (0x80 + contextBits logCtx) ::
      (scopeBytes dp logCtx ++
      ((if logCtx.hasOwnerSpan then
          dp.emitBinary logCtx.span.traceId.toList ++ dp.emitBinary logCtx.span.spanId.toList
        else []) ++
      27 :: (Cbor.toBigEndian 8 timeStamp.toNat ++ (dp.emitU8string args.message ++
        dp.emitArray args.arguments.length)))) := by
  cases hscope : logCtx.instrumentationScope <;> cases hspan : logCtx.hasOwnerSpan <;>
    simp [headPieces, scopeBytes, hscope, hspan, bytesOf, Piece.bytes]

/-- Nothing but an empty scope is missing from the measure. -/
theorem bytesOf_length_le (timeStamp : UInt64) :
    (bytesOf (headPieces dp logCtx args timeStamp)).length +
      (bytesOf (tailPieces dp args)).length ≤ totalSize dp logCtx args + 1 := by
  have htrace := dp.emitBinary_small logCtx.span.traceId.toList (by simp)
  have hspan := dp.emitBinary_small logCtx.span.spanId.toList (by simp)
  rw [Vector.length_toList] at htrace hspan
  have hargs := arguments_length_le dp args.arguments
  have hmap := dp.emitMap_small _ (numAttributes_lt args)
  have hline := dp.emitInteger_small 3 (by simp)
  have hfile := dp.emitInteger_small 2 (by simp)
  have hscope : (scopeBytes dp logCtx).length ≤ scopeSize dp logCtx + 1 := by
    have hnil := dp.emitU8string_nil
    simp only [scopeBytes, scopeSize]
    cases logCtx.instrumentationScope with
    | none => simp
    | some scope => by_cases hempty : scope = [] <;> simp [hempty, hnil]
  rw [bytesOf_headPieces, bytesOf_tailPieces]
  simp only [totalSize, List.length_append, List.length_cons, Cbor.toBigEndian_length]
  split_ifs <;> simp only [List.length_append, List.length_nil] <;> omega

/-- The bytes of a record. -/
def recordBytes (timeStamp : UInt64) : Bytes :=
  bytesOf (headPieces dp logCtx args timeStamp) ++ bytesOf (tailPieces dp args)

variable {dp logCtx args} {allocate : Nat → Option Nat} {timeStamp : UInt64}

/-- When `vlog` succeeds, the record is complete: up to the arguments everything has fitted, and
the other writes have been checked. -/
theorem message_of_vlog {message : Bytes} (hsize : totalSize dp logCtx args < 2 ^ 32)
    (hport : ∀ n capacity, allocate n = some capacity → n ≤ capacity)
    (h : vlog dp logCtx args partly allocate timeStamp = some (some message)) :
    message = recordBytes dp logCtx args timeStamp := by
  simp only [vlog] at h
  split_ifs at h
  · cases h
  · obtain ⟨capacity, halloc, h⟩ := Option.bind_eq_some_iff.mp h
    obtain ⟨out, hout, heq⟩ := Option.bind_eq_some_iff.mp h
    cases heq
    have hcapacity := hport _ _ halloc
    rw [encodedSize, Nat.mod_eq_of_lt hsize] at hcapacity
    have hlength := bytesOf_length_le dp logCtx args timeStamp
    have htail : 1 ≤ (bytesOf (tailPieces dp args)).length := by
      have hmap := dp.emitMap_small _ (numAttributes_lt args)
      rw [bytesOf_tailPieces]
      simp only [List.length_append]
      omega
    rw [List.foldlM_append, emit_of_fits (by rw [List.nil_append]; omega)] at hout
    exact emit_checked (tailPieces_checked dp args) hout

/-- With room for everything, `vlog` succeeds. -/
theorem vlog_of_fits {capacity : Nat} (hpos : args.severity ≠ 0) (hle : args.severity ≤ 24)
    (halloc : allocate (encodedSize dp logCtx args) = some capacity)
    (hfits : (recordBytes dp logCtx args timeStamp).length ≤ capacity) :
    vlog dp logCtx args partly allocate timeStamp =
      some (some (recordBytes dp logCtx args timeStamp)) := by
  rw [recordBytes, ← bytesOf_append] at hfits ⊢
  rw [vlog, if_neg hpos, if_neg (by omega), halloc]
  simp only [Option.bind_eq_bind, Option.bind_some]
  rw [emit_of_fits (by simpa using hfits)]
  rfl

end Deeplog.Codec
