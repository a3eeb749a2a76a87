import Mathlib.Data.List.Forall2
import Deeplog.Sink.Messages

/-!
# What preparsing makes of a message

A message is what the first array head and the items behind it say, and nothing else: the filler
behind the array is cut off. The reads go on behind a failure, but the kind has been settled by
then, and the size that is taken off the total is the one by which `raw_data` has been cut.
-/

namespace Deeplog.Sink

open Cbor (Bytes Item Items)

/-- The six items of a record: a severity, the owner, a timestamp and three more. -/
def RecordItems (timestamp severity : Nat) (bs : Bytes) : Prop :=
  ∃ severityItem owner timestampItem others : Bytes,
    bs = severityItem ++ (owner ++ (timestampItem ++ others)) ∧
    (∃ value : Nat, Cbor.readInt severityItem = some ((value : Int), []) ∧ value ≤ 23 ∧
      severity = value + 1) ∧
    Item owner ∧
    (Cbor.readInt timestampItem = some ((timestamp : Int), []) ∧ timestamp < 2 ^ 64) ∧
    Items 3 others

theorem RecordItems.items {timestamp severity : Nat} {items : Bytes}
    (h : RecordItems timestamp severity items) : Items 6 items := by
  obtain ⟨severityItem, owner, timestampItem, others, rfl, ⟨value, hvalue, -⟩, howner,
    ⟨htimestamp, -⟩, hothers⟩ := h
  have hseverity : Item severityItem := Cbor.skipItem_of_readInt hvalue
  have htime : Item timestampItem := Cbor.skipItem_of_readInt htimestamp
  exact .cons hseverity (.cons howner (.cons htime hothers))

/-- A message begins with a definite array of `n` elements, which takes the bytes `raw`. -/
def BeginsWith (n : Nat) (body : Bytes → Prop) (message raw : Bytes) : Prop :=
  ∃ (info : Nat) (head items filler : Bytes),
    Cbor.readHead head = some (⟨4, info, some n⟩, []) ∧ body items ∧
    raw = head ++ items ∧ message = raw ++ filler

/-- The info tells what the message begins with. -/
structure Classifies (message : Bytes) (info : MessageInfo) : Prop where
  record_iff : ∀ raw timestamp severity, info = .record raw timestamp severity ↔
    BeginsWith 6 (RecordItems timestamp severity) message raw
  spanStart_iff : ∀ raw, info = .spanStart raw ↔ BeginsWith 7 (Items 7) message raw
  spanEnd_iff : ∀ raw, info = .spanEnd raw ↔ BeginsWith 2 (Items 2) message raw
  malformed : (∀ raw timestamp severity, info ≠ .record raw timestamp severity) →
    (∀ raw, info ≠ .spanStart raw) → (∀ raw, info ≠ .spanEnd raw) → ∃ raw, info = .malformed raw
  rawData_starts : info.rawData <+: message

theorem BeginsWith.starts {n : Nat} {body : Bytes → Prop} {message raw : Bytes}
    (h : BeginsWith n body message raw) : raw <+: message := by
  obtain ⟨_, _, _, filler, _, _, _, rfl⟩ := h
  exact List.prefix_append _ _

/-- A parse succeeds exactly on what begins with such bytes, and takes them. -/
def Takes {α : Type} (read : Parse α) (body : α → Bytes → Prop) : Prop :=
  ∀ ctx a rest, read ctx = (some a, rest) ↔ ∃ item, ctx = item ++ rest ∧ body a item

namespace Deeppack

variable (dp : Deeppack) {ctx rest message raw : Bytes} {n : Nat}

theorem decodeTupleHead_takes : Takes dp.decodeTupleHead fun n head =>
    ∃ info, Cbor.readHead head = some (⟨4, info, some n⟩, []) := by
  intro message n ctx
  rw [dp.decodeTupleHead_eq]
  constructor
  · rintro ⟨info, h⟩
    obtain ⟨head, heq, hhead⟩ := Cbor.readHead_local.eq_some_iff.mp h
    exact ⟨head, heq, info, hhead⟩
  · rintro ⟨head, heq, info, hhead⟩
    exact ⟨info, Cbor.readHead_local.eq_some_iff.mpr ⟨head, heq, hhead⟩⟩

theorem skipItem_takes : Takes dp.skipItem fun _ item => Item item := by
  rintro ctx ⟨⟩ rest
  rw [dp.skipItem_eq, Cbor.skipItem_eq_some_iff]
  exact exists_congr fun item => and_comm

theorem skipItems_takes (n : Nat) : Takes (dp.skipItems n) fun _ items => Items n items := by
  rintro ctx ⟨⟩ rest
  rw [dp.skipItems_eq, Cbor.skipItems_eq_some_iff]
  exact exists_congr fun items => and_comm

theorem parseInteger_takes (max : Nat) : Takes (dp.parseInteger max) fun n item =>
    Cbor.readInt item = some ((n : Int), []) ∧ n ≤ max := by
  intro ctx n rest
  rw [dp.parseInteger_eq, Cbor.readInt_local.eq_some_iff]
  constructor
  · rintro ⟨⟨item, heq, hread⟩, hmax⟩
    exact ⟨item, heq, hread, hmax⟩
  · rintro ⟨item, heq, hread, hmax⟩
    exact ⟨⟨item, heq, hread⟩, hmax⟩

theorem decodeTimePoint_takes : Takes dp.decodeTimePoint fun timestamp item =>
    Cbor.readInt item = some ((timestamp : Int), []) ∧ timestamp < 2 ^ 64 := by
  intro ctx timestamp rest
  rw [decodeTimePoint, parseInteger_takes]
  simp only [Nat.lt_iff_le_pred (Nat.two_pow_pos 64)]

theorem decodeSeverity_takes : Takes dp.decodeSeverity fun severity item =>
    ∃ value : Nat, Cbor.readInt item = some ((value : Int), []) ∧ value ≤ 23 ∧
      severity = value + 1 := by
  intro ctx severity rest
  have hparse : dp.decodeSeverity ctx = (some severity, rest) ↔
      ∃ value, dp.parseInteger 23 ctx = (some value, rest) ∧ severity = value + 1 := by
    rcases h : dp.parseInteger 23 ctx with ⟨_ | value, ctx'⟩
    · simp [decodeSeverity, h]
    · simp only [decodeSeverity, h, Option.map_some, Prod.mk.injEq, Option.some.injEq]
      grind
  rw [hparse]
  constructor
  · rintro ⟨value, hvalue, rfl⟩
    obtain ⟨item, heq, hitem, hmax⟩ := (dp.parseInteger_takes ..).mp hvalue
    exact ⟨item, heq, value, hitem, hmax, rfl⟩
  · rintro ⟨item, heq, value, hitem, hmax, rfl⟩
    exact ⟨value, (dp.parseInteger_takes ..).mpr ⟨item, heq, hitem, hmax⟩, rfl⟩

/-- A record has been read if none of the reads has failed. -/
theorem readRecord_eq {timestamp severity : Nat} :
    dp.readRecord ctx = (some (timestamp, severity), rest) ↔
      ∃ ctx₁ ctx₂ ctx₃, dp.decodeSeverity ctx = (some severity, ctx₁) ∧
        dp.skipItem ctx₁ = (some (), ctx₂) ∧ dp.decodeTimePoint ctx₂ = (some timestamp, ctx₃) ∧
        dp.skipItems 3 ctx₃ = (some (), rest) := by
  simp only [readRecord]
  rcases h₁ : dp.decodeSeverity ctx with ⟨_ | s, ctx₁⟩
  · simp
  rcases h₂ : dp.skipItem ctx₁ with ⟨_ | _, ctx₂⟩
  · simp [h₂]
  rcases h₃ : dp.decodeTimePoint ctx₂ with ⟨_ | t, ctx₃⟩
  · simp [h₂, h₃]
  rcases h₄ : dp.skipItems 3 ctx₃ with ⟨_ | _, ctx₄⟩
  · simp [h₂, h₃, h₄]
  · simp [h₂, h₃, h₄]
    grind

theorem readRecord_takes : Takes dp.readRecord fun x items => RecordItems x.1 x.2 items := by
  rintro ctx ⟨timestamp, severity⟩ rest
  rw [readRecord_eq]
  constructor
  · rintro ⟨ctx₁, ctx₂, ctx₃, h₁, h₂, h₃, h₄⟩
    obtain ⟨severityItem, rfl, hseverity⟩ := (dp.decodeSeverity_takes ..).mp h₁
    obtain ⟨owner, rfl, howner⟩ := (dp.skipItem_takes ..).mp h₂
    obtain ⟨timestampItem, rfl, htimestamp⟩ := (dp.decodeTimePoint_takes ..).mp h₃
    obtain ⟨others, rfl, hothers⟩ := (dp.skipItems_takes ..).mp h₄
    exact ⟨severityItem ++ (owner ++ (timestampItem ++ others)), by simp, severityItem, owner,
      timestampItem, others, rfl, hseverity, howner, htimestamp, hothers⟩
  · rintro ⟨_, rfl, severityItem, owner, timestampItem, others, rfl, hseverity, howner, htimestamp,
      hothers⟩
    refine ⟨_, _, _, (dp.decodeSeverity_takes ..).mpr ⟨severityItem, ?_, hseverity⟩,
      (dp.skipItem_takes ..).mpr ⟨owner, rfl, howner⟩,
      (dp.decodeTimePoint_takes ..).mpr ⟨timestampItem, rfl, htimestamp⟩,
      (dp.skipItems_takes ..).mpr ⟨others, rfl, hothers⟩⟩
    simp

/-! ## Messages -/

section Preparse

variable {α : Type} {read : Parse α} {body : α → Bytes → Prop} (toInfo : α → Bytes → MessageInfo)

/-- The array is what has been read of the message. -/
theorem take_of_eq {filler : Bytes} (h : message = raw ++ filler) :
    message.take (message.length - filler.length) = raw := by
  rw [h, List.length_append, Nat.add_sub_cancel, List.take_left]

theorem preparse_begins (hread : Takes read body) {a : α} (h : BeginsWith n (body a) message raw) :
    ∃ ctx filler, dp.decodeTupleHead message = (some n, ctx) ∧
      preparse read toInfo ctx message = (toInfo a raw, filler) := by
  obtain ⟨info, head, items, filler, hhead, hitems, hraw, hmessage⟩ := h
  have hctx : dp.decodeTupleHead message = (some n, items ++ filler) :=
    (dp.decodeTupleHead_takes ..).mpr ⟨head, by rw [hmessage, hraw, List.append_assoc], info, hhead⟩
  have ha : read (items ++ filler) = (some a, filler) := (hread ..).mpr ⟨items, rfl, hitems⟩
  refine ⟨items ++ filler, filler, hctx, ?_⟩
  simp only [preparse, ha, take_of_eq hmessage]

end Preparse

/-- One of the kinds of messages, with the size that is counted. -/
inductive Preparsed (message : Bytes) : Nat × MessageInfo → Prop
  | record {raw : Bytes} {timestamp severity : Nat}
      (h : BeginsWith 6 (RecordItems timestamp severity) message raw) :
      Preparsed message (raw.length, .record raw timestamp severity)
  | spanStart {raw : Bytes} (h : BeginsWith 7 (Items 7) message raw) :
      Preparsed message (raw.length, .spanStart raw)
  | spanEnd {raw : Bytes} (h : BeginsWith 2 (Items 2) message raw) :
      Preparsed message (raw.length, .spanEnd raw)
  | malformed {raw : Bytes} (h : raw <+: message) :
      Preparsed message (raw.length, .malformed raw)

/-- A read that succeeds has found an array; else the message is malformed. The size is that of the
raw data in both cases. -/
theorem preparse_preparsed {α : Type} {read : Parse α} {body : α → Bytes → Prop}
    {toInfo : α → Bytes → MessageInfo} (hread : Takes read body)
    (hhead : dp.decodeTupleHead message = (some n, ctx))
    (hkind : ∀ a raw, BeginsWith n (body a) message raw →
      Preparsed message (raw.length, toInfo a raw)) :
    Preparsed message (message.length - (preparse read toInfo ctx message).2.length,
      (preparse read toInfo ctx message).1) := by
  obtain ⟨head, rfl, info, hinfo⟩ := (dp.decodeTupleHead_takes ..).mp hhead
  simp only [preparse]
  rcases ha : read ctx with ⟨result, rest⟩
  have hlen : (head ++ ctx).length - rest.length =
      ((head ++ ctx).take ((head ++ ctx).length - rest.length)).length :=
    (List.length_take_of_le (Nat.sub_le _ _)).symm
  cases result with
  | none =>
    have hmalformed := Preparsed.malformed
      (List.take_prefix ((head ++ ctx).length - rest.length) (head ++ ctx))
    rw [← hlen] at hmalformed
    exact hmalformed
  | some a =>
    obtain ⟨items, rfl, hitems⟩ := (hread ..).mp ha
    have hmessage : head ++ (items ++ rest) = (head ++ items) ++ rest :=
      (List.append_assoc ..).symm
    have hraw := take_of_eq hmessage
    have hlength := congrArg List.length hraw
    rw [← hlen] at hlength
    rw [hraw, hlength]
    exact hkind a _ ⟨info, head, items, rest, hinfo, hitems, rfl, hmessage⟩

theorem preparseMessage_preparsed (message : Bytes) :
    Preparsed message (dp.preparseMessage message) := by
  unfold preparseMessage
  split
  case h_1 hhead =>
    exact dp.preparse_preparsed dp.readRecord_takes hhead fun _ _ h => .record h
  case h_2 hhead =>
    exact dp.preparse_preparsed (dp.skipItems_takes 7) hhead fun _ _ h => .spanStart h
  case h_3 hhead =>
    exact dp.preparse_preparsed (dp.skipItems_takes 2) hhead fun _ _ h => .spanEnd h
  case h_4 => exact .malformed List.prefix_rfl

theorem preparseMessage_classifies (message : Bytes) :
    Classifies message (dp.preparseMessage message).2 ∧
      (dp.preparseMessage message).1 = (dp.preparseMessage message).2.rawData.length := by
  have hpreparsed := dp.preparseMessage_preparsed message
  have hrecord : ∀ raw timestamp severity,
      BeginsWith 6 (RecordItems timestamp severity) message raw →
      (dp.preparseMessage message).2 = .record raw timestamp severity := by
    intro raw timestamp severity h
    obtain ⟨ctx, filler, hhead, heq⟩ := dp.preparse_begins
      (fun (x : Nat × Nat) rawData => .record rawData x.1 x.2) dp.readRecord_takes
      (a := (timestamp, severity)) h
    simp only [preparseMessage, hhead, preparseRecord, heq]
  have hstart : ∀ raw, BeginsWith 7 (Items 7) message raw →
      (dp.preparseMessage message).2 = .spanStart raw := by
    intro raw h
    obtain ⟨ctx, filler, hhead, heq⟩ := dp.preparse_begins
      (fun _ rawData => .spanStart rawData) (dp.skipItems_takes 7) (a := ()) h
    simp only [preparseMessage, hhead, preparseSpanStart, heq]
  have hend : ∀ raw, BeginsWith 2 (Items 2) message raw →
      (dp.preparseMessage message).2 = .spanEnd raw := by
    intro raw h
    obtain ⟨ctx, filler, hhead, heq⟩ := dp.preparse_begins
      (fun _ rawData => .spanEnd rawData) (dp.skipItems_takes 2) (a := ()) h
    simp only [preparseMessage, hhead, preparseSpanEnd, heq]
  generalize dp.preparseMessage message = result at hpreparsed hrecord hstart hend ⊢
  cases hpreparsed with
  | record h =>
    refine ⟨⟨fun _ _ _ => ⟨?_, hrecord _ _ _⟩, fun _ => ⟨?_, hstart _⟩, fun _ => ⟨?_, hend _⟩,
      fun hno => absurd rfl (hno _ _ _), h.starts⟩, rfl⟩
    · rintro ⟨⟩
      exact h
    · rintro ⟨⟩
    · rintro ⟨⟩
  | spanStart h =>
    refine ⟨⟨fun _ _ _ => ⟨?_, hrecord _ _ _⟩, fun _ => ⟨?_, hstart _⟩, fun _ => ⟨?_, hend _⟩,
      fun _ hno => absurd rfl (hno _), h.starts⟩, rfl⟩
    · rintro ⟨⟩
    · rintro ⟨⟩
      exact h
    · rintro ⟨⟩
  | spanEnd h =>
    refine ⟨⟨fun _ _ _ => ⟨?_, hrecord _ _ _⟩, fun _ => ⟨?_, hstart _⟩, fun _ => ⟨?_, hend _⟩,
      fun _ _ hno => absurd rfl (hno _), h.starts⟩, rfl⟩
    · rintro ⟨⟩
    · rintro ⟨⟩
    · rintro ⟨⟩
      exact h
  | malformed h =>
    refine ⟨⟨fun _ _ _ => ⟨?_, hrecord _ _ _⟩, fun _ => ⟨?_, hstart _⟩, fun _ => ⟨?_, hend _⟩,
      fun _ _ _ => ⟨_, rfl⟩, h⟩, rfl⟩
    · rintro ⟨⟩
    · rintro ⟨⟩
    · rintro ⟨⟩

/-- Every message of a batch is classified by what it begins with, and the binary size is that of
the raw data. -/
theorem preparseMessages_classify (records : List Bytes) :
    List.Forall₂ Classifies records (dp.preparseMessages records).2 ∧
      (dp.preparseMessages records).1 =
        ((dp.preparseMessages records).2.map fun info => info.rawData.length).sum := by
  constructor
  · rw [preparseMessages, List.forall₂_map_right_iff, List.forall₂_same]
    exact fun message _ => (dp.preparseMessage_classifies message).1
  · rw [preparseMessages, List.map_map]
    exact congrArg List.sum (List.map_congr_left fun message _ =>
      (dp.preparseMessage_classifies message).2)

end Deeppack

end Deeplog.Sink
