import Deeplog.Lib.Cbor

/-!
# Messages on their way to a sink

`preparse_messages` classifies what has been taken from a bus and `concate_messages` copies it to
a sink. A message that is not an entry of the records array is recognised, but what it has been
recognised as is not asked for when it is copied.
-/

namespace Deeplog.Sink

open Cbor (Bytes Item Items)

/-- A read from a `parse_context`: its result, and the input that is left, also after a failure. -/
abbrev Parse (α : Type) := Bytes → Option α × Bytes

/-- The functions of deeppack that look at messages. -/
structure Deeppack where
  decodeTupleHead : Parse Nat
  skipItem : Parse Unit
  parseInteger : (max : Nat) → Parse Nat
  decodeTupleHead_eq : ∀ bs n rest, decodeTupleHead bs = (some n, rest) ↔
    ∃ info, Cbor.readHead bs = some (⟨4, info, some n⟩, rest)
  skipItem_eq : ∀ bs rest, skipItem bs = (some (), rest) ↔ Cbor.skipItem bs = some ((), rest)
  parseInteger_eq : ∀ max bs n rest, parseInteger max bs = (some n, rest) ↔
    Cbor.readInt bs = some ((n : Int), rest) ∧ n ≤ max
  skipItem_suffix : ∀ bs, (skipItem bs).2 <:+ bs
  parseInteger_suffix : ∀ max bs, (parseInteger max bs).2 <:+ bs

/-- `serialized_message_info`, with its `raw_data`. -/
inductive MessageInfo where
  | unknown (rawData : Bytes)
  | record (rawData : Bytes) (timestamp severity : Nat)
  | spanStart (rawData : Bytes)
  | spanEnd (rawData : Bytes)
  | malformed (rawData : Bytes)

def MessageInfo.rawData : MessageInfo → Bytes
  | .unknown rawData | .record rawData _ _ | .spanStart rawData | .spanEnd rawData
  | .malformed rawData => rawData

namespace Deeppack

variable (dp : Deeppack)

/-- `codec<severity>::decode` -/
def decodeSeverity : Parse Nat := fun ctx =>
  let (value, ctx) := dp.parseInteger 23 ctx
  (value.map (· + 1), ctx)

/-- `codec<log_clock::time_point>::decode`: the count of a `log_clock::duration`, in 64 bits. -/
def decodeTimePoint : Parse Nat := dp.parseInteger (2 ^ 64 - 1)

/-- The loops around `skip_item`, which go on after a failure. -/
def skipItems : Nat → Parse Unit
  | 0, ctx => (some (), ctx)
  | n + 1, ctx =>
    let (first, ctx) := dp.skipItem ctx
    let (others, ctx) := skipItems n ctx
    (first.bind fun _ => others, ctx)

/-- The reads of `preparse_record`, which go on after a failure. -/
def readRecord : Parse (Nat × Nat) := fun ctx =>
  let (severity, ctx) := dp.decodeSeverity ctx
  let (owner, ctx) := dp.skipItem ctx
  let (timestamp, ctx) := dp.decodeTimePoint ctx
  let (others, ctx) := dp.skipItems 3 ctx
  (severity.bind fun severity => owner.bind fun _ => timestamp.bind fun timestamp =>
    others.map fun _ => (timestamp, severity), ctx)

/-- What the preparse functions make of their reads. `raw_data` is cut to what has been read also
where the info has become a malformed one. -/
def preparse {α : Type} (read : Parse α) (toInfo : α → Bytes → MessageInfo)
    (ctx rawMessage : Bytes) : MessageInfo × Bytes :=
  let (result, ctx) := read ctx
  let rawData := rawMessage.take (rawMessage.length - ctx.length)
  match result with
  | some a => (toInfo a rawData, ctx)
  | none => (.malformed rawData, ctx)

def preparseRecord : Bytes → Bytes → MessageInfo × Bytes :=
  preparse dp.readRecord fun (timestamp, severity) rawData => .record rawData timestamp severity

def preparseSpanStart : Bytes → Bytes → MessageInfo × Bytes :=
  preparse (dp.skipItems 7) fun _ rawData => .spanStart rawData

def preparseSpanEnd : Bytes → Bytes → MessageInfo × Bytes :=
  preparse (dp.skipItems 2) fun _ rawData => .spanEnd rawData

/-- One round of `preparse_messages`: what it adds to the binary size, and the info. -/
def preparseMessage (message : Bytes) : Nat × MessageInfo :=
  match dp.decodeTupleHead message with
  | (some 6, ctx) =>
    let (info, ctx) := dp.preparseRecord ctx message
    (message.length - ctx.length, info)
  | (some 7, ctx) =>
    let (info, ctx) := dp.preparseSpanStart ctx message
    (message.length - ctx.length, info)
  | (some 2, ctx) =>
    let (info, ctx) := dp.preparseSpanEnd ctx message
    (message.length - ctx.length, info)
  | _ => (message.length, .malformed message)

def preparseMessages (records : List Bytes) : Nat × List MessageInfo :=
  ((records.map fun message => (dp.preparseMessage message).1).sum,
    records.map fun message => (dp.preparseMessage message).2)

end Deeppack

/-- `copy_message_fn`: one overload for records, one for everything else. -/
def copyMessage (threshold : Nat) (out : Bytes) : MessageInfo → Bytes
  | .record rawData _ severity => if threshold ≤ severity then out ++ rawData else out
  | message => out ++ message.rawData

def concateMessages (out : Bytes) (messages : List MessageInfo) (threshold : Nat) : Bytes :=
  messages.foldl (copyMessage threshold) out

/-! ## Entries -/

/-- An array of six, seven or two complete items. -/
def Entry (bs : Bytes) : Prop :=
  ∃ (head : Cbor.Head) (body : Bytes) (n : Nat), Cbor.readHead bs = some (head, body) ∧
    head.major = 4 ∧ (n = 6 ∨ n = 7 ∨ n = 2) ∧
    match head.value with
    | some k => k = n ∧ Items n body
    | none => ∃ items, Items n items ∧ body = items ++ [0xff]

def Entries (bs : Bytes) : Prop := ∃ entries : List Bytes, (∀ e ∈ entries, Entry e) ∧
  bs = entries.flatten

theorem Entries.nil : Entries [] := ⟨[], by simp, rfl⟩

theorem Entries.append {as bs : Bytes} (ha : Entries as) (hb : Entries bs) :
    Entries (as ++ bs) := by
  obtain ⟨es, hes, rfl⟩ := ha
  obtain ⟨fs, hfs, rfl⟩ := hb
  refine ⟨es ++ fs, fun e he => ?_, by simp⟩
  exact (List.mem_append.mp he).elim (hes e) (hfs e)

/-- Behind the head of a definite array, entries begin with so many complete items. -/
theorem entries_iff {bs body : Bytes} {info n : Nat} (hn : n = 6 ∨ n = 7 ∨ n = 2)
    (hr : Cbor.readHead bs = some (⟨4, info, some n⟩, body)) :
    Entries bs ↔ ∃ items entries, Items n items ∧ Entries entries ∧ body = items ++ entries := by
  constructor
  · rintro ⟨es, hes, rfl⟩
    cases es with
    | nil => cases hr
    | cons e es =>
      obtain ⟨head, items, k, he, -, -, hvalue⟩ := hes e (by simp)
      rw [List.flatten_cons, Cbor.readHead_local.append he] at hr
      cases hr
      exact ⟨items, es.flatten, hvalue.1 ▸ hvalue.2,
        ⟨es, fun e' h => hes e' (by simp [h]), rfl⟩, rfl⟩
  · rintro ⟨items, entries, hitems, hentries, rfl⟩
    obtain ⟨taken, rfl, hmore⟩ := Cbor.readHead_local _ _ _ hr
    rw [← List.append_assoc]
    refine Entries.append ⟨[taken ++ items], ?_, by simp⟩ hentries
    intro e he
    rw [List.mem_singleton.mp he]
    exact ⟨_, items, n, hmore items, rfl, hn, rfl, hitems⟩

/-- What a message adds to the output. -/
def written (threshold : Nat) : MessageInfo → Bytes := copyMessage threshold []

theorem copyMessage_eq (threshold : Nat) (out : Bytes) (message : MessageInfo) :
    copyMessage threshold out message = out ++ written threshold message := by
  cases message <;> simp [copyMessage, written]
  split <;> simp

theorem concateMessages_eq (out : Bytes) (messages : List MessageInfo) (threshold : Nat) :
    concateMessages out messages threshold = out ++ messages.flatMap (written threshold) := by
  induction messages generalizing out with
  | nil => simp [concateMessages]
  | cons message messages ih =>
    rw [concateMessages, List.foldl_cons, copyMessage_eq]
    exact (ih _).trans (by simp)

end Deeplog.Sink

namespace Deeplog.Sink.Deeppack

open Cbor (Bytes Item Items)

variable (dp : Deeppack) {ctx rest message : Bytes}

/-! ## What the reads take -/

theorem skipItems_suffix (n : Nat) (ctx : Bytes) : (dp.skipItems n ctx).2 <:+ ctx := by
  induction n generalizing ctx with
  | zero => exact List.suffix_rfl
  | succ n ih => exact (ih _).trans (dp.skipItem_suffix ctx)

theorem skipItems_eq (n : Nat) :
    dp.skipItems n ctx = (some (), rest) ↔ Cbor.skipItems n ctx = some ((), rest) := by
  induction n generalizing ctx with
  | zero => simp [skipItems, Cbor.skipItems]
  | succ n ih =>
    constructor
    · intro h
      simp only [skipItems, Prod.mk.injEq, Option.bind_eq_some_iff] at h
      obtain ⟨⟨⟨⟩, hfirst, hothers⟩, hrest⟩ := h
      exact Option.bind_eq_some_iff.mpr ⟨((), (dp.skipItem ctx).2),
        (dp.skipItem_eq _ _).mp (Prod.ext hfirst rfl), ih.mp (Prod.ext hothers hrest)⟩
    · intro h
      obtain ⟨⟨⟨⟩, mid⟩, hfirst, hothers⟩ := Option.bind_eq_some_iff.mp h
      have hskip := (dp.skipItem_eq _ _).mpr hfirst
      simp [skipItems, hskip, ih.mpr hothers]

theorem readRecord_suffix (ctx : Bytes) : (dp.readRecord ctx).2 <:+ ctx :=
  (dp.skipItems_suffix 3 _).trans <| (dp.parseInteger_suffix _ _).trans <|
    (dp.skipItem_suffix _).trans (dp.parseInteger_suffix 23 ctx)

/-- A record that is read takes six items. -/
theorem readRecord_items {x : Nat × Nat} (h : dp.readRecord ctx = (some x, rest)) :
    ∃ items, Items 6 items ∧ ctx = items ++ rest := by
  simp only [readRecord, decodeSeverity, decodeTimePoint, Prod.mk.injEq, Option.bind_eq_some_iff,
    Option.map_eq_some_iff] at h
  obtain ⟨⟨_, ⟨severity, hseverity, -⟩, ⟨⟩, howner, timestamp, htime, ⟨⟩, hothers, -⟩, hrest⟩ := h
  have h1 := Cbor.skipItem_of_readInt ((dp.parseInteger_eq _ _ _ _).mp (Prod.ext hseverity rfl)).1
  have h2 := (dp.skipItem_eq _ _).mp (Prod.ext howner rfl)
  have h3 := Cbor.skipItem_of_readInt ((dp.parseInteger_eq _ _ _ _).mp (Prod.ext htime rfl)).1
  have h4 := (dp.skipItems_eq 3).mp (Prod.ext hothers hrest)
  refine Cbor.skipItems_eq_some_iff.mp ?_
  simp only [Cbor.skipItems, Cbor.Reader.bind] at h4 ⊢
  simp only [h1, h2, h3, h4, Option.bind_some]

/-- A severity is at least `trace`. -/
theorem readRecord_severity {timestamp severity : Nat}
    (h : (dp.readRecord ctx).1 = some (timestamp, severity)) : 1 ≤ severity := by
  simp only [readRecord, decodeSeverity, Option.bind_eq_some_iff, Option.map_eq_some_iff,
    Prod.mk.injEq] at h
  obtain ⟨_, ⟨value, -, rfl⟩, ⟨⟩, -, _, -, ⟨⟩, -, -, rfl⟩ := h
  exact Nat.le_add_left 1 value

theorem preparseMessage_severity {rawData : Bytes} {timestamp severity : Nat}
    (h : (dp.preparseMessage message).2 = .record rawData timestamp severity) : 1 ≤ severity := by
  unfold preparseMessage at h
  split at h
  case h_1 ctx _ =>
    simp only [preparseRecord, preparse] at h
    split at h
    case h_1 read hread =>
      cases h
      exact dp.readRecord_severity hread
    case h_2 => cases h
  case h_2 | h_3 =>
    simp only [preparseSpanStart, preparseSpanEnd, preparse] at h
    split at h <;> cases h
  case h_4 => cases h

/-- The raw data, if it is copied, is made of entries exactly if the reads take complete items, and
nothing but entries should they run on. -/
theorem entries_preparse_iff {α : Type} {read : Parse α} {info n : Nat}
    (toInfo : α → Bytes → MessageInfo) (out : MessageInfo → Bytes)
    (hmalformed : ∀ rawData, out (.malformed rawData) = rawData)
    (hout : ∀ a rawData, out (toInfo a rawData) = rawData)
    (hn : n = 6 ∨ n = 7 ∨ n = 2) (hsuffix : (read ctx).2 <:+ ctx)
    (hr : Cbor.readHead message = some (⟨4, info, some n⟩, ctx)) :
    Entries (out (preparse read toInfo ctx message).1) ↔
      ∃ items entries, Items n items ∧ Entries entries ∧
        ctx = items ++ entries ++ (read ctx).2 := by
  obtain ⟨head, rfl, hmore⟩ := Cbor.readHead_local _ _ _ hr
  obtain ⟨taken, htaken⟩ := hsuffix
  have hcut : (head ++ ctx).take ((head ++ ctx).length - (read ctx).2.length) = head ++ taken := by
    have hlength := congrArg List.length htaken
    rw [List.length_append] at hlength
    rw [List.length_append, ← hlength, ← Nat.add_assoc, Nat.add_sub_cancel, ← List.length_append]
    conv_lhs => rw [← htaken, ← List.append_assoc]
    exact List.take_left
  have hdata : out (preparse read toInfo ctx (head ++ ctx)).1 = head ++ taken := by
    rw [← hcut]
    simp only [preparse]
    cases (read ctx).1 with
    | none => exact hmalformed _
    | some a => exact hout a _
  rw [hdata, entries_iff hn (hmore taken)]
  constructor
  · rintro ⟨items, entries, hitems, hentries, rfl⟩
    exact ⟨items, entries, hitems, hentries, htaken.symm⟩
  · rintro ⟨items, entries, hitems, hentries, heq⟩
    exact ⟨items, entries, hitems, hentries, List.append_cancel_right (htaken.trans heq)⟩

/-- A span message contributes entries exactly if it is complete. -/
theorem entries_span_iff {n : Nat} {toInfo : Unit → Bytes → MessageInfo} (threshold : Nat)
    (hout : ∀ a rawData, written threshold (toInfo a rawData) = rawData)
    (hn : n = 6 ∨ n = 7 ∨ n = 2) (hhead : dp.decodeTupleHead message = (some n, ctx)) :
    Entries (written threshold (preparse (dp.skipItems n) toInfo ctx message).1) ↔
      ∃ items rest, Items n items ∧ ctx = items ++ rest := by
  obtain ⟨info, hr⟩ := (dp.decodeTupleHead_eq _ _ _).mp hhead
  rw [entries_preparse_iff toInfo _ (fun _ => rfl) hout hn (dp.skipItems_suffix n ctx) hr]
  constructor
  · rintro ⟨items, entries, hitems, -, heq⟩
    exact ⟨items, _, hitems, heq.trans (List.append_assoc ..)⟩
  · rintro ⟨items, rest, hitems, heq⟩
    have hskip := (dp.skipItems_eq n).mpr (Cbor.skipItems_eq_some_iff.mpr ⟨items, hitems, heq⟩)
    exact ⟨items, [], hitems, .nil, by rw [hskip, List.append_nil]; exact heq⟩

/-- A record contributes entries exactly if the reads take it; one below the threshold does not
contribute anything, but has been read. -/
theorem entries_record_iff (threshold : Nat) (hhead : dp.decodeTupleHead message = (some 6, ctx)) :
    Entries (written threshold (dp.preparseRecord ctx message).1) ↔
      ∃ items entries, Items 6 items ∧ Entries entries ∧
        ctx = items ++ entries ++ (dp.readRecord ctx).2 := by
  obtain ⟨info, hr⟩ := (dp.decodeTupleHead_eq _ _ _).mp hhead
  have hraw := entries_preparse_iff (fun (x : Nat × Nat) rawData => .record rawData x.1 x.2)
    MessageInfo.rawData (fun _ => rfl) (fun _ _ => rfl) (.inl rfl) (dp.readRecord_suffix ctx) hr
  cases hread : (dp.readRecord ctx).1 with
  | none =>
    rw [← hraw]
    simp [preparseRecord, preparse, hread, written, copyMessage, MessageInfo.rawData]
  | some x =>
    obtain ⟨items, hitems, heq⟩ := dp.readRecord_items (Prod.ext hread rfl)
    have htaken : ∃ items entries, Items 6 items ∧ Entries entries ∧
        ctx = items ++ entries ++ (dp.readRecord ctx).2 :=
      ⟨items, [], hitems, .nil, by rw [List.append_nil]; exact heq⟩
    refine iff_of_true ?_ htaken
    have hentries := hraw.mpr htaken
    simp only [preparse, hread, MessageInfo.rawData] at hentries
    simp only [preparseRecord, preparse, hread, written, copyMessage, List.nil_append]
    split
    · exact hentries
    · exact .nil

/-! ## Readers -/

/-- A reader that takes nothing where it fails. -/
def ofReader {α : Type} (read : Cbor.Reader α) : Parse α := fun bs =>
  match read bs with
  | some (a, rest) => (some a, rest)
  | none => (none, bs)

theorem ofReader_eq {α : Type} (read : Cbor.Reader α) (bs : Bytes) (a : α) (rest : Bytes) :
    ofReader read bs = (some a, rest) ↔ read bs = some (a, rest) := by
  simp only [ofReader]
  cases read bs with
  | none => simp
  | some x => simp [Prod.ext_iff]

theorem ofReader_suffix {α : Type} {read : Cbor.Reader α} (h : read.Local) (bs : Bytes) :
    (ofReader read bs).2 <:+ bs := by
  simp only [ofReader]
  cases hread : read bs with
  | none => exact List.suffix_rfl
  | some x =>
    obtain ⟨taken, rfl, -⟩ := h _ _ _ hread
    exact List.suffix_append ..

/-- A value that is looked at after it has been read. -/
def filter {α β : Type} (read : Cbor.Reader α) (f : α → Option β) : Cbor.Reader β :=
  read.bind fun a bs => (f a).map fun b => (b, bs)

theorem filter_eq {α β : Type} (read : Cbor.Reader α) (f : α → Option β) (bs : Bytes) (b : β)
    (rest : Bytes) :
    filter read f bs = some (b, rest) ↔ ∃ a, read bs = some (a, rest) ∧ f a = some b := by
  simp [filter, Cbor.Reader.bind, Option.bind_eq_some_iff]

theorem filter_local {α β : Type} {read : Cbor.Reader α} (f : α → Option β) (h : read.Local) :
    (filter read f).Local := by
  refine h.bind fun a bs b rest hf => ?_
  obtain ⟨b', hb, heq⟩ := Option.map_eq_some_iff.mp hf
  cases heq
  exact ⟨[], rfl, fun more => by simp [hb]⟩

def ofCbor : Deeppack where
  decodeTupleHead := ofReader (filter Cbor.readHead fun h => if h.major = 4 then h.value else none)
  skipItem := ofReader Cbor.skipItem
  parseInteger max := ofReader (filter Cbor.readInt fun n =>
    if 0 ≤ n ∧ n ≤ max then some n.toNat else none)
  decodeTupleHead_eq bs n rest := by
    rw [ofReader_eq, filter_eq]
    constructor
    · rintro ⟨⟨major, info, value⟩, hread, hvalue⟩
      obtain ⟨rfl, rfl⟩ := (Option.ite_none_right_eq_some.mp hvalue)
      exact ⟨info, hread⟩
    · rintro ⟨info, hread⟩
      exact ⟨_, hread, rfl⟩
  skipItem_eq bs rest := ofReader_eq ..
  parseInteger_eq max bs n rest := by
    rw [ofReader_eq, filter_eq]
    constructor
    · rintro ⟨k, hread, hvalue⟩
      obtain ⟨⟨hpos, hmax⟩, hk⟩ := Option.ite_none_right_eq_some.mp hvalue
      obtain rfl : k.toNat = n := by simpa using hk
      exact ⟨by rwa [Int.toNat_of_nonneg hpos], by omega⟩
    · rintro ⟨hread, hmax⟩
      exact ⟨n, hread, by simp [hmax]⟩
  skipItem_suffix := ofReader_suffix Cbor.skipItem_local
  parseInteger_suffix max := ofReader_suffix (filter_local _ Cbor.readInt_local)

end Deeplog.Sink.Deeppack
