import Mathlib.Data.Set.Basic
import Deeplog.Sink.Preparse

/-!
# Messages that do no harm

What `concate_messages` makes of a bus is the content of a container if every message begins with
an entry. Nothing tells a broken message from an entry when it is copied, so that one which is not
complete goes into the container as well.
-/

namespace Deeplog.Sink

open Cbor (Bytes Item Items)

/-- The message begins with the head of a definite array of `n` elements. -/
def Headed (n : Nat) (message : Bytes) : Prop :=
  ∃ info body, Cbor.readHead message = some (⟨4, info, some n⟩, body)

/-- What is announced as a record or a span is one, and any other message consists of entries. -/
structure EntryFirst (record : Bytes → Prop) (message : Bytes) : Prop where
  record : Headed 6 message → ∃ raw, BeginsWith 6 record message raw
  spanStart : Headed 7 message → ∃ raw, BeginsWith 7 (Items 7) message raw
  spanEnd : Headed 2 message → ∃ raw, BeginsWith 2 (Items 2) message raw
  other : ¬Headed 6 message → ¬Headed 7 message → ¬Headed 2 message → Entries message

/-- Its records have a severity and a timestamp where these are looked for. -/
def Sound : Bytes → Prop :=
  EntryFirst fun items => ∃ timestamp severity, RecordItems timestamp severity items

/-- Its records have six items. -/
def Complete : Bytes → Prop := EntryFirst (Items 6)

variable {n k : Nat} {message taken items more : Bytes}

/-- Items end where they end. -/
theorem Items.le_of_append (h : Items k taken) (hn : Items n items) (heq : taken = items ++ more) :
    n ≤ k := by
  by_contra hlt
  obtain ⟨parts, hlength, hparts, rfl⟩ := hn
  have hfirst : Items k (parts.take k).flatten :=
    ⟨parts.take k, List.length_take_of_le (by omega),
      fun item hitem => hparts item (List.mem_of_mem_take hitem), rfl⟩
  have hskip : Cbor.skipItems k taken = some ((), (parts.drop k).flatten ++ more) := by
    refine Cbor.skipItems_eq_some_iff.mpr ⟨_, hfirst, ?_⟩
    rw [heq, ← List.append_assoc, ← List.flatten_append, List.take_append_drop]
  have hwhole : Cbor.skipItems k taken = some ((), []) :=
    Cbor.skipItems_eq_some_iff.mpr ⟨taken, h, (List.append_nil _).symm⟩
  have hnil := (Prod.ext_iff.mp (Option.some.inj (hskip.symm.trans hwhole))).2
  obtain ⟨item, rest, hdrop⟩ := List.exists_cons_of_length_pos
    (show 0 < (parts.drop k).length by rw [List.length_drop]; omega)
  have hitem : Item item := hparts item (List.mem_of_mem_drop (hdrop ▸ List.mem_cons_self))
  have hempty : item = [] := by
    rw [hdrop] at hnil
    simp only [List.flatten_cons, List.append_eq_nil_iff] at hnil
    exact hnil.1.1
  rw [hempty] at hitem
  cases hitem

namespace Deeppack

section

variable (dp : Deeppack) {ctx rest : Bytes}

theorem headed_iff : Headed n message ↔ ∃ ctx, dp.decodeTupleHead message = (some n, ctx) := by
  simp only [Headed, dp.decodeTupleHead_eq]
  exact exists_comm

theorem beginsWith_iff {body : Bytes → Prop} (hhead : dp.decodeTupleHead message = (some n, ctx)) :
    (∃ raw, BeginsWith n body message raw) ↔ ∃ items filler, body items ∧
      ctx = items ++ filler := by
  constructor
  · rintro ⟨raw, info, head, items, filler, hinfo, hbody, rfl, rfl⟩
    have hctx := (dp.decodeTupleHead_takes ..).mpr
      ⟨head, List.append_assoc head items filler, info, hinfo⟩
    exact ⟨items, filler, hbody, (Prod.ext_iff.mp (hhead.symm.trans hctx)).2⟩
  · rintro ⟨items, filler, hbody, rfl⟩
    obtain ⟨head, rfl, info, hinfo⟩ := (dp.decodeTupleHead_takes ..).mp hhead
    exact ⟨_, info, head, items, filler, hinfo, hbody, rfl, (List.append_assoc ..).symm⟩

/-- The entries of a message that begins with a head are looked for behind it. -/
theorem entryFirst_of_head {record : Bytes → Prop} {ctx : Bytes}
    (hhead : dp.decodeTupleHead message = (some n, ctx))
    (h : (n = 6 → ∃ items filler, record items ∧ ctx = items ++ filler) ∧
      (n = 7 → ∃ items filler, Items 7 items ∧ ctx = items ++ filler) ∧
      (n = 2 → ∃ items filler, Items 2 items ∧ ctx = items ++ filler) ∧
      (n ≠ 6 → n ≠ 7 → n ≠ 2 → Entries message)) : EntryFirst record message := by
  have hsame {m : Nat} (hm : Headed m message) : n = m := by
    obtain ⟨ctx', hctx'⟩ := dp.headed_iff.mp hm
    exact Option.some.inj (Prod.ext_iff.mp (hhead.symm.trans hctx')).1
  have hheaded : Headed n message := dp.headed_iff.mpr ⟨ctx, hhead⟩
  refine ⟨fun hm => ?_, fun hm => ?_, fun hm => ?_, fun h6 h7 h2 => h.2.2.2 ?_ ?_ ?_⟩
  · obtain rfl := hsame hm
    exact (dp.beginsWith_iff hhead).mpr (h.1 rfl)
  · obtain rfl := hsame hm
    exact (dp.beginsWith_iff hhead).mpr (h.2.1 rfl)
  · obtain rfl := hsame hm
    exact (dp.beginsWith_iff hhead).mpr (h.2.2.1 rfl)
  · rintro rfl
    exact h6 hheaded
  · rintro rfl
    exact h7 hheaded
  · rintro rfl
    exact h2 hheaded

/-! ## What a message adds -/

/-- What the reads leave of a message is made of entries. -/
def Contributes (message : Bytes) : Prop :=
  match dp.decodeTupleHead message with
  | (some 6, ctx) => ∃ items entries, Items 6 items ∧ Entries entries ∧
      ctx = items ++ entries ++ (dp.readRecord ctx).2
  | (some 7, ctx) => ∃ items rest, Items 7 items ∧ ctx = items ++ rest
  | (some 2, ctx) => ∃ items rest, Items 2 items ∧ ctx = items ++ rest
  | _ => Entries message

theorem entries_written_iff (threshold : Nat) (message : Bytes) :
    Entries (written threshold (dp.preparseMessage message).2) ↔ dp.Contributes message := by
  rcases hhead : dp.decodeTupleHead message with ⟨_ | n, ctx⟩
  · simp [preparseMessage, Contributes, hhead, written, copyMessage, MessageInfo.rawData]
  · by_cases h6 : n = 6
    · subst h6
      simp only [preparseMessage, Contributes, hhead]
      exact dp.entries_record_iff threshold hhead
    · by_cases h7 : n = 7
      · subst h7
        simp only [preparseMessage, Contributes, hhead]
        exact dp.entries_span_iff threshold (fun _ _ => rfl) (by simp) hhead
      · by_cases h2 : n = 2
        · subst h2
          simp only [preparseMessage, Contributes, hhead]
          exact dp.entries_span_iff threshold (fun _ _ => rfl) (by simp) hhead
        · simp [preparseMessage, Contributes, hhead, h6, h7, h2, written, copyMessage,
            MessageInfo.rawData]

theorem contributes_of_sound (h : Sound message) : dp.Contributes message := by
  rcases hhead : dp.decodeTupleHead message with ⟨_ | n, ctx⟩
  · have hno (m : Nat) : ¬Headed m message := by
      intro hm
      obtain ⟨ctx', hctx'⟩ := dp.headed_iff.mp hm
      cases hhead.symm.trans hctx'
    simp only [Contributes, hhead]
    exact h.other (hno 6) (hno 7) (hno 2)
  · have hheaded : Headed n message := dp.headed_iff.mpr ⟨ctx, hhead⟩
    have hne {m : Nat} (hm : n ≠ m) : ¬Headed m message := by
      intro hm'
      obtain ⟨ctx', hctx'⟩ := dp.headed_iff.mp hm'
      exact hm (Option.some.inj (Prod.ext_iff.mp (hhead.symm.trans hctx')).1)
    unfold Contributes
    rw [hhead]
    split
    case h_1 heq =>
      cases heq
      obtain ⟨items, filler, ⟨timestamp, severity, hrecord⟩, rfl⟩ :=
        (dp.beginsWith_iff hhead).mp (h.record hheaded)
      have hread := (dp.readRecord_takes _ (timestamp, severity) filler).mpr ⟨items, rfl, hrecord⟩
      exact ⟨items, [], hrecord.items, .nil, by rw [hread, List.append_nil]⟩
    case h_2 heq =>
      cases heq
      exact (dp.beginsWith_iff hhead).mp (h.spanStart hheaded)
    case h_3 heq =>
      cases heq
      exact (dp.beginsWith_iff hhead).mp (h.spanEnd hheaded)
    case h_4 h6 h7 h2 =>
      exact h.other (hne (by rintro rfl; exact h6 _ rfl)) (hne (by rintro rfl; exact h7 _ rfl))
        (hne (by rintro rfl; exact h2 _ rfl))

/-- A message of which only entries are left is what a reader makes of its record. -/
theorem Contributes.entryFirst {record : Bytes → Prop} (h : dp.Contributes message)
    (hrecord : ∀ ctx items entries, Items 6 items → Entries entries →
      ctx = items ++ entries ++ (dp.readRecord ctx).2 →
      ∃ items filler, record items ∧ ctx = items ++ filler) : EntryFirst record message := by
  rcases hhead : dp.decodeTupleHead message with ⟨_ | n, ctx⟩
  · have hno (m : Nat) : ¬Headed m message := by
      intro hm
      obtain ⟨ctx', hctx'⟩ := dp.headed_iff.mp hm
      cases hhead.symm.trans hctx'
    simp only [Contributes, hhead] at h
    exact ⟨fun hm => absurd hm (hno 6), fun hm => absurd hm (hno 7), fun hm => absurd hm (hno 2),
      fun _ _ _ => h⟩
  · refine dp.entryFirst_of_head hhead ⟨?_, ?_, ?_, fun h6 h7 h2 => ?_⟩
    · rintro rfl
      simp only [Contributes, hhead] at h
      obtain ⟨items, entries, hitems, hentries, heq⟩ := h
      exact hrecord ctx items entries hitems hentries heq
    · rintro rfl
      simpa only [Contributes, hhead] using h
    · rintro rfl
      simpa only [Contributes, hhead] using h
    · simpa [Contributes, hhead, h6, h7, h2] using h

theorem Contributes.complete (h : dp.Contributes message) : Complete message := by
  refine Contributes.entryFirst dp h fun ctx items entries hitems _ heq => ?_
  exact ⟨items, _, hitems, heq.trans (List.append_assoc ..)⟩

end

/-! ## A reader that takes nothing where it fails -/

/-- A read that takes up to `n` items, and fewer where it fails. -/
def Counts {α : Type} (n : Nat) (read : Parse α) : Prop :=
  ∀ ctx, ∃ k taken, Items k taken ∧ ctx = taken ++ (read ctx).2 ∧ k ≤ n ∧
    ((read ctx).1 = none → k < n)

theorem counts_ofReader {α : Type} {read : Cbor.Reader α}
    (h : ∀ ctx a rest, read ctx = some (a, rest) → Cbor.skipItem ctx = some ((), rest)) :
    Counts 1 (ofReader read) := by
  intro ctx
  cases hread : read ctx with
  | none => exact ⟨0, [], .nil, by simp [ofReader, hread], by decide, fun _ => by decide⟩
  | some x =>
    obtain ⟨item, hitem, heq⟩ := Cbor.skipItem_eq_some_iff.mp (h ctx x.1 x.2 hread)
    refine ⟨1, item, ?_, by simpa [ofReader, hread] using heq, le_rfl, by simp [ofReader, hread]⟩
    have hone := Cbor.Items.cons hitem .nil
    rwa [List.append_nil] at hone

theorem counts_parseInteger (max : Nat) : Counts 1 (ofCbor.parseInteger max) :=
  counts_ofReader fun ctx n rest h => by
    obtain ⟨value, hvalue, -⟩ := (filter_eq ..).mp h
    exact Cbor.skipItem_of_readInt hvalue

/-- One read behind the other, also where the first has failed. -/
def both {α β : Type} (first : Parse α) (second : Parse β) : Parse (α × β) := fun ctx =>
  let (a, ctx) := first ctx
  let (b, ctx) := second ctx
  (a.bind fun a => b.map fun b => (a, b), ctx)

theorem Counts.both {α β : Type} {m n : Nat} {first : Parse α} {second : Parse β}
    (hfirst : Counts m first) (hsecond : Counts n second) :
    Counts (m + n) (both first second) := by
  intro ctx
  obtain ⟨k, taken, htaken, heq, hk, hless⟩ := hfirst ctx
  obtain ⟨l, others, hothers, heq', hl, hless'⟩ := hsecond (first ctx).2
  refine ⟨k + l, taken ++ others, htaken.append hothers, ?_, by omega, fun hnone => ?_⟩
  · rw [List.append_assoc]
    exact heq.trans (congrArg _ heq')
  · simp only [Deeppack.both] at hnone
    cases ha : (first ctx).1 with
    | none =>
      have := hless ha
      omega
    | some a =>
      have := hless' (by simpa [ha] using hnone)
      omega

theorem Counts.congr {α β : Type} {n : Nat} {read : Parse α} {read' : Parse β}
    (h : Counts n read) (hrest : ∀ ctx, (read' ctx).2 = (read ctx).2)
    (hfail : ∀ ctx, (read' ctx).1 = none → (read ctx).1 = none) : Counts n read' := by
  intro ctx
  obtain ⟨k, taken, htaken, heq, hk, hless⟩ := h ctx
  exact ⟨k, taken, htaken, (hrest ctx).symm ▸ heq, hk, fun hnone => hless (hfail ctx hnone)⟩

theorem counts_skipItem : Counts 1 ofCbor.skipItem := counts_ofReader fun _ _ _ h => h

theorem counts_skipItems (n : Nat) : Counts n (ofCbor.skipItems n) := by
  induction n with
  | zero => exact fun ctx => ⟨0, [], .nil, rfl, le_rfl, by simp [skipItems]⟩
  | succ n ih =>
    have hboth := counts_skipItem.both ih
    rw [Nat.add_comm] at hboth
    refine hboth.congr (fun _ => rfl) fun ctx hnone => ?_
    simpa [Deeppack.both, skipItems] using hnone

theorem counts_readRecord : Counts 6 ofCbor.readRecord := by
  have hseverity : Counts 1 ofCbor.decodeSeverity :=
    (counts_parseInteger 23).congr (fun _ => rfl) fun _ hnone => Option.map_eq_none_iff.mp hnone
  have htimestamp : Counts 1 ofCbor.decodeTimePoint := counts_parseInteger _
  have hreads := hseverity.both (counts_skipItem.both (htimestamp.both (counts_skipItems 3)))
  refine hreads.congr (fun _ => rfl) fun ctx hnone => ?_
  simpa [Deeppack.both, readRecord] using hnone

/-- With such a reader, only a record that is read leaves its six items. -/
theorem sound_of_contributes (h : ofCbor.Contributes message) : Sound message := by
  refine Contributes.entryFirst ofCbor h fun ctx items entries hitems _ heq => ?_
  obtain ⟨k, taken, htaken, hctx, -, hless⟩ := counts_readRecord ctx
  have hsame : taken = items ++ entries := List.append_cancel_right (hctx.symm.trans heq)
  have hk : 6 ≤ k := Items.le_of_append htaken hitems hsame
  cases hread : (ofCbor.readRecord ctx).1 with
  | none =>
    have := hless hread
    omega
  | some x =>
    obtain ⟨record, hrecord, hitems'⟩ := (ofCbor.readRecord_takes ..).mp (Prod.ext hread rfl)
    exact ⟨record, _, ⟨x.1, x.2, hitems'⟩, hrecord⟩

/-! ## Batches -/

/-- Whatever batches come from a set of messages, only entries are appended to a container. -/
def KeepsEntries (dp : Deeppack) (threshold : Nat) (messages : Set Bytes) : Prop :=
  ∀ (out : Bytes) (records : List Bytes), (∀ m ∈ records, m ∈ messages) →
    ∃ appended, concateMessages out (dp.preparseMessages records).2 threshold = out ++ appended ∧
      Entries appended

theorem keepsEntries_iff (dp : Deeppack) (threshold : Nat) (messages : Set Bytes) :
    dp.KeepsEntries threshold messages ↔ ∀ m ∈ messages, dp.Contributes m := by
  constructor
  · intro h m hm
    obtain ⟨appended, hout, hentries⟩ := h [] [m] (by simpa using hm)
    rw [concateMessages_eq] at hout
    have hwritten : written threshold (dp.preparseMessage m).2 = appended := by
      simpa [preparseMessages] using hout
    rw [← dp.entries_written_iff threshold, hwritten]
    exact hentries
  · intro h out records hrecords
    refine ⟨_, concateMessages_eq _ _ _, ?_⟩
    have hall : ∀ m ∈ records, dp.Contributes m := fun m hm => h m (hrecords m hm)
    clear hrecords
    induction records with
    | nil => exact .nil
    | cons m records ih =>
      have hm := (dp.entries_written_iff threshold m).mpr (hall m (by simp))
      exact hm.append (ih fun m' h' => hall m' (by simp [h']))

/-- With every deeppack that reads as it should, what comes from a set of messages is a container's
content exactly if each message begins with what its head announces, or is made of entries. With
none it is if a message breaks off in front of its last item; what becomes of a record whose
severity or timestamp is refused depends on where the refused item is left. -/
theorem concate_entries_iff (threshold : Nat) (messages : Set Bytes) :
    ((∀ dp : Deeppack, dp.KeepsEntries threshold messages) ↔ ∀ m ∈ messages, Sound m) ∧
      ∀ dp : Deeppack, dp.KeepsEntries threshold messages → ∀ m ∈ messages, Complete m := by
  refine ⟨⟨fun h m hm => ?_, fun h dp => ?_⟩, fun dp h m hm => ?_⟩
  · exact sound_of_contributes ((ofCbor.keepsEntries_iff threshold messages).mp (h ofCbor) m hm)
  · exact (dp.keepsEntries_iff threshold messages).mpr fun m hm => dp.contributes_of_sound (h m hm)
  · exact Contributes.complete dp ((dp.keepsEntries_iff threshold messages).mp h m hm)

/-- What is left on the bus when the text of an argument cannot be encoded, with a byte of an
earlier message behind it. -/
def truncatedRecord : Bytes :=
  [0x86, 0x0c, 0x80, 0x1b, 0, 0, 0, 0, 0, 0, 0, 7, 0x61, 0x61, 0x81, 0x82, 0x05, 0x79]

theorem concate_entries_not :
    ¬ ∀ (dp : Deeppack) (threshold : Nat) (out : Bytes) (records : List Bytes),
      ∃ appended, concateMessages out (dp.preparseMessages records).2 threshold = out ++ appended ∧
        Entries appended := by
  intro h
  have hkeeps : ofCbor.KeepsEntries 13 {truncatedRecord} := fun out records _ => h _ _ out records
  have hcomplete := Contributes.complete ofCbor
    ((ofCbor.keepsEntries_iff 13 _).mp hkeeps truncatedRecord rfl)
  have hhead : ofCbor.decodeTupleHead truncatedRecord = (some 6, truncatedRecord.tail) := by decide
  obtain ⟨items, filler, hitems, heq⟩ := (ofCbor.beginsWith_iff hhead).mp
    (hcomplete.record (ofCbor.headed_iff.mpr ⟨_, hhead⟩))
  have hskip := Cbor.skipItems_eq_some_iff.mpr ⟨items, hitems, heq⟩
  have hnone : Cbor.skipItems 6 truncatedRecord.tail = none := by decide
  rw [hnone] at hskip
  cases hskip

end Deeppack

end Deeplog.Sink
