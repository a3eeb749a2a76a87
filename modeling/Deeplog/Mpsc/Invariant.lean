import Mathlib.Tactic.Tauto
import Deeplog.Mpsc.Steps

/-!
# The invariant of a region and its consumer

The messages in the order of their reservation, cut where the consumer stands: released ones,
those it has cleared in this call, those it has passed on but not cleared, those in its batch,
and the rest. Every step preserves the invariant, provided that a reservation also passes the
check of `place` with the read hand that is stored at that moment.
-/

namespace Deeplog.Mpsc

theorem modify_length {α : Type} (l : List α) (x : α) (r : List α) (f : α → α) :
    (l ++ x :: r).modify l.length f = l ++ f x :: r := by
  induction l with
  | nil => rfl
  | cons y l ih => simpa using ih

theorem getElem?_eq_some_append {α : Type} {l : List α} {i : Nat} {x : α} (h : l[i]? = some x) :
    ∃ as bs, l = as ++ x :: bs ∧ i = as.length := by
  obtain ⟨hi, rfl⟩ := List.getElem?_eq_some_iff.mp h
  refine ⟨l.take i, l.drop (i + 1), ?_, by simp; omega⟩
  rw [List.getElem_cons_drop, List.take_append_drop]

/-- What the consumer keeps in `infos` and `msgs` for a message. -/
def Message.info (m : Message) : Info := ⟨m.ctrl, m.payload, m.allocSize, m.size⟩

/-- `pos` is the position behind the messages `ms`, starting from `readPtr`. -/
def Behind (regionEnd readPtr : Nat) (ms : List Message) (pos : Nat) : Prop :=
  Ring.Chain regionEnd readPtr (ms.map (·.segment regionEnd)) pos

/-- A reader moves over one more message. -/
theorem Pool.behind_next {regionEnd : Nat} {region : Region} {ms pre : List Message} {m : Message}
    (h : Pool regionEnd region ms) (hm : m ∈ ms)
    (hpos : Behind regionEnd region.readPtr pre m.ctrl) :
    Behind regionEnd region.readPtr (pre ++ [m]) (nextPos regionEnd m.ctrl m.allocSize) := by
  have hin := h.segment_lt hm
  unfold Behind
  rw [List.map_append]
  refine hpos.append ⟨rfl, ?_, ?_⟩
  · simp only [Message.segment, span]; split_ifs <;> omega
  · simp [Ring.Chain, Message.segment, nextPos_eq_advance hin.1]

/-- The local state of the consumer describes the messages that it holds. -/
def Consumer.Holds (regionEnd readPtr : Nat) (done todo batch : List Message) :
    Consumer → Prop
  | .idle => done = [] ∧ todo = [] ∧ batch = []
  | .loaded originalReadPos =>
    originalReadPos = readPtr ∧ done = [] ∧ todo = [] ∧ batch = []
  | .scanning originalReadPos readPos infos | .gathered originalReadPos readPos infos =>
    originalReadPos = readPtr ∧ todo = [] ∧ infos = batch.map Message.info ∧
      Behind regionEnd readPtr (done ++ batch) readPos
  | .marking originalReadPos readPos infos =>
    originalReadPos = readPtr ∧ batch = [] ∧ infos = todo.map Message.info ∧
      (∀ m ∈ todo, m.stage = .committed) ∧ Behind regionEnd readPtr (done ++ todo) readPos
  | .clearing originalReadPos readPos info infos =>
    originalReadPos = readPtr ∧ batch = [] ∧ ∃ m tail, todo = m :: tail ∧ m.stage = .consumed ∧
      info = m.info ∧ infos = tail.map Message.info ∧ (∀ m ∈ tail, m.stage = .committed) ∧
      Behind regionEnd readPtr (done ++ todo) readPos

/-- The invariant, for a cut of the messages into five runs. -/
structure Inv (regionEnd : Nat) (b : Bus) (old done todo batch rest : List Message) : Prop where
  messages : b.messages = old ++ done ++ todo ++ batch ++ rest
  released : b.released = old.length
  cleared : b.cleared = old.length + done.length
  delivered : b.delivered = (old ++ done ++ todo).map Message.content
  old_cleared : ∀ m ∈ old ++ done, m.stage = .cleared
  batch_committed : ∀ m ∈ batch, m.stage = .committed
  rest_open : ∀ m ∈ rest, m.stage = .reserved ∨ m.stage = .headed ∨ m.stage = .committed
  pool : Pool regionEnd b.region (done ++ todo ++ batch ++ rest)
  holds : b.consumer.Holds regionEnd b.region.readPtr done todo batch

/-- Some cut satisfies the invariant. -/
def Bus.Ok (regionEnd : Nat) (b : Bus) : Prop :=
  ∃ old done todo batch rest, Inv regionEnd b old done todo batch rest

theorem Bus.init_ok {regionEnd : Nat} (hpos : 0 < regionEnd) : Bus.init.Ok regionEnd :=
  ⟨[], [], [], [], [], by simp [Bus.init], rfl, rfl, rfl, by simp, by simp, by simp,
    by simpa [Bus.init] using Pool.init hpos, ⟨rfl, rfl, rfl⟩⟩

namespace Inv

variable {regionEnd : Nat} {b : Bus} {old done todo batch rest : List Message}

theorem pending_eq (h : Inv regionEnd b old done todo batch rest) :
    b.pending = done ++ todo ++ batch ++ rest := by
  simp [Bus.pending, h.messages, h.released, List.append_assoc]

/-- Messages handed to the consumer are committed, or further. -/
theorem todo_stage (h : Inv regionEnd b old done todo batch rest) {m : Message} (hm : m ∈ todo) :
    m.stage = .committed ∨ m.stage = .consumed := by
  have hc := h.holds
  unfold Consumer.Holds at hc
  split at hc
  · simp [hc.2.1] at hm
  · simp [hc.2.2.1] at hm
  · simp [hc.2.1] at hm
  · simp [hc.2.1] at hm
  · exact .inl (hc.2.2.2.1 m hm)
  · obtain ⟨-, -, m', tail, rfl, hs, -, -, ht, -⟩ := hc
    rcases List.mem_cons.mp hm with rfl | hm
    · exact .inr hs
    · exact .inl (ht m hm)

/-- A message that its producer still holds is not in the consumer's hands. -/
theorem mem_rest (h : Inv regionEnd b old done todo batch rest) {i : Nat} {m : Message}
    (hi : b.messages[i]? = some m) (hs : m.stage = .reserved ∨ m.stage = .headed) :
    ∃ as bs, rest = as ++ m :: bs ∧ i = (old ++ done ++ todo ++ batch ++ as).length := by
  rw [h.messages] at hi
  have hlen : (old ++ done ++ todo ++ batch).length ≤ i := by
    by_contra hlt
    rw [List.getElem?_append_left (by omega)] at hi
    have hm := List.mem_of_getElem? hi
    simp only [List.mem_append] at hm
    rcases hm with ((hm | hm) | hm) | hm
    · have := h.old_cleared m (by simp [hm]); simp [this] at hs
    · have := h.old_cleared m (by simp [hm]); simp [this] at hs
    · rcases h.todo_stage hm with ht | ht <;> simp [ht] at hs
    · have := h.batch_committed m hm; simp [this] at hs
  rw [List.getElem?_append_right hlen] at hi
  obtain ⟨as, bs, hrest, hidx⟩ := getElem?_eq_some_append hi
  refine ⟨as, bs, hrest, ?_⟩
  rw [List.length_append, ← hidx]; omega

/-- A producer changes its own message and memory inside of its slot. -/
theorem producer (hE : regionEnd % 4 = 0) {as bs : List Message} {m : Message}
    (h : Inv regionEnd b old done todo batch (as ++ m :: bs)) {i : Nat} {f : Message → Message}
    {data' : Nat → UInt8}
    (hi : i = (old ++ done ++ todo ++ batch ++ as).length)
    (hctrl : (f m).ctrl = m.ctrl) (hpay : (f m).payload = m.payload) (hsize : (f m).size = m.size)
    (hstage : (f m).stage = .reserved ∨ (f m).stage = .headed ∨ (f m).stage = .committed)
    (hframe : ∀ x, ¬ m.Covers x → data' x = b.region.data x)
    (hhead : (f m).HeadOk data') (hpayload : (f m).PayloadOk data') :
    Inv regionEnd
      { b with region := { b.region with data := data' }, messages := b.messages.modify i f }
      old done todo batch (as ++ f m :: bs) where
  messages := by
    have hm : b.messages = (old ++ done ++ todo ++ batch ++ as) ++ m :: bs := by
      simp [h.messages]
    rw [hm, hi, modify_length]; simp
  released := h.released
  cleared := h.cleared
  delivered := h.delivered
  old_cleared := h.old_cleared
  batch_committed := h.batch_committed
  rest_open := by
    intro n hn
    simp only [List.mem_append, List.mem_cons] at hn
    rcases hn with hn | rfl | hn
    · exact h.rest_open n (by simp [hn])
    · exact hstage
    · exact h.rest_open n (by simp [hn])
  pool := by
    have hp : Pool regionEnd b.region ((done ++ todo ++ batch ++ as) ++ m :: bs) := by
      simpa using h.pool
    simpa using hp.update hE hctrl hpay hsize hframe hhead hpayload
  holds := h.holds

/-! ## Producer steps -/

theorem reserve (hE : regionEnd % 4 = 0) (h : Inv regionEnd b old done todo batch rest)
    {readHand payloadSize : Nat} {b' : Bus} (hsize : payloadSize ≤ maxMessageSize)
    (hno : regionEnd + allocSizeOf payloadSize < 2 ^ 32) (hr : readHand < regionEnd)
    (hroom : (place regionEnd b.region.readPtr b.region.allocPtr
      (allocSizeOf payloadSize)).isSome = true)
    (hb : b.reserve regionEnd readHand payloadSize = some b') :
    ∃ m, Inv regionEnd b' old done todo batch (rest ++ [m]) := by
  obtain ⟨payloadPosition, payloadEnd, hp, rfl⟩ := Bus.reserve_cases hb
  obtain ⟨rfl, rfl⟩ := Prod.mk.inj (place_eq hE hr h.pool.alloc_lt h.pool.alloc_aligned hno hp)
  let m : Message := {
    ctrl := b.region.allocPtr
    payload := payloadPos regionEnd b.region.allocPtr (allocSizeOf payloadSize)
    size := payloadSize
    stage := .reserved
    bytes := fun o => b.region.data
      (payloadPos regionEnd b.region.allocPtr (allocSizeOf payloadSize) + o) }
  have hm : m.WellPlaced regionEnd := ⟨hsize, hno, h.pool.alloc_aligned, rfl⟩
  have hpool := h.pool.reserve hE hm rfl rfl (fun _ _ => rfl) hroom
  refine ⟨m, ?_⟩
  exact {
    messages := by simp [h.messages, m]
    released := h.released
    cleared := h.cleared
    delivered := h.delivered
    old_cleared := h.old_cleared
    batch_committed := h.batch_committed
    rest_open := by
      intro n hn
      rcases List.mem_append.mp hn with hn | hn
      · exact h.rest_open n hn
      · rw [List.mem_singleton.mp hn]; exact .inl rfl
    pool := by simpa [List.append_assoc, m, Message.allocSize] using hpool
    holds := h.holds }

theorem storeHead (hE : regionEnd % 4 = 0) (h : Inv regionEnd b old done todo batch rest)
    {i : Nat} {b' : Bus} (hb : b.storeHead i = some b') :
    ∃ rest', Inv regionEnd b' old done todo batch rest' := by
  obtain ⟨m, hi, hs, rfl⟩ := Bus.storeHead_cases hb
  obtain ⟨as, bs, rfl, hidx⟩ := h.mem_rest hi (.inl hs)
  have hm := h.pool.placed m (by simp)
  have hin := h.pool.segment_lt (show m ∈ _ by simp)
  have hpay := h.pool.payload m (by simp)
  refine ⟨as ++ { m with stage := .headed } :: bs, ?_⟩
  refine h.producer hE hidx rfl rfl rfl (.inr (.inl rfl)) ?_ ?_ ?_
  · exact fun x hx => storeWord_outside _ _ (by unfold Message.Covers at hx; omega)
  · exact loadWord_storeWord _ _ (lockedHead_lt hm.size_le)
  · simp only [Message.PayloadOk, hs] at hpay ⊢
    exact fun o ho => (hm.payload_storeWord hin.1 hin.2 _ ho).trans (hpay o ho)

theorem write (hE : regionEnd % 4 = 0) (h : Inv regionEnd b old done todo batch rest)
    {i o : Nat} {value : UInt8} {b' : Bus} (hb : b.write i o value = some b') :
    ∃ rest', Inv regionEnd b' old done todo batch rest' := by
  obtain ⟨m, hi, hs, ho, rfl⟩ := Bus.write_cases hb
  obtain ⟨as, bs, rfl, hidx⟩ := h.mem_rest hi (.inr hs)
  have hm := h.pool.placed m (by simp)
  have hin := h.pool.segment_lt (show m ∈ _ by simp)
  have hhead := h.pool.head m (by simp)
  have hpay := h.pool.payload m (by simp)
  refine ⟨as ++ { m with bytes := Function.update m.bytes o value } :: bs, ?_⟩
  refine h.producer hE hidx rfl rfl rfl (.inr (.inl hs)) ?_ ?_ ?_
  · intro x hx
    exact Function.update_of_ne (by unfold Message.Covers at hx; omega) _ _
  · simp only [Message.HeadOk, hs] at hhead ⊢
    rw [← hhead]
    refine loadWord_congr fun j hj => Function.update_of_ne ?_ _ _
    have := hm.payload_apart hin.1 hin.2 ho
    omega
  · simp only [Message.PayloadOk, hs] at hpay ⊢
    intro o' ho'
    by_cases heq : o' = o
    · simp [heq]
    · rw [Function.update_of_ne (by omega), Function.update_of_ne heq]
      exact hpay o' ho'

theorem commit (hE : regionEnd % 4 = 0) (h : Inv regionEnd b old done todo batch rest)
    {i : Nat} {b' : Bus} (hb : b.commit i = some b') :
    ∃ rest', Inv regionEnd b' old done todo batch rest' := by
  obtain ⟨m, hi, hs, rfl⟩ := Bus.commit_cases hb
  obtain ⟨as, bs, rfl, hidx⟩ := h.mem_rest hi (.inr hs)
  have hm := h.pool.placed m (by simp)
  have hin := h.pool.segment_lt (show m ∈ _ by simp)
  have hhead := h.pool.head m (by simp)
  have hpay := h.pool.payload m (by simp)
  simp only [Message.HeadOk, hs] at hhead
  rw [hhead, lockedHead_and_max hm.size_le]
  refine ⟨as ++ { m with stage := .committed } :: bs, ?_⟩
  refine h.producer hE hidx rfl rfl rfl (.inr (.inr rfl)) ?_ ?_ ?_
  · exact fun x hx => storeWord_outside _ _ (by unfold Message.Covers at hx; omega)
  · exact loadWord_storeWord _ _ (by have := hm.size_le; unfold maxMessageSize at this; omega)
  · simp only [Message.PayloadOk, hs] at hpay ⊢
    exact fun o ho => (hm.payload_storeWord hin.1 hin.2 _ ho).trans (hpay o ho)

/-! ## Consumer steps -/

/-- The scan position is the header of the next message, or the allocation hand. -/
theorem locked_unless_committed (hE : regionEnd % 4 = 0)
    (h : Inv regionEnd b old done [] batch rest) {pos : Nat}
    (hpos : Behind regionEnd b.region.readPtr (done ++ batch) pos)
    (hrest : ∀ m ∈ rest.head?, m.stage ≠ .committed) : Locked (loadWord b.region.data pos) := by
  have hpool : Pool regionEnd b.region ((done ++ batch) ++ rest) := by simpa using h.pool
  cases rest with
  | nil =>
    rw [List.append_nil] at hpool
    rw [hpos.stop_unique hpool.chain]
    exact hpool.locked_at_alloc hE
  | cons m rest =>
    rw [hpool.next_ctrl hpos]
    have hhead := hpool.head m (by simp)
    rcases h.rest_open m (by simp) with hs | hs | hs
    · simpa only [Message.HeadOk, hs] using hhead
    · simp only [Message.HeadOk, hs] at hhead
      rw [hhead]; exact locked_lockedHead _
    · exact absurd hs (hrest m (by simp))

theorem scan_locked (hE : regionEnd % 4 = 0)
    (h : Inv regionEnd b old done [] batch rest) {pos : Nat} {infos : List Info}
    (hpos : Behind regionEnd b.region.readPtr (done ++ batch) pos)
    (hrest : ∀ m ∈ rest.head?, m.stage ≠ .committed) (orig : Nat) :
    b.scan regionEnd orig pos infos = some { b with consumer := .gathered orig pos infos } := by
  simp only [Bus.scan, if_pos (h.locked_unless_committed hE hpos hrest)]

/-- The reader finds the message where the allocator put it. -/
theorem scan_committed (hE : regionEnd % 4 = 0) {m : Message}
    (h : Inv regionEnd b old done [] batch (m :: rest)) {pos : Nat}
    (hpos : Behind regionEnd b.region.readPtr (done ++ batch) pos)
    (hm : m.stage = .committed) (orig : Nat) (infos : List Info) :
    b.scan regionEnd orig pos infos = some { b with
        consumer := .scanning orig (nextPos regionEnd pos m.allocSize) (infos ++ [m.info]) } ∧
      Behind regionEnd b.region.readPtr (done ++ (batch ++ [m]))
        (nextPos regionEnd pos m.allocSize) := by
  have hpool : Pool regionEnd b.region ((done ++ batch) ++ m :: rest) := by simpa using h.pool
  obtain rfl := hpool.next_ctrl hpos
  have hpl := hpool.placed m (by simp)
  have hin := hpool.segment_lt (show m ∈ _ by simp)
  have hhead := hpool.head m (by simp)
  simp only [Message.HeadOk, hm] at hhead
  constructor
  · have hsmall : m.size + 3 < 2 ^ 32 := by
      have := hpl.size_le
      unfold maxMessageSize at this
      omega
    have halloc : roundUpP2 m.size blockSize = m.allocSize := rfl
    have hfits : m.payload + m.allocSize ≤ regionEnd := by
      have hpay := hpl.payload_eq
      have hs := hin.2
      simp only [Message.segment, span] at hs
      unfold payloadPos at hpay
      split_ifs at hpay hs <;> omega
    simp only [Bus.scan, hhead, not_locked_size hpl.size_le, if_false, halloc,
      hpl.wrapStart_payload hE hin.1 hsmall rfl, hpl.stepOver_eq hE hin.1 hin.2 hsmall rfl,
      if_pos hfits, Message.info]
  · simpa using hpool.behind_next (show m ∈ _ by simp) hpos

/-- Moving only the consumer along. -/
theorem with_consumer (h : Inv regionEnd b old done todo batch rest) {c : Consumer}
    (hc : c.Holds regionEnd b.region.readPtr done todo batch) :
    Inv regionEnd { b with consumer := c } old done todo batch rest :=
  ⟨h.messages, h.released, h.cleared, h.delivered, h.old_cleared, h.batch_committed, h.rest_open,
    h.pool, hc⟩

/-- The consumer joins a message to its batch. -/
theorem gather {m : Message} (h : Inv regionEnd b old done [] batch (m :: rest))
    (hm : m.stage = .committed) {c : Consumer}
    (hc : c.Holds regionEnd b.region.readPtr done [] (batch ++ [m])) :
    Inv regionEnd { b with consumer := c } old done [] (batch ++ [m]) rest where
  messages := by simp [h.messages]
  released := h.released
  cleared := h.cleared
  delivered := h.delivered
  old_cleared := h.old_cleared
  batch_committed := by
    intro n hn
    rcases List.mem_append.mp hn with hn | hn
    · exact h.batch_committed n hn
    · rw [List.mem_singleton.mp hn]; exact hm
  rest_open := fun n hn => h.rest_open n (by simp [hn])
  pool := by simpa using h.pool
  holds := hc

/-- What `consumeFn` receives is the content of the batch. -/
theorem batch_content (h : Inv regionEnd b old done [] batch rest) :
    (batch.map Message.info).map (fun i => slice b.region.data i.content i.msgSize) =
      batch.map Message.content := by
  rw [List.map_map]
  refine List.map_congr_left fun m hm => ?_
  exact (h.pool.payload m (by simp [hm])).slice_eq (h.pool.placed m (by simp [hm]))
    (h.batch_committed m hm)

/-- The batch goes to `consumeFn`. -/
theorem deliver (h : Inv regionEnd b old done [] batch rest) {orig pos : Nat}
    (ho : orig = b.region.readPtr)
    (hpos : Behind regionEnd b.region.readPtr (done ++ batch) pos) :
    Inv regionEnd { b with
        consumer := .marking orig pos (batch.map Message.info)
        delivered := b.delivered ++ batch.map Message.content } old done batch [] rest where
  messages := by simp [h.messages]
  released := h.released
  cleared := h.cleared
  delivered := by simp [h.delivered]
  old_cleared := h.old_cleared
  batch_committed := by simp
  rest_open := h.rest_open
  pool := by simpa using h.pool
  holds := ⟨ho, rfl, rfl, h.batch_committed, hpos⟩

/-- The `fetch_or` on the header of the next message of a batch. -/
theorem mark (hE : regionEnd % 4 = 0) {m : Message} {tail : List Message}
    (h : Inv regionEnd b old done (m :: tail) [] rest) {orig pos : Nat}
    (ho : orig = b.region.readPtr) (hm : m.stage = .committed)
    (htail : ∀ n ∈ tail, n.stage = .committed)
    (hpos : Behind regionEnd b.region.readPtr (done ++ m :: tail) pos) :
    Inv regionEnd { b with
        region := { b.region with
          data := storeWord b.region.data m.ctrl
            (loadWord b.region.data m.ctrl ||| (messageLockFlag ||| messageConsumedFlag)) }
        consumer := .clearing orig pos m.info (tail.map Message.info)
        messages := Bus.setStage b.messages b.cleared .consumed }
      old done ({ m with stage := .consumed } :: tail) [] rest where
  messages := by
    have hms : b.messages = (old ++ done) ++ m :: (tail ++ rest) := by simp [h.messages]
    have hlen : b.cleared = (old ++ done).length := by simp [h.cleared]
    rw [Bus.setStage, hms, hlen, modify_length]; simp
  released := h.released
  cleared := h.cleared
  delivered := by simpa [Message.content] using h.delivered
  old_cleared := h.old_cleared
  batch_committed := by simp
  rest_open := h.rest_open
  pool := by
    have hp : Pool regionEnd b.region (done ++ m :: (tail ++ rest)) := by simpa using h.pool
    have hhead := hp.head m (by simp)
    simp only [Message.HeadOk, hm] at hhead
    have hframe : ∀ x, ¬ m.Covers x →
        storeWord b.region.data m.ctrl (consumedHead m.size) x = b.region.data x :=
      fun x hx => storeWord_outside _ _ (by unfold Message.Covers at hx; omega)
    have hword : loadWord (storeWord b.region.data m.ctrl (consumedHead m.size)) m.ctrl =
        consumedHead m.size :=
      loadWord_storeWord _ _ (consumedHead_lt (hp.placed m (by simp)).size_le)
    have hnew : Pool regionEnd
        { b.region with data := storeWord b.region.data m.ctrl (consumedHead m.size) }
        (done ++ { m with stage := .consumed } :: (tail ++ rest)) :=
      hp.update hE rfl rfl rfl hframe hword trivial
    rw [hhead]; simpa [consumedHead] using hnew
  holds := ⟨ho, rfl, _, _, rfl, rfl, rfl, rfl, htail, by
    simpa [Behind, Message.segment, Message.allocSize] using hpos⟩

/-- The `memset` of the payload of a marked message. -/
theorem clear (hE : regionEnd % 4 = 0) {m : Message} {tail : List Message}
    (h : Inv regionEnd b old done (m :: tail) [] rest) {orig pos : Nat}
    (ho : orig = b.region.readPtr) (hm : m.stage = .consumed)
    (htail : ∀ n ∈ tail, n.stage = .committed)
    (hpos : Behind regionEnd b.region.readPtr (done ++ m :: tail) pos) :
    Inv regionEnd { b with
        region := { b.region with data := fill b.region.data m.payload m.allocSize 0xfe }
        consumer := .marking orig pos (tail.map Message.info)
        messages := Bus.setStage b.messages b.cleared .cleared
        cleared := b.cleared + 1 }
      old (done ++ [{ m with stage := .cleared }]) tail [] rest where
  messages := by
    have hms : b.messages = (old ++ done) ++ m :: (tail ++ rest) := by simp [h.messages]
    have hlen : b.cleared = (old ++ done).length := by simp [h.cleared]
    rw [Bus.setStage, hms, hlen, modify_length]; simp
  released := h.released
  cleared := by simp [h.cleared]; omega
  delivered := by simpa [Message.content] using h.delivered
  old_cleared := by
    intro n hn
    simp only [List.mem_append, List.mem_singleton] at hn
    rcases hn with hn | hn | rfl
    · exact h.old_cleared n (by simp [hn])
    · exact h.old_cleared n (by simp [hn])
    · rfl
  batch_committed := by simp
  rest_open := h.rest_open
  pool := by
    have hp : Pool regionEnd b.region (done ++ m :: (tail ++ rest)) := by simpa using h.pool
    have hpl := hp.placed m (by simp)
    have hin := hp.segment_lt (show m ∈ _ by simp)
    have hhead := hp.head m (by simp)
    simp only [Message.HeadOk, hm] at hhead
    have hframe : ∀ x, ¬ m.Covers x →
        fill b.region.data m.payload m.allocSize 0xfe x = b.region.data x :=
      fun x hx => fill_outside _ _ (by unfold Message.Covers at hx; omega)
    have hword : loadWord (fill b.region.data m.payload m.allocSize 0xfe) m.ctrl =
        consumedHead m.size := by
      rw [← hhead]
      refine loadWord_congr fun j hj => fill_outside _ _ ?_
      by_contra hcon
      have := hpl.payload_apart hin.1 hin.2 (show m.ctrl + j - m.payload < m.allocSize by omega)
      omega
    have hfill : ∀ o < m.allocSize,
        fill b.region.data m.payload m.allocSize 0xfe (m.payload + o) = 0xfe :=
      fun o ho => fill_inside _ _ (Nat.le_add_right ..) (Nat.add_lt_add_left ho _)
    have hnew : Pool regionEnd
        { b.region with data := fill b.region.data m.payload m.allocSize 0xfe }
        (done ++ { m with stage := .cleared } :: (tail ++ rest)) :=
      hp.update hE rfl rfl rfl hframe hword hfill
    simpa using hnew
  holds := ⟨ho, rfl, rfl, htail, by
    simpa [Behind, Message.segment, Message.allocSize] using hpos⟩

end Inv

end Deeplog.Mpsc
