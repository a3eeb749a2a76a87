import Deeplog.Lib.Fifo
import Deeplog.Mpsc.ReadRegion

/-!
# A region as a queue

Messages enter the queue with the `compare_exchange` of `allocate`, are filled by the commit,
and leave it with the batches of `read_region`. Header stores, payload writes and everything
else the consumer does are not visible.
-/

namespace Deeplog.Mpsc

theorem map_modify_of_getElem? {α β : Type} {l : List α} {i : Nat} {x : α} (f : α → α) (g : α → β)
    (h : l[i]? = some x) : (l.modify i f).map g = (l.map g).set i (g (f x)) := by
  apply List.ext_getElem?
  intro j
  simp only [List.getElem?_map, List.getElem?_modify, List.getElem?_set, List.length_map]
  grind

namespace Bus

/-- The queue that a region implements. -/
def queue (b : Bus) : Fifo.Queue Bytes := ⟨b.messages.map Message.entry, b.delivered⟩

variable {regionEnd : Nat} {b b' : Bus} {i : Nat} {m : Message}

/-- A change of one message that the queue does not see. -/
theorem map_entry_modify (f : Message → Message) (hi : b.messages[i]? = some m)
    (hf : (f m).entry = m.entry) :
    (b.messages.modify i f).map Message.entry = b.messages.map Message.entry := by
  rw [map_modify_of_getElem? f _ hi, hf]
  apply List.ext_getElem?
  grind

end Bus

/-- Whatever was delivered had been committed. -/
theorem Inv.delivered_entry {regionEnd : Nat} {b : Bus} {old done todo batch rest : List Message}
    (h : Inv regionEnd b old done todo batch rest) :
    ∀ m ∈ old ++ done ++ todo, m.entry = some m.content := by
  intro m hm
  rcases List.mem_append.mp hm with hm | hm
  · simp [Message.entry, h.old_cleared m hm]
  · rcases h.todo_stage hm with hs | hs <;> simp [Message.entry, hs]

/-- The invariant orders what was delivered. -/
theorem Bus.Ok.ordered {regionEnd : Nat} {b : Bus} (h : b.Ok regionEnd) : b.queue.Ordered := by
  obtain ⟨old, done, todo, batch, rest, h⟩ := h
  have htaken : b.delivered.map some = (old ++ done ++ todo).map Message.entry := by
    rw [h.delivered, List.map_map]
    exact List.map_congr_left fun m hm => (h.delivered_entry m hm).symm
  have hmessages : b.messages = (old ++ done ++ todo) ++ (batch ++ rest) := by simp [h.messages]
  refine ⟨(batch ++ rest).map Message.entry, ?_⟩
  rw [Bus.queue, htaken, hmessages, ← List.map_append]

/-- A step of the consumer takes the entries it delivers. -/
theorem Inv.consume_refines {regionEnd : Nat} (hE : regionEnd % 4 = 0) {b b' : Bus}
    {old done todo batch rest : List Message} (hinv : Inv regionEnd b old done todo batch rest)
    (hb : b.consume regionEnd = some b') : Fifo.Step b.queue b'.queue := by
  obtain ⟨b₁, _, _, _, _, _, hinv', hadv⟩ := hinv.consume_step hE
  cases hadv.step.symm.trans hb
  obtain ⟨xs, hxs⟩ := hadv.grows
  -- what the step adds continues the prefix that the invariant orders
  have hordered : b'.queue.Ordered := Bus.Ok.ordered ⟨_, _, _, _, _, hinv'⟩
  obtain ⟨more, hmore⟩ := hordered
  have htake : xs.map some <+: b.queue.entries.drop b.queue.taken.length := by
    refine ⟨more, ?_⟩
    simp only [Bus.queue, ← hxs, hadv.entries, List.map_append] at hmore ⊢
    rw [← hmore, List.append_assoc]
    simp
  have hstep := Fifo.Step.take b.queue xs htake
  simpa only [Bus.queue, hadv.entries, ← hxs] using hstep

/-- Every step of a region is a step of the queue, or none. -/
theorem Bus.Ok.refines {regionEnd : Nat} (hE : regionEnd % 4 = 0) {b b' : Bus} {op : Bus.Op}
    (hfits : op.Fits regionEnd) (h : b.Ok regionEnd) (hb : b.apply regionEnd op = some b') :
    Fifo.Steps b.queue b'.queue := by
  cases op with
  | allocate payloadSize =>
    cases hb
    rcases Bus.allocate_cases regionEnd payloadSize b with hsame | ⟨_, hr⟩
    · rw [hsame]
    · obtain ⟨_, _, _, hb⟩ := Bus.reserve_cases hr
      have happend := Fifo.Step.append b.queue
      rw [hb]
      simpa [Bus.queue, Message.entry] using Relation.ReflTransGen.single happend
  | storeHead i =>
    obtain ⟨m, hi, hs, rfl⟩ := Bus.storeHead_cases hb
    have hsame := b.map_entry_modify (fun m => { m with stage := .headed }) hi
      (by simp [Message.entry, hs])
    simp only [Bus.queue, Bus.setStage, hsame]
    exact .refl
  | write i o value =>
    obtain ⟨m, hi, hs, _, rfl⟩ := Bus.write_cases hb
    have hsame := b.map_entry_modify
      (fun m => { m with bytes := Function.update m.bytes o value }) hi
      (by simp [Message.entry, hs])
    simp only [Bus.queue, hsame]
    exact .refl
  | commit i =>
    obtain ⟨m, hi, hs, rfl⟩ := Bus.commit_cases hb
    have hempty : b.queue.entries[i]? = some none := by
      simp [Bus.queue, hi, Message.entry, hs]
    have hfill := Fifo.Step.fill b.queue i m.content hempty
    simp only [Bus.queue, Bus.setStage, map_modify_of_getElem? _ _ hi]
    exact .single hfill
  | consume =>
    obtain ⟨_, _, _, _, _, hinv⟩ := h
    exact .single (hinv.consume_refines hE hb)

theorem Bus.run_refines {regionEnd : Nat} (hE : regionEnd % 4 = 0) {b b' : Bus} {ops : List Bus.Op}
    (hfits : ∀ op ∈ ops, op.Fits regionEnd) (h : b.Ok regionEnd)
    (hrun : b.run regionEnd ops = some b') : Fifo.Steps b.queue b'.queue :=
  Runs.simulation (fun op _ _ hfit hok hstep => Ok.apply hE op hfit hok hstep)
    (fun _ _ _ hfit hok hstep => hok.refines hE hfit hstep)
    (Runs.Along.of_forall fun op hop _ => hfits op hop) h hrun

/-! ## What producers wrote -/

namespace Bus

variable {regionEnd : Nat} {b b' : Bus} {i o : Nat} {m : Message}

/-- The value a step writes to byte `o` of the payload of message `i`. -/
def Op.wrote (i o : Nat) : Op → Option UInt8
  | .write j p value => if j = i ∧ p = o then some value else none
  | _ => none

/-- The value that the last such write of a run leaves there. -/
def lastWrite (i o : Nat) : List Op → Option UInt8
  | [] => none
  | op :: ops => (lastWrite i o ops).or (op.wrote i o)

/-- The consumer changes no more of a message than its stage. -/
theorem consume_messages (h : b.consume regionEnd = some b') :
    b'.messages = b.messages ∨ ∃ stage, b'.messages = setStage b.messages b.cleared stage := by
  simp only [consume, scan] at h
  grind

/-- A step keeps the payload that a producer left, its own writes apart. -/
theorem apply_bytes {op : Op} (h : b.apply regionEnd op = some b') (hm : b.messages[i]? = some m) :
    ∃ m', b'.messages[i]? = some m' ∧ m'.bytes o = (op.wrote i o).getD (m.bytes o) := by
  cases op with
  | allocate payloadSize =>
    cases h
    rcases Bus.allocate_cases regionEnd payloadSize b with hsame | ⟨_, hr⟩
    · exact ⟨m, hsame.symm ▸ hm, rfl⟩
    · obtain ⟨_, _, _, hb⟩ := reserve_cases hr
      refine ⟨m, ?_, rfl⟩
      rw [hb]
      exact List.getElem?_append_left (List.getElem?_eq_some_iff.mp hm).1 ▸ hm
  | storeHead j =>
    obtain ⟨_, _, _, rfl⟩ := storeHead_cases h
    grind [Op.wrote, setStage]
  | write j p value =>
    obtain ⟨_, _, _, _, rfl⟩ := write_cases h
    by_cases hj : j = i
    · subst hj
      refine ⟨_, by simp [hm]; rfl, ?_⟩
      by_cases hp : p = o
      · simp [Op.wrote, hp]
      · simp [Op.wrote, hp, Function.update_of_ne (Ne.symm hp)]
    · exact ⟨m, by simp [hj, hm], by simp [Op.wrote, hj]⟩
  | commit j =>
    obtain ⟨_, _, _, rfl⟩ := commit_cases h
    grind [Op.wrote, setStage]
  | consume =>
    rcases consume_messages h with hb | ⟨stage, hb⟩
    · exact ⟨m, hb ▸ hm, rfl⟩
    · rw [hb, setStage]
      grind [Op.wrote]

theorem run_bytes {ops : List Op} (h : b.run regionEnd ops = some b')
    (hm : b.messages[i]? = some m) :
    ∃ m', b'.messages[i]? = some m' ∧ m'.bytes o = (lastWrite i o ops).getD (m.bytes o) := by
  induction ops generalizing b m with
  | nil => cases h; exact ⟨m, hm, rfl⟩
  | cons op ops ih =>
    obtain ⟨b₁, hstep, hrest⟩ := Runs.run_cons_eq_some.mp h
    obtain ⟨m₁, hm₁, hb₁⟩ := apply_bytes (o := o) hstep hm
    obtain ⟨m', hm', hb'⟩ := ih hrest hm₁
    refine ⟨m', hm', hb'.trans ?_⟩
    rw [hb₁, lastWrite]
    cases lastWrite i o ops <;> simp

/-- Nobody writes to a message before it is reserved. -/
theorem run_lastWrite {ops : List Op} {value : UInt8} (h : b.run regionEnd ops = some b')
    (hm : b'.messages[i]? = some m) (hw : lastWrite i o ops = some value) :
    m.bytes o = value := by
  induction ops generalizing b with
  | nil => cases hw
  | cons op ops ih =>
    obtain ⟨b₁, hstep, hrest⟩ := Runs.run_cons_eq_some.mp h
    cases hlater : lastWrite i o ops with
    | some v =>
      simp only [lastWrite, hlater, Option.some_or] at hw
      exact ih hrest (hlater.trans hw)
    | none =>
      simp only [lastWrite, hlater, Option.none_or] at hw
      have hsome : ∃ m₀, b.messages[i]? = some m₀ := by
        cases op <;> simp only [Op.wrote, reduceCtorEq] at hw
        obtain ⟨m₀, hi, _⟩ := write_cases hstep
        grind
      obtain ⟨m₀, hm₀⟩ := hsome
      obtain ⟨m₁, hm₁, hb₁⟩ := apply_bytes (o := o) hstep hm₀
      obtain ⟨m', hm', hb'⟩ := run_bytes (o := o) hrest hm₁
      cases hm.symm.trans hm'
      rw [hb', hlater, hb₁, hw]; rfl

end Bus

/-- A region is a first-in first-out queue with exactly-once delivery: what the consumer has been
given is a prefix of the messages in the order of their allocation, each with the bytes its
producer wrote, and an uninterrupted `read_region` passes on everything in front of the first
message that is not committed. -/
theorem region_refines_fifo {regionEnd : Nat} (hE : regionEnd % 4 = 0) (hpos : 0 < regionEnd)
    {ops : List Bus.Op} (hfits : ∀ op ∈ ops, op.Fits regionEnd) {b : Bus}
    (hrun : Bus.run regionEnd ops .init = some b) :
    Fifo.Steps Bus.init.queue b.queue ∧
    (∃ n, b.delivered = (b.messages.take n).map Message.content ∧
      ∀ m ∈ b.messages.take n, m.entry = some m.content) ∧
    (∀ i m o value, b.messages[i]? = some m → Bus.lastWrite i o ops = some value →
      m.bytes o = value) ∧
    (b.consumer = .idle → ∃ b' n,
      b.readRegion regionEnd (8 * (due (b.messages.drop b.delivered.length)).length + 5) =
        some b' ∧
      b.run regionEnd (List.replicate n .consume) = some b' ∧ b'.consumer = .idle ∧
      b'.delivered =
        b.delivered ++ (due (b.messages.drop b.delivered.length)).map Message.content) := by
  have hok := (Bus.init_ok hpos).run hE hfits hrun
  refine ⟨Bus.run_refines hE hfits (Bus.init_ok hpos) hrun, ?_,
    fun i m o value hm hw => Bus.run_lastWrite hrun hm hw, ?_⟩
  · obtain ⟨old, done, todo, batch, rest, hinv⟩ := hok
    have htake : b.messages.take (old ++ done ++ todo).length = old ++ done ++ todo := by
      rw [hinv.messages, List.append_assoc _ batch, List.take_left]
    refine ⟨(old ++ done ++ todo).length, by rw [htake]; exact hinv.delivered, ?_⟩
    rw [htake]
    exact hinv.delivered_entry
  · intro hidle
    obtain ⟨old, done, todo, batch, rest, hinv⟩ := hok
    have hholds := hinv.holds
    rw [hidle] at hholds
    obtain ⟨rfl, rfl, rfl⟩ := hholds
    have hrest : b.messages.drop b.delivered.length = rest := by
      simp [hinv.messages, hinv.delivered]
    rw [hrest]
    have hquiet : b.consumer.Quiet rest := by rw [hidle]; trivial
    obtain ⟨b', hread, hend, -, hdel⟩ := hinv.readRegion hE hquiet
      (by rw [hidle]; exact Nat.lt_succ_self _)
    obtain ⟨n, hn⟩ := Bus.readRegion_run hread
    exact ⟨b', n, hread, hn, hend, by simpa using hdel⟩

/-- Two messages committed in the wrong order, and a third one that is not committed. -/
def sampleRun : List Bus.Op :=
  [.allocate 1, .allocate 2, .allocate 1, .storeHead 1, .write 1 0 7, .write 1 1 8, .commit 1,
    .storeHead 0, .write 0 0 5, .commit 0]

theorem region_refines_fifo_sample :
    ∃ b, Bus.run 4032 sampleRun .init = some b ∧ ∃ b' n,
      b.readRegion 4032 21 = some b' ∧
      b.run 4032 (List.replicate n .consume) = some b' ∧ b'.delivered = [[5], [7, 8]] := by
  obtain ⟨b, hrun⟩ := Option.isSome_iff_exists.mp
    (show (Bus.run 4032 sampleRun .init).isSome by decide)
  have hseen : (Bus.run 4032 sampleRun .init).map (fun b =>
      (b.consumer, b.delivered, (due b.messages).map Message.content)) =
        some (.idle, [], [[5], [7, 8]]) := by decide
  rw [hrun, Option.map_some, Option.some.injEq, Prod.mk.injEq, Prod.mk.injEq] at hseen
  obtain ⟨hidle, hnone, hdue⟩ := hseen
  have hlen : (due b.messages).length = 2 := by simpa using congrArg List.length hdue
  obtain ⟨b', n, hread, hn, -, hdel⟩ :=
    (region_refines_fifo (by decide) (by decide) (by decide) hrun).2.2.2 hidle
  simp only [hnone, List.length_nil, List.drop_zero, hlen, hdue, List.nil_append] at hread hdel
  exact ⟨b, hrun, b', n, hread, hn, hdel⟩

end Deeplog.Mpsc
