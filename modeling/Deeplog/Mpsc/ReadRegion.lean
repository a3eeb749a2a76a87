import Deeplog.Mpsc.Invariant

/-!
# The consumer's steps and whole calls of `read_region`

Under the invariant the consumer is never stuck, keeps the invariant and delivers only what
comes next. A call that no producer step interrupts passes on every message in front of the
first one that is not committed, and returns.
-/

namespace Deeplog.Mpsc

/-- What the queue knows of a message: nothing until it is committed, its content from then on. -/
def Message.entry (m : Message) : Option Bytes :=
  match m.stage with
  | .reserved | .headed => none
  | .committed | .consumed | .cleared => some m.content

/-- The messages a reader finds committed before it has to stop. -/
def due (rest : List Message) : List Message := rest.takeWhile fun m => m.stage = .committed

/-- A bound for the steps left of an uninterrupted call, with `d` messages due. -/
def Consumer.cost (d : Nat) : Consumer → Nat
  | .idle => 8 * d + 4
  | .loaded _ => 8 * d + 3
  | .scanning _ _ infos => 8 * d + 5 * infos.length + 2
  | .gathered _ _ infos => 8 * d + 5 * infos.length + 1
  | .marking _ _ infos => 8 * d + 2 * infos.length + 3
  | .clearing _ _ _ infos => 8 * d + 2 * infos.length + 4

/-- Behind the inner loop, a batch that is not full ends where nothing more is due. -/
def Consumer.Quiet (rest : List Message) : Consumer → Prop
  | .gathered _ _ infos => infos.length < consumeBatchSize → due rest = []
  | _ => True

/-- The step from `b` to `b'`, for the cuts of the messages before and after. -/
structure Advance (regionEnd : Nat) (b b' : Bus) (batch rest batch' rest' : List Message) :
    Prop where
  step : b.consume regionEnd = some b'
  entries : b'.messages.map Message.entry = b.messages.map Message.entry
  grows : b.delivered <+: b'.delivered
  pass_on : b'.delivered ++ (batch' ++ due rest').map Message.content =
    b.delivered ++ (batch ++ due rest).map Message.content
  quiet : b.consumer.Quiet rest → b'.consumer.Quiet rest' ∧
    (b'.consumer = .idle ∧ due rest' = [] ∨
      b'.consumer ≠ .idle ∧
        b'.consumer.cost (due rest').length < b.consumer.cost (due rest).length)

namespace Inv

variable {regionEnd : Nat} {b : Bus} {old done todo batch rest : List Message}

/-- The position behind messages of the region is a header position. -/
theorem behind_aligned (h : Inv regionEnd b old done [] [] rest) {pos : Nat}
    (hpos : Behind regionEnd b.region.readPtr done pos) : pos % 4 = 0 := by
  have hpool : Pool regionEnd b.region (done ++ rest) := by simpa using h.pool
  cases rest with
  | nil =>
    have halloc := hpool.alloc_aligned
    rw [List.append_nil] at hpool
    rwa [← hpos.stop_unique hpool.chain] at halloc
  | cons m rest =>
    rw [hpool.next_ctrl hpos]
    exact (hpool.placed m (by simp)).aligned

/-- The scope guard stores the read hand behind everything that was cleared. -/
theorem release (h : Inv regionEnd b old done [] [] rest) {pos : Nat}
    (hpos : Behind regionEnd b.region.readPtr done pos) :
    Inv regionEnd { b with
        region := { b.region with readPtr := pos }
        consumer := .idle
        released := b.cleared } (old ++ done) [] [] [] rest where
  messages := by simp [h.messages]
  released := by simp [h.cleared]
  cleared := by simp [h.cleared]
  delivered := by simp [h.delivered]
  old_cleared := by simpa using h.old_cleared
  batch_committed := by simp
  rest_open := h.rest_open
  pool := by
    have hpool : Pool regionEnd b.region (done ++ rest) := by simpa using h.pool
    simpa using hpool.release hpos (h.behind_aligned hpos)
      fun m hm => h.old_cleared m (by simp [hm])
  holds := ⟨rfl, rfl, rfl⟩

/-- With nothing cleared in this call the read hand has not moved. -/
theorem done_eq_nil (h : Inv regionEnd b old done [] [] rest)
    (hpos : Behind regionEnd b.region.readPtr done b.region.readPtr) : done = [] := by
  have hroom := h.pool.room
  simp only [List.append_nil, List.map_append, Ring.used_append] at hroom
  by_contra hne
  exact hpos.ne_of_ne_nil h.pool.read_lt (by omega) (by simpa using hne) rfl

theorem step_idle (h : Inv regionEnd b old done todo batch rest) (hc : b.consumer = .idle) :
    ∃ b' old' done' todo' batch' rest', Inv regionEnd b' old' done' todo' batch' rest' ∧
      Advance regionEnd b b' batch rest batch' rest' := by
  have hholds := h.holds
  rw [hc] at hholds
  refine ⟨{ b with consumer := .loaded b.region.readPtr }, old, done, todo, batch, rest,
    h.with_consumer ⟨rfl, hholds⟩, ?_, rfl, List.prefix_rfl, rfl, fun _ =>
      ⟨trivial, .inr ⟨nofun, ?_⟩⟩⟩
  · simp [Bus.consume, hc]
  · simp [hc, Consumer.cost]

theorem step_loaded (h : Inv regionEnd b old done todo batch rest) {orig : Nat}
    (hc : b.consumer = .loaded orig) :
    ∃ b' old' done' todo' batch' rest', Inv regionEnd b' old' done' todo' batch' rest' ∧
      Advance regionEnd b b' batch rest batch' rest' := by
  have hholds := h.holds
  rw [hc] at hholds
  obtain ⟨rfl, rfl, rfl, rfl⟩ := hholds
  by_cases halloc : b.region.allocPtr = b.region.readPtr
  · have hrest : rest = [] := by
      have hpool : Pool regionEnd b.region rest := by simpa using h.pool
      have hchain := hpool.chain
      rw [halloc] at hchain
      by_contra hne
      exact hchain.ne_of_ne_nil hpool.read_lt hpool.room (by simpa using hne) rfl
    refine ⟨{ b with consumer := .idle }, old, [], [], [], rest,
      h.with_consumer ⟨rfl, rfl, rfl⟩, ?_, rfl, List.prefix_rfl, rfl,
      fun _ => ⟨trivial, .inl ⟨rfl, by simp [hrest, due]⟩⟩⟩
    simp [Bus.consume, hc, halloc]
  · refine ⟨{ b with consumer := .scanning b.region.readPtr b.region.readPtr [] }, old, [], [], [],
      rest, h.with_consumer ⟨rfl, rfl, rfl, rfl⟩, ?_, rfl, List.prefix_rfl, rfl,
      fun _ => ⟨trivial, .inr ⟨nofun, ?_⟩⟩⟩
    · simp [Bus.consume, hc, halloc]
    · simp [hc, Consumer.cost]

theorem step_scanning (hE : regionEnd % 4 = 0) (h : Inv regionEnd b old done todo batch rest)
    {orig pos : Nat} {infos : List Info} (hc : b.consumer = .scanning orig pos infos) :
    ∃ b' old' done' todo' batch' rest', Inv regionEnd b' old' done' todo' batch' rest' ∧
      Advance regionEnd b b' batch rest batch' rest' := by
  have hholds := h.holds
  rw [hc] at hholds
  obtain ⟨horig, rfl, rfl, hpos⟩ := hholds
  by_cases hfull : (batch.map Message.info).length < consumeBatchSize
  · have hstep : b.consume regionEnd = b.scan regionEnd orig pos (batch.map Message.info) := by
      simp only [Bus.consume, hc, if_pos hfull]
    by_cases hnext : ∀ m ∈ rest.head?, m.stage ≠ .committed
    · -- the header is locked: nothing is due
      have hdue : due rest = [] := by
        cases rest with
        | nil => rfl
        | cons m rest => simp [due, hnext m (by simp)]
      exact ⟨{ b with consumer := .gathered orig pos (batch.map Message.info) }, old, done, [],
        batch, rest, h.with_consumer ⟨horig, rfl, rfl, hpos⟩,
        hstep.trans (h.scan_locked hE hpos hnext orig), rfl, List.prefix_rfl, rfl,
        fun _ => ⟨fun _ => hdue, .inr ⟨nofun, by simp [hc, Consumer.cost]⟩⟩⟩
    · obtain ⟨m, hm, hcom⟩ : ∃ m ∈ rest.head?, m.stage = .committed := by simpa using hnext
      obtain ⟨rest, rfl⟩ : ∃ rest', rest = m :: rest' := by
        cases rest with
        | nil => simp at hm
        | cons n rest => cases hm; exact ⟨rest, rfl⟩
      obtain ⟨hscan, hbehind⟩ := h.scan_committed hE hpos hcom orig (batch.map Message.info)
      have hdue : due (m :: rest) = m :: due rest := by simp [due, hcom]
      refine ⟨{ b with
          consumer := .scanning orig (nextPos regionEnd pos m.allocSize)
            (batch.map Message.info ++ [m.info]) }, old, done, [], batch ++ [m], rest,
        h.gather hcom ⟨horig, rfl, by simp, hbehind⟩, hstep.trans hscan, rfl, List.prefix_rfl,
        by simp [hdue], fun _ => ⟨trivial, .inr ⟨nofun, ?_⟩⟩⟩
      simp only [hc, hdue, Consumer.cost, List.length_append, List.length_map, List.length_cons,
        List.length_nil]
      omega
  · refine ⟨{ b with consumer := .gathered orig pos (batch.map Message.info) }, old, done, [],
      batch, rest, h.with_consumer ⟨horig, rfl, rfl, hpos⟩, ?_, rfl, List.prefix_rfl, rfl,
      fun _ => ⟨fun hlt => absurd hlt hfull, .inr ⟨nofun, ?_⟩⟩⟩
    · simp only [Bus.consume, hc, if_neg hfull]
    · simp [hc, Consumer.cost]

theorem step_gathered (h : Inv regionEnd b old done todo batch rest)
    {orig pos : Nat} {infos : List Info} (hc : b.consumer = .gathered orig pos infos) :
    ∃ b' old' done' todo' batch' rest', Inv regionEnd b' old' done' todo' batch' rest' ∧
      Advance regionEnd b b' batch rest batch' rest' := by
  have hholds := h.holds
  rw [hc] at hholds
  obtain ⟨rfl, rfl, rfl, hpos⟩ := hholds
  cases batch with
  | nil =>
    rw [List.append_nil] at hpos
    have hquiet : b.consumer.Quiet rest → due rest = [] := by
      rw [hc]; exact fun hq => hq (by decide)
    by_cases hmoved : pos = b.region.readPtr
    · obtain rfl := h.done_eq_nil (hmoved ▸ hpos)
      refine ⟨{ b with consumer := .idle }, old, [], [], [], rest,
        h.with_consumer ⟨rfl, rfl, rfl⟩, ?_, rfl, List.prefix_rfl, rfl,
        fun hq => ⟨trivial, .inl ⟨rfl, hquiet hq⟩⟩⟩
      simp [Bus.consume, hc, hmoved]
    · refine ⟨_, old ++ done, [], [], [], rest, h.release hpos, ?_, rfl, List.prefix_rfl, rfl,
        fun hq => ⟨trivial, .inl ⟨rfl, hquiet hq⟩⟩⟩
      simp [Bus.consume, hc, hmoved]
  | cons m batch =>
    refine ⟨_, old, done, m :: batch, [], rest, h.deliver rfl hpos, ?_, rfl,
      List.prefix_append .., by simp, fun _ => ⟨trivial, .inr ⟨nofun, ?_⟩⟩⟩
    · have hcontent := h.batch_content
      simp only [List.map_map] at hcontent
      simp [Bus.consume, hc, ← hcontent]
    · simp [hc, Consumer.cost]; omega

/-- Setting the stage of the message that is being handed back. -/
theorem entry_setStage {m : Message} {tail : List Message}
    (h : Inv regionEnd b old done (m :: tail) batch rest) {stage : Stage}
    (hm : m.stage = .committed ∨ m.stage = .consumed)
    (hs : stage = .consumed ∨ stage = .cleared) :
    (Bus.setStage b.messages b.cleared stage).map Message.entry =
      b.messages.map Message.entry := by
  have hms : b.messages = (old ++ done) ++ m :: (tail ++ batch ++ rest) := by simp [h.messages]
  have hlen : b.cleared = (old ++ done).length := by simp [h.cleared]
  rw [Bus.setStage, hms, hlen, modify_length]
  have hentry : Message.entry { m with stage := stage } = m.entry := by
    rcases hm with hm | hm <;> rcases hs with rfl | rfl <;>
      simp [Message.entry, Message.content, hm]
  simp [hentry]

theorem step_marking (hE : regionEnd % 4 = 0) (h : Inv regionEnd b old done todo batch rest)
    {orig pos : Nat} {infos : List Info} (hc : b.consumer = .marking orig pos infos) :
    ∃ b' old' done' todo' batch' rest', Inv regionEnd b' old' done' todo' batch' rest' ∧
      Advance regionEnd b b' batch rest batch' rest' := by
  have hholds := h.holds
  rw [hc] at hholds
  obtain ⟨horig, rfl, rfl, hcom, hpos⟩ := hholds
  cases todo with
  | nil =>
    refine ⟨{ b with consumer := .scanning orig pos [] }, old, done, [], [], rest,
      h.with_consumer ⟨horig, rfl, rfl, by simpa using hpos⟩, ?_, rfl, List.prefix_rfl, rfl,
      fun _ => ⟨trivial, .inr ⟨nofun, ?_⟩⟩⟩
    · simp [Bus.consume, hc]
    · simp [hc, Consumer.cost]
  | cons m tail =>
    have hm := hcom m (by simp)
    refine ⟨_, old, done, _, [], rest,
      h.mark hE horig hm (fun n hn => hcom n (by simp [hn])) hpos, ?_,
      h.entry_setStage (.inl hm) (.inl rfl), List.prefix_rfl, rfl, fun _ =>
        ⟨trivial, .inr ⟨nofun, ?_⟩⟩⟩
    · simp [Bus.consume, hc, Message.info]
    · simp [hc, Consumer.cost]; omega

theorem step_clearing (hE : regionEnd % 4 = 0) (h : Inv regionEnd b old done todo batch rest)
    {orig pos : Nat} {info : Info} {infos : List Info}
    (hc : b.consumer = .clearing orig pos info infos) :
    ∃ b' old' done' todo' batch' rest', Inv regionEnd b' old' done' todo' batch' rest' ∧
      Advance regionEnd b b' batch rest batch' rest' := by
  have hholds := h.holds
  rw [hc] at hholds
  obtain ⟨horig, rfl, m, tail, rfl, hm, rfl, rfl, hcom, hpos⟩ := hholds
  have hclear := h.clear hE horig hm hcom hpos
  refine ⟨_, old, _, tail, [], rest, hclear, ?_, h.entry_setStage (.inr hm) (.inr rfl),
    List.prefix_rfl, rfl, fun _ => ⟨trivial, .inr ⟨nofun, ?_⟩⟩⟩
  · simp [Bus.consume, hc, Message.info]
  · simp [hc, Consumer.cost]

/-- The consumer always has a step, and every step advances it. -/
theorem consume_step (hE : regionEnd % 4 = 0) (h : Inv regionEnd b old done todo batch rest) :
    ∃ b' old' done' todo' batch' rest', Inv regionEnd b' old' done' todo' batch' rest' ∧
      Advance regionEnd b b' batch rest batch' rest' := by
  cases hc : b.consumer with
  | idle => exact h.step_idle hc
  | loaded => exact h.step_loaded hc
  | scanning => exact h.step_scanning hE hc
  | gathered => exact h.step_gathered hc
  | marking => exact h.step_marking hE hc
  | clearing => exact h.step_clearing hE hc

end Inv

/-! ## Runs -/

namespace Bus

variable {regionEnd : Nat} {b b' : Bus}

/-- Every step keeps the invariant. -/
theorem Ok.apply (hE : regionEnd % 4 = 0) (op : Op) (hfits : op.Fits regionEnd)
    (h : b.Ok regionEnd) (hb : b.apply regionEnd op = some b') : b'.Ok regionEnd := by
  obtain ⟨old, done, todo, batch, rest, hinv⟩ := h
  cases op with
  | allocate payloadSize =>
    cases hb
    rcases Bus.allocate_cases regionEnd payloadSize b with hsame | ⟨hsize, hr⟩
    · rw [hsame]; exact ⟨_, _, _, _, _, hinv⟩
    · obtain ⟨_, _, hp, _⟩ := Bus.reserve_cases hr
      obtain ⟨m, hm⟩ := hinv.reserve hE hsize hfits hinv.pool.read_lt (by simp [hp]) hr
      exact ⟨_, _, _, _, _, hm⟩
  | storeHead i =>
    obtain ⟨rest', hinv'⟩ := hinv.storeHead hE hb
    exact ⟨_, _, _, _, _, hinv'⟩
  | write i o value =>
    obtain ⟨rest', hinv'⟩ := hinv.write hE hb
    exact ⟨_, _, _, _, _, hinv'⟩
  | commit i =>
    obtain ⟨rest', hinv'⟩ := hinv.commit hE hb
    exact ⟨_, _, _, _, _, hinv'⟩
  | consume =>
    obtain ⟨b₁, _, _, _, _, _, hinv', hadv⟩ := hinv.consume_step hE
    cases hadv.step.symm.trans hb
    exact ⟨_, _, _, _, _, hinv'⟩

theorem Ok.run (hE : regionEnd % 4 = 0) {ops : List Op} (hfits : ∀ op ∈ ops, op.Fits regionEnd)
    (h : b.Ok regionEnd) (hrun : b.run regionEnd ops = some b') : b'.Ok regionEnd :=
  Runs.invariant (fun op _ _ hfit hok hstep => Ok.apply hE op hfit hok hstep)
    (Runs.Along.of_forall fun op hop _ => hfits op hop) h hrun

/-- A call of `read_region` that no producer step interrupts, in at most `fuel` steps. -/
def readRegion (regionEnd : Nat) : Nat → Bus → Option Bus
  | 0, _ => none
  | fuel + 1, b => (b.consume regionEnd).bind fun b' =>
    match b'.consumer with
    | .idle => some b'
    | _ => readRegion regionEnd fuel b'

/-- An uninterrupted call is a run of consumer steps. -/
theorem readRegion_run {fuel : Nat} (h : b.readRegion regionEnd fuel = some b') :
    ∃ n, b.run regionEnd (List.replicate n .consume) = some b' := by
  induction fuel generalizing b with
  | zero => cases h
  | succ fuel ih =>
    obtain ⟨b₁, hstep, hrest⟩ := Option.bind_eq_some_iff.mp h
    split at hrest
    · cases hrest
      exact ⟨1, Runs.run_cons_eq_some.mpr ⟨_, hstep, rfl⟩⟩
    · obtain ⟨n, hn⟩ := ih hrest
      exact ⟨n + 1, Runs.run_cons_eq_some.mpr ⟨_, hstep, hn⟩⟩

end Bus

/-- An uninterrupted call passes on what is due and returns. -/
theorem Inv.readRegion {regionEnd : Nat} (hE : regionEnd % 4 = 0) {fuel : Nat} {b : Bus}
    {old done todo batch rest : List Message} (h : Inv regionEnd b old done todo batch rest)
    (hquiet : b.consumer.Quiet rest) (hfuel : b.consumer.cost (due rest).length < fuel) :
    ∃ b', b.readRegion regionEnd fuel = some b' ∧ b'.consumer = .idle ∧ b'.Ok regionEnd ∧
      b'.delivered = b.delivered ++ (batch ++ due rest).map Message.content := by
  induction fuel generalizing b old done todo batch rest with
  | zero => omega
  | succ fuel ih =>
    obtain ⟨b₁, old', done', todo', batch', rest', hinv, hadv⟩ := h.consume_step hE
    obtain ⟨hq, hidle | hgo⟩ := hadv.quiet hquiet
    · refine ⟨b₁, ?_, hidle.1, ⟨_, _, _, _, _, hinv⟩, ?_⟩
      · simp only [Bus.readRegion, hadv.step, Option.bind_some, hidle.1]
      · have hholds := hinv.holds
        rw [hidle.1] at hholds
        have hpass := hadv.pass_on
        rw [hholds.2.2, hidle.2] at hpass
        simpa using hpass
    · obtain ⟨b₂, hread, hend, hok, hdel⟩ := ih hinv hq (by omega)
      refine ⟨b₂, ?_, hend, hok, hdel.trans hadv.pass_on⟩
      simp only [Bus.readRegion, hadv.step, Option.bind_some]
      split
      · exact absurd ‹_› hgo.1
      · exact hread

end Deeplog.Mpsc
