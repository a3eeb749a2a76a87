import Deeplog.Threads.Steps

/-!
# A thread that nobody interrupts

Left alone, a thread that is at a region with room loads both hands, succeeds with its exchange,
stores the header, writes its message and commits it, in as many steps as that takes.
-/

namespace Deeplog.Threads

open Cbor (Bytes)
open Codec (Sent SpanPrimitives Kind)
open Mpsc (Handle WholeBus Shared Access Producer Message maxMessageSize allocSizeOf)

/-! ## A thread on its own -/

section Alone

variable {dp : SpanPrimitives} {knownTypes : Nat → Option Kind} {partly : Bytes → Nat → Nat}
  {self : Handle} {file : File} {s s' : System} {which p : Nat} {m : Sent} {t t' : Shared}

/-- What a thread leaves behind that makes its next `k` accesses on its own. -/
structure Leaves (dp : SpanPrimitives) (partly : Bytes → Nat → Nat) (bus : Handle) (file : File)
    (p k : Nat) (s s' : System) : Prop where
  run : s.run dp partly bus (List.replicate k (.next p false)) = some s'
  fresh : Runs.Along (System.step dp partly bus) (Op.Fresh dp partly bus)
    (List.replicate k (.next p false)) s
  sound : WholeBus.Sound bus file s'.bus
  reading : s'.bus.reading = s.bus.reading
  others : ∀ q, q ≠ p → s'.threads q = s.threads q ∧
    ∀ which, s'.producers which q = s.producers which q

theorem Leaves.trans {k k' : Nat} {s'' : System} (h : Leaves dp partly self file p k s s')
    (h' : Leaves dp partly self file p k' s' s'') :
    Leaves dp partly self file p (k + k') s s'' where
  run := by
    rw [List.replicate_add]
    exact (Runs.run_append h.run).trans h'.run
  fresh := by
    rw [List.replicate_add]
    exact h.fresh.trans h.run h'.fresh
  sound := h'.sound
  reading := h'.reading.trans h.reading
  others q hq := ⟨(h'.others q hq).1.trans (h.others q hq).1,
    fun which => ((h'.others q hq).2 which).trans ((h.others q hq).2 which)⟩

variable (hfit : WholeBus.Fit self file) (hsound : WholeBus.Sound self file s.bus)
  (hwhich : which < self.numRegions.toNat)
include hfit hsound hwhich

/-- One access. -/
theorem advance_alone {thread : Thread} {access : Access} (hthread : s.threads p = thread)
    (hnext : thread.next dp partly p false s.producers = some (which, access))
    (hproducer : access.OfProducer)
    (ht : (s.bus.shared self which).step self.regionEnd access = some t)
    (hfresh : access.Fresh self.regionEnd (s.bus.shared self which))
    (hothers : ∀ q, q ≠ p → t.producers q = s.producers which q) :
    ∃ s', Leaves dp partly self file p 1 s s' ∧ s'.bus.shared self which = t ∧
      s'.threads p = thread.behind dp partly self.numRegions.toNat (s.producers which p)
        (t.producers p) ∧
      s'.sent = Function.update s.sent which
        (s.sent which ++ thread.reserved (s.producers which p) (t.producers p)) := by
  have hbus : s.bus.step self (.access which access) = some (s.bus.put self which t) := by
    simp only [WholeBus.step, if_pos (And.intro hwhich hproducer), ht, Option.map_some]
  have hgo : s.step dp partly self (.next p false) = some (({ s with
      bus := s.bus.put self which t
      sent := Function.update s.sent which
        (s.sent which ++ thread.reserved (s.producers which p) (t.producers p)) } : System).enter p
        (thread.behind dp partly self.numRegions.toNat (s.producers which p) (t.producers p))) := by
    simp only [System.step, System.advance, hthread, hnext, Option.bind_some, hbus,
      Option.map_some, WholeBus.put, Function.update_self]
  refine ⟨_, ⟨Runs.run_cons_eq_some.mpr ⟨_, hgo, rfl⟩, ⟨?_, fun _ _ => trivial⟩,
    hsound.step hfit hbus, rfl, fun q hq => ⟨Function.update_of_ne hq .., fun other => ?_⟩⟩, ?_,
    Function.update_self .., rfl⟩
  · intro op hop
    simp only [System.onBus, hthread, hnext, Option.map_some] at hop
    cases hop
    exact hfresh
  · by_cases hne : other = which
    · subst hne
      simpa [System.enter, System.producers, WholeBus.put] using hothers q hq
    · simp [System.enter, System.producers, WholeBus.put, Function.update_of_ne hne]
  · have hconfined := (hsound.confined which hwhich).step hfit.aligned hfit.room ht
    exact WholeBus.shared_put (by have := hfit.room; omega) hconfined

/-- A message is written and committed. -/
theorem write_alone {i o k : Nat} {message : Message} (hthread : s.threads p = .writing m which i o)
    (hidle : s.producers which p = .idle)
    (hmessage : (s.bus.shared self which).bus.messages[i]? = some message)
    (hstage : message.stage = .headed) (hfits : (stored dp partly m).length ≤ message.allocSize)
    (hk : o + k = (stored dp partly m).length) :
    ∃ s', Leaves dp partly self file p (k + 1) s s' ∧ s'.threads p = .idle ∧ s'.sent = s.sent ∧
      s'.producers which p = .idle := by
  induction k generalizing s o message with
  | zero =>
    have hnone : (stored dp partly m)[o]? = none := List.getElem?_eq_none (by omega)
    obtain ⟨b, hb⟩ : ∃ b, (s.bus.shared self which).bus.commit i = some b := by
      simp only [Mpsc.Bus.commit, hmessage, hstage, if_true, Option.some.injEq, exists_eq']
    have hcommit : (s.bus.shared self which).step self.regionEnd (.commit i) =
        some { s.bus.shared self which with bus := b } := by
      rw [Shared.step, hb, Option.map_some]
    have hnext : (Thread.writing m which i o).next dp partly p false s.producers =
        some (which, .commit i) := by rw [Thread.next, hnone]
    obtain ⟨s', hleaves, hshared, hbehind, hsent⟩ := advance_alone hfit hsound hwhich hthread
      hnext trivial hcommit trivial (fun _ _ => rfl)
    refine ⟨s', hleaves, ?_, ?_, ?_⟩
    · rw [hbehind, Thread.behind, if_neg (by omega)]
    · rw [hsent, Thread.reserved, List.append_nil, Function.update_eq_self]
    · exact (congrArg (fun t : Shared => t.producers p) hshared).trans hidle
  | succ k ih =>
    have hlt : o < (stored dp partly m).length := by omega
    have hvalue := List.getElem?_eq_getElem hlt
    obtain ⟨b, hb⟩ : ∃ b, (s.bus.shared self which).bus.write i o (stored dp partly m)[o] =
        some b := by
      have hin : message.stage = .headed ∧ o < message.allocSize := ⟨hstage, by omega⟩
      simp only [Mpsc.Bus.write, hmessage, if_pos hin, Option.some.injEq, exists_eq']
    have hwrite : (s.bus.shared self which).step self.regionEnd
        (.write i o (stored dp partly m)[o]) = some { s.bus.shared self which with bus := b } := by
      rw [Shared.step, hb, Option.map_some]
    have hnext : (Thread.writing m which i o).next dp partly p false s.producers =
        some (which, .write i o (stored dp partly m)[o]) := by rw [Thread.next, hvalue]
    obtain ⟨s₁, hleaves, hshared, hbehind, hsent⟩ := advance_alone hfit hsound hwhich hthread
      hnext trivial hwrite trivial (fun _ _ => rfl)
    obtain ⟨message', hmessage', -, -, rfl⟩ := Mpsc.Bus.write_cases hb
    cases hmessage.symm.trans hmessage'
    have hmessage₁ : (s₁.bus.shared self which).bus.messages[i]? = some
        { message with bytes := Function.update message.bytes o (stored dp partly m)[o] } := by
      rw [hshared]
      simp [hmessage]
    obtain ⟨s', hrest, hthread', hsent', hidle'⟩ := ih hleaves.sound
      (by rw [hbehind, Thread.behind, if_pos hlt])
      ((congrArg (fun t : Shared => t.producers p) hshared).trans hidle) hmessage₁ hstage hfits
      (by omega)
    refine ⟨s', ?_, hthread', ?_, hidle'⟩
    · have hall := hleaves.trans hrest
      rwa [Nat.add_comm] at hall
    · rw [hsent', hsent, Thread.reserved, List.append_nil, Function.update_eq_self]

/-- One access inside of `allocate`. -/
theorem allocate_alone {first : Nat} {c : Producer} {access : Access}
    (hthread : s.threads p = .allocating m first which)
    (hnext : (Thread.allocating m first which).next dp partly p false s.producers =
      some (which, access)) (hproducer : access.OfProducer)
    (ht : (s.bus.shared self which).step self.regionEnd access =
      some ((s.bus.shared self which).enter p c))
    (hfresh : access.Fresh self.regionEnd (s.bus.shared self which)) :
    ∃ s', Leaves dp partly self file p 1 s s' ∧
      s'.bus.shared self which = (s.bus.shared self which).enter p c ∧
      s'.producers which p = c ∧
      s'.threads p = (Thread.allocating m first which).behind dp partly self.numRegions.toNat
        (s.producers which p) c ∧
      s'.sent = Function.update s.sent which
        (s.sent which ++ (Thread.allocating m first which).reserved (s.producers which p) c) := by
  obtain ⟨s', hleaves, hshared, hbehind, hsent⟩ := advance_alone hfit hsound hwhich hthread hnext
    hproducer ht hfresh (fun q hq => Function.update_of_ne hq ..)
  have hself : ((s.bus.shared self which).enter p c).producers p = c := Function.update_self ..
  rw [hself] at hbehind hsent
  exact ⟨s', hleaves, hshared, (congrArg (fun t : Shared => t.producers p) hshared).trans hself,
    hbehind, hsent⟩

variable (partly) in
/-- Both hands are loaded. -/
theorem loads_alone {first : Nat} (hthread : s.threads p = .allocating m first which)
    (hidle : s.producers which p = .idle) (hsize : m.msgSize dp ≤ maxMessageSize) :
    ∃ s', Leaves dp partly self file p 2 s s' ∧
      (s'.bus.shared self which).bus = (s.bus.shared self which).bus ∧
      s'.producers which p = .allocLoaded (m.msgSize dp)
        (s.bus.shared self which).bus.region.readPtr
        (s.bus.shared self which).bus.region.allocPtr ∧
      s'.threads p = .allocating m first which ∧ s'.sent = s.sent := by
  have hload : (s.bus.shared self which).step self.regionEnd (.loadRead p (m.msgSize dp)) =
      some ((s.bus.shared self which).enter p
        (.readLoaded (m.msgSize dp) (s.bus.shared self which).bus.region.readPtr)) := by
    have hproducer : (s.bus.shared self which).producers p = .idle := hidle
    rw [Shared.step, hproducer]
    exact if_neg (Nat.not_lt.mpr hsize)
  have hnext : (Thread.allocating m first which).next dp partly p false s.producers =
      some (which, .loadRead p (m.msgSize dp)) := by rw [Thread.next, hidle]
  obtain ⟨s₁, hleaves₁, hshared₁, hproducer₁, hthread₁, hsent₁⟩ :=
    allocate_alone hfit hsound hwhich hthread hnext trivial hload trivial
  rw [hidle] at hthread₁ hsent₁
  have hloadAlloc : (s₁.bus.shared self which).step self.regionEnd (.loadAlloc p) = some
      ((s₁.bus.shared self which).enter p (.allocLoaded (m.msgSize dp)
        (s.bus.shared self which).bus.region.readPtr
        (s.bus.shared self which).bus.region.allocPtr)) := by
    have hproducer : (s₁.bus.shared self which).producers p = _ := hproducer₁
    rw [Shared.step, hproducer, hshared₁]
    rfl
  have hnext₁ : (Thread.allocating m first which).next dp partly p false s₁.producers =
      some (which, .loadAlloc p) := by rw [Thread.next, hproducer₁]
  obtain ⟨s₂, hleaves₂, hshared₂, hproducer₂, hthread₂, hsent₂⟩ :=
    allocate_alone hfit hleaves₁.sound hwhich hthread₁ hnext₁ trivial hloadAlloc trivial
  rw [hproducer₁] at hthread₂ hsent₂
  refine ⟨s₂, hleaves₁.trans hleaves₂, ?_, hproducer₂, hthread₂, ?_⟩
  · rw [hshared₂, hshared₁]
    rfl
  · simp only [Thread.reserved, List.append_nil, Function.update_eq_self] at hsent₁ hsent₂
    rw [hsent₂, hsent₁]

variable (partly) in
/-- The exchange succeeds, and the header is stored. -/
theorem exchange_alone {first readHand allocHand : Nat} {b : Mpsc.Bus}
    (hthread : s.threads p = .allocating m first which)
    (hproducer : s.producers which p = .allocLoaded (m.msgSize dp) readHand allocHand)
    (hread : (s.bus.shared self which).bus.region.readPtr = readHand)
    (halloc : (s.bus.shared self which).bus.region.allocPtr = allocHand)
    (hb : (s.bus.shared self which).bus.reserve self.regionEnd readHand (m.msgSize dp) = some b) :
    ∃ s', Leaves dp partly self file p 2 s s' ∧ s'.producers which p = .idle ∧
      s'.threads p = .writing m which (s.bus.shared self which).bus.messages.length 0 ∧
      s'.sent = Function.update s.sent which (s.sent which ++ [m]) ∧ ∃ message : Message,
        (s'.bus.shared self which).bus.messages[(s.bus.shared self which).bus.messages.length]? =
          some message ∧ message.stage = .headed ∧ message.size = m.msgSize dp := by
  obtain ⟨pos, stop, hplace, hb'⟩ := Mpsc.Bus.reserve_cases hb
  have hproducer' : (s.bus.shared self which).producers p =
      .allocLoaded (m.msgSize dp) readHand allocHand := hproducer
  have hexchange : (s.bus.shared self which).step self.regionEnd (.exchange p false) = some
      (({ s.bus.shared self which with bus := b } : Shared).enter p
        (.exchanged (s.bus.shared self which).bus.messages.length)) := by
    rw [halloc] at hplace
    rw [Shared.step, hproducer']
    simp only [hplace, halloc, and_self, if_true, hb, Option.map_some]
  have hnext : (Thread.allocating m first which).next dp partly p false s.producers =
      some (which, .exchange p false) := by rw [Thread.next, hproducer]
  have hfresh : (Access.exchange p false).Fresh self.regionEnd (s.bus.shared self which) := by
    simp only [Access.Fresh, hproducer', Producer.RoomLeft, hread]
    exact fun _ => id
  obtain ⟨s₁, hleaves₁, hshared₁, hthread₁, hsent₁⟩ := advance_alone hfit hsound hwhich
    hthread hnext trivial hexchange hfresh (fun q hq => Function.update_of_ne hq ..)
  have hexchanged : (({ s.bus.shared self which with bus := b } : Shared).enter p
      (.exchanged (s.bus.shared self which).bus.messages.length)).producers p =
      .exchanged (s.bus.shared self which).bus.messages.length := Function.update_self ..
  rw [hproducer, hexchanged] at hthread₁ hsent₁
  have hproducer₁ : (s₁.bus.shared self which).producers p = _ :=
    (congrArg (fun t : Shared => t.producers p) hshared₁).trans hexchanged
  -- the header
  obtain ⟨message, hmessage, hstage, hsize⟩ : ∃ message,
      (s₁.bus.shared self which).bus.messages[(s.bus.shared self which).bus.messages.length]? =
        some message ∧ message.stage = .reserved ∧ message.size = m.msgSize dp := by
    rw [hshared₁, hb']
    simp [Shared.enter]
  obtain ⟨b₁, hb₁⟩ : ∃ b₁, (s₁.bus.shared self which).bus.storeHead
      (s.bus.shared self which).bus.messages.length = some b₁ := by
    simp only [Mpsc.Bus.storeHead, hmessage, hstage, if_true, Option.some.injEq, exists_eq']
  have hstoreHead : (s₁.bus.shared self which).step self.regionEnd (.storeHead p) = some
      (({ s₁.bus.shared self which with bus := b₁ } : Shared).enter p .idle) := by
    rw [Shared.step, hproducer₁]
    simp only [hb₁, Option.map_some]
  have hnext₁ : (Thread.allocating m first which).next dp partly p false s₁.producers =
      some (which, .storeHead p) := by
    have hproducers : s₁.producers which p = _ := hproducer₁
    rw [Thread.next, hproducers]
  obtain ⟨s₂, hleaves₂, hshared₂, hthread₂, hsent₂⟩ := advance_alone hfit hleaves₁.sound hwhich
    hthread₁ hnext₁ trivial hstoreHead trivial (fun q hq => Function.update_of_ne hq ..)
  have hproducers₁ : s₁.producers which p = _ := hproducer₁
  rw [hproducers₁] at hthread₂ hsent₂
  obtain ⟨message', hmessage', -, rfl⟩ := Mpsc.Bus.storeHead_cases hb₁
  cases hmessage.symm.trans hmessage'
  refine ⟨s₂, hleaves₁.trans hleaves₂, ?_, hthread₂, ?_, { message with stage := .headed }, ?_, rfl,
    hsize⟩
  · exact (congrArg (fun t : Shared => t.producers p) hshared₂).trans (Function.update_self ..)
  · rw [hsent₂, hsent₁]
    simp [Thread.reserved, Thread.behind]
  · rw [hshared₂]
    simp [Shared.enter, Mpsc.Bus.setStage, hmessage]

variable (partly) in
/-- A thread that comes to a region with room, and that nobody interrupts, puts its message on the
bus. -/
theorem send_alone {first : Nat} {pos : Nat × Nat}
    (hthread : s.threads p = .allocating m first which) (hidle : s.producers which p = .idle)
    (hm : Sendable dp knownTypes m)
    (hroom : Mpsc.place self.regionEnd (s.bus.shared self which).bus.region.readPtr
      (s.bus.shared self which).bus.region.allocPtr (allocSizeOf (m.msgSize dp)) = some pos) :
    ∃ s', Leaves dp partly self file p ((m.bytes dp).length + 5) s s' ∧ s'.threads p = .idle ∧
      s'.sent = Function.update s.sent which (s.sent which ++ [m]) ∧
      s'.producers which p = .idle := by
  obtain ⟨s₁, hleaves₁, hbus₁, hproducer₁, hthread₁, hsent₁⟩ :=
    loads_alone partly hfit hsound hwhich hthread hidle hm.size
  obtain ⟨b, hb⟩ : ∃ b, (s₁.bus.shared self which).bus.reserve self.regionEnd
      (s.bus.shared self which).bus.region.readPtr (m.msgSize dp) = some b := by
    simp only [hbus₁, Mpsc.Bus.reserve, hroom, Option.some.injEq, exists_eq']
  obtain ⟨s₂, hleaves₂, hproducer₂, hthread₂, hsent₂, message, hmessage, hstage, hsize⟩ :=
    exchange_alone partly hfit hleaves₁.sound hwhich hthread₁ hproducer₁
      (by rw [hbus₁]) (by rw [hbus₁]) hb
  have hround := (Mpsc.allocSizeOf_spec hm.size).1
  have hstored : (stored dp partly m).length = (m.bytes dp).length := by rw [hm.stored_eq]
  have hfits : (stored dp partly m).length ≤ message.allocSize := by
    rw [Message.allocSize, hsize, hstored]
    exact hm.valid.fits.1.trans hround
  obtain ⟨s', hleaves, hthread', hsent', hidle'⟩ := write_alone hfit hleaves₂.sound hwhich hthread₂
    hproducer₂ hmessage hstage hfits (Nat.zero_add _)
  refine ⟨s', ?_, hthread', ?_, hidle'⟩
  · have hall := (hleaves₁.trans hleaves₂).trans hleaves
    rw [hstored] at hall
    rwa [show (m.bytes dp).length + 5 = 2 + 2 + ((m.bytes dp).length + 1) by omega]
  · rw [hsent', hsent₂, hsent₁]

end Alone

end Deeplog.Threads
