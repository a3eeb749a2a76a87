import Deeplog.Lib.Pairing
import Deeplog.Lib.Runs
import Deeplog.Source.SpanId

/-!
# Span scopes

`span_scope` of `source/span_scope.hpp` on one `log_context`. A scope puts its id and threshold
into the context and takes them out again when it is destroyed. The destructor also sends a close
message, and that for every scope with a context: those that `none` has built never sent a start
message, and may have no port to send through.
-/

namespace Deeplog.Source

open Pairing (Event Paired OpenedOnce)
open Runs (run Along)

/-- `span_context{}` -/
def SpanContext.empty : SpanContext := ⟨.invalid, 0⟩

/-- `detail::disable_threshold` -/
def disableThreshold : Nat := 0x19

inductive SpanKind where
  | internal | consumer | producer | client | server
  deriving DecidableEq, Repr

/-- `span_start_msg`, without the attributes. -/
structure SpanStartMsg where
  id : SpanContext
  kind : SpanKind
  parent : SpanContext
  timestamp : Nat
  name : List UInt8
  deriving DecidableEq

structure SpanEndMsg where
  id : SpanContext
  timestamp : Nat
  deriving DecidableEq

inductive SpanMessage where
  | start (msg : SpanStartMsg)
  | close (msg : SpanEndMsg)
  deriving DecidableEq

def SpanMessage.event : SpanMessage → Event SpanContext
  | .start msg => .opened msg.id
  | .close msg => .closed msg.id

/-- `log_context`: whether there is a target port, and what the scopes change. -/
structure LogContext where
  threshold : Nat
  port : Bool
  span : SpanContext
  deriving DecidableEq

/-- What the port answers to `create_span_context`, with the threshold that it puts out, and
whether it has a record buffer for the message then. -/
structure PortAnswer where
  id : SpanContext
  threshold : Nat
  allocated : Bool

structure SpanScope where
  spanThreshold : Nat
  previousThreshold : Nat
  /-- Whether `mContext` is set. -/
  context : Bool
  id : SpanContext
  previousId : SpanContext
  deriving DecidableEq

/-- What becomes of a message. -/
inductive Sending where
  | message (msg : SpanMessage)
  | unallocated
  | throughNull

namespace SpanScope

/-- `span_scope::span_scope()` -/
def inert : SpanScope where
  spanThreshold := 0
  previousThreshold := 0
  context := false
  id := .empty
  previousId := .empty

/-- The constructor with a context. -/
def attach (ctx : LogContext) (id : SpanContext) (threshold : Nat) : SpanScope × LogContext :=
  let scope :=
    { spanThreshold := threshold
      previousThreshold := ctx.threshold
      context := true
      id
      previousId := ctx.span }
  (scope, { ctx with span := id, threshold := scope.spanThreshold })

/-- `none(ctx)`, given the default threshold of the port. -/
def none (ctx : LogContext) (defaultThreshold : Nat) : SpanScope × LogContext :=
  attach ctx .empty (if ctx.port then defaultThreshold else disableThreshold)

/-- `enqueue_message` through a port. -/
def enqueueMessage (port allocated : Bool) (msg : SpanMessage) : Sending :=
  if !port then .throughNull
  else if allocated then .message msg
  else .unallocated

/-- `do_open`, and the message that it has sent. -/
def doOpen (ctx : LogContext) (name : Option (List UInt8)) (parent : SpanContext)
    (kind : SpanKind) (answer : PortAnswer) (now : Nat) :
    SpanScope × LogContext × Option SpanMessage :=
  if !ctx.port then (inert, ctx, .none)
  else
    let msg : SpanMessage :=
      .start
        { id := answer.id
          kind
          parent
          timestamp := now
          name := name.getD [] }
    if answer.id.traceId ≠ .invalid then
      match enqueueMessage ctx.port answer.allocated msg with
      | .message msg =>
        let (scope, ctx) := attach ctx answer.id answer.threshold
        (scope, ctx, some msg)
      | _ => (inert, ctx, .none)
    else (inert, ctx, .none)

/-- `open`, with the span of the context as the default parent. -/
def «open» (ctx : LogContext) (name : Option (List UInt8)) (parent : Option SpanContext)
    (kind : SpanKind) (answer : PortAnswer) (now : Nat) :
    SpanScope × LogContext × Option SpanMessage :=
  doOpen ctx name (parent.getD ctx.span) kind answer now

/-- What the destructor leaves of the context. -/
def restore (scope : SpanScope) (ctx : LogContext) : LogContext :=
  if scope.context then
    { ctx with span := scope.previousId, threshold := scope.previousThreshold }
  else ctx

/-- `send_close_msg` -/
def sendCloseMsg (scope : SpanScope) (ctx : LogContext) (allocated : Bool) (now : Nat) : Sending :=
  enqueueMessage ctx.port allocated (.close ⟨scope.id, now⟩)

/-- `~span_scope`: the context, and the message if one is to be sent. -/
def destroy (scope : SpanScope) (ctx : LogContext) (allocated : Bool) (now : Nat) :
    LogContext × Option Sending :=
  (scope.restore ctx,
    if scope.context then some (scope.sendCloseMsg (scope.restore ctx) allocated now) else .none)

end SpanScope

/-! ## Nested scopes -/

/-- A scope that is alive, with the context as it was before. -/
structure Frame where
  scope : SpanScope
  before : LogContext

/-- The id of a scope that has sent a start message. -/
def Frame.live (frame : Frame) : Option SpanContext :=
  if frame.scope.context = true ∧ frame.scope.id ≠ .empty then some frame.scope.id else none

/-- A context with its scopes, the innermost first, and what has happened: the messages on the
bus, the sends through a null port, the ids that the port has made, and the contexts before and
behind the scopes that are gone. -/
structure Nesting where
  ctx : LogContext
  frames : List Frame
  bus : List SpanMessage
  nullSends : Nat
  issued : List SpanContext
  restored : List (LogContext × LogContext)

inductive ScopeOp where
  | open (name : Option (List UInt8)) (parent : Option SpanContext) (kind : SpanKind)
    (answer : PortAnswer) (now : Nat)
  | none (defaultThreshold : Nat)
  | destroy (allocated : Bool) (now : Nat)

namespace Nesting

def start (ctx : LogContext) : Nesting where
  ctx := ctx
  frames := []
  bus := []
  nullSends := 0
  issued := []
  restored := []

def step : ScopeOp → Nesting → Option Nesting
  | .open name parent kind answer now, s =>
    let (scope, ctx, msg) := SpanScope.open s.ctx name parent kind answer now
    some
      { s with
        ctx
        frames := ⟨scope, s.ctx⟩ :: s.frames
        bus := s.bus ++ msg.toList
        issued := if s.ctx.port then s.issued ++ [answer.id] else s.issued }
  | .none defaultThreshold, s =>
    let (scope, ctx) := SpanScope.none s.ctx defaultThreshold
    some { s with ctx, frames := ⟨scope, s.ctx⟩ :: s.frames }
  | .destroy allocated now, s =>
    match s.frames with
    | [] => .none
    | frame :: frames =>
      let (ctx, sending) := frame.scope.destroy s.ctx allocated now
      let s := { s with ctx, frames, restored := s.restored ++ [(frame.before, ctx)] }
      match sending with
      | some (.message msg) => some { s with bus := s.bus ++ [msg] }
      | some .throughNull => some { s with nullSends := s.nullSends + 1 }
      | some .unallocated | .none => some s

/-- The port makes ids that are valid and that it has not made before. -/
def Fresh : ScopeOp → Nesting → Prop
  | .open _ _ _ answer _, s =>
    s.ctx.port = true → answer.id.traceId ≠ .invalid ∧ answer.id ∉ s.issued
  | _, _ => True

/-- A scope that `none` has built is destroyed only where its close message gets lost. -/
def NoneUnsent : ScopeOp → Nesting → Prop
  | .destroy allocated _, s =>
    ∀ frame ∈ s.frames.head?, frame.scope.context = true → frame.scope.id = .empty →
      s.ctx.port = true ∧ allocated = false
  | _, _ => True

instance : ∀ op s, Decidable (Fresh op s)
  | .open _ _ _ _ _, _ => inferInstanceAs (Decidable (_ → _))
  | .none _, _ => instDecidableTrue
  | .destroy _ _, _ => instDecidableTrue

instance : ∀ op s, Decidable (NoneUnsent op s)
  | .open _ _ _ _ _, _ => instDecidableTrue
  | .none _, _ => instDecidableTrue
  | .destroy _ _, s =>
    inferInstanceAs (Decidable (∀ frame ∈ s.frames.head?, _ → _ → _))

def events (s : Nesting) : List (Event SpanContext) := s.bus.map SpanMessage.event

/-- A scope that is gone has left the span and the threshold as they were. -/
def Restored (s : Nesting) : Prop :=
  ∀ x ∈ s.restored, x.2.span = x.1.span ∧ x.2.threshold = x.1.threshold

end Nesting

/-! ## The context -/

section Context

variable {ctx : LogContext} {scope : SpanScope}

theorem SpanScope.restore_port (scope : SpanScope) (ctx : LogContext) :
    (scope.restore ctx).port = ctx.port := by
  unfold restore
  split <;> rfl

/-- Either nothing has been opened, or the message has been sent. -/
theorem SpanScope.open_cases (ctx : LogContext) (name : Option (List UInt8))
    (parent : Option SpanContext) (kind : SpanKind) (answer : PortAnswer) (now : Nat) :
    SpanScope.open ctx name parent kind answer now = (inert, ctx, .none) ∨
      ctx.port = true ∧ answer.id.traceId ≠ .invalid ∧
        ∃ msg : SpanMessage, msg.event = .opened answer.id ∧
          SpanScope.open ctx name parent kind answer now =
            ((attach ctx answer.id answer.threshold).1, (attach ctx answer.id answer.threshold).2,
              some msg) := by
  unfold SpanScope.open doOpen enqueueMessage
  cases hport : ctx.port with
  | false => exact .inl rfl
  | true =>
    by_cases hid : answer.id.traceId = .invalid
    · exact .inl (by simp [hid])
    · cases answer.allocated with
      | false => exact .inl (by simp [hid])
      | true =>
        exact .inr ⟨rfl, hid, .start ⟨answer.id, kind, parent.getD ctx.span, now, name.getD []⟩,
          rfl, by simp [hid]⟩

/-- Each scope takes the context back to where it was before it. -/
def Nested : LogContext → List Frame → Prop
  | _, [] => True
  | ctx, frame :: frames => frame.scope.restore ctx = frame.before ∧ Nested frame.before frames

end Context

namespace Nesting

/-- What every run keeps. -/
structure Inv (s : Nesting) : Prop where
  nested : Nested s.ctx s.frames
  restored : s.Restored
  valid : ∀ id, .opened id ∈ s.events → id.traceId ≠ .invalid

variable {s s' : Nesting} {op : ScopeOp} {ops : List ScopeOp} {ctx : LogContext}

/-- A destruction restores the context. The close message is sent if there is a context, unless
there is no port, or no record buffer. -/
theorem destroy_cases {allocated : Bool} {now : Nat}
    (hstep : step (.destroy allocated now) s = some s') :
    ∃ frame frames bus nullSends, s.frames = frame :: frames ∧
      s' =
        { s with
          ctx := frame.scope.restore s.ctx
          frames
          bus
          nullSends
          restored := s.restored ++ [(frame.before, frame.scope.restore s.ctx)] } ∧
      ((bus = s.bus ∧ nullSends = s.nullSends ∧
          (frame.scope.context = true → s.ctx.port = true ∧ allocated = false)) ∨
        (bus = s.bus ∧ nullSends = s.nullSends + 1 ∧
          frame.scope.context = true ∧ s.ctx.port = false) ∨
        (bus = s.bus ++ [.close ⟨frame.scope.id, now⟩] ∧ nullSends = s.nullSends ∧
          frame.scope.context = true ∧ s.ctx.port = true ∧ allocated = true)) := by
  simp only [step] at hstep
  cases hframes : s.frames with
  | nil => simp [hframes] at hstep
  | cons frame frames =>
    simp only [hframes, SpanScope.destroy, SpanScope.sendCloseMsg, SpanScope.enqueueMessage,
      SpanScope.restore_port] at hstep
    refine ⟨frame, frames, s'.bus, s'.nullSends, rfl, ?_⟩
    cases hcontext : frame.scope.context <;> cases hport : s.ctx.port <;> cases allocated <;>
      simp [hcontext, hport] at hstep <;> subst hstep <;> simp

theorem Inv.step (h : Inv s) (hstep : step op s = some s') : Inv s' := by
  cases op with
  | «open» name parent kind answer now =>
    rcases SpanScope.open_cases s.ctx name parent kind answer now with
      hopen | ⟨-, hid, msg, hevent, hopen⟩
    · simp only [Nesting.step, hopen, Option.some.injEq] at hstep
      subst hstep
      exact ⟨⟨rfl, h.nested⟩, h.restored, by simpa [events] using h.valid⟩
    · simp only [Nesting.step, hopen, Option.some.injEq] at hstep
      subst hstep
      refine ⟨⟨rfl, h.nested⟩, h.restored, fun id hmem => ?_⟩
      simp only [events, List.map_append, Option.toList_some, List.map_cons, List.map_nil, hevent,
        List.mem_append, List.mem_singleton, Event.opened.injEq] at hmem
      rcases hmem with hmem | rfl
      · exact h.valid id hmem
      · exact hid
  | none defaultThreshold =>
    cases hstep
    exact ⟨⟨rfl, h.nested⟩, h.restored, h.valid⟩
  | destroy allocated now =>
    obtain ⟨frame, frames, bus, nullSends, hframes, rfl, hsent⟩ := destroy_cases hstep
    have hnested := h.nested
    rw [hframes] at hnested
    obtain ⟨hrestore, hnested⟩ := hnested
    refine ⟨?_, ?_, fun id hmem => h.valid id ?_⟩
    · rw [hrestore]
      exact hnested
    · simp only [Restored, List.mem_append, List.mem_singleton]
      rintro x (hx | rfl)
      · exact h.restored x hx
      · simp only [hrestore, and_self]
    · rcases hsent with ⟨rfl, -⟩ | ⟨rfl, -⟩ | ⟨rfl, -⟩
      · exact hmem
      · exact hmem
      · simpa [events, SpanMessage.event] using hmem

theorem Inv.start (ctx : LogContext) : Inv (start ctx) where
  nested := trivial
  restored x hx := by simp [Nesting.start] at hx
  valid id hid := by simp [events, Nesting.start] at hid

theorem Inv.of_run (hrun : run Nesting.step ops (Nesting.start ctx) = some s) : Inv s := by
  have hall : Along Nesting.step (fun _ _ => True) ops (Nesting.start ctx) :=
    .of_forall fun _ _ _ => trivial
  exact Runs.invariant (fun _ _ _ _ h => h.step) hall (.start ctx) hrun

/-! ## The messages -/

/-- The ids that are yet to be closed. -/
def liveIds (s : Nesting) : List SpanContext := s.frames.filterMap Frame.live

/-- What a run keeps whose close messages of `none` scopes get lost. -/
structure Balanced (s : Nesting) : Prop where
  nullSends : s.nullSends = 0
  paired : Paired s.events
  live : ∀ id ∈ s.liveIds, s.ctx.port = true ∧ OpenedOnce s.events id ∧ .closed id ∉ s.events
  nodup : s.liveIds.Nodup
  issued : ∀ id, .opened id ∈ s.events → id ∈ s.issued

variable {id : SpanContext}

theorem Balanced.quiet (h : Balanced s) (hport : s'.ctx.port = s.ctx.port)
    (hnull : s'.nullSends = s.nullSends) (hissued : s.issued ⊆ s'.issued)
    (hevents : s'.events = s.events) (hlive : s'.liveIds.Sublist s.liveIds) : Balanced s' where
  nullSends := hnull.trans h.nullSends
  paired := hevents ▸ h.paired
  live id hid := by
    rw [hevents, hport]
    exact h.live id (hlive.subset hid)
  nodup := h.nodup.sublist hlive
  issued id hid := hissued (h.issued id (hevents ▸ hid))

theorem Balanced.opened (h : Balanced s) (hport : s'.ctx.port = true)
    (hnull : s'.nullSends = s.nullSends) (hissued : s'.issued = s.issued ++ [id])
    (hevents : s'.events = s.events ++ [.opened id]) (hlive : s'.liveIds = id :: s.liveIds)
    (hfresh : id ∉ s.issued) : Balanced s' := by
  have hnew : .opened id ∉ s.events := fun hmem => hfresh (h.issued id hmem)
  have hunclosed : .closed id ∉ s.events := fun hmem => hnew (h.paired.opened_mem hmem)
  refine ⟨hnull.trans h.nullSends, ?_, ?_, ?_, ?_⟩
  · rw [hevents]
    exact h.paired.concat_opened id
  · intro id' hid'
    rw [hlive, List.mem_cons] at hid'
    rw [hevents]
    rcases hid' with rfl | hid'
    · exact ⟨hport, .concat_self hnew, by simp [hunclosed]⟩
    · obtain ⟨-, honce, hclosed⟩ := h.live id' hid'
      have hne : Event.opened id ≠ .opened id' := by
        rintro ⟨⟩
        obtain ⟨i, hi, -⟩ := honce
        exact hnew (List.mem_of_getElem? hi)
      exact ⟨hport, honce.concat_of_ne hne, by simp [hclosed]⟩
  · rw [hlive]
    refine List.nodup_cons.mpr ⟨fun hid => ?_, h.nodup⟩
    obtain ⟨i, hi, -⟩ := (h.live id hid).2.1
    exact hnew (List.mem_of_getElem? hi)
  · intro id' hid'
    rw [hevents, List.mem_append, List.mem_singleton] at hid'
    rw [hissued, List.mem_append, List.mem_singleton]
    rcases hid' with hid' | hid'
    · exact .inl (h.issued id' hid')
    · exact .inr (Event.opened.inj hid')

theorem Balanced.closed (h : Balanced s) (hport : s'.ctx.port = s.ctx.port)
    (hnull : s'.nullSends = s.nullSends) (hissued : s'.issued = s.issued)
    (hevents : s'.events = s.events ++ [.closed id]) (hlive : s.liveIds = id :: s'.liveIds) :
    Balanced s' := by
  have hall := h.live
  have hnodup := h.nodup
  rw [hlive] at hall hnodup
  obtain ⟨hnotLive, hnodup⟩ := List.nodup_cons.mp hnodup
  obtain ⟨-, honce, hclosed⟩ := hall id List.mem_cons_self
  refine ⟨hnull.trans h.nullSends, ?_, ?_, hnodup, ?_⟩
  · rw [hevents]
    exact h.paired.concat_closed honce hclosed
  · intro id' hid'
    obtain ⟨hport', honce', hclosed'⟩ := hall id' (List.mem_cons_of_mem _ hid')
    have hne : id ≠ id' := fun heq => hnotLive (heq ▸ hid')
    rw [hevents, hport]
    exact ⟨hport', honce'.concat_of_ne (by simp), by simp [hclosed', hne.symm]⟩
  · intro id' hid'
    rw [hissued]
    exact h.issued id' (by simpa [hevents] using hid')

theorem live_attach (ctx before : LogContext) (threshold : Nat) :
    Frame.live ⟨(SpanScope.attach ctx id threshold).1, before⟩ =
      if id = .empty then none else some id := by
  by_cases h : id = .empty <;> simp [Frame.live, SpanScope.attach, h]

theorem Balanced.step (h : Balanced s) (hfresh : Fresh op s) (hnone : NoneUnsent op s)
    (hstep : step op s = some s') : Balanced s' := by
  cases op with
  | «open» name parent kind answer now =>
    rcases SpanScope.open_cases s.ctx name parent kind answer now with
      hopen | ⟨hport, hid, msg, hevent, hopen⟩
    · simp only [Nesting.step, hopen, Option.some.injEq] at hstep
      subst hstep
      refine h.quiet rfl rfl ?_ (by simp [events]) (by simp [liveIds, Frame.live, SpanScope.inert])
      dsimp only
      split <;> simp
    · simp only [Nesting.step, hopen, Option.some.injEq] at hstep
      subst hstep
      have hne : answer.id ≠ .empty := fun hempty => hid (by rw [hempty]; rfl)
      refine h.opened hport rfl (if_pos hport) (by simp [events, hevent]) ?_ (hfresh hport).2
      simp [liveIds, live_attach, hne]
  | none defaultThreshold =>
    cases hstep
    refine h.quiet rfl rfl (List.Subset.refl _) rfl ?_
    simp [liveIds, Frame.live]
  | destroy allocated now =>
    obtain ⟨frame, frames, bus, nullSends, hframes, rfl, hsent⟩ := destroy_cases hstep
    have hport := frame.scope.restore_port s.ctx
    have hlost : frame.scope.context = true → frame.scope.id = .empty →
        s.ctx.port = true ∧ allocated = false := hnone frame (by simp [hframes])
    have hlive : ∀ hcontext : frame.scope.context = true, frame.scope.id ≠ .empty →
        s.liveIds = frame.scope.id :: frames.filterMap Frame.live := fun hcontext hid => by
      simp [liveIds, hframes, Frame.live, hcontext, hid]
    rcases hsent with ⟨rfl, rfl, -⟩ | ⟨rfl, rfl, hcontext, hnoPort⟩ | ⟨rfl, rfl, hcontext, hsent⟩
    · refine h.quiet hport rfl (List.Subset.refl _) rfl ?_
      rw [liveIds, liveIds, hframes]
      exact (List.sublist_cons_self frame frames).filterMap Frame.live
    · -- without a port, neither a `none` scope nor one that has sent a start message is left
      by_cases hid : frame.scope.id = .empty
      · exact absurd (hlost hcontext hid).1 (by simp [hnoPort])
      · have hmem : frame.scope.id ∈ s.liveIds := by simp [hlive hcontext hid]
        exact absurd (h.live _ hmem).1 (by simp [hnoPort])
    · by_cases hid : frame.scope.id = .empty
      · exact absurd (hlost hcontext hid).2 (by simp [hsent.2])
      · exact h.closed hport rfl rfl (by simp [events, SpanMessage.event]) (hlive hcontext hid)

theorem Balanced.start (ctx : LogContext) : Balanced (start ctx) where
  nullSends := rfl
  paired := .nil
  live id hid := by simp [liveIds, Nesting.start] at hid
  nodup := List.nodup_nil
  issued id hid := by simp [events, Nesting.start] at hid

/-! ## What lost messages would have left -/

/-- A close message of a `none` scope has been sent, or was to be sent through a null port. -/
def Stray (s : Nesting) : Prop := 0 < s.nullSends ∨ .closed .empty ∈ s.events

theorem Stray.step (h : Stray s) (hstep : step op s = some s') : Stray s' := by
  cases op with
  | «open» name parent kind answer now =>
    rcases SpanScope.open_cases s.ctx name parent kind answer now with
      hopen | ⟨-, -, msg, hevent, hopen⟩
    · simp only [Nesting.step, hopen, Option.some.injEq] at hstep
      subst hstep
      simpa [Stray, events] using h
    · simp only [Nesting.step, hopen, Option.some.injEq] at hstep
      subst hstep
      simpa [Stray, events, hevent] using h
  | none defaultThreshold =>
    cases hstep
    exact h
  | destroy allocated now =>
    obtain ⟨frame, frames, bus, nullSends, -, rfl, hsent⟩ := destroy_cases hstep
    rcases hsent with ⟨rfl, rfl, -⟩ | ⟨rfl, rfl, -⟩ | ⟨rfl, rfl, -⟩
    · exact h
    · exact h.imp_left fun hnull => Nat.lt_succ_of_lt hnull
    · refine h.imp_right fun hmem => ?_
      rw [events, List.map_append]
      exact List.mem_append_left _ hmem

theorem stray_of_not_noneUnsent (hstep : step op s = some s') (h : ¬NoneUnsent op s) :
    Stray s' := by
  cases op with
  | «open» name parent kind answer now => exact absurd trivial h
  | none defaultThreshold => exact absurd trivial h
  | destroy allocated now =>
    obtain ⟨frame, frames, bus, nullSends, hframes, rfl, hsent⟩ := destroy_cases hstep
    simp only [NoneUnsent, hframes, List.head?_cons, Option.mem_some_iff, forall_eq'] at h
    push Not at h
    obtain ⟨hcontext, hid, hlost⟩ := h
    rcases hsent with ⟨-, -, hunsent⟩ | ⟨rfl, rfl, -⟩ | ⟨rfl, rfl, -⟩
    · exact absurd (hunsent hcontext).2 (hlost (hunsent hcontext).1)
    · exact .inl (Nat.succ_pos _)
    · exact .inr (by simp [events, SpanMessage.event, hid])

/-- Scopes always restore their context. Their close messages go through a port and belong to
one start message each exactly where those of `none` scopes get lost. -/
theorem balanced_iff (hfresh : Along step Fresh ops (Nesting.start ctx))
    (hrun : run step ops (Nesting.start ctx) = some s) :
    s.Restored ∧ s.nullSends = 0 ∧ Paired s.events ↔
      Along step NoneUnsent ops (Nesting.start ctx) := by
  have hinv := Inv.of_run hrun
  constructor
  · rintro ⟨-, hnull, hpaired⟩
    have hkeep : ∀ op s s', step op s = some s' → Stray s → Stray s' :=
      fun _ _ _ hstep h => h.step hstep
    refine .of_not_trace hkeep (fun _ _ _ => stray_of_not_noneUnsent) hrun ?_
    rintro (hsent | hclosed)
    · omega
    · exact hinv.valid _ (hpaired.opened_mem hclosed) rfl
  · intro hnone
    have hbalanced := Runs.invariant (fun _ _ _ hcond h => h.step hcond.1 hcond.2)
      (hfresh.and hnone) (Balanced.start ctx) hrun
    exact ⟨hinv.restored, hbalanced.nullSends, hbalanced.paired⟩

theorem balanced_iff_nested :
    ∃ s, run step
        [.open (some []) none .server ⟨⟨⟨0, 1⟩, 1⟩, 5, true⟩ 7,
          .open none none .internal ⟨⟨⟨0, 1⟩, 2⟩, 9, false⟩ 8,
          .none 13, .destroy false 9, .destroy true 9, .destroy true 9]
        (Nesting.start ⟨13, true, .empty⟩) = some s ∧
      s.Restored ∧ s.nullSends = 0 ∧ Paired s.events := by
  have hfresh : Along step Fresh
      [.open (some []) none .server ⟨⟨⟨0, 1⟩, 1⟩, 5, true⟩ 7,
        .open none none .internal ⟨⟨⟨0, 1⟩, 2⟩, 9, false⟩ 8,
        .none 13, .destroy false 9, .destroy true 9, .destroy true 9]
      (Nesting.start ⟨13, true, .empty⟩) := by decide
  exact ⟨_, rfl, (balanced_iff hfresh rfl).mpr (by decide)⟩

/-- The close message of a `none` scope has no start message, and without a port it is sent
through the null port. -/
theorem not_balanced :
    (∃ s, Along step Fresh [.none 13, .destroy true 0] (Nesting.start ⟨13, true, .empty⟩) ∧
      run step [.none 13, .destroy true 0] (Nesting.start ⟨13, true, .empty⟩) = some s ∧
      ¬Paired s.events) ∧
    ∃ s, Along step Fresh [.none 13, .destroy true 0] (Nesting.start ⟨13, false, .empty⟩) ∧
      run step [.none 13, .destroy true 0] (Nesting.start ⟨13, false, .empty⟩) = some s ∧
      s.nullSends ≠ 0 := by
  refine ⟨⟨_, by decide, rfl, fun hpaired => ?_⟩, ⟨_, by decide, rfl, by decide⟩⟩
  have hmem := hpaired.opened_mem (a := .empty) (List.mem_singleton.mpr rfl)
  revert hmem
  decide

end Nesting

end Deeplog.Source
