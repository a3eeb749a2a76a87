import Deeplog.Source.SpanScope

/-!
# Records in spans

`log` takes the threshold and the owner of a record from the context, where scopes have put theirs:
they are those of the innermost scope. Who reads what a thread has sent finds the same: a record
belongs to the span that has been started last and has not been closed, and so does a span that is
started there.
-/

namespace Deeplog.Source

open Runs (run Along)

/-- What a thread sends. Of a record: its severity, and the span that owns it. -/
inductive TraceMessage where
  | span (msg : SpanMessage)
  | record (severity : Nat) (owner : SpanContext)
  deriving DecidableEq

inductive TraceOp where
  | scope (op : ScopeOp)
  | log (severity : Nat) (allocated : Bool)

/-- The scopes of a thread on one context, and what it has sent. -/
structure Tracing where
  nesting : Nesting
  trace : List TraceMessage

/-- The thresholds of a `log_fabric_base`, by the names of instrumentation scopes. -/
structure Thresholds where
  thresholds : List (List UInt8 × Nat)
  defaultThreshold : Nat

/-- `do_threshold` -/
def Thresholds.threshold (fabric : Thresholds) (scopeName : List UInt8) : Nat :=
  (fabric.thresholds.lookup scopeName).getD fabric.defaultThreshold

namespace LogContext

/-- The constructors without a port. -/
def withoutPort : LogContext := ⟨disableThreshold, false, .empty⟩

/-- The constructors with the port of a fabric, and with the name of a scope or none. -/
def withPort (fabric : Thresholds) (scopeName : Option (List UInt8)) (span : SpanContext) :
    LogContext :=
  ⟨scopeName.elim fabric.defaultThreshold fabric.threshold, true, span⟩

/-- What they have in common. -/
def Constructed (ctx : LogContext) : Prop := ctx.port = false → ctx.threshold = disableThreshold

theorem withoutPort_constructed : withoutPort.Constructed := fun _ => rfl

theorem withPort_constructed (fabric : Thresholds) (scopeName : Option (List UInt8))
    (span : SpanContext) : (withPort fabric scopeName span).Constructed := by
  rintro ⟨⟩

end LogContext

/-- The scope that a context shows. -/
def innermost (frames : List Frame) : Option SpanScope :=
  (frames.map Frame.scope).find? SpanScope.context

/-- The span of the innermost scope, or of the context itself. -/
def owner (base : LogContext) (frames : List Frame) : SpanContext :=
  ((innermost frames).map SpanScope.id).getD base.span

/-- The threshold of the innermost scope, or of the context itself. -/
def ownThreshold (base : LogContext) (frames : List Frame) : Nat :=
  ((innermost frames).map SpanScope.spanThreshold).getD base.threshold

namespace Tracing

def start (ctx : LogContext) : Tracing := ⟨.start ctx, []⟩

/-- `log`, with what `vlog` asks of the severity before it goes to the port. -/
def log (severity : Nat) (allocated : Bool) (t : Tracing) : Option Tracing :=
  if severity < t.nesting.ctx.threshold then some t
  else if severity = 0 then some t
  else if 24 < severity then some t
  -- a null port
  else if !t.nesting.ctx.port then none
  else if allocated then some { t with trace := t.trace ++ [.record severity t.nesting.ctx.span] }
  else some t

def step : TraceOp → Tracing → Option Tracing
  | .scope op, t => (t.nesting.step op).map fun s =>
    ⟨s, t.trace ++ (s.bus.drop t.nesting.bus.length).map .span⟩
  | .log severity allocated, t => t.log severity allocated

/-- What a reader makes of a message that follows on others, by which some spans are open, the
innermost first. -/
def read (base : SpanContext) (live : List SpanContext) : TraceMessage → Option (List SpanContext)
  | .span (.start msg) => if msg.parent = live.headD base then some (msg.id :: live) else none
  | .span (.close msg) => if live.head? = some msg.id then some live.tail else none
  | .record _ owner => if owner = live.headD base then some live else none

/-- Spans are children of the innermost one, no scope hides them, and no close message is lost. -/
def Told : TraceOp → Tracing → Prop
  | .scope (.open _ parent _ _ _), t => ∀ id ∈ parent, id = t.nesting.ctx.span
  | .scope (.none _), _ => False
  | .scope (.destroy allocated _), t =>
    ∀ frame ∈ t.nesting.frames.head?, frame.scope.context = true → allocated = true
  | .log _ _, _ => True

instance : ∀ op t, Decidable (Told op t)
  | .scope (.open _ _ _ _ _), _ => inferInstanceAs (Decidable (∀ id ∈ _, _))
  | .scope (.none _), _ => instDecidableFalse
  | .scope (.destroy _ _), t =>
    inferInstanceAs (Decidable (∀ frame ∈ t.nesting.frames.head?, _ → _))
  | .log _ _, _ => instDecidableTrue

end Tracing

/-! ## The context shows the innermost scope -/

section Shows

variable {base ctx : LogContext} {frames : List Frame}

/-- Each scope that is attached has put its span and threshold into the context. -/
def Shows (base : LogContext) : LogContext → List Frame → Prop
  | ctx, [] => ctx = base
  | ctx, frame :: frames =>
    (ctx = if frame.scope.context then
      { frame.before with span := frame.scope.id, threshold := frame.scope.spanThreshold }
    else frame.before) ∧ frame.before.Constructed ∧ Shows base frame.before frames

theorem Shows.eq (h : Shows base ctx frames) :
    ctx = { base with span := owner base frames, threshold := ownThreshold base frames } := by
  induction frames generalizing ctx with
  | nil => exact h
  | cons frame frames ih =>
    obtain ⟨hctx, -, hbefore⟩ := h
    have heq := ih hbefore
    cases hcontext : frame.scope.context with
    | false =>
      have hsame : innermost (frame :: frames) = innermost frames := by
        simp [innermost, hcontext]
      rw [owner, ownThreshold, hsame, hctx, hcontext]
      exact heq
    | true =>
      have hinnermost : innermost (frame :: frames) = some frame.scope := by
        simp [innermost, hcontext]
      rw [owner, ownThreshold, hinnermost, hctx, hcontext, heq]
      rfl

end Shows

/-- `open`, by its answer. -/
theorem SpanScope.open_eq (ctx : LogContext) (name : Option (List UInt8))
    (parent : Option SpanContext) (kind : SpanKind) (answer : PortAnswer) (now : Nat) :
    SpanScope.open ctx name parent kind answer now =
      if ctx.port = true ∧ answer.id.traceId ≠ .invalid ∧ answer.allocated = true then
        ((attach ctx answer.id answer.threshold).1, (attach ctx answer.id answer.threshold).2,
          some (.start ⟨answer.id, kind, parent.getD ctx.span, now, name.getD []⟩))
      else (inert, ctx, .none) := by
  unfold SpanScope.open doOpen enqueueMessage
  cases ctx.port <;> cases answer.allocated <;> by_cases hid : answer.id.traceId = .invalid <;>
    simp [hid]

namespace Tracing

variable {ctx : LogContext} {t t' : Tracing} {op : TraceOp} {ops : List TraceOp}

/-- What every run keeps. -/
structure Inv (base : LogContext) (t : Tracing) : Prop where
  nesting : t.nesting.Inv
  shows : Shows base t.nesting.ctx t.nesting.frames
  constructed : t.nesting.ctx.Constructed

theorem log_cases {severity : Nat} {allocated : Bool} (h : t.log severity allocated = some t') :
    t' = t ∨ t' = { t with trace := t.trace ++ [.record severity t.nesting.ctx.span] } := by
  unfold log at h
  grind

theorem Inv.scope {base : LogContext} {s : Nesting} {op : ScopeOp} (h : Inv base t)
    (hstep : t.nesting.step op = some s) (trace : List TraceMessage) : Inv base ⟨s, trace⟩ := by
  obtain ⟨hnesting, hshows, hconstructed⟩ := h
  have hinv := hnesting.step hstep
  cases op with
  | «open» name parent kind answer now =>
    simp only [Nesting.step, SpanScope.open_eq, Option.some.injEq] at hstep
    split at hstep
    · next hsent =>
      subst hstep
      refine ⟨hinv, ⟨rfl, hconstructed, hshows⟩, fun hport => ?_⟩
      exact absurd (hsent.1.symm.trans hport) (by simp)
    · subst hstep
      exact ⟨hinv, ⟨rfl, hconstructed, hshows⟩, hconstructed⟩
  | none defaultThreshold =>
    cases hstep
    refine ⟨hinv, ⟨rfl, hconstructed, hshows⟩, fun hport => ?_⟩
    have hport' : t.nesting.ctx.port = false := hport
    exact if_neg (by simp [hport'])
  | destroy allocated now =>
    obtain ⟨frame, frames, bus, nullSends, hframes, rfl, -⟩ := Nesting.destroy_cases hstep
    have hnested := hnesting.nested
    rw [hframes] at hnested hshows
    obtain ⟨hrestore, -⟩ := hnested
    obtain ⟨-, hbefore, hshows⟩ := hshows
    refine ⟨hinv, ?_, ?_⟩
    · exact hrestore ▸ hshows
    · exact hrestore ▸ hbefore

theorem Inv.step {base : LogContext} (h : Inv base t) (hstep : step op t = some t') :
    Inv base t' := by
  cases op with
  | scope op =>
    obtain ⟨s, hs, rfl⟩ := Option.map_eq_some_iff.mp hstep
    exact h.scope hs _
  | log severity allocated =>
    rcases log_cases hstep with rfl | rfl
    · exact h
    · exact ⟨h.nesting, h.shows, h.constructed⟩

theorem Inv.start (hctx : ctx.Constructed) : Inv ctx (start ctx) :=
  ⟨.start ctx, rfl, hctx⟩

theorem Inv.of_run (hctx : ctx.Constructed)
    (hrun : run Tracing.step ops (Tracing.start ctx) = some t) : Inv ctx t := by
  have hall : Along Tracing.step (fun _ _ => True) ops (Tracing.start ctx) :=
    .of_forall fun _ _ _ => trivial
  exact Runs.invariant (fun _ _ _ _ h => h.step) hall (.start hctx) hrun

/-- A record goes to the port of the context or nowhere, with the threshold and the span of the
innermost scope. -/
theorem Inv.log_eq {base : LogContext} (h : Inv base t) (severity : Nat) (allocated : Bool) :
    t.log severity allocated =
      some (if ownThreshold base t.nesting.frames ≤ severity ∧ 0 < severity ∧ severity ≤ 24 ∧
          allocated = true then
        { t with trace := t.trace ++ [.record severity (owner base t.nesting.frames)] }
      else t) := by
  have hctx := h.shows.eq
  have hspan : t.nesting.ctx.span = owner base t.nesting.frames := by rw [hctx]
  have hthreshold : t.nesting.ctx.threshold = ownThreshold base t.nesting.frames := by rw [hctx]
  rw [← hspan, ← hthreshold]
  have hconstructed : t.nesting.ctx.port = false → t.nesting.ctx.threshold = 25 := h.constructed
  unfold log
  cases hport : t.nesting.ctx.port with
  | false =>
    have hdisabled := hconstructed hport
    grind
  | true => grind

/-! ## What a reader makes of it -/

/-- The reader knows the live scopes, and the context shows the innermost one. -/
structure Readable (base : SpanContext) (t : Tracing) : Prop where
  live : t.trace.foldlM (read base) [] = some t.nesting.liveIds
  attached : ∀ frame ∈ t.nesting.frames, frame.scope.context = true →
    frame.scope.id ≠ .empty ∧ t.nesting.ctx.port = true

theorem Readable.head? {base : SpanContext} (h : Readable base t) :
    t.nesting.liveIds.head? = (innermost t.nesting.frames).map SpanScope.id := by
  have hall := h.attached
  rw [Nesting.liveIds, innermost]
  generalize t.nesting.frames = frames at hall ⊢
  induction frames with
  | nil => rfl
  | cons frame frames ih =>
    have hrest := ih fun frame hframe => hall frame (List.mem_cons_of_mem _ hframe)
    cases hcontext : frame.scope.context with
    | false => simpa [Frame.live, hcontext] using hrest
    | true =>
      have hid := (hall frame List.mem_cons_self hcontext).1
      simp [Frame.live, hcontext, hid]

theorem Readable.headD {base : LogContext} (h : Readable base.span t) (hinv : Inv base t) :
    t.nesting.liveIds.headD base.span = t.nesting.ctx.span := by
  rw [hinv.shows.eq, List.headD_eq_head?_getD, h.head?]
  rfl

/-- Behind `open`. -/
theorem Readable.opened {base : LogContext} (h : Readable base.span t) (hinv : Inv base t)
    {name : Option (List UInt8)} {parent : Option SpanContext} {kind : SpanKind}
    {answer : PortAnswer} {now : Nat} (hparent : ∀ id ∈ parent, id = t.nesting.ctx.span)
    {s : Nesting} (hs : t.nesting.step (.open name parent kind answer now) = some s) :
    Readable base.span ⟨s, t.trace ++ (s.bus.drop t.nesting.bus.length).map .span⟩ := by
  have hhead := h.headD hinv
  simp only [Nesting.step, SpanScope.open_eq, Option.some.injEq] at hs
  split at hs
  · next hsent =>
    subst hs
    obtain ⟨hport, hid, -⟩ := hsent
    have hne : answer.id ≠ .empty := by
      rintro heq
      exact hid (congrArg SpanContext.traceId heq)
    have hinnermost : parent.getD t.nesting.ctx.span = t.nesting.liveIds.headD base.span := by
      rw [hhead]
      cases parent with
      | none => rfl
      | some id => exact hparent id rfl
    refine ⟨?_, ?_⟩
    · simp only [Option.toList_some, List.drop_left, List.map_singleton, List.foldlM_append,
        h.live, Option.bind_eq_bind, Option.bind_some, List.foldlM_cons, read, hinnermost, if_true]
      simp [Nesting.liveIds, Nesting.live_attach, hne]
    · rintro frame (_ | ⟨_, hframe⟩) hcontext
      · exact ⟨hne, hport⟩
      · exact h.attached frame hframe hcontext
  · subst hs
    refine ⟨?_, ?_⟩
    · simp [h.live, Nesting.liveIds, Frame.live, SpanScope.inert]
    · rintro frame (_ | ⟨_, hframe⟩) hcontext
      · cases hcontext
      · exact h.attached frame hframe hcontext

/-- Behind `~span_scope`, unless the close message is lost. -/
theorem Readable.destroyed {base : SpanContext} (h : Readable base t) {allocated : Bool} {now : Nat}
    (htold : ∀ frame ∈ t.nesting.frames.head?, frame.scope.context = true → allocated = true)
    {s : Nesting} (hs : t.nesting.step (.destroy allocated now) = some s) :
    Readable base ⟨s, t.trace ++ (s.bus.drop t.nesting.bus.length).map .span⟩ := by
  obtain ⟨frame, frames, bus, nullSends, hframes, rfl, hsent⟩ := Nesting.destroy_cases hs
  have hattached := h.attached
  rw [hframes] at hattached
  have hbehind : ∀ other ∈ frames, other.scope.context = true →
      other.scope.id ≠ .empty ∧ (frame.scope.restore t.nesting.ctx).port = true := by
    intro other hother hcontext
    rw [SpanScope.restore_port]
    exact hattached other (List.mem_cons_of_mem _ hother) hcontext
  have hlive := h.live
  rw [Nesting.liveIds, hframes] at hlive
  cases hcontext : frame.scope.context with
  | false =>
    obtain ⟨rfl, -⟩ | ⟨-, -, hopen, -⟩ | ⟨-, -, hopen, -⟩ := hsent
    · refine ⟨?_, hbehind⟩
      simpa [Nesting.liveIds, Frame.live, hcontext] using hlive
    · exact absurd (hcontext.symm.trans hopen) (by simp)
    · exact absurd (hcontext.symm.trans hopen) (by simp)
  | true =>
    obtain ⟨hid, hport⟩ := hattached frame List.mem_cons_self hcontext
    have hallocated : allocated = true := htold frame (by simp [hframes]) hcontext
    obtain ⟨-, -, hlost⟩ | ⟨-, -, -, hnull⟩ | ⟨rfl, -⟩ := hsent
    · exact absurd ((hlost hcontext).2.symm.trans hallocated) (by simp)
    · exact absurd (hport.symm.trans hnull) (by simp)
    · refine ⟨?_, hbehind⟩
      have hcons : (frame :: frames).filterMap Frame.live =
          frame.scope.id :: frames.filterMap Frame.live := by
        simp [Frame.live, hcontext, hid]
      rw [hcons] at hlive
      simp only [List.drop_left, List.map_singleton, List.foldlM_append, hlive,
        Option.bind_eq_bind, Option.bind_some, List.foldlM_cons, read, List.head?_cons, if_true,
        List.tail_cons]
      rfl

theorem Readable.step {base : LogContext} (h : Readable base.span t) (hinv : Inv base t)
    (htold : Told op t) (hstep : step op t = some t') : Readable base.span t' := by
  have hhead := h.headD hinv
  cases op with
  | log severity allocated =>
    rcases log_cases hstep with rfl | rfl
    · exact h
    · refine ⟨?_, h.attached⟩
      rw [List.foldlM_append, h.live]
      simp only [Option.bind_eq_bind, Option.bind_some, List.foldlM_cons, read, hhead, if_true]
      rfl
  | scope op =>
    obtain ⟨s, hs, rfl⟩ := Option.map_eq_some_iff.mp hstep
    cases op with
    | «open» name parent kind answer now => exact h.opened hinv htold hs
    | none defaultThreshold => exact htold.elim
    | destroy allocated now => exact h.destroyed htold hs

theorem Readable.start (ctx : LogContext) : Readable ctx.span (start ctx) :=
  ⟨rfl, fun _ hframe => absurd hframe List.not_mem_nil⟩

/-- A log statement never goes through a null port, and its record is sent with the threshold and
the span of the innermost scope. Where spans are told, whoever reads the messages finds every record
and every span in the span that was innermost, and knows which spans are live. -/
theorem records_attributed (hctx : ctx.Constructed)
    (hrun : run Tracing.step ops (Tracing.start ctx) = some t) :
    (∀ severity allocated, t.log severity allocated =
      some (if ownThreshold ctx t.nesting.frames ≤ severity ∧ 0 < severity ∧ severity ≤ 24 ∧
          allocated = true then
        { t with trace := t.trace ++ [.record severity (owner ctx t.nesting.frames)] }
      else t)) ∧
    (Along Tracing.step Told ops (Tracing.start ctx) →
      t.trace.foldlM (read ctx.span) [] = some t.nesting.liveIds) := by
  refine ⟨(Inv.of_run hctx hrun).log_eq, fun htold => ?_⟩
  have hstep : ∀ op s s', Told op s → Inv ctx s ∧ Readable ctx.span s →
      Tracing.step op s = some s' → Inv ctx s' ∧ Readable ctx.span s' := by
    rintro op s s' hop ⟨hinv, hreadable⟩ hstep
    exact ⟨hinv.step hstep, hreadable.step hinv hop hstep⟩
  have hend := Runs.invariant hstep htold ⟨.start hctx, .start ctx⟩ hrun
  exact hend.2.live

/-- Two spans, of which the inner one lets less pass. -/
def sampleOps : List TraceOp :=
  [.scope (.open (some []) none .server ⟨⟨⟨0, 1⟩, 1⟩, 5, true⟩ 7), .log 9 true,
    .scope (.open none none .internal ⟨⟨⟨0, 1⟩, 2⟩, 13, true⟩ 8), .log 9 true, .log 17 true,
    .scope (.destroy true 9), .log 9 true]

theorem records_attributed_sample :
    let ctx := LogContext.withPort ⟨[([0x61], 17)], 13⟩ (some [0x62]) .empty
    ctx.Constructed ∧ ∃ t, run Tracing.step sampleOps (Tracing.start ctx) = some t ∧
      (t.log 4 true = some t ∧
        t.log 5 true = some { t with trace := t.trace ++ [.record 5 ⟨⟨0, 1⟩, 1⟩] }) ∧
      Along Tracing.step Told sampleOps (Tracing.start ctx) ∧
      t.trace.foldlM (read ctx.span) [] = some [⟨⟨0, 1⟩, 1⟩] := by
  intro ctx
  have hctx : ctx.Constructed := LogContext.withPort_constructed _ _ _
  have htold : Along Tracing.step Told sampleOps (Tracing.start ctx) := by decide
  obtain ⟨t, hrun⟩ : ∃ t, run Tracing.step sampleOps (Tracing.start ctx) = some t := ⟨_, rfl⟩
  obtain ⟨hlog, hread⟩ := records_attributed hctx hrun
  cases hrun
  exact ⟨hctx, _, rfl, ⟨hlog 4 true, hlog 5 true⟩, htold, hread htold⟩

end Tracing

end Deeplog.Source
