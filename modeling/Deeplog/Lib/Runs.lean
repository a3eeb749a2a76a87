import Mathlib.Data.List.Basic
import Mathlib.Logic.Relation

/-!
# Runs of a step function

A step function takes an operation and a state and says whether the step is possible. A run
is a list of operations taken one after the other. `Along` states a condition on every step of
a run, about the operation and the state in which it is taken; an invariant that each such
step keeps holds at the end of the run, and a simulation of single steps lifts to runs. A run of a
system is a run of each of its parts. Where every step is possible and is answered, two machines
are compared by their replies.
-/

namespace Runs

variable {σ τ ι : Type}

/-- The state behind a list of operations, if each is possible where it is taken. -/
def run (step : ι → σ → Option σ) : List ι → σ → Option σ
  | [], s => some s
  | op :: ops, s => (step op s).bind (run step ops)

variable {step : ι → σ → Option σ} {s s' s₁ : σ} {op : ι} {ops more : List ι}

theorem run_cons_eq_some :
    run step (op :: ops) s = some s' ↔ ∃ s₁, step op s = some s₁ ∧ run step ops s₁ = some s' :=
  Option.bind_eq_some_iff

theorem run_append (h : run step ops s = some s₁) :
    run step (ops ++ more) s = run step more s₁ := by
  induction ops generalizing s with
  | nil => cases h; rfl
  | cons op ops ih =>
    obtain ⟨t, ht, hrun⟩ := run_cons_eq_some.mp h
    simp only [List.cons_append, run, ht, Option.bind_some]
    exact ih hrun

/-- Every operation of the run meets `cond` in the state where it is taken. -/
def Along (step : ι → σ → Option σ) (cond : ι → σ → Prop) : List ι → σ → Prop
  | [], _ => True
  | op :: ops, s => cond op s ∧ ∀ s', step op s = some s' → Along step cond ops s'

variable {cond : ι → σ → Prop}

/-- Along a run, in its decidable form. -/
instance instDecidableAlong [∀ op s, Decidable (cond op s)] :
    ∀ ops s, Decidable (Along step cond ops s)
  | [], _ => .isTrue trivial
  | op :: ops, s =>
    match h : step op s with
    | none => decidable_of_iff (cond op s) (by simp [Along, h])
    | some s' =>
      have := instDecidableAlong ops s'
      decidable_of_iff (cond op s ∧ Along step cond ops s') (by simp [Along, h])

theorem Along.of_forall (h : ∀ op ∈ ops, ∀ s, cond op s) : Along step cond ops s := by
  induction ops generalizing s with
  | nil => trivial
  | cons op ops ih =>
    exact ⟨h op (by simp) s, fun _ _ => ih fun o ho => h o (by simp [ho])⟩

theorem Along.and_forall {p : ι → Prop} (h : Along step cond ops s) (hp : ∀ op ∈ ops, p op) :
    Along step (fun op s => p op ∧ cond op s) ops s := by
  induction ops generalizing s with
  | nil => trivial
  | cons op ops ih =>
    exact ⟨⟨hp op (by simp), h.1⟩, fun s' hs' => ih (h.2 s' hs') fun o ho => hp o (by simp [ho])⟩

theorem Along.imp {cond' : ι → σ → Prop} (himp : ∀ op s, cond op s → cond' op s)
    (h : Along step cond ops s) : Along step cond' ops s := by
  induction ops generalizing s with
  | nil => trivial
  | cons op ops ih => exact ⟨himp op s h.1, fun s' hs' => ih (h.2 s' hs')⟩

theorem Along.and {cond' : ι → σ → Prop} (h : Along step cond ops s) (h' : Along step cond' ops s) :
    Along step (fun op s => cond op s ∧ cond' op s) ops s := by
  induction ops generalizing s with
  | nil => trivial
  | cons op ops ih => exact ⟨⟨h.1, h'.1⟩, fun s' hs' => ih (h.2 s' hs') (h'.2 s' hs')⟩

theorem Along.append (h : Along step cond (ops ++ more) s) (hrun : run step ops s = some s₁) :
    Along step cond ops s ∧ Along step cond more s₁ := by
  induction ops generalizing s with
  | nil => cases hrun; exact ⟨trivial, h⟩
  | cons op ops ih =>
    obtain ⟨t, ht, hrun⟩ := run_cons_eq_some.mp hrun
    have ⟨hx, hy⟩ := ih (h.2 t ht) hrun
    refine ⟨⟨h.1, fun t' ht' => ?_⟩, hy⟩
    cases ht.symm.trans ht'
    exact hx

theorem Along.trans (h : Along step cond ops s) (hrun : run step ops s = some s₁)
    (hmore : Along step cond more s₁) : Along step cond (ops ++ more) s := by
  induction ops generalizing s with
  | nil => cases hrun; exact hmore
  | cons op ops ih =>
    obtain ⟨t, ht, hrun⟩ := run_cons_eq_some.mp hrun
    refine ⟨h.1, fun t' ht' => ?_⟩
    cases ht.symm.trans ht'
    exact ih (h.2 t ht) hrun

/-- What every step keeps where its condition is met, a run keeps. -/
theorem invariant {inv : σ → Prop}
    (hstep : ∀ op s s', cond op s → inv s → step op s = some s' → inv s')
    (hcond : Along step cond ops s) (hs : inv s) (hrun : run step ops s = some s') : inv s' := by
  induction ops generalizing s with
  | nil => cases hrun; exact hs
  | cons op ops ih =>
    obtain ⟨t, ht, hrun⟩ := run_cons_eq_some.mp hrun
    exact ih (hcond.2 t ht) (hstep op s t hcond.1 hs ht) hrun

theorem Along.holds {inv : σ → Prop}
    (hstep : ∀ op s s', cond op s → inv s → step op s = some s' → inv s')
    (hcond : Along step cond ops s) (hs : inv s) : Along step (fun _ s => inv s) ops s := by
  induction ops generalizing s with
  | nil => trivial
  | cons op ops ih =>
    exact ⟨hs, fun s' hs' => ih (hcond.2 s' hs') (hstep op s s' hcond.1 hs hs')⟩

/-- A violation of the condition that leaves a lasting trace has not occurred where there is
none. -/
theorem Along.of_not_trace {trace : σ → Prop}
    (hkeep : ∀ op s s', step op s = some s' → trace s → trace s')
    (hleave : ∀ op s s', step op s = some s' → ¬cond op s → trace s')
    (hrun : run step ops s = some s') (hnot : ¬trace s') : Along step cond ops s := by
  induction ops generalizing s with
  | nil => trivial
  | cons op ops ih =>
    obtain ⟨t, ht, hrun⟩ := run_cons_eq_some.mp hrun
    refine ⟨by_contra fun hviolated => hnot ?_, fun t' ht' => ?_⟩
    · have hall : Along step (fun _ _ => True) ops t := .of_forall fun _ _ _ => trivial
      exact invariant (fun op s s' _ h hs => hkeep op s s' hs h) hall
        (hleave op s t ht hviolated) hrun
    · cases ht.symm.trans ht'
      exact ih hrun

/-- A simulation under an invariant: where each step is matched by steps of an abstract system,
so is a run. -/
theorem simulation {astep : τ → τ → Prop} {inv : σ → Prop} {abs : σ → τ}
    (hinv : ∀ op s s', cond op s → inv s → step op s = some s' → inv s')
    (hsim : ∀ op s s', cond op s → inv s → step op s = some s' →
      Relation.ReflTransGen astep (abs s) (abs s'))
    (hcond : Along step cond ops s) (hs : inv s) (hrun : run step ops s = some s') :
    Relation.ReflTransGen astep (abs s) (abs s') := by
  induction ops generalizing s with
  | nil => cases hrun; exact .refl
  | cons op ops ih =>
    obtain ⟨t, ht, hrun⟩ := run_cons_eq_some.mp hrun
    have hrest := ih (hcond.2 t ht) (hinv op s t hcond.1 hs ht) hrun
    exact (hsim op s t hcond.1 hs ht).trans hrest

/-! ## Parts of a system -/

section Parts

variable {κ : Type}

/-- The operations of a part that the steps of a run consist of. -/
def trace (step : ι → σ → Option σ) (seen : ι → σ → Option κ) : List ι → σ → List κ
  | [], _ => []
  | op :: ops, s => (seen op s).toList ++ ((step op s).elim [] (trace step seen ops))

variable {seen : ι → σ → Option κ} {small : κ → τ → Option τ} {view : σ → τ} {inv : σ → Prop}

theorem trace_cons (h : step op s = some s₁) :
    trace step seen (op :: ops) s = (seen op s).toList ++ trace step seen ops s₁ := by
  rw [trace, h, Option.elim_some]

/-- What is found last in the operations of a part, where each step shows what the operation it
consists of does. -/
theorem findSome?_trace {α : Type} {f : κ → Option α} {g : ι → Option α}
    (hshow : ∀ op s s', step op s = some s' → (seen op s).bind f = g op)
    (hrun : run step ops s = some s') :
    (trace step seen ops s).reverse.findSome? f = ops.reverse.findSome? g := by
  induction ops generalizing s with
  | nil => rfl
  | cons op ops ih =>
    obtain ⟨t, ht, hrun⟩ := run_cons_eq_some.mp hrun
    rw [trace_cons ht, List.reverse_append, List.findSome?_append, ih hrun, List.reverse_cons,
      List.findSome?_append, List.findSome?_singleton, ← hshow op s t ht]
    cases seen op s with
    | none => rfl
    | some k => rw [Option.toList_some, List.reverse_singleton, List.findSome?_singleton,
        Option.bind_some]

/-- Where each step is a step of a part or none of its own, a run of the system is a run of the
part. -/
theorem project (hinv : ∀ op s s', cond op s → inv s → step op s = some s' → inv s')
    (hpart : ∀ op s s', cond op s → inv s → step op s = some s' →
      run small (seen op s).toList (view s) = some (view s'))
    (hcond : Along step cond ops s) (hs : inv s) (hrun : run step ops s = some s') :
    run small (trace step seen ops s) (view s) = some (view s') := by
  induction ops generalizing s with
  | nil => cases hrun; rfl
  | cons op ops ih =>
    obtain ⟨t, ht, hrun⟩ := run_cons_eq_some.mp hrun
    have hrest := ih (hcond.2 t ht) (hinv op s t hcond.1 hs ht) hrun
    rw [trace_cons ht]
    exact (run_append (hpart op s t hcond.1 hs ht)).trans hrest

/-- A condition on the steps of the part holds along its run if the steps of the system bring
it with them. -/
theorem Along.trace {small_cond : κ → τ → Prop}
    (hinv : ∀ op s s', cond op s → inv s → step op s = some s' → inv s')
    (hpart : ∀ op s s', cond op s → inv s → step op s = some s' →
      run small (seen op s).toList (view s) = some (view s'))
    (hseen : ∀ op s k, cond op s → inv s → seen op s = some k → small_cond k (view s))
    (hcond : Along step cond ops s) (hs : inv s) (hrun : run step ops s = some s') :
    Along small small_cond (trace step seen ops s) (view s) := by
  induction ops generalizing s with
  | nil => trivial
  | cons op ops ih =>
    obtain ⟨t, ht, hrun⟩ := run_cons_eq_some.mp hrun
    have hrest := ih (hcond.2 t ht) (hinv op s t hcond.1 hs ht) hrun
    have hone := hpart op s t hcond.1 hs ht
    rw [trace_cons ht]
    cases hk : seen op s with
    | none =>
      rw [hk] at hone
      rw [Option.some.inj hone]
      exact hrest
    | some k =>
      rw [hk] at hone
      refine ⟨hseen op s k hcond.1 hs hk, fun u hu => ?_⟩
      obtain ⟨v, hv, hend⟩ := run_cons_eq_some.mp hone
      rw [Option.some.inj (hu.symm.trans hv), Option.some.inj hend]
      exact hrest

end Parts

/-! ## Replies -/

variable {ρ : Type}

/-- The replies to a list of operations, and the state behind them. -/
def replies (step : ι → σ → ρ × σ) : List ι → σ → List ρ × σ
  | [], s => ([], s)
  | op :: ops, s =>
    let (reply, s') := step op s
    let (rest, s'') := replies step ops s'
    (reply :: rest, s'')

theorem replies_append {step : ι → σ → ρ × σ} :
    (replies step (ops ++ more) s).2 = (replies step more (replies step ops s).2).2 := by
  induction ops generalizing s with
  | nil => rfl
  | cons op ops ih => exact ih

/-- Machines that answer every step alike, and stay related by it, answer every run alike. -/
theorem replies_refine {impl : ι → σ → ρ × σ} {spec : ι → τ → ρ × τ} {cond : ι → Prop}
    {related : σ → τ → Prop}
    (hstep : ∀ op s t, cond op → related s t →
      (impl op s).1 = (spec op t).1 ∧ related (impl op s).2 (spec op t).2)
    (hcond : ∀ op ∈ ops, cond op) {t : τ} (h : related s t) :
    (replies impl ops s).1 = (replies spec ops t).1 ∧
      related (replies impl ops s).2 (replies spec ops t).2 := by
  induction ops generalizing s t with
  | nil => exact ⟨rfl, h⟩
  | cons op ops ih =>
    obtain ⟨hreply, hrelated⟩ := hstep op s t (hcond op (by simp)) h
    obtain ⟨hrest, hend⟩ := ih (fun o ho => hcond o (by simp [ho])) hrelated
    exact ⟨congrArg₂ List.cons hreply hrest, hend⟩

/-- The replies to a list of operations, and the state behind them, if each is possible where it
is taken. -/
def answers (step : ι → σ → Option (ρ × σ)) : List ι → σ → Option (List ρ × σ)
  | [], s => some ([], s)
  | op :: ops, s => (step op s).bind fun (reply, s') =>
    (answers step ops s').map fun (rest, s'') => (reply :: rest, s'')

/-- Machines that can take the same steps, answer them alike and stay related by them have the
same runs. -/
theorem answers_refine {impl : ι → σ → Option (ρ × σ)} {spec : ι → τ → Option (ρ × τ)}
    {cond : ι → Prop} {related : σ → τ → Prop}
    (hstep : ∀ op s t, cond op → related s t →
      Option.Rel (fun r r' => r.1 = r'.1 ∧ related r.2 r'.2) (impl op s) (spec op t))
    (hcond : ∀ op ∈ ops, cond op) {t : τ} (h : related s t) :
    Option.Rel (fun r r' => r.1 = r'.1 ∧ related r.2 r'.2) (answers impl ops s)
      (answers spec ops t) := by
  induction ops generalizing s t with
  | nil => exact .some ⟨rfl, h⟩
  | cons op ops ih =>
    have hone := hstep op s t (hcond op (by simp)) h
    rw [answers, answers]
    generalize impl op s = r, spec op t = r' at hone
    cases hone with
    | none => exact .none
    | some hreply =>
      have hrest := ih (fun o ho => hcond o (by simp [ho])) hreply.2
      simp only [Option.bind_some]
      generalize answers impl ops _ = r, answers spec ops _ = r' at hrest
      cases hrest with
      | none => exact .none
      | some hend => exact .some ⟨congrArg₂ List.cons hreply.1 hend.1, hend.2⟩

end Runs
