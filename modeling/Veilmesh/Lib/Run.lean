/-
  Runs of a labelled transition system.

  `Run step s es s'` is a run from `s` to `s'` with the labels `es` in order. Invariants
  of whole runs come from invariants of single steps:

  * `Run.invariant`: a property every step keeps holds at the end of a run.
  * `Run.invariant_of`: the same for runs whose labels all satisfy a condition.
  * `Run.history`: the same for a property of the state and the labels so far.
  * `Run.append_iff`: cutting a run in pieces.
  * `Run.stutter`: a view of the state that each step keeps or moves on by one fixed function.
-/
import Mathlib.Logic.Function.Iterate

namespace Veilmesh.Lib

variable {σ ε : Type*}

/-- A run of `step` from a state to a state. -/
inductive Run (step : σ → ε → σ → Prop) : σ → List ε → σ → Prop where
  | nil (s : σ) : Run step s [] s
  | cons {s s' s'' : σ} {e : ε} {es : List ε} (h : step s e s') (hs : Run step s' es s'') :
      Run step s (e :: es) s''

namespace Run

variable {step : σ → ε → σ → Prop} {s s' : σ} {es : List ε} {I : σ → Prop}

theorem single {e : ε} (h : step s e s') : Run step s [e] s' := cons h (nil s')

theorem nil_iff : Run step s [] s' ↔ s = s' :=
  ⟨fun h => by cases h; rfl, fun h => h ▸ nil s⟩

theorem cons_iff {s'' : σ} {e : ε} :
    Run step s (e :: es) s'' ↔ ∃ s', step s e s' ∧ Run step s' es s'' := by
  constructor
  · intro h
    cases h with
    | cons h hs => exact ⟨_, h, hs⟩
  · rintro ⟨s', h, hs⟩
    exact cons h hs

theorem append_iff {s'' : σ} {fs : List ε} :
    Run step s (es ++ fs) s'' ↔ ∃ s', Run step s es s' ∧ Run step s' fs s'' := by
  induction es generalizing s with
  | nil => simp [nil_iff]
  | cons e es ih =>
    simp only [List.cons_append, cons_iff, ih]
    constructor
    · rintro ⟨s1, h1, s2, h2, h3⟩
      exact ⟨s2, ⟨s1, h1, h2⟩, h3⟩
    · rintro ⟨s2, ⟨s1, h1, h2⟩, h3⟩
      exact ⟨s1, h1, s2, h2, h3⟩

theorem mono {step' : σ → ε → σ → Prop} (hsub : ∀ s e s', step s e s' → step' s e s')
    (h : Run step s es s') : Run step' s es s' := by
  induction h with
  | nil s => exact nil s
  | cons h _ ih => exact cons (hsub _ _ _ h) ih

/-- A condition on the labels, whatever the state, is one on the steps. -/
theorem guard {P : σ → ε → Prop} (h : Run step s es s') (hP : ∀ e ∈ es, ∀ t, P t e) :
    Run (fun t e t' => step t e t' ∧ P t e) s es s' := by
  induction h with
  | nil s => exact nil s
  | cons h _ ih =>
    exact cons ⟨h, hP _ List.mem_cons_self _⟩ (ih fun e he => hP e (List.mem_cons_of_mem _ he))

/-- What every step with a label in `P` keeps, a run with labels in `P` keeps. -/
theorem invariant_of {P : ε → Prop} (hstep : ∀ s e s', I s → P e → step s e s' → I s')
    (h : Run step s es s') (hP : ∀ e ∈ es, P e) (hs : I s) : I s' := by
  induction h with
  | nil => exact hs
  | cons h _ ih =>
    exact ih (fun e he => hP e (List.mem_cons_of_mem _ he))
      (hstep _ _ _ hs (hP _ List.mem_cons_self) h)

/-- What every step keeps, every run keeps. -/
theorem invariant (hstep : ∀ s e s', I s → step s e s' → I s') (h : Run step s es s') (hs : I s) :
    I s' :=
  h.invariant_of (P := fun _ => True) (fun s e s' hi _ hst => hstep s e s' hi hst)
    (fun _ _ => trivial) hs

/-- What every step keeps of a state and the labels that led to it, every run keeps. -/
theorem history {I : List ε → σ → Prop} (hstep : ∀ h s e s', I h s → step s e s' → I (h ++ [e]) s')
    (hrun : Run step s es s') {h : List ε} (hs : I h s) : I (h ++ es) s' := by
  induction hrun generalizing h with
  | nil => rwa [List.append_nil]
  | cons hfirst _ ih =>
    rw [List.append_cons]
    exact ih (hstep _ _ _ _ hs hfirst)

/-- If every step keeps the view `proj` of the state or moves it on by `next`, a run moves it on
    some number of times. -/
theorem stutter {τ : Type*} {proj : σ → τ} {next : τ → τ} (hI : ∀ s e s', I s → step s e s' → I s')
    (hstep : ∀ s e s', I s → step s e s' → proj s' = proj s ∨ proj s' = next (proj s))
    (h : Run step s es s') (hs : I s) : ∃ k, proj s' = next^[k] (proj s) := by
  induction h with
  | nil => exact ⟨0, rfl⟩
  | cons h _ ih =>
    obtain ⟨k, hk⟩ := ih (hI _ _ _ hs h)
    rcases hstep _ _ _ hs h with heq | heq
    · exact ⟨k, heq ▸ hk⟩
    · refine ⟨k + 1, ?_⟩
      rw [hk, heq, Function.iterate_succ_apply]

end Run

end Veilmesh.Lib
