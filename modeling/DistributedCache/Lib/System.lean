import Mathlib.Data.List.Basic
import Mathlib.Tactic

/-!
# Labelled transition systems and their histories

A system has an initial state and labelled steps. A run is recorded by its history, the labels of
its steps, newest first.

* `System`, `System.Run`, and `System.Run.invariant`, the rule that a property of history and state
  which holds at the start and is kept by every step of a run holds throughout;
* `System.Trace`, the steps from a given state on, and `Run.trace`, which appends them to a run;
* `System.Passed`, that a property held at some moment of a run;
* `Run.unique`: where steps are functions of their labels, so are runs of their histories;
* `System.restrict`, the runs all of whose steps meet a condition;
* `System.Simulates` and `System.Run.simulate`: a forward simulation turns a run of one system into
  a run of the other whose history is the image of the first one's; labels may be dropped.
-/

namespace DistributedCache

universe u v w x

/-- A labelled transition system. -/
structure System (σ : Type u) (ℓ : Type v) where
  init : σ
  step : σ → ℓ → σ → Prop

namespace System

variable {σ : Type u} {ℓ : Type v} {τ : Type w} {m : Type x} {S : System σ ℓ} {T : System τ m}
  {past : List ℓ} {s s' : σ} {l : ℓ}

/-- `Run S past s`: the steps labelled `past`, newest first, lead from the initial state to `s`. -/
inductive Run (S : System σ ℓ) : List ℓ → σ → Prop
  | start : Run S [] S.init
  | snoc {past : List ℓ} {s s' : σ} {l : ℓ} (run : Run S past s) (step : S.step s l s') :
      Run S (l :: past) s'

/-- A property of history and state that every step of a run keeps holds of every run. -/
theorem Run.invariant {P : List ℓ → σ → Prop} (hrun : S.Run past s) (hinit : P [] S.init)
    (hstep : ∀ past s l s', S.Run past s → P past s → S.step s l s' → P (l :: past) s') :
    P past s := by
  induction hrun with
  | start => exact hinit
  | snoc run step ih => exact hstep _ _ _ _ run ih step

/-- `Trace S s later t`: the steps labelled `later`, newest first, lead from `s` to `t`. -/
inductive Trace (S : System σ ℓ) (s : σ) : List ℓ → σ → Prop
  | refl : Trace S s [] s
  | snoc {later : List ℓ} {t t' : σ} {l : ℓ} (trace : Trace S s later t) (step : S.step t l t') :
      Trace S s (l :: later) t'

/-- A run can be continued. -/
theorem Run.trace {later : List ℓ} {t : σ} (hrun : S.Run past s) (htrace : S.Trace s later t) :
    S.Run (later ++ past) t := by
  induction htrace with
  | refl => exact hrun
  | snoc _ step ih => exact .snoc ih step

/-- A run can be cut at any moment of its history. -/
theorem Run.split {later : List ℓ} (hrun : S.Run (later ++ past) s) :
    ∃ u, S.Run past u ∧ S.Trace u later s := by
  induction later generalizing s with
  | nil => exact ⟨s, hrun, .refl⟩
  | cons l later ih =>
    cases hrun with
    | snoc run step =>
      obtain ⟨u, hu, htrace⟩ := ih run
      exact ⟨u, hu, htrace.snoc step⟩

theorem Trace.append {later later' : List ℓ} {t u : σ} (h : S.Trace s later t)
    (h' : S.Trace t later' u) : S.Trace s (later' ++ later) u := by
  induction h' with
  | refl => exact h
  | snoc _ step ih => exact .snoc ih step

/-- A property that every step keeps holds along a trace. -/
theorem Trace.invariant {P : σ → Prop} {later : List ℓ} {t : σ} (htrace : S.Trace s later t)
    (hinit : P s) (hstep : ∀ t l t', P t → S.step t l t' → P t') : P t := by
  induction htrace with
  | refl => exact hinit
  | snoc _ step ih => exact hstep _ _ _ ih step

/-- Along the run with this history the property held at some moment. -/
def Passed (S : System σ ℓ) (past : List ℓ) (s : σ) (P : σ → Prop) : Prop :=
  ∃ later before s', past = later ++ before ∧ S.Run before s' ∧ S.Trace s' later s ∧ P s'

theorem Run.passed {P : σ → Prop} (hrun : S.Run past s) (h : P s) : S.Passed past s P :=
  ⟨[], past, s, rfl, hrun, .refl, h⟩

theorem Passed.snoc {P : σ → Prop} (h : S.Passed past s P) (step : S.step s l s') :
    S.Passed (l :: past) s' P := by
  obtain ⟨later, before, u, rfl, hrun, htrace, hu⟩ := h
  exact ⟨l :: later, before, u, rfl, hrun, htrace.snoc step, hu⟩

/-- Where a step is determined by its label, a run is determined by its history. -/
theorem Run.unique (hstep : ∀ s l s₁ s₂, S.step s l s₁ → S.step s l s₂ → s₁ = s₂)
    (hrun : S.Run past s) (hrun' : S.Run past s') : s = s' := by
  induction hrun generalizing s' with
  | start =>
    cases hrun' with
    | start => rfl
  | snoc run step ih =>
    cases hrun' with
    | snoc run' step' =>
      obtain rfl := ih run'
      exact hstep _ _ _ _ step step'

/-- The system with only those steps that meet `ok`. -/
def restrict (S : System σ ℓ) (ok : σ → ℓ → Prop) : System σ ℓ where
  init := S.init
  step s l s' := S.step s l s' ∧ ok s l

/-- A run of the restricted system is a run. -/
theorem Run.of_restrict {ok : σ → ℓ → Prop} (hrun : (S.restrict ok).Run past s) :
    S.Run past s := by
  induction hrun with
  | start => exact .start
  | snoc _ step ih => exact .snoc ih step.1

/-- `R` is a forward simulation of `S` by `T`: a step of `S` labelled `l` is matched by a step of
`T` labelled `f l`, or by no step where `f l = none`. -/
structure Simulates (S : System σ ℓ) (T : System τ m) (f : ℓ → Option m) (R : σ → τ → Prop) :
    Prop where
  init : R S.init T.init
  step : ∀ {s l s' t}, R s t → S.step s l s' →
    (f l = none ∧ R s' t) ∨ ∃ l' t', f l = some l' ∧ T.step t l' t' ∧ R s' t'

/-- **Forward simulation**: the image of a history of `S` is a history of `T`. -/
theorem Run.simulate {f : ℓ → Option m} {R : σ → τ → Prop} (hsim : Simulates S T f R)
    (hrun : S.Run past s) : ∃ t, T.Run (past.filterMap f) t ∧ R s t := by
  induction hrun with
  | start => exact ⟨T.init, .start, hsim.init⟩
  | snoc _ step ih =>
    obtain ⟨t, ht, hR⟩ := ih
    rcases hsim.step hR step with ⟨hf, hR'⟩ | ⟨l', t', hf, hstep, hR'⟩
    · exact ⟨t, by rwa [List.filterMap_cons_none hf], hR'⟩
    · exact ⟨t', by rw [List.filterMap_cons_some hf]; exact .snoc ht hstep, hR'⟩

end System

end DistributedCache
