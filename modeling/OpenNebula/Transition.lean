/-
# Runs of a transition function

A component that takes step after step is given here by a partial function
`step : σ → ε → Option σ`: in state `s` the event `e` is either impossible
(`none`) or leads to one next state.  All non-determinism (which thread runs,
which message arrives, whether the database answers) is in the choice of the
events.

* `Reach step ok a b` says that `b` is reached from `a` by finitely many steps,
  each of which met the condition `ok` in the state it was taken in.  With
  `ok = fun _ _ => True` these are all the runs of the component.
* `Reach.inv` is the invariant rule: what holds at the start and is kept by every
  step holds in every state reached.
* `runEvents` executes a fixed list of events; `reach_of_runEvents` turns such an
  execution into a run.  `runChecked` also checks a condition on the way.
-/
import Mathlib

namespace Transition

variable {σ ε : Type*}

/-- `Reach step ok a b`: the state `b` is reached from `a` by steps each of which
meets `ok` in the state before it. -/
inductive Reach (step : σ → ε → Option σ) (ok : σ → ε → Prop) (a : σ) : σ → Prop
  | refl : Reach step ok a a
  | tail {b c : σ} {e : ε} :
      Reach step ok a b → ok b e → step b e = some c → Reach step ok a c

/-- All the runs of a transition function. -/
abbrev Run (step : σ → ε → Option σ) (a b : σ) : Prop :=
  Reach step (fun _ _ => True) a b

variable {step : σ → ε → Option σ} {ok ok' : σ → ε → Prop} {a b c : σ}

theorem Reach.trans (hab : Reach step ok a b) (hbc : Reach step ok b c) :
    Reach step ok a c := by
  induction hbc with
  | refl => exact hab
  | tail _ hok hstep ih => exact Reach.tail ih hok hstep

/-- A run that meets a condition meets every weaker one. -/
theorem Reach.mono (himp : ∀ s e, ok s e → ok' s e) (hab : Reach step ok a b) :
    Reach step ok' a b := by
  induction hab with
  | refl => exact Reach.refl
  | tail _ hok hstep ih => exact Reach.tail ih (himp _ _ hok) hstep

/-- **The invariant rule.**  What holds at the start and is kept by every step
holds in every state reached. -/
theorem Reach.inv {P : σ → Prop} (hab : Reach step ok a b) (hinit : P a)
    (hstep : ∀ s e t, P s → ok s e → step s e = some t → P t) : P b := by
  induction hab with
  | refl => exact hinit
  | tail _ hok hs ih => exact hstep _ _ _ ih hok hs

/-- Execution of a list of events. -/
def runEvents (step : σ → ε → Option σ) : σ → List ε → Option σ
  | s, [] => some s
  | s, e :: es =>
    match step s e with
    | some t => runEvents step t es
    | none => none

/-- An execution of a list of events is a run, and it meets what all the events meet. -/
theorem reach_of_runEvents {P : ε → Prop} (es : List ε) :
    ∀ {s t : σ}, (∀ e ∈ es, P e) → runEvents step s es = some t →
      Reach step (fun _ e => P e) s t := by
  induction es with
  | nil =>
    intro s t _ h
    simp only [runEvents, Option.some.injEq] at h
    rw [← h]
    exact Reach.refl
  | cons e es ih =>
    intro s t hP h
    simp only [runEvents] at h
    split at h
    · rename_i u hu
      have hrest := ih (fun e' he' => hP e' (List.mem_cons_of_mem e he')) h
      exact (Reach.tail Reach.refl (hP e List.mem_cons_self) hu).trans hrest
    · exact absurd h (by simp)

/-- An execution of a list of events is a run of the component. -/
theorem run_of_runEvents (es : List ε) {s t : σ} (h : runEvents step s es = some t) : Run step s t :=
  reach_of_runEvents (P := fun _ => True) es (fun _ _ => trivial) h

/-- The last event of an execution. -/
theorem runEvents_concat (es : List ε) (e : ε) :
    ∀ {s t : σ}, runEvents step s (es ++ [e]) = some t → ∃ u, runEvents step s es = some u ∧ step u e = some t := by
  induction es with
  | nil =>
    intro s t h
    simp only [List.nil_append, runEvents] at h
    split at h
    · rename_i u hu
      rw [← Option.some.inj h]
      exact ⟨s, rfl, hu⟩
    · exact absurd h (by simp)
  | cons a es ih =>
    intro s t h
    simp only [List.cons_append, runEvents] at h ⊢
    split at h
    · exact ih h
    · exact absurd h (by simp)

/-- Execution of a list of events each of which has to meet a condition. -/
def runChecked (step : σ → ε → Option σ) (ok : σ → ε → Prop) [∀ s e, Decidable (ok s e)] :
    σ → List ε → Option σ
  | s, [] => some s
  | s, e :: es =>
    if ok s e then
      match step s e with
      | some t => runChecked step ok t es
      | none => none
    else none

theorem reach_of_runChecked [∀ s e, Decidable (ok s e)] (es : List ε) :
    ∀ {s t : σ}, runChecked step ok s es = some t → Reach step ok s t := by
  induction es with
  | nil =>
    intro s t h
    simp only [runChecked, Option.some.injEq] at h
    rw [← h]
    exact Reach.refl
  | cons e es ih =>
    intro s t h
    simp only [runChecked] at h
    split at h
    · rename_i hok
      split at h
      · rename_i u hu
        exact (Reach.tail Reach.refl hok hu).trans (ih h)
      · exact absurd h (by simp)
    · exact absurd h (by simp)

/-- A list of events written with repetition counts. -/
def repeated (l : List (ℕ × ε)) : List ε := l.flatMap (fun p => List.replicate p.1 p.2)

end Transition
