import Mathlib.Data.List.Basic
import Mathlib.Tactic.Common

/-!
# Runs of a transition system

A system is a partial function `step`: an action that is not enabled has no
successor. `Reachable step ok s₀` are the states that runs from `s₀` lead to
when every action meets `ok` in the state it is taken in; an invariant of it is
shown by one step lemma.
-/

namespace Transition

variable {σ α : Type*} {step : σ → α → Option σ} {ok ok' : σ → α → Prop} {s₀ s s' : σ}

inductive Reachable (step : σ → α → Option σ) (ok : σ → α → Prop) (s₀ : σ) : σ → Prop
  | start : Reachable step ok s₀ s₀
  | step {s s' : σ} (a : α) (h : Reachable step ok s₀ s) (hok : ok s a)
      (hs : step s a = some s') : Reachable step ok s₀ s'

namespace Reachable

theorem invariant {P : σ → Prop} (h : Reachable step ok s₀ s) (hstart : P s₀)
    (hstep : ∀ s s' a, P s → ok s a → step s a = some s' → P s') : P s := by
  induction h with
  | start => exact hstart
  | step a _ hok hs ih => exact hstep _ _ a ih hok hs

theorem invariant' {P : σ → Prop} (h : Reachable step ok s₀ s) (hstart : P s₀)
    (hstep : ∀ s s' a, Reachable step ok s₀ s → P s → ok s a → step s a = some s' → P s') :
    P s := by
  induction h with
  | start => exact hstart
  | step a h hok hs ih => exact hstep _ _ a h ih hok hs

theorem trans {s₁ : σ} (h : Reachable step ok s₀ s₁) (h' : Reachable step ok s₁ s) :
    Reachable step ok s₀ s := by
  induction h' with
  | start => exact h
  | step a _ hok hs ih => exact .step a ih hok hs

end Reachable

/-- The state after a list of actions, if each is enabled in its turn. -/
def run (step : σ → α → Option σ) (s : σ) : List α → Option σ
  | [] => some s
  | a :: rest => (step s a).bind fun s' => run step s' rest

/-- Every action of the list meets `ok` in the state it is taken in. -/
def AllOk (step : σ → α → Option σ) (ok : σ → α → Prop) (s : σ) : List α → Prop
  | [] => True
  | a :: rest => ok s a ∧ ∀ s', step s a = some s' → AllOk step ok s' rest

theorem reachable_of_run {l : List α} (h : run step s₀ l = some s)
    (hok : AllOk step ok s₀ l) : Reachable step ok s₀ s := by
  induction l generalizing s₀ with
  | nil =>
      cases h
      exact .start
  | cons a rest ih =>
      obtain ⟨s₁, hs₁, hrun⟩ := Option.bind_eq_some_iff.1 h
      exact Reachable.trans (.step a .start hok.1 hs₁) (ih hrun (hok.2 s₁ hs₁))

theorem allOk_of_forall {l : List α} (h : ∀ s, ∀ a ∈ l, ok s a) : AllOk step ok s l := by
  induction l generalizing s with
  | nil => exact True.intro
  | cons a rest ih =>
      exact ⟨h s a List.mem_cons_self,
        fun s' _ => ih fun s b hb => h s b (List.mem_cons_of_mem a hb)⟩

/-- The state after a list of actions, if each meets `ok` and is enabled in its turn. -/
def runChecked (step : σ → α → Option σ) (ok : σ → α → Prop) [∀ s a, Decidable (ok s a)]
    (s : σ) : List α → Option σ
  | [] => some s
  | a :: rest => if ok s a then (step s a).bind fun s' => runChecked step ok s' rest else none

theorem reachable_of_runChecked [∀ s a, Decidable (ok s a)] {l : List α}
    (h : runChecked step ok s₀ l = some s) : Reachable step ok s₀ s := by
  induction l generalizing s₀ with
  | nil =>
      cases h
      exact .start
  | cons a rest ih =>
      unfold runChecked at h
      split at h
      case isTrue hok =>
          obtain ⟨s₁, hs₁, hrun⟩ := Option.bind_eq_some_iff.1 h
          exact Reachable.trans (.step a .start hok hs₁) (ih hrun)
      case isFalse => cases h

end Transition
