/-
Labelled machines with a partial step, and what holds along their runs.

A machine is a step function `step : σ → ι → Option σ`; `none` means the label is not enabled. A label carries every
outcome the environment decides (what a system call returns, which thread moves), so the step itself is a function and
a run is a list of labels.

- `exec`: the state after a list of labels.
- `Reach`: the states reached by runs whose every step meets a condition `ok`. With `ok = fun _ _ => True` these are
  the reachable states (`Reachable`).
- `Reach.invariant`: what holds at the start and is preserved by every step that meets the condition holds in every
  state reached. A state invariant is proved once per step and never by its own induction.
- `Reach.of_exec`, `Reach.of_guarded`: a concrete run is a member of `Reach`, so counterexamples are evaluated and not
  rebuilt by hand.
- `exec_history`: an invariant that speaks of the labels of the run as well as of the state it ends in.
-/
import Mathlib

namespace WsServer.Machine

variable {σ ι : Type}

/-- the state after the labels `ls`, if every one of them is enabled -/
def exec (step : σ → ι → Option σ) : σ → List ι → Option σ
  | s, [] => some s
  | s, l :: ls => (step s l).bind fun t => exec step t ls

/-- states reached from `s0` by steps that all meet `ok` -/
inductive Reach (step : σ → ι → Option σ) (ok : σ → ι → Prop) (s0 : σ) : σ → Prop where
  | start : Reach step ok s0 s0
  | step {s t : σ} (l : ι) : Reach step ok s0 s → ok s l → step s l = some t → Reach step ok s0 t

/-- states reached by any run -/
abbrev Reachable (step : σ → ι → Option σ) (s0 : σ) : σ → Prop := Reach step (fun _ _ => True) s0

variable {step : σ → ι → Option σ} {ok : σ → ι → Prop} {s0 : σ}

/-- **Invariant rule.** -/
theorem Reach.invariant {P : σ → Prop} (h0 : P s0)
    (hs : ∀ s l t, P s → ok s l → step s l = some t → P t) {s : σ} (h : Reach step ok s0 s) : P s := by
  induction h with
  | start => exact h0
  | step l _ hok hstep ih => exact hs _ l _ ih hok hstep

/-- a second invariant may use the first in its step -/
theorem Reach.invariant_of {P Q : σ → Prop} (hP : ∀ s, Reach step ok s0 s → P s) (h0 : Q s0)
    (hs : ∀ s l t, P s → Q s → ok s l → step s l = some t → Q t) {s : σ} (h : Reach step ok s0 s) : Q s := by
  induction h with
  | start => exact h0
  | step l hr hok hstep ih => exact hs _ l _ (hP _ hr) ih hok hstep

theorem Reach.mono {ok' : σ → ι → Prop} (hle : ∀ s l, ok s l → ok' s l) {s : σ} (h : Reach step ok s0 s) :
    Reach step ok' s0 s := by
  induction h with
  | start => exact .start
  | step l _ hok hstep ih => exact .step l ih (hle _ _ hok) hstep

/-- one run after another -/
theorem Reach.trans {s t : σ} (h : Reach step ok s0 s) (h' : Reach step ok s t) : Reach step ok s0 t := by
  induction h' with
  | start => exact h
  | step l _ hok hstep ih => exact .step l ih hok hstep

/-- the enabled steps of a list of labels all meet `ok` -/
def allOk (step : σ → ι → Option σ) (ok : σ → ι → Prop) : σ → List ι → Prop
  | _, [] => True
  | s, l :: ls => ok s l ∧ match step s l with
    | some t => allOk step ok t ls
    | none => True

instance allOk.decidable [∀ s l, Decidable (ok s l)] : ∀ (s : σ) (ls : List ι), Decidable (allOk step ok s ls)
  | _, [] => .isTrue trivial
  | s, l :: ls => by
    unfold allOk
    cases step s l with
    | none => infer_instance
    | some t => have := allOk.decidable t ls; infer_instance

theorem Reach.of_exec_from {s t : σ} {ls : List ι} (h : Reach step ok s0 s) (hok : allOk step ok s ls)
    (he : exec step s ls = some t) : Reach step ok s0 t := by
  induction ls generalizing s with
  | nil => simp only [exec, Option.some.injEq] at he; exact he ▸ h
  | cons l ls ih =>
    simp only [exec, Option.bind_eq_some_iff] at he
    obtain ⟨u, hu, he⟩ := he
    simp only [allOk, hu] at hok
    exact ih (.step l h hok.1 hu) hok.2 he

theorem Reach.of_exec {t : σ} {ls : List ι} (hok : allOk step ok s0 ls) (he : exec step s0 ls = some t) :
    Reach step ok s0 t :=
  .of_exec_from .start hok he

theorem allOk_true (s : σ) (ls : List ι) : allOk step (fun _ _ => True) s ls := by
  induction ls generalizing s with
  | nil => trivial
  | cons l ls ih =>
    refine ⟨trivial, ?_⟩
    cases step s l with
    | none => trivial
    | some t => exact ih t

theorem allOk.mono {ok' : σ → ι → Prop} (hle : ∀ s l, ok s l → ok' s l) {s : σ} {ls : List ι} (h : allOk step ok s ls) :
    allOk step ok' s ls := by
  induction ls generalizing s with
  | nil => trivial
  | cons l ls ih =>
    refine ⟨hle _ _ h.1, ?_⟩
    have hrest := h.2
    cases hs : step s l with
    | none => trivial
    | some t =>
      rw [hs] at hrest
      exact ih hrest

theorem exec_snoc (s : σ) (ls : List ι) (l : ι) : exec step s (ls ++ [l]) = (exec step s ls).bind fun t => step t l := by
  induction ls generalizing s with
  | nil => exact Option.bind_fun_some (step s l)
  | cons a ls ih =>
    simp only [List.cons_append, exec, Option.bind_assoc]
    congr 1
    funext t
    exact ih t

/-- **Invariant rule for histories**: `P` speaks of the labels so far and of the state they lead to. -/
theorem exec_history {P : List ι → σ → Prop} (h0 : P [] s0)
    (hs : ∀ ls s l t, Reachable step s0 s → P ls s → step s l = some t → P (ls ++ [l]) t) {ls : List ι} {s : σ}
    (h : exec step s0 ls = some s) : P ls s := by
  induction ls using List.reverseRecOn generalizing s with
  | nil => exact Option.some.inj h ▸ h0
  | append_singleton ls l ih =>
    rw [exec_snoc, Option.bind_eq_some_iff] at h
    obtain ⟨u, hu, hstep⟩ := h
    exact hs ls u l s (.of_exec (allOk_true _ _) hu) (ih hu) hstep

/-- the machine that stops where a step does not meet `ok` -/
def guarded (step : σ → ι → Option σ) (ok : σ → ι → Prop) [∀ s l, Decidable (ok s l)] (s : σ) (l : ι) : Option σ :=
  if ok s l then step s l else none

theorem exec_of_guarded [∀ s l, Decidable (ok s l)] {s t : σ} {ls : List ι} (h : exec (guarded step ok) s ls = some t) :
    exec step s ls = some t ∧ allOk step ok s ls := by
  induction ls generalizing s with
  | nil => exact ⟨h, trivial⟩
  | cons l ls ih =>
    simp only [exec, Option.bind_eq_some_iff, guarded, Option.ite_none_right_eq_some] at h
    obtain ⟨u, ⟨hok, hu⟩, hrest⟩ := h
    obtain ⟨he, hall⟩ := ih hrest
    simp only [exec, allOk, hu]
    exact ⟨he, hok, hall⟩

/-- a run of the guarded machine is a run whose every step meets `ok`: one evaluation shows both -/
theorem Reach.of_guarded [∀ s l, Decidable (ok s l)] {s t : σ} {ls : List ι} (h : Reach step ok s0 s)
    (he : exec (guarded step ok) s ls = some t) : Reach step ok s0 t :=
  .of_exec_from h (exec_of_guarded he).2 (exec_of_guarded he).1

/-- a run whose last state passes a check reaches a state that passes it -/
theorem Reachable.of_check (step : σ → ι → Option σ) (s0 : σ) (ls : List ι) (p : σ → Bool)
    (h : (exec step s0 ls).map p = some true) :
    ∃ s, Reachable step s0 s ∧ p s = true := by
  rw [Option.map_eq_some_iff] at h
  obtain ⟨s, hs, hp⟩ := h
  exact ⟨s, .of_exec (allOk_true _ _) hs, hp⟩

end WsServer.Machine
