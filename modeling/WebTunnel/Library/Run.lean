import Mathlib.Logic.Basic

/-! Runs of a transition function that may refuse or fail, restricted to steps that meet a
condition, and the induction rule for invariants over them. -/

namespace WebTunnel.Library.Run

variable {σ α : Type}

/-- States reached from `init` by steps that succeed and meet `good` where they are taken. -/
inductive Reach (step : σ → α → Option σ) (good : σ → α → Prop) (init : σ → Prop) : σ → Prop
  | start {s : σ} : init s → Reach step good init s
  | next {s t : σ} {a : α} : Reach step good init s → good s a → step s a = some t →
      Reach step good init t

variable {step : σ → α → Option σ} {good : σ → α → Prop} {init : σ → Prop}

/-- An invariant of the initial states that every good step preserves holds in every state reached. -/
theorem Reach.invariant {Inv : σ → Prop} (start : ∀ s, init s → Inv s)
    (preserved : ∀ s a t, Inv s → good s a → step s a = some t → Inv t)
    {s : σ} (reached : Reach step good init s) : Inv s := by
  induction reached with
  | start first => exact start _ first
  | next _ ok moved ih => exact preserved _ _ _ ih ok moved

theorem Reach.mono {good' : σ → α → Prop} (weaker : ∀ s a, good s a → good' s a)
    {s : σ} (reached : Reach step good init s) : Reach step good' init s := by
  induction reached with
  | start first => exact .start first
  | next _ ok moved ih => exact .next ih (weaker _ _ ok) moved

/-- The run along a given list of steps. -/
def run (step : σ → α → Option σ) : σ → List α → Option σ
  | s, [] => some s
  | s, a :: rest => (step s a).bind fun t => run step t rest

@[simp] theorem run_nil (s : σ) : run step s [] = some s := rfl

theorem run_cons (s : σ) (a : α) (rest : List α) :
    run step s (a :: rest) = (step s a).bind fun t => run step t rest := rfl

theorem run_append (s : σ) (first second : List α) :
    run step s (first ++ second) = (run step s first).bind fun t => run step t second := by
  induction first generalizing s with
  | nil => rfl
  | cons a rest ih =>
    rw [List.cons_append, run_cons, run_cons]
    cases step s a with
    | none => rfl
    | some t => exact ih t

/-- A Boolean test of a step, which implies the condition on it. -/
structure Test (good : σ → α → Prop) where
  passes : σ → α → Bool
  sound : ∀ s a, passes s a = true → good s a

namespace Test
variable {good' : σ → α → Prop}

/-- A condition that can be decided is its own test. -/
def decided (good : σ → α → Prop) [∀ s a, Decidable (good s a)] : Test good where
  passes s a := decide (good s a)
  sound _ _ := of_decide_eq_true

def both (first : Test good) (second : Test good') : Test fun s a => good s a ∧ good' s a where
  passes s a := first.passes s a && second.passes s a
  sound s a passes := by
    rw [Bool.and_eq_true] at passes
    exact ⟨first.sound s a passes.1, second.sound s a passes.2⟩

/-- The run along a given list of steps that stops at one that fails the test. -/
def run (test : Test good) (step : σ → α → Option σ) (s : σ) (steps : List α) : Option σ :=
  Run.run (fun s a => if test.passes s a then step s a else none) s steps

theorem run_cons_eq_some {test : Test good} {s t : σ} {a : α} {rest : List α} (ran : test.run step s (a :: rest) = some t) :
    good s a ∧ ∃ u, step s a = some u ∧ test.run step u rest = some t := by
  obtain ⟨u, moved, ran⟩ := Option.bind_eq_some_iff.mp ran
  obtain ⟨passes, moved⟩ := Option.ite_none_right_eq_some.mp moved
  exact ⟨test.sound s a passes, u, moved, ran⟩

/-- A run whose steps pass a test is a run. -/
theorem ran {test : Test good} {s t : σ} {steps : List α} (ran : test.run step s steps = some t) :
    Run.run step s steps = some t := by
  induction steps generalizing s with
  | nil => exact ran
  | cons a rest ih =>
    obtain ⟨_, u, moved, ran⟩ := run_cons_eq_some ran
    rw [run_cons, moved]
    exact ih ran

/-- A list of steps that passes the test leads to a state reached. -/
theorem reach {test : Test good} {s t : σ} {steps : List α} (first : init s) (ran : test.run step s steps = some t) :
    Reach step good init t := by
  have general : ∀ (rest : List α) (u : σ), Reach step good init u → test.run step u rest = some t →
      Reach step good init t := by
    intro rest
    induction rest with
    | nil =>
      intro u reached ran
      cases ran
      exact reached
    | cons a rest ih =>
      intro u reached ran
      obtain ⟨ok, v, moved, ran⟩ := run_cons_eq_some ran
      exact ih v (.next reached ok moved) ran
  exact general steps s (.start first) ran

end Test

/-- Any list of steps leads to a state reached where no condition is put on steps. -/
theorem reach_of_free_run {s t : σ} {steps : List α} (first : init s) (ran : run step s steps = some t) :
    Reach step (fun _ _ => True) init t := by
  have checked : (Test.decided fun _ _ => True).run step s steps = some t := by
    simpa only [Test.run, Test.decided, decide_true, if_true] using ran
  exact Test.reach first checked

/-- Along the run of the given steps, `P` holds of every state and the step taken there. -/
def Always (step : σ → α → Option σ) (P : σ → α → Prop) : σ → List α → Prop
  | _, [] => True
  | s, a :: rest => P s a ∧ ∀ t, step s a = some t → Always step P t rest

theorem always_congr {P Q : σ → α → Prop} (same : ∀ s a, P s a ↔ Q s a) (s : σ) (steps : List α) :
    Always step P s steps ↔ Always step Q s steps := by
  induction steps generalizing s with
  | nil => rfl
  | cons a rest ih => exact and_congr (same s a) (forall₂_congr fun t _ => ih t)

theorem Always.at_end {P : σ → α → Prop} {s t : σ} {steps : List α} {a : α}
    (always : Always step P s (steps ++ [a])) (ran : run step s steps = some t) : P t a := by
  induction steps generalizing s with
  | nil =>
    cases ran
    exact always.1
  | cons b rest ih =>
    rw [run_cons] at ran
    cases moved : step s b with
    | none => simp [moved] at ran
    | some u =>
      rw [moved] at ran
      exact ih (always.2 u moved) ran

/-- Along a run that passes a test, the condition holds. -/
theorem Test.always {test : Test good} {s t : σ} {steps : List α} (ran : test.run step s steps = some t) :
    Always step good s steps := by
  induction steps generalizing s with
  | nil => trivial
  | cons a rest ih =>
    obtain ⟨ok, u, moved, ran⟩ := run_cons_eq_some ran
    refine ⟨ok, fun v moved' => ?_⟩
    cases moved.symm.trans moved'
    exact ih ran

/-- A run leads to a state that passes a test, and where it passes `P` fails. -/
theorem not_always_of_check {P : σ → α → Prop} {s : σ} {steps : List α} {a : α} (check : σ → Bool)
    (ran : (run step s steps).map check = some true) (bad : ∀ t, check t = true → ¬ P t a) :
    ¬ Always step P s (steps ++ [a]) := by
  intro always
  obtain ⟨t, found, passes⟩ := Option.map_eq_some_iff.mp ran
  exact bad t passes (always.at_end found)

end WebTunnel.Library.Run
