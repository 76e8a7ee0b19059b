import Mathlib.Algebra.Order.Ring.Nat
import Mathlib.Data.List.Basic

/-! # Machines

A machine steps from state to state under actions. An action resolves every
choice of its step, so a run is determined by its start and its actions, and
an action that is not enabled has no next state. -/

namespace OomWatcher

structure Machine (State Action : Type) where
  step : State → Action → Option State

namespace Machine

variable {State Action : Type}

def run (machine : Machine State Action) : State → List Action → Option State
  | state, [] => some state
  | state, action :: actions =>
      (machine.step state action).bind fun next => machine.run next actions

/-- Every action of the run is taken in a state where `condition` allows it. -/
def Meets (machine : Machine State Action) (condition : State → Action → Prop) :
    State → List Action → Prop
  | _, [] => True
  | state, action :: actions =>
      condition state action ∧
        ∀ next, machine.step state action = some next →
          machine.Meets condition next actions

instance decidableMeets (machine : Machine State Action)
    (condition : State → Action → Prop) [∀ state action, Decidable (condition state action)]
    (state : State) (actions : List Action) : Decidable (machine.Meets condition state actions) :=
  match actions with
  | [] => isTrue trivial
  | action :: actions =>
      match stepped : machine.step state action with
      | none => decidable_of_iff (condition state action) (by simp [Meets, stepped])
      | some next =>
          have := decidableMeets machine condition next actions
          decidable_of_iff (condition state action ∧ machine.Meets condition next actions)
            (by simp [Meets, stepped])

theorem run_cons_eq_some {machine : Machine State Action}
    {state final : State} {action : Action} {actions : List Action} :
    machine.run state (action :: actions) = some final ↔
      ∃ next, machine.step state action = some next ∧
        machine.run next actions = some final := by
  simp only [run, Option.bind_eq_some_iff]

theorem run_append (machine : Machine State Action) (state : State)
    (first second : List Action) :
    machine.run state (first ++ second) =
      (machine.run state first).bind fun middle => machine.run middle second := by
  induction first generalizing state with
  | nil => rfl
  | cons action actions induction =>
      rw [List.cons_append, run, run]
      cases machine.step state action with
      | none => rfl
      | some next => exact induction next

theorem Meets.always (machine : Machine State Action) (state : State)
    (actions : List Action) : machine.Meets (fun _ _ => True) state actions := by
  induction actions generalizing state with
  | nil => trivial
  | cons action actions induction => exact ⟨trivial, fun next _ => induction next⟩

theorem Meets.of_forall {machine : Machine State Action} {condition : State → Action → Prop}
    {actions : List Action} (allowed : ∀ action ∈ actions, ∀ state, condition state action)
    (state : State) : machine.Meets condition state actions := by
  induction actions generalizing state with
  | nil => trivial
  | cons action actions induction =>
      refine ⟨allowed action List.mem_cons_self state, fun next _ => ?_⟩
      exact induction (fun later member => allowed later (List.mem_cons_of_mem _ member)) next

theorem exists_run_of_decided {machine : Machine State Action} {start : State}
    {actions : List Action} (property : State → Prop) [DecidablePred property]
    {goal : State → Prop}
    (follows : ∀ final, machine.run start actions = some final → property final → goal final)
    (decided : (machine.run start actions).any (fun final => decide (property final)) = true) :
    ∃ final, machine.run start actions = some final ∧ goal final := by
  rcases (Option.any_eq_true _ _).mp decided with ⟨final, ran, holds⟩
  exact ⟨final, ran, follows final ran (of_decide_eq_true holds)⟩

/-- What holds at the start and is kept by every step that meets the condition
holds at the end of every run whose steps all meet it. -/
theorem invariant_of_run {machine : Machine State Action}
    {condition : State → Action → Prop} {Invariant : State → Prop}
    (stepKeeps : ∀ {state action next}, Invariant state →
      condition state action → machine.step state action = some next →
        Invariant next)
    {start final : State} {actions : List Action}
    (atStart : Invariant start) (meets : machine.Meets condition start actions)
    (ran : machine.run start actions = some final) : Invariant final := by
  induction actions generalizing start with
  | nil => exact Option.some.inj ran ▸ atStart
  | cons action actions induction =>
      rcases run_cons_eq_some.mp ran with ⟨next, stepped, rest⟩
      exact induction (stepKeeps atStart meets.1 stepped) (meets.2 next stepped) rest

theorem invariant_of_any_run {machine : Machine State Action}
    {Invariant : State → Prop}
    (stepKeeps : ∀ {state action next}, Invariant state →
      machine.step state action = some next → Invariant next)
    {start final : State} {actions : List Action} (atStart : Invariant start)
    (ran : machine.run start actions = some final) : Invariant final :=
  invariant_of_run (fun holds _ stepped => stepKeeps holds stepped) atStart
    (Meets.always machine start actions) ran

/-- The rule for what depends on the actions taken so far. -/
theorem invariant_of_actions {machine : Machine State Action}
    {Invariant : List Action → State → Prop}
    (stepKeeps : ∀ {taken state action next}, Invariant taken state →
      machine.step state action = some next → Invariant (taken ++ [action]) next)
    {start final : State} {actions : List Action} (atStart : Invariant [] start)
    (ran : machine.run start actions = some final) : Invariant actions final := by
  have continues : ∀ {rest taken state}, Invariant taken state →
      machine.run state rest = some final → Invariant (taken ++ rest) final := by
    intro rest
    induction rest with
    | nil =>
        intro taken state holds ended
        rw [List.append_nil]
        exact Option.some.inj ended ▸ holds
    | cons action rest induction =>
        intro taken state holds continued
        rcases run_cons_eq_some.mp continued with ⟨next, stepped, later⟩
        have atEnd := induction (stepKeeps holds stepped) later
        rwa [List.append_assoc] at atEnd
  exact continues atStart ran

/-- Where every state short of the goal has an allowed step that keeps the invariant
and leaves less of a measure, allowed steps lead to the goal. -/
theorem exists_run_of_progress {machine : Machine State Action}
    {Invariant Goal : State → Prop} {allowed : Action → Prop} (measure : State → Nat)
    (progress : ∀ state, Invariant state → ¬Goal state → ∃ action next, allowed action ∧
      machine.step state action = some next ∧ Invariant next ∧ measure next < measure state)
    {start : State} (atStart : Invariant start) :
    ∃ actions final, (∀ action ∈ actions, allowed action) ∧
      machine.run start actions = some final ∧ Invariant final ∧ Goal final := by
  induction size : measure start using Nat.strong_induction_on generalizing start with
  | _ size induction =>
      by_cases atGoal : Goal start
      · exact ⟨[], start, List.forall_mem_nil _, rfl, atStart, atGoal⟩
      · rcases progress start atStart atGoal with ⟨action, next, isAllowed, stepped, holds, less⟩
        rcases induction (measure next) (by omega) holds rfl with
          ⟨actions, final, areAllowed, ran, atEnd, reached⟩
        refine ⟨action :: actions, final, List.forall_mem_cons.mpr ⟨isAllowed, areAllowed⟩, ?_,
          atEnd, reached⟩
        exact run_cons_eq_some.mpr ⟨next, stepped, ran⟩

theorem total_of_run {machine : Machine State Action} {Invariant : State → Prop}
    (total : State → Nat) (gain : Action → Nat)
    (stepKeeps : ∀ {state action next}, Invariant state →
      machine.step state action = some next → Invariant next)
    (stepGains : ∀ {state action next}, Invariant state →
      machine.step state action = some next → total next = total state + gain action)
    {start final : State} {actions : List Action} (atStart : Invariant start)
    (ran : machine.run start actions = some final) :
    total final = total start + (actions.map gain).sum := by
  induction actions generalizing start with
  | nil => exact Option.some.inj ran ▸ rfl
  | cons action actions induction =>
      rcases run_cons_eq_some.mp ran with ⟨next, stepped, rest⟩
      have gained := stepGains atStart stepped
      have later := induction (stepKeeps atStart stepped) rest
      rw [List.map_cons, List.sum_cons]
      omega

theorem spent_of_run {machine : Machine State Action} (stock : State → Nat)
    (given spent : Action → Nat)
    (stepSpends : ∀ {state action next}, machine.step state action = some next →
      stock next + spent action ≤ stock state + given action)
    {start final : State} {actions : List Action}
    (ran : machine.run start actions = some final) :
    stock final + (actions.map spent).sum ≤ stock start + (actions.map given).sum := by
  induction actions generalizing start with
  | nil => exact Option.some.inj ran ▸ Nat.le_refl _
  | cons action actions induction =>
      rcases run_cons_eq_some.mp ran with ⟨next, stepped, rest⟩
      have first := stepSpends stepped
      have later := induction rest
      rw [List.map_cons, List.sum_cons, List.map_cons, List.sum_cons]
      omega

end Machine

end OomWatcher
