import OomWatcher.Foundation.Machine
import OomWatcher.Metrics.Collector

/-! # Instructions, one Prometheus call at a time

A task works through a list of instructions. Obtaining a handle, each use of the
handle and each removal is a step of its own, so that another task may run in
between. -/

namespace OomWatcher

variable {Vec : Type} [MetricVec Vec (List String)]

open MetricVec

/-! ## Single Prometheus calls -/

def Exported (vecs : Family → Vec) (series : Family × List String) : Prop :=
  sample vecs series.1 series.2 ≠ none

theorem sample_obtain (vecs : Family → Vec) (family : Family) (labels : List String)
    (otherFamily : Family) (otherLabels : List String) :
    sample (Function.update vecs family (withLabelValues (vecs family) labels).1)
        otherFamily otherLabels =
      if otherFamily = family ∧ otherLabels = labels then
        some ((sample vecs family labels).getD 0)
      else sample vecs otherFamily otherLabels := by
  by_cases sameFamily : otherFamily = family
  · subst sameFamily
    simp only [sample, Function.update_self, true_and]
    rw [exported_withLabelValues]
  · simp [sample, sameFamily]

theorem sample_store_of_child {vecs : Family → Vec} {family : Family} {labels : List String}
    {handle : Handle Vec} (attached : child (vecs family) labels = some handle) (value : Nat)
    (otherFamily : Family) (otherLabels : List String) :
    sample (Function.update vecs family (store (vecs family) handle value))
        otherFamily otherLabels =
      if otherFamily = family ∧ otherLabels = labels then some value
      else sample vecs otherFamily otherLabels := by
  by_cases sameFamily : otherFamily = family
  · subst sameFamily
    simp only [sample, Function.update_self, true_and]
    rw [exported_store_of_child attached]
  · simp [sample, sameFamily]

theorem sample_update_of_child {vecs : Family → Vec} {family : Family} {labels : List String}
    {handle : Handle Vec} (attached : child (vecs family) labels = some handle)
    (change : Nat → Nat) (otherFamily : Family) (otherLabels : List String) :
    sample (Function.update vecs family (update (vecs family) handle change))
        otherFamily otherLabels =
      if otherFamily = family ∧ otherLabels = labels then
        some (change ((sample vecs family labels).getD 0))
      else sample vecs otherFamily otherLabels := by
  have value : sample vecs family labels = some (read (vecs family) handle) :=
    exported_of_child attached
  rw [value]
  exact sample_store_of_child attached _ otherFamily otherLabels

theorem exported_store (vecs : Family → Vec) (family : Family) (handle : Handle Vec)
    (value : Nat) (series : Family × List String) :
    Exported (Function.update vecs family (store (vecs family) handle value)) series ↔
      Exported vecs series := by
  unfold Exported
  by_cases sameFamily : series.1 = family
  · rw [← sameFamily]
    simp [sample, exported]
  · simp [sample, sameFamily]

/-! ## Tasks -/

inductive Phase (Vec : Type) [MetricVec Vec (List String)]
  | ready
  | holding (handle : Handle Vec)
  | setting (handle : Handle Vec) (value : Nat)

structure Task (Vec : Type) [MetricVec Vec (List String)] where
  finished : List Instruction
  rest : List Instruction
  phase : Phase Vec

namespace Task

def start (instructions : List Instruction) : Task Vec where
  finished := []
  rest := instructions
  phase := .ready

/-- The next Prometheus call of a task; none when its instructions are done. -/
def step (vecs : Family → Vec) (task : Task Vec) : Option ((Family → Vec) × Task Vec) :=
  match task.rest with
  | [] => none
  | instruction :: later =>
      let next : Task Vec := ⟨task.finished ++ [instruction], later, .ready⟩
      match instruction, task.phase with
      | .remove family labels, _ => some (execute vecs (.remove family labels), next)
      | .write family labels _, .ready =>
          let (vec, handle) := withLabelValues (vecs family) labels
          some (Function.update vecs family vec, { task with phase := .holding handle })
      | .write family _ (.raise value), .holding handle =>
          if value > read (vecs family) handle then
            some (vecs, { task with phase := .setting handle value })
          else some (vecs, next)
      | .write family _ write, .holding handle =>
          some (Function.update vecs family (update (vecs family) handle write.change), next)
      | .write family _ _, .setting handle value =>
          some (Function.update vecs family (store (vecs family) handle value), next)

inductive Steps : (Family → Vec) → Task Vec → (Family → Vec) → Task Vec → Prop
  | removed {vecs finished family labels later phase} :
      Steps vecs ⟨finished, .remove family labels :: later, phase⟩
        (execute vecs (.remove family labels))
        ⟨finished ++ [.remove family labels], later, .ready⟩
  | obtained {vecs finished family labels write later} :
      Steps vecs ⟨finished, .write family labels write :: later, .ready⟩
        (Function.update vecs family (withLabelValues (vecs family) labels).1)
        ⟨finished, .write family labels write :: later,
          .holding (withLabelValues (vecs family) labels).2⟩
  | changed {vecs finished family labels write later handle}
      (direct : ∀ value, write ≠ .raise value) :
      Steps vecs ⟨finished, .write family labels write :: later, .holding handle⟩
        (Function.update vecs family (update (vecs family) handle write.change))
        ⟨finished ++ [.write family labels write], later, .ready⟩
  | exceeded {vecs finished family labels value later handle}
      (above : read (vecs family) handle < value) :
      Steps vecs ⟨finished, .write family labels (.raise value) :: later, .holding handle⟩
        vecs
        ⟨finished, .write family labels (.raise value) :: later, .setting handle value⟩
  | kept {vecs finished family labels value later handle}
      (notAbove : value ≤ read (vecs family) handle) :
      Steps vecs ⟨finished, .write family labels (.raise value) :: later, .holding handle⟩
        vecs
        ⟨finished ++ [.write family labels (.raise value)], later, .ready⟩
  | set {vecs finished family labels write later handle value} :
      Steps vecs ⟨finished, .write family labels write :: later, .setting handle value⟩
        (Function.update vecs family (store (vecs family) handle value))
        ⟨finished ++ [.write family labels write], later, .ready⟩

theorem steps_of_step {vecs next : Family → Vec} {task after : Task Vec}
    (stepped : task.step vecs = some (next, after)) : Steps vecs task next after := by
  rcases task with ⟨finished, rest, phase⟩
  cases rest with
  | nil => cases stepped
  | cons instruction later =>
      cases instruction with
      | remove family labels =>
          cases stepped
          exact .removed
      | write family labels write =>
          cases phase with
          | ready =>
              cases stepped
              exact .obtained
          | setting handle value =>
              cases write <;> cases stepped <;> exact .set
          | holding handle =>
              cases write with
              | raise value =>
                  simp only [step] at stepped
                  split at stepped
                  · next above =>
                      cases stepped
                      exact .exceeded above
                  · next notAbove =>
                      cases stepped
                      exact .kept (Nat.not_lt.mp notAbove)
              | inc | incBy amount | set value =>
                  cases stepped
                  exact .changed fun _ => Write.noConfusion

theorem rest_eq_nil_of_step {vecs : Family → Vec} {task : Task Vec}
    (done : task.step vecs = none) : task.rest = [] := by
  rcases task with ⟨finished, rest, phase⟩
  cases rest with
  | nil => rfl
  | cons instruction later =>
      cases instruction with
      | remove family labels => cases done
      | write family labels write =>
          cases phase with
          | ready => cases done
          | setting handle value => cases write <;> cases done
          | holding handle =>
              cases write with
              | raise value =>
                  simp only [step] at done
                  split at done <;> cases done
              | inc | incBy amount | set value => cases done

/-- The series a task has finished with or holds a handle to. -/
def obtained (task : Task Vec) : List (Family × List String) :=
  task.finished.map Instruction.target ++
    match task.phase with
    | .ready => []
    | .holding _ | .setting _ _ => (task.rest.take 1).map Instruction.target

theorem Steps.finished_append_rest {vecs next : Family → Vec} {task after : Task Vec}
    (steps : Steps vecs task next after) :
    after.finished ++ after.rest = task.finished ++ task.rest := by
  cases steps <;> simp

theorem Steps.rest_suffix {vecs next : Family → Vec} {task after : Task Vec}
    (steps : Steps vecs task next after) : after.rest <:+ task.rest := by
  cases steps <;> simp

/-! ## What a step exports -/

namespace Steps

variable {vecs next : Family → Vec} {task after : Task Vec} {series : Family × List String}

theorem exported (steps : Steps vecs task next after) (shown : Exported next series) :
    Exported vecs series ∨ ∃ write, .write series.1 series.2 write ∈ task.rest := by
  cases steps with
  | @removed finished family labels later phase =>
      left
      rw [Exported] at shown ⊢
      rw [sample_remove] at shown
      split at shown
      · exact absurd rfl shown
      · exact shown
  | @obtained finished family labels write later =>
      by_cases own : series.1 = family ∧ series.2 = labels
      · right
        rw [own.1, own.2]
        exact ⟨write, List.mem_cons_self⟩
      · left
        rw [Exported] at shown ⊢
        rwa [sample_obtain, if_neg own] at shown
  | changed direct => exact .inl ((exported_store _ _ _ _ _).mp shown)
  | exceeded above => exact .inl shown
  | kept notAbove => exact .inl shown
  | set => exact .inl ((exported_store _ _ _ _ _).mp shown)

theorem removal_pending (steps : Steps vecs task next after)
    (pending : .remove series.1 series.2 ∈ task.rest) (shown : Exported next series) :
    .remove series.1 series.2 ∈ after.rest := by
  cases steps with
  | removed =>
      rcases List.mem_cons.mp pending with equal | later
      · injection equal with familyEqual labelsEqual
        rw [← familyEqual, ← labelsEqual] at shown
        rw [Exported] at shown
        rw [sample_remove, if_pos ⟨rfl, rfl⟩] at shown
        exact absurd rfl shown
      · exact later
  | obtained => exact pending
  | changed direct => exact (List.mem_cons.mp pending).resolve_left nofun
  | exceeded above => exact pending
  | kept notAbove => exact (List.mem_cons.mp pending).resolve_left nofun
  | set => exact (List.mem_cons.mp pending).resolve_left nofun

end Steps

/-! ## Left alone

A task no other runs beside executes its instructions in turn. -/

def alone : Machine ((Family → Vec) × Task Vec) Unit where
  step state _ := state.2.step state.1

private theorem run_write_alone (vecs : Family → Vec) (finished later : List Instruction)
    (family : Family) (labels : List String) (write : Write) :
    ∃ count, alone.run
        (vecs, (⟨finished, .write family labels write :: later, .ready⟩ : Task Vec))
        (List.replicate count ()) =
      some (execute vecs (.write family labels write),
        ⟨finished ++ [.write family labels write], later, .ready⟩) := by
  let created := (withLabelValues (vecs family) labels).1
  let handle := (withLabelValues (vecs family) labels).2
  let holding : Family → Vec := Function.update vecs family created
  have own : holding family = created := Function.update_self _ _ _
  have written : ∀ vec : Vec, Function.update holding family vec =
      Function.update vecs family vec := fun vec => Function.update_idem _ _ _
  have obtaining : ∀ {count final},
      alone.run (holding, (⟨finished, .write family labels write :: later,
          .holding handle⟩ : Task Vec)) (List.replicate count ()) = some final →
        alone.run (vecs, (⟨finished, .write family labels write :: later, .ready⟩ : Task Vec))
          (List.replicate (count + 1) ()) = some final :=
    fun ran => Machine.run_cons_eq_some.mpr ⟨_, rfl, ran⟩
  cases write with
  | inc | incBy amount | set value =>
      refine ⟨2, obtaining (Machine.run_cons_eq_some.mpr ⟨_, rfl, ?_⟩)⟩
      change some (Function.update holding family (update (holding family) handle _), _) = _
      rw [own, written]
      rfl
  | raise value =>
      have executed : execute vecs (.write family labels (.raise value)) =
          Function.update vecs family
            (store created handle (if value > read created handle then value
              else read created handle)) := rfl
      by_cases above : value > read created handle
      · have comparing : step holding
            (⟨finished, .write family labels (.raise value) :: later, .holding handle⟩ :
              Task Vec) =
            some (holding,
              ⟨finished, .write family labels (.raise value) :: later,
                .setting handle value⟩) := by
          simp only [step, own, if_pos above]
        refine ⟨3, obtaining (Machine.run_cons_eq_some.mpr ⟨_, comparing,
          Machine.run_cons_eq_some.mpr ⟨_, rfl, ?_⟩⟩)⟩
        change some (Function.update holding family (store (holding family) handle value), _) = _
        rw [own, written, executed, if_pos above]
      · have comparing : step holding
            (⟨finished, .write family labels (.raise value) :: later, .holding handle⟩ :
              Task Vec) =
            some (holding,
              ⟨finished ++ [.write family labels (.raise value)], later, .ready⟩) := by
          simp only [step, own, if_neg above]
        refine ⟨2, obtaining (Machine.run_cons_eq_some.mpr ⟨_, comparing, ?_⟩)⟩
        rw [executed, if_neg above, store_read]
        rfl

theorem run_alone (vecs : Family → Vec) (finished rest : List Instruction) :
    ∃ count, alone.run (vecs, (⟨finished, rest, .ready⟩ : Task Vec))
        (List.replicate count ()) =
      some (executeAll vecs rest, ⟨finished ++ rest, [], .ready⟩) := by
  induction rest generalizing vecs finished with
  | nil => exact ⟨0, by rw [List.append_nil]; rfl⟩
  | cons instruction later induction =>
      have oneInstruction : ∃ count, alone.run
          (vecs, (⟨finished, instruction :: later, .ready⟩ : Task Vec))
          (List.replicate count ()) =
          some (execute vecs instruction, ⟨finished ++ [instruction], later, .ready⟩) := by
        cases instruction with
        | remove family labels => exact ⟨1, rfl⟩
        | write family labels write => exact run_write_alone vecs finished later _ _ _
      rcases oneInstruction with ⟨first, ran⟩
      rcases induction (execute vecs instruction) (finished ++ [instruction])
        with ⟨second, ranLater⟩
      refine ⟨first + second, ?_⟩
      rw [List.replicate_add, Machine.run_append, ran]
      simpa using ranLater

end Task

end OomWatcher
