import OomWatcher.Metrics.Refinement
import OomWatcher.Metrics.Task

/-! # Three tasks on one collector

The watch loop records one event at a time, the sweeper evicts, and the pod
cache notes deletions. Every Prometheus call is a step. The mutexes are held for
one step each, but for `last_seen`, which a sweep holds from its scan to the end
of its removals. -/

namespace OomWatcher

variable {Vec : Type} [MetricVec Vec (List String)]

structure RecordCall (Vec : Type) [MetricVec Vec (List String)] where
  event : EnrichedOomEvent
  task : Task Vec

def RecordCall.key (call : RecordCall Vec) : SeriesKey := .ofEvent call.event

/-- Where the sweeper stands: between calls, between its two locks, or removing
the keys it selected, of which `rest` are still to be taken up. -/
inductive SweepPosition (Vec : Type) [MetricVec Vec (List String)]
  | idle
  | drained (now ttlSecs : Nat) (due : List (String × String))
  | removing (selected rest : List SeriesKey) (task : Task Vec)

def SweepPosition.holdsLastSeen : SweepPosition Vec → Bool
  | .idle | .drained _ _ _ => false
  | .removing _ _ _ => true

/-- The collector, the calls in progress, and the events whose call returned and
whose key no scan has selected since. -/
structure SharedCollector (Vec : Type) [MetricVec Vec (List String)] where
  collector : MetricsCollector Vec
  watch : Option (RecordCall Vec)
  sweep : SweepPosition Vec
  reported : List EnrichedOomEvent

namespace SharedCollector

def start : SharedCollector Vec where
  collector := .new
  watch := none
  sweep := .idle
  reported := []

inductive Action
  | recordOomEvent (event : EnrichedOomEvent)
  | continueRecord
  | notePodDeleted (ns pod : String) (now : Nat)
  | evictStale (now ttlSecs : Nat)
  | scan (order : List SeriesKey)
  | continueRemoval
deriving DecidableEq

/-- The next Prometheus call of `record_oom_event`, or its last step: to insert
the key and return. -/
def continueRecord (state : SharedCollector Vec) : Option (SharedCollector Vec) :=
  match state.watch with
  | none => none
  | some call =>
      match call.task.step state.collector.vecs with
      | some (vecs, task) =>
          some { state with
            collector := { state.collector with vecs := vecs }
            watch := some { call with task := task } }
      | none =>
          if state.sweep.holdsLastSeen then none
          else some { state with
            collector :=
              { state.collector with
                lastSeen := state.collector.lastSeen.insert call.key call.event.timestamp }
            watch := none
            reported := call.event :: state.reported }

/-- The next Prometheus call of `remove_series`, or the next key, or the end of
the loop. -/
def continueRemoval (state : SharedCollector Vec) : Option (SharedCollector Vec) :=
  match state.sweep with
  | .idle | .drained _ _ _ => none
  | .removing selected rest task =>
      match task.step state.collector.vecs with
      | some (vecs, task) =>
          some { state with
            collector := { state.collector with vecs := vecs }
            sweep := .removing selected rest task }
      | none =>
          match rest with
          | [] => some { state with sweep := .idle }
          | key :: keys =>
              let orphaned := memoryOrphaned state.collector.lastSeen key
              some { state with
                sweep := .removing selected keys (.start (removalInstructions key orphaned)) }

/-- Take `last_seen` and split it, listing the stale keys in `order`. -/
def scan (state : SharedCollector Vec) (order : List SeriesKey) :
    Option (SharedCollector Vec) :=
  match state.sweep with
  | .idle | .removing _ _ _ => none
  | .drained now ttlSecs due =>
      let (stale, lastSeen) := splitStale state.collector.lastSeen now ttlSecs due
      if order.Perm stale then
        some { state with
          collector := { state.collector with lastSeen := lastSeen }
          sweep := .removing order order (.start [])
          reported := state.reported.filter fun event => .ofEvent event ∉ stale }
      else none

def step (state : SharedCollector Vec) : Action → Option (SharedCollector Vec)
  | .recordOomEvent event =>
      match state.watch with
      | some _ => none
      | none => some { state with watch := some ⟨event, .start (recordInstructions event)⟩ }
  | .continueRecord => state.continueRecord
  | .notePodDeleted ns pod now =>
      some { state with collector := state.collector.notePodDeleted ns pod now }
  | .evictStale now ttlSecs =>
      match state.sweep with
      | .drained _ _ _ | .removing _ _ _ => none
      | .idle =>
          let (due, deletedAfter) := drainDue state.collector.deletedAfter now
          some { state with
            collector := { state.collector with deletedAfter := deletedAfter }
            sweep := .drained now ttlSecs due }
  | .scan order => state.scan order
  | .continueRemoval => state.continueRemoval

def machine : Machine (SharedCollector Vec) Action where
  step := step

/-! ## The steps by what they do -/

inductive Transition (state : SharedCollector Vec) : Action → SharedCollector Vec → Prop
  | recordBegins (event : EnrichedOomEvent) (free : state.watch = none) :
      Transition state (.recordOomEvent event)
        { state with watch := some ⟨event, .start (recordInstructions event)⟩ }
  | recordSteps {call vecs task} (inProgress : state.watch = some call)
      (steps : Task.Steps state.collector.vecs call.task vecs task) :
      Transition state .continueRecord
        { state with
          collector := { state.collector with vecs := vecs }
          watch := some { call with task := task } }
  | recordReturns {call} (inProgress : state.watch = some call)
      (finished : call.task.rest = []) (unlocked : state.sweep.holdsLastSeen = false) :
      Transition state .continueRecord
        { state with
          collector :=
            { state.collector with
              lastSeen := state.collector.lastSeen.insert call.key call.event.timestamp }
          watch := none
          reported := call.event :: state.reported }
  | podNoted (ns pod : String) (now : Nat) :
      Transition state (.notePodDeleted ns pod now)
        { state with collector := state.collector.notePodDeleted ns pod now }
  | sweepDrains (now ttlSecs : Nat) (free : state.sweep = .idle) :
      Transition state (.evictStale now ttlSecs)
        { state with
          collector :=
            { state.collector with
              deletedAfter := (drainDue state.collector.deletedAfter now).2 }
          sweep := .drained now ttlSecs (drainDue state.collector.deletedAfter now).1 }
  | sweepScans {now ttlSecs due order} (position : state.sweep = .drained now ttlSecs due)
      (ordered : order.Perm (splitStale state.collector.lastSeen now ttlSecs due).1) :
      Transition state (.scan order)
        { state with
          collector :=
            { state.collector with
              lastSeen := (splitStale state.collector.lastSeen now ttlSecs due).2 }
          sweep := .removing order order (.start [])
          reported := state.reported.filter fun event =>
            .ofEvent event ∉ (splitStale state.collector.lastSeen now ttlSecs due).1 }
  | removalSteps {selected rest task vecs after}
      (position : state.sweep = .removing selected rest task)
      (steps : Task.Steps state.collector.vecs task vecs after) :
      Transition state .continueRemoval
        { state with
          collector := { state.collector with vecs := vecs }
          sweep := .removing selected rest after }
  | removalTakesUp {selected key keys task}
      (position : state.sweep = .removing selected (key :: keys) task)
      (finished : task.rest = []) :
      Transition state .continueRemoval
        { state with
          sweep := .removing selected keys
            (.start (removalInstructions key (memoryOrphaned state.collector.lastSeen key))) }
  | removalEnds {selected task} (position : state.sweep = .removing selected [] task)
      (finished : task.rest = []) :
      Transition state .continueRemoval { state with sweep := .idle }

theorem transition_of_step {state next : SharedCollector Vec} {action : Action}
    (stepped : state.step action = some next) : Transition state action next := by
  cases action with
  | recordOomEvent event =>
      simp only [step] at stepped
      split at stepped
      · cases stepped
      · next free =>
          cases stepped
          exact .recordBegins event free
  | continueRecord =>
      simp only [step, continueRecord] at stepped
      split at stepped
      · cases stepped
      · next call inProgress =>
          split at stepped
          · next vecs task taskStepped =>
              cases stepped
              exact .recordSteps inProgress (Task.steps_of_step taskStepped)
          · next done =>
              split at stepped
              · cases stepped
              · next unlocked =>
                  cases stepped
                  exact .recordReturns inProgress (Task.rest_eq_nil_of_step done)
                    (Bool.eq_false_iff.mpr unlocked)
  | notePodDeleted ns pod now =>
      cases stepped
      exact .podNoted ns pod now
  | evictStale now ttlSecs =>
      simp only [step] at stepped
      split at stepped
      · cases stepped
      · cases stepped
      · next free =>
          cases stepped
          exact .sweepDrains now ttlSecs free
  | scan order =>
      simp only [step, scan] at stepped
      split at stepped
      · cases stepped
      · cases stepped
      · next position =>
          split at stepped
          · next ordered =>
              cases stepped
              exact .sweepScans position ordered
          · cases stepped
  | continueRemoval =>
      simp only [step, continueRemoval] at stepped
      split at stepped
      · cases stepped
      · cases stepped
      · next position =>
          split at stepped
          · next taskStepped =>
              cases stepped
              exact .removalSteps position (Task.steps_of_step taskStepped)
          · next done =>
              have finished := Task.rest_eq_nil_of_step done
              split at stepped
              · cases stepped
                exact .removalEnds position finished
              · cases stepped
                exact .removalTakesUp position finished

/-! ## The instructions in progress -/

structure WellFormed (state : SharedCollector Vec) : Prop where
  call : ∀ call, state.watch = some call →
    call.task.finished ++ call.task.rest = recordInstructions call.event
  rest : ∀ selected rest task, state.sweep = .removing selected rest task →
    ∀ key ∈ rest, key ∈ selected
  task : ∀ selected rest task, state.sweep = .removing selected rest task →
    ∀ instruction ∈ task.rest, ∃ key ∈ selected, ∃ orphaned,
      instruction ∈ removalInstructions key orphaned

theorem wellFormed_start : WellFormed (start : SharedCollector Vec) where
  call _ inProgress := by cases inProgress
  rest _ _ _ position := by cases position
  task _ _ _ position := by cases position

theorem WellFormed.step {state next : SharedCollector Vec} {action : Action}
    (wellFormed : WellFormed state) (transition : Transition state action next) :
    WellFormed next := by
  cases transition with
  | recordBegins event free =>
      refine ⟨?_, wellFormed.rest, wellFormed.task⟩
      intro call inProgress
      cases inProgress
      rfl
  | recordSteps inProgress steps =>
      refine ⟨?_, wellFormed.rest, wellFormed.task⟩
      intro call nowInProgress
      cases nowInProgress
      exact steps.finished_append_rest.trans (wellFormed.call _ inProgress)
  | recordReturns inProgress finished unlocked =>
      refine ⟨?_, wellFormed.rest, wellFormed.task⟩
      intro call inProgress
      cases inProgress
  | podNoted ns pod now => exact ⟨wellFormed.call, wellFormed.rest, wellFormed.task⟩
  | sweepDrains now ttlSecs free =>
      refine ⟨wellFormed.call, ?_, ?_⟩
      · intro selected rest task position
        cases position
      · intro selected rest task position
        cases position
  | sweepScans position ordered =>
      refine ⟨wellFormed.call, ?_, ?_⟩
      · intro selected rest task position key member
        cases position
        exact member
      · intro selected rest task position instruction member
        cases position
        cases member
  | removalSteps position steps =>
      refine ⟨wellFormed.call, ?_, ?_⟩
      · intro selected rest task nowPosition
        cases nowPosition
        exact wellFormed.rest _ _ _ position
      · intro selected rest task nowPosition instruction member
        cases nowPosition
        exact wellFormed.task _ _ _ position instruction (steps.rest_suffix.subset member)
  | removalTakesUp position finished =>
      refine ⟨wellFormed.call, ?_, ?_⟩
      · intro selected rest task nowPosition key member
        cases nowPosition
        exact wellFormed.rest _ _ _ position key (List.mem_cons_of_mem _ member)
      · intro selected rest task nowPosition instruction member
        cases nowPosition
        exact ⟨_, wellFormed.rest _ _ _ position _ List.mem_cons_self, _, member⟩
  | removalEnds position finished =>
      refine ⟨wellFormed.call, ?_, ?_⟩
      · intro selected rest task nowPosition
        cases nowPosition
      · intro selected rest task nowPosition
        cases nowPosition

/-! ## Calls that nothing comes between

Without interference the small steps of a call amount to the call. -/

private theorem run_record_task (state : SharedCollector Vec) {call : RecordCall Vec}
    {vecs : Family → Vec} {after : Task Vec} (inProgress : state.watch = some call)
    (count : Nat) (ran : Task.alone.run (state.collector.vecs, call.task)
      (List.replicate count ()) = some (vecs, after)) :
    machine.run state (List.replicate count .continueRecord) =
      some { state with
        collector := { state.collector with vecs := vecs }
        watch := some { call with task := after } } := by
  induction count generalizing state call with
  | zero =>
      cases ran
      rw [List.replicate_zero, Machine.run, ← inProgress]
  | succ count induction =>
      rcases Machine.run_cons_eq_some.mp ran with ⟨⟨nextVecs, nextTask⟩, stepped, ranRest⟩
      apply Machine.run_cons_eq_some.mpr
      refine ⟨{ state with
        collector := { state.collector with vecs := nextVecs }
        watch := some { call with task := nextTask } }, ?_, ?_⟩
      · change state.continueRecord = _
        have taskStepped : call.task.step state.collector.vecs = some (nextVecs, nextTask) :=
          stepped
        simp only [continueRecord, inProgress, taskStepped]
      · exact @induction _ ⟨call.event, nextTask⟩ rfl ranRest

private theorem run_removal_task (state : SharedCollector Vec)
    {selected rest : List SeriesKey} {task after : Task Vec} {vecs : Family → Vec}
    (position : state.sweep = .removing selected rest task)
    (count : Nat) (ran : Task.alone.run (state.collector.vecs, task)
      (List.replicate count ()) = some (vecs, after)) :
    machine.run state (List.replicate count .continueRemoval) =
      some { state with
        collector := { state.collector with vecs := vecs }
        sweep := .removing selected rest after } := by
  induction count generalizing state task with
  | zero =>
      cases ran
      rw [List.replicate_zero, Machine.run, ← position]
  | succ count induction =>
      rcases Machine.run_cons_eq_some.mp ran with ⟨⟨nextVecs, nextTask⟩, stepped, ranRest⟩
      apply Machine.run_cons_eq_some.mpr
      refine ⟨{ state with
        collector := { state.collector with vecs := nextVecs }
        sweep := .removing selected rest nextTask }, ?_, ?_⟩
      · change state.continueRemoval = _
        have taskStepped : task.step state.collector.vecs = some (nextVecs, nextTask) :=
          stepped
        simp only [continueRemoval, position, taskStepped]
      · exact induction _ rfl ranRest

theorem record_alone (state : SharedCollector Vec) (event : EnrichedOomEvent)
    (free : state.watch = none) (unlocked : state.sweep.holdsLastSeen = false) :
    ∃ count, machine.run state
        (.recordOomEvent event :: List.replicate count .continueRecord) =
      some { state with
        collector := state.collector.recordOomEvent event
        reported := event :: state.reported } := by
  rcases Task.run_alone state.collector.vecs [] (recordInstructions event)
    with ⟨count, ran⟩
  refine ⟨count + 1, ?_⟩
  apply Machine.run_cons_eq_some.mpr
  let begun : SharedCollector Vec :=
    { state with watch := some ⟨event, .start (recordInstructions event)⟩ }
  refine ⟨begun, by simp [machine, step, free, begun], ?_⟩
  let ended : SharedCollector Vec :=
    { begun with
      collector :=
        { state.collector with
          vecs := executeAll state.collector.vecs (recordInstructions event) }
      watch := some ⟨event, ⟨recordInstructions event, [], .ready⟩⟩ }
  have recorded : machine.run begun (List.replicate count .continueRecord) = some ended :=
    run_record_task begun rfl count ran
  rw [List.replicate_succ', Machine.run_append, recorded, Option.bind_some]
  apply Machine.run_cons_eq_some.mpr
  refine ⟨_, ?_, rfl⟩
  change ended.continueRecord = _
  simp only [continueRecord, Task.step, ended, begun, unlocked, ← free]
  rfl

private theorem run_removal_loop (state : SharedCollector Vec)
    {selected rest : List SeriesKey} {finished : List Instruction} {phase : Phase Vec}
    (position : state.sweep = .removing selected rest ⟨finished, [], phase⟩) :
    ∃ count, machine.run state (List.replicate count .continueRemoval) =
      some { state with
        collector :=
          { state.collector with
            vecs := executeAll state.collector.vecs
              (rest.flatMap fun key =>
                removalInstructions key (memoryOrphaned state.collector.lastSeen key)) }
        sweep := .idle } := by
  induction rest generalizing state finished phase with
  | nil =>
      refine ⟨1, Machine.run_cons_eq_some.mpr ⟨_, ?_, rfl⟩⟩
      change state.continueRemoval = _
      simp only [continueRemoval, position, Task.step]
      rfl
  | cons key keys induction =>
      let instructions := removalInstructions key
        (memoryOrphaned state.collector.lastSeen key)
      let takenUp : SharedCollector Vec :=
        { state with sweep := .removing selected keys (.start instructions) }
      have taken : machine.step state .continueRemoval = some takenUp := by
        change state.continueRemoval = _
        simp only [continueRemoval, position, Task.step]
        rfl
      rcases Task.run_alone state.collector.vecs [] instructions with ⟨first, ran⟩
      have removed := run_removal_task takenUp rfl first ran
      rcases induction
        { takenUp with
          collector :=
            { state.collector with vecs := executeAll state.collector.vecs instructions }
          sweep := .removing selected keys ⟨instructions, [], .ready⟩ } rfl
        with ⟨second, ranRest⟩
      refine ⟨first + second + 1, Machine.run_cons_eq_some.mpr ⟨takenUp, taken, ?_⟩⟩
      rw [List.replicate_add, Machine.run_append, removed]
      refine Eq.trans ranRest ?_
      rw [List.flatMap_cons, executeAll_append]

theorem evict_alone (state : SharedCollector Vec) (now ttlSecs : Nat)
    (free : state.sweep = .idle) :
    ∃ count, machine.run state (.evictStale now ttlSecs ::
        .scan (staleKeys state.collector now ttlSecs) ::
        List.replicate count .continueRemoval) =
      some { state with
        collector := (state.collector.evictStale now ttlSecs).1
        reported := state.reported.filter fun event =>
          .ofEvent event ∉ staleKeys state.collector now ttlSecs } := by
  let due := duePods state.collector now
  let drained : SharedCollector Vec :=
    { state with
      collector :=
        { state.collector with deletedAfter := (drainDue state.collector.deletedAfter now).2 }
      sweep := .drained now ttlSecs due }
  have drains : machine.step state (.evictStale now ttlSecs) = some drained := by
    simp only [machine, step, free]
    rfl
  let stale := staleKeys state.collector now ttlSecs
  let scanned : SharedCollector Vec :=
    { drained with
      collector :=
        { drained.collector with
          lastSeen := (splitStale state.collector.lastSeen now ttlSecs due).2 }
      sweep := .removing stale stale (.start [])
      reported := state.reported.filter fun event => .ofEvent event ∉ stale }
  have scans : machine.step drained (.scan stale) = some scanned :=
    if_pos (List.Perm.refl stale)
  rcases run_removal_loop scanned rfl with ⟨count, ran⟩
  refine ⟨count, Machine.run_cons_eq_some.mpr ⟨drained, drains,
    Machine.run_cons_eq_some.mpr ⟨scanned, scans, ran.trans ?_⟩⟩⟩
  rw [← free]
  rfl

end SharedCollector

end OomWatcher
