import OomWatcher.Metrics.ConcurrentSweep

/-! # The counters of a node

A recording counts a kill of its node and a removal counts an eviction, each in
two steps that anything may come between. Nothing removes these series, so every
increment begun is made once, and no node has more evictions than kills. -/

namespace OomWatcher

variable {Vec : Type} [MetricVec Vec (List String)]

open MetricVec

/-! ## Families that are only incremented -/

def OnlyIncrement (family : Family) (instructions : List Instruction) : Prop :=
  ∀ instruction ∈ instructions, instruction.target.1 = family →
    ∃ labels, instruction = .write family labels .inc

def increments (family : Family) (labels : List String) (instructions : List Instruction) : Nat :=
  instructions.count (.write family labels .inc)

theorem increments_cons (family : Family) (labels : List String) (instruction : Instruction)
    (later : List Instruction) :
    increments family labels (instruction :: later) = increments family labels later +
      if instruction = .write family labels .inc then 1 else 0 := by
  simp [increments, List.count_cons]

theorem OnlyIncrement.of_suffix {family : Family} {rest instructions : List Instruction}
    (only : OnlyIncrement family instructions) (isSuffix : rest <:+ instructions) :
    OnlyIncrement family rest :=
  fun instruction member => only instruction (isSuffix.subset member)

theorem onlyIncrement_record (event : EnrichedOomEvent) {family : Family}
    (perNode : family.perContainer = false) : OnlyIncrement family (recordInstructions event) := by
  intro instruction member isTarget
  simp only [recordInstructions, zip_memoryValues, List.map_map, List.mem_append,
    List.mem_cons, List.not_mem_nil, or_false, List.mem_map] at member
  rcases member with ((rfl | rfl) | ⟨memoryType, _, rfl⟩) | rfl
  · subst isTarget
    cases perNode
  · subst isTarget
    exact ⟨_, rfl⟩
  · subst isTarget
    cases perNode
  · subst isTarget
    cases perNode

theorem onlyIncrement_removal (key : SeriesKey) (orphaned : Bool) {family : Family}
    (perNode : family.perContainer = false) :
    OnlyIncrement family (removalInstructions key orphaned) := by
  intro instruction member isTarget
  have cases : instruction.target.1.perContainer = true ∨
      instruction = .write .oomSeriesEvictedTotal [key.node] .inc := by
    cases orphaned <;> simp [removalInstructions] at member
    · rcases member with rfl | rfl | rfl
      · exact .inl rfl
      · exact .inl rfl
      · exact .inr rfl
    · rcases member with rfl | rfl | ⟨_, _, rfl⟩ | rfl
      · exact .inl rfl
      · exact .inl rfl
      · exact .inl rfl
      · exact .inr rfl
  rcases cases with removed | rfl
  · rw [isTarget, perNode] at removed
    cases removed
  · subst isTarget
    exact ⟨_, rfl⟩

theorem killIncrements_record (event : EnrichedOomEvent) (node : String) :
    increments .oomKillsPerNodeTotal [node] (recordInstructions event) =
      if (SeriesKey.ofEvent event).node = node then 1 else 0 := by
  simp [increments, recordInstructions, memoryTypes, memoryValues, List.count_cons]

theorem evictionIncrements_record (event : EnrichedOomEvent) (node : String) :
    increments .oomSeriesEvictedTotal [node] (recordInstructions event) = 0 := by
  simp [increments, recordInstructions, memoryTypes, memoryValues]

theorem killIncrements_removal (key : SeriesKey) (orphaned : Bool) (node : String) :
    increments .oomKillsPerNodeTotal [node] (removalInstructions key orphaned) = 0 := by
  cases orphaned <;> simp [increments, removalInstructions, memoryTypes]

theorem evictionIncrements_removal (key : SeriesKey) (orphaned : Bool) (node : String) :
    increments .oomSeriesEvictedTotal [node] (removalInstructions key orphaned) =
      if key.node = node then 1 else 0 := by
  cases orphaned <;> simp [increments, removalInstructions, memoryTypes, List.count_cons]

namespace Task

def HoldsIn (family : Family) (vecs : Family → Vec) (task : Task Vec) : Prop :=
  match task.phase, task.rest with
  | .holding handle, .write written labels _ :: _ =>
      written = family → child (vecs family) labels = some handle
  | .setting _ _, .write written _ _ :: _ => written ≠ family
  | _, _ => True

namespace Steps

variable {family : Family} {vecs next : Family → Vec} {task after : Task Vec}

theorem holdsIn (steps : Steps vecs task next after) (only : OnlyIncrement family task.rest) :
    after.HoldsIn family next := by
  cases steps with
  | removed => trivial
  | @obtained finished written labels write later =>
      rintro rfl
      rw [Function.update_self]
      exact child_withLabelValues _ _
  | changed direct => trivial
  | exceeded above =>
      rintro rfl
      rcases only _ List.mem_cons_self rfl with ⟨_, isInc⟩
      cases isInc
  | kept notAbove => trivial
  | set => trivial

theorem child_kept (steps : Steps vecs task next after) (only : OnlyIncrement family task.rest)
    {labels : List String} {handle : Handle Vec}
    (attached : child (vecs family) labels = some handle) :
    child (next family) labels = some handle := by
  have stored : ∀ (written : Family) (other : Handle Vec) (value : Nat),
      child (Function.update vecs written (store (vecs written) other value) family) labels =
        some handle := by
    intro written other value
    by_cases own : family = written
    · subst own
      rw [Function.update_self, child_store, attached]
    · rw [Function.update_of_ne own, attached]
  cases steps with
  | @removed finished removedFrom labels later phase =>
      have different : family ≠ removedFrom := by
        rintro rfl
        rcases only _ List.mem_cons_self rfl with ⟨_, isWrite⟩
        cases isWrite
      rwa [execute, Function.update_of_ne different]
  | @obtained finished written other write later =>
      by_cases own : family = written
      · subst own
        rw [Function.update_self]
        by_cases same : labels = other
        · subst same
          rw [withLabelValues_of_child attached, attached]
        · rw [child_withLabelValues_of_ne _ same, attached]
      · rw [Function.update_of_ne own, attached]
  | changed direct => exact stored _ _ _
  | exceeded above => exact attached
  | kept notAbove => exact attached
  | set => exact stored _ _ _

theorem increments_conserved (steps : Steps vecs task next after)
    (holding : task.HoldsIn family vecs) (only : OnlyIncrement family task.rest)
    (labels : List String) :
    (sample next family labels).getD 0 + increments family labels after.rest =
      (sample vecs family labels).getD 0 + increments family labels task.rest := by
  cases steps with
  | @removed finished removedFrom removedLabels later phase =>
      have different : ¬(family = removedFrom ∧ labels = removedLabels) := by
        rintro ⟨rfl, _⟩
        rcases only _ List.mem_cons_self rfl with ⟨_, isWrite⟩
        cases isWrite
      rw [sample_remove, if_neg different, increments_cons, if_neg Instruction.noConfusion]
      rfl
  | obtained =>
      rw [sample_obtain]
      split
      · next own => simp [own.2, own.1]
      · rfl
  | @changed finished written other write later handle direct =>
      rw [increments_cons]
      by_cases inFamily : written = family
      · subst inFamily
        rcases only _ List.mem_cons_self rfl with ⟨_, isInc⟩
        cases isInc
        rw [sample_update_of_child (holding rfl)]
        by_cases own : labels = other
        · subst own
          simp only [and_self, if_true, Option.getD_some, Write.change]
          omega
        · have notCounted : Instruction.write written other .inc ≠ .write written labels .inc := by
            intro equal
            injection equal with _ sameLabels
            exact own sameLabels.symm
          rw [if_neg fun equal => own equal.2, if_neg notCounted]
          rfl
      · have notCounted : Instruction.write written other write ≠ .write family labels .inc := by
          intro equal
          injection equal with sameFamily
          exact inFamily sameFamily
        have elsewhere : sample (Function.update vecs written
            (update (vecs written) handle write.change)) family labels =
              sample vecs family labels := by
          rw [sample, Function.update_of_ne (Ne.symm inFamily)]
          rfl
        rw [elsewhere, if_neg notCounted]
        rfl
  | exceeded above => rfl
  | kept notAbove =>
      rw [increments_cons, if_neg (by simp)]
      rfl
  | @set finished written other write later handle value =>
      have elsewhere : sample (Function.update vecs written
          (store (vecs written) handle value)) family labels = sample vecs family labels := by
        rw [sample, Function.update_of_ne (Ne.symm holding)]
        rfl
      have notCounted : Instruction.write written other write ≠ .write family labels .inc := by
        intro equal
        injection equal with sameFamily
        exact holding sameFamily
      rw [elsewhere, increments_cons, if_neg notCounted]
      rfl

end Steps

theorem HoldsIn.beside {family : Family} {vecs next : Family → Vec} {task after other : Task Vec}
    (holding : other.HoldsIn family vecs) (steps : Steps vecs task next after)
    (only : OnlyIncrement family task.rest) : other.HoldsIn family next := by
  rcases other with ⟨finished, rest, phase⟩
  rcases rest with _ | ⟨instruction, later⟩
  · cases phase <;> trivial
  · cases instruction with
    | remove removedFrom labels => cases phase <;> trivial
    | write written labels write =>
        cases phase with
        | ready => trivial
        | setting handle value => exact holding
        | holding handle => exact fun inFamily => steps.child_kept only (holding inFamily)

end Task

namespace SharedCollector

/-! ## What is booked

A sample together with the increments that the tasks still have before them. -/

/-- The increments of the series that calls in progress are still to make. -/
def owed (state : SharedCollector Vec) (family : Family) (labels : List String) : Nat :=
  (match state.watch with
    | none => 0
    | some call => increments family labels call.task.rest) +
  match state.sweep with
  | .idle | .drained _ _ _ => 0
  | .removing _ _ task => increments family labels task.rest

def counter (state : SharedCollector Vec) (family : Family) (labels : List String) : Nat :=
  (sample state.collector.vecs family labels).getD 0

def booked (state : SharedCollector Vec) (family : Family) (labels : List String) : Nat :=
  state.counter family labels + state.owed family labels

structure Increments (family : Family) (state : SharedCollector Vec) : Prop where
  recordingOnly : ∀ call, state.watch = some call → OnlyIncrement family call.task.rest
  recordingHolds : ∀ call, state.watch = some call →
    call.task.HoldsIn family state.collector.vecs
  removalOnly : ∀ selected rest task, state.sweep = .removing selected rest task →
    OnlyIncrement family task.rest
  removalHolds : ∀ selected rest task, state.sweep = .removing selected rest task →
    task.HoldsIn family state.collector.vecs

theorem increments_start (family : Family) : Increments family (start : SharedCollector Vec) where
  recordingOnly _ inProgress := by cases inProgress
  recordingHolds _ inProgress := by cases inProgress
  removalOnly _ _ _ position := by cases position
  removalHolds _ _ _ position := by cases position

section Steps

variable {family : Family} {state next : SharedCollector Vec} {action : Action}

theorem Increments.recordSteps (sound : Increments family state) {call : RecordCall Vec}
    {vecs : Family → Vec} {task : Task Vec} (inProgress : state.watch = some call)
    (steps : Task.Steps state.collector.vecs call.task vecs task) :
    Increments family { state with
      collector := { state.collector with vecs := vecs }
      watch := some { call with task := task } } where
  recordingOnly other nowInProgress := by
    cases nowInProgress
    exact (sound.recordingOnly call inProgress).of_suffix steps.rest_suffix
  recordingHolds other nowInProgress := by
    cases nowInProgress
    exact steps.holdsIn (sound.recordingOnly call inProgress)
  removalOnly := sound.removalOnly
  removalHolds selected rest removal position :=
    (sound.removalHolds selected rest removal position).beside steps
      (sound.recordingOnly call inProgress)

theorem Increments.removalSteps (sound : Increments family state)
    {selected rest : List SeriesKey} {vecs : Family → Vec} {task after : Task Vec}
    (position : state.sweep = .removing selected rest task)
    (steps : Task.Steps state.collector.vecs task vecs after) :
    Increments family { state with
      collector := { state.collector with vecs := vecs }
      sweep := .removing selected rest after } where
  recordingOnly := sound.recordingOnly
  recordingHolds call inProgress :=
    (sound.recordingHolds call inProgress).beside steps (sound.removalOnly _ _ _ position)
  removalOnly _ _ _ nowPosition := by
    cases nowPosition
    exact (sound.removalOnly _ _ _ position).of_suffix steps.rest_suffix
  removalHolds _ _ _ nowPosition := by
    cases nowPosition
    exact steps.holdsIn (sound.removalOnly _ _ _ position)

theorem Increments.step (perNode : family.perContainer = false) (sound : Increments family state)
    (transition : Transition state action next) : Increments family next := by
  cases transition with
  | recordBegins event free =>
      refine ⟨?_, ?_, sound.removalOnly, sound.removalHolds⟩
      · intro call inProgress
        cases inProgress
        exact onlyIncrement_record event perNode
      · intro call inProgress
        cases inProgress
        trivial
  | recordSteps inProgress steps => exact sound.recordSteps inProgress steps
  | recordReturns inProgress finished unlocked =>
      refine ⟨?_, ?_, sound.removalOnly, sound.removalHolds⟩
      · intro call nowInProgress
        cases nowInProgress
      · intro call nowInProgress
        cases nowInProgress
  | podNoted ns pod now =>
      exact ⟨sound.recordingOnly, sound.recordingHolds, sound.removalOnly, sound.removalHolds⟩
  | sweepDrains now ttlSecs free =>
      refine ⟨sound.recordingOnly, sound.recordingHolds, ?_, ?_⟩
      · intro selected rest task position
        cases position
      · intro selected rest task position
        cases position
  | sweepScans position ordered =>
      refine ⟨sound.recordingOnly, sound.recordingHolds, ?_, ?_⟩
      · intro selected rest task nowPosition instruction member
        cases nowPosition
        cases member
      · intro selected rest task nowPosition
        cases nowPosition
        trivial
  | removalSteps position steps => exact sound.removalSteps position steps
  | removalTakesUp position finished =>
      refine ⟨sound.recordingOnly, sound.recordingHolds, ?_, ?_⟩
      · intro selected rest task nowPosition
        cases nowPosition
        exact onlyIncrement_removal _ _ perNode
      · intro selected rest task nowPosition
        cases nowPosition
        trivial
  | removalEnds position finished =>
      refine ⟨sound.recordingOnly, sound.recordingHolds, ?_, ?_⟩
      · intro selected rest task nowPosition
        cases nowPosition
      · intro selected rest task nowPosition
        cases nowPosition

theorem booked_recordSteps (sound : Increments family state) {call : RecordCall Vec}
    {vecs : Family → Vec} {task : Task Vec} (inProgress : state.watch = some call)
    (steps : Task.Steps state.collector.vecs call.task vecs task) (labels : List String) :
    booked { state with
        collector := { state.collector with vecs := vecs }
        watch := some { call with task := task } } family labels =
      state.booked family labels := by
  have conserved := steps.increments_conserved (sound.recordingHolds call inProgress)
    (sound.recordingOnly call inProgress) labels
  simp only [booked, counter, owed, inProgress]
  omega

theorem booked_removalSteps (sound : Increments family state)
    {selected rest : List SeriesKey} {vecs : Family → Vec} {task after : Task Vec}
    (position : state.sweep = .removing selected rest task)
    (steps : Task.Steps state.collector.vecs task vecs after) (labels : List String) :
    booked { state with
        collector := { state.collector with vecs := vecs }
        sweep := .removing selected rest after } family labels =
      state.booked family labels := by
  have conserved := steps.increments_conserved (sound.removalHolds _ _ _ position)
    (sound.removalOnly _ _ _ position) labels
  simp only [booked, counter, owed, position]
  omega

/-! ## Kills -/

def begun (node : String) : Action → Nat
  | .recordOomEvent event => if (SeriesKey.ofEvent event).node = node then 1 else 0
  | _ => 0

theorem kills_booked (sound : Increments .oomKillsPerNodeTotal state)
    (transition : Transition state action next) (node : String) :
    next.booked .oomKillsPerNodeTotal [node] =
      state.booked .oomKillsPerNodeTotal [node] + begun node action := by
  cases transition with
  | recordBegins event free =>
      simp only [booked, counter, owed, free, Task.start, killIncrements_record, begun]
      omega
  | recordSteps inProgress steps => exact booked_recordSteps sound inProgress steps _
  | recordReturns inProgress finished unlocked =>
      simp only [booked, counter, owed, inProgress, finished, begun]
      rfl
  | podNoted ns pod now => rfl
  | sweepDrains now ttlSecs free =>
      simp only [booked, counter, owed, free, begun]
      rfl
  | sweepScans position ordered =>
      simp only [booked, counter, owed, position, Task.start, begun]
      rfl
  | removalSteps position steps => exact booked_removalSteps sound position steps _
  | removalTakesUp position finished =>
      simp only [booked, counter, owed, position, finished, Task.start, killIncrements_removal,
        begun]
      rfl
  | removalEnds position finished =>
      simp only [booked, counter, owed, position, finished, begun]
      rfl

/-! ## Evictions -/

def selected (node : String) : Action → Nat
  | .scan order => order.countP fun key => key.node = node
  | _ => 0

def waiting (state : SharedCollector Vec) (node : String) : Nat :=
  match state.sweep with
  | .idle | .drained _ _ _ => 0
  | .removing _ rest _ => rest.countP fun key => key.node = node

theorem evictions_booked (sound : Increments .oomSeriesEvictedTotal state)
    (transition : Transition state action next) (node : String) :
    next.booked .oomSeriesEvictedTotal [node] + next.waiting node =
      state.booked .oomSeriesEvictedTotal [node] + state.waiting node + selected node action := by
  cases transition with
  | recordBegins event free =>
      simp only [booked, counter, owed, free, waiting, Task.start, evictionIncrements_record,
        selected]
      rfl
  | recordSteps inProgress steps =>
      exact congrArg (· + state.waiting node) (booked_recordSteps sound inProgress steps _)
  | recordReturns inProgress finished unlocked =>
      simp only [booked, counter, owed, inProgress, finished, waiting, selected]
      rfl
  | podNoted ns pod now => rfl
  | sweepDrains now ttlSecs free =>
      simp only [booked, counter, owed, free, waiting, selected]
  | sweepScans position ordered =>
      simp only [booked, counter, owed, position, Task.start, waiting, selected]
      rfl
  | removalSteps position steps =>
      rw [booked_removalSteps sound position steps]
      simp only [waiting, position, selected]
      rfl
  | removalTakesUp position finished =>
      simp only [booked, counter, owed, position, finished, Task.start,
        evictionIncrements_removal, waiting, List.countP_cons, decide_eq_true_eq, selected]
      simp only [increments, List.count_nil]
      omega
  | removalEnds position finished =>
      simp only [booked, counter, owed, position, finished, waiting, selected]
      rfl

/-! ## No more evictions than kills -/

def tracked (state : SharedCollector Vec) (node : String) : Nat :=
  state.collector.lastSeen.keys.countP fun key => key.node = node

/-- The tracked keys of the node, and the one a recording in progress is to track. -/
def stock (state : SharedCollector Vec) (node : String) : Nat :=
  state.tracked node +
    match state.watch with
    | none => 0
    | some call => if call.key.node = node then 1 else 0

theorem stock_step (transition : Transition state action next) (node : String) :
    next.stock node + selected node action ≤ state.stock node + begun node action := by
  cases transition with
  | recordBegins event free =>
      simp only [stock, free]
      exact Nat.le_refl _
  | recordSteps inProgress steps =>
      simp only [stock, inProgress]
      exact Nat.le_refl _
  | @recordReturns call inProgress finished unlocked =>
      have inserted := Dictionary.countP_insert_le state.collector.lastSeen call.key
        call.event.timestamp fun key => key.node = node
      simp only [decide_eq_true_eq] at inserted
      simp only [stock, tracked, inProgress, selected, begun]
      omega
  | podNoted ns pod now => exact Nat.le_refl _
  | sweepDrains now ttlSecs free => exact Nat.le_refl _
  | @sweepScans now ttlSecs due order position ordered =>
      have split := Dictionary.countP_split state.collector.lastSeen
        (isStale now ttlSecs due) fun key => key.node = node
      have sameCount := ordered.countP_eq fun key => key.node = node
      simp only [splitStale] at sameCount
      simp only [stock, tracked, splitStale, selected, begun]
      omega
  | removalSteps position steps => exact Nat.le_refl _
  | removalTakesUp position finished => exact Nat.le_refl _
  | removalEnds position finished => exact Nat.le_refl _

end Steps

theorem WellFormed.owed_kills_le {state : SharedCollector Vec} (wellFormed : WellFormed state)
    (node : String) :
    state.owed .oomKillsPerNodeTotal [node] + state.tracked node ≤ state.stock node := by
  have ofRecording : ∀ call, state.watch = some call →
      increments .oomKillsPerNodeTotal [node] call.task.rest ≤
        if call.key.node = node then 1 else 0 := by
    intro call inProgress
    have isSuffix : call.task.rest <:+ recordInstructions call.event :=
      ⟨_, wellFormed.call call inProgress⟩
    rw [RecordCall.key, ← killIncrements_record]
    exact isSuffix.sublist.count_le _
  have ofRemoval : ∀ selected rest task, state.sweep = .removing selected rest task →
      increments .oomKillsPerNodeTotal [node] task.rest = 0 := by
    intro selected rest task position
    apply List.count_eq_zero.mpr
    intro member
    have isEvicted := wellFormed.onlyEvicted position _ _ _ member
    cases isEvicted
  simp only [owed, stock]
  cases inProgress : state.watch with
  | none =>
      cases position : state.sweep with
      | idle => simp
      | drained now ttlSecs due => simp
      | removing selected rest task => simp [ofRemoval _ _ _ position]
  | some call =>
      have atMost := ofRecording call inProgress
      cases position : state.sweep with
      | idle => simp only; omega
      | drained now ttlSecs due => simp only; omega
      | removing selected rest task =>
          have none := ofRemoval _ _ _ position
          simp only
          omega

theorem booked_start (family : Family) (labels : List String) :
    (start : SharedCollector Vec).booked family labels = 0 := by
  have unset : sample (start : SharedCollector Vec).collector.vecs family labels = none :=
    exported_empty labels
  rw [booked, counter, unset]
  rfl

/-- In every interleaving, the kills of a node and its evictions are those begun
and those selected, less what calls in progress are still to count; and a node
has no more evictions and tracked keys than kills. -/
theorem counters_conserved {actions : List Action} {state : SharedCollector Vec}
    (ran : machine.run start actions = some state) (node : String) :
    state.booked .oomKillsPerNodeTotal [node] = (actions.map (begun node)).sum ∧
      state.booked .oomSeriesEvictedTotal [node] + state.waiting node =
        (actions.map (selected node)).sum ∧
      state.counter .oomSeriesEvictedTotal [node] + state.tracked node ≤
        state.counter .oomKillsPerNodeTotal [node] := by
  have keeps : ∀ {family : Family}, family.perContainer = false →
      ∀ {state : SharedCollector Vec} {action next}, Increments family state →
        machine.step state action = some next → Increments family next :=
    fun perNode _ _ _ sound stepped => sound.step perNode (transition_of_step stepped)
  have kills := Machine.total_of_run (fun state => state.booked .oomKillsPerNodeTotal [node])
    (begun node) (keeps rfl)
    (fun sound stepped => kills_booked sound (transition_of_step stepped) node)
    (increments_start _) ran
  have evictions := Machine.total_of_run
    (fun state => state.booked .oomSeriesEvictedTotal [node] + state.waiting node)
    (selected node) (keeps rfl)
    (fun sound stepped => evictions_booked sound (transition_of_step stepped) node)
    (increments_start _) ran
  have stocked := Machine.spent_of_run (fun state => state.stock node) (begun node)
    (selected node) (fun stepped => stock_step (transition_of_step stepped) node) ran
  have wellFormed : WellFormed state := Machine.invariant_of_any_run
    (fun wellFormed stepped => wellFormed.step (transition_of_step stepped))
    wellFormed_start ran
  have owed := wellFormed.owed_kills_le node
  have nothingStocked : (start : SharedCollector Vec).stock node = 0 := rfl
  have nothingWaiting : (start : SharedCollector Vec).waiting node = 0 := rfl
  rw [booked_start] at kills
  rw [booked_start, nothingWaiting] at evictions
  rw [nothingStocked] at stocked
  refine ⟨by omega, by omega, ?_⟩
  simp only [booked] at kills evictions
  omega

/-- A kill whose own counter a sweep detached in the middle of its recording is
still a kill of its node. -/
theorem counters_conserved_own_key_swept :
    ∃ state : SharedCollector LabelVec,
      machine.run start (sweptWhileRecording (eventFor "api-7d9" "containerd://abc123" 0)
        (eventFor "api-7d9" "containerd://abc123" 5000)) = some state ∧
      state.booked .oomKillsPerNodeTotal ["node-1"] = 2 ∧
      state.booked .oomSeriesEvictedTotal ["node-1"] + state.waiting "node-1" = 1 := by
  apply Machine.exists_run_of_decided fun _ => True
  · intro state ran _
    rcases counters_conserved ran "node-1" with ⟨kills, evictions, _⟩
    exact ⟨kills, evictions⟩
  · decide

end SharedCollector

end OomWatcher
