import OomWatcher.Metrics.Conservation
import OomWatcher.Metrics.RepeatedSweep

/-! # One call at a time

While no sweep removes a series from under a recording, the calls that ran side by
side can be put in the order in which they took their locks: made one at a time in
that order, they lead to the same collector. -/

namespace OomWatcher

variable {Vec : Type} [MetricVec Vec (List String)]

open MetricVec

/-! ## Instructions on one series -/

def Instruction.effect : Instruction → Option Nat → Option Nat
  | .write _ _ applied, before => some (applied.change (before.getD 0))
  | .remove _ _, _ => none

def sampleAfter (series : Family × List String) (instructions : List Instruction)
    (before : Option Nat) : Option Nat :=
  (instructions.filter fun instruction => instruction.target = series).foldl
    (fun shown instruction => instruction.effect shown) before

section SampleAfter

variable {series : Family × List String}

@[simp] theorem sampleAfter_nil (before : Option Nat) : sampleAfter series [] before = before :=
  rfl

theorem sampleAfter_cons (instruction : Instruction) (later : List Instruction)
    (before : Option Nat) :
    sampleAfter series (instruction :: later) before =
      sampleAfter series later
        (if instruction.target = series then instruction.effect before else before) := by
  by_cases own : instruction.target = series <;> simp [sampleAfter, own]

theorem sampleAfter_append (first second : List Instruction) (before : Option Nat) :
    sampleAfter series (first ++ second) before =
      sampleAfter series second (sampleAfter series first before) := by
  rw [sampleAfter, List.filter_append, List.foldl_append]
  rfl

theorem sampleAfter_of_untouched {instructions : List Instruction}
    (untouched : series ∉ instructions.map Instruction.target) (before : Option Nat) :
    sampleAfter series instructions before = before := by
  have none : (instructions.filter fun instruction => instruction.target = series) = [] := by
    rw [List.filter_eq_nil_iff]
    intro instruction member own
    exact untouched (List.mem_map.mpr ⟨instruction, member, of_decide_eq_true own⟩)
  rw [sampleAfter, none]
  rfl

theorem sample_execute (vecs : Family → Vec) (instruction : Instruction) :
    sample (execute vecs instruction) series.1 series.2 =
      if instruction.target = series then instruction.effect (sample vecs series.1 series.2)
      else sample vecs series.1 series.2 := by
  rcases series with ⟨shown, shownLabels⟩
  have isTarget : (shown = instruction.target.1 ∧ shownLabels = instruction.target.2) ↔
      instruction.target = (shown, shownLabels) := by
    rw [Prod.ext_iff, eq_comm, @eq_comm _ shownLabels]
  cases instruction with
  | write family labels write =>
      refine (sample_write ..).trans ?_
      by_cases own : shown = family ∧ shownLabels = labels
      · rw [if_pos own, if_pos (isTarget.mp own), own.1, own.2]
        rfl
      · rw [if_neg own, if_neg (mt isTarget.mpr own)]
  | remove family labels =>
      refine (sample_remove ..).trans ?_
      by_cases own : shown = family ∧ shownLabels = labels
      · rw [if_pos own, if_pos (isTarget.mp own)]
        rfl
      · rw [if_neg own, if_neg (mt isTarget.mpr own)]

theorem sample_executeAll (vecs : Family → Vec) (instructions : List Instruction) :
    sample (executeAll vecs instructions) series.1 series.2 =
      sampleAfter series instructions (sample vecs series.1 series.2) := by
  induction instructions generalizing vecs with
  | nil => rfl
  | cons instruction later induction =>
      rw [executeAll_cons, induction, sample_execute, sampleAfter_cons]

end SampleAfter

/-- What a removal may do: count evictions, and remove anything but their counter. -/
def Instruction.Removes : Instruction → Prop
  | .remove family _ => family ≠ .oomSeriesEvictedTotal
  | .write family _ applied => family = .oomSeriesEvictedTotal ∧ applied = .inc

theorem removes_of_removal {key : SeriesKey} {orphaned : Bool} {instruction : Instruction}
    (member : instruction ∈ removalInstructions key orphaned) : instruction.Removes := by
  cases orphaned <;> simp [removalInstructions] at member
  · rcases member with rfl | rfl | rfl
    · rintro ⟨⟩
    · rintro ⟨⟩
    · exact ⟨rfl, rfl⟩
  · rcases member with rfl | rfl | ⟨memoryType, _, rfl⟩ | rfl
    · rintro ⟨⟩
    · rintro ⟨⟩
    · rintro ⟨⟩
    · exact ⟨rfl, rfl⟩

theorem sampleAfter_perm {series : Family × List String} {first second : List Instruction}
    (reordered : first.Perm second) (removes : ∀ instruction ∈ first, instruction.Removes)
    (before : Option Nat) :
    sampleAfter series first before = sampleAfter series second before := by
  apply (reordered.filter _).foldl_eq'
  intro left inLeft right inRight shown
  rcases List.mem_filter.mp inLeft with ⟨leftMember, leftOwn⟩
  rcases List.mem_filter.mp inRight with ⟨rightMember, rightOwn⟩
  have leftRemoves := removes left leftMember
  have rightRemoves := removes right rightMember
  have sameTarget : left.target = right.target :=
    (of_decide_eq_true leftOwn).trans (of_decide_eq_true rightOwn).symm
  cases left with
  | remove family labels =>
      cases right with
      | remove otherFamily otherLabels => rfl
      | write otherFamily otherLabels write =>
          cases sameTarget
          exact absurd rightRemoves.1 leftRemoves
  | write family labels write =>
      cases right with
      | remove otherFamily otherLabels =>
          cases sameTarget
          exact absurd leftRemoves.1 rightRemoves
      | write otherFamily otherLabels otherWrite =>
          rw [leftRemoves.2, rightRemoves.2]
          rfl

theorem sampleAfter_of_not_removed {series : Family × List String}
    {instructions : List Instruction} (removes : ∀ instruction ∈ instructions, instruction.Removes)
    (notEvicted : series.1 ≠ .oomSeriesEvictedTotal)
    (spared : .remove series.1 series.2 ∉ instructions) (before : Option Nat) :
    sampleAfter series instructions before = before := by
  apply sampleAfter_of_untouched
  intro touched
  rcases List.mem_map.mp touched with ⟨instruction, member, rfl⟩
  have isRemoval := removes instruction member
  cases instruction with
  | remove family labels => exact spared member
  | write family labels write => exact notEvicted isRemoval.1

theorem isSome_sampleAfter {series : Family × List String} {instructions : List Instruction}
    {before : Option Nat} (records : ∀ instruction ∈ instructions, instruction.Records)
    (shown : before.isSome ∨ series ∈ instructions.map Instruction.target) :
    (sampleAfter series instructions before).isSome := by
  induction instructions generalizing before with
  | nil => simpa using shown
  | cons instruction later induction =>
      rw [sampleAfter_cons]
      apply induction fun other member => records other (List.mem_cons_of_mem _ member)
      by_cases own : instruction.target = series
      · left
        rw [if_pos own]
        cases instruction with
        | write family labels write => rfl
        | remove family labels => exact (records _ List.mem_cons_self).elim
      · rw [if_neg own]
        rw [List.map_cons, List.mem_cons] at shown
        exact shown.imp_right fun touched => touched.resolve_left (Ne.symm own)

/-! ## A task in the middle of its instructions -/

namespace Task

/-- What a task without removals has made of a sample: its finished instructions are
done, and the series it holds is there. -/
def progress (task : Task Vec) (series : Family × List String) (before : Option Nat) :
    Option Nat :=
  if task.obtained.contains series then some ((sampleAfter series task.finished before).getD 0)
  else before

section Progress

variable {series : Family × List String} {before : Option Nat}

theorem progress_eq (task : Task Vec) :
    task.progress series before =
      if series ∈ task.obtained then some ((sampleAfter series task.finished before).getD 0)
      else before := by
  simp only [progress, List.contains_iff_mem]

theorem progress_of_not_obtained {task : Task Vec} (notObtained : series ∉ task.obtained) :
    task.progress series before = before := by
  rw [progress_eq, if_neg notObtained]

theorem progress_getD (task : Task Vec) :
    (task.progress series before).getD 0 = (sampleAfter series task.finished before).getD 0 := by
  rw [progress_eq]
  split
  · rfl
  · next notObtained =>
      have untouched : series ∉ task.finished.map Instruction.target :=
        fun touched => notObtained (List.mem_append_left _ touched)
      rw [sampleAfter_of_untouched untouched]

theorem progress_holding {finished later : List Instruction} {family : Family}
    {labels : List String} {write : Write} {handle : Handle Vec} :
    progress ⟨finished, .write family labels write :: later, .holding handle⟩ series before =
      if series = (family, labels) then
        some ((progress (⟨finished, .write family labels write :: later, .ready⟩ : Task Vec)
          series before).getD 0)
      else progress (⟨finished, .write family labels write :: later, .ready⟩ : Task Vec)
        series before := by
  split
  · next own =>
      have obtained : series ∈ (⟨finished, .write family labels write :: later,
          .holding handle⟩ : Task Vec).obtained :=
        List.mem_append_right _ (List.mem_singleton.mpr own)
      rw [progress_getD, progress_eq, if_pos obtained]
  · next other =>
      have sameObtained : series ∈ (⟨finished, .write family labels write :: later,
          .holding handle⟩ : Task Vec).obtained ↔
            series ∈ (⟨finished, .write family labels write :: later, .ready⟩ :
              Task Vec).obtained := by
        simp [obtained, Instruction.target, other]
      rw [progress_eq, progress_eq]
      simp only [sameObtained]

theorem progress_finished {finished later : List Instruction} {family : Family}
    {labels : List String} {write : Write} {phase : Phase Vec} :
    progress (⟨finished ++ [.write family labels write], later, .ready⟩ : Task Vec) series before =
      if series = (family, labels) then
        some (write.change ((progress ⟨finished, .write family labels write :: later, phase⟩
          series before).getD 0))
      else progress ⟨finished, .write family labels write :: later, phase⟩ series before := by
  split
  · next own =>
      have obtained : series ∈ (⟨finished ++ [.write family labels write], later, .ready⟩ :
          Task Vec).obtained := by
        simp [obtained, Instruction.target, own]
      have isTarget : (Instruction.write family labels write).target = series := own.symm
      rw [progress_getD, progress_eq, if_pos obtained, sampleAfter_append, sampleAfter_cons,
        if_pos isTarget]
      rfl
  · next other =>
      have sameObtained : series ∈ (⟨finished ++ [.write family labels write], later, .ready⟩ :
          Task Vec).obtained ↔
            series ∈ (⟨finished, .write family labels write :: later, phase⟩ :
              Task Vec).obtained := by
        cases phase <;> simp [obtained, Instruction.target, other]
      have notTarget : (Instruction.write family labels write).target ≠ series := Ne.symm other
      rw [progress_eq, progress_eq, sampleAfter_append, sampleAfter_cons, if_neg notTarget]
      simp only [sameObtained, sampleAfter_nil]

theorem progress_of_done {task : Task Vec} (done : task.rest = [])
    (records : ∀ instruction ∈ task.finished, instruction.Records) :
    task.progress series before = sampleAfter series task.finished before := by
  have sameObtained : task.obtained = task.finished.map Instruction.target := by
    rw [obtained, done]
    cases task.phase <;> simp
  rw [progress_eq, sameObtained]
  split
  · next touched =>
      rcases Option.isSome_iff_exists.mp (isSome_sampleAfter records (.inr touched))
        with ⟨value, isValue⟩
      rw [isValue]
      rfl
  · next untouched => rw [sampleAfter_of_untouched untouched]

end Progress

namespace Steps

variable {vecs next : Family → Vec} {task after : Task Vec}

/-- A step takes the sample of every series from one stage of a recording to the next. -/
theorem progress (steps : Steps vecs task next after) (holding : task.Holds vecs)
    (atRecording : task.AtRecording) {series : Family × List String} {before : Option Nat}
    (agrees : sample vecs series.1 series.2 = task.progress series before) :
    sample next series.1 series.2 = after.progress series before := by
  have isSeries : ∀ {family : Family} {labels : List String},
      series.1 = family ∧ series.2 = labels ↔ series = (family, labels) :=
    (@Prod.ext_iff _ _ series (_, _)).symm
  cases steps with
  | removed => exact (atRecording _ List.mem_cons_self).elim
  | @obtained finished family labels write later =>
      rw [sample_obtain, progress_holding, if_congr isSeries rfl rfl]
      split
      · next own =>
          rw [← agrees, own]
      · exact agrees
  | @changed finished family labels write later handle direct =>
      have attached : child (vecs family) labels = some handle := holding
      rw [sample_update_of_child attached, progress_finished, if_congr isSeries rfl rfl]
      split
      · next own => rw [← agrees, own]
      · exact agrees
  | exceeded above => exact agrees
  | @kept finished family labels value later handle notAbove =>
      have old : sample vecs family labels = some (read (vecs family) handle) :=
        exported_of_child holding
      rw [progress_finished]
      split
      · next own =>
          rw [← agrees, own, old, Option.getD_some, Write.change, if_neg (Nat.not_lt.mpr notAbove)]
      · exact agrees
  | @set finished family labels write later handle value =>
      rcases holding with ⟨attached, isRaise, below⟩
      have old : sample vecs family labels = some (read (vecs family) handle) :=
        exported_of_child attached
      rw [sample_store_of_child attached, progress_finished, if_congr isSeries rfl rfl]
      split
      · next own => rw [← agrees, own, old, Option.getD_some, isRaise, Write.change, if_pos below]
      · exact agrees

/-- A step of a removal does its part of what remains to be done to every series. -/
theorem remains (steps : Steps vecs task next after)
    (holding : task.HoldsIn .oomSeriesEvictedTotal vecs)
    (removes : ∀ instruction ∈ task.rest, instruction.Removes) (series : Family × List String) :
    sampleAfter series after.rest (sample next series.1 series.2) =
      sampleAfter series task.rest (sample vecs series.1 series.2) := by
  have isSeries : ∀ {family : Family} {labels : List String},
      series.1 = family ∧ series.2 = labels ↔ (family, labels) = series :=
    (@Prod.ext_iff _ _ series (_, _)).symm.trans eq_comm
  cases steps with
  | removed => rw [sample_execute, ← sampleAfter_cons]
  | @obtained finished family labels write later =>
      rw [sampleAfter_cons, sampleAfter_cons, sample_obtain]
      by_cases own : (family, labels) = series
      · have isTarget : (Instruction.write family labels write).target = series := own
        rw [if_pos isTarget, if_pos isTarget, if_pos (isSeries.mpr own), ← own]
        rfl
      · rw [if_neg (mt isSeries.mp own)]
  | @changed finished family labels write later handle direct =>
      rcases removes _ List.mem_cons_self with ⟨rfl, rfl⟩
      have attached : child (vecs .oomSeriesEvictedTotal) labels = some handle := holding rfl
      rw [sampleAfter_cons, sample_update_of_child attached]
      by_cases own : (Family.oomSeriesEvictedTotal, labels) = series
      · have isTarget : (Instruction.write .oomSeriesEvictedTotal labels .inc).target = series :=
          own
        rw [if_pos isTarget, if_pos (isSeries.mpr own), ← own]
        rfl
      · have notTarget : (Instruction.write .oomSeriesEvictedTotal labels .inc).target ≠ series :=
          own
        rw [if_neg notTarget, if_neg (mt isSeries.mp own)]
  | exceeded above => cases (removes _ List.mem_cons_self).2
  | kept notAbove => cases (removes _ List.mem_cons_self).2
  | set => exact absurd (removes _ List.mem_cons_self).1 holding

theorem rest_cases (steps : Steps vecs task next after) :
    after.rest = task.rest ∨ ∃ instruction, task.rest = instruction :: after.rest := by
  cases steps with
  | removed => exact .inr ⟨_, rfl⟩
  | obtained => exact .inl rfl
  | changed direct => exact .inr ⟨_, rfl⟩
  | exceeded above => exact .inl rfl
  | kept notAbove => exact .inr ⟨_, rfl⟩
  | set => exact .inr ⟨_, rfl⟩

theorem rest_ne_nil (steps : Steps vecs task next after) : task.rest ≠ [] := by
  cases steps <;> exact List.cons_ne_nil _ _

theorem obtained_subset (steps : Steps vecs task next after) : task.obtained ⊆ after.obtained := by
  cases steps with
  | @removed finished family labels later phase => cases phase <;> simp [Task.obtained]
  | obtained => simp [Task.obtained]
  | changed direct => simp [Task.obtained]
  | exceeded above => exact List.Subset.refl _
  | kept notAbove => simp [Task.obtained]
  | set => simp [Task.obtained]

end Steps

end Task

namespace SharedCollector

/-! ## The order of the locks -/

/-- The call that takes effect with a step: a recording with its key, a sweep with its
scan. -/
def performed (state : SharedCollector Vec) : Action → Option Operation
  | .continueRecord =>
      (state.watch.filter fun call => call.task.rest.isEmpty).map fun call =>
        .recordOomEvent call.event
  | .notePodDeleted ns pod now => some (.notePodDeleted ns pod now)
  | .scan _ =>
      match state.sweep with
      | .drained now ttlSecs _ => some (.evictStale now ttlSecs)
      | .idle | .removing _ _ _ => none
  | .recordOomEvent _ | .evictStale _ _ | .continueRemoval => none

def lockOrder (state : SharedCollector Vec) : List Action → History
  | [] => []
  | action :: later =>
      match machine.step state action with
      | none => []
      | some next => lockOrder next later ++ (state.performed action).toList

theorem performed_of_rest {state : SharedCollector Vec} {call : RecordCall Vec}
    (inProgress : state.watch = some call) (more : call.task.rest ≠ []) :
    state.performed .continueRecord = none := by
  simp [performed, inProgress, more]

theorem performed_of_done {state : SharedCollector Vec} {call : RecordCall Vec}
    (inProgress : state.watch = some call) (done : call.task.rest = []) :
    state.performed .continueRecord = some (.recordOomEvent call.event) := by
  simp [performed, inProgress, done]

/-- Between the two locks of a sweep, no deletion is noted that the sweep would have
to act on. -/
def NotesApart (state : SharedCollector Vec) : Action → Prop
  | .notePodDeleted ns pod now =>
      match state.sweep with
      | .drained sweepTime _ due =>
          (ns, pod) ∉ due ∧ sweepTime < saturatingAdd now deletedPodGraceSeconds
      | .idle | .removing _ _ _ => True
  | _ => True

instance (state : SharedCollector Vec) (action : Action) :
    Decidable (NotesApart state action) := by
  rcases state with ⟨collector, watch, sweep, reported⟩
  cases action with
  | notePodDeleted ns pod now =>
      cases sweep with
      | drained sweepTime ttlSecs due =>
          exact decidable_of_iff (due.contains (ns, pod) = false ∧
            sweepTime < saturatingAdd now deletedPodGraceSeconds) (by simp [NotesApart])
      | idle | removing selected rest task => exact .isTrue trivial
  | recordOomEvent _ | continueRecord | evictStale _ _ | scan _ | continueRemoval =>
      exact .isTrue trivial

/-! ## One call at a time and side by side -/

def removals (state : SharedCollector Vec) : List Instruction :=
  match state.sweep with
  | .idle | .drained _ _ _ => []
  | .removing _ rest task =>
      task.rest ++ rest.flatMap fun key =>
        removalInstructions key (memoryOrphaned state.collector.lastSeen key)

def underway (state : SharedCollector Vec) (series : Family × List String)
    (before : Option Nat) : Option Nat :=
  match state.watch with
  | none => before
  | some call => call.task.progress series before

def Undisputed (state : SharedCollector Vec) (series : Family × List String) : Prop :=
  ∀ call, state.watch = some call → series ∈ call.task.obtained →
    .remove series.1 series.2 ∉ state.removals

def scheduleLeft (position : SweepPosition Vec)
    (deletedAfter : Dictionary (String × String) Nat) : Dictionary (String × String) Nat :=
  match position with
  | .drained now _ _ => (drainDue deletedAfter now).2
  | .idle | .removing _ _ _ => deletedAfter

/-- The collector of a run beside the one that was called one call at a time: they
differ by what the recording in progress has done and the sweep has still to do. -/
structure Agrees (state : SharedCollector Vec) (atomic : MetricsCollector Vec) : Prop where
  lastSeen : state.collector.lastSeen = atomic.lastSeen
  lastDroppedTotal : state.collector.lastDroppedTotal = atomic.lastDroppedTotal
  deletedAfter : ∀ pod, state.collector.deletedAfter.lookup pod =
    (scheduleLeft state.sweep atomic.deletedAfter).lookup pod
  due : ∀ now ttlSecs due, state.sweep = .drained now ttlSecs due →
    ∀ pod, pod ∈ due ↔ pod ∈ (drainDue atomic.deletedAfter now).1
  samples : ∀ series, state.Undisputed series →
    sampleAfter series state.removals (sample state.collector.vecs series.1 series.2) =
      state.underway series (sample atomic.vecs series.1 series.2)

theorem agrees_start : Agrees (start : SharedCollector Vec) .new where
  lastSeen := rfl
  lastDroppedTotal := rfl
  deletedAfter _ := rfl
  due _ _ _ position := nomatch position
  samples _ _ := rfl

section Steps

variable {state next : SharedCollector Vec} {atomic : MetricsCollector Vec} {action : Action}

theorem WellFormed.removes (wellFormed : WellFormed state) :
    ∀ instruction ∈ state.removals, instruction.Removes := by
  intro instruction member
  rw [removals] at member
  split at member
  · cases member
  · cases member
  · next selected rest task position =>
      rcases List.mem_append.mp member with inTask | later
      · rcases wellFormed.task _ _ _ position instruction inTask with ⟨_, _, _, removal⟩
        exact removes_of_removal removal
      · rcases List.mem_flatMap.mp later with ⟨_, _, removal⟩
        exact removes_of_removal removal

theorem WellFormed.sampleAfter_removals (wellFormed : WellFormed state)
    {series : Family × List String} (undisputed : state.Undisputed series)
    {call : RecordCall Vec} (inProgress : state.watch = some call)
    (obtained : series ∈ call.task.obtained) (before : Option Nat) :
    sampleAfter series state.removals before = before :=
  sampleAfter_of_not_removed wellFormed.removes
    (wellFormed.notEvicted_of_obtained inProgress obtained) (undisputed call inProgress obtained)
    before

theorem Agrees.scheduleAt (agrees : Agrees state atomic) {position : SweepPosition Vec}
    (isPosition : state.sweep = position) (pod : String × String) :
    state.collector.deletedAfter.lookup pod =
      (scheduleLeft position atomic.deletedAfter).lookup pod := by
  rw [agrees.deletedAfter pod, isPosition]

theorem Agrees.shown (agrees : Agrees state atomic) (nonePending : state.removals = [])
    (series : Family × List String) :
    sample state.collector.vecs series.1 series.2 =
      state.underway series (sample atomic.vecs series.1 series.2) := by
  have agreed := agrees.samples series fun _ _ _ => nonePending ▸ List.not_mem_nil
  rw [nonePending, sampleAfter_nil] at agreed
  exact agreed

theorem Agrees.recordSteps (agrees : Agrees state atomic) (wellFormed : WellFormed state)
    {call : RecordCall Vec} {vecs : Family → Vec} {task : Task Vec}
    (inProgress : state.watch = some call) (holding : call.task.Holds state.collector.vecs)
    (steps : Task.Steps state.collector.vecs call.task vecs task) :
    Agrees { state with
      collector := { state.collector with vecs := vecs }
      watch := some { call with task := task } } atomic where
  lastSeen := agrees.lastSeen
  lastDroppedTotal := agrees.lastDroppedTotal
  deletedAfter := agrees.deletedAfter
  due := agrees.due
  samples series undisputed := by
    have atRecording := wellFormed.atRecording inProgress
    have before : state.Undisputed series := by
      intro other isCall obtained
      cases inProgress.symm.trans isCall
      exact undisputed _ rfl (steps.obtained_subset obtained)
    have agreed := agrees.samples series before
    simp only [underway, inProgress] at agreed
    change sampleAfter series state.removals (sample vecs series.1 series.2) =
      task.progress series (sample atomic.vecs series.1 series.2)
    by_cases obtained : series ∈ task.obtained
    · have nextWellFormed := wellFormed.step (.recordSteps inProgress steps)
      have spared := nextWellFormed.sampleAfter_removals undisputed rfl obtained
      have sparedNow : ∀ shown, sampleAfter series state.removals shown = shown := spared
      rw [sparedNow] at agreed ⊢
      exact steps.progress holding atRecording agreed
    · have notYet : series ∉ call.task.obtained := fun earlier =>
        obtained (steps.obtained_subset earlier)
      have unchanged := steps.progress holding atRecording
        (Task.progress_of_not_obtained notYet).symm
      rw [Task.progress_of_not_obtained obtained] at unchanged
      rw [Task.progress_of_not_obtained notYet] at agreed
      rw [unchanged, agreed, Task.progress_of_not_obtained obtained]

/-- The recording takes effect when it takes `last_seen`, which no removal holds. -/
theorem Agrees.recordReturns (agrees : Agrees state atomic) (wellFormed : WellFormed state)
    {call : RecordCall Vec} (inProgress : state.watch = some call)
    (done : call.task.rest = []) (unlocked : state.sweep.holdsLastSeen = false) :
    Agrees { state with
      collector :=
        { state.collector with
          lastSeen := state.collector.lastSeen.insert call.key call.event.timestamp }
      watch := none
      reported := call.event :: state.reported } (atomic.recordOomEvent call.event) where
  lastSeen := congrArg (·.insert call.key call.event.timestamp) agrees.lastSeen
  lastDroppedTotal := agrees.lastDroppedTotal
  deletedAfter := agrees.deletedAfter
  due := agrees.due
  samples series _ := by
    have noRemovals : ∀ lastSeen : Dictionary SeriesKey Nat,
        removals { state with
          collector := { state.collector with lastSeen := lastSeen }
          watch := none
          reported := call.event :: state.reported } = [] ∧ state.removals = [] := by
      intro lastSeen
      cases position : state.sweep with
      | idle | drained now ttlSecs due => simp only [removals, position, and_self]
      | removing selected rest task =>
          rw [position] at unlocked
          cases unlocked
    have allFinished : call.task.finished = recordInstructions call.event := by
      rw [← wellFormed.call call inProgress, done, List.append_nil]
    have agreed := agrees.shown (noRemovals state.collector.lastSeen).2 series
    simp only [underway, inProgress] at agreed
    rw [Task.progress_of_done done fun _ member =>
      records_of_record (allFinished ▸ member), allFinished] at agreed
    rw [(noRemovals _).1, sampleAfter_nil]
    exact agreed.trans (sample_executeAll _ _).symm

theorem Agrees.podNoted (agrees : Agrees state atomic) {ns pod : String} {now : Nat}
    (apart : state.NotesApart (.notePodDeleted ns pod now)) :
    Agrees { state with collector := state.collector.notePodDeleted ns pod now }
      (atomic.notePodDeleted ns pod now) where
  lastSeen := agrees.lastSeen
  lastDroppedTotal := agrees.lastDroppedTotal
  deletedAfter other := by
    simp only [MetricsCollector.notePodDeleted, Dictionary.lookup_insert_eq]
    cases position : state.sweep with
    | idle | removing selected rest task =>
        have before := agrees.scheduleAt position other
        simp only [scheduleLeft, Dictionary.lookup_insert_eq] at before ⊢
        rw [before]
    | drained sweepTime ttlSecs due =>
        have before := agrees.scheduleAt position other
        simp only [NotesApart, position] at apart
        simp only [scheduleLeft, lookup_drainDue, Dictionary.lookup_insert_eq] at before ⊢
        rw [before]
        split
        · rw [Option.filter_some, if_pos (decide_eq_true apart.2)]
        · rfl
  due sweepTime ttlSecs due position other := by
    have position : state.sweep = .drained sweepTime ttlSecs due := position
    simp only [NotesApart, position] at apart
    rw [agrees.due sweepTime ttlSecs due position other, mem_drainDue, mem_drainDue]
    simp only [MetricsCollector.notePodDeleted, Dictionary.lookup_insert_eq]
    by_cases same : other = (ns, pod)
    · have notDue := (agrees.due sweepTime ttlSecs due position other).not.mp (same ▸ apart.1)
      rw [mem_drainDue] at notDue
      rw [if_pos same]
      refine iff_of_false notDue ?_
      rintro ⟨removableAt, isDue, reached⟩
      have later := apart.2
      cases isDue
      omega
    · rw [if_neg same]
  samples := agrees.samples

theorem Agrees.sweepDrains (agrees : Agrees state atomic) (now ttlSecs : Nat)
    (free : state.sweep = .idle) :
    Agrees { state with
      collector :=
        { state.collector with deletedAfter := (drainDue state.collector.deletedAfter now).2 }
      sweep := .drained now ttlSecs (drainDue state.collector.deletedAfter now).1 } atomic where
  lastSeen := agrees.lastSeen
  lastDroppedTotal := agrees.lastDroppedTotal
  deletedAfter pod := by
    simp only [scheduleLeft, lookup_drainDue]
    rw [agrees.scheduleAt free pod]
    rfl
  due sweepTime sweepTtl due position pod := by
    cases position
    rw [mem_drainDue, mem_drainDue, agrees.scheduleAt free pod]
    rfl
  samples series _ := by
    have nonePending : state.removals = [] := by simp only [removals, free]
    exact agrees.shown nonePending series

theorem sample_evictStale_eq (atomic : MetricsCollector Vec) (now ttlSecs : Nat)
    (series : Family × List String) :
    sample (atomic.evictStale now ttlSecs).1.vecs series.1 series.2 =
      sampleAfter series
        ((staleKeys atomic now ttlSecs).flatMap fun key =>
          removalInstructions key
            (memoryOrphaned (atomic.evictStale now ttlSecs).1.lastSeen key))
        (sample atomic.vecs series.1 series.2) :=
  sample_executeAll _ _

/-- The sweep takes effect when it scans: the keys it selects are those that a sweep
at once would take then. -/
theorem Agrees.sweepScans (agrees : Agrees state atomic) (wellFormed : WellFormed state)
    {now ttlSecs : Nat} {due : List (String × String)} {order : List SeriesKey}
    (position : state.sweep = .drained now ttlSecs due)
    (ordered : order.Perm (splitStale state.collector.lastSeen now ttlSecs due).1) :
    Agrees { state with
      collector :=
        { state.collector with
          lastSeen := (splitStale state.collector.lastSeen now ttlSecs due).2 }
      sweep := .removing order order (.start [])
      reported := state.reported.filter fun event =>
        .ofEvent event ∉ (splitStale state.collector.lastSeen now ttlSecs due).1 }
      (atomic.evictStale now ttlSecs).1 := by
  have nextWellFormed := wellFormed.step (.sweepScans position ordered)
  have sameStale : isStale now ttlSecs due = isStale now ttlSecs (duePods atomic now) := by
    funext key seen
    exact isStale_congr (agrees.due now ttlSecs due position) now ttlSecs key seen
  have sameSplit : splitStale state.collector.lastSeen now ttlSecs due =
      splitStale atomic.lastSeen now ttlSecs (duePods atomic now) := by
    rw [splitStale, splitStale, sameStale, agrees.lastSeen]
  have sameLastSeen : (splitStale state.collector.lastSeen now ttlSecs due).2 =
      (atomic.evictStale now ttlSecs).1.lastSeen := congrArg Prod.snd sameSplit
  have sameKeys : order.Perm (staleKeys atomic now ttlSecs) :=
    ordered.trans (List.Perm.of_eq (congrArg Prod.fst sameSplit))
  refine ⟨sameLastSeen, agrees.lastDroppedTotal, agrees.scheduleAt position, ?_, ?_⟩
  · rintro _ _ _ ⟨⟩
  · intro series undisputed
    have nonePending : state.removals = [] := by simp only [removals, position]
    have agreed := agrees.shown nonePending series
    let removal : List Instruction := order.flatMap fun key =>
      removalInstructions key
        (memoryOrphaned (splitStale state.collector.lastSeen now ttlSecs due).2 key)
    have removes : ∀ instruction ∈ removal, instruction.Removes := nextWellFormed.removes
    have atOnce : sample (atomic.evictStale now ttlSecs).1.vecs series.1 series.2 =
        sampleAfter series removal (sample atomic.vecs series.1 series.2) := by
      rw [sample_evictStale_eq, ← sameLastSeen]
      exact (sampleAfter_perm (sameKeys.flatMap_right _) removes _).symm
    change sampleAfter series removal (sample state.collector.vecs series.1 series.2) =
      state.underway series (sample (atomic.evictStale now ttlSecs).1.vecs series.1 series.2)
    rw [atOnce, agreed]
    -- the sweep and the recording in progress are not at the same series
    cases inProgress : state.watch with
    | none => simp only [underway, inProgress]
    | some call =>
        simp only [underway, inProgress]
        by_cases obtained : series ∈ call.task.obtained
        · have spared : ∀ shown, sampleAfter series removal shown = shown :=
            nextWellFormed.sampleAfter_removals undisputed inProgress obtained
          rw [spared, spared]
        · rw [Task.progress_of_not_obtained obtained, Task.progress_of_not_obtained obtained]

theorem Agrees.removalSteps (agrees : Agrees state atomic) (wellFormed : WellFormed state)
    (increments : Increments .oomSeriesEvictedTotal state)
    (spares : state.SparesObtained .continueRemoval) {selected rest : List SeriesKey}
    {task after : Task Vec} {vecs : Family → Vec}
    (position : state.sweep = .removing selected rest task)
    (steps : Task.Steps state.collector.vecs task vecs after) :
    Agrees { state with
      collector := { state.collector with vecs := vecs }
      sweep := .removing selected rest after } atomic where
  lastSeen := agrees.lastSeen
  lastDroppedTotal := agrees.lastDroppedTotal
  deletedAfter := by
    have schedule := agrees.scheduleAt position
    exact schedule
  due _ _ _ nextPosition := nomatch nextPosition
  samples series undisputed := by
    let later : List Instruction := rest.flatMap fun key =>
      removalInstructions key (memoryOrphaned state.collector.lastSeen key)
    have now : state.removals = task.rest ++ later := by simp only [removals, position, later]
    have removes : ∀ instruction ∈ task.rest, instruction.Removes := fun instruction member =>
      wellFormed.removes instruction (now ▸ List.mem_append_left _ member)
    have before : state.Undisputed series := by
      intro call inProgress obtained pending
      have stillPending := undisputed call inProgress obtained
      rw [now] at pending
      have notLater : Instruction.remove series.1 series.2 ∉ after.rest ++ later := stillPending
      rcases steps.rest_cases with same | ⟨instruction, isNext⟩
      · exact notLater (same ▸ pending)
      · rw [isNext] at pending
        rcases List.mem_cons.mp pending with isRemoval | pendingLater
        · have head : task.rest.head? = some (.remove series.1 series.2) := by
            rw [isNext, isRemoval, List.head?_cons]
          exact spares.not_mem position inProgress head obtained
        · exact notLater pendingLater
    have agreed := agrees.samples series before
    rw [now, sampleAfter_append, ← steps.remains (increments.removalHolds _ _ _ position) removes,
      ← sampleAfter_append] at agreed
    exact agreed

theorem Agrees.step (agrees : Agrees state atomic) (wellFormed : WellFormed state)
    (kept : Kept state) (increments : Increments .oomSeriesEvictedTotal state)
    (spares : state.SparesObtained action) (apart : state.NotesApart action)
    (transition : Transition state action next) :
    Agrees next ((state.performed action).elim atomic atomic.apply) := by
  cases transition with
  | recordBegins event free =>
      refine ⟨agrees.lastSeen, agrees.lastDroppedTotal, agrees.deletedAfter, agrees.due, ?_⟩
      intro series _
      have agreed := agrees.samples series fun call inProgress => by
        rw [free] at inProgress
        cases inProgress
      simp only [underway, free] at agreed
      exact agreed
  | @recordSteps call vecs task inProgress steps =>
      rw [performed_of_rest inProgress steps.rest_ne_nil]
      exact agrees.recordSteps wellFormed inProgress (kept.recording call inProgress).holds steps
  | @recordReturns call inProgress finished unlocked =>
      rw [performed_of_done inProgress finished]
      exact agrees.recordReturns wellFormed inProgress finished unlocked
  | podNoted ns pod now => exact agrees.podNoted apart
  | sweepDrains now ttlSecs free => exact agrees.sweepDrains now ttlSecs free
  | sweepScans position ordered =>
      simp only [performed, position]
      exact agrees.sweepScans wellFormed position ordered
  | removalSteps position steps =>
      exact agrees.removalSteps wellFormed increments spares position steps
  | @removalTakesUp selected key keys task position finished =>
      have samePending : state.removals = removals { state with
          sweep := .removing selected keys
            (.start (removalInstructions key (memoryOrphaned state.collector.lastSeen key))) } := by
        simp [removals, position, finished, Task.start]
      have schedule := agrees.scheduleAt position
      refine ⟨agrees.lastSeen, agrees.lastDroppedTotal, schedule, ?_, ?_⟩
      · rintro _ _ _ ⟨⟩
      · intro series undisputed
        have agreed := agrees.samples series fun call inProgress obtained =>
          samePending ▸ undisputed call inProgress obtained
        rw [samePending] at agreed
        exact agreed
  | @removalEnds selected task position finished =>
      have nonePending : state.removals = [] := by simp [removals, position, finished]
      have schedule := agrees.scheduleAt position
      refine ⟨agrees.lastSeen, agrees.lastDroppedTotal, schedule, ?_, ?_⟩
      · rintro _ _ _ ⟨⟩
      · intro series undisputed
        exact agrees.shown nonePending series

end Steps

/-! ## The order of each task's calls -/

inductive Worker
  | watchLoop
  | podCache
  | sweeper
deriving DecidableEq, Repr

def worker : Operation → Worker
  | .recordOomEvent _ => .watchLoop
  | .notePodDeleted _ _ _ => .podCache
  | .evictStale _ _ => .sweeper

def called : Action → Option Operation
  | .recordOomEvent event => some (.recordOomEvent event)
  | .notePodDeleted ns pod now => some (.notePodDeleted ns pod now)
  | .evictStale now ttlSecs => some (.evictStale now ttlSecs)
  | .continueRecord | .scan _ | .continueRemoval => none

def unperformed (state : SharedCollector Vec) : List Operation :=
  (state.watch.map fun call => .recordOomEvent call.event).toList ++
    match state.sweep with
    | .drained now ttlSecs _ => [.evictStale now ttlSecs]
    | .idle | .removing _ _ _ => []

theorem Transition.calls {state next : SharedCollector Vec} {action : Action}
    (transition : Transition state action next) (task : Worker) :
    ((state.performed action).toList ++ next.unperformed).filter (worker · = task) =
      (state.unperformed ++ (called action).toList).filter (worker · = task) := by
  cases transition with
  | recordBegins event free =>
      cases task <;> cases position : state.sweep <;>
        simp [performed, unperformed, called, worker, free, position]
  | recordSteps inProgress steps =>
      rw [performed_of_rest inProgress steps.rest_ne_nil]
      simp [unperformed, called, inProgress]
  | recordReturns inProgress finished unlocked =>
      rw [performed_of_done inProgress finished]
      simp [unperformed, called, inProgress]
  | podNoted ns pod now =>
      cases task <;> cases inProgress : state.watch <;> cases position : state.sweep <;>
        simp [performed, unperformed, called, worker, inProgress, position]
  | sweepDrains now ttlSecs free => simp [performed, unperformed, called, free]
  | sweepScans position ordered =>
      cases task <;> cases inProgress : state.watch <;>
        simp [performed, unperformed, called, worker, inProgress, position]
  | removalSteps position steps => simp [performed, unperformed, called, position]
  | removalTakesUp position finished => simp [performed, unperformed, called, position]
  | removalEnds position finished => simp [performed, unperformed, called, position]

theorem lockOrder_cons {state next : SharedCollector Vec} {action : Action}
    (stepped : machine.step state action = some next) (later : List Action) :
    lockOrder state (action :: later) =
      lockOrder next later ++ (state.performed action).toList := by
  rw [lockOrder, stepped]

theorem lockOrder_of_task {actions : List Action} {state final : SharedCollector Vec}
    (ran : machine.run state actions = some final) (task : Worker) :
    ((lockOrder state actions).reverse ++ final.unperformed).filter (worker · = task) =
      (state.unperformed ++ actions.filterMap called).filter (worker · = task) := by
  induction actions generalizing state with
  | nil =>
      cases ran
      rw [lockOrder, List.reverse_nil, List.nil_append, List.filterMap_nil, List.append_nil]
  | cons action later induction =>
      rcases Machine.run_cons_eq_some.mp ran with ⟨next, stepped, ranLater⟩
      have first := (transition_of_step stepped).calls task
      have rest := induction ranLater
      have split : (action :: later).filterMap called =
          (called action).toList ++ later.filterMap called := by
        rw [List.filterMap_cons]
        cases called action <;> rfl
      have reversed : (state.performed action).toList.reverse =
          (state.performed action).toList := by
        cases state.performed action <;> rfl
      rw [lockOrder_cons stepped, List.reverse_append, reversed, List.append_assoc,
        List.filter_append, rest, split, ← List.append_assoc, List.filter_append _ _,
        List.filter_append, ← List.append_assoc, ← List.filter_append, first]

/-! ## Runs -/

/-- The sweep removes nothing that the recording in progress has obtained, and no
deletion is noted that concerns it between its locks. -/
def Apart (state : SharedCollector Vec) (action : Action) : Prop :=
  state.SparesObtained action ∧ state.NotesApart action

instance (state : SharedCollector Vec) (action : Action) : Decidable (Apart state action) := by
  unfold Apart
  infer_instance

def atRest (state : SharedCollector Vec) : Bool :=
  match state.watch, state.sweep with
  | none, .idle => true
  | _, _ => false

theorem atRest_iff {state : SharedCollector Vec} :
    state.atRest = true ↔ state.watch = none ∧ state.sweep = .idle := by
  rw [atRest]
  split
  · next noRecording noSweep => simp [noRecording, noSweep]
  · next busy =>
      refine iff_of_false Bool.false_ne_true ?_
      rintro ⟨noRecording, noSweep⟩
      exact busy noRecording noSweep

structure Regular (state : SharedCollector Vec) : Prop where
  wellFormed : WellFormed state
  kept : Kept state
  increments : Increments .oomSeriesEvictedTotal state

theorem Regular.step {state next : SharedCollector Vec} {action : Action}
    (regular : Regular state) (spares : state.SparesObtained action)
    (transition : Transition state action next) : Regular next where
  wellFormed := regular.wellFormed.step transition
  kept := regular.kept.step regular.wellFormed spares transition
  increments := regular.increments.step rfl transition

/-- The calls of a run, made one at a time in the order of the locks, lead to a
collector that agrees with where the run leads. -/
theorem agrees_of_run {actions : List Action} {state final : SharedCollector Vec}
    {atomic : MetricsCollector Vec} {history : History} (regular : Regular state)
    (agrees : Agrees state atomic) (executes : Executes history atomic)
    (apart : machine.Meets Apart state actions) (ran : machine.run state actions = some final) :
    ∃ after : MetricsCollector Vec,
      Executes (lockOrder state actions ++ history) after ∧ Agrees final after := by
  induction actions generalizing state atomic history with
  | nil =>
      cases ran
      exact ⟨atomic, executes, agrees⟩
  | cons action later induction =>
      rcases Machine.run_cons_eq_some.mp ran with ⟨next, stepped, ranLater⟩
      have transition := transition_of_step stepped
      have nextAgrees := agrees.step regular.wellFormed regular.kept regular.increments
        apart.1.1 apart.1.2 transition
      have nextExecutes : Executes ((state.performed action).toList ++ history)
          ((state.performed action).elim atomic atomic.apply) := by
        cases state.performed action with
        | none => exact executes
        | some operation => exact .call operation executes (.refl _)
      rcases induction (regular.step apart.1.1 transition) nextAgrees nextExecutes
        (apart.2 next stepped) ranLater with ⟨after, laterExecutes, laterAgrees⟩
      rw [lockOrder_cons stepped, List.append_assoc]
      exact ⟨after, laterExecutes, laterAgrees⟩

/-- While sweeps stay apart from recordings and deletions, an interleaving that has
come to rest is in the state that its calls lead to when they are made one at a time,
in the order of their locks. That order has every call once, and each task's calls in
the order in which the task made them. -/
theorem linearizable {actions : List Action} {state : SharedCollector Vec}
    (apart : machine.Meets Apart (start : SharedCollector Vec) actions)
    (ran : machine.run start actions = some state)
    (atRest : state.atRest = true) :
    (∀ task, (lockOrder (start : SharedCollector Vec) actions).reverse.filter (worker · = task) =
        (actions.filterMap called).filter (worker · = task)) ∧
      ∃ atomic, Executes (lockOrder (start : SharedCollector Vec) actions) atomic ∧
        SameState state.collector atomic := by
  rcases atRest_iff.mp atRest with ⟨noRecording, noSweep⟩
  constructor
  · intro task
    have ordered := lockOrder_of_task ran task
    have nonePerformed : state.unperformed = [] := by
      simp [unperformed, noRecording, noSweep]
    rw [nonePerformed, List.append_nil] at ordered
    exact ordered
  · have regular : Regular (start : SharedCollector Vec) :=
      ⟨wellFormed_start, kept_start, increments_start _⟩
    rcases agrees_of_run regular agrees_start .start apart ran with ⟨atomic, executes, agrees⟩
    rw [List.append_nil] at executes
    refine ⟨atomic, executes, ?_, ?_, agrees.lastDroppedTotal, ?_⟩
    · rw [agrees.lastSeen]
      exact .refl _
    · apply Dictionary.Reordered.of_lookup
      intro pod
      rw [agrees.deletedAfter pod, noSweep]
      rfl
    · intro family labels
      have nonePending : state.removals = [] := by simp only [removals, noSweep]
      have agreed := agrees.shown nonePending (family, labels)
      simp only [underway, noRecording] at agreed
      exact agreed

/-- A kill recorded around a sweep of another key. -/
theorem linearizable_other_key_swept :
    let actions := sweptWhileRecording (eventFor "api-7d9" "containerd://abc123" 0)
      (eventFor "web-0" "containerd://abc123" 5000)
    ∃ state : SharedCollector LabelVec, machine.run start actions = some state ∧
      ∃ atomic, Executes (lockOrder (start : SharedCollector LabelVec) actions) atomic ∧
        SameState state.collector atomic := by
  intro actions
  apply Machine.exists_run_of_decided fun state : SharedCollector LabelVec => state.atRest = true
  · intro state ran atRest
    exact (linearizable (by decide) ran atRest).2
  · decide

end SharedCollector

end OomWatcher
