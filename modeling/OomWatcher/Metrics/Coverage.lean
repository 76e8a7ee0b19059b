import OomWatcher.Metrics.Interleaving

/-! # No series leaks

Nothing but a sweep ever removes a per-container series, and a sweep only
removes those of tracked keys. So each exported one must be tracked, or be about
to be by the call in progress, or be about to be removed. -/

namespace OomWatcher

variable {Vec : Type} [MetricVec Vec (List String)]

namespace SeriesKey

/-- The series of a key: two of its own, and the four it may share. -/
def series (key : SeriesKey) : List (Family × List String) :=
  [(.oomKillsTotal, key.labels), (.oomLastTimestamp, key.labels)] ++
    memoryTypes.map fun memoryType => (.oomMemoryUsageBytes, key.memoryLabels memoryType)

theorem mem_series_kills {key : SeriesKey} {labels : List String} :
    (Family.oomKillsTotal, labels) ∈ key.series ↔ labels = key.labels := by
  simp [series]

theorem mem_series_lastTimestamp {key : SeriesKey} {labels : List String} :
    (Family.oomLastTimestamp, labels) ∈ key.series ↔ labels = key.labels := by
  simp [series]

theorem mem_series_memory {key : SeriesKey} {labels : List String} :
    (Family.oomMemoryUsageBytes, labels) ∈ key.series ↔
      ∃ memoryType, key.memoryLabels memoryType = labels := by
  simp [series, MemoryType.mem_memoryTypes]

theorem mem_series_of_shares {left right : SeriesKey} {labels : List String}
    (shared : left.sharesMemorySeriesWith right = true)
    (member : (Family.oomMemoryUsageBytes, labels) ∈ right.series) :
    (Family.oomMemoryUsageBytes, labels) ∈ left.series := by
  rcases mem_series_memory.mp member with ⟨memoryType, equal⟩
  exact mem_series_memory.mpr ⟨memoryType, (shares_iff.mp shared memoryType).trans equal⟩

end SeriesKey

def Family.perContainer : Family → Bool
  | .oomKillsTotal | .oomLastTimestamp | .oomMemoryUsageBytes => true
  | .oomKillsPerNodeTotal | .oomResolutionFailuresTotal | .oomEventsDroppedTotal
  | .oomSeriesEvictedTotal => false

theorem mem_series_of_record {event : EnrichedOomEvent} {series : Family × List String}
    {write : Write} (member : .write series.1 series.2 write ∈ recordInstructions event)
    (perContainer : series.1.perContainer = true) :
    series ∈ (SeriesKey.ofEvent event).series := by
  rcases series with ⟨family, labels⟩
  cases family with
  | oomKillsTotal =>
      rw [SeriesKey.mem_series_kills]
      simp [recordInstructions] at member
      exact member.1
  | oomLastTimestamp =>
      rw [SeriesKey.mem_series_lastTimestamp]
      simp [recordInstructions] at member
      exact member.1
  | oomMemoryUsageBytes =>
      rw [SeriesKey.mem_series_memory]
      simp [recordInstructions, zip_memoryValues] at member
      rcases member with ⟨memoryType, _, equal, _⟩
      exact ⟨memoryType, equal⟩
  | oomKillsPerNodeTotal | oomResolutionFailuresTotal | oomEventsDroppedTotal
  | oomSeriesEvictedTotal => cases perContainer

theorem remove_mem_iff {key : SeriesKey} {orphaned : Bool} {family : Family}
    {labels : List String} :
    .remove family labels ∈ removalInstructions key orphaned ↔
      (family, labels) ∈ key.series ∧ (family = .oomMemoryUsageBytes → orphaned = true) := by
  cases family with
  | oomKillsTotal =>
      rw [remove_perContainer_mem _ _ _ (.inl rfl), SeriesKey.mem_series_kills]
      exact ⟨fun equal => ⟨equal, nofun⟩, And.left⟩
  | oomLastTimestamp =>
      rw [remove_perContainer_mem _ _ _ (.inr rfl), SeriesKey.mem_series_lastTimestamp]
      exact ⟨fun equal => ⟨equal, nofun⟩, And.left⟩
  | oomMemoryUsageBytes =>
      rw [SeriesKey.mem_series_memory]
      cases orphaned <;> simp [removalInstructions, MemoryType.mem_memoryTypes]
  | oomKillsPerNodeTotal | oomResolutionFailuresTotal | oomEventsDroppedTotal
  | oomSeriesEvictedTotal =>
      cases orphaned <;> simp [removalInstructions, SeriesKey.series]

theorem not_perContainer_of_removal {key : SeriesKey} {orphaned : Bool} {family : Family}
    {labels : List String} {write : Write}
    (member : .write family labels write ∈ removalInstructions key orphaned) :
    family.perContainer = false := by
  have evicted : family = .oomSeriesEvictedTotal := by
    cases orphaned <;> simp [removalInstructions] at member <;> exact member.1
  rw [evicted]
  rfl

theorem removed_or_tracked (lastSeen : Dictionary SeriesKey Nat) {key : SeriesKey}
    {series : Family × List String} (member : series ∈ key.series) :
    .remove series.1 series.2 ∈ removalInstructions key (memoryOrphaned lastSeen key) ∨
      ∃ live ∈ lastSeen.keys, series ∈ live.series := by
  rcases series with ⟨family, labels⟩
  by_cases kept : family = .oomMemoryUsageBytes ∧ memoryOrphaned lastSeen key = false
  · right
    rcases kept with ⟨rfl, notOrphaned⟩
    rw [memoryOrphaned, Bool.not_eq_false'] at notOrphaned
    rcases List.any_eq_true.mp notOrphaned with ⟨live, isLive, shared⟩
    exact ⟨live, isLive, SeriesKey.mem_series_of_shares shared member⟩
  · left
    refine remove_mem_iff.mpr ⟨member, fun isMemory => ?_⟩
    by_contra notOrphaned
    exact kept ⟨isMemory, Bool.eq_false_iff.mpr notOrphaned⟩

theorem notEvicted_of_mem_series {key : SeriesKey} {series : Family × List String}
    (member : series ∈ key.series) : series.1 ≠ .oomSeriesEvictedTotal := by
  simp only [SeriesKey.series, List.mem_append, List.mem_cons, List.not_mem_nil, or_false,
    List.mem_map] at member
  rcases member with (rfl | rfl) | ⟨_, _, rfl⟩ <;>
    (intro equal; cases equal)

theorem untracked_of_removal {lastSeen : Dictionary SeriesKey Nat} {key : SeriesKey}
    (untracked : key ∉ lastSeen.keys) {series : Family × List String}
    (member : .remove series.1 series.2 ∈
      removalInstructions key (memoryOrphaned lastSeen key)) :
    ∀ live ∈ lastSeen.keys, series ∉ live.series := by
  intro live isLive own
  rcases series with ⟨family, labels⟩
  rcases remove_mem_iff.mp member with ⟨ofKey, orphaned⟩
  have keysDiffer : live.labels ≠ key.labels := fun equal =>
    untracked (SeriesKey.labels_inj.mp equal ▸ isLive)
  cases family with
  | oomKillsTotal =>
      rw [SeriesKey.mem_series_kills] at own ofKey
      exact keysDiffer (own.symm.trans ofKey)
  | oomLastTimestamp =>
      rw [SeriesKey.mem_series_lastTimestamp] at own ofKey
      exact keysDiffer (own.symm.trans ofKey)
  | oomMemoryUsageBytes =>
      rw [SeriesKey.mem_series_memory] at own ofKey
      rcases own with ⟨memoryType, rfl⟩
      rcases ofKey with ⟨otherType, equal⟩
      have shared := (SeriesKey.memoryLabels_eq_iff.mp equal.symm).1
      have noneShares := orphaned rfl
      rw [memoryOrphaned, Bool.not_eq_true', ← Bool.not_eq_true] at noneShares
      exact noneShares (List.any_eq_true.mpr ⟨live, isLive, shared⟩)
  | oomKillsPerNodeTotal | oomResolutionFailuresTotal | oomEventsDroppedTotal
  | oomSeriesEvictedTotal => simp [SeriesKey.series] at own

namespace SharedCollector

def Tracked (state : SharedCollector Vec) (series : Family × List String) : Prop :=
  ∃ key ∈ state.collector.lastSeen.keys, series ∈ key.series

def BeingRecorded (state : SharedCollector Vec) (series : Family × List String) : Prop :=
  ∃ call, state.watch = some call ∧ series ∈ call.key.series

def BeingRemoved (state : SharedCollector Vec) (series : Family × List String) : Prop :=
  ∃ selected rest task, state.sweep = .removing selected rest task ∧
    ((∃ key ∈ rest, series ∈ key.series) ∨ .remove series.1 series.2 ∈ task.rest)

def Accounted (state : SharedCollector Vec) : Prop :=
  ∀ series : Family × List String, series.1.perContainer = true →
    Exported state.collector.vecs series →
      state.Tracked series ∨ state.BeingRecorded series ∨ state.BeingRemoved series

theorem accounted_start : Accounted (start : SharedCollector Vec) := by
  intro series _ shown
  exact absurd (MetricVec.exported_empty series.2) shown

section InProgress

variable {state : SharedCollector Vec} {series : Family × List String}

theorem beingRecorded_iff {call : RecordCall Vec} (inProgress : state.watch = some call) :
    state.BeingRecorded series ↔ series ∈ call.key.series := by
  constructor
  · intro beingRecorded
    rcases beingRecorded with ⟨other, otherInProgress, own⟩
    rw [inProgress] at otherInProgress
    cases otherInProgress
    exact own
  · exact fun own => ⟨call, inProgress, own⟩

theorem not_beingRecorded (free : state.watch = none) : ¬ state.BeingRecorded series := by
  intro beingRecorded
  rcases beingRecorded with ⟨call, inProgress, _⟩
  rw [free] at inProgress
  cases inProgress

theorem beingRemoved_iff {selected rest : List SeriesKey} {task : Task Vec}
    (position : state.sweep = .removing selected rest task) :
    state.BeingRemoved series ↔
      (∃ key ∈ rest, series ∈ key.series) ∨ .remove series.1 series.2 ∈ task.rest := by
  constructor
  · intro beingRemoved
    rcases beingRemoved with ⟨_, _, _, samePosition, toRemove⟩
    rw [position] at samePosition
    cases samePosition
    exact toRemove
  · exact fun toRemove => ⟨selected, rest, task, position, toRemove⟩

theorem not_beingRemoved
    (elsewhere : ∀ selected rest task, state.sweep ≠ .removing selected rest task) :
    ¬ state.BeingRemoved series := by
  intro beingRemoved
  rcases beingRemoved with ⟨selected, rest, task, position, _⟩
  exact elsewhere selected rest task position

end InProgress

section Steps

variable {state : SharedCollector Vec}

theorem Accounted.recordSteps (accounted : Accounted state) (wellFormed : WellFormed state)
    {call : RecordCall Vec} {vecs : Family → Vec} {task : Task Vec}
    (inProgress : state.watch = some call)
    (steps : Task.Steps state.collector.vecs call.task vecs task) :
    Accounted { state with
      collector := { state.collector with vecs := vecs }
      watch := some { call with task := task } } := by
  intro series perContainer shown
  rw [beingRecorded_iff rfl]
  rcases steps.exported shown with before | ⟨write, member⟩
  · rcases accounted series perContainer before with tracked | recording | removing
    · exact .inl tracked
    · exact .inr (.inl ((beingRecorded_iff inProgress).mp recording))
    · exact .inr (.inr removing)
  · have instruction : .write series.1 series.2 write ∈ recordInstructions call.event :=
      wellFormed.call call inProgress ▸ List.mem_append_right _ member
    exact .inr (.inl (mem_series_of_record instruction perContainer))

theorem Accounted.recordReturns (accounted : Accounted state) {call : RecordCall Vec}
    (inProgress : state.watch = some call) :
    Accounted { state with
      collector :=
        { state.collector with
          lastSeen := state.collector.lastSeen.insert call.key call.event.timestamp }
      watch := none
      reported := call.event :: state.reported } := by
  intro series perContainer shown
  rcases accounted series perContainer shown with ⟨key, isTracked, own⟩ | recording | removing
  · exact .inl ⟨key, (Dictionary.mem_keys_insert _ _ _ _).mpr (.inr isTracked), own⟩
  · have own := (beingRecorded_iff inProgress).mp recording
    exact .inl ⟨call.key, (Dictionary.mem_keys_insert _ _ _ _).mpr (.inl rfl), own⟩
  · exact .inr (.inr removing)

theorem Accounted.sweepScans (accounted : Accounted state) {now ttlSecs : Nat}
    {due : List (String × String)} {order : List SeriesKey}
    (position : state.sweep = .drained now ttlSecs due)
    (ordered : order.Perm (splitStale state.collector.lastSeen now ttlSecs due).1) :
    Accounted { state with
      collector :=
        { state.collector with
          lastSeen := (splitStale state.collector.lastSeen now ttlSecs due).2 }
      sweep := .removing order order (.start [])
      reported := state.reported.filter fun event =>
        .ofEvent event ∉ (splitStale state.collector.lastSeen now ttlSecs due).1 } := by
  intro series perContainer shown
  rw [beingRemoved_iff rfl]
  rcases accounted series perContainer shown with ⟨key, isTracked, own⟩ | recording | removing
  · by_cases isStale : key ∈ (splitStale state.collector.lastSeen now ttlSecs due).1
    · have isSelected : key ∈ order := ordered.mem_iff.mpr isStale
      exact .inr (.inr (.inl ⟨key, isSelected, own⟩))
    · exact .inl ⟨key, (mem_keys_splitStale _ _ _ _ _).mpr ⟨isTracked, isStale⟩, own⟩
  · exact .inr (.inl recording)
  · apply absurd removing
    apply not_beingRemoved
    rw [position]
    nofun

theorem Accounted.removalSteps (accounted : Accounted state) (wellFormed : WellFormed state)
    {selected rest : List SeriesKey} {task after : Task Vec} {vecs : Family → Vec}
    (position : state.sweep = .removing selected rest task)
    (steps : Task.Steps state.collector.vecs task vecs after) :
    Accounted { state with
      collector := { state.collector with vecs := vecs }
      sweep := .removing selected rest after } := by
  intro series perContainer shown
  rw [beingRemoved_iff rfl]
  rcases steps.exported shown with before | ⟨write, member⟩
  · rcases accounted series perContainer before with tracked | recording | removing
    · exact .inl tracked
    · exact .inr (.inl recording)
    · have toRemove := (beingRemoved_iff position).mp removing
      exact .inr (.inr (toRemove.imp_right fun pending => steps.removal_pending pending shown))
  · rcases wellFormed.task _ _ _ position _ member with ⟨_, _, _, inRemoval⟩
    rw [not_perContainer_of_removal inRemoval] at perContainer
    cases perContainer

theorem Accounted.removalTakesUp (accounted : Accounted state) {selected keys : List SeriesKey}
    {key : SeriesKey} {task : Task Vec}
    (position : state.sweep = .removing selected (key :: keys) task)
    (finished : task.rest = []) :
    Accounted { state with
      sweep := .removing selected keys
        (.start (removalInstructions key (memoryOrphaned state.collector.lastSeen key))) } := by
  intro series perContainer shown
  rw [beingRemoved_iff rfl]
  rcases accounted series perContainer shown with tracked | recording | removing
  · exact .inl tracked
  · exact .inr (.inl recording)
  · rcases (beingRemoved_iff position).mp removing with ⟨other, isNext, own⟩ | pending
    · rcases List.mem_cons.mp isNext with rfl | later
      · -- a memory gauge may be left to another restart, which is tracked
        rcases removed_or_tracked state.collector.lastSeen own with removed | tracked
        · exact .inr (.inr (.inr removed))
        · exact .inl tracked
      · exact .inr (.inr (.inl ⟨other, later, own⟩))
    · rw [finished] at pending
      cases pending

end Steps

theorem Accounted.step {state next : SharedCollector Vec} {action : Action}
    (accounted : Accounted state) (wellFormed : WellFormed state)
    (transition : Transition state action next) : Accounted next := by
  cases transition with
  | recordBegins event free =>
      intro series perContainer shown
      rcases accounted series perContainer shown with tracked | recording | removing
      · exact .inl tracked
      · exact absurd recording (not_beingRecorded free)
      · exact .inr (.inr removing)
  | recordSteps inProgress steps => exact accounted.recordSteps wellFormed inProgress steps
  | recordReturns inProgress finished unlocked => exact accounted.recordReturns inProgress
  | podNoted ns pod now => exact accounted
  | sweepDrains now ttlSecs free =>
      intro series perContainer shown
      rcases accounted series perContainer shown with tracked | recording | removing
      · exact .inl tracked
      · exact .inr (.inl recording)
      · apply absurd removing
        apply not_beingRemoved
        rw [free]
        nofun
  | sweepScans position ordered => exact accounted.sweepScans position ordered
  | removalSteps position steps => exact accounted.removalSteps wellFormed position steps
  | removalTakesUp position finished => exact accounted.removalTakesUp position finished
  | removalEnds position finished =>
      intro series perContainer shown
      rcases accounted series perContainer shown with tracked | recording | removing
      · exact .inl tracked
      · exact .inr (.inl recording)
      · rcases (beingRemoved_iff position).mp removing with ⟨_, isNext, _⟩ | pending
        · cases isNext
        · rw [finished] at pending
          cases pending

theorem accounted_of_run {actions : List Action} {state : SharedCollector Vec}
    (ran : machine.run start actions = some state) :
    WellFormed state ∧ Accounted state := by
  have stepKeeps : ∀ {state : SharedCollector Vec} {action next},
      WellFormed state ∧ Accounted state → machine.step state action = some next →
        WellFormed next ∧ Accounted next := by
    intro state action next holds stepped
    have transition := transition_of_step stepped
    exact ⟨holds.1.step transition, holds.2.step holds.1 transition⟩
  exact Machine.invariant_of_any_run stepKeeps ⟨wellFormed_start, accounted_start⟩ ran

/-- In every interleaving, every exported series of a container is tracked, or is
of the event being recorded, or is of a key the removal loop has selected; and
when no call is in progress it is tracked. -/
theorem series_tracked {actions : List Action} {state : SharedCollector Vec}
    (ran : machine.run start actions = some state) {family : Family}
    (perContainer : family.perContainer = true) {labels : List String}
    (shown : sample state.collector.vecs family labels ≠ none) :
    ((∃ key ∈ state.collector.lastSeen.keys, (family, labels) ∈ key.series) ∨
        (∃ call, state.watch = some call ∧ (family, labels) ∈ call.key.series) ∨
        ∃ selected rest task, state.sweep = .removing selected rest task ∧
          ∃ key ∈ selected, (family, labels) ∈ key.series) ∧
      (state.watch = none → state.sweep = .idle →
        ∃ key ∈ state.collector.lastSeen.keys, (family, labels) ∈ key.series) := by
  rcases accounted_of_run ran with ⟨wellFormed, accounted⟩
  rcases accounted (family, labels) perContainer shown with tracked | recording | removing
  · exact ⟨.inl tracked, fun _ _ => tracked⟩
  · refine ⟨.inr (.inl recording), ?_⟩
    intro noCall _
    rcases recording with ⟨_, inProgress, _⟩
    rw [noCall] at inProgress
    cases inProgress
  · rcases removing with ⟨selected, rest, task, position, toRemove⟩
    refine ⟨.inr (.inr ⟨selected, rest, task, position, ?_⟩), ?_⟩
    · rcases toRemove with ⟨key, isNext, own⟩ | pending
      · exact ⟨key, wellFormed.rest _ _ _ position key isNext, own⟩
      · rcases wellFormed.task _ _ _ position _ pending with ⟨key, isSelected, _, member⟩
        exact ⟨key, isSelected, (remove_mem_iff.mp member).1⟩
    · intro _ idle
      rw [idle] at position
      cases position

/-- A recorded event, when its call has returned. -/
theorem series_tracked_recorded :
    ∃ key ∈ ((MetricsCollector.new : MetricsCollector LabelVec).recordOomEvent
        (eventFor "api-7d9" "containerd://abc123" 10)).lastSeen.keys,
      (Family.oomKillsTotal,
        (SeriesKey.ofEvent (eventFor "api-7d9" "containerd://abc123" 10)).labels) ∈
          key.series := by
  rcases record_alone (start : SharedCollector LabelVec)
    (eventFor "api-7d9" "containerd://abc123" 10) rfl rfl with ⟨_, ran⟩
  have shown : sample ((MetricsCollector.new : MetricsCollector LabelVec).recordOomEvent
      (eventFor "api-7d9" "containerd://abc123" 10)).vecs .oomKillsTotal
      (SeriesKey.ofEvent (eventFor "api-7d9" "containerd://abc123" 10)).labels ≠ none := by
    decide
  exact (series_tracked ran rfl shown).2 rfl rfl

end SharedCollector

end OomWatcher
