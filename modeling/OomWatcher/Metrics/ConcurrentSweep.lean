import OomWatcher.Metrics.Coverage
import OomWatcher.Metrics.Registry

/-! # A kill recorded beside a sweep

A recording obtains its series before it takes the lock a sweep relies on. While
no sweep removes a series in between, every kill it reported stays counted. -/

namespace OomWatcher

variable {Vec : Type} [MetricVec Vec (List String)]

open MetricVec

/-! ## The steps of a recording -/

/-- What `record_oom_event` may do: never remove, only count kills, and only
raise gauges. The eviction counter is the sweep's. -/
def Instruction.Records : Instruction → Prop
  | .remove _ _ => False
  | .write .oomKillsTotal _ applied => applied = .inc
  | .write .oomMemoryUsageBytes _ applied => ∃ value, applied = .raise value
  | .write .oomSeriesEvictedTotal _ _ => False
  | .write _ _ _ => True

theorem records_of_record {event : EnrichedOomEvent} {instruction : Instruction}
    (member : instruction ∈ recordInstructions event) : instruction.Records := by
  simp only [recordInstructions, zip_memoryValues, List.map_map, List.mem_append,
    List.mem_cons, List.not_mem_nil, or_false, List.mem_map] at member
  rcases member with ((rfl | rfl) | ⟨memoryType, _, rfl⟩) | rfl
  · rfl
  · trivial
  · exact ⟨_, rfl⟩
  · trivial

theorem Instruction.Records.notEvicted {instruction : Instruction}
    (records : instruction.Records) : instruction.target.1 ≠ .oomSeriesEvictedTotal := by
  cases instruction with
  | remove family labels => exact records.elim
  | write family labels applied =>
      rintro rfl
      exact records.elim

theorem written_of_mem_series {event : EnrichedOomEvent} {series : Family × List String}
    (member : series ∈ (SeriesKey.ofEvent event).series) :
    series ∈ (recordInstructions event).map Instruction.target := by
  simp only [SeriesKey.series, List.mem_append, List.mem_cons, List.not_mem_nil, or_false,
    List.mem_map] at member
  simp only [recordInstructions, zip_memoryValues, List.map_append, List.map_map,
    List.mem_append, List.map_cons, List.map_nil, List.mem_cons, List.not_mem_nil, or_false]
  rcases member with (rfl | rfl) | inMemory
  · exact .inl (.inl (.inl rfl))
  · exact .inr rfl
  · exact .inl (.inr (List.mem_map.mpr inMemory))

theorem raise_mem_record (event : EnrichedOomEvent) (memoryType : MemoryType) :
    .write .oomMemoryUsageBytes ((SeriesKey.ofEvent event).memoryLabels memoryType)
      (.raise (bytesOf (memoryType.kilobytes event.rawEvent))) ∈ recordInstructions event := by
  simp only [recordInstructions, zip_memoryValues, List.map_map, List.mem_append, List.mem_map]
  exact .inl (.inr ⟨memoryType, memoryType.mem_memoryTypes, rfl⟩)

def killsCounted (labels : List String) (instructions : List Instruction) : Nat :=
  instructions.count (.write .oomKillsTotal labels .inc)

theorem killsCounted_append (labels : List String) (finished : List Instruction)
    (instruction : Instruction) :
    killsCounted labels (finished ++ [instruction]) = killsCounted labels finished +
      if instruction = .write .oomKillsTotal labels .inc then 1 else 0 := by
  simp [killsCounted, List.count_append, List.count_singleton]

theorem killsCounted_record (event : EnrichedOomEvent) (key : SeriesKey) :
    killsCounted key.labels (recordInstructions event) =
      if SeriesKey.ofEvent event = key then 1 else 0 := by
  simp [killsCounted, recordInstructions, memoryTypes, memoryValues, List.count_cons]

theorem killsCounted_eq_zero {labels : List String} {instructions : List Instruction}
    (unwritten : (Family.oomKillsTotal, labels) ∉ instructions.map Instruction.target) :
    killsCounted labels instructions = 0 :=
  List.count_eq_zero.mpr fun member => unwritten (List.mem_map.mpr ⟨_, member, rfl⟩)

namespace Task

/-- The handle of the task is that of the series it is to write to, and a gauge
about to be set is still below the value. -/
def Holds (vecs : Family → Vec) (task : Task Vec) : Prop :=
  match task.phase, task.rest with
  | .ready, _ => True
  | .holding handle, .write family labels _ :: _ =>
      child (vecs family) labels = some handle
  | .setting handle value, .write family labels write :: _ =>
      child (vecs family) labels = some handle ∧ write = .raise value ∧
        read (vecs family) handle < value
  | _, _ => False

def AtRecording (task : Task Vec) : Prop :=
  ∀ instruction ∈ task.rest, instruction.Records

namespace Steps

variable {vecs next : Family → Vec} {task after : Task Vec}

theorem holds (steps : Steps vecs task next after) (holding : task.Holds vecs) :
    after.Holds next := by
  cases steps with
  | removed => trivial
  | @obtained finished family labels write later =>
      have created := child_withLabelValues (vecs family) labels
      simp [Holds]
  | changed direct => trivial
  | exceeded above => exact ⟨holding, rfl, above⟩
  | kept notAbove => trivial
  | set => trivial

theorem exported_next (steps : Steps vecs task next after) (atRecording : task.AtRecording)
    {series : Family × List String} (shown : Exported vecs series) :
    Exported next series := by
  cases steps with
  | removed => exact (atRecording _ List.mem_cons_self).elim
  | obtained =>
      rw [Exported, sample_obtain]
      split
      · exact Option.some_ne_none _
      · exact shown
  | changed direct => exact (exported_store _ _ _ _ _).mpr shown
  | exceeded above => exact shown
  | kept notAbove => exact shown
  | set => exact (exported_store _ _ _ _ _).mpr shown

theorem exported_of_obtained (steps : Steps vecs task next after)
    (atRecording : task.AtRecording) {series : Family × List String}
    (obtained : series ∈ after.obtained) :
    series ∈ task.obtained ∨ Exported next series := by
  cases steps with
  | removed => exact (atRecording _ List.mem_cons_self).elim
  | @obtained finished family labels write later =>
      rcases List.mem_append.mp obtained with before | own
      · exact .inl (List.mem_append_left _ before)
      · right
        cases List.mem_singleton.mp own
        rw [Exported, sample_obtain]
        simp [Instruction.target]
  | changed direct => left; simpa [Task.obtained] using obtained
  | exceeded above => exact .inl obtained
  | kept notAbove => left; simpa [Task.obtained] using obtained
  | set => left; simpa [Task.obtained] using obtained

theorem kills_counted (steps : Steps vecs task next after) (holding : task.Holds vecs)
    (atRecording : task.AtRecording) (labels : List String) :
    (sample vecs .oomKillsTotal labels).getD 0 + killsCounted labels after.finished ≤
      (sample next .oomKillsTotal labels).getD 0 + killsCounted labels task.finished := by
  cases steps with
  | removed => exact (atRecording _ List.mem_cons_self).elim
  | obtained =>
      rw [sample_obtain]
      split
      · next own => simp [own.2, own.1]
      · exact le_rfl
  | @changed finished family other write later handle direct =>
      have attached : child (vecs family) other = some handle := holding
      rw [sample_update_of_child attached, killsCounted_append]
      by_cases own : Family.oomKillsTotal = family ∧ labels = other
      · rcases own with ⟨rfl, rfl⟩
        have isInc : write = .inc := atRecording _ List.mem_cons_self
        rw [isInc, if_pos rfl, if_pos ⟨rfl, rfl⟩, Option.getD_some, Write.change]
        dsimp only
        omega
      · have notCounted :
            Instruction.write family other write ≠ .write .oomKillsTotal labels .inc := by
          intro equal
          injection equal with sameFamily sameLabels _
          exact own ⟨sameFamily.symm, sameLabels.symm⟩
        rw [if_neg own, if_neg notCounted, Nat.add_zero]
  | exceeded above => exact le_rfl
  | kept notAbove => simp [killsCounted_append]
  | @set finished family other write later handle value =>
      rcases holding with ⟨attached, rfl, _⟩
      have notKills : Family.oomKillsTotal ≠ family := by
        rintro rfl
        cases atRecording _ List.mem_cons_self
      rw [sample_store_of_child attached, if_neg fun own => notKills own.1]
      simp [killsCounted_append]

theorem memory_le (steps : Steps vecs task next after) (holding : task.Holds vecs)
    (atRecording : task.AtRecording) (labels : List String) :
    (sample vecs .oomMemoryUsageBytes labels).getD 0 ≤
      (sample next .oomMemoryUsageBytes labels).getD 0 := by
  cases steps with
  | removed => exact (atRecording _ List.mem_cons_self).elim
  | obtained =>
      rw [sample_obtain]
      split
      · next own => simp [own.2, own.1]
      · exact le_rfl
  | @changed finished family other write later handle direct =>
      have attached : child (vecs family) other = some handle := holding
      have notMemory : Family.oomMemoryUsageBytes ≠ family := by
        rintro rfl
        rcases atRecording _ List.mem_cons_self with ⟨value, isRaise⟩
        exact direct value isRaise
      rw [sample_update_of_child attached, if_neg fun own => notMemory own.1]
  | exceeded above => exact le_rfl
  | kept notAbove => exact le_rfl
  | @set finished family other write later handle value =>
      rcases holding with ⟨attached, rfl, below⟩
      have old : sample vecs family other = some (read (vecs family) handle) :=
        exported_of_child attached
      rw [sample_store_of_child attached]
      split
      · next own =>
          rw [own.1, own.2, old]
          exact below.le
      · exact le_rfl

theorem raised (steps : Steps vecs task next after) (holding : task.Holds vecs)
    {labels : List String} {value : Nat}
    (finished : .write .oomMemoryUsageBytes labels (.raise value) ∈ after.finished) :
    .write .oomMemoryUsageBytes labels (.raise value) ∈ task.finished ∨
      value ≤ (sample next .oomMemoryUsageBytes labels).getD 0 := by
  cases steps with
  | removed =>
      rcases List.mem_append.mp finished with before | own
      · exact .inl before
      · cases List.mem_singleton.mp own
  | obtained => exact .inl finished
  | changed direct =>
      rcases List.mem_append.mp finished with before | own
      · exact .inl before
      · cases List.mem_singleton.mp own
        exact absurd rfl (direct value)
  | exceeded above => exact .inl finished
  | kept notAbove =>
      rcases List.mem_append.mp finished with before | own
      · exact .inl before
      · cases List.mem_singleton.mp own
        right
        have attached : sample vecs .oomMemoryUsageBytes labels = some _ :=
          exported_of_child holding
        rw [attached]
        exact notAbove
  | set =>
      rcases List.mem_append.mp finished with before | own
      · exact .inl before
      · cases List.mem_singleton.mp own
        rcases holding with ⟨attached, isRaise, _⟩
        cases isRaise
        right
        rw [sample_store_of_child attached, if_pos ⟨rfl, rfl⟩]
        exact le_rfl

/-! A removal, seen from the families of the other tasks. -/

theorem removal_effect (steps : Steps vecs task next after)
    (onlyEvicted : ∀ family labels write, .write family labels write ∈ task.rest →
      family = .oomSeriesEvictedTotal)
    {family : Family} (notEvicted : family ≠ .oomSeriesEvictedTotal) :
    next family = vecs family ∨
      ∃ labels, task.rest.head? = some (.remove family labels) ∧
        next family = removeLabelValues (vecs family) labels := by
  have unwritten : ∀ {written : Family} {labels write later} {vec : Vec},
      task.rest = .write written labels write :: later →
        Function.update vecs written vec family = vecs family := by
    intro written labels write later vec position
    have isEvicted := onlyEvicted written labels write (position ▸ List.mem_cons_self)
    exact Function.update_of_ne (isEvicted ▸ notEvicted) _ _
  cases steps with
  | @removed finished removedFrom labels later phase =>
      by_cases own : family = removedFrom
      · subst own
        exact .inr ⟨labels, rfl, Function.update_self _ _ _⟩
      · exact .inl (Function.update_of_ne own _ _)
  | obtained => exact .inl (unwritten rfl)
  | changed direct => exact .inl (unwritten rfl)
  | exceeded above => exact .inl rfl
  | kept notAbove => exact .inl rfl
  | set => exact .inl (unwritten rfl)

theorem sample_of_removal (steps : Steps vecs task next after)
    (onlyEvicted : ∀ family labels write, .write family labels write ∈ task.rest →
      family = .oomSeriesEvictedTotal)
    {family : Family} (notEvicted : family ≠ .oomSeriesEvictedTotal) {labels : List String}
    (spared : task.rest.head? ≠ some (.remove family labels)) :
    sample next family labels = sample vecs family labels := by
  unfold sample
  rcases steps.removal_effect onlyEvicted notEvicted with same | ⟨removed, isNext, effect⟩
  · rw [same]
  · have different : labels ≠ removed := fun equal => spared (equal ▸ isNext)
    rw [effect, exported_removeLabelValues, if_neg different]

end Steps

theorem Holds.of_removal {vecs next : Family → Vec} {remover after task : Task Vec}
    (holding : task.Holds vecs) (atRecording : task.AtRecording)
    (steps : Steps vecs remover next after)
    (onlyEvicted : ∀ family labels write, .write family labels write ∈ remover.rest →
      family = .oomSeriesEvictedTotal)
    (spared : ∀ series ∈ task.obtained,
      remover.rest.head? ≠ some (.remove series.1 series.2)) :
    task.Holds next := by
  rcases task with ⟨finished, rest, phase⟩
  have keeps : ∀ {family labels write later} {handle : Handle Vec},
      rest = .write family labels write :: later → phase ≠ .ready →
        child (vecs family) labels = some handle →
          child (next family) labels = some handle ∧
            read (next family) handle = read (vecs family) handle := by
    intro family labels write later handle position notReady attached
    subst position
    have notEvicted : family ≠ .oomSeriesEvictedTotal := by
      rintro rfl
      exact atRecording _ List.mem_cons_self
    have isObtained : (family, labels) ∈
        obtained ⟨finished, .write family labels write :: later, phase⟩ := by
      cases phase with
      | ready => exact absurd rfl notReady
      | holding _ | setting _ _ => exact List.mem_append_right _ List.mem_cons_self
    rcases steps.removal_effect onlyEvicted notEvicted with same | ⟨removed, isNext, effect⟩
    · rw [same]
      exact ⟨attached, rfl⟩
    · have different : labels ≠ removed := fun equal =>
        spared _ isObtained (equal ▸ isNext)
      rw [effect, child_removeLabelValues_of_ne _ different, read_removeLabelValues]
      exact ⟨attached, rfl⟩
  cases phase with
  | ready => trivial
  | holding handle =>
      rcases rest with _ | ⟨instruction, later⟩
      · exact holding.elim
      · cases instruction with
        | remove family labels => exact holding.elim
        | write family labels write => exact (keeps rfl nofun holding).1
  | setting handle value =>
      rcases rest with _ | ⟨instruction, later⟩
      · exact holding.elim
      · cases instruction with
        | remove family labels => exact holding.elim
        | write family labels write =>
            rcases holding with ⟨attached, isRaise, below⟩
            rcases keeps rfl nofun attached with ⟨stillAttached, sameValue⟩
            exact ⟨stillAttached, isRaise, sameValue ▸ below⟩

end Task

namespace SharedCollector

/-- The sweep does not remove, in this step, a series that the recording in
progress has already obtained. -/
def SparesObtained (state : SharedCollector Vec) : Action → Prop
  | .continueRemoval =>
      match state.sweep, state.watch with
      | .removing _ _ task, some call =>
          match task.rest with
          | .remove family labels :: _ => (family, labels) ∉ call.task.obtained
          | .write _ _ _ :: _ | [] => True
      | _, _ => True
  | _ => True

instance (state : SharedCollector Vec) (action : Action) :
    Decidable (SparesObtained state action) := by
  unfold SparesObtained
  split
  · split
    · split <;> infer_instance
    · infer_instance
  · infer_instance

theorem SparesObtained.not_mem {state : SharedCollector Vec}
    (spares : SparesObtained state .continueRemoval) {selected rest : List SeriesKey}
    {task : Task Vec} {call : RecordCall Vec} {series : Family × List String}
    (position : state.sweep = .removing selected rest task)
    (inProgress : state.watch = some call)
    (isNext : task.rest.head? = some (.remove series.1 series.2)) :
    series ∉ call.task.obtained := by
  rcases List.head?_eq_some_iff.mp isNext with ⟨later, equal⟩
  simpa only [SparesObtained, position, inProgress, equal] using spares

/-- The kills of a key that were counted: those reported, and that of the
recording in progress once it is. -/
def counted (state : SharedCollector Vec) (key : SeriesKey) : Nat :=
  state.reported.countP (fun event => .ofEvent event = key) +
    match state.watch with
    | none => 0
    | some call => killsCounted key.labels call.task.finished

/-! ### The invariant -/

structure RecordKept (vecs : Family → Vec) (call : RecordCall Vec) : Prop where
  holds : call.task.Holds vecs
  obtained : ∀ series ∈ call.task.obtained, Exported vecs series
  raised : ∀ labels value,
    .write .oomMemoryUsageBytes labels (.raise value) ∈ call.task.finished →
      value ≤ (sample vecs .oomMemoryUsageBytes labels).getD 0

structure RemovalApart (lastSeen : Dictionary SeriesKey Nat) (rest : List SeriesKey)
    (task : Task Vec) : Prop where
  rest : ∀ key ∈ rest, key ∉ lastSeen.keys
  task : ∀ series : Family × List String, .remove series.1 series.2 ∈ task.rest →
    ∀ key ∈ lastSeen.keys, series ∉ key.series

structure Kept (state : SharedCollector Vec) : Prop where
  recording : ∀ call, state.watch = some call → RecordKept state.collector.vecs call
  removal : ∀ selected rest task, state.sweep = .removing selected rest task →
    RemovalApart state.collector.lastSeen rest task
  tracked : ∀ event ∈ state.reported, .ofEvent event ∈ state.collector.lastSeen.keys
  existing : ∀ key ∈ state.collector.lastSeen.keys, ∀ series ∈ key.series,
    Exported state.collector.vecs series
  kills : ∀ key : SeriesKey, state.counted key ≤
    (sample state.collector.vecs .oomKillsTotal key.labels).getD 0
  peaks : ∀ event ∈ state.reported, ∀ memoryType : MemoryType,
    bytesOf (memoryType.kilobytes event.rawEvent) ≤
      (sample state.collector.vecs .oomMemoryUsageBytes
        ((SeriesKey.ofEvent event).memoryLabels memoryType)).getD 0

theorem kept_start : Kept (start : SharedCollector Vec) where
  recording _ inProgress := by cases inProgress
  removal _ _ _ position := by cases position
  tracked _ member := by cases member
  existing _ member := by cases member
  kills _ := Nat.zero_le _
  peaks _ member := by cases member

/-! ### Its steps -/

section Steps

variable {state : SharedCollector Vec}

theorem WellFormed.atRecording (wellFormed : WellFormed state) {call : RecordCall Vec}
    (inProgress : state.watch = some call) : call.task.AtRecording := by
  intro instruction member
  have inRecording : instruction ∈ recordInstructions call.event :=
    wellFormed.call call inProgress ▸ List.mem_append_right _ member
  exact records_of_record inRecording

theorem WellFormed.onlyEvicted (wellFormed : WellFormed state)
    {selected rest : List SeriesKey} {task : Task Vec}
    (position : state.sweep = .removing selected rest task) (family : Family)
    (labels : List String) (write : Write) (member : .write family labels write ∈ task.rest) :
    family = .oomSeriesEvictedTotal := by
  rcases wellFormed.task _ _ _ position _ member with ⟨_, _, orphaned, inRemoval⟩
  cases orphaned <;> simp [removalInstructions] at inRemoval <;> exact inRemoval.1

theorem Kept.recordSteps (kept : Kept state) (wellFormed : WellFormed state)
    {call : RecordCall Vec} {vecs : Family → Vec} {task : Task Vec}
    (inProgress : state.watch = some call)
    (steps : Task.Steps state.collector.vecs call.task vecs task) :
    Kept { state with
      collector := { state.collector with vecs := vecs }
      watch := some { call with task := task } } where
  recording next nextInProgress := by
    cases nextInProgress
    have atRecording := wellFormed.atRecording inProgress
    have before := kept.recording call inProgress
    refine ⟨steps.holds before.holds, ?_, ?_⟩
    · intro series obtained
      rcases steps.exported_of_obtained atRecording obtained with earlier | shown
      · exact steps.exported_next atRecording (before.obtained series earlier)
      · exact shown
    · intro labels value finished
      rcases steps.raised before.holds finished with earlier | reached
      · exact (before.raised labels value earlier).trans
          (steps.memory_le before.holds atRecording labels)
      · exact reached
  removal := kept.removal
  tracked := kept.tracked
  existing key member series own :=
    steps.exported_next (wellFormed.atRecording inProgress)
      (kept.existing key member series own)
  kills key := by
    have counts := steps.kills_counted (kept.recording call inProgress).holds
      (wellFormed.atRecording inProgress) key.labels
    have before := kept.kills key
    simp only [counted, inProgress] at before ⊢
    omega
  peaks event member memoryType :=
    (kept.peaks event member memoryType).trans
      (steps.memory_le (kept.recording call inProgress).holds
        (wellFormed.atRecording inProgress) _)

theorem Kept.recordReturns (kept : Kept state) (wellFormed : WellFormed state)
    {call : RecordCall Vec} (inProgress : state.watch = some call)
    (finished : call.task.rest = []) (unlocked : state.sweep.holdsLastSeen = false) :
    Kept { state with
      collector :=
        { state.collector with
          lastSeen := state.collector.lastSeen.insert call.key call.event.timestamp }
      watch := none
      reported := call.event :: state.reported } := by
  have allFinished : call.task.finished = recordInstructions call.event := by
    rw [← wellFormed.call call inProgress, finished, List.append_nil]
  have recording := kept.recording call inProgress
  constructor
  · intro other otherInProgress
    cases otherInProgress
  · intro selected rest task position
    simp only at position
    rw [position] at unlocked
    cases unlocked
  · intro event member
    rcases List.mem_cons.mp member with rfl | earlier
    · exact (Dictionary.mem_keys_insert _ _ _ _).mpr (.inl rfl)
    · exact (Dictionary.mem_keys_insert _ _ _ _).mpr (.inr (kept.tracked event earlier))
  · intro key member series own
    rcases (Dictionary.mem_keys_insert _ _ _ _).mp member with rfl | earlier
    · apply recording.obtained
      apply List.mem_append_left
      rw [allFinished]
      exact written_of_mem_series own
    · exact kept.existing key earlier series own
  · intro key
    have before := kept.kills key
    simp only [counted, inProgress, allFinished, killsCounted_record] at before
    simp only [counted, List.countP_cons, decide_eq_true_eq]
    omega
  · intro event member memoryType
    rcases List.mem_cons.mp member with rfl | earlier
    · apply recording.raised
      rw [allFinished]
      exact raise_mem_record _ memoryType
    · exact kept.peaks event earlier memoryType

theorem Kept.sweepScans (kept : Kept state) {now ttlSecs : Nat}
    {due : List (String × String)} {order : List SeriesKey}
    (ordered : order.Perm (splitStale state.collector.lastSeen now ttlSecs due).1) :
    Kept { state with
      collector :=
        { state.collector with
          lastSeen := (splitStale state.collector.lastSeen now ttlSecs due).2 }
      sweep := .removing order order (.start [])
      reported := state.reported.filter fun event =>
        .ofEvent event ∉ (splitStale state.collector.lastSeen now ttlSecs due).1 } where
  recording := kept.recording
  removal selected rest task position := by
    cases position
    constructor
    · intro key member isTracked
      exact ((mem_keys_splitStale _ _ _ _ _).mp isTracked).2 (ordered.mem_iff.mp member)
    · intro series member
      cases member
  tracked event member := by
    rcases List.mem_filter.mp member with ⟨earlier, notStale⟩
    exact (mem_keys_splitStale _ _ _ _ _).mpr
      ⟨kept.tracked event earlier, of_decide_eq_true notStale⟩
  existing key member :=
    kept.existing key ((mem_keys_splitStale _ _ _ _ _).mp member).1
  kills key := by
    have fewer : state.reported.countP (fun event => .ofEvent event = key) ≥
        (state.reported.filter fun event => .ofEvent event ∉
          (splitStale state.collector.lastSeen now ttlSecs due).1).countP
          (fun event => .ofEvent event = key) :=
      List.filter_sublist.countP_le
    have before := kept.kills key
    simp only [counted] at before ⊢
    omega
  peaks event member := kept.peaks event (List.mem_of_mem_filter member)

theorem WellFormed.notEvicted_of_obtained (wellFormed : WellFormed state)
    {call : RecordCall Vec} (inProgress : state.watch = some call)
    {series : Family × List String} (obtained : series ∈ call.task.obtained) :
    series.1 ≠ .oomSeriesEvictedTotal := by
  have written : ∃ instruction ∈ recordInstructions call.event,
      instruction.target = series := by
    rw [← wellFormed.call call inProgress]
    rcases List.mem_append.mp obtained with finished | held
    · rcases List.mem_map.mp finished with ⟨instruction, member, equal⟩
      exact ⟨instruction, List.mem_append_left _ member, equal⟩
    · split at held
      · cases held
      · rcases List.mem_map.mp held with ⟨instruction, member, equal⟩
        exact ⟨instruction, List.mem_append_right _ (List.mem_of_mem_take member), equal⟩
      · rcases List.mem_map.mp held with ⟨instruction, member, equal⟩
        exact ⟨instruction, List.mem_append_right _ (List.mem_of_mem_take member), equal⟩
  rcases written with ⟨instruction, member, rfl⟩
  exact (records_of_record member).notEvicted

theorem Kept.counted_eq_zero (kept : Kept state) {key : SeriesKey}
    (untracked : key ∉ state.collector.lastSeen.keys)
    (unwritten : ∀ call, state.watch = some call →
      (Family.oomKillsTotal, key.labels) ∉ call.task.obtained) : state.counted key = 0 := by
  have noneReported : state.reported.countP (fun event => .ofEvent event = key) = 0 := by
    rw [List.countP_eq_zero]
    intro event member own
    exact untracked (of_decide_eq_true own ▸ kept.tracked event member)
  have noneCounted : ∀ call, state.watch = some call →
      killsCounted key.labels call.task.finished = 0 := by
    intro call inProgress
    apply killsCounted_eq_zero
    intro written
    exact unwritten call inProgress (List.mem_append_left _ written)
  simp only [counted, noneReported]
  cases inProgress : state.watch with
  | none => rfl
  | some call => simp only [noneCounted call inProgress]

theorem RecordKept.of_removal {vecs after : Family → Vec} {call : RecordCall Vec}
    {task afterTask : Task Vec} (recorded : RecordKept vecs call)
    (wellFormed : WellFormed state) (inProgress : state.watch = some call)
    (steps : Task.Steps vecs task after afterTask)
    (onlyEvicted : ∀ family labels write, .write family labels write ∈ task.rest →
      family = .oomSeriesEvictedTotal)
    (spared : ∀ series ∈ call.task.obtained,
      task.rest.head? ≠ some (.remove series.1 series.2)) :
    RecordKept after call := by
  have memoryKept : Family.oomMemoryUsageBytes ≠ .oomSeriesEvictedTotal := nofun
  refine ⟨recorded.holds.of_removal (wellFormed.atRecording inProgress) steps onlyEvicted
    spared, ?_, ?_⟩
  · intro series obtained
    have notEvicted := wellFormed.notEvicted_of_obtained inProgress obtained
    rw [Exported, steps.sample_of_removal onlyEvicted notEvicted (spared series obtained)]
    exact recorded.obtained series obtained
  · intro labels value finished
    have obtained : (Family.oomMemoryUsageBytes, labels) ∈ call.task.obtained :=
      List.mem_append_left _ (List.mem_map.mpr ⟨_, finished, rfl⟩)
    rw [steps.sample_of_removal onlyEvicted memoryKept (spared _ obtained)]
    exact recorded.raised labels value finished

theorem Kept.removalSteps (kept : Kept state) (wellFormed : WellFormed state)
    (spares : SparesObtained state .continueRemoval) {selected rest : List SeriesKey}
    {task after : Task Vec} {vecs : Family → Vec}
    (position : state.sweep = .removing selected rest task)
    (steps : Task.Steps state.collector.vecs task vecs after) :
    Kept { state with
      collector := { state.collector with vecs := vecs }
      sweep := .removing selected rest after } := by
  have onlyEvicted := wellFormed.onlyEvicted position
  have killsKept : Family.oomKillsTotal ≠ .oomSeriesEvictedTotal := nofun
  have memoryKept : Family.oomMemoryUsageBytes ≠ .oomSeriesEvictedTotal := nofun
  have apart := kept.removal _ _ _ position
  have sparedObtained : ∀ call, state.watch = some call → ∀ series ∈ call.task.obtained,
      task.rest.head? ≠ some (.remove series.1 series.2) :=
    fun call inProgress series obtained isNext =>
      spares.not_mem position inProgress isNext obtained
  have sparedTracked : ∀ key ∈ state.collector.lastSeen.keys, ∀ series ∈ key.series,
      task.rest.head? ≠ some (.remove series.1 series.2) :=
    fun key isTracked series own isNext =>
      apart.task series (List.mem_of_head? isNext) key isTracked own
  constructor
  · intro call inProgress
    exact (kept.recording call inProgress).of_removal wellFormed inProgress steps onlyEvicted
      (sparedObtained call inProgress)
  · intro _ _ _ samePosition
    cases samePosition
    exact ⟨apart.rest, fun series member =>
      apart.task series (steps.rest_suffix.subset member)⟩
  · exact kept.tracked
  · intro key isTracked series own
    rw [Exported, steps.sample_of_removal onlyEvicted (notEvicted_of_mem_series own)
      (sparedTracked key isTracked series own)]
    exact kept.existing key isTracked series own
  · intro key
    by_cases isNext : task.rest.head? = some (.remove .oomKillsTotal key.labels)
    · have untracked : key ∉ state.collector.lastSeen.keys := fun isTracked =>
        sparedTracked key isTracked (.oomKillsTotal, key.labels)
          (SeriesKey.mem_series_kills.mpr rfl) isNext
      have zero := kept.counted_eq_zero untracked fun call inProgress obtained =>
        sparedObtained call inProgress _ obtained isNext
      exact zero.le.trans (Nat.zero_le _)
    · rw [steps.sample_of_removal onlyEvicted killsKept isNext]
      exact kept.kills key
  · intro event member memoryType
    have own : (Family.oomMemoryUsageBytes, (SeriesKey.ofEvent event).memoryLabels memoryType) ∈
        (SeriesKey.ofEvent event).series :=
      SeriesKey.mem_series_memory.mpr ⟨memoryType, rfl⟩
    rw [steps.sample_of_removal onlyEvicted memoryKept
      (sparedTracked _ (kept.tracked event member) _ own)]
    exact kept.peaks event member memoryType

theorem Kept.step {next : SharedCollector Vec} {action : Action} (kept : Kept state)
    (wellFormed : WellFormed state) (spares : SparesObtained state action)
    (transition : Transition state action next) : Kept next := by
  cases transition with
  | recordBegins event free =>
      refine ⟨?_, kept.removal, kept.tracked, kept.existing, ?_, kept.peaks⟩
      · intro call inProgress
        cases inProgress
        exact ⟨trivial, nofun, nofun⟩
      · intro key
        have before := kept.kills key
        simp only [counted, free] at before
        exact before
  | recordSteps inProgress steps => exact kept.recordSteps wellFormed inProgress steps
  | recordReturns inProgress finished unlocked =>
      exact kept.recordReturns wellFormed inProgress finished unlocked
  | podNoted ns pod now =>
      exact ⟨kept.recording, kept.removal, kept.tracked, kept.existing, kept.kills, kept.peaks⟩
  | sweepDrains now ttlSecs free =>
      refine ⟨kept.recording, ?_, kept.tracked, kept.existing, kept.kills, kept.peaks⟩
      intro selected rest task position
      cases position
  | sweepScans position ordered => exact kept.sweepScans ordered
  | removalSteps position steps => exact kept.removalSteps wellFormed spares position steps
  | removalTakesUp position finished =>
      refine ⟨kept.recording, ?_, kept.tracked, kept.existing, kept.kills, kept.peaks⟩
      intro _ _ _ nextPosition
      cases nextPosition
      have apart := kept.removal _ _ _ position
      refine ⟨fun key member => apart.rest key (List.mem_cons_of_mem _ member), ?_⟩
      intro series member
      exact untracked_of_removal (apart.rest _ List.mem_cons_self) member
  | removalEnds position finished =>
      refine ⟨kept.recording, ?_, kept.tracked, kept.existing, kept.kills, kept.peaks⟩
      intro _ _ _ nextPosition
      cases nextPosition

end Steps

theorem kept_of_run {actions : List Action} {state : SharedCollector Vec}
    (spares : machine.Meets SparesObtained (start : SharedCollector Vec) actions)
    (ran : machine.run start actions = some state) : Kept state := by
  have stepKeeps : ∀ {state : SharedCollector Vec} {action next},
      WellFormed state ∧ Kept state → SparesObtained state action →
        machine.step state action = some next → WellFormed next ∧ Kept next := by
    intro state action next holds spares stepped
    have transition := transition_of_step stepped
    exact ⟨holds.1.step transition, holds.2.step holds.1 spares transition⟩
  exact (Machine.invariant_of_run stepKeeps ⟨wellFormed_start, kept_start⟩ spares ran).2

/-- The registry shows every kill that was reported and whose key was not
selected since, with its timestamp and its figures, and last-seen names no key
without its series. -/
structure ShowsReported (state : SharedCollector Vec) : Prop where
  kills : ∀ event ∈ state.reported, ∃ kills,
    sample state.collector.vecs .oomKillsTotal (SeriesKey.ofEvent event).labels = some kills ∧
      state.reported.countP (fun other => SeriesKey.ofEvent other = .ofEvent event) ≤ kills
  lastTimestamp : ∀ event ∈ state.reported,
    sample state.collector.vecs .oomLastTimestamp (SeriesKey.ofEvent event).labels ≠ none
  memory : ∀ event ∈ state.reported, ∀ memoryType : MemoryType, ∃ peak,
    sample state.collector.vecs .oomMemoryUsageBytes
        ((SeriesKey.ofEvent event).memoryLabels memoryType) = some peak ∧
      (memoryType.kilobytes event.rawEvent < 2 ^ 54 →
        memoryType.kilobytes event.rawEvent * 1024 ≤ peak)
  tracked : ∀ key ∈ state.collector.lastSeen.keys, ∀ series ∈ key.series,
    sample state.collector.vecs series.1 series.2 ≠ none

/-- Every run whose sweeps remove no series that a recording in progress has
obtained ends with every reported kill shown. -/
theorem reported_kills_shown {actions : List Action} {state : SharedCollector Vec}
    (spares : machine.Meets SparesObtained (start : SharedCollector Vec) actions)
    (ran : machine.run start actions = some state) : ShowsReported state := by
  have kept := kept_of_run spares ran
  have shown : ∀ event ∈ state.reported, ∀ {family labels},
      (family, labels) ∈ (SeriesKey.ofEvent event).series →
        ∃ value, sample state.collector.vecs family labels = some value :=
    fun event member _ _ own => Option.ne_none_iff_exists'.mp
      (kept.existing _ (kept.tracked event member) _ own)
  constructor
  · intro event member
    rcases shown event member (SeriesKey.mem_series_kills.mpr rfl) with ⟨kills, found⟩
    refine ⟨kills, found, ?_⟩
    have counts := kept.kills (.ofEvent event)
    rw [found, Option.getD_some] at counts
    exact (Nat.le_add_right _ _).trans counts
  · intro event member
    exact kept.existing _ (kept.tracked event member) _
      (SeriesKey.mem_series_lastTimestamp.mpr rfl)
  · intro event member memoryType
    rcases shown event member (SeriesKey.mem_series_memory.mpr ⟨memoryType, rfl⟩)
      with ⟨peak, found⟩
    refine ⟨peak, found, fun fits => ?_⟩
    have reached := kept.peaks event member memoryType
    rwa [found, Option.getD_some, bytesOf_of_lt fits] at reached
  · exact kept.existing

/-- A key is swept between the moment the recording of a kill obtains its counter
and the moment it returns. -/
def sweptWhileRecording (sweptKey recorded : EnrichedOomEvent) : List Action :=
  .recordOomEvent sweptKey :: List.replicate 19 .continueRecord ++
    [.recordOomEvent recorded, .continueRecord, .evictStale 5000 1800,
      .scan [SeriesKey.ofEvent sweptKey]] ++
    List.replicate 10 .continueRemoval ++ List.replicate 18 .continueRecord

/-- A sweep of another key leaves the kill shown. -/
theorem reported_kills_shown_other_key_swept :
    ∃ state : SharedCollector LabelVec,
      machine.run start (sweptWhileRecording (eventFor "api-7d9" "containerd://abc123" 0)
        (eventFor "web-0" "containerd://abc123" 5000)) = some state ∧
      ShowsReported state := by
  apply Machine.exists_run_of_decided fun _ => True
  · intro state ran _
    exact reported_kills_shown (by decide) ran
  · decide

/-- When the key swept is that of the kill, the increment is made on a counter
that is no longer exported, and last-seen then names a key without its counter. -/
theorem reported_kill_not_shown_own_key_swept :
    ¬∀ (actions : List Action) (state : SharedCollector LabelVec),
      machine.run start actions = some state → ShowsReported state := by
  intro shown
  let event := eventFor "api-7d9" "containerd://abc123" 5000
  let actions := sweptWhileRecording (eventFor "api-7d9" "containerd://abc123" 0) event
  have runs : ((machine : Machine (SharedCollector LabelVec) Action).run start actions).map
      (fun state => (state.reported, sample state.collector.vecs .oomKillsTotal
        (SeriesKey.ofEvent event).labels)) = some ([event], none) := by decide
  rcases Option.map_eq_some_iff.mp runs with ⟨state, ran, equal⟩
  rcases Prod.mk.inj equal with ⟨reported, gone⟩
  rcases (shown actions state ran).kills event (by rw [reported]; exact List.mem_cons_self)
    with ⟨kills, found, _⟩
  rw [gone] at found
  cases found

end SharedCollector

end OomWatcher
