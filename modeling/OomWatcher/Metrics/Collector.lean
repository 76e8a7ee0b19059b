import Mathlib.Data.List.Infix
import OomWatcher.Events
import OomWatcher.Foundation.MetricVec

/-! # The metrics collector

The Prometheus adapter, one operation at a time. Every Prometheus call of an
operation is listed as an `Instruction`, so that the operations below and the
interleaved machine execute the same lists. -/

namespace OomWatcher

/-! ## Label sets -/

inductive MemoryType
  | totalVm
  | anonRss
  | fileRss
  | shmemRss
deriving DecidableEq, Repr

def MemoryType.label : MemoryType → String
  | .totalVm => "total_vm"
  | .anonRss => "anon_rss"
  | .fileRss => "file_rss"
  | .shmemRss => "shmem_rss"

def memoryTypes : List MemoryType := [.totalVm, .anonRss, .fileRss, .shmemRss]

def memoryValues (raw : OomKillEvent) : List Nat :=
  [raw.totalVm, raw.anonRss, raw.fileRss, raw.shmemRss]

def MemoryType.kilobytes (raw : OomKillEvent) : MemoryType → Nat
  | .totalVm => raw.totalVm
  | .anonRss => raw.anonRss
  | .fileRss => raw.fileRss
  | .shmemRss => raw.shmemRss

theorem zip_memoryValues (raw : OomKillEvent) :
    memoryTypes.zip (memoryValues raw) =
      memoryTypes.map fun memoryType => (memoryType, memoryType.kilobytes raw) :=
  rfl

theorem MemoryType.mem_memoryTypes (memoryType : MemoryType) :
    memoryType ∈ memoryTypes := by
  cases memoryType <;> decide

theorem MemoryType.label_injective {left right : MemoryType}
    (equal : left.label = right.label) : left = right := by
  cases left <;> cases right <;> first | rfl | (exfalso; revert equal; decide)

structure SeriesKey where
  node : String
  ns : String
  pod : String
  container : String
  containerId : String
  imageId : String
deriving DecidableEq, Repr

namespace SeriesKey

def labels (key : SeriesKey) : List String :=
  [key.node, key.ns, key.pod, key.container, key.containerId, key.imageId]

def memoryLabels (key : SeriesKey) (memoryType : MemoryType) : List String :=
  [key.node, key.ns, key.pod, key.container, memoryType.label]

def sharesMemorySeriesWith (key other : SeriesKey) : Bool :=
  key.node == other.node && key.ns == other.ns && key.pod == other.pod &&
    key.container == other.container

def ofEvent (event : EnrichedOomEvent) : SeriesKey where
  node := event.nodeName.getD "unknown"
  ns := event.ns.getD "unknown"
  pod := event.podName.getD "unknown"
  container := event.containerName.getD "unknown"
  containerId := event.containerId.getD "unknown"
  imageId := event.imageId.getD "unknown"

@[simp] theorem labels_inj {left right : SeriesKey} :
    left.labels = right.labels ↔ left = right := by
  cases left
  cases right
  simp [labels]

theorem memoryLabels_eq_iff {left right : SeriesKey}
    {leftType rightType : MemoryType} :
    left.memoryLabels leftType = right.memoryLabels rightType ↔
      left.sharesMemorySeriesWith right = true ∧ leftType = rightType := by
  constructor
  · intro equal
    simp only [memoryLabels, List.cons.injEq, and_true] at equal
    rcases equal with ⟨node, ns, pod, container, label⟩
    exact ⟨by simp [sharesMemorySeriesWith, node, ns, pod, container],
      MemoryType.label_injective label⟩
  · intro same
    rcases same with ⟨shared, rfl⟩
    simp only [sharesMemorySeriesWith, Bool.and_eq_true, beq_iff_eq] at shared
    simp [memoryLabels, shared]

theorem shares_iff {left right : SeriesKey} :
    left.sharesMemorySeriesWith right = true ↔
      ∀ memoryType, left.memoryLabels memoryType = right.memoryLabels memoryType := by
  constructor
  · exact fun shared memoryType => memoryLabels_eq_iff.mpr ⟨shared, rfl⟩
  · exact fun equal => (memoryLabels_eq_iff.mp (equal .totalVm)).1

theorem shares_symm {left right : SeriesKey}
    (shared : left.sharesMemorySeriesWith right = true) :
    right.sharesMemorySeriesWith left = true :=
  shares_iff.mpr fun memoryType => (shares_iff.mp shared memoryType).symm

theorem shares_trans {left middle right : SeriesKey}
    (first : left.sharesMemorySeriesWith middle = true)
    (second : middle.sharesMemorySeriesWith right = true) :
    left.sharesMemorySeriesWith right = true :=
  shares_iff.mpr fun memoryType =>
    (shares_iff.mp first memoryType).trans (shares_iff.mp second memoryType)

theorem pod_eq_of_shares {left right : SeriesKey}
    (shared : left.sharesMemorySeriesWith right = true) :
    left.ns = right.ns ∧ left.pod = right.pod := by
  simp only [sharesMemorySeriesWith, Bool.and_eq_true, beq_iff_eq] at shared
  exact ⟨shared.1.1.2, shared.1.2⟩

end SeriesKey

/-! ## Prometheus calls -/

inductive Family
  | oomKillsTotal
  | oomKillsPerNodeTotal
  | oomMemoryUsageBytes
  | oomLastTimestamp
  | oomResolutionFailuresTotal
  | oomEventsDroppedTotal
  | oomSeriesEvictedTotal
deriving DecidableEq, Repr

/-- What is done with a handle. `raise` is the gauge's `get`, comparison and
`set`. -/
inductive Write
  | inc
  | incBy (amount : Nat)
  | set (value : Nat)
  | raise (value : Nat)
deriving DecidableEq, Repr

def Write.change : Write → Nat → Nat
  | .inc, old => old + 1
  | .incBy amount, old => old + amount
  | .set value, _ => value
  | .raise value, old => if value > old then value else old

/-- `with_label_values` on a family and the write through its handle, or
`remove_label_values`. -/
inductive Instruction
  | write (family : Family) (labels : List String) (write : Write)
  | remove (family : Family) (labels : List String)
deriving DecidableEq, Repr

def Instruction.target : Instruction → Family × List String
  | .write family labels _ => (family, labels)
  | .remove family labels => (family, labels)

section

variable {Vec : Type} [MetricVec Vec (List String)]

open MetricVec

def execute (vecs : Family → Vec) : Instruction → Family → Vec
  | .write family labels write =>
      Function.update vecs family (touch (vecs family) labels write.change)
  | .remove family labels =>
      Function.update vecs family (removeLabelValues (vecs family) labels)

def executeAll (vecs : Family → Vec) (instructions : List Instruction) :
    Family → Vec :=
  instructions.foldl execute vecs

@[simp] theorem executeAll_nil (vecs : Family → Vec) : executeAll vecs [] = vecs :=
  rfl

@[simp] theorem executeAll_cons (vecs : Family → Vec) (instruction : Instruction)
    (rest : List Instruction) :
    executeAll vecs (instruction :: rest) =
      executeAll (execute vecs instruction) rest :=
  rfl

theorem executeAll_append (vecs : Family → Vec) (first second : List Instruction) :
    executeAll vecs (first ++ second) = executeAll (executeAll vecs first) second :=
  List.foldl_append

def sample (vecs : Family → Vec) (family : Family) (labels : List String) :
    Option Nat :=
  exported (vecs family) labels

theorem sample_write (vecs : Family → Vec) (family : Family)
    (labels : List String) (write : Write) (otherFamily : Family)
    (otherLabels : List String) :
    sample (execute vecs (.write family labels write)) otherFamily otherLabels =
      if otherFamily = family ∧ otherLabels = labels then
        some (write.change ((sample vecs family labels).getD 0))
      else sample vecs otherFamily otherLabels := by
  by_cases sameFamily : otherFamily = family
  · subst sameFamily
    simp only [sample, execute, Function.update_self, true_and]
    rw [exported_touch]
  · simp [sample, execute, sameFamily]

theorem sample_write_of_family (vecs : Family → Vec) {family otherFamily : Family}
    (labels : List String) (write : Write) (otherLabels : List String)
    (different : otherFamily ≠ family) :
    sample (execute vecs (.write family labels write)) otherFamily otherLabels =
      sample vecs otherFamily otherLabels := by
  rw [sample_write, if_neg fun equal => different equal.1]

theorem sample_remove (vecs : Family → Vec) (family : Family)
    (labels : List String) (otherFamily : Family) (otherLabels : List String) :
    sample (execute vecs (.remove family labels)) otherFamily otherLabels =
      if otherFamily = family ∧ otherLabels = labels then none
      else sample vecs otherFamily otherLabels := by
  by_cases sameFamily : otherFamily = family
  · subst sameFamily
    simp only [sample, execute, Function.update_self, true_and]
    rw [exported_removeLabelValues]
  · simp [sample, execute, sameFamily]

theorem sample_executeAll_of_untouched (instructions : List Instruction)
    (vecs : Family → Vec) (family : Family) (labels : List String)
    (untouched : ∀ instruction ∈ instructions, instruction.target ≠ (family, labels)) :
    sample (executeAll vecs instructions) family labels = sample vecs family labels := by
  induction instructions generalizing vecs with
  | nil => rfl
  | cons instruction rest induction =>
      have headUntouched := untouched instruction List.mem_cons_self
      rw [executeAll_cons, induction (execute vecs instruction)
        fun later member => untouched later (List.mem_cons_of_mem _ member)]
      have notTarget : ¬(family = instruction.target.1 ∧ labels = instruction.target.2) :=
        fun equal => headUntouched (Prod.ext equal.1.symm equal.2.symm)
      cases instruction with
      | write target written write => exact (sample_write ..).trans (if_neg notTarget)
      | remove target removed => exact (sample_remove ..).trans (if_neg notTarget)

theorem sample_executeAll_of_no_write (instructions : List Instruction)
    (vecs : Family → Vec) (family : Family) (labels : List String)
    (noWrite : ∀ written write, .write family written write ∉ instructions) :
    sample (executeAll vecs instructions) family labels =
      if .remove family labels ∈ instructions then none
      else sample vecs family labels := by
  induction instructions generalizing vecs with
  | nil => rfl
  | cons instruction rest induction =>
      have restNoWrite : ∀ written write, .write family written write ∉ rest :=
        fun written write member =>
          noWrite written write (List.mem_cons_of_mem _ member)
      rw [executeAll_cons, induction (execute vecs instruction) restNoWrite]
      by_cases later : .remove family labels ∈ rest
      · rw [if_pos later, if_pos (List.mem_cons_of_mem _ later)]
      rw [if_neg later]
      cases instruction with
      | write otherFamily written write =>
          have different : family ≠ otherFamily := fun equal =>
            noWrite written write (equal ▸ List.mem_cons_self)
          rw [sample_write]
          simp [different, later]
      | remove otherFamily removed =>
          rw [sample_remove]
          simp [later]

end

/-! ## The collector and its operations -/

def deletedPodGraceSeconds : Nat := 120

structure MetricsCollector (Vec : Type) where
  vecs : Family → Vec
  lastDroppedTotal : Nat
  lastSeen : Dictionary SeriesKey Nat
  deletedAfter : Dictionary (String × String) Nat

/-- `(kilobytes * 1024) as f64`: the product wraps at 64 bits. -/
def bytesOf (kilobytes : Nat) : Nat := kilobytes * 1024 % u64Modulus

/-- The Prometheus calls of `record_oom_event`, in order. -/
def recordInstructions (event : EnrichedOomEvent) : List Instruction :=
  let key := SeriesKey.ofEvent event
  [.write .oomKillsTotal key.labels .inc,
    .write .oomKillsPerNodeTotal [key.node] .inc] ++
  (memoryTypes.zip (memoryValues event.rawEvent)).map
    (fun (memoryType, kilobytes) =>
      .write .oomMemoryUsageBytes (key.memoryLabels memoryType)
        (.raise (bytesOf kilobytes))) ++
  [.write .oomLastTimestamp key.labels (.set event.timestamp)]

def removalInstructions (key : SeriesKey) (memorySeriesOrphaned : Bool) :
    List Instruction :=
  [.remove .oomKillsTotal key.labels, .remove .oomLastTimestamp key.labels] ++
  (if memorySeriesOrphaned then
    memoryTypes.map fun memoryType =>
      .remove .oomMemoryUsageBytes (key.memoryLabels memoryType)
  else []) ++
  [.write .oomSeriesEvictedTotal [key.node] .inc]

theorem remove_perContainer_mem (key : SeriesKey) (orphaned : Bool) {family : Family}
    (labels : List String)
    (perContainer : family = .oomKillsTotal ∨ family = .oomLastTimestamp) :
    .remove family labels ∈ removalInstructions key orphaned ↔ labels = key.labels := by
  rcases perContainer with rfl | rfl <;> cases orphaned <;> simp [removalInstructions]

theorem remove_memory_mem (key other : SeriesKey) (orphaned : Bool)
    (memoryType : MemoryType) :
    .remove .oomMemoryUsageBytes (other.memoryLabels memoryType) ∈
        removalInstructions key orphaned ↔
      orphaned = true ∧ key.sharesMemorySeriesWith other = true := by
  cases orphaned with
  | false => simp [removalInstructions]
  | true =>
      have removed : .remove .oomMemoryUsageBytes (other.memoryLabels memoryType) ∈
          removalInstructions key true ↔
            ∃ written : MemoryType,
              key.memoryLabels written = other.memoryLabels memoryType := by
        simp [removalInstructions, MemoryType.mem_memoryTypes]
      rw [removed, eq_self, true_and]
      constructor
      · intro removed
        rcases removed with ⟨written, equal⟩
        exact (SeriesKey.memoryLabels_eq_iff.mp equal).1
      · exact fun shared => ⟨memoryType, SeriesKey.shares_iff.mp shared memoryType⟩

theorem sample_removals {Vec : Type} [MetricVec Vec (List String)]
    (stale : List SeriesKey) (orphaned : SeriesKey → Bool) (vecs : Family → Vec)
    (family : Family) (labels : List String) (notEvicted : family ≠ .oomSeriesEvictedTotal) :
    sample (executeAll vecs
        (stale.flatMap fun key => removalInstructions key (orphaned key))) family labels =
      if ∃ key ∈ stale, .remove family labels ∈ removalInstructions key (orphaned key)
      then none else sample vecs family labels := by
  rw [sample_executeAll_of_no_write]
  · simp only [List.mem_flatMap]
  · intro written write member
    rcases List.mem_flatMap.mp member with ⟨key, _, inRemoval⟩
    cases orphanedKey : orphaned key <;>
      simp [removalInstructions, orphanedKey, notEvicted] at inRemoval

/-- The test of the sweep: aged out, or of a pod whose removal is due. -/
def isStale (now ttlSecs : Nat) (due : List (String × String)) (key : SeriesKey)
    (seen : Nat) : Bool :=
  let agedOut := decide (now - seen ≥ ttlSecs)
  let podGone := due.any fun (ns, pod) => key.ns == ns && key.pod == pod
  agedOut || podGone

def drainDue (deletedAfter : Dictionary (String × String) Nat) (now : Nat) :
    List (String × String) × Dictionary (String × String) Nat :=
  (deletedAfter.keysWhere fun _ removableAt => !decide (now < removableAt),
    deletedAfter.retain fun _ removableAt => decide (now < removableAt))

def splitStale (lastSeen : Dictionary SeriesKey Nat) (now ttlSecs : Nat)
    (due : List (String × String)) : List SeriesKey × Dictionary SeriesKey Nat :=
  (lastSeen.keysWhere (isStale now ttlSecs due),
    lastSeen.retain fun key seen => !isStale now ttlSecs due key seen)

theorem mem_drainDue (deletedAfter : Dictionary (String × String) Nat) (now : Nat)
    (pod : String × String) :
    pod ∈ (drainDue deletedAfter now).1 ↔
      ∃ removableAt, deletedAfter.lookup pod = some removableAt ∧ removableAt ≤ now := by
  rw [drainDue, Dictionary.mem_keysWhere]
  simp

theorem lookup_drainDue (deletedAfter : Dictionary (String × String) Nat) (now : Nat)
    (pod : String × String) :
    (drainDue deletedAfter now).2.lookup pod =
      (deletedAfter.lookup pod).filter fun removableAt => decide (now < removableAt) :=
  Dictionary.lookup_retain _ _ _

theorem mem_splitStale (lastSeen : Dictionary SeriesKey Nat) (now ttlSecs : Nat)
    (due : List (String × String)) (key : SeriesKey) :
    key ∈ (splitStale lastSeen now ttlSecs due).1 ↔
      ∃ seen, lastSeen.lookup key = some seen ∧ isStale now ttlSecs due key seen = true :=
  Dictionary.mem_keysWhere _ _ _

theorem lookup_splitStale (lastSeen : Dictionary SeriesKey Nat) (now ttlSecs : Nat)
    (due : List (String × String)) (key : SeriesKey) :
    (splitStale lastSeen now ttlSecs due).2.lookup key =
      (lastSeen.lookup key).filter fun seen => !isStale now ttlSecs due key seen :=
  Dictionary.lookup_retain _ _ _

theorem mem_keys_splitStale (lastSeen : Dictionary SeriesKey Nat) (now ttlSecs : Nat)
    (due : List (String × String)) (key : SeriesKey) :
    key ∈ (splitStale lastSeen now ttlSecs due).2.keys ↔
      key ∈ lastSeen.keys ∧ key ∉ (splitStale lastSeen now ttlSecs due).1 := by
  rw [Dictionary.mem_keys_iff_lookup, Dictionary.mem_keys_iff_lookup, lookup_splitStale,
    mem_splitStale]
  cases lastSeen.lookup key <;> simp [Option.filter_eq_some_iff]

def memoryOrphaned (lastSeen : Dictionary SeriesKey Nat) (key : SeriesKey) : Bool :=
  !lastSeen.keys.any fun live => live.sharesMemorySeriesWith key

namespace MetricsCollector

variable {Vec : Type} [MetricVec Vec (List String)]

def new : MetricsCollector Vec where
  vecs := fun _ => MetricVec.empty
  lastDroppedTotal := 0
  lastSeen := ∅
  deletedAfter := ∅

def recordOomEvent (collector : MetricsCollector Vec) (event : EnrichedOomEvent) :
    MetricsCollector Vec :=
  { collector with
    vecs := executeAll collector.vecs (recordInstructions event)
    lastSeen := collector.lastSeen.insert (SeriesKey.ofEvent event) event.timestamp }

/-- A found identity is implicit in the kills. -/
def recordResolutionOutcome (collector : MetricsCollector Vec) (node : String) :
    ResolutionOutcome → MetricsCollector Vec
  | .found _ => collector
  | .notFound => count "not_found"
  | .failed _ => count "error"
where
  count (reason : String) : MetricsCollector Vec :=
    { collector with
      vecs := execute collector.vecs
        (.write .oomResolutionFailuresTotal [node, reason] .inc) }

def recordDroppedTotal (collector : MetricsCollector Vec) (node : String) (total : Nat) :
    MetricsCollector Vec :=
  let swapped : MetricsCollector Vec := { collector with lastDroppedTotal := total }
  match checkedSub total collector.lastDroppedTotal with
  | none => swapped
  | some delta =>
      if delta > 0 then
        { swapped with
          vecs := execute collector.vecs
            (.write .oomEventsDroppedTotal [node] (.incBy delta)) }
      else swapped

def notePodDeleted (collector : MetricsCollector Vec) (ns pod : String) (now : Nat) :
    MetricsCollector Vec :=
  { collector with
    deletedAfter :=
      collector.deletedAfter.insert (ns, pod) (saturatingAdd now deletedPodGraceSeconds) }

/-- Drain the due pods, split the tracked keys, and remove the stale ones. The
liveness test runs against the keys that stay. -/
def evictStale (collector : MetricsCollector Vec) (now ttlSecs : Nat) :
    MetricsCollector Vec × Nat :=
  let (due, deletedAfter) := drainDue collector.deletedAfter now
  let (stale, lastSeen) := splitStale collector.lastSeen now ttlSecs due
  let removals := stale.flatMap fun key => removalInstructions key (memoryOrphaned lastSeen key)
  ({ collector with
      vecs := executeAll collector.vecs removals
      lastSeen := lastSeen
      deletedAfter := deletedAfter },
    stale.length)

end MetricsCollector

/-! ## Concrete events

The event the source's tests record, and the vectors they can be run on. -/

def eventFor (pod containerId : String) (timestamp : Nat) : EnrichedOomEvent where
  rawEvent :=
    { pid := 1234, comm := [], totalVm := 100, anonRss := 50, fileRss := 20
      shmemRss := 5, uid := 1000, pgtables := 8, oomScoreAdj := 0 }
  nodeName := some "node-1"
  ns := some "prod"
  podName := some pod
  containerName := some "api"
  containerId := some containerId
  imageId := some "repo@sha256:def456"
  timestamp := timestamp

abbrev LabelVec := CellVec (List String)

end OomWatcher
