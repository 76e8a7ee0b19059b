import OomWatcher.Metrics.Coverage

/-! # Sweeping more often

An earlier sweep takes some of the keys that a later one would take, and the
later one takes the rest. The collector they leave is the one the later sweep
leaves alone. -/

namespace OomWatcher

variable {Vec : Type} [MetricVec Vec (List String)]

open MetricsCollector

/-- Two collectors whose maps are equal up to iteration order, and that export
the same samples. -/
structure SameState (left right : MetricsCollector Vec) : Prop where
  lastSeen : left.lastSeen.Reordered right.lastSeen
  deletedAfter : left.deletedAfter.Reordered right.deletedAfter
  lastDroppedTotal : left.lastDroppedTotal = right.lastDroppedTotal
  samples : ∀ family labels, sample left.vecs family labels = sample right.vecs family labels

/-! ## The keys taken -/

section Keys

variable {left right : MetricsCollector Vec}

theorem isStale_congr {due other : List (String × String)}
    (sameDue : ∀ pod, pod ∈ due ↔ pod ∈ other)
    (now ttlSecs : Nat) (key : SeriesKey) (seen : Nat) :
    isStale now ttlSecs due key seen = isStale now ttlSecs other key seen := by
  have sameGone : (due.any fun pod => key.ns == pod.1 && key.pod == pod.2) =
      other.any fun pod => key.ns == pod.1 && key.pod == pod.2 := by
    rw [Bool.eq_iff_iff, List.any_eq_true, List.any_eq_true]
    simp only [sameDue]
  rw [isStale, isStale]
  exact congrArg (decide (now - seen ≥ ttlSecs) || ·) sameGone

omit [MetricVec Vec (List String)] in
theorem MetricsCollector.Reordered.isStale (reordered : Reordered left right) (now ttlSecs : Nat) :
    isStale now ttlSecs (duePods left now) = isStale now ttlSecs (duePods right now) := by
  have sameDue : (duePods left now).Perm (duePods right now) :=
    reordered.deletedAfter.keysWhere fun _ removableAt => !decide (now < removableAt)
  funext key seen
  exact isStale_congr (fun _ => sameDue.mem_iff) now ttlSecs key seen

omit [MetricVec Vec (List String)] in
theorem MetricsCollector.Reordered.staleKeys (reordered : Reordered left right)
    (now ttlSecs : Nat) : (staleKeys left now ttlSecs).Perm (staleKeys right now ttlSecs) := by
  change (left.lastSeen.keysWhere _).Perm (right.lastSeen.keysWhere _)
  rw [reordered.isStale]
  exact reordered.lastSeen.keysWhere _

theorem MetricsCollector.Reordered.lastSeen_evict (reordered : Reordered left right)
    (now ttlSecs : Nat) :
    (left.evictStale now ttlSecs).1.lastSeen.Reordered
      (right.evictStale now ttlSecs).1.lastSeen := by
  change (left.lastSeen.retain fun key seen =>
      !OomWatcher.isStale now ttlSecs (duePods left now) key seen).Reordered
    (right.lastSeen.retain fun key seen =>
      !OomWatcher.isStale now ttlSecs (duePods right now) key seen)
  rw [reordered.isStale]
  exact reordered.lastSeen.retain _

variable (collector : MetricsCollector Vec) {earlier later : Nat} (ttlSecs : Nat)

theorem mem_duePods_split (ordered : earlier ≤ later) (pod : String × String) :
    pod ∈ duePods collector later ↔
      pod ∈ duePods collector earlier ∨
        pod ∈ duePods (collector.evictStale earlier ttlSecs).1 later := by
  have left : ∀ pod, (collector.evictStale earlier ttlSecs).1.deletedAfter.lookup pod =
      (collector.deletedAfter.lookup pod).filter fun removableAt =>
        decide (earlier < removableAt) := lookup_drainDue _ _
  simp only [duePods, mem_drainDue, left]
  cases collector.deletedAfter.lookup pod with
  | none => simp
  | some removableAt =>
      rw [Option.filter_some]
      by_cases pending : earlier < removableAt
      · simp only [pending, decide_true, if_true, Option.some.injEq, exists_eq_left']
        omega
      · simp only [pending, decide_false, Bool.false_eq_true, if_false, Option.some.injEq,
          exists_eq_left', reduceCtorEq, false_and, exists_false, or_false]
        omega

theorem isStale_split (ordered : earlier ≤ later) (key : SeriesKey) (seen : Nat) :
    isStale later ttlSecs (duePods collector later) key seen =
      (isStale earlier ttlSecs (duePods collector earlier) key seen ||
        isStale later ttlSecs (duePods (collector.evictStale earlier ttlSecs).1 later) key
          seen) := by
  rw [Bool.eq_iff_iff, Bool.or_eq_true]
  simp only [isStale, Bool.or_eq_true, decide_eq_true_eq, List.any_eq_true,
    mem_duePods_split collector ttlSecs ordered]
  constructor
  · intro stale
    rcases stale with old | ⟨pod, early | late, matched⟩
    · exact .inr (.inl old)
    · exact .inl (.inr ⟨pod, early, matched⟩)
    · exact .inr (.inr ⟨pod, late, matched⟩)
  · intro stale
    rcases stale with (old | ⟨pod, early, matched⟩) | (old | ⟨pod, late, matched⟩)
    · left
      omega
    · exact .inr ⟨pod, .inl early, matched⟩
    · exact .inl old
    · exact .inr ⟨pod, .inr late, matched⟩

theorem staleKeys_split (ordered : earlier ≤ later) :
    (staleKeys collector earlier ttlSecs ++
        staleKeys (collector.evictStale earlier ttlSecs).1 later ttlSecs).Perm
      (staleKeys collector later ttlSecs) := by
  have whole : staleKeys collector later ttlSecs =
      collector.lastSeen.keysWhere fun key seen =>
        isStale earlier ttlSecs (duePods collector earlier) key seen ||
          isStale later ttlSecs (duePods (collector.evictStale earlier ttlSecs).1 later) key
            seen := by
    change collector.lastSeen.keysWhere (isStale later ttlSecs (duePods collector later)) = _
    congr
    funext key seen
    exact isStale_split collector ttlSecs ordered key seen
  rw [whole]
  exact Dictionary.keysWhere_append_keysWhere _ _ _

theorem lastSeen_evict_evict (ordered : earlier ≤ later) :
    ((collector.evictStale earlier ttlSecs).1.evictStale later ttlSecs).1.lastSeen =
      (collector.evictStale later ttlSecs).1.lastSeen := by
  have twice := Dictionary.retain_retain collector.lastSeen
    (fun key seen => !isStale earlier ttlSecs (duePods collector earlier) key seen)
    fun key seen => !isStale later ttlSecs
      (duePods (collector.evictStale earlier ttlSecs).1 later) key seen
  simp only [← Bool.not_or, ← isStale_split collector ttlSecs ordered] at twice
  exact twice

theorem deletedAfter_evict_evict (ordered : earlier ≤ later) :
    ((collector.evictStale earlier ttlSecs).1.evictStale later ttlSecs).1.deletedAfter =
      (collector.evictStale later ttlSecs).1.deletedAfter := by
  have twice := Dictionary.retain_retain collector.deletedAfter
    (fun _ removableAt => decide (earlier < removableAt))
    fun _ removableAt => decide (later < removableAt)
  have both : ∀ removableAt,
      (decide (earlier < removableAt) && decide (later < removableAt)) =
        decide (later < removableAt) := by
    intro removableAt
    rw [← Bool.decide_and]
    apply decide_eq_decide.mpr
    omega
  simp only [both] at twice
  exact twice

end Keys

/-! ## The series removed

A sweep removes the series of the keys it takes, except those that a key it
leaves has as well. So stated, it matters neither in which order it takes the
keys nor whether it takes them at once. -/

def Covers (keys : List SeriesKey) (series : Family × List String) : Prop :=
  ∃ key ∈ keys, series ∈ key.series

theorem covers_congr {left right : List SeriesKey} (same : ∀ key, key ∈ left ↔ key ∈ right)
    (series : Family × List String) : Covers left series ↔ Covers right series := by
  simp only [Covers, same]

theorem covers_append {left right : List SeriesKey} {series : Family × List String} :
    Covers (left ++ right) series ↔ Covers left series ∨ Covers right series := by
  simp only [Covers, List.mem_append, or_and_right, exists_or]

section Removal

variable (collector : MetricsCollector Vec) {earlier later : Nat} (now ttlSecs : Nat)

theorem mem_keys_evict (key : SeriesKey) :
    key ∈ (collector.evictStale now ttlSecs).1.lastSeen.keys ↔
      key ∈ collector.lastSeen.keys ∧ key ∉ staleKeys collector now ttlSecs :=
  mem_keys_splitStale _ _ _ _ _

theorem removed_iff (family : Family) (labels : List String) :
    (∃ key ∈ staleKeys collector now ttlSecs, .remove family labels ∈
        removalInstructions key
          (memoryOrphaned (collector.evictStale now ttlSecs).1.lastSeen key)) ↔
      Covers (staleKeys collector now ttlSecs) (family, labels) ∧
        ¬ Covers (collector.evictStale now ttlSecs).1.lastSeen.keys (family, labels) := by
  constructor
  · intro removal
    rcases removal with ⟨key, isStale, removed⟩
    have taken : key ∉ (collector.evictStale now ttlSecs).1.lastSeen.keys := by
      rw [mem_keys_evict]
      exact fun kept => kept.2 isStale
    refine ⟨⟨key, isStale, (remove_mem_iff.mp removed).1⟩, ?_⟩
    intro covered
    rcases covered with ⟨live, isLive, shown⟩
    exact @untracked_of_removal _ key taken (family, labels) removed live isLive shown
  · intro removal
    rcases removal with ⟨⟨key, isStale, own⟩, uncovered⟩
    refine ⟨key, isStale, ?_⟩
    exact (removed_or_tracked _ own).resolve_right uncovered

open Classical in
theorem sample_evict_iff (family : Family) (labels : List String)
    (notEvicted : family ≠ .oomSeriesEvictedTotal) :
    sample (collector.evictStale now ttlSecs).1.vecs family labels =
      if Covers (staleKeys collector now ttlSecs) (family, labels) ∧
          ¬ Covers (collector.evictStale now ttlSecs).1.lastSeen.keys (family, labels)
      then none else sample collector.vecs family labels := by
  rw [sample_evict _ _ _ _ notEvicted]
  simp only [removed_iff]

theorem covers_split (ordered : earlier ≤ later) (series : Family × List String) :
    Covers (staleKeys collector later ttlSecs) series ↔
      Covers (staleKeys collector earlier ttlSecs) series ∨
        Covers (staleKeys (collector.evictStale earlier ttlSecs).1 later ttlSecs) series := by
  rw [← covers_append]
  apply covers_congr
  intro key
  exact (staleKeys_split collector ttlSecs ordered).mem_iff.symm

theorem covers_keys_split (series : Family × List String) :
    Covers collector.lastSeen.keys series ↔
      Covers (staleKeys collector now ttlSecs) series ∨
        Covers (collector.evictStale now ttlSecs).1.lastSeen.keys series := by
  rw [← covers_append]
  apply covers_congr
  intro key
  rw [List.mem_append, mem_keys_evict]
  have tracked : key ∈ staleKeys collector now ttlSecs → key ∈ collector.lastSeen.keys := by
    intro isStale
    rcases (mem_splitStale _ _ _ _ _).mp isStale with ⟨seen, found, _⟩
    exact (Dictionary.mem_keys_iff_lookup _ _).mpr ⟨seen, found⟩
  tauto

theorem sample_evict_evict (ordered : earlier ≤ later) (family : Family) (labels : List String)
    (notEvicted : family ≠ .oomSeriesEvictedTotal) :
    sample ((collector.evictStale earlier ttlSecs).1.evictStale later ttlSecs).1.vecs family
        labels =
      sample (collector.evictStale later ttlSecs).1.vecs family labels := by
  rw [sample_evict_iff _ _ _ _ _ notEvicted, sample_evict_iff _ _ _ _ _ notEvicted,
    sample_evict_iff _ _ _ _ _ notEvicted, lastSeen_evict_evict collector ttlSecs ordered,
    covers_split collector ttlSecs ordered,
    covers_keys_split (collector.evictStale earlier ttlSecs).1 later ttlSecs,
    lastSeen_evict_evict collector ttlSecs ordered]
  by_cases kept : Covers (collector.evictStale later ttlSecs).1.lastSeen.keys (family, labels)
  · simp only [kept, not_true_eq_false, and_false, or_true, if_false]
  · -- what the first sweep leaves to a key that the second takes goes with that key
    by_cases second : Covers (staleKeys (collector.evictStale earlier ttlSecs).1 later ttlSecs)
      (family, labels)
    · simp only [kept, second, not_false_eq_true, and_true, or_true, if_true]
    · by_cases first : Covers (staleKeys collector earlier ttlSecs) (family, labels)
      · simp only [kept, second, first, not_false_eq_true, and_true, or_false, if_false, if_true]
      · simp only [kept, second, first, false_and, or_false, if_false]

end Removal

/-! ## The eviction counter -/

def incremented (count : Nat) (before : Option Nat) : Option Nat :=
  if count = 0 then before else some (before.getD 0 + count)

theorem incremented_incremented (first second : Nat) (before : Option Nat) :
    incremented second (incremented first before) = incremented (first + second) before := by
  unfold incremented
  by_cases noFirst : first = 0
  · simp [noFirst]
  by_cases noSecond : second = 0
  · simp [noSecond]
  have some : first + second ≠ 0 := by omega
  simp only [if_neg noFirst, if_neg noSecond, if_neg some, Option.getD_some, Nat.add_assoc]

def evictionsOf (labels : List String) (keys : List SeriesKey) : Nat :=
  keys.countP fun key => [key.node] = labels

theorem evictionsOf_append (labels : List String) (left right : List SeriesKey) :
    evictionsOf labels (left ++ right) = evictionsOf labels left + evictionsOf labels right :=
  List.countP_append

theorem sample_removal_evicted (key : SeriesKey) (orphaned : Bool) (vecs : Family → Vec)
    (labels : List String) :
    sample (executeAll vecs (removalInstructions key orphaned)) .oomSeriesEvictedTotal labels =
      incremented (evictionsOf labels [key]) (sample vecs .oomSeriesEvictedTotal labels) := by
  have removed := sample_executeAll_of_untouched
    ([.remove .oomKillsTotal key.labels, .remove .oomLastTimestamp key.labels] ++
      if orphaned then memoryTypes.map fun memoryType =>
        .remove .oomMemoryUsageBytes (key.memoryLabels memoryType)
      else []) vecs .oomSeriesEvictedTotal
  rw [removalInstructions, executeAll_append, executeAll_cons, executeAll_nil, sample_write,
    removed [key.node], removed labels]
  · by_cases own : labels = [key.node]
    · simp [own, incremented, evictionsOf, Write.change]
    · simp [own, Ne.symm own, incremented, evictionsOf]
  · cases orphaned <;> simp [Instruction.target]
  · cases orphaned <;> simp [Instruction.target]

theorem sample_removals_evicted (stale : List SeriesKey) (orphaned : SeriesKey → Bool)
    (vecs : Family → Vec) (labels : List String) :
    sample (executeAll vecs (stale.flatMap fun key => removalInstructions key (orphaned key)))
        .oomSeriesEvictedTotal labels =
      incremented (evictionsOf labels stale) (sample vecs .oomSeriesEvictedTotal labels) := by
  induction stale generalizing vecs with
  | nil => rfl
  | cons key rest induction =>
      rw [List.flatMap_cons, executeAll_append, induction, sample_removal_evicted,
        incremented_incremented]
      exact congrArg (incremented · _) (evictionsOf_append labels [key] rest).symm

theorem sample_evict_evicted (collector : MetricsCollector Vec) (now ttlSecs : Nat)
    (labels : List String) :
    sample (collector.evictStale now ttlSecs).1.vecs .oomSeriesEvictedTotal labels =
      incremented (evictionsOf labels (staleKeys collector now ttlSecs))
        (sample collector.vecs .oomSeriesEvictedTotal labels) :=
  sample_removals_evicted _ _ _ _

/-! ## Two sweeps and one -/

namespace SameState

variable {left middle right : MetricsCollector Vec}

theorem of_reordered (reordered : Reordered left right) : SameState left right where
  lastSeen := reordered.lastSeen
  deletedAfter := reordered.deletedAfter
  lastDroppedTotal := reordered.lastDroppedTotal
  samples _ _ := by rw [reordered.vecs]

theorem symm (same : SameState left right) : SameState right left where
  lastSeen := same.lastSeen.symm
  deletedAfter := same.deletedAfter.symm
  lastDroppedTotal := same.lastDroppedTotal.symm
  samples family labels := (same.samples family labels).symm

theorem trans (first : SameState left middle) (second : SameState middle right) :
    SameState left right where
  lastSeen := first.lastSeen.trans second.lastSeen
  deletedAfter := first.deletedAfter.trans second.deletedAfter
  lastDroppedTotal := first.lastDroppedTotal.trans second.lastDroppedTotal
  samples family labels := (first.samples family labels).trans (second.samples family labels)

end SameState

theorem evictStale_reordered {left right : MetricsCollector Vec}
    (reordered : Reordered left right) (now ttlSecs : Nat) :
    SameState (left.evictStale now ttlSecs).1 (right.evictStale now ttlSecs).1 ∧
      (left.evictStale now ttlSecs).2 = (right.evictStale now ttlSecs).2 := by
  have stale := reordered.staleKeys now ttlSecs
  have kept := reordered.lastSeen_evict now ttlSecs
  refine ⟨⟨kept, reordered.deletedAfter.retain _, reordered.lastDroppedTotal, ?_⟩,
    stale.length_eq⟩
  intro family labels
  by_cases isEvicted : family = .oomSeriesEvictedTotal
  · rw [isEvicted, sample_evict_evicted, sample_evict_evicted, reordered.vecs]
    exact congrArg (incremented · _) (stale.countP_eq _)
  · have sameKept : ∀ key, key ∈ (left.evictStale now ttlSecs).1.lastSeen.keys ↔
        key ∈ (right.evictStale now ttlSecs).1.lastSeen.keys := by
      intro key
      rw [Dictionary.mem_keys_iff_lookup, Dictionary.mem_keys_iff_lookup, kept.lookup]
    rw [sample_evict_iff _ _ _ _ _ isEvicted, sample_evict_iff _ _ _ _ _ isEvicted,
      covers_congr fun _ => stale.mem_iff, covers_congr sameKept, reordered.vecs]

/-- A sweep between leaves to the next one what it did not take itself. -/
theorem evictStale_twice (collector : MetricsCollector Vec) {earlier later : Nat}
    (ttlSecs : Nat) (ordered : earlier ≤ later) :
    SameState ((collector.evictStale earlier ttlSecs).1.evictStale later ttlSecs).1
        (collector.evictStale later ttlSecs).1 ∧
      (collector.evictStale earlier ttlSecs).2 +
          ((collector.evictStale earlier ttlSecs).1.evictStale later ttlSecs).2 =
        (collector.evictStale later ttlSecs).2 := by
  have stale := staleKeys_split collector ttlSecs ordered
  refine ⟨⟨?_, ?_, rfl, ?_⟩, ?_⟩
  · rw [lastSeen_evict_evict collector ttlSecs ordered]
    exact .refl _
  · rw [deletedAfter_evict_evict collector ttlSecs ordered]
    exact .refl _
  · intro family labels
    by_cases isEvicted : family = .oomSeriesEvictedTotal
    · rw [isEvicted, sample_evict_evicted, sample_evict_evicted, sample_evict_evicted,
        incremented_incremented, ← evictionsOf_append]
      exact congrArg (incremented · _) (stale.countP_eq _)
    · exact sample_evict_evict collector ttlSecs ordered family labels isEvicted
  · exact List.length_append.symm.trans stale.length_eq

/-- A sweep made early changes only when series go: with it or without, and in
whatever order the maps iterate, the later one ends in the same state, and the
keys counted are the same. A second sweep at the same time does nothing. -/
theorem early_sweep_changes_nothing (collector : MetricsCollector Vec) {earlier later : Nat}
    (ttlSecs : Nat) (ordered : earlier ≤ later) :
    (∀ between single, Reordered (collector.evictStale earlier ttlSecs).1 between →
        Reordered collector single →
        SameState (between.evictStale later ttlSecs).1 (single.evictStale later ttlSecs).1 ∧
          (collector.evictStale earlier ttlSecs).2 + (between.evictStale later ttlSecs).2 =
            (single.evictStale later ttlSecs).2) ∧
      (∀ again, Reordered (collector.evictStale earlier ttlSecs).1 again →
        SameState (again.evictStale earlier ttlSecs).1 again ∧
          (again.evictStale earlier ttlSecs).2 = 0) ∧
      ∀ other, Reordered collector other →
        SameState (other.evictStale later ttlSecs).1 (collector.evictStale later ttlSecs).1 ∧
          (other.evictStale later ttlSecs).2 = (collector.evictStale later ttlSecs).2 := by
  refine ⟨?_, ?_, ?_⟩
  · intro between single afterFirst alone
    have first := evictStale_reordered afterFirst later ttlSecs
    have twice := evictStale_twice collector ttlSecs ordered
    have once := evictStale_reordered alone later ttlSecs
    exact ⟨first.1.symm.trans (twice.1.trans once.1),
      first.2 ▸ twice.2.trans once.2⟩
  · intro again afterFirst
    have first := evictStale_reordered afterFirst earlier ttlSecs
    have twice := evictStale_twice collector ttlSecs (le_refl earlier)
    refine ⟨first.1.symm.trans (twice.1.trans (.of_reordered afterFirst)), ?_⟩
    have counts := twice.2
    omega
  · intro other reordered
    have same := evictStale_reordered reordered later ttlSecs
    exact ⟨same.1.symm, same.2.symm⟩

/-- Two restarts of one container, swept when the first has aged out and again
when both have: two keys in all, one each time. -/
theorem early_sweep_changes_nothing_two_restarts :
    let collector := ((MetricsCollector.new : MetricsCollector LabelVec).recordOomEvent
      (eventFor "api-7d9" "containerd://abc123" 10)).recordOomEvent
      (eventFor "api-7d9" "containerd://def456" 40)
    SameState ((collector.evictStale 70 60).1.evictStale 100 60).1
        (collector.evictStale 100 60).1 ∧
      (collector.evictStale 70 60).2 = 1 ∧
      1 + ((collector.evictStale 70 60).1.evictStale 100 60).2 = 2 := by
  intro collector
  have early := (early_sweep_changes_nothing collector 60 (show 70 ≤ 100 by omega)).1
    (collector.evictStale 70 60).1 collector (.refl _) (.refl _)
  have first : (collector.evictStale 70 60).2 = 1 := by decide
  have single : (collector.evictStale 100 60).2 = 2 := by decide
  rw [first, single] at early
  exact ⟨early.1, first, early.2⟩

end OomWatcher
