import Mathlib.Data.List.ProdSigma
import Mathlib.Data.Set.Card
import OomWatcher.Metrics.Coverage
import OomWatcher.Metrics.Deletion

/-! # What bounds the registry

How many series and bookkeeping entries there are after a sweep, against the
events and deletions that were recent enough for it. -/

namespace OomWatcher

variable {Vec : Type} [MetricVec Vec (List String)]

open MetricsCollector

/-! ## Counting series -/

noncomputable def seriesCount (collector : MetricsCollector Vec) (family : Family) : ℕ∞ :=
  Set.encard {labels | sample collector.vecs family labels ≠ none}

theorem seriesCount_of_listed {collector : MetricsCollector Vec} {family : Family}
    {listed : List (List String)} (distinct : listed.Nodup)
    (shown : ∀ labels, sample collector.vecs family labels ≠ none ↔ labels ∈ listed) :
    seriesCount collector family = listed.length := by
  have sameSet : {labels | sample collector.vecs family labels ≠ none} = ↑listed.toFinset := by
    ext labels
    simp [shown]
  rw [seriesCount, sameSet, Set.encard_coe_eq_coe_finsetCard,
    List.toFinset_card_of_nodup distinct]

def SeriesKey.memoryPrefix (key : SeriesKey) : List String :=
  [key.node, key.ns, key.pod, key.container]

def memorySeries (prefixes : List (List String)) : List (List String) :=
  (prefixes ×ˢ memoryTypes).map fun (shared, memoryType) => shared ++ [memoryType.label]

theorem memorySeries_nodup {prefixes : List (List String)} (distinct : prefixes.Nodup) :
    (memorySeries prefixes).Nodup := by
  apply List.Nodup.map
  · intro left right equal
    rcases List.append_inj' equal rfl with ⟨samePrefix, sameLabel⟩
    have sameType := MemoryType.label_injective (List.singleton_inj.mp sameLabel)
    exact Prod.ext samePrefix sameType
  · exact distinct.product (by decide)

theorem memorySeries_length (prefixes : List (List String)) :
    (memorySeries prefixes).length = 4 * prefixes.length := by
  rw [memorySeries, List.length_map, List.length_product, Nat.mul_comm]
  rfl

theorem mem_memorySeries {keys : List SeriesKey} {labels : List String} :
    labels ∈ memorySeries (keys.map SeriesKey.memoryPrefix).dedup ↔
      ∃ key ∈ keys, (Family.oomMemoryUsageBytes, labels) ∈ key.series := by
  constructor
  · intro member
    rcases List.mem_map.mp member with ⟨⟨shared, memoryType⟩, inProduct, rfl⟩
    have isPrefix := List.mem_dedup.mp (List.mem_product.mp inProduct).1
    rcases List.mem_map.mp isPrefix with ⟨key, isKey, rfl⟩
    exact ⟨key, isKey, SeriesKey.mem_series_memory.mpr ⟨memoryType, rfl⟩⟩
  · intro ⟨key, isKey, own⟩
    rcases SeriesKey.mem_series_memory.mp own with ⟨memoryType, rfl⟩
    have isPrefix := List.mem_dedup.mpr (List.mem_map_of_mem (f := SeriesKey.memoryPrefix) isKey)
    exact List.mem_map.mpr ⟨(key.memoryPrefix, memoryType),
      List.mem_product.mpr ⟨isPrefix, memoryType.mem_memoryTypes⟩, rfl⟩

/-! ## Every series is of a tracked key -/

theorem Executes.key_of_exported {history : History} {collector : MetricsCollector Vec}
    (executes : Executes history collector) {family : Family}
    (perContainer : family.perContainer = true) {labels : List String}
    (shown : sample collector.vecs family labels ≠ none) :
    ∃ key : SeriesKey, (family, labels) ∈ key.series := by
  induction executes with
  | start => exact absurd (MetricVec.exported_empty labels) shown
  | @call history collector operation reorderedCollector _ reordered induction =>
      rw [reordered.vecs] at induction
      cases operation with
      | notePodDeleted ns pod now => exact induction shown
      | evictStale now ttlSecs =>
          have notEvicted : family ≠ .oomSeriesEvictedTotal := by
            intro equal
            rw [equal] at perContainer
            cases perContainer
          apply induction
          intro gone
          apply shown
          change sample (reorderedCollector.evictStale now ttlSecs).1.vecs family labels = none
          rw [sample_evict _ _ _ _ notEvicted, gone, ite_self]
      | recordOomEvent event =>
          by_cases touched : ∃ write, .write family labels write ∈ recordInstructions event
          · rcases touched with ⟨write, member⟩
            exact ⟨.ofEvent event, mem_series_of_record member perContainer⟩
          · apply induction
            intro gone
            apply shown
            refine (sample_executeAll_of_untouched _ _ _ _ ?_).trans gone
            intro instruction member target
            cases instruction with
            | write written writtenLabels write =>
                cases target
                exact touched ⟨write, member⟩
            | remove removed removedLabels =>
                simp [recordInstructions, zip_memoryValues] at member

theorem Executes.exported_iff_tracked {history : History} {collector : MetricsCollector Vec}
    (executes : Executes history collector) {family : Family}
    (perContainer : family.perContainer = true) (labels : List String) :
    sample collector.vecs family labels ≠ none ↔
      ∃ key ∈ collector.lastSeen.keys, (family, labels) ∈ key.series := by
  have reflects := executes.reflects
  have tracked_iff : ∀ key : SeriesKey,
      key ∈ collector.lastSeen.keys ↔ sinceEvicted key history ≠ [] := by
    intro key
    rw [Dictionary.mem_keys_iff_lookup, reflects.lastSeen, Ne, sinceEvicted_eq_nil_iff, ← Ne,
      Option.ne_none_iff_exists']
  constructor
  · intro shown
    rcases executes.key_of_exported perContainer shown with ⟨key, own⟩
    cases family with
    | oomKillsTotal =>
        refine ⟨key, (tracked_iff key).mpr ?_, own⟩
        intro untracked
        rw [SeriesKey.mem_series_kills.mp own, reflects.kills, if_pos untracked] at shown
        exact shown rfl
    | oomLastTimestamp =>
        refine ⟨key, (tracked_iff key).mpr ?_, own⟩
        intro untracked
        rw [SeriesKey.mem_series_lastTimestamp.mp own, reflects.lastTimestamp] at shown
        exact shown ((sinceEvicted_eq_nil_iff key history).mp untracked)
    | oomMemoryUsageBytes =>
        rcases SeriesKey.mem_series_memory.mp own with ⟨memoryType, rfl⟩
        have covered : Covered key history := by
          by_contra uncovered
          exact shown (reflects.memoryUncovered key memoryType uncovered)
        rcases (reflects.tracked_iff_covered key).mpr covered with ⟨live, isTracked, shared⟩
        exact ⟨live, isTracked, SeriesKey.mem_series_of_shares shared own⟩
    | oomKillsPerNodeTotal | oomResolutionFailuresTotal | oomEventsDroppedTotal
    | oomSeriesEvictedTotal => cases perContainer
  · intro ⟨key, isTracked, own⟩
    have hasEvents := (tracked_iff key).mp isTracked
    cases family with
    | oomKillsTotal =>
        rw [SeriesKey.mem_series_kills.mp own, reflects.kills, if_neg hasEvents]
        exact Option.some_ne_none _
    | oomLastTimestamp =>
        rw [SeriesKey.mem_series_lastTimestamp.mp own, reflects.lastTimestamp]
        exact mt (sinceEvicted_eq_nil_iff key history).mpr hasEvents
    | oomMemoryUsageBytes =>
        rcases SeriesKey.mem_series_memory.mp own with ⟨memoryType, rfl⟩
        have covered : Covered key history :=
          ⟨key, hasEvents, SeriesKey.shares_iff.mpr fun _ => rfl⟩
        rw [reflects.memoryCovered key memoryType covered]
        exact Option.some_ne_none _
    | oomKillsPerNodeTotal | oomResolutionFailuresTotal | oomEventsDroppedTotal
    | oomSeriesEvictedTotal => cases perContainer

theorem Executes.seriesCount_own {history : History} {collector : MetricsCollector Vec}
    (executes : Executes history collector) {family : Family}
    (perContainer : family = .oomKillsTotal ∨ family = .oomLastTimestamp) :
    seriesCount collector family = collector.lastSeen.keys.length := by
  rw [← List.length_map (f := SeriesKey.labels)]
  apply seriesCount_of_listed
  · exact List.Nodup.map (fun _ _ => SeriesKey.labels_inj.mp) collector.lastSeen.keys_nodup
  · intro labels
    rcases perContainer with rfl | rfl
    · rw [executes.exported_iff_tracked rfl, List.mem_map]
      simp only [SeriesKey.mem_series_kills, eq_comm]
    · rw [executes.exported_iff_tracked rfl, List.mem_map]
      simp only [SeriesKey.mem_series_lastTimestamp, eq_comm]

theorem Executes.seriesCount_memory {history : History} {collector : MetricsCollector Vec}
    (executes : Executes history collector) :
    seriesCount collector .oomMemoryUsageBytes =
      4 * ((collector.lastSeen.keys.map SeriesKey.memoryPrefix).dedup.length : ℕ∞) := by
  have counted := seriesCount_of_listed
    (memorySeries_nodup (List.nodup_dedup (collector.lastSeen.keys.map SeriesKey.memoryPrefix)))
    fun labels => (executes.exported_iff_tracked rfl labels).trans mem_memorySeries.symm
  rw [counted, memorySeries_length, Nat.cast_mul]
  rfl

/-! ## What is recent -/

def noted : History → List ((String × String) × Nat)
  | [] => []
  | .recordOomEvent _ :: earlier => noted earlier
  | .notePodDeleted ns pod now :: earlier => ((ns, pod), now) :: noted earlier
  | .evictStale _ _ :: earlier => noted earlier

def recentEvents (now ttlSecs : Nat) (history : History) : List EnrichedOomEvent :=
  (recorded history).filter fun event => now < event.timestamp + ttlSecs

def recentlyDeleted (now : Nat) (history : History) : List (String × String) :=
  (((noted history).filter fun (_, deletedAt) => now < deletedAt + deletedPodGraceSeconds).map
    Prod.fst).dedup

theorem mem_recorded {event : EnrichedOomEvent} {history : History}
    (member : .recordOomEvent event ∈ history) : event ∈ recorded history := by
  induction history with
  | nil => cases member
  | cons operation earlier induction =>
      rcases List.mem_cons.mp member with rfl | older
      · exact List.mem_cons_self
      · cases operation with
        | recordOomEvent latest => exact List.mem_cons_of_mem _ (induction older)
        | notePodDeleted ns pod now => exact induction older
        | evictStale now ttlSecs => exact induction older

theorem noted_of_scheduled {pod : String × String} {history : History} {due : Nat}
    (pending : scheduled pod history = some due) :
    ∃ deletedAt, (pod, deletedAt) ∈ noted history ∧
      due = saturatingAdd deletedAt deletedPodGraceSeconds := by
  induction history generalizing due with
  | nil => cases pending
  | cons operation earlier induction =>
      cases operation with
      | recordOomEvent event => exact induction pending
      | notePodDeleted ns name now =>
          rw [scheduled] at pending
          split at pending
          · next same =>
              refine ⟨now, ?_, (Option.some.inj pending).symm⟩
              rw [same]
              exact List.mem_cons_self
          · rcases induction pending with ⟨deletedAt, member, equal⟩
            exact ⟨deletedAt, List.mem_cons_of_mem _ member, equal⟩
      | evictStale now ttlSecs =>
          rw [scheduled] at pending
          exact induction (Option.filter_eq_some_iff.mp pending).1

theorem Executes.tracked_recent {history : History} {collector : MetricsCollector Vec}
    {now ttlSecs : Nat} (executes : Executes (.evictStale now ttlSecs :: history) collector)
    {key : SeriesKey} (tracked : key ∈ collector.lastSeen.keys) :
    ∃ event ∈ recentEvents now ttlSecs history, SeriesKey.ofEvent event = key := by
  rcases (Dictionary.mem_keys_iff_lookup _ _).mp tracked with ⟨seen, found⟩
  rw [executes.reflects.lastSeen, lastRecorded_evict] at found
  rcases Option.filter_eq_some_iff.mp found with ⟨latest, kept⟩
  rcases exists_of_lastRecorded latest with ⟨event, member, own, rfl⟩
  have young : now - event.timestamp < ttlSecs := by
    by_contra old
    simp [sweepTakes, Nat.not_lt.mp old] at kept
  refine ⟨event, List.mem_filter.mpr ⟨mem_recorded member, ?_⟩, own⟩
  simp only [decide_eq_true_eq]
  omega

theorem Executes.scheduled_recent {history : History} {collector : MetricsCollector Vec}
    {now ttlSecs : Nat} (executes : Executes (.evictStale now ttlSecs :: history) collector)
    {pod : String × String} (pending : pod ∈ collector.deletedAfter.keys) :
    pod ∈ recentlyDeleted now history := by
  rcases (Dictionary.mem_keys_iff_lookup _ _).mp pending with ⟨due, found⟩
  rw [executes.reflects.deletedAfter, scheduled] at found
  rcases Option.filter_eq_some_iff.mp found with ⟨wasScheduled, notDue⟩
  rcases noted_of_scheduled wasScheduled with ⟨deletedAt, member, rfl⟩
  have atMost : saturatingAdd deletedAt deletedPodGraceSeconds ≤
      deletedAt + deletedPodGraceSeconds := Nat.min_le_left _ _
  have recent := (of_decide_eq_true notDue).trans_le atMost
  apply List.mem_dedup.mpr
  exact List.mem_map.mpr ⟨(pod, deletedAt),
    List.mem_filter.mpr ⟨member, decide_eq_true recent⟩, rfl⟩

/-! ## After a sweep -/

/-- A sweep leaves one `oom_kills_total` and one `oom_last_timestamp` series for
each tracked key, and four memory series for each container of them. The tracked
keys are at most the recent events, the pending removals at most the pods
deleted recently. -/
theorem bounded_after_sweep {history : History} {collector : MetricsCollector Vec}
    {now ttlSecs : Nat} (executes : Executes (.evictStale now ttlSecs :: history) collector) :
    seriesCount collector .oomKillsTotal = collector.lastSeen.keys.length ∧
      seriesCount collector .oomLastTimestamp = collector.lastSeen.keys.length ∧
      collector.lastSeen.keys.length ≤ (recentEvents now ttlSecs history).length ∧
      seriesCount collector .oomMemoryUsageBytes =
        4 * ((collector.lastSeen.keys.map SeriesKey.memoryPrefix).dedup.length : ℕ∞) ∧
      collector.deletedAfter.keys.length ≤ (recentlyDeleted now history).length := by
  refine ⟨executes.seriesCount_own (.inl rfl), executes.seriesCount_own (.inr rfl), ?_,
    executes.seriesCount_memory, ?_⟩
  · have ofRecentEvents : collector.lastSeen.keys ⊆
        (recentEvents now ttlSecs history).map SeriesKey.ofEvent :=
      fun _ tracked => List.mem_map.mpr (executes.tracked_recent tracked)
    have bounded := (List.subperm_of_subset collector.lastSeen.keys_nodup ofRecentEvents).length_le
    rwa [List.length_map] at bounded
  · have ofRecentlyDeleted : collector.deletedAfter.keys ⊆ recentlyDeleted now history :=
      fun _ pending => executes.scheduled_recent pending
    exact (List.subperm_of_subset collector.deletedAfter.keys_nodup ofRecentlyDeleted).length_le

def restartedAndSwept : MetricsCollector LabelVec :=
  ((((new.recordOomEvent (eventFor "api-7d9" "containerd://old" 10)).recordOomEvent
    (eventFor "api-7d9" "containerd://new" 80)).notePodDeleted "prod" "db-0" 90).evictStale
    100 60).1

/-- The second restart is left with its two series and the container's four. -/
theorem bounded_after_sweep_restarted :
    seriesCount restartedAndSwept .oomKillsTotal = 1 ∧
      seriesCount restartedAndSwept .oomMemoryUsageBytes = 4 ∧
      restartedAndSwept.deletedAfter.keys.length ≤ 1 := by
  have executes : Executes
      [.evictStale 100 60, .notePodDeleted "prod" "db-0" 90,
        .recordOomEvent (eventFor "api-7d9" "containerd://new" 80),
        .recordOomEvent (eventFor "api-7d9" "containerd://old" 10)] restartedAndSwept :=
    .call (.evictStale 100 60)
      (.call (.notePodDeleted "prod" "db-0" 90)
        (.call (.recordOomEvent _)
          (.call (.recordOomEvent _) .start (.refl _)) (.refl _)) (.refl _)) (.refl _)
  rcases bounded_after_sweep executes with ⟨kills, _, _, memory, pending⟩
  have oneTracked : restartedAndSwept.lastSeen.keys.length = 1 := by decide
  have onePrefix : (restartedAndSwept.lastSeen.keys.map SeriesKey.memoryPrefix).dedup.length = 1 :=
    by decide
  refine ⟨?_, ?_, pending⟩
  · rw [kills, oneTracked]
    rfl
  · rw [memory, onePrefix]
    rfl

end OomWatcher
