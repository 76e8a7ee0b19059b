import OomWatcher.Metrics.History

/-! # Every operation refines the history -/

namespace OomWatcher

variable {Vec : Type} [MetricVec Vec (List String)]

open MetricsCollector

/-! ## Recording -/

theorem Write.change_raise (value old : Nat) :
    (Write.raise value).change old = max value old := by
  simp only [Write.change]
  split <;> omega

private def raises (event : EnrichedOomEvent) (types : List MemoryType) : List Instruction :=
  types.map fun memoryType =>
    .write .oomMemoryUsageBytes ((SeriesKey.ofEvent event).memoryLabels memoryType)
      (.raise (bytesOf (memoryType.kilobytes event.rawEvent)))

private theorem sample_raises_of_other (types : List MemoryType) (vecs : Family → Vec)
    (event : EnrichedOomEvent) (family : Family) (labels : List String)
    (other : family ≠ .oomMemoryUsageBytes ∨
      ∀ memoryType ∈ types, (SeriesKey.ofEvent event).memoryLabels memoryType ≠ labels) :
    sample (executeAll vecs (raises event types)) family labels =
      sample vecs family labels := by
  apply sample_executeAll_of_untouched
  intro instruction member
  rcases List.mem_map.mp member with ⟨memoryType, inTypes, rfl⟩
  intro equal
  have familyEqual := congrArg Prod.fst equal
  have labelsEqual := congrArg Prod.snd equal
  rcases other with otherFamily | otherLabels
  · exact otherFamily familyEqual.symm
  · exact otherLabels memoryType inTypes labelsEqual

private theorem sample_raises (types : List MemoryType) (vecs : Family → Vec)
    (event : EnrichedOomEvent) (memoryType : MemoryType) (nodup : types.Nodup)
    (member : memoryType ∈ types) :
    sample (executeAll vecs (raises event types)) .oomMemoryUsageBytes
        ((SeriesKey.ofEvent event).memoryLabels memoryType) =
      some (max (bytesOf (memoryType.kilobytes event.rawEvent))
        ((sample vecs .oomMemoryUsageBytes
          ((SeriesKey.ofEvent event).memoryLabels memoryType)).getD 0)) := by
  induction types generalizing vecs with
  | nil => cases member
  | cons head rest induction =>
      have parts := List.nodup_cons.mp nodup
      have labelsOf : ∀ {left right : MemoryType},
          (SeriesKey.ofEvent event).memoryLabels left =
            (SeriesKey.ofEvent event).memoryLabels right → left = right :=
        fun equal => (SeriesKey.memoryLabels_eq_iff.mp equal).2
      change sample (executeAll (execute vecs _) (raises event rest)) _ _ = _
      rcases List.mem_cons.mp member with equal | inRest
      · subst equal
        have otherLabels : ∀ other ∈ rest,
            (SeriesKey.ofEvent event).memoryLabels other ≠
              (SeriesKey.ofEvent event).memoryLabels memoryType := by
          intro other inRest equal
          have sameType : other = memoryType := labelsOf equal
          exact parts.1 (sameType ▸ inRest)
        rw [sample_raises_of_other rest _ event _ _ (.inr otherLabels), sample_write,
          if_pos ⟨rfl, rfl⟩, Write.change_raise]
      · rw [induction _ parts.2 inRest, sample_write, if_neg]
        intro sameSeries
        rcases sameSeries with ⟨_, equal⟩
        have sameType : memoryType = head := labelsOf equal
        exact parts.1 (sameType ▸ inRest)

theorem recordInstructions_eq_raises (event : EnrichedOomEvent) :
    recordInstructions event =
      .write .oomKillsTotal (SeriesKey.ofEvent event).labels .inc ::
      .write .oomKillsPerNodeTotal [(SeriesKey.ofEvent event).node] .inc ::
      (raises event memoryTypes ++
        [.write .oomLastTimestamp (SeriesKey.ofEvent event).labels
          (.set event.timestamp)]) :=
  rfl

private theorem sample_record_of_not_memory (vecs : Family → Vec)
    (event : EnrichedOomEvent) (family : Family) (labels : List String)
    (notMemory : family ≠ .oomMemoryUsageBytes) :
    sample (executeAll vecs (recordInstructions event)) family labels =
      if family = .oomKillsTotal ∧ labels = (SeriesKey.ofEvent event).labels ∨
          family = .oomKillsPerNodeTotal ∧ labels = [(SeriesKey.ofEvent event).node] then
        some ((sample vecs family labels).getD 0 + 1)
      else if family = .oomLastTimestamp ∧ labels = (SeriesKey.ofEvent event).labels then
        some event.timestamp
      else sample vecs family labels := by
  rw [recordInstructions_eq_raises]
  simp only [executeAll_cons, executeAll_append, executeAll_nil]
  cases family with
  | oomMemoryUsageBytes => exact absurd rfl notMemory
  | oomLastTimestamp =>
      rw [sample_write]
      simp only [sample_raises_of_other _ _ _ _ _ (.inl notMemory), true_and,
        sample_write_of_family _ _ _ _ (show Family.oomLastTimestamp ≠ .oomKillsTotal by decide),
        sample_write_of_family _ _ _ _
          (show Family.oomLastTimestamp ≠ .oomKillsPerNodeTotal by decide)]
      simp [Write.change]
  | oomKillsTotal =>
      rw [sample_write_of_family _ _ _ _ (by decide),
        sample_raises_of_other _ _ _ _ _ (.inl notMemory),
        sample_write_of_family _ _ _ _ (by decide), sample_write]
      by_cases same : labels = (SeriesKey.ofEvent event).labels
      · simp [same, Write.change]
      · simp [same]
  | oomKillsPerNodeTotal =>
      rw [sample_write_of_family _ _ _ _ (by decide),
        sample_raises_of_other _ _ _ _ _ (.inl notMemory), sample_write,
        sample_write_of_family _ _ _ _ (by decide),
        sample_write_of_family _ _ _ _ (by decide)]
      by_cases same : labels = [(SeriesKey.ofEvent event).node]
      · simp [same, Write.change]
      · simp [same]
  | oomResolutionFailuresTotal | oomEventsDroppedTotal | oomSeriesEvictedTotal =>
      rw [sample_write_of_family _ _ _ _ (by decide),
        sample_raises_of_other _ _ _ _ _ (.inl notMemory),
        sample_write_of_family _ _ _ _ (by decide),
        sample_write_of_family _ _ _ _ (by decide)]
      simp

theorem sample_record_kills (vecs : Family → Vec) (event : EnrichedOomEvent)
    (labels : List String) :
    sample (executeAll vecs (recordInstructions event)) .oomKillsTotal labels =
      if labels = (SeriesKey.ofEvent event).labels then
        some ((sample vecs .oomKillsTotal labels).getD 0 + 1)
      else sample vecs .oomKillsTotal labels := by
  rw [sample_record_of_not_memory _ _ _ _ (by decide)]
  simp

theorem sample_record_perNode (vecs : Family → Vec) (event : EnrichedOomEvent)
    (labels : List String) :
    sample (executeAll vecs (recordInstructions event)) .oomKillsPerNodeTotal labels =
      if labels = [(SeriesKey.ofEvent event).node] then
        some ((sample vecs .oomKillsPerNodeTotal labels).getD 0 + 1)
      else sample vecs .oomKillsPerNodeTotal labels := by
  rw [sample_record_of_not_memory _ _ _ _ (by decide)]
  simp

theorem sample_record_lastTimestamp (vecs : Family → Vec) (event : EnrichedOomEvent)
    (labels : List String) :
    sample (executeAll vecs (recordInstructions event)) .oomLastTimestamp labels =
      if labels = (SeriesKey.ofEvent event).labels then some event.timestamp
      else sample vecs .oomLastTimestamp labels := by
  rw [sample_record_of_not_memory _ _ _ _ (by decide)]
  simp

theorem sample_record_dropped (vecs : Family → Vec) (event : EnrichedOomEvent)
    (labels : List String) :
    sample (executeAll vecs (recordInstructions event)) .oomEventsDroppedTotal labels =
      sample vecs .oomEventsDroppedTotal labels := by
  rw [sample_record_of_not_memory _ _ _ _ (by decide)]
  simp

theorem sample_record_failures (vecs : Family → Vec) (event : EnrichedOomEvent)
    (labels : List String) :
    sample (executeAll vecs (recordInstructions event)) .oomResolutionFailuresTotal labels =
      sample vecs .oomResolutionFailuresTotal labels := by
  rw [sample_record_of_not_memory _ _ _ _ (by decide)]
  simp

theorem sample_record_memory (vecs : Family → Vec) (event : EnrichedOomEvent)
    (key : SeriesKey) (memoryType : MemoryType) :
    sample (executeAll vecs (recordInstructions event)) .oomMemoryUsageBytes
        (key.memoryLabels memoryType) =
      if (SeriesKey.ofEvent event).sharesMemorySeriesWith key = true then
        some (max (bytesOf (memoryType.kilobytes event.rawEvent))
          ((sample vecs .oomMemoryUsageBytes (key.memoryLabels memoryType)).getD 0))
      else sample vecs .oomMemoryUsageBytes (key.memoryLabels memoryType) := by
  rw [recordInstructions_eq_raises]
  simp only [executeAll_cons, executeAll_append, executeAll_nil]
  rw [sample_write_of_family _ _ _ _ (by decide)]
  by_cases shared : (SeriesKey.ofEvent event).sharesMemorySeriesWith key = true
  · rw [if_pos shared, ← SeriesKey.shares_iff.mp shared memoryType,
      sample_raises _ _ _ _ (by decide) memoryType.mem_memoryTypes,
      sample_write_of_family _ _ _ _ (by decide),
      sample_write_of_family _ _ _ _ (by decide)]
  · have otherLabels : ∀ written ∈ memoryTypes,
        (SeriesKey.ofEvent event).memoryLabels written ≠ key.memoryLabels memoryType :=
      fun _ _ equal => shared (SeriesKey.memoryLabels_eq_iff.mp equal).1
    rw [if_neg shared, sample_raises_of_other _ _ _ _ _ (.inr otherLabels),
      sample_write_of_family _ _ _ _ (by decide),
      sample_write_of_family _ _ _ _ (by decide)]

/-! ## The step lemmas -/

theorem reflects_new : Reflects [] (new : MetricsCollector Vec) where
  lastSeen _ := rfl
  deletedAfter _ := rfl
  kills _ := MetricVec.exported_empty _
  lastTimestamp _ := MetricVec.exported_empty _
  memoryCovered := by
    rintro key memoryType ⟨live, tracked, _⟩
    exact absurd rfl tracked
  memoryUncovered _ _ _ := MetricVec.exported_empty _
  perNode _ := MetricVec.exported_empty _

theorem sinceEvicted_record (key : SeriesKey) (event : EnrichedOomEvent)
    (history : History) :
    sinceEvicted key (.recordOomEvent event :: history) =
      if key = SeriesKey.ofEvent event then event :: sinceEvicted key history
      else sinceEvicted key history :=
  rfl

theorem lastRecorded_record (key : SeriesKey) (event : EnrichedOomEvent)
    (history : History) :
    lastRecorded key (.recordOomEvent event :: history) =
      if key = SeriesKey.ofEvent event then some event.timestamp
      else lastRecorded key history := by
  rw [lastRecorded, sinceEvicted_record]
  split <;> rfl

theorem covered_record (key : SeriesKey) (event : EnrichedOomEvent)
    (history : History) :
    Covered key (.recordOomEvent event :: history) ↔
      (SeriesKey.ofEvent event).sharesMemorySeriesWith key = true ∨
        Covered key history := by
  constructor
  · intro covered
    rcases covered with ⟨live, tracked, shared⟩
    by_cases own : live = SeriesKey.ofEvent event
    · exact .inl (own ▸ shared)
    · rw [sinceEvicted_record, if_neg own] at tracked
      exact .inr ⟨live, tracked, shared⟩
  · intro either
    rcases either with shared | ⟨live, tracked, shared⟩
    · refine ⟨SeriesKey.ofEvent event, ?_, shared⟩
      rw [sinceEvicted_record, if_pos rfl]
      exact List.cons_ne_nil _ _
    · refine ⟨live, ?_, shared⟩
      rw [sinceEvicted_record]
      split
      · exact List.cons_ne_nil _ _
      · exact tracked

theorem sinceUncovered_of_uncovered {key : SeriesKey} {history : History}
    (uncovered : ¬Covered key history) : sinceUncovered key history = [] := by
  induction history with
  | nil => rfl
  | cons operation earlier induction =>
      cases operation with
      | recordOomEvent event =>
          rw [covered_record, not_or] at uncovered
          rw [sinceUncovered, if_neg uncovered.1]
          exact induction uncovered.2
      | notePodDeleted ns pod now => exact induction uncovered
      | evictStale now ttlSecs => rw [sinceUncovered, if_neg uncovered]

theorem Reflects.recordOomEvent {history : History} {collector : MetricsCollector Vec}
    (reflects : Reflects history collector) (event : EnrichedOomEvent) :
    Reflects (.recordOomEvent event :: history) (collector.recordOomEvent event) where
  lastSeen key := by
    rw [lastRecorded_record, ← reflects.lastSeen]
    exact Dictionary.lookup_insert_eq _ _ _ _
  deletedAfter := reflects.deletedAfter
  kills key := by
    change sample (executeAll collector.vecs _) _ _ = _
    rw [sample_record_kills, sinceEvicted_record, reflects.kills]
    simp only [SeriesKey.labels_inj]
    by_cases own : key = SeriesKey.ofEvent event
    · rw [if_pos own, if_pos own, if_neg (List.cons_ne_nil _ _), List.length_cons]
      cases sinceEvicted key history <;> simp
    · rw [if_neg own, if_neg own]
  lastTimestamp key := by
    change sample (executeAll collector.vecs _) _ _ = _
    rw [sample_record_lastTimestamp, lastRecorded_record, reflects.lastTimestamp]
    simp only [SeriesKey.labels_inj]
  memoryCovered key memoryType covered := by
    change sample (executeAll collector.vecs _) _ _ = _
    rw [sample_record_memory, sinceUncovered]
    by_cases shared : (SeriesKey.ofEvent event).sharesMemorySeriesWith key = true
    · rw [if_pos shared, if_pos shared]
      by_cases before : Covered key history
      · rw [reflects.memoryCovered key memoryType before]
        rfl
      · rw [reflects.memoryUncovered key memoryType before,
          sinceUncovered_of_uncovered before]
        rfl
    · rw [if_neg shared, if_neg shared]
      apply reflects.memoryCovered
      exact ((covered_record key event history).mp covered).resolve_left shared
  memoryUncovered key memoryType uncovered := by
    rw [covered_record, not_or] at uncovered
    change sample (executeAll collector.vecs _) _ _ = _
    rw [sample_record_memory, if_neg uncovered.1]
    exact reflects.memoryUncovered key memoryType uncovered.2
  perNode node := by
    change sample (executeAll collector.vecs _) _ _ = _
    rw [sample_record_perNode, reflects.perNode]
    have count : killsOfNode node (.recordOomEvent event :: history) =
        killsOfNode node history +
          if (SeriesKey.ofEvent event).node = node then 1 else 0 := by
      simp [killsOfNode, recorded, List.countP_cons]
    rw [count]
    by_cases own : (SeriesKey.ofEvent event).node = node
    · by_cases zero : killsOfNode node history = 0 <;> simp [own, zero]
    · have labelsDiffer : [node] ≠ [(SeriesKey.ofEvent event).node] := by
        simpa using Ne.symm own
      simp [own, labelsDiffer]

theorem Reflects.notePodDeleted {history : History} {collector : MetricsCollector Vec}
    (reflects : Reflects history collector) (ns pod : String) (now : Nat) :
    Reflects (.notePodDeleted ns pod now :: history)
      (collector.notePodDeleted ns pod now) where
  lastSeen := reflects.lastSeen
  deletedAfter name := by
    rw [scheduled, ← reflects.deletedAfter]
    exact Dictionary.lookup_insert_eq _ _ _ _
  kills := reflects.kills
  lastTimestamp := reflects.lastTimestamp
  memoryCovered := reflects.memoryCovered
  memoryUncovered := reflects.memoryUncovered
  perNode := reflects.perNode

/-! ## Eviction -/

def takes (now ttlSecs : Nat) (history : History) (key : SeriesKey) : Bool :=
  (lastRecorded key history).any fun seen =>
    sweepTakes now ttlSecs seen (scheduled (key.ns, key.pod) history)

/-- A sweep keeps a key's events or drops them all. -/
theorem sinceEvicted_evict (key : SeriesKey) (now ttlSecs : Nat) (history : History) :
    sinceEvicted key (.evictStale now ttlSecs :: history) =
      if takes now ttlSecs history key then [] else sinceEvicted key history := by
  rw [sinceEvicted]
  rw [takes, lastRecorded]
  cases sinceEvicted key history with
  | nil => rfl
  | cons last rest => rfl

theorem lastRecorded_evict (key : SeriesKey) (now ttlSecs : Nat) (history : History) :
    lastRecorded key (.evictStale now ttlSecs :: history) =
      (lastRecorded key history).filter fun seen =>
        !sweepTakes now ttlSecs seen (scheduled (key.ns, key.pod) history) := by
  unfold lastRecorded
  rw [sinceEvicted]
  cases sinceEvicted key history with
  | nil => rfl
  | cons last rest =>
      simp only [List.head?_cons, Option.map_some, Option.filter_some]
      by_cases taken : sweepTakes now ttlSecs last.timestamp
          (scheduled (key.ns, key.pod) history) = true <;> simp [taken]

theorem sinceEvicted_eq_nil_iff (key : SeriesKey) (history : History) :
    sinceEvicted key history = [] ↔ lastRecorded key history = none := by
  simp [lastRecorded]

theorem recorded_of_mem_sinceEvicted {key : SeriesKey} {history : History}
    {event : EnrichedOomEvent} (member : event ∈ sinceEvicted key history) :
    event ∈ recorded history ∧ SeriesKey.ofEvent event = key := by
  induction history with
  | nil => cases member
  | cons operation earlier induction =>
      cases operation with
      | recordOomEvent latest =>
          rw [sinceEvicted_record] at member
          split at member
          · next own =>
              rcases List.mem_cons.mp member with rfl | older
              · exact ⟨List.mem_cons_self, own.symm⟩
              · have known := induction older
                exact ⟨List.mem_cons_of_mem _ known.1, known.2⟩
          · have known := induction member
            exact ⟨List.mem_cons_of_mem _ known.1, known.2⟩
      | notePodDeleted ns pod now => exact induction member
      | evictStale now ttlSecs =>
          rw [sinceEvicted_evict] at member
          split at member
          · cases member
          · exact induction member

def duePods (collector : MetricsCollector Vec) (now : Nat) : List (String × String) :=
  (drainDue collector.deletedAfter now).1

def staleKeys (collector : MetricsCollector Vec) (now ttlSecs : Nat) : List SeriesKey :=
  (splitStale collector.lastSeen now ttlSecs (duePods collector now)).1

section

variable {history : History} {collector : MetricsCollector Vec}

theorem Reflects.isStale (reflects : Reflects history collector) (now ttlSecs : Nat)
    (key : SeriesKey) (seen : Nat) :
    isStale now ttlSecs (duePods collector now) key seen =
      sweepTakes now ttlSecs seen (scheduled (key.ns, key.pod) history) := by
  have podGone : ((duePods collector now).any fun due =>
      key.ns == due.1 && key.pod == due.2) =
      (scheduled (key.ns, key.pod) history).any fun due => !decide (now < due) := by
    rw [Bool.eq_iff_iff, List.any_eq_true, Option.any_eq_true]
    constructor
    · intro isDue
      rcases isDue with ⟨⟨ns, pod⟩, member, matched⟩
      rcases (mem_drainDue _ _ _).mp member with ⟨due, found, isDue⟩
      simp only [Bool.and_eq_true, beq_iff_eq] at matched
      rw [← matched.1, ← matched.2, reflects.deletedAfter] at found
      exact ⟨due, found, by simpa using isDue⟩
    · intro scheduled
      rcases scheduled with ⟨due, found, isDue⟩
      refine ⟨(key.ns, key.pod), (mem_drainDue _ _ _).mpr ⟨due, ?_, ?_⟩, by simp⟩
      · exact (reflects.deletedAfter _).trans found
      · simpa using isDue
  rw [OomWatcher.isStale, sweepTakes]
  exact congrArg (decide (now - seen ≥ ttlSecs) || ·) podGone

theorem Reflects.mem_staleKeys (reflects : Reflects history collector)
    (now ttlSecs : Nat) (key : SeriesKey) :
    key ∈ staleKeys collector now ttlSecs ↔ takes now ttlSecs history key = true := by
  rw [staleKeys, takes, mem_splitStale, Option.any_eq_true]
  simp only [reflects.lastSeen, reflects.isStale]

theorem Reflects.lastSeen_evict (reflects : Reflects history collector)
    (now ttlSecs : Nat) (key : SeriesKey) :
    (collector.evictStale now ttlSecs).1.lastSeen.lookup key =
      lastRecorded key (.evictStale now ttlSecs :: history) := by
  rw [lastRecorded_evict, ← reflects.lastSeen]
  simp only [← reflects.isStale now ttlSecs key]
  exact lookup_splitStale _ _ _ _ _

/-- The orphan test finds exactly the containers that no tracked restart
covers after the sweep. -/
theorem Reflects.memoryOrphaned (reflects : Reflects history collector)
    (now ttlSecs : Nat) (key : SeriesKey) :
    memoryOrphaned (collector.evictStale now ttlSecs).1.lastSeen key = true ↔
      ¬Covered key (.evictStale now ttlSecs :: history) := by
  rw [OomWatcher.memoryOrphaned, Covered]
  rw [Bool.not_eq_true', ← Bool.not_eq_true, not_iff_not, List.any_eq_true]
  apply exists_congr
  intro live
  rw [Dictionary.mem_keys_iff_lookup, reflects.lastSeen_evict, Ne,
    sinceEvicted_eq_nil_iff, ← Ne, Option.ne_none_iff_exists']

theorem sample_evict (now ttlSecs : Nat) (family : Family) (labels : List String)
    (notEvicted : family ≠ .oomSeriesEvictedTotal) :
    sample (collector.evictStale now ttlSecs).1.vecs family labels =
      if ∃ key ∈ staleKeys collector now ttlSecs, .remove family labels ∈
          removalInstructions key
            (memoryOrphaned (collector.evictStale now ttlSecs).1.lastSeen key)
      then none else sample collector.vecs family labels :=
  sample_removals _ _ _ _ _ notEvicted

theorem sample_evict_perContainer (reflects : Reflects history collector)
    (now ttlSecs : Nat) (key : SeriesKey) {family : Family}
    (perContainer : family = .oomKillsTotal ∨ family = .oomLastTimestamp) :
    sample (collector.evictStale now ttlSecs).1.vecs family key.labels =
      if takes now ttlSecs history key then none else sample collector.vecs family key.labels := by
  have notEvicted : family ≠ .oomSeriesEvictedTotal := by
    rcases perContainer with rfl | rfl <;> decide
  rw [sample_evict _ _ _ _ notEvicted]
  simp only [remove_perContainer_mem _ _ _ perContainer, SeriesKey.labels_inj,
    exists_eq_right', reflects.mem_staleKeys]

theorem covered_congr {left right : SeriesKey}
    (shared : left.sharesMemorySeriesWith right = true) :
    Covered left history ↔ Covered right history := by
  rw [Covered]
  apply exists_congr
  intro live
  apply and_congr_right
  intro _
  exact ⟨fun inLeft => SeriesKey.shares_trans inLeft shared,
    fun inRight => SeriesKey.shares_trans inRight (SeriesKey.shares_symm shared)⟩

theorem covered_of_covered_evict {key : SeriesKey} {now ttlSecs : Nat}
    (covered : Covered key (.evictStale now ttlSecs :: history)) :
    Covered key history := by
  rcases covered with ⟨live, tracked, shared⟩
  refine ⟨live, ?_, shared⟩
  rw [sinceEvicted_evict] at tracked
  split at tracked
  · exact absurd rfl tracked
  · exact tracked

theorem Reflects.evictStale (reflects : Reflects history collector)
    (now ttlSecs : Nat) :
    Reflects (.evictStale now ttlSecs :: history)
      (collector.evictStale now ttlSecs).1 where
  lastSeen := reflects.lastSeen_evict now ttlSecs
  deletedAfter pod := by
    rw [scheduled, ← reflects.deletedAfter]
    exact lookup_drainDue _ _ _
  kills key := by
    rw [sample_evict_perContainer reflects _ _ _ (.inl rfl), reflects.kills,
      sinceEvicted_evict]
    split <;> rfl
  lastTimestamp key := by
    rw [sample_evict_perContainer reflects _ _ _ (.inr rfl), reflects.lastTimestamp]
    unfold lastRecorded
    rw [sinceEvicted_evict]
    split <;> rfl
  memoryCovered key memoryType covered := by
    rw [sample_evict _ _ _ _ (by decide), sinceUncovered, if_pos covered, if_neg]
    · exact reflects.memoryCovered key memoryType (covered_of_covered_evict covered)
    · intro removal
      rcases removal with ⟨taken, _, removed⟩
      rcases (remove_memory_mem _ _ _ _).mp removed with ⟨orphaned, shared⟩
      rw [reflects.memoryOrphaned, covered_congr shared] at orphaned
      exact orphaned covered
  memoryUncovered key memoryType uncovered := by
    rw [sample_evict _ _ _ _ (by decide)]
    split
    · rfl
    · next notRemoved =>
        apply reflects.memoryUncovered
        intro covered
        rcases covered with ⟨live, tracked, shared⟩
        apply notRemoved
        refine ⟨live, ?_, (remove_memory_mem _ _ _ _).mpr ⟨?_, shared⟩⟩
        · rw [reflects.mem_staleKeys]
          by_contra kept
          apply uncovered
          refine ⟨live, ?_, shared⟩
          rwa [sinceEvicted_evict, if_neg kept]
        · rw [reflects.memoryOrphaned, covered_congr shared]
          exact uncovered
  perNode node := by
    rw [sample_evict _ _ _ _ (by decide), if_neg]
    · exact reflects.perNode node
    · intro removal
      rcases removal with ⟨taken, _, removed⟩
      cases orphaned : OomWatcher.memoryOrphaned
        (collector.evictStale now ttlSecs).1.lastSeen taken <;>
        simp [removalInstructions, orphaned] at removed

end

/-- Every collector a history leads to shows what the history says. -/
theorem Executes.reflects {history : History} {collector : MetricsCollector Vec}
    (executes : Executes history collector) : Reflects history collector := by
  induction executes with
  | start => exact reflects_new
  | call operation _ reordered induction =>
      have before := induction.reordered reordered
      cases operation with
      | recordOomEvent event => exact before.recordOomEvent event
      | notePodDeleted ns pod now => exact before.notePodDeleted ns pod now
      | evictStale now ttlSecs => exact before.evictStale now ttlSecs

end OomWatcher
