import OomWatcher.Watch.Firings

/-! # What the registry holds

Nothing but the sweeper makes the registry smaller. What it holds at any moment is
bounded by the node's own counters and by the containers that were killed lately. -/

namespace OomWatcher

variable {Vec : Type} [MetricVec Vec (List String)]

/-! ## What an operation can add to an export -/

theorem exported_executeAll {instructions : List Instruction} {vecs : Family → Vec}
    {series : Family × List String} (shown : Exported (executeAll vecs instructions) series) :
    Exported vecs series ∨ ∃ write, .write series.1 series.2 write ∈ instructions := by
  induction instructions generalizing vecs with
  | nil => exact .inl shown
  | cons instruction rest induction =>
      rcases induction shown with before | ⟨write, member⟩
      · cases instruction with
        | write family labels write =>
            by_cases own : series.1 = family ∧ series.2 = labels
            · right
              rw [own.1, own.2]
              exact ⟨write, List.mem_cons_self⟩
            · left
              rw [Exported] at before ⊢
              rwa [sample_write, if_neg own] at before
        | remove family labels =>
            left
            rw [Exported] at before ⊢
            rw [sample_remove] at before
            split at before
            · exact absurd rfl before
            · exact before
      · exact .inr ⟨write, List.mem_cons_of_mem _ member⟩

def nodeSeries (node : String) : List (Family × List String) :=
  [(.oomKillsPerNodeTotal, [node]), (.oomResolutionFailuresTotal, [node, "not_found"]),
    (.oomResolutionFailuresTotal, [node, "error"]), (.oomEventsDroppedTotal, [node]),
    (.oomSeriesEvictedTotal, [node])]

theorem mem_of_record {event : EnrichedOomEvent} {series : Family × List String} {write : Write}
    (member : .write series.1 series.2 write ∈ recordInstructions event) :
    series ∈ nodeSeries (SeriesKey.ofEvent event).node ∨
      series ∈ (SeriesKey.ofEvent event).series := by
  by_cases perContainer : series.1.perContainer = true
  · exact .inr (mem_series_of_record member perContainer)
  · left
    rcases series with ⟨family, labels⟩
    cases family with
    | oomKillsPerNodeTotal =>
        simp [recordInstructions, zip_memoryValues] at member
        simp [nodeSeries, member.1]
    | oomKillsTotal | oomLastTimestamp | oomMemoryUsageBytes => exact absurd rfl perContainer
    | oomResolutionFailuresTotal | oomEventsDroppedTotal | oomSeriesEvictedTotal =>
        simp [recordInstructions, zip_memoryValues] at member

theorem mem_of_removal {key : SeriesKey} {orphaned : Bool} {series : Family × List String}
    {write : Write} (member : .write series.1 series.2 write ∈ removalInstructions key orphaned) :
    series ∈ nodeSeries key.node := by
  rcases series with ⟨family, labels⟩
  have evicted : family = .oomSeriesEvictedTotal ∧ labels = [key.node] := by
    cases orphaned <;> simp [removalInstructions] at member <;> exact ⟨member.1, member.2.1⟩
  rcases evicted with ⟨rfl, rfl⟩
  simp [nodeSeries]

/-! ## The collector of a node -/

structure MetricsCollector.OfNode (node : String) (collector : MetricsCollector Vec) : Prop where
  tracked : ∀ key seen, collector.lastSeen.lookup key = some seen → key.node = node
  shown : ∀ series, Exported collector.vecs series →
    series ∈ nodeSeries node ∨ ∃ key : SeriesKey, series ∈ key.series

namespace MetricsCollector.OfNode

variable {node : String} {collector : MetricsCollector Vec}

theorem new (node : String) : OfNode node (.new : MetricsCollector Vec) where
  tracked _ _ found := nomatch found
  shown _ shown := absurd (MetricVec.exported_empty _) shown

theorem recordOomEvent (ofNode : OfNode node collector) {event : EnrichedOomEvent}
    (onNode : event.nodeName = some node) : OfNode node (collector.recordOomEvent event) := by
  have own : (SeriesKey.ofEvent event).node = node := by
    rw [SeriesKey.ofEvent, onNode]
    rfl
  constructor
  · intro key seen found
    rw [MetricsCollector.recordOomEvent, Dictionary.lookup_insert_eq] at found
    split at found
    · next same => exact same ▸ own
    · exact ofNode.tracked key seen found
  · intro series shown
    rcases exported_executeAll shown with before | ⟨write, member⟩
    · exact ofNode.shown series before
    · exact own ▸ (mem_of_record member).imp_right fun isOwn => ⟨_, isOwn⟩

theorem recordResolutionOutcome (ofNode : OfNode node collector) (outcome : ResolutionOutcome) :
    OfNode node (collector.recordResolutionOutcome node outcome) := by
  have counts : ∀ reason,
      (Family.oomResolutionFailuresTotal, [node, reason]) ∈ nodeSeries node →
        OfNode node { collector with
          vecs := executeAll collector.vecs
            [.write .oomResolutionFailuresTotal [node, reason] .inc] } := by
    intro reason isNode
    refine ⟨ofNode.tracked, fun series shown => ?_⟩
    rcases exported_executeAll shown with before | ⟨write, member⟩
    · exact ofNode.shown series before
    · left
      rcases series with ⟨family, labels⟩
      cases List.mem_singleton.mp member
      exact isNode
  cases outcome with
  | found identity => exact ofNode
  | notFound => exact counts "not_found" (by simp [nodeSeries])
  | failed error => exact counts "error" (by simp [nodeSeries])

theorem recordDroppedTotal (ofNode : OfNode node collector) (total : Nat) :
    OfNode node (collector.recordDroppedTotal node total) := by
  rw [MetricsCollector.recordDroppedTotal]
  split
  · exact ⟨ofNode.tracked, ofNode.shown⟩
  · next delta grown =>
      split
      · refine ⟨ofNode.tracked, fun series shown => ?_⟩
        have shown : Exported (executeAll collector.vecs
            [.write .oomEventsDroppedTotal [node] (.incBy delta)]) series := shown
        rcases exported_executeAll shown with before | ⟨write, member⟩
        · exact ofNode.shown series before
        · left
          rcases series with ⟨family, labels⟩
          cases List.mem_singleton.mp member
          simp [nodeSeries]
      · exact ⟨ofNode.tracked, ofNode.shown⟩

theorem evictStale (ofNode : OfNode node collector) (now ttlSecs : Nat) :
    OfNode node (collector.evictStale now ttlSecs).1 := by
  constructor
  · intro key seen found
    have found : (splitStale collector.lastSeen now ttlSecs
        (drainDue collector.deletedAfter now).1).2.lookup key = some seen := found
    rw [lookup_splitStale] at found
    exact ofNode.tracked key seen (Option.filter_eq_some_iff.mp found).1
  · intro series shown
    rcases exported_executeAll shown with before | ⟨write, member⟩
    · exact ofNode.shown series before
    · rcases List.mem_flatMap.mp member with ⟨key, stale, removal⟩
      rcases (mem_splitStale _ _ _ _ _).mp stale with ⟨seen, found, _⟩
      exact .inl (ofNode.tracked key seen found ▸ mem_of_removal removal)

theorem processEvent (ofNode : OfNode node collector) (rawEvent : OomKillEvent)
    (outcome : ResolutionOutcome) (timestamp : Nat) :
    OfNode node (processEvent collector (some node) rawEvent outcome timestamp) :=
  (ofNode.recordResolutionOutcome outcome).recordOomEvent rfl

end MetricsCollector.OfNode

/-! ## How much is recent -/

def recentKeys (clock span : Nat) (history : History) : List SeriesKey :=
  ((recentEvents clock span history).map SeriesKey.ofEvent).dedup

def deletedWithin (clock span : Nat) (history : History) : List (String × String) :=
  (((noted history).filter fun (_, deletedAt) => clock ≤ deletedAt + span).map Prod.fst).dedup

def containersOf (keys : List SeriesKey) : List (List String) :=
  (keys.map SeriesKey.memoryPrefix).dedup

def seriesOf (keys : List SeriesKey) : List (Family × List String) :=
  keys.map (fun key => (.oomKillsTotal, key.labels)) ++
    (keys.map (fun key => (.oomLastTimestamp, key.labels)) ++
      (memorySeries (containersOf keys)).map fun labels => (.oomMemoryUsageBytes, labels))

theorem mem_seriesOf {keys : List SeriesKey} {key : SeriesKey} (member : key ∈ keys)
    {series : Family × List String} (own : series ∈ key.series) : series ∈ seriesOf keys := by
  rcases series with ⟨family, labels⟩
  rw [seriesOf, List.mem_append, List.mem_append]
  cases family with
  | oomKillsTotal =>
      left
      rw [SeriesKey.mem_series_kills.mp own]
      exact List.mem_map_of_mem member
  | oomLastTimestamp =>
      right
      left
      rw [SeriesKey.mem_series_lastTimestamp.mp own]
      exact List.mem_map_of_mem member
  | oomMemoryUsageBytes =>
      right
      right
      exact List.mem_map_of_mem (mem_memorySeries.mpr ⟨key, member, own⟩)
  | oomKillsPerNodeTotal | oomResolutionFailuresTotal | oomEventsDroppedTotal
  | oomSeriesEvictedTotal => simp [SeriesKey.series] at own

theorem length_seriesOf (keys : List SeriesKey) :
    (seriesOf keys).length = 2 * keys.length + 4 * (containersOf keys).length := by
  simp only [seriesOf, List.length_append, List.length_map, memorySeries_length]
  omega

theorem encard_le_of_listed {Element : Type} {set : Set Element} {listed : List Element}
    (all : ∀ element ∈ set, element ∈ listed) : set.encard ≤ listed.length := by
  classical
  have within : set ⊆ listed.toFinset := fun element member =>
    List.mem_toFinset.mpr (all element member)
  refine (Set.encard_le_encard within).trans ?_
  rw [Set.encard_coe_eq_coe_finsetCard]
  exact_mod_cast listed.toFinset_card_le

namespace Process.Sound

variable {settings : Settings} {latency started : Nat} {state : Process Vec}

theorem mem_recentKeys (sound : Sound settings latency started state) {key : SeriesKey}
    {seen : Nat} (latest : lastRecorded key state.watcher.history = some seen) :
    key ∈ recentKeys state.clock (settings.seriesTtl + settings.sweepInterval + latency)
      state.watcher.history := by
  have soon := sound.onTime.tracked key seen latest
  have notLate := sound.notLate
  rcases exists_of_lastRecorded latest with ⟨event, member, own, isSeen⟩
  have recent : event ∈ recentEvents state.clock
      (settings.seriesTtl + settings.sweepInterval + latency) state.watcher.history :=
    List.mem_filter.mpr ⟨mem_recorded member, decide_eq_true (by omega)⟩
  exact List.mem_dedup.mpr (List.mem_map.mpr ⟨event, recent, own⟩)

theorem mem_deletedWithin (sound : Sound settings latency started state) {pod : String × String}
    {due : Nat} (pending : scheduled pod state.watcher.history = some due) :
    pod ∈ deletedWithin state.clock (deletedPodGraceSeconds + settings.sweepInterval + latency)
      state.watcher.history := by
  have soon := sound.onTime.pending pod due pending
  have notLate := sound.notLate
  rcases noted_of_scheduled pending with ⟨deletedAt, member, isDue⟩
  have atMost : saturatingAdd deletedAt deletedPodGraceSeconds ≤
      deletedAt + deletedPodGraceSeconds := Nat.min_le_left _ _
  have recent : state.clock ≤
      deletedAt + (deletedPodGraceSeconds + settings.sweepInterval + latency) := by omega
  exact List.mem_dedup.mpr (List.mem_map.mpr ⟨(pod, deletedAt),
    List.mem_filter.mpr ⟨member, decide_eq_true recent⟩, rfl⟩)

end Process.Sound

/-! ## Runs of the daemon -/

theorem Watcher.Transition.ofNode {node : String} {state next : Watcher Vec}
    {action : Watcher.Action} (transition : Watcher.Transition node state action next)
    (ofNode : state.collector.OfNode node) : next.collector.OfNode node := by
  cases transition with
  | observes clock quiet => exact ofNode
  | notesDeletion clock deleted => exact ⟨ofNode.tracked, ofNode.shown⟩
  | rehashes reordered => exact ofNode
  | processes rawEvent read timestamp => exact ofNode.processEvent rawEvent _ timestamp
  | sweeps now ttlSecs => exact ofNode.evictStale now ttlSecs

theorem Process.Transition.ofNode {settings : Settings} {latency : Nat} {node : String}
    {state next : Process Vec} {action : Process.Action}
    (transition : Process.Transition settings latency node state action next)
    (ofNode : state.watcher.collector.OfNode node) : next.watcher.collector.OfNode node := by
  cases transition with
  | passes inTime fits => exact ofNode
  | begins isWaiting released => exact ofNode
  | observes observed => exact observed.ofNode ofNode
  | rehashes rehashed => exact rehashed.ofNode ofNode
  | processes draining processed => exact processed.ofNode ofNode
  | sweeps due swept => exact swept.ofNode ofNode

theorem WatchLoop.Transition.ofNode {node : String} {state next : WatchLoop Vec}
    {action : WatchLoop.Action} (transition : WatchLoop.Transition (some node) state action next)
    (ofNode : state.collector.OfNode node) : next.collector.OfNode node := by
  cases transition with
  | processes inHand => exact ofNode.processEvent _ _ _
  | reports reporting => exact ofNode.recordDroppedTotal _
  | fires online | delivers inFlight | calls waiting away | continues waiting continued
  | ticks waiting idle | reads reading found | readsAll reading all | beats beating =>
      exact ofNode

namespace Daemon

variable {settings : Settings} {latency started cpus : Nat} {node : String}
  {state next : Daemon Vec} {action : Action}

structure Bounded (settings : Settings) (latency started : Nat) (node : String)
    (state : Daemon Vec) : Prop where
  sound : Process.Sound settings latency started state.process
  ofNode : state.process.watcher.collector.OfNode node

theorem bounded_start (settings : Settings) (latency cpus : Nat) (node : String)
    (fits : started ≤ u64Max) :
    Bounded settings latency started node (start settings started cpus : Daemon Vec) where
  sound := Process.sound_start settings latency fits
  ofNode := .new node

theorem Bounded.step (bounded : Bounded settings latency started node state)
    (transition : Transition settings latency node state action next) :
    Bounded settings latency started node next := by
  cases transition with
  | @loops action loop permitted taken =>
      have notProcess : ∀ outcome timestamp, action ≠ .process outcome timestamp := by
        rintro outcome timestamp rfl
        cases permitted
      have loopTransition := WatchLoop.transition_of_step taken
      have sound := bounded.sound
      constructor
      · rw [process_keepTime]
        exact { sound with reflects := loopTransition.reflects notProcess sound.reflects }
      · rw [process_keepTime]
        exact loopTransition.ofNode bounded.ofNode
  | serves inTime taken =>
      constructor
      · rw [process_markStarted]
        exact bounded.sound.step taken
      · rw [process_markStarted]
        exact taken.ofNode bounded.ofNode
  | processes inHand taken => exact ⟨bounded.sound.step taken, taken.ofNode bounded.ofNode⟩

theorem bounded_of_run {actions : List Action} (fits : started ≤ u64Max)
    (ran : (machine settings latency node).run (start settings started cpus) actions =
      some state) : Bounded settings latency started node state :=
  Machine.invariant_of_any_run (fun bounded stepped => bounded.step (transition_of_step stepped))
    (bounded_start settings latency cpus node fits) ran

/-- At any moment of any run, the registry holds five counters of the node at most,
and series of containers that were killed within the TTL, a sweep interval and the
latency: two for each restart of one, and four for each container. The bookkeeping
has no more entries than restarts killed that lately, and pods deleted within the
grace, an interval and the latency. -/
theorem registry_bounded {actions : List Action} (fits : started ≤ u64Max)
    (ran : (machine settings latency node).run (start settings started cpus) actions =
      some state) :
    let collector := state.process.watcher.collector
    let keys := recentKeys state.process.clock
      (settings.seriesTtl + settings.sweepInterval + latency) state.history
    (∀ series, Exported collector.vecs series →
        series ∈ nodeSeries node ∨ ∃ key ∈ keys, series ∈ key.series) ∧
      Set.encard {series | Exported collector.vecs series} ≤
        (5 + 2 * keys.length + 4 * (containersOf keys).length : Nat) ∧
      collector.lastSeen.keys.length ≤ keys.length ∧
      collector.deletedAfter.keys.length ≤
        (deletedWithin state.process.clock
          (deletedPodGraceSeconds + settings.sweepInterval + latency) state.history).length := by
  intro collector keys
  have bounded : Bounded settings latency started node state := bounded_of_run fits ran
  have reflects : Reflects state.history collector := bounded.sound.reflects
  have shown : ∀ series, Exported collector.vecs series →
      series ∈ nodeSeries node ∨ ∃ key ∈ keys, series ∈ key.series := by
    intro series isShown
    rcases bounded.ofNode.shown series isShown with isNode | ⟨key, own⟩
    · exact .inl isNode
    · rcases (reflects.exported_iff own).mp isShown with ⟨live, seen, latest, isLive⟩
      exact .inr ⟨live, bounded.sound.mem_recentKeys latest, isLive⟩
  refine ⟨shown, ?_, ?_, ?_⟩
  · have listed : ∀ series ∈ {series | Exported collector.vecs series},
        series ∈ nodeSeries node ++ seriesOf keys := by
      intro series isShown
      rcases shown series isShown with isNode | ⟨key, member, own⟩
      · exact List.mem_append_left _ isNode
      · exact List.mem_append_right _ (mem_seriesOf member own)
    have counted : (nodeSeries node ++ seriesOf keys).length =
        5 + 2 * keys.length + 4 * (containersOf keys).length := by
      rw [List.length_append, length_seriesOf, ← Nat.add_assoc]
      rfl
    rw [← counted]
    exact encard_le_of_listed listed
  · have tracked : collector.lastSeen.keys ⊆ keys := by
      intro key member
      rcases (Dictionary.mem_keys_iff_lookup _ _).mp member with ⟨seen, found⟩
      rw [reflects.lastSeen] at found
      exact bounded.sound.mem_recentKeys found
    exact (List.subperm_of_subset collector.lastSeen.keys_nodup tracked).length_le
  · have pending : collector.deletedAfter.keys ⊆ deletedWithin state.process.clock
        (deletedPodGraceSeconds + settings.sweepInterval + latency) state.history := by
      intro pod member
      rcases (Dictionary.mem_keys_iff_lookup _ _).mp member with ⟨due, found⟩
      rw [reflects.deletedAfter] at found
      exact bounded.sound.mem_deletedWithin found
    exact (List.subperm_of_subset collector.deletedAfter.keys_nodup pending).length_le

/-- After one kill, of a process that was gone before its cgroup was read. -/
theorem registry_bounded_one_kill :
    ∃ state : Daemon LabelVec,
      (machine (Settings.ofEnv fun _ => none) 5 "node-1").run
          (start (Settings.ofEnv fun _ => none) 0 1)
          ([.task (.observe (.ok .init)), .task (.observe (.ok .initDone)), .task .beginDraining,
            .loop (.fire 0 (Polled.recordOf 1).event), .loop .deliver] ++
            List.replicate 9 (.loop .poll) ++ [.process (.error .notFound)]) = some state ∧
        Set.encard {series | Exported state.process.watcher.collector.vecs series} ≤ 11 ∧
          state.process.watcher.collector.lastSeen.keys.length ≤ 1 ∧
          state.process.watcher.collector.deletedAfter.keys.length ≤ 0 := by
  apply Machine.exists_run_of_decided fun state : Daemon LabelVec =>
    let keys := recentKeys state.process.clock (1800 + 300 + 5) state.history
    (keys.length, (containersOf keys).length,
      (deletedWithin state.process.clock (120 + 300 + 5) state.history).length) = (1, 1, 0)
  · intro state ran equal
    simp only [Prod.mk.injEq] at equal
    rcases equal with ⟨oneKey, oneContainer, noneDeleted⟩
    rcases registry_bounded (Nat.zero_le _) ran with ⟨_, series, tracked, pending⟩
    refine ⟨?_, tracked.trans oneKey.le, pending.trans noneDeleted.le⟩
    have count : 5 + 2 * (recentKeys state.process.clock (1800 + 300 + 5) state.history).length +
        4 * (containersOf (recentKeys state.process.clock (1800 + 300 + 5)
          state.history)).length = 11 := by
      rw [oneKey, oneContainer]
    exact series.trans_eq (congrArg Nat.cast count)
  · decide

end Daemon

end OomWatcher
