import OomWatcher.Foundation.Text
import OomWatcher.Metrics.Cardinality
import OomWatcher.Metrics.Task
import OomWatcher.Watch.Attribution

/-! # The process

What `main` starts in a cluster, on one wall clock: the stream of pods, the watch
loop once it has waited for the list of pods, and the sweeper on the ticks of its
interval. The runtime may be late for a tick, but by no more than its latency.

The calls of the collector are taken one at a time here. A sweep is one step, and a
kill is resolved, stamped and recorded in one, where `main` reads the clock before
it resolves. In the program a recording and a sweep exclude each other only at the
locks of the collector: `SharedCollector` has their instructions, and says what
calls that overlap come to. -/

namespace OomWatcher

variable {Vec : Type} [MetricVec Vec (List String)]

/-! ## Settings -/

def envSeconds (raw : Option String) (default : Nat) : Nat :=
  max ((raw.bind fun text => Text.parseUnsigned u64Modulus text.toList).getD default) 1

def defaultSeriesTtlSeconds : Nat := 1800

def defaultSeriesSweepIntervalSeconds : Nat := 300

def cacheSyncTimeout : Nat := 10

/-- A zero interval would panic, and a zero TTL evict before any scrape. -/
structure Settings where
  seriesTtl : Nat
  sweepInterval : Nat
  ttlPositive : 0 < seriesTtl
  intervalPositive : 0 < sweepInterval

def Settings.ofEnv (env : String → Option String) : Settings where
  seriesTtl := envSeconds (env "SERIES_TTL_SECONDS") defaultSeriesTtlSeconds
  sweepInterval :=
    envSeconds (env "SERIES_SWEEP_INTERVAL_SECONDS") defaultSeriesSweepIntervalSeconds
  ttlPositive := Nat.le_max_right _ _
  intervalPositive := Nat.le_max_right _ _

/-! ## Tasks -/

/-- Where `event_processor` stands: waiting for the pod cache until the deadline,
or past it. -/
inductive EventProcessor
  | waiting (deadline : Nat)
  | draining
deriving DecidableEq

/-- The process once `main` has come to its `select!`. -/
structure Process (Vec : Type) where
  watcher : Watcher Vec
  clock : Nat
  eventProcessor : EventProcessor
  /-- When the interval of `series_sweeper` ticks next. -/
  nextTick : Nat

namespace Process

def start (settings : Settings) (clock : Nat) : Process Vec where
  watcher := .start
  clock := clock
  eventProcessor := .waiting (clock + cacheSyncTimeout)
  nextTick := clock + settings.sweepInterval

inductive Action
  | pass (seconds : Nat)
  | observe (item : WatchItem)
  /-- The store of the pod cache iterates in another order from here on. -/
  | rehash (store : KeyedStore Pod.objectRef)
  /-- `wait_until_synced` returns. -/
  | beginDraining
  | process (rawEvent : OomKillEvent) (read : Except ErrorKind String)
  | sweep

def serve (node : String) (state : Process Vec) (action : Watcher.Action) :
    Option (Process Vec) :=
  (state.watcher.step node action).map fun watcher => { state with watcher := watcher }

/-- Each call of the collector is whole: none begins while another is under way. -/
def step (settings : Settings) (latency : Nat) (node : String) (state : Process Vec) :
    Action → Option (Process Vec)
  | .pass seconds =>
      if state.clock + seconds ≤ state.nextTick + latency ∧ state.clock + seconds ≤ u64Max then
        some { state with clock := state.clock + seconds }
      else none
  | .observe item => state.serve node (.observe item state.clock)
  | .rehash store => state.serve node (.rehash store)
  | .beginDraining =>
      match state.eventProcessor with
      | .waiting deadline =>
          if state.watcher.cache.latch ≠ .waiting ∨ deadline ≤ state.clock then
            some { state with eventProcessor := .draining }
          else none
      | .draining => none
  | .process rawEvent read =>
      match state.eventProcessor with
      | .waiting _ => none
      | .draining => state.serve node (.process rawEvent read state.clock)
  | .sweep =>
      -- a missed tick bursts: the next one is due an interval after it was
      if state.nextTick ≤ state.clock then
        (state.serve node (.sweep state.clock settings.seriesTtl)).map fun swept =>
          { swept with nextTick := state.nextTick + settings.sweepInterval }
      else none

def machine (settings : Settings) (latency : Nat) (node : String) :
    Machine (Process Vec) Action where
  step := step settings latency node

end Process

/-! ## What is exported -/

theorem Reflects.exported_iff {history : History} {collector : MetricsCollector Vec}
    (reflects : Reflects history collector) {key : SeriesKey} {series : Family × List String}
    (own : series ∈ key.series) :
    Exported collector.vecs series ↔
      ∃ live seen, lastRecorded live history = some seen ∧ series ∈ live.series := by
  have tracked : ∀ live, sinceEvicted live history ≠ [] ↔
      ∃ seen, lastRecorded live history = some seen := by
    intro live
    rw [Ne, sinceEvicted_eq_nil_iff, ← Ne, Option.ne_none_iff_exists']
  rcases series with ⟨family, labels⟩
  cases family with
  | oomKillsTotal =>
      have isKey := SeriesKey.mem_series_kills.mp own
      subst isKey
      simp only [Exported, reflects.kills, SeriesKey.mem_series_kills, SeriesKey.labels_inj]
      rw [ite_ne_left_iff]
      simp only [ne_eq, reduceCtorEq, not_false_eq_true, and_true]
      rw [← Ne, tracked]
      simp
  | oomLastTimestamp =>
      have isKey := SeriesKey.mem_series_lastTimestamp.mp own
      subst isKey
      simp only [Exported, reflects.lastTimestamp, SeriesKey.mem_series_lastTimestamp,
        SeriesKey.labels_inj]
      rw [Option.ne_none_iff_exists']
      simp
  | oomMemoryUsageBytes =>
      rcases SeriesKey.mem_series_memory.mp own with ⟨memoryType, rfl⟩
      by_cases covered : Covered key history
      · simp only [Exported, reflects.memoryCovered key memoryType covered]
        rcases covered with ⟨live, since, shared⟩
        rcases (tracked live).mp since with ⟨seen, latest⟩
        refine iff_of_true nofun ⟨live, seen, latest, ?_⟩
        exact SeriesKey.mem_series_of_shares shared own
      · simp only [Exported, reflects.memoryUncovered key memoryType covered]
        refine iff_of_false (absurd rfl) ?_
        intro ⟨live, seen, latest, shared⟩
        rcases SeriesKey.mem_series_memory.mp shared with ⟨written, equal⟩
        have shares := (SeriesKey.memoryLabels_eq_iff.mp equal).1
        exact covered ⟨live, (tracked live).mpr ⟨seen, latest⟩, shares⟩
  | oomKillsPerNodeTotal | oomResolutionFailuresTotal | oomEventsDroppedTotal
  | oomSeriesEvictedTotal => simp [SeriesKey.series] at own

/-! ## What a tick finds

The history as the sweeper's ticks go over it. -/

def NeverDeleted (pod : String × String) (history : History) : Prop :=
  ∀ deletedAt, (pod, deletedAt) ∉ noted history

theorem scheduled_of_neverDeleted {pod : String × String} {history : History}
    (never : NeverDeleted pod history) : scheduled pod history = none := by
  cases pending : scheduled pod history with
  | none => rfl
  | some due =>
      rcases noted_of_scheduled pending with ⟨deletedAt, member, _⟩
      exact absurd member (never deletedAt)

/-- Up to the clock, what is tracked or scheduled is not overdue at the next
tick, and what is young and has not been deleted is tracked. -/
structure OnTime (settings : Settings) (clock nextTick : Nat) (history : History) : Prop where
  near : nextTick ≤ clock + settings.sweepInterval
  past : ∀ event ∈ recorded history, event.timestamp ≤ clock
  tracked : ∀ key seen, lastRecorded key history = some seen →
    nextTick < seen + settings.seriesTtl + settings.sweepInterval
  pending : ∀ pod due, scheduled pod history = some due →
    nextTick ≤ due + settings.sweepInterval
  kept : ∀ event ∈ recorded history,
    NeverDeleted ((SeriesKey.ofEvent event).ns, (SeriesKey.ofEvent event).pod) history →
      clock < event.timestamp + settings.seriesTtl →
        ∃ seen, lastRecorded (SeriesKey.ofEvent event) history = some seen ∧
          event.timestamp ≤ seen

namespace OnTime

variable {settings : Settings} {clock nextTick : Nat} {history : History}

theorem start (settings : Settings) (clock : Nat) :
    OnTime settings clock (clock + settings.sweepInterval) [] where
  near := Nat.le_refl _
  past _ member := nomatch member
  tracked _ _ latest := nomatch latest
  pending _ _ due := nomatch due
  kept _ member := nomatch member

theorem pass (onTime : OnTime settings clock nextTick history) (seconds : Nat) :
    OnTime settings (clock + seconds) nextTick history where
  near := by
    have near := onTime.near
    omega
  past event member := (onTime.past event member).trans (Nat.le_add_right _ _)
  tracked := onTime.tracked
  pending := onTime.pending
  kept event member never young := onTime.kept event member never (by omega)

theorem record (onTime : OnTime settings clock nextTick history) {event : EnrichedOomEvent}
    (now : event.timestamp = clock) :
    OnTime settings clock nextTick (.recordOomEvent event :: history) where
  near := onTime.near
  past other member := by
    rcases List.mem_cons.mp member with rfl | earlier
    · exact now.le
    · exact onTime.past other earlier
  tracked key seen latest := by
    rw [lastRecorded_record] at latest
    split at latest
    · have near := onTime.near
      have positive := settings.ttlPositive
      have isNow := Option.some.inj latest
      omega
    · exact onTime.tracked key seen latest
  pending := onTime.pending
  kept other member never young := by
    rw [lastRecorded_record]
    rcases List.mem_cons.mp member with rfl | earlier
    · exact ⟨other.timestamp, if_pos rfl, Nat.le_refl _⟩
    · split
      · exact ⟨event.timestamp, rfl, (onTime.past other earlier).trans now.ge⟩
      · exact onTime.kept other earlier never young

theorem note (onTime : OnTime settings clock nextTick history) (fits : clock ≤ u64Max)
    (ns pod : String) :
    OnTime settings clock nextTick (.notePodDeleted ns pod clock :: history) where
  near := onTime.near
  past := onTime.past
  tracked := onTime.tracked
  pending other due isDue := by
    rw [scheduled] at isDue
    split at isDue
    · have near := onTime.near
      have notBefore : clock ≤ saturatingAdd clock deletedPodGraceSeconds :=
        Nat.le_min.mpr ⟨Nat.le_add_right _ _, fits⟩
      have atGrace := Option.some.inj isDue
      omega
    · exact onTime.pending other due isDue
  kept event member never young :=
    onTime.kept event member
      (fun deletedAt isNoted => never deletedAt (List.mem_cons_of_mem _ isNoted)) young

theorem sweep (onTime : OnTime settings clock nextTick history) (due : nextTick ≤ clock) :
    OnTime settings clock (nextTick + settings.sweepInterval)
      (.evictStale clock settings.seriesTtl :: history) where
  near := Nat.add_le_add_right due _
  past := onTime.past
  tracked key seen latest := by
    rw [lastRecorded_evict] at latest
    have kept := (Option.filter_eq_some_iff.mp latest).2
    have young : ¬clock - seen ≥ settings.seriesTtl := by
      intro old
      simp [sweepTakes, old] at kept
    have positive := settings.ttlPositive
    omega
  pending pod removableAt isDue := by
    have later := of_decide_eq_true (Option.filter_eq_some_iff.mp isDue).2
    omega
  kept event member never young := by
    rcases onTime.kept event member never young with ⟨seen, latest, notBefore⟩
    have unscheduled := @scheduled_of_neverDeleted _ history never
    have positive := settings.ttlPositive
    have notOld : ¬clock - seen ≥ settings.seriesTtl := by omega
    refine ⟨seen, ?_, notBefore⟩
    rw [lastRecorded_evict, latest, Option.filter_some]
    simp [sweepTakes, notOld, unscheduled]

end OnTime

/-! ## Runs -/

namespace Watcher

inductive Transition (node : String) (state : Watcher Vec) : Action → Watcher Vec → Prop
  | observes {item : WatchItem} (clock : Nat) (quiet : (state.cache.observe item).2 = none) :
      Transition node state (.observe item clock)
        { state with cache := (state.cache.observe item).1 }
  | notesDeletion {item : WatchItem} (clock : Nat) {ns pod : String}
      (deleted : (state.cache.observe item).2 = some (ns, pod)) :
      Transition node state (.observe item clock)
        { cache := (state.cache.observe item).1
          collector := state.collector.notePodDeleted ns pod clock
          history := .notePodDeleted ns pod clock :: state.history }
  | rehashes {store : KeyedStore Pod.objectRef}
      (reordered : store.objects.Reordered state.cache.store.objects) :
      Transition node state (.rehash store)
        { state with cache := { state.cache with store := store } }
  | processes (rawEvent : OomKillEvent) (read : Except ErrorKind String) (timestamp : Nat) :
      Transition node state (.process rawEvent read timestamp)
        { state with
          collector := processEvent state.collector (some node) rawEvent
            (resolve state.cache rawEvent.pid read) timestamp
          history := .recordOomEvent (enrich rawEvent (some node)
            (resolve state.cache rawEvent.pid read).identity timestamp) :: state.history }
  | sweeps (now ttlSecs : Nat) :
      Transition node state (.sweep now ttlSecs)
        { state with
          collector := (state.collector.evictStale now ttlSecs).1
          history := .evictStale now ttlSecs :: state.history }

variable {node : String} {state next : Watcher Vec} {action : Action}

theorem transition_of_step (stepped : state.step node action = some next) :
    Transition node state action next := by
  cases action with
  | observe item clock =>
      have isNext : noteDeletion { state with cache := (state.cache.observe item).1 } clock
          (state.cache.observe item).2 = next := Option.some.inj stepped
      cases deletion : (state.cache.observe item).2 with
      | none =>
          rw [deletion] at isNext
          exact isNext ▸ .observes clock deletion
      | some pod =>
          rw [deletion] at isNext
          exact isNext ▸ .notesDeletion clock deletion
  | rehash store =>
      simp only [step] at stepped
      split at stepped
      · next reordered =>
          cases stepped
          exact .rehashes reordered
      · cases stepped
  | process rawEvent read timestamp =>
      cases stepped
      exact .processes rawEvent read timestamp
  | sweep now ttlSecs =>
      cases stepped
      exact .sweeps now ttlSecs

theorem Transition.reflects (transition : Transition node state action next)
    (reflects : Reflects state.history state.collector) :
    Reflects next.history next.collector := by
  cases transition with
  | observes clock quiet => exact reflects
  | notesDeletion clock deleted => exact reflects.notePodDeleted _ _ clock
  | rehashes reordered => exact reflects
  | processes rawEvent read timestamp => exact reflects.processEvent node rawEvent _ timestamp
  | sweeps now ttlSecs => exact reflects.evictStale now ttlSecs

theorem Transition.latch (transition : Transition node state action next)
    (maintained : state.cache.latch ≠ .abandoned) :
    next.cache.latch ≠ .abandoned ∧ (state.cache.latch = .ready → next.cache.latch = .ready) := by
  have observed : ∀ item : WatchItem,
      (state.cache.observe item).1.latch = state.cache.latch ∨
        (state.cache.observe item).1.latch = .ready := by
    intro item
    rcases item with error | event
    · exact .inl rfl
    · cases event with
      | initDone =>
          right
          change state.cache.latch.opened = .ready
          cases latch : state.cache.latch with
          | waiting => rfl
          | ready => rfl
          | abandoned => exact absurd latch maintained
      | init => exact .inl rfl
      | initApply pod => exact .inl rfl
      | apply pod => exact .inl rfl
      | delete pod => exact .inl rfl
  cases transition with
  | @observes item clock quiet =>
      rcases observed item with same | opened
      · exact ⟨same ▸ maintained, same.trans⟩
      · exact ⟨opened ▸ nofun, fun _ => opened⟩
  | @notesDeletion item clock ns pod deleted =>
      rcases observed item with same | opened
      · exact ⟨same ▸ maintained, same.trans⟩
      · exact ⟨opened ▸ nofun, fun _ => opened⟩
  | rehashes reordered => exact ⟨maintained, id⟩
  | processes rawEvent read timestamp => exact ⟨maintained, id⟩
  | sweeps now ttlSecs => exact ⟨maintained, id⟩

end Watcher

namespace Process

structure Sound (settings : Settings) (latency started : Nat) (state : Process Vec) : Prop where
  reflects : Reflects state.watcher.history state.watcher.collector
  onTime : OnTime settings state.clock state.nextTick state.watcher.history
  fits : state.clock ≤ u64Max
  notLate : state.clock ≤ state.nextTick + latency
  maintained : state.watcher.cache.latch ≠ .abandoned
  waiting : ∀ deadline, state.eventProcessor = .waiting deadline →
    deadline = started + cacheSyncTimeout
  waited : state.eventProcessor = .draining →
    state.watcher.cache.latch = .ready ∨ started + cacheSyncTimeout ≤ state.clock

variable {settings : Settings} {latency started : Nat} {node : String}
  {state next : Process Vec} {action : Action}

theorem sound_start (settings : Settings) (latency : Nat) {clock : Nat} (fits : clock ≤ u64Max) :
    Sound settings latency clock (start settings clock : Process Vec) where
  reflects := reflects_new
  onTime := .start settings clock
  fits := fits
  notLate := (Nat.le_add_right _ _).trans (Nat.le_add_right _ _)
  maintained := nofun
  waiting deadline isWaiting := by
    cases isWaiting
    rfl
  waited isDraining := nomatch isDraining

inductive Transition (settings : Settings) (latency : Nat) (node : String) (state : Process Vec) :
    Action → Process Vec → Prop
  | passes {seconds : Nat} (inTime : state.clock + seconds ≤ state.nextTick + latency)
      (fits : state.clock + seconds ≤ u64Max) :
      Transition settings latency node state (.pass seconds)
        { state with clock := state.clock + seconds }
  | observes {item : WatchItem} {watcher : Watcher Vec}
      (observed : Watcher.Transition node state.watcher (.observe item state.clock) watcher) :
      Transition settings latency node state (.observe item) { state with watcher := watcher }
  | rehashes {store : KeyedStore Pod.objectRef} {watcher : Watcher Vec}
      (rehashed : Watcher.Transition node state.watcher (.rehash store) watcher) :
      Transition settings latency node state (.rehash store) { state with watcher := watcher }
  | begins {deadline : Nat} (isWaiting : state.eventProcessor = .waiting deadline)
      (released : state.watcher.cache.latch ≠ .waiting ∨ deadline ≤ state.clock) :
      Transition settings latency node state .beginDraining
        { state with eventProcessor := .draining }
  | processes {rawEvent : OomKillEvent} {read : Except ErrorKind String} {watcher : Watcher Vec}
      (draining : state.eventProcessor = .draining)
      (processed : Watcher.Transition node state.watcher (.process rawEvent read state.clock)
        watcher) :
      Transition settings latency node state (.process rawEvent read)
        { state with watcher := watcher }
  | sweeps {watcher : Watcher Vec} (due : state.nextTick ≤ state.clock)
      (swept : Watcher.Transition node state.watcher (.sweep state.clock settings.seriesTtl)
        watcher) :
      Transition settings latency node state .sweep
        { state with watcher := watcher, nextTick := state.nextTick + settings.sweepInterval }

theorem exists_of_serve {taken : Watcher.Action} (served : state.serve node taken = some next) :
    ∃ watcher, Watcher.Transition node state.watcher taken watcher ∧
      next = { state with watcher := watcher } := by
  rcases Option.map_eq_some_iff.mp served with ⟨watcher, stepped, isNext⟩
  exact ⟨watcher, Watcher.transition_of_step stepped, isNext.symm⟩

theorem transition_of_step
    (stepped : (machine settings latency node).step state action = some next) :
    Transition settings latency node state action next := by
  change state.step settings latency node action = some next at stepped
  cases action with
  | pass seconds =>
      simp only [Process.step] at stepped
      split at stepped
      · next allowed =>
          cases stepped
          exact .passes allowed.1 allowed.2
      · cases stepped
  | observe item =>
      rcases exists_of_serve stepped with ⟨watcher, observed, rfl⟩
      exact .observes observed
  | rehash store =>
      rcases exists_of_serve stepped with ⟨watcher, rehashed, rfl⟩
      exact .rehashes rehashed
  | beginDraining =>
      simp only [Process.step] at stepped
      split at stepped
      · next deadline isWaiting =>
          split at stepped
          · next released =>
              cases stepped
              exact .begins isWaiting released
          · cases stepped
      · cases stepped
  | process rawEvent read =>
      simp only [Process.step] at stepped
      split at stepped
      · cases stepped
      · next draining =>
          rcases exists_of_serve stepped with ⟨watcher, processed, rfl⟩
          exact .processes draining processed
  | sweep =>
      simp only [Process.step] at stepped
      split at stepped
      · next due =>
          rcases Option.map_eq_some_iff.mp stepped with ⟨served, isServed, rfl⟩
          rcases exists_of_serve isServed with ⟨watcher, swept, rfl⟩
          exact .sweeps due swept
      · cases stepped

theorem Sound.serve (sound : Sound settings latency started state) {taken : Watcher.Action}
    {nextTick : Nat} {watcher : Watcher Vec}
    (transition : Watcher.Transition node state.watcher taken watcher)
    (onTime : OnTime settings state.clock nextTick watcher.history)
    (notLate : state.clock ≤ nextTick + latency) :
    Sound settings latency started { state with watcher := watcher, nextTick := nextTick } where
  reflects := transition.reflects sound.reflects
  onTime := onTime
  fits := sound.fits
  notLate := notLate
  maintained := (transition.latch sound.maintained).1
  waiting := sound.waiting
  waited isDraining := (sound.waited isDraining).imp_left (transition.latch sound.maintained).2

theorem Sound.step (sound : Sound settings latency started state)
    (transition : Transition settings latency node state action next) :
    Sound settings latency started next := by
  cases transition with
  | @passes seconds inTime fits =>
      exact
        { sound with
          onTime := sound.onTime.pass seconds
          fits := fits
          notLate := inTime
          waited := fun isDraining =>
            (sound.waited isDraining).imp_right (Nat.le_add_right_of_le ·) }
  | observes observed =>
      apply sound.serve observed _ sound.notLate
      cases observed with
      | observes clock quiet => exact sound.onTime
      | notesDeletion clock deleted => exact sound.onTime.note sound.fits _ _
  | rehashes rehashed =>
      apply sound.serve rehashed _ sound.notLate
      cases rehashed with
      | rehashes reordered => exact sound.onTime
  | @begins deadline isWaiting released =>
      refine { sound with waiting := nofun, waited := fun _ => ?_ }
      have isDeadline := sound.waiting deadline isWaiting
      rcases released with synced | timedOut
      · left
        cases latch : state.watcher.cache.latch with
        | waiting => exact absurd latch synced
        | ready => rfl
        | abandoned => exact absurd latch sound.maintained
      · exact .inr (isDeadline ▸ timedOut)
  | processes draining processed =>
      apply sound.serve processed _ sound.notLate
      cases processed with
      | processes rawEvent read timestamp => exact sound.onTime.record rfl
  | sweeps due swept =>
      have notLate := sound.notLate
      apply sound.serve swept
      · cases swept with
        | sweeps now ttlSecs => exact sound.onTime.sweep due
      · omega

/-- With the calls of the collector taken one at a time, a series of a container
outlives the TTL after its last kill by no more than an interval and the latency,
and until then it is exported, unless the deletion of its pod was noted. No
scheduled removal is overdue by more than that either. The watch loop never drains
before the list of pods has landed or the wait timed out. -/
theorem eviction_on_time {actions : List Action} (fits : started ≤ u64Max)
    (ran : (machine settings latency node).run (Process.start settings started) actions =
      some state) :
    (∀ key : SeriesKey, ∀ series ∈ key.series, Exported state.watcher.collector.vecs series →
        ∃ event ∈ recorded state.watcher.history, series ∈ (SeriesKey.ofEvent event).series ∧
          state.clock <
            event.timestamp + settings.seriesTtl + settings.sweepInterval + latency) ∧
      (∀ event ∈ recorded state.watcher.history,
        NeverDeleted ((SeriesKey.ofEvent event).ns, (SeriesKey.ofEvent event).pod)
          state.watcher.history → state.clock < event.timestamp + settings.seriesTtl →
            ∀ series ∈ (SeriesKey.ofEvent event).series,
              Exported state.watcher.collector.vecs series) ∧
      (∀ pod due, state.watcher.collector.deletedAfter.lookup pod = some due →
        state.clock ≤ due + settings.sweepInterval + latency) ∧
      (state.eventProcessor = .draining →
        state.watcher.cache.latch = .ready ∨ started + cacheSyncTimeout ≤ state.clock) := by
  have sound : Sound settings latency started state := Machine.invariant_of_any_run
    (fun sound stepped => sound.step (transition_of_step stepped))
    (sound_start settings latency fits) ran
  have notLate := sound.notLate
  refine ⟨?_, ?_, ?_, sound.waited⟩
  · intro key series own shown
    rcases (sound.reflects.exported_iff own).mp shown with ⟨live, seen, latest, isLive⟩
    have soon := sound.onTime.tracked live seen latest
    rcases exists_of_lastRecorded latest with ⟨event, member, rfl, rfl⟩
    exact ⟨event, mem_recorded member, isLive, by omega⟩
  · intro event member never young series own
    rcases sound.onTime.kept event member never young with ⟨seen, latest, _⟩
    exact (sound.reflects.exported_iff own).mpr ⟨_, seen, latest, own⟩
  · intro pod due isDue
    rw [sound.reflects.deletedAfter] at isDue
    have soon := sound.onTime.pending pod due isDue
    omega

def firstKill : EnrichedOomEvent :=
  enrich (eventFor "api-7d9" "containerd://abc123" 10).rawEvent (some "node-1") none 10

/-- With the defaults, the first sweep leaves the series of the kill. -/
theorem eviction_on_time_first_sweep :
    ∃ state : Process LabelVec,
      (machine (Settings.ofEnv fun _ => none) 5 "node-1").run
          (Process.start (Settings.ofEnv fun _ => none) 0)
          [.pass 10, .beginDraining, .process firstKill.rawEvent (.error .notFound), .pass 292,
            .sweep] = some state ∧
        ∀ series ∈ (SeriesKey.ofEvent firstKill).series,
          Exported state.watcher.collector.vecs series := by
  apply Machine.exists_run_of_decided fun state : Process LabelVec =>
    state.clock = 302 ∧ recorded state.watcher.history = [firstKill] ∧
      noted state.watcher.history = []
  · intro state ran reached
    rcases reached with ⟨clock, history, deletions⟩
    have member : firstKill ∈ recorded state.watcher.history := history ▸ List.mem_cons_self
    have never : NeverDeleted ((SeriesKey.ofEvent firstKill).ns, (SeriesKey.ofEvent firstKill).pod)
        state.watcher.history := fun _ isNoted => by
      rw [deletions] at isNoted
      cases isNoted
    exact (eviction_on_time (Nat.zero_le _) ran).2.1 firstKill member never (clock ▸ by decide)
  · decide

end Process

end OomWatcher
