import OomWatcher.Kubernetes.LiveList
import OomWatcher.Source.Delivery
import OomWatcher.Watch.Daemon

/-! # From firings to series

What the registry of the daemon shows, told by the kills the tracepoint fired for
and by the pods the API server reported. The history of calls is a list, since the
daemon takes them one at a time: a recording that a sweep overlaps may leave no
series, and is not among its runs. -/

namespace OomWatcher

variable {Vec : Type} [MetricVec Vec (List String)]

/-! ## Identities of the live list -/

/-- What a lookup in the pods as reported so far comes to: nothing before the first
complete list. -/
def LiveIdentity (items : List WatchItem) (pid : Nat) (read : Except ErrorKind String)
    (identity : Option ContainerIdentity) : Prop :=
  (.ok .initDone ∉ items → identity = none) ∧
    (.ok .initDone ∈ items → ∃ pods, PodCache.ListsLive items pods ∧
      identity =
        match getContainerIdFromPid pid read with
        | .ok (some containerId) => identityFromPods pods containerId
        | .ok none | .error _ => none)

theorem identity_resolve (cache : PodCache) (pid : Nat) (read : Except ErrorKind String) :
    (resolve cache pid read).identity =
      match getContainerIdFromPid pid read with
      | .ok (some containerId) => (cache.identityOf containerId).toOption.join
      | .ok none | .error _ => none := by
  rw [resolve, getContainerInfo]
  cases getContainerIdFromPid pid read with
  | error error => rfl
  | ok found =>
      cases found with
      | none => rfl
      | some containerId =>
          dsimp only
          cases cache.identityOf containerId with
          | error error => rfl
          | ok identity => cases identity <;> rfl

theorem Reflector.Mirrors.rehash {Key Object : Type} {keyOf : Object → Key} [DecidableEq Key]
    {change : Object → Object} {events : List (WatchEvent Object)} {reflector : Reflector keyOf}
    (mirrors : reflector.Mirrors change events) {store : KeyedStore keyOf}
    (reordered : store.objects.Reordered reflector.store.objects) :
    Reflector.Mirrors change events { reflector with store := store } where
  store key := (reordered.lookup key).trans (mirrors.store key)
  buffer := mirrors.buffer
  ready := mirrors.ready
  waiting := mirrors.waiting

theorem liveIdentity_of_mirrors {cache : PodCache} {items : List WatchItem}
    (mirrors : cache.Mirrors pruneForCache (PodCache.reportedEvents items)) (pid : Nat)
    (read : Except ErrorKind String) :
    LiveIdentity items pid read (resolve cache pid read).identity := by
  rw [identity_resolve]
  constructor
  · intro notDone
    have unsynced : cache.latch ≠ .ready := by
      rw [mirrors.waiting (mt PodCache.initDone_mem_reportedEvents.mp notDone)]
      nofun
    split
    · next containerId _ =>
        rcases PodCache.identityOf_of_unsynced unsynced containerId with ⟨error, isError⟩
        rw [isError]
        rfl
    · rfl
    · rfl
  · intro done
    have synced : cache.latch = .ready :=
      mirrors.ready (PodCache.initDone_mem_reportedEvents.mpr done)
    rcases KeyedStore.exists_originals mirrors.store fun _ _ => keyOf_of_mirrored with
      ⟨pods, stripped, distinct, live⟩
    refine ⟨pods, ⟨distinct, live⟩, ?_⟩
    split
    · next containerId _ =>
        rw [PodCache.identityOf_of_synced synced, ← identityFromPods_pruneForCache pods, stripped]
        rfl
    · rfl
    · rfl

/-! ## Calls that leave the counts -/

theorem Reflects.of_sampled {history : History} {left right : MetricsCollector Vec}
    (reflects : Reflects history left) (sameLastSeen : right.lastSeen = left.lastSeen)
    (sameDeletedAfter : right.deletedAfter = left.deletedAfter)
    (sampled : ∀ {family} labels, family ≠ .oomEventsDroppedTotal →
      sample right.vecs family labels = sample left.vecs family labels) :
    Reflects history right := by
  constructor
  · rw [sameLastSeen]
    exact reflects.lastSeen
  · rw [sameDeletedAfter]
    exact reflects.deletedAfter
  · intro key
    rw [sampled]
    · exact reflects.kills key
    · nofun
  · intro key
    rw [sampled]
    · exact reflects.lastTimestamp key
    · nofun
  · intro key memoryType covered
    rw [sampled]
    · exact reflects.memoryCovered key memoryType covered
    · nofun
  · intro key memoryType uncovered
    rw [sampled]
    · exact reflects.memoryUncovered key memoryType uncovered
    · nofun
  · intro node
    rw [sampled]
    · exact reflects.perNode node
    · nofun

theorem Reflects.recordDroppedTotal {history : History} {collector : MetricsCollector Vec}
    (reflects : Reflects history collector) (node : String) (total : Nat) :
    Reflects history (collector.recordDroppedTotal node total) := by
  rw [MetricsCollector.recordDroppedTotal]
  split
  · exact reflects.of_sampled rfl rfl fun _ _ => rfl
  · split
    · exact reflects.of_sampled rfl rfl fun labels other => sample_write_of_family _ _ _ _ other
    · exact reflects.of_sampled rfl rfl fun _ _ => rfl

theorem sample_evict_of_perNode (collector : MetricsCollector Vec) (now ttlSecs : Nat)
    {family : Family} (labels : List String)
    (perNode : family = .oomKillsPerNodeTotal ∨ family = .oomEventsDroppedTotal) :
    sample (collector.evictStale now ttlSecs).1.vecs family labels =
      sample collector.vecs family labels := by
  have notEvicted : family ≠ .oomSeriesEvictedTotal := by
    rcases perNode with rfl | rfl <;> nofun
  rw [sample_evict _ _ _ _ notEvicted]
  apply if_neg
  intro ⟨key, _, removed⟩
  rcases perNode with rfl | rfl <;> simp [removalInstructions] at removed

namespace WatchLoop

theorem Accounts.of_collector {nodeName : Option String} {state : WatchLoop Vec}
    (accounts : Accounts nodeName state) {collector : MetricsCollector Vec}
    (kills : killsRecorded collector (nodeLabel nodeName) =
      killsRecorded state.collector (nodeLabel nodeName))
    (drops : dropsRecorded collector (nodeLabel nodeName) =
      dropsRecorded state.collector (nodeLabel nodeName))
    (total : collector.lastDroppedTotal = state.collector.lastDroppedTotal) :
    Accounts nodeName { state with collector := collector } := by
  have sameTotal : expectedTotal { state with collector := collector } = state.expectedTotal := by
    unfold expectedTotal
    rw [total]
  refine ⟨accounts.sound, accounts.releasing, accounts.away, accounts.fired, ?_, ?_, ?_, ?_, ?_⟩
  · rw [kills]
    exact accounts.recorded
  · rw [drops, total]
    exact accounts.counted
  · rw [total, sameTotal]
    exact accounts.grows
  · rw [sameTotal]
    exact accounts.bounded
  · rw [sameTotal]
    exact accounts.reported

end WatchLoop

/-! ## Kills on their way -/

def LoopPosition.kills : LoopPosition → List OomKillEvent
  | .processing event => [event]
  | .waiting | .reading _ | .reporting _ | .beating => []

namespace WatchLoop

def Action.kills : Action → List OomKillEvent
  | .fire _ event => [event]
  | .deliver | .poll | .tick | .process _ _ | .readDropped | .report | .beat => []

def accepted (state : WatchLoop Vec) : List OomKillEvent :=
  (state.polled.source.ring.slots.map (·.value)).map (·.event)

variable {nodeName : Option String} {state next : WatchLoop Vec} {action : Action}

omit [MetricVec Vec (List String)] in
theorem kills_of_returning (polled : Polled) :
    ((returning polled).elim LoopPosition.waiting .processing).kills =
      (returning polled).toList := by
  cases returning polled <;> rfl

theorem handedOut_continueNext {polled after : Polled}
    (continued : polled.continueNext = some after) :
    after.handedOut = polled.handedOut ++ (returning polled).toList := by
  rcases polled with ⟨⟨ring, readiness, pending, dropped⟩, position, handedOut⟩
  have nothing : handedOut = handedOut ++ [] := (List.append_nil handedOut).symm
  cases position with
  | away | ended => cases continued
  | top =>
      cases pending with
      | cons event rest =>
          cases continued
          rfl
      | nil =>
          cases continued
          exact nothing
  | awaiting | draining guard =>
      simp only [Polled.continueNext] at continued
      split at continued <;> cases continued <;> exact nothing
  | holding guard record | releasing guard record | drained guard =>
      cases continued
      exact nothing

/-- A kill that is handed out is in hand until it is processed. -/
theorem Transition.handedOut (transition : Transition nodeName state action next)
    (notProcess : ∀ outcome timestamp, action ≠ .process outcome timestamp) :
    (next.position.kills = state.position.kills ∧
        next.polled.handedOut = state.polled.handedOut) ∨
      (state.position.kills = [] ∧
        next.polled.handedOut = state.polled.handedOut ++ next.position.kills) := by
  cases transition with
  | fires online | delivers inFlight | calls waiting away => exact .inl ⟨rfl, rfl⟩
  | continues waiting continued =>
      right
      rw [waiting, kills_of_returning, handedOut_continueNext continued]
      exact ⟨rfl, rfl⟩
  | ticks waiting idle => exact .inl ⟨waiting ▸ rfl, rfl⟩
  | processes inHand => exact absurd rfl (notProcess _ _)
  | reads reading found => exact .inl ⟨reading ▸ rfl, rfl⟩
  | readsAll reading all => exact .inl ⟨reading ▸ rfl, rfl⟩
  | reports reporting => exact .inl ⟨reporting ▸ rfl, rfl⟩
  | beats beating => exact .inl ⟨beating ▸ rfl, rfl⟩

theorem accepted_markVictim (source : RingBufSource) (cpu : Nat) (event : OomKillEvent) :
    ((markVictim source cpu event).ring.slots.map (·.value)).map (·.event) =
      (source.ring.slots.map (·.value)).map (·.event) ++
        if hasRoom source.ring then [event] else [] := by
  rw [markVictim]
  split
  · rw [Polled.commit, RingQueue.values_commit, RingQueue.reserve, List.map_append,
      List.map_append]
    rfl
  · rw [List.append_nil]

theorem Transition.accepted (transition : Transition nodeName state action next) :
    next.firings = state.firings + action.kills.length ∧
      ∃ taken, taken.Sublist action.kills ∧ next.accepted = state.accepted ++ taken := by
  have unchanged : ∃ taken, List.Sublist taken [] ∧ state.accepted = state.accepted ++ taken :=
    ⟨[], List.Sublist.refl _, (List.append_nil _).symm⟩
  cases transition with
  | @fires cpu event online =>
      refine ⟨rfl, _, ?_, accepted_markVictim state.polled.source cpu event⟩
      split
      · exact List.Sublist.refl _
      · exact List.nil_sublist _
  | continues waiting continued =>
      refine ⟨rfl, [], List.Sublist.refl _, ?_⟩
      rw [List.append_nil, WatchLoop.accepted, Polled.slots_continueNext continued]
      rfl
  | delivers inFlight | calls waiting away | ticks waiting idle | processes inHand
  | reads reading found | readsAll reading all | reports reporting | beats beating =>
      exact ⟨rfl, unchanged⟩

theorem Transition.reflects {history : History}
    (transition : Transition nodeName state action next)
    (notProcess : ∀ outcome timestamp, action ≠ .process outcome timestamp)
    (reflects : Reflects history state.collector) : Reflects history next.collector := by
  cases transition with
  | processes inHand => exact absurd rfl (notProcess _ _)
  | reports reporting => exact reflects.recordDroppedTotal _ _
  | fires online | delivers inFlight | calls waiting away | continues waiting continued
  | ticks waiting idle | reads reading found | readsAll reading all | beats beating =>
      exact reflects

end WatchLoop

namespace Watcher

def Action.items : Action → List WatchItem
  | .observe item _ => [item]
  | .rehash _ | .process _ _ _ | .sweep _ _ => []

variable {node : String} {state next : Watcher Vec} {action : Action}

theorem Transition.mirrors (transition : Transition node state action next)
    {items : List WatchItem}
    (mirrors : state.cache.Mirrors pruneForCache (PodCache.reportedEvents items)) :
    next.cache.Mirrors pruneForCache (PodCache.reportedEvents (items ++ action.items)) := by
  have observed : ∀ item : WatchItem, (state.cache.observe item).1.Mirrors pruneForCache
      (PodCache.reportedEvents (items ++ [item])) := by
    intro item
    rw [PodCache.reportedEvents_append_singleton]
    cases item with
    | error error => exact mirrors
    | ok event => exact mirrors.applyWatcherEvent objectRef_pruneForCache event
  cases transition with
  | observes clock quiet => exact observed _
  | notesDeletion clock deleted => exact observed _
  | rehashes reordered =>
      rw [Action.items, List.append_nil]
      exact mirrors.rehash reordered
  | processes rawEvent read timestamp =>
      rw [Action.items, List.append_nil]
      exact mirrors
  | sweeps now ttlSecs =>
      rw [Action.items, List.append_nil]
      exact mirrors

theorem Transition.kept (transition : Transition node state action next)
    (notProcess : ∀ rawEvent read timestamp, action ≠ .process rawEvent read timestamp)
    (label : String) :
    recorded next.history = recorded state.history ∧
      WatchLoop.killsRecorded next.collector label =
        WatchLoop.killsRecorded state.collector label ∧
      WatchLoop.dropsRecorded next.collector label =
        WatchLoop.dropsRecorded state.collector label ∧
      next.collector.lastDroppedTotal = state.collector.lastDroppedTotal := by
  cases transition with
  | observes clock quiet => exact ⟨rfl, rfl, rfl, rfl⟩
  | notesDeletion clock deleted => exact ⟨rfl, rfl, rfl, rfl⟩
  | rehashes reordered => exact ⟨rfl, rfl, rfl, rfl⟩
  | processes rawEvent read timestamp => exact absurd rfl (notProcess _ _ _)
  | sweeps now ttlSecs =>
      refine ⟨rfl, ?_, ?_, rfl⟩
      · unfold WatchLoop.killsRecorded
        rw [sample_evict_of_perNode _ _ _ _ (.inl rfl)]
      · unfold WatchLoop.dropsRecorded
        rw [sample_evict_of_perNode _ _ _ _ (.inr rfl)]

end Watcher

/-! ## Runs of the daemon -/

namespace Daemon

def Action.kills : Action → List OomKillEvent
  | .loop action => action.kills
  | .task _ | .process _ => []

def Action.items : Action → List WatchItem
  | .task (.observe item) => [item]
  | .task (.pass _) | .task (.rehash _) | .task .beginDraining | .task (.process _ _)
  | .task .sweep | .loop _ | .process _ => []

def Action.seconds : Action → Nat
  | .task (.pass seconds) => seconds
  | .task (.observe _) | .task (.rehash _) | .task .beginDraining | .task (.process _ _)
  | .task .sweep | .loop _ | .process _ => 0

def fired (actions : List Action) : List OomKillEvent := actions.flatMap Action.kills

def observed (actions : List Action) : List WatchItem := actions.flatMap Action.items

def elapsed (actions : List Action) : Nat := (actions.map Action.seconds).sum

theorem fired_append_singleton (actions : List Action) (action : Action) :
    fired (actions ++ [action]) = fired actions ++ action.kills := by
  simp [fired]

theorem observed_append_singleton (actions : List Action) (action : Action) :
    observed (actions ++ [action]) = observed actions ++ action.items := by
  simp [observed]

theorem elapsed_append_singleton (actions : List Action) (action : Action) :
    elapsed (actions ++ [action]) = elapsed actions + action.seconds := by
  simp [elapsed]

/-- The calls made of the collector, but for those that count drops. -/
def history (state : Daemon Vec) : History := state.process.watcher.history

def recordedKills (state : Daemon Vec) : List OomKillEvent :=
  (recorded state.history).reverse.map (·.rawEvent)

def Waited (actions : List Action) : Prop :=
  .ok .initDone ∈ observed actions ∨ cacheSyncTimeout ≤ elapsed actions

/-- The event is that of a kill, with the clock at which it was processed and the
labels that the live list had then for its cgroup. -/
def Labelled (node : String) (started : Nat) (actions : List Action) (event : EnrichedOomEvent) :
    Prop :=
  ∃ before read identity, before ++ [.process read] <+: actions ∧ Waited before ∧
    LiveIdentity (observed before) event.rawEvent.pid read identity ∧
      event = enrich event.rawEvent (some node) identity (started + elapsed before)

theorem Waited.mono {actions : List Action} (waited : Waited actions) (action : Action) :
    Waited (actions ++ [action]) := by
  rw [Waited, observed_append_singleton, elapsed_append_singleton]
  exact waited.imp (List.mem_append_left _) (Nat.le_add_right_of_le ·)

theorem Labelled.mono {node : String} {started : Nat} {actions : List Action}
    {event : EnrichedOomEvent} (labelled : Labelled node started actions event)
    (action : Action) : Labelled node started (actions ++ [action]) event := by
  rcases labelled with ⟨before, read, identity, isPrefix, waited, live, isEvent⟩
  exact ⟨before, read, identity, isPrefix.trans (List.prefix_append _ _), waited, live, isEvent⟩

structure Sound (node : String) (started : Nat) (taken : List Action) (state : Daemon Vec) :
    Prop where
  accounts : WatchLoop.Accounts (some node) state.loop
  reflects : Reflects state.history state.process.watcher.collector
  mirrors : state.process.watcher.cache.Mirrors pruneForCache
    (PodCache.reportedEvents (observed taken))
  clock : state.process.clock = started + elapsed taken
  waiting : ∀ deadline, state.process.eventProcessor = .waiting deadline →
    deadline = started + cacheSyncTimeout
  waited : state.process.eventProcessor = .draining → Waited taken
  counted : state.firings = (fired taken).length
  accepted : state.loop.accepted.Sublist (fired taken)
  recorded : state.recordedKills ++ state.position.kills = state.polled.handedOut
  labelled : ∀ event ∈ OomWatcher.recorded state.history, Labelled node started taken event

variable {settings : Settings} {latency started cpus : Nat} {node : String}
  {state next : Daemon Vec} {action : Action} {taken : List Action}

theorem sound_start (settings : Settings) (started cpus : Nat) (node : String) :
    Sound node started [] (start settings started cpus : Daemon Vec) where
  accounts := WatchLoop.accounts_start (some node) cpus
  reflects := reflects_new
  mirrors := Reflector.mirrors_new pruneForCache
  clock := rfl
  waiting deadline isWaiting := by
    cases isWaiting
    rfl
  waited := nofun
  counted := rfl
  accepted := List.Sublist.refl _
  recorded := rfl
  labelled _ member := nomatch member

theorem Sound.loop (sound : Sound node started taken state) {action : WatchLoop.Action}
    {loop : WatchLoop Vec} (permitted : state.permits action = true)
    (stepped : (WatchLoop.machine (some node)).step state.loop action = some loop) :
    Sound node started (taken ++ [.loop action]) ((state.withLoop loop).keepTime action) := by
  have notProcess : ∀ outcome timestamp, action ≠ .process outcome timestamp := by
    rintro outcome timestamp rfl
    cases permitted
  have transition := WatchLoop.transition_of_step stepped
  have sameItems : observed (taken ++ [.loop action]) = observed taken := by
    rw [observed_append_singleton]
    exact List.append_nil _
  rcases transition.accepted with ⟨fires, accepts, isSublist, isAccepted⟩
  constructor
  · rw [loop_keepTime, loop_withLoop]
    exact sound.accounts.step stepped
  · have reflects := transition.reflects notProcess sound.reflects
    cases action <;> exact reflects
  · rw [process_keepTime, sameItems]
    exact sound.mirrors
  · rw [process_keepTime, elapsed_append_singleton]
    exact sound.clock
  · rw [process_keepTime]
    exact sound.waiting
  · rw [process_keepTime]
    exact fun draining => (sound.waited draining).mono _
  · have counted : loop.firings = (fired taken).length + action.kills.length :=
      fires.trans (congrArg (· + _) sound.counted)
    rw [fired_append_singleton, List.length_append]
    cases action <;> exact counted
  · rw [loop_keepTime, loop_withLoop, isAccepted, fired_append_singleton]
    exact sound.accepted.append isSublist
  · have inHand : state.recordedKills ++ loop.position.kills = loop.polled.handedOut := by
      have recorded := sound.recorded
      rcases transition.handedOut notProcess with ⟨sameKills, sameOut⟩ | ⟨noneInHand, handsOut⟩
      · rw [sameKills, sameOut]
        exact recorded
      · change state.position.kills = [] at noneInHand
        rw [noneInHand, List.append_nil] at recorded
        rw [handsOut, recorded]
        rfl
    cases action <;> exact inHand
  · have labelled : ∀ event ∈ OomWatcher.recorded state.history,
        Labelled node started (taken ++ [.loop action]) event :=
      fun event member => (sound.labelled event member).mono _
    cases action <;> exact labelled

theorem Sound.of_kept (sound : Sound node started taken state) {own : Action}
    (sameKills : own.kills = [])
    (sameLoop : next.loop = { state.loop with collector := next.process.watcher.collector })
    (reflects : Reflects next.history next.process.watcher.collector)
    (mirrors : next.process.watcher.cache.Mirrors pruneForCache
      (PodCache.reportedEvents (observed taken ++ own.items)))
    (clock : next.process.clock = state.process.clock + own.seconds)
    (waiting : ∀ deadline, next.process.eventProcessor = .waiting deadline →
      state.process.eventProcessor = .waiting deadline)
    (waited : next.process.eventProcessor = .draining → Waited taken)
    (kept : OomWatcher.recorded next.history = OomWatcher.recorded state.history ∧
      WatchLoop.killsRecorded next.process.watcher.collector node =
        WatchLoop.killsRecorded state.process.watcher.collector node ∧
      WatchLoop.dropsRecorded next.process.watcher.collector node =
        WatchLoop.dropsRecorded state.process.watcher.collector node ∧
      next.process.watcher.collector.lastDroppedTotal =
        state.process.watcher.collector.lastDroppedTotal) :
    Sound node started (taken ++ [own]) next := by
  rcases kept with ⟨sameRecorded, sameRecords, sameDrops, sameTotal⟩
  have samePolled : next.polled = state.polled := congrArg (·.polled) sameLoop
  have samePosition : next.position = state.position := congrArg (·.position) sameLoop
  have sameFirings : next.firings = state.firings := congrArg (·.firings) sameLoop
  have sameFired : fired (taken ++ [own]) = fired taken := by
    rw [fired_append_singleton, sameKills, List.append_nil]
  constructor
  · rw [sameLoop]
    exact sound.accounts.of_collector sameRecords sameDrops sameTotal
  · exact reflects
  · rw [observed_append_singleton]
    exact mirrors
  · rw [clock, sound.clock, elapsed_append_singleton, Nat.add_assoc]
  · exact fun deadline isWaiting => sound.waiting deadline (waiting deadline isWaiting)
  · exact fun draining => (waited draining).mono own
  · rw [sameFirings, sameFired]
    exact sound.counted
  · rw [sameFired, sameLoop]
    exact sound.accepted
  · rw [recordedKills, sameRecorded, samePosition, samePolled]
    exact sound.recorded
  · rw [sameRecorded]
    exact fun event member => (sound.labelled event member).mono own

theorem Sound.task (sound : Sound node started taken state) {action : Process.Action}
    {process : Process Vec} (inTime : state.inTime latency action = true)
    (transition : Process.Transition settings latency node state.process action process) :
    Sound node started (taken ++ [.task action])
      ({ state with process := process }.markStarted action) := by
  have mirrors : state.process.watcher.cache.Mirrors pruneForCache
      (PodCache.reportedEvents (observed taken ++ [])) := by
    rw [List.append_nil]
    exact sound.mirrors
  cases transition with
  | passes _ _ =>
      exact sound.of_kept rfl rfl sound.reflects mirrors rfl (fun _ => id) sound.waited
        ⟨rfl, rfl, rfl, rfl⟩
  | begins isWaiting released =>
      refine sound.of_kept rfl rfl sound.reflects mirrors rfl nofun (fun _ => ?_)
        ⟨rfl, rfl, rfl, rfl⟩
      rcases released with opened | timedOut
      · left
        by_contra notDone
        exact opened (sound.mirrors.waiting (mt PodCache.initDone_mem_reportedEvents.mp notDone))
      · right
        rw [sound.waiting _ isWaiting, sound.clock] at timedOut
        omega
  | observes observed =>
      exact sound.of_kept rfl rfl (observed.reflects sound.reflects)
        (observed.mirrors sound.mirrors) rfl (fun _ => id) sound.waited (observed.kept nofun node)
  | rehashes rehashed =>
      exact sound.of_kept rfl rfl (rehashed.reflects sound.reflects)
        (rehashed.mirrors sound.mirrors) rfl (fun _ => id) sound.waited (rehashed.kept nofun node)
  | sweeps _ swept =>
      exact sound.of_kept rfl rfl (swept.reflects sound.reflects)
        (swept.mirrors sound.mirrors) rfl (fun _ => id) sound.waited (swept.kept nofun node)
  | processes _ _ => cases inTime

theorem Sound.process (sound : Sound node started taken state) {event : OomKillEvent}
    {read : Except ErrorKind String} {process : Process Vec}
    (inHand : state.position = .processing event)
    (transition : Process.Transition settings latency node state.process (.process event read)
      process) :
    Sound node started (taken ++ [.process read])
      { state with process := process, position := .reading [] } := by
  cases transition with
  | processes draining processed =>
      cases processed with
      | processes rawEvent read timestamp =>
          have noItems : observed (taken ++ [.process read]) = observed taken := by
            rw [observed_append_singleton]
            exact List.append_nil _
          have noKills : fired (taken ++ [.process read]) = fired taken := by
            rw [fired_append_singleton]
            exact List.append_nil _
          constructor
          · exact sound.accounts.process inHand _ _
          · exact sound.reflects.processEvent node event _ _
          · rw [noItems]
            exact sound.mirrors
          · rw [elapsed_append_singleton]
            exact sound.clock
          · exact sound.waiting
          · exact fun _ => (sound.waited draining).mono _
          · rw [noKills]
            exact sound.counted
          · rw [noKills]
            exact sound.accepted
          · have recorded := sound.recorded
            rw [inHand] at recorded
            rw [← recorded]
            simp [recordedKills, history, OomWatcher.recorded, LoopPosition.kills, enrich]
          · intro other member
            rcases List.mem_cons.mp member with rfl | earlier
            · refine ⟨taken, read, _, List.prefix_refl _, sound.waited draining,
                liveIdentity_of_mirrors sound.mirrors event.pid read, ?_⟩
              rw [← sound.clock]
              rfl
            · exact (sound.labelled other earlier).mono _

theorem Sound.step (sound : Sound node started taken state)
    (transition : Transition settings latency node state action next) :
    Sound node started (taken ++ [action]) next := by
  cases transition with
  | loops permitted stepped => exact sound.loop permitted stepped
  | serves inTime served => exact sound.task inTime served
  | processes inHand processed => exact sound.process inHand processed

theorem sound_of_run {actions : List Action}
    (ran : (machine settings latency node).run (start settings started cpus) actions =
      some state) : Sound node started actions state :=
  Machine.invariant_of_actions (fun sound stepped => sound.step (transition_of_step stepped))
    (sound_start settings started cpus node) ran

theorem Sound.settled (sound : Sound node started taken state) (settled : state.loop.Settled) :
    state.recordedKills = state.loop.accepted ∧
      WatchLoop.killsRecorded state.process.watcher.collector node = state.loop.accepted.length ∧
        WatchLoop.dropsRecorded state.process.watcher.collector node =
          state.polled.source.dropped.sum := by
  rcases sound.accounts.of_settled settled with ⟨allHandedOut, kills, drops⟩
  refine ⟨?_, ?_, drops⟩
  · have recorded := sound.recorded
    have waiting : state.position = .waiting := settled.1
    rw [waiting, LoopPosition.kills, List.append_nil] at recorded
    exact recorded.trans allHandedOut
  · rw [WatchLoop.accepted, List.length_map, List.length_map]
    exact kills

end Daemon

end OomWatcher
