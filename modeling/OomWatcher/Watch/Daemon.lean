import OomWatcher.Watch.Accounting
import OomWatcher.Watch.Heartbeat
import OomWatcher.Watch.Process

/-! # The daemon

What `main` starts in a cluster, on a source that the probe feeds. The tasks are
those of the process and of the watch loop, and they share the collector, the
clock and the heartbeat. As in the process, the calls of the collector are taken one
at a time, and a kill is stamped in the step that records it. -/

namespace OomWatcher

variable {Vec : Type} [MetricVec Vec (List String)]

/-! ## Steps of the watch loop -/

namespace WatchLoop

inductive Transition (nodeName : Option String) (state : WatchLoop Vec) :
    Action → WatchLoop Vec → Prop
  | fires {cpu : Nat} {event : OomKillEvent} (online : cpu < state.polled.source.dropped.length) :
      Transition nodeName state (.fire cpu event)
        { state with
          polled := { state.polled with source := markVictim state.polled.source cpu event }
          firings := state.firings + 1 }
  | delivers (inFlight : state.polled.source.readiness.inFlight = true) :
      Transition nodeName state .deliver
        { state with
          polled :=
            { state.polled with
              source :=
                { state.polled.source with
                  readiness := state.polled.source.readiness.deliver } } }
  | calls (waiting : state.position = .waiting) (away : state.polled.position = .away) :
      Transition nodeName state .poll
        { state with polled := { state.polled with position := .top } }
  | continues {polled : Polled} (waiting : state.position = .waiting)
      (continued : state.polled.continueNext = some polled) :
      Transition nodeName state .poll
        { state with
          polled := polled
          position := (returning state.polled).elim .waiting .processing }
  | ticks (waiting : state.position = .waiting)
      (idle : state.polled.position = .awaiting ∨ state.polled.position = .away) :
      Transition nodeName state .tick
        { state with
          polled := { state.polled with position := .away }
          position := .beating }
  | processes {event : OomKillEvent} {outcome : ResolutionOutcome} {timestamp : Nat}
      (inHand : state.position = .processing event) :
      Transition nodeName state (.process outcome timestamp)
        { state with
          collector := processEvent state.collector nodeName event outcome timestamp
          position := .reading [] }
  | reads {values : List Nat} {value : Nat} (reading : state.position = .reading values)
      (found : state.polled.source.dropped[values.length]? = some value) :
      Transition nodeName state .readDropped
        { state with position := .reading (values ++ [value]) }
  | readsAll {values : List Nat} (reading : state.position = .reading values)
      (all : state.polled.source.dropped[values.length]? = none) :
      Transition nodeName state .readDropped { state with position := .reporting values.sum }
  | reports {total : Nat} (reporting : state.position = .reporting total) :
      Transition nodeName state .report
        { state with
          collector := state.collector.recordDroppedTotal (nodeLabel nodeName) total
          position := .beating }
  | beats (beating : state.position = .beating) :
      Transition nodeName state .beat { state with position := .waiting }

variable {nodeName : Option String} {state next : WatchLoop Vec} {action : Action}

theorem transition_of_poll (polled : state.poll = some next) :
    Transition nodeName state .poll next := by
  rw [poll] at polled
  split at polled
  · next waiting =>
      by_cases away : state.polled.position = .away
      · rw [if_pos away] at polled
        simp only [Polled.step, away, Option.map_some, Option.some.injEq] at polled
        have sameLoop : (returning state.polled).elim LoopPosition.waiting .processing =
            state.position := by
          rw [returning, away, waiting]
          rfl
        rw [sameLoop] at polled
        exact polled ▸ .calls waiting away
      · rw [if_neg away] at polled
        rcases Option.map_eq_some_iff.mp polled with ⟨after, continued, rfl⟩
        exact .continues waiting continued
  · cases polled

theorem transition_of_tick (ticked : state.tick = some next) :
    Transition nodeName state .tick next := by
  rw [tick] at ticked
  split at ticked
  · next waiting atAwait =>
      cases ticked
      exact .ticks waiting (.inl atAwait)
  · next waiting away =>
      have isNext : next = { state with
          polled := { state.polled with position := .away }
          position := .beating } := by
        rw [← away]
        exact (Option.some.inj ticked).symm
      exact isNext ▸ .ticks waiting (.inr away)
  · cases ticked

theorem transition_of_step (stepped : (machine nodeName).step state action = some next) :
    Transition nodeName state action next := by
  change state.step nodeName action = some next at stepped
  cases action with
  | fire cpu event =>
      simp only [WatchLoop.step] at stepped
      split at stepped
      · next online =>
          cases stepped
          exact .fires online
      · cases stepped
  | deliver =>
      simp only [WatchLoop.step, Polled.step] at stepped
      split at stepped
      · next inFlight =>
          cases stepped
          exact .delivers inFlight
      · cases stepped
  | poll => exact transition_of_poll stepped
  | tick => exact transition_of_tick stepped
  | process outcome timestamp =>
      simp only [WatchLoop.step] at stepped
      split at stepped
      · next inHand =>
          cases stepped
          exact .processes inHand
      · cases stepped
  | readDropped =>
      simp only [WatchLoop.step] at stepped
      split at stepped
      · next reading =>
          split at stepped
          · next found =>
              cases stepped
              exact .reads reading found
          · next all =>
              cases stepped
              exact .readsAll reading all
      · cases stepped
  | report =>
      simp only [WatchLoop.step] at stepped
      split at stepped
      · next reporting =>
          cases stepped
          exact .reports reporting
      · cases stepped
  | beat =>
      simp only [WatchLoop.step] at stepped
      split at stepped
      · next beating =>
          cases stepped
          exact .beats beating
      · cases stepped

end WatchLoop

/-! ## The tasks -/

structure Daemon (Vec : Type) where
  process : Process Vec
  polled : Polled
  position : LoopPosition
  /-- How often the tracepoint has fired. -/
  firings : Nat
  health : Health
  /-- When the ticker of the watch loop ticks next. -/
  nextBeat : Nat
  /-- When the tick is due that the watch loop stamps next. -/
  beatDue : Nat

namespace Daemon

def start (settings : Settings) (clock cpus : Nat) : Daemon Vec where
  process := .start settings clock
  polled := .start [] cpus
  position := .waiting
  firings := 0
  health := .new
  nextBeat := clock
  beatDue := clock

inductive Action
  /-- The probe, the reactor or the watch loop takes a step. -/
  | loop (action : WatchLoop.Action)
  /-- Another task takes a step, or time passes. -/
  | task (action : Process.Action)
  /-- The watch loop processes the event in hand, given what reading the cgroup of
  its process comes to. -/
  | process (read : Except ErrorKind String)

/-! ## The watch loop -/

def loop (state : Daemon Vec) : WatchLoop Vec where
  polled := state.polled
  collector := state.process.watcher.collector
  position := state.position
  firings := state.firings

def withLoop (state : Daemon Vec) (loop : WatchLoop Vec) : Daemon Vec :=
  { state with
    polled := loop.polled
    position := loop.position
    firings := loop.firings
    process :=
      { state.process with
        watcher := { state.process.watcher with collector := loop.collector } } }

/-- `next` is not called and the ticker not polled before the loop drains. -/
def permits (state : Daemon Vec) : WatchLoop.Action → Bool
  | .poll => decide (state.process.eventProcessor = .draining)
  | .tick =>
      decide (state.process.eventProcessor = .draining ∧ state.nextBeat ≤ state.process.clock)
  | .process _ _ => false
  | .fire _ _ | .deliver | .readDropped | .report | .beat => true

/-- The ticker moves on at its tick, whether it was late or not, and the heartbeat
is stamped last. -/
def keepTime (state : Daemon Vec) : WatchLoop.Action → Daemon Vec
  | .tick => { state with nextBeat := state.nextBeat + heartbeatIntervalSeconds }
  | .beat =>
      { state with
        health := state.health.beat state.process.clock
        beatDue := state.nextBeat }
  | .fire _ _ | .deliver | .poll | .process _ _ | .readDropped | .report => state

/-! ## The other tasks -/

/-- The runtime and the work on an event delay the stamp of a tick by no more than
the latency. -/
def inTime (latency : Nat) (state : Daemon Vec) : Process.Action → Bool
  | .pass seconds =>
      decide (state.process.eventProcessor = .draining →
        state.process.clock + seconds ≤ state.beatDue + latency)
  | .process _ _ => false
  | .observe _ | .rehash _ | .beginDraining | .sweep => true

/-- `mark_started`, and the ticker of the loop, whose first tick is over at once. -/
def markStarted (state : Daemon Vec) : Process.Action → Daemon Vec
  | .beginDraining =>
      { state with
        health := state.health.markStarted state.process.clock
        nextBeat := state.process.clock + heartbeatIntervalSeconds
        beatDue := state.process.clock + heartbeatIntervalSeconds }
  | .pass _ | .observe _ | .rehash _ | .process _ _ | .sweep => state

/-- Each call of the collector is whole: none begins while another is under way. -/
def step (settings : Settings) (latency : Nat) (node : String) (state : Daemon Vec) :
    Action → Option (Daemon Vec)
  | .loop action =>
      if state.permits action then
        (state.loop.step (some node) action).map fun loop => (state.withLoop loop).keepTime action
      else none
  | .task action =>
      if state.inTime latency action then
        (state.process.step settings latency node action).map fun process =>
          { state with process := process }.markStarted action
      else none
  | .process read =>
      match state.position with
      | .processing event =>
          (state.process.step settings latency node (.process event read)).map fun process =>
            { state with process := process, position := .reading [] }
      | .waiting | .reading _ | .reporting _ | .beating => none

def machine (settings : Settings) (latency : Nat) (node : String) :
    Machine (Daemon Vec) Action where
  step := step settings latency node

/-! ## Steps -/

inductive Transition (settings : Settings) (latency : Nat) (node : String) (state : Daemon Vec) :
    Action → Daemon Vec → Prop
  | loops {action : WatchLoop.Action} {loop : WatchLoop Vec}
      (permitted : state.permits action = true)
      (taken : (WatchLoop.machine (some node)).step state.loop action = some loop) :
      Transition settings latency node state (.loop action)
        ((state.withLoop loop).keepTime action)
  | serves {action : Process.Action} {process : Process Vec}
      (inTime : state.inTime latency action = true)
      (taken : Process.Transition settings latency node state.process action process) :
      Transition settings latency node state (.task action)
        ({ state with process := process }.markStarted action)
  | processes {event : OomKillEvent} {read : Except ErrorKind String} {process : Process Vec}
      (inHand : state.position = .processing event)
      (taken : Process.Transition settings latency node state.process (.process event read)
        process) :
      Transition settings latency node state (.process read)
        { state with process := process, position := .reading [] }

variable {settings : Settings} {latency started : Nat} {node : String} {cpus : Nat}
  {state next : Daemon Vec} {action : Action}

theorem transition_of_step
    (stepped : (machine settings latency node).step state action = some next) :
    Transition settings latency node state action next := by
  cases action with
  | loop action =>
      simp only [machine, step] at stepped
      split at stepped
      · next permitted =>
          rcases Option.map_eq_some_iff.mp stepped with ⟨loop, taken, rfl⟩
          exact .loops permitted taken
      · cases stepped
  | task action =>
      simp only [machine, step] at stepped
      split at stepped
      · next inTime =>
          rcases Option.map_eq_some_iff.mp stepped with ⟨process, taken, rfl⟩
          exact .serves inTime (Process.transition_of_step taken)
      · cases stepped
  | process read =>
      simp only [machine, step] at stepped
      split at stepped
      · next event inHand =>
          rcases Option.map_eq_some_iff.mp stepped with ⟨process, taken, rfl⟩
          exact .processes inHand (Process.transition_of_step taken)
      all_goals cases stepped

omit [MetricVec Vec (List String)] in
@[simp] theorem loop_withLoop (state : Daemon Vec) (loop : WatchLoop Vec) :
    (state.withLoop loop).loop = loop := rfl

omit [MetricVec Vec (List String)] in
@[simp] theorem loop_keepTime (state : Daemon Vec) (action : WatchLoop.Action) :
    (state.keepTime action).loop = state.loop := by
  cases action <;> rfl

omit [MetricVec Vec (List String)] in
@[simp] theorem process_keepTime (state : Daemon Vec) (action : WatchLoop.Action) :
    (state.keepTime action).process = state.process := by
  cases action <;> rfl

omit [MetricVec Vec (List String)] in
@[simp] theorem loop_markStarted (state : Daemon Vec) (action : Process.Action) :
    (state.markStarted action).loop = state.loop := by
  cases action <;> rfl

omit [MetricVec Vec (List String)] in
@[simp] theorem process_markStarted (state : Daemon Vec) (action : Process.Action) :
    (state.markStarted action).process = state.process := by
  cases action <;> rfl

/-! ## The probe -/

/-- While the loop drains, its last stamp is at most an interval older than the
tick it stamps next, and that one is not later than the latency allows. -/
structure Beats (latency : Nat) (state : Daemon Vec) : Prop where
  started : state.health.started = true ↔ state.process.eventProcessor = .draining
  past : state.health.lastBeatSeconds ≤ state.process.clock
  near : state.process.eventProcessor = .draining →
    state.beatDue ≤ state.health.lastBeatSeconds + heartbeatIntervalSeconds
  notLate : state.process.eventProcessor = .draining →
    state.process.clock ≤ state.beatDue + latency
  ticking : state.process.eventProcessor = .draining →
    state.nextBeat = state.beatDue ∨ (state.position = .beating ∧
      state.nextBeat = state.beatDue + heartbeatIntervalSeconds ∧
      state.beatDue ≤ state.process.clock)

theorem beats_start (settings : Settings) (latency clock cpus : Nat) :
    Beats latency (start settings clock cpus : Daemon Vec) where
  started := iff_of_false nofun nofun
  past := Nat.zero_le _
  near := nofun
  notLate := nofun
  ticking := nofun

omit [MetricVec Vec (List String)] in
theorem Beats.of_same (beats : Beats latency state)
    (sameHealth : next.health = state.health)
    (sameClock : next.process.clock = state.process.clock)
    (sameTask : next.process.eventProcessor = state.process.eventProcessor)
    (sameNext : next.nextBeat = state.nextBeat) (sameDue : next.beatDue = state.beatDue)
    (stays : state.position = .beating → next.position = .beating) : Beats latency next where
  started := by
    rw [sameHealth, sameTask]
    exact beats.started
  past := by
    rw [sameHealth, sameClock]
    exact beats.past
  near := by
    rw [sameTask, sameDue, sameHealth]
    exact beats.near
  notLate := by
    rw [sameTask, sameClock, sameDue]
    exact beats.notLate
  ticking := by
    rw [sameTask, sameNext, sameDue, sameClock]
    exact fun draining => (beats.ticking draining).imp_right fun late => ⟨stays late.1, late.2⟩

theorem Beats.loop (beats : Beats latency state) {taken : WatchLoop.Action}
    {loop : WatchLoop Vec} (permitted : state.permits taken = true)
    (transition : WatchLoop.Transition (some node) state.loop taken loop) :
    Beats latency ((state.withLoop loop).keepTime taken) := by
  cases transition with
  | ticks waiting _ =>
      rcases of_decide_eq_true permitted with ⟨draining, due⟩
      refine ⟨beats.started, beats.past, beats.near, beats.notLate, fun _ => ?_⟩
      rcases beats.ticking draining with onTime | ⟨beating, _⟩
      · exact .inr ⟨rfl, congrArg (· + heartbeatIntervalSeconds) onTime, onTime ▸ due⟩
      · exact nomatch waiting.symm.trans beating
  | beats _ =>
      refine ⟨beats.started, Nat.le_refl _, fun draining => ?_, fun draining => ?_,
        fun _ => .inl rfl⟩
      · have near := beats.near draining
        have past := beats.past
        change state.nextBeat ≤ state.process.clock + heartbeatIntervalSeconds
        rcases beats.ticking draining with onTime | ⟨_, moved, due⟩ <;> omega
      · have notLate := beats.notLate draining
        change state.process.clock ≤ state.nextBeat + latency
        rcases beats.ticking draining with onTime | ⟨_, moved, due⟩ <;> omega
  | fires _ | delivers _ => exact beats.of_same rfl rfl rfl rfl rfl id
  | calls waiting _ | continues waiting _ =>
      exact beats.of_same rfl rfl rfl rfl rfl fun beating => nomatch waiting.symm.trans beating
  | processes inHand =>
      exact beats.of_same rfl rfl rfl rfl rfl fun beating => nomatch inHand.symm.trans beating
  | reads reading _ | readsAll reading _ =>
      exact beats.of_same rfl rfl rfl rfl rfl fun beating => nomatch reading.symm.trans beating
  | reports reporting =>
      exact beats.of_same rfl rfl rfl rfl rfl fun beating => nomatch reporting.symm.trans beating

theorem Beats.task (beats : Beats latency state) {taken : Process.Action}
    {process : Process Vec} (inTime : state.inTime latency taken = true)
    (transition : Process.Transition settings latency node state.process taken process) :
    Beats latency ({ state with process := process }.markStarted taken) := by
  cases transition with
  | @passes seconds _ _ =>
      have allowed := of_decide_eq_true inTime
      refine ⟨beats.started, beats.past.trans (Nat.le_add_right _ _), beats.near, allowed, ?_⟩
      intro draining
      refine (beats.ticking draining).imp_right fun late => ⟨late.1, late.2.1, ?_⟩
      exact late.2.2.trans (Nat.le_add_right _ _)
  | begins isWaiting released =>
      refine ⟨iff_of_true rfl rfl, Nat.le_refl _, fun _ => Nat.le_refl _, fun _ => ?_,
        fun _ => .inl rfl⟩
      exact (Nat.le_add_right _ _).trans (Nat.le_add_right _ _)
  | observes _ | rehashes _ | sweeps _ _ => exact beats.of_same rfl rfl rfl rfl rfl id
  | processes _ _ => cases inTime

theorem Beats.step (beats : Beats latency state)
    (transition : Transition settings latency node state action next) : Beats latency next := by
  cases transition with
  | loops permitted taken =>
      exact beats.loop permitted (WatchLoop.transition_of_step taken)
  | serves inTime taken => exact beats.task inTime taken
  | processes inHand taken =>
      cases taken with
      | processes _ _ =>
          refine beats.of_same rfl rfl rfl rfl rfl fun beating => ?_
          exact nomatch inHand.symm.trans beating

/-- The age that the probe reports is at most that of a tick's stamp when the next
one is as late as it can be; so while no tick is later than two intervals, the
answer is 200 exactly while the loop drains. -/
theorem probe_of_served_loop {actions : List Action}
    (ran : (machine settings latency node).run (start settings started cpus) actions =
      some state) :
    (∀ age, state.health.liveness state.process.clock = .live age ∨
        state.health.liveness state.process.clock = .stale age →
      age ≤ heartbeatIntervalSeconds + latency) ∧
      (latency ≤ 2 * heartbeatIntervalSeconds →
        ((report (state.health.liveness state.process.clock)).1 = 200 ↔
          state.process.eventProcessor = .draining)) := by
  have beats : Beats latency state := Machine.invariant_of_any_run
    (fun beats stepped => beats.step (transition_of_step stepped))
    (beats_start settings latency started cpus) ran
  by_cases draining : state.process.eventProcessor = .draining
  · have young : state.process.clock - state.health.lastBeatSeconds ≤
        heartbeatIntervalSeconds + latency := by
      have near := beats.near draining
      have notLate := beats.notLate draining
      omega
    rw [Health.liveness, beats.started.mpr draining]
    simp only [Bool.not_true, Bool.false_eq_true, if_false, Health.livenessOfStamp]
    constructor
    · intro age answered
      have isAge : state.process.clock - state.health.lastBeatSeconds = age := by
        split at answered <;> simpa using answered
      exact isAge ▸ young
    · intro served
      rw [if_neg (by simp only [heartbeatStaleAfterSeconds]; omega)]
      exact iff_of_true rfl draining
  · have notStarted : state.health.started = false :=
      Bool.eq_false_iff.mpr fun isStarted => draining (beats.started.mp isStarted)
    rw [Health.liveness, notStarted]
    constructor
    · intro age answered
      rcases answered with isLive | isStale
      · cases isLive
      · cases isStale
    · intro _
      have unavailable : (report .starting).1 ≠ 200 := by decide
      exact iff_of_false unavailable draining

/-- The stamp of the start is 90 seconds old before the first tick is stamped. -/
theorem probe_of_served_loop_late_tick :
    ∃ state : Daemon LabelVec,
      (machine (Settings.ofEnv fun _ => none) 60 "node-1").run
          (start (Settings.ofEnv fun _ => none) 0 1)
          [.task (.pass 10), .task .beginDraining, .task (.pass 90)] = some state ∧
        (report (state.health.liveness state.process.clock)).1 = 200 := by
  apply Machine.exists_run_of_decided fun state : Daemon LabelVec =>
    state.process.eventProcessor = .draining
  · intro state ran draining
    exact ((probe_of_served_loop ran).2 (by decide)).mpr draining
  · decide

end Daemon

end OomWatcher
