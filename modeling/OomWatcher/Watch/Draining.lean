import OomWatcher.Watch.Storm

/-! # Draining

The steps the loop takes by itself: there are only so many of them, and after the
last one the registry has counted every kill the ring took. -/

namespace OomWatcher

variable {Vec : Type} [MetricVec Vec (List String)]

/-! ## The work that is left -/

/-- The steps of `next` up to its await, from where a call stands. A record is
secured on the way from `holding` to `releasing`. -/
def NextPosition.work : NextPosition → Nat
  | .awaiting | .ended => 0
  | .top => 1
  | .away | .drained _ | .holding _ _ => 2
  | .draining _ => 3
  | .releasing _ _ => 4

def LoopPosition.work (cpus : Nat) : LoopPosition → Nat
  | .waiting => 0
  | .beating => 1
  | .reporting _ => 2
  | .reading values => 3 + (cpus - values.length)
  | .processing _ => 4 + cpus

namespace Polled

def unsecured (state : Polled) : Nat :=
  match state.position with
  | .releasing _ _ => state.source.unreleased - 1
  | _ => state.source.unreleased

/-- Whether the ring is drained once more without another edge: a guard that no
edge has overtaken clears the readiness. -/
def rounds (state : Polled) : Nat :=
  match state.position.guard with
  | none => if state.source.readiness.ready then 1 else 0
  | some guard =>
      if state.source.readiness.ready ∧ guard ≠ state.source.readiness.tick then 1 else 0

/-- A bound on the steps that are left. A pending event takes a turn of the loop,
a record a round of the drain besides, and an edge at most two rounds. -/
def work (state : Polled) : Nat :=
  let turn := 6 + state.source.dropped.length
  (turn + 3) * state.unsecured + turn * state.source.pending.length + 4 * state.rounds +
    (if state.source.readiness.inFlight then 8 else 0) + state.position.work

theorem rounds_le (state : Polled) : state.rounds ≤ 1 := by
  rw [rounds]
  split <;> split <;> omega

theorem work_deliver {state : Polled} (inFlight : state.source.readiness.inFlight = true) :
    work { state with
      source := { state.source with readiness := state.source.readiness.deliver } } <
        state.work := by
  have few := rounds_le { state with
    source := { state.source with readiness := state.source.readiness.deliver } }
  simp only [work, inFlight, if_true]
  have same : unsecured { state with
      source := { state.source with readiness := state.source.readiness.deliver } } =
        state.unsecured := rfl
  rw [same]
  simp only [Readiness.deliver, Bool.false_eq_true, if_false] at few ⊢
  omega

theorem work_continueNext {state after : Polled} (sound : Sound state)
    (continued : state.continueNext = some after) :
    after.work + ((WatchLoop.returning state).elim LoopPosition.waiting .processing).work
      state.source.dropped.length < state.work := by
  rcases state with ⟨⟨ring, ⟨inFlight, ready, tick⟩, pending, dropped⟩, position, handedOut⟩
  cases position with
  | away | ended => cases continued
  | top =>
      cases pending with
      | cons event rest =>
          cases continued
          simp [work, unsecured, RingBufSource.unreleased, rounds, NextPosition.guard,
            NextPosition.work, WatchLoop.returning, LoopPosition.work, Nat.mul_add]
          omega
      | nil =>
          cases continued
          simp [work, unsecured, rounds, NextPosition.guard, NextPosition.work,
            WatchLoop.returning, LoopPosition.work]
  | awaiting =>
      simp only [continueNext] at continued
      split at continued
      · next isReady =>
          cases continued
          have isTrue : ready = true := isReady
          simp [work, unsecured, rounds, NextPosition.guard, NextPosition.work,
            WatchLoop.returning, LoopPosition.work, isTrue]
          omega
      · cases continued
  | draining guard =>
      simp only [continueNext] at continued
      split at continued <;> cases continued <;>
        simp [work, unsecured, rounds, NextPosition.guard, NextPosition.work,
          WatchLoop.returning, LoopPosition.work]
  | holding guard record =>
      simp only [continueNext, if_pos record.whole] at continued
      cases continued
      have unread : ring.consumer < ring.slots.length :=
        RingQueue.consumer_lt_of_readable (sound.item record rfl)
      rcases Nat.exists_eq_add_of_lt unread with ⟨others, split⟩
      have before : ring.slots.length - ring.consumer = others + 1 := by omega
      simp [work, unsecured, RingBufSource.unreleased, rounds, NextPosition.guard,
        NextPosition.work, WatchLoop.returning, LoopPosition.work, before, Nat.mul_add]
      omega
  | releasing guard record =>
      cases continued
      have released := RingQueue.consumer_release (sound.item record rfl)
      simp [work, unsecured, RingBufSource.unreleased, rounds, NextPosition.guard,
        NextPosition.work, WatchLoop.returning, LoopPosition.work, released, Nat.sub_sub]
  | drained guard =>
      cases continued
      by_cases current : tick = guard
      · simp [work, unsecured, RingBufSource.unreleased, rounds, NextPosition.guard,
          NextPosition.work, WatchLoop.returning, LoopPosition.work, Readiness.clear, current]
      · simp [work, unsecured, RingBufSource.unreleased, rounds, NextPosition.guard,
          NextPosition.work, WatchLoop.returning, LoopPosition.work, Readiness.clear, current,
          Ne.symm current]

end Polled

namespace WatchLoop

/-- Steps that the loop and the reactor take without a firing or a tick, but for the
processing of a kill in hand. -/
def Action.isOwn : Action → Bool
  | .deliver | .poll | .readDropped | .report | .beat => true
  | .fire _ _ | .tick | .process _ _ => false

theorem kills_of_isOwn {action : Action} (own : action.isOwn = true) : action.kills = [] := by
  cases action <;> first | rfl | cases own

def work (state : WatchLoop Vec) : Nat :=
  state.polled.work + state.position.work state.polled.source.dropped.length

variable {nodeName : Option String} {state next : WatchLoop Vec} {action : Action}

theorem Transition.work_lt (transition : Transition nodeName state action next)
    (own : action.isOwn = true) (accounts : Accounts nodeName state) : next.work < state.work := by
  cases transition with
  | fires online | ticks waiting idle | processes inHand => cases own
  | delivers inFlight => exact Nat.add_lt_add_right (Polled.work_deliver inFlight) _
  | calls waiting away =>
      simp [work, Polled.work, Polled.unsecured, Polled.rounds, away, NextPosition.guard,
        NextPosition.work]
  | continues waiting continued =>
      have less := Polled.work_continueNext accounts.sound continued
      rw [work, work, (unreleased_continueNext continued).2, waiting]
      exact less
  | reads reading found =>
      have inside := (List.getElem?_eq_some_iff.mp found).1
      simp only [work, reading, LoopPosition.work, List.length_append, List.length_singleton]
      omega
  | readsAll reading all =>
      simp only [work, reading, LoopPosition.work]
      omega
  | reports reporting =>
      simp only [work, reporting, LoopPosition.work]
      omega
  | beats beating =>
      simp only [work, beating, LoopPosition.work]
      omega

omit [MetricVec Vec (List String)] in
theorem work_lt_of_processed {event : OomKillEvent} (inHand : state.position = .processing event)
    (samePolled : next.polled = state.polled) (reading : next.position = .reading []) :
    next.work < state.work := by
  simp only [work, samePolled, inHand, reading, LoopPosition.work, List.length_nil]
  omega

/-! ## Where a loop comes to rest -/

/-- The probe leaves no record uncommitted, and `next` does not fail. -/
structure Tidy (state : WatchLoop Vec) : Prop where
  committed : ∀ slot ∈ state.polled.source.ring.slots, slot.committed = true
  running : state.polled.position ≠ .ended

theorem tidy_start (cpus : Nat) : Tidy (start cpus : WatchLoop Vec) where
  committed _ member := nomatch member
  running := nofun

theorem committed_markVictim {source : RingBufSource} (cpu : Nat) (event : OomKillEvent)
    (committed : ∀ slot ∈ source.ring.slots, slot.committed = true) :
    ∀ slot ∈ (markVictim source cpu event).ring.slots, slot.committed = true := by
  rw [markVictim]
  split
  · intro slot member
    rw [Polled.commit, RingQueue.slots_commit_reserve] at member
    rcases List.mem_append.mp member with earlier | new
    · exact committed slot earlier
    · rw [List.mem_singleton.mp new]
  · exact committed

theorem position_continueNext {polled after : Polled}
    (continued : polled.continueNext = some after) : after.position ≠ .ended := by
  intro ended
  rcases polled with ⟨source, position, handedOut⟩
  cases position with
  | away | ended => cases continued
  | top | awaiting | draining guard =>
      simp only [Polled.continueNext] at continued
      split at continued <;> cases continued <;> cases ended
  | holding guard record | releasing guard record | drained guard =>
      cases continued
      cases ended

theorem Transition.tidy (transition : Transition nodeName state action next)
    (tidy : Tidy state) : Tidy next := by
  cases transition with
  | fires online => exact ⟨committed_markVictim _ _ tidy.committed, tidy.running⟩
  | delivers inFlight => exact ⟨tidy.committed, tidy.running⟩
  | calls waiting away => exact ⟨tidy.committed, nofun⟩
  | continues waiting continued =>
      refine ⟨?_, position_continueNext continued⟩
      rw [Polled.slots_continueNext continued]
      exact tidy.committed
  | ticks waiting idle => exact ⟨tidy.committed, nofun⟩
  | processes inHand | reads reading found | readsAll reading all | reports reporting
  | beats beating => exact ⟨tidy.committed, tidy.running⟩

theorem tidy_of_run {cpus : Nat} {actions : List Action}
    (ran : (machine nodeName).run (start cpus) actions = some state) : Tidy state :=
  Machine.invariant_of_any_run (fun tidy stepped => (transition_of_step stepped).tidy tidy)
    (tidy_start cpus) ran

theorem exists_continueNext {polled : Polled} (running : polled.position ≠ .ended)
    (called : polled.position ≠ .away)
    (ready : polled.position = .awaiting → polled.source.readiness.ready = true) :
    ∃ after, polled.continueNext = some after := by
  rcases polled with ⟨source, position, handedOut⟩
  cases position with
  | away => exact absurd rfl called
  | ended => exact absurd rfl running
  | top =>
      simp only [Polled.continueNext]
      split <;> exact ⟨_, rfl⟩
  | awaiting => exact ⟨_, if_pos (ready rfl)⟩
  | draining guard =>
      simp only [Polled.continueNext]
      split <;> exact ⟨_, rfl⟩
  | holding guard record | releasing guard record | drained guard => exact ⟨_, rfl⟩

theorem drained_of_parked {polled : Polled} (sound : Polled.Sound polled)
    (committed : ∀ slot ∈ polled.source.ring.slots, slot.committed = true)
    (parked : polled.Parked) :
    polled.source.ring.consumer = polled.source.ring.slots.length ∧
      polled.source.pending = [] := by
  refine ⟨?_, sound.awaiting parked.1⟩
  by_contra left
  have inside : polled.source.ring.consumer < polled.source.ring.slots.length :=
    Nat.lt_of_le_of_ne polled.source.ring.consumer_le left
  have isCommitted := committed _ (List.getElem_mem inside)
  have readable : polled.source.ring.front =
      some polled.source.ring.slots[polled.source.ring.consumer].value := by
    rw [RingQueue.front_eq_some_iff, List.getElem?_eq_getElem inside]
    exact congrArg some (by rw [← isCommitted])
  rw [(sound.handedOut_of_parked parked).2] at readable
  cases readable

/-- A loop that can take no step of its own has a kill in hand or is settled. -/
theorem settled_of_stuck (tidy : Tidy state) (accounts : Accounts nodeName state)
    (stuck : ∀ action, action.isOwn = true → (machine nodeName).step state action = none)
    (noneInHand : state.position.kills = []) : state.Settled := by
  cases position : state.position with
  | processing event =>
      rw [position] at noneInHand
      cases noneInHand
  | reading values =>
      have none := stuck .readDropped rfl
      simp only [machine, WatchLoop.step, position] at none
      split at none <;> cases none
  | reporting total =>
      have none := stuck .report rfl
      simp only [machine, WatchLoop.step, position] at none
      cases none
  | beating =>
      have none := stuck .beat rfl
      simp only [machine, WatchLoop.step, position] at none
      cases none
  | waiting =>
      have noPoll := stuck .poll rfl
      have noEdge := stuck .deliver rfl
      simp only [machine, WatchLoop.step, WatchLoop.poll, position, Polled.step,
        Option.map_eq_none_iff] at noPoll noEdge
      by_cases called : state.polled.position = .away
      · rw [if_pos called] at noPoll
        simp [called] at noPoll
      · rw [if_neg called] at noPoll
        have parked : state.polled.Parked := by
          by_contra notParked
          have goesOn : ∃ after, state.polled.continueNext = some after := by
            apply exists_continueNext tidy.running called
            intro awaiting
            by_contra notReady
            refine notParked ⟨awaiting, Bool.eq_false_iff.mpr notReady, ?_⟩
            rw [Bool.eq_false_iff]
            intro inFlight
            rw [if_pos inFlight] at noEdge
            cases noEdge
          rcases goesOn with ⟨after, continued⟩
          rw [continued] at noPoll
          cases noPoll
        exact ⟨position, drained_of_parked accounts.sound tidy.committed parked⟩

/-- In every interleaving, a loop that waits with nothing in the ring and nothing
pending has recorded every firing or counted it as dropped. -/
theorem firings_accounted {nodeName : Option String} {cpus : Nat} {actions : List Action}
    {state : WatchLoop Vec}
    (ran : (machine nodeName).run (start cpus) actions = some state)
    (waiting : state.position = .waiting)
    (ringEmpty : state.polled.source.ring.consumer = state.polled.source.ring.slots.length)
    (nonePending : state.polled.source.pending = []) :
    state.firings = killsRecorded state.collector (nodeLabel nodeName) +
      dropsRecorded state.collector (nodeLabel nodeName) := by
  have accounts := accounts_of_run ran
  rcases accounts.of_settled ⟨waiting, ringEmpty, nonePending⟩ with ⟨_, kills, drops⟩
  rw [accounts.fired, kills, drops]

structure Resting (nodeName : Option String) (drops : Nat) (state : WatchLoop Vec) : Prop where
  accounts : Accounts nodeName state
  tidy : Tidy state
  dropped : state.polled.source.dropped.sum = drops

theorem Resting.step {drops : Nat} (resting : Resting nodeName drops state)
    (stepped : (machine nodeName).step state action = some next) (quiet : action.kills = []) :
    Resting nodeName drops next where
  accounts := resting.accounts.step stepped
  tidy := (transition_of_step stepped).tidy resting.tidy
  dropped := ((transition_of_step stepped).fills.2 (.inl quiet)).trans resting.dropped

/-- A loop that is not settled has a step of its own, which leaves less work. -/
theorem Resting.exists_step {drops : Nat} (resting : Resting nodeName drops state)
    (notSettled : ¬state.Settled) :
    ∃ action next, action.kills = [] ∧ (machine nodeName).step state action = some next ∧
      Resting nodeName drops next ∧ next.work < state.work := by
  by_cases noneInHand : state.position.kills = []
  · have notStuck := mt (settled_of_stuck resting.tidy resting.accounts · noneInHand) notSettled
    push Not at notStuck
    rcases notStuck with ⟨action, own, enabled⟩
    rcases Option.ne_none_iff_exists'.mp enabled with ⟨next, stepped⟩
    have quiet := kills_of_isOwn own
    exact ⟨action, next, quiet, stepped, resting.step stepped quiet,
      (transition_of_step stepped).work_lt own resting.accounts⟩
  · cases position : state.position with
    | processing event =>
        let next : WatchLoop Vec := { state with
          collector := processEvent state.collector nodeName event .notFound 0
          position := .reading [] }
        have stepped : (machine nodeName).step state (.process .notFound 0) = some next := by
          simp only [machine, WatchLoop.step, position, next]
        exact ⟨_, next, rfl, stepped, resting.step stepped rfl,
          work_lt_of_processed position rfl rfl⟩
    | waiting | reading values | reporting total | beating =>
        rw [position] at noneInHand
        exact absurd rfl noneInHand

/-- Two CPUs fire one kill more than the ring has room for, and the loop comes to
rest. -/
theorem firings_accounted_after_overflow :
    ∃ (own : List Action) (state : WatchLoop LabelVec),
      (machine (some "node-1")).run (start 2)
          (burst 2978 ++ [.fire 1 (Polled.recordOf 1).event] ++ own) = some state ∧
        state.firings = killsRecorded state.collector "node-1" +
          dropsRecorded state.collector "node-1" ∧
        dropsRecorded state.collector "node-1" = 1 := by
  have capacity : ringCapacity = 2978 := by decide
  rw [← capacity]
  rcases @exists_run_overflow LabelVec _ (some "node-1") 2 1 (by decide) with
    ⟨full, ran, oneDropped⟩
  have resting : Resting (some "node-1") 1 full :=
    ⟨accounts_of_run ran, tidy_of_run ran, oneDropped⟩
  rcases Machine.exists_run_of_progress work (fun _ => Resting.exists_step) resting with
    ⟨own, state, _, ranOn, atRest, settled⟩
  have all : (machine (some "node-1")).run (start 2)
      (burst ringCapacity ++ [.fire 1 (Polled.recordOf 1).event] ++ own) = some state := by
    rw [Machine.run_append, ran]
    exact ranOn
  rcases atRest.accounts.of_settled settled with ⟨_, _, drops⟩
  exact ⟨own, state, all, firings_accounted all settled.1 settled.2.1 settled.2.2,
    drops.trans atRest.dropped⟩

end WatchLoop

/-! ## Runs of the daemon -/

namespace Daemon

def Action.isOwn : Action → Bool
  | .loop action => action.isOwn
  | .process _ => true
  | .task _ => false

variable {settings : Settings} {latency started cpus : Nat} {node : String}
  {state next : Daemon Vec} {action : Action}

theorem Transition.tidy (transition : Transition settings latency node state action next)
    (tidy : state.loop.Tidy) : next.loop.Tidy := by
  cases transition with
  | loops permitted stepped =>
      rw [loop_keepTime, loop_withLoop]
      exact (WatchLoop.transition_of_step stepped).tidy tidy
  | serves inTime served =>
      rw [loop_markStarted]
      exact ⟨tidy.committed, tidy.running⟩
  | processes inHand processed => exact ⟨tidy.committed, tidy.running⟩

theorem tidy_of_run {actions : List Action}
    (ran : (machine settings latency node).run (start settings started cpus) actions =
      some state) : state.loop.Tidy := by
  have atStart : (start settings started cpus : Daemon Vec).loop.Tidy := WatchLoop.tidy_start cpus
  exact @Machine.invariant_of_any_run _ _ _ (fun state : Daemon Vec => state.loop.Tidy)
    (fun tidy stepped => (transition_of_step stepped).tidy tidy) _ _ _ atStart ran

structure Drains (before : Daemon Vec) (node : String) (taken : List Action) (state : Daemon Vec) :
    Prop where
  accounts : WatchLoop.Accounts (some node) state.loop
  draining : state.process.eventProcessor = .draining
  work : taken.length + state.loop.work ≤ before.loop.work
  accepted : state.loop.accepted = before.loop.accepted
  dropped : state.polled.source.dropped.sum = before.polled.source.dropped.sum

theorem Drains.step {before : Daemon Vec} {taken : List Action}
    (drains : Drains before node taken state) (own : action.isOwn = true)
    (transition : Transition settings latency node state action next) :
    Drains before node (taken ++ [action]) next := by
  have spends : ∀ {left : Nat}, left < state.loop.work →
      taken.length + 1 + left ≤ before.loop.work := by
    intro left less
    have work := drains.work
    omega
  cases transition with
  | @loops action loop permitted stepped =>
      have transition := WatchLoop.transition_of_step stepped
      have noKills : action.kills = [] := WatchLoop.kills_of_isOwn own
      rcases transition.accepted with ⟨_, accepts, few, isAccepted⟩
      rw [noKills, List.sublist_nil] at few
      rw [few, List.append_nil] at isAccepted
      constructor
      · rw [loop_keepTime, loop_withLoop]
        exact drains.accounts.step stepped
      · rw [process_keepTime]
        exact drains.draining
      · rw [loop_keepTime, loop_withLoop, List.length_append, List.length_singleton]
        exact spends (transition.work_lt own drains.accounts)
      · rw [loop_keepTime, loop_withLoop, isAccepted]
        exact drains.accepted
      · have same := (transition.fills.2 (.inl noKills)).trans drains.dropped
        cases action <;> exact same
  | serves inTime served => cases own
  | @processes event read process inHand processed =>
      cases processed with
      | @processes rawEvent read watcher draining served =>
          constructor
          · cases served with
            | processes rawEvent read timestamp => exact drains.accounts.process inHand _ _
          · exact draining
          · rw [List.length_append, List.length_singleton]
            exact spends (WatchLoop.work_lt_of_processed inHand rfl rfl)
          · exact drains.accepted
          · exact drains.dropped

/-- From a draining daemon on, the loop's own steps are limited in number, and when
it can take none, the collector has got every kill the ring had taken, in order and
one call at a time, and its counters of the node show as many, and every drop. -/
theorem kills_get_recorded {actions own : List Action} {final : Daemon Vec}
    (ran : (machine settings latency node).run (start settings started cpus) actions =
      some state)
    (draining : state.process.eventProcessor = .draining)
    (allOwn : ∀ action ∈ own, action.isOwn = true)
    (ranOn : (machine settings latency node).run state own = some final) :
    own.length + final.loop.work ≤ state.loop.work ∧
      ((∀ action : Action, action.isOwn = true →
          (machine settings latency node).step final action = none) →
        final.recordedKills = state.loop.accepted ∧
          WatchLoop.killsRecorded final.process.watcher.collector node =
              state.loop.accepted.length ∧
            WatchLoop.dropsRecorded final.process.watcher.collector node =
              state.polled.source.dropped.sum) := by
  have sound : Sound node started actions state := sound_of_run ran
  have all : (machine settings latency node).run (start settings started cpus) (actions ++ own) =
      some final := by
    rw [Machine.run_append, ran]
    exact ranOn
  have drains : (∀ action ∈ own, action.isOwn = true) → Drains state node own final := by
    refine @Machine.invariant_of_actions _ _ _ (fun (taken : List Action) (now : Daemon Vec) =>
      (∀ action ∈ taken, action.isOwn = true) → Drains state node taken now) ?_ _ _ _ ?_ ranOn
    · intro taken now action next drains stepped areOwn
      have isOwn := areOwn action (List.mem_append_right _ (List.mem_singleton.mpr rfl))
      exact (drains fun other member => areOwn other (List.mem_append_left _ member)).step isOwn
        (transition_of_step stepped)
    · intro _
      exact ⟨sound.accounts, draining, (Nat.zero_add _).le, rfl, rfl⟩
  have ended := drains allOwn
  refine ⟨ended.work, fun stuck => ?_⟩
  have settled : final.loop.Settled := by
    apply WatchLoop.settled_of_stuck (tidy_of_run all) ended.accounts
    · intro action own
      have none := stuck (.loop action) own
      have permitted : final.permits action = true := by
        cases action with
        | poll => exact decide_eq_true ended.draining
        | deliver | readDropped | report | beat => rfl
        | fire _ _ | tick | process _ _ => cases own
      simp only [machine, step, permitted, if_true, Option.map_eq_none_iff] at none
      exact none
    · cases position : final.position with
      | processing event =>
          have none := stuck (.process (.error .notFound)) rfl
          simp [machine, step, position, Process.step, ended.draining, Process.serve,
            Watcher.step] at none
      | waiting | reading values | reporting total | beating => exact congrArg _ position
  rcases (sound_of_run all).settled settled with ⟨allRecorded, allKills, allDrops⟩
  exact ⟨allRecorded.trans ended.accepted, ended.accepted ▸ allKills,
    allDrops.trans ended.dropped⟩

theorem stuck_of_parked (waiting : state.position = .waiting) (parked : state.polled.Parked)
    (own : action.isOwn = true) : (machine settings latency node).step state action = none := by
  rcases parked with ⟨awaiting, notReady, noEdge⟩
  cases action with
  | task action => cases own
  | process read => simp only [machine, step, waiting]
  | loop action =>
      have none : state.loop.step (some node) action = none := by
        cases action with
        | fire _ _ | tick | process _ _ => cases own
        | poll =>
            simp [WatchLoop.step, WatchLoop.poll, Daemon.loop, waiting, awaiting, Polled.step,
              Polled.continueNext, notReady]
        | deliver => simp [WatchLoop.step, Daemon.loop, Polled.step, noEdge]
        | readDropped | report | beat => simp only [WatchLoop.step, Daemon.loop, waiting]
      simp only [machine, step, none, Option.map_none, ite_self]

/-- A kill that was fired before the loop drains, and the steps that record it. -/
theorem kills_get_recorded_one_kill :
    ∃ state : Daemon LabelVec,
      (machine (Settings.ofEnv fun _ => none) 5 "node-1").run
          (start (Settings.ofEnv fun _ => none) 0 1)
          [.loop (.fire 0 (Polled.recordOf 1).event), .task (.pass 10), .task .beginDraining] =
        some state ∧
      ∃ final, (machine (Settings.ofEnv fun _ => none) 5 "node-1").run state
          ([.loop .deliver] ++ List.replicate 9 (.loop .poll) ++
            [.process (.error .notFound), .loop .readDropped, .loop .readDropped, .loop .report,
              .loop .beat, .loop .poll, .loop .poll]) = some final ∧
        final.recordedKills = state.loop.accepted ∧
          WatchLoop.killsRecorded final.process.watcher.collector "node-1" =
            state.loop.accepted.length := by
  apply Machine.exists_run_of_decided fun state : Daemon LabelVec =>
    state.process.eventProcessor = .draining ∧
      ((machine (Settings.ofEnv fun _ => none) 5 "node-1").run state
        ([.loop .deliver] ++ List.replicate 9 (.loop .poll) ++
          [.process (.error .notFound), .loop .readDropped, .loop .readDropped, .loop .report,
            .loop .beat, .loop .poll, .loop .poll])).any
        (fun final => decide (final.position = .waiting ∧ final.polled.Parked)) = true
  · intro state ran reached
    rcases reached with ⟨draining, ends⟩
    refine Machine.exists_run_of_decided _ (fun final ranOn parked => ?_) ends
    rcases kills_get_recorded ran draining (by decide) ranOn with ⟨_, whenStuck⟩
    rcases whenStuck fun _ own => stuck_of_parked parked.1 parked.2 own with ⟨all, kills, _⟩
    exact ⟨all, kills⟩
  · decide

end Daemon

end OomWatcher
