import OomWatcher.Watch.Firings

/-! # Storms

How many kills the ring takes while the loop takes none of them off it. -/

namespace OomWatcher

variable {Vec : Type} [MetricVec Vec (List String)]

def ringCapacity : Nat := (ringBytes - 1) / recordBytes

def RingBufSource.unreleased (source : RingBufSource) : Nat :=
  source.ring.slots.length - source.ring.consumer

theorem hasRoom_iff {source : RingBufSource} :
    hasRoom source.ring = true ↔ source.unreleased < ringCapacity := by
  have sizes : ringBytes = 262144 ∧ recordBytes = 88 := by decide
  rw [hasRoom, decide_eq_true_iff, RingBufSource.unreleased, ringCapacity, sizes.1, sizes.2]
  omega

theorem unreleased_markVictim (source : RingBufSource) (cpu : Nat) (event : OomKillEvent) :
    (markVictim source cpu event).unreleased =
      source.unreleased + if hasRoom source.ring then 1 else 0 := by
  have released := source.ring.consumer_le
  rw [markVictim]
  split
  · simp only [RingBufSource.unreleased, Polled.commit, RingQueue.commit, RingQueue.reserve,
      List.length_modify, List.length_append, List.length_singleton]
    omega
  · rfl

theorem dropped_markVictim (source : RingBufSource) {cpu : Nat}
    (online : cpu < source.dropped.length) (event : OomKillEvent) :
    (markVictim source cpu event).dropped.sum =
      source.dropped.sum + if hasRoom source.ring then 0 else 1 := by
  rw [markVictim]
  split
  · rfl
  · simpa using WatchLoop.sum_drop_modify source.dropped online 0

theorem unreleased_continueNext {polled after : Polled}
    (continued : polled.continueNext = some after) :
    after.source.unreleased ≤ polled.source.unreleased ∧
      after.source.dropped = polled.source.dropped := by
  rcases polled with ⟨source, position, handedOut⟩
  cases position with
  | away | ended => cases continued
  | top | awaiting | draining guard =>
      simp only [Polled.continueNext] at continued
      split at continued <;> cases continued <;> exact ⟨Nat.le_refl _, rfl⟩
  | holding guard record | drained guard =>
      cases continued
      exact ⟨Nat.le_refl _, rfl⟩
  | releasing guard record =>
      cases continued
      refine ⟨?_, rfl⟩
      simp only [RingBufSource.unreleased, RingQueue.slots_release]
      exact Nat.sub_le_sub_left (RingQueue.consumer_le_release _) _

theorem WatchLoop.Transition.fills {nodeName : Option String} {state next : WatchLoop Vec}
    {action : WatchLoop.Action} (transition : WatchLoop.Transition nodeName state action next) :
    next.polled.source.unreleased ≤ state.polled.source.unreleased + action.kills.length ∧
      (action.kills = [] ∨ state.polled.source.unreleased < ringCapacity →
        next.polled.source.dropped.sum = state.polled.source.dropped.sum) := by
  cases transition with
  | @fires cpu event online =>
      constructor
      · have filled := unreleased_markVictim state.polled.source cpu event
        change (markVictim state.polled.source cpu event).unreleased ≤
          state.polled.source.unreleased + 1
        split at filled <;> omega
      · intro room
        have dropped := dropped_markVictim state.polled.source online event
        rwa [if_pos (hasRoom_iff.mpr (room.resolve_left nofun))] at dropped
  | continues waiting continued =>
      rcases unreleased_continueNext continued with ⟨notMore, sameDropped⟩
      exact ⟨notMore, fun _ => congrArg _ sameDropped⟩
  | delivers inFlight | calls waiting away | ticks waiting idle | processes inHand
  | reads reading found | readsAll reading all | reports reporting | beats beating =>
      exact ⟨Nat.le_refl _, fun _ => rfl⟩

namespace WatchLoop

variable {nodeName : Option String} {state : WatchLoop Vec}

def burst (count : Nat) : List Action := List.replicate count (.fire 0 (Polled.recordOf 1).event)

theorem length_dropped_markVictim (source : RingBufSource) (cpu : Nat) (event : OomKillEvent) :
    (markVictim source cpu event).dropped.length = source.dropped.length := by
  rw [markVictim]
  split
  · rfl
  · exact List.length_modify _ _ _

theorem exists_step_fire {cpu : Nat} (online : cpu < state.polled.source.dropped.length)
    (event : OomKillEvent) :
    ∃ next, (machine nodeName).step state (.fire cpu event) = some next ∧
      next.polled.source = markVictim state.polled.source cpu event :=
  ⟨_, if_pos online, rfl⟩

theorem exists_run_burst {cpus : Nat} (online : 0 < cpus) {count : Nat}
    (fits : count ≤ ringCapacity) :
    ∃ state : WatchLoop Vec, (machine nodeName).run (start cpus) (burst count) = some state ∧
      state.polled.source.unreleased = count ∧ state.polled.source.dropped.sum = 0 ∧
        state.polled.source.dropped.length = cpus := by
  induction count with
  | zero => exact ⟨_, rfl, rfl, by simp [start, Polled.start], by simp [start, Polled.start]⟩
  | succ count induction =>
      rcases induction (Nat.le_of_succ_le fits) with ⟨state, ran, filled, none, allCpus⟩
      have isOnline : 0 < state.polled.source.dropped.length := by omega
      rcases exists_step_fire isOnline (Polled.recordOf 1).event with ⟨next, stepped, isSource⟩
      have room : hasRoom state.polled.source.ring = true := hasRoom_iff.mpr (by omega)
      refine ⟨next, ?_, ?_, ?_, ?_⟩
      · rw [burst, List.replicate_succ', Machine.run_append]
        change ((machine nodeName).run _ (burst count)).bind _ = _
        rw [ran]
        exact Machine.run_cons_eq_some.mpr ⟨next, stepped, rfl⟩
      · rw [isSource, unreleased_markVictim, if_pos room, filled]
      · rw [isSource, dropped_markVictim _ isOnline, if_pos room, none]
      · rw [isSource, length_dropped_markVictim]
        exact allCpus

theorem exists_run_overflow {cpus cpu : Nat} (online : cpu < cpus) :
    ∃ state : WatchLoop Vec,
      (machine nodeName).run (start cpus)
          (burst ringCapacity ++ [.fire cpu (Polled.recordOf 1).event]) = some state ∧
        state.polled.source.dropped.sum = 1 := by
  rcases @exists_run_burst Vec _ nodeName _ (Nat.zero_lt_of_lt online) _ (Nat.le_refl _) with
    ⟨full, ran, filled, none, allCpus⟩
  have isOnline : cpu < full.polled.source.dropped.length := allCpus ▸ online
  rcases exists_step_fire isOnline (Polled.recordOf 1).event with ⟨after, stepped, isSource⟩
  have noRoom : ¬hasRoom full.polled.source.ring = true := by
    rw [hasRoom_iff]
    omega
  refine ⟨after, ?_, ?_⟩
  · rw [Machine.run_append, ran]
    exact Machine.run_cons_eq_some.mpr ⟨after, stepped, rfl⟩
  · rw [isSource, dropped_markVictim _ isOnline, if_neg noRoom, none]

end WatchLoop

namespace Daemon

variable {settings : Settings} {latency started cpus : Nat} {node : String}
  {state next : Daemon Vec} {action : Action}

theorem Transition.fills (transition : Transition settings latency node state action next) :
    next.polled.source.unreleased ≤ state.polled.source.unreleased + action.kills.length ∧
      (action.kills = [] ∨ state.polled.source.unreleased < ringCapacity →
        next.polled.source.dropped.sum = state.polled.source.dropped.sum) := by
  cases transition with
  | @loops action loop permitted stepped =>
      have fills := (WatchLoop.transition_of_step stepped).fills
      cases action <;> exact fills
  | @serves action process inTime served =>
      cases action <;> exact ⟨Nat.le_refl _, fun _ => rfl⟩
  | processes inHand processed => exact ⟨Nat.le_refl _, fun _ => rfl⟩

def RidesOut (before : Daemon Vec) (taken : List Action) (state : Daemon Vec) : Prop :=
  (fired taken).length ≤ ringCapacity →
    state.polled.source.unreleased ≤ (fired taken).length ∧
      state.polled.source.dropped.sum = before.polled.source.dropped.sum

theorem RidesOut.step {before : Daemon Vec} {taken : List Action}
    (rides : RidesOut before taken state)
    (transition : Transition settings latency node state action next) :
    RidesOut before (taken ++ [action]) next := by
  intro few
  rw [fired_append_singleton, List.length_append] at few ⊢
  rcases rides (by omega) with ⟨filled, noneBefore⟩
  rcases transition.fills with ⟨fills, noneNow⟩
  refine ⟨by omega, (noneNow ?_).trans noneBefore⟩
  by_cases quiet : action.kills = []
  · exact .inl quiet
  · have fires := List.length_pos_iff.mpr quiet
    exact .inr (by omega)

def burst (count : Nat) : List Action := (WatchLoop.burst count).map .loop

theorem length_fired_burst (count : Nat) : (fired (burst count)).length = count := by
  rw [burst, WatchLoop.burst, List.map_replicate]
  induction count with
  | zero => rfl
  | succ count induction => exact congrArg (· + 1) induction

theorem run_burst {count : Nat} {loop : WatchLoop Vec}
    (ran : (WatchLoop.machine (some node)).run state.loop (WatchLoop.burst count) = some loop) :
    (machine settings latency node).run state (burst count) = some (state.withLoop loop) := by
  induction count generalizing state with
  | zero =>
      cases ran
      rfl
  | succ count induction =>
      rcases Machine.run_cons_eq_some.mp ran with ⟨middle, stepped, later⟩
      have next : (machine settings latency node).step state
          (.loop (.fire 0 (Polled.recordOf 1).event)) = some (state.withLoop middle) :=
        congrArg (Option.map fun loop => (state.withLoop loop).keepTime _) stepped
      have rest := @induction (state.withLoop middle) later
      exact Machine.run_cons_eq_some.mpr ⟨_, next, rest⟩

/-- A storm drops nothing, wherever it finds the daemon with a drained ring and
whatever else goes on, exactly if it is of no more than 2978 kills. -/
theorem storm_ridden_out_iff (settings : Settings) (latency started : Nat) (node : String)
    {cpus : Nat} (online : 0 < cpus) (count : Nat) :
    (∀ (actions later : List Action) (before after : Daemon Vec),
        (machine settings latency node).run (start settings started cpus) actions = some before →
          before.polled.source.unreleased = 0 →
            (machine settings latency node).run before later = some after →
              (fired later).length ≤ count →
                after.polled.source.dropped.sum = before.polled.source.dropped.sum) ↔
      count ≤ 2978 := by
  have capacity : ringCapacity = 2978 := by decide
  rw [← capacity]
  constructor
  · intro ridden
    by_contra tooMany
    rcases @WatchLoop.exists_run_overflow Vec _ (some node) _ _ online with
      ⟨after, ran, dropped⟩
    have sameBurst : WatchLoop.burst (ringCapacity + 1) =
        WatchLoop.burst ringCapacity ++ [.fire 0 (Polled.recordOf 1).event] :=
      List.replicate_succ'
    rw [← sameBurst] at ran
    have ranOn := @run_burst _ _ settings latency _ (start settings started cpus) _ _ ran
    have kept := ridden [] _ _ _ rfl rfl ranOn (by rw [length_fired_burst]; omega)
    have none : (start settings started cpus : Daemon Vec).polled.source.dropped.sum = 0 := by
      simp [start, Polled.start]
    rw [none] at kept
    exact absurd (dropped.symm.trans kept) Nat.one_ne_zero
  · intro fits actions later before after _ drained ran few
    have rides : RidesOut before later after := Machine.invariant_of_actions
      (fun rides stepped => rides.step (transition_of_step stepped))
      (fun _ => ⟨Nat.le_of_eq drained, rfl⟩) ran
    exact (rides (few.trans fits)).2

/-- One more is too many. -/
theorem storm_ridden_out_iff_one_cpu :
    ¬ ∀ (actions later : List Action) (before after : Daemon LabelVec),
      (machine (Settings.ofEnv fun _ => none) 5 "node-1").run
          (start (Settings.ofEnv fun _ => none) 0 1) actions = some before →
        before.polled.source.unreleased = 0 →
          (machine (Settings.ofEnv fun _ => none) 5 "node-1").run before later = some after →
            (fired later).length ≤ 2979 →
              after.polled.source.dropped.sum = before.polled.source.dropped.sum := by
  rw [storm_ridden_out_iff _ 5 0 "node-1" Nat.one_pos 2979]
  decide

end Daemon

end OomWatcher
