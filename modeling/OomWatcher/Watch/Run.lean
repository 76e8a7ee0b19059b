import OomWatcher.Watch.Accounting
import OomWatcher.Watch.Heartbeat

/-! # The watch loop and its seams

The loop over any source, resolver and recorder: what it reports does not depend
on when the heartbeat ticks. -/

namespace OomWatcher

/-! ## The recorder -/

inductive RecorderCall
  | recordResolutionOutcome (node : String) (outcome : ResolutionOutcome)
  | recordOomEvent (event : EnrichedOomEvent)
  | recordDroppedTotal (node : String) (total : Nat)
deriving DecidableEq

def MetricsCollector.receive {Vec : Type} [MetricVec Vec (List String)]
    (collector : MetricsCollector Vec) : RecorderCall → MetricsCollector Vec
  | .recordResolutionOutcome node outcome => collector.recordResolutionOutcome node outcome
  | .recordOomEvent event => collector.recordOomEvent event
  | .recordDroppedTotal node total => collector.recordDroppedTotal node total

/-! ## The source -/

inductive SourcePoll (State Call : Type)
  | pending (state : State) (call : Call)
  | ready (state : State) (event : Option OomKillEvent)

/-- A source, the futures of its `next`, and what its environment does between
two polls. -/
structure OomEventSource (State Call Moment : Type) where
  next : State → Call
  poll : State → Call → Moment → SourcePoll State Call
  /-- The future is dropped. -/
  cancel : State → Call → State
  droppedTotal : State → Option Nat

/-- A cancel-safe source with finitely many events left, each with the total the
source reports after it. -/
structure FiniteSource (State Call Moment : Type) extends OomEventSource State Call Moment where
  remaining : State → List (OomKillEvent × Option Nat)
  /-- The events left while a future is in progress. -/
  underway : State → Call → List (OomKillEvent × Option Nat)
  underway_next : ∀ state, underway state (next state) = remaining state
  underway_pending : ∀ {state call moment after later},
    poll state call moment = .pending after later → underway after later = underway state call
  underway_event : ∀ {state call moment after event},
    poll state call moment = .ready after (some event) →
      underway state call = (event, droppedTotal after) :: remaining after
  underway_ended : ∀ {state call moment after},
    poll state call moment = .ready after none → underway state call = []
  remaining_cancel : ∀ state call, remaining (cancel state call) = underway state call

/-! ## The loop -/

/-- What the resolver, if there is one, and the clock answered for an event. -/
structure EventAnswers where
  outcome : Option ResolutionOutcome
  timestamp : Nat
deriving DecidableEq

def processCalls (nodeName : Option String) (rawEvent : OomKillEvent) (answers : EventAnswers) :
    List RecorderCall :=
  match nodeName, answers.outcome with
  | some node, some outcome =>
      [.recordResolutionOutcome node outcome,
        .recordOomEvent (enrich rawEvent (some node) outcome.identity answers.timestamp)]
  | _, _ => [.recordOomEvent (enrich rawEvent none none answers.timestamp)]

def reports (nodeName : Option String) (yielded : OomKillEvent × Option Nat)
    (answers : EventAnswers) : List RecorderCall :=
  processCalls nodeName yielded.1 answers ++
    (yielded.2.map (.recordDroppedTotal (WatchLoop.nodeLabel nodeName))).toList

/-- `process_event` with the Prometheus adapter as its recorder. -/
theorem processEvent_eq_foldl {Vec : Type} [MetricVec Vec (List String)]
    (collector : MetricsCollector Vec) (nodeName : Option String) (rawEvent : OomKillEvent)
    (outcome : ResolutionOutcome) (timestamp : Nat) :
    processEvent collector nodeName rawEvent outcome timestamp =
      (processCalls nodeName rawEvent ⟨nodeName.map fun _ => outcome, timestamp⟩).foldl
        MetricsCollector.receive collector := by
  cases nodeName <;> rfl

/-- Where the loop stands. In the `select!` the future of `next` is at hand. -/
inductive RunPosition (Call : Type)
  | selecting (call : Call)
  | processing (rawEvent : OomKillEvent)
  | beating
  | ended

structure WatchRun (State Call : Type) where
  source : State
  position : RunPosition Call
  trace : List RecorderCall
  beats : List Nat

namespace WatchRun

section Machine

variable {State Call Moment : Type} (source : OomEventSource State Call Moment)
  (nodeName : Option String)

def start (initial : State) : WatchRun State Call where
  source := initial
  position := .selecting (source.next initial)
  trace := []
  beats := []

/-- A poll of `next` or a tick, the body of the arm of an event, or a stamp. -/
inductive Action (Moment : Type)
  | poll (moment : Moment)
  | tick
  | process (answers : EventAnswers)
  | beat (now : Nat)

/-- The `select!` is over, and the future it did not complete dropped. -/
def wake (state : WatchRun State Call) (after : State) : Wake → WatchRun State Call
  | .event rawEvent => { state with source := after, position := .processing rawEvent }
  | .ended => { state with source := after, position := .ended }
  | .beat => { state with source := after, position := .beating }

def step (state : WatchRun State Call) : Action Moment → Option (WatchRun State Call)
  | .poll moment =>
      match state.position with
      | .selecting call =>
          match source.poll state.source call moment with
          | .pending after later =>
              some { state with source := after, position := .selecting later }
          | .ready after event => some (state.wake after (event.elim .ended .event))
      | _ => none
  | .tick =>
      match state.position with
      | .selecting call => some (state.wake (source.cancel state.source call) .beat)
      | _ => none
  | .process answers =>
      match state.position with
      | .processing rawEvent =>
          if answers.outcome.isSome = nodeName.isSome then
            some { state with
              trace := state.trace ++
                reports nodeName (rawEvent, source.droppedTotal state.source) answers
              position := .beating }
          else none
      | _ => none
  | .beat now =>
      match state.position with
      | .beating =>
          some { state with
            beats := state.beats ++ [now]
            position := .selecting (source.next state.source) }
      | _ => none

def machine : Machine (WatchRun State Call) (Action Moment) where
  step := step source nodeName

end Machine

def Action.answers {Moment : Type} : Action Moment → Option EventAnswers
  | .process answers => some answers
  | .poll _ | .tick | .beat _ => none

/-- An enriched event: its raw event unchanged, the node iff there is a resolver,
and the five fields of the identity iff it was found. -/
structure Enriches (nodeName : Option String) (rawEvent : OomKillEvent) (answers : EventAnswers)
    (event : EnrichedOomEvent) : Prop where
  rawEvent : event.rawEvent = rawEvent
  timestamp : event.timestamp = answers.timestamp
  nodeName : event.nodeName = nodeName
  found : ∀ identity, answers.outcome = some (.found identity) →
    event.ns = some identity.ns ∧ event.podName = some identity.podName ∧
      event.containerName = some identity.containerName ∧
      event.containerId = some identity.containerId ∧ event.imageId = some identity.imageId
  otherwise : (∀ identity, answers.outcome ≠ some (.found identity)) →
    event.ns = none ∧ event.podName = none ∧ event.containerName = none ∧
      event.containerId = none ∧ event.imageId = none

/-- The calls for an event, in order: its outcome iff there is a resolver, then the
event, then the drops iff the source reports a total. -/
inductive CallsFor (rawEvent : OomKillEvent) (answers : EventAnswers) :
    Option String → Option Nat → List RecorderCall → Prop
  | resolved {node : String} {outcome : ResolutionOutcome} {event : EnrichedOomEvent}
      (answered : answers.outcome = some outcome)
      (enriches : Enriches (some node) rawEvent answers event) :
      CallsFor rawEvent answers (some node) none
        [.recordResolutionOutcome node outcome, .recordOomEvent event]
  | resolvedWithTotal {node : String} {outcome : ResolutionOutcome} {event : EnrichedOomEvent}
      (total : Nat) (answered : answers.outcome = some outcome)
      (enriches : Enriches (some node) rawEvent answers event) :
      CallsFor rawEvent answers (some node) (some total)
        [.recordResolutionOutcome node outcome, .recordOomEvent event,
          .recordDroppedTotal node total]
  | standalone {event : EnrichedOomEvent} (unanswered : answers.outcome = none)
      (enriches : Enriches none rawEvent answers event) :
      CallsFor rawEvent answers none none [.recordOomEvent event]
  | standaloneWithTotal {event : EnrichedOomEvent} (total : Nat)
      (unanswered : answers.outcome = none) (enriches : Enriches none rawEvent answers event) :
      CallsFor rawEvent answers none (some total)
        [.recordOomEvent event, .recordDroppedTotal "unknown" total]

def answersOf {Moment : Type} (actions : List (Action Moment)) : List EventAnswers :=
  actions.filterMap Action.answers

def traceOf (nodeName : Option String) (yielded : List (OomKillEvent × Option Nat))
    (answers : List EventAnswers) : List RecorderCall :=
  (yielded.zip answers).flatMap fun (event, answer) => reports nodeName event answer

theorem traceOf_append {nodeName : Option String} {first second : List (OomKillEvent × Option Nat)}
    {firstAnswers secondAnswers : List EventAnswers}
    (sameLength : first.length = firstAnswers.length) :
    traceOf nodeName (first ++ second) (firstAnswers ++ secondAnswers) =
      traceOf nodeName first firstAnswers ++ traceOf nodeName second secondAnswers := by
  rw [traceOf, List.zip_append sameLength, List.flatMap_append]
  rfl

theorem enriches_enrich (nodeName : Option String) (rawEvent : OomKillEvent)
    (answers : EventAnswers) {identity : Option ContainerIdentity}
    (isIdentity : identity = answers.outcome.bind ResolutionOutcome.identity) :
    Enriches nodeName rawEvent answers (enrich rawEvent nodeName identity answers.timestamp) := by
  rcases answers with ⟨outcome, timestamp⟩
  subst isIdentity
  refine ⟨rfl, rfl, rfl, ?_, ?_⟩
  · intro identity isFound
    cases isFound
    exact ⟨rfl, rfl, rfl, rfl, rfl⟩
  · intro notFound
    rcases outcome with _ | outcome
    · exact ⟨rfl, rfl, rfl, rfl, rfl⟩
    · cases outcome with
      | found identity => exact absurd rfl (notFound identity)
      | notFound | failed error => exact ⟨rfl, rfl, rfl, rfl, rfl⟩

theorem callsFor_reports {nodeName : Option String} (yielded : OomKillEvent × Option Nat)
    {answers : EventAnswers} (resolved : answers.outcome.isSome = nodeName.isSome) :
    CallsFor yielded.1 answers nodeName yielded.2 (reports nodeName yielded answers) := by
  rcases yielded with ⟨rawEvent, total⟩
  rcases answers with ⟨_ | outcome, timestamp⟩
  · cases nodeName with
    | some node => cases resolved
    | none =>
        have enriches := enriches_enrich none rawEvent ⟨none, timestamp⟩ rfl
        cases total with
        | none => exact .standalone rfl enriches
        | some total => exact .standaloneWithTotal total rfl enriches
  · cases nodeName with
    | none => cases resolved
    | some node =>
        have enriches := enriches_enrich (some node) rawEvent ⟨some outcome, timestamp⟩ rfl
        cases total with
        | none => exact .resolved rfl enriches
        | some total => exact .resolvedWithTotal total rfl enriches

theorem exists_calls_of_traceOf {nodeName : Option String}
    (yielded : List (OomKillEvent × Option Nat)) {answers : List EventAnswers}
    (resolved : ∀ answer ∈ answers, answer.outcome.isSome = nodeName.isSome) :
    ∃ calls : List (List RecorderCall), traceOf nodeName yielded answers = calls.flatten ∧
      List.Forall₂ (fun (handled : (OomKillEvent × Option Nat) × EventAnswers) made =>
        CallsFor handled.1.1 handled.2 nodeName handled.1.2 made) (yielded.zip answers) calls := by
  refine ⟨(yielded.zip answers).map fun (event, answer) => reports nodeName event answer, ?_, ?_⟩
  · rw [traceOf, List.flatMap_def]
  · rw [List.forall₂_map_right_iff, List.forall₂_same]
    intro handled member
    exact callsFor_reports handled.1 (resolved _ (List.of_mem_zip member).2)

/-! ## Every event once and in order -/

section Finite

variable {State Call Moment : Type} (source : FiniteSource State Call Moment)
  (nodeName : Option String)

def unreported (state : WatchRun State Call) : List (OomKillEvent × Option Nat) :=
  match state.position with
  | .selecting call => source.underway state.source call
  | .processing rawEvent =>
      (rawEvent, source.droppedTotal state.source) :: source.remaining state.source
  | .beating => source.remaining state.source
  | .ended => []

structure Advances (state next : WatchRun State Call)
    (yielded : List (OomKillEvent × Option Nat)) (answers : List EventAnswers) : Prop where
  length : yielded.length = answers.length
  events : unreported source state = yielded ++ unreported source next
  trace : next.trace = state.trace ++ traceOf nodeName yielded answers
  resolved : ∀ answer ∈ answers, answer.outcome.isSome = nodeName.isSome

variable {source nodeName} {state middle next final : WatchRun State Call}

theorem Advances.none (events : unreported source state = unreported source next)
    (trace : next.trace = state.trace) : Advances source nodeName state next [] [] where
  length := rfl
  events := events
  trace := trace.trans (List.append_nil _).symm
  resolved _ member := by cases member

theorem Advances.trans {first second : List (OomKillEvent × Option Nat)}
    {firstAnswers secondAnswers : List EventAnswers}
    (before : Advances source nodeName state middle first firstAnswers)
    (after : Advances source nodeName middle next second secondAnswers) :
    Advances source nodeName state next (first ++ second) (firstAnswers ++ secondAnswers) where
  length := by rw [List.length_append, List.length_append, before.length, after.length]
  events := by rw [before.events, after.events, List.append_assoc]
  trace := by
    rw [after.trace, before.trace, traceOf_append before.length, List.append_assoc]
  resolved answer member := by
    rcases List.mem_append.mp member with early | late
    · exact before.resolved answer early
    · exact after.resolved answer late

theorem advances_of_poll {moment : Moment}
    (stepped : step source.toOomEventSource nodeName state (.poll moment) = some next) :
    Advances source nodeName state next [] [] := by
  cases position : state.position with
  | processing _ | beating | ended => simp [step, position] at stepped
  | selecting call =>
      have isUnderway : unreported source state = source.underway state.source call := by
        simp only [unreported, position]
      simp only [step, position] at stepped
      cases polled : source.poll state.source call moment with
      | pending after later =>
          rw [polled] at stepped
          cases stepped
          exact .none (isUnderway.trans (source.underway_pending polled).symm) rfl
      | ready after event =>
          rw [polled] at stepped
          cases event with
          | none =>
              cases stepped
              exact .none (isUnderway.trans (source.underway_ended polled)) rfl
          | some rawEvent =>
              cases stepped
              exact .none (isUnderway.trans (source.underway_event polled)) rfl

theorem advances_of_step {action : Action Moment}
    (stepped : step source.toOomEventSource nodeName state action = some next) :
    ∃ yielded, Advances source nodeName state next yielded action.answers.toList := by
  cases action with
  | poll moment => exact ⟨[], advances_of_poll stepped⟩
  | tick =>
      cases position : state.position with
      | processing _ | beating | ended => simp [step, position] at stepped
      | selecting call =>
          refine ⟨[], ?_⟩
          simp only [step, position] at stepped
          cases stepped
          refine Advances.none ?_ rfl
          simp only [unreported, position]
          exact (source.remaining_cancel state.source call).symm
  | process answers =>
      cases position : state.position with
      | selecting _ | beating | ended => simp [step, position] at stepped
      | processing rawEvent =>
          simp only [step, position] at stepped
          split at stepped
          · next resolved =>
              cases stepped
              refine ⟨[(rawEvent, source.droppedTotal state.source)], rfl, ?_, ?_, ?_⟩
              · simp only [unreported, position]
                rfl
              · exact congrArg (state.trace ++ ·) (List.append_nil _).symm
              · intro answer member
                cases List.mem_singleton.mp member
                exact resolved
          · cases stepped
  | beat now =>
      cases position : state.position with
      | selecting _ | processing _ | ended => simp [step, position] at stepped
      | beating =>
          refine ⟨[], ?_⟩
          simp only [step, position] at stepped
          cases stepped
          refine Advances.none ?_ rfl
          simp only [unreported, position]
          exact (source.underway_next state.source).symm

theorem advances_of_run {actions : List (Action Moment)}
    (ran : (machine source.toOomEventSource nodeName).run state actions = some final) :
    ∃ yielded, Advances source nodeName state final yielded (answersOf actions) := by
  induction actions generalizing state with
  | nil =>
      cases ran
      exact ⟨[], .none rfl rfl⟩
  | cons action actions induction =>
      rcases Machine.run_cons_eq_some.mp ran with ⟨middle, stepped, rest⟩
      rcases advances_of_step stepped with ⟨first, before⟩
      rcases induction rest with ⟨second, after⟩
      refine ⟨first ++ second, ?_⟩
      have split : answersOf (action :: actions) = action.answers.toList ++ answersOf actions := by
        rw [answersOf, List.filterMap_cons]
        cases action.answers <;> rfl
      rw [split]
      exact before.trans after

/-- Whatever the ticks, the trace is that of the events and their answers. -/
theorem trace_of_run {initial : State} {actions : List (Action Moment)}
    (ran : (machine source.toOomEventSource nodeName).run
      (start source.toOomEventSource initial) actions = some final) :
    final.trace = traceOf nodeName (source.remaining initial) (answersOf actions) := by
  rcases advances_of_run ran with ⟨yielded, advances⟩
  have events : source.remaining initial = yielded ++ unreported source final := by
    rw [← advances.events]
    exact (source.underway_next initial).symm
  have split : traceOf nodeName (yielded ++ unreported source final) (answersOf actions ++ []) =
      traceOf nodeName yielded (answersOf actions) ++
        traceOf nodeName (unreported source final) [] :=
    traceOf_append advances.length
  rw [List.append_nil] at split
  rw [advances.trace, events, split]
  simp [traceOf, start]

theorem length_of_run {initial : State} {actions : List (Action Moment)}
    (ran : (machine source.toOomEventSource nodeName).run
      (start source.toOomEventSource initial) actions = some final) :
    (answersOf actions).length ≤ (source.remaining initial).length ∧
      (final.position = .ended →
        (answersOf actions).length = (source.remaining initial).length) := by
  rcases advances_of_run ran with ⟨yielded, advances⟩
  have events : source.remaining initial = yielded ++ unreported source final := by
    rw [← advances.events]
    exact (source.underway_next initial).symm
  constructor
  · rw [events, List.length_append, ← advances.length]
    exact Nat.le_add_right _ _
  · intro ended
    have nothingLeft : unreported source final = [] := by rw [unreported, ended]
    rw [events, nothingLeft, List.append_nil, advances.length]

theorem resolved_of_run {actions : List (Action Moment)}
    (ran : (machine source.toOomEventSource nodeName).run state actions = some final) :
    ∀ answer ∈ answersOf actions, answer.outcome.isSome = nodeName.isSome := by
  rcases advances_of_run ran with ⟨_, advances⟩
  exact advances.resolved

end Finite

end WatchRun

end OomWatcher
