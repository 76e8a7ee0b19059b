import Mathlib.Algebra.BigOperators.Finprod
import OomWatcher.Watch.Run

/-! # What the counters come to over a run

Three counters move at different places of the pipeline. Each is the number of
its increments in the recorder's trace, so they can be set against each other. -/

namespace OomWatcher

/-! ## Sums over labels -/

section Sums

variable {Key Label : Type} [DecidableEq Key] [DecidableEq Label]

private def labelsUnder (entries : List (Key × Label)) (key : Key) (counted : Label → Bool) :
    List Label :=
  (entries.filter fun entry => entry.1 = key ∧ counted entry.2 = true).map Prod.snd

private theorem count_labelsUnder (entries : List (Key × Label)) (key : Key)
    (counted : Label → Bool) (label : Label) :
    (labelsUnder entries key counted).count label =
      if counted label then entries.countP fun entry => entry = (key, label) else 0 := by
  rw [labelsUnder, List.count_eq_countP, List.countP_map, List.countP_filter]
  split
  · next isCounted =>
      apply List.countP_congr
      intro entry _
      simp only [Function.comp_apply, beq_iff_eq, Prod.ext_iff, Bool.and_eq_true,
        decide_eq_true_eq]
      constructor
      · intro ⟨sameLabel, sameKey, _⟩
        exact ⟨sameKey, sameLabel⟩
      · intro ⟨sameKey, sameLabel⟩
        exact ⟨sameLabel, sameKey, sameLabel ▸ isCounted⟩
  · next notCounted =>
      apply List.countP_eq_zero.mpr
      intro entry _ both
      simp only [Function.comp_apply, beq_iff_eq, Bool.and_eq_true, decide_eq_true_eq] at both
      exact notCounted (both.1 ▸ both.2.2)

/-- How often a key occurs with each label, added up over all labels, is how often
it occurs. -/
theorem finsum_countP (entries : List (Key × Label)) (key : Key) (counted : Label → Bool) :
    (∑ᶠ label, if counted label then entries.countP fun entry => entry = (key, label) else 0) =
      entries.countP fun entry => entry.1 = key ∧ counted entry.2 = true := by
  have support : Function.support (fun label => (labelsUnder entries key counted).count label) ⊆
      ↑(labelsUnder entries key counted).toFinset := by
    intro label occurs
    rw [Function.mem_support] at occurs
    exact List.mem_toFinset.mpr (List.count_pos_iff.mp (Nat.pos_of_ne_zero occurs))
  rw [← finsum_congr (count_labelsUnder entries key counted),
    finsum_eq_sum_of_support_subset _ support, List.sum_toFinset_count_eq_length, labelsUnder,
    List.length_map, List.countP_eq_length_filter]

end Sums

section Counters

variable {Vec : Type} [MetricVec Vec (List String)]

def counter (collector : MetricsCollector Vec) (family : Family) (labels : List String) : Nat :=
  (sample collector.vecs family labels).getD 0

noncomputable def counterSum (collector : MetricsCollector Vec) (family : Family)
    (counted : List String → Bool) : Nat :=
  ∑ᶠ labels, if counted labels then counter collector family labels else 0

/-! ## Increments -/

def RecorderCall.increments : RecorderCall → List (Family × List String)
  | .recordResolutionOutcome _ (.found _) => []
  | .recordResolutionOutcome node .notFound =>
      [(.oomResolutionFailuresTotal, [node, "not_found"])]
  | .recordResolutionOutcome node (.failed _) =>
      [(.oomResolutionFailuresTotal, [node, "error"])]
  | .recordOomEvent event =>
      [(.oomKillsTotal, (SeriesKey.ofEvent event).labels),
        (.oomKillsPerNodeTotal, [(SeriesKey.ofEvent event).node])]
  | .recordDroppedTotal _ _ => []

def Family.countsEvents : Family → Bool
  | .oomKillsTotal | .oomKillsPerNodeTotal | .oomResolutionFailuresTotal => true
  | .oomMemoryUsageBytes | .oomLastTimestamp | .oomEventsDroppedTotal
  | .oomSeriesEvictedTotal => false

theorem counter_of_sample_eq_ite {before after : MetricsCollector Vec} {family : Family}
    {labels target : List String}
    (sampled : sample after.vecs family labels =
      if labels = target then some ((sample before.vecs family labels).getD 0 + 1)
      else sample before.vecs family labels) :
    counter after family labels =
      counter before family labels + if labels = target then 1 else 0 := by
  rw [counter, counter, sampled]
  split <;> rfl

theorem counter_recordDroppedTotal (collector : MetricsCollector Vec) (node : String) (total : Nat)
    {family : Family} (counts : family.countsEvents = true) (labels : List String) :
    counter (collector.recordDroppedTotal node total) family labels =
      counter collector family labels := by
  have other : family ≠ .oomEventsDroppedTotal := by
    intro equal
    rw [equal] at counts
    cases counts
  rw [MetricsCollector.recordDroppedTotal, counter, counter]
  split
  · rfl
  · split
    · rw [sample_write_of_family _ _ _ _ other]
    · rfl

theorem counter_countFailure (collector : MetricsCollector Vec) (node reason : String)
    (family : Family) (labels : List String) :
    counter (MetricsCollector.recordResolutionOutcome.count collector node reason) family labels =
      counter collector family labels +
        [(Family.oomResolutionFailuresTotal, [node, reason])].countP
          fun increment => increment = (family, labels) := by
  rw [MetricsCollector.recordResolutionOutcome.count, counter, sample_write,
    List.countP_singleton]
  by_cases own : family = .oomResolutionFailuresTotal ∧ labels = [node, reason]
  · rcases own with ⟨rfl, rfl⟩
    simp [Write.change, counter]
  · rw [if_neg own, if_neg]
    · rfl
    · intro equal
      rcases Prod.mk.inj (of_decide_eq_true equal) with ⟨sameFamily, sameLabels⟩
      exact own ⟨sameFamily.symm, sameLabels.symm⟩

theorem counter_recordOomEvent (collector : MetricsCollector Vec) (event : EnrichedOomEvent)
    {family : Family} (counts : family.countsEvents = true) (labels : List String) :
    counter (collector.recordOomEvent event) family labels =
      counter collector family labels +
        (RecorderCall.recordOomEvent event).increments.countP
          fun increment => increment = (family, labels) := by
  cases family with
  | oomKillsTotal =>
      have counted : counter (collector.recordOomEvent event) .oomKillsTotal labels =
          counter collector .oomKillsTotal labels +
            if labels = (SeriesKey.ofEvent event).labels then 1 else 0 :=
        counter_of_sample_eq_ite (sample_record_kills collector.vecs event labels)
      simpa [RecorderCall.increments, List.countP_cons, eq_comm] using counted
  | oomKillsPerNodeTotal =>
      have counted : counter (collector.recordOomEvent event) .oomKillsPerNodeTotal labels =
          counter collector .oomKillsPerNodeTotal labels +
            if labels = [(SeriesKey.ofEvent event).node] then 1 else 0 :=
        counter_of_sample_eq_ite (sample_record_perNode collector.vecs event labels)
      simpa [RecorderCall.increments, List.countP_cons, eq_comm] using counted
  | oomResolutionFailuresTotal =>
      exact congrArg (·.getD 0) (sample_record_failures collector.vecs event labels)
  | oomMemoryUsageBytes | oomLastTimestamp | oomEventsDroppedTotal
  | oomSeriesEvictedTotal => cases counts

theorem counter_receive (collector : MetricsCollector Vec) (call : RecorderCall)
    {family : Family} (counts : family.countsEvents = true) (labels : List String) :
    counter (collector.receive call) family labels =
      counter collector family labels +
        call.increments.countP fun increment => increment = (family, labels) := by
  cases call with
  | recordDroppedTotal node total =>
      exact counter_recordDroppedTotal collector node total counts labels
  | recordResolutionOutcome node outcome =>
      cases outcome with
      | found identity => rfl
      | notFound => exact counter_countFailure collector node "not_found" family labels
      | failed error => exact counter_countFailure collector node "error" family labels
  | recordOomEvent event => exact counter_recordOomEvent collector event counts labels

/-- A counter of events is the number of its increments in the trace. -/
theorem counter_of_trace (trace : List RecorderCall) {family : Family}
    (counts : family.countsEvents = true) (labels : List String)
    (collector : MetricsCollector Vec) :
    counter (trace.foldl MetricsCollector.receive collector) family labels =
      counter collector family labels +
        (trace.flatMap RecorderCall.increments).countP
          fun increment => increment = (family, labels) := by
  induction trace generalizing collector with
  | nil => rfl
  | cons call rest induction =>
      rw [List.foldl_cons, induction, counter_receive collector call counts,
        List.flatMap_cons, List.countP_append, Nat.add_assoc]

theorem counter_new (family : Family) (labels : List String) :
    counter (MetricsCollector.new : MetricsCollector Vec) family labels = 0 := by
  rw [counter, sample, MetricsCollector.new, MetricVec.exported_empty]
  rfl

theorem counterSum_of_trace (trace : List RecorderCall) {family : Family}
    (counts : family.countsEvents = true) (counted : List String → Bool) :
    counterSum (trace.foldl MetricsCollector.receive (MetricsCollector.new : MetricsCollector Vec))
        family counted =
      (trace.flatMap RecorderCall.increments).countP
        fun increment => increment.1 = family ∧ counted increment.2 = true := by
  rw [← finsum_countP, counterSum]
  apply finsum_congr
  intro labels
  rw [counter_of_trace trace counts, counter_new, Nat.zero_add]

end Counters

/-! ## The increments of an event -/

namespace EventAnswers

def identity (answers : EventAnswers) : Option ContainerIdentity :=
  answers.outcome.bind ResolutionOutcome.identity

def isFound (answers : EventAnswers) : Bool := answers.identity.isSome

def isNotFound (answers : EventAnswers) : Bool := answers.outcome == some .notFound

def isFailed (answers : EventAnswers) : Bool :=
  match answers.outcome with
  | some (.failed _) => true
  | some .notFound | some (.found _) | none => false

end EventAnswers

/-- Whether a kill is counted under no container: the label set's `container_id`
is `unknown`. -/
def ofNoContainer (labels : List String) : Bool := labels[4]? == some "unknown"

theorem countP_traceOf {nodeName : Option String}
    {yielded : List (OomKillEvent × Option Nat)} {answers : List EventAnswers}
    (sameLength : yielded.length = answers.length) {counted : Family × List String → Bool}
    {chosen : EventAnswers → Bool}
    (each : ∀ event, ∀ answer ∈ answers,
      ((reports nodeName event answer).flatMap RecorderCall.increments).countP counted =
        if chosen answer then 1 else 0) :
    ((WatchRun.traceOf nodeName yielded answers).flatMap RecorderCall.increments).countP counted =
      answers.countP chosen := by
  induction answers generalizing yielded with
  | nil => simp [WatchRun.traceOf]
  | cons answer answers induction =>
      cases yielded with
      | nil => cases sameLength
      | cons event yielded =>
          have unfolded : WatchRun.traceOf nodeName (event :: yielded) (answer :: answers) =
              reports nodeName event answer ++ WatchRun.traceOf nodeName yielded answers := rfl
          have rest := induction (Nat.succ.inj sameLength)
            fun other later member => each other later (List.mem_cons_of_mem _ member)
          rw [unfolded, List.flatMap_append, List.countP_append, rest, List.countP_cons,
            each event answer List.mem_cons_self, Nat.add_comm]

def resolvedIncrements (node : String) (outcome : ResolutionOutcome) (rawEvent : OomKillEvent)
    (timestamp : Nat) : List (Family × List String) :=
  (RecorderCall.recordResolutionOutcome node outcome).increments ++
    [(.oomKillsTotal,
        (SeriesKey.ofEvent (enrich rawEvent (some node) outcome.identity timestamp)).labels),
      (.oomKillsPerNodeTotal, [node])]

theorem increments_reports {node : String} {answers : EventAnswers} {outcome : ResolutionOutcome}
    (resolved : answers.outcome = some outcome) (event : OomKillEvent × Option Nat) :
    (reports (some node) event answers).flatMap RecorderCall.increments =
      resolvedIncrements node outcome event.1 answers.timestamp := by
  rcases event with ⟨rawEvent, total⟩
  rcases answers with ⟨answered, timestamp⟩
  subst resolved
  cases total <;> rfl

structure CountsAgree {Vec : Type} [MetricVec Vec (List String)]
    (collector : MetricsCollector Vec) (node : String) (answers : List EventAnswers) : Prop where
  perNode : counter collector .oomKillsPerNodeTotal [node] = answers.length
  kills : counterSum collector .oomKillsTotal (fun _ => true) = answers.length
  identified : counterSum collector .oomKillsTotal (fun labels => !ofNoContainer labels) =
    answers.countP EventAnswers.isFound
  unidentified : counterSum collector .oomKillsTotal ofNoContainer =
    counterSum collector .oomResolutionFailuresTotal fun _ => true
  notFound : counter collector .oomResolutionFailuresTotal [node, "not_found"] =
    answers.countP EventAnswers.isNotFound
  failed : counter collector .oomResolutionFailuresTotal [node, "error"] =
    answers.countP EventAnswers.isFailed
  failures : counterSum collector .oomResolutionFailuresTotal (fun _ => true) =
    counter collector .oomResolutionFailuresTotal [node, "not_found"] +
      counter collector .oomResolutionFailuresTotal [node, "error"]

theorem ofNoContainer_labels (rawEvent : OomKillEvent) (nodeName : Option String)
    (identity : Option ContainerIdentity) (timestamp : Nat) :
    ofNoContainer (SeriesKey.ofEvent (enrich rawEvent nodeName identity timestamp)).labels =
      ((identity.map (·.containerId)).getD "unknown" == "unknown") := by
  simp [ofNoContainer, SeriesKey.labels, SeriesKey.ofEvent, enrich]

theorem countP_not_isFound {answers : List EventAnswers}
    (resolved : ∀ answer ∈ answers, answer.outcome.isSome = true) :
    answers.countP (fun answer => !answer.isFound) =
      answers.countP EventAnswers.isNotFound + answers.countP EventAnswers.isFailed := by
  induction answers with
  | nil => rfl
  | cons answer answers induction =>
      have rest := induction fun later member => resolved later (List.mem_cons_of_mem _ member)
      have own := resolved answer List.mem_cons_self
      rcases answer with ⟨_ | outcome, timestamp⟩
      · cases own
      · rw [List.countP_cons, List.countP_cons, List.countP_cons, rest]
        cases outcome <;>
          simp [EventAnswers.isFound, EventAnswers.identity, EventAnswers.isNotFound,
            EventAnswers.isFailed, ResolutionOutcome.identity] <;> omega

section Agreement

variable {Vec : Type} [MetricVec Vec (List String)] {node : String}
  {yielded : List (OomKillEvent × Option Nat)} {answers : List EventAnswers}

theorem countP_resolved (sameLength : yielded.length = answers.length)
    (resolved : ∀ answer ∈ answers, answer.outcome.isSome = true)
    {counted : Family × List String → Bool} {chosen : EventAnswers → Bool}
    (each : ∀ answer ∈ answers, ∀ outcome, answer.outcome = some outcome → ∀ rawEvent,
      (resolvedIncrements node outcome rawEvent answer.timestamp).countP counted =
        if chosen answer then 1 else 0) :
    ((WatchRun.traceOf (some node) yielded answers).flatMap RecorderCall.increments).countP
        counted = answers.countP chosen := by
  apply countP_traceOf sameLength
  intro event answer member
  rcases Option.isSome_iff_exists.mp (resolved answer member) with ⟨outcome, isOutcome⟩
  rw [increments_reports isOutcome]
  exact each answer member outcome isOutcome event.1

theorem counter_resolved (sameLength : yielded.length = answers.length)
    (resolved : ∀ answer ∈ answers, answer.outcome.isSome = true) {family : Family}
    (counts : family.countsEvents = true) {labels : List String} {chosen : EventAnswers → Bool}
    (each : ∀ answer ∈ answers, ∀ outcome, answer.outcome = some outcome → ∀ rawEvent,
      (resolvedIncrements node outcome rawEvent answer.timestamp).countP
          (fun increment => increment = (family, labels)) = if chosen answer then 1 else 0) :
    counter ((WatchRun.traceOf (some node) yielded answers).foldl MetricsCollector.receive
        (MetricsCollector.new : MetricsCollector Vec)) family labels =
      answers.countP chosen := by
  rw [counter_of_trace _ counts, counter_new, Nat.zero_add]
  exact countP_resolved sameLength resolved each

theorem counterSum_resolved (sameLength : yielded.length = answers.length)
    (resolved : ∀ answer ∈ answers, answer.outcome.isSome = true) {family : Family}
    (counts : family.countsEvents = true) {counted : List String → Bool}
    {chosen : EventAnswers → Bool}
    (each : ∀ answer ∈ answers, ∀ outcome, answer.outcome = some outcome → ∀ rawEvent,
      (resolvedIncrements node outcome rawEvent answer.timestamp).countP
          (fun increment => increment.1 = family ∧ counted increment.2 = true) =
        if chosen answer then 1 else 0) :
    counterSum ((WatchRun.traceOf (some node) yielded answers).foldl MetricsCollector.receive
        (MetricsCollector.new : MetricsCollector Vec)) family counted =
      answers.countP chosen := by
  rw [counterSum_of_trace _ counts]
  exact countP_resolved sameLength resolved each

theorem ofNoContainer_resolved {answer : EventAnswers} {outcome : ResolutionOutcome}
    (isOutcome : answer.outcome = some outcome)
    (named : ∀ identity, answer.outcome = some (.found identity) →
      identity.containerId ≠ "unknown") (node : String) (rawEvent : OomKillEvent) :
    ofNoContainer (SeriesKey.ofEvent
        (enrich rawEvent (some node) outcome.identity answer.timestamp)).labels =
      !answer.isFound := by
  rw [ofNoContainer_labels]
  cases outcome with
  | found identity =>
      have isNamed := named identity isOutcome
      simp [EventAnswers.isFound, EventAnswers.identity, isOutcome, ResolutionOutcome.identity,
        isNamed]
  | notFound | failed error =>
      simp [EventAnswers.isFound, EventAnswers.identity, isOutcome, ResolutionOutcome.identity]

theorem counts_agree (sameLength : yielded.length = answers.length)
    (resolved : ∀ answer ∈ answers, answer.outcome.isSome = true)
    (named : ∀ answer ∈ answers, ∀ identity, answer.outcome = some (.found identity) →
      identity.containerId ≠ "unknown") :
    CountsAgree ((WatchRun.traceOf (some node) yielded answers).foldl MetricsCollector.receive
      (MetricsCollector.new : MetricsCollector Vec)) node answers := by
  have failures : counterSum ((WatchRun.traceOf (some node) yielded answers).foldl
      MetricsCollector.receive (MetricsCollector.new : MetricsCollector Vec))
      .oomResolutionFailuresTotal (fun _ => true) =
        answers.countP fun answer => !answer.isFound := by
    apply counterSum_resolved sameLength resolved rfl
    intro answer _ outcome isOutcome rawEvent
    cases outcome <;>
      simp [resolvedIncrements, RecorderCall.increments, EventAnswers.isFound,
        EventAnswers.identity, isOutcome, ResolutionOutcome.identity]
  have notFound : counter ((WatchRun.traceOf (some node) yielded answers).foldl
      MetricsCollector.receive (MetricsCollector.new : MetricsCollector Vec))
      .oomResolutionFailuresTotal [node, "not_found"] =
        answers.countP EventAnswers.isNotFound := by
    apply counter_resolved sameLength resolved rfl
    intro answer _ outcome isOutcome rawEvent
    cases outcome <;>
      simp [resolvedIncrements, RecorderCall.increments, EventAnswers.isNotFound, isOutcome]
  have failed : counter ((WatchRun.traceOf (some node) yielded answers).foldl
      MetricsCollector.receive (MetricsCollector.new : MetricsCollector Vec))
      .oomResolutionFailuresTotal [node, "error"] = answers.countP EventAnswers.isFailed := by
    apply counter_resolved sameLength resolved rfl
    intro answer _ outcome isOutcome rawEvent
    cases outcome <;>
      simp [resolvedIncrements, RecorderCall.increments, EventAnswers.isFailed, isOutcome]
  refine
    { perNode := ?_
      kills := ?_
      identified := ?_
      unidentified := ?_
      notFound := notFound
      failed := failed
      failures := by rw [failures, notFound, failed, countP_not_isFound resolved] }
  · rw [← List.countP_true]
    apply counter_resolved sameLength resolved rfl
    intro answer _ outcome isOutcome rawEvent
    cases outcome <;> simp [resolvedIncrements, RecorderCall.increments]
  · rw [← List.countP_true]
    apply counterSum_resolved sameLength resolved rfl
    intro answer _ outcome isOutcome rawEvent
    cases outcome <;> simp [resolvedIncrements, RecorderCall.increments]
  · apply counterSum_resolved sameLength resolved rfl
    intro answer member outcome isOutcome rawEvent
    have unnamed := ofNoContainer_resolved isOutcome (named answer member) node rawEvent
    cases outcome <;> simp [resolvedIncrements, RecorderCall.increments, List.countP_cons, unnamed]
  · rw [failures]
    apply counterSum_resolved sameLength resolved rfl
    intro answer member outcome isOutcome rawEvent
    have unnamed := ofNoContainer_resolved isOutcome (named answer member) node rawEvent
    cases outcome <;> simp [resolvedIncrements, RecorderCall.increments, List.countP_cons, unnamed]

end Agreement

/-! ## The whole loop -/

namespace WatchRun

variable {State Call Moment Vec : Type} [MetricVec Vec (List String)]

/-- The loop reports each event once and in order, whatever the ticks: its trace is
the calls for one event after the other, with the answers of the resolver and the
clock, so it is the same for other ticks. The counters it leads to in-cluster agree. -/
theorem run_reports_once (source : FiniteSource State Call Moment) (nodeName : Option String)
    (initial : State) {actions : List (Action Moment)} {final : WatchRun State Call}
    (ran : (machine source.toOomEventSource nodeName).run
      (start source.toOomEventSource initial) actions = some final) :
    (∃ calls : List (List RecorderCall), final.trace = calls.flatten ∧
        List.Forall₂ (fun (handled : (OomKillEvent × Option Nat) × EventAnswers) made =>
            CallsFor handled.1.1 handled.2 nodeName handled.1.2 made)
          ((source.remaining initial).zip (answersOf actions)) calls) ∧
      (answersOf actions).length ≤ (source.remaining initial).length ∧
      (final.position = .ended →
        (answersOf actions).length = (source.remaining initial).length) ∧
      (∀ (other : FiniteSource State Call Moment) (otherInitial : State)
          (otherActions : List (Action Moment)) (otherFinal : WatchRun State Call),
        other.remaining otherInitial = source.remaining initial →
        (machine other.toOomEventSource nodeName).run
          (start other.toOomEventSource otherInitial) otherActions = some otherFinal →
        answersOf otherActions = answersOf actions → otherFinal.trace = final.trace) ∧
      ∀ node, nodeName = some node →
        (∀ answer ∈ answersOf actions, ∀ identity, answer.outcome = some (.found identity) →
          identity.containerId ≠ "unknown") →
        CountsAgree (final.trace.foldl MetricsCollector.receive
          (MetricsCollector.new : MetricsCollector Vec)) node (answersOf actions) := by
  have trace := trace_of_run ran
  have resolved := resolved_of_run ran
  refine ⟨?_, (length_of_run ran).1, (length_of_run ran).2, ?_, ?_⟩
  · rw [trace]
    exact exists_calls_of_traceOf _ resolved
  · intro other otherInitial otherActions otherFinal sameEvents otherRan sameAnswers
    rw [trace_of_run otherRan, trace, sameEvents, sameAnswers]
  · intro node inCluster named
    subst inCluster
    rcases advances_of_run ran with ⟨yielded, advances⟩
    have ofYielded : final.trace = traceOf (some node) yielded (answersOf actions) :=
      advances.trace.trans (List.nil_append _)
    rw [ofYielded]
    exact counts_agree advances.length resolved named

/-- A source of events in memory. Its `next` has no await, so dropping it before
it is polled loses nothing. -/
def vecSource (drops : Option Nat) : FiniteSource (List OomKillEvent) Unit Unit where
  next _ := ()
  poll events _ _ :=
    match events with
    | event :: rest => .ready rest (some event)
    | [] => .ready [] none
  cancel events _ := events
  droppedTotal _ := drops
  remaining events := events.map fun event => (event, drops)
  underway events _ := events.map fun event => (event, drops)
  underway_next _ := rfl
  underway_pending := by
    intro events _ _ _ _ polled
    cases events <;> cases polled
  underway_event := by
    intro events _ _ _ _ polled
    cases events <;> cases polled
    rfl
  underway_ended := by
    intro events _ _ _ polled
    cases events <;> cases polled
    rfl
  remaining_cancel _ _ := rfl

def killed : OomKillEvent := (eventFor "api-7d9" "containerd://abc123" 10).rawEvent

def twoKills : List (Action Unit) :=
  [.poll (), .process ⟨some (.found ⟨"prod", "api-7d9", "api", "containerd://abc123",
      "repo@sha256:def456"⟩), 10⟩, .beat 10, .tick, .beat 40, .poll (),
    .process ⟨some .notFound, 50⟩, .beat 50, .poll ()]

/-- The trace and the counters of two kills. -/
theorem run_reports_once_two_kills :
    ∃ final, (machine (vecSource (some 5)).toOomEventSource (some "node-1")).run
        (start (vecSource (some 5)).toOomEventSource [killed, killed]) twoKills = some final ∧
      (∃ calls : List (List RecorderCall), final.trace = calls.flatten ∧
        List.Forall₂ (fun (handled : (OomKillEvent × Option Nat) × EventAnswers) made =>
            CallsFor handled.1.1 handled.2 (some "node-1") handled.1.2 made)
          ([(killed, some 5), (killed, some 5)].zip (answersOf twoKills)) calls) ∧
      CountsAgree (final.trace.foldl MetricsCollector.receive
        (MetricsCollector.new : MetricsCollector LabelVec)) "node-1" (answersOf twoKills) := by
  apply Machine.exists_run_of_decided fun _ => True
  · intro final ran _
    have reported := @run_reports_once _ _ _ LabelVec _ _ _ _ _ _ ran
    refine ⟨reported.1, reported.2.2.2.2 "node-1" rfl ?_⟩
    intro answer member identity isFound
    rcases List.mem_cons.mp member with rfl | later
    · cases isFound
      decide
    · rw [List.mem_singleton.mp later] at isFound
      cases isFound
  · decide

end WatchRun

end OomWatcher
