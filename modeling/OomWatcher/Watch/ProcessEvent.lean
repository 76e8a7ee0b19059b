import OomWatcher.Metrics.Refinement

/-! # Processing an event -/

namespace OomWatcher

variable {Vec : Type} [MetricVec Vec (List String)]

/-- `process_event`, given what resolution came to and the clock. The node is
known iff there is a resolver. -/
def processEvent (collector : MetricsCollector Vec) (nodeName : Option String)
    (rawEvent : OomKillEvent) (outcome : ResolutionOutcome) (timestamp : Nat) :
    MetricsCollector Vec :=
  match nodeName with
  | some node =>
      (collector.recordResolutionOutcome node outcome).recordOomEvent
        (enrich rawEvent (some node) outcome.identity timestamp)
  | none => collector.recordOomEvent (enrich rawEvent none none timestamp)

theorem sample_resolution (collector : MetricsCollector Vec) (node : String)
    (outcome : ResolutionOutcome) {family : Family} (labels : List String)
    (other : family ≠ .oomResolutionFailuresTotal) :
    sample (collector.recordResolutionOutcome node outcome).vecs family labels =
      sample collector.vecs family labels := by
  cases outcome with
  | found identity => rfl
  | notFound => exact sample_write_of_family _ _ _ _ other
  | failed error => exact sample_write_of_family _ _ _ _ other

theorem Reflects.recordResolutionOutcome {history : History} {collector : MetricsCollector Vec}
    (reflects : Reflects history collector) (node : String) (outcome : ResolutionOutcome) :
    Reflects history (collector.recordResolutionOutcome node outcome) := by
  have sampled {family : Family} (other : family ≠ .oomResolutionFailuresTotal)
      (labels : List String) :=
    sample_resolution collector node outcome labels other
  have maps : (collector.recordResolutionOutcome node outcome).lastSeen = collector.lastSeen ∧
      (collector.recordResolutionOutcome node outcome).deletedAfter =
        collector.deletedAfter := by
    cases outcome <;> exact ⟨rfl, rfl⟩
  constructor
  · rw [maps.1]
    exact reflects.lastSeen
  · rw [maps.2]
    exact reflects.deletedAfter
  · intro key
    rw [sampled]
    · exact reflects.kills key
    · nofun
  · intro key
    rw [sampled]
    · exact reflects.lastTimestamp key
    · nofun
  · intro key memoryType covered
    rw [sampled]
    · exact reflects.memoryCovered key memoryType covered
    · nofun
  · intro key memoryType uncovered
    rw [sampled]
    · exact reflects.memoryUncovered key memoryType uncovered
    · nofun
  · intro node
    rw [sampled]
    · exact reflects.perNode node
    · nofun

theorem Reflects.processEvent {history : History} {collector : MetricsCollector Vec}
    (reflects : Reflects history collector) (node : String) (rawEvent : OomKillEvent)
    (outcome : ResolutionOutcome) (timestamp : Nat) :
    Reflects (.recordOomEvent (enrich rawEvent (some node) outcome.identity timestamp) :: history)
      (processEvent collector (some node) rawEvent outcome timestamp) :=
  (reflects.recordResolutionOutcome node outcome).recordOomEvent _

end OomWatcher
