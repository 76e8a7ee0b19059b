import OomWatcher.Metrics.Refinement

/-! # The exported registry -/

namespace OomWatcher

variable {Vec : Type} [MetricVec Vec (List String)]

theorem bytesOf_of_lt {kilobytes : Nat} (fits : kilobytes < 2 ^ 54) :
    bytesOf kilobytes = kilobytes * 1024 := by
  rw [bytesOf, u64Modulus]
  exact Nat.mod_eq_of_lt (by omega)

theorem peak_congr {left right : EnrichedOomEvent → Nat} {events : List EnrichedOomEvent}
    (equal : ∀ event ∈ events, left event = right event) :
    peak left events = peak right events := by
  unfold peak
  rw [List.map_congr_left equal]

theorem Reflects.tracked_iff_covered {history : History}
    {collector : MetricsCollector Vec} (reflects : Reflects history collector)
    (key : SeriesKey) :
    (∃ live ∈ collector.lastSeen.keys, live.sharesMemorySeriesWith key = true) ↔
      Covered key history := by
  rw [Covered]
  apply exists_congr
  intro live
  rw [Dictionary.mem_keys_iff_lookup, reflects.lastSeen, Ne, sinceEvicted_eq_nil_iff,
    ← Ne, Option.ne_none_iff_exists']

open Classical in
/-- After any sequence of calls, every per-container series, every peak gauge
and every node counter is the function of the history it is meant to be. -/
theorem registry_of_history {history : History} {collector : MetricsCollector Vec}
    (executes : Executes history collector)
    (figuresFit : ∀ event ∈ recorded history, ∀ memoryType : MemoryType,
      memoryType.kilobytes event.rawEvent < 2 ^ 54) :
    (∀ key : SeriesKey,
      sample collector.vecs .oomKillsTotal key.labels =
          (if sinceEvicted key history = [] then none
          else some (sinceEvicted key history).length) ∧
        sample collector.vecs .oomLastTimestamp key.labels =
          (sinceEvicted key history).head?.map (·.timestamp)) ∧
      (∀ (key : SeriesKey) (memoryType : MemoryType),
        sample collector.vecs .oomMemoryUsageBytes (key.memoryLabels memoryType) =
          if ∃ live ∈ collector.lastSeen.keys, live.sharesMemorySeriesWith key = true then
            some (peak (fun event => memoryType.kilobytes event.rawEvent * 1024)
              (sinceUncovered key history))
          else none) ∧
      ∀ node, sample collector.vecs .oomKillsPerNodeTotal [node] =
        if killsOfNode node history = 0 then none
        else some (killsOfNode node history) := by
  have reflects := executes.reflects
  refine ⟨fun key => ⟨reflects.kills key, reflects.lastTimestamp key⟩, ?_,
    reflects.perNode⟩
  intro key memoryType
  by_cases covered : Covered key history
  · rw [if_pos ((reflects.tracked_iff_covered key).mpr covered),
      reflects.memoryCovered key memoryType covered]
    apply congrArg some
    apply peak_congr
    intro event member
    exact bytesOf_of_lt
      (figuresFit event (sinceUncovered_subset key history event member) memoryType)
  · rw [if_neg (mt (reflects.tracked_iff_covered key).mp covered)]
    exact reflects.memoryUncovered key memoryType covered

/-- Two kills of one restart, a sweep too early for it, then its counter. -/
theorem registry_of_history_two_kills :
    sample ((((MetricsCollector.new : MetricsCollector LabelVec).recordOomEvent
        (eventFor "api-7d9" "containerd://abc123" 10)).recordOomEvent
        (eventFor "api-7d9" "containerd://abc123" 20)).evictStale 25 60).1.vecs
      .oomKillsTotal
      (SeriesKey.ofEvent (eventFor "api-7d9" "containerd://abc123" 10)).labels =
      some 2 := by
  have executes : Executes
      [.evictStale 25 60,
        .recordOomEvent (eventFor "api-7d9" "containerd://abc123" 20),
        .recordOomEvent (eventFor "api-7d9" "containerd://abc123" 10)]
      ((((MetricsCollector.new : MetricsCollector LabelVec).recordOomEvent
        (eventFor "api-7d9" "containerd://abc123" 10)).recordOomEvent
        (eventFor "api-7d9" "containerd://abc123" 20)).evictStale 25 60).1 :=
    .call (.evictStale 25 60)
      (.call (.recordOomEvent _)
        (.call (.recordOomEvent _) .start (.refl _)) (.refl _)) (.refl _)
  have figuresFit : ∀ event ∈ recorded
      [.evictStale 25 60,
        .recordOomEvent (eventFor "api-7d9" "containerd://abc123" 20),
        .recordOomEvent (eventFor "api-7d9" "containerd://abc123" 10)],
      ∀ memoryType : MemoryType, memoryType.kilobytes event.rawEvent < 2 ^ 54 := by
    intro event member memoryType
    simp only [recorded, List.mem_cons, List.not_mem_nil, or_false] at member
    rcases member with rfl | rfl <;> cases memoryType <;> decide
  rw [((registry_of_history executes figuresFit).1 _).1]
  decide

end OomWatcher
