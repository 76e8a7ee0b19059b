import OomWatcher.Metrics.Collector

/-! # The registry as a function of the history

The abstract collector keeps no maps and no series: it reads everything off
the history of calls, most recent first. `Reflects` states that a collector
shows exactly that, and every operation keeps it. -/

namespace OomWatcher

inductive Operation
  | recordOomEvent (event : EnrichedOomEvent)
  | notePodDeleted (ns pod : String) (now : Nat)
  | evictStale (now ttlSecs : Nat)
deriving DecidableEq, Repr

/-- Calls made so far, the most recent first. -/
abbrev History := List Operation

/-! ## Reading the history -/

def scheduled (pod : String × String) : History → Option Nat
  | [] => none
  | .recordOomEvent _ :: earlier => scheduled pod earlier
  | .notePodDeleted ns name now :: earlier =>
      if pod = (ns, name) then some (saturatingAdd now deletedPodGraceSeconds)
      else scheduled pod earlier
  | .evictStale now _ :: earlier =>
      (scheduled pod earlier).filter fun removableAt => decide (now < removableAt)

def sweepTakes (now ttlSecs seen : Nat) (removableAt : Option Nat) : Bool :=
  decide (now - seen ≥ ttlSecs) || removableAt.any fun due => !decide (now < due)

/-- The events of a key since the last sweep that evicted it. -/
def sinceEvicted (key : SeriesKey) : History → List EnrichedOomEvent
  | [] => []
  | .recordOomEvent event :: earlier =>
      if key = SeriesKey.ofEvent event then event :: sinceEvicted key earlier
      else sinceEvicted key earlier
  | .notePodDeleted _ _ _ :: earlier => sinceEvicted key earlier
  | .evictStale now ttlSecs :: earlier =>
      match sinceEvicted key earlier with
      | [] => []
      | last :: rest =>
          if sweepTakes now ttlSecs last.timestamp (scheduled (key.ns, key.pod) earlier)
          then [] else last :: rest

def lastRecorded (key : SeriesKey) (history : History) : Option Nat :=
  (sinceEvicted key history).head?.map (·.timestamp)

def Covered (key : SeriesKey) (history : History) : Prop :=
  ∃ live, sinceEvicted live history ≠ [] ∧ live.sharesMemorySeriesWith key = true

open Classical in
/-- The events of a container since the last sweep that left no restart of it
tracked. -/
noncomputable def sinceUncovered (key : SeriesKey) : History → List EnrichedOomEvent
  | [] => []
  | .recordOomEvent event :: earlier =>
      if (SeriesKey.ofEvent event).sharesMemorySeriesWith key then
        event :: sinceUncovered key earlier
      else sinceUncovered key earlier
  | .notePodDeleted _ _ _ :: earlier => sinceUncovered key earlier
  | .evictStale now ttlSecs :: earlier =>
      if Covered key (.evictStale now ttlSecs :: earlier) then sinceUncovered key earlier
      else []

def peak (figure : EnrichedOomEvent → Nat) (events : List EnrichedOomEvent) : Nat :=
  (events.map figure).foldr max 0

def recorded : History → List EnrichedOomEvent
  | [] => []
  | .recordOomEvent event :: earlier => event :: recorded earlier
  | .notePodDeleted _ _ _ :: earlier => recorded earlier
  | .evictStale _ _ :: earlier => recorded earlier

def killsOfNode (node : String) (history : History) : Nat :=
  (recorded history).countP fun event => (SeriesKey.ofEvent event).node = node

theorem sinceUncovered_subset (key : SeriesKey) (history : History) :
    ∀ event ∈ sinceUncovered key history, event ∈ recorded history := by
  induction history with
  | nil => exact fun _ member => member
  | cons operation earlier induction =>
      intro event member
      cases operation with
      | recordOomEvent latest =>
          rw [sinceUncovered] at member
          split at member
          · rcases List.mem_cons.mp member with equal | older
            · exact equal ▸ List.mem_cons_self
            · exact List.mem_cons_of_mem _ (induction event older)
          · exact List.mem_cons_of_mem _ (induction event member)
      | notePodDeleted ns pod now => exact induction event member
      | evictStale now ttlSecs =>
          rw [sinceUncovered] at member
          split at member
          · exact induction event member
          · cases member

/-! ## Running the collector over a history -/

section

variable {Vec : Type} [MetricVec Vec (List String)]

namespace MetricsCollector

structure Reordered (left right : MetricsCollector Vec) : Prop where
  vecs : left.vecs = right.vecs
  lastDroppedTotal : left.lastDroppedTotal = right.lastDroppedTotal
  lastSeen : left.lastSeen.Reordered right.lastSeen
  deletedAfter : left.deletedAfter.Reordered right.deletedAfter

omit [MetricVec Vec (List String)] in
theorem Reordered.refl (collector : MetricsCollector Vec) :
    Reordered collector collector :=
  ⟨rfl, rfl, Dictionary.Reordered.refl _, Dictionary.Reordered.refl _⟩

def apply (collector : MetricsCollector Vec) : Operation → MetricsCollector Vec
  | .recordOomEvent event => collector.recordOomEvent event
  | .notePodDeleted ns pod now => collector.notePodDeleted ns pod now
  | .evictStale now ttlSecs => (collector.evictStale now ttlSecs).1

end MetricsCollector

open MetricsCollector

/-- A collector that a history can lead to from a new one. Before each call the
hash maps may iterate in any order. -/
inductive Executes : History → MetricsCollector Vec → Prop
  | start : Executes [] new
  | call {history collector} (operation : Operation)
      {reordered : MetricsCollector Vec} : Executes history collector →
      Reordered collector reordered →
      Executes (operation :: history) (reordered.apply operation)

structure Reflects (history : History) (collector : MetricsCollector Vec) : Prop where
  lastSeen : ∀ key, collector.lastSeen.lookup key = lastRecorded key history
  deletedAfter : ∀ pod, collector.deletedAfter.lookup pod = scheduled pod history
  kills : ∀ key : SeriesKey, sample collector.vecs .oomKillsTotal key.labels =
    if sinceEvicted key history = [] then none
    else some (sinceEvicted key history).length
  lastTimestamp : ∀ key : SeriesKey,
    sample collector.vecs .oomLastTimestamp key.labels = lastRecorded key history
  memoryCovered : ∀ (key : SeriesKey) memoryType, Covered key history →
    sample collector.vecs .oomMemoryUsageBytes (key.memoryLabels memoryType) =
      some (peak (fun event => bytesOf (memoryType.kilobytes event.rawEvent))
        (sinceUncovered key history))
  memoryUncovered : ∀ (key : SeriesKey) memoryType, ¬Covered key history →
    sample collector.vecs .oomMemoryUsageBytes (key.memoryLabels memoryType) = none
  perNode : ∀ node, sample collector.vecs .oomKillsPerNodeTotal [node] =
    if killsOfNode node history = 0 then none else some (killsOfNode node history)

theorem Reflects.reordered {history : History} {left right : MetricsCollector Vec}
    (reflects : Reflects history left) (reordered : Reordered left right) :
    Reflects history right where
  lastSeen key := (reordered.lastSeen.lookup key).symm.trans (reflects.lastSeen key)
  deletedAfter pod :=
    (reordered.deletedAfter.lookup pod).symm.trans (reflects.deletedAfter pod)
  kills := reordered.vecs ▸ reflects.kills
  lastTimestamp := reordered.vecs ▸ reflects.lastTimestamp
  memoryCovered := reordered.vecs ▸ reflects.memoryCovered
  memoryUncovered := reordered.vecs ▸ reflects.memoryUncovered
  perNode := reordered.vecs ▸ reflects.perNode

end

end OomWatcher
