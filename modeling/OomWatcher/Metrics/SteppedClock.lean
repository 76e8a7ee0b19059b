import OomWatcher.Metrics.Deletion

/-! # A wall clock set back

The age of a key is the difference of two readings of the wall clock. A step
back between them takes its whole length off the age, so a key outlives its TTL
by as much, however many sweeps that is. -/

namespace OomWatcher

variable {Vec : Type} [MetricVec Vec (List String)]

open MetricsCollector

/-! ## The clock and the sweeper -/

structure ClockStep where
  moment : Nat
  amount : Nat
deriving DecidableEq, Repr

/-- What `wall_clock_secs` reads when so many seconds have elapsed since it read
`start`. A clock set before the epoch reads zero. -/
def wallClockSecs (start : Nat) (step : ClockStep) (elapsed : Nat) : Nat :=
  if elapsed < step.moment then start + elapsed else start + elapsed - step.amount

theorem wallClockSecs_corrected (accurate ahead moment elapsed : Nat) :
    wallClockSecs (accurate + ahead) ⟨moment, ahead⟩ elapsed =
      if elapsed < moment then accurate + elapsed + ahead else accurate + elapsed := by
  simp only [wallClockSecs]
  split <;> omega

theorem wallClockSecs_sub (start : Nat) (step : ClockStep) (elapsed : Nat) :
    wallClockSecs start step elapsed - start =
      if elapsed < step.moment then elapsed else elapsed - step.amount := by
  simp only [wallClockSecs]
  split <;> omega

/-- `series_sweeper`: the seconds from an event to the next sweep, those from
sweep to sweep, and the TTL. -/
structure SeriesSweeper where
  first : Nat
  sweepInterval : Nat
  seriesTtl : Nat
deriving DecidableEq, Repr

namespace SeriesSweeper

def elapsed (sweeper : SeriesSweeper) (index : Nat) : Nat :=
  sweeper.first + index * sweeper.sweepInterval

structure FirstOverdue (sweeper : SeriesSweeper) (index : Nat) : Prop where
  overdue : sweeper.seriesTtl ≤ sweeper.elapsed index
  first : ∀ earlier < index, sweeper.elapsed earlier < sweeper.seriesTtl

/-- The history after so many sweeps, with other calls between them. -/
def afterSweeps (sweeper : SeriesSweeper) (readings : Nat → Nat) (between : Nat → History)
    (history : History) : Nat → History
  | 0 => history
  | count + 1 =>
      .evictStale (readings (sweeper.elapsed count)) sweeper.seriesTtl ::
        (between count ++ sweeper.afterSweeps readings between history count)

end SeriesSweeper

/-! ## A key without further events -/

def Operation.LeavesAlone (key : SeriesKey) : Operation → Prop
  | .recordOomEvent event => SeriesKey.ofEvent event ≠ key
  | .notePodDeleted _ _ _ => True
  | .evictStale _ _ => False

theorem lastRecorded_append {key : SeriesKey} {calls : History}
    (leaveAlone : ∀ operation ∈ calls, operation.LeavesAlone key) (history : History) :
    lastRecorded key (calls ++ history) = lastRecorded key history := by
  induction calls with
  | nil => rfl
  | cons operation earlier induction =>
      have before := induction fun other member =>
        leaveAlone other (List.mem_cons_of_mem _ member)
      have alone := leaveAlone operation List.mem_cons_self
      cases operation with
      | recordOomEvent event =>
          rw [List.cons_append, lastRecorded_record, if_neg (Ne.symm alone), before]
      | notePodDeleted ns pod now => exact before
      | evictStale now ttlSecs => exact absurd alone id

namespace SeriesSweeper

variable (sweeper : SeriesSweeper) (readings : Nat → Nat) (between : Nat → History)
  (history : History)

def dueAt (pod : String × String) (index : Nat) : Option Nat :=
  scheduled pod (between index ++ sweeper.afterSweeps readings between history index)

def takesAt (key : SeriesKey) (seen index : Nat) : Bool :=
  sweepTakes (readings (sweeper.elapsed index)) sweeper.seriesTtl seen
    (sweeper.dueAt readings between history (key.ns, key.pod) index)

/-- A key stays as it was recorded until the first sweep that takes it. -/
theorem lastRecorded_afterSweeps {key : SeriesKey} {seen : Nat}
    (leaveAlone : ∀ index, ∀ operation ∈ between index, operation.LeavesAlone key)
    (latest : lastRecorded key history = some seen) (count : Nat) :
    lastRecorded key (sweeper.afterSweeps readings between history count) =
      if ∃ index < count, sweeper.takesAt readings between history key seen index = true
      then none else some seen := by
  induction count with
  | zero => simpa [afterSweeps] using latest
  | succ count induction =>
      rw [afterSweeps, lastRecorded_evict, lastRecorded_append (leaveAlone count), induction]
      simp only [Nat.lt_succ_iff_lt_or_eq, or_and_right, exists_or, exists_eq_left]
      by_cases before : ∃ index < count,
          sweeper.takesAt readings between history key seen index = true
      · rw [if_pos before, if_pos (.inl before), Option.filter_none]
      · rw [if_neg before, Option.filter_some]
        simp only [before, false_or]
        change (if (!sweeper.takesAt readings between history key seen count) = true then
          some seen else none) = _
        cases sweeper.takesAt readings between history key seen count <;> rfl

end SeriesSweeper

structure Evicted (key : SeriesKey) (collector : MetricsCollector Vec) : Prop where
  untracked : collector.lastSeen.lookup key = none
  kills : sample collector.vecs .oomKillsTotal key.labels = none
  lastTimestamp : sample collector.vecs .oomLastTimestamp key.labels = none

theorem Reflects.evicted_iff {history : History} {collector : MetricsCollector Vec}
    (reflects : Reflects history collector) (key : SeriesKey) :
    Evicted key collector ↔ lastRecorded key history = none := by
  constructor
  · intro evicted
    exact (reflects.lastSeen key).symm.trans evicted.untracked
  · intro untracked
    refine ⟨(reflects.lastSeen key).trans untracked, ?_,
      (reflects.lastTimestamp key).trans untracked⟩
    rw [reflects.kills, if_pos ((sinceEvicted_eq_nil_iff key history).mpr untracked)]

/-! ## The second sweep after the TTL -/

/-- The step is made after the first overdue sweep, or it is no longer than the
second one is late. -/
def ClockStep.Absorbed (step : ClockStep) (sweeper : SeriesSweeper) (overdue : Nat) : Prop :=
  sweeper.elapsed overdue < step.moment ∨
    sweeper.seriesTtl ≤ sweeper.elapsed (overdue + 1) - step.amount

theorem SeriesSweeper.elapsed_mono (sweeper : SeriesSweeper) {earlier later : Nat}
    (ordered : earlier ≤ later) : sweeper.elapsed earlier ≤ sweeper.elapsed later :=
  Nat.add_le_add_left (Nat.mul_le_mul_right _ ordered) _

/-- By age alone, a sweep up to the second overdue one takes the key exactly if
the step is absorbed. -/
theorem exists_aged_out_iff (start : Nat) (step : ClockStep) {sweeper : SeriesSweeper}
    {overdue : Nat} (firstOverdue : sweeper.FirstOverdue overdue) :
    (∃ index < overdue + 2, sweeper.seriesTtl ≤
        wallClockSecs start step (sweeper.elapsed index) - start) ↔
      step.Absorbed sweeper overdue := by
  simp only [wallClockSecs_sub]
  have isOverdue := firstOverdue.overdue
  have ordered := sweeper.elapsed_mono (Nat.le_add_right overdue 1)
  constructor
  · intro agedOut
    rcases agedOut with ⟨index, inRange, aged⟩
    have notBefore : overdue ≤ index := by
      by_contra before
      have young := firstOverdue.first index (by omega)
      split at aged <;> omega
    have upTo := sweeper.elapsed_mono (show index ≤ overdue + 1 by omega)
    have since := sweeper.elapsed_mono notBefore
    unfold ClockStep.Absorbed
    split at aged <;> omega
  · intro absorbed
    rcases absorbed with notYet | short
    · exact ⟨overdue, by omega, by rwa [if_pos notYet]⟩
    · refine ⟨overdue + 1, by omega, ?_⟩
      split <;> omega

/-- A key without further events is gone by the second overdue sweep exactly if
that sweep absorbs the step, or the removal of the key's pod was due by then. -/
theorem evicted_by_second_overdue_sweep_iff {earlier : History} (event : EnrichedOomEvent)
    (step : ClockStep) {sweeper : SeriesSweeper} {between : Nat → History} {overdue : Nat}
    {collector : MetricsCollector Vec} (firstOverdue : sweeper.FirstOverdue overdue)
    (noFurtherEvent : ∀ index, ∀ operation ∈ between index,
      operation.LeavesAlone (.ofEvent event))
    (executes : Executes (sweeper.afterSweeps (wallClockSecs event.timestamp step) between
      (.recordOomEvent event :: earlier) (overdue + 2)) collector) :
    Evicted (.ofEvent event) collector ↔
      step.Absorbed sweeper overdue ∨
        ∃ index < overdue + 2, ∃ due,
          sweeper.dueAt (wallClockSecs event.timestamp step) between
              (.recordOomEvent event :: earlier)
              ((SeriesKey.ofEvent event).ns, (SeriesKey.ofEvent event).pod) index = some due ∧
            due ≤ wallClockSecs event.timestamp step (sweeper.elapsed index) := by
  have latest : lastRecorded (.ofEvent event) (.recordOomEvent event :: earlier) =
      some event.timestamp := by
    rw [lastRecorded_record, if_pos rfl]
  have someSweep := sweeper.lastRecorded_afterSweeps (wallClockSecs event.timestamp step) between
    (.recordOomEvent event :: earlier) noFurtherEvent latest (overdue + 2)
  rw [executes.reflects.evicted_iff, someSweep,
    ← exists_aged_out_iff event.timestamp step firstOverdue]
  simp only [ite_eq_left_iff, reduceCtorEq, imp_false, not_not, SeriesSweeper.takesAt,
    sweepTakes_iff, and_or_left, exists_or]

/-- A step of one minute, swept every minute with a TTL of one: the second sweep
finds the key old enough. -/
theorem evicted_by_second_overdue_sweep_one_minute :
    ∃ collector : MetricsCollector LabelVec,
      Executes ((⟨60, 60, 60⟩ : SeriesSweeper).afterSweeps (wallClockSecs 1000 ⟨1, 60⟩)
        (fun _ => []) [.recordOomEvent (eventFor "api-7d9" "containerd://abc123" 1000)] 2)
        collector ∧
      Evicted (.ofEvent (eventFor "api-7d9" "containerd://abc123" 1000)) collector := by
  obtain ⟨collector, executes⟩ : ∃ collector : MetricsCollector LabelVec, _ :=
    exists_executes ((⟨60, 60, 60⟩ : SeriesSweeper).afterSweeps (wallClockSecs 1000 ⟨1, 60⟩)
      (fun _ => []) [.recordOomEvent (eventFor "api-7d9" "containerd://abc123" 1000)] 2)
  have firstOverdue : (⟨60, 60, 60⟩ : SeriesSweeper).FirstOverdue 0 :=
    ⟨by decide, by omega⟩
  have noFurtherEvent : ∀ index : Nat, ∀ operation ∈ (fun _ => [] : Nat → History) index,
      operation.LeavesAlone (.ofEvent (eventFor "api-7d9" "containerd://abc123" 1000)) := by
    intro index operation member
    cases member
  have absorbed : (⟨1, 60⟩ : ClockStep).Absorbed ⟨60, 60, 60⟩ 0 := .inr (by decide)
  exact ⟨collector, executes, (evicted_by_second_overdue_sweep_iff
    (eventFor "api-7d9" "containerd://abc123" 1000) ⟨1, 60⟩ firstOverdue noFurtherEvent
    executes).mpr (.inl absorbed)⟩

/-- With the TTL of half an hour and the five minutes between sweeps that are the
defaults, a clock set back by two hours keeps a key beyond both sweeps made once
the half hour is over. -/
theorem tracked_after_second_overdue_sweep :
    (⟨300, 300, 1800⟩ : SeriesSweeper).FirstOverdue 5 ∧
      ∃ collector : MetricsCollector LabelVec,
        Executes ((⟨300, 300, 1800⟩ : SeriesSweeper).afterSweeps
          (wallClockSecs 10000 ⟨1, 7200⟩) (fun _ => [])
          [.recordOomEvent (eventFor "api-7d9" "containerd://abc123" 10000)] 7) collector ∧
        ¬ Evicted (.ofEvent (eventFor "api-7d9" "containerd://abc123" 10000)) collector := by
  refine ⟨⟨by decide, by decide⟩, ?_⟩
  obtain ⟨collector, executes⟩ : ∃ collector : MetricsCollector LabelVec, _ :=
    exists_executes ((⟨300, 300, 1800⟩ : SeriesSweeper).afterSweeps
      (wallClockSecs 10000 ⟨1, 7200⟩) (fun _ => [])
      [.recordOomEvent (eventFor "api-7d9" "containerd://abc123" 10000)] 7)
  refine ⟨collector, executes, ?_⟩
  rw [executes.reflects.evicted_iff]
  decide

end OomWatcher
