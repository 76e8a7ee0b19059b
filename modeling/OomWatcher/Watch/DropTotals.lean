import Mathlib.Data.List.MinMax
import Mathlib.Order.Nat
import OomWatcher.Watch.Accounting

/-! # The drop counter over a sequence of totals

The counter is advanced by what a total has grown since the last reading, and
every reading is kept as the last one, also one that fell. -/

namespace OomWatcher

variable {Vec : Type} [MetricVec Vec (List String)]

open WatchLoop (dropsRecorded dropsRecorded_recordDroppedTotal lastDroppedTotal_report)

namespace MetricsCollector

def afterTotals (node : String) (totals : List Nat) : MetricsCollector Vec :=
  totals.foldl (fun collector total => collector.recordDroppedTotal node total) new

def dropsCounted (Vec : Type) [MetricVec Vec (List String)] (node : String)
    (totals : List Nat) : Nat :=
  dropsRecorded (afterTotals node totals : MetricsCollector Vec) node

def largest (totals : List Nat) : Nat := totals.foldr max 0

theorem le_largest {totals : List Nat} {total : Nat} (member : total ∈ totals) :
    total ≤ largest totals :=
  List.le_max_of_le member (Nat.le_refl total)

theorem largest_le {totals : List Nat} {bound : Nat}
    (bounded : ∀ total ∈ totals, total ≤ bound) : largest totals ≤ bound :=
  List.max_le_of_forall_le totals bound bounded

theorem largest_append_singleton (totals : List Nat) (total : Nat) :
    largest (totals ++ [total]) = max (largest totals) total := by
  induction totals with
  | nil => simp [largest]
  | cons first rest induction =>
      have inner : largest (first :: (rest ++ [total])) = max first (largest (rest ++ [total])) :=
        rfl
      rw [List.cons_append, inner, induction, ← max_assoc]
      rfl

theorem afterTotals_append_singleton (node : String) (totals : List Nat) (total : Nat) :
    (afterTotals node (totals ++ [total]) : MetricsCollector Vec) =
      (afterTotals node totals).recordDroppedTotal node total := by
  rw [afterTotals, List.foldl_append, List.foldl_cons, List.foldl_nil]
  rfl

theorem lastDroppedTotal_afterTotals (node : String) (totals : List Nat) :
    (afterTotals node totals : MetricsCollector Vec).lastDroppedTotal =
      totals.getLast?.getD 0 := by
  rcases List.eq_nil_or_concat totals with rfl | ⟨front, total, rfl⟩
  · rfl
  · rw [List.concat_eq_append, afterTotals_append_singleton, lastDroppedTotal_report,
      List.getLast?_concat, Option.getD_some]

theorem dropsCounted_append_singleton (node : String) (totals : List Nat) (total : Nat) :
    dropsCounted Vec node (totals ++ [total]) =
      dropsCounted Vec node totals + (total - totals.getLast?.getD 0) := by
  rw [dropsCounted, afterTotals_append_singleton, dropsRecorded_recordDroppedTotal,
    lastDroppedTotal_afterTotals]
  rfl

def CountsLargest (Vec : Type) [MetricVec Vec (List String)] (node : String)
    (totals : List Nat) : Prop :=
  ∀ reported later, totals = reported ++ later →
    dropsCounted Vec node reported = largest reported

/-- A total is larger than the one before it only where that one was the largest
so far. -/
def RisesFromLargest (totals : List Nat) : Prop :=
  ∀ before previous total after, totals = before ++ previous :: total :: after →
    previous < total → ∀ earlier ∈ before, earlier ≤ previous

theorem dropsCounted_eq_largest {node : String} {reported later : List Nat}
    (rises : RisesFromLargest (reported ++ later)) :
    dropsCounted Vec node reported = largest reported := by
  induction reported using List.reverseRecOn generalizing later with
  | nil => simp [dropsCounted, afterTotals, new, dropsRecorded, sample, largest]
  | append_singleton front total induction =>
      have counted : dropsCounted Vec node front = largest front := by
        have onward : RisesFromLargest (front ++ total :: later) := by
          rwa [List.append_assoc, List.singleton_append] at rises
        exact induction onward
      rw [dropsCounted_append_singleton, largest_append_singleton, counted]
      rcases List.eq_nil_or_concat front with rfl | ⟨before, previous, rfl⟩
      · simp [largest]
      · rw [List.concat_eq_append] at rises ⊢
        rw [List.getLast?_concat, Option.getD_some]
        have last : previous ≤ largest (before ++ [previous]) := le_largest (by simp)
        by_cases risen : previous < total
        · have bounded := rises before previous total later (by simp) risen
          have top : largest (before ++ [previous]) ≤ previous := by
            rw [largest_append_singleton]
            exact max_le (largest_le bounded) (Nat.le_refl _)
          omega
        · omega

/-- The counter follows the largest total exactly when no total recovers from a
dip: a recovery is counted a second time. -/
theorem countsLargest_iff_risesFromLargest (node : String) (totals : List Nat) :
    CountsLargest Vec node totals ↔ RisesFromLargest totals := by
  constructor
  · intro counts before previous total after isSplit risen earlier member
    subst isSplit
    have atPrevious := counts (before ++ [previous]) (total :: after) (by simp)
    have atTotal := counts (before ++ [previous] ++ [total]) after (by simp)
    rw [dropsCounted_append_singleton, atPrevious, List.getLast?_concat,
      Option.getD_some, largest_append_singleton _ total] at atTotal
    have bounded : earlier ≤ largest (before ++ [previous]) :=
      le_largest (List.mem_append_left _ member)
    omega
  · intro rises reported later isSplit
    subst isSplit
    exact dropsCounted_eq_largest rises

/-- A dip and a recovery. -/
theorem recovered_total_counted_twice :
    ¬ ∀ (node : String) (totals : List Nat), CountsLargest LabelVec node totals := by
  intro counts
  have counted := counts "node-1" [7, 2, 7] [7, 2, 7] [] rfl
  revert counted
  decide

end MetricsCollector

end OomWatcher
