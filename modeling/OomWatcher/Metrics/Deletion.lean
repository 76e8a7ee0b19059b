import OomWatcher.Metrics.Registry

/-! # The schedule of a deleted pod

What the due times of deleted pods do to the keys of those pods, on a clock
that never goes back. A due time is kept per pod name, so a deletion and a key
may belong to different pods of one name. -/

namespace OomWatcher

variable {Vec : Type} [MetricVec Vec (List String)]

open MetricsCollector

def Operation.time : Operation → Nat
  | .recordOomEvent event => event.timestamp
  | .notePodDeleted _ _ now => now
  | .evictStale now _ => now

/-- The calls read one clock that never goes back. -/
def Chronological (history : History) : Prop :=
  history.Pairwise fun later earlier => earlier.time ≤ later.time

theorem Chronological.tail {operation : Operation} {history : History}
    (chronological : Chronological (operation :: history)) : Chronological history :=
  (List.pairwise_cons.mp chronological).2

theorem Chronological.le {operation earlier : Operation} {history : History}
    (chronological : Chronological (operation :: history)) (member : earlier ∈ history) :
    earlier.time ≤ operation.time :=
  (List.pairwise_cons.mp chronological).1 earlier member

theorem Chronological.sweep {operation : Operation} {history : History}
    (chronological : Chronological (operation :: history)) {now ttlSecs : Nat}
    (reached : operation.time ≤ now) :
    Chronological (.evictStale now ttlSecs :: operation :: history) := by
  refine List.pairwise_cons.mpr ⟨?_, chronological⟩
  intro earlier member
  rcases List.mem_cons.mp member with rfl | older
  · exact reached
  · exact (chronological.le older).trans reached

theorem exists_executes (history : History) :
    ∃ collector : MetricsCollector Vec, Executes history collector := by
  induction history with
  | nil => exact ⟨new, .start⟩
  | cons operation earlier induction =>
      rcases induction with ⟨collector, executes⟩
      exact ⟨collector.apply operation, .call operation executes (.refl collector)⟩

theorem exists_of_lastRecorded {key : SeriesKey} {history : History} {seen : Nat}
    (latest : lastRecorded key history = some seen) :
    ∃ event, .recordOomEvent event ∈ history ∧ SeriesKey.ofEvent event = key ∧
      event.timestamp = seen := by
  induction history with
  | nil => cases latest
  | cons operation earlier induction =>
      have older : lastRecorded key earlier = some seen →
          ∃ event, .recordOomEvent event ∈ operation :: earlier ∧
            SeriesKey.ofEvent event = key ∧ event.timestamp = seen := by
        intro before
        rcases induction before with ⟨event, member, properties⟩
        exact ⟨event, List.mem_cons_of_mem _ member, properties⟩
      cases operation with
      | recordOomEvent event =>
          rw [lastRecorded_record] at latest
          split at latest
          · next own =>
              exact ⟨event, List.mem_cons_self, own.symm, Option.some.inj latest⟩
          · exact older latest
      | notePodDeleted ns pod now => exact older latest
      | evictStale now ttlSecs =>
          rw [lastRecorded_evict] at latest
          exact older (Option.filter_eq_some_iff.mp latest).1

theorem Chronological.lastRecorded_le {operation : Operation} {history : History}
    (chronological : Chronological (operation :: history)) {key : SeriesKey} {seen : Nat}
    (latest : lastRecorded key history = some seen) : seen ≤ operation.time := by
  rcases exists_of_lastRecorded latest with ⟨event, member, _, rfl⟩
  exact chronological.le member

theorem saturatingAdd_of_le {left right : Nat} (fits : left + right ≤ u64Max) :
    saturatingAdd left right = left + right :=
  Nat.min_eq_left fits

theorem saturatingAdd_mono {left right amount : Nat} (ordered : left ≤ right) :
    saturatingAdd left amount ≤ saturatingAdd right amount :=
  le_min ((Nat.min_le_left _ _).trans (Nat.add_le_add_right ordered _)) (Nat.min_le_right _ _)

theorem scheduled_le {pod : String × String} {history : History} {due : Nat}
    (pending : scheduled pod history = some due) : due ≤ u64Max := by
  induction history generalizing due with
  | nil => cases pending
  | cons operation earlier induction =>
      cases operation with
      | recordOomEvent event => exact induction pending
      | notePodDeleted ns name now =>
          rw [scheduled] at pending
          split at pending
          · exact Option.some.inj pending ▸ Nat.min_le_right _ _
          · exact induction pending
      | evictStale now ttlSecs =>
          rw [scheduled] at pending
          exact induction (Option.filter_eq_some_iff.mp pending).1

theorem Reflects.sample_kills_evict {history : History}
    {collector : MetricsCollector Vec} (reflects : Reflects history collector)
    (now ttlSecs : Nat) (key : SeriesKey) :
    sample (collector.evictStale now ttlSecs).1.vecs .oomKillsTotal key.labels = none ↔
      lastRecorded key history = none ∨ takes now ttlSecs history key = true := by
  rw [(reflects.evictStale now ttlSecs).kills, ite_eq_left_iff, sinceEvicted_eq_nil_iff,
    lastRecorded_evict]
  rw [takes]
  cases lastRecorded key history with
  | none => simp
  | some seen => simp [Option.filter_some]

theorem sweepTakes_iff {now ttlSecs seen : Nat} {removableAt : Option Nat} :
    sweepTakes now ttlSecs seen removableAt = true ↔
      ttlSecs ≤ now - seen ∨ ∃ due, removableAt = some due ∧ due ≤ now := by
  rw [sweepTakes, Bool.or_eq_true, decide_eq_true_iff, Option.any_eq_true]
  simp only [Bool.not_eq_true', decide_eq_false_iff_not, Nat.not_lt, ge_iff_le]

theorem takes_iff {now ttlSecs : Nat} {history : History} {key : SeriesKey} :
    takes now ttlSecs history key = true ↔
      ∃ seen, lastRecorded key history = some seen ∧
        (ttlSecs ≤ now - seen ∨
          ∃ due, scheduled (key.ns, key.pod) history = some due ∧ due ≤ now) := by
  rw [takes, Option.any_eq_true]
  simp only [sweepTakes_iff]

/-! ## The grace of a series -/

/-- The sweep removes no series within the grace of its latest event, or within
the TTL when that is shorter. -/
def GraceRespected (history : History) (collector : MetricsCollector Vec)
    (now ttlSecs : Nat) : Prop :=
  ∀ (key : SeriesKey) (latest : EnrichedOomEvent),
    (sinceEvicted key history).head? = some latest →
      sample (collector.evictStale now ttlSecs).1.vecs .oomKillsTotal key.labels = none →
        latest.timestamp + min ttlSecs deletedPodGraceSeconds ≤ now

/-- No call puts the due time of a pod's removal within the grace of a tracked
event: no event is recorded less than the grace before a pending due time, and
no deletion is noted so late that the due time saturates below it. -/
def SchedulesLeaveGrace : History → Prop
  | [] => True
  | .recordOomEvent event :: earlier =>
      (∀ due, scheduled ((SeriesKey.ofEvent event).ns, (SeriesKey.ofEvent event).pod)
          earlier = some due → event.timestamp + deletedPodGraceSeconds ≤ due) ∧
        SchedulesLeaveGrace earlier
  | .notePodDeleted ns pod now :: earlier =>
      (∀ (key : SeriesKey) (seen : Nat), (key.ns, key.pod) = (ns, pod) →
          lastRecorded key earlier = some seen →
            seen + deletedPodGraceSeconds ≤ saturatingAdd now deletedPodGraceSeconds) ∧
        SchedulesLeaveGrace earlier
  | .evictStale _ _ :: earlier => SchedulesLeaveGrace earlier

theorem SchedulesLeaveGrace.tail {operation : Operation} {history : History}
    (leaveGrace : SchedulesLeaveGrace (operation :: history)) :
    SchedulesLeaveGrace history := by
  cases operation with
  | recordOomEvent event => exact leaveGrace.2
  | notePodDeleted ns pod now => exact leaveGrace.2
  | evictStale now ttlSecs => exact leaveGrace

theorem SchedulesLeaveGrace.of_suffix {history earlier : History}
    (leaveGrace : SchedulesLeaveGrace history) (suffixed : earlier <:+ history) :
    SchedulesLeaveGrace earlier := by
  induction history with
  | nil => rwa [List.suffix_nil.mp suffixed]
  | cons operation rest induction =>
      rcases List.suffix_cons_iff.mp suffixed with equal | inRest
      · rwa [equal]
      · exact induction leaveGrace.tail inRest

/-- The invariant: the removal of a pod is due at least the grace after the
latest event of each of its keys. -/
theorem SchedulesLeaveGrace.grace_le_due {history : History}
    (leaveGrace : SchedulesLeaveGrace history) {key : SeriesKey} {seen due : Nat}
    (latest : lastRecorded key history = some seen)
    (pending : scheduled (key.ns, key.pod) history = some due) :
    seen + deletedPodGraceSeconds ≤ due := by
  induction history generalizing seen due with
  | nil => cases latest
  | cons operation earlier induction =>
      have before : ∀ {seen due : Nat}, lastRecorded key earlier = some seen →
          scheduled (key.ns, key.pod) earlier = some due →
            seen + deletedPodGraceSeconds ≤ due := induction leaveGrace.tail
      cases operation with
      | recordOomEvent event =>
          rw [lastRecorded_record] at latest
          rw [scheduled] at pending
          split at latest
          · next own =>
              have timestamp := Option.some.inj latest
              rw [own] at pending
              exact timestamp ▸ leaveGrace.1 due pending
          · exact before latest pending
      | notePodDeleted ns pod now =>
          rw [scheduled] at pending
          split at pending
          · next ofPod =>
              rw [← Option.some.inj pending]
              exact leaveGrace.1 key seen ofPod latest
          · exact before latest pending
      | evictStale now ttlSecs =>
          rw [lastRecorded_evict] at latest
          rw [scheduled] at pending
          exact before (Option.filter_eq_some_iff.mp latest).1
            (Option.filter_eq_some_iff.mp pending).1

theorem grace_respected_of_schedules {history : History}
    {collector : MetricsCollector Vec} (executes : Executes history collector)
    {now ttlSecs : Nat} (chronological : Chronological (.evictStale now ttlSecs :: history))
    (leaveGrace : SchedulesLeaveGrace history) :
    GraceRespected history collector now ttlSecs := by
  intro key latest isLatest removed
  have seen : lastRecorded key history = some latest.timestamp := by
    simp [lastRecorded, isLatest]
  have seenLe : latest.timestamp ≤ now := chronological.lastRecorded_le seen
  have taken := (executes.reflects.sample_kills_evict now ttlSecs key).mp removed
  rw [seen] at taken
  rcases takes_iff.mp (taken.resolve_left (Option.some_ne_none _)) with ⟨other, tracked, stale⟩
  cases seen.symm.trans tracked
  rcases stale with agedOut | ⟨due, pending, isDue⟩
  · omega
  · have := leaveGrace.grace_le_due seen pending
    omega

theorem grace_not_respected {history : History} {collector : MetricsCollector Vec}
    (executes : Executes history collector) {key : SeriesKey} {seen due now : Nat}
    (latest : lastRecorded key history = some seen)
    (pending : scheduled (key.ns, key.pod) history = some due)
    (isDue : due ≤ now) (tooEarly : now < seen + deletedPodGraceSeconds) :
    ¬GraceRespected history collector now deletedPodGraceSeconds := by
  intro respected
  rcases Option.map_eq_some_iff.mp latest with ⟨event, isLatest, timestamp⟩
  have taken : takes now deletedPodGraceSeconds history key = true :=
    takes_iff.mpr ⟨seen, latest, .inr ⟨due, pending, isDue⟩⟩
  have removed := (executes.reflects.sample_kills_evict now deletedPodGraceSeconds key).mpr
    (.inr taken)
  have late := respected key event isLatest removed
  omega

theorem le_due_of_respected_deletion {earlier : History} {ns pod : String} {deletedAt : Nat}
    {collector : MetricsCollector Vec}
    (executes : Executes (.notePodDeleted ns pod deletedAt :: earlier) collector)
    (chronological : Chronological (.notePodDeleted ns pod deletedAt :: earlier))
    (respected : GraceRespected (.notePodDeleted ns pod deletedAt :: earlier) collector u64Max
      deletedPodGraceSeconds)
    {key : SeriesKey} {seen : Nat} (ofPod : (key.ns, key.pod) = (ns, pod))
    (latest : lastRecorded key earlier = some seen) :
    seen + deletedPodGraceSeconds ≤ saturatingAdd deletedAt deletedPodGraceSeconds := by
  by_contra tooEarly
  have seenLe : seen ≤ deletedAt := chronological.lastRecorded_le latest
  -- the clock does not go back, so only a saturated due time is that early
  have saturated : u64Max < deletedAt + deletedPodGraceSeconds := by
    by_contra fits
    rw [saturatingAdd_of_le (Nat.not_lt.mp fits)] at tooEarly
    omega
  have due : saturatingAdd deletedAt deletedPodGraceSeconds = u64Max :=
    Nat.min_eq_right saturated.le
  rw [due] at tooEarly
  have pending : scheduled (key.ns, key.pod) (.notePodDeleted ns pod deletedAt :: earlier) =
      some u64Max := by
    rw [scheduled, if_pos ofPod, due]
  exact grace_not_respected executes latest pending le_rfl (Nat.not_le.mp tooEarly) respected

theorem le_due_of_respected_record {earlier : History} {event : EnrichedOomEvent}
    {collector : MetricsCollector Vec} {due : Nat}
    (executes : Executes (.recordOomEvent event :: earlier) collector)
    (respected : GraceRespected (.recordOomEvent event :: earlier) collector
      (max due event.timestamp) deletedPodGraceSeconds)
    (pending : scheduled ((SeriesKey.ofEvent event).ns, (SeriesKey.ofEvent event).pod) earlier =
      some due) :
    event.timestamp + deletedPodGraceSeconds ≤ due := by
  by_contra tooEarly
  have latest : lastRecorded (SeriesKey.ofEvent event) (.recordOomEvent event :: earlier) =
      some event.timestamp := by
    rw [lastRecorded_record, if_pos rfl]
  have gracePositive : 0 < deletedPodGraceSeconds := by decide
  exact grace_not_respected executes latest pending (Nat.le_max_left due event.timestamp)
    (by omega) respected

/-- Every sweep that is or could be made in the run respects the grace exactly
when the due times leave it. -/
theorem grace_respected_iff {history : History} (chronological : Chronological history)
    (readings : ∀ operation ∈ history, operation.time ≤ u64Max) :
    (∀ earlier, earlier <:+ history →
      ∀ collector : MetricsCollector Vec, Executes earlier collector →
        ∀ now ttlSecs, now ≤ u64Max →
          Chronological (.evictStale now ttlSecs :: earlier) →
            GraceRespected earlier collector now ttlSecs) ↔
      SchedulesLeaveGrace history := by
  constructor
  · intro respected
    induction history with
    | nil => trivial
    | cons operation earlier induction =>
        have before : SchedulesLeaveGrace earlier :=
          induction chronological.tail
            (fun other member => readings other (List.mem_cons_of_mem _ member))
            fun prior suffixed => respected prior (suffixed.trans (List.suffix_cons _ _))
        obtain ⟨collector, executes⟩ : ∃ collector : MetricsCollector Vec,
            Executes (operation :: earlier) collector := exists_executes _
        have respectedNow := fun now ttlSecs => respected _ (List.suffix_refl _)
          collector executes now ttlSecs
        cases operation with
        | evictStale now ttlSecs => exact before
        | notePodDeleted ns pod now =>
            have reading : now ≤ u64Max := readings _ List.mem_cons_self
            have atEnd := respectedNow u64Max deletedPodGraceSeconds le_rfl
              (chronological.sweep reading)
            refine ⟨?_, before⟩
            intro key seen ofPod latest
            exact le_due_of_respected_deletion executes chronological atEnd ofPod latest
        | recordOomEvent event =>
            have reading : event.timestamp ≤ u64Max := readings _ List.mem_cons_self
            refine ⟨?_, before⟩
            intro due pending
            have whenDue := respectedNow (max due event.timestamp) deletedPodGraceSeconds
              (Nat.max_le.mpr ⟨scheduled_le pending, reading⟩)
              (chronological.sweep (Nat.le_max_right _ _))
            exact le_due_of_respected_record executes whenDue pending
  · intro leaveGrace earlier suffixed collector executes now ttlSecs _ sweepLater
    exact grace_respected_of_schedules executes sweepLater (leaveGrace.of_suffix suffixed)

/-- A pod of a noted name is killed again before the removal comes due: the
sweep at the due time takes the second kill a second after it was counted. -/
theorem grace_not_respected_recreated_pod :
    ¬∀ (history : History) (collector : MetricsCollector LabelVec),
      Executes history collector → ∀ now ttlSecs,
        Chronological (.evictStale now ttlSecs :: history) →
          GraceRespected history collector now ttlSecs := by
  intro respected
  obtain ⟨collector, executes⟩ : ∃ collector : MetricsCollector LabelVec,
      Executes [.recordOomEvent (eventFor "db-0" "containerd://new" 119),
        .notePodDeleted "prod" "db-0" 0] collector := exists_executes _
  have chronological : Chronological [.evictStale 120 1800,
      .recordOomEvent (eventFor "db-0" "containerd://new" 119),
      .notePodDeleted "prod" "db-0" 0] := by
    rw [Chronological]
    decide
  have latest := respected _ collector executes 120 1800 chronological
    (SeriesKey.ofEvent (eventFor "db-0" "containerd://new" 119))
    (eventFor "db-0" "containerd://new" 119) (by decide)
  rw [executes.reflects.sample_kills_evict] at latest
  exact absurd (latest (.inr (by decide))) (by decide)

def deletedOnce : MetricsCollector LabelVec :=
  (new.recordOomEvent (eventFor "db-0" "containerd://old" 10)).notePodDeleted "prod" "db-0" 20

theorem executes_deletedOnce :
    Executes [.notePodDeleted "prod" "db-0" 20,
      .recordOomEvent (eventFor "db-0" "containerd://old" 10)] deletedOnce :=
  .call (.notePodDeleted "prod" "db-0" 20)
    (.call (.recordOomEvent _) .start (.refl _)) (.refl _)

/-- A pod killed, deleted and swept after its removal is due. -/
theorem grace_respected_iff_deleted_once :
    GraceRespected [.notePodDeleted "prod" "db-0" 20,
        .recordOomEvent (eventFor "db-0" "containerd://old" 10)]
      deletedOnce 140 1800 := by
  have chronological : Chronological [.evictStale 140 1800,
      .notePodDeleted "prod" "db-0" 20,
      .recordOomEvent (eventFor "db-0" "containerd://old" 10)] := by
    rw [Chronological]
    decide
  have leaveGrace : SchedulesLeaveGrace [.notePodDeleted "prod" "db-0" 20,
      .recordOomEvent (eventFor "db-0" "containerd://old" 10)] := by
    refine ⟨?_, ?_, trivial⟩
    · intro key seen _ latest
      have seenLe : seen ≤ 20 := chronological.tail.lastRecorded_le latest
      have due : saturatingAdd 20 deletedPodGraceSeconds = 20 + deletedPodGraceSeconds := by
        decide
      omega
    · intro due pending
      cases pending
  exact (grace_respected_iff chronological.tail (by decide)).mpr leaveGrace _
    (List.suffix_refl _) deletedOnce executes_deletedOnce 140 1800 (by decide) chronological

/-! ## A noted deletion

The calls after a deletion, most recent first, up to the first sweep that finds
its grace over. -/

def NotRecorded (key : SeriesKey) (history : History) : Prop :=
  ∀ event, .recordOomEvent event ∈ history → SeriesKey.ofEvent event ≠ key

/-- Nothing is left of the pod's keys that were not recorded after its deletion.
A memory gauge may be left when a container of the same name was killed since. -/
structure DeletionCarriedOut (ns pod : String) (later : History)
    (collector : MetricsCollector Vec) : Prop where
  perContainer : ∀ key : SeriesKey, key.ns = ns → key.pod = pod → NotRecorded key later →
    sample collector.vecs .oomKillsTotal key.labels = none ∧
      sample collector.vecs .oomLastTimestamp key.labels = none
  memory : ∀ key : SeriesKey, key.ns = ns → key.pod = pod → NotRecorded key later →
    (∀ event, .recordOomEvent event ∈ later →
      (SeriesKey.ofEvent event).sharesMemorySeriesWith key = false) →
    ∀ memoryType,
      sample collector.vecs .oomMemoryUsageBytes (key.memoryLabels memoryType) = none

theorem scheduled_after_deletion {later earlier : History} {ns pod : String}
    {deletedAt : Nat}
    (chronological : Chronological (later ++ .notePodDeleted ns pod deletedAt :: earlier))
    (notDue : ∀ now ttlSecs, .evictStale now ttlSecs ∈ later →
      now < saturatingAdd deletedAt deletedPodGraceSeconds) :
    ∃ latest, (latest = deletedAt ∨ .notePodDeleted ns pod latest ∈ later) ∧
      deletedAt ≤ latest ∧
      (∀ again, .notePodDeleted ns pod again ∈ later → again ≤ latest) ∧
      scheduled (ns, pod) (later ++ .notePodDeleted ns pod deletedAt :: earlier) =
        some (saturatingAdd latest deletedPodGraceSeconds) := by
  induction later with
  | nil =>
      refine ⟨deletedAt, .inl rfl, le_rfl, fun _ member => ?_, ?_⟩
      · cases member
      · exact if_pos rfl
  | cons operation rest induction =>
      rcases induction chronological.tail
        (fun now ttlSecs member => notDue now ttlSecs (List.mem_cons_of_mem _ member))
        with ⟨latest, noted, afterFirst, isLatest, pending⟩
      have stillNoted : latest = deletedAt ∨
          .notePodDeleted ns pod latest ∈ operation :: rest :=
        noted.imp_right (List.mem_cons_of_mem _)
      cases operation with
      | recordOomEvent event =>
          refine ⟨latest, stillNoted, afterFirst, ?_, pending⟩
          intro again member
          exact isLatest again (by simpa using member)
      | evictStale now ttlSecs =>
          refine ⟨latest, stillNoted, afterFirst, ?_, ?_⟩
          · intro again member
            exact isLatest again (by simpa using member)
          · have early := notDue now ttlSecs List.mem_cons_self
            have stillEarly := early.trans_le (saturatingAdd_mono afterFirst)
            rw [List.cons_append, scheduled, pending, Option.filter_some,
              if_pos (decide_eq_true stillEarly)]
      | notePodDeleted otherNs otherPod again =>
          by_cases same : (ns, pod) = (otherNs, otherPod)
          · rcases Prod.mk.inj same with ⟨rfl, rfl⟩
            refine ⟨again, .inr List.mem_cons_self, ?_, ?_, ?_⟩
            · exact chronological.le (List.mem_append_right _ List.mem_cons_self)
            · intro other member
              rcases List.mem_cons.mp member with equal | older
              · injection equal with _ _ equal
                exact equal.le
              · exact chronological.le (List.mem_append_left _ older)
            · exact if_pos rfl
          · refine ⟨latest, stillNoted, afterFirst, ?_, ?_⟩
            · intro other member
              rcases List.mem_cons.mp member with equal | older
              · injection equal with nsEqual podEqual _
                exact absurd (Prod.ext nsEqual podEqual) same
              · exact isLatest other older
            · rw [List.cons_append, scheduled, if_neg same, pending]

theorem Reflects.deletionCarriedOut {history later : History} {ns pod : String}
    {collector : MetricsCollector Vec} (reflects : Reflects history collector)
    (untracked : ∀ key : SeriesKey, key.ns = ns → key.pod = pod → NotRecorded key later →
      sinceEvicted key history = []) :
    DeletionCarriedOut ns pod later collector := by
  constructor
  · intro key ofNs ofPod notRecorded
    have gone := untracked key ofNs ofPod notRecorded
    constructor
    · rw [reflects.kills, if_pos gone]
    · rw [reflects.lastTimestamp, ← sinceEvicted_eq_nil_iff, gone]
  · intro key ofNs ofPod notRecorded unshared memoryType
    apply reflects.memoryUncovered
    intro covered
    rcases covered with ⟨live, tracked, shared⟩
    rcases SeriesKey.pod_eq_of_shares shared with ⟨sameNs, samePod⟩
    apply tracked
    apply untracked live (sameNs.trans ofNs) (samePod.trans ofPod)
    intro event member own
    have ownShared := own ▸ unshared event member
    rw [ownShared] at shared
    cases shared

/-- The first sweep after the grace of a deletion carries it out exactly when
the removal was not put off by a later deletion of a pod of that name, or every
key it should take has aged out. -/
theorem deletion_carried_out_iff {later earlier : History} {ns pod : String}
    {deletedAt now ttlSecs : Nat} {collector : MetricsCollector Vec}
    (executes : Executes (later ++ .notePodDeleted ns pod deletedAt :: earlier) collector)
    (chronological : Chronological (.evictStale now ttlSecs ::
      (later ++ .notePodDeleted ns pod deletedAt :: earlier)))
    (isFirst : ∀ swept ttl, .evictStale swept ttl ∈ later →
      swept < deletedAt + deletedPodGraceSeconds)
    (reached : deletedAt + deletedPodGraceSeconds ≤ now) (reading : now ≤ u64Max) :
    DeletionCarriedOut ns pod later (collector.evictStale now ttlSecs).1 ↔
      (∀ again, .notePodDeleted ns pod again ∈ later →
          saturatingAdd again deletedPodGraceSeconds ≤ now) ∨
        ∀ (key : SeriesKey) (seen : Nat), key.ns = ns → key.pod = pod →
          NotRecorded key later → collector.lastSeen.lookup key = some seen →
            ttlSecs ≤ now - seen := by
  have reflects := executes.reflects
  have firstDue : saturatingAdd deletedAt deletedPodGraceSeconds =
      deletedAt + deletedPodGraceSeconds := saturatingAdd_of_le (reached.trans reading)
  rcases scheduled_after_deletion chronological.tail
    (fun swept ttl member => firstDue ▸ isFirst swept ttl member)
    with ⟨latest, noted, afterFirst, isLatest, pending⟩
  constructor
  · intro carriedOut
    by_contra neither
    rw [not_or] at neither
    apply neither.1
    intro again member
    by_contra putOff
    apply neither.2
    intro key seen ofNs ofPod notRecorded tracked
    subst ofNs ofPod
    rw [reflects.lastSeen] at tracked
    have taken := (reflects.sample_kills_evict now ttlSecs key).mp
      (carriedOut.perContainer key rfl rfl notRecorded).1
    rw [tracked] at taken
    rcases takes_iff.mp (taken.resolve_left (Option.some_ne_none _)) with ⟨other, found, stale⟩
    cases tracked.symm.trans found
    rcases stale with agedOut | ⟨due, isPending, isDue⟩
    · exact agedOut
    · -- the pending removal is due only if every deletion's is
      cases pending.symm.trans isPending
      exact absurd ((saturatingAdd_mono (isLatest again member)).trans isDue) putOff
  · intro condition
    apply (reflects.evictStale now ttlSecs).deletionCarriedOut
    intro key ofNs ofPod notRecorded
    rw [sinceEvicted_evict, ite_eq_left_iff]
    intro notTaken
    rw [sinceEvicted_eq_nil_iff, Option.eq_none_iff_forall_ne_some]
    intro seen tracked
    apply notTaken
    apply takes_iff.mpr
    refine ⟨seen, tracked, ?_⟩
    rw [ofNs, ofPod]
    rcases condition with inTime | agedOut
    · refine .inr ⟨_, pending, ?_⟩
      rcases noted with rfl | member
      · exact firstDue.le.trans reached
      · exact inTime latest member
    · rw [← reflects.lastSeen] at tracked
      exact .inl (agedOut key seen ofNs ofPod notRecorded tracked)

/-- A pod of a noted name is deleted again before the removal comes due: the
sweep at the due time leaves the first pod's series where they are. -/
theorem deletion_not_carried_out_pod_deleted_again :
    ¬∀ (later earlier : History) (ns pod : String) (deletedAt now ttlSecs : Nat)
      (collector : MetricsCollector LabelVec),
      Executes (later ++ .notePodDeleted ns pod deletedAt :: earlier) collector →
        Chronological (.evictStale now ttlSecs ::
          (later ++ .notePodDeleted ns pod deletedAt :: earlier)) →
        (∀ swept ttl, .evictStale swept ttl ∈ later →
          swept < deletedAt + deletedPodGraceSeconds) →
        deletedAt + deletedPodGraceSeconds ≤ now →
          DeletionCarriedOut ns pod later (collector.evictStale now ttlSecs).1 := by
  intro carriedOut
  obtain ⟨collector, executes⟩ : ∃ collector : MetricsCollector LabelVec,
      Executes ([.notePodDeleted "prod" "db-0" 100] ++ .notePodDeleted "prod" "db-0" 0 ::
        [.recordOomEvent (eventFor "db-0" "containerd://old" 0)]) collector :=
    exists_executes _
  have chronological : Chronological (.evictStale 120 1800 ::
      ([.notePodDeleted "prod" "db-0" 100] ++ .notePodDeleted "prod" "db-0" 0 ::
        [.recordOomEvent (eventFor "db-0" "containerd://old" 0)])) := by
    rw [Chronological]
    decide
  have gone := (carriedOut _ _ "prod" "db-0" 0 120 1800 collector executes chronological
    (by simp) (by decide)).perContainer
    (SeriesKey.ofEvent (eventFor "db-0" "containerd://old" 0)) rfl rfl
    (by simp [NotRecorded])
  rw [executes.reflects.sample_kills_evict] at gone
  exact absurd gone.1 (by decide)

/-- A pod killed and deleted once: the sweep two minutes later leaves none of
its series. -/
theorem deletion_carried_out_iff_deleted_once :
    DeletionCarriedOut "prod" "db-0" [] (deletedOnce.evictStale 140 1800).1 := by
  have chronological : Chronological (.evictStale 140 1800 ::
      ([] ++ .notePodDeleted "prod" "db-0" 20 ::
        [.recordOomEvent (eventFor "db-0" "containerd://old" 10)])) := by
    rw [Chronological]
    decide
  exact (deletion_carried_out_iff executes_deletedOnce chronological (by simp) (by decide)
    (by decide)).mpr (.inl (by simp))

end OomWatcher
