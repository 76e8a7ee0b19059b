import OomWatcher.Source.RingBufSource
import OomWatcher.Watch.ProcessEvent

/-! # Every kill is recorded or counted as dropped

The watch loop on a source that the probe feeds. The probe drops a kill only for
want of room, so some record is still in the ring, and the loop reads the drop
total after each. -/

namespace OomWatcher

variable {Vec : Type} [MetricVec Vec (List String)]

/-! ## The probe -/

def ringBytes : Nat := 256 * 1024

/-- An event and the ring's header to it. -/
def recordBytes : Nat := 8 + eventSize

/-- Whether the records the consumer has not released leave room for one more.
The ring never fills to its last byte. -/
def hasRoom (ring : RingQueue Record) : Bool :=
  decide ((ring.slots.length - ring.consumer + 1) * recordBytes < ringBytes)

/-- A firing of the tracepoint on a CPU, the arguments decoded. -/
def markVictim (source : RingBufSource) (cpu : Nat) (event : OomKillEvent) : RingBufSource :=
  if hasRoom source.ring then
    Polled.commit
      { source with ring := source.ring.reserve ⟨event, eventSize, Nat.le_refl _⟩ }
      source.ring.slots.length
  else { source with dropped := source.dropped.modify cpu (· + 1) }

/-! ## The loop -/

/-- Where the loop stands. The drop counters are read one CPU after the other. -/
inductive LoopPosition
  | waiting
  | processing (event : OomKillEvent)
  | reading (values : List Nat)
  | reporting (total : Nat)
  | beating
deriving DecidableEq

structure WatchLoop (Vec : Type) where
  polled : Polled
  collector : MetricsCollector Vec
  position : LoopPosition
  /-- How often the tracepoint has fired. -/
  firings : Nat

namespace WatchLoop

def start (cpus : Nat) : WatchLoop Vec where
  polled := .start [] cpus
  collector := .new
  position := .waiting
  firings := 0

inductive Action
  | fire (cpu : Nat) (event : OomKillEvent)
  | deliver
  | poll
  | tick
  | process (outcome : ResolutionOutcome) (timestamp : Nat)
  | readDropped
  | report
  | beat

def returning (polled : Polled) : Option OomKillEvent :=
  match polled.position, polled.source.pending with
  | .top, event :: _ => some event
  | _, _ => none

/-- The next step of `next`, called if it was not. -/
def poll (state : WatchLoop Vec) : Option (WatchLoop Vec) :=
  match state.position with
  | .waiting =>
      let action : Polled.Action :=
        if state.polled.position = .away then .callNext else .continueNext
      (state.polled.step action).map fun polled =>
        { state with
          polled := polled
          position := (returning state.polled).elim .waiting .processing }
  | _ => none

/-- A tick wins the race while `next` is at its await or not called. -/
def tick (state : WatchLoop Vec) : Option (WatchLoop Vec) :=
  match state.position, state.polled.position with
  | .waiting, .awaiting =>
      some { state with
        polled := { state.polled with position := .away }
        position := .beating }
  | .waiting, .away => some { state with position := .beating }
  | _, _ => none

def nodeLabel (nodeName : Option String) : String := nodeName.getD "unknown"

def step (nodeName : Option String) (state : WatchLoop Vec) :
    Action → Option (WatchLoop Vec)
  | .fire cpu event =>
      if cpu < state.polled.source.dropped.length then
        some { state with
          polled := { state.polled with source := markVictim state.polled.source cpu event }
          firings := state.firings + 1 }
      else none
  | .deliver =>
      (state.polled.step .deliver).map fun polled => { state with polled := polled }
  | .poll => state.poll
  | .tick => state.tick
  | .process outcome timestamp =>
      match state.position with
      | .processing event =>
          some { state with
            collector := processEvent state.collector nodeName event outcome timestamp
            position := .reading [] }
      | _ => none
  | .readDropped =>
      match state.position with
      | .reading values =>
          match state.polled.source.dropped[values.length]? with
          | some value => some { state with position := .reading (values ++ [value]) }
          | none => some { state with position := .reporting values.sum }
      | _ => none
  | .report =>
      match state.position with
      | .reporting total =>
          some { state with
            collector := state.collector.recordDroppedTotal (nodeLabel nodeName) total
            position := .beating }
      | _ => none
  | .beat =>
      match state.position with
      | .beating => some { state with position := .waiting }
      | _ => none

def machine (nodeName : Option String) : Machine (WatchLoop Vec) Action where
  step := step nodeName

/-! ## What the recorder counts -/

def killsRecorded (collector : MetricsCollector Vec) (node : String) : Nat :=
  (sample collector.vecs .oomKillsPerNodeTotal [node]).getD 0

def dropsRecorded (collector : MetricsCollector Vec) (node : String) : Nat :=
  (sample collector.vecs .oomEventsDroppedTotal [node]).getD 0

theorem killsRecorded_record (collector : MetricsCollector Vec) (event : EnrichedOomEvent) :
    killsRecorded (collector.recordOomEvent event) (SeriesKey.ofEvent event).node =
      killsRecorded collector (SeriesKey.ofEvent event).node + 1 := by
  unfold killsRecorded
  change (sample (executeAll collector.vecs (recordInstructions event)) _ _).getD 0 = _
  rw [sample_record_perNode, if_pos rfl, Option.getD_some]

theorem dropsRecorded_record (collector : MetricsCollector Vec) (event : EnrichedOomEvent)
    (node : String) :
    dropsRecorded (collector.recordOomEvent event) node = dropsRecorded collector node := by
  unfold dropsRecorded
  change (sample (executeAll collector.vecs (recordInstructions event)) _ _).getD 0 = _
  rw [sample_record_dropped]

theorem killsRecorded_resolution (collector : MetricsCollector Vec) (node : String)
    (outcome : ResolutionOutcome) (label : String) :
    killsRecorded (collector.recordResolutionOutcome node outcome) label =
      killsRecorded collector label := by
  unfold killsRecorded
  rw [sample_resolution]
  nofun

theorem dropsRecorded_resolution (collector : MetricsCollector Vec) (node : String)
    (outcome : ResolutionOutcome) (label : String) :
    dropsRecorded (collector.recordResolutionOutcome node outcome) label =
      dropsRecorded collector label := by
  unfold dropsRecorded
  rw [sample_resolution]
  nofun

theorem lastDroppedTotal_resolution (collector : MetricsCollector Vec) (node : String)
    (outcome : ResolutionOutcome) :
    (collector.recordResolutionOutcome node outcome).lastDroppedTotal =
      collector.lastDroppedTotal := by
  cases outcome <;> rfl

section Counts

variable (collector : MetricsCollector Vec) (nodeName : Option String)
  (rawEvent : OomKillEvent) (outcome : ResolutionOutcome) (timestamp : Nat)

theorem killsRecorded_process :
    killsRecorded (processEvent collector nodeName rawEvent outcome timestamp)
        (nodeLabel nodeName) =
      killsRecorded collector (nodeLabel nodeName) + 1 := by
  cases nodeName with
  | some node =>
      exact (killsRecorded_record _ _).trans
        (congrArg (· + 1) (killsRecorded_resolution collector node outcome node))
  | none => exact killsRecorded_record collector _

theorem dropsRecorded_process (node : String) :
    dropsRecorded (processEvent collector nodeName rawEvent outcome timestamp) node =
      dropsRecorded collector node := by
  cases nodeName with
  | some own =>
      exact (dropsRecorded_record _ _ node).trans
        (dropsRecorded_resolution collector own outcome node)
  | none => exact dropsRecorded_record collector _ node

theorem lastDroppedTotal_process :
    (processEvent collector nodeName rawEvent outcome timestamp).lastDroppedTotal =
      collector.lastDroppedTotal := by
  cases nodeName with
  | some node => exact lastDroppedTotal_resolution collector node outcome
  | none => rfl

theorem killsRecorded_report (node : String) (total : Nat) :
    killsRecorded (collector.recordDroppedTotal node total) node =
      killsRecorded collector node := by
  unfold killsRecorded MetricsCollector.recordDroppedTotal
  split
  · rfl
  · split
    · have other : Family.oomKillsPerNodeTotal ≠ .oomEventsDroppedTotal := nofun
      rw [sample_write_of_family _ _ _ _ other]
    · rfl

theorem lastDroppedTotal_report (node : String) (total : Nat) :
    (collector.recordDroppedTotal node total).lastDroppedTotal = total := by
  rw [MetricsCollector.recordDroppedTotal]
  split
  · rfl
  · split <;> rfl

theorem dropsRecorded_recordDroppedTotal (node : String) (total : Nat) :
    dropsRecorded (collector.recordDroppedTotal node total) node =
      dropsRecorded collector node + (total - collector.lastDroppedTotal) := by
  rw [MetricsCollector.recordDroppedTotal, checkedSub]
  by_cases grown : collector.lastDroppedTotal ≤ total
  · rw [if_pos grown]
    dsimp only
    by_cases positive : total - collector.lastDroppedTotal > 0
    · rw [if_pos positive, dropsRecorded, sample_write, if_pos ⟨rfl, rfl⟩, Option.getD_some,
        Write.change]
      rfl
    · rw [if_neg positive]
      change dropsRecorded collector node = _
      omega
  · rw [if_neg grown]
    change dropsRecorded collector node = _
    omega

theorem dropsRecorded_report {node : String} {total : Nat}
    (counted : dropsRecorded collector node = collector.lastDroppedTotal)
    (grown : collector.lastDroppedTotal ≤ total) :
    dropsRecorded (collector.recordDroppedTotal node total) node = total := by
  rw [dropsRecorded_recordDroppedTotal, counted]
  omega

end Counts

/-! ## The invariant -/

def Outstanding (source : RingBufSource) : Prop :=
  source.ring.consumer < source.ring.slots.length ∨ source.pending ≠ []

/-- The total the next report will make, if the counters stay as they are. -/
def expectedTotal (state : WatchLoop Vec) : Nat :=
  let dropped := state.polled.source.dropped
  match state.position with
  | .waiting | .beating => state.collector.lastDroppedTotal
  | .processing _ => dropped.sum
  | .reading values => values.sum + (dropped.drop values.length).sum
  | .reporting total => total

def inHand (state : WatchLoop Vec) : Nat :=
  match state.position with
  | .processing _ => 1
  | .waiting | .reading _ | .reporting _ | .beating => 0

structure Accounts (nodeName : Option String) (state : WatchLoop Vec) : Prop where
  sound : Polled.Sound state.polled
  releasing : ∀ guard record, state.polled.position = .releasing guard record →
    state.polled.source.pending ≠ []
  away : state.position ≠ .waiting → state.polled.position = .away
  fired : state.firings =
    state.polled.source.ring.slots.length + state.polled.source.dropped.sum
  recorded : state.polled.handedOut.length =
    killsRecorded state.collector (nodeLabel nodeName) + inHand state
  counted : dropsRecorded state.collector (nodeLabel nodeName) =
    state.collector.lastDroppedTotal
  grows : state.collector.lastDroppedTotal ≤ state.expectedTotal
  bounded : state.expectedTotal ≤ state.polled.source.dropped.sum
  reported : state.expectedTotal = state.polled.source.dropped.sum ∨
    Outstanding state.polled.source

theorem accounts_start (nodeName : Option String) (cpus : Nat) :
    Accounts nodeName (start cpus : WatchLoop Vec) where
  sound := Polled.sound_start [] cpus
  releasing _ _ position := by cases position
  away notWaiting := absurd rfl notWaiting
  fired := by simp [start, Polled.start, RingQueue.ofSlots]
  recorded := by simp [start, Polled.start, killsRecorded, MetricsCollector.new, sample, inHand]
  counted := by simp [start, dropsRecorded, MetricsCollector.new, sample]
  grows := Nat.le_refl _
  bounded := Nat.zero_le _
  reported := .inl (by simp [start, Polled.start, expectedTotal, MetricsCollector.new])

/-! ### A firing -/

/-- A counter that goes up is counted once, where it has not been read yet. -/
theorem sum_drop_modify (counters : List Nat) {cpu : Nat} (online : cpu < counters.length)
    (read : Nat) :
    ((counters.modify cpu (· + 1)).drop read).sum =
      (counters.drop read).sum + if read ≤ cpu then 1 else 0 := by
  induction counters generalizing cpu read with
  | nil => cases online
  | cons counter rest induction =>
      cases cpu with
      | zero => cases read <;> simp; omega
      | succ cpu =>
          have onlineRest : cpu < rest.length := Nat.lt_of_succ_lt_succ online
          cases read with
          | zero =>
              have atZero := induction onlineRest 0
              simp at atZero ⊢
              omega
          | succ read => simpa using induction onlineRest read

theorem unreleased_of_full {ring : RingQueue Record} (full : hasRoom ring = false) :
    ring.consumer < ring.slots.length := by
  by_contra released
  have noRoom : ¬(ring.slots.length - ring.consumer + 1) * recordBytes < ringBytes :=
    of_decide_eq_false full
  rw [Nat.sub_eq_zero_of_le (Nat.not_lt.mp released)] at noRoom
  exact noRoom (by decide)

section Steps

variable {nodeName : Option String} {state next : WatchLoop Vec}

theorem Accounts.accept (accounts : Accounts nodeName state) {cpu : Nat}
    {event : OomKillEvent} (room : hasRoom state.polled.source.ring = true) :
    Accounts nodeName { state with
      polled := { state.polled with source := markVictim state.polled.source cpu event }
      firings := state.firings + 1 } := by
  let record : Record := ⟨event, eventSize, Nat.le_refl _⟩
  have accepted : markVictim state.polled.source cpu event =
      Polled.commit
        { state.polled.source with ring := state.polled.source.ring.reserve record }
        state.polled.source.ring.slots.length := if_pos room
  have reserved := accounts.sound.of_ring
    (RingQueue.taken_reserve state.polled.source.ring record)
    (RingQueue.front_reserve state.polled.source.ring record)
  have busy : (state.polled.source.ring.reserve record).slots[
      state.polled.source.ring.slots.length]? = some ⟨record, false⟩ := by
    simp [RingQueue.reserve]
  have longer : (markVictim state.polled.source cpu event).ring.slots.length =
      state.polled.source.ring.slots.length + 1 := by
    rw [accepted]
    simp [Polled.commit, RingQueue.commit, RingQueue.reserve]
  rw [accepted] at longer ⊢
  refine ⟨reserved.commit busy, accounts.releasing, accounts.away, ?_, accounts.recorded,
    accounts.counted, accounts.grows, accounts.bounded, ?_⟩
  · have fired := accounts.fired
    change state.firings + 1 =
      (Polled.commit _ _).ring.slots.length + state.polled.source.dropped.sum
    rw [longer]
    omega
  · right
    left
    rw [longer]
    exact Nat.lt_succ_of_le state.polled.source.ring.consumer_le

theorem Accounts.reject (accounts : Accounts nodeName state) {cpu : Nat}
    {event : OomKillEvent} (online : cpu < state.polled.source.dropped.length)
    (full : hasRoom state.polled.source.ring = false) :
    Accounts nodeName { state with
      polled := { state.polled with source := markVictim state.polled.source cpu event }
      firings := state.firings + 1 } := by
  have rejected : markVictim state.polled.source cpu event =
      { state.polled.source with
        dropped := state.polled.source.dropped.modify cpu (· + 1) } :=
    if_neg (Bool.eq_false_iff.mp full)
  have sum : (state.polled.source.dropped.modify cpu (· + 1)).sum =
      state.polled.source.dropped.sum + 1 := by
    simpa using sum_drop_modify _ online 0
  rw [rejected]
  rcases state with ⟨⟨source, nextPosition, handedOut⟩, collector, position, firings⟩
  have sound := accounts.sound
  refine ⟨⟨sound.delivered, sound.noticed, sound.awaiting, sound.item, sound.guard⟩,
    accounts.releasing, accounts.away, ?_, accounts.recorded, accounts.counted, ?_, ?_,
    .inr (.inl (unreleased_of_full full))⟩
  · have fired := accounts.fired
    dsimp only at fired sum ⊢
    omega
  · have grows := accounts.grows
    cases position with
    | waiting | beating | reporting total => exact grows
    | processing event =>
        dsimp only [expectedTotal] at grows sum ⊢
        omega
    | reading values =>
        have unread := sum_drop_modify _ online values.length
        dsimp only [expectedTotal] at grows unread ⊢
        omega
  · have bounded := accounts.bounded
    cases position with
    | waiting | beating | reporting total =>
        dsimp only [expectedTotal] at bounded sum ⊢
        omega
    | processing event => exact Nat.le_refl _
    | reading values =>
        have unread := sum_drop_modify _ online values.length
        dsimp only [expectedTotal] at bounded unread sum ⊢
        split at unread <;> omega

theorem Accounts.of_polled (accounts : Accounts nodeName state) {polled : Polled}
    (sound : Polled.Sound polled)
    (releasing : ∀ guard record, polled.position = .releasing guard record →
      polled.source.pending ≠ [])
    (away : state.position ≠ .waiting → polled.position = .away)
    (sameSlots : polled.source.ring.slots = state.polled.source.ring.slots)
    (sameDropped : polled.source.dropped = state.polled.source.dropped)
    (sameHandedOut : polled.handedOut = state.polled.handedOut)
    (keeps : Outstanding state.polled.source → Outstanding polled.source) :
    Accounts nodeName { state with polled := polled } := by
  have sameTotal : expectedTotal { state with polled := polled } = state.expectedTotal := by
    unfold expectedTotal
    rw [sameDropped]
  refine ⟨sound, releasing, away, ?_, ?_, accounts.counted, ?_, ?_, ?_⟩
  · rw [sameSlots, sameDropped]
    exact accounts.fired
  · rw [sameHandedOut]
    exact accounts.recorded
  · rw [sameTotal]
    exact accounts.grows
  · rw [sameTotal, sameDropped]
    exact accounts.bounded
  · rw [sameTotal, sameDropped]
    exact accounts.reported.imp_right keeps

theorem Accounts.continueNext (accounts : Accounts nodeName state) {polled : Polled}
    (waiting : state.position = .waiting)
    (continued : state.polled.continueNext = some polled) :
    Accounts nodeName { state with
      polled := polled
      position := (returning state.polled).elim .waiting .processing } := by
  have sound := accounts.sound.continueNext continued
  rcases state with ⟨⟨⟨ring, readiness, pending, dropped⟩, nextPosition, handedOut⟩,
    collector, position, firings⟩
  cases waiting
  cases nextPosition with
  | away => cases continued
  | ended => cases continued
  | top =>
      cases pending with
      | cons event rest =>
          cases continued
          refine ⟨sound, (fun _ _ ahead => by cases ahead), fun _ => rfl, accounts.fired, ?_,
            accounts.counted, accounts.grows.trans accounts.bounded, Nat.le_refl _, .inl rfl⟩
          have recorded := accounts.recorded
          simp only [inHand, returning, List.length_append, List.length_singleton,
            Option.elim_some] at recorded ⊢
          omega
      | nil =>
          cases continued
          exact accounts.of_polled sound (fun _ _ ahead => by cases ahead) (absurd rfl) rfl rfl rfl
            id
  | awaiting =>
      simp only [Polled.continueNext] at continued
      split at continued
      · cases continued
        exact accounts.of_polled sound (fun _ _ ahead => by cases ahead) (absurd rfl) rfl rfl rfl id
      · cases continued
  | draining guard =>
      simp only [Polled.continueNext] at continued
      split at continued
      · cases continued
        exact accounts.of_polled sound (fun _ _ ahead => by cases ahead) (absurd rfl) rfl rfl rfl id
      · cases continued
        exact accounts.of_polled sound (fun _ _ ahead => by cases ahead) (absurd rfl) rfl rfl rfl id
  | holding guard record =>
      simp only [Polled.continueNext, if_pos record.whole] at continued
      cases continued
      have nonempty : pending ++ [record.event] ≠ [] := by simp
      exact accounts.of_polled sound (fun _ _ _ => nonempty) (absurd rfl) rfl rfl rfl
        fun _ => .inr nonempty
  | releasing guard record =>
      cases continued
      have nonempty : pending ≠ [] := accounts.releasing guard record rfl
      exact accounts.of_polled sound (fun _ _ ahead => by cases ahead) (absurd rfl)
        (RingQueue.slots_release ring) rfl rfl fun _ => .inr nonempty
  | drained guard =>
      cases continued
      exact accounts.of_polled sound (fun _ _ ahead => by cases ahead) (absurd rfl) rfl rfl rfl id

theorem Accounts.process (accounts : Accounts nodeName state) {event : OomKillEvent}
    (position : state.position = .processing event) (outcome : ResolutionOutcome)
    (timestamp : Nat) :
    Accounts nodeName { state with
      collector := processEvent state.collector nodeName event outcome timestamp
      position := .reading [] } := by
  rcases state with ⟨polled, collector, _, firings⟩
  cases position
  refine ⟨accounts.sound, accounts.releasing, fun _ => accounts.away nofun, accounts.fired,
    ?_, ?_, ?_, ?_, ?_⟩
  · rw [killsRecorded_process]
    exact accounts.recorded
  · rw [dropsRecorded_process, lastDroppedTotal_process]
    exact accounts.counted
  · have grows := accounts.grows
    simp only [expectedTotal, lastDroppedTotal_process] at grows ⊢
    simpa using grows
  · simp [expectedTotal]
  · left
    simp [expectedTotal]

theorem sum_read {dropped values : List Nat} {value : Nat}
    (found : dropped[values.length]? = some value) :
    (values ++ [value]).sum + (dropped.drop (values ++ [value]).length).sum =
      values.sum + (dropped.drop values.length).sum := by
  rcases List.getElem?_eq_some_iff.mp found with ⟨inside, rfl⟩
  rw [List.drop_eq_getElem_cons inside, List.sum_append, List.length_append,
    List.sum_singleton, List.length_singleton, List.sum_cons]
  omega

theorem Accounts.read (accounts : Accounts nodeName state) {values : List Nat} {value : Nat}
    (position : state.position = .reading values)
    (found : state.polled.source.dropped[values.length]? = some value) :
    Accounts nodeName { state with position := .reading (values ++ [value]) } := by
  rcases state with ⟨polled, collector, _, firings⟩
  cases position
  have sameTotal : expectedTotal ⟨polled, collector, .reading (values ++ [value]), firings⟩ =
      expectedTotal ⟨polled, collector, .reading values, firings⟩ := sum_read found
  refine ⟨accounts.sound, accounts.releasing, fun _ => accounts.away nofun, accounts.fired,
    accounts.recorded, accounts.counted, ?_, ?_, ?_⟩
  · rw [sameTotal]
    exact accounts.grows
  · rw [sameTotal]
    exact accounts.bounded
  · rw [sameTotal]
    exact accounts.reported

theorem Accounts.readAll (accounts : Accounts nodeName state) {values : List Nat}
    (position : state.position = .reading values)
    (all : state.polled.source.dropped[values.length]? = none) :
    Accounts nodeName { state with position := .reporting values.sum } := by
  rcases state with ⟨polled, collector, _, firings⟩
  cases position
  have sameTotal : expectedTotal ⟨polled, collector, .reporting values.sum, firings⟩ =
      expectedTotal ⟨polled, collector, .reading values, firings⟩ := by
    simp [expectedTotal, List.drop_eq_nil_of_le (List.getElem?_eq_none_iff.mp all)]
  refine ⟨accounts.sound, accounts.releasing, fun _ => accounts.away nofun, accounts.fired,
    accounts.recorded, accounts.counted, ?_, ?_, ?_⟩
  · rw [sameTotal]
    exact accounts.grows
  · rw [sameTotal]
    exact accounts.bounded
  · rw [sameTotal]
    exact accounts.reported

theorem Accounts.report (accounts : Accounts nodeName state) {total : Nat}
    (position : state.position = .reporting total) :
    Accounts nodeName { state with
      collector := state.collector.recordDroppedTotal (nodeLabel nodeName) total
      position := .beating } := by
  rcases state with ⟨polled, collector, _, firings⟩
  cases position
  have sameTotal : expectedTotal ⟨polled,
      collector.recordDroppedTotal (nodeLabel nodeName) total, .beating, firings⟩ = total :=
    lastDroppedTotal_report collector _ total
  refine ⟨accounts.sound, accounts.releasing, fun _ => accounts.away nofun, accounts.fired,
    ?_, ?_, ?_, ?_, ?_⟩
  · rw [killsRecorded_report]
    exact accounts.recorded
  · rw [lastDroppedTotal_report]
    exact dropsRecorded_report collector accounts.counted accounts.grows
  · rw [sameTotal, lastDroppedTotal_report]
  · rw [sameTotal]
    exact accounts.bounded
  · rw [sameTotal]
    exact accounts.reported

theorem Accounts.poll (accounts : Accounts nodeName state) (polled : state.poll = some next) :
    Accounts nodeName next := by
  rcases state with ⟨⟨source, nextPosition, handedOut⟩, collector, position, firings⟩
  cases position with
  | processing event | reading values | reporting total | beating => cases polled
  | waiting =>
      by_cases away : nextPosition = .away
      · cases away
        cases polled
        have called : Polled.machine.step ⟨source, .away, handedOut⟩ .callNext =
            some ⟨source, .top, handedOut⟩ := rfl
        exact accounts.of_polled (accounts.sound.step called) nofun (absurd rfl) rfl rfl rfl id
      · simp only [WatchLoop.poll, if_neg away, Polled.step] at polled
        rcases Option.map_eq_some_iff.mp polled with ⟨after, continued, rfl⟩
        exact accounts.continueNext rfl continued

theorem Accounts.tick (accounts : Accounts nodeName state) (ticked : state.tick = some next) :
    Accounts nodeName next := by
  rcases state with ⟨⟨source, nextPosition, handedOut⟩, collector, position, firings⟩
  cases position with
  | processing event | reading values | reporting total | beating => cases ticked
  | waiting =>
      cases nextPosition with
      | awaiting =>
          cases ticked
          have cancelled : Polled.machine.step ⟨source, .awaiting, handedOut⟩ .cancelNext =
              some ⟨source, .away, handedOut⟩ := rfl
          exact ⟨accounts.sound.step cancelled, nofun, fun _ => rfl, accounts.fired,
            accounts.recorded, accounts.counted, accounts.grows, accounts.bounded,
            accounts.reported⟩
      | away =>
          cases ticked
          exact ⟨accounts.sound, nofun, fun _ => rfl, accounts.fired, accounts.recorded,
            accounts.counted, accounts.grows, accounts.bounded, accounts.reported⟩
      | top | draining _ | holding _ _ | releasing _ _ | drained _ | ended => cases ticked

theorem Accounts.beat (accounts : Accounts nodeName state)
    (position : state.position = .beating) :
    Accounts nodeName { state with position := .waiting } := by
  rcases state with ⟨polled, collector, _, firings⟩
  cases position
  exact ⟨accounts.sound, accounts.releasing, absurd rfl, accounts.fired, accounts.recorded,
    accounts.counted, accounts.grows, accounts.bounded, accounts.reported⟩

theorem Accounts.step {action : Action} (accounts : Accounts nodeName state)
    (stepped : (machine nodeName).step state action = some next) : Accounts nodeName next := by
  cases action with
  | fire cpu event =>
      simp only [machine, WatchLoop.step] at stepped
      split at stepped
      · next online =>
          cases stepped
          cases room : hasRoom state.polled.source.ring with
          | true => exact accounts.accept room
          | false => exact accounts.reject online room
      · cases stepped
  | deliver =>
      simp only [machine, WatchLoop.step, Polled.step] at stepped
      split at stepped
      · cases stepped
        exact accounts.of_polled accounts.sound.deliver accounts.releasing accounts.away rfl
          rfl rfl id
      · cases stepped
  | poll => exact accounts.poll stepped
  | tick => exact accounts.tick stepped
  | process outcome timestamp =>
      simp only [machine, WatchLoop.step] at stepped
      split at stepped
      · next position =>
          cases stepped
          exact accounts.process position outcome timestamp
      · cases stepped
  | readDropped =>
      simp only [machine, WatchLoop.step] at stepped
      split at stepped
      · next position =>
          split at stepped
          · next found =>
              cases stepped
              exact accounts.read position found
          · next all =>
              cases stepped
              exact accounts.readAll position all
      · cases stepped
  | report =>
      simp only [machine, WatchLoop.step] at stepped
      split at stepped
      · next position =>
          cases stepped
          exact accounts.report position
      · cases stepped
  | beat =>
      simp only [machine, WatchLoop.step] at stepped
      split at stepped
      · next position =>
          cases stepped
          exact accounts.beat position
      · cases stepped

end Steps

theorem accounts_of_run {nodeName : Option String} {cpus : Nat} {actions : List Action}
    {state : WatchLoop Vec}
    (ran : (machine nodeName).run (start cpus) actions = some state) :
    Accounts nodeName state :=
  Machine.invariant_of_any_run (fun accounts stepped => accounts.step stepped)
    (accounts_start nodeName cpus) ran

def Settled (state : WatchLoop Vec) : Prop :=
  state.position = .waiting ∧
    state.polled.source.ring.consumer = state.polled.source.ring.slots.length ∧
      state.polled.source.pending = []

/-- A settled loop has handed out and recorded what the ring took, and reported
what it did not take. -/
theorem Accounts.of_settled {nodeName : Option String} {state : WatchLoop Vec}
    (accounts : Accounts nodeName state) (settled : state.Settled) :
    state.polled.handedOut = (state.polled.source.ring.slots.map (·.value)).map (·.event) ∧
      killsRecorded state.collector (nodeLabel nodeName) =
        state.polled.source.ring.slots.length ∧
      dropsRecorded state.collector (nodeLabel nodeName) = state.polled.source.dropped.sum := by
  rcases settled with ⟨waiting, ringEmpty, nonePending⟩
  have allHandedOut : state.polled.handedOut =
      (state.polled.source.ring.slots.map (·.value)).map (·.event) := by
    have delivered := accounts.sound.delivered
    have secured : state.polled.secured = state.polled.source.ring.taken := by
      rw [Polled.secured]
      split
      · next position => exact absurd nonePending (accounts.releasing _ _ position)
      · rfl
    rw [nonePending, List.append_nil, secured, RingQueue.taken, ringEmpty,
      List.take_length] at delivered
    exact delivered
  refine ⟨allHandedOut, ?_, ?_⟩
  · have recorded := accounts.recorded
    rw [allHandedOut, List.length_map, List.length_map, inHand, waiting] at recorded
    exact recorded.symm
  · have notOutstanding : ¬Outstanding state.polled.source := by
      intro outstanding
      rcases outstanding with unreleased | pending
      · omega
      · exact pending nonePending
    have allReported := accounts.reported.resolve_right notOutstanding
    simp only [expectedTotal, waiting] at allReported
    exact accounts.counted.trans allReported

end WatchLoop

end OomWatcher
