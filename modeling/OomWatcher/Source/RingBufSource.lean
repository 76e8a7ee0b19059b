import OomWatcher.Events
import OomWatcher.Foundation.Machine
import OomWatcher.Foundation.RingQueue

/-! # The ring buffer source

The in-cluster event source, with the kernel's ring on one side and the watch
loop on the other. Probes reserve and commit, the reactor delivers edges, and the
loop polls `next` or drops it at its only await. -/

namespace OomWatcher

def eventSize : Nat := 80

/-- A ring record. The probe writes at least one whole event to each. -/
structure Record where
  event : OomKillEvent
  length : Nat
  whole : eventSize ≤ length
deriving DecidableEq

structure RingBufSource where
  ring : RingQueue Record
  readiness : Readiness
  /-- Decoded events not yet handed out. -/
  pending : List OomKillEvent
  /-- The probe's drop counter of each CPU. -/
  dropped : List Nat

/-- Where a call of `next` stands. A guard is the tick it was obtained at, and a
record is the item in scope. -/
inductive NextPosition
  | away
  | top
  | awaiting
  | draining (guard : Nat)
  | holding (guard : Nat) (record : Record)
  | releasing (guard : Nat) (record : Record)
  | drained (guard : Nat)
  | ended
deriving DecidableEq

def NextPosition.guard : NextPosition → Option Nat
  | .away | .top | .awaiting | .ended => none
  | .draining guard | .holding guard _ | .releasing guard _ | .drained guard => some guard

def NextPosition.item : NextPosition → Option Record
  | .holding _ record | .releasing _ record => some record
  | .away | .top | .awaiting | .draining _ | .drained _ | .ended => none

structure Polled where
  source : RingBufSource
  position : NextPosition
  handedOut : List OomKillEvent

namespace Polled

/-- A source registered with the reactor, which reports a ring that has records
already. -/
def start (slots : List (Slot Record)) (cpus : Nat) : Polled where
  source :=
    { ring := .ofSlots slots
      readiness := ⟨!slots.isEmpty, false, 0⟩
      pending := []
      dropped := List.replicate cpus 0 }
  position := .away
  handedOut := []

inductive Action
  | reserve (record : Record)
  | commit (index : Nat)
  | deliver
  | callNext
  | continueNext
  | cancelNext
  | failReadiness

def continueNext (state : Polled) : Option Polled :=
  let source := state.source
  match state.position with
  | .away | .ended => none
  | .top =>
      match source.pending with
      | event :: rest =>
          some { source := { source with pending := rest }
                 position := .away
                 handedOut := state.handedOut ++ [event] }
      | [] => some { state with position := .awaiting }
  | .awaiting =>
      if source.readiness.ready then
        some { state with position := .draining source.readiness.tick }
      else none
  | .draining guard =>
      match source.ring.front with
      | some record => some { state with position := .holding guard record }
      | none => some { state with position := .drained guard }
  | .holding guard record =>
      let pending :=
        if record.length ≥ eventSize then source.pending ++ [record.event]
        else source.pending
      some { state with
        source := { source with pending := pending }
        position := .releasing guard record }
  | .releasing guard _ =>
      some { state with
        source := { source with ring := source.ring.release }
        position := .draining guard }
  | .drained guard =>
      some { state with
        source := { source with readiness := source.readiness.clear guard }
        position := .top }

/-- A commit signals when the consumer is at the record. -/
def commit (source : RingBufSource) (index : Nat) : RingBufSource :=
  { source with
    ring := source.ring.commit index
    readiness :=
      if index = source.ring.consumer then source.readiness.signal else source.readiness }

def step (state : Polled) : Action → Option Polled
  | .reserve record =>
      some { state with
        source := { state.source with ring := state.source.ring.reserve record } }
  | .commit index =>
      match state.source.ring.slots[index]? with
      | some ⟨_, false⟩ => some { state with source := commit state.source index }
      | _ => none
  | .deliver =>
      if state.source.readiness.inFlight then
        some { state with
          source := { state.source with readiness := state.source.readiness.deliver } }
      else none
  | .callNext =>
      match state.position with
      | .away => some { state with position := .top }
      | _ => none
  | .continueNext => state.continueNext
  | .cancelNext =>
      match state.position with
      | .awaiting => some { state with position := .away }
      | _ => none
  | .failReadiness =>
      match state.position with
      | .awaiting => some { state with position := .ended }
      | _ => none

def machine : Machine Polled Action where
  step := step

/-- Waiting at the await, with nothing on its way to wake it. -/
def Parked (state : Polled) : Prop :=
  state.position = .awaiting ∧ state.source.readiness.ready = false ∧
    state.source.readiness.inFlight = false

instance (state : Polled) : Decidable state.Parked :=
  inferInstanceAs (Decidable (_ ∧ _ ∧ _))

/-! ## The invariant -/

/-- What has been secured from the ring: a record that is about to be released
is already pending. -/
def secured (state : Polled) : List Record :=
  match state.position with
  | .releasing _ record => state.source.ring.taken ++ [record]
  | _ => state.source.ring.taken

def Noticed (state : Polled) : Prop :=
  match state.position with
  | .away | .top | .awaiting => state.source.readiness.Wakes
  | .drained guard => state.source.readiness.WakesAfter guard
  | .draining _ | .holding _ _ | .releasing _ _ | .ended => True

structure Sound (state : Polled) : Prop where
  delivered : state.handedOut ++ state.source.pending = state.secured.map (·.event)
  noticed : state.source.ring.front ≠ none → state.Noticed
  awaiting : state.position = .awaiting → state.source.pending = []
  item : ∀ record, state.position.item = some record → state.source.ring.front = some record
  guard : ∀ guard, state.position.guard = some guard → guard ≤ state.source.readiness.tick

theorem sound_start (slots : List (Slot Record)) (cpus : Nat) : Sound (start slots cpus) where
  delivered := rfl
  noticed readable := by
    cases slots with
    | nil => exact absurd rfl readable
    | cons slot rest => exact .inl rfl
  awaiting atAwait := by cases atAwait
  item _ inScope := by cases inScope
  guard _ obtained := by cases obtained

section Steps

variable {state next : Polled}

theorem secured_of_taken {ring : RingQueue Record}
    (sameTaken : ring.taken = state.source.ring.taken) :
    secured { state with source := { state.source with ring := ring } } = state.secured := by
  unfold secured
  rw [sameTaken]

theorem Sound.of_ring (sound : Sound state) {ring : RingQueue Record}
    (sameTaken : ring.taken = state.source.ring.taken)
    (sameFront : ring.front = state.source.ring.front) :
    Sound { state with source := { state.source with ring := ring } } where
  delivered := by
    rw [secured_of_taken sameTaken]
    exact sound.delivered
  noticed readable := sound.noticed (sameFront ▸ readable)
  awaiting := sound.awaiting
  item record inScope := sameFront.trans (sound.item record inScope)
  guard := sound.guard

theorem noticed_of_wakes (wakes : state.source.readiness.Wakes)
    (wakesAfter : ∀ guard, state.position.guard = some guard →
      state.source.readiness.WakesAfter guard) : state.Noticed := by
  rw [Noticed]
  cases position : state.position with
  | away | top | awaiting => exact wakes
  | drained guard => exact wakesAfter guard (by rw [position]; rfl)
  | draining guard | holding guard record | releasing guard record | ended => trivial

theorem Sound.deliver (sound : Sound state) :
    Sound { state with
      source := { state.source with readiness := state.source.readiness.deliver } } where
  delivered := sound.delivered
  noticed _ := noticed_of_wakes (Readiness.wakes_deliver _) fun guard obtained =>
    Readiness.wakesAfter_deliver (sound.guard guard obtained)
  awaiting := sound.awaiting
  item := sound.item
  guard guard obtained := Nat.le_succ_of_le (sound.guard guard obtained)

theorem Sound.commit (sound : Sound state) {index : Nat} {record : Record}
    (busy : state.source.ring.slots[index]? = some ⟨record, false⟩) :
    Sound { state with source := commit state.source index } := by
  by_cases atConsumer : index = state.source.ring.consumer
  · -- The consumer has caught up with the record, so the commit signals.
    have unreadable : state.source.ring.front = none := by
      rw [RingQueue.front, RingQueue.head, ← atConsumer, busy]
      rfl
    have signalled : (Polled.commit state.source index).readiness =
        state.source.readiness.signal := if_pos atConsumer
    refine ⟨?_, fun _ => ?_, sound.awaiting, fun other inScope => ?_, ?_⟩
    · have same := secured_of_taken (RingQueue.taken_commit state.source.ring index)
      exact sound.delivered.trans (congrArg _ same.symm)
    · apply noticed_of_wakes
      · rw [signalled]
        exact Readiness.wakes_signal _
      · intro guard _
        rw [signalled]
        exact Readiness.wakesAfter_signal _ guard
    · have readable := sound.item other inScope
      rw [unreadable] at readable
      cases readable
    · intro guard obtained
      rw [signalled]
      exact sound.guard guard obtained
  · have unsignalled : Polled.commit state.source index =
        { state.source with ring := state.source.ring.commit index } := by
      rw [Polled.commit, if_neg atConsumer]
    rw [unsignalled]
    exact sound.of_ring (RingQueue.taken_commit _ _)
      (RingQueue.front_commit_of_ne _ atConsumer)

theorem Sound.continueNext (sound : Sound state)
    (continued : state.continueNext = some next) : Sound next := by
  rcases state with ⟨⟨ring, readiness, pending, dropped⟩, position, handedOut⟩
  cases position with
  | away => cases continued
  | ended => cases continued
  | top =>
      cases pending with
      | cons event rest =>
          cases continued
          refine ⟨?_, sound.noticed, nofun, nofun, nofun⟩
          rw [List.append_assoc]
          exact sound.delivered
      | nil =>
          cases continued
          exact ⟨sound.delivered, sound.noticed, fun _ => rfl, nofun, nofun⟩
  | awaiting =>
      simp only [Polled.continueNext] at continued
      split at continued
      · cases continued
        refine ⟨sound.delivered, fun _ => trivial, nofun, nofun, ?_⟩
        intro guard obtained
        cases obtained
        exact Nat.le_refl _
      · cases continued
  | draining guard =>
      simp only [Polled.continueNext] at continued
      split at continued
      · next record readable =>
          cases continued
          refine ⟨sound.delivered, fun _ => trivial, nofun, ?_, sound.guard⟩
          intro other inScope
          cases inScope
          exact readable
      · next unreadable =>
          cases continued
          exact ⟨sound.delivered, fun readable => absurd unreadable readable, nofun, nofun,
            sound.guard⟩
  | holding guard record =>
      simp only [Polled.continueNext, if_pos record.whole] at continued
      cases continued
      refine ⟨?_, fun _ => trivial, nofun, ?_, sound.guard⟩
      · rw [← List.append_assoc, sound.delivered]
        change ring.taken.map _ ++ [record.event] = (ring.taken ++ [record]).map _
        rw [List.map_append]
        rfl
      · intro other inScope
        exact sound.item other inScope
  | releasing guard record =>
      cases continued
      have readable : ring.front = some record := sound.item record rfl
      refine ⟨?_, fun _ => trivial, nofun, nofun, sound.guard⟩
      refine sound.delivered.trans ?_
      exact congrArg _ (RingQueue.taken_release readable).symm
  | drained guard =>
      cases continued
      exact ⟨sound.delivered, fun readable => (sound.noticed readable).wakes_clear, nofun,
        nofun, nofun⟩

theorem Sound.step {action : Action} (sound : Sound state)
    (stepped : machine.step state action = some next) : Sound next := by
  rcases state with ⟨source, position, handedOut⟩
  cases action with
  | reserve record =>
      cases stepped
      exact sound.of_ring (RingQueue.taken_reserve _ _) (RingQueue.front_reserve _ _)
  | commit index =>
      simp only [machine, Polled.step] at stepped
      split at stepped
      · next busy =>
          cases stepped
          exact sound.commit busy
      · cases stepped
  | deliver =>
      simp only [machine, Polled.step] at stepped
      split at stepped
      · cases stepped
        exact sound.deliver
      · cases stepped
  | callNext =>
      simp only [machine, Polled.step] at stepped
      split at stepped
      · cases stepped
        exact ⟨sound.delivered, sound.noticed, nofun, nofun, nofun⟩
      · cases stepped
  | continueNext => exact sound.continueNext stepped
  | cancelNext =>
      simp only [machine, Polled.step] at stepped
      split at stepped
      · cases stepped
        exact ⟨sound.delivered, sound.noticed, nofun, nofun, nofun⟩
      · cases stepped
  | failReadiness =>
      simp only [machine, Polled.step] at stepped
      split at stepped
      · cases stepped
        exact ⟨sound.delivered, fun _ => trivial, nofun, nofun, nofun⟩
      · cases stepped

end Steps

theorem sound_of_run {slots : List (Slot Record)} {cpus : Nat} {actions : List Action}
    {state : Polled} (ran : machine.run (start slots cpus) actions = some state) :
    Sound state :=
  Machine.invariant_of_any_run (fun sound stepped => sound.step stepped)
    (sound_start slots cpus) ran

theorem Sound.secured_prefix {state : Polled} (sound : Sound state) :
    state.secured <+: (state.source.ring.slots.filter (·.committed)).map (·.value) ∧
      state.secured <+: state.source.ring.slots.map (·.value) := by
  have before := state.source.ring.taken_prefix
  rw [secured]
  split
  · next guard record position =>
      have readable : state.source.ring.front = some record :=
        sound.item record (by rw [position]; rfl)
      have after := state.source.ring.release.taken_prefix
      rwa [RingQueue.taken_release readable, RingQueue.slots_release] at after
  · exact before

/-- In every interleaving, the events handed out are the first records of the
ring, all of them committed; and a parked source has handed out everything up to
a record that is not. -/
theorem events_delivered {slots : List (Slot Record)} {cpus : Nat} {actions : List Action}
    {state : Polled} (ran : machine.run (start slots cpus) actions = some state) :
    state.handedOut <+:
        (state.source.ring.slots.filter (·.committed)).map (·.value.event) ∧
      state.handedOut <+: state.source.ring.slots.map (·.value.event) ∧
      (state.Parked → state.source.pending = [] ∧
        state.handedOut = state.source.ring.taken.map (·.event) ∧
        ∀ slot, state.source.ring.head = some slot → slot.committed = false) := by
  have sound := sound_of_run ran
  have ofSecured : state.handedOut <+: state.secured.map (·.event) :=
    ⟨state.source.pending, sound.delivered⟩
  rcases sound.secured_prefix with ⟨inCommitted, inReserved⟩
  refine ⟨?_, ?_, ?_⟩
  · have inEvents := inCommitted.map (·.event)
    rw [List.map_map] at inEvents
    exact ofSecured.trans inEvents
  · have inEvents := inReserved.map (·.event)
    rw [List.map_map] at inEvents
    exact ofSecured.trans inEvents
  · intro idle
    rcases idle with ⟨awaiting, notReady, noEdge⟩
    have nonePending := sound.awaiting awaiting
    refine ⟨nonePending, ?_, ?_⟩
    · have delivered := sound.delivered
      rw [nonePending, List.append_nil] at delivered
      simpa only [secured, awaiting] using delivered
    · intro slot found
      by_contra committed
      have readable : state.source.ring.front ≠ none := by
        rw [RingQueue.front, found, Option.filter_some, if_pos ((Bool.not_eq_false _).mp committed)]
        exact Option.some_ne_none _
      have noticed := sound.noticed readable
      simp only [Noticed, awaiting, Readiness.Wakes, notReady, noEdge] at noticed
      rcases noticed with noticed | noticed <;> cases noticed

def recordOf (pid : Nat) : Record where
  event :=
    { pid := pid, comm := [], totalVm := 0, anonRss := 0, fileRss := 0, shmemRss := 0
      uid := 0, pgtables := 0, oomScoreAdj := 0 }
  length := eventSize
  whole := Nat.le_refl _

/-- The second of two records is committed first, and a tick comes between: both
are handed out in ring order, and the source parks. -/
theorem events_delivered_behind_busy_record :
    ∃ state, machine.run (start [] 1)
        ([.reserve (recordOf 1), .reserve (recordOf 2), .commit 1, .callNext, .continueNext,
          .cancelNext, .commit 0, .deliver, .callNext] ++
          List.replicate 11 .continueNext ++ [.callNext, .continueNext] ++
          [.callNext, .continueNext]) = some state ∧
      state.source.pending = [] ∧
      state.handedOut = state.source.ring.taken.map (·.event) := by
  apply Machine.exists_run_of_decided Parked
  · intro state ran parked
    rcases (events_delivered ran).2.2 parked with ⟨nonePending, all, _⟩
    exact ⟨nonePending, all⟩
  · decide

end Polled

end OomWatcher
