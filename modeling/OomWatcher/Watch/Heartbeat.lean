import OomWatcher.Events
import OomWatcher.Foundation.Machine

/-! # The heartbeat and the liveness probe

The watch task writes two words without a lock, a flag and a stamp, and any
number of probe requests read them, one word at a time and after the clock. -/

namespace OomWatcher

/-! ## Health -/

def heartbeatIntervalSeconds : Nat := 30

def heartbeatStaleAfterSeconds : Nat := 3 * heartbeatIntervalSeconds

inductive Liveness
  | starting
  | live (ageSeconds : Nat)
  | stale (ageSeconds : Nat)
deriving DecidableEq, Repr

structure Health where
  started : Bool
  lastBeatSeconds : Nat
deriving DecidableEq, Repr

namespace Health

def new : Health where
  started := false
  lastBeatSeconds := 0

def beat (health : Health) (now : Nat) : Health := { health with lastBeatSeconds := now }

/-- The stamp first, then the flag. -/
def markStarted (health : Health) (now : Nat) : Health :=
  { health.beat now with started := true }

/-- The conclusion from a stamp, read after the flag. A clock that stepped
backwards saturates to a fresh beat. -/
def livenessOfStamp (now stamp : Nat) : Liveness :=
  let ageSeconds := now - stamp
  if ageSeconds > heartbeatStaleAfterSeconds then .stale ageSeconds else .live ageSeconds

def liveness (health : Health) (now : Nat) : Liveness :=
  if !health.started then .starting else livenessOfStamp now health.lastBeatSeconds

end Health

def report : Liveness → Nat × String
  | .starting => (503, "starting: the watch loop has not begun draining events yet\n")
  | .live ageSeconds => (200, s!"live: watch loop last woke {ageSeconds}s ago\n")
  | .stale ageSeconds =>
      (503, s!"stale: the watch loop has not woken for {ageSeconds}s " ++
        s!"(limit {heartbeatStaleAfterSeconds}s)\n")

/-! ## The words, their writer and their readers -/

inductive Wake
  | event (rawEvent : OomKillEvent)
  | ended
  | beat
deriving DecidableEq, Repr

/-- Where the watch task stands. `marking` is between the two stores of
`mark_started`. -/
inductive TaskPosition
  | syncing
  | marking
  | selecting
  | processing (rawEvent : OomKillEvent)
  | beating
  | ended
deriving DecidableEq, Repr

structure WatchTask where
  position : TaskPosition
  stamps : List Nat
deriving DecidableEq, Repr

def WatchTask.marked (task : WatchTask) : Bool :=
  match task.position with
  | .syncing | .marking => false
  | .selecting | .processing _ | .beating | .ended => true

/-- An answered request: the clock it read, where the task stood when it read the
clock, loaded the flag and made its last load, and its conclusion. -/
structure Answer where
  reading : Nat
  atReading : WatchTask
  atFlag : WatchTask
  atLast : WatchTask
  liveness : Liveness
deriving DecidableEq, Repr

inductive Request
  | unmade
  | clockRead (reading : Nat) (atReading : WatchTask)
  | flagLoaded (reading : Nat) (atReading atFlag : WatchTask)
  | answered (answer : Answer)
deriving DecidableEq, Repr

structure SharedHealth where
  clock : Nat
  health : Health
  task : WatchTask
  requests : Nat → Request

namespace SharedHealth

def start (clock : Nat) : SharedHealth where
  clock := clock
  health := .new
  task := ⟨.syncing, []⟩
  requests := fun _ => .unmade

inductive Action
  | advance (seconds : Nat)
  | storeSeed
  | storeStarted
  | wake (wake : Wake)
  | processed
  | beat
  | request (id : Nat)

def positionAfter : Wake → TaskPosition
  | .event rawEvent => .processing rawEvent
  | .ended => .ended
  | .beat => .beating

def stamp (state : SharedHealth) (position : TaskPosition) : SharedHealth :=
  { state with
    health := state.health.beat state.clock
    task := ⟨position, state.clock :: state.task.stamps⟩ }

/-- The next step of a request: read the clock, load the flag, load the stamp. -/
def continueRequest (state : SharedHealth) : Request → Option Request
  | .unmade => some (.clockRead state.clock state.task)
  | .clockRead reading atReading =>
      if !state.health.started then
        some (.answered ⟨reading, atReading, state.task, state.task, .starting⟩)
      else some (.flagLoaded reading atReading state.task)
  | .flagLoaded reading atReading atFlag =>
      some (.answered ⟨reading, atReading, atFlag, state.task,
        Health.livenessOfStamp reading state.health.lastBeatSeconds⟩)
  | .answered _ => none

def step (state : SharedHealth) : Action → Option SharedHealth
  | .advance seconds => some { state with clock := state.clock + seconds }
  | .storeSeed =>
      match state.task.position with
      | .syncing => some (state.stamp .marking)
      | _ => none
  | .storeStarted =>
      match state.task.position with
      | .marking =>
          some { state with
            health := { state.health with started := true }
            task := { state.task with position := .selecting } }
      | _ => none
  | .wake wake =>
      match state.task.position with
      | .selecting =>
          some { state with task := { state.task with position := positionAfter wake } }
      | _ => none
  | .processed =>
      match state.task.position with
      | .processing _ => some { state with task := { state.task with position := .beating } }
      | _ => none
  | .beat =>
      match state.task.position with
      | .beating => some (state.stamp .selecting)
      | _ => none
  | .request id =>
      (continueRequest state (state.requests id)).map fun next =>
        { state with requests := Function.update state.requests id next }

def machine : Machine SharedHealth Action where
  step := step

/-! ## Alone -/

theorem mark_started_alone (state : SharedHealth) (syncing : state.task.position = .syncing) :
    machine.run state [.storeSeed, .storeStarted] =
      some { state with
        health := state.health.markStarted state.clock
        task := ⟨.selecting, state.clock :: state.task.stamps⟩ } := by
  simp [Machine.run, machine, step, stamp, syncing, Health.markStarted]

theorem request_alone (state : SharedHealth) (id : Nat) (unmade : state.requests id = .unmade) :
    ∃ steps, machine.run state (List.replicate steps (.request id)) =
      some { state with
        requests := Function.update state.requests id
          (.answered ⟨state.clock, state.task, state.task, state.task,
            state.health.liveness state.clock⟩) } := by
  cases started : state.health.started with
  | false =>
      refine ⟨2, ?_⟩
      simp [List.replicate, Machine.run, machine, step, continueRequest, unmade, started,
        Health.liveness]
  | true =>
      refine ⟨3, ?_⟩
      simp [List.replicate, Machine.run, machine, step, continueRequest, unmade, started,
        Health.liveness]

/-! ## What a request can see -/

structure AnswerSound (answer : Answer) : Prop where
  unmarked : answer.atFlag.marked = false →
    answer.liveness = .starting ∧ answer.atReading.marked = false
  marked : answer.atFlag.marked = true →
    ∃ last, answer.atLast.stamps.head? = some last ∧
      (∀ stamp ∈ answer.atLast.stamps, stamp ≤ last) ∧
      answer.liveness = Health.livenessOfStamp answer.reading last

def RequestSound (task : WatchTask) : Request → Prop
  | .unmade => True
  | .clockRead _ atReading => atReading.marked = true → task.marked = true
  | .flagLoaded _ _ atFlag => atFlag.marked = true ∧ task.marked = true
  | .answered answer => AnswerSound answer

/-- The flag says that `mark_started` is over, and the stamp is the latest of the
stamps, which never go down. -/
structure Sound (state : SharedHealth) : Prop where
  flag : state.health.started = state.task.marked
  latest : state.task.position ≠ .syncing →
    state.task.stamps.head? = some state.health.lastBeatSeconds
  ordered : state.task.stamps.Pairwise (· ≥ ·)
  past : ∀ stamp ∈ state.task.stamps, stamp ≤ state.clock
  requests : ∀ id, RequestSound state.task (state.requests id)

theorem sound_start (clock : Nat) : Sound (start clock) where
  flag := rfl
  latest notSyncing := absurd rfl notSyncing
  ordered := List.Pairwise.nil
  past _ member := by cases member
  requests _ := trivial

theorem RequestSound.mono {before after : WatchTask} {request : Request}
    (sound : RequestSound before request)
    (stays : before.marked = true → after.marked = true) : RequestSound after request := by
  cases request with
  | unmade => trivial
  | clockRead reading atReading => exact fun marked => stays (sound marked)
  | flagLoaded reading atReading atFlag => exact ⟨sound.1, stays sound.2⟩
  | answered answer => exact sound

section Steps

variable {state : SharedHealth}

theorem Sound.moves (sound : Sound state) {position : TaskPosition}
    (notSyncing : state.task.position ≠ .syncing)
    (sameMark : WatchTask.marked ⟨position, state.task.stamps⟩ = state.task.marked) :
    Sound { state with task := { state.task with position := position } } where
  flag := sound.flag.trans sameMark.symm
  latest _ := sound.latest notSyncing
  ordered := sound.ordered
  past := sound.past
  requests id := (sound.requests id).mono sameMark.trans

theorem Sound.stamp (sound : Sound state) {position : TaskPosition}
    (sameMark : WatchTask.marked ⟨position, state.clock :: state.task.stamps⟩ =
      state.task.marked) :
    Sound (state.stamp position) where
  flag := sound.flag.trans sameMark.symm
  latest _ := rfl
  ordered := List.pairwise_cons.mpr ⟨sound.past, sound.ordered⟩
  past := by
    intro stamp member
    rcases List.mem_cons.mp member with rfl | older
    · exact Nat.le_refl _
    · exact sound.past stamp older
  requests id := (sound.requests id).mono sameMark.trans

theorem Sound.continueRequest (sound : Sound state) {request next : Request}
    (requestSound : RequestSound state.task request)
    (continued : continueRequest state request = some next) :
    RequestSound state.task next := by
  cases request with
  | unmade =>
      cases continued
      exact id
  | clockRead reading atReading =>
      rw [SharedHealth.continueRequest, sound.flag] at continued
      cases isMarked : state.task.marked with
      | false =>
          rw [isMarked] at continued
          cases continued
          constructor
          · intro _
            refine ⟨rfl, Bool.eq_false_iff.mpr fun wasMarked => ?_⟩
            exact absurd (requestSound wasMarked) (Bool.eq_false_iff.mp isMarked)
          · intro marked
            exact absurd marked (Bool.eq_false_iff.mp isMarked)
      | true =>
          rw [isMarked] at continued
          cases continued
          exact ⟨isMarked, isMarked⟩
  | flagLoaded reading atReading atFlag =>
      cases continued
      have notSyncing : state.task.position ≠ .syncing := by
        intro syncing
        have isMarked := requestSound.2
        rw [WatchTask.marked, syncing] at isMarked
        cases isMarked
      have head := sound.latest notSyncing
      constructor
      · intro unmarked
        exact absurd requestSound.1 (Bool.eq_false_iff.mp unmarked)
      · intro _
        refine ⟨_, head, ?_, rfl⟩
        intro stamp member
        rcases List.head?_eq_some_iff.mp head with ⟨older, split⟩
        have ordered := sound.ordered
        rw [split] at member ordered
        rcases List.mem_cons.mp member with rfl | isOlder
        · exact Nat.le_refl _
        · exact (List.pairwise_cons.mp ordered).1 stamp isOlder
  | answered answer => cases continued

theorem Sound.advance (sound : Sound state) (seconds : Nat) :
    Sound { state with clock := state.clock + seconds } where
  flag := sound.flag
  latest := sound.latest
  ordered := sound.ordered
  past stamp member := Nat.le_add_right_of_le (sound.past stamp member)
  requests := sound.requests

theorem Sound.storeSeed (sound : Sound state) (syncing : state.task.position = .syncing) :
    Sound (state.stamp .marking) := by
  apply sound.stamp
  rw [WatchTask.marked, WatchTask.marked, syncing]

theorem Sound.storeStarted (sound : Sound state) (marking : state.task.position = .marking) :
    Sound { state with
      health := { state.health with started := true }
      task := { state.task with position := .selecting } } where
  flag := rfl
  latest _ := by
    apply sound.latest
    rw [marking]
    nofun
  ordered := sound.ordered
  past := sound.past
  requests id := (sound.requests id).mono fun _ => rfl

theorem Sound.wake (sound : Sound state) (selecting : state.task.position = .selecting)
    (wake : Wake) :
    Sound { state with task := { state.task with position := positionAfter wake } } := by
  apply sound.moves
  · rw [selecting]
    nofun
  · cases wake <;> rw [WatchTask.marked, WatchTask.marked, selecting] <;> rfl

theorem Sound.processed (sound : Sound state) {rawEvent : OomKillEvent}
    (processing : state.task.position = .processing rawEvent) :
    Sound { state with task := { state.task with position := .beating } } := by
  apply sound.moves
  · rw [processing]
    nofun
  · rw [WatchTask.marked, WatchTask.marked, processing]

theorem Sound.beat (sound : Sound state) (beating : state.task.position = .beating) :
    Sound (state.stamp .selecting) := by
  apply sound.stamp
  rw [WatchTask.marked, WatchTask.marked, beating]

theorem Sound.request (sound : Sound state) {id : Nat} {request : Request}
    (continued : SharedHealth.continueRequest state (state.requests id) = some request) :
    Sound { state with requests := Function.update state.requests id request } := by
  refine { sound with requests := ?_ }
  intro other
  by_cases same : other = id
  · subst same
    change RequestSound state.task (Function.update state.requests other request other)
    rw [Function.update_self]
    exact sound.continueRequest (sound.requests other) continued
  · change RequestSound state.task (Function.update state.requests id request other)
    rw [Function.update_of_ne same]
    exact sound.requests other

theorem Sound.step (sound : Sound state) {action : Action} {next : SharedHealth}
    (stepped : step state action = some next) : Sound next := by
  cases action with
  | advance seconds =>
      cases stepped
      exact sound.advance seconds
  | request id =>
      rcases Option.map_eq_some_iff.mp stepped with ⟨request, continued, rfl⟩
      exact sound.request continued
  | storeSeed =>
      rw [SharedHealth.step] at stepped
      split at stepped
      · next syncing =>
          cases stepped
          exact sound.storeSeed syncing
      · cases stepped
  | storeStarted =>
      rw [SharedHealth.step] at stepped
      split at stepped
      · next marking =>
          cases stepped
          exact sound.storeStarted marking
      · cases stepped
  | wake wake =>
      rw [SharedHealth.step] at stepped
      split at stepped
      · next selecting =>
          cases stepped
          exact sound.wake selecting wake
      · cases stepped
  | processed =>
      rw [SharedHealth.step] at stepped
      split at stepped
      · next processing =>
          cases stepped
          exact sound.processed processing
      · cases stepped
  | beat =>
      rw [SharedHealth.step] at stepped
      split at stepped
      · next beating =>
          cases stepped
          exact sound.beat beating
      · cases stepped

end Steps

theorem sound_of_run {clock : Nat} {actions : List Action} {state : SharedHealth}
    (ran : machine.run (start clock) actions = some state) : Sound state := by
  have stepKeeps : ∀ {state : SharedHealth} {action next},
      Sound state → machine.step state action = some next → Sound next :=
    fun sound stepped => sound.step stepped
  exact Machine.invariant_of_any_run stepKeeps (sound_start clock) ran

theorem answer_sound {clock : Nat} {actions : List Action} {state : SharedHealth}
    (ran : machine.run (start clock) actions = some state) {id : Nat} {answer : Answer}
    (answered : state.requests id = .answered answer) : AnswerSound answer := by
  have sound := (sound_of_run ran).requests id
  rwa [answered] at sound

theorem livenessOfStamp_eq_stale {now stamp ageSeconds : Nat} :
    Health.livenessOfStamp now stamp = .stale ageSeconds ↔
      stamp + heartbeatStaleAfterSeconds < now ∧ ageSeconds = now - stamp := by
  rw [Health.livenessOfStamp]
  split
  · rw [Liveness.stale.injEq]
    omega
  · have fresh : ¬stamp + heartbeatStaleAfterSeconds < now := by omega
    simp [fresh]

theorem livenessOfStamp_ne_starting (now stamp : Nat) :
    Health.livenessOfStamp now stamp ≠ .starting := by
  rw [Health.livenessOfStamp]
  split <;> nofun

/-! ## The answers -/

/-- In every interleaving a request answers `Starting` only if the flag was not
stored when it loaded it, and `Stale` only if `mark_started` was over and no stamp
that was stored before its last load is within the limit of its clock reading. If the
loop was inside `process_event` at that reading, its last stamp older than the
limit, and it has not stamped since, the request answers `Stale`. -/
theorem liveness_never_wrong {clock : Nat} {actions : List Action} {state : SharedHealth}
    (ran : machine.run (start clock) actions = some state) {id : Nat} {answer : Answer}
    (answered : state.requests id = .answered answer) :
    (answer.liveness = .starting → answer.atFlag.marked = false) ∧
      (∀ ageSeconds, answer.liveness = .stale ageSeconds →
        answer.atFlag.marked = true ∧
          (∀ stamp ∈ answer.atLast.stamps,
            stamp + heartbeatStaleAfterSeconds < answer.reading) ∧
          ∃ stamp ∈ answer.atLast.stamps, ageSeconds = answer.reading - stamp) ∧
      ∀ rawEvent last, answer.atReading.position = .processing rawEvent →
        answer.atReading.stamps.head? = some last →
        last + heartbeatStaleAfterSeconds < answer.reading →
        answer.atLast.stamps = answer.atReading.stamps →
          answer.liveness = .stale (answer.reading - last) := by
  have sound := answer_sound ran answered
  refine ⟨?_, ?_, ?_⟩
  · intro starting
    by_contra isMarked
    rcases sound.marked (Bool.not_eq_false _ ▸ isMarked) with ⟨last, _, _, judged⟩
    exact livenessOfStamp_ne_starting _ _ (judged.symm.trans starting)
  · intro ageSeconds isStale
    cases isMarked : answer.atFlag.marked with
    | false => cases (sound.unmarked isMarked).1.symm.trans isStale
    | true =>
        rcases sound.marked isMarked with ⟨last, head, isLatest, judged⟩
        rcases livenessOfStamp_eq_stale.mp (judged.symm.trans isStale) with ⟨old, age⟩
        refine ⟨rfl, ?_, last, List.mem_of_head? head, age⟩
        intro stamp member
        have atMost := isLatest stamp member
        omega
  · intro rawEvent last processing head old silent
    have isMarked : answer.atFlag.marked = true := by
      by_contra unmarked
      have atReading := (sound.unmarked (Bool.eq_false_iff.mpr unmarked)).2
      rw [WatchTask.marked, processing] at atReading
      cases atReading
    rcases sound.marked isMarked with ⟨latest, latestHead, _, judged⟩
    rw [silent, head] at latestHead
    cases latestHead
    rw [judged]
    exact livenessOfStamp_eq_stale.mpr ⟨old, rfl⟩

def wedging : OomKillEvent :=
  { pid := 1234, comm := [], totalVm := 100, anonRss := 50, fileRss := 20, shmemRss := 5
    uid := 1000, pgtables := 8, oomScoreAdj := 0 }

/-- A request made a second past the limit, the loop still in `process_event`. -/
theorem liveness_never_wrong_wedged :
    ∃ state answer,
      machine.run (start 1000)
        [.storeSeed, .storeStarted, .wake (.event wedging), .advance 91, .request 0, .request 0,
          .request 0] = some state ∧
      state.requests 0 = .answered answer ∧ answer.liveness = .stale 91 ∧
      ∀ stamp ∈ answer.atLast.stamps, stamp + heartbeatStaleAfterSeconds < 1091 := by
  obtain ⟨state, ran, answered⟩ : ∃ state, machine.run (start 1000)
      [.storeSeed, .storeStarted, .wake (.event wedging), .advance 91, .request 0, .request 0,
        .request 0] = some state ∧
      state.requests 0 = .answered ⟨1091, ⟨.processing wedging, [1000]⟩,
        ⟨.processing wedging, [1000]⟩, ⟨.processing wedging, [1000]⟩, .stale 91⟩ :=
    ⟨_, rfl, rfl⟩
  have right := liveness_never_wrong ran answered
  exact ⟨state, _, ran, answered, right.2.2 wedging 1000 rfl rfl (by decide) rfl,
    (right.2.1 91 rfl).2.1⟩

end SharedHealth

end OomWatcher
