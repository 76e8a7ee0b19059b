import OomWatcher.Foundation.Machine
import OomWatcher.Kubernetes.Resolution

/-! # Reading the cgroup of a process that is being reaped

`read_to_string` opens the cgroup file and reads it until a read comes back
empty. The process can be reaped before any of these system calls: an open then
fails with `ENOENT`, a read of the file opened before with `ESRCH`. -/

namespace OomWatcher

/-! ## Error numbers -/

def eperm : Nat := 1
def enoent : Nat := 2
def esrch : Nat := 3
def eintr : Nat := 4
def eacces : Nat := 13

/-- The kind the standard library decodes an error number to. The kinds the
program does not tell apart are all `uncategorized`. -/
def decodeErrorKind (errno : Nat) : ErrorKind :=
  if errno = enoent then .notFound
  else if errno = eperm ∨ errno = eacces then .permissionDenied
  else .uncategorized

theorem decodeErrorKind_eq_notFound_iff {errno : Nat} :
    decodeErrorKind errno = .notFound ↔ errno = enoent := by
  rw [decodeErrorKind]
  split
  · next isEnoent => simp [isEnoent]
  · next notEnoent => split <;> simp [notEnoent]

/-! ## The system calls -/

/-- What reading the file came to. A failed call carries whether the process had
been reaped when it was made. -/
inductive ReadResult
  | content (text : String)
  | invalid
  | failed (errno : Nat) (reaped : Bool)
deriving DecidableEq, Repr

def ReadResult.read : ReadResult → Except ErrorKind String
  | .content text => .ok text
  | .invalid => .error .invalidData
  | .failed errno _ => .error (decodeErrorKind errno)

inductive ReadPosition
  | opening
  | reading (bytes : List UInt8)
  | finished (result : ReadResult)
deriving DecidableEq, Repr

structure CgroupRead where
  reaped : Bool
  position : ReadPosition
deriving DecidableEq, Repr

namespace CgroupRead

def start : CgroupRead where
  reaped := false
  position := .opening

/-- The process is reaped, or a system call is answered: the open with an error
number or none, a read with an error number or the bytes it read. -/
inductive Action
  | reap
  | openFile (error : Option Nat)
  | readFile (answer : Except Nat (List UInt8))

def opensWith (reaped : Bool) (error : Option Nat) : Bool :=
  !reaped || error == some enoent

def readsWith (reaped : Bool) : Except Nat (List UInt8) → Bool
  | .ok _ => !reaped
  | .error errno => !reaped || errno == esrch

/-- An interrupted call is made again, any other failure is returned. -/
def fail (state : CgroupRead) (errno : Nat) : CgroupRead :=
  if errno = eintr then state
  else { state with position := .finished (.failed errno state.reaped) }

def decode (bytes : List UInt8) : ReadResult :=
  match String.fromUTF8? ⟨bytes.toArray⟩ with
  | some text => .content text
  | none => .invalid

def step (state : CgroupRead) : Action → Option CgroupRead
  | .reap => if state.reaped then none else some { state with reaped := true }
  | .openFile error =>
      match state.position with
      | .opening =>
          if opensWith state.reaped error then
            match error with
            | none => some { state with position := .reading [] }
            | some errno => some (state.fail errno)
          else none
      | _ => none
  | .readFile answer =>
      match state.position with
      | .reading bytes =>
          if readsWith state.reaped answer then
            match answer with
            | .ok [] => some { state with position := .finished (decode bytes) }
            | .ok chunk => some { state with position := .reading (bytes ++ chunk) }
            | .error errno => some (state.fail errno)
          else none
      | _ => none

def machine : Machine CgroupRead Action where
  step := step

end CgroupRead

/-! ## Classification -/

/-- What the content of a cgroup file and the cache determine. -/
def determined (cache : PodCache) (text : String) : ResolutionOutcome :=
  match selectedRun text.toList with
  | none => .notFound
  | some run =>
      match cache.ensureSynced with
      | .error error => .failed error
      | .ok _ =>
          match identityFromPods cache.store.state (String.ofList run) with
          | some identity => .found identity
          | none => .notFound

/-- What a read is to be resolved to: what its content determines, `NotFound` if
it failed because the process was gone, `Failed` if its error does not mean
that. -/
def Classified (cache : PodCache) (pid : Nat) (result : ReadResult) : Prop :=
  match result with
  | .content text => resolve cache pid result.read = determined cache text
  | .invalid => ∃ error, resolve cache pid result.read = .failed error
  | .failed _ true => resolve cache pid result.read = .notFound
  | .failed errno false =>
      errno ≠ enoent → errno ≠ esrch → ∃ error, resolve cache pid result.read = .failed error

section Resolved

variable (cache : PodCache) (pid : Nat)

theorem resolve_content (text : String) :
    resolve cache pid (.ok text) = determined cache text := by
  rw [resolve, getContainerInfo, getContainerIdFromPid_ok, determined]
  cases selectedRun text.toList with
  | none => rfl
  | some run =>
      simp only [Option.map_some, PodCache.identityOf]
      cases cache.ensureSynced with
      | error error => rfl
      | ok synced =>
          cases identityFromPods cache.store.state (String.ofList run) <;> rfl

theorem resolve_notFound : resolve cache pid (.error .notFound) = .notFound := rfl

theorem exists_failed_of_kind {kind : ErrorKind} (other : kind ≠ .notFound) :
    ∃ error, resolve cache pid (.error kind) = .failed error := by
  cases kind with
  | notFound => exact absurd rfl other
  | permissionDenied | invalidData | uncategorized => exact ⟨_, rfl⟩

theorem classified_reaped_iff {errno : Nat} :
    Classified cache pid (.failed errno true) ↔ errno = enoent := by
  rw [Classified, ReadResult.read]
  constructor
  · intro isNotFound
    by_contra other
    have notKind := mt decodeErrorKind_eq_notFound_iff.mp other
    rcases exists_failed_of_kind cache pid notKind with ⟨error, isFailed⟩
    cases isNotFound.symm.trans isFailed
  · intro isEnoent
    rw [decodeErrorKind_eq_notFound_iff.mpr isEnoent]
    exact resolve_notFound cache pid

theorem classified_failed (errno : Nat) : Classified cache pid (.failed errno false) := by
  intro notEnoent _
  exact exists_failed_of_kind cache pid (mt decodeErrorKind_eq_notFound_iff.mp notEnoent)

theorem classified_decode (bytes : List UInt8) :
    Classified cache pid (CgroupRead.decode bytes) := by
  rw [CgroupRead.decode]
  split
  · exact resolve_content cache pid _
  · have other : ErrorKind.invalidData ≠ .notFound := nofun
    exact exists_failed_of_kind cache pid other

end Resolved

/-! ## Where the reaping falls -/

namespace CgroupRead

def NotReapedWhileOpen (state : CgroupRead) (action : Action) : Prop :=
  match action, state.position with
  | .reap, .reading _ => False
  | _, _ => True

def Fine (cache : PodCache) (pid : Nat) (state : CgroupRead) : Prop :=
  match state.position with
  | .opening => True
  | .reading _ => state.reaped = false
  | .finished result => Classified cache pid result

section Steps

variable {cache : PodCache} {pid : Nat} {state next final : CgroupRead} {action : Action}

theorem Fine.fail (fine : Fine cache pid state) {errno : Nat}
    (answered : opensWith state.reaped (some errno) = true) :
    Fine cache pid (state.fail errno) := by
  rw [CgroupRead.fail]
  split
  · exact fine
  · change Classified cache pid (.failed errno state.reaped)
    cases isReaped : state.reaped with
    | false => exact classified_failed cache pid errno
    | true =>
        rw [isReaped] at answered
        apply (classified_reaped_iff cache pid).mpr
        simpa [opensWith] using answered

theorem Fine.step (fine : Fine cache pid state) (allowed : NotReapedWhileOpen state action)
    (stepped : step state action = some next) : Fine cache pid next := by
  cases action with
  | reap =>
      rw [CgroupRead.step] at stepped
      split at stepped
      · cases stepped
      · cases stepped
        cases position : state.position with
        | opening => simp [Fine]
        | reading bytes => simp [NotReapedWhileOpen, position] at allowed
        | finished result => simpa [Fine, position] using fine
  | openFile error =>
      cases position : state.position with
      | reading bytes | finished result => simp [CgroupRead.step, position] at stepped
      | opening =>
          by_cases answered : opensWith state.reaped error = true
          · simp only [CgroupRead.step, position, answered, if_true] at stepped
            cases error with
            | none =>
                cases stepped
                change state.reaped = false
                simpa [opensWith] using answered
            | some errno =>
                cases stepped
                exact fine.fail answered
          · simp [CgroupRead.step, position, answered] at stepped
  | readFile answer =>
      cases position : state.position with
      | opening | finished result => simp [CgroupRead.step, position] at stepped
      | reading bytes =>
          have notReaped : state.reaped = false := by simpa [Fine, position] using fine
          have mayAnswer : readsWith state.reaped answer = true := by
            cases answer <;> simp [readsWith, notReaped]
          simp only [CgroupRead.step, position, mayAnswer, if_true] at stepped
          split at stepped
          · cases stepped
            exact classified_decode cache pid bytes
          · cases stepped
            exact notReaped
          · cases stepped
            apply fine.fail
            simp [opensWith, notReaped]

theorem result_of_finished {result last : ReadResult} {actions : List Action}
    (finished : state.position = .finished result)
    (ran : machine.run state actions = some final) (atEnd : final.position = .finished last) :
    last = result := by
  have stepKeeps : ∀ {state : CgroupRead} {action next}, state.position = .finished result →
      machine.step state action = some next → next.position = .finished result := by
    intro state action next finished stepped
    cases action with
    | reap =>
        simp only [machine, CgroupRead.step] at stepped
        split at stepped
        · cases stepped
        · cases stepped
          exact finished
    | openFile error => simp [machine, CgroupRead.step, finished] at stepped
    | readFile answer => simp [machine, CgroupRead.step, finished] at stepped
  have still := Machine.invariant_of_any_run stepKeeps finished ran
  rw [atEnd] at still
  exact ReadPosition.finished.inj still

theorem result_of_reaped_open {bytes : List UInt8} {result : ReadResult}
    {actions : List Action} (reaped : state.reaped = true)
    (position : state.position = .reading bytes)
    (ran : machine.run state actions = some final) (atEnd : final.position = .finished result) :
    result = .failed esrch true := by
  cases actions with
  | nil =>
      cases ran
      cases position.symm.trans atEnd
  | cons action actions =>
      rcases Machine.run_cons_eq_some.mp ran with ⟨next, stepped, rest⟩
      cases action with
      | reap => simp [machine, CgroupRead.step, reaped] at stepped
      | openFile error => simp [machine, CgroupRead.step, position] at stepped
      | readFile answer =>
          cases answer with
          | ok chunk => simp [machine, CgroupRead.step, position, readsWith, reaped] at stepped
          | error errno =>
              simp [machine, CgroupRead.step, position, readsWith, reaped] at stepped
              rcases stepped with ⟨rfl, rfl⟩
              have finished : (state.fail esrch).position = .finished (.failed esrch true) := by
                simp [fail, esrch, eintr, reaped]
              exact result_of_finished finished rest atEnd

end Steps

theorem classified_iff_of_fine {cache : PodCache} {pid : Nat} {state final : CgroupRead}
    {actions : List Action} {result : ReadResult} (fine : Fine cache pid state)
    (ran : machine.run state actions = some final)
    (finished : final.position = .finished result) :
    Classified cache pid result ↔ machine.Meets NotReapedWhileOpen state actions := by
  induction actions generalizing state with
  | nil =>
      cases ran
      rw [Fine, finished] at fine
      exact ⟨fun _ => trivial, fun _ => fine⟩
  | cons action actions induction =>
      rcases Machine.run_cons_eq_some.mp ran with ⟨next, stepped, rest⟩
      by_cases allowed : NotReapedWhileOpen state action
      · rw [induction (fine.step allowed stepped) rest]
        constructor
        · intro meets
          refine ⟨allowed, ?_⟩
          intro other otherStepped
          cases stepped.symm.trans otherStepped
          exact meets
        · exact fun meets => meets.2 next stepped
      · -- the reaping finds the file open, and the next read fails
        have wrong : ¬Classified cache pid result := by
          cases position : state.position with
          | opening | finished _ => cases action <;> simp [NotReapedWhileOpen, position] at allowed
          | reading bytes =>
              cases action with
              | openFile _ | readFile _ => simp [NotReapedWhileOpen] at allowed
              | reap =>
                  simp only [machine, CgroupRead.step] at stepped
                  split at stepped
                  · cases stepped
                  · cases stepped
                    have stillOpen : CgroupRead.position ⟨true, state.position⟩ = .reading bytes :=
                      position
                    rw [result_of_reaped_open rfl stillOpen rest finished,
                      classified_reaped_iff]
                    decide
        exact ⟨fun right => absurd right wrong, fun meets => absurd meets.1 allowed⟩

/-- For every schedule of the reaping and the system calls, the read is resolved
as it is to be exactly when the process is not reaped between the open of the
file and the end of the reading. -/
theorem reaping_classified_iff {cache : PodCache} {pid : Nat} {actions : List Action}
    {final : CgroupRead} {result : ReadResult} (ran : machine.run start actions = some final)
    (finished : final.position = .finished result) :
    Classified cache pid result ↔ machine.Meets NotReapedWhileOpen start actions :=
  classified_iff_of_fine trivial ran finished

/-- A process reaped before its cgroup file is opened. -/
theorem reaping_classified_iff_before_open :
    Classified outerCache 1234 (.failed enoent true) := by
  have ran : machine.run start [.reap, .openFile (some enoent)] =
      some ⟨true, .finished (.failed enoent true)⟩ := rfl
  exact (reaping_classified_iff ran rfl).mpr
    ⟨trivial, fun _ _ => ⟨trivial, fun _ _ => trivial⟩⟩

/-- A process reaped between the open of its cgroup file and the first read. -/
theorem late_reaping_is_failed :
    ¬∀ (cache : PodCache) (pid : Nat) (actions : List Action) (final : CgroupRead)
      (result : ReadResult), machine.run start actions = some final →
        final.position = .finished result → Classified cache pid result := by
  intro classified
  have ran : machine.run start [.openFile none, .reap, .readFile (.error esrch)] =
      some ⟨true, .finished (.failed esrch true)⟩ := rfl
  have isEnoent := (classified_reaped_iff outerCache 1234).mp
    (classified outerCache 1234 _ _ _ ran rfl)
  exact absurd isEnoent (by decide)

end CgroupRead

end OomWatcher
