import OomWatcher.Kubernetes.ContainerId
import OomWatcher.Kubernetes.PodCache

/-! # Resolution of a killed process

The id comes from the process' cgroup and the identity from the pods of the
cache. `/proc` is a parameter: what reading the cgroup file came to. -/

namespace OomWatcher

inductive ErrorKind
  | notFound
  | permissionDenied
  | invalidData
  | uncategorized
deriving DecidableEq, Repr

/-- A process without a cgroup file is gone. Every other failed read is the
operator's mistake. -/
def getContainerIdFromPid (pid : Nat) (read : Except ErrorKind String) :
    Except String (Option String) :=
  match read with
  | .ok content => .ok (extractContainerId content)
  | .error .notFound => .ok none
  | .error _ =>
      .error ("could not read /proc/" ++ toString pid ++
        "/cgroup (is hostPID set and /proc mounted from the host?)")

def getContainerInfo (cache : PodCache) (pid : Nat) (read : Except ErrorKind String) :
    Except String (Option ContainerIdentity) :=
  match getContainerIdFromPid pid read with
  | .ok (some containerId) => cache.identityOf containerId
  | .ok none => .ok none
  | .error error => .error error

def resolve (cache : PodCache) (pid : Nat) (read : Except ErrorKind String) :
    ResolutionOutcome :=
  match getContainerInfo cache pid read with
  | .ok (some identity) => .found identity
  | .ok none => .notFound
  | .error error => .failed error

theorem getContainerIdFromPid_ok (pid : Nat) (cgroup : String) :
    getContainerIdFromPid pid (.ok cgroup) =
      .ok ((selectedRun cgroup.toList).map String.ofList) :=
  congrArg Except.ok (extractContainerId_eq_selectedRun cgroup)

theorem getContainerInfo_of_synced {cache : PodCache} (synced : cache.latch = .ready)
    (pid : Nat) (cgroup : String) :
    getContainerInfo cache pid (.ok cgroup) =
      .ok ((selectedRun cgroup.toList).bind fun run =>
        identityFromPods cache.store.state (String.ofList run)) := by
  rw [getContainerInfo, getContainerIdFromPid_ok]
  cases selectedRun cgroup.toList with
  | none => rfl
  | some run =>
      change cache.identityOf (String.ofList run) = _
      rw [PodCache.identityOf, PodCache.ensureSynced, synced]
      rfl

theorem exists_run_of_resolve {cache : PodCache} {pid : Nat} {read : Except ErrorKind String}
    {identity : ContainerIdentity} (found : resolve cache pid read = .found identity) :
    ∃ run, IsContainerId run ∧
      identityFromPods cache.store.state (String.ofList run) = some identity := by
  have info : getContainerInfo cache pid read = .ok (some identity) := by
    rw [resolve] at found
    split at found
    · next isInfo =>
        cases found
        exact isInfo
    · cases found
    · cases found
  cases read with
  | error kind => cases kind <;> cases info
  | ok content =>
      by_cases synced : cache.latch = .ready
      · rw [getContainerInfo_of_synced synced] at info
        rcases Option.bind_eq_some_iff.mp (Except.ok.inj info) with ⟨run, selected, isIdentity⟩
        exact ⟨run, (delimitedRun_of_selectedRun selected).1, isIdentity⟩
      · rw [getContainerInfo] at info
        split at info
        · rcases PodCache.identityOf_of_unsynced synced _ with ⟨error, isError⟩
          rw [isError] at info
          cases info
        · cases info
        · cases info

/-! ## Container ids -/

def NamesRun (reported : String) (run : List Char) : Prop :=
  ∃ runtime, reported.toList = runtime ++ "://".toList ++ run

/-- The form of a reported id. The name of the runtime is not itself mistaken
for a container id. -/
def WellFormedId (reported : String) : Prop :=
  ∃ runtime bare, reported.toList = runtime ++ "://".toList ++ bare ∧ IsContainerId bare ∧
    ∀ run, IsContainerId run → ¬ run <:+: runtime

theorem wellFormedId_of_short {runtime bare : List Char} (short : runtime.length < 64)
    (isBare : IsContainerId bare) :
    WellFormedId (String.ofList (runtime ++ "://".toList ++ bare)) := by
  refine ⟨runtime, bare, String.toList_ofList, isBare, ?_⟩
  intro run isId inside
  have fits := inside.length_le
  rw [isId.1] at fits
  omega

theorem wellFormedId_containerd {bare : List Char} (isBare : IsContainerId bare) :
    WellFormedId (String.ofList ("containerd://".toList ++ bare)) := by
  have split : "containerd://".toList = "containerd".toList ++ "://".toList := by decide
  rw [split]
  exact wellFormedId_of_short (by decide) isBare

theorem isInfix_of_isInfix_append_cons {Item : Type} {run left right : List Item}
    {separator : Item} (absent : separator ∉ run) (inside : run <:+: left ++ separator :: right) :
    run <:+: left ∨ run <:+: right := by
  rcases inside with ⟨before, after, split⟩
  rcases List.append_eq_append_iff.mp split with ⟨rest, isLeft, _⟩ | ⟨rest, isRun, isRest⟩
  · exact .inl ⟨before, rest, isLeft.symm⟩
  · cases rest with
    | nil =>
        rw [List.append_nil] at isRun
        exact .inl ⟨before, [], by rw [List.append_nil, isRun]⟩
    | cons first rest =>
        rcases List.cons.inj isRest with ⟨rfl, isRight⟩
        rcases List.append_eq_append_iff.mp isRun with ⟨middle, _, isMiddle⟩ | ⟨middle, _, isMiddle⟩
        · apply absurd _ absent
          rw [isMiddle]
          simp
        · cases middle with
          | nil =>
              apply absurd _ absent
              rw [← List.nil_append run, ← isMiddle]
              simp
          | cons second middle =>
              rcases List.cons.inj isMiddle with ⟨rfl, isInner⟩
              rw [isRight, isInner]
              exact .inr ⟨middle, after, rfl⟩

theorem isInfix_of_isInfix_cons {Item : Type} {run right : List Item} {separator : Item}
    (absent : separator ∉ run) (inside : run <:+: separator :: right) : run <:+: right := by
  have split : run <:+: [] ++ separator :: right := inside
  rcases isInfix_of_isInfix_append_cons absent split with inNil | inRight
  · rw [List.infix_nil.mp inNil]
    exact List.nil_infix
  · exact inRight

theorem not_mem_of_isContainerId {run : List Char} {char : Char} (isId : IsContainerId run)
    (other : isHex char = false) : char ∉ run := by
  intro member
  rw [List.all_eq_true.mp isId.2 char member] at other
  cases other

theorem namesContainer_iff {reported : String} {run : List Char}
    (wellFormed : WellFormedId reported) (isId : IsContainerId run) :
    namesContainer reported (String.ofList run) = true ↔ NamesRun reported run := by
  rw [namesContainer, NamesRun]
  rw [Bool.or_eq_true, decide_eq_true_iff, decide_eq_true_iff, String.toList_ofList]
  constructor
  · intro inside
    have isInfix : run <:+: reported.toList := inside.elim List.IsSuffix.isInfix id
    rcases wellFormed with ⟨runtime, bare, isReported, isBare, noRun⟩
    refine ⟨runtime, ?_⟩
    have colon : ':' ∉ run := not_mem_of_isContainerId isId (by decide)
    have slash : '/' ∉ run := not_mem_of_isContainerId isId (by decide)
    rw [isReported, List.append_assoc] at isInfix
    rcases isInfix_of_isInfix_append_cons colon isInfix with inRuntime | afterColon
    · exact absurd inRuntime (noRun run isId)
    · have inBare : run <:+: bare :=
        isInfix_of_isInfix_cons slash (isInfix_of_isInfix_cons slash afterColon)
      rw [isReported, inBare.eq_of_length (isId.1.trans isBare.1.symm)]
  · intro namesRun
    rcases namesRun with ⟨runtime, isReported⟩
    left
    rw [isReported]
    exact List.suffix_append _ _

/-! ## The owner of a run -/

def Owns (pods : List Pod) (candidate : ContainerStatus → Option String) (run : List Char)
    (identity : ContainerIdentity) : Prop :=
  ∃ fullId, NamesRun fullId run ∧ Identifies pods candidate fullId identity

def Reported (pods : List Pod) (run : List Char) : Prop :=
  (∃ identity, Owns pods runningContainerId run identity) ∨
    ∃ identity, Owns pods terminatedContainerId run identity

/-- `identity` is that of the container with the run: the running one, or if
none is running under it, one it was the last of. -/
def IsOwner (pods : List Pod) (run : List Char) (identity : ContainerIdentity) : Prop :=
  Owns pods runningContainerId run identity ∨
    (∀ other, ¬ Owns pods runningContainerId run other) ∧
      Owns pods terminatedContainerId run identity

def WellFormedIds (pods : List Pod) : Prop :=
  ∀ fullId identity, Identifies pods runningContainerId fullId identity ∨
    Identifies pods terminatedContainerId fullId identity → WellFormedId fullId

section Owner

variable {pods : List Pod} {run : List Char} {candidate : ContainerStatus → Option String}

theorem owns_of_matchContainer {identity : ContainerIdentity}
    (wellFormed : ∀ fullId identity, Identifies pods candidate fullId identity →
      WellFormedId fullId)
    (isId : IsContainerId run)
    (found : matchContainer pods (String.ofList run) candidate = some identity) :
    Owns pods candidate run identity := by
  rcases identifies_of_matchContainer found with ⟨fullId, names, identifies⟩
  have formed := wellFormed fullId identity identifies
  exact ⟨fullId, (namesContainer_iff formed isId).mp names, identifies⟩

theorem not_owns_of_matchContainer_eq_none
    (wellFormed : ∀ fullId identity, Identifies pods candidate fullId identity →
      WellFormedId fullId)
    (isId : IsContainerId run)
    (missed : matchContainer pods (String.ofList run) candidate = none)
    (identity : ContainerIdentity) : ¬ Owns pods candidate run identity := by
  intro owns
  rcases owns with ⟨fullId, names, identifies⟩
  have formed := wellFormed fullId identity identifies
  have unnamed := matchContainer_eq_none_iff.mp missed fullId identity identifies
  rw [(namesContainer_iff formed isId).mpr names] at unnamed
  cases unnamed

theorem identityFromPods_cases (wellFormed : WellFormedIds pods) (isId : IsContainerId run) :
    (∃ identity, IsOwner pods run identity ∧
        identityFromPods pods (String.ofList run) = some identity) ∨
      ¬ Reported pods run ∧ identityFromPods pods (String.ofList run) = none := by
  have runningFormed := fun fullId identity identifies =>
    wellFormed fullId identity (.inl identifies)
  have terminatedFormed := fun fullId identity identifies =>
    wellFormed fullId identity (.inr identifies)
  rw [identityFromPods]
  cases running : matchContainer pods (String.ofList run) runningContainerId with
  | some identity =>
      exact .inl ⟨identity, .inl (owns_of_matchContainer runningFormed isId running), rfl⟩
  | none =>
      have noneRunning := not_owns_of_matchContainer_eq_none runningFormed isId running
      cases terminated : matchContainer pods (String.ofList run) terminatedContainerId with
      | some identity =>
          have owns := owns_of_matchContainer terminatedFormed isId terminated
          exact .inl ⟨identity, .inr ⟨noneRunning, owns⟩, rfl⟩
      | none =>
          have noneTerminated :=
            not_owns_of_matchContainer_eq_none terminatedFormed isId terminated
          refine .inr ⟨?_, rfl⟩
          intro reported
          rcases reported with ⟨identity, owns⟩ | ⟨identity, owns⟩
          · exact noneRunning identity owns
          · exact noneTerminated identity owns

end Owner

/-! ## Nested cgroups -/

theorem Reported.of_isOwner {pods : List Pod} {run : List Char} {identity : ContainerIdentity}
    (isOwner : IsOwner pods run identity) : Reported pods run :=
  isOwner.imp (fun owns => ⟨identity, owns⟩) fun owns => ⟨identity, owns.2⟩

/-- Where just one of the delimited runs of the cgroup is the id of a cached
container, that container is found iff its run is the one that the precedence
of the patterns selects. -/
theorem getContainerInfo_of_one_reported_run {cache : PodCache} {cgroup : String}
    {owned : List Char} (pid : Nat) (synced : cache.latch = .ready)
    (wellFormed : WellFormedIds cache.store.state) (delimited : DelimitedRun cgroup.toList owned)
    (one : ∀ run, DelimitedRun cgroup.toList run →
      (Reported cache.store.state run ↔ run = owned)) :
    (selectedRun cgroup.toList = some owned →
        ∃ identity, IsOwner cache.store.state owned identity ∧
          getContainerInfo cache pid (.ok cgroup) = .ok (some identity)) ∧
      (selectedRun cgroup.toList ≠ some owned →
        getContainerInfo cache pid (.ok cgroup) = .ok none) := by
  rw [getContainerInfo_of_synced synced]
  constructor
  · intro selected
    rw [selected, Option.bind_some]
    rcases identityFromPods_cases wellFormed delimited.1 with
      ⟨identity, isOwner, found⟩ | ⟨unreported, _⟩
    · exact ⟨identity, isOwner, congrArg Except.ok found⟩
    · exact absurd ((one owned delimited).mpr rfl) unreported
  · intro other
    cases selected : selectedRun cgroup.toList with
    | none => rfl
    | some run =>
        have isDelimited := delimitedRun_of_selectedRun selected
        rw [Option.bind_some]
        rcases identityFromPods_cases wellFormed isDelimited.1 with
          ⟨identity, isOwner, _⟩ | ⟨_, missed⟩
        · rw [(one run isDelimited).mp (.of_isOwner isOwner)] at selected
          exact absurd selected other
        · rw [missed]

/-! A cache of one pod, whose container runs under a cgroup that nests further
down. -/

def outerRun : List Char := List.replicate 64 'a'

def innerRun : List Char := List.replicate 64 'b'

/-- The container holds a Docker of its own, under the cgroupfs driver. -/
def nestedUnderCgroupfs : List Char :=
  "11:memory:/kubepods/poda1b2".toList ++ '/' :: (outerRun ++ ("/docker/".toList ++ innerRun))

def nestedUnderSystemd : List Char :=
  "0::/kubepods.slice/cri-containerd".toList ++
    '-' :: (outerRun ++ (".scope/docker/".toList ++ innerRun))

def outerStatus : ContainerStatus :=
  ⟨"api", some (String.ofList ("containerd://".toList ++ outerRun)), "repo@sha256:abc", none⟩

def outerCache : PodCache :=
  PodCache.watched [.ok .init, .ok (.initApply (podOf outerStatus)), .ok .initDone]

theorem state_outerCache : outerCache.store.state = [outerStatus].map podOf := rfl

theorem wellFormedIds_outerCache : WellFormedIds outerCache.store.state := by
  rw [state_outerCache]
  rintro fullId identity (running | terminated)
  · rcases identifies_podOf_iff.mp running with ⟨status, isStatus, isFull, _⟩
    cases List.mem_singleton.mp isStatus
    cases isFull
    exact wellFormedId_containerd (by decide)
  · rcases identifies_podOf_iff.mp terminated with ⟨status, isStatus, isFull, _⟩
    cases List.mem_singleton.mp isStatus
    cases isFull

theorem reported_outerCache_iff {run : List Char} (isId : IsContainerId run) :
    Reported outerCache.store.state run ↔ run = outerRun := by
  rw [state_outerCache]
  constructor
  · intro reported
    rcases reported with ⟨identity, fullId, ⟨runtime, isReported⟩, identifies⟩ |
      ⟨identity, fullId, _, identifies⟩
    · rcases identifies_podOf_iff.mp identifies with ⟨status, isStatus, isFull, _⟩
      cases List.mem_singleton.mp isStatus
      cases isFull
      rw [String.toList_ofList] at isReported
      exact (List.append_inj_right' isReported (by rw [isId.1]; rfl)).symm
    · rcases identifies_podOf_iff.mp identifies with ⟨status, isStatus, isFull, _⟩
      cases List.mem_singleton.mp isStatus
      cases isFull
  · rintro rfl
    have identifies : Identifies ([outerStatus].map podOf) runningContainerId _ _ :=
      identifies_podOf_iff.mpr ⟨outerStatus, List.mem_singleton.mpr rfl, rfl, rfl⟩
    exact .inl ⟨_, _, ⟨"containerd".toList, String.toList_ofList⟩, identifies⟩

/-- The run behind the runtime's name comes first in the path. -/
theorem nested_container_of_scope_is_found :
    ∃ identity, IsOwner outerCache.store.state outerRun identity ∧
      getContainerInfo outerCache 1 (.ok (String.ofList nestedUnderSystemd)) =
        .ok (some identity) := by
  have delimited : DelimitedRun (String.ofList nestedUnderSystemd).toList outerRun :=
    ⟨by decide, "0::/kubepods.slice/cri-containerd".toList, '-', _,
      String.toList_ofList, rfl, rfl⟩
  have selected : selectedRun (String.ofList nestedUnderSystemd).toList = some outerRun := by
    rw [String.toList_ofList]
    decide +kernel
  exact (getContainerInfo_of_one_reported_run 1 rfl wellFormedIds_outerCache delimited
    fun run isDelimited => reported_outerCache_iff isDelimited.1).1 selected

/-- The inner run is selected, which no pod reports. -/
theorem nested_container_is_missed :
    ¬ ∀ (cache : PodCache) (cgroup : String) (owned : List Char) (pid : Nat),
      cache.latch = .ready → WellFormedIds cache.store.state →
        DelimitedRun cgroup.toList owned →
          (∀ run, DelimitedRun cgroup.toList run →
            (Reported cache.store.state run ↔ run = owned)) →
            ∃ identity, IsOwner cache.store.state owned identity ∧
              getContainerInfo cache pid (.ok cgroup) = .ok (some identity) := by
  intro resolves
  have delimited : DelimitedRun (String.ofList nestedUnderCgroupfs).toList outerRun :=
    ⟨by decide, "11:memory:/kubepods/poda1b2".toList, '/', _,
      String.toList_ofList, rfl, rfl⟩
  rcases resolves outerCache _ outerRun 1 rfl wellFormedIds_outerCache delimited
    (fun run isDelimited => reported_outerCache_iff isDelimited.1) with ⟨identity, _, found⟩
  have selected : selectedRun nestedUnderCgroupfs = some innerRun := by decide +kernel
  have isId : IsContainerId innerRun := by decide
  rw [getContainerInfo_of_synced rfl, String.toList_ofList, selected, Option.bind_some] at found
  rcases identityFromPods_cases wellFormedIds_outerCache isId with ⟨other, isOwner, _⟩ | ⟨_, missed⟩
  · exact absurd ((reported_outerCache_iff isId).mp (.of_isOwner isOwner)) (by decide)
  · rw [missed] at found
    cases found

end OomWatcher
