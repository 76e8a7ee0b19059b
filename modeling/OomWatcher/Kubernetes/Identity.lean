import Mathlib.Data.List.Infix
import OomWatcher.Events
import OomWatcher.Kubernetes.Pod

/-! # The identity behind a container id

The bare id lifted from a cgroup is matched against the container statuses of
the pods, and the identity is lifted out of the status that matched. -/

namespace OomWatcher

def runningContainerId (status : ContainerStatus) : Option String := status.containerId

def terminatedContainerId (status : ContainerStatus) : Option String := do
  let lastState ← status.lastState
  let terminated ← lastState.terminated
  terminated.containerId

def namesContainer (reported containerId : String) : Bool :=
  decide (containerId.toList <:+ reported.toList) ||
    decide (containerId.toList <:+: reported.toList)

def identityOfStatus (pod : Pod) (status : ContainerStatus) (fullId : String) :
    ContainerIdentity where
  ns := pod.metadata.ns.getD "default"
  podName := pod.metadata.name.getD "unknown"
  containerName := status.name
  containerId := fullId
  imageId := status.imageId

def matchStatus (statuses : List ContainerStatus) (containerId : String)
    (candidate : ContainerStatus → Option String) : Option (ContainerStatus × String) :=
  statuses.findSome? fun status => do
    let full ← candidate status
    if namesContainer full containerId then some (status, full) else none

/-- The first pod with such a status. A pod without statuses is passed over. -/
def matchContainer (pods : List Pod) (containerId : String)
    (candidate : ContainerStatus → Option String) : Option ContainerIdentity :=
  pods.findSome? fun pod => do
    let podStatus ← pod.status
    let statuses ← podStatus.containerStatuses
    let (status, fullId) ← matchStatus statuses containerId candidate
    some (identityOfStatus pod status fullId)

/-- The running containers first. Only if none of them has the id is it one that
has been replaced. -/
def identityFromPods (pods : List Pod) (containerId : String) : Option ContainerIdentity :=
  (matchContainer pods containerId runningContainerId).or
    (matchContainer pods containerId terminatedContainerId)

/-! ## What a match is -/

def Pod.Reports (pod : Pod) (status : ContainerStatus) : Prop :=
  ∃ podStatus statuses, pod.status = some podStatus ∧
    podStatus.containerStatuses = some statuses ∧ status ∈ statuses

/-- Some pod reports `fullId` as the candidate id of one of its containers, and
`identity` is that container's. -/
def Identifies (pods : List Pod) (candidate : ContainerStatus → Option String)
    (fullId : String) (identity : ContainerIdentity) : Prop :=
  ∃ pod ∈ pods, ∃ status, pod.Reports status ∧ candidate status = some fullId ∧
    identity = identityOfStatus pod status fullId

theorem Identifies.containerId_eq {pods : List Pod} {fullId : String}
    {candidate : ContainerStatus → Option String} {identity : ContainerIdentity}
    (identifies : Identifies pods candidate fullId identity) : identity.containerId = fullId := by
  rcases identifies with ⟨pod, _, status, _, _, rfl⟩
  rfl

section Match

variable {pods : List Pod} {containerId : String}
  {candidate : ContainerStatus → Option String}

theorem matchStatus_eq_some {statuses : List ContainerStatus} {status : ContainerStatus}
    {fullId : String}
    (chosen : matchStatus statuses containerId candidate = some (status, fullId)) :
    status ∈ statuses ∧ candidate status = some fullId ∧
      namesContainer fullId containerId = true := by
  rcases List.exists_of_findSome?_eq_some chosen with ⟨listed, isListed, taken⟩
  rcases Option.bind_eq_some_iff.mp taken with ⟨full, isFull, kept⟩
  by_cases names : namesContainer full containerId = true
  · rw [if_pos names] at kept
    cases kept
    exact ⟨isListed, isFull, names⟩
  · rw [if_neg names] at kept
    cases kept

theorem matchStatus_ne_none {statuses : List ContainerStatus} {status : ContainerStatus}
    {fullId : String} (isListed : status ∈ statuses) (isFull : candidate status = some fullId)
    (names : namesContainer fullId containerId = true) :
    matchStatus statuses containerId candidate ≠ none := by
  intro skipped
  have missed := List.findSome?_eq_none_iff.mp skipped status isListed
  simp only [isFull, Option.bind_eq_bind, Option.bind_some, if_pos names] at missed
  cases missed

theorem identifies_of_matchContainer {identity : ContainerIdentity}
    (found : matchContainer pods containerId candidate = some identity) :
    ∃ fullId, namesContainer fullId containerId = true ∧
      Identifies pods candidate fullId identity := by
  rcases List.exists_of_findSome?_eq_some found with ⟨pod, isPod, inPod⟩
  rcases Option.bind_eq_some_iff.mp inPod with ⟨podStatus, hasStatus, inStatus⟩
  rcases Option.bind_eq_some_iff.mp inStatus with ⟨statuses, hasStatuses, inStatuses⟩
  rcases Option.bind_eq_some_iff.mp inStatuses with ⟨⟨status, fullId⟩, chosen, isIdentity⟩
  rcases matchStatus_eq_some chosen with ⟨isListed, isFull, names⟩
  have reports : pod.Reports status :=
    ⟨podStatus, statuses, hasStatus, hasStatuses, isListed⟩
  exact ⟨fullId, names, pod, isPod, status, reports, isFull,
    (Option.some.inj isIdentity).symm⟩

theorem matchContainer_eq_none_iff :
    matchContainer pods containerId candidate = none ↔
      ∀ fullId identity, Identifies pods candidate fullId identity →
        namesContainer fullId containerId = false := by
  constructor
  · rintro missed fullId identity ⟨pod, isPod, status, reports, isFull, -⟩
    rcases reports with ⟨podStatus, statuses, hasStatus, hasStatuses, isListed⟩
    have skipped := List.findSome?_eq_none_iff.mp missed pod isPod
    simp only [hasStatus, hasStatuses, Option.bind_eq_bind, Option.bind_some,
      Option.bind_eq_none_iff] at skipped
    by_contra names
    rw [Bool.not_eq_false] at names
    rcases Option.ne_none_iff_exists'.mp (matchStatus_ne_none isListed isFull names) with
      ⟨choice, chosen⟩
    cases skipped choice chosen
  · intro unnamed
    cases found : matchContainer pods containerId candidate with
    | none => rfl
    | some identity =>
        rcases identifies_of_matchContainer found with ⟨fullId, names, identifies⟩
        rw [unnamed fullId identity identifies] at names
        cases names

theorem identifies_of_identityFromPods {identity : ContainerIdentity}
    (found : identityFromPods pods containerId = some identity) :
    ∃ fullId, namesContainer fullId containerId = true ∧
      (Identifies pods runningContainerId fullId identity ∨
        Identifies pods terminatedContainerId fullId identity) := by
  rcases Option.or_eq_some_iff.mp found with running | ⟨_, terminated⟩
  · rcases identifies_of_matchContainer running with ⟨fullId, names, identifies⟩
    exact ⟨fullId, names, .inl identifies⟩
  · rcases identifies_of_matchContainer terminated with ⟨fullId, names, identifies⟩
    exact ⟨fullId, names, .inr identifies⟩

end Match

def podOf (status : ContainerStatus) : Pod where
  metadata := ⟨some "api-7d9", some "prod", none, none, none⟩
  spec := none
  status := some
    { containerStatuses := some [status]
      initContainerStatuses := none
      ephemeralContainerStatuses := none }

theorem identifies_podOf_iff {statuses : List ContainerStatus} {fullId : String}
    {candidate : ContainerStatus → Option String} {identity : ContainerIdentity} :
    Identifies (statuses.map podOf) candidate fullId identity ↔
      ∃ status ∈ statuses, candidate status = some fullId ∧
        identity = identityOfStatus (podOf status) status fullId := by
  constructor
  · intro identifies
    rcases identifies with
      ⟨pod, isPod, status, ⟨podStatus, listed, hasStatus, hasStatuses, isListed⟩,
      isFull, isIdentity⟩
    rcases List.mem_map.mp isPod with ⟨own, isOwn, rfl⟩
    cases hasStatus
    cases hasStatuses
    rcases List.mem_singleton.mp isListed with rfl
    exact ⟨status, isOwn, isFull, isIdentity⟩
  · intro reported
    rcases reported with ⟨status, isStatus, isFull, isIdentity⟩
    exact ⟨podOf status, List.mem_map_of_mem isStatus, status,
      ⟨_, _, rfl, rfl, List.mem_singleton.mpr rfl⟩, isFull, isIdentity⟩

end OomWatcher
