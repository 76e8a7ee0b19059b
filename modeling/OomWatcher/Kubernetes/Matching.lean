import OomWatcher.Kubernetes.Resolution

/-! # What a lookup misses and what it finds

A lookup goes through the statuses of the pods' containers. Those of init and
ephemeral containers are never looked at. -/

namespace OomWatcher

/-! ## Misses -/

def ReportsId (status : ContainerStatus) (fullId : String) : Prop :=
  runningContainerId status = some fullId ∨ terminatedContainerId status = some fullId

def Pod.containerStatuses (pod : Pod) : List ContainerStatus :=
  (pod.status.bind (·.containerStatuses)).getD []

/-- The statuses of the pod's init containers, restartable ones included, and of
its ephemeral containers. -/
def Pod.otherStatuses (pod : Pod) : List ContainerStatus :=
  (pod.status.bind (·.initContainerStatuses)).getD [] ++
    (pod.status.bind (·.ephemeralContainerStatuses)).getD []

theorem Pod.reports_iff {pod : Pod} {status : ContainerStatus} :
    pod.Reports status ↔ status ∈ pod.containerStatuses := by
  rw [Pod.Reports, Pod.containerStatuses]
  rcases pod with ⟨metadata, spec, podStatus⟩
  cases podStatus with
  | none => simp
  | some podStatus => cases found : podStatus.containerStatuses <;> simp [found]

def Named (pods : List Pod) (containerId : String) : Prop :=
  ∃ pod ∈ pods, ∃ status ∈ pod.containerStatuses, ∃ fullId,
    ReportsId status fullId ∧ namesContainer fullId containerId = true

theorem identityFromPods_eq_none_iff {pods : List Pod} {containerId : String} :
    identityFromPods pods containerId = none ↔ ¬ Named pods containerId := by
  rw [identityFromPods, Option.or_eq_none_iff, matchContainer_eq_none_iff,
    matchContainer_eq_none_iff]
  constructor
  · intro unnamed named
    rcases named with ⟨pod, isPod, status, listed, fullId, reports, names⟩
    have isStatus := Pod.reports_iff.mpr listed
    rcases reports with running | terminated
    · rw [unnamed.1 fullId _ ⟨pod, isPod, status, isStatus, running, rfl⟩] at names
      cases names
    · rw [unnamed.2 fullId _ ⟨pod, isPod, status, isStatus, terminated, rfl⟩] at names
      cases names
  · intro unnamed
    constructor
    · intro fullId identity identifies
      rcases identifies with ⟨pod, isPod, status, isStatus, running, _⟩
      apply Bool.eq_false_iff.mpr
      intro names
      exact unnamed ⟨pod, isPod, status, Pod.reports_iff.mp isStatus, fullId, .inl running, names⟩
    · intro fullId identity identifies
      rcases identifies with ⟨pod, isPod, status, isStatus, terminated, _⟩
      apply Bool.eq_false_iff.mpr
      intro names
      exact unnamed
        ⟨pod, isPod, status, Pod.reports_iff.mp isStatus, fullId, .inr terminated, names⟩

/-- If the lookup finds nothing, no container of any kind has the id. -/
def MissIsReal (pods : List Pod) (containerId : String) : Prop :=
  identityFromPods pods containerId = none →
    ∀ pod ∈ pods, ∀ status ∈ pod.containerStatuses ++ pod.otherStatuses,
      ∀ fullId, ReportsId status fullId → ¬ NamesRun fullId containerId.toList

theorem namesContainer_of_namesRun {fullId containerId : String}
    (names : NamesRun fullId containerId.toList) : namesContainer fullId containerId = true := by
  rcases names with ⟨runtime, isFull⟩
  rw [namesContainer, Bool.or_eq_true, decide_eq_true_iff]
  left
  rw [isFull]
  exact List.suffix_append _ _

/-- A miss is real exactly when no init or ephemeral container alone has the
id. -/
theorem missIsReal_iff (pods : List Pod) (containerId : String) :
    MissIsReal pods containerId ↔
      ((∃ pod ∈ pods, ∃ status ∈ pod.otherStatuses, ∃ fullId, ReportsId status fullId ∧
          NamesRun fullId containerId.toList) →
        Named pods containerId) := by
  rw [MissIsReal, identityFromPods_eq_none_iff]
  constructor
  · intro real other
    by_contra unnamed
    rcases other with ⟨pod, isPod, status, listed, fullId, reports, names⟩
    exact real unnamed pod isPod status (List.mem_append_right _ listed) fullId reports names
  · intro covered unnamed pod isPod status listed fullId reports names
    rcases List.mem_append.mp listed with own | other
    · exact unnamed
        ⟨pod, isPod, status, own, fullId, reports, namesContainer_of_namesRun names⟩
    · exact unnamed (covered ⟨pod, isPod, status, other, fullId, reports, names⟩)

def podWithSidecar (status : ContainerStatus) : Pod where
  metadata := ⟨some "api-7d9", some "prod", none, none, none⟩
  spec := none
  status := some
    { containerStatuses := some []
      initContainerStatuses := some [status]
      ephemeralContainerStatuses := none }

theorem sidecar_is_missed :
    ¬ ∀ (pods : List Pod) (run : List Char), IsContainerId run →
      MissIsReal pods (String.ofList run) := by
  intro real
  have missed : identityFromPods [podWithSidecar outerStatus] (String.ofList outerRun) = none := rfl
  apply real [podWithSidecar outerStatus] outerRun (by decide) missed (podWithSidecar outerStatus)
    (List.mem_singleton.mpr rfl) outerStatus (List.mem_singleton.mpr rfl) _ (.inl rfl)
  have bare : (String.ofList outerRun).toList = outerRun := String.toList_ofList
  refine ⟨"containerd".toList, ?_⟩
  rw [bare]
  exact String.toList_ofList

/-! ## Matches -/

structure Carries (pods : List Pod) (candidate : ContainerStatus → Option String)
    (run : List Char) (pod : Pod) (status : ContainerStatus) (fullId : String) : Prop where
  isPod : pod ∈ pods
  isStatus : status ∈ pod.containerStatuses
  isFull : candidate status = some fullId
  names : NamesRun fullId run

def CarriedOnce (pods : List Pod) (candidate : ContainerStatus → Option String) : Prop :=
  ∀ run pod status fullId other otherStatus otherFull,
    Carries pods candidate run pod status fullId →
      Carries pods candidate run other otherStatus otherFull →
        other = pod ∧ otherStatus = status

theorem owns_iff_carries {pods : List Pod} {candidate : ContainerStatus → Option String}
    {run : List Char} {identity : ContainerIdentity} :
    Owns pods candidate run identity ↔ ∃ pod status fullId,
      Carries pods candidate run pod status fullId ∧
        identity = identityOfStatus pod status fullId := by
  constructor
  · intro owns
    rcases owns with ⟨fullId, names, pod, isPod, status, reports, isFull, isIdentity⟩
    exact ⟨pod, status, fullId, ⟨isPod, Pod.reports_iff.mp reports, isFull, names⟩, isIdentity⟩
  · intro carried
    rcases carried with ⟨pod, status, fullId, carries, isIdentity⟩
    exact ⟨fullId, carries.names, pod, carries.isPod, status,
      Pod.reports_iff.mpr carries.isStatus, carries.isFull, isIdentity⟩

section Unique

variable {pods : List Pod} {candidate : ContainerStatus → Option String} {run : List Char}

theorem Owns.unique {left right : ContainerIdentity} (once : CarriedOnce pods candidate)
    (isLeft : Owns pods candidate run left) (isRight : Owns pods candidate run right) :
    left = right := by
  rcases owns_iff_carries.mp isLeft with ⟨pod, status, fullId, carries, rfl⟩
  rcases owns_iff_carries.mp isRight with ⟨other, otherStatus, otherFull, otherCarries, rfl⟩
  rcases once _ _ _ _ _ _ _ carries otherCarries with ⟨rfl, rfl⟩
  rw [Option.some.inj (carries.isFull.symm.trans otherCarries.isFull)]

theorem IsOwner.unique {left right : ContainerIdentity}
    (runningOnce : CarriedOnce pods runningContainerId)
    (terminatedOnce : CarriedOnce pods terminatedContainerId)
    (isLeft : IsOwner pods run left) (isRight : IsOwner pods run right) : left = right := by
  rcases isLeft with leftRuns | ⟨noneRuns, leftEnded⟩
  · rcases isRight with rightRuns | ⟨noneRuns, _⟩
    · exact leftRuns.unique runningOnce rightRuns
    · exact absurd leftRuns (noneRuns left)
  · rcases isRight with rightRuns | ⟨_, rightEnded⟩
    · exact absurd rightRuns (noneRuns right)
    · exact leftEnded.unique terminatedOnce rightEnded

theorem identityFromPods_of_isOwner (wellFormed : WellFormedIds pods) (isId : IsContainerId run)
    (runningOnce : CarriedOnce pods runningContainerId)
    (terminatedOnce : CarriedOnce pods terminatedContainerId) {identity : ContainerIdentity}
    (isOwner : IsOwner pods run identity) :
    identityFromPods pods (String.ofList run) = some identity := by
  rcases identityFromPods_cases wellFormed isId with ⟨other, isOther, found⟩ | ⟨unreported, _⟩
  · rw [found, isOwner.unique runningOnce terminatedOnce isOther]
  · exact absurd (.of_isOwner isOwner) unreported

end Unique

structure SamePod (left right : Pod) : Prop where
  metadata : left.metadata = right.metadata
  statuses : left.containerStatuses.Perm right.containerStatuses

/-- The same pods, they and the statuses of each possibly listed in another
order. -/
def Rearranged (pods rearranged : List Pod) : Prop :=
  ∃ middle, List.Forall₂ SamePod pods middle ∧ middle.Perm rearranged

theorem SamePod.symm {left right : Pod} (same : SamePod left right) : SamePod right left :=
  ⟨same.metadata.symm, same.statuses.symm⟩

theorem exists_samePod {pods middle : List Pod} (same : List.Forall₂ SamePod pods middle)
    {pod : Pod} (isPod : pod ∈ pods) : ∃ other ∈ middle, SamePod pod other := by
  induction same with
  | nil => cases isPod
  | cons samePod _ induction =>
      rcases List.mem_cons.mp isPod with rfl | inRest
      · exact ⟨_, List.mem_cons_self, samePod⟩
      · rcases induction inRest with ⟨other, isOther, sameOther⟩
        exact ⟨other, List.mem_cons_of_mem _ isOther, sameOther⟩

theorem Rearranged.exists_samePod {pods rearranged : List Pod}
    (isRearranged : Rearranged pods rearranged) :
    (∀ pod ∈ pods, ∃ other ∈ rearranged, SamePod pod other) ∧
      ∀ pod ∈ rearranged, ∃ other ∈ pods, SamePod pod other := by
  rcases isRearranged with ⟨middle, same, permuted⟩
  constructor
  · intro pod isPod
    rcases OomWatcher.exists_samePod same isPod with ⟨other, isOther, samePod⟩
    exact ⟨other, permuted.mem_iff.mp isOther, samePod⟩
  · intro pod isPod
    have flipped : List.Forall₂ SamePod middle pods := same.flip.imp fun _ _ => SamePod.symm
    exact OomWatcher.exists_samePod flipped (permuted.mem_iff.mpr isPod)

theorem Identifies.of_samePod {pods others : List Pod}
    {candidate : ContainerStatus → Option String} {fullId : String} {identity : ContainerIdentity}
    (same : ∀ pod ∈ pods, ∃ other ∈ others, SamePod pod other)
    (identifies : Identifies pods candidate fullId identity) :
    Identifies others candidate fullId identity := by
  rcases identifies with ⟨pod, isPod, status, reports, isFull, rfl⟩
  rcases same pod isPod with ⟨other, isOther, samePod⟩
  have listed := samePod.statuses.mem_iff.mp (Pod.reports_iff.mp reports)
  refine ⟨other, isOther, status, Pod.reports_iff.mpr listed, isFull, ?_⟩
  simp only [identityOfStatus, samePod.metadata]

theorem Rearranged.identifies_iff {pods rearranged : List Pod}
    (isRearranged : Rearranged pods rearranged) {candidate : ContainerStatus → Option String}
    {fullId : String} {identity : ContainerIdentity} :
    Identifies rearranged candidate fullId identity ↔
      Identifies pods candidate fullId identity :=
  ⟨.of_samePod isRearranged.exists_samePod.2, .of_samePod isRearranged.exists_samePod.1⟩

theorem Rearranged.owns_iff {pods rearranged : List Pod}
    (isRearranged : Rearranged pods rearranged) {candidate : ContainerStatus → Option String}
    {run : List Char} {identity : ContainerIdentity} :
    Owns rearranged candidate run identity ↔ Owns pods candidate run identity := by
  simp only [Owns, isRearranged.identifies_iff]

theorem Rearranged.isOwner_iff {pods rearranged : List Pod}
    (isRearranged : Rearranged pods rearranged) {run : List Char} {identity : ContainerIdentity} :
    IsOwner rearranged run identity ↔ IsOwner pods run identity := by
  simp only [IsOwner, isRearranged.owns_iff]

/-- Where every id is well formed and belongs to one status, a lookup finds the
status that runs under the id, else the one that was last terminated under it,
else nothing, in whatever order pods and statuses are listed. -/
theorem identityFromPods_of_carriedOnce {pods : List Pod} {run : List Char}
    (wellFormed : WellFormedIds pods) (runningOnce : CarriedOnce pods runningContainerId)
    (terminatedOnce : CarriedOnce pods terminatedContainerId) (isId : IsContainerId run) :
    (∀ pod status fullId, Carries pods runningContainerId run pod status fullId →
        identityFromPods pods (String.ofList run) =
          some
            { ns := pod.metadata.ns.getD "default"
              podName := pod.metadata.name.getD "unknown"
              containerName := status.name
              containerId := fullId
              imageId := status.imageId }) ∧
      ((∀ pod status fullId, ¬ Carries pods runningContainerId run pod status fullId) →
        (∀ pod status fullId, Carries pods terminatedContainerId run pod status fullId →
          identityFromPods pods (String.ofList run) =
            some
              { ns := pod.metadata.ns.getD "default"
                podName := pod.metadata.name.getD "unknown"
                containerName := status.name
                containerId := fullId
                imageId := status.imageId }) ∧
        ((∀ pod status fullId, ¬ Carries pods terminatedContainerId run pod status fullId) →
          identityFromPods pods (String.ofList run) = none)) ∧
      ∀ rearranged, Rearranged pods rearranged →
        identityFromPods rearranged (String.ofList run) =
          identityFromPods pods (String.ofList run) := by
  have finds : ∀ {identity}, IsOwner pods run identity →
      identityFromPods pods (String.ofList run) = some identity :=
    identityFromPods_of_isOwner wellFormed isId runningOnce terminatedOnce
  refine ⟨?_, ?_, ?_⟩
  · intro pod status fullId carries
    exact finds (.inl (owns_iff_carries.mpr ⟨pod, status, fullId, carries, rfl⟩))
  · intro noneRuns
    have notOwned : ∀ other, ¬ Owns pods runningContainerId run other := by
      intro other owns
      rcases owns_iff_carries.mp owns with ⟨pod, status, fullId, carries, _⟩
      exact noneRuns pod status fullId carries
    constructor
    · intro pod status fullId carries
      have owns := owns_iff_carries.mpr ⟨pod, status, fullId, carries, rfl⟩
      exact finds (.inr ⟨notOwned, owns⟩)
    · intro noneEnded
      rcases identityFromPods_cases wellFormed isId with ⟨identity, isOwner, _⟩ | ⟨_, missed⟩
      · rcases isOwner with runs | ⟨_, ended⟩
        · exact absurd runs (notOwned identity)
        · rcases owns_iff_carries.mp ended with ⟨pod, status, fullId, carries, _⟩
          exact absurd carries (noneEnded pod status fullId)
      · exact missed
  · intro rearranged isRearranged
    have rearrangedFormed : WellFormedIds rearranged := by
      intro fullId identity identifies
      rw [isRearranged.identifies_iff, isRearranged.identifies_iff] at identifies
      exact wellFormed fullId identity identifies
    rcases identityFromPods_cases rearrangedFormed isId with
      ⟨identity, isOwner, found⟩ | ⟨unreported, missed⟩
    · rw [found, finds (isRearranged.isOwner_iff.mp isOwner)]
    · rcases identityFromPods_cases wellFormed isId with ⟨identity, isOwner, _⟩ | ⟨_, alsoMissed⟩
      · exact absurd (.of_isOwner (isRearranged.isOwner_iff.mpr isOwner)) unreported
      · rw [missed, alsoMissed]

def restartedStatus : ContainerStatus :=
  ⟨"worker", none, "repo@sha256:def",
    some ⟨some ⟨some (String.ofList ("containerd://".toList ++ outerRun))⟩⟩⟩

def restartedAndRunning : List Pod := [restartedStatus, outerStatus].map podOf

theorem Carries.of_podOf {statuses : List ContainerStatus}
    {candidate : ContainerStatus → Option String} {run : List Char} {pod : Pod}
    {status : ContainerStatus} {fullId : String}
    (carries : Carries (statuses.map podOf) candidate run pod status fullId) :
    status ∈ statuses ∧ pod = podOf status := by
  rcases List.mem_map.mp carries.isPod with ⟨own, isOwn, rfl⟩
  have isStatus : status ∈ [own] := carries.isStatus
  rw [List.mem_singleton] at isStatus
  exact ⟨isStatus ▸ isOwn, isStatus ▸ rfl⟩

theorem carriedOnce_restartedAndRunning :
    CarriedOnce restartedAndRunning runningContainerId ∧
      CarriedOnce restartedAndRunning terminatedContainerId := by
  have only : ∀ {candidate : ContainerStatus → Option String} (chosen : ContainerStatus),
      (∀ status ∈ [restartedStatus, outerStatus], candidate status ≠ none → status = chosen) →
        CarriedOnce restartedAndRunning candidate := by
    intro candidate chosen one run pod status fullId other otherStatus otherFull carries
      otherCarries
    rcases carries.of_podOf with ⟨listed, rfl⟩
    rcases otherCarries.of_podOf with ⟨otherListed, rfl⟩
    rw [one status listed (by rw [carries.isFull]; nofun),
      one otherStatus otherListed (by rw [otherCarries.isFull]; nofun)]
    exact ⟨rfl, rfl⟩
  exact ⟨only outerStatus (by decide), only restartedStatus (by decide)⟩

theorem wellFormedIds_restartedAndRunning : WellFormedIds restartedAndRunning := by
  intro fullId identity identifies
  have isFull : fullId = String.ofList ("containerd://".toList ++ outerRun) := by
    rcases identifies with running | terminated
    · rcases identifies_podOf_iff.mp running with ⟨status, listed, isFull, _⟩
      rcases List.mem_pair.mp listed with rfl | rfl
      · cases isFull
      · exact (Option.some.inj isFull).symm
    · rcases identifies_podOf_iff.mp terminated with ⟨status, listed, isFull, _⟩
      rcases List.mem_pair.mp listed with rfl | rfl
      · exact (Option.some.inj isFull).symm
      · cases isFull
  rw [isFull]
  exact wellFormedId_containerd (by decide)

/-- The one that runs under the id is found, though the other comes first. -/
theorem running_container_found_after_restarted :
    identityFromPods restartedAndRunning (String.ofList outerRun) =
      some
        { ns := "prod"
          podName := "api-7d9"
          containerName := outerStatus.name
          containerId := String.ofList ("containerd://".toList ++ outerRun)
          imageId := outerStatus.imageId } := by
  have found := (identityFromPods_of_carriedOnce wellFormedIds_restartedAndRunning
    carriedOnce_restartedAndRunning.1 carriedOnce_restartedAndRunning.2
    (show IsContainerId outerRun by decide)).1
  apply found (podOf outerStatus) outerStatus
  exact ⟨List.mem_map_of_mem (by decide), List.mem_singleton.mpr rfl, rfl,
    "containerd".toList, String.toList_ofList⟩

end OomWatcher
