import OomWatcher.Foundation.Machine
import OomWatcher.Kubernetes.Resolution
import OomWatcher.Watch.ProcessEvent

/-! # Container ids and images

The watcher in a cluster: the stream of pods feeds the cache and reports
deletions, the watch loop resolves each kill against the cache and records it,
and the sweeper evicts. The steps of the tasks may come in any order, each with the
calls of the collector it makes. -/

namespace OomWatcher

variable {Vec : Type} [MetricVec Vec (List String)]

/-! ## The watcher -/

structure Watcher (Vec : Type) where
  cache : PodCache
  collector : MetricsCollector Vec
  /-- The calls that led to the collector. -/
  history : History

namespace Watcher

def start : Watcher Vec where
  cache := Reflector.new
  collector := .new
  history := []

inductive Action
  /-- The stream of pods yields an item. -/
  | observe (item : WatchItem) (clock : Nat)
  /-- The store iterates in another order from here on. -/
  | rehash (store : KeyedStore Pod.objectRef)
  /-- The watch loop processes an event, given what reading the cgroup of its
  process comes to. -/
  | process (rawEvent : OomKillEvent) (read : Except ErrorKind String) (timestamp : Nat)
  | sweep (now ttlSecs : Nat)

instance (left right : KeyedStore Pod.objectRef) :
    Decidable (left.objects.Reordered right.objects) :=
  inferInstanceAs (Decidable (left.objects.entries.Perm right.objects.entries))

/-- The closure that `main` hands to the pod cache. -/
def noteDeletion (state : Watcher Vec) (clock : Nat) : Option (String × String) → Watcher Vec
  | some (ns, pod) =>
      { state with
        collector := state.collector.notePodDeleted ns pod clock
        history := .notePodDeleted ns pod clock :: state.history }
  | none => state

def step (node : String) (state : Watcher Vec) : Action → Option (Watcher Vec)
  | .observe item clock =>
      let (cache, deletion) := state.cache.observe item
      some ({ state with cache := cache }.noteDeletion clock deletion)
  | .rehash store =>
      if store.objects.Reordered state.cache.store.objects then
        some { state with cache := { state.cache with store := store } }
      else none
  | .process rawEvent read timestamp =>
      let outcome := resolve state.cache rawEvent.pid read
      some { state with
        collector := processEvent state.collector (some node) rawEvent outcome timestamp
        history := .recordOomEvent (enrich rawEvent (some node) outcome.identity timestamp) ::
          state.history }
  | .sweep now ttlSecs =>
      some { state with
        collector := (state.collector.evictStale now ttlSecs).1
        history := .evictStale now ttlSecs :: state.history }

def machine (node : String) : Machine (Watcher Vec) Action where
  step := step node

def Action.delivered : Action → Option Pod
  | .observe (.ok event) _ => event.delivered
  | .observe (.error _) _ | .rehash _ | .process _ _ _ | .sweep _ _ => none

def delivered (actions : List Action) : List Pod := actions.filterMap Action.delivered

end Watcher

/-! ## Images -/

/-- Ids taken from the statuses by `first` and by `second` come with the same
image where they are equal. -/
def SameImages (pods : List Pod) (first second : ContainerStatus → Option String) : Prop :=
  ∀ fullId left right, Identifies pods first fullId left → Identifies pods second fullId right →
    left.imageId = right.imageId

/-- A running container is always reported with one image, and a status that
has it as last terminated still carries that image. -/
structure ImagesDetermined (pods : List Pod) : Prop where
  running : SameImages pods runningContainerId runningContainerId
  terminated : SameImages pods terminatedContainerId runningContainerId
  terminatedAgain : SameImages pods terminatedContainerId terminatedContainerId

theorem identifies_of_stripped {pods cached : List Pod} {fullId : String}
    {candidate : ContainerStatus → Option String} {identity : ContainerIdentity}
    (stripped : ∀ pod ∈ cached, ∃ original ∈ pods, pod = pruneForCache original)
    (identifies : Identifies cached candidate fullId identity) :
    Identifies pods candidate fullId identity := by
  rcases identifies with ⟨pod, isCached, status, reports, isFull, isIdentity⟩
  rcases stripped pod isCached with ⟨original, isPod, rfl⟩
  exact ⟨original, isPod, status, reports, isFull, isIdentity⟩

/-- The event carries no identity, or that of a container in the pods, whose id
is too long to be mistaken for `unknown`. -/
def Attributed (pods : List Pod) (event : EnrichedOomEvent) : Prop :=
  (event.containerId = none ∧ event.imageId = none) ∨
    ∃ identity, event.containerId = some identity.containerId ∧
      event.imageId = some identity.imageId ∧ 64 ≤ identity.containerId.toList.length ∧
        (Identifies pods runningContainerId identity.containerId identity ∨
          Identifies pods terminatedContainerId identity.containerId identity)

theorem length_le_of_namesContainer {reported : String} {run : List Char}
    (names : namesContainer reported (String.ofList run) = true) :
    run.length ≤ reported.toList.length := by
  rw [namesContainer] at names
  rw [Bool.or_eq_true, decide_eq_true_iff, decide_eq_true_iff, String.toList_ofList] at names
  rcases names with isSuffix | isInfix
  · exact isSuffix.length_le
  · exact isInfix.length_le

theorem attributed_enrich {pods : List Pod} {cache : PodCache}
    (stripped : ∀ pod ∈ cache.store.state, ∃ original ∈ pods, pod = pruneForCache original)
    (node : String) (rawEvent : OomKillEvent) (read : Except ErrorKind String)
    (timestamp : Nat) :
    Attributed pods
      (enrich rawEvent (some node) (resolve cache rawEvent.pid read).identity timestamp) := by
  cases outcome : resolve cache rawEvent.pid read with
  | notFound => exact .inl ⟨rfl, rfl⟩
  | failed error => exact .inl ⟨rfl, rfl⟩
  | found identity =>
      rcases exists_run_of_resolve outcome with ⟨run, isId, isIdentity⟩
      rcases identifies_of_identityFromPods isIdentity with ⟨fullId, names, identifies⟩
      have isFull : identity.containerId = fullId :=
        identifies.elim Identifies.containerId_eq Identifies.containerId_eq
      have long := length_le_of_namesContainer names
      rw [isId.1] at long
      subst isFull
      exact .inr ⟨identity, rfl, rfl, long,
        identifies.imp (identifies_of_stripped stripped) (identifies_of_stripped stripped)⟩

theorem image_eq_of_attributed {pods : List Pod} (determined : ImagesDetermined pods)
    {left right : EnrichedOomEvent} (leftAttributed : Attributed pods left)
    (rightAttributed : Attributed pods right)
    (sameId : (SeriesKey.ofEvent left).containerId = (SeriesKey.ofEvent right).containerId) :
    (SeriesKey.ofEvent left).imageId = (SeriesKey.ofEvent right).imageId := by
  unfold SeriesKey.ofEvent at sameId ⊢
  dsimp only at sameId ⊢
  rcases leftAttributed with ⟨leftId, leftImage⟩ |
      ⟨leftIdentity, leftId, leftImage, leftLong, leftFrom⟩ <;>
    rcases rightAttributed with ⟨rightId, rightImage⟩ |
      ⟨rightIdentity, rightId, rightImage, rightLong, rightFrom⟩ <;>
    rw [leftId, rightId] at sameId <;> rw [leftImage, rightImage]
  · rw [Option.getD_none, Option.getD_some] at sameId
    rw [← sameId] at rightLong
    exact absurd rightLong (by decide)
  · rw [Option.getD_none, Option.getD_some] at sameId
    rw [sameId] at leftLong
    exact absurd leftLong (by decide)
  · rw [Option.getD_some, Option.getD_some] at sameId ⊢
    rw [sameId] at leftFrom
    rcases leftFrom with leftRuns | leftEnded <;> rcases rightFrom with rightRuns | rightEnded
    · exact determined.running _ _ _ leftRuns rightRuns
    · exact (determined.terminated _ _ _ rightEnded leftRuns).symm
    · exact determined.terminated _ _ _ leftEnded rightRuns
    · exact determined.terminatedAgain _ _ _ leftEnded rightEnded

/-! ## Runs -/

namespace Watcher

structure Attributes (pods : List Pod) (state : Watcher Vec) : Prop where
  cached : state.cache.HoldsOnly fun pod => ∃ original ∈ pods, pod = pruneForCache original
  attributed : ∀ event ∈ recorded state.history, Attributed pods event
  reflects : Reflects state.history state.collector

theorem attributes_start (pods : List Pod) : Attributes pods (start : Watcher Vec) where
  cached := Reflector.holdsOnly_new _
  attributed _ member := nomatch member
  reflects := reflects_new

theorem cached_observe {pods : List Pod} {cache : PodCache} {item : WatchItem} {clock : Nat}
    (cached : cache.HoldsOnly fun pod => ∃ original ∈ pods, pod = pruneForCache original)
    (delivers : ∀ pod, (Action.observe item clock).delivered = some pod → pod ∈ pods) :
    (cache.observe item).1.HoldsOnly fun pod =>
      ∃ original ∈ pods, pod = pruneForCache original := by
  cases item with
  | error error => exact cached
  | ok event =>
      apply cached.applyWatcherEvent
      intro pod isDelivered
      rw [WatchEvent.delivered_modify] at isDelivered
      rcases Option.map_eq_some_iff.mp isDelivered with ⟨original, isOriginal, rfl⟩
      exact ⟨original, delivers original isOriginal, rfl⟩

theorem attributes_step {pods : List Pod} {node : String} {state next : Watcher Vec}
    {action : Action} (attributes : Attributes pods state)
    (delivers : ∀ pod, action.delivered = some pod → pod ∈ pods)
    (stepped : (machine node).step state action = some next) : Attributes pods next := by
  cases action with
  | observe item clock =>
      have cached := cached_observe attributes.cached delivers
      cases stepped
      cases deletion : (state.cache.observe item).2 with
      | none =>
          change Attributes pods (noteDeletion _ clock (state.cache.observe item).2)
          rw [deletion]
          exact ⟨cached, attributes.attributed, attributes.reflects⟩
      | some pod =>
          change Attributes pods (noteDeletion _ clock (state.cache.observe item).2)
          rw [deletion]
          exact ⟨cached, attributes.attributed,
            attributes.reflects.notePodDeleted pod.1 pod.2 clock⟩
  | rehash store =>
      change (if _ then some _ else none) = some next at stepped
      split at stepped
      · next reordered =>
          cases stepped
          refine ⟨⟨?_, attributes.cached.buffered⟩, attributes.attributed, attributes.reflects⟩
          intro pod member
          have sameObjects : store.state.Perm state.cache.store.state := reordered.map _
          exact attributes.cached.stored pod (sameObjects.mem_iff.mp member)
      · cases stepped
  | process rawEvent read timestamp =>
      cases stepped
      constructor
      · exact attributes.cached
      · intro event member
        rcases List.mem_cons.mp member with rfl | earlier
        · exact attributed_enrich attributes.cached.stored node rawEvent read timestamp
        · exact attributes.attributed event earlier
      · exact attributes.reflects.processEvent node rawEvent _ timestamp
  | sweep now ttlSecs =>
      cases stepped
      exact ⟨attributes.cached, attributes.attributed,
        attributes.reflects.evictStale now ttlSecs⟩

theorem attributes_run {node : String} {actions : List Action} {final : Watcher Vec}
    (ran : (machine node).run start actions = some final) :
    Attributes (delivered actions) final := by
  apply Machine.invariant_of_run attributes_step (attributes_start _) _ ran
  apply Machine.Meets.of_forall
  intro action member _ pod isDelivered
  exact List.mem_filterMap.mpr ⟨action, member, isDelivered⟩

theorem Attributes.exists_recorded {pods : List Pod} {state : Watcher Vec}
    (attributes : Attributes pods state) {key : SeriesKey}
    (exported : sample state.collector.vecs .oomKillsTotal key.labels ≠ none) :
    ∃ event ∈ recorded state.history, SeriesKey.ofEvent event = key := by
  rw [attributes.reflects.kills] at exported
  cases tracked : sinceEvicted key state.history with
  | nil =>
      rw [if_pos tracked] at exported
      exact absurd rfl exported
  | cons event rest =>
      have member : event ∈ sinceEvicted key state.history := by
        rw [tracked]
        exact List.mem_cons_self
      exact ⟨event, recorded_of_mem_sinceEvicted member⟩

/-- As long as an image is reported for the container it belongs to, the label
of the container id determines that of the image, and there is one series for
each container id. -/
theorem image_determined_by_container_id {node : String} {actions : List Action}
    {final : Watcher Vec} (ran : (machine node).run start actions = some final)
    (determined : ImagesDetermined (delivered actions)) :
    (∀ left ∈ recorded final.history, ∀ right ∈ recorded final.history,
      (SeriesKey.ofEvent left).containerId = (SeriesKey.ofEvent right).containerId →
        (SeriesKey.ofEvent left).imageId = (SeriesKey.ofEvent right).imageId) ∧
      ∀ left right : SeriesKey,
        sample final.collector.vecs .oomKillsTotal left.labels ≠ none →
          sample final.collector.vecs .oomKillsTotal right.labels ≠ none →
            left.node = right.node → left.ns = right.ns → left.pod = right.pod →
              left.container = right.container → left.containerId = right.containerId →
                left = right := by
  have attributes := attributes_run ran
  have sameImage : ∀ left ∈ recorded final.history, ∀ right ∈ recorded final.history,
      (SeriesKey.ofEvent left).containerId = (SeriesKey.ofEvent right).containerId →
        (SeriesKey.ofEvent left).imageId = (SeriesKey.ofEvent right).imageId := by
    intro left isLeft right isRight sameId
    exact image_eq_of_attributed determined (attributes.attributed left isLeft)
      (attributes.attributed right isRight) sameId
  refine ⟨sameImage, ?_⟩
  intro left right leftExported rightExported sameNode sameNs samePod sameContainer sameId
  rcases attributes.exists_recorded leftExported with ⟨leftEvent, isLeft, rfl⟩
  rcases attributes.exists_recorded rightExported with ⟨rightEvent, isRight, rfl⟩
  have image := sameImage leftEvent isLeft rightEvent isRight sameId
  apply SeriesKey.labels_inj.mp
  unfold SeriesKey.labels
  rw [sameNode, sameNs, samePod, sameContainer, sameId, image]

/-! A container that is killed, restarted in place and found again under its
old id. -/

def firstId : String := String.ofList ("containerd://".toList ++ List.replicate 64 'a')

def secondId : String := String.ofList ("containerd://".toList ++ List.replicate 64 'b')

def killed : Action :=
  .process (eventFor "api-7d9" "containerd://abc123" 10).rawEvent
    (.ok (String.ofList ('/' :: List.replicate 64 'a'))) 10

def beforeRestart : ContainerStatus := ⟨"api", some firstId, "repo@sha256:old", none⟩

def afterRestart (imageId : String) : ContainerStatus :=
  ⟨"api", some secondId, imageId, some ⟨some ⟨some firstId⟩⟩⟩

def restartedRun (imageId : String) : List Action :=
  [.observe (.ok .init) 0, .observe (.ok (.initApply (podOf beforeRestart))) 0,
    .observe (.ok .initDone) 0, killed,
    .observe (.ok (.apply (podOf (afterRestart imageId)))) 0, killed]

theorem delivered_restartedRun (imageId : String) :
    delivered (restartedRun imageId) = [beforeRestart, afterRestart imageId].map podOf := rfl

/-- With the same image for both containers. -/
theorem image_of_restart_in_place :
    ∃ final : Watcher LabelVec,
      (machine "node-1").run start (restartedRun "repo@sha256:old") = some final ∧
        (recorded final.history).length = 2 ∧
        ∀ left ∈ recorded final.history, ∀ right ∈ recorded final.history,
          (SeriesKey.ofEvent left).containerId = (SeriesKey.ofEvent right).containerId →
            (SeriesKey.ofEvent left).imageId = (SeriesKey.ofEvent right).imageId := by
  have oneImage : ∀ candidate fullId identity,
      Identifies (delivered (restartedRun "repo@sha256:old")) candidate fullId identity →
        identity.imageId = "repo@sha256:old" := by
    intro candidate fullId identity identifies
    rw [delivered_restartedRun] at identifies
    rcases identifies_podOf_iff.mp identifies with ⟨status, isStatus, _, rfl⟩
    rcases List.mem_pair.mp isStatus with rfl | rfl <;> rfl
  have same : ∀ first second,
      SameImages (delivered (restartedRun "repo@sha256:old")) first second := by
    intro first second fullId left right isLeft isRight
    rw [oneImage _ _ _ isLeft, oneImage _ _ _ isRight]
  apply Machine.exists_run_of_decided fun final => (recorded final.history).length = 2
  · intro final ran length
    exact ⟨length, (image_determined_by_container_id ran ⟨same _ _, same _ _, same _ _⟩).1⟩
  · decide +kernel

theorem restartedRun_newImage :
    ((machine "node-1").run (start : Watcher LabelVec) (restartedRun "repo@sha256:new")).map
      (fun state => (recorded state.history).map fun event => (event.containerId, event.imageId)) =
      some [(some firstId, some "repo@sha256:new"), (some firstId, some "repo@sha256:old")] := by
  decide +kernel

/-- With another image for the second container, the id of the first is recorded
with both. -/
theorem image_not_determined_by_container_id :
    ¬ ∀ (node : String) (actions : List Action) (final : Watcher LabelVec),
      (machine node).run start actions = some final →
        SameImages (delivered actions) runningContainerId runningContainerId →
          ∀ left ∈ recorded final.history, ∀ right ∈ recorded final.history,
            (SeriesKey.ofEvent left).containerId = (SeriesKey.ofEvent right).containerId →
              (SeriesKey.ofEvent left).containerId ≠ "unknown" →
                (SeriesKey.ofEvent left).imageId = (SeriesKey.ofEvent right).imageId := by
  intro determined
  have different : firstId ≠ secondId := by decide
  have sameRunning : SameImages (delivered (restartedRun "repo@sha256:new"))
      runningContainerId runningContainerId := by
    rw [delivered_restartedRun]
    intro fullId left right isLeft isRight
    rcases identifies_podOf_iff.mp isLeft with ⟨leftStatus, leftListed, leftFull, rfl⟩
    rcases identifies_podOf_iff.mp isRight with ⟨rightStatus, rightListed, rightFull, rfl⟩
    have sameId := leftFull.trans rightFull.symm
    rcases List.mem_pair.mp leftListed with rfl | rfl <;>
      rcases List.mem_pair.mp rightListed with rfl | rfl
    · rfl
    · exact absurd (Option.some.inj sameId) different
    · exact absurd (Option.some.inj sameId).symm different
    · rfl
  rcases Option.map_eq_some_iff.mp restartedRun_newImage with ⟨final, ran, labels⟩
  rcases List.map_eq_cons_iff.mp labels with ⟨second, earlier, isRecorded, secondLabels, rest⟩
  rcases List.map_eq_cons_iff.mp rest with ⟨first, _, isEarlier, firstLabels, _⟩
  rw [isEarlier] at isRecorded
  rcases Prod.mk.inj firstLabels with ⟨firstContainer, firstImage⟩
  rcases Prod.mk.inj secondLabels with ⟨secondContainer, secondImage⟩
  have sameImage := determined "node-1" _ final ran sameRunning
    first (by simp [isRecorded]) second (by simp [isRecorded])
  simp only [SeriesKey.ofEvent, firstContainer, firstImage, secondContainer, secondImage,
    Option.getD_some] at sameImage
  exact absurd (sameImage trivial (by decide)) (by decide)

end Watcher

end OomWatcher
