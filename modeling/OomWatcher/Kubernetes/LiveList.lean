import OomWatcher.Kubernetes.Resolution

/-! # The cache against a live list

What a lookup in the cache answers, compared with the pods as the API server has
reported them, whole and unstripped. -/

namespace OomWatcher

/-! ## Stripped pods -/

theorem matchContainer_pruneForCache (pods : List Pod) (containerId : String)
    (candidate : ContainerStatus → Option String) :
    matchContainer (pods.map pruneForCache) containerId candidate =
      matchContainer pods containerId candidate := by
  rw [matchContainer, List.findSome?_map]
  rfl

theorem identityFromPods_pruneForCache (pods : List Pod) (containerId : String) :
    identityFromPods (pods.map pruneForCache) containerId =
      identityFromPods pods containerId := by
  unfold identityFromPods
  rw [matchContainer_pruneForCache, matchContainer_pruneForCache]

namespace PodCache

/-! ## The live list -/

def reportedEvents (items : List WatchItem) : List (WatchEvent Pod) :=
  (items.filterMap Except.toOption).reverse

/-- The pods are those of the last complete list, edited by the changes since, in
some order. -/
structure ListsLive (items : List WatchItem) (pods : List Pod) : Prop where
  distinct : (pods.map Pod.objectRef).Nodup
  live : ∀ pod, pod ∈ pods ↔
    mirrored Pod.objectRef pod.objectRef (reportedEvents items) = some pod

theorem reportedEvents_append_singleton (items : List WatchItem) (item : WatchItem) :
    reportedEvents (items ++ [item]) = item.toOption.toList ++ reportedEvents items := by
  rw [reportedEvents, List.filterMap_append, List.reverse_append]
  cases item <;> rfl

theorem initDone_mem_reportedEvents {items : List WatchItem} :
    .initDone ∈ reportedEvents items ↔ .ok .initDone ∈ items := by
  rw [reportedEvents, List.mem_reverse, List.mem_filterMap]
  constructor
  · intro reported
    rcases reported with ⟨item, member, isDone⟩
    cases item with
    | error error => cases isDone
    | ok event =>
        cases isDone
        exact member
  · exact fun member => ⟨_, member, rfl⟩

theorem mirrors_watched (items : List WatchItem) :
    (watched items).Mirrors pruneForCache (reportedEvents items) := by
  induction items using List.reverseRecOn with
  | nil => exact Reflector.mirrors_new pruneForCache
  | append_singleton items item induction =>
      rw [watched_append_singleton, reportedEvents_append_singleton]
      cases item with
      | error error => exact induction
      | ok event => exact induction.applyWatcherEvent objectRef_pruneForCache event

def rehashed (cache : PodCache) (store : KeyedStore Pod.objectRef) : PodCache :=
  { cache with store := store }

theorem exists_listsLive (items : List WatchItem) {store : KeyedStore Pod.objectRef}
    (reordered : store.objects.Reordered (watched items).store.objects) :
    ∃ pods, ListsLive items pods ∧ pods.map pruneForCache = store.state := by
  have rewrites : ∀ key, store.objects.lookup key =
      (mirrored Pod.objectRef key (reportedEvents items)).map pruneForCache :=
    fun key => (reordered.lookup key).trans ((mirrors_watched items).store key)
  rcases KeyedStore.exists_originals rewrites fun _ _ => keyOf_of_mirrored with
    ⟨pods, stripped, distinct, live⟩
  exact ⟨pods, ⟨distinct, live⟩, stripped⟩

theorem identityOf_of_synced {cache : PodCache} (synced : cache.latch = .ready)
    (containerId : String) :
    cache.identityOf containerId = .ok (identityFromPods cache.store.state containerId) := by
  rw [identityOf, ensureSynced, synced]

def Relisting : WatchItem → Prop
  | .error _ | .ok .init | .ok (.initApply _) => True
  | .ok .initDone | .ok (.apply _) | .ok (.delete _) => False

theorem watched_append_relisting (items : List WatchItem) {relist : List WatchItem}
    (relisting : ∀ item ∈ relist, Relisting item) :
    (watched (items ++ relist)).store = (watched items).store ∧
      (watched (items ++ relist)).latch = (watched items).latch := by
  induction relist using List.reverseRecOn with
  | nil => rw [List.append_nil]; exact ⟨rfl, rfl⟩
  | append_singleton relist item induction =>
      rw [← List.append_assoc, watched_append_singleton]
      have before := induction fun other member =>
        relisting other (List.mem_append_left _ member)
      have last := relisting item (List.mem_append_right _ (List.mem_singleton.mpr rfl))
      rcases item with error | event
      · exact before
      · cases event with
        | init => exact before
        | initApply pod => exact before
        | initDone => exact absurd last id
        | apply pod => exact absurd last id
        | delete pod => exact absurd last id

theorem getContainerIdFromPid_of_notFound {cache : PodCache} {pid : Nat}
    {read : Except ErrorKind String} (missed : resolve cache pid read = .notFound) :
    getContainerIdFromPid pid read = .ok none ∨
      ∃ containerId, getContainerIdFromPid pid read = .ok (some containerId) ∧
        cache.identityOf containerId = .ok none := by
  have info : getContainerInfo cache pid read = .ok none := by
    rw [resolve] at missed
    split at missed
    · cases missed
    · next isInfo => exact isInfo
    · cases missed
  rw [getContainerInfo] at info
  split at info
  · next containerId isId => exact .inr ⟨containerId, isId, info⟩
  · next noId => exact .inl noId
  · cases info

/-- The answer of a synced cache comes from the live list, that of an unsynced
one is an error, and a list in progress changes neither. A process is not found
only for want of a container id, or because no live container has it. -/
theorem answers_like_live_list (items : List WatchItem) (store : KeyedStore Pod.objectRef)
    (reordered : store.objects.Reordered (watched items).store.objects) :
    (.ok .initDone ∉ items → ∀ containerId, ∃ error,
        ((watched items).rehashed store).identityOf containerId = .error error) ∧
      (.ok .initDone ∈ items → ∃ pods, ListsLive items pods ∧ ∀ containerId,
        ((watched items).rehashed store).identityOf containerId =
          .ok (identityFromPods pods containerId)) ∧
      (∀ relist, (∀ item ∈ relist, Relisting item) → ∀ containerId,
        (watched (items ++ relist)).identityOf containerId =
          (watched items).identityOf containerId) ∧
      ∀ pid read, resolve ((watched items).rehashed store) pid read = .notFound →
        getContainerIdFromPid pid read = .ok none ∨
          .ok .initDone ∈ items ∧ ∃ pods, ListsLive items pods ∧ ∃ containerId,
            getContainerIdFromPid pid read = .ok (some containerId) ∧
              identityFromPods pods containerId = none := by
  have mirrors := mirrors_watched items
  have unsynced : .ok .initDone ∉ items → ((watched items).rehashed store).latch ≠ .ready := by
    intro notDone
    change (watched items).latch ≠ .ready
    rw [mirrors.waiting (mt initDone_mem_reportedEvents.mp notDone)]
    nofun
  have synced : .ok .initDone ∈ items → ((watched items).rehashed store).latch = .ready :=
    fun done => mirrors.ready (initDone_mem_reportedEvents.mpr done)
  rcases exists_listsLive items reordered with ⟨pods, listsLive, stripped⟩
  have answers : .ok .initDone ∈ items → ∀ containerId,
      ((watched items).rehashed store).identityOf containerId =
        .ok (identityFromPods pods containerId) := by
    intro done containerId
    rw [identityOf_of_synced (synced done), ← identityFromPods_pruneForCache pods, stripped]
    rfl
  refine ⟨?_, ?_, ?_, ?_⟩
  · intro notDone containerId
    exact identityOf_of_unsynced (unsynced notDone) containerId
  · exact fun done => ⟨pods, listsLive, answers done⟩
  · intro relist relisting containerId
    rcases watched_append_relisting items relisting with ⟨sameStore, sameLatch⟩
    unfold identityOf ensureSynced
    rw [sameStore, sameLatch]
  · intro pid read missed
    rcases getContainerIdFromPid_of_notFound missed with noId | ⟨containerId, isId, noIdentity⟩
    · exact .inl noId
    · right
      by_cases done : .ok .initDone ∈ items
      · rw [answers done] at noIdentity
        exact ⟨done, pods, listsLive, containerId, isId, Except.ok.inj noIdentity⟩
      · rcases identityOf_of_unsynced (unsynced done) containerId with ⟨error, isError⟩
        rw [isError] at noIdentity
        cases noIdentity

/-- One pod, before and after its list is complete. -/
theorem answers_like_live_list_one_pod :
    (∀ containerId, ∃ error,
        (watched [.ok .init, .ok (.initApply (podOf outerStatus))]).identityOf containerId =
          .error error) ∧
      ∃ pods, ListsLive [.ok .init, .ok (.initApply (podOf outerStatus)), .ok .initDone] pods ∧
        ∀ containerId, outerCache.identityOf containerId =
          .ok (identityFromPods pods containerId) :=
  ⟨(answers_like_live_list [.ok .init, .ok (.initApply (podOf outerStatus))] _
      (Dictionary.Reordered.refl _)).1 (by decide),
    (answers_like_live_list [.ok .init, .ok (.initApply (podOf outerStatus)), .ok .initDone] _
      (Dictionary.Reordered.refl _)).2.1 (by decide)⟩

end PodCache

end OomWatcher
