import OomWatcher.Kubernetes.PodCache

/-! # Pods that leave the cache -/

namespace OomWatcher

namespace PodCache

def HoldsPod (cache : PodCache) (ns name : String) : Prop :=
  cache.store.Holds ⟨some ns, some name⟩

instance (cache : PodCache) (ns name : String) : Decidable (cache.HoldsPod ns name) :=
  inferInstanceAs (Decidable (cache.store.Holds ⟨some ns, some name⟩))

theorem onPodDeleted_eq_some_iff {item : WatchItem} {ns name : String} :
    onPodDeleted (modified item) = some (ns, name) ↔
      ∃ pod, item = .ok (.delete pod) ∧ pod.objectRef = ⟨some ns, some name⟩ := by
  cases item with
  | error error => simp [modified, Except.map, onPodDeleted]
  | ok event =>
      cases event with
      | init => simp [modified, Except.map, WatchEvent.modify, onPodDeleted]
      | initApply pod => simp [modified, Except.map, WatchEvent.modify, onPodDeleted]
      | initDone => simp [modified, Except.map, WatchEvent.modify, onPodDeleted]
      | apply pod => simp [modified, Except.map, WatchEvent.modify, onPodDeleted]
      | delete pod =>
          rcases found : pod.metadata.ns with _ | podNs <;>
            rcases named : pod.metadata.name with _ | podName <;>
              simp [modified, Except.map, WatchEvent.modify, onPodDeleted,
                pruneForCache, Pod.objectRef, found, named]

theorem leaves_iff {cache : PodCache} {item : WatchItem} {ns name : String}
    (held : cache.HoldsPod ns name) :
    ¬ (cache.observe item).1.HoldsPod ns name ↔
      onPodDeleted (modified item) = some (ns, name) ∨
        (item = .ok .initDone ∧ ¬ cache.buffer.Holds ⟨some ns, some name⟩) := by
  rw [onPodDeleted_eq_some_iff]
  cases item with
  | error error =>
      have kept : (cache.observe (.error error)).1.HoldsPod ns name := held
      simp [kept]
  | ok event =>
      have departs : ¬ (cache.observe (.ok event)).1.HoldsPod ns name ↔
          (∃ pod, event.modify pruneForCache = .delete pod ∧
              pod.objectRef = ⟨some ns, some name⟩) ∨
            (event.modify pruneForCache = .initDone ∧
              ¬ cache.buffer.Holds ⟨some ns, some name⟩) :=
        Reflector.departs_iff held
      rw [departs]
      cases event with
      | init => simp [WatchEvent.modify]
      | initApply pod => simp [WatchEvent.modify]
      | initDone => simp [WatchEvent.modify]
      | apply pod => simp [WatchEvent.modify]
      | delete pod => simp [WatchEvent.modify]

/-- Every pod that is in the store after some items and not after more of them
was reported in between, and a pod is reported only when it is not in the
store. -/
structure ReportsDepartures (items : List WatchItem) : Prop where
  reported : ∀ before between after, items = before ++ between ++ after →
    ∀ ns name, (watched before).HoldsPod ns name →
      ¬ (watched (before ++ between)).HoldsPod ns name →
        ∃ earlier item later, between = earlier ++ item :: later ∧
          ((watched (before ++ earlier)).observe item).2 = some (ns, name)
  onlyAbsent : ∀ before item after, items = before ++ item :: after →
    ∀ ns name, ((watched before).observe item).2 = some (ns, name) →
      ¬ ((watched before).observe item).1.HoldsPod ns name

/-- No list is completed without a pod that is still in the store. -/
def RelistsKeepPods (items : List WatchItem) : Prop :=
  ∀ before after, items = before ++ .ok .initDone :: after →
    ∀ ns name, (watched before).HoldsPod ns name →
      (watched before).buffer.Holds ⟨some ns, some name⟩

theorem not_holdsPod_of_reported {cache : PodCache} {item : WatchItem} {ns name : String}
    (reported : (cache.observe item).2 = some (ns, name)) :
    ¬ (cache.observe item).1.HoldsPod ns name := by
  rcases onPodDeleted_eq_some_iff.mp reported with ⟨pod, rfl, isRef⟩
  have absent := Reflector.not_holds_delete cache (pruneForCache pod)
  rw [objectRef_pruneForCache, isRef] at absent
  exact absent

theorem reported_of_relistsKeepPods {items : List WatchItem} (keeps : RelistsKeepPods items)
    {before between after : List WatchItem} (split : items = before ++ between ++ after)
    {ns name : String} (held : (watched before).HoldsPod ns name)
    (left : ¬ (watched (before ++ between)).HoldsPod ns name) :
    ∃ earlier item later, between = earlier ++ item :: later ∧
      ((watched (before ++ earlier)).observe item).2 = some (ns, name) := by
  have goneAtEnd : ¬ (between.foldl (fun cache item => (cache.observe item).1)
      (watched before)).HoldsPod ns name := by
    rw [watched] at left ⊢
    rwa [List.foldl_append] at left
  rcases exists_turning_step _ (HoldsPod · ns name) held goneAtEnd with
    ⟨earlier, item, later, rfl, heldUntil, leaves⟩
  refine ⟨earlier, item, later, rfl, ?_⟩
  have resumed : (watched (before ++ earlier)) =
      earlier.foldl (fun cache item => (cache.observe item).1) (watched before) :=
    List.foldl_append
  rw [← resumed] at heldUntil leaves
  rcases (leaves_iff heldUntil).mp leaves with reported | ⟨rfl, missing⟩
  · exact reported
  · -- the end of a list would have had to be without the pod
    apply absurd _ missing
    apply keeps (before ++ earlier) (later ++ after) _ ns name heldUntil
    rw [split]
    simp

/-- The deletion callback sees every pod that leaves the cache exactly when no
relist drops a pod: pods that go missing between two lists are not reported. -/
theorem reportsDepartures_iff_relistsKeepPods (items : List WatchItem) :
    ReportsDepartures items ↔ RelistsKeepPods items := by
  constructor
  · intro reports before after split ns name held
    by_contra missing
    have leaves := (leaves_iff held).mpr (.inr ⟨rfl, missing⟩)
    rw [← watched_append_singleton] at leaves
    have resplit : items = before ++ [.ok .initDone] ++ after := by
      rw [split, List.append_assoc, List.singleton_append]
    rcases reports.reported before [.ok .initDone] after resplit ns name held leaves with
      ⟨earlier, item, later, single, reported⟩
    rcases List.append_eq_singleton_iff.mp single.symm with ⟨-, isDone⟩ | ⟨-, isNone⟩
    · rcases List.cons.inj isDone with ⟨rfl, -⟩
      cases reported
    · cases isNone
  · intro keeps
    constructor
    · intro before between after split ns name held left
      exact reported_of_relistsKeepPods keeps split held left
    · intro before item after _ ns name reported
      exact not_holdsPod_of_reported reported

/-- A pod that is gone before the next list. -/
theorem relist_drops_a_pod_unreported : ¬ ∀ items, ReportsDepartures items := by
  intro reports
  let pod : Pod :=
    { metadata := ⟨some "api-7d9", some "prod", none, none, none⟩, spec := none, status := none }
  let listed : List WatchItem := [.ok .init, .ok (.initApply pod), .ok .initDone]
  let relisted : List WatchItem := [.ok .init, .ok .initDone]
  have held : (watched listed).HoldsPod "prod" "api-7d9" := by decide
  have left : ¬ (watched (listed ++ relisted)).HoldsPod "prod" "api-7d9" := by decide
  rcases (reports (listed ++ relisted)).reported listed relisted [] (by simp) _ _ held left with
    ⟨earlier, item, later, split, reported⟩
  have member : item ∈ relisted := by
    rw [split]
    simp
  rcases onPodDeleted_eq_some_iff.mp reported with ⟨pod, rfl, -⟩
  rcases List.mem_cons.mp member with isInit | member
  · cases isInit
  · cases List.mem_singleton.mp member

end PodCache

end OomWatcher
