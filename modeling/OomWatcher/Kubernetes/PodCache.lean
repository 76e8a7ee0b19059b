import OomWatcher.Foundation.Reflector
import OomWatcher.Kubernetes.Identity

/-! # The pod cache

The pods of the node, mirrored from the API server by a watch. The reflector
applies each item of the stream to the store before the stream's consumer sees
it. -/

namespace OomWatcher

abbrev PodCache := Reflector Pod.objectRef

/-- What the watch yields. A failed list or watch is retried. -/
abbrev WatchItem := Except String (WatchEvent Pod)

/-- The stream strips pods before the reflector sees them. -/
def modified (item : WatchItem) : WatchItem := item.map (WatchEvent.modify pruneForCache)

namespace PodCache

def reflect (cache : PodCache) : WatchItem → PodCache
  | .ok event => cache.applyWatcherEvent event
  | .error _ => cache

/-- The namespace and name `onPodDeleted` is called with, once the item is in
the store. Nothing else the consumer does with an item can be observed. -/
def onPodDeleted : WatchItem → Option (String × String)
  | .ok (.delete pod) =>
      match pod.metadata.ns, pod.metadata.name with
      | some ns, some name => some (ns, name)
      | _, _ => none
  | .ok .initDone => none
  | .ok _ => none
  | .error _ => none

/-- One item through the stream of `spawn`: the cache after it, and the call of
`onPodDeleted` it led to. -/
def observe (cache : PodCache) (item : WatchItem) : PodCache × Option (String × String) :=
  (cache.reflect (modified item), onPodDeleted (modified item))

def watched (items : List WatchItem) : PodCache :=
  items.foldl (fun cache item => (cache.observe item).1) Reflector.new

theorem watched_append_singleton (items : List WatchItem) (item : WatchItem) :
    watched (items ++ [item]) = ((watched items).observe item).1 := by
  unfold watched
  rw [List.foldl_append, List.foldl_cons, List.foldl_nil]

/-- Whether the initial list has landed, without waiting for it. -/
def ensureSynced (cache : PodCache) : Except String Unit :=
  match cache.latch with
  | .ready => .ok ()
  | .abandoned =>
      .error ("the pod cache stopped being maintained: " ++
        "writer was dropped before store became ready")
  | .waiting =>
      .error "the pod cache has not finished its initial list of the pods on this node"

def identityOf (cache : PodCache) (containerId : String) :
    Except String (Option ContainerIdentity) :=
  match cache.ensureSynced with
  | .ok () => .ok (identityFromPods cache.store.state containerId)
  | .error error => .error error

theorem identityOf_of_unsynced {cache : PodCache} (unsynced : cache.latch ≠ .ready)
    (containerId : String) : ∃ error, cache.identityOf containerId = .error error := by
  rw [identityOf, ensureSynced]
  cases latch : cache.latch with
  | ready => exact absurd latch unsynced
  | abandoned => exact ⟨_, rfl⟩
  | waiting => exact ⟨_, rfl⟩

end PodCache

end OomWatcher
