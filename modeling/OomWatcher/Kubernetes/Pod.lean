import Mathlib.Data.List.Basic

/-! # Pods

The fields of the API objects that the cache keeps, reads or strips. `ns` is the
source's `namespace`. -/

namespace OomWatcher

structure ContainerStateTerminated where
  containerId : Option String
deriving DecidableEq, Repr

structure ContainerState where
  terminated : Option ContainerStateTerminated
deriving DecidableEq, Repr

structure ContainerStatus where
  name : String
  containerId : Option String
  imageId : String
  lastState : Option ContainerState
deriving DecidableEq, Repr

structure PodStatus where
  containerStatuses : Option (List ContainerStatus)
  initContainerStatuses : Option (List ContainerStatus)
  ephemeralContainerStatuses : Option (List ContainerStatus)
deriving DecidableEq, Repr

structure ManagedFieldsEntry where
  manager : Option String
deriving DecidableEq, Repr

structure ObjectMeta where
  name : Option String
  ns : Option String
  uid : Option String
  annotations : Option (List (String × String))
  managedFields : Option (List ManagedFieldsEntry)
deriving DecidableEq, Repr

structure PodSpec where
  nodeName : Option String
deriving DecidableEq, Repr

structure Pod where
  metadata : ObjectMeta
  spec : Option PodSpec
  status : Option PodStatus
deriving DecidableEq, Repr

/-- What the reflector files an object under. The UID is no part of it, so a pod
created again under its old name takes the old one's place. -/
structure ObjectRef where
  ns : Option String
  name : Option String
deriving DecidableEq, Repr

def Pod.objectRef (pod : Pod) : ObjectRef where
  ns := pod.metadata.ns
  name := pod.metadata.name

def pruneForCache (pod : Pod) : Pod :=
  { pod with
    spec := none
    metadata := { pod.metadata with managedFields := none, annotations := none } }

@[simp] theorem objectRef_pruneForCache (pod : Pod) :
    (pruneForCache pod).objectRef = pod.objectRef := rfl

end OomWatcher
