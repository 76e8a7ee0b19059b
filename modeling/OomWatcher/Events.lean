import Mathlib.Algebra.Ring.Nat
import Mathlib.Data.List.Basic

/-! # OOM kill events

The records of the common crate, and the enrichment that joins them. Machine
integers are natural numbers; a 64-bit result is reduced where it can wrap. -/

namespace OomWatcher

def u64Modulus : Nat := 2 ^ 64

def u64Max : Nat := u64Modulus - 1

def saturatingAdd (left right : Nat) : Nat := min (left + right) u64Max

def checkedSub (left right : Nat) : Option Nat :=
  if right ≤ left then some (left - right) else none

/-- The record the probe ships for one kill. The memory figures are in kB. -/
structure OomKillEvent where
  pid : Nat
  comm : List UInt8
  totalVm : Nat
  anonRss : Nat
  fileRss : Nat
  shmemRss : Nat
  uid : Nat
  pgtables : Nat
  oomScoreAdj : Int
deriving DecidableEq, Repr

/-- The Kubernetes coordinates of the container a killed process belonged to.
`ns` is the source's `namespace`. -/
structure ContainerIdentity where
  ns : String
  podName : String
  containerName : String
  containerId : String
  imageId : String
deriving DecidableEq, Repr

/-- What resolving a PID came to. A failure carries the text of its error. -/
inductive ResolutionOutcome
  | found (identity : ContainerIdentity)
  | notFound
  | failed (error : String)
deriving DecidableEq, Repr

/-- Both failures collapse to no identity. -/
def ResolutionOutcome.identity : ResolutionOutcome → Option ContainerIdentity
  | .found identity => some identity
  | .notFound | .failed _ => none

structure EnrichedOomEvent where
  rawEvent : OomKillEvent
  nodeName : Option String
  ns : Option String
  podName : Option String
  containerName : Option String
  containerId : Option String
  imageId : Option String
  timestamp : Nat
deriving DecidableEq, Repr

/-- The node is known iff there is a resolver, whatever became of the
identity. -/
def enrich (rawEvent : OomKillEvent) (nodeName : Option String)
    (identity : Option ContainerIdentity) (timestamp : Nat) : EnrichedOomEvent where
  rawEvent := rawEvent
  nodeName := nodeName
  ns := identity.map (·.ns)
  podName := identity.map (·.podName)
  containerName := identity.map (·.containerName)
  containerId := identity.map (·.containerId)
  imageId := identity.map (·.imageId)
  timestamp := timestamp

end OomWatcher
