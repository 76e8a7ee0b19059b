import OomWatcher.Foundation.Dictionary

/-! # Metric vectors

A metric vector of a Prometheus client maps label values to series. Callers
obtain a handle to a series, creating it on first use, and write through the
handle; removing the label values detaches the series, after which writes
through an old handle are no longer exported. The class states what callers
rely on. Sample values are natural numbers. -/

namespace OomWatcher

class MetricVec (Vec : Type) (Labels : outParam Type) where
  Handle : Type
  empty : Vec
  /-- Get the series under the labels, or create it at zero. -/
  withLabelValues : Vec → Labels → Vec × Handle
  removeLabelValues : Vec → Labels → Vec
  /-- Write to a series, attached or not, through its handle. -/
  store : Vec → Handle → Nat → Vec
  read : Vec → Handle → Nat
  /-- The series an export of the vector shows under the labels. -/
  child : Vec → Labels → Option Handle
  child_empty : ∀ labels, child empty labels = none
  child_injective : ∀ {vec left right handle},
    child vec left = some handle → child vec right = some handle → left = right
  withLabelValues_of_child : ∀ {vec labels handle},
    child vec labels = some handle → withLabelValues vec labels = (vec, handle)
  child_withLabelValues : ∀ vec labels,
    child (withLabelValues vec labels).1 labels =
      some (withLabelValues vec labels).2
  child_withLabelValues_of_ne : ∀ vec {labels other}, other ≠ labels →
    child (withLabelValues vec labels).1 other = child vec other
  read_withLabelValues_new : ∀ {vec labels}, child vec labels = none →
    read (withLabelValues vec labels).1 (withLabelValues vec labels).2 = 0
  read_withLabelValues_of_ne : ∀ {vec labels handle},
    handle ≠ (withLabelValues vec labels).2 →
      read (withLabelValues vec labels).1 handle = read vec handle
  child_store : ∀ vec handle value labels,
    child (store vec handle value) labels = child vec labels
  read_store : ∀ vec handle value, read (store vec handle value) handle = value
  read_store_of_ne : ∀ vec {handle other} value, other ≠ handle →
    read (store vec handle value) other = read vec other
  store_read : ∀ vec handle, store vec handle (read vec handle) = vec
  child_removeLabelValues : ∀ vec labels,
    child (removeLabelValues vec labels) labels = none
  child_removeLabelValues_of_ne : ∀ vec {labels other}, other ≠ labels →
    child (removeLabelValues vec labels) other = child vec other
  read_removeLabelValues : ∀ vec labels handle,
    read (removeLabelValues vec labels) handle = read vec handle

namespace MetricVec

attribute [simp] child_empty child_withLabelValues child_store read_store
  child_removeLabelValues read_removeLabelValues

variable {Vec Labels : Type} [MetricVec Vec Labels]

def exported (vec : Vec) (labels : Labels) : Option Nat :=
  (child vec labels).map (read vec)

@[simp] theorem exported_empty (labels : Labels) :
    exported (empty : Vec) labels = none := by
  simp [exported]

theorem exported_of_child {vec : Vec} {labels : Labels} {handle : Handle Vec}
    (attached : child vec labels = some handle) :
    exported vec labels = some (read vec handle) := by
  simp [exported, attached]

theorem exported_withLabelValues [DecidableEq Labels] (vec : Vec)
    (labels other : Labels) :
    exported (withLabelValues vec labels).1 other =
      if other = labels then some ((exported vec labels).getD 0)
      else exported vec other := by
  cases found : child vec labels with
  | some handle =>
      rw [withLabelValues_of_child found]
      split
      · next equal => rw [equal, exported_of_child found]; rfl
      · rfl
  | none =>
      split
      · next equal =>
          subst equal
          rw [exported_of_child (child_withLabelValues vec other),
            read_withLabelValues_new found]
          simp [exported, found]
      · next different =>
          unfold exported
          rw [child_withLabelValues_of_ne vec different]
          cases otherFound : child vec other with
          | none => rfl
          | some handle =>
              have handleOld : handle ≠ (withLabelValues vec labels).2 := by
                intro equal
                have otherChild :
                    child (withLabelValues vec labels).1 other = some handle := by
                  rw [child_withLabelValues_of_ne vec different, otherFound]
                have newChild :
                    child (withLabelValues vec labels).1 labels = some handle := by
                  rw [child_withLabelValues, equal]
                exact different (child_injective otherChild newChild)
              simp [read_withLabelValues_of_ne handleOld]

theorem exported_store_of_child [DecidableEq Labels] {vec : Vec}
    {labels : Labels} {handle : Handle Vec}
    (attached : child vec labels = some handle) (value : Nat) (other : Labels) :
    exported (store vec handle value) other =
      if other = labels then some value else exported vec other := by
  have stillAttached : child (store vec handle value) labels = some handle := by
    rw [child_store, attached]
  split
  · next equal => rw [equal, exported_of_child stillAttached, read_store]
  · next different =>
      unfold exported
      rw [child_store]
      cases otherFound : child vec other with
      | none => rfl
      | some otherHandle =>
          have handlesDiffer : otherHandle ≠ handle := fun equal =>
            different (child_injective (equal ▸ otherFound) attached)
          simp [read_store_of_ne vec value handlesDiffer]

theorem exported_removeLabelValues [DecidableEq Labels] (vec : Vec)
    (labels other : Labels) :
    exported (removeLabelValues vec labels) other =
      if other = labels then none else exported vec other := by
  unfold exported
  split
  · next equal => simp [equal]
  · next different =>
      rw [child_removeLabelValues_of_ne vec different]
      cases child vec other <;> simp

def update (vec : Vec) (handle : Handle Vec) (change : Nat → Nat) : Vec :=
  store vec handle (change (read vec handle))

def touch (vec : Vec) (labels : Labels) (change : Nat → Nat) : Vec :=
  update (withLabelValues vec labels).1 (withLabelValues vec labels).2 change

theorem exported_touch [DecidableEq Labels] (vec : Vec) (labels other : Labels)
    (change : Nat → Nat) :
    exported (touch vec labels change) other =
      if other = labels then some (change ((exported vec labels).getD 0))
      else exported vec other := by
  have created := exported_withLabelValues vec labels labels
  rw [if_pos rfl, exported_of_child (child_withLabelValues vec labels)] at created
  rw [touch, update, exported_store_of_child (child_withLabelValues vec labels),
    Option.some.inj created]
  split
  · rfl
  · next different => rw [exported_withLabelValues, if_neg different]

end MetricVec

/-! ## Cells

The plainest vector: a table of label values over a store of cells, one for
every series ever created. -/

structure CellVec (Labels : Type) [DecidableEq Labels] where
  children : Dictionary Labels Nat
  cells : Nat → Nat
  next : Nat
  bounded : ∀ {labels cell}, children.lookup labels = some cell → cell < next
  injective : ∀ {left right cell}, children.lookup left = some cell →
    children.lookup right = some cell → left = right

namespace CellVec

variable {Labels : Type} [DecidableEq Labels]

def empty : CellVec Labels where
  children := ∅
  cells := fun _ => 0
  next := 0
  bounded found := by simp at found
  injective found := by simp at found

/-- Add a series at zero, in a cell no earlier series had. -/
def create (vec : CellVec Labels) (labels : Labels) : CellVec Labels where
  children := vec.children.insert labels vec.next
  cells := Function.update vec.cells vec.next 0
  next := vec.next + 1
  bounded := by
    intro other cell found
    rw [Dictionary.lookup_insert_eq] at found
    split at found
    · have := Option.some.inj found
      omega
    · have := vec.bounded found
      omega
  injective := by
    intro left right cell leftFound rightFound
    rw [Dictionary.lookup_insert_eq] at leftFound rightFound
    split at leftFound <;> split at rightFound
    · simp_all
    · have := vec.bounded rightFound
      have := Option.some.inj leftFound
      omega
    · have := vec.bounded leftFound
      have := Option.some.inj rightFound
      omega
    · exact vec.injective leftFound rightFound

private theorem lookup_detached {children : Dictionary Labels Nat}
    {labels other : Labels} {cell : Nat}
    (found : (children.erase labels).lookup other = some cell) :
    children.lookup other = some cell := by
  by_cases equal : other = labels
  · rw [equal, AList.lookup_erase] at found
    cases found
  · rwa [AList.lookup_erase_ne equal] at found

def detach (vec : CellVec Labels) (labels : Labels) : CellVec Labels where
  children := vec.children.erase labels
  cells := vec.cells
  next := vec.next
  bounded found := vec.bounded (lookup_detached found)
  injective leftFound rightFound :=
    vec.injective (lookup_detached leftFound) (lookup_detached rightFound)

instance : MetricVec (CellVec Labels) Labels where
  Handle := Nat
  empty := empty
  withLabelValues vec labels :=
    match vec.children.lookup labels with
    | some cell => (vec, cell)
    | none => (vec.create labels, vec.next)
  removeLabelValues := detach
  store vec cell value := { vec with cells := Function.update vec.cells cell value }
  read vec := vec.cells
  child vec labels := vec.children.lookup labels
  child_empty labels := by simp [empty]
  child_injective {vec _ _ _} := vec.injective
  withLabelValues_of_child found := by simp [found]
  child_withLabelValues vec labels := by
    cases found : vec.children.lookup labels <;> simp [create, found]
  child_withLabelValues_of_ne vec {labels other} different := by
    cases found : vec.children.lookup labels <;>
      simp [create, AList.lookup_insert_ne different]
  read_withLabelValues_new {vec labels} missing := by simp [missing, create]
  read_withLabelValues_of_ne {vec labels handle} different := by
    cases found : vec.children.lookup labels with
    | some cell => rfl
    | none =>
        rw [found] at different
        exact Function.update_of_ne different _ _
  child_store _ _ _ _ := rfl
  read_store vec cell value := Function.update_self _ _ _
  read_store_of_ne vec {cell other} value different :=
    Function.update_of_ne different _ _
  store_read vec cell := by simp
  child_removeLabelValues vec labels := by simp [detach]
  child_removeLabelValues_of_ne vec {labels other} different := by
    simp [detach, AList.lookup_erase_ne different]
  read_removeLabelValues _ _ _ := rfl

end CellVec

end OomWatcher
