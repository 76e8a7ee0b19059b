import Mathlib.Data.List.Basic

/-! # Ring queues and readiness edges

Producers reserve slots in a total order and commit them in any order. A single
consumer reads the slots in order, up to the first busy one. A committed slot
wakes the consumer only when the consumer had reached it. Readiness is
edge-triggered: an edge in flight is delivered at some later time, and readiness
is cleared only through a guard that no later edge has overtaken. -/

namespace OomWatcher

structure Slot (Value : Type) where
  value : Value
  committed : Bool
deriving DecidableEq, Repr

structure RingQueue (Value : Type) where
  /-- Every slot ever reserved, in reservation order. -/
  slots : List (Slot Value)
  consumer : Nat
  released : ∀ index, index < consumer →
    ∃ slot, slots[index]? = some slot ∧ slot.committed = true

namespace RingQueue

variable {Value : Type}

def ofSlots (slots : List (Slot Value)) : RingQueue Value where
  slots := slots
  consumer := 0
  released _ below := absurd below (Nat.not_lt_zero _)

def head (ring : RingQueue Value) : Option (Slot Value) := ring.slots[ring.consumer]?

/-- What the consumer can read. -/
def front (ring : RingQueue Value) : Option Value :=
  (ring.head.filter (·.committed)).map (·.value)

def taken (ring : RingQueue Value) : List Value :=
  (ring.slots.take ring.consumer).map (·.value)

def reserve (ring : RingQueue Value) (value : Value) : RingQueue Value where
  slots := ring.slots ++ [⟨value, false⟩]
  consumer := ring.consumer
  released index below := by
    rcases ring.released index below with ⟨slot, found, committed⟩
    refine ⟨slot, ?_, committed⟩
    rw [List.getElem?_append_left (List.getElem?_eq_some_iff.mp found).1, found]

def commit (ring : RingQueue Value) (index : Nat) : RingQueue Value where
  slots := ring.slots.modify index fun slot => { slot with committed := true }
  consumer := ring.consumer
  released other below := by
    rcases ring.released other below with ⟨slot, found, committed⟩
    rw [List.getElem?_modify, found]
    by_cases own : index = other
    · exact ⟨{ slot with committed := true }, by simp [own], rfl⟩
    · exact ⟨slot, by simp [own], committed⟩

theorem front_eq_some_iff {ring : RingQueue Value} {value : Value} :
    ring.front = some value ↔ ring.slots[ring.consumer]? = some ⟨value, true⟩ := by
  rw [front, head]
  constructor
  · intro found
    rcases Option.map_eq_some_iff.mp found with ⟨⟨_, committed⟩, filtered, rfl⟩
    rcases Option.filter_eq_some_iff.mp filtered with ⟨equal, isCommitted⟩
    rw [equal]
    cases isCommitted
    rfl
  · intro found
    rw [found]
    rfl

def release (ring : RingQueue Value) : RingQueue Value :=
  if readable : ring.front.isSome then
    { slots := ring.slots
      consumer := ring.consumer + 1
      released := by
        intro index below
        rcases Nat.lt_succ_iff_lt_or_eq.mp below with earlier | rfl
        · exact ring.released index earlier
        · rcases Option.isSome_iff_exists.mp readable with ⟨value, found⟩
          exact ⟨⟨value, true⟩, front_eq_some_iff.mp found, rfl⟩ }
  else ring

@[simp] theorem slots_release (ring : RingQueue Value) : ring.release.slots = ring.slots := by
  rw [release]
  split <;> rfl

theorem taken_release {ring : RingQueue Value} {value : Value}
    (readable : ring.front = some value) : ring.release.taken = ring.taken ++ [value] := by
  have found := front_eq_some_iff.mp readable
  have isSome : ring.front.isSome = true := by rw [readable]; rfl
  unfold release taken
  rw [dif_pos isSome, List.take_add_one, found]
  simp

theorem consumer_le (ring : RingQueue Value) : ring.consumer ≤ ring.slots.length := by
  cases position : ring.consumer with
  | zero => exact Nat.zero_le _
  | succ last =>
      rcases ring.released last (by omega) with ⟨_, found, _⟩
      exact (List.getElem?_eq_some_iff.mp found).1

theorem consumer_lt_of_readable {ring : RingQueue Value} {value : Value}
    (readable : ring.front = some value) : ring.consumer < ring.slots.length :=
  (List.getElem?_eq_some_iff.mp (front_eq_some_iff.mp readable)).1

theorem consumer_release {ring : RingQueue Value} {value : Value}
    (readable : ring.front = some value) : ring.release.consumer = ring.consumer + 1 := by
  have isSome : ring.front.isSome = true := by rw [readable]; rfl
  rw [release, dif_pos isSome]

theorem consumer_le_release (ring : RingQueue Value) :
    ring.consumer ≤ ring.release.consumer := by
  rw [release]
  split
  · exact Nat.le_succ _
  · exact Nat.le_refl _

@[simp] theorem taken_reserve (ring : RingQueue Value) (value : Value) :
    (ring.reserve value).taken = ring.taken := by
  unfold taken reserve
  rw [List.take_append_of_le_length ring.consumer_le]

@[simp] theorem front_reserve (ring : RingQueue Value) (value : Value) :
    (ring.reserve value).front = ring.front := by
  unfold front head reserve
  rcases Nat.lt_or_eq_of_le ring.consumer_le with inside | atEnd
  · rw [List.getElem?_append_left inside]
  · simp [atEnd]

theorem values_commit (ring : RingQueue Value) (index : Nat) :
    (ring.commit index).slots.map (·.value) = ring.slots.map (·.value) := by
  apply List.ext_getElem?
  intro other
  rw [commit, List.getElem?_map, List.getElem?_map, List.getElem?_modify, Option.map_eq_map,
    Option.map_map]
  apply congrArg fun change => Option.map change ring.slots[other]?
  funext slot
  by_cases own : index = other <;> simp [own]

theorem slots_commit_reserve (ring : RingQueue Value) (value : Value) :
    ((ring.reserve value).commit ring.slots.length).slots = ring.slots ++ [⟨value, true⟩] := by
  change List.modify (ring.slots ++ [⟨value, false⟩]) ring.slots.length _ = _
  rw [List.modify_eq_take_drop, List.take_left, List.drop_left]
  rfl

@[simp] theorem taken_commit (ring : RingQueue Value) (index : Nat) :
    (ring.commit index).taken = ring.taken := by
  unfold taken
  rw [List.map_take, List.map_take, values_commit]
  rfl

theorem front_commit_of_ne (ring : RingQueue Value) {index : Nat}
    (behind : index ≠ ring.consumer) : (ring.commit index).front = ring.front := by
  have sameHead : (ring.commit index).head = ring.head := List.getElem?_modify_ne _ _ behind
  unfold front
  rw [sameHead]

/-- What was read is a prefix of what was committed, and of what was reserved. -/
theorem taken_prefix (ring : RingQueue Value) :
    ring.taken <+: (ring.slots.filter (·.committed)).map (·.value) ∧
      ring.taken <+: ring.slots.map (·.value) := by
  refine ⟨?_, (List.take_prefix _ _).map _⟩
  have allCommitted : (ring.slots.take ring.consumer).filter (·.committed) =
      ring.slots.take ring.consumer := by
    rw [List.filter_eq_self]
    intro slot member
    rcases List.mem_take_iff_getElem.mp member with ⟨index, below, rfl⟩
    rcases ring.released index (by omega) with ⟨other, found, committed⟩
    rcases List.getElem?_eq_some_iff.mp found with ⟨_, rfl⟩
    exact committed
  have front : ring.slots.take ring.consumer <+: ring.slots.filter (·.committed) := by
    rw [← allCommitted]
    exact (List.take_prefix _ _).filter _
  exact front.map _

end RingQueue

/-! ## Readiness -/

structure Readiness where
  inFlight : Bool
  ready : Bool
  /-- The number of edges delivered. -/
  tick : Nat
deriving DecidableEq, Repr

namespace Readiness

def signal (readiness : Readiness) : Readiness := { readiness with inFlight := true }

def deliver (readiness : Readiness) : Readiness where
  inFlight := false
  ready := true
  tick := readiness.tick + 1

/-- Clear the readiness seen through a guard, unless an edge came in since. -/
def clear (readiness : Readiness) (guard : Nat) : Readiness :=
  if readiness.tick = guard then { readiness with ready := false } else readiness

/-- The consumer is or will be woken. -/
def Wakes (readiness : Readiness) : Prop :=
  readiness.inFlight = true ∨ readiness.ready = true

/-- The consumer is or will be woken by an edge later than the guard. -/
def WakesAfter (readiness : Readiness) (guard : Nat) : Prop :=
  readiness.inFlight = true ∨ readiness.ready = true ∧ guard < readiness.tick

theorem wakes_signal (readiness : Readiness) : readiness.signal.Wakes := .inl rfl

theorem wakesAfter_signal (readiness : Readiness) (guard : Nat) :
    readiness.signal.WakesAfter guard := .inl rfl

theorem wakes_deliver (readiness : Readiness) : readiness.deliver.Wakes := .inr rfl

theorem wakesAfter_deliver {readiness : Readiness} {guard : Nat}
    (obtained : guard ≤ readiness.tick) : readiness.deliver.WakesAfter guard :=
  .inr ⟨rfl, Nat.lt_succ_of_le obtained⟩

theorem WakesAfter.wakes_clear {readiness : Readiness} {guard : Nat}
    (wakes : readiness.WakesAfter guard) : (readiness.clear guard).Wakes := by
  rw [clear]
  rcases wakes with inFlight | ⟨ready, later⟩
  · split <;> exact .inl inFlight
  · rw [if_neg (by omega)]
    exact .inr ready

end Readiness

end OomWatcher
