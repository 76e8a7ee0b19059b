import OomWatcher.Foundation.Dictionary

/-! # Reflectors

A reflector mirrors a keyed collection from the events of a watch. A list fills
a buffer, which replaces the store when the list is complete, and single changes
edit the store. A latch opens at the first complete list. -/

namespace OomWatcher

structure KeyedStore {Key Object : Type} (keyOf : Object → Key) where
  objects : Dictionary Key Object
  keyed : ∀ entry ∈ objects.entries, keyOf entry.2 = entry.1

namespace KeyedStore

variable {Key Object : Type} {keyOf : Object → Key}

def empty : KeyedStore keyOf where
  objects := ∅
  keyed _ member := nomatch member

/-- The stored objects, in iteration order. -/
def state (store : KeyedStore keyOf) : List Object := store.objects.entries.map (·.2)

def Holds (store : KeyedStore keyOf) (key : Key) : Prop := key ∈ store.objects

section Edits

variable [DecidableEq Key]

instance (store : KeyedStore keyOf) (key : Key) : Decidable (store.Holds key) :=
  inferInstanceAs (Decidable (key ∈ store.objects))

def insert (store : KeyedStore keyOf) (object : Object) : KeyedStore keyOf where
  objects := store.objects.insert (keyOf object) object
  keyed entry member := by
    rw [AList.entries_insert] at member
    rcases List.mem_cons.mp member with rfl | kept
    · rfl
    · exact store.keyed entry ((List.kerase_sublist _ _).subset kept)

def erase (store : KeyedStore keyOf) (object : Object) : KeyedStore keyOf where
  objects := store.objects.erase (keyOf object)
  keyed entry member := store.keyed entry ((List.kerase_sublist _ _).subset member)

@[simp] theorem holds_insert (store : KeyedStore keyOf) (object : Object) (key : Key) :
    (store.insert object).Holds key ↔ key = keyOf object ∨ store.Holds key :=
  AList.mem_insert store.objects

@[simp] theorem holds_erase (store : KeyedStore keyOf) (object : Object) (key : Key) :
    (store.erase object).Holds key ↔ key ≠ keyOf object ∧ store.Holds key :=
  AList.mem_erase

theorem eq_or_mem_of_mem_insert {store : KeyedStore keyOf} {object other : Object}
    (stored : other ∈ (store.insert object).state) : other = object ∨ other ∈ store.state := by
  rcases List.mem_map.mp stored with ⟨entry, member, rfl⟩
  change entry ∈ (store.objects.insert (keyOf object) object).entries at member
  rw [AList.entries_insert] at member
  rcases List.mem_cons.mp member with rfl | kept
  · exact .inl rfl
  · exact .inr (List.mem_map_of_mem ((List.kerase_sublist _ _).subset kept))

theorem mem_of_mem_erase {store : KeyedStore keyOf} {object other : Object}
    (stored : other ∈ (store.erase object).state) : other ∈ store.state := by
  rcases List.mem_map.mp stored with ⟨entry, member, rfl⟩
  exact List.mem_map_of_mem ((List.kerase_sublist _ _).subset member)

end Edits

end KeyedStore

/-- What a watch reports: a list, between its start and its end, and single
changes. -/
inductive WatchEvent (Object : Type)
  | init
  | initApply (object : Object)
  | initDone
  | apply (object : Object)
  | delete (object : Object)
deriving DecidableEq, Repr

def WatchEvent.modify {Object : Type} (change : Object → Object) :
    WatchEvent Object → WatchEvent Object
  | .init => .init
  | .initApply object => .initApply (change object)
  | .initDone => .initDone
  | .apply object => .apply (change object)
  | .delete object => .delete (change object)

/-- The object an event puts into the store or the buffer. -/
def WatchEvent.delivered {Object : Type} : WatchEvent Object → Option Object
  | .initApply object | .apply object => some object
  | .init | .initDone | .delete _ => none

theorem WatchEvent.delivered_modify {Object : Type} (change : Object → Object)
    (event : WatchEvent Object) :
    (event.modify change).delivered = event.delivered.map change := by
  cases event <;> rfl

/-- Whether a reader knows the store to hold a complete list. It is abandoned
when the writer goes away before that. -/
inductive InitLatch
  | waiting
  | ready
  | abandoned
deriving DecidableEq, Repr

def InitLatch.opened : InitLatch → InitLatch
  | .waiting | .ready => .ready
  | .abandoned => .abandoned

structure Reflector {Key Object : Type} (keyOf : Object → Key) where
  store : KeyedStore keyOf
  /-- The part of a list that has arrived. -/
  buffer : KeyedStore keyOf
  latch : InitLatch

namespace Reflector

variable {Key Object : Type} {keyOf : Object → Key}

def new : Reflector keyOf where
  store := .empty
  buffer := .empty
  latch := .waiting

variable [DecidableEq Key]

def applyWatcherEvent (reflector : Reflector keyOf) : WatchEvent Object → Reflector keyOf
  | .init => { reflector with buffer := .empty }
  | .initApply object => { reflector with buffer := reflector.buffer.insert object }
  | .initDone =>
      { store := reflector.buffer, buffer := .empty, latch := reflector.latch.opened }
  | .apply object => { reflector with store := reflector.store.insert object }
  | .delete object => { reflector with store := reflector.store.erase object }

theorem departs_iff {reflector : Reflector keyOf} {event : WatchEvent Object} {key : Key}
    (held : reflector.store.Holds key) :
    ¬ (reflector.applyWatcherEvent event).store.Holds key ↔
      (∃ object, event = .delete object ∧ keyOf object = key) ∨
        (event = .initDone ∧ ¬ reflector.buffer.Holds key) := by
  cases event with
  | init => simp [applyWatcherEvent, held]
  | initApply object => simp [applyWatcherEvent, held]
  | initDone => simp [applyWatcherEvent]
  | apply object => simp [applyWatcherEvent, held]
  | delete object => simp [applyWatcherEvent, held, eq_comm]

structure HoldsOnly (Allowed : Object → Prop) (reflector : Reflector keyOf) : Prop where
  stored : ∀ object ∈ reflector.store.state, Allowed object
  buffered : ∀ object ∈ reflector.buffer.state, Allowed object

omit [DecidableEq Key] in
theorem holdsOnly_new (Allowed : Object → Prop) :
    HoldsOnly Allowed (new : Reflector keyOf) where
  stored _ member := nomatch member
  buffered _ member := nomatch member

theorem HoldsOnly.applyWatcherEvent {Allowed : Object → Prop} {reflector : Reflector keyOf}
    (holds : reflector.HoldsOnly Allowed) {event : WatchEvent Object}
    (delivered : ∀ object, event.delivered = some object → Allowed object) :
    (reflector.applyWatcherEvent event).HoldsOnly Allowed := by
  cases event with
  | init => exact ⟨holds.stored, fun _ member => nomatch member⟩
  | initApply object =>
      refine ⟨holds.stored, fun other member => ?_⟩
      rcases KeyedStore.eq_or_mem_of_mem_insert member with rfl | older
      · exact delivered other rfl
      · exact holds.buffered other older
  | initDone => exact ⟨holds.buffered, fun _ member => nomatch member⟩
  | apply object =>
      refine ⟨fun other member => ?_, holds.buffered⟩
      rcases KeyedStore.eq_or_mem_of_mem_insert member with rfl | older
      · exact delivered other rfl
      · exact holds.stored other older
  | delete object =>
      exact ⟨fun other member => holds.stored other (KeyedStore.mem_of_mem_erase member),
        holds.buffered⟩

theorem not_holds_delete (reflector : Reflector keyOf) (object : Object) :
    ¬ (reflector.applyWatcherEvent (.delete object)).store.Holds (keyOf object) := by
  simp [applyWatcherEvent]

end Reflector

/-! ## The events of a watch -/

section History

variable {Key Object : Type} (keyOf : Object → Key) [DecidableEq Key]

/-- What the list in progress has under a key. Events are listed with the most
recent first. -/
def listed (key : Key) : List (WatchEvent Object) → Option Object
  | [] | .init :: _ | .initDone :: _ => none
  | .initApply object :: earlier =>
      if key = keyOf object then some object else listed key earlier
  | .apply _ :: earlier | .delete _ :: earlier => listed key earlier

/-- What the last complete list has under a key, edited by the changes since. -/
def mirrored (key : Key) : List (WatchEvent Object) → Option Object
  | [] => none
  | .init :: earlier | .initApply _ :: earlier => mirrored key earlier
  | .initDone :: earlier => listed keyOf key earlier
  | .apply object :: earlier =>
      if key = keyOf object then some object else mirrored key earlier
  | .delete object :: earlier =>
      if key = keyOf object then none else mirrored key earlier

variable {keyOf}

theorem keyOf_of_listed {key : Key} {events : List (WatchEvent Object)} {object : Object}
    (found : listed keyOf key events = some object) : keyOf object = key := by
  induction events with
  | nil => cases found
  | cons event earlier induction =>
      cases event with
      | init => cases found
      | initApply latest =>
          rw [listed] at found
          split at found
          · next own =>
              cases found
              exact own.symm
          · exact induction found
      | initDone => cases found
      | apply latest => exact induction found
      | delete latest => exact induction found

theorem keyOf_of_mirrored {key : Key} {events : List (WatchEvent Object)} {object : Object}
    (found : mirrored keyOf key events = some object) : keyOf object = key := by
  induction events with
  | nil => cases found
  | cons event earlier induction =>
      cases event with
      | init => exact induction found
      | initApply latest => exact induction found
      | initDone => exact keyOf_of_listed found
      | apply latest =>
          rw [mirrored] at found
          split at found
          · next own =>
              cases found
              exact own.symm
          · exact induction found
      | delete latest =>
          rw [mirrored] at found
          split at found
          · cases found
          · exact induction found

/-- The reflector holds what the events say, each object rewritten. -/
structure Reflector.Mirrors (change : Object → Object) (events : List (WatchEvent Object))
    (reflector : Reflector keyOf) : Prop where
  store : ∀ key, reflector.store.objects.lookup key = (mirrored keyOf key events).map change
  buffer : ∀ key, reflector.buffer.objects.lookup key = (listed keyOf key events).map change
  ready : .initDone ∈ events → reflector.latch = .ready
  waiting : .initDone ∉ events → reflector.latch = .waiting

theorem Reflector.mirrors_new (change : Object → Object) :
    Reflector.Mirrors change [] (Reflector.new : Reflector keyOf) where
  store _ := rfl
  buffer _ := rfl
  ready member := nomatch member
  waiting _ := rfl

theorem Reflector.Mirrors.applyWatcherEvent {change : Object → Object}
    (keeps : ∀ object, keyOf (change object) = keyOf object)
    {events : List (WatchEvent Object)} {reflector : Reflector keyOf}
    (mirrors : reflector.Mirrors change events) (event : WatchEvent Object) :
    (reflector.applyWatcherEvent (event.modify change)).Mirrors change (event :: events) := by
  have stillReady : .initDone ∈ event :: events → event ≠ .initDone →
      reflector.latch = .ready := fun member other =>
    mirrors.ready ((List.mem_cons.mp member).resolve_left (Ne.symm other))
  have stillWaiting : .initDone ∉ event :: events → reflector.latch = .waiting :=
    fun absent => mirrors.waiting fun member => absent (List.mem_cons_of_mem _ member)
  cases event with
  | init =>
      exact ⟨mirrors.store, fun _ => rfl, fun member => stillReady member nofun, stillWaiting⟩
  | initApply object =>
      refine ⟨mirrors.store, ?_, fun member => stillReady member nofun, stillWaiting⟩
      intro key
      change (reflector.buffer.objects.insert (keyOf (change object)) (change object)).lookup
        key = _
      rw [Dictionary.lookup_insert_eq, keeps, listed, mirrors.buffer]
      split <;> rfl
  | initDone =>
      refine ⟨mirrors.buffer, fun _ => rfl, ?_, fun absent => absurd List.mem_cons_self absent⟩
      intro _
      change reflector.latch.opened = .ready
      by_cases before : .initDone ∈ events
      · rw [mirrors.ready before]
        rfl
      · rw [mirrors.waiting before]
        rfl
  | apply object =>
      refine ⟨?_, mirrors.buffer, fun member => stillReady member nofun, stillWaiting⟩
      intro key
      change (reflector.store.objects.insert (keyOf (change object)) (change object)).lookup key = _
      rw [Dictionary.lookup_insert_eq, keeps, mirrored, mirrors.store]
      split <;> rfl
  | delete object =>
      refine ⟨?_, mirrors.buffer, fun member => stillReady member nofun, stillWaiting⟩
      intro key
      change (reflector.store.objects.erase (keyOf (change object))).lookup key = _
      rw [keeps, mirrored]
      split
      · next own => rw [own, AList.lookup_erase, Option.map_none]
      · next other => rw [AList.lookup_erase_ne other, mirrors.store]

theorem KeyedStore.exists_originals {store : KeyedStore keyOf}
    {change : Object → Object} {live : Key → Option Object}
    (rewrites : ∀ key, store.objects.lookup key = (live key).map change)
    (keyed : ∀ key object, live key = some object → keyOf object = key) :
    ∃ originals : List Object, originals.map change = store.state ∧
      (originals.map keyOf).Nodup ∧
        ∀ object, object ∈ originals ↔ live (keyOf object) = some object := by
  have original : ∀ entry ∈ store.objects.entries,
      ∃ object, live entry.1 = some object ∧ change object = entry.2 := by
    intro entry member
    have found : store.objects.lookup entry.1 = some entry.2 := AList.mem_lookup_iff.mpr member
    rw [rewrites] at found
    exact Option.map_eq_some_iff.mp found
  refine ⟨store.objects.entries.filterMap fun entry => live entry.1, ?_, ?_, ?_⟩
  · rw [KeyedStore.state, List.map_filterMap, ← List.filterMap_eq_map]
    apply List.filterMap_congr
    intro entry member
    rcases original entry member with ⟨object, isLive, rewritten⟩
    rw [isLive, Option.map_some, rewritten]
    rfl
  · have keys : (store.objects.entries.filterMap fun entry => live entry.1).map keyOf =
        store.objects.keys := by
      rw [AList.keys, List.keys, List.map_filterMap, ← List.filterMap_eq_map]
      apply List.filterMap_congr
      intro entry member
      rcases original entry member with ⟨object, isLive, _⟩
      rw [isLive, Option.map_some, keyed _ _ isLive]
      rfl
    rw [keys]
    exact store.objects.keys_nodup
  · intro object
    rw [List.mem_filterMap]
    constructor
    · intro listed
      rcases listed with ⟨entry, _, isLive⟩
      rw [keyed _ _ isLive, isLive]
    · intro isLive
      have found := rewrites (keyOf object)
      rw [isLive, Option.map_some] at found
      exact ⟨⟨keyOf object, change object⟩, AList.mem_lookup_iff.mp found, isLive⟩

end History

theorem exists_turning_step {State Input : Type} (step : State → Input → State)
    (Holds : State → Prop) {start : State} {inputs : List Input} (atStart : Holds start)
    (atEnd : ¬ Holds (inputs.foldl step start)) :
    ∃ earlier input later, inputs = earlier ++ input :: later ∧
      Holds (earlier.foldl step start) ∧ ¬ Holds (step (earlier.foldl step start) input) := by
  induction inputs generalizing start with
  | nil => exact absurd atStart atEnd
  | cons input inputs induction =>
      by_cases kept : Holds (step start input)
      · rcases induction kept atEnd with ⟨earlier, turning, later, rfl, holds, fails⟩
        exact ⟨input :: earlier, turning, later, rfl, holds, fails⟩
      · exact ⟨[], input, inputs, rfl, atStart, kept⟩

end OomWatcher
