import OomWatcher.Foundation.Bytes

/-! # The layout of a C struct

Where `repr(C)` places the members of a struct, and reading and writing them all
in a buffer. -/

namespace OomWatcher

structure CType where
  size : Nat
  align : Nat
  aligned : 0 < align

namespace CType

def u8 : CType := ⟨1, 1, by decide⟩

def u16 : CType := ⟨2, 2, by decide⟩

def i16 : CType := u16

def u32 : CType := ⟨4, 4, by decide⟩

def i32 : CType := u32

def u64 : CType := ⟨8, 8, by decide⟩

def array (element : CType) (length : Nat) : CType where
  size := length * element.size
  align := element.align
  aligned := element.aligned

end CType

structure Place where
  offset : Nat
  size : Nat
deriving DecidableEq, Repr

namespace Place

def stop (place : Place) : Nat := place.offset + place.size

def read (place : Place) (buffer : Bytes) : Bytes := buffer.slice place.offset place.size

def number (place : Place) (buffer : Bytes) : Nat := Bytes.ofLittleEndian (place.read buffer)

theorem number_lt {place : Place} {buffer : Bytes} (inside : place.stop ≤ buffer.length) :
    place.number buffer < 256 ^ place.size := by
  have bound := Bytes.ofLittleEndian_lt (place.read buffer)
  rwa [read, Bytes.length_slice inside] at bound

theorem number_marked {place : Place} {length index : Nat} (marks : index < length)
    (inside : place.stop ≤ length) :
    place.number (Bytes.marked length index) =
      if place.offset ≤ index ∧ index < place.stop then 256 ^ (index - place.offset) else 0 :=
  Bytes.ofLittleEndian_slice_marked marks inside

theorem eq_of_same_numbers {left right : Place} (bound : Nat) (nonempty : 0 < right.size)
    (same : ∀ buffer : Bytes, bound ≤ buffer.length → left.stop ≤ buffer.length →
      right.stop ≤ buffer.length → left.number buffer = right.number buffer) : left = right := by
  have agree {index : Nat} (marks : index < bound + left.stop + right.stop) :
      (if left.offset ≤ index ∧ index < left.stop then 256 ^ (index - left.offset) else 0) =
        if right.offset ≤ index ∧ index < right.stop then 256 ^ (index - right.offset) else 0 := by
    have length := Bytes.length_marked marks
    have sameNumber := same (Bytes.marked (bound + left.stop + right.stop) index)
      (by omega) (by omega) (by omega)
    rwa [number_marked marks (by omega), number_marked marks (by omega)] at sameNumber
  have covered (index : Nat) (marks : index < bound + left.stop + right.stop) :
      (left.offset ≤ index ∧ index < left.stop) ↔ (right.offset ≤ index ∧ index < right.stop) := by
    have sameNumber := agree marks
    have leftPositive : 0 < 256 ^ (index - left.offset) := Nat.pow_pos (by decide)
    have rightPositive : 0 < 256 ^ (index - right.offset) := Nat.pow_pos (by decide)
    constructor
    · intro covers
      by_contra misses
      rw [if_pos covers, if_neg misses] at sameNumber
      omega
    · intro covers
      by_contra misses
      rw [if_neg misses, if_pos covers] at sameNumber
      omega
  simp only [stop] at covered
  have atStart := covered right.offset (by omega)
  have atEnd := covered (right.offset + right.size - 1) (by omega)
  have atOtherStart := covered left.offset (by omega)
  have atOtherEnd := covered (left.offset + left.size - 1) (by omega)
  cases left
  cases right
  simp only [Place.mk.injEq] at *
  omega

end Place

/-! ## Placing members -/

/-- The first multiple of `align` that is not before `offset`. -/
def roundUp (offset align : Nat) : Nat := (offset + (align - 1)) / align * align

theorem le_roundUp (offset : Nat) {align : Nat} (positive : 0 < align) :
    offset ≤ roundUp offset align := by
  have split := Nat.div_add_mod' (offset + (align - 1)) align
  have rest := Nat.mod_lt (offset + (align - 1)) positive
  unfold roundUp
  omega

def placesFrom (next : Nat) : List CType → List Place
  | [] => []
  | type :: rest =>
      let place : Place := ⟨roundUp next type.align, type.size⟩
      place :: placesFrom place.stop rest

def endFrom (next : Nat) : List CType → Nat
  | [] => next
  | type :: rest => endFrom (roundUp next type.align + type.size) rest

def structAlign (types : List CType) : Nat := (types.map CType.align).foldr max 1

def structSize (types : List CType) : Nat := roundUp (endFrom 0 types) (structAlign types)

theorem le_endFrom (next : Nat) (types : List CType) : next ≤ endFrom next types := by
  induction types generalizing next with
  | nil => exact Nat.le_refl _
  | cons type rest induction =>
      have rounded := le_roundUp next type.aligned
      have later := induction (roundUp next type.align + type.size)
      rw [endFrom]
      omega

theorem within_of_mem_placesFrom {next : Nat} {types : List CType} {place : Place}
    (member : place ∈ placesFrom next types) :
    next ≤ place.offset ∧ place.stop ≤ endFrom next types := by
  induction types generalizing next with
  | nil => cases member
  | cons type rest induction =>
      have rounded := le_roundUp next type.aligned
      rcases List.mem_cons.mp member with rfl | later
      · exact ⟨rounded, le_endFrom _ rest⟩
      · have within := induction later
        refine ⟨?_, within.2⟩
        simp only [Place.stop] at within
        omega

theorem placesFrom_ordered (next : Nat) (types : List CType) :
    (placesFrom next types).Pairwise fun left right => left.stop ≤ right.offset := by
  induction types generalizing next with
  | nil => exact List.Pairwise.nil
  | cons type rest induction =>
      apply List.Pairwise.cons
      · exact fun later member => (within_of_mem_placesFrom member).1
      · exact induction _

theorem structAlign_pos (types : List CType) : 0 < structAlign types := by
  induction types with
  | nil => exact Nat.one_pos
  | cons type rest induction => exact lt_max_of_lt_right induction

theorem stop_le_structSize {types : List CType} {place : Place}
    (member : place ∈ placesFrom 0 types) : place.stop ≤ structSize types :=
  (within_of_mem_placesFrom member).2.trans (le_roundUp _ (structAlign_pos types))

theorem sizes_placesFrom (next : Nat) (types : List CType) :
    (placesFrom next types).map Place.size = types.map CType.size := by
  induction types generalizing next with
  | nil => rfl
  | cons type rest induction => exact congrArg (type.size :: ·) (induction _)

/-! ## Reading and writing members -/

def readMembers (places : List Place) (buffer : Bytes) : List Bytes :=
  places.map fun place => place.read buffer

/-- Write each value to its place. What no place covers is left as it is. -/
def writeMembers (buffer : Bytes) : List Place → List Bytes → Bytes
  | place :: places, value :: values =>
      writeMembers (buffer.overwrite place.offset value) places values
  | [], _ | _, [] => buffer

structure Fits (buffer : Bytes) (places : List Place) (values : List Bytes) : Prop where
  sizes : places.map Place.size = values.map List.length
  inside : ∀ place ∈ places, place.stop ≤ buffer.length

section Members

variable {buffer value : Bytes} {place : Place} {places : List Place} {values : List Bytes}

theorem Fits.head (fits : Fits buffer (place :: places) (value :: values)) :
    place.size = value.length ∧ place.offset + value.length ≤ buffer.length := by
  have inside := fits.inside place List.mem_cons_self
  have size := (List.cons.inj fits.sizes).1
  rw [Place.stop, size] at inside
  exact ⟨size, inside⟩

theorem Fits.tail (fits : Fits buffer (place :: places) (value :: values)) :
    Fits (buffer.overwrite place.offset value) places values where
  sizes := (List.cons.inj fits.sizes).2
  inside other member := by
    rw [Bytes.length_overwrite fits.head.2]
    exact fits.inside other (List.mem_cons_of_mem _ member)

theorem length_writeMembers (fits : Fits buffer places values) :
    (writeMembers buffer places values).length = buffer.length := by
  induction places generalizing buffer values with
  | nil => rfl
  | cons place places induction =>
      cases values with
      | nil => rfl
      | cons value values =>
          rw [writeMembers, induction fits.tail, Bytes.length_overwrite fits.head.2]

theorem read_writeMembers_of_before (fits : Fits buffer places values) {other : Place}
    (before : ∀ place ∈ places, other.stop ≤ place.offset) :
    other.read (writeMembers buffer places values) = other.read buffer := by
  induction places generalizing buffer values with
  | nil => rfl
  | cons place places induction =>
      cases values with
      | nil => rfl
      | cons value values =>
          rw [writeMembers,
            induction fits.tail fun later member => before later (List.mem_cons_of_mem _ member)]
          exact Bytes.slice_overwrite_of_disjoint fits.head.2
            (.inl (before place List.mem_cons_self))

/-- What was written is read back, whatever was in the buffer and whatever
follows it. -/
theorem readMembers_writeMembers (fits : Fits buffer places values)
    (ordered : places.Pairwise fun left right => left.stop ≤ right.offset) (rest : Bytes) :
    readMembers places (writeMembers buffer places values ++ rest) = values := by
  induction places generalizing buffer values with
  | nil =>
      have noValues := fits.sizes
      rw [List.map_nil, eq_comm, List.map_eq_nil_iff] at noValues
      rw [noValues]
      rfl
  | cons place places induction =>
      cases values with
      | nil => exact absurd fits.sizes (List.cons_ne_nil _ _)
      | cons value values =>
          rcases List.pairwise_cons.mp ordered with ⟨before, orderedRest⟩
          have own : place.read (writeMembers (buffer.overwrite place.offset value) places values
              ++ rest) = value := by
            have inside : place.offset + place.size ≤
                (writeMembers (buffer.overwrite place.offset value) places values).length := by
              rw [length_writeMembers fits.tail, Bytes.length_overwrite fits.head.2]
              exact fits.inside place List.mem_cons_self
            calc
              _ = place.read (writeMembers (buffer.overwrite place.offset value) places values) :=
                Bytes.slice_append inside rest
              _ = place.read (buffer.overwrite place.offset value) :=
                read_writeMembers_of_before fits.tail before
              _ = value := by
                rw [Place.read, fits.head.1]
                exact Bytes.slice_overwrite fits.head.2
          exact congrArg₂ List.cons own (induction fits.tail orderedRest)

theorem writeMembers_readMembers (inside : ∀ place ∈ places, place.stop ≤ buffer.length) :
    writeMembers buffer places (readMembers places buffer) = buffer := by
  induction places with
  | nil => rfl
  | cons place places induction =>
      change writeMembers (buffer.overwrite place.offset (place.read buffer)) places
        (readMembers places buffer) = buffer
      rw [Place.read, Bytes.overwrite_slice (inside place List.mem_cons_self)]
      exact induction fun other member => inside other (List.mem_cons_of_mem _ member)

end Members

/-! ## Named members -/

abbrev CStruct := List (String × CType)

namespace CStruct

def types (struct : CStruct) : List CType := struct.map Prod.snd

def places (struct : CStruct) : List Place := placesFrom 0 struct.types

def size (struct : CStruct) : Nat := structSize struct.types

def placeOf (struct : CStruct) (name : String) : Option Place :=
  ((struct.map Prod.fst).zip struct.places).lookup name

def read (struct : CStruct) (buffer : Bytes) (name : String) : Bytes :=
  (struct.placeOf name).elim [] fun place => place.read buffer

def number (struct : CStruct) (buffer : Bytes) (name : String) : Nat :=
  Bytes.ofLittleEndian (struct.read buffer name)

end CStruct

end OomWatcher
