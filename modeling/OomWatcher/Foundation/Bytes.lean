import Mathlib.Algebra.Order.Ring.Nat
import Mathlib.Data.List.Basic
import Mathlib.Tactic.Ring

/-! # Bytes

Reading and overwriting parts of a buffer, and little-endian numbers. -/

namespace OomWatcher

abbrev Bytes := List UInt8

namespace Bytes

/-! ## Parts of a buffer -/

def slice (buffer : Bytes) (offset size : Nat) : Bytes := (buffer.drop offset).take size

def overwrite (buffer : Bytes) (offset : Nat) (data : Bytes) : Bytes :=
  buffer.take offset ++ data ++ buffer.drop (offset + data.length)

section Overwrite

variable {buffer data : Bytes} {offset : Nat}

theorem getElem?_slice (buffer : Bytes) (offset size index : Nat) :
    (slice buffer offset size)[index]? =
      if index < size then buffer[offset + index]? else none := by
  rw [slice, List.getElem?_take, List.getElem?_drop]

theorem length_slice {size : Nat} (inside : offset + size ≤ buffer.length) :
    (slice buffer offset size).length = size := by
  rw [slice, List.length_take, List.length_drop]
  omega

theorem getElem?_overwrite (inside : offset + data.length ≤ buffer.length) (index : Nat) :
    (overwrite buffer offset data)[index]? =
      if index < offset then buffer[index]?
      else if index < offset + data.length then data[index - offset]?
      else buffer[index]? := by
  have front : (buffer.take offset).length = offset := by
    rw [List.length_take]
    omega
  rw [overwrite, List.append_assoc, List.getElem?_append, front]
  by_cases before : index < offset
  · rw [if_pos before, if_pos before, List.getElem?_take, if_pos before]
  · rw [if_neg before, if_neg before, List.getElem?_append]
    by_cases within : index < offset + data.length
    · rw [if_pos within, if_pos (by omega)]
    · rw [if_neg within, if_neg (by omega), List.getElem?_drop]
      congr 1
      omega

theorem length_overwrite (inside : offset + data.length ≤ buffer.length) :
    (overwrite buffer offset data).length = buffer.length := by
  simp only [overwrite, List.length_append, List.length_take, List.length_drop]
  omega

theorem slice_overwrite (inside : offset + data.length ≤ buffer.length) :
    slice (overwrite buffer offset data) offset data.length = data := by
  apply List.ext_getElem?
  intro index
  rw [getElem?_slice, getElem?_overwrite inside]
  by_cases within : index < data.length
  · rw [if_pos within, if_neg (by omega), if_pos (by omega), Nat.add_sub_cancel_left]
  · rw [if_neg within, List.getElem?_eq_none (Nat.not_lt.mp within)]

theorem overwrite_slice {size : Nat} (inside : offset + size ≤ buffer.length) :
    overwrite buffer offset (slice buffer offset size) = buffer := by
  rw [overwrite, length_slice inside, slice, List.append_assoc, ← List.drop_drop,
    List.take_append_drop, List.take_append_drop]

theorem slice_overwrite_of_disjoint (inside : offset + data.length ≤ buffer.length)
    {other size : Nat} (disjoint : other + size ≤ offset ∨ offset + data.length ≤ other) :
    slice (overwrite buffer offset data) other size = slice buffer other size := by
  apply List.ext_getElem?
  intro index
  rw [getElem?_slice, getElem?_slice, getElem?_overwrite inside]
  by_cases within : index < size
  · rw [if_pos within, if_pos within]
    rcases disjoint with before | behind
    · rw [if_pos (by omega)]
    · rw [if_neg (by omega), if_neg (by omega)]
  · rw [if_neg within, if_neg within]

theorem slice_overwrite_of_inside {other size : Nat} (inside : other + size ≤ buffer.length)
    (notBefore : other ≤ offset) (notBehind : offset + data.length ≤ other + size) :
    slice (overwrite buffer offset data) other size =
      overwrite (slice buffer other size) (offset - other) data := by
  have whole := length_slice inside
  apply List.ext_getElem?
  intro index
  rw [getElem?_slice, getElem?_overwrite (by omega), getElem?_overwrite (by omega), getElem?_slice]
  by_cases within : index < size
  · rw [if_pos within, if_pos within]
    by_cases before : index < offset - other
    · rw [if_pos before, if_pos (by omega)]
    · rw [if_neg before, if_neg (by omega)]
      by_cases written : index < offset - other + data.length
      · rw [if_pos written, if_pos (by omega)]
        congr 1
        omega
      · rw [if_neg written, if_neg (by omega)]
  · rw [if_neg within, if_neg within, if_neg (by omega), if_neg (by omega)]

theorem slice_slice {other size : Nat} {length : Nat} (inside : other + size ≤ length) :
    slice (slice buffer offset length) other size = slice buffer (offset + other) size := by
  apply List.ext_getElem?
  intro index
  rw [getElem?_slice, getElem?_slice, getElem?_slice]
  by_cases within : index < size
  · rw [if_pos within, if_pos within, if_pos (by omega), Nat.add_assoc]
  · rw [if_neg within, if_neg within]

theorem slice_append {size : Nat} (inside : offset + size ≤ buffer.length) (rest : Bytes) :
    slice (buffer ++ rest) offset size = slice buffer offset size := by
  apply List.ext_getElem?
  intro index
  rw [getElem?_slice, getElem?_slice]
  by_cases within : index < size
  · rw [if_pos within, if_pos within, List.getElem?_append_left (by omega)]
  · rw [if_neg within, if_neg within]

end Overwrite

/-! ## Little-endian numbers -/

def ofLittleEndian : Bytes → Nat
  | [] => 0
  | byte :: rest => byte.toNat + 256 * ofLittleEndian rest

def littleEndian : Nat → Nat → Bytes
  | 0, _ => []
  | size + 1, value => UInt8.ofNat value :: littleEndian size (value / 256)

@[simp] theorem length_littleEndian (size value : Nat) :
    (littleEndian size value).length = size := by
  induction size generalizing value with
  | zero => rfl
  | succ size induction => rw [littleEndian, List.length_cons, induction]

theorem ofLittleEndian_lt (bytes : Bytes) : ofLittleEndian bytes < 256 ^ bytes.length := by
  induction bytes with
  | nil => exact Nat.one_pos
  | cons byte rest induction =>
      have small : byte.toNat < 256 := byte.toNat_lt
      rw [ofLittleEndian, List.length_cons, Nat.pow_succ]
      omega

theorem ofLittleEndian_littleEndian (size value : Nat) :
    ofLittleEndian (littleEndian size value) = value % 256 ^ size := by
  induction size generalizing value with
  | zero => rw [Nat.pow_zero, Nat.mod_one]; rfl
  | succ size induction =>
      have split : value % 256 ^ (size + 1) = value % 256 + 256 * (value / 256 % 256 ^ size) := by
        rw [Nat.pow_succ', Nat.mod_mul]
      rw [littleEndian, ofLittleEndian, induction, UInt8.toNat_ofNat', split]

theorem ofLittleEndian_of_lt {size value : Nat} (fits : value < 256 ^ size) :
    ofLittleEndian (littleEndian size value) = value := by
  rw [ofLittleEndian_littleEndian, Nat.mod_eq_of_lt fits]

theorem littleEndian_ofLittleEndian (bytes : Bytes) :
    littleEndian bytes.length (ofLittleEndian bytes) = bytes := by
  induction bytes with
  | nil => rfl
  | cons byte rest induction =>
      have small : byte.toNat < 256 := byte.toNat_lt
      have head : UInt8.ofNat (byte.toNat + 256 * ofLittleEndian rest) = byte := by
        apply UInt8.toNat_inj.mp
        rw [UInt8.toNat_ofNat']
        omega
      have tail : (byte.toNat + 256 * ofLittleEndian rest) / 256 = ofLittleEndian rest := by
        omega
      rw [ofLittleEndian, List.length_cons, littleEndian, head, tail, induction]

@[simp] theorem ofLittleEndian_replicate_zero (size : Nat) :
    ofLittleEndian (List.replicate size 0) = 0 := by
  induction size with
  | zero => rfl
  | succ size induction =>
      rw [List.replicate_succ, ofLittleEndian, induction]
      rfl

theorem ofLittleEndian_append (low high : Bytes) :
    ofLittleEndian (low ++ high) =
      ofLittleEndian low + 256 ^ low.length * ofLittleEndian high := by
  induction low with
  | nil => simp [ofLittleEndian]
  | cons byte rest induction =>
      rw [List.cons_append, ofLittleEndian, ofLittleEndian, induction, List.length_cons,
        Nat.pow_succ]
      ring

def marked (length index : Nat) : Bytes := overwrite (List.replicate length 0) index [1]

theorem length_marked {length index : Nat} (inside : index < length) :
    (marked length index).length = length := by
  have fits : index + ([1] : Bytes).length ≤ (List.replicate length (0 : UInt8)).length := by
    rw [List.length_replicate]
    exact inside
  rw [marked, length_overwrite fits, List.length_replicate]

theorem ofLittleEndian_marked {length index : Nat} (inside : index < length) :
    ofLittleEndian (marked length index) = 256 ^ index := by
  have front : (List.replicate length (0 : UInt8)).take index = List.replicate index 0 := by
    rw [List.take_replicate, Nat.min_eq_left (Nat.le_of_lt inside)]
  rw [marked, overwrite, front, List.drop_replicate, ofLittleEndian_append, ofLittleEndian_append]
  simp [ofLittleEndian]

theorem ofLittleEndian_slice_marked {length index offset size : Nat} (marks : index < length)
    (inside : offset + size ≤ length) :
    ofLittleEndian (slice (marked length index) offset size) =
      if offset ≤ index ∧ index < offset + size then 256 ^ (index - offset) else 0 := by
  have zeros : slice (List.replicate length 0) offset size = List.replicate size 0 := by
    rw [slice, List.drop_replicate, List.take_replicate, Nat.min_eq_left (by omega)]
  have fits : index + ([1] : Bytes).length ≤ (List.replicate length (0 : UInt8)).length := by
    rw [List.length_replicate]
    exact marks
  split
  · next covers =>
      have sliced : slice (marked length index) offset size = marked size (index - offset) := by
        rw [marked, slice_overwrite_of_inside (by rwa [List.length_replicate]) covers.1 covers.2,
          zeros, marked]
      rw [sliced, ofLittleEndian_marked (by omega)]
  · next misses =>
      have disjoint : offset + size ≤ index ∨ index + ([1] : Bytes).length ≤ offset := by
        rw [List.length_singleton]
        omega
      rw [marked, slice_overwrite_of_disjoint fits disjoint, zeros, ofLittleEndian_replicate_zero]

/-! ## Two's complement -/

def signed (size value : Nat) : Int :=
  if 2 * value < 256 ^ size then value else value - (256 ^ size : Nat)

def unsigned (size : Nat) (value : Int) : Nat := (value % (256 ^ size : Nat)).toNat

theorem unsigned_signed {size value : Nat} (fits : value < 256 ^ size) :
    unsigned size (signed size value) = value := by
  unfold unsigned signed
  have wraps : ((value : Int) - (256 ^ size : Nat)) % (256 ^ size : Nat) =
      (value : Int) % (256 ^ size : Nat) := Int.sub_emod_right _ _
  split
  · rw [← Int.natCast_mod, Int.toNat_natCast, Nat.mod_eq_of_lt fits]
  · rw [wraps, ← Int.natCast_mod, Int.toNat_natCast, Nat.mod_eq_of_lt fits]

theorem unsigned_lt (size : Nat) (value : Int) : unsigned size value < 256 ^ size := by
  have positive : (0 : Int) < (256 ^ size : Nat) := by exact_mod_cast Nat.pow_pos (by decide)
  have bound := Int.emod_lt_of_pos value positive
  have nonneg := Int.emod_nonneg value (ne_of_gt positive)
  unfold unsigned
  omega

theorem signed_range {size value : Nat} (fits : value < 256 ^ size) :
    -(256 ^ size : Nat) ≤ 2 * signed size value ∧ 2 * signed size value < (256 ^ size : Nat) := by
  unfold signed
  split <;> omega

theorem signed_unsigned {size : Nat} {value : Int} (least : -(256 ^ size : Nat) ≤ 2 * value)
    (greatest : 2 * value < (256 ^ size : Nat)) : signed size (unsigned size value) = value := by
  unfold signed unsigned
  rcases lt_or_ge value 0 with negative | nonneg
  · have wraps : value % (256 ^ size : Nat) = value + (256 ^ size : Nat) := by
      rw [← Int.add_emod_right, Int.emod_eq_of_lt] <;> omega
    rw [wraps, if_neg] <;> omega
  · rw [Int.emod_eq_of_lt nonneg (by omega), if_pos] <;> omega

end Bytes

end OomWatcher
