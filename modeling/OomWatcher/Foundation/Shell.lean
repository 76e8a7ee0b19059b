import Mathlib.Algebra.Order.Ring.Nat
import Mathlib.Data.List.TakeWhile
import OomWatcher.Foundation.Text

/-! # Shell words

The parameter expansions and the integer tests of a shell, each on the words it
is given decimal numbers in. -/

namespace OomWatcher.Shell

/-! ## Parameter expansion -/

/-- `${text%%mark*}`. -/
def beforeFirst (mark : Char) (text : Text) : Text := text.takeWhile (· != mark)

/-- `${text#*mark}`. Text without the mark is left as it is. -/
def afterFirst (mark : Char) (text : Text) : Text :=
  match Text.splitOnce mark text with
  | some (_, after) => after
  | none => text

variable {mark : Char} {before : Text}

theorem beforeFirst_append (absent : mark ∉ before) {tail : Text}
    (marked : ∀ char ∈ tail.head?, char = mark) : beforeFirst mark (before ++ tail) = before := by
  have passes : ∀ char ∈ before, (char != mark) = true := fun char member =>
    bne_iff_ne.mpr fun isMark => absent (isMark ▸ member)
  rw [beforeFirst, List.takeWhile_append_of_pos passes]
  cases tail with
  | nil => exact List.append_nil _
  | cons char rest =>
      have stops : ¬(char != mark) = true := by simp [marked char rfl]
      rw [List.takeWhile_cons, if_neg stops, List.append_nil]

theorem afterFirst_append (absent : mark ∉ before) (after : Text) :
    afterFirst mark (before ++ mark :: after) = after := by
  rw [afterFirst, Text.splitOnce_append absent]

/-! ## Integers -/

def isSpace (char : Char) : Bool :=
  char == ' ' || (9 ≤ char.toNat && char.toNat ≤ 13)

/-- A word as `[` takes it for an integer of 64 bits: `strtoimax` in base ten,
blanks allowed behind. -/
def legalNumber (word : Text) : Option Int :=
  let body := word.dropWhile isSpace
  let signed := body.head? = some '-' ∨ body.head? = some '+'
  let unsigned := if signed then body.tail else body
  let digits := unsigned.takeWhile Char.isDigit
  let behind := (unsigned.dropWhile Char.isDigit).dropWhile fun char => char == ' ' || char == '\t'
  if behind ≠ [] then none
  else if body.head? = some '-' then
    (Text.parseUnsigned (2 ^ 63 + 1) digits).map fun value => -Int.ofNat value
  else (Text.parseUnsigned (2 ^ 63) digits).map Int.ofNat

/-- `[ left … right ]` with a comparison of integers, which fails on other words. -/
def test (word : Text) (compares : Int → Bool) : Bool := (legalNumber word).any compares

theorem legalNumber_decimal {value : Nat} (fits : value < 2 ^ 63) :
    legalNumber (Text.decimal value) = some (value : Int) := by
  have areDigits : ∀ char ∈ Text.decimal value, char.isDigit = true :=
    fun _ => Text.isDigit_of_mem_decimal
  have first : ∀ char, (Text.decimal value).head? = some char → char.isDigit = true :=
    fun char isFirst => areDigits char (List.mem_of_mem_head? isFirst)
  have noSpace : (Text.decimal value).dropWhile isSpace = Text.decimal value := by
    rw [List.dropWhile_eq_self_iff]
    intro nonempty isBlank
    have isDigit := areDigits _ (List.getElem_mem nonempty)
    have lower : 48 ≤ (Text.decimal value)[0].toNat := (Char.isDigit_iff_toNat.mp isDigit).1
    simp only [isSpace, Bool.or_eq_true, beq_iff_eq, Bool.and_eq_true, decide_eq_true_eq]
      at isBlank
    rcases isBlank with isSpace | control
    · rw [isSpace] at lower
      exact absurd lower (by decide)
    · omega
  have notMinus : (Text.decimal value).head? ≠ some '-' :=
    fun isSign => absurd (first '-' isSign) (by decide)
  have notPlus : (Text.decimal value).head? ≠ some '+' :=
    fun isSign => absurd (first '+' isSign) (by decide)
  have allTaken : (Text.decimal value).takeWhile Char.isDigit = Text.decimal value :=
    List.takeWhile_eq_self_iff.mpr areDigits
  have noneLeft : (Text.decimal value).dropWhile Char.isDigit = [] :=
    List.dropWhile_eq_nil_iff.mpr areDigits
  simp only [legalNumber, noSpace, notMinus, notPlus, or_self, if_false, allTaken, noneLeft,
    List.dropWhile_nil, ne_eq, not_true_eq_false, Text.parseUnsigned_decimal fits, Option.map_some,
    Int.ofNat_eq_natCast]

theorem test_decimal {value : Nat} (fits : value < 2 ^ 63) (compares : Int → Bool) :
    test (Text.decimal value) compares = compares value := by
  rw [test, legalNumber_decimal fits, Option.any_some]

end OomWatcher.Shell
