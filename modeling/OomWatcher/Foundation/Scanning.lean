import Mathlib.Data.List.Induction
import Mathlib.Data.List.TakeWhile
import OomWatcher.Foundation.Text

/-! # What the string functions find

Each function against a statement of the text it succeeds on. -/

namespace OomWatcher.Text

/-! ## Prefixes and separators -/

theorem stripPrefix_eq_some_iff {start text rest : Text} :
    stripPrefix start text = some rest ↔ text = start ++ rest := by
  induction start generalizing text with
  | nil => simp [stripPrefix]
  | cons expected start induction =>
      cases text with
      | nil => simp [stripPrefix]
      | cons char text =>
          rw [stripPrefix]
          by_cases same : expected = char
          · simp [same, induction]
          · simp [same, eq_comm]

theorem splitOnce_eq_some_iff {separator : Char} {text before after : Text} :
    splitOnce separator text = some (before, after) ↔
      text = before ++ separator :: after ∧ separator ∉ before := by
  constructor
  · intro isSplit
    have whole := List.takeWhile_append_dropWhile (p := (· != separator)) (l := text)
    rw [splitOnce] at isSplit
    cases rest : text.dropWhile (· != separator) with
    | nil =>
        rw [rest] at isSplit
        cases isSplit
    | cons char later =>
        rw [rest] at isSplit whole
        cases isSplit
        have stops := List.head?_dropWhile_not (· != separator) text
        rw [rest] at stops
        have isSeparator : char = separator := by simpa using stops
        rw [isSeparator] at whole
        refine ⟨whole.symm, ?_⟩
        intro member
        have passes := List.mem_takeWhile_imp member
        simp at passes
  · intro shape
    rw [shape.1]
    exact splitOnce_append shape.2 after

/-! ## Whitespace -/

def AllWhitespace (text : Text) : Prop := ∀ char ∈ text, isWhitespace char = true

structure IsTrimmed (text : Text) : Prop where
  first : ∀ char ∈ text.head?, isWhitespace char = false
  last : ∀ char ∈ text.getLast?, isWhitespace char = false

theorem exists_run (accepts : Char → Bool) (text : Text) :
    ∃ front run, text = front ++ run ∧ (∀ char ∈ run, accepts char = true) ∧
      ∀ char ∈ front.getLast?, accepts char = false := by
  induction text using List.reverseRecOn with
  | nil => exact ⟨[], [], rfl, nofun, nofun⟩
  | append_singleton front last induction =>
      cases accepted : accepts last with
      | true =>
          rcases induction with ⟨start, run, rfl, isRun, stops⟩
          refine ⟨start, run ++ [last], List.append_assoc _ _ _, ?_, stops⟩
          intro char member
          rcases List.mem_append.mp member with inRun | isLast
          · exact isRun char inRun
          · rw [List.mem_singleton.mp isLast, accepted]
      | false =>
          refine ⟨front ++ [last], [], (List.append_nil _).symm, nofun, ?_⟩
          intro char isLast
          rw [List.getLast?_concat] at isLast
          cases isLast
          exact accepted

theorem trim_append {front core back : Text} (before : AllWhitespace front)
    (behind : AllWhitespace back) (trimmed : IsTrimmed core) :
    trim (front ++ (core ++ back)) = core := by
  have frontDropped : (front ++ (core ++ back)).dropWhile isWhitespace =
      (core ++ back).dropWhile isWhitespace := List.dropWhile_append_of_pos before
  have backDropped {text : Text} : (text ++ back).reverse.dropWhile isWhitespace =
      text.reverse.dropWhile isWhitespace := by
    rw [List.reverse_append]
    apply List.dropWhile_append_of_pos
    exact fun char member => behind char (List.mem_reverse.mp member)
  cases core with
  | nil =>
      rw [trim, frontDropped, List.nil_append, List.dropWhile_eq_nil_iff.mpr behind]
      rfl
  | cons char rest =>
      have kept : ((char :: rest) ++ back).dropWhile isWhitespace = (char :: rest) ++ back := by
        apply dropWhile_eq_self_of_head
        exact trimmed.first
      have trimmedEnd : trim (char :: rest) = char :: rest :=
        trim_eq_self trimmed.first trimmed.last
      rw [trim, dropWhile_eq_self_of_head trimmed.first] at trimmedEnd
      rw [trim, frontDropped, kept, backDropped, trimmedEnd]

theorem exists_trim (text : Text) :
    IsTrimmed (trim text) ∧ ∃ front back, text = front ++ (trim text ++ back) ∧
      AllWhitespace front ∧ AllWhitespace back := by
  have front := List.takeWhile_append_dropWhile (p := isWhitespace) (l := text)
  rcases exists_run isWhitespace (text.dropWhile isWhitespace) with
    ⟨core, back, split, behind, stops⟩
  have before : AllWhitespace (text.takeWhile isWhitespace) :=
    fun _ member => List.mem_takeWhile_imp member
  have trimmed : IsTrimmed core := by
    refine ⟨?_, stops⟩
    intro char isFirst
    have notSpace := List.head?_dropWhile_not isWhitespace text
    cases core with
    | nil => cases isFirst
    | cons first rest =>
        cases isFirst
        rw [split] at notSpace
        simpa using notSpace
  have whole : text = text.takeWhile isWhitespace ++ (core ++ back) := by
    rw [← split]
    exact front.symm
  have isCore : trim text = core := by
    rw [whole]
    exact trim_append before behind trimmed
  rw [isCore]
  exact ⟨trimmed, _, back, whole, before, behind⟩

/-! ## Words -/

theorem splitWhitespace_append (before : Text) {char : Char} (isSpace : isWhitespace char = true)
    (after : Text) : splitWhitespace (before ++ char :: after) =
      splitWhitespace before ++ splitWhitespace after := by
  rw [splitWhitespace, List.splitOnP_append_cons before after isSpace, List.filter_append]
  rfl

theorem splitWhitespace_of_allWhitespace {text : Text} (blank : AllWhitespace text) :
    splitWhitespace text = [] := by
  induction text with
  | nil => simp [splitWhitespace]
  | cons char rest induction =>
      have isSpace := blank char List.mem_cons_self
      have later := induction fun other member => blank other (List.mem_cons_of_mem _ member)
      have shape := splitWhitespace_append [] isSpace rest
      rw [later, List.append_nil] at shape
      rw [← List.nil_append (char :: rest), shape]
      simp [splitWhitespace]

structure LastWord (text word : Text) : Prop where
  isWord : IsWord word
  placed : ∃ front back, text = front ++ (word ++ back) ∧ AllWhitespace back ∧
    ∀ char ∈ front.getLast?, isWhitespace char = true

theorem getLast?_splitWhitespace {text word : Text} (isLast : LastWord text word) :
    (splitWhitespace text).getLast? = some word := by
  rcases isLast with ⟨isWord, front, back, rfl, behind, before⟩
  have backGone : splitWhitespace (front ++ (word ++ back)) = splitWhitespace (front ++ word) := by
    cases back with
    | nil => rw [List.append_nil]
    | cons char rest =>
        have blank := splitWhitespace_of_allWhitespace
          fun other member => behind other (List.mem_cons_of_mem _ member)
        rw [← List.append_assoc, splitWhitespace_append _ (behind char List.mem_cons_self), blank,
          List.append_nil]
  rw [backGone]
  rcases List.eq_nil_or_concat' front with rfl | ⟨start, char, rfl⟩
  · rw [List.nil_append, splitWhitespace_word isWord]
    rfl
  · have isSpace : isWhitespace char = true := before char List.getLast?_concat
    rw [List.append_assoc, List.singleton_append, splitWhitespace_append _ isSpace,
      splitWhitespace_word isWord, List.getLast?_concat]

theorem exists_lastWord {text : Text} (notBlank : ¬ AllWhitespace text) :
    ∃ word, LastWord text word := by
  rcases exists_run isWhitespace text with ⟨core, back, rfl, behind, stops⟩
  rcases exists_run (fun char => !isWhitespace char) core with ⟨front, word, rfl, solid, before⟩
  have nonempty : word ≠ [] := by
    intro isEmpty
    rw [isEmpty, List.append_nil] at stops notBlank
    rcases List.eq_nil_or_concat' front with rfl | ⟨start, char, rfl⟩
    · exact notBlank behind
    · have isSpace := before char List.getLast?_concat
      rw [stops char List.getLast?_concat] at isSpace
      cases isSpace
  refine ⟨word, ⟨nonempty, ?_⟩, front, back, List.append_assoc _ _ _, behind, ?_⟩
  · intro char member
    simpa using solid char member
  · intro char isLast
    simpa using before char isLast

theorem getLast?_splitWhitespace_iff {text word : Text} :
    (splitWhitespace text).getLast? = some word ↔ LastWord text word := by
  constructor
  · intro found
    by_cases blank : AllWhitespace text
    · rw [splitWhitespace_of_allWhitespace blank] at found
      cases found
    · rcases exists_lastWord blank with ⟨other, isLast⟩
      rw [getLast?_splitWhitespace isLast] at found
      exact Option.some.inj found ▸ isLast
  · exact getLast?_splitWhitespace

/-! ## Numbers -/

/-- Decimal digits and their value, possibly behind a plus sign. -/
inductive Numeral : Text → Nat → Prop
  | plain {digits : Text} (nonempty : digits ≠ [])
      (areDigits : ∀ char ∈ digits, char.isDigit = true) :
      Numeral digits (Nat.ofDigitChars 10 digits 0)
  | plus {digits : Text} (nonempty : digits ≠ [])
      (areDigits : ∀ char ∈ digits, char.isDigit = true) :
      Numeral ('+' :: digits) (Nat.ofDigitChars 10 digits 0)

theorem le_ofDigitChars (digits : Text) (value : Nat) :
    value ≤ Nat.ofDigitChars 10 digits value := by
  induction digits generalizing value with
  | nil => simp
  | cons char rest induction =>
      rw [Nat.ofDigitChars_cons]
      exact le_trans (by omega) (induction _)

theorem appendDigit_eq_some_iff {limit value next : Nat} {char : Char} :
    appendDigit limit value char = some next ↔
      char.isDigit = true ∧ next = 10 * value + (char.toNat - '0'.toNat) ∧ next < limit := by
  cases isDigit : char.isDigit with
  | false => simp [appendDigit, isDigit]
  | true =>
      by_cases scaledFits : 10 * value < limit
      · by_cases fits : 10 * value + (char.toNat - '0'.toNat) < limit
        · simp only [appendDigit, isDigit, below, scaledFits, fits, if_true, Option.bind_eq_bind,
            Option.bind_some, Option.some.injEq, true_and]
          exact ⟨fun same => ⟨same.symm, same ▸ fits⟩, fun shape => shape.1.symm⟩
        · simp only [appendDigit, isDigit, below, scaledFits, fits, if_true, if_false,
            Option.bind_eq_bind, Option.bind_some, reduceCtorEq, true_and, false_iff]
          exact fun shape => fits (shape.1 ▸ shape.2)
      · simp only [appendDigit, isDigit, below, scaledFits, if_true, if_false, Option.bind_eq_bind,
          Option.bind_some, Option.bind_none, reduceCtorEq, true_and, false_iff]
        omega

/-- Checking every step against the limit rejects what checking the end does. -/
theorem foldlM_appendDigit_eq_some_iff {limit start value : Nat} {digits : Text}
    (fits : start < limit) :
    digits.foldlM (appendDigit limit) start = some value ↔
      (∀ char ∈ digits, char.isDigit = true) ∧ value = Nat.ofDigitChars 10 digits start ∧
        value < limit := by
  induction digits generalizing start with
  | nil =>
      simp only [List.foldlM_nil, Option.pure_def, Option.some.injEq, List.not_mem_nil,
        false_implies, implies_true, Nat.ofDigitChars_nil, true_and]
      exact ⟨fun same => ⟨same.symm, same ▸ fits⟩, fun shape => shape.1.symm⟩
  | cons char rest induction =>
      rw [List.foldlM_cons, Option.bind_eq_bind, Option.bind_eq_some_iff]
      simp only [Nat.ofDigitChars_cons, List.forall_mem_cons]
      constructor
      · intro parsed
        rcases parsed with ⟨next, appended, later⟩
        rcases appendDigit_eq_some_iff.mp appended with ⟨isDigit, rfl, nextFits⟩
        rcases (induction nextFits).mp later with ⟨areDigits, isValue, valueFits⟩
        exact ⟨⟨isDigit, areDigits⟩, isValue, valueFits⟩
      · intro shape
        rcases shape with ⟨⟨isDigit, areDigits⟩, isValue, valueFits⟩
        have grows := le_ofDigitChars rest (10 * start + (char.toNat - '0'.toNat))
        have nextFits : 10 * start + (char.toNat - '0'.toNat) < limit := by omega
        exact ⟨_, appendDigit_eq_some_iff.mpr ⟨isDigit, rfl, nextFits⟩,
          (induction nextFits).mpr ⟨areDigits, isValue, valueFits⟩⟩

theorem parseUnsigned_eq_some_iff {limit value : Nat} {text : Text} (positive : 0 < limit) :
    parseUnsigned limit text = some value ↔ Numeral text value ∧ value < limit := by
  have parsed (digits : Text) :
      (if digits.isEmpty then none else digits.foldlM (appendDigit limit) 0) = some value ↔
        digits ≠ [] ∧ (∀ char ∈ digits, char.isDigit = true) ∧
          value = Nat.ofDigitChars 10 digits 0 ∧ value < limit := by
    rw [← foldlM_appendDigit_eq_some_iff positive]
    cases digits <;> simp
  rw [parseUnsigned, parsed]
  constructor
  · intro shape
    rcases shape with ⟨nonempty, areDigits, rfl, fits⟩
    refine ⟨?_, fits⟩
    by_cases isPlus : text.head? = some '+'
    · cases text with
      | nil => cases isPlus
      | cons char rest =>
          cases isPlus
          exact .plus nonempty areDigits
    · rw [withoutSign_of_head_ne isPlus] at nonempty areDigits ⊢
      exact .plain nonempty areDigits
  · intro shape
    rcases shape with ⟨numeral, fits⟩
    cases numeral with
    | plain nonempty areDigits =>
        have noSign : text.head? ≠ some '+' := by
          intro isPlus
          exact absurd (areDigits '+' (List.mem_of_mem_head? isPlus)) (by decide)
        rw [withoutSign_of_head_ne noSign]
        exact ⟨nonempty, areDigits, rfl, fits⟩
    | plus nonempty areDigits => exact ⟨nonempty, areDigits, rfl, fits⟩

theorem Numeral.isTrimmed {text : Text} {value : Nat} (numeral : Numeral text value) :
    text ≠ [] ∧ ∀ char ∈ text, isWhitespace char = false := by
  cases numeral with
  | plain nonempty areDigits =>
      exact ⟨nonempty, fun char member => isWhitespace_of_isDigit (areDigits char member)⟩
  | plus nonempty areDigits =>
      refine ⟨List.cons_ne_nil _ _, ?_⟩
      intro char member
      rcases List.mem_cons.mp member with rfl | isDigit
      · decide
      · exact isWhitespace_of_isDigit (areDigits char isDigit)

end OomWatcher.Text
