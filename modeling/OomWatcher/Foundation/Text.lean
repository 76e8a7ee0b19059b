import Mathlib.Data.List.Basic

/-! # Text

The string functions of the standard library on lists of characters, each with
what it does to text that was put together for it. -/

namespace OomWatcher

abbrev Text := List Char

namespace Text

theorem forall_of_all {text : Text} {property : Char → Prop} [DecidablePred property]
    (every : (text.all fun char => decide (property char)) = true) :
    ∀ char ∈ text, property char := by
  simpa using every

/-! ## Whitespace -/

/-- The Unicode property `White_Space`. -/
def isWhitespace (char : Char) : Bool :=
  let code := char.toNat
  (9 ≤ code && code ≤ 13) || code == 0x20 || code == 0x85 || code == 0xA0 || code == 0x1680 ||
    (0x2000 ≤ code && code ≤ 0x200A) || code == 0x2028 || code == 0x2029 || code == 0x202F ||
    code == 0x205F || code == 0x3000

def trim (text : Text) : Text :=
  ((text.dropWhile isWhitespace).reverse.dropWhile isWhitespace).reverse

theorem trim_cons_of_isWhitespace {char : Char} (isSpace : isWhitespace char = true)
    (text : Text) : trim (char :: text) = trim text := by
  rw [trim, List.dropWhile_cons_of_pos isSpace, trim]

theorem dropWhile_eq_self_of_head {text : Text}
    (first : ∀ char ∈ text.head?, isWhitespace char = false) :
    text.dropWhile isWhitespace = text := by
  cases text with
  | nil => rfl
  | cons char rest =>
      have notSpace : ¬isWhitespace char = true := by simp [first char rfl]
      exact List.dropWhile_cons_of_neg notSpace

theorem trim_eq_self {text : Text}
    (first : ∀ char ∈ text.head?, isWhitespace char = false)
    (last : ∀ char ∈ text.getLast?, isWhitespace char = false) : trim text = text := by
  have lastFirst : ∀ char ∈ text.reverse.head?, isWhitespace char = false := by
    rw [List.head?_reverse]
    exact last
  rw [trim, dropWhile_eq_self_of_head first, dropWhile_eq_self_of_head lastFirst,
    List.reverse_reverse]

theorem trim_eq_self_of_forall {text : Text}
    (solid : ∀ char ∈ text, isWhitespace char = false) : trim text = text := by
  apply trim_eq_self
  · exact fun char isFirst => solid char (List.mem_of_mem_head? isFirst)
  · exact fun char isLast => solid char (List.mem_of_mem_getLast? isLast)

theorem head?_trim {first : Char} (solid : isWhitespace first = false) (rest : Text) :
    (trim (first :: rest)).head? = some first := by
  have notSpace : ¬isWhitespace first = true := by simp [solid]
  rw [trim, List.dropWhile_cons_of_neg notSpace, List.head?_reverse, List.reverse_cons,
    List.dropWhile_append]
  split
  · rw [List.dropWhile_cons_of_neg notSpace]
    rfl
  · rw [List.getLast?_concat]

def splitWhitespace (text : Text) : List Text :=
  (text.splitOnP isWhitespace).filter fun word => !word.isEmpty

structure IsWord (word : Text) : Prop where
  nonempty : word ≠ []
  solid : ∀ char ∈ word, isWhitespace char = false

theorem splitWhitespace_word {word : Text} (isWord : IsWord word) :
    splitWhitespace word = [word] := by
  rw [splitWhitespace, List.splitOnP_eq_singleton isWord.solid]
  simp [isWord.nonempty]

theorem splitWhitespace_spaced {words : List Text} {last : Text}
    (areWords : ∀ word ∈ words, IsWord word) (isWord : IsWord last) :
    splitWhitespace ((words.map (· ++ [' '])).flatten ++ last) = words ++ [last] := by
  induction words with
  | nil => exact splitWhitespace_word isWord
  | cons word rest induction =>
      have own := areWords word List.mem_cons_self
      have later := induction fun other member => areWords other (List.mem_cons_of_mem _ member)
      have shape : ((word :: rest).map (· ++ [' '])).flatten ++ last =
          word ++ ' ' :: ((rest.map (· ++ [' '])).flatten ++ last) := by simp
      have isSpace : isWhitespace ' ' = true := by decide
      rw [splitWhitespace] at later ⊢
      rw [shape, List.splitOnP_append_cons_of_forall_mem own.solid ' ' isSpace, List.filter_cons,
        later]
      simp [own.nonempty]

/-! ## Prefixes and separators -/

def stripPrefix : Text → Text → Option Text
  | [], text => some text
  | _ :: _, [] => none
  | expected :: rest, char :: text => if expected = char then stripPrefix rest text else none

theorem stripPrefix_append (start text : Text) : stripPrefix start (start ++ text) = some text := by
  induction start with
  | nil => rfl
  | cons char rest induction => rwa [List.cons_append, stripPrefix, if_pos rfl]

theorem stripPrefix_of_head_ne {start text : Text} (differ : start.head? ≠ text.head?)
    (nonempty : start ≠ []) : stripPrefix start text = none := by
  cases start with
  | nil => exact absurd rfl nonempty
  | cons expected rest =>
      cases text with
      | nil => rfl
      | cons char text =>
          rw [stripPrefix, if_neg]
          intro equal
          exact differ (congrArg some equal)

def splitOnce (separator : Char) (text : Text) : Option (Text × Text) :=
  match text.dropWhile (· != separator) with
  | [] => none
  | _ :: after => some (text.takeWhile (· != separator), after)

theorem splitOnce_append {separator : Char} {before : Text} (absent : separator ∉ before)
    (after : Text) :
    splitOnce separator (before ++ separator :: after) = some (before, after) := by
  have passes : ∀ char ∈ before, (char != separator) = true := by
    intro char member
    simpa using ne_of_mem_of_not_mem member absent
  rw [splitOnce, List.dropWhile_append_of_pos passes, List.takeWhile_append_of_pos passes]
  simp

def split (separator : Char) (text : Text) : List Text := text.splitOn separator

theorem split_of_absent {separator : Char} {text : Text} (absent : separator ∉ text) :
    split separator text = [text] :=
  List.splitOn_eq_singleton absent

theorem split_append {separator : Char} {before : Text} (absent : separator ∉ before)
    (after : Text) :
    split separator (before ++ separator :: after) = before :: split separator after :=
  List.splitOn_append_cons_self_of_not_mem absent after

theorem split_terminated {separator : Char} {pieces : List Text}
    (absent : ∀ piece ∈ pieces, separator ∉ piece) :
    split separator (pieces.map (· ++ [separator])).flatten = pieces ++ [[]] := by
  induction pieces with
  | nil => exact List.splitOn_nil separator
  | cons piece rest induction =>
      have shape : ((piece :: rest).map (· ++ [separator])).flatten =
          piece ++ separator :: (rest.map (· ++ [separator])).flatten := by simp
      rw [shape, split_append (absent piece List.mem_cons_self),
        induction fun other member => absent other (List.mem_cons_of_mem _ member)]
      rfl

theorem split_intercalate_append {separator : Char} {pieces : List Text} (nonempty : pieces ≠ [])
    (absent : ∀ piece ∈ pieces, separator ∉ piece) (after : Text) :
    split separator ([separator].intercalate pieces ++ separator :: after) =
      pieces ++ split separator after := by
  induction pieces with
  | nil => exact absurd rfl nonempty
  | cons piece rest induction =>
      have own := absent piece List.mem_cons_self
      cases rest with
      | nil => rw [List.intercalate_singleton, split_append own, List.singleton_append]
      | cons next rest =>
          have later := induction (List.cons_ne_nil _ _)
            fun other member => absent other (List.mem_cons_of_mem _ member)
          rw [List.intercalate_cons_cons, List.append_assoc, List.append_assoc,
            List.singleton_append, split_append own, later]
          rfl

theorem eq_of_append_separator {separator : Char} {left right leftRest rightRest : Text}
    (notInLeft : separator ∉ left) (notInRight : separator ∉ right)
    (equal : left ++ separator :: leftRest = right ++ separator :: rightRest) :
    left = right ∧ leftRest = rightRest := by
  have same := congrArg (splitOnce separator) equal
  rw [splitOnce_append notInLeft, splitOnce_append notInRight] at same
  exact Prod.mk.inj (Option.some.inj same)

theorem suffix_or_infix_of_infix {separator : Char} {front left right : Text}
    (notInFront : separator ∉ front) (notInLeft : separator ∉ left)
    (inside : front ++ [separator] <:+: left ++ separator :: right) :
    front <:+ left ∨ front ++ [separator] <:+: right := by
  rcases inside with ⟨before, after, split⟩
  have whole : (before ++ front) ++ separator :: after = left ++ separator :: right := by
    rw [← split]
    simp
  rcases List.append_eq_append_iff.mp whole with ⟨rest, isLeft, isRest⟩ | ⟨rest, isFront, isRest⟩
  · cases rest with
    | nil => exact .inl ⟨before, by rw [isLeft, List.append_nil]⟩
    | cons char rest =>
        rcases List.cons.inj isRest with ⟨rfl, _⟩
        exact absurd (by simp [isLeft]) notInLeft
  · cases rest with
    | nil => exact .inl ⟨before, by rw [isFront, List.append_nil]⟩
    | cons char rest =>
        rcases List.cons.inj isRest with ⟨rfl, isRight⟩
        rcases List.append_eq_append_iff.mp isFront with
          ⟨middle, _, isMiddle⟩ | ⟨middle, _, isMiddle⟩
        · exact absurd (by simp [isMiddle]) notInFront
        · cases middle with
          | nil =>
              rw [List.nil_append] at isMiddle
              exact absurd (by simp [← isMiddle]) notInFront
          | cons other middle =>
              rcases List.cons.inj isMiddle with ⟨_, isInner⟩
              exact .inr ⟨middle, after, by simp [isRight, isInner]⟩

theorem eq_nil_of_run {accepts : Char → Bool} {front run : Text}
    (ends : ∀ char ∈ (front ++ run).getLast?, accepts char = false)
    (isRun : ∀ char ∈ run, accepts char = true) : run = [] := by
  rcases List.eq_nil_or_concat' run with none | ⟨start, last, rfl⟩
  · exact none
  · have isLast : last ∈ (front ++ (start ++ [last])).getLast? := by
      rw [← List.append_assoc, List.getLast?_concat]
      rfl
    have notAccepted := ends last isLast
    rw [isRun last (by simp)] at notAccepted
    cases notAccepted

theorem eq_of_append_run {accepts : Char → Bool} {left right leftRun rightRun : Text}
    (leftEnds : ∀ char ∈ left.getLast?, accepts char = false)
    (rightEnds : ∀ char ∈ right.getLast?, accepts char = false)
    (isLeftRun : ∀ char ∈ leftRun, accepts char = true)
    (isRightRun : ∀ char ∈ rightRun, accepts char = true)
    (equal : left ++ leftRun = right ++ rightRun) : left = right ∧ leftRun = rightRun := by
  rcases List.append_eq_append_iff.mp equal with ⟨middle, rfl, rfl⟩ | ⟨middle, rfl, rfl⟩
  · have nothing := eq_nil_of_run rightEnds fun char member =>
      isLeftRun char (List.mem_append_left _ member)
    simp [nothing]
  · have nothing := eq_nil_of_run leftEnds fun char member =>
      isRightRun char (List.mem_append_left _ member)
    simp [nothing]

def trimStartMatches (char : Char) (text : Text) : Text := text.dropWhile (· == char)

theorem trimStartMatches_replicate {char : Char} {text : Text} (count : Nat)
    (first : text.head? ≠ some char) :
    trimStartMatches char (List.replicate count char ++ text) = text := by
  have dropped : ∀ other ∈ List.replicate count char, (other == char) = true := by
    intro other member
    simpa using (List.mem_replicate.mp member).2
  rw [trimStartMatches, List.dropWhile_append_of_pos dropped]
  cases text with
  | nil => rfl
  | cons other rest =>
      apply List.dropWhile_cons_of_neg
      intro equal
      exact first (congrArg some (beq_iff_eq.mp equal))

/-! ## Lines -/

def stripCarriageReturn (line : Text) : Text :=
  if line.getLast? = some '\r' then line.dropLast else line

/-- `str::lines`. Only a line that was ended loses its carriage return, and no
empty line follows the last line feed. -/
def lines (text : Text) : List Text :=
  let pieces := split '\n' text
  pieces.dropLast.map stripCarriageReturn ++
    pieces.getLast?.toList.filter fun piece => !piece.isEmpty

theorem lines_terminated {ended : List Text} (whole : ∀ line ∈ ended, '\n' ∉ line) :
    lines (ended.map (· ++ ['\n'])).flatten = ended.map stripCarriageReturn := by
  rw [lines, split_terminated whole]
  simp

/-! ## Numbers -/

def below (limit value : Nat) : Option Nat := if value < limit then some value else none

def appendDigit (limit value : Nat) (char : Char) : Option Nat := do
  let digit ← if char.isDigit then some (char.toNat - '0'.toNat) else none
  let scaled ← below limit (10 * value)
  below limit (scaled + digit)

def withoutSign : Text → Text
  | '+' :: rest => rest
  | text => text

/-- `str::parse` for an unsigned integer type with `limit` values. -/
def parseUnsigned (limit : Nat) (text : Text) : Option Nat :=
  let digits := withoutSign text
  if digits.isEmpty then none else digits.foldlM (appendDigit limit) 0

/-- A number as `Display` writes it. -/
def decimal (value : Nat) : Text := Nat.toDigits 10 value

theorem isDigit_of_mem_decimal {value : Nat} {char : Char} (member : char ∈ decimal value) :
    char.isDigit = true :=
  Nat.isDigit_of_mem_toDigits (by decide) (by decide) member

theorem appendDigit_digitChar {limit value digit : Nat} (isDigit : digit < 10)
    (fits : 10 * value + digit < limit) :
    appendDigit limit value digit.digitChar = some (10 * value + digit) := by
  have scaledFits : 10 * value < limit := by omega
  have digitValue : digit.digitChar.toNat - '0'.toNat = digit :=
    Nat.toNat_digitChar_sub_48_of_lt_ten isDigit
  simp only [appendDigit, Nat.isDigit_digitChar, isDigit, decide_true, if_true, digitValue, below,
    scaledFits, fits, Option.bind_eq_bind, Option.bind_some]

theorem foldlM_decimal {limit : Nat} (value : Nat) (fits : value < limit) :
    (decimal value).foldlM (appendDigit limit) 0 = some value := by
  rw [decimal]
  induction value using Nat.base_induction 10 (by decide) with
  | single digit isDigit =>
      have fromZero : 10 * 0 + digit < limit := by omega
      rw [Nat.toDigits_of_lt_base isDigit]
      simpa using appendDigit_digitChar isDigit fromZero
  | digit value digit isDigit positive induction =>
      have parsed := induction (by omega)
      rw [← Nat.toDigits_append_toDigits (by decide) positive isDigit, List.foldlM_append, parsed,
        Nat.toDigits_of_lt_base isDigit]
      simpa using appendDigit_digitChar isDigit fits

theorem withoutSign_of_head_ne {text : Text} (first : text.head? ≠ some '+') :
    withoutSign text = text := by
  cases text with
  | nil => rfl
  | cons char rest =>
      rw [withoutSign]
      intro _ equal
      exact first (congrArg List.head? equal)

/-- What is written is read. -/
theorem parseUnsigned_decimal {limit value : Nat} (fits : value < limit) :
    parseUnsigned limit (decimal value) = some value := by
  have nonempty : decimal value ≠ [] := Nat.toDigits_ne_nil
  have noSign : (decimal value).head? ≠ some '+' := by
    intro isSign
    have isDigit := isDigit_of_mem_decimal (List.mem_of_mem_head? isSign)
    exact absurd isDigit (by decide)
  rw [parseUnsigned, withoutSign_of_head_ne noSign, List.isEmpty_eq_false_iff.mpr nonempty]
  exact foldlM_decimal value fits

theorem decimal_inj {left right : Nat} : decimal left = decimal right ↔ left = right := by
  constructor
  · intro equal
    have leftFits : left < left + right + 1 := by omega
    have rightFits : right < left + right + 1 := by omega
    have parsed := parseUnsigned_decimal leftFits
    rw [equal, parseUnsigned_decimal rightFits] at parsed
    exact (Option.some.inj parsed).symm
  · exact congrArg decimal

theorem isWhitespace_of_isDigit {char : Char} (isDigit : char.isDigit = true) :
    isWhitespace char = false := by
  have lower : 48 ≤ char.toNat := (Char.isDigit_iff_toNat.mp isDigit).1
  have upper : char.toNat ≤ 57 := (Char.isDigit_iff_toNat.mp isDigit).2
  simp [isWhitespace]
  omega

end Text

end OomWatcher
