import OomWatcher.Foundation.Posix
import OomWatcher.Tracepoint.Format

/-! # The pre-flight script

A script rules a node in or out before anything is deployed on it. It looks for
the fields with `grep` and `sed`, and finds a field only by the name at the end
of its declaration. -/

namespace OomWatcher

open Expression

/-! ## The layout step -/

namespace Preflight

def requiredFields : List String :=
  ["pid 8 4", "comm 12 4", "total_vm 16 8", "anon_rss 24 8", "file_rss 32 8", "shmem_rss 40 8",
    "uid 48 4", "pgtables 56 8", "oom_score_adj 64 2"]

structure Spec where
  name : Text
  wantOffset : Text
  wantSize : Text
deriving DecidableEq, Repr

/-- `read -r name want_offset want_size` on an entry of three words. -/
def readSpec (spec : String) : Spec :=
  let words := Text.splitWhitespace spec.toList
  ⟨words.getD 0 [], words.getD 1 [], words.getD 2 []⟩

inductive Report
  | pass (message : Text)
  | fail (message : Text)
deriving DecidableEq, Repr

def Report.isFail : Report → Bool
  | .pass _ => false
  | .fail _ => true

/-- `field:[^;]*[ *]${name};` -/
def fieldSearch (name : Text) : Expression :=
  literal "field:".toList ++
    ([.many (· != ';'), .one fun char => char == ' ' || char == '*'] ++ literal (name ++ [';']))

/-- `sed -n 's/.*key\([0-9]*\).*/\1/p'`. -/
def extract (key : String) (line : Text) : Text :=
  (substitute (anything ++ literal key.toList) [.many Char.isDigit] anything line).getD []

def checkLine (spec : Spec) (line : Text) : Report :=
  let offset := extract "offset:" line
  let size := extract "size:" line
  if offset = spec.wantOffset ∧ size = spec.wantSize then
    .pass (spec.name ++ ": offset ".toList ++ offset ++ " size ".toList ++ size)
  else
    .fail (spec.name ++ ": expected offset ".toList ++ spec.wantOffset ++ " size ".toList ++
      spec.wantSize ++ ", found offset ".toList ++ offset ++ " size ".toList ++ size)

def checkSpec (file : Text) (spec : Spec) : Report :=
  match (inputLines file).find? (occurs (fieldSearch spec.name)) with
  | none => .fail ("field '".toList ++ spec.name ++ "' is missing".toList)
  | some line => checkLine spec line

def layoutStep (file : String) : List Report :=
  requiredFields.map fun spec => checkSpec file.toList (readSpec spec)

def failures (reports : List Report) : Nat := reports.countP Report.isFail

def Spec.ofField (field : Field) : Spec :=
  ⟨field.name.toList, Text.decimal field.offset, Text.decimal field.size⟩

theorem readSpec_requiredFields :
    requiredFields.map readSpec = OomWatcher.requiredFields.map Spec.ofField := by
  decide

theorem failures_layoutStep (file : String) :
    failures (layoutStep file) = 0 ↔
      ∀ want ∈ OomWatcher.requiredFields,
        (checkSpec file.toList (.ofField want)).isFail = false := by
  have entries : layoutStep file =
      (OomWatcher.requiredFields.map Spec.ofField).map (checkSpec file.toList) := by
    rw [← readSpec_requiredFields, List.map_map]
    rfl
  rw [failures, entries, List.countP_eq_zero]
  simp

theorem isFail_checkLine (spec : Spec) (line : Text) :
    (checkLine spec line).isFail = false ↔
      extract "offset:" line = spec.wantOffset ∧ extract "size:" line = spec.wantSize := by
  rw [checkLine]
  split
  · next same => simpa [Report.isFail] using same
  · next differ => simpa [Report.isFail] using differ

theorem isFail_checkSpec (file : Text) (spec : Spec) :
    (checkSpec file spec).isFail = false ↔
      ∃ line, (inputLines file).find? (occurs (fieldSearch spec.name)) = some line ∧
        (checkLine spec line).isFail = false := by
  rw [checkSpec]
  cases (inputLines file).find? (occurs (fieldSearch spec.name)) with
  | none => simp [Report.isFail]
  | some line => simp

end Preflight

/-! ## The lines found -/

section Found

variable {name : Text}

theorem denotes_fieldSearch {text : Text} :
    Denotes (Preflight.fieldSearch name) text ↔
      ∃ inner mark, text = ("field:".toList ++ (inner ++ mark :: name)) ++ [';'] ∧
        ';' ∉ inner ∧ (mark = ' ' ∨ mark = '*') := by
  have denotesGap : ∀ gap, Denotes [.many (· != ';'), .one fun char => char == ' ' || char == '*']
      gap ↔ ∃ inner mark, gap = inner ++ [mark] ∧ ';' ∉ inner ∧ (mark = ' ' ∨ mark = '*') := by
    intro gap
    constructor
    · intro denoted
      rcases denoted with ⟨inner, _, isGap, solid, mark, _, rfl, isMark, rfl⟩
      refine ⟨inner, mark, isGap, ?_, by simpa using isMark⟩
      intro member
      exact absurd (solid ';' member) (by decide)
    · intro denoted
      rcases denoted with ⟨inner, mark, isGap, solid, isMark⟩
      refine ⟨inner, [mark], isGap, ?_, mark, [], rfl, by simpa using isMark, rfl⟩
      intro char member
      exact bne_iff_ne.mpr (ne_of_mem_of_not_mem member solid)
  simp only [Preflight.fieldSearch, denotes_append, denotes_literal, denotesGap]
  constructor
  · intro denoted
    rcases denoted with ⟨_, _, rfl, rfl, _, _, rfl, ⟨inner, mark, rfl, solid, isMark⟩, rfl⟩
    exact ⟨inner, mark, by simp, solid, isMark⟩
  · intro denoted
    rcases denoted with ⟨inner, mark, rfl, solid, isMark⟩
    exact ⟨"field:".toList, (inner ++ [mark]) ++ (name ++ [';']), by simp, rfl, _, _, rfl,
      ⟨inner, mark, rfl, solid, isMark⟩, rfl⟩

theorem word_infix_of_occurs {line : Text}
    (found : occurs (Preflight.fieldSearch name) line = true) :
    "field".toList ++ [':'] <:+: line := by
  rcases occurs_iff.mp found with ⟨consumed, inLine, denoted⟩
  rcases denotes_fieldSearch.mp denoted with ⟨inner, mark, rfl, _, _⟩
  refine List.IsInfix.trans ⟨[], (inner ++ mark :: name) ++ [';'], ?_⟩ inLine
  simp

theorem not_occurs_of_colon {left right : Text} (notInLeft : ':' ∉ left)
    (otherWord : ¬ "field".toList <:+ left) (noWord : ¬ "field".toList ++ [':'] <:+: right) :
    ¬ occurs (Preflight.fieldSearch name) (left ++ ':' :: right) = true := by
  intro found
  have notInWord : ':' ∉ "field".toList := by decide
  rcases Text.suffix_or_infix_of_infix notInWord notInLeft (word_infix_of_occurs found)
    with isSuffix | inside
  · exact otherWord isSuffix
  · exact noWord inside

theorem no_word_of_no_colon {text : Text} (noColon : ':' ∉ text) :
    ¬ "field".toList ++ [':'] <:+: text :=
  fun inside => noColon (inside.subset (List.mem_append_right _ List.mem_cons_self))

end Found

namespace KernelField

variable (field : KernelField)

def beforeName : Text :=
  (field.typeTokens.map (· ++ [' '])).flatten ++ List.replicate field.stars '*'

def Searchable : Prop := field.suffix = none ∧ (field.typeTokens ≠ [] ∨ field.stars ≠ 0)

instance : Decidable field.Searchable := inferInstanceAs (Decidable (_ ∧ _))

def attributeText : Text := (field.attributes.map (· ++ [';'])).flatten

theorem line_eq : field.line =
    ('\t' :: ("field:".toList ++ field.declaration)) ++ ';' :: field.attributeText := by
  simp [line, attributeText]

theorem declaration_of_no_suffix (noSuffix : field.suffix = none) :
    field.declaration = field.beforeName ++ field.name.toList := by
  simp [declaration, declarator, beforeName, noSuffix]

theorem beforeName_ne_nil_iff :
    field.beforeName ≠ [] ↔ field.typeTokens ≠ [] ∨ field.stars ≠ 0 := by
  rw [beforeName]
  cases field.typeTokens with
  | nil => simp
  | cons token tokens => simp

theorem getLast_beforeName :
    ∀ char ∈ field.beforeName.getLast?, char = ' ' ∨ char = '*' := by
  intro char isLast
  rw [beforeName] at isLast
  rcases Nat.eq_zero_or_eq_succ_pred field.stars with noStar | stars
  · left
    rw [noStar, List.replicate_zero, List.append_nil] at isLast
    rcases List.eq_nil_or_concat' field.typeTokens with none | ⟨front, last, tokens⟩
    · rw [none] at isLast
      cases isLast
    · rw [tokens, List.map_append, List.flatten_append] at isLast
      simp at isLast
      exact isLast.symm
  · right
    rw [stars, List.replicate_succ', ← List.append_assoc, List.getLast?_concat] at isLast
    exact (Option.some.inj isLast).symm

theorem letter_not_mem_attributeText : 'l' ∉ field.attributeText :=
  field.not_mem_attributes (by decide) (by decide) (by decide)

theorem getLast_declaration_of_suffix {text : Text} (isSuffix : field.suffix = some text) :
    field.declaration.getLast? = some ']' := by
  have shape : field.declaration =
      (field.beforeName ++ field.name.toList ++ '[' :: text) ++ [']'] := by
    simp [declaration, declarator, beforeName, isSuffix]
  rw [shape, List.getLast?_concat]

variable {name : Text}

theorem occurs_line_iff (isIdentifier : IsIdentifier name) :
    occurs (Preflight.fieldSearch name) field.line = true ↔
      ∃ inner mark, ("field:".toList ++ (inner ++ mark :: name)) <:+
          '\t' :: ("field:".toList ++ field.declaration) ∧
        ';' ∉ inner ∧ (mark = ' ' ∨ mark = '*') := by
  rw [occurs_iff]
  constructor
  · intro found
    rcases found with ⟨consumed, inLine, denoted⟩
    rcases denotes_fieldSearch.mp denoted with ⟨inner, mark, rfl, solid, isMark⟩
    refine ⟨inner, mark, ?_, solid, isMark⟩
    have notInFront : ';' ∉ "field:".toList ++ (inner ++ mark :: name) := by
      have notMark : ';' ≠ mark := by rcases isMark with rfl | rfl <;> decide
      have notInName : ';' ∉ name := fun member =>
        absurd (isIdentifier.chars ';' member) (by decide)
      simp [solid, notMark, notInName]
    have notInLeft : ';' ∉ '\t' :: ("field:".toList ++ field.declaration) := by
      simp [field.semicolon_not_mem_declaration]
    rw [line_eq] at inLine
    rcases Text.suffix_or_infix_of_infix notInFront notInLeft inLine with isSuffix | inside
    · exact isSuffix
    · -- the attributes have no letter `l`
      exact absurd (inside.subset (by simp)) field.letter_not_mem_attributeText
  · intro found
    rcases found with ⟨inner, mark, ⟨before, isSuffix⟩, solid, isMark⟩
    refine ⟨_, ?_, denotes_fieldSearch.mpr ⟨inner, mark, rfl, solid, isMark⟩⟩
    refine ⟨before, field.attributeText, ?_⟩
    rw [line_eq, ← isSuffix]
    simp

theorem getLast_before (char : Char)
    (isLast : char ∈ ('\t' :: ("field:".toList ++ field.beforeName)).getLast?) :
    char = ':' ∨ (field.beforeName ≠ [] ∧ (char = ' ' ∨ char = '*')) := by
  rw [← List.cons_append, List.getLast?_append] at isLast
  cases lastBefore : field.beforeName.getLast? with
  | none =>
      left
      rw [lastBefore] at isLast
      exact (Option.some.inj isLast).symm
  | some last =>
      right
      rw [lastBefore] at isLast
      cases isLast
      refine ⟨?_, field.getLast_beforeName char lastBefore⟩
      intro none
      rw [none] at lastBefore
      cases lastBefore

theorem suffix_eq_none_of_ends {front : Text} (isIdentifier : IsIdentifier name)
    (ends : front ++ name = '\t' :: ("field:".toList ++ field.declaration)) :
    field.suffix = none := by
  cases hasSuffix : field.suffix with
  | none => rfl
  | some text =>
      have closes : ('\t' :: ("field:".toList ++ field.declaration)).getLast? = some ']' := by
        rw [← List.cons_append, List.getLast?_append,
          field.getLast_declaration_of_suffix hasSuffix]
        rfl
      rcases List.eq_nil_or_concat' name with none | ⟨start, last, rfl⟩
      · exact absurd none isIdentifier.nonempty
      · rw [← ends, ← List.append_assoc, List.getLast?_concat] at closes
        have isChar := isIdentifier.chars last (List.mem_append_right _ (List.mem_singleton_self _))
        rw [Option.some.inj closes] at isChar
        exact absurd isChar (by decide)

theorem of_ends {front : Text} {mark : Char} (isIdentifier : IsIdentifier name)
    (isMark : mark = ' ' ∨ mark = '*')
    (ends : (front ++ [mark]) ++ name = '\t' :: ("field:".toList ++ field.declaration)) :
    field.name.toList = name ∧ field.Searchable := by
  have noSuffix := field.suffix_eq_none_of_ends isIdentifier ends
  rw [field.declaration_of_no_suffix noSuffix, ← List.append_assoc, ← List.cons_append] at ends
  have leftEnds : ∀ char ∈ (front ++ [mark]).getLast?, isIdentifierChar char = false := by
    intro char isLast
    rw [List.getLast?_concat] at isLast
    cases isLast
    rcases isMark with rfl | rfl <;> decide
  have rightEnds : ∀ char ∈ ('\t' :: ("field:".toList ++ field.beforeName)).getLast?,
      isIdentifierChar char = false := by
    intro char isLast
    rcases field.getLast_before char isLast with rfl | ⟨_, rfl | rfl⟩ <;> decide
  rcases Text.eq_of_append_run leftEnds rightEnds isIdentifier.chars
    field.isIdentifier.chars ends with ⟨sameBefore, sameName⟩
  refine ⟨sameName.symm, noSuffix, field.beforeName_ne_nil_iff.mp ?_⟩
  have isLast : mark ∈ ('\t' :: ("field:".toList ++ field.beforeName)).getLast? := by
    rw [← sameBefore, List.getLast?_concat]
    rfl
  rcases field.getLast_before mark isLast with isColon | typed
  · rw [isColon] at isMark
    exact absurd isMark (by decide)
  · exact typed.1

/-- A field's line is found under its own name, and only if the name comes last
in the declaration. -/
theorem occurs_line (isIdentifier : IsIdentifier name) :
    occurs (Preflight.fieldSearch name) field.line = true ↔
      field.name.toList = name ∧ field.Searchable := by
  rw [field.occurs_line_iff isIdentifier]
  constructor
  · intro found
    rcases found with ⟨inner, mark, ⟨before, isSuffix⟩, _, isMark⟩
    have ends : ((before ++ "field:".toList ++ inner) ++ [mark]) ++ name =
        '\t' :: ("field:".toList ++ field.declaration) := by
      rw [← isSuffix]
      simp only [List.append_assoc, List.singleton_append]
    exact field.of_ends isIdentifier isMark ends
  · intro found
    rcases found with ⟨rfl, noSuffix, typed⟩
    rcases List.eq_nil_or_concat' field.beforeName with none | ⟨inner, mark, isBefore⟩
    · exact absurd none (field.beforeName_ne_nil_iff.mpr typed)
    · have isDeclaration : field.declaration = inner ++ mark :: field.name.toList := by
        rw [field.declaration_of_no_suffix noSuffix, isBefore, List.append_assoc]
        rfl
      refine ⟨inner, mark, ⟨['\t'], by rw [isDeclaration]; rfl⟩, ?_, ?_⟩
      · intro member
        apply field.semicolon_not_mem_declaration
        rw [isDeclaration]
        exact List.mem_append_left _ member
      · apply field.getLast_beforeName
        rw [isBefore, List.getLast?_concat]
        rfl

end KernelField

/-! ## What is read from a line -/

theorem extract_eq_decimal_iff {key : String} {line : Text} {value : Nat} :
    Preflight.extract key line = Text.decimal value ↔
      LastRun key.toList Char.isDigit line (Text.decimal value) := by
  have nonempty : Text.decimal value ≠ [] := Nat.toDigits_ne_nil
  rw [← substitute_eq_some_iff, Preflight.extract]
  cases substitute (anything ++ literal key.toList) [.many Char.isDigit] anything line with
  | none => simp [nonempty.symm]
  | some run => simp

theorem extract_eq_decimal {key : String} {line front back : Text} {value : Nat}
    (head tail : Text) (mark : Char)
    (shape : line = front ++ (key.toList ++ (Text.decimal value ++ ';' :: back)))
    (marked : key.toList = head ++ mark :: tail) (notDigit : mark.isDigit = false)
    (absent : mark ∉ tail ++ ';' :: back) :
    Preflight.extract key line = Text.decimal value := by
  have ends : ∀ char ∈ (';' :: back).head?, char.isDigit = false := by
    intro char isFirst
    cases isFirst
    decide
  have notAgain : mark ∉ tail ++ (Text.decimal value ++ ';' :: back) := by
    have notInValue : mark ∉ Text.decimal value := by
      intro member
      rw [Text.isDigit_of_mem_decimal member] at notDigit
      cases notDigit
    simp only [List.mem_append, not_or] at absent ⊢
    exact ⟨absent.1, notInValue, absent.2⟩
  have notLater : ∀ later, later <:+ key.toList ++ (Text.decimal value ++ ';' :: back) →
      later ≠ key.toList ++ (Text.decimal value ++ ';' :: back) → ¬ key.toList <+: later := by
    intro later isLater notWhole
    rw [marked, List.append_assoc, List.cons_append] at isLater notWhole
    rw [marked]
    exact not_prefix_of_later notAgain isLater notWhole
  rw [extract_eq_decimal_iff, shape]
  exact .intro front _ _ (fun _ => Text.isDigit_of_mem_decimal) ends notLater

namespace KernelField

variable (field : KernelField)

theorem extract_offset : Preflight.extract "offset:" field.line = Text.decimal field.offset := by
  have shape : field.line = ('\t' :: ("field:".toList ++ field.declaration ++ [';', '\t'])) ++
      ("offset:".toList ++ (Text.decimal field.offset ++ ';' ::
        (part "size" field.size ++ ';' :: (part "signed" field.signed ++ [';'])))) := by
    simp [line, attributes, part]
  apply extract_eq_decimal [] "ffset:".toList 'o' shape (by decide) (by decide)
  have notInSize : 'o' ∉ part "size" field.size :=
    not_mem_part (by decide) (by decide) (by decide) (by decide)
  have notInSigned : 'o' ∉ part "signed" field.signed :=
    not_mem_part (by decide) (by decide) (by decide) (by decide)
  simp [notInSize, notInSigned]

theorem extract_size : Preflight.extract "size:" field.line = Text.decimal field.size := by
  have shape : field.line = ('\t' :: ("field:".toList ++ field.declaration ++ ';' ::
      (part "offset" field.offset ++ [';', '\t']))) ++
      ("size:".toList ++ (Text.decimal field.size ++ ';' ::
        (part "signed" field.signed ++ [';']))) := by
    simp [line, attributes, part]
  -- the first letter of the key comes again in `signed`, the third does not
  apply extract_eq_decimal "si".toList "e:".toList 'z' shape (by decide) (by decide)
  have notInSigned : 'z' ∉ part "signed" field.signed :=
    not_mem_part (by decide) (by decide) (by decide) (by decide)
  simp [notInSigned]

example : Preflight.extract "size:" "\tfield:int pid;\toffset:8;\tsize:4;\tsigned:1;".toList =
    ['4'] := by
  decide

theorem isFail_line (want : Field) :
    (Preflight.checkLine (.ofField want) field.line).isFail = false ↔
      field.offset = want.offset ∧ field.size = want.size := by
  rw [Preflight.isFail_checkLine, extract_offset, extract_size]
  simp only [Preflight.Spec.ofField, Text.decimal_inj]

end KernelField

/-! ## The script on a printed layout -/

/-- A layout whose event is named as the kernel names events. -/
structure KernelFormat extends TracepointLayout where
  isIdentifier : IsIdentifier eventName

namespace TracepointLayout

variable (layout : TracepointLayout) (want : Field)

def fmtLine : Text := "print fmt: ".toList ++ layout.printFmt

def InPlace : Prop :=
  ∃ field ∈ layout.fields,
    field.name = want.name ∧ field.offset = want.offset ∧ field.size = want.size

def Sought : Prop := ∃ field ∈ layout.fields, field.name = want.name ∧ field.Searchable

structure Imitated : Prop where
  declared : ∃ inner mark, ("field:".toList ++ (inner ++ mark :: want.name.toList)) ++ [';'] <:+:
    layout.fmtLine ∧ ';' ∉ inner ∧ (mark = ' ' ∨ mark = '*')
  offset : LastRun "offset:".toList Char.isDigit layout.fmtLine (Text.decimal want.offset)
  size : LastRun "size:".toList Char.isDigit layout.fmtLine (Text.decimal want.size)

theorem imitated_iff :
    layout.Imitated want ↔
      occurs (Preflight.fieldSearch want.name.toList) layout.fmtLine = true ∧
        (Preflight.checkLine (.ofField want) layout.fmtLine).isFail = false := by
  rw [Preflight.isFail_checkLine, occurs_iff]
  simp only [denotes_fieldSearch, Preflight.Spec.ofField, extract_eq_decimal_iff]
  constructor
  · intro imitated
    rcases imitated with ⟨⟨inner, mark, inside, rest⟩, offset, size⟩
    exact ⟨⟨_, inside, inner, mark, rfl, rest⟩, offset, size⟩
  · intro imitated
    rcases imitated with ⟨⟨_, inside, inner, mark, rfl, rest⟩, offset, size⟩
    exact ⟨⟨inner, mark, inside, rest⟩, offset, size⟩

end TracepointLayout

theorem isIdentifier_of_required {want : Field} (required : want ∈ requiredFields) :
    IsIdentifier want.name.toList := by
  have every : (requiredFields.all fun want => !want.name.toList.isEmpty &&
      want.name.toList.head?.all isIdentifierStart && want.name.toList.all isIdentifierChar) =
      true := by decide
  have checked := List.all_eq_true.mp every want required
  simp only [Bool.and_eq_true, Bool.not_eq_true', List.isEmpty_eq_false_iff, Option.all_eq_true,
    List.all_eq_true] at checked
  exact ⟨checked.1.1, checked.1.2, checked.2⟩

namespace TracepointLayout

variable (layout : TracepointLayout) {want : Field}

theorem inPlace_iff_of_mem {field : KernelField} (member : field ∈ layout.fields)
    (sameName : field.name = want.name) :
    layout.InPlace want ↔ field.offset = want.offset ∧ field.size = want.size := by
  constructor
  · intro inPlace
    rcases inPlace with ⟨other, isOther, otherName, placed⟩
    have sameField : other = field :=
      List.inj_on_of_nodup_map layout.distinct isOther member (otherName.trans sameName.symm)
    exact sameField ▸ placed
  · exact fun placed => ⟨field, member, sameName, placed⟩

theorem mem_fields_iff {field : KernelField} :
    field ∈ layout.fields ↔ some field ∈ layout.body := by
  simp [fields, List.mem_filterMap]

theorem exists_field_of_found {name line : Text} (isIdentifier : IsIdentifier name)
    (member : line ∈ layout.body.map bodyLine)
    (found : occurs (Preflight.fieldSearch name) line = true) :
    ∃ field ∈ layout.fields, line = field.line ∧ field.name.toList = name ∧ field.Searchable := by
  rcases List.mem_map.mp member with ⟨entry, isEntry, rfl⟩
  cases entry with
  | none =>
      have blank := List.infix_nil.mp (word_infix_of_occurs found)
      simp at blank
  | some field =>
      exact ⟨field, layout.mem_fields_iff.mpr isEntry, rfl,
        (field.occurs_line isIdentifier).mp found⟩

theorem find_body_of_sought (required : want ∈ requiredFields) {field : KernelField}
    (member : field ∈ layout.fields) (sameName : field.name = want.name)
    (searchable : field.Searchable) :
    (layout.body.map bodyLine).find? (occurs (Preflight.fieldSearch want.name.toList)) =
      some field.line := by
  have isIdentifier := isIdentifier_of_required required
  have itself : occurs (Preflight.fieldSearch want.name.toList) field.line = true :=
    (field.occurs_line isIdentifier).mpr ⟨by rw [sameName], searchable⟩
  have inBody : field.line ∈ layout.body.map bodyLine :=
    List.mem_map.mpr ⟨some field, layout.mem_fields_iff.mp member, rfl⟩
  cases isFound : (layout.body.map bodyLine).find?
      (occurs (Preflight.fieldSearch want.name.toList)) with
  | none => exact absurd itself (List.find?_eq_none.mp isFound _ inBody)
  | some line =>
      -- the names are distinct, so no other field is found before it
      rcases layout.exists_field_of_found isIdentifier (List.mem_of_find?_eq_some isFound)
        (List.find?_some isFound) with ⟨other, isOther, rfl, otherName, _⟩
      have sameField : other = field := by
        apply List.inj_on_of_nodup_map layout.distinct isOther member
        rw [sameName]
        exact String.toList_injective otherName
      rw [sameField]

theorem find_body_of_not_sought (required : want ∈ requiredFields)
    (notSought : ¬ layout.Sought want) :
    (layout.body.map bodyLine).find? (occurs (Preflight.fieldSearch want.name.toList)) = none := by
  rw [List.find?_eq_none]
  intro line inBody found
  rcases layout.exists_field_of_found (isIdentifier_of_required required) inBody found
    with ⟨field, member, _, sameName, searchable⟩
  exact notSought ⟨field, member, String.toList_injective sameName, searchable⟩

end TracepointLayout

namespace KernelFormat

variable (format : KernelFormat) {want : Field}

theorem find_header (name : Text) :
    (["name: ".toList ++ format.eventName, "ID: ".toList ++ Text.decimal format.eventId,
      "format:".toList] : List Text).find? (occurs (Preflight.fieldSearch name)) = none := by
  have nameLine : ¬ occurs (Preflight.fieldSearch name)
      ("name".toList ++ ':' :: (' ' :: format.eventName)) = true := by
    apply not_occurs_of_colon (by decide) (by decide)
    apply no_word_of_no_colon
    intro member
    rcases List.mem_cons.mp member with isSpace | inName
    · exact absurd isSpace (by decide)
    · exact absurd (format.isIdentifier.chars ':' inName) (by decide)
  have idLine : ¬ occurs (Preflight.fieldSearch name)
      ("ID".toList ++ ':' :: (' ' :: Text.decimal format.eventId)) = true := by
    apply not_occurs_of_colon (by decide) (by decide)
    apply no_word_of_no_colon
    intro member
    rcases List.mem_cons.mp member with isSpace | isDigit
    · exact absurd isSpace (by decide)
    · exact absurd (Text.isDigit_of_mem_decimal isDigit) (by decide)
  have formatLine : ¬ occurs (Preflight.fieldSearch name) ("format".toList ++ ':' :: []) = true :=
    not_occurs_of_colon (by decide) (by decide) (by decide)
  rw [List.find?_eq_none]
  intro line isLine
  simp only [List.mem_cons, List.not_mem_nil, or_false] at isLine
  rcases isLine with rfl | rfl | rfl
  · exact nameLine
  · exact idLine
  · exact formatLine

theorem find_lines (name : Text) :
    (inputLines format.print.toList).find? (occurs (Preflight.fieldSearch name)) =
      ((format.body.map TracepointLayout.bodyLine).find? (occurs (Preflight.fieldSearch name))).or
        ([format.fmtLine].find? (occurs (Preflight.fieldSearch name))) := by
  rw [TracepointLayout.print, String.toList_ofList,
    inputLines_terminated format.newline_not_mem_lines, TracepointLayout.lines,
    List.find?_append, List.find?_append, find_header, Option.none_or]
  rfl

/-- The script passes a field it finds in place, and one it does not find if the
print format imitates it. -/
theorem isFail_checkSpec_print (required : want ∈ requiredFields) :
    (Preflight.checkSpec format.print.toList (.ofField want)).isFail = false ↔
      (format.Sought want ∧ format.InPlace want) ∨
        (¬ format.Sought want ∧ format.Imitated want) := by
  have found := format.find_lines want.name.toList
  rw [Preflight.isFail_checkSpec]
  change (∃ line, (inputLines format.print.toList).find?
    (occurs (Preflight.fieldSearch want.name.toList)) = some line ∧ _) ↔ _
  by_cases sought : format.Sought want
  · have isSought := sought
    rcases sought with ⟨field, member, sameName, searchable⟩
    rw [format.find_body_of_sought required member sameName searchable, Option.some_or] at found
    rw [found, format.inPlace_iff_of_mem member sameName, ← field.isFail_line]
    simp only [Option.some.injEq, exists_eq_left', isSought, true_and, not_true_eq_false,
      false_and, or_false]
  · rw [format.find_body_of_not_sought required sought, Option.none_or,
      List.find?_singleton] at found
    rw [found, format.imitated_iff]
    simp only [Option.ite_none_right_eq_some, Option.some.injEq, and_assoc, exists_and_left,
      exists_eq_left', sought, false_and, not_false_eq_true, true_and, false_or]

theorem failures_layoutStep_print :
    Preflight.failures (Preflight.layoutStep format.print) = 0 ↔
      ∀ want ∈ requiredFields, (format.Sought want ∧ format.InPlace want) ∨
        (¬ format.Sought want ∧ format.Imitated want) := by
  rw [Preflight.failures_layoutStep]
  exact forall₂_congr fun want required => format.isFail_checkSpec_print required

theorem checkLayout_print_eq_nil :
    checkLayout format.print = [] ↔ ∀ want ∈ requiredFields, format.InPlace want := by
  simp only [checkLayout, List.filterMap_eq_nil_iff, format.checkField_eq_none_iff,
    TracepointLayout.InPlace]

theorem not_imitated (noWord : ¬ "field".toList ++ [':'] <:+: format.printFmt) :
    ¬ format.Imitated want := by
  intro imitated
  have found := ((format.imitated_iff want).mp imitated).1
  apply absurd found
  change ¬ occurs (Preflight.fieldSearch want.name.toList)
    ("print fmt".toList ++ ':' :: (' ' :: format.printFmt)) = true
  apply not_occurs_of_colon (by decide) (by decide)
  intro inside
  rcases List.infix_cons_iff.mp inside with isPrefix | inFmt
  · exact absurd (List.cons_prefix_cons.mp isPrefix).1 (by decide)
  · exact noWord inFmt

/-- Every required field is in place, but the script does not find one of them. -/
def RuledOut : Prop :=
  (∀ want ∈ requiredFields, format.InPlace want) ∧
    ∃ want ∈ requiredFields, ¬ format.Sought want ∧ ¬ format.Imitated want

/-- Some required field is not in place, but of all that the script does not find,
the print format imitates the lines. -/
def RuledIn : Prop :=
  (∃ want ∈ requiredFields, ¬ format.InPlace want) ∧
    ∀ want ∈ requiredFields,
      (format.Sought want ∧ format.InPlace want) ∨
        (¬ format.Sought want ∧ format.Imitated want)

end KernelFormat

/-- The script and the binary agree on a kernel exactly if the script neither
misses the declaration of a field in place nor takes the print format for the
lines of fields that are not. -/
theorem preflight_agrees_iff (format : KernelFormat) :
    (Preflight.failures (Preflight.layoutStep format.print) = 0 ↔ checkLayout format.print = []) ↔
      ¬ format.RuledOut ∧ ¬ format.RuledIn := by
  rw [format.failures_layoutStep_print, format.checkLayout_print_eq_nil]
  by_cases placed : ∀ want ∈ requiredFields, format.InPlace want
  · have passes : (∀ want ∈ requiredFields, (format.Sought want ∧ format.InPlace want) ∨
        (¬ format.Sought want ∧ format.Imitated want)) ↔
          ¬ ∃ want ∈ requiredFields, ¬ format.Sought want ∧ ¬ format.Imitated want := by
      simp only [not_exists, not_and, not_not]
      apply forall₂_congr
      intro want required
      rw [and_iff_left (placed want required)]
      by_cases sought : format.Sought want
      · simp only [sought, true_or, not_true_eq_false, false_implies]
      · simp only [sought, false_or, not_false_eq_true, true_and, forall_const]
    rw [iff_true_right placed, passes]
    constructor
    · intro noneMissed
      refine ⟨fun ruledOut => noneMissed ruledOut.2, fun ruledIn => ?_⟩
      rcases ruledIn.1 with ⟨want, required, astray⟩
      exact astray (placed want required)
    · exact fun agrees missed => agrees.1 ⟨placed, missed⟩
  · have someAstray : ∃ want ∈ requiredFields, ¬ format.InPlace want := by
      simpa using placed
    rw [iff_false_right placed]
    constructor
    · intro fails
      exact ⟨fun ruledOut => placed ruledOut.1, fun ruledIn => fails ruledIn.2⟩
    · exact fun agrees passes => agrees.2 ⟨someAstray, passes⟩

/-- Unless the print format has the word, only a field that is in place but not
declared with its name last is judged otherwise. -/
theorem preflight_agrees_of_no_word (format : KernelFormat)
    (noWord : ¬ "field".toList ++ [':'] <:+: format.printFmt) :
    (Preflight.failures (Preflight.layoutStep format.print) = 0 ↔ checkLayout format.print = []) ↔
      ((∀ want ∈ requiredFields, format.InPlace want) →
        ∀ want ∈ requiredFields, format.Sought want) := by
  rw [format.failures_layoutStep_print, format.checkLayout_print_eq_nil]
  simp only [format.not_imitated noWord, and_false, or_false, forall_and]
  exact and_iff_right_iff_imp

/-! ## A field declared as an array -/

def typeOf (want : Field) : Text :=
  (if want.name = "comm" then "char" else if want.size = 8 then "long"
    else if want.size = 4 then "int" else "short").toList

def arrayField (want : Field) (required : want ∈ requiredFields) : KernelField where
  typeTokens := [typeOf want]
  stars := 0
  name := want.name
  suffix := if want.name = "comm" then some "4".toList else none
  offset := want.offset
  size := want.size
  signed := 1
  isWord := by
    intro token isToken
    rw [List.mem_singleton.mp isToken]
    have nonempty : ∀ want ∈ requiredFields, typeOf want ≠ [] := by decide
    have solid : ∀ want ∈ requiredFields, ((typeOf want).all fun char =>
        decide (Text.isWhitespace char = false)) = true := by decide
    exact ⟨nonempty want required, Text.forall_of_all (solid want required)⟩
  oneDeclaration := by
    intro token isToken
    rw [List.mem_singleton.mp isToken]
    have oneDeclaration : ∀ want ∈ requiredFields, ';' ∉ typeOf want := by decide
    exact oneDeclaration want required
  isIdentifier := isIdentifier_of_required required
  plainSuffix := by
    intro text isText
    split at isText
    · cases isText
      exact Text.forall_of_all (by decide)
    · cases isText
  offsetFits := by
    revert want
    decide
  sizeFits := by
    revert want
    decide
  signedFits := by decide

def arrayFormat : KernelFormat where
  eventName := "mark_victim".toList
  eventId := 1442
  body := requiredFields.attach.map fun want => some (arrayField want.1 want.2)
  printFmt := "\"pid=%d\", REC->pid".toList
  nameOnOneLine := by decide
  fmtOnOneLine := by decide
  distinct := by decide
  isIdentifier := {
    nonempty := by decide
    start := by
      intro char isFirst
      cases isFirst
      decide
    chars := Text.forall_of_all (by decide) }

theorem mem_fields_arrayFormat {field : KernelField} :
    field ∈ arrayFormat.fields ↔ ∃ want, ∃ required : want ∈ requiredFields,
      field = arrayField want required := by
  have inBody : some field ∈ arrayFormat.body ↔
      ∃ want ∈ requiredFields.attach, some (arrayField want.1 want.2) = some field := List.mem_map
  rw [TracepointLayout.mem_fields_iff, inBody]
  constructor
  · intro member
    rcases member with ⟨⟨want, required⟩, _, isField⟩
    exact ⟨want, required, (Option.some.inj isField).symm⟩
  · intro member
    rcases member with ⟨want, required, rfl⟩
    exact ⟨⟨want, required⟩, List.mem_attach _ _, rfl⟩

theorem inPlace_arrayFormat {want : Field} (required : want ∈ requiredFields) :
    arrayFormat.InPlace want :=
  ⟨arrayField want required, mem_fields_arrayFormat.mpr ⟨want, required, rfl⟩, rfl, rfl, rfl⟩

/-- Such an array is there for the binary and missing for the script. -/
theorem preflight_misses_array :
    ¬ (Preflight.failures (Preflight.layoutStep arrayFormat.print) = 0 ↔
      checkLayout arrayFormat.print = []) := by
  have placed : checkLayout arrayFormat.print = [] := by
    rw [arrayFormat.checkLayout_print_eq_nil]
    exact fun want required => inPlace_arrayFormat required
  have required : ⟨"comm", 12, 4⟩ ∈ requiredFields := by decide
  have noWord : ¬ "field".toList ++ [':'] <:+: arrayFormat.printFmt := by decide
  rw [iff_true_right placed, arrayFormat.failures_layoutStep_print]
  intro passes
  rcases passes _ required with ⟨⟨field, member, sameName, searchable⟩, _⟩ | ⟨_, imitated⟩
  · rcases mem_fields_arrayFormat.mp member with ⟨want, wanted, rfl⟩
    have hasSuffix : (arrayField want wanted).suffix = some "4".toList := if_pos sameName
    rw [searchable.1] at hasSuffix
    cases hasSuffix
  · exact arrayFormat.not_imitated noWord imitated

end OomWatcher
