import Mathlib.Data.List.Nodup
import OomWatcher.Events
import OomWatcher.Foundation.Text

/-! # The layout of the tracepoint

The check of the kernel's `format` file against the layout the probe decodes. -/

namespace OomWatcher

/-! ## The parser -/

structure Field where
  name : String
  offset : Nat
  size : Nat
deriving DecidableEq, Repr

def requiredFields : List Field :=
  [⟨"pid", 8, 4⟩, ⟨"comm", 12, 4⟩, ⟨"total_vm", 16, 8⟩, ⟨"anon_rss", 24, 8⟩,
    ⟨"file_rss", 32, 8⟩, ⟨"shmem_rss", 40, 8⟩, ⟨"uid", 48, 4⟩, ⟨"pgtables", 56, 8⟩,
    ⟨"oom_score_adj", 64, 2⟩]

/-- How the kernel's layout differs from the one the probe decodes. The offset
comes before the size. -/
inductive Mismatch
  | missing (name : String)
  | moved (name : String) (expected found : Nat × Nat)
deriving DecidableEq, Repr

def Mismatch.name : Mismatch → String
  | .missing name | .moved name _ _ => name

def attrOf (key : String) (part : Text) : Option Nat := do
  let afterKey ← Text.stripPrefix key.toList (Text.trim part)
  let value ← Text.stripPrefix [':'] afterKey
  Text.parseUnsigned u64Modulus (Text.trim value)

def attr (attrs : Text) (key : String) : Option Nat :=
  (Text.split ';' attrs).findSome? (attrOf key)

/-- The last token of a declaration, without array suffix and stars. -/
def declaredName (decl : Text) : Option Text := do
  let token ← (Text.splitWhitespace decl).getLast?
  let bare ← (Text.split '[' token).head?
  let name := Text.trimStartMatches '*' bare
  if name.isEmpty then none else some name

def parseLine (line : Text) : Option (String × Nat × Nat) := do
  let rest ← Text.stripPrefix "field:".toList (Text.trim line)
  let (decl, attrs) ← Text.splitOnce ';' rest
  let name ← declaredName decl
  let offset ← attr attrs "offset"
  let size ← attr attrs "size"
  some (String.ofList name, offset, size)

def parseFormat (text : String) : List (String × Nat × Nat) :=
  (Text.lines text.toList).filterMap parseLine

def checkField (found : List (String × Nat × Nat)) (want : Field) : Option Mismatch :=
  match found.find? fun (name, _, _) => name == want.name with
  | none => some (.missing want.name)
  | some (_, offset, size) =>
      if (offset, size) ≠ (want.offset, want.size) then
        some (.moved want.name (want.offset, want.size) (offset, size))
      else none

def checkLayout (text : String) : List Mismatch :=
  requiredFields.filterMap (checkField (parseFormat text))

example : parseFormat "\tfield:char comm[16];\toffset:12;\tsize:16;\tsigned:1;" =
    [("comm", 12, 16)] := by
  decide

/-! ## What the kernel prints -/

def isIdentifierStart (char : Char) : Bool := char.isAlpha || char == '_'

def isIdentifierChar (char : Char) : Bool := char.isAlphanum || char == '_'

structure IsIdentifier (text : Text) : Prop where
  nonempty : text ≠ []
  start : ∀ char ∈ text.head?, isIdentifierStart char = true
  chars : ∀ char ∈ text, isIdentifierChar char = true

def isPlain (char : Char) : Bool :=
  !Text.isWhitespace char && char != '[' && char != ']' && char != ';'

/-- A field as the kernel declares it. Stars that are not attached to the name
are among the type tokens. -/
structure KernelField where
  typeTokens : List Text
  stars : Nat
  name : String
  suffix : Option Text
  offset : Nat
  size : Nat
  signed : Nat
  isWord : ∀ token ∈ typeTokens, Text.IsWord token
  oneDeclaration : ∀ token ∈ typeTokens, ';' ∉ token
  isIdentifier : IsIdentifier name.toList
  plainSuffix : ∀ text ∈ suffix, ∀ char ∈ text, isPlain char = true
  offsetFits : offset < u64Modulus
  sizeFits : size < u64Modulus
  signedFits : signed < u64Modulus

namespace KernelField

def declarator (field : KernelField) : Text :=
  List.replicate field.stars '*' ++ field.name.toList ++
    match field.suffix with
    | none => []
    | some text => '[' :: (text ++ [']'])

def declaration (field : KernelField) : Text :=
  (field.typeTokens.map (· ++ [' '])).flatten ++ field.declarator

def part (key : String) (value : Nat) : Text :=
  '\t' :: (key.toList ++ ':' :: Text.decimal value)

def attributes (field : KernelField) : List Text :=
  [part "offset" field.offset, part "size" field.size, part "signed" field.signed]

def line (field : KernelField) : Text :=
  '\t' :: ("field:".toList ++
    (field.declaration ++ ';' :: (field.attributes.map (· ++ [';'])).flatten))

example : ∃ field : KernelField,
    field.line = "\tfield:char *argv[16];\toffset:12;\tsize:16;\tsigned:1;".toList :=
  ⟨{  typeTokens := ["char".toList]
      stars := 1
      name := "argv"
      suffix := some "16".toList
      offset := 12
      size := 16
      signed := 1
      isWord := by
        intro token isToken
        rw [List.mem_singleton.mp isToken]
        exact ⟨by decide, Text.forall_of_all (by decide)⟩
      oneDeclaration := by decide
      isIdentifier := {
        nonempty := by decide
        start := by
          intro char isFirst
          cases isFirst
          decide
        chars := Text.forall_of_all (by decide) }
      plainSuffix := by
        intro text isText
        cases isText
        exact Text.forall_of_all (by decide)
      offsetFits := by decide
      sizeFits := by decide
      signedFits := by decide }, by decide⟩

end KernelField

/-- A tracepoint's layout and what else its `format` file shows. A `none` in the
body is a blank line. -/
structure TracepointLayout where
  eventName : Text
  eventId : Nat
  body : List (Option KernelField)
  printFmt : Text
  nameOnOneLine : '\n' ∉ eventName
  fmtOnOneLine : '\n' ∉ printFmt
  distinct : ((body.filterMap id).map KernelField.name).Nodup

namespace TracepointLayout

def fields (layout : TracepointLayout) : List KernelField := layout.body.filterMap id

def bodyLine : Option KernelField → Text
  | none => []
  | some field => field.line

def lines (layout : TracepointLayout) : List Text :=
  ["name: ".toList ++ layout.eventName, "ID: ".toList ++ Text.decimal layout.eventId,
    "format:".toList] ++
  layout.body.map bodyLine ++ ["print fmt: ".toList ++ layout.printFmt]

def print (layout : TracepointLayout) : String :=
  String.ofList (layout.lines.map (· ++ ['\n'])).flatten

end TracepointLayout

/-! ## Characters -/

theorem toNat_of_between {char : Char} {least greatest : UInt32}
    (between : least ≤ char.val ∧ char.val ≤ greatest) :
    least.toNat ≤ char.toNat ∧ char.toNat ≤ greatest.toNat :=
  ⟨UInt32.le_iff_toNat_le.mp between.1, UInt32.le_iff_toNat_le.mp between.2⟩

theorem toNat_of_isIdentifierChar {char : Char} (isChar : isIdentifierChar char = true) :
    (48 ≤ char.toNat ∧ char.toNat ≤ 57) ∨ (65 ≤ char.toNat ∧ char.toNat ≤ 90) ∨
      (97 ≤ char.toNat ∧ char.toNat ≤ 122) ∨ char.toNat = 95 := by
  rcases Bool.or_eq_true_iff.mp isChar with alphanumeric | underscore
  · rcases Bool.or_eq_true_iff.mp alphanumeric with letter | digit
    · rcases Bool.or_eq_true_iff.mp letter with upper | lower
      · have between : 'A'.val ≤ char.val ∧ char.val ≤ 'Z'.val := of_decide_eq_true upper
        exact .inr (.inl (toNat_of_between between))
      · rcases Bool.and_eq_true_iff.mp lower with ⟨fromA, toZ⟩
        have between : 'a'.val ≤ char.val ∧ char.val ≤ 'z'.val :=
          ⟨of_decide_eq_true fromA, of_decide_eq_true toZ⟩
        exact .inr (.inr (.inl (toNat_of_between between)))
    · exact .inl (Char.isDigit_iff_toNat.mp digit)
  · exact .inr (.inr (.inr (congrArg Char.toNat (beq_iff_eq.mp underscore))))

theorem isWhitespace_of_isIdentifierChar {char : Char} (isChar : isIdentifierChar char = true) :
    Text.isWhitespace char = false := by
  have range := toNat_of_isIdentifierChar isChar
  simp [Text.isWhitespace]
  omega

theorem ne_of_isIdentifierChar {char other : Char} (isChar : isIdentifierChar char = true)
    (isOther : isIdentifierChar other = false) : char ≠ other := by
  intro equal
  rw [equal, isOther] at isChar
  cases isChar

/-! ## A printed field is read back -/

namespace KernelField

variable (field : KernelField)

theorem head_name : field.name.toList.head? ≠ some '*' := by
  intro isStar
  have isStart := field.isIdentifier.start '*' isStar
  exact absurd isStart (by decide)

theorem isPlain_of_mem_starred {char : Char}
    (member : char ∈ List.replicate field.stars '*' ++ field.name.toList) :
    isPlain char = true := by
  rcases List.mem_append.mp member with isStar | inName
  · rw [(List.mem_replicate.mp isStar).2]
    decide
  · have isChar := field.isIdentifier.chars char inName
    have bracketOpen : char ≠ '[' := ne_of_isIdentifierChar isChar (by decide)
    have bracketClose : char ≠ ']' := ne_of_isIdentifierChar isChar (by decide)
    have semicolon : char ≠ ';' := ne_of_isIdentifierChar isChar (by decide)
    simp [isPlain, isWhitespace_of_isIdentifierChar isChar, bracketOpen, bracketClose, semicolon]

theorem of_mem_declarator {char : Char} (member : char ∈ field.declarator) :
    Text.isWhitespace char = false ∧ char ≠ ';' := by
  have ofPlain : isPlain char = true → Text.isWhitespace char = false ∧ char ≠ ';' := by
    intro plain
    simp only [isPlain, Bool.and_eq_true, Bool.not_eq_true', bne_iff_ne] at plain
    exact ⟨plain.1.1.1, plain.2⟩
  rw [declarator] at member
  rcases List.mem_append.mp member with starred | inSuffix
  · exact ofPlain (field.isPlain_of_mem_starred starred)
  · cases isSuffix : field.suffix with
    | none =>
        rw [isSuffix] at inSuffix
        cases inSuffix
    | some text =>
        rw [isSuffix] at inSuffix
        rcases List.mem_cons.mp inSuffix with rfl | rest
        · exact ⟨by decide, by decide⟩
        · rcases List.mem_append.mp rest with inText | isClose
          · exact ofPlain (field.plainSuffix text isSuffix char inText)
          · rw [List.mem_singleton.mp isClose]
            exact ⟨by decide, by decide⟩

theorem declarator_isWord : Text.IsWord field.declarator where
  nonempty := by
    rw [declarator]
    simp [field.isIdentifier.nonempty]
  solid char member := (field.of_mem_declarator member).1

theorem not_mem_declaration {char : Char} (notSpace : char ≠ ' ')
    (notInTokens : ∀ token ∈ field.typeTokens, char ∉ token)
    (notInDeclarator : char ∉ field.declarator) : char ∉ field.declaration := by
  intro member
  rcases List.mem_append.mp member with inTokens | inDeclarator
  · rcases List.mem_flatten.mp inTokens with ⟨_, isSpaced, inSpaced⟩
    rcases List.mem_map.mp isSpaced with ⟨token, isToken, rfl⟩
    rcases List.mem_append.mp inSpaced with inToken | isSpace
    · exact notInTokens token isToken inToken
    · exact notSpace (List.mem_singleton.mp isSpace)
  · exact notInDeclarator inDeclarator

theorem semicolon_not_mem_declaration : ';' ∉ field.declaration := by
  apply field.not_mem_declaration (by decide) field.oneDeclaration
  exact fun member => (field.of_mem_declarator member).2 rfl

theorem newline_not_mem_declaration : '\n' ∉ field.declaration := by
  apply field.not_mem_declaration (by decide)
  · intro token isToken member
    exact absurd ((field.isWord token isToken).solid '\n' member) (by decide)
  · intro member
    exact absurd (field.of_mem_declarator member).1 (by decide)

theorem head_split_declarator :
    (Text.split '[' field.declarator).head? =
      some (List.replicate field.stars '*' ++ field.name.toList) := by
  have absent : '[' ∉ List.replicate field.stars '*' ++ field.name.toList := by
    intro member
    exact absurd (field.isPlain_of_mem_starred member) (by decide)
  rw [declarator]
  cases field.suffix with
  | none => rw [List.append_nil, Text.split_of_absent absent, List.head?_cons]
  | some text => rw [Text.split_append absent, List.head?_cons]

theorem declaredName_declaration :
    declaredName field.declaration = some field.name.toList := by
  have lastToken : (Text.splitWhitespace field.declaration).getLast? = some field.declarator := by
    rw [declaration, Text.splitWhitespace_spaced field.isWord field.declarator_isWord]
    simp
  have notEmpty : field.name.toList.isEmpty = false :=
    List.isEmpty_eq_false_iff.mpr field.isIdentifier.nonempty
  simp only [declaredName, lastToken, field.head_split_declarator, Option.bind_eq_bind,
    Option.bind_some, Text.trimStartMatches_replicate _ field.head_name, notEmpty]
  rfl

end KernelField

section Attributes

structure IsKey (key : String) : Prop where
  nonempty : key.toList ≠ []
  solid : ∀ char ∈ key.toList, Text.isWhitespace char = false
  onePart : ';' ∉ key.toList

variable {key : String} {value : Nat}

theorem trim_part (isKey : IsKey key) :
    Text.trim (KernelField.part key value) = key.toList ++ ':' :: Text.decimal value := by
  have isSpace : Text.isWhitespace '\t' = true := by decide
  rw [KernelField.part, Text.trim_cons_of_isWhitespace isSpace]
  apply Text.trim_eq_self_of_forall
  intro char member
  rcases List.mem_append.mp member with inKey | rest
  · exact isKey.solid char inKey
  · rcases List.mem_cons.mp rest with rfl | isDigit
    · decide
    · exact Text.isWhitespace_of_isDigit (Text.isDigit_of_mem_decimal isDigit)

theorem attrOf_part (isKey : IsKey key) (fits : value < u64Modulus) :
    attrOf key (KernelField.part key value) = some value := by
  have trimmed : Text.trim (Text.decimal value) = Text.decimal value := by
    apply Text.trim_eq_self_of_forall
    intro char isDigit
    exact Text.isWhitespace_of_isDigit (Text.isDigit_of_mem_decimal isDigit)
  have afterColon : Text.stripPrefix [':'] (':' :: Text.decimal value) =
      some (Text.decimal value) := rfl
  simp only [attrOf, trim_part isKey, Text.stripPrefix_append, Option.bind_eq_bind,
    Option.bind_some, afterColon, trimmed, Text.parseUnsigned_decimal fits]

theorem attrOf_other_part {other : String} (isKey : IsKey other) (nonempty : key.toList ≠ [])
    (differ : key.toList.head? ≠ other.toList.head?) :
    attrOf key (KernelField.part other value) = none := by
  have headsDiffer : key.toList.head? ≠ (other.toList ++ ':' :: Text.decimal value).head? := by
    rwa [List.head?_append_of_ne_nil _ isKey.nonempty]
  simp only [attrOf, trim_part isKey, Text.stripPrefix_of_head_ne headsDiffer nonempty,
    Option.bind_eq_bind, Option.bind_none]

theorem not_mem_part {char : Char} (notTab : char ≠ '\t') (notInKey : char ∉ key.toList)
    (notColon : char ≠ ':') (notDigit : char.isDigit = false) :
    char ∉ KernelField.part key value := by
  intro member
  rcases List.mem_cons.mp member with isTab | rest
  · exact notTab isTab
  · rcases List.mem_append.mp rest with inKey | later
    · exact notInKey inKey
    · rcases List.mem_cons.mp later with isColon | isDigit
      · exact notColon isColon
      · rw [Text.isDigit_of_mem_decimal isDigit] at notDigit
        cases notDigit

theorem semicolon_not_mem_part (isKey : IsKey key) : ';' ∉ KernelField.part key value :=
  not_mem_part (by decide) isKey.onePart (by decide) (by decide)

theorem isKey_offset : IsKey "offset" :=
  ⟨by decide, Text.forall_of_all (by decide), by decide⟩

theorem isKey_size : IsKey "size" :=
  ⟨by decide, Text.forall_of_all (by decide), by decide⟩

theorem isKey_signed : IsKey "signed" :=
  ⟨by decide, Text.forall_of_all (by decide), by decide⟩

end Attributes

namespace KernelField

variable (field : KernelField)

theorem split_attributes :
    Text.split ';' (field.attributes.map (· ++ [';'])).flatten = field.attributes ++ [[]] := by
  apply Text.split_terminated
  intro piece member
  simp only [attributes, List.mem_cons, List.not_mem_nil, or_false] at member
  rcases member with rfl | rfl | rfl
  · exact semicolon_not_mem_part isKey_offset
  · exact semicolon_not_mem_part isKey_size
  · exact semicolon_not_mem_part isKey_signed

theorem attr_offset :
    attr (field.attributes.map (· ++ [';'])).flatten "offset" = some field.offset := by
  rw [attr, split_attributes, attributes, List.cons_append, List.findSome?_cons,
    attrOf_part isKey_offset field.offsetFits]

theorem attr_size :
    attr (field.attributes.map (· ++ [';'])).flatten "size" = some field.size := by
  have atOffset : attrOf "size" (part "offset" field.offset) = none :=
    attrOf_other_part isKey_offset isKey_size.nonempty (by decide)
  rw [attr, split_attributes, attributes, List.cons_append, List.findSome?_cons, atOffset,
    List.cons_append, List.findSome?_cons, attrOf_part isKey_size field.sizeFits]

theorem exists_ended_line : ∃ front : Text, "field:".toList ++
    (field.declaration ++ ';' :: (field.attributes.map (· ++ [';'])).flatten) = front ++ [';'] :=
  ⟨"field:".toList ++ (field.declaration ++ ';' :: (part "offset" field.offset ++
    ';' :: (part "size" field.size ++ ';' :: part "signed" field.signed))), by simp [attributes]⟩

theorem getLast_line : field.line.getLast? = some ';' := by
  rcases field.exists_ended_line with ⟨front, ended⟩
  rw [line, ended, ← List.cons_append, List.getLast?_concat]

theorem trim_line :
    Text.trim field.line = "field:".toList ++
      (field.declaration ++ ';' :: (field.attributes.map (· ++ [';'])).flatten) := by
  have isSpace : Text.isWhitespace '\t' = true := by decide
  rw [line, Text.trim_cons_of_isWhitespace isSpace]
  apply Text.trim_eq_self
  · intro char isFirst
    have begins : "field:".toList = 'f' :: "ield:".toList := by decide
    rw [begins, List.cons_append, List.head?_cons] at isFirst
    cases isFirst
    decide
  · intro char isLast
    rcases field.exists_ended_line with ⟨front, ended⟩
    rw [ended, List.getLast?_concat] at isLast
    cases isLast
    decide

theorem parseLine_line :
    parseLine (Text.stripCarriageReturn field.line) =
      some (field.name, field.offset, field.size) := by
  have notReturn : field.line.getLast? ≠ some '\r' := by
    rw [field.getLast_line]
    decide
  have split := Text.splitOnce_append field.semicolon_not_mem_declaration
    (field.attributes.map (· ++ [';'])).flatten
  rw [Text.stripCarriageReturn, if_neg notReturn]
  simp only [parseLine, trim_line, Text.stripPrefix_append, split, declaredName_declaration,
    attr_offset, attr_size, Option.bind_eq_bind, Option.bind_some, String.ofList_toList]

theorem not_mem_attributes {char : Char} (notSeparator : char ∉ ['\t', ':', ';'])
    (notDigit : char.isDigit = false)
    (notInKeys : ∀ key ∈ ["offset", "size", "signed"], char ∉ key.toList) :
    char ∉ (field.attributes.map (· ++ [';'])).flatten := by
  simp only [List.mem_cons, List.not_mem_nil, or_false, not_or] at notSeparator
  rcases notSeparator with ⟨notTab, notColon, notSemicolon⟩
  have notInPart : ∀ key ∈ ["offset", "size", "signed"], ∀ value, char ∉ part key value :=
    fun key isKey value => not_mem_part notTab (notInKeys key isKey) notColon notDigit
  intro member
  rcases List.mem_flatten.mp member with ⟨_, isEnded, inEnded⟩
  rcases List.mem_map.mp isEnded with ⟨piece, isPiece, rfl⟩
  rcases List.mem_append.mp inEnded with inPiece | isSemicolon
  · simp only [attributes, List.mem_cons, List.not_mem_nil, or_false] at isPiece
    rcases isPiece with rfl | rfl | rfl
    · exact notInPart "offset" (by decide) _ inPiece
    · exact notInPart "size" (by decide) _ inPiece
    · exact notInPart "signed" (by decide) _ inPiece
  · exact notSemicolon (List.mem_singleton.mp isSemicolon)

theorem newline_not_mem_line : '\n' ∉ field.line := by
  intro member
  rcases List.mem_cons.mp member with isTab | rest
  · exact absurd isTab (by decide)
  · rcases List.mem_append.mp rest with inWord | rest
    · exact absurd inWord (by decide)
    · rcases List.mem_append.mp rest with inDeclaration | rest
      · exact field.newline_not_mem_declaration inDeclaration
      · rcases List.mem_cons.mp rest with isSemicolon | inAttributes
        · exact absurd isSemicolon (by decide)
        · exact field.not_mem_attributes (by decide) (by decide) (by decide) inAttributes

end KernelField

/-! ## A printed file is read back -/

theorem parseLine_eq_none {first : Char} (solid : Text.isWhitespace first = false)
    (other : first ≠ 'f') (rest : Text) :
    parseLine (Text.stripCarriageReturn (first :: rest)) = none := by
  have notReturn : first ≠ '\r' := by
    intro equal
    rw [equal] at solid
    exact absurd solid (by decide)
  have stripped : ∃ left, Text.stripCarriageReturn (first :: rest) = first :: left := by
    rw [Text.stripCarriageReturn]
    split
    · next isReturn =>
        cases rest with
        | nil => exact absurd (Option.some.inj isReturn) notReturn
        | cons second rest => exact ⟨_, List.dropLast_cons_cons⟩
    · exact ⟨rest, rfl⟩
  rcases stripped with ⟨left, isLeft⟩
  have differ : "field:".toList.head? ≠ (Text.trim (first :: left)).head? := by
    rw [Text.head?_trim solid]
    intro equal
    exact other (Option.some.inj equal).symm
  have noField : Text.stripPrefix "field:".toList (Text.trim (first :: left)) = none :=
    Text.stripPrefix_of_head_ne differ (by decide)
  rw [isLeft, parseLine, noField]
  rfl

namespace TracepointLayout

variable (layout : TracepointLayout)

theorem newline_not_mem_lines : ∀ line ∈ layout.lines, '\n' ∉ line := by
  intro line isLine member
  simp only [lines, List.cons_append, List.nil_append, List.mem_cons, List.mem_append,
    List.mem_map, List.not_mem_nil, or_false] at isLine
  rcases isLine with rfl | rfl | rfl | ⟨entry, isEntry, rfl⟩ | rfl
  · rcases List.mem_append.mp member with inWord | inName
    · exact absurd inWord (by decide)
    · exact layout.nameOnOneLine inName
  · rcases List.mem_append.mp member with inWord | isDigit
    · exact absurd inWord (by decide)
    · exact absurd (Text.isDigit_of_mem_decimal isDigit) (by decide)
  · exact absurd member (by decide)
  · cases entry with
    | none => cases member
    | some field => exact field.newline_not_mem_line member
  · rcases List.mem_append.mp member with inWord | inFmt
    · exact absurd inWord (by decide)
    · exact layout.fmtOnOneLine inFmt

theorem filterMap_parseLine_body (body : List (Option KernelField)) :
    ((body.map bodyLine).map Text.stripCarriageReturn).filterMap parseLine =
      (body.filterMap id).map fun field => (field.name, field.offset, field.size) := by
  induction body with
  | nil => rfl
  | cons entry rest induction =>
      cases entry with
      | none =>
          have blank : parseLine (Text.stripCarriageReturn (bodyLine none)) = none := by decide
          rw [List.map_cons, List.map_cons, List.filterMap_cons_none blank, induction]
          rfl
      | some field =>
          have read : parseLine (Text.stripCarriageReturn (bodyLine (some field))) =
              some (field.name, field.offset, field.size) := field.parseLine_line
          rw [List.map_cons, List.map_cons, List.filterMap_cons_some read, induction]
          rfl

/-- Parsing what was printed returns the fields in order. -/
theorem parseFormat_print :
    parseFormat layout.print =
      layout.fields.map fun field => (field.name, field.offset, field.size) := by
  have nameLine : parseLine (Text.stripCarriageReturn ("name: ".toList ++ layout.eventName)) =
      none := by
    have begins : "name: ".toList = 'n' :: "ame: ".toList := by decide
    rw [begins]
    exact parseLine_eq_none (by decide) (by decide) _
  have idLine : parseLine (Text.stripCarriageReturn
      ("ID: ".toList ++ Text.decimal layout.eventId)) = none := by
    have begins : "ID: ".toList = 'I' :: "D: ".toList := by decide
    rw [begins]
    exact parseLine_eq_none (by decide) (by decide) _
  have formatLine : parseLine (Text.stripCarriageReturn "format:".toList) = none := by decide
  have fmtLine : parseLine (Text.stripCarriageReturn ("print fmt: ".toList ++ layout.printFmt)) =
      none := by
    have begins : "print fmt: ".toList = 'p' :: "rint fmt: ".toList := by decide
    rw [begins]
    exact parseLine_eq_none (by decide) (by decide) _
  have header : ((["name: ".toList ++ layout.eventName,
      "ID: ".toList ++ Text.decimal layout.eventId, "format:".toList] : List Text).map
        Text.stripCarriageReturn).filterMap parseLine = [] := by
    rw [List.map_cons, List.filterMap_cons_none nameLine, List.map_cons,
      List.filterMap_cons_none idLine, List.map_cons, List.filterMap_cons_none formatLine]
    rfl
  have footer : ((["print fmt: ".toList ++ layout.printFmt] : List Text).map
      Text.stripCarriageReturn).filterMap parseLine = [] := by
    rw [List.map_cons, List.filterMap_cons_none fmtLine]
    rfl
  rw [parseFormat, print, String.toList_ofList, Text.lines_terminated layout.newline_not_mem_lines,
    lines, List.map_append, List.map_append, List.filterMap_append, List.filterMap_append,
    filterMap_parseLine_body, header, footer, List.nil_append, List.append_nil]
  rfl

end TracepointLayout

/-! ## The check is exact -/

inductive Discrepancy (layout : TracepointLayout) (want : Field) : Mismatch → Prop
  | missing (absent : ∀ field ∈ layout.fields, field.name ≠ want.name) :
      Discrepancy layout want (.missing want.name)
  | moved (field : KernelField) (member : field ∈ layout.fields)
      (sameName : field.name = want.name)
      (differ : (field.offset, field.size) ≠ (want.offset, want.size)) :
      Discrepancy layout want
        (.moved want.name (want.offset, want.size) (field.offset, field.size))

theorem name_of_checkField {found : List (String × Nat × Nat)} {want : Field}
    {mismatch : Mismatch} (reported : checkField found want = some mismatch) :
    mismatch.name = want.name := by
  rw [checkField] at reported
  split at reported
  · cases reported
    rfl
  · split at reported
    · cases reported
      rfl
    · cases reported

theorem names_checked_sublist (found : List (String × Nat × Nat)) (wanted : List Field) :
    ((wanted.filterMap (checkField found)).map Mismatch.name).Sublist
      (wanted.map Field.name) := by
  induction wanted with
  | nil => exact List.Sublist.slnil
  | cons want rest induction =>
      cases reported : checkField found want with
      | none =>
          rw [List.filterMap_cons_none reported]
          exact induction.cons _
      | some mismatch =>
          rw [List.filterMap_cons_some reported, List.map_cons, name_of_checkField reported]
          exact induction.cons_cons _

namespace TracepointLayout

variable (layout : TracepointLayout)

theorem find_parseFormat_print (name : String) :
    ((parseFormat layout.print).find? fun (other, _, _) => other == name) =
      (layout.fields.find? fun field => field.name == name).map
        fun field => (field.name, field.offset, field.size) := by
  rw [parseFormat_print, List.find?_map]
  rfl

theorem find_of_mem {field : KernelField} (member : field ∈ layout.fields) :
    layout.fields.find? (fun other => other.name == field.name) = some field := by
  cases isFound : layout.fields.find? fun other => other.name == field.name with
  | none =>
      have notNamed := List.find?_eq_none.mp isFound field member
      exact absurd (beq_self_eq_true field.name) notNamed
  | some other =>
      have isNamed := List.find?_some isFound
      have sameName := beq_iff_eq.mp isNamed
      have isOther := List.inj_on_of_nodup_map layout.distinct
        (List.mem_of_find?_eq_some isFound) member sameName
      rw [isOther]

theorem checkField_of_absent {want : Field}
    (absent : ∀ field ∈ layout.fields, field.name ≠ want.name) :
    checkField (parseFormat layout.print) want = some (.missing want.name) := by
  have notFound : layout.fields.find? (fun field => field.name == want.name) = none := by
    rw [List.find?_eq_none]
    intro field member isNamed
    exact absent field member (beq_iff_eq.mp isNamed)
  rw [checkField, find_parseFormat_print, notFound]
  rfl

theorem checkField_of_mem {want : Field} {field : KernelField} (member : field ∈ layout.fields)
    (sameName : field.name = want.name) :
    checkField (parseFormat layout.print) want =
      if (field.offset, field.size) ≠ (want.offset, want.size) then
        some (.moved want.name (want.offset, want.size) (field.offset, field.size))
      else none := by
  rw [checkField, find_parseFormat_print, ← sameName, layout.find_of_mem member]
  rfl

theorem named_or_absent (name : String) :
    (∃ field ∈ layout.fields, field.name = name) ∨
      ∀ field ∈ layout.fields, field.name ≠ name := by
  by_cases named : ∃ field ∈ layout.fields, field.name = name
  · exact .inl named
  · exact .inr fun field member sameName => named ⟨field, member, sameName⟩

theorem checkField_iff_discrepancy (want : Field) (mismatch : Mismatch) :
    checkField (parseFormat layout.print) want = some mismatch ↔
      Discrepancy layout want mismatch := by
  constructor
  · intro reported
    rcases layout.named_or_absent want.name with ⟨field, member, sameName⟩ | absent
    · rw [layout.checkField_of_mem member sameName] at reported
      split at reported
      · next differ =>
          cases reported
          exact .moved field member sameName differ
      · cases reported
    · rw [layout.checkField_of_absent absent] at reported
      cases reported
      exact .missing absent
  · intro discrepancy
    cases discrepancy with
    | missing absent => exact layout.checkField_of_absent absent
    | moved field member sameName differ =>
        rw [layout.checkField_of_mem member sameName, if_pos differ]

theorem checkField_eq_none_iff (want : Field) :
    checkField (parseFormat layout.print) want = none ↔
      ∃ field ∈ layout.fields, field.name = want.name ∧ field.offset = want.offset ∧
        field.size = want.size := by
  constructor
  · intro silent
    rcases layout.named_or_absent want.name with ⟨field, member, sameName⟩ | absent
    · rw [layout.checkField_of_mem member sameName] at silent
      split at silent
      · cases silent
      · next same =>
          rcases Prod.mk.inj (not_not.mp same) with ⟨sameOffset, sameSize⟩
          exact ⟨field, member, sameName, sameOffset, sameSize⟩
    · rw [layout.checkField_of_absent absent] at silent
      cases silent
  · intro inPlace
    rcases inPlace with ⟨field, member, sameName, sameOffset, sameSize⟩
    rw [layout.checkField_of_mem member sameName, sameOffset, sameSize, if_neg (by simp)]

end TracepointLayout

/-- The check of a printed layout reports every departure from what the probe
wants, in the order of the required fields, and nothing else. -/
theorem checkLayout_print (layout : TracepointLayout) :
    parseFormat layout.print =
        layout.fields.map (fun field => (field.name, field.offset, field.size)) ∧
      ((checkLayout layout.print).map Mismatch.name).Sublist (requiredFields.map Field.name) ∧
      (∀ mismatch, mismatch ∈ checkLayout layout.print ↔
        ∃ want ∈ requiredFields, Discrepancy layout want mismatch) ∧
      (checkLayout layout.print = [] ↔
        ∀ want ∈ requiredFields, ∃ field ∈ layout.fields, field.name = want.name ∧
          field.offset = want.offset ∧ field.size = want.size) := by
  refine ⟨layout.parseFormat_print, names_checked_sublist _ _, ?_, ?_⟩
  · intro mismatch
    simp only [checkLayout, List.mem_filterMap, layout.checkField_iff_discrepancy]
  · simp only [checkLayout, List.filterMap_eq_nil_iff, layout.checkField_eq_none_iff]

end OomWatcher
