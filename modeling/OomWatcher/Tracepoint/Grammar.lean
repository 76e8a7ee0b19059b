import OomWatcher.Foundation.Scanning
import OomWatcher.Tracepoint.Format

/-! # The lines that declare fields

The parser of the `format` file against a grammar of its lines, for every text,
whether a kernel printed it or not. -/

namespace OomWatcher

open Text

/-! ## Attributes -/

def Attribute (key : String) (part : Text) (value : Nat) : Prop :=
  ∃ front gap numeral back, part = front ++ ((key.toList ++ ':' :: (gap ++ numeral)) ++ back) ∧
    AllWhitespace front ∧ AllWhitespace gap ∧ AllWhitespace back ∧ Numeral numeral value ∧
      value < u64Modulus

def FirstAttribute (key : String) (attrs : Text) (value : Nat) : Prop :=
  ∃ before part after, split ';' attrs = before ++ part :: after ∧ Attribute key part value ∧
    ∀ earlier ∈ before, ∀ other, ¬ Attribute key earlier other

theorem isTrimmed_attribute {key : String} (isKey : IsKey key) (gap : Text) {numeral : Text}
    {value : Nat}
    (isNumeral : Numeral numeral value) :
    IsTrimmed (key.toList ++ ':' :: (gap ++ numeral)) where
  first char isFirst := by
    rw [List.head?_append_of_ne_nil _ isKey.nonempty] at isFirst
    exact isKey.solid char (List.mem_of_mem_head? isFirst)
  last char isLast := by
    rcases isNumeral.isTrimmed with ⟨nonempty, solid⟩
    have shape : key.toList ++ ':' :: (gap ++ numeral) = (key.toList ++ ':' :: gap) ++ numeral := by
      simp
    rw [shape, List.getLast?_append_of_ne_nil _ nonempty] at isLast
    exact solid char (List.mem_of_mem_getLast? isLast)

theorem attrOf_eq_some_iff {key : String} (isKey : IsKey key) {part : Text} {value : Nat} :
    attrOf key part = some value ↔ Attribute key part value := by
  simp only [attrOf, Option.bind_eq_bind, Option.bind_eq_some_iff, stripPrefix_eq_some_iff,
    parseUnsigned_eq_some_iff (show 0 < u64Modulus by decide)]
  constructor
  · intro parsed
    rcases parsed with ⟨afterKey, isCore, text, rfl, isNumeral, fits⟩
    rcases (exists_trim part).2 with ⟨front, back, isPart, before, behind⟩
    rcases (exists_trim text).2 with ⟨gap, rest, isText, spaced, trailing⟩
    refine ⟨front, gap, trim text, rest ++ back, ?_, before, spaced, ?_, isNumeral, fits⟩
    · rw [isPart, isCore]
      nth_rewrite 1 [isText]
      simp only [List.append_assoc, List.cons_append, List.nil_append]
    · intro char member
      rcases List.mem_append.mp member with inRest | inBack
      · exact trailing char inRest
      · exact behind char inBack
  · intro isAttribute
    rcases isAttribute with
      ⟨front, gap, numeral, back, rfl, before, spaced, behind, isNumeral, fits⟩
    rcases isNumeral.isTrimmed with ⟨_, solid⟩
    have trimmed := trim_append before behind (isTrimmed_attribute isKey gap isNumeral)
    have numeralTrimmed : IsTrimmed numeral :=
      ⟨fun char isFirst => solid char (List.mem_of_mem_head? isFirst),
        fun char isLast => solid char (List.mem_of_mem_getLast? isLast)⟩
    have isValue : trim (gap ++ (numeral ++ [])) = numeral :=
      trim_append spaced (fun _ member => absurd member List.not_mem_nil) numeralTrimmed
    rw [List.append_nil] at isValue
    exact ⟨_, trimmed, gap ++ numeral, rfl, isValue.symm ▸ isNumeral, fits⟩

theorem attr_eq_some_iff {key : String} (isKey : IsKey key) {attrs : Text} {value : Nat} :
    attr attrs key = some value ↔ FirstAttribute key attrs value := by
  rw [attr, List.findSome?_eq_some_iff]
  simp only [attrOf_eq_some_iff isKey, FirstAttribute, Option.eq_none_iff_forall_ne_some, ne_eq]

/-! ## Declarations -/

inductive Declarator : Text → Text → Prop
  | intro {stars : Nat} {name suffix : Text} (nonempty : name ≠ []) (noStar : name.head? ≠ some '*')
      (noBracket : '[' ∉ name) (isSuffix : suffix = [] ∨ ∃ rest, suffix = '[' :: rest) :
      Declarator (List.replicate stars '*' ++ (name ++ suffix)) name

theorem head?_split_eq_some_iff {separator : Char} {text before : Text} :
    (split separator text).head? = some before ↔
      separator ∉ before ∧
        ∃ rest, text = before ++ rest ∧ (rest = [] ∨ ∃ after, rest = separator :: after) := by
  constructor
  · intro isHead
    by_cases member : separator ∈ text
    · rcases List.eq_append_cons_of_mem member with ⟨front, after, rfl, absent⟩
      rw [split_append absent, List.head?_cons, Option.some.injEq] at isHead
      exact ⟨isHead ▸ absent, separator :: after, by rw [isHead], .inr ⟨after, rfl⟩⟩
    · rw [split_of_absent member, List.head?_cons, Option.some.injEq] at isHead
      exact ⟨isHead ▸ member, [], by rw [isHead, List.append_nil], .inl rfl⟩
  · intro shape
    rcases shape with ⟨absent, rest, rfl, rfl | ⟨after, rfl⟩⟩
    · rw [List.append_nil, split_of_absent absent, List.head?_cons]
    · rw [split_append absent, List.head?_cons]

theorem trimStartMatches_eq_iff {char : Char} {text rest : Text} :
    trimStartMatches char text = rest ↔
      rest.head? ≠ some char ∧ ∃ count, text = List.replicate count char ++ rest := by
  constructor
  · intro isRest
    have whole := List.takeWhile_append_dropWhile (p := (· == char)) (l := text)
    have stops := List.head?_dropWhile_not (· == char) text
    rw [trimStartMatches] at isRest
    rw [isRest] at whole stops
    have areSame : text.takeWhile (· == char) =
        List.replicate (text.takeWhile (· == char)).length char :=
      List.eq_replicate_of_mem fun other member => by simpa using List.mem_takeWhile_imp member
    refine ⟨?_, (text.takeWhile (· == char)).length, ?_⟩
    · intro isFirst
      rw [isFirst] at stops
      simp at stops
    · rw [← areSame]
      exact whole.symm
  · intro shape
    rcases shape with ⟨first, count, rfl⟩
    exact trimStartMatches_replicate count first

theorem declaredName_eq_some_iff {decl name : Text} :
    declaredName decl = some name ↔ ∃ token, LastWord decl token ∧ Declarator token name := by
  simp only [declaredName, Option.bind_eq_bind, Option.bind_eq_some_iff,
    getLast?_splitWhitespace_iff, head?_split_eq_some_iff]
  constructor
  · intro found
    rcases found with ⟨token, isLast, bare, ⟨noBracket, suffix, rfl, isSuffix⟩, named⟩
    refine ⟨_, isLast, ?_⟩
    split at named
    · cases named
    · next notEmpty =>
        cases named
        rcases trimStartMatches_eq_iff.mp (Eq.refl (trimStartMatches '*' bare)) with
          ⟨noStar, stars, isBare⟩
        have nonempty : trimStartMatches '*' bare ≠ [] := fun isEmpty =>
          notEmpty (by simp [isEmpty])
        have notInName : '[' ∉ trimStartMatches '*' bare := by
          intro member
          apply noBracket
          rw [isBare]
          exact List.mem_append_right _ member
        nth_rewrite 1 [isBare]
        rw [List.append_assoc]
        exact .intro nonempty noStar notInName isSuffix
  · intro declared
    rcases declared with ⟨token, isLast, declarator⟩
    cases declarator with
    | @intro stars name suffix nonempty noStar noBracket isSuffix =>
        refine ⟨_, isLast, List.replicate stars '*' ++ name, ⟨?_, suffix, ?_, isSuffix⟩, ?_⟩
        · intro member
          rcases List.mem_append.mp member with isStar | inName
          · exact absurd (List.mem_replicate.mp isStar).2 (by decide)
          · exact noBracket inName
        · rw [List.append_assoc]
        · rw [trimStartMatches_eq_iff.mpr ⟨noStar, stars, rfl⟩, if_neg (by simpa using nonempty)]

/-! ## Lines -/

/-- `field:<declaration>;<attributes>` with whitespace around it. -/
inductive FieldLine : Text → Text → Nat → Nat → Prop
  | intro {indent decl attrs trailing token name : Text} {offset size : Nat}
      (before : AllWhitespace indent) (behind : AllWhitespace trailing)
      (ends : ∀ char ∈ attrs.getLast?, isWhitespace char = false) (oneDeclaration : ';' ∉ decl)
      (lastWord : LastWord decl token) (declarator : Declarator token name)
      (hasOffset : FirstAttribute "offset" attrs offset)
      (hasSize : FirstAttribute "size" attrs size) :
      FieldLine (indent ++ (("field:".toList ++ (decl ++ ';' :: attrs)) ++ trailing)) name offset
        size

theorem isTrimmed_fieldLine (decl : Text) {attrs : Text}
    (ends : ∀ char ∈ attrs.getLast?, isWhitespace char = false) :
    IsTrimmed ("field:".toList ++ (decl ++ ';' :: attrs)) where
  first char isFirst := by
    cases isFirst
    decide
  last char isLast := by
    rw [← List.append_assoc, List.getLast?_append_of_ne_nil _ (List.cons_ne_nil _ _)] at isLast
    cases attrs with
    | nil =>
        cases isLast
        decide
    | cons first rest => exact ends char isLast

theorem parseLine_eq_some_iff {line : Text} {name : String} {offset size : Nat} :
    parseLine line = some (name, offset, size) ↔ FieldLine line name.toList offset size := by
  simp only [parseLine, Option.bind_eq_bind, Option.bind_eq_some_iff, stripPrefix_eq_some_iff,
    Option.some.injEq, Prod.mk.injEq, attr_eq_some_iff isKey_offset, attr_eq_some_iff isKey_size,
    declaredName_eq_some_iff, Prod.exists, splitOnce_eq_some_iff]
  constructor
  · intro parsed
    rcases parsed with ⟨_, isCore, decl, attrs, ⟨rfl, oneDeclaration⟩, own,
      ⟨token, lastWord, declarator⟩, _, hasOffset, _, hasSize, rfl, rfl, rfl⟩
    rcases exists_trim line with ⟨trimmed, indent, trailing, isLine, before, behind⟩
    have ends : ∀ char ∈ attrs.getLast?, isWhitespace char = false := by
      intro char isLast
      apply trimmed.last
      have shape : trim line = ("field:".toList ++ (decl ++ [';'])) ++ attrs := by
        rw [isCore]
        simp only [List.append_assoc, List.singleton_append]
      rw [shape, List.getLast?_append, isLast, Option.some_or]
      rfl
    have sameName : (String.ofList own).toList = own := String.toList_ofList
    rw [isLine, isCore, sameName]
    exact .intro before behind ends oneDeclaration lastWord declarator hasOffset hasSize
  · intro isLine
    generalize isName : name.toList = own at isLine
    cases isLine with
    | @intro indent decl attrs trailing token _ _ _ before behind ends oneDeclaration lastWord
        declarator hasOffset hasSize =>
        have isCore := trim_append before behind (isTrimmed_fieldLine decl ends)
        have sameName : String.ofList own = name := by rw [← isName, String.ofList_toList]
        exact ⟨_, isCore, decl, attrs, ⟨rfl, oneDeclaration⟩, own, ⟨token, lastWord, declarator⟩,
          offset, hasOffset, size, hasSize, sameName, rfl, rfl⟩

/-! ## The check of any text -/

def FirstDeclared (text : Text) (want : Field) : Prop :=
  ∃ before line after, lines text = before ++ line :: after ∧
    FieldLine line want.name.toList want.offset want.size ∧
      ∀ earlier ∈ before, ∀ offset size, ¬ FieldLine earlier want.name.toList offset size

theorem any_parseLine_iff {line : Text} {name : String} :
    ((parseLine line).any fun (other, _, _) => other == name) = true ↔
      ∃ offset size, FieldLine line name.toList offset size := by
  rw [Option.any_eq_true]
  constructor
  · intro named
    rcases named with ⟨⟨other, offset, size⟩, parsed, isName⟩
    rw [beq_iff_eq.mp isName] at parsed
    exact ⟨offset, size, parseLine_eq_some_iff.mp parsed⟩
  · intro declares
    rcases declares with ⟨offset, size, isLine⟩
    exact ⟨_, parseLine_eq_some_iff.mpr isLine, beq_self_eq_true name⟩

theorem find_parseFormat_eq_some_iff {text : String} {name : String} {offset size : Nat} :
    ((parseFormat text).find? fun (other, _, _) => other == name) = some (name, offset, size) ↔
      ∃ before line after, lines text.toList = before ++ line :: after ∧
        FieldLine line name.toList offset size ∧
          ∀ earlier ∈ before, ∀ offset size, ¬ FieldLine earlier name.toList offset size := by
  rw [parseFormat, List.find?_filterMap, Option.bind_eq_some_iff]
  simp only [List.find?_eq_some_iff_append, Bool.not_eq_eq_eq_not, Bool.not_true,
    ← Bool.not_eq_true, any_parseLine_iff, parseLine_eq_some_iff, not_exists]
  constructor
  · intro found
    rcases found with ⟨line, ⟨_, before, after, split, first⟩, isLine⟩
    exact ⟨before, line, after, split, isLine, first⟩
  · intro found
    rcases found with ⟨before, line, after, split, isLine, first⟩
    exact ⟨line, ⟨⟨offset, size, isLine⟩, before, after, split, first⟩, isLine⟩

theorem checkField_eq_none_iff {text : String} {want : Field} :
    checkField (parseFormat text) want = none ↔ FirstDeclared text.toList want := by
  rw [FirstDeclared, ← find_parseFormat_eq_some_iff, checkField]
  cases isFound : (parseFormat text).find? fun (name, _, _) => name == want.name with
  | none => simp
  | some entry =>
      rcases entry with ⟨name, offset, size⟩
      have named := List.find?_some isFound
      have isName : name = want.name := beq_iff_eq.mp named
      simp only [isName, Option.some.injEq, Prod.mk.injEq, true_and, ne_eq, ite_eq_right_iff,
        reduceCtorEq, imp_false, not_not]

/-- On any text, the parser reads exactly the lines of the grammar, in order, and
the check passes exactly if the first line that declares each required field has
it where the probe wants it. -/
theorem checkLayout_of_grammar (text : String) :
    (∀ line name offset size, parseLine line = some (name, offset, size) ↔
        FieldLine line name.toList offset size) ∧
      (checkLayout text = [] ↔ ∀ want ∈ requiredFields, FirstDeclared text.toList want) := by
  refine ⟨fun _ _ _ _ => parseLine_eq_some_iff, ?_⟩
  simp only [checkLayout, List.filterMap_eq_nil_iff, checkField_eq_none_iff]

end OomWatcher
