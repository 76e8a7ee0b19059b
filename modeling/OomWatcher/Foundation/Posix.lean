import OomWatcher.Foundation.Pattern
import OomWatcher.Foundation.Text

/-! # Lines searched by `grep` and edited by `sed`

Expressions that are sequences of single characters and of runs, and the lines
they occur in. A run is taken as long as the rest of the expression allows, the
earlier runs before the later ones. -/

namespace OomWatcher

/-- A part of an expression: one character of a class, or a run of them. -/
inductive Atom
  | one (accepts : Char → Bool)
  | many (accepts : Char → Bool)

abbrev Expression := List Atom

namespace Expression

def literal (text : Text) : Expression := text.map fun expected => .one (· == expected)

def anything : Expression := [.many fun _ => true]

/-! ## Matching -/

/-- The texts an expression stands for. -/
def Denotes : Expression → Text → Prop
  | [], text => text = []
  | .one accepts :: expression, text =>
      ∃ char rest, text = char :: rest ∧ accepts char = true ∧ Denotes expression rest
  | .many accepts :: expression, text =>
      ∃ run rest, text = run ++ rest ∧ (∀ char ∈ run, accepts char = true) ∧
        Denotes expression rest

/-- What is left after a run, the longest run first. -/
def afterRuns (accepts : Char → Bool) : Text → List Text
  | [] => [[]]
  | char :: rest =>
      if accepts char then afterRuns accepts rest ++ [char :: rest] else [char :: rest]

def rests : Expression → Text → List Text
  | [], text => [text]
  | .one _ :: _, [] => []
  | .one accepts :: expression, char :: rest => if accepts char then rests expression rest else []
  | .many accepts :: expression, text => (afterRuns accepts text).flatMap (rests expression)

theorem mem_afterRuns_iff {accepts : Char → Bool} {text rest : Text} :
    rest ∈ afterRuns accepts text ↔
      ∃ run, text = run ++ rest ∧ ∀ char ∈ run, accepts char = true := by
  induction text with
  | nil => simp [afterRuns]
  | cons first text induction =>
      have ownRun : rest = first :: text → ∃ run, first :: text = run ++ rest ∧
          ∀ char ∈ run, accepts char = true := by
        intro whole
        exact ⟨[], by simp [whole], by simp⟩
      constructor
      · intro member
        rw [afterRuns] at member
        split at member
        · next accepted =>
            rcases List.mem_append.mp member with later | whole
            · rcases induction.mp later with ⟨run, isText, isRun⟩
              exact ⟨first :: run, by simp [isText], by simpa [accepted] using isRun⟩
            · exact ownRun (List.mem_singleton.mp whole)
        · exact ownRun (List.mem_singleton.mp member)
      · intro taken
        rcases taken with ⟨run, isText, isRun⟩
        rw [afterRuns]
        cases run with
        | nil =>
            rw [List.nil_append] at isText
            split <;> simp [isText]
        | cons head run =>
            rcases List.cons.inj isText with ⟨rfl, isRest⟩
            rw [if_pos (isRun first List.mem_cons_self)]
            apply List.mem_append_left
            exact induction.mpr ⟨run, isRest, fun char member =>
              isRun char (List.mem_cons_of_mem _ member)⟩

theorem mem_rests_iff {expression : Expression} {text rest : Text} :
    rest ∈ rests expression text ↔
      ∃ consumed, text = consumed ++ rest ∧ Denotes expression consumed := by
  induction expression generalizing text with
  | nil => simp [rests, Denotes, eq_comm]
  | cons atom expression induction =>
      cases atom with
      | one accepts =>
          constructor
          · intro member
            cases text with
            | nil => cases member
            | cons char text =>
                rw [rests] at member
                split at member
                · next accepted =>
                    rcases induction.mp member with ⟨consumed, isText, denoted⟩
                    exact ⟨char :: consumed, by simp [isText], char, consumed, rfl, accepted,
                      denoted⟩
                · cases member
          · intro consumed
            rcases consumed with ⟨_, isText, char, consumed, rfl, accepted, denoted⟩
            rw [isText, List.cons_append, rests, if_pos accepted]
            exact induction.mpr ⟨consumed, rfl, denoted⟩
      | many accepts =>
          rw [rests, List.mem_flatMap]
          constructor
          · intro member
            rcases member with ⟨middle, isMiddle, isRest⟩
            rcases mem_afterRuns_iff.mp isMiddle with ⟨run, rfl, isRun⟩
            rcases induction.mp isRest with ⟨consumed, rfl, denoted⟩
            exact ⟨run ++ consumed, by simp, run, consumed, rfl, isRun, denoted⟩
          · intro consumed
            rcases consumed with ⟨_, isText, run, consumed, rfl, isRun, denoted⟩
            rw [List.append_assoc] at isText
            exact ⟨consumed ++ rest, mem_afterRuns_iff.mpr ⟨run, isText, isRun⟩,
              induction.mpr ⟨consumed, rfl, denoted⟩⟩

/-! ## Sequences -/

theorem denotes_append {first second : Expression} {text : Text} :
    Denotes (first ++ second) text ↔
      ∃ left right, text = left ++ right ∧ Denotes first left ∧ Denotes second right := by
  induction first generalizing text with
  | nil => simp [Denotes]
  | cons atom first induction =>
      cases atom with
      | one accepts =>
          simp only [List.cons_append, Denotes, induction]
          constructor
          · intro denoted
            rcases denoted with ⟨char, _, rfl, accepted, left, right, rfl, isLeft, isRight⟩
            exact ⟨char :: left, right, rfl, ⟨char, left, rfl, accepted, isLeft⟩, isRight⟩
          · intro denoted
            rcases denoted with ⟨_, right, rfl, ⟨char, left, rfl, accepted, isLeft⟩, isRight⟩
            exact ⟨char, left ++ right, rfl, accepted, left, right, rfl, isLeft, isRight⟩
      | many accepts =>
          simp only [List.cons_append, Denotes, induction]
          constructor
          · intro denoted
            rcases denoted with ⟨run, _, rfl, isRun, left, right, rfl, isLeft, isRight⟩
            exact ⟨run ++ left, right, by simp, ⟨run, left, rfl, isRun, isLeft⟩, isRight⟩
          · intro denoted
            rcases denoted with ⟨_, right, rfl, ⟨run, left, rfl, isRun, isLeft⟩, isRight⟩
            exact ⟨run, left ++ right, by simp, isRun, left, right, rfl, isLeft, isRight⟩

theorem denotes_literal {expected text : Text} :
    Denotes (literal expected) text ↔ text = expected := by
  induction expected generalizing text with
  | nil => simp [literal, Denotes]
  | cons char expected induction =>
      have later : ∀ rest, Denotes (expected.map fun other => .one (· == other)) rest ↔
          rest = expected := fun _ => induction
      simp [literal, Denotes, later]

theorem rests_literal_append (expected text : Text) :
    rests (literal expected) (expected ++ text) = [text] := by
  induction expected with
  | nil => rfl
  | cons char expected induction =>
      change (if (char == char) = true then rests (literal expected) (expected ++ text) else []) = _
      rw [if_pos (beq_self_eq_true char), induction]

theorem rests_literal_eq_nil {expected text : Text} (other : ¬ expected <+: text) :
    rests (literal expected) text = [] := by
  apply List.eq_nil_iff_forall_not_mem.mpr
  intro rest member
  rcases mem_rests_iff.mp member with ⟨consumed, isText, denoted⟩
  rw [denotes_literal.mp denoted] at isText
  exact other ⟨rest, isText.symm⟩

/-! ## `grep` -/

def occurs (expression : Expression) (line : Text) : Bool :=
  line.tails.any fun text => !(rests expression text).isEmpty

theorem occurs_iff {expression : Expression} {line : Text} :
    occurs expression line = true ↔
      ∃ consumed, consumed <:+: line ∧ Denotes expression consumed := by
  rw [occurs, List.any_eq_true]
  constructor
  · intro found
    rcases found with ⟨text, isSuffix, nonempty⟩
    have matched : rests expression text ≠ [] := by simpa using nonempty
    rcases List.exists_mem_of_ne_nil _ matched with ⟨rest, member⟩
    rcases mem_rests_iff.mp member with ⟨consumed, rfl, denoted⟩
    have isPrefix : consumed <+: consumed ++ rest := List.prefix_append _ _
    exact ⟨consumed, isPrefix.isInfix.trans ((List.mem_tails _ _).mp isSuffix).isInfix, denoted⟩
  · intro found
    rcases found with ⟨consumed, ⟨before, after, rfl⟩, denoted⟩
    have isSuffix : consumed ++ after <:+ before ++ consumed ++ after :=
      ⟨before, by simp⟩
    have member : after ∈ rests expression (consumed ++ after) :=
      mem_rests_iff.mpr ⟨consumed, rfl, denoted⟩
    refine ⟨consumed ++ after, (List.mem_tails _ _).mpr isSuffix, ?_⟩
    simpa using List.ne_nil_of_mem member

/-- The lines of a file. No empty line follows the last line feed. -/
def inputLines (file : Text) : List Text :=
  let pieces := Text.split '\n' file
  pieces.dropLast ++ pieces.getLast?.toList.filter fun piece => !piece.isEmpty

theorem inputLines_terminated {ended : List Text} (whole : ∀ line ∈ ended, '\n' ∉ line) :
    inputLines (ended.map (· ++ ['\n'])).flatten = ended := by
  rw [inputLines, Text.split_terminated whole]
  simp

/-! ## `sed` -/

def replacements (before group after : Expression) (text : Text) : List Text :=
  (rests before text).flatMap fun atGroup =>
    (rests group atGroup).flatMap fun afterGroup =>
      (rests after afterGroup).map fun left =>
        atGroup.take (atGroup.length - afterGroup.length) ++ left

/-- `s/before\(group\)after/\1/p` on a line, with `-n`: the line is printed if it
matches. -/
def substitute (before group after : Expression) (line : Text) : Option Text :=
  firstSome (line.length + 1) fun start =>
    (replacements before group after (line.drop start)).head?.map (line.take start ++ ·)

theorem head?_afterRuns {accepts : Char → Bool} {run back : Text}
    (isRun : ∀ char ∈ run, accepts char = true)
    (ends : ∀ char ∈ back.head?, accepts char = false) :
    (afterRuns accepts (run ++ back)).head? = some back := by
  induction run with
  | nil =>
      cases back with
      | nil => rfl
      | cons char back =>
          have ended : ¬ accepts char = true := by simp [ends char rfl]
          rw [List.nil_append, afterRuns, if_neg ended, List.head?_cons]
  | cons char run induction =>
      have later := induction fun other member => isRun other (List.mem_cons_of_mem _ member)
      rw [List.cons_append, afterRuns, if_pos (isRun char List.mem_cons_self), List.head?_append,
        later]
      rfl

theorem findSome?_afterRuns {Value : Type} {value : Text → Option Value} {target : Text}
    {found : Value} (atTarget : value target = some found)
    (notLater : ∀ later, later <:+ target → later ≠ target → value later = none) (front : Text) :
    (afterRuns (fun _ => true) (front ++ target)).findSome? value = some found := by
  induction front with
  | nil =>
      cases target with
      | nil => rw [List.nil_append, afterRuns, List.findSome?_singleton, atTarget]
      | cons char target =>
          have missed : (afterRuns (fun _ => true) target).findSome? value = none := by
            rw [List.findSome?_eq_none_iff]
            intro later member
            rcases mem_afterRuns_iff.mp member with ⟨run, isTarget, _⟩
            apply notLater later
            · exact ⟨char :: run, by rw [isTarget, List.cons_append]⟩
            · intro equal
              have lengths := congrArg List.length isTarget
              rw [equal] at lengths
              simp at lengths
              omega
          rw [List.nil_append, afterRuns, if_pos rfl, List.findSome?_append, missed,
            List.findSome?_singleton, atTarget, Option.none_or]
  | cons char front induction =>
      rw [List.cons_append, afterRuns, if_pos rfl, List.findSome?_append, induction,
        Option.some_or]

theorem not_prefix_of_later {front start back later : Text} {mark : Char}
    (absent : mark ∉ start ++ back) (isLater : later <:+ front ++ mark :: (start ++ back))
    (notWhole : later ≠ front ++ mark :: (start ++ back)) :
    ¬ front ++ mark :: start <+: later := by
  intro isPrefix
  rcases isPrefix with ⟨rest, rfl⟩
  rcases isLater with ⟨skipped, split⟩
  have notSkipped : skipped.length ≠ 0 := by
    intro none
    rw [List.length_eq_zero_iff.mp none, List.nil_append] at split
    exact notWhole split
  rw [List.append_assoc, List.cons_append, ← List.append_assoc] at split
  rcases List.append_eq_append_iff.mp split with ⟨middle, isFront, _⟩ | ⟨middle, isFront, isMiddle⟩
  · have lengths := congrArg List.length isFront
    simp at lengths
    omega
  · cases middle with
    | nil =>
        have lengths := congrArg List.length isFront
        rw [List.length_append, List.append_nil] at lengths
        omega
    | cons char middle =>
        rcases List.cons.inj isMiddle with ⟨_, isRest⟩
        apply absent
        rw [isRest]
        simp

theorem rests_many (accepts : Char → Bool) (text : Text) :
    rests [.many accepts] text = afterRuns accepts text :=
  List.flatMap_singleton' _

theorem head?_rests_anything (text : Text) : (rests anything text).head? = some [] := by
  have whole := @head?_afterRuns (fun _ => true) text []
  rw [List.append_nil] at whole
  rw [anything, rests_many]
  exact whole (fun _ _ => rfl) (fun _ isFirst => by cases isFirst)

theorem findSome?_of_head {Item Value : Type} {items : List Item} {first : Item}
    {value : Item → Option Value} {found : Value} (isFirst : items.head? = some first)
    (isFound : value first = some found) : items.findSome? value = some found := by
  cases items with
  | nil => cases isFirst
  | cons item items =>
      cases isFirst
      rw [List.findSome?_cons, isFound]

inductive LastRun (key : Text) (accepts : Char → Bool) : Text → Text → Prop
  | intro (front run back : Text) (isRun : ∀ char ∈ run, accepts char = true)
      (ends : ∀ char ∈ back.head?, accepts char = false)
      (notLater : ∀ later, later <:+ key ++ (run ++ back) → later ≠ key ++ (run ++ back) →
        ¬ key <+: later) :
      LastRun key accepts (front ++ (key ++ (run ++ back))) run

theorem substitute_of_lastRun {key line run : Text} {accepts : Char → Bool}
    (lastRun : LastRun key accepts line run) :
    substitute (anything ++ literal key) [.many accepts] anything line = some run := by
  rcases lastRun with ⟨front, run, back, isRun, ends, notLater⟩
  have afterKey : ((rests [.many accepts] (run ++ back)).flatMap fun afterGroup =>
      (rests anything afterGroup).map fun left =>
        (run ++ back).take ((run ++ back).length - afterGroup.length) ++ left).head? =
      some run := by
    rw [rests_many, List.head?_flatMap]
    apply findSome?_of_head (head?_afterRuns isRun ends)
    rw [List.head?_map, head?_rests_anything, Option.map_some, List.append_nil,
      List.length_append, Nat.add_sub_cancel, List.take_left]
  have atStart : (replacements (anything ++ literal key) [.many accepts] anything
      (front ++ (key ++ (run ++ back)))).head? = some run := by
    have ways : ∀ text, rests (anything ++ literal key) text =
        (afterRuns (fun _ => true) text).flatMap (rests (literal key)) := fun _ => rfl
    rw [replacements, ways, List.flatMap_assoc, List.head?_flatMap]
    apply findSome?_afterRuns
    · rw [rests_literal_append, List.flatMap_singleton]
      exact afterKey
    · intro later isLater notWhole
      rw [rests_literal_eq_nil (notLater later isLater notWhole)]
      rfl
  rw [substitute, firstSome_eq_some_iff]
  refine ⟨0, by omega, ?_, by omega⟩
  rw [List.drop_zero, atStart]
  rfl

theorem exists_lastRun {key line : Text} (accepts : Char → Bool) (inside : key <:+: line) :
    ∃ run, LastRun key accepts line run := by
  induction line with
  | nil =>
      rw [List.infix_nil.mp inside]
      exact ⟨[], .intro [] [] [] (by simp) (by simp) (by simp)⟩
  | cons char line induction =>
      by_cases later : key <:+: line
      · rcases induction later with ⟨run, lastRun⟩
        cases lastRun with
        | intro front _ back isRun ends notLater =>
            exact ⟨run, .intro (char :: front) run back isRun ends notLater⟩
      · rcases (List.infix_cons_iff.mp inside).resolve_right later with ⟨rest, isLine⟩
        have lastOne : ∀ after, after <:+ char :: line → after ≠ char :: line →
            ¬ key <+: after := by
          intro after isAfter notWhole isPrefix
          have inLine : after <:+ line := (List.suffix_cons_iff.mp isAfter).resolve_left notWhole
          exact later (isPrefix.isInfix.trans inLine.isInfix)
        have split : rest.takeWhile accepts ++ rest.dropWhile accepts = rest :=
          List.takeWhile_append_dropWhile
        rw [← isLine, ← split] at lastOne ⊢
        refine ⟨rest.takeWhile accepts, .intro [] _ _ ?_ ?_ lastOne⟩
        · exact fun other member => List.all_eq_true.mp List.all_takeWhile other member
        · intro other isFirst
          have notAccepted := List.head?_dropWhile_not accepts rest
          rw [isFirst] at notAccepted
          exact notAccepted

theorem substitute_eq_some_iff {key line run : Text} {accepts : Char → Bool} :
    substitute (anything ++ literal key) [.many accepts] anything line = some run ↔
      LastRun key accepts line run := by
  constructor
  · intro substituted
    by_cases inside : key <:+: line
    · rcases exists_lastRun accepts inside with ⟨other, lastRun⟩
      rw [substitute_of_lastRun lastRun] at substituted
      cases substituted
      exact lastRun
    · -- without the key there is no match anywhere in the line
      rw [substitute, firstSome_eq_some_iff] at substituted
      rcases substituted with ⟨start, _, replaced, _⟩
      rcases Option.map_eq_some_iff.mp replaced with ⟨replacement, isFirst, _⟩
      rcases List.mem_flatMap.mp (List.mem_of_mem_head? isFirst) with ⟨atGroup, matched, _⟩
      rcases mem_rests_iff.mp matched with ⟨_, isText, denoted⟩
      rcases denotes_append.mp denoted with ⟨left, right, rfl, _, isKey⟩
      rw [denotes_literal.mp isKey] at isText
      apply absurd _ inside
      have inText : key <:+: line.drop start := ⟨left, atGroup, isText.symm⟩
      exact inText.trans (List.drop_suffix _ _).isInfix
  · exact substitute_of_lastRun

end Expression

end OomWatcher
