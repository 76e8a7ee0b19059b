import Mathlib.Data.List.Infix

/-! # Patterns

Regular expressions searched by backtracking. The ways a pattern matches at a
position are listed in order of preference, and a search takes the most
preferred one at the leftmost position that has any. -/

namespace OomWatcher

/-! ## The first position -/

/-- The value at the least position below `limit` that has one. -/
def firstSome {Value : Type} (limit : Nat) (find : Nat → Option Value) : Option Value :=
  (List.range limit).findSome? find

section FirstSome

variable {Value : Type} {limit : Nat} {find : Nat → Option Value}

theorem firstSome_eq_none_iff :
    firstSome limit find = none ↔ ∀ position, position < limit → find position = none := by
  rw [firstSome, List.findSome?_eq_none_iff]
  apply forall_congr'
  intro position
  rw [List.mem_range]

theorem exists_least_of_firstSome {value : Value} (found : firstSome limit find = some value) :
    ∃ position, position < limit ∧ find position = some value ∧
      ∀ earlier, earlier < position → find earlier = none := by
  induction limit with
  | zero => cases found
  | succ limit induction =>
      rw [firstSome] at found
      rw [List.range_succ, List.findSome?_append, Option.or_eq_some_iff] at found
      rcases found with before | ⟨missed, atLimit⟩
      · rcases induction before with ⟨position, below, isValue, least⟩
        exact ⟨position, Nat.lt_succ_of_lt below, isValue, least⟩
      · rw [List.findSome?_singleton] at atLimit
        exact ⟨limit, Nat.lt_succ_self limit, atLimit, firstSome_eq_none_iff.mp missed⟩

theorem firstSome_eq_some_iff {value : Value} :
    firstSome limit find = some value ↔
      ∃ position, position < limit ∧ find position = some value ∧
        ∀ earlier, earlier < position → find earlier = none := by
  constructor
  · exact exists_least_of_firstSome
  · intro isLeast
    rcases isLeast with ⟨position, below, isValue, least⟩
    cases found : firstSome limit find with
    | none => rw [← firstSome_eq_none_iff.mp found position below, isValue]
    | some other =>
        rcases exists_least_of_firstSome found with ⟨place, _, isOther, leastPlace⟩
        rcases Nat.lt_trichotomy place position with before | rfl | after
        · rw [least place before] at isOther
          cases isOther
        · rw [← isOther, isValue]
        · rw [leastPlace position after] at isValue
          cases isValue

/-- Two searches find the same when the positions at which they succeed are
matched to each other in order. On the second side only the first success needs
a match. -/
theorem firstSome_eq_of_related {firstLimit secondLimit : Nat}
    {first second : Nat → Option Value} (Related : Nat → Nat → Prop)
    (toSecond : ∀ {start value}, start < firstLimit → first start = some value →
      ∃ position, position < secondLimit ∧ Related start position ∧
        second position = some value)
    (toFirst : ∀ {position value}, position < secondLimit → second position = some value →
      (∀ earlier, earlier < position → second earlier = none) →
        ∃ start, start < firstLimit ∧ Related start position ∧ first start = some value)
    (ordered : ∀ {start position laterStart laterPosition}, Related start position →
      Related laterStart laterPosition → position < laterPosition → start ≤ laterStart) :
    firstSome firstLimit first = firstSome secondLimit second := by
  cases found : firstSome secondLimit second with
  | none =>
      rw [firstSome_eq_none_iff] at found ⊢
      intro start below
      by_contra succeeds
      rcases Option.ne_none_iff_exists'.mp succeeds with ⟨value, isValue⟩
      rcases toSecond below isValue with ⟨position, belowSecond, _, isSecond⟩
      rw [found position belowSecond] at isSecond
      cases isSecond
  | some value =>
      rcases firstSome_eq_some_iff.mp found with ⟨position, below, isValue, least⟩
      rcases toFirst below isValue least with ⟨start, startBelow, related, isFirst⟩
      cases other : firstSome firstLimit first with
      | none =>
          rw [firstSome_eq_none_iff.mp other start startBelow] at isFirst
          cases isFirst
      | some otherValue =>
          rcases firstSome_eq_some_iff.mp other with
            ⟨otherStart, otherBelow, isOther, otherLeast⟩
          rcases toSecond otherBelow isOther with
            ⟨otherPosition, _, otherRelated, isOtherSecond⟩
          have notLater : otherStart ≤ start := by
            by_contra later
            rw [otherLeast start (by omega)] at isFirst
            cases isFirst
          rcases Nat.lt_trichotomy otherPosition position with before | rfl | after
          · rw [least otherPosition before] at isOtherSecond
            cases isOtherSecond
          · rw [← isOtherSecond, isValue]
          · have notEarlier := ordered related otherRelated after
            have equal : otherStart = start := Nat.le_antisymm notLater notEarlier
            rw [← isOther, equal, isFirst]

end FirstSome

/-! ## Patterns -/

theorem findSome?_filter {Item Value : Type} (keeps : Item → Bool)
    (value : Item → Option Value) (items : List Item) :
    (items.filter keeps).findSome? value =
      items.findSome? fun item => if keeps item then value item else none := by
  induction items with
  | nil => rfl
  | cons item items induction =>
      cases kept : keeps item with
      | true => rw [List.filter_cons_of_pos kept, List.findSome?_cons, List.findSome?_cons,
          if_pos kept, induction]
      | false => rw [List.filter_cons_of_neg (by simp [kept]), List.findSome?_cons,
          if_neg (by simp [kept]), induction]

theorem findSome?_cons_eq_or {Item Value : Type} (value : Item → Option Value) (item : Item)
    (items : List Item) :
    (item :: items).findSome? value = (value item).or (items.findSome? value) := by
  rw [List.findSome?_cons]
  cases value item <;> rfl

inductive Pattern
  /-- The text itself. -/
  | literal (text : List Char)
  /-- One character of the class. -/
  | one (accepts : Char → Bool)
  /-- Exactly `count` characters of the class. -/
  | repeated (count : Nat) (accepts : Char → Bool)
  /-- Any number of characters of the class, the fewer the better. -/
  | lazily (accepts : Char → Bool)
  /-- The end of the text. -/
  | textEnd
  | seq (first second : Pattern)
  /-- Either one, the left for preference. -/
  | either (left right : Pattern)
  | capture (inner : Pattern)

structure Success where
  captured : Option (List Char)
  rest : List Char
deriving DecidableEq, Repr

namespace Pattern

/-- The ways to match at the start of the text, the preferred ones first. -/
def successes : Pattern → List Char → List Success
  | .literal expected, text =>
      if expected <+: text then [⟨none, text.drop expected.length⟩] else []
  | .one accepts, text =>
      match text with
      | [] => []
      | char :: rest => if accepts char then [⟨none, rest⟩] else []
  | .repeated count accepts, text =>
      if (text.take count).length = count ∧ (text.take count).all accepts then
        [⟨none, text.drop count⟩]
      else []
  | .lazily accepts, text =>
      ((List.range (text.length + 1)).filter fun count => (text.take count).all accepts).map
        fun count => ⟨none, text.drop count⟩
  | .textEnd, text => if text = [] then [⟨none, []⟩] else []
  | .seq first second, text =>
      (first.successes text).flatMap fun before =>
        (second.successes before.rest).map fun after =>
          ⟨after.captured.or before.captured, after.rest⟩
  | .either left right, text => left.successes text ++ right.successes text
  | .capture inner, text =>
      (inner.successes text).map fun success =>
        ⟨some (text.take (text.length - success.rest.length)), success.rest⟩

/-- The preferred way at the leftmost position that has one. -/
def search (pattern : Pattern) (text : List Char) : Option Success :=
  firstSome (text.length + 1) fun start => (pattern.successes (text.drop start)).head?

def find (pattern : Pattern) (text : List Char) : Option (List Char) :=
  (pattern.search text).bind (·.captured)

def capturedAt (pattern : Pattern) (text : List Char) : Option (Option (List Char)) :=
  (pattern.successes text).head?.map (·.captured)

theorem find_eq_firstSome {pattern : Pattern} {text : List Char}
    {captures : Nat → Option (List Char)}
    (captured : ∀ start, pattern.capturedAt (text.drop start) = (captures start).map some) :
    pattern.find text = firstSome (text.length + 1) captures := by
  have searched : (pattern.search text).map (·.captured) =
      (firstSome (text.length + 1) captures).map some := by
    unfold search firstSome
    rw [List.map_findSome?, List.map_findSome?]
    apply congrArg (List.findSome? · _)
    funext start
    exact captured start
  rw [find]
  cases found : firstSome (text.length + 1) captures with
  | none =>
      rw [found, Option.map_none, Option.map_eq_none_iff] at searched
      rw [searched, Option.bind_none]
  | some capture =>
      rw [found, Option.map_some, Option.map_eq_some_iff] at searched
      rcases searched with ⟨success, isFound, isCapture⟩
      rw [isFound, Option.bind_some, isCapture]

/-! ## Captures of sequences -/

theorem capturedAt_seq (first second : Pattern) (text : List Char) :
    (seq first second).capturedAt text = (first.successes text).findSome? fun before =>
      (second.capturedAt before.rest).map (·.or before.captured) := by
  unfold capturedAt
  rw [successes, List.head?_flatMap, List.map_findSome?]
  apply congrArg (List.findSome? · _)
  funext before
  simp [Function.comp_def]

theorem capturedAt_literal_seq (expected : List Char) (next : Pattern) (text : List Char) :
    (seq (literal expected) next).capturedAt text =
      if expected <+: text then next.capturedAt (text.drop expected.length) else none := by
  rw [capturedAt_seq, successes]
  by_cases starts : expected <+: text
  · simp [starts]
  · simp [starts]

theorem capturedAt_one_seq (accepts : Char → Bool) (next : Pattern) (char : Char)
    (text : List Char) :
    (seq (one accepts) next).capturedAt (char :: text) =
      if accepts char then next.capturedAt text else none := by
  rw [capturedAt_seq, successes]
  cases accepts char with
  | true => simp
  | false => simp

theorem capturedAt_lazily_seq (accepts : Char → Bool) (next : Pattern) (text : List Char) :
    (seq (lazily accepts) next).capturedAt text =
      firstSome (text.length + 1) fun count =>
        if (text.take count).all accepts then next.capturedAt (text.drop count) else none := by
  rw [capturedAt_seq, successes, List.findSome?_map, findSome?_filter]
  rw [firstSome]
  apply congrArg (List.findSome? · _)
  funext count
  simp

theorem capturedAt_either_seq (left right next : Pattern) (text : List Char) :
    (seq (either left right) next).capturedAt text =
      ((seq left next).capturedAt text).or ((seq right next).capturedAt text) := by
  rw [capturedAt_seq, capturedAt_seq, capturedAt_seq, successes, List.findSome?_append]

end Pattern

end OomWatcher
