import OomWatcher.Kubernetes.ContainerId

/-! # The patterns as a plain scanner

Where the candidates for a container id start in a cgroup file, and which of them
the patterns take. -/

namespace OomWatcher

/-- A container id could start here: there is a delimiter before, 64 hexadecimal
characters follow, and no more of them. -/
structure Candidate (text : List Char) (start : Nat) : Prop where
  delimited : ∃ before delimiter, start = before + 1 ∧ text[before]? = some delimiter ∧
    isDelimiter delimiter = true
  hex : ∀ offset, offset < 64 → ∃ char, text[start + offset]? = some char ∧ isHex char = true
  bounded : ∀ char, text[start + 64]? = some char → isHex char = false

def charactersFrom (text : List Char) (start : Nat) : List Char := (text.drop start).take 64

theorem head?_all_not_isHex_iff {text : List Char} {position : Nat} :
    (text.drop position).head?.all (fun char => !isHex char) = true ↔
      ∀ char, text[position]? = some char → isHex char = false := by
  rw [List.head?_drop, Option.all_eq_true]
  simp only [Bool.not_eq_true']

theorem runAt_eq_some_iff_candidate {text run : List Char} {before : Nat} :
    runAt text before = some run ↔
      Candidate text (before + 1) ∧ run = charactersFrom text (before + 1) := by
  constructor
  · intro found
    rcases runAt_eq_some_iff.mp found with ⟨delimiter, rest, dropped, delimits, isRun⟩
    rcases getElem?_of_drop_eq_cons dropped with ⟨isDelimiter, rfl⟩
    rcases runAfter_eq_some_iff.mp isRun with ⟨length, hex, after, split, boundary⟩
    have isAfter : after = text.drop (before + 1 + 64) := by
      rw [← List.drop_drop, split, List.drop_left' length]
    rw [isAfter, head?_all_not_isHex_iff] at boundary
    refine ⟨⟨⟨before, delimiter, rfl, isDelimiter, delimits⟩, ?_, boundary⟩, ?_⟩
    · intro offset inside
      exact hex_of_runAt found inside
    · rw [charactersFrom, split, List.take_left' length]
  · intro holds
    rcases holds with ⟨candidate, rfl⟩
    rcases candidate.delimited with ⟨place, delimiter, samePlace, isDelimiter, delimits⟩
    cases samePlace
    have long : before + 1 + 64 ≤ text.length := by
      rcases candidate.hex 63 (by omega) with ⟨char, isChar, _⟩
      have inside := (List.getElem?_eq_some_iff.mp isChar).1
      omega
    have length : (charactersFrom text (before + 1)).length = 64 := by
      rw [charactersFrom, List.length_take, List.length_drop]
      omega
    refine runAt_eq_some_iff.mpr ⟨delimiter, text.drop (before + 1), ?_, delimits, ?_⟩
    · rcases List.getElem?_eq_some_iff.mp isDelimiter with ⟨inside, isAt⟩
      rw [← isAt]
      exact List.drop_eq_getElem_cons inside
    · refine runAfter_eq_some_iff.mpr ⟨length, ?_, text.drop (before + 1 + 64), ?_, ?_⟩
      · apply List.all_eq_true.mpr
        intro char member
        rcases List.mem_iff_getElem?.mp member with ⟨offset, isChar⟩
        have inside : offset < 64 := by
          rw [← length]
          exact (List.getElem?_eq_some_iff.mp isChar).1
        rw [charactersFrom, List.getElem?_take_of_lt inside, List.getElem?_drop] at isChar
        rcases candidate.hex offset inside with ⟨other, isOther, hex⟩
        rw [isChar] at isOther
        cases isOther
        exact hex
      · have whole := List.take_append_drop 64 (text.drop (before + 1))
        rw [List.drop_drop] at whole
        exact whole.symm
      · exact head?_all_not_isHex_iff.mpr candidate.bounded

structure LeftmostCandidate (text : List Char) (chosen : Nat → Prop) (start : Nat) : Prop where
  candidate : Candidate text start
  isChosen : chosen (start - 1)
  leftmost : ∀ earlier, earlier < start → Candidate text earlier → ¬ chosen (earlier - 1)

def NoCandidateAt (text : List Char) (chosen : Nat → Prop) : Prop :=
  ∀ start, Candidate text start → ¬ chosen (start - 1)

section Leftmost

variable {text : List Char} {chosen : Nat → Prop} [DecidablePred chosen]

theorem leftmostRun_eq_none_iff :
    leftmostRun text chosen = none ↔ NoCandidateAt text chosen := by
  rw [leftmostRun, firstSome_eq_none_iff]
  constructor
  · intro missed start candidate isChosen
    rcases candidate.delimited with ⟨before, _, rfl, _, _⟩
    have found := runAt_eq_some_iff_candidate.mpr ⟨candidate, rfl⟩
    have missedHere := missed before (lt_length_of_runAt found)
    rw [if_pos (show chosen before from isChosen), found] at missedHere
    cases missedHere
  · intro unchosen position _
    split
    · next isChosen =>
        cases found : runAt text position with
        | none => rfl
        | some run =>
            have candidate := (runAt_eq_some_iff_candidate.mp found).1
            exact absurd isChosen (unchosen (position + 1) candidate)
    · rfl

theorem leftmostRun_of_leftmostCandidate {start : Nat}
    (leftmost : LeftmostCandidate text chosen start) :
    leftmostRun text chosen = some (charactersFrom text start) := by
  rcases leftmost.candidate.delimited with ⟨before, _, rfl, _, _⟩
  have found := runAt_eq_some_iff_candidate.mpr ⟨leftmost.candidate, rfl⟩
  refine firstSome_eq_some_iff.mpr ⟨before, lt_length_of_runAt found, ?_, ?_⟩
  · rw [if_pos (show chosen before from leftmost.isChosen), found]
  · intro earlier isEarlier
    split
    · next isChosen =>
        cases other : runAt text earlier with
        | none => rfl
        | some run =>
            have candidate := (runAt_eq_some_iff_candidate.mp other).1
            exact absurd isChosen (leftmost.leftmost (earlier + 1) (by omega) candidate)
    · rfl

end Leftmost

/-- The id that the patterns lift out of the file is the leftmost candidate with a
chosen delimiter. -/
def TakesLeftmost (cgroup : String) (chosen : Nat → Prop) : Prop :=
  ∀ start, LeftmostCandidate cgroup.toList chosen start →
    extractContainerId cgroup = some (String.ofList (charactersFrom cgroup.toList start))

theorem exists_candidate_of_delimitedRun {text run : List Char} (isRun : DelimitedRun text run) :
    ∃ start, Candidate text start ∧ run = charactersFrom text start ∧
      ∀ char, text[start - 1]? = some char → isHex char = false := by
  rcases delimitedRun_iff.mp isRun with ⟨before, found⟩
  rcases runAt_eq_some_iff_candidate.mp found with ⟨candidate, isCharacters⟩
  refine ⟨before + 1, candidate, isCharacters, ?_⟩
  intro char isChar
  rcases delimiter_of_runAt found with ⟨delimiter, isDelimiter, delimits⟩
  rw [Nat.add_sub_cancel, isDelimiter] at isChar
  cases isChar
  exact not_isHex_of_isDelimiter delimits

theorem isSome_leftmostRun_of_chosen {text : List Char} {chosen : Nat → Prop}
    [DecidablePred chosen] (found : (leftmostRun text chosen).isSome) :
    (leftmostRun text fun _ => True).isSome := by
  rw [Option.isSome_iff_ne_none] at found ⊢
  intro missed
  apply found
  apply leftmostRun_eq_none_iff.mpr
  intro start candidate
  exact absurd trivial (leftmostRun_eq_none_iff.mp missed start candidate)

/-- The patterns take what a scanner over the candidates does: the leftmost right
after the name of a runtime, else the leftmost at a slash under `/kubepods`, else
the leftmost, else nothing. What they take is a maximal run, and the last pattern
matches wherever another does. -/
theorem extractContainerId_eq_scanner (cgroup : String) :
    TakesLeftmost cgroup (RuntimeBefore cgroup.toList) ∧
      (NoCandidateAt cgroup.toList (RuntimeBefore cgroup.toList) →
        TakesLeftmost cgroup (SlashUnderKubepods cgroup.toList) ∧
          (NoCandidateAt cgroup.toList (SlashUnderKubepods cgroup.toList) →
            TakesLeftmost cgroup fun _ => True)) ∧
      (extractContainerId cgroup = none ↔ ∀ start, ¬ Candidate cgroup.toList start) ∧
      (∀ containerId, extractContainerId cgroup = some containerId →
        ∃ start, Candidate cgroup.toList start ∧
          containerId = String.ofList (charactersFrom cgroup.toList start) ∧
          ∀ char, cgroup.toList[start - 1]? = some char → isHex char = false) ∧
      ((runtimePattern.find cgroup.toList).isSome ∨ (kubepodsPattern.find cgroup.toList).isSome →
        (anyPattern.find cgroup.toList).isSome) := by
  refine ⟨?_, ?_, ?_, ?_, ?_⟩
  · intro start leftmost
    rw [extractContainerId_eq_selectedRun, selectedRun, leftmostRun_of_leftmostCandidate leftmost]
    rfl
  · intro noneNamed
    constructor
    · intro start leftmost
      rw [extractContainerId_eq_selectedRun, selectedRun, leftmostRun_eq_none_iff.mpr noneNamed,
        leftmostRun_of_leftmostCandidate leftmost]
      rfl
    · intro noneUnder start leftmost
      rw [extractContainerId_eq_selectedRun, selectedRun, leftmostRun_eq_none_iff.mpr noneNamed,
        leftmostRun_eq_none_iff.mpr noneUnder, leftmostRun_of_leftmostCandidate leftmost]
      rfl
  · rw [extractContainerId_eq_selectedRun, Option.map_eq_none_iff, selectedRun,
      Option.or_eq_none_iff, Option.or_eq_none_iff, leftmostRun_eq_none_iff,
      leftmostRun_eq_none_iff, leftmostRun_eq_none_iff]
    constructor
    · intro missed start candidate
      exact missed.2.2 start candidate trivial
    · intro noCandidate
      exact ⟨fun start candidate => absurd candidate (noCandidate start),
        fun start candidate => absurd candidate (noCandidate start),
        fun start candidate => absurd candidate (noCandidate start)⟩
  · intro containerId taken
    rw [extractContainerId_eq_selectedRun] at taken
    rcases Option.map_eq_some_iff.mp taken with ⟨run, selected, rfl⟩
    rcases exists_candidate_of_delimitedRun (delimitedRun_of_selectedRun selected) with
      ⟨start, candidate, rfl, maximal⟩
    exact ⟨start, candidate, rfl, maximal⟩
  · rw [find_runtimePattern, find_kubepodsPattern, find_anyPattern]
    intro found
    rcases found with named | under
    · exact isSome_leftmostRun_of_chosen named
    · exact isSome_leftmostRun_of_chosen under

end OomWatcher
