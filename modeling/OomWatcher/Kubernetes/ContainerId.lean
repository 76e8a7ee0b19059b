import OomWatcher.Foundation.Pattern

/-! # Container ids in cgroup paths

`extractContainerId` lifts a 64-hex container id out of a `/proc/<pid>/cgroup`
file with three patterns tried in order. `selectedRun` is the same choice made
by a scanner over the delimited runs of the file. -/

namespace OomWatcher

def isHex (char : Char) : Bool :=
  (decide ('0' ≤ char) && decide (char ≤ '9')) || (decide ('a' ≤ char) && decide (char ≤ 'f'))

def isDelimiter (char : Char) : Bool := char == '-' || char == '/'

/-! ## The patterns -/

/-- `([0-9a-f]{64})(?:[^0-9a-f]|$)`, the tail of all three. The boundary keeps a
longer run from matching on its first characters. -/
def idPattern : Pattern :=
  .seq (.capture (.repeated 64 isHex)) (.either (.one fun char => !isHex char) .textEnd)

/-- `(?:cri-containerd|crio|docker|libpod)`, a delimiter and the tail. -/
def runtimePattern : Pattern :=
  .seq
    (.either (.literal "cri-containerd".toList)
      (.either (.literal "crio".toList)
        (.either (.literal "docker".toList) (.literal "libpod".toList))))
    (.seq (.one isDelimiter) idPattern)

/-- `/kubepods.*?/` and the tail. The dot does not match a newline. -/
def kubepodsPattern : Pattern :=
  .seq (.literal "/kubepods".toList)
    (.seq (.lazily (· != '\n')) (.seq (.one (· == '/')) idPattern))

def anyPattern : Pattern := .seq (.one isDelimiter) idPattern

def containerIdPatterns : List Pattern := [runtimePattern, kubepodsPattern, anyPattern]

/-- The first pattern that matches anywhere in the file decides. -/
def extractContainerId (cgroup : String) : Option String :=
  containerIdPatterns.findSome? fun pattern =>
    (pattern.find cgroup.toList).map String.ofList

/-! ## The scanner -/

def runAfter (text : List Char) : Option (List Char) :=
  if (text.take 64).length = 64 ∧ (text.take 64).all isHex ∧
      (text.drop 64).head?.all fun char => !isHex char then
    some (text.take 64)
  else none

def runAt (text : List Char) (position : Nat) : Option (List Char) :=
  match text.drop position with
  | [] => none
  | char :: rest => if isDelimiter char then runAfter rest else none

def runtimeNames : List (List Char) :=
  ["cri-containerd".toList, "crio".toList, "docker".toList, "libpod".toList]

/-- A runtime's name ends right before `position`. -/
def RuntimeBefore (text : List Char) (position : Nat) : Prop :=
  ∃ name ∈ runtimeNames, name <:+ text.take position

/-- `/kubepods` begins at `start` and ends before `position` on the same line. -/
def KubepodsFrom (text : List Char) (start position : Nat) : Prop :=
  "/kubepods".toList <+: text.drop start ∧ start + 9 ≤ position ∧
    ((text.drop (start + 9)).take (position - (start + 9))).all (· != '\n') = true

def SlashUnderKubepods (text : List Char) (position : Nat) : Prop :=
  text[position]? = some '/' ∧ ∃ start, start < position ∧ KubepodsFrom text start position

instance (text : List Char) : DecidablePred (RuntimeBefore text) :=
  fun position => inferInstanceAs (Decidable (∃ name ∈ runtimeNames, name <:+ text.take position))

instance (text : List Char) (start position : Nat) : Decidable (KubepodsFrom text start position) :=
  inferInstanceAs (Decidable (_ ∧ _ ∧ _))

instance (text : List Char) : DecidablePred (SlashUnderKubepods text) :=
  fun position => inferInstanceAs (Decidable (_ ∧ ∃ start, start < position ∧ _))

def leftmostRun (text : List Char) (chosen : Nat → Prop) [DecidablePred chosen] :
    Option (List Char) :=
  firstSome text.length fun position =>
    if chosen position then runAt text position else none

/-- A run named after a runtime goes before one under `/kubepods`, which goes
before any other. -/
def selectedRun (text : List Char) : Option (List Char) :=
  (leftmostRun text (RuntimeBefore text)).or
    ((leftmostRun text (SlashUnderKubepods text)).or (leftmostRun text fun _ => True))

/-! ## Runs -/

theorem not_isHex_of_isDelimiter {char : Char} (delimits : isDelimiter char = true) :
    isHex char = false := by
  rw [isDelimiter] at delimits
  rw [Bool.or_eq_true, beq_iff_eq, beq_iff_eq] at delimits
  rcases delimits with rfl | rfl <;> decide

theorem runAfter_eq_some_iff {text run : List Char} :
    runAfter text = some run ↔
      run.length = 64 ∧ run.all isHex = true ∧
        ∃ rest, text = run ++ rest ∧ rest.head?.all (fun char => !isHex char) = true := by
  rw [runAfter]
  constructor
  · intro found
    split at found
    · next holds =>
        cases found
        exact ⟨holds.1, holds.2.1, text.drop 64, (List.take_append_drop 64 text).symm, holds.2.2⟩
    · cases found
  · intro isRun
    rcases isRun with ⟨length, hex, rest, rfl, boundary⟩
    rw [List.take_left' length, List.drop_left' length, if_pos ⟨length, hex, boundary⟩]

theorem runAt_eq_some_iff {text run : List Char} {position : Nat} :
    runAt text position = some run ↔
      ∃ char rest, text.drop position = char :: rest ∧ isDelimiter char = true ∧
        runAfter rest = some run := by
  rw [runAt]
  cases text.drop position with
  | nil => simp
  | cons char rest =>
      simp only [List.cons.injEq]
      cases delimits : isDelimiter char with
      | true =>
          rw [if_pos rfl]
          constructor
          · intro found
            exact ⟨char, rest, ⟨rfl, rfl⟩, delimits, found⟩
          · intro delimited
            rcases delimited with ⟨_, _, ⟨rfl, rfl⟩, _, found⟩
            exact found
      | false =>
          rw [if_neg Bool.false_ne_true]
          constructor
          · intro found
            cases found
          · intro delimited
            rcases delimited with ⟨_, _, ⟨rfl, rfl⟩, isTrue, _⟩
            rw [delimits] at isTrue
            cases isTrue

theorem getElem?_of_drop_eq_cons {text rest : List Char} {char : Char} {position : Nat}
    (dropped : text.drop position = char :: rest) :
    text[position]? = some char ∧ text.drop (position + 1) = rest := by
  constructor
  · rw [← List.head?_drop, dropped, List.head?_cons]
  · rw [← List.tail_drop, dropped, List.tail_cons]

theorem delimiter_of_runAt {text run : List Char} {position : Nat}
    (found : runAt text position = some run) :
    ∃ char, text[position]? = some char ∧ isDelimiter char = true := by
  rcases runAt_eq_some_iff.mp found with ⟨char, rest, dropped, delimits, _⟩
  exact ⟨char, (getElem?_of_drop_eq_cons dropped).1, delimits⟩

theorem lt_length_of_runAt {text run : List Char} {position : Nat}
    (found : runAt text position = some run) : position < text.length := by
  rcases delimiter_of_runAt found with ⟨char, isChar, _⟩
  exact (List.getElem?_eq_some_iff.mp isChar).1

theorem hex_of_runAt {text run : List Char} {position offset : Nat}
    (found : runAt text position = some run) (inside : offset < 64) :
    ∃ char, text[position + 1 + offset]? = some char ∧ isHex char = true := by
  rcases runAt_eq_some_iff.mp found with ⟨char, rest, dropped, _, isRun⟩
  rcases runAfter_eq_some_iff.mp isRun with ⟨length, hex, after, rfl, _⟩
  have bound : offset < run.length := by omega
  refine ⟨run[offset], ?_, List.all_eq_true.mp hex _ (List.getElem_mem bound)⟩
  rw [← List.getElem?_drop, (getElem?_of_drop_eq_cons dropped).2,
    List.getElem?_append_left bound, List.getElem?_eq_getElem bound]

theorem apart_of_runAt {text left right : List Char} {position later : Nat}
    (isLeft : runAt text position = some left) (isRight : runAt text later = some right)
    (before : position < later) : position + 65 ≤ later := by
  by_contra close
  have inside : later - (position + 1) < 64 := by omega
  rcases hex_of_runAt isLeft inside with ⟨char, isChar, hex⟩
  rcases delimiter_of_runAt isRight with ⟨delimiter, isDelimiter, delimits⟩
  rw [show position + 1 + (later - (position + 1)) = later by omega, isDelimiter] at isChar
  cases isChar
  rw [not_isHex_of_isDelimiter delimits] at hex
  cases hex

/-! ## What the patterns find -/

theorem capturedAt_boundary (text : List Char) :
    (Pattern.either (.one fun char => !isHex char) .textEnd).capturedAt text =
      if text.head?.all fun char => !isHex char then some none else none := by
  cases text with
  | nil => rfl
  | cons char rest =>
      cases hex : isHex char <;> simp [Pattern.capturedAt, Pattern.successes, hex]

theorem capturedAt_idPattern (text : List Char) :
    idPattern.capturedAt text = (runAfter text).map some := by
  rw [idPattern, runAfter, Pattern.capturedAt_seq, Pattern.successes, Pattern.successes]
  by_cases isRun : (text.take 64).length = 64 ∧ (text.take 64).all isHex = true
  · have long : 64 ≤ text.length := by
      have length := isRun.1
      rw [List.length_take] at length
      omega
    have consumed : text.length - (text.length - 64) = 64 := by omega
    rw [if_pos isRun, List.map_singleton, List.findSome?_singleton, capturedAt_boundary,
      List.length_drop, consumed]
    by_cases boundary : (text.drop 64).head?.all (fun char => !isHex char) = true
    · rw [if_pos boundary, if_pos ⟨isRun.1, isRun.2, boundary⟩]
      rfl
    · rw [if_neg boundary, if_neg fun holds => boundary holds.2.2]
      rfl
  · rw [if_neg isRun, if_neg fun holds => isRun ⟨holds.1, holds.2.1⟩]
    rfl

theorem capturedAt_anyPattern (text : List Char) (position : Nat) :
    anyPattern.capturedAt (text.drop position) = (runAt text position).map some := by
  rw [anyPattern, runAt]
  cases text.drop position with
  | nil => rfl
  | cons char rest =>
      rw [Pattern.capturedAt_one_seq, capturedAt_idPattern]
      cases delimits : isDelimiter char <;> simp [delimits]

theorem find_anyPattern (text : List Char) :
    anyPattern.find text = leftmostRun text fun _ => True := by
  rw [Pattern.find_eq_firstSome (capturedAt_anyPattern text)]
  rw [leftmostRun]
  apply firstSome_eq_of_related (· = ·)
  · intro start run _ found
    exact ⟨start, lt_length_of_runAt found, rfl, by rw [if_pos trivial, found]⟩
  · intro position run below found _
    rw [if_pos trivial] at found
    exact ⟨position, Nat.lt_succ_of_lt below, rfl, found⟩
  · rintro start _ later _ rfl rfl before
    exact Nat.le_of_lt before

/-! ## Runs named after a runtime -/

theorem isSuffix_take_iff {text name : List Char} {position : Nat}
    (inside : position ≤ text.length) :
    name <:+ text.take position ↔
      ∃ start, start + name.length = position ∧ name <+: text.drop start := by
  constructor
  · intro isSuffix
    rcases isSuffix with ⟨before, split⟩
    refine ⟨before.length, ?_, ?_⟩
    · have length := congrArg List.length split
      rw [List.length_append, List.length_take, Nat.min_eq_left inside] at length
      exact length
    · have whole := List.take_append_drop position text
      rw [← split, List.append_assoc] at whole
      rw [← whole, List.drop_left]
      exact List.prefix_append _ _
  · intro isPrefix
    rcases isPrefix with ⟨start, rfl, after, split⟩
    refine ⟨text.take start, ?_⟩
    rw [List.take_add, ← split, List.take_left]

def runtimeRun (text : List Char) (start : Nat) : Option (List Char) :=
  runtimeNames.findSome? fun name =>
    if name <+: text.drop start then runAt text (start + name.length) else none

theorem capturedAt_name (text : List Char) (start : Nat) (name : List Char) :
    (Pattern.seq (.literal name) anyPattern).capturedAt (text.drop start) =
      (if name <+: text.drop start then runAt text (start + name.length) else none).map some := by
  rw [Pattern.capturedAt_literal_seq, List.drop_drop, capturedAt_anyPattern]
  split <;> rfl

theorem capturedAt_runtimePattern (text : List Char) (start : Nat) :
    runtimePattern.capturedAt (text.drop start) = (runtimeRun text start).map some := by
  change (Pattern.seq _ anyPattern).capturedAt _ = _
  rw [Pattern.capturedAt_either_seq, Pattern.capturedAt_either_seq,
    Pattern.capturedAt_either_seq, capturedAt_name, capturedAt_name, capturedAt_name,
    capturedAt_name]
  rw [runtimeRun, runtimeNames, findSome?_cons_eq_or, findSome?_cons_eq_or, findSome?_cons_eq_or,
    List.findSome?_singleton, Option.map_or, Option.map_or, Option.map_or]

theorem runtimeRun_eq_some {text run : List Char} {start : Nat}
    (found : runtimeRun text start = some run) :
    ∃ name ∈ runtimeNames, name <+: text.drop start ∧
      runAt text (start + name.length) = some run := by
  rcases List.exists_of_findSome?_eq_some found with ⟨name, isName, taken⟩
  by_cases named : name <+: text.drop start
  · rw [if_pos named] at taken
    exact ⟨name, isName, named, taken⟩
  · rw [if_neg named] at taken
    cases taken

theorem length_le_of_mem_runtimeNames {name : List Char} (isName : name ∈ runtimeNames) :
    name.length ≤ 14 := by
  revert name
  decide

theorem runtimeRun_of_name {text name run : List Char} {start : Nat}
    (isName : name ∈ runtimeNames) (named : name <+: text.drop start)
    (found : runAt text (start + name.length) = some run) : runtimeRun text start = some run := by
  cases taken : runtimeRun text start with
  | none =>
      have missed := List.findSome?_eq_none_iff.mp taken name isName
      rw [if_pos named, found] at missed
      cases missed
  | some other =>
      rcases runtimeRun_eq_some taken with ⟨otherName, isOtherName, _, isOther⟩
      have short := length_le_of_mem_runtimeNames isName
      have otherShort := length_le_of_mem_runtimeNames isOtherName
      have same : start + otherName.length = start + name.length := by
        rcases Nat.lt_trichotomy (start + otherName.length) (start + name.length) with
          before | equal | after
        · have apart := apart_of_runAt isOther found before
          omega
        · exact equal
        · have apart := apart_of_runAt found isOther after
          omega
      rw [← isOther, same, found]

theorem find_runtimePattern (text : List Char) :
    runtimePattern.find text = leftmostRun text (RuntimeBefore text) := by
  rw [Pattern.find_eq_firstSome (capturedAt_runtimePattern text)]
  rw [leftmostRun]
  apply firstSome_eq_of_related fun start position =>
    (∃ name ∈ runtimeNames, start + name.length = position) ∧
      ∃ run, runAt text position = some run
  · intro start run _ found
    rcases runtimeRun_eq_some found with ⟨name, isName, named, isRun⟩
    have inside := lt_length_of_runAt isRun
    have before : RuntimeBefore text (start + name.length) :=
      ⟨name, isName, (isSuffix_take_iff (Nat.le_of_lt inside)).mpr ⟨start, rfl, named⟩⟩
    exact ⟨start + name.length, inside, ⟨⟨name, isName, rfl⟩, run, isRun⟩,
      by rw [if_pos before, isRun]⟩
  · intro position run below found _
    split at found
    · next before =>
        rcases before with ⟨name, isName, ends⟩
        rcases (isSuffix_take_iff (Nat.le_of_lt below)).mp ends with ⟨start, rfl, named⟩
        exact ⟨start, by omega, ⟨⟨name, isName, rfl⟩, run, found⟩,
          runtimeRun_of_name isName named found⟩
    · cases found
  · rintro start position laterStart laterPosition ⟨⟨name, _, rfl⟩, run, isRun⟩
      ⟨⟨laterName, isLaterName, rfl⟩, laterRun, isLaterRun⟩ before
    -- a name is shorter than a run, so the order of the delimiters is that of the starts
    have apart := apart_of_runAt isRun isLaterRun before
    have short := length_le_of_mem_runtimeNames isLaterName
    omega

/-! ## Runs under `/kubepods` -/

def slashRun (text : List Char) (position : Nat) : Option (List Char) :=
  if text[position]? = some '/' then runAt text position else none

def kubepodsRun (text : List Char) (start : Nat) : Option (List Char) :=
  if "/kubepods".toList <+: text.drop start then
    firstSome ((text.drop (start + 9)).length + 1) fun count =>
      if ((text.drop (start + 9)).take count).all (· != '\n') then
        slashRun text (start + 9 + count)
      else none
  else none

theorem capturedAt_slash (text : List Char) (position : Nat) :
    (Pattern.seq (.one (· == '/')) idPattern).capturedAt (text.drop position) =
      (slashRun text position).map some := by
  rw [slashRun, runAt, ← List.head?_drop]
  cases text.drop position with
  | nil => rfl
  | cons char rest =>
      rw [Pattern.capturedAt_one_seq, capturedAt_idPattern, List.head?_cons]
      by_cases slash : char = '/'
      · subst slash
        rfl
      · rw [if_neg (by simpa using slash), if_neg (by simpa using slash)]
        rfl

theorem capturedAt_kubepodsPattern (text : List Char) (start : Nat) :
    kubepodsPattern.capturedAt (text.drop start) = (kubepodsRun text start).map some := by
  rw [kubepodsPattern, kubepodsRun, Pattern.capturedAt_literal_seq]
  split
  · have length : "/kubepods".toList.length = 9 := by decide
    rw [Pattern.capturedAt_lazily_seq, List.drop_drop, length]
    unfold firstSome
    rw [List.map_findSome?]
    apply congrArg (List.findSome? · _)
    funext count
    rw [List.drop_drop, capturedAt_slash, Function.comp_apply]
    split <;> rfl
  · rfl

theorem slashRun_eq_some_iff {text run : List Char} {position : Nat} :
    slashRun text position = some run ↔
      text[position]? = some '/' ∧ runAt text position = some run := by
  rw [slashRun]
  by_cases slash : text[position]? = some '/'
  · rw [if_pos slash]
    exact ⟨fun found => ⟨slash, found⟩, And.right⟩
  · rw [if_neg slash]
    exact ⟨nofun, fun found => absurd found.1 slash⟩

theorem all_take_of_le {text : List Char} {accepts : Char → Bool} {short long : Nat}
    (ordered : short ≤ long) (accepted : (text.take long).all accepts = true) :
    (text.take short).all accepts = true := by
  apply List.all_eq_true.mpr
  intro char member
  apply List.all_eq_true.mp accepted char
  exact List.take_subset_take_left _ ordered member

theorem KubepodsFrom.of_le {text : List Char} {start position earlier : Nat}
    (isFrom : KubepodsFrom text start position) (after : start + 9 ≤ earlier)
    (before : earlier ≤ position) : KubepodsFrom text start earlier :=
  ⟨isFrom.1, after, all_take_of_le (Nat.sub_le_sub_right before _) isFrom.2.2⟩

theorem kubepodsRun_eq_some_iff {text run : List Char} {start : Nat} :
    kubepodsRun text start = some run ↔
      ∃ position, KubepodsFrom text start position ∧ slashRun text position = some run ∧
        ∀ earlier, start + 9 ≤ earlier → earlier < position → slashRun text earlier = none := by
  unfold kubepodsRun KubepodsFrom
  by_cases named : "/kubepods".toList <+: text.drop start
  · rw [if_pos named, firstSome_eq_some_iff]
    constructor
    · intro isLeast
      rcases isLeast with ⟨count, _, found, least⟩
      split at found
      · next sameLine =>
          refine ⟨start + 9 + count, ⟨named, by omega, ?_⟩, found, ?_⟩
          · rw [Nat.add_sub_cancel_left]
            exact sameLine
          · intro earlier after before
            have missed := least (earlier - (start + 9)) (by omega)
            rw [Nat.add_sub_cancel' after, if_pos] at missed
            · exact missed
            · exact all_take_of_le (by omega) sameLine
      · cases found
    · intro isLeast
      rcases isLeast with ⟨position, ⟨_, after, sameLine⟩, found, least⟩
      have inside := lt_length_of_runAt (slashRun_eq_some_iff.mp found).2
      refine ⟨position - (start + 9), ?_, ?_, ?_⟩
      · rw [List.length_drop]
        omega
      · rw [if_pos sameLine, Nat.add_sub_cancel' after, found]
      · intro count below
        rw [least (start + 9 + count) (by omega) (by omega)]
        split <;> rfl
  · rw [if_neg named]
    exact ⟨nofun, fun ⟨_, from_, _⟩ => absurd from_.1 named⟩

theorem find_kubepodsPattern (text : List Char) :
    kubepodsPattern.find text = leftmostRun text (SlashUnderKubepods text) := by
  rw [Pattern.find_eq_firstSome (capturedAt_kubepodsPattern text)]
  rw [leftmostRun]
  apply firstSome_eq_of_related fun start position =>
    (∃ run, slashRun text position = some run) ∧ start + 9 ≤ position ∧
      ∀ earlier, start + 9 ≤ earlier → earlier < position → slashRun text earlier = none
  · intro start run _ found
    rcases kubepodsRun_eq_some_iff.mp found with ⟨position, isFrom, isRun, least⟩
    rcases slashRun_eq_some_iff.mp isRun with ⟨slash, atSlash⟩
    have after := isFrom.2.1
    have under : SlashUnderKubepods text position := ⟨slash, start, by omega, isFrom⟩
    exact ⟨position, lt_length_of_runAt atSlash, ⟨⟨run, isRun⟩, after, least⟩,
      by rw [if_pos under, atSlash]⟩
  · intro position run below found least
    split at found
    · next under =>
        rcases under with ⟨slash, start, before, isFrom⟩
        have isRun := slashRun_eq_some_iff.mpr ⟨slash, found⟩
        have firstOnLine : ∀ earlier, start + 9 ≤ earlier → earlier < position →
            slashRun text earlier = none := by
          intro earlier after early
          cases other : slashRun text earlier with
          | none => rfl
          | some otherRun =>
              rcases slashRun_eq_some_iff.mp other with ⟨otherSlash, isOther⟩
              have sameLine := isFrom.of_le after (Nat.le_of_lt early)
              have missed := least earlier early
              rw [if_pos ⟨otherSlash, start, by omega, sameLine⟩, isOther] at missed
              cases missed
        exact ⟨start, by omega, ⟨⟨run, isRun⟩, isFrom.2.1, firstOnLine⟩,
          kubepodsRun_eq_some_iff.mpr ⟨position, isFrom, isRun, firstOnLine⟩⟩
    · cases found
  · rintro start position laterStart laterPosition ⟨⟨run, isRun⟩, after, _⟩
      ⟨_, laterAfter, laterLeast⟩ before
    -- a match from an earlier start would have taken the earlier run
    by_contra reversed
    rw [laterLeast position (by omega) before] at isRun
    cases isRun

/-! ## The choice -/

def IsContainerId (run : List Char) : Prop := run.length = 64 ∧ run.all isHex = true

instance (run : List Char) : Decidable (IsContainerId run) :=
  inferInstanceAs (Decidable (_ ∧ _))

/-- The run stands in the text between a delimiter and a character that cannot
prolong it, or the end. -/
def DelimitedRun (text run : List Char) : Prop :=
  IsContainerId run ∧ ∃ before delimiter after, text = before ++ delimiter :: (run ++ after) ∧
    isDelimiter delimiter = true ∧ after.head?.all (fun char => !isHex char) = true

theorem delimitedRun_iff {text run : List Char} :
    DelimitedRun text run ↔ ∃ position, runAt text position = some run := by
  constructor
  · intro delimited
    rcases delimited with ⟨isId, before, delimiter, after, rfl, delimits, boundary⟩
    refine ⟨before.length, runAt_eq_some_iff.mpr ⟨delimiter, run ++ after, ?_, delimits, ?_⟩⟩
    · exact List.drop_left
    · exact runAfter_eq_some_iff.mpr ⟨isId.1, isId.2, after, rfl, boundary⟩
  · intro isRun
    rcases isRun with ⟨position, found⟩
    rcases runAt_eq_some_iff.mp found with ⟨delimiter, rest, dropped, delimits, isRun⟩
    rcases runAfter_eq_some_iff.mp isRun with ⟨length, hex, after, rfl, boundary⟩
    refine ⟨⟨length, hex⟩, text.take position, delimiter, after, ?_, delimits, boundary⟩
    rw [← dropped, List.take_append_drop]

theorem delimitedRun_of_leftmostRun {text run : List Char} {chosen : Nat → Prop}
    [DecidablePred chosen] (found : leftmostRun text chosen = some run) :
    DelimitedRun text run := by
  rcases firstSome_eq_some_iff.mp found with ⟨position, _, isRun, _⟩
  split at isRun
  · exact delimitedRun_iff.mpr ⟨position, isRun⟩
  · cases isRun

theorem delimitedRun_of_selectedRun {text run : List Char}
    (selected : selectedRun text = some run) : DelimitedRun text run := by
  rcases Option.or_eq_some_iff.mp selected with named | ⟨_, other⟩
  · exact delimitedRun_of_leftmostRun named
  · rcases Option.or_eq_some_iff.mp other with under | ⟨_, any⟩
    · exact delimitedRun_of_leftmostRun under
    · exact delimitedRun_of_leftmostRun any

/-- The patterns choose like the scanner. -/
theorem extractContainerId_eq_selectedRun (cgroup : String) :
    extractContainerId cgroup = (selectedRun cgroup.toList).map String.ofList := by
  rw [extractContainerId, containerIdPatterns, selectedRun]
  rw [findSome?_cons_eq_or, findSome?_cons_eq_or, List.findSome?_singleton,
    find_runtimePattern, find_kubepodsPattern, find_anyPattern, Option.map_or, Option.map_or]

end OomWatcher
