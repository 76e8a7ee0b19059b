import OomWatcher.Tracepoint.Format

/-! # The check at startup

The `format` file is read from the first mount that shows it, and a layout the
probe does not decode is refused. The refusal names every mismatch. -/

namespace OomWatcher

/-! ## Reading the file -/

def formatPaths : List String :=
  ["/sys/kernel/tracing/events/oom/mark_victim/format",
    "/sys/kernel/debug/tracing/events/oom/mark_victim/format"]

abbrev ReadFile := String → Except String String

/-- One path of the loop: the text once there is one, or the last error. -/
def tryPath (read : ReadFile) (found : Except (Option (String × String)) String) (path : String) :
    Except (Option (String × String)) String :=
  match found with
  | .ok text => .ok text
  | .error _ =>
      match read path with
      | .ok text => .ok text
      | .error error => .error (some (path, error))

/-- The error when no path could be read. The list of paths is not empty, so
there is a last error. -/
def unreadable : Option (String × String) → Text
  | some (path, error) =>
      "could not read the oom:mark_victim tracepoint format (".toList ++ path.toList ++
        ": ".toList ++ error.toList ++ ").\n".toList ++
        ("Mount tracefs and make it visible to this container — the DaemonSet mounts " ++
          "/sys and /sys/kernel/debug for exactly this.").toList
  | none => "FORMAT_PATHS is non-empty".toList

def readFormat (read : ReadFile) : Except Text String :=
  match formatPaths.foldl (tryPath read) (.error none) with
  | .ok text => .ok text
  | .error lastError => .error (unreadable lastError)

/-! ## The refusal -/

def placed (place : Nat × Nat) : Text :=
  "offset ".toList ++ (Text.decimal place.1 ++ (" size ".toList ++ Text.decimal place.2))

def Mismatch.display : Mismatch → Text
  | .missing name => ("  ".toList ++ name.toList) ++ ": missing".toList
  | .moved name expected found =>
      ("  ".toList ++ name.toList) ++ (": expected ".toList ++ (placed expected ++
        (", found ".toList ++ placed found)))

def Mismatch.isMissing : Mismatch → Bool
  | .missing _ => true
  | .moved _ _ _ => false

def refusalHeader : Text :=
  ("the oom:mark_victim tracepoint on this kernel does not match the layout this " ++
    "probe decodes:").toList

def refusalHint (mismatches : List Mismatch) : Text :=
  if mismatches.all Mismatch.isMissing then
    ("This is the pre-6.9 tracepoint, which carries only `pid`. The extended fields " ++
      "landed in Linux 6.9; this node needs a 6.9+ kernel.").toList
  else
    ("The tracepoint layout has changed. MarkVictimArgs in oom-watcher-ebpf and " ++
      "REQUIRED_FIELDS here both need updating for this kernel.").toList

def refusalEnd : Text :=
  ("Refusing to start: attaching anyway would report correct PIDs alongside " ++
    "meaningless memory figures.").toList

def refusal (mismatches : List Mismatch) : Text :=
  let detail := ['\n'].intercalate (mismatches.map Mismatch.display)
  refusalHeader ++ '\n' :: (detail ++ '\n' :: '\n' :: (refusalHint mismatches ++
    '\n' :: refusalEnd))

def verifyKernelLayout (read : ReadFile) : Except Text Unit :=
  match readFormat read with
  | .error error => .error error
  | .ok text =>
      let mismatches := checkLayout text
      if mismatches.isEmpty then .ok () else .error (refusal mismatches)

/-! ## Which file is read -/

section Reading

variable {read : ReadFile}

theorem foldl_tryPath_ok (paths : List String) (text : String) :
    paths.foldl (tryPath read) (.ok text) = .ok text := by
  induction paths with
  | nil => rfl
  | cons path rest induction => exact induction

theorem foldl_tryPath_eq_ok_iff (paths : List String) (lastError : Option (String × String))
    (text : String) :
    paths.foldl (tryPath read) (.error lastError) = .ok text ↔
      ∃ before path after, paths = before ++ path :: after ∧
        (∀ other ∈ before, ∃ error, read other = .error error) ∧ read path = .ok text := by
  induction paths generalizing lastError with
  | nil => simp
  | cons path rest induction =>
      rw [List.foldl_cons]
      cases answer : read path with
      | ok own =>
          simp only [tryPath, answer, foldl_tryPath_ok]
          constructor
          · intro same
            refine ⟨[], path, rest, rfl, nofun, ?_⟩
            rw [answer, Except.ok.inj same]
          · intro found
            rcases found with ⟨before, first, after, split, failed, isText⟩
            cases before with
            | nil =>
                rcases List.cons.inj split with ⟨rfl, _⟩
                rw [answer] at isText
                rw [Except.ok.inj isText]
            | cons other before =>
                rcases List.cons.inj split with ⟨rfl, _⟩
                rcases failed path List.mem_cons_self with ⟨error, unreadable⟩
                rw [answer] at unreadable
                cases unreadable
      | error error =>
          simp only [tryPath, answer, induction]
          constructor
          · intro found
            rcases found with ⟨before, first, after, rfl, failed, isText⟩
            refine ⟨path :: before, first, after, rfl, ?_, isText⟩
            intro other member
            rcases List.mem_cons.mp member with rfl | earlier
            · exact ⟨error, answer⟩
            · exact failed other earlier
          · intro found
            rcases found with ⟨before, first, after, split, failed, isText⟩
            cases before with
            | nil =>
                rcases List.cons.inj split with ⟨rfl, _⟩
                rw [answer] at isText
                cases isText
            | cons other before =>
                rcases List.cons.inj split with ⟨_, rfl⟩
                exact ⟨before, first, after, rfl,
                  fun other earlier => failed other (List.mem_cons_of_mem _ earlier), isText⟩

theorem readFormat_eq_ok_iff {text : String} :
    readFormat read = .ok text ↔
      formatPaths.foldl (tryPath read) (.error none) = .ok text := by
  rw [readFormat]
  cases formatPaths.foldl (tryPath read) (.error none) <;> simp

theorem verifyKernelLayout_of_read {text : String} (isRead : readFormat read = .ok text) :
    verifyKernelLayout read =
      if checkLayout text = [] then .ok () else .error (refusal (checkLayout text)) := by
  rw [verifyKernelLayout, isRead]
  simp only [List.isEmpty_iff]

theorem verifyKernelLayout_eq_ok_iff :
    verifyKernelLayout read = .ok () ↔
      ∃ text, readFormat read = .ok text ∧ checkLayout text = [] := by
  cases isRead : readFormat read with
  | error error =>
      rw [verifyKernelLayout, isRead]
      simp
  | ok text =>
      rw [verifyKernelLayout_of_read isRead]
      simp

end Reading

/-! ## What the refusal tells -/

def Mismatch.Legible (mismatch : Mismatch) : Prop :=
  ':' ∉ mismatch.name.toList ∧ '\n' ∉ mismatch.name.toList

theorem legible_of_mem_checkLayout {text : String} {mismatch : Mismatch}
    (reported : mismatch ∈ checkLayout text) : mismatch.Legible := by
  have legibleNames : ∀ want ∈ requiredFields, ':' ∉ want.name.toList ∧ '\n' ∉ want.name.toList :=
    by decide
  rcases List.mem_filterMap.mp reported with ⟨want, required, isMismatch⟩
  rw [Mismatch.Legible, name_of_checkField isMismatch]
  exact legibleNames want required

def Mismatch.finding : Mismatch → Text
  | .missing _ => " missing".toList
  | .moved _ expected found =>
      " expected ".toList ++ (placed expected ++ (", found ".toList ++ placed found))

theorem Mismatch.display_eq (mismatch : Mismatch) :
    mismatch.display = ("  ".toList ++ mismatch.name.toList) ++ ':' :: mismatch.finding := by
  cases mismatch with
  | missing name => exact congrArg (("  ".toList ++ name.toList) ++ ·) rfl
  | moved name expected found => exact congrArg (("  ".toList ++ name.toList) ++ ·) rfl

theorem not_mem_decimal {char : Char} (notDigit : char.isDigit = false) (value : Nat) :
    char ∉ Text.decimal value := by
  intro member
  rw [Text.isDigit_of_mem_decimal member] at notDigit
  cases notDigit

theorem not_mem_placed {char : Char} (notDigit : char.isDigit = false)
    (notInOffset : char ∉ "offset ".toList) (notInSize : char ∉ " size ".toList)
    (place : Nat × Nat) : char ∉ placed place :=
  List.not_mem_append notInOffset (List.not_mem_append (not_mem_decimal notDigit _)
    (List.not_mem_append notInSize (not_mem_decimal notDigit _)))

theorem newline_not_mem_display {mismatch : Mismatch} (legible : mismatch.Legible) :
    '\n' ∉ mismatch.display := by
  have notInPlaced := @not_mem_placed '\n' (by decide) (by decide) (by decide)
  have notInStart : '\n' ∉ "  ".toList ++ mismatch.name.toList :=
    List.not_mem_append (by decide) legible.2
  have literals : '\n' ∉ ": missing".toList ∧ '\n' ∉ ": expected ".toList ∧
      '\n' ∉ ", found ".toList := by decide
  cases mismatch with
  | missing name => exact List.not_mem_append notInStart literals.1
  | moved name expected found =>
      exact List.not_mem_append notInStart (List.not_mem_append literals.2.1
        (List.not_mem_append (notInPlaced expected)
          (List.not_mem_append literals.2.2 (notInPlaced found))))

theorem placed_inj {left right : Nat × Nat} (equal : placed left = placed right) :
    left = right := by
  have noSpace := @not_mem_decimal ' ' (by decide)
  have numbers := Text.eq_of_append_separator (noSpace left.1) (noSpace right.1)
    (List.append_cancel_left equal)
  have offsets := Text.decimal_inj.mp numbers.1
  have sizes := Text.decimal_inj.mp (List.append_cancel_left numbers.2)
  exact Prod.ext offsets sizes

theorem Mismatch.display_inj {left right : Mismatch} (leftLegible : left.Legible)
    (rightLegible : right.Legible) (equal : left.display = right.display) : left = right := by
  have noColon {mismatch : Mismatch} (legible : mismatch.Legible) :
      ':' ∉ "  ".toList ++ mismatch.name.toList :=
    List.not_mem_append (by decide) legible.1
  have noComma := @not_mem_placed ',' (by decide) (by decide) (by decide)
  rw [left.display_eq, right.display_eq] at equal
  rcases Text.eq_of_append_separator (noColon leftLegible) (noColon rightLegible) equal with
    ⟨sameStart, sameFinding⟩
  have sameName : left.name = right.name :=
    String.toList_inj.mp (List.append_cancel_left sameStart)
  cases left with
  | missing leftName =>
      cases right with
      | missing rightName => exact congrArg Mismatch.missing sameName
      | moved rightName expected found =>
          have secondChar : some 'm' = some 'e' :=
            congrArg (fun text : Text => text[1]?) sameFinding
          exact absurd secondChar (by decide)
  | moved leftName leftExpected leftFound =>
      cases right with
      | missing rightName =>
          have secondChar : some 'e' = some 'm' :=
            congrArg (fun text : Text => text[1]?) sameFinding
          exact absurd secondChar (by decide)
      | moved rightName rightExpected rightFound =>
          have places := Text.eq_of_append_separator (noComma leftExpected)
            (noComma rightExpected) (List.append_cancel_left sameFinding)
          have sameExpected := placed_inj places.1
          have sameFound := placed_inj (List.append_cancel_left places.2)
          change leftName = rightName at sameName
          rw [sameName, sameExpected, sameFound]

theorem display_map_inj {left right : List Mismatch} (leftLegible : ∀ one ∈ left, one.Legible)
    (rightLegible : ∀ one ∈ right, one.Legible)
    (equal : left.map Mismatch.display = right.map Mismatch.display) : left = right := by
  induction left generalizing right with
  | nil => exact (List.map_eq_nil_iff.mp equal.symm).symm
  | cons first rest induction =>
      cases right with
      | nil => cases equal
      | cons other others =>
          rcases List.cons.inj equal with ⟨sameFirst, sameRest⟩
          have same := Mismatch.display_inj (leftLegible first List.mem_cons_self)
            (rightLegible other List.mem_cons_self) sameFirst
          rw [same, induction (fun one member => leftLegible one (List.mem_cons_of_mem _ member))
            (fun one member => rightLegible one (List.mem_cons_of_mem _ member)) sameRest]

def refusalLines (mismatches : List Mismatch) : List Text :=
  refusalHeader :: (mismatches.map Mismatch.display ++
    [[], refusalHint mismatches, refusalEnd])

theorem split_refusal {mismatches : List Mismatch} (nonempty : mismatches ≠ [])
    (legible : ∀ one ∈ mismatches, one.Legible) :
    Text.split '\n' (refusal mismatches) = refusalLines mismatches := by
  have notInHeader : '\n' ∉ refusalHeader := by decide +kernel
  have notInHint : '\n' ∉ refusalHint mismatches := by
    rw [refusalHint]
    split <;> decide +kernel
  have notInEnd : '\n' ∉ refusalEnd := by decide +kernel
  have notInDetail : ∀ line ∈ mismatches.map Mismatch.display, '\n' ∉ line := by
    intro line member
    rcases List.mem_map.mp member with ⟨one, isReported, rfl⟩
    exact newline_not_mem_display (legible one isReported)
  have hinted : Text.split '\n' ('\n' :: (refusalHint mismatches ++ '\n' :: refusalEnd)) =
      [[], refusalHint mismatches, refusalEnd] := by
    rw [← List.nil_append ('\n' :: _), Text.split_append List.not_mem_nil,
      Text.split_append notInHint, Text.split_of_absent notInEnd]
  rw [refusal, Text.split_append notInHeader,
    Text.split_intercalate_append (mt List.map_eq_nil_iff.mp nonempty) notInDetail, hinted,
    refusalLines]

/-- Refusals are equal only for the same mismatches. -/
theorem refusal_inj {left right : List Mismatch} (leftNonempty : left ≠ [])
    (rightNonempty : right ≠ []) (leftLegible : ∀ one ∈ left, one.Legible)
    (rightLegible : ∀ one ∈ right, one.Legible) (equal : refusal left = refusal right) :
    left = right := by
  have sameLines := congrArg (Text.split '\n') equal
  rw [split_refusal leftNonempty leftLegible, split_refusal rightNonempty rightLegible]
    at sameLines
  have sameRest := (List.cons.inj sameLines).2
  have sameDetail := (List.append_inj' sameRest rfl).1
  exact display_map_inj leftLegible rightLegible sameDetail

/-- The check at startup reads the first file it can and passes exactly a layout
without mismatch. Otherwise the lines of the refusal are a header, one for every
mismatch in the order of the required fields, and the hint, and no other list of
mismatches is refused with the same text. -/
theorem startup_refuses_mismatches (read : ReadFile) :
    (verifyKernelLayout read = .ok () ↔
      ∃ before path after text, formatPaths = before ++ path :: after ∧
        (∀ other ∈ before, ∃ error, read other = .error error) ∧ read path = .ok text ∧
          checkLayout text = []) ∧
    ∀ text, readFormat read = .ok text → checkLayout text ≠ [] →
      ∃ message, verifyKernelLayout read = .error message ∧
        Text.split '\n' message = refusalLines (checkLayout text) ∧
        ∀ otherRead otherText, readFormat otherRead = .ok otherText →
          (verifyKernelLayout otherRead = .error message ↔
            checkLayout otherText = checkLayout text) := by
  constructor
  · rw [verifyKernelLayout_eq_ok_iff]
    simp only [readFormat_eq_ok_iff, foldl_tryPath_eq_ok_iff]
    constructor
    · intro passed
      rcases passed with ⟨text, ⟨before, path, after, split, failed, isText⟩, passes⟩
      exact ⟨before, path, after, text, split, failed, isText, passes⟩
    · intro passed
      rcases passed with ⟨before, path, after, text, split, failed, isText, passes⟩
      exact ⟨text, ⟨before, path, after, split, failed, isText⟩, passes⟩
  · intro text isRead refused
    have legible {other : String} : ∀ one ∈ checkLayout other, one.Legible :=
      fun _ => legible_of_mem_checkLayout
    refine ⟨refusal (checkLayout text), ?_, split_refusal refused legible, ?_⟩
    · rw [verifyKernelLayout_of_read isRead, if_neg refused]
    · intro otherRead otherText isOther
      rw [verifyKernelLayout_of_read isOther]
      by_cases passes : checkLayout otherText = []
      · rw [if_pos passes, passes]
        exact ⟨nofun, fun same => absurd same.symm refused⟩
      · rw [if_neg passes, Except.error.injEq]
        constructor
        · exact refusal_inj passes refused legible legible
        · exact fun same => congrArg refusal same

end OomWatcher
