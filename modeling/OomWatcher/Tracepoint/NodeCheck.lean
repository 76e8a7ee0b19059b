import OomWatcher.Foundation.Shell
import OomWatcher.Tracepoint.Preflight
import OomWatcher.Tracepoint.Startup

/-! # The script on a node

All steps of the script, and its exit status: which nodes it rules in, and what
that says about the start of the watcher on them. -/

namespace OomWatcher

/-! ## The steps -/

/-- What the script is run on. A file that cannot be read has no text. -/
structure Node where
  /-- `uname -r`. -/
  kernelRelease : Text
  /-- The variable `FORMAT_FILE`, if it is set. -/
  formatFile : Option String
  file : String → Option String
  /-- `getconf PAGE_SIZE`, if it succeeds. -/
  pageSize : Option Text

namespace Preflight

def kernelStep (node : Node) : Report :=
  let kernelMajor := Shell.beforeFirst '.' node.kernelRelease
  let rest := Shell.afterFirst '.' node.kernelRelease
  let kernelMinor := Shell.beforeFirst '.' rest
  if Shell.test kernelMajor (6 < ·) ∨
      (Shell.test kernelMajor (· = 6) ∧ Shell.test kernelMinor (9 ≤ ·)) then
    .pass ("kernel ".toList ++ node.kernelRelease ++
      " is 6.9+ (extended oom:mark_victim tracepoint)".toList)
  else
    .fail ("kernel ".toList ++ node.kernelRelease ++
      " is older than 6.9 — the extended oom:mark_victim fields landed in 6.9".toList)

def candidates : List String :=
  ["/sys/kernel/tracing/events/oom/mark_victim/format",
    "/sys/kernel/debug/tracing/events/oom/mark_victim/format"]

/-- `FORMAT_FILE` overrides the search. -/
def locate (node : Node) : Option String :=
  let formatFile := node.formatFile.getD ""
  if formatFile ≠ "" then some formatFile
  else candidates.find? fun candidate => (node.file candidate).isSome

def pageStep (node : Node) : Report :=
  let pageSize := node.pageSize.getD "unknown".toList
  if pageSize ≠ "unknown".toList ∧ Shell.test pageSize (· ≤ 262144) then
    .pass "the probe's 256 KiB EVENTS buffer is a valid size here".toList
  else
    .fail ("PAGE_SIZE ".toList ++ pageSize ++
      " exceeds the probe's 256 KiB ring buffer — map creation would fail".toList)

/-- `grep -qE 'cri-containerd|crio|docker|kubepods'`. -/
def recognised (cgroup : Text) : Bool :=
  (Expression.inputLines cgroup).any fun line =>
    ["cri-containerd", "crio", "docker", "kubepods"].any fun word =>
      Expression.occurs (Expression.literal word.toList) line

/-- Nothing is reported of a process outside a container. -/
def cgroupStep (node : Node) : List Report :=
  match node.file "/proc/1/cgroup" with
  | some cgroup =>
      if recognised cgroup.toList then [.pass "recognised cgroup layout".toList] else []
  | none => [.fail "cannot read /proc/1/cgroup".toList]

/-- What the script reports, and its exit status. A format file that cannot be
read has no line to find. -/
def check (node : Node) : List Report × Nat :=
  match locate node with
  | none =>
      ([kernelStep node,
        .fail ("cannot read oom:mark_victim format from tracefs or debugfs " ++
          "(need root, and tracefs mounted)").toList], 1)
  | some formatFile =>
      let reports := kernelStep node :: .pass ("found ".toList ++ formatFile.toList) ::
        (layoutStep ((node.file formatFile).getD "") ++ pageStep node :: cgroupStep node)
      (reports, if failures reports = 0 then 0 else 1)

def exitStatus (node : Node) : Nat := (check node).2

/-! ## When it exits with zero -/

theorem failures_cons (report : Report) (reports : List Report) :
    failures (report :: reports) = 0 ↔ report.isFail = false ∧ failures reports = 0 := by
  rw [failures, failures, List.countP_cons]
  cases report.isFail <;> simp

theorem failures_append (first second : List Report) :
    failures (first ++ second) = 0 ↔ failures first = 0 ∧ failures second = 0 := by
  rw [failures, List.countP_append, Nat.add_eq_zero_iff]
  rfl

theorem failures_cgroupStep (node : Node) :
    failures (cgroupStep node) = 0 ↔ (node.file "/proc/1/cgroup").isSome := by
  rw [cgroupStep]
  cases node.file "/proc/1/cgroup" with
  | none => decide
  | some cgroup =>
      simp only [Option.isSome_some, iff_true]
      split <;> rfl

theorem exitStatus_eq_zero_iff (node : Node) :
    exitStatus node = 0 ↔
      (kernelStep node).isFail = false ∧
        (∃ formatFile, locate node = some formatFile ∧
          failures (layoutStep ((node.file formatFile).getD "")) = 0) ∧
        (pageStep node).isFail = false ∧ (node.file "/proc/1/cgroup").isSome := by
  rw [exitStatus, check]
  cases located : locate node with
  | none => simp
  | some formatFile =>
      have zero : ∀ condition : Prop, ∀ _ : Decidable condition,
          ((if condition then 0 else 1) = 0 ↔ condition) := by
        intro condition _
        split <;> simp_all
      simp only [zero, failures_cons, failures_append, failures_cgroupStep]
      simp [Report.isFail]

end Preflight

/-! ## Nodes of a kernel -/

/-- A node whose kernel has a version, shows one format file at its mounts, and
has pages of a power of two. -/
structure KernelNode extends Node where
  major : Nat
  minor : Nat
  /-- What is behind the minor number, a dot first. -/
  patch : Text
  format : KernelFormat
  pageShift : Nat
  release : kernelRelease = Text.decimal major ++ '.' :: (Text.decimal minor ++ patch)
  dotted : ∀ char ∈ patch.head?, char = '.'
  majorFits : major < 2 ^ 63
  minorFits : minor < 2 ^ 63
  searched : formatFile = none
  shown : ∀ path ∈ Preflight.candidates, ∀ text, file path = some text → text = format.print
  pages : pageSize = some (Text.decimal (2 ^ pageShift))
  pagesFit : pageShift < 63

namespace KernelNode

variable (node : KernelNode)

def Extended : Prop := 6 < node.major ∨ (node.major = 6 ∧ 9 ≤ node.minor)

theorem isFail_kernelStep :
    (Preflight.kernelStep node.toNode).isFail = false ↔ node.Extended := by
  have noDot (value : Nat) : '.' ∉ Text.decimal value := by
    intro member
    exact absurd (Text.isDigit_of_mem_decimal member) (by decide)
  have isMajor : Shell.beforeFirst '.' node.kernelRelease = Text.decimal node.major := by
    rw [node.release]
    exact Shell.beforeFirst_append (noDot _) fun _ isFirst => (Option.some.inj isFirst).symm
  have isRest : Shell.afterFirst '.' node.kernelRelease =
      Text.decimal node.minor ++ node.patch := by
    rw [node.release, Shell.afterFirst_append (noDot _)]
  have isMinor : Shell.beforeFirst '.' (Text.decimal node.minor ++ node.patch) =
      Text.decimal node.minor := Shell.beforeFirst_append (noDot _) node.dotted
  have decided : (Shell.test (Shell.beforeFirst '.' node.kernelRelease) (6 < ·) = true ∨
      (Shell.test (Shell.beforeFirst '.' node.kernelRelease) (· = 6) = true ∧
        Shell.test (Shell.beforeFirst '.' (Shell.afterFirst '.' node.kernelRelease))
          (9 ≤ ·) = true)) ↔ node.Extended := by
    rw [isMajor, isRest, isMinor]
    simp only [Shell.test_decimal node.majorFits, Shell.test_decimal node.minorFits,
      decide_eq_true_eq, Extended]
    omega
  rw [Preflight.kernelStep]
  split
  · next extended => exact iff_of_true rfl (decided.mp extended)
  · next old => exact iff_of_false Bool.noConfusion (mt decided.mpr old)

theorem isFail_pageStep :
    (Preflight.pageStep node.toNode).isFail = false ↔
      ∃ exponent, 262144 = 2 ^ exponent * 2 ^ node.pageShift := by
  have fits : 2 ^ node.pageShift < 2 ^ 63 := Nat.pow_lt_pow_right (by decide) node.pagesFit
  have isNumber : Text.decimal (2 ^ node.pageShift) ≠ "unknown".toList := by
    intro equal
    have member : 'u' ∈ Text.decimal (2 ^ node.pageShift) := equal ▸ by decide
    exact absurd (Text.isDigit_of_mem_decimal member) (by decide)
  have ringBits : (262144 : Nat) = 2 ^ 18 := by decide
  have decided : 2 ^ node.pageShift ≤ 262144 ↔
      ∃ exponent, 262144 = 2 ^ exponent * 2 ^ node.pageShift := by
    rw [ringBits, Nat.pow_le_pow_iff_right (by decide)]
    constructor
    · intro small
      refine ⟨18 - node.pageShift, ?_⟩
      rw [← Nat.pow_add, Nat.sub_add_cancel small]
    · intro multiple
      rcases multiple with ⟨exponent, equal⟩
      rw [← Nat.pow_add] at equal
      have sum := Nat.pow_right_injective (Nat.le_refl 2) equal
      omega
  rw [← decided]
  simp only [Preflight.pageStep, node.pages, Option.getD_some, Shell.test_decimal fits,
    decide_eq_true_eq, ne_eq, isNumber, not_false_eq_true, true_and]
  split
  · next small => exact iff_of_true rfl (by omega)
  · next large => exact iff_of_false Bool.noConfusion (by omega)

/-! ### The format file -/

def Mounted : Prop := ∃ path ∈ formatPaths, node.file path = some node.format.print

theorem file_eq_some_iff {path : String} (candidate : path ∈ formatPaths) :
    (node.file path).isSome = true ↔ node.file path = some node.format.print := by
  constructor
  · intro readable
    rcases Option.isSome_iff_exists.mp readable with ⟨text, isText⟩
    rw [isText, node.shown path candidate text isText]
  · intro isText
    rw [isText]
    rfl

theorem exists_first (mounted : node.Mounted) :
    ∃ first before after, Preflight.locate node.toNode = some first ∧
      formatPaths = before ++ first :: after ∧ (∀ other ∈ before, node.file other = none) ∧
        node.file first = some node.format.print := by
  rcases mounted with ⟨path, member, isText⟩
  have found : formatPaths.find? (fun candidate => (node.file candidate).isSome) ≠ none := by
    rw [Ne, List.find?_eq_none]
    intro noneReadable
    exact noneReadable path member ((node.file_eq_some_iff member).mpr isText)
  rcases Option.ne_none_iff_exists'.mp found with ⟨first, isFirst⟩
  rcases List.find?_eq_some_iff_append.mp isFirst with ⟨readable, before, after, split, earlier⟩
  have candidate : first ∈ formatPaths := split ▸ List.mem_append_right _ List.mem_cons_self
  have located : Preflight.locate node.toNode =
      formatPaths.find? fun candidate => (node.file candidate).isSome := by
    rw [Preflight.locate, node.searched]
    rfl
  refine ⟨first, before, after, located.trans isFirst, split, ?_,
    (node.file_eq_some_iff candidate).mp readable⟩
  intro other isBefore
  simpa using earlier other isBefore

theorem mounted_of_located {formatFile : String}
    (located : Preflight.locate node.toNode = some formatFile) : node.Mounted := by
  rw [Preflight.locate, node.searched] at located
  have isFound : formatPaths.find? (fun candidate => (node.file candidate).isSome) =
      some formatFile := located
  have member := List.mem_of_find?_eq_some isFound
  have readable := (List.find?_eq_some_iff_append.mp isFound).1
  exact ⟨formatFile, member, (node.file_eq_some_iff member).mp readable⟩

theorem exists_located_iff (passes : String → Prop) :
    (∃ formatFile, Preflight.locate node.toNode = some formatFile ∧
        passes ((node.file formatFile).getD "")) ↔ node.Mounted ∧ passes node.format.print := by
  have atFirst : node.Mounted → ∃ first, Preflight.locate node.toNode = some first ∧
      (node.file first).getD "" = node.format.print := by
    intro mounted
    rcases node.exists_first mounted with ⟨first, _, _, located, _, _, isText⟩
    exact ⟨first, located, by rw [isText, Option.getD_some]⟩
  constructor
  · intro ⟨formatFile, isFound, passed⟩
    have mounted := node.mounted_of_located isFound
    rcases atFirst mounted with ⟨first, located, isText⟩
    rw [isFound, Option.some.injEq] at located
    rw [located, isText] at passed
    exact ⟨mounted, passed⟩
  · intro ⟨mounted, passed⟩
    rcases atFirst mounted with ⟨first, located, isText⟩
    exact ⟨first, located, isText ▸ passed⟩

theorem verifyKernelLayout_iff {read : ReadFile}
    (agrees : ∀ path text, read path = .ok text ↔ node.file path = some text) :
    verifyKernelLayout read = .ok () ↔
      node.Mounted ∧ checkLayout node.format.print = [] := by
  rw [verifyKernelLayout_eq_ok_iff]
  simp only [readFormat_eq_ok_iff, foldl_tryPath_eq_ok_iff]
  constructor
  · intro ⟨text, ⟨before, path, after, split, failed, isText⟩, passes⟩
    have member : path ∈ formatPaths := split ▸ List.mem_append_right _ List.mem_cons_self
    have inFile := (agrees path text).mp isText
    have isPrint := node.shown path member text inFile
    subst isPrint
    exact ⟨⟨path, member, inFile⟩, passes⟩
  · intro ⟨mounted, passes⟩
    rcases node.exists_first mounted with ⟨first, before, after, _, split, earlier, isText⟩
    refine ⟨node.format.print, ⟨before, first, after, split, ?_, (agrees first _).mpr isText⟩,
      passes⟩
    intro other isBefore
    cases answer : read other with
    | error error => exact ⟨error, rfl⟩
    | ok text =>
        have hidden := earlier other isBefore
        rw [(agrees other text).mp answer] at hidden
        cases hidden

end KernelNode

/-- The layout step passes what the binary accepts and the search finds, and a
layout whose print format passes for the lines of its fields. -/
theorem KernelFormat.failures_iff (format : KernelFormat) :
    Preflight.failures (Preflight.layoutStep format.print) = 0 ↔
      (checkLayout format.print = [] ∧ ¬ format.RuledOut) ∨ format.RuledIn := by
  rw [format.failures_layoutStep_print, format.checkLayout_print_eq_nil]
  constructor
  · intro passes
    by_cases placed : ∀ want ∈ requiredFields, format.InPlace want
    · refine .inl ⟨placed, ?_⟩
      intro ⟨_, want, required, notSought, notImitated⟩
      rcases passes want required with found | imitated
      · exact notSought found.1
      · exact notImitated imitated.2
    · exact .inr ⟨by simpa using placed, passes⟩
  · intro judged
    rcases judged with ⟨placed, noneMissed⟩ | ruledIn
    · intro want required
      by_cases sought : format.Sought want
      · exact .inl ⟨sought, placed want required⟩
      · by_contra fails
        refine noneMissed ⟨placed, want, required, sought, ?_⟩
        exact fun imitated => fails (.inr ⟨sought, imitated⟩)
    · exact ruledIn.2

/-- The script exits with zero exactly on the nodes with an extended kernel, pages
the ring is a power of two of and a readable cgroup on which the check at startup
passes, but for a layout of either kind that the two judge differently. -/
theorem exit_status_of_kernel_node (node : KernelNode) {read : ReadFile}
    (agrees : ∀ path text, read path = .ok text ↔ node.file path = some text) :
    Preflight.exitStatus node.toNode = 0 ↔
      node.Mounted ∧ ((verifyKernelLayout read = .ok () ∧ ¬ node.format.RuledOut) ∨
          node.format.RuledIn) ∧
        node.Extended ∧ (∃ exponent, 262144 = 2 ^ exponent * 2 ^ node.pageShift) ∧
        (node.file "/proc/1/cgroup").isSome := by
  rw [Preflight.exitStatus_eq_zero_iff, node.isFail_kernelStep, node.isFail_pageStep,
    node.exists_located_iff fun text => Preflight.failures (Preflight.layoutStep text) = 0,
    node.format.failures_iff, node.verifyKernelLayout_iff agrees]
  constructor
  · intro ⟨extended, ⟨mounted, judged⟩, page, cgroup⟩
    refine ⟨mounted, ?_, extended, page, cgroup⟩
    rcases judged with ⟨placed, found⟩ | ruledIn
    · exact .inl ⟨⟨mounted, placed⟩, found⟩
    · exact .inr ruledIn
  · intro ⟨mounted, judged, extended, page, cgroup⟩
    refine ⟨extended, ⟨mounted, ?_⟩, page, cgroup⟩
    rcases judged with ⟨⟨_, placed⟩, found⟩ | ruledIn
    · exact .inl ⟨placed, found⟩
    · exact .inr ruledIn

/-! ## A node that is ruled in -/

def tokensOf (want : Field) : List Text :=
  if want.name = "comm" then ["__data_loc".toList, "char[]".toList] else [typeOf want]

theorem isWord_tokensOf {want : Field} (required : want ∈ requiredFields) :
    ∀ token ∈ tokensOf want, Text.IsWord token := by
  have words : ∀ want ∈ requiredFields, ∀ token ∈ tokensOf want,
      token ≠ [] ∧ (token.all fun char => decide (Text.isWhitespace char = false)) = true := by
    decide
  intro token isToken
  rcases words want required token isToken with ⟨nonempty, solid⟩
  exact ⟨nonempty, Text.forall_of_all solid⟩

theorem oneDeclaration_tokensOf {want : Field} (required : want ∈ requiredFields) :
    ∀ token ∈ tokensOf want, ';' ∉ token := by
  revert want
  decide

theorem offset_lt_of_required {want : Field} (required : want ∈ requiredFields) :
    want.offset < u64Modulus := by
  revert want
  decide

theorem size_lt_of_required {want : Field} (required : want ∈ requiredFields) :
    want.size < u64Modulus := by
  revert want
  decide

theorem one_lt_u64Modulus : 1 < u64Modulus := by decide

def declaredField (want : Field) (required : want ∈ requiredFields) : KernelField where
  typeTokens := tokensOf want
  stars := 0
  name := want.name
  suffix := none
  offset := want.offset
  size := want.size
  signed := 1
  isWord := isWord_tokensOf required
  oneDeclaration := oneDeclaration_tokensOf required
  isIdentifier := isIdentifier_of_required required
  plainSuffix := nofun
  offsetFits := offset_lt_of_required required
  sizeFits := size_lt_of_required required
  signedFits := one_lt_u64Modulus

def declaredBody : List (Option KernelField) :=
  requiredFields.pmap (fun want required => some (declaredField want required))
    fun _ required => required

theorem nameOnOneLine_declared : '\n' ∉ "mark_victim".toList := by decide

theorem fmtOnOneLine_declared : '\n' ∉ "\"pid=%d\", REC->pid".toList := by decide

theorem distinct_declaredBody : ((declaredBody.filterMap id).map KernelField.name).Nodup := by
  decide

theorem isIdentifier_declared : IsIdentifier "mark_victim".toList := arrayFormat.isIdentifier

def declaredFormat : KernelFormat where
  eventName := "mark_victim".toList
  eventId := 1442
  body := declaredBody
  printFmt := "\"pid=%d\", REC->pid".toList
  nameOnOneLine := nameOnOneLine_declared
  fmtOnOneLine := fmtOnOneLine_declared
  distinct := distinct_declaredBody
  isIdentifier := isIdentifier_declared

theorem declaredField_mem {want : Field} (required : want ∈ requiredFields) :
    declaredField want required ∈ declaredFormat.fields := by
  rw [TracepointLayout.mem_fields_iff]
  exact List.mem_pmap.mpr ⟨want, required, rfl⟩

theorem inPlace_declaredFormat {want : Field} (required : want ∈ requiredFields) :
    declaredFormat.InPlace want :=
  ⟨declaredField want required, declaredField_mem required, rfl, rfl, rfl⟩

theorem sought_declaredFormat {want : Field} (required : want ∈ requiredFields) :
    declaredFormat.Sought want := by
  have typed : ∀ want ∈ requiredFields, tokensOf want ≠ [] := by decide
  exact ⟨declaredField want required, declaredField_mem required, rfl, rfl,
    .inl (typed want required)⟩

/-- Linux 6.12 with pages of 4 KiB and tracefs at its newer mount alone. -/
def ruledInNode : KernelNode where
  kernelRelease := "6.12.8-generic".toList
  formatFile := none
  file path :=
    if path = "/sys/kernel/tracing/events/oom/mark_victim/format" then some declaredFormat.print
    else if path = "/proc/1/cgroup" then some "0::/init.scope" else none
  pageSize := some "4096".toList
  major := 6
  minor := 12
  patch := ".8-generic".toList
  format := declaredFormat
  pageShift := 12
  release := by decide
  dotted := by
    intro char isFirst
    cases isFirst
    rfl
  majorFits := by decide
  minorFits := by decide
  searched := rfl
  shown path candidate text isText := by
    rcases List.mem_cons.mp candidate with rfl | other
    · exact (Option.some.inj isText).symm
    · rw [List.mem_singleton.mp other] at isText
      cases isText
  pages := rfl
  pagesFit := by decide

def ruledInRead : ReadFile := fun path =>
  match ruledInNode.file path with
  | some text => .ok text
  | none => .error "No such file or directory (os error 2)"

theorem ruledInRead_agrees (path text : String) :
    ruledInRead path = .ok text ↔ ruledInNode.file path = some text := by
  rw [ruledInRead]
  cases ruledInNode.file path <;> simp

/-- The script exits with zero on that node. -/
theorem exit_status_of_ruled_in_node : Preflight.exitStatus ruledInNode.toNode = 0 := by
  have accepted : checkLayout declaredFormat.print = [] := by
    rw [declaredFormat.checkLayout_print_eq_nil]
    exact fun _ required => inPlace_declaredFormat required
  have starts : verifyKernelLayout ruledInRead = .ok () := by
    rw [ruledInNode.verifyKernelLayout_iff ruledInRead_agrees]
    exact ⟨⟨_, List.mem_cons_self, rfl⟩, accepted⟩
  have noneMissed : ¬ ruledInNode.format.RuledOut := by
    intro ⟨_, want, required, missed, _⟩
    exact missed (sought_declaredFormat required)
  exact (exit_status_of_kernel_node ruledInNode ruledInRead_agrees).mpr
    ⟨⟨_, List.mem_cons_self, rfl⟩, .inl ⟨starts, noneMissed⟩, .inr ⟨rfl, by decide⟩, ⟨6, rfl⟩, rfl⟩

end OomWatcher
