import OomWatcher.Source.KillRecord
import OomWatcher.Tracepoint.Format

/-! # The probe

The probe reads its arguments off the trace entry as one C struct, whatever the
kernel put there. What the entry means is said by the kernel's own layout. -/

namespace OomWatcher

/-! ## The arguments of the tracepoint -/

structure MarkVictimArgs where
  commonType : Nat
  commonFlags : Nat
  commonPreemptCount : Nat
  commonPid : Int
  pid : Int
  commDataLoc : Nat
  totalVm : Nat
  anonRss : Nat
  fileRss : Nat
  shmemRss : Nat
  uid : Nat
  pgtables : Nat
  oomScoreAdj : Int
deriving DecidableEq, Repr

namespace MarkVictimArgs

def struct : CStruct :=
  [("common_type", .u16), ("common_flags", .u8), ("common_preempt_count", .u8),
    ("common_pid", .i32), ("pid", .i32), ("comm_data_loc", .u32), ("total_vm", .u64),
    ("anon_rss", .u64), ("file_rss", .u64), ("shmem_rss", .u64), ("uid", .u32),
    ("pgtables", .u64), ("oom_score_adj", .i16)]

def ofBytes (data : Bytes) : MarkVictimArgs where
  commonType := struct.number data "common_type"
  commonFlags := struct.number data "common_flags"
  commonPreemptCount := struct.number data "common_preempt_count"
  commonPid := Bytes.signed 4 (struct.number data "common_pid")
  pid := Bytes.signed 4 (struct.number data "pid")
  commDataLoc := struct.number data "comm_data_loc"
  totalVm := struct.number data "total_vm"
  anonRss := struct.number data "anon_rss"
  fileRss := struct.number data "file_rss"
  shmemRss := struct.number data "shmem_rss"
  uid := struct.number data "uid"
  pgtables := struct.number data "pgtables"
  oomScoreAdj := Bytes.signed 2 (struct.number data "oom_score_adj")

/-- What the probe uses of its arguments, as bits, in the order of the required
fields. -/
def figures (args : MarkVictimArgs) : List Nat :=
  [Bytes.unsigned 4 args.pid, args.commDataLoc, args.totalVm, args.anonRss, args.fileRss,
    args.shmemRss, args.uid, args.pgtables, Bytes.unsigned 2 args.oomScoreAdj]

end MarkVictimArgs

/-! ## Reading kernel memory -/

/-- `text` copied into `dest` as the kernel copies strings: cut to leave room for
the terminator, and what is behind it not touched. -/
def copyString (text dest : Bytes) : Bytes :=
  let copied := text.take (dest.length - 1)
  copied ++ 0 :: dest.drop (copied.length + 1)

/-- The helpers the kernel gives a probe. Memory is what can be read from the
trace entry on; addresses are relative to the entry. -/
structure KernelHelpers where
  /-- `bpf_probe_read_kernel`: the bytes, or a fault. -/
  probeReadKernel : Bytes → Nat → Nat → Option Bytes
  /-- `bpf_probe_read_kernel_str_bytes`: what the destination holds afterwards. -/
  probeReadKernelStr : Bytes → Nat → Bytes → Bytes
  reads : ∀ memory address size, address + size ≤ memory.length →
    probeReadKernel memory address size = some (memory.slice address size)
  faults : ∀ memory address size, 0 < size → memory.length < address + size →
    probeReadKernel memory address size = none
  copies : ∀ memory address text dest, 0 ∉ text → dest ≠ [] →
    memory.slice address (text.length + 1) = text ++ [0] →
    probeReadKernelStr memory address dest = copyString text dest

namespace KernelHelpers

variable (helpers : KernelHelpers)

def readArgs (memory : Bytes) : Option MarkVictimArgs :=
  (helpers.probeReadKernel memory 0 MarkVictimArgs.struct.size).map MarkVictimArgs.ofBytes

/-- `mark_victim` up to its `output`: the event it sends, none when its arguments
cannot be read. -/
def killOf (memory : Bytes) : Option OomKillEvent :=
  (helpers.readArgs memory).map fun args =>
    { pid := Bytes.unsigned 4 args.pid
      comm := helpers.probeReadKernelStr memory (args.commDataLoc &&& 0xFFFF)
        (List.replicate 16 0)
      totalVm := args.totalVm
      anonRss := args.anonRss
      fileRss := args.fileRss
      shmemRss := args.shmemRss
      uid := args.uid
      pgtables := args.pgtables
      oomScoreAdj := args.oomScoreAdj }

end KernelHelpers

def plainHelpers : KernelHelpers where
  probeReadKernel memory address size :=
    if address + size ≤ memory.length then some (memory.slice address size) else none
  probeReadKernelStr memory address dest :=
    copyString ((memory.drop address).takeWhile (· != 0)) dest
  reads _ _ _ inside := if_pos inside
  faults _ _ _ _ outside := if_neg (Nat.not_le.mpr outside)
  copies memory address text dest noNul _ terminated := by
    have shape : memory.drop address =
        text ++ 0 :: (memory.drop address).drop (text.length + 1) := by
      rw [Bytes.slice] at terminated
      nth_rewrite 1 [← List.take_append_drop (text.length + 1) (memory.drop address)]
      rw [terminated, List.append_assoc, List.singleton_append]
    have passes : ∀ byte ∈ text, (byte != 0) = true := by
      intro byte member
      simpa using ne_of_mem_of_not_mem member noNul
    rw [shape, List.takeWhile_append_of_pos passes]
    simp

/-! ## The struct is the required layout -/

def Field.place (field : Field) : Place := ⟨field.offset, field.size⟩

theorem size_markVictimArgs : MarkVictimArgs.struct.size = 72 := by decide

theorem stop_le_of_required {want : Field} (required : want ∈ requiredFields) :
    want.place.stop ≤ 72 := by
  have inside : ∀ want ∈ requiredFields, want.place.stop ≤ 72 := by decide
  exact inside want required

theorem figures_ofBytes {data : Bytes} (whole : 72 ≤ data.length) :
    (MarkVictimArgs.ofBytes data).figures =
      requiredFields.map fun want => want.place.number data := by
  have pidFits : MarkVictimArgs.struct.number data "pid" < 256 ^ 4 :=
    Place.number_lt (le_trans (by decide : (⟨8, 4⟩ : Place).stop ≤ 72) whole)
  have adjFits : MarkVictimArgs.struct.number data "oom_score_adj" < 256 ^ 2 :=
    Place.number_lt (le_trans (by decide : (⟨64, 2⟩ : Place).stop ≤ 72) whole)
  simp only [MarkVictimArgs.figures, MarkVictimArgs.ofBytes, Bytes.unsigned_signed pidFits,
    Bytes.unsigned_signed adjFits]
  rfl

namespace KernelHelpers

variable (helpers : KernelHelpers)

theorem readArgs_eq_some_iff {memory : Bytes} {args : MarkVictimArgs} :
    helpers.readArgs memory = some args ↔
      72 ≤ memory.length ∧ args = .ofBytes (memory.slice 0 72) := by
  rw [readArgs, size_markVictimArgs]
  by_cases readable : 72 ≤ memory.length
  · rw [helpers.reads memory 0 72 (by omega), Option.map_some, Option.some.injEq,
      and_iff_right readable, eq_comm]
  · rw [helpers.faults memory 0 72 (by decide) (by omega)]
    simp [readable]

theorem figures_of_readArgs {memory : Bytes} {args : MarkVictimArgs}
    (read : helpers.readArgs memory = some args) :
    args.figures = requiredFields.map fun want => want.place.number memory := by
  rcases helpers.readArgs_eq_some_iff.mp read with ⟨readable, rfl⟩
  have whole : (memory.slice 0 72).length = 72 := Bytes.length_slice (by omega)
  rw [figures_ofBytes (Nat.le_of_eq whole.symm)]
  apply List.map_congr_left
  intro want required
  rw [Place.number, Place.number, Place.read, Place.read,
    Bytes.slice_slice (stop_le_of_required required), Nat.zero_add]

theorem oomScoreAdj_of_readArgs {memory : Bytes} {args : MarkVictimArgs}
    (read : helpers.readArgs memory = some args) :
    args.oomScoreAdj = Bytes.signed 2 (Bytes.unsigned 2 args.oomScoreAdj) := by
  rcases helpers.readArgs_eq_some_iff.mp read with ⟨readable, rfl⟩
  have whole : (memory.slice 0 72).length = 72 := Bytes.length_slice (by omega)
  have fits : MarkVictimArgs.struct.number (memory.slice 0 72) "oom_score_adj" < 256 ^ 2 :=
    Place.number_lt (le_trans (by decide : (⟨64, 2⟩ : Place).stop ≤ 72) (Nat.le_of_eq whole.symm))
  exact congrArg (Bytes.signed 2) (Bytes.unsigned_signed fits).symm

end KernelHelpers

/-! ## What the kernel's layout says of an entry -/

namespace TracepointLayout

variable (layout : TracepointLayout)

def placeOf (name : String) : Option Place :=
  (layout.fields.find? fun field => field.name == name).map fun field =>
    ⟨field.offset, field.size⟩

def figure (memory : Bytes) (name : String) : Option Nat :=
  (layout.placeOf name).bind fun place =>
    if place.stop ≤ memory.length then some (place.number memory) else none

theorem placeOf_eq_some_iff {want : Field} :
    layout.placeOf want.name = some want.place ↔
      ∃ field ∈ layout.fields, field.name = want.name ∧ field.offset = want.offset ∧
        field.size = want.size := by
  rw [placeOf, Option.map_eq_some_iff]
  constructor
  · intro found
    rcases found with ⟨field, isFound, isPlace⟩
    have named := List.find?_some isFound
    rcases Place.mk.inj isPlace with ⟨sameOffset, sameSize⟩
    exact ⟨field, List.mem_of_find?_eq_some isFound, beq_iff_eq.mp named, sameOffset, sameSize⟩
  · intro inPlace
    rcases inPlace with ⟨field, member, sameName, sameOffset, sameSize⟩
    refine ⟨field, sameName ▸ layout.find_of_mem member, ?_⟩
    rw [sameOffset, sameSize]
    rfl

theorem figure_of_placeOf {name : String} {place : Place}
    (isPlace : layout.placeOf name = some place)
    {memory : Bytes} (inside : place.stop ≤ memory.length) :
    layout.figure memory name = some (place.number memory) := by
  rw [figure, isPlace, Option.bind_some, if_pos inside]

/-- The field is where the probe reads it exactly if the probe reads it right off
every entry. -/
theorem placeOf_iff_figure {want : Field} (nonempty : 0 < want.size) (fits : want.place.stop ≤ 72) :
    layout.placeOf want.name = some want.place ↔
      ∀ memory : Bytes, 72 ≤ memory.length →
        layout.figure memory want.name = some (want.place.number memory) := by
  constructor
  · intro isPlace memory readable
    exact layout.figure_of_placeOf isPlace (fits.trans readable)
  · intro same
    cases isPlace : layout.placeOf want.name with
    | none =>
        have shown := same (List.replicate 72 0) (by decide)
        rw [figure, isPlace] at shown
        cases shown
    | some place =>
        -- An entry that is zero but for one byte tells any two places apart.
        apply congrArg some
        apply Place.eq_of_same_numbers 72 nonempty
        intro memory readable inside _
        have shown := same memory readable
        rw [layout.figure_of_placeOf isPlace inside] at shown
        exact Option.some.inj shown

end TracepointLayout

/-- The check passes exactly the kernels off whose every entry the probe reads,
of each required field, what the kernel put there. -/
theorem checkLayout_iff_decodes (helpers : KernelHelpers) (layout : TracepointLayout) :
    checkLayout layout.print = [] ↔
      ∀ memory args, helpers.readArgs memory = some args →
        requiredFields.map (fun want => layout.figure memory want.name) =
          args.figures.map some := by
  have nonempty : ∀ want ∈ requiredFields, 0 < want.size := by decide
  simp only [checkLayout, List.filterMap_eq_nil_iff, layout.checkField_eq_none_iff,
    ← layout.placeOf_eq_some_iff]
  constructor
  · intro inPlace memory args read
    rw [helpers.figures_of_readArgs read, List.map_map]
    apply List.map_congr_left
    intro want required
    have fits := stop_le_of_required required
    have readable := (helpers.readArgs_eq_some_iff.mp read).1
    exact layout.figure_of_placeOf (inPlace want required) (fits.trans readable)
  · intro decodes want required
    rw [layout.placeOf_iff_figure (nonempty want required) (stop_le_of_required required)]
    intro memory readable
    have read := helpers.readArgs_eq_some_iff.mpr ⟨readable, rfl⟩
    have same := decodes memory _ read
    rw [helpers.figures_of_readArgs read, List.map_map] at same
    exact List.map_inj_left.mp same want required

end OomWatcher
