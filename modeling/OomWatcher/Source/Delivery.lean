import OomWatcher.Source.KillRecord
import OomWatcher.Tracepoint.Preflight
import OomWatcher.Tracepoint.Probe
import OomWatcher.Tracepoint.Startup

/-! # From the trace entry to the watch loop

What the kernel put into a trace entry is what the watch loop is handed, once the
layout was accepted at startup: through the probe, the bytes of the record, the
ring, and every interleaving of its producers and its consumer. -/

namespace OomWatcher

/-! ## What an entry says -/

/-- `TASK_COMM_LEN` bytes: the name cut to leave room for a NUL, and NULs. -/
def taskComm (text : Bytes) : Bytes := (text.take 15 ++ List.replicate 16 0).take 16

/-- An entry of a kernel with the layout, and the name that its `comm` locates. -/
structure TraceEntry (layout : TracepointLayout) where
  /-- What can be read from the entry on. -/
  memory : Bytes
  comm : Bytes
  readable : 72 ≤ memory.length
  noNul : 0 ∉ comm
  located : ∀ dataLoc, layout.figure memory "comm" = some dataLoc →
    memory.slice (dataLoc &&& 0xFFFF) (comm.length + 1) = comm ++ [0]

/-- The kill the entry tells of, as the kernel's own layout has it. -/
def TraceEntry.kill {layout : TracepointLayout} (entry : TraceEntry layout) :
    Option OomKillEvent := do
  let figure := layout.figure entry.memory
  some
    { pid := ← figure "pid"
      comm := taskComm entry.comm
      totalVm := ← figure "total_vm"
      anonRss := ← figure "anon_rss"
      fileRss := ← figure "file_rss"
      shmemRss := ← figure "shmem_rss"
      uid := ← figure "uid"
      pgtables := ← figure "pgtables"
      oomScoreAdj := Bytes.signed 2 (← figure "oom_score_adj") }

theorem terminated_eq_take {copied : Bytes} (short : copied.length ≤ 15) :
    copied ++ 0 :: (List.replicate 16 0).drop (copied.length + 1) =
      (copied ++ List.replicate 16 0).take 16 := by
  have zeros : (0 : UInt8) :: List.replicate (16 - (copied.length + 1)) 0 =
      List.replicate (16 - copied.length) 0 := by
    rw [← List.replicate_succ]
    congr 1
    omega
  have atMost : min (16 - copied.length) 16 = 16 - copied.length := by omega
  rw [List.drop_replicate, zeros, List.take_append, List.take_of_length_le (by omega),
    List.take_replicate, atMost]

theorem copyString_zeros (text : Bytes) : copyString text (List.replicate 16 0) = taskComm text :=
  terminated_eq_take (List.length_take_le _ _)

theorem length_taskComm (text : Bytes) : (taskComm text).length = 16 := by
  simp [taskComm]

section Accepted

variable {layout : TracepointLayout}

theorem figure_of_accepted (accepted : checkLayout layout.print = []) {memory : Bytes}
    (readable : 72 ≤ memory.length) (want : Field) (required : want ∈ requiredFields) :
    layout.figure memory want.name = some (want.place.number memory) := by
  simp only [checkLayout, List.filterMap_eq_nil_iff, layout.checkField_eq_none_iff,
    ← layout.placeOf_eq_some_iff] at accepted
  exact layout.figure_of_placeOf (accepted want required)
    ((stop_le_of_required required).trans readable)

def killAt (memory comm : Bytes) : OomKillEvent where
  pid := Place.number ⟨8, 4⟩ memory
  comm := taskComm comm
  totalVm := Place.number ⟨16, 8⟩ memory
  anonRss := Place.number ⟨24, 8⟩ memory
  fileRss := Place.number ⟨32, 8⟩ memory
  shmemRss := Place.number ⟨40, 8⟩ memory
  uid := Place.number ⟨48, 4⟩ memory
  pgtables := Place.number ⟨56, 8⟩ memory
  oomScoreAdj := Bytes.signed 2 (Place.number ⟨64, 2⟩ memory)

theorem killAt_inRange {memory : Bytes} (readable : 72 ≤ memory.length) (comm : Bytes) :
    (killAt memory comm).InRange := by
  have fits (want : Field) (required : want ∈ requiredFields) :
      want.place.number memory < 256 ^ want.size :=
    Place.number_lt ((stop_le_of_required required).trans readable)
  have adjRange := Bytes.signed_range (fits ⟨"oom_score_adj", 64, 2⟩ (by decide))
  exact {
    pid := fits ⟨"pid", 8, 4⟩ (by decide)
    comm := length_taskComm _
    totalVm := fits ⟨"total_vm", 16, 8⟩ (by decide)
    anonRss := fits ⟨"anon_rss", 24, 8⟩ (by decide)
    fileRss := fits ⟨"file_rss", 32, 8⟩ (by decide)
    shmemRss := fits ⟨"shmem_rss", 40, 8⟩ (by decide)
    uid := fits ⟨"uid", 48, 4⟩ (by decide)
    pgtables := fits ⟨"pgtables", 56, 8⟩ (by decide)
    leastAdj := adjRange.1
    greatestAdj := adjRange.2 }

theorem kill_of_accepted (accepted : checkLayout layout.print = []) (entry : TraceEntry layout) :
    entry.kill = some (killAt entry.memory entry.comm) := by
  have figure := figure_of_accepted accepted entry.readable
  have pid := figure ⟨"pid", 8, 4⟩ (by decide)
  have totalVm := figure ⟨"total_vm", 16, 8⟩ (by decide)
  have anonRss := figure ⟨"anon_rss", 24, 8⟩ (by decide)
  have fileRss := figure ⟨"file_rss", 32, 8⟩ (by decide)
  have shmemRss := figure ⟨"shmem_rss", 40, 8⟩ (by decide)
  have uid := figure ⟨"uid", 48, 4⟩ (by decide)
  have pgtables := figure ⟨"pgtables", 56, 8⟩ (by decide)
  have adj := figure ⟨"oom_score_adj", 64, 2⟩ (by decide)
  rw [TraceEntry.kill]
  simp only [pid, totalVm, anonRss, fileRss, shmemRss, uid, pgtables, adj, Option.bind_eq_bind,
    Option.bind_some]
  rfl

theorem killOf_of_accepted (accepted : checkLayout layout.print = []) (helpers : KernelHelpers)
    (entry : TraceEntry layout) :
    helpers.killOf entry.memory = some (killAt entry.memory entry.comm) := by
  have dataLoc := figure_of_accepted accepted entry.readable ⟨"comm", 12, 4⟩ (by decide)
  have copied := helpers.copies _ _ _ (List.replicate 16 0) entry.noNul (by decide)
    (entry.located _ dataLoc)
  rw [copyString_zeros] at copied
  have read := helpers.readArgs_eq_some_iff.mpr ⟨entry.readable, rfl⟩
  have figures := helpers.figures_of_readArgs read
  have signed := helpers.oomScoreAdj_of_readArgs read
  generalize MarkVictimArgs.ofBytes (entry.memory.slice 0 72) = args at read figures signed
  simp only [MarkVictimArgs.figures, requiredFields, List.map_cons, List.map_nil, List.cons.injEq,
    and_true] at figures
  rcases figures with ⟨isPid, isDataLoc, isTotalVm, isAnonRss, isFileRss, isShmemRss, isUid,
    isPgtables, isAdj⟩
  rw [KernelHelpers.killOf, read, Option.map_some, signed, isPid, isDataLoc, isTotalVm, isAnonRss,
    isFileRss, isShmemRss, isUid, isPgtables, isAdj, copied]
  rfl

end Accepted

/-! ## The records of a run -/

def reserved (actions : List Polled.Action) : List Record :=
  actions.filterMap fun
    | .reserve record => some record
    | _ => none

theorem reserved_append (first second : List Polled.Action) :
    reserved (first ++ second) = reserved first ++ reserved second :=
  List.filterMap_append

/-- The record is what the probe wrote for the entry: the struct as it lay on the
probe's stack, padding included. -/
def Writes {layout : TracepointLayout} (helpers : KernelHelpers) (entry : TraceEntry layout)
    (record : Record) : Prop :=
  ∃ kill stack, ∃ whole : eventSize ≤ (kill.store stack).length,
    helpers.killOf entry.memory = some kill ∧ stack.length = eventSize ∧
      record = Record.ofBytes (kill.store stack) whole

namespace Polled

theorem slots_continueNext {state next : Polled} (continued : state.continueNext = some next) :
    next.source.ring.slots = state.source.ring.slots := by
  rcases state with ⟨source, position, handedOut⟩
  cases position with
  | away => cases continued
  | ended => cases continued
  | top =>
      simp only [Polled.continueNext] at continued
      split at continued <;> cases continued <;> rfl
  | awaiting =>
      simp only [Polled.continueNext] at continued
      split at continued
      · cases continued
        rfl
      · cases continued
  | draining guard =>
      simp only [Polled.continueNext] at continued
      split at continued <;> cases continued <;> rfl
  | holding guard record =>
      cases continued
      rfl
  | releasing guard record =>
      cases continued
      exact RingQueue.slots_release _
  | drained guard =>
      cases continued
      rfl

theorem values_of_step {state next : Polled} {action : Action}
    (stepped : machine.step state action = some next) :
    next.source.ring.slots.map (·.value) =
      state.source.ring.slots.map (·.value) ++ reserved [action] := by
  cases action with
  | reserve record =>
      cases stepped
      exact List.map_append
  | commit index =>
      simp only [machine, Polled.step] at stepped
      split at stepped
      · cases stepped
        exact (RingQueue.values_commit _ _).trans (List.append_nil _).symm
      · cases stepped
  | deliver =>
      simp only [machine, Polled.step] at stepped
      split at stepped
      · cases stepped
        exact (List.append_nil _).symm
      · cases stepped
  | continueNext =>
      rw [slots_continueNext stepped]
      exact (List.append_nil _).symm
  | callNext | cancelNext | failReadiness =>
      simp only [machine, Polled.step] at stepped
      split at stepped
      · cases stepped
        exact (List.append_nil _).symm
      · cases stepped

theorem values_of_run {state next : Polled} {actions : List Action}
    (ran : machine.run state actions = some next) :
    next.source.ring.slots.map (·.value) =
      state.source.ring.slots.map (·.value) ++ reserved actions := by
  induction actions generalizing state with
  | nil =>
      cases ran
      exact (List.append_nil _).symm
  | cons action rest induction =>
      rcases Machine.run_cons_eq_some.mp ran with ⟨middle, stepped, later⟩
      rw [induction later, values_of_step stepped, List.append_assoc, ← reserved_append]
      rfl

theorem Sound.handedOut_prefix {state : Polled} (sound : Sound state) :
    state.handedOut <+: (state.source.ring.slots.map (·.value)).map (·.event) := by
  have secured : state.handedOut <+: state.secured.map (·.event) := ⟨_, sound.delivered⟩
  exact secured.trans (sound.secured_prefix.2.map _)

theorem Sound.handedOut_of_parked {state : Polled} (sound : Sound state) (parked : state.Parked) :
    state.handedOut =
        ((state.source.ring.slots.map (·.value)).map (·.event)).take state.source.ring.consumer ∧
      state.source.ring.front = none := by
  rcases parked with ⟨awaiting, notReady, noEdge⟩
  have delivered := sound.delivered
  rw [sound.awaiting awaiting, List.append_nil] at delivered
  simp only [secured, awaiting] at delivered
  constructor
  · rw [delivered, RingQueue.taken, List.map_take, List.map_take]
  · by_contra readable
    have noticed := sound.noticed readable
    simp only [Noticed, awaiting, Readiness.Wakes, notReady, noEdge, Bool.false_eq_true,
      or_self] at noticed

end Polled

theorem kill_of_writes {layout : TracepointLayout} (accepted : checkLayout layout.print = [])
    {helpers : KernelHelpers} {entry : TraceEntry layout} {record : Record}
    (writes : Writes helpers entry record) : entry.kill = some record.event := by
  rcases writes with ⟨sent, stack, whole, isSent, stackSize, rfl⟩
  rw [killOf_of_accepted accepted, Option.some.injEq] at isSent
  have inRange := killAt_inRange entry.readable entry.comm
  rw [isSent] at inRange
  have read := OomKillEvent.readUnaligned_store inRange (Nat.le_of_eq stackSize.symm) []
  rw [List.append_nil] at read
  rw [kill_of_accepted accepted, isSent]
  exact congrArg some read.symm

theorem kills_of_written {layout : TracepointLayout} (accepted : checkLayout layout.print = [])
    {helpers : KernelHelpers} {entries : List (TraceEntry layout)} {records : List Record}
    (written : List.Forall₂ (Writes helpers) entries records) :
    entries.mapM TraceEntry.kill = some (records.map (·.event)) := by
  induction written with
  | nil => rfl
  | cons writes _ induction =>
      rw [List.mapM_cons, kill_of_writes accepted writes, induction]
      rfl

/-- Once the check at startup accepted the kernel's layout, the events handed to
the watch loop are, in every interleaving, those the kernel's own layout reads
off the first entries whose records went on the ring, in order and figure for
figure; and a parked source has handed out all up to the first busy record. -/
theorem kills_handed_out_as_fired {layout : TracepointLayout} {read : ReadFile}
    (verified : verifyKernelLayout read = .ok ())
    (shown : ∀ text, readFormat read = .ok text → text = layout.print)
    {helpers : KernelHelpers} {entries : List (TraceEntry layout)} {cpus : Nat}
    {actions : List Polled.Action} {state : Polled}
    (ran : Polled.machine.run (Polled.start [] cpus) actions = some state)
    (written : List.Forall₂ (Writes helpers) entries (reserved actions)) :
    ∃ kills, entries.mapM TraceEntry.kill = some kills ∧ state.handedOut <+: kills ∧
      (state.Parked → state.handedOut = kills.take state.source.ring.consumer ∧
        state.source.ring.front = none) := by
  rcases verifyKernelLayout_eq_ok_iff.mp verified with ⟨text, isRead, passes⟩
  have accepted : checkLayout layout.print = [] := shown text isRead ▸ passes
  have sound := Polled.sound_of_run ran
  have values : state.source.ring.slots.map (·.value) = reserved actions :=
    Polled.values_of_run ran
  refine ⟨(reserved actions).map (·.event), kills_of_written accepted written, ?_, ?_⟩
  · rw [← values]
    exact sound.handedOut_prefix
  · rw [← values]
    exact sound.handedOut_of_parked

/-! ## A kill on its way -/

theorem accepted_arrayFormat : checkLayout arrayFormat.print = [] := by
  rw [arrayFormat.checkLayout_print_eq_nil]
  exact fun _ required => inPlace_arrayFormat required

def firedMemory : Bytes :=
  List.replicate 12 9 ++ [72, 0, 7, 0] ++ List.replicate 56 1 ++
    [112, 121, 116, 104, 111, 110, 0, 33]

def firedEntry : TraceEntry arrayFormat.toTracepointLayout where
  memory := firedMemory
  comm := [112, 121, 116, 104, 111, 110]
  readable := by decide
  noNul := by decide
  located := by
    intro dataLoc isDataLoc
    have readable : 72 ≤ firedMemory.length := by decide
    have atPlace := figure_of_accepted accepted_arrayFormat readable ⟨"comm", 12, 4⟩ (by decide)
    rw [isDataLoc, Option.some.injEq] at atPlace
    subst atPlace
    decide

def firedKill : OomKillEvent := killAt firedEntry.memory firedEntry.comm

def firedRecord : Record := Record.ofBytes (firedKill.store (List.replicate 80 7)) (by decide)

/-- One kill goes through and the source parks. -/
theorem kills_handed_out_as_fired_once :
    ∃ state, Polled.machine.run (Polled.start [] 1)
        ([.reserve firedRecord, .commit 0, .deliver, .callNext] ++
          List.replicate 8 .continueNext ++ [.callNext, .continueNext]) = some state ∧
      ∃ kills, [firedEntry].mapM TraceEntry.kill = some kills ∧
        state.handedOut = kills.take 1 := by
  have verified : verifyKernelLayout (fun _ => .ok arrayFormat.print) = .ok () :=
    verifyKernelLayout_eq_ok_iff.mpr ⟨_, rfl, accepted_arrayFormat⟩
  apply Machine.exists_run_of_decided fun state =>
    state.Parked ∧ state.source.ring.consumer = 1
  · intro state ran parked
    have writes : Writes plainHelpers firedEntry firedRecord :=
      ⟨firedKill, List.replicate 80 7, by decide,
        killOf_of_accepted accepted_arrayFormat plainHelpers firedEntry, by decide, rfl⟩
    rcases kills_handed_out_as_fired verified (fun _ isRead => (Except.ok.inj isRead).symm) ran
      (.cons writes .nil) with ⟨kills, told, _, whenParked⟩
    have all := (whenParked parked.1).1
    rw [parked.2] at all
    exact ⟨kills, told, all⟩
  · decide +kernel

end OomWatcher
