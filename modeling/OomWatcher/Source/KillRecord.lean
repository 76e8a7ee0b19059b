import OomWatcher.Foundation.ReprC
import OomWatcher.Source.RingBufSource

/-! # The record on the ring

The bytes of an `OomKillEvent`. The probe writes them and the source reads them
back, so both sides rest on the layout of one struct. -/

namespace OomWatcher

namespace OomKillEvent

def struct : CStruct :=
  [("pid", .u32), ("comm", .array .u8 16), ("total_vm", .u64), ("anon_rss", .u64),
    ("file_rss", .u64), ("shmem_rss", .u64), ("uid", .u32), ("pgtables", .u64),
    ("oom_score_adj", .i16)]

theorem size_struct : struct.size = eventSize := by decide

structure InRange (event : OomKillEvent) : Prop where
  pid : event.pid < 256 ^ 4
  comm : event.comm.length = 16
  totalVm : event.totalVm < 256 ^ 8
  anonRss : event.anonRss < 256 ^ 8
  fileRss : event.fileRss < 256 ^ 8
  shmemRss : event.shmemRss < 256 ^ 8
  uid : event.uid < 256 ^ 4
  pgtables : event.pgtables < 256 ^ 8
  leastAdj : -(256 ^ 2 : Nat) ≤ 2 * event.oomScoreAdj
  greatestAdj : 2 * event.oomScoreAdj < (256 ^ 2 : Nat)

def values (event : OomKillEvent) : List Bytes :=
  [Bytes.littleEndian 4 event.pid, event.comm, Bytes.littleEndian 8 event.totalVm,
    Bytes.littleEndian 8 event.anonRss, Bytes.littleEndian 8 event.fileRss,
    Bytes.littleEndian 8 event.shmemRss, Bytes.littleEndian 4 event.uid,
    Bytes.littleEndian 8 event.pgtables,
    Bytes.littleEndian 2 (Bytes.unsigned 2 event.oomScoreAdj)]

/-- The event in memory. Its padding keeps what the memory held. -/
def store (event : OomKillEvent) (memory : Bytes) : Bytes :=
  writeMembers memory struct.places event.values

def readUnaligned (data : Bytes) : OomKillEvent where
  pid := struct.number data "pid"
  comm := struct.read data "comm"
  totalVm := struct.number data "total_vm"
  anonRss := struct.number data "anon_rss"
  fileRss := struct.number data "file_rss"
  shmemRss := struct.number data "shmem_rss"
  uid := struct.number data "uid"
  pgtables := struct.number data "pgtables"
  oomScoreAdj := Bytes.signed 2 (struct.number data "oom_score_adj")

theorem readMembers_struct (data : Bytes) :
    readMembers struct.places data =
      [struct.read data "pid", struct.read data "comm", struct.read data "total_vm",
        struct.read data "anon_rss", struct.read data "file_rss", struct.read data "shmem_rss",
        struct.read data "uid", struct.read data "pgtables", struct.read data "oom_score_adj"] :=
  rfl

theorem places_inside {data : Bytes} (whole : eventSize ≤ data.length) :
    ∀ place ∈ struct.places, place.stop ≤ data.length := by
  intro place member
  have inside := stop_le_structSize member
  change place.stop ≤ struct.size at inside
  rw [size_struct] at inside
  exact inside.trans whole

theorem sizes_struct : struct.places.map Place.size = [4, 16, 8, 8, 8, 8, 4, 8, 2] :=
  sizes_placesFrom 0 struct.types

section

variable {event : OomKillEvent} {memory data : Bytes}

theorem fits_values (inRange : event.InRange) (whole : eventSize ≤ memory.length) :
    Fits memory struct.places event.values where
  sizes := by simp [sizes_struct, values, inRange.comm]
  inside := places_inside whole

theorem readUnaligned_store (inRange : event.InRange) (whole : eventSize ≤ memory.length)
    (rest : Bytes) : readUnaligned (event.store memory ++ rest) = event := by
  have written := readMembers_writeMembers (fits_values inRange whole)
    (placesFrom_ordered 0 struct.types) rest
  change readMembers struct.places (event.store memory ++ rest) = event.values at written
  rw [readMembers_struct, values] at written
  simp only [List.cons.injEq, and_true] at written
  rcases written with ⟨pid, comm, totalVm, anonRss, fileRss, shmemRss, uid, pgtables, adj⟩
  have adjFits := Bytes.unsigned_lt 2 event.oomScoreAdj
  have adjSame := Bytes.signed_unsigned inRange.leastAdj inRange.greatestAdj
  rw [readUnaligned]
  simp only [CStruct.number, pid, comm, totalVm, anonRss, fileRss, shmemRss, uid, pgtables, adj,
    Bytes.ofLittleEndian_of_lt inRange.pid, Bytes.ofLittleEndian_of_lt inRange.totalVm,
    Bytes.ofLittleEndian_of_lt inRange.anonRss, Bytes.ofLittleEndian_of_lt inRange.fileRss,
    Bytes.ofLittleEndian_of_lt inRange.shmemRss, Bytes.ofLittleEndian_of_lt inRange.uid,
    Bytes.ofLittleEndian_of_lt inRange.pgtables, Bytes.ofLittleEndian_of_lt adjFits, adjSame]

theorem length_read {name : String} {place : Place} (isPlace : struct.placeOf name = some place)
    (inside : place.stop ≤ data.length) : (struct.read data name).length = place.size := by
  rw [CStruct.read, isPlace, Option.elim_some]
  exact Bytes.length_slice inside

theorem readUnaligned_inRange (whole : eventSize ≤ data.length) : (readUnaligned data).InRange := by
  have inside := places_inside whole
  have fits (name : String) (place : Place) (isPlace : struct.placeOf name = some place)
      (isMember : place ∈ struct.places) : struct.number data name < 256 ^ place.size := by
    have bound := Bytes.ofLittleEndian_lt (struct.read data name)
    rwa [length_read isPlace (inside place isMember)] at bound
  have commLength : (struct.read data "comm").length = 16 :=
    length_read rfl (inside ⟨4, 16⟩ (by decide))
  have adjRange := Bytes.signed_range (fits "oom_score_adj" ⟨72, 2⟩ rfl (by decide))
  exact {
    pid := fits "pid" ⟨0, 4⟩ rfl (by decide)
    comm := commLength
    totalVm := fits "total_vm" ⟨24, 8⟩ rfl (by decide)
    anonRss := fits "anon_rss" ⟨32, 8⟩ rfl (by decide)
    fileRss := fits "file_rss" ⟨40, 8⟩ rfl (by decide)
    shmemRss := fits "shmem_rss" ⟨48, 8⟩ rfl (by decide)
    uid := fits "uid" ⟨56, 4⟩ rfl (by decide)
    pgtables := fits "pgtables" ⟨64, 8⟩ rfl (by decide)
    leastAdj := adjRange.1
    greatestAdj := adjRange.2 }

theorem store_readUnaligned (whole : eventSize ≤ data.length) :
    (readUnaligned data).store data = data := by
  have inside := places_inside whole
  have same (name : String) (place : Place) (isPlace : struct.placeOf name = some place)
      (isMember : place ∈ struct.places) :
      Bytes.littleEndian place.size (struct.number data name) = struct.read data name := by
    have length := length_read isPlace (inside place isMember)
    rw [CStruct.number, ← length]
    exact Bytes.littleEndian_ofLittleEndian _
  have adjFits : struct.number data "oom_score_adj" < 256 ^ 2 := by
    have bound := Bytes.ofLittleEndian_lt (struct.read data "oom_score_adj")
    rwa [length_read rfl (inside ⟨72, 2⟩ (by decide))] at bound
  have sameValues : (readUnaligned data).values = readMembers struct.places data := by
    rw [readMembers_struct, values]
    simp only [readUnaligned, Bytes.unsigned_signed adjFits, same "pid" ⟨0, 4⟩ rfl (by decide),
      same "total_vm" ⟨24, 8⟩ rfl (by decide), same "anon_rss" ⟨32, 8⟩ rfl (by decide),
      same "file_rss" ⟨40, 8⟩ rfl (by decide), same "shmem_rss" ⟨48, 8⟩ rfl (by decide),
      same "uid" ⟨56, 4⟩ rfl (by decide), same "pgtables" ⟨64, 8⟩ rfl (by decide),
      same "oom_score_adj" ⟨72, 2⟩ rfl (by decide)]
  rw [store, sameValues]
  exact writeMembers_readMembers inside

end

/-- The record format: in memory of at least the struct's size, what was stored
is read back, whatever the padding held and whatever follows; all that can be
read is in range; and storing what was read restores every byte. -/
theorem record_round_trip {memory : Bytes} (whole : eventSize ≤ memory.length) :
    (∀ event : OomKillEvent, event.InRange → ∀ rest,
        readUnaligned (event.store memory ++ rest) = event) ∧
      (readUnaligned memory).InRange ∧ (readUnaligned memory).store memory = memory :=
  ⟨fun _ inRange => readUnaligned_store inRange whole, readUnaligned_inRange whole,
    store_readUnaligned whole⟩

/-- A record of equal bytes, padding included, is of an event with a negative
adjustment. -/
theorem record_round_trip_ones :
    (readUnaligned (List.replicate 80 255)).oomScoreAdj = -1 ∧
      (readUnaligned (List.replicate 80 255)).store (List.replicate 80 255) =
        List.replicate 80 255 :=
  ⟨by decide, (record_round_trip (by decide)).2.2⟩

end OomKillEvent

def Record.ofBytes (data : Bytes) (whole : eventSize ≤ data.length) : Record where
  event := .readUnaligned data
  length := data.length
  whole := whole

end OomWatcher
