import Mathlib
import Pintos.Filesys.Filesys
import Pintos.Lib.Run

/-!
# File contents: `inode_create`, `inode_read_at` and `inode_write_at`

The block device is a map from sectors to their `BLOCK_SECTOR_SIZE` bytes.  An inode's data are
the sectors from `start` on, `bytes_to_sectors (length)` of them; byte `i` of the file is byte
`i % BLOCK_SECTOR_SIZE` of sector `start + i / BLOCK_SECTOR_SIZE`.  `inode_read_at` and
`inode_write_at` cut a byte range into chunks that stay inside one sector and inside the file; a
whole sector moves directly between the device and the caller's buffer, any other chunk through
a bounce buffer that the first such chunk `malloc`s (`mallocOk` says whether it succeeds).  Each
call also returns the sectors it passed to `block_read` or `block_write`.

Offsets and sizes are `off_t`.  They are `Int`s here with C's truncating `/` and `%`, and the
sector `byte_to_sector` returns is a `block_sector_t`, taken modulo `2 ^ 32` (-1 past the end).

## Results

* `inodeReadAt_spec` — a read of `size ≥ 0` bytes at `offset ≥ 0` returns
  `xfer = min size (max 0 (length - offset))` and puts exactly those bytes of the file at the
  start of the buffer, whichever way each chunk moves; it reads only the file's sectors.
* `inodeWriteAt_spec` — a write returns as many bytes, or 0 while writes are denied; the device
  then holds the file with exactly those bytes replaced, and no sector outside the file's
  changed (`Wrote`); it reads and writes only the file's sectors.
* `inode_data_refines_array` — from `inode_create`'s zeros, any run of such calls returns what the
  same calls return on a `FileArray` of `length` zero bytes, which the device then holds, and
  touches no sector outside the file's.

The two loops are proved chunk by chunk (`readLoop_step`, `writeLoop_step`) and then by induction
on the bytes left (`readLoop_eq`, `writeLoop_eq`); `Lts.runCalls_sim` carries one call's
simulation (`onDisk_sim`) to a run.
-/

set_option autoImplicit false

namespace Pintos.Filesys

/-- The block device: the bytes of each sector. -/
abbrev Disk : Type := Nat → Nat → UInt8

/-- `memcpy (dst + dstAt, src + srcAt, n)`. -/
def memcpy (dst : Nat → UInt8) (dstAt : Nat) (src : Nat → UInt8) (srcAt n : Nat) : Nat → UInt8 :=
  fun i => if dstAt ≤ i ∧ i < dstAt + n then src (srcAt + (i - dstAt)) else dst i

/-- `byte_to_sector`. -/
def byteToSector (inode : Inode) (pos : Int) : Nat :=
  if pos < inode.data.length then
    ((inode.data.start + pos.tdiv BLOCK_SECTOR_SIZE) % 2 ^ 32).toNat
  else 2 ^ 32 - 1

/-- `inode_create`'s writes to the device: the inode's data sectors, all zeros. -/
def inodeCreateData (start length : Nat) (disk : Disk) : Disk :=
  fun sector => if start ≤ sector ∧ sector < start + bytesToSectors length then fun _ => 0
    else disk sector

/-- The size of the next chunk at `offset`: the bytes left to copy, in the file and in the
sector, whichever is least. -/
def chunkSize (inode : Inode) (size offset : Int) : Int :=
  min size (min (inode.data.length - offset) (BLOCK_SECTOR_SIZE - offset.tmod BLOCK_SECTOR_SIZE))

/-- The loop of `inode_read_at` from `bytes_read`; `bounce` is whether the bounce buffer is
allocated, and `log` the sectors `block_read` has read, the latest first. -/
def readLoop (inode : Inode) (disk : Disk) (mallocOk : Bool) (size offset bytesRead : Int)
    (bounce : Bool) (buffer : Nat → UInt8) (log : List Nat) : Int × (Nat → UInt8) × List Nat :=
  if size > 0 then
    let sectorIdx := byteToSector inode offset
    let sectorOfs := offset.tmod BLOCK_SECTOR_SIZE
    let chunk := chunkSize inode size offset
    if chunk ≤ 0 then (bytesRead, buffer, log)
    else if sectorOfs = 0 ∧ chunk = BLOCK_SECTOR_SIZE then
      -- a whole sector, read straight into the caller's buffer
      readLoop inode disk mallocOk (size - chunk) (offset + chunk) (bytesRead + chunk) bounce
        (memcpy buffer bytesRead.toNat (disk sectorIdx) 0 BLOCK_SECTOR_SIZE) (sectorIdx :: log)
    else if !bounce && !mallocOk then (bytesRead, buffer, log)
    else
      readLoop inode disk mallocOk (size - chunk) (offset + chunk) (bytesRead + chunk) true
        (memcpy buffer bytesRead.toNat (disk sectorIdx) sectorOfs.toNat chunk.toNat)
        (sectorIdx :: log)
  else (bytesRead, buffer, log)
termination_by size.toNat
decreasing_by all_goals omega

/-- `inode_read_at`: the bytes read, the caller's buffer, and the sectors read. -/
def inodeReadAt (inode : Inode) (disk : Disk) (mallocOk : Bool) (buffer : Nat → UInt8)
    (size offset : Int) : Int × (Nat → UInt8) × List Nat :=
  readLoop inode disk mallocOk size offset 0 false buffer []

/-- The loop of `inode_write_at` from `bytes_written`; `log` is the sectors `block_read` and
`block_write` have been called on, the latest first. -/
def writeLoop (inode : Inode) (mallocOk : Bool) (buffer : Nat → UInt8)
    (size offset bytesWritten : Int) (bounce : Bool) (disk : Disk) (log : List Nat) :
    Int × Disk × List Nat :=
  if size > 0 then
    let sectorIdx := byteToSector inode offset
    let sectorOfs := offset.tmod BLOCK_SECTOR_SIZE
    let sectorLeft := BLOCK_SECTOR_SIZE - sectorOfs
    let chunk := chunkSize inode size offset
    if chunk ≤ 0 then (bytesWritten, disk, log)
    else if sectorOfs = 0 ∧ chunk = BLOCK_SECTOR_SIZE then
      -- a whole sector, written straight from the caller's buffer
      writeLoop inode mallocOk buffer (size - chunk) (offset + chunk) (bytesWritten + chunk) bounce
        (Function.update disk sectorIdx (memcpy (disk sectorIdx) 0 buffer bytesWritten.toNat
          BLOCK_SECTOR_SIZE)) (sectorIdx :: log)
    else if !bounce && !mallocOk then (bytesWritten, disk, log)
    else
      -- read the sector first if the chunk does not cover it, else start from zeros
      let old : Nat → UInt8 :=
        if sectorOfs > 0 ∨ chunk < sectorLeft then disk sectorIdx else fun _ => 0
      writeLoop inode mallocOk buffer (size - chunk) (offset + chunk) (bytesWritten + chunk) true
        (Function.update disk sectorIdx (memcpy old sectorOfs.toNat buffer bytesWritten.toNat
          chunk.toNat)) (sectorIdx :: log)
  else (bytesWritten, disk, log)
termination_by size.toNat
decreasing_by all_goals omega

/-- `inode_write_at`: the bytes written, the device, and the sectors read or written. -/
def inodeWriteAt (inode : Inode) (disk : Disk) (mallocOk : Bool) (buffer : Nat → UInt8)
    (size offset : Int) : Int × Disk × List Nat :=
  if inode.denyWriteCnt ≠ 0 then (0, disk, [])
  else writeLoop inode mallocOk buffer size offset 0 false disk []

/-! ## The file the device holds -/

/-- The bytes of the file as the device holds them. -/
def fileBytes (disk : Disk) (inode : Inode) : Nat → UInt8 :=
  fun i => disk (inode.data.start + i / BLOCK_SECTOR_SIZE) (i % BLOCK_SECTOR_SIZE)

/-- The file's data sectors. -/
def InFile (inode : Inode) (sector : Nat) : Prop :=
  inode.data.start ≤ sector ∧ sector < inode.data.start + bytesToSectors inode.data.length

/-- The data sectors are `block_sector_t`s. -/
def SectorsFit (inode : Inode) : Prop :=
  inode.data.start + bytesToSectors inode.data.length ≤ 2 ^ 32

/-- The bytes a read or a write of `size` bytes at `offset` moves in a file of `length` bytes. -/
def xfer (length : Nat) (size offset : Int) : Int :=
  min size (max 0 (length - offset))

/-! ## `memcpy` -/

theorem memcpy_zero (dst src : Nat → UInt8) (dstAt srcAt : Nat) :
    memcpy dst dstAt src srcAt 0 = dst := by
  funext i
  simp only [memcpy]
  rw [if_neg (by omega)]

/-- Two copies from consecutive places to consecutive places are one copy. -/
theorem memcpy_append (dst src : Nat → UInt8) (dstAt srcAt c k : Nat) :
    memcpy (memcpy dst dstAt src srcAt c) (dstAt + c) src (srcAt + c) k =
      memcpy dst dstAt src srcAt (c + k) := by
  funext i
  simp only [memcpy]
  by_cases h2 : dstAt + c ≤ i ∧ i < dstAt + c + k
  · rw [if_pos h2, if_pos (by omega)]
    congr 1
    omega
  · rw [if_neg h2]
    by_cases h1 : dstAt ≤ i ∧ i < dstAt + c
    · rw [if_pos h1, if_pos (by omega)]
    · rw [if_neg h1, if_neg (by omega)]

theorem memcpy_apply_of_eq {dst dst' : Nat → UInt8} (src : Nat → UInt8) (dstAt srcAt n : Nat)
    {i : Nat} (h : dst i = dst' i) :
    memcpy dst dstAt src srcAt n i = memcpy dst' dstAt src srcAt n i := by
  simp only [memcpy]
  split_ifs
  · rfl
  · exact h

theorem memcpy_congr {dst src src' : Nat → UInt8} {dstAt srcAt srcAt' n : Nat}
    (h : ∀ j < n, src (srcAt + j) = src' (srcAt' + j)) :
    memcpy dst dstAt src srcAt n = memcpy dst dstAt src' srcAt' n := by
  funext i
  simp only [memcpy]
  split_ifs with hi
  · exact h (i - dstAt) (by omega)
  · rfl

/-! ## One chunk -/

section Chunk

variable {inode : Inode} {size offset : Int}

theorem chunkSize_eq (hoff : 0 ≤ offset) :
    chunkSize inode size offset = min size (min (inode.data.length - offset)
      (BLOCK_SECTOR_SIZE - offset % BLOCK_SECTOR_SIZE)) := by
  rw [chunkSize, Int.tmod_eq_emod_of_nonneg hoff]

/-- A chunk inside the file: it is not empty, fits in what is left, and stays in its sector. -/
theorem chunkSize_bounds (hoff : 0 ≤ offset) (hlt : offset < inode.data.length)
    (hsize : 0 < size) :
    0 < chunkSize inode size offset ∧ chunkSize inode size offset ≤ size ∧
      offset + chunkSize inode size offset ≤ inode.data.length ∧
      offset % BLOCK_SECTOR_SIZE + chunkSize inode size offset ≤ BLOCK_SECTOR_SIZE := by
  rw [chunkSize_eq hoff]
  unfold BLOCK_SECTOR_SIZE
  omega

theorem byteToSector_eq (hfit : SectorsFit inode) (hoff : 0 ≤ offset)
    (hlt : offset < inode.data.length) :
    byteToSector inode offset = inode.data.start + offset.toNat / BLOCK_SECTOR_SIZE := by
  unfold SectorsFit bytesToSectors at hfit
  rw [byteToSector, if_pos hlt, Int.tdiv_eq_ediv_of_nonneg hoff]
  unfold BLOCK_SECTOR_SIZE at *
  omega

theorem byteToSector_inFile (hfit : SectorsFit inode) (hoff : 0 ≤ offset)
    (hlt : offset < inode.data.length) : InFile inode (byteToSector inode offset) := by
  rw [byteToSector_eq hfit hoff hlt]
  unfold InFile bytesToSectors BLOCK_SECTOR_SIZE
  omega

/-- The chunk's bytes of its sector are the file's bytes from `offset`. -/
theorem sector_eq_fileBytes (disk : Disk) (hfit : SectorsFit inode) (hoff : 0 ≤ offset)
    (hlt : offset < inode.data.length) (hsize : 0 < size) {j : Nat}
    (hj : j < (chunkSize inode size offset).toNat) :
    disk (byteToSector inode offset) ((offset.tmod BLOCK_SECTOR_SIZE).toNat + j) =
      fileBytes disk inode (offset.toNat + j) := by
  have hb := chunkSize_bounds hoff hlt hsize
  rw [byteToSector_eq hfit hoff hlt, Int.tmod_eq_emod_of_nonneg hoff]
  unfold fileBytes
  unfold BLOCK_SECTOR_SIZE at *
  congr 1 <;> omega

/-- After a chunk is written to its sector, the file holds the chunk in place of its bytes. -/
theorem fileBytes_update (disk : Disk) (buffer : Nat → UInt8) (bytesWritten : Nat)
    (hfit : SectorsFit inode) (hoff : 0 ≤ offset) (hlt : offset < inode.data.length)
    (hsize : 0 < size) (i : Nat) :
    fileBytes (Function.update disk (byteToSector inode offset)
        (memcpy (disk (byteToSector inode offset)) (offset.tmod BLOCK_SECTOR_SIZE).toNat buffer
          bytesWritten (chunkSize inode size offset).toNat)) inode i =
      memcpy (fileBytes disk inode) offset.toNat buffer bytesWritten
        (chunkSize inode size offset).toNat i := by
  have hb := chunkSize_bounds hoff hlt hsize
  rw [byteToSector_eq hfit hoff hlt, Int.tmod_eq_emod_of_nonneg hoff]
  unfold fileBytes memcpy
  unfold BLOCK_SECTOR_SIZE at *
  by_cases hsec : i / 512 = offset.toNat / 512
  · -- the chunk's sector: the chunk is the part of it from `offset % 512`
    rw [hsec, Function.update_self]
    by_cases hin : offset.toNat ≤ i ∧ i < offset.toNat + (chunkSize inode size offset).toNat
    · rw [if_pos (by omega), if_pos hin]
      congr 1
      omega
    · rw [if_neg (by omega), if_neg hin, ← hsec]
  · rw [Function.update_of_ne (by omega), if_neg (by omega)]

end Chunk

/-! ## Reads -/

section Read

variable {inode : Inode} (disk : Disk)

theorem readLoop_stop (bounce : Bool) (buffer : Nat → UInt8) (log : List Nat)
    {size offset bytesRead : Int} (hoff : 0 ≤ offset)
    (h : ¬ (0 < size ∧ offset < inode.data.length)) :
    readLoop inode disk true size offset bytesRead bounce buffer log = (bytesRead, buffer, log) := by
  rw [readLoop]
  split
  · rw [if_pos]
    rw [chunkSize_eq hoff]
    omega
  · rfl

/-- One chunk of `inode_read_at`: with either copy, the caller's buffer gets the chunk of the
file, and the chunk's sector is read. -/
theorem readLoop_step (hfit : SectorsFit inode) {size offset : Int} (hoff : 0 ≤ offset)
    (hlt : offset < inode.data.length) (hsize : 0 < size) (bytesRead : Int) (bounce : Bool)
    (buffer : Nat → UInt8) (log : List Nat) :
    ∃ bounce', readLoop inode disk true size offset bytesRead bounce buffer log =
      readLoop inode disk true (size - chunkSize inode size offset)
        (offset + chunkSize inode size offset) (bytesRead + chunkSize inode size offset) bounce'
        (memcpy buffer bytesRead.toNat (fileBytes disk inode) offset.toNat
          (chunkSize inode size offset).toNat) (byteToSector inode offset :: log) := by
  have hb := chunkSize_bounds hoff hlt hsize
  have hcopy := @memcpy_congr buffer _ _ bytesRead.toNat _ _ _
    (fun j hj => sector_eq_fileBytes disk hfit hoff hlt hsize hj)
  rw [readLoop, if_pos hsize]
  simp only
  rw [if_neg (by omega)]
  split
  · -- a whole sector
    rename_i hwhole
    refine ⟨bounce, ?_⟩
    rw [← hcopy, hwhole.1, hwhole.2]
    rfl
  · refine ⟨true, ?_⟩
    simp only [Bool.not_true, Bool.and_false, Bool.false_eq_true, ↓reduceIte]
    rw [hcopy]

/-- The loop of `inode_read_at` copies `xfer` bytes of the file, from `offset`, to the buffer
from `bytes_read`, and reads only sectors of the file. -/
theorem readLoop_eq (hfit : SectorsFit inode) :
    ∀ (n : Nat) (size offset bytesRead : Int) (bounce : Bool) (buffer : Nat → UInt8)
      (log : List Nat), size.toNat = n → 0 ≤ size → 0 ≤ offset → 0 ≤ bytesRead →
      ∃ reads, (∀ sector ∈ reads, InFile inode sector) ∧
        readLoop inode disk true size offset bytesRead bounce buffer log =
          (bytesRead + xfer inode.data.length size offset,
            memcpy buffer bytesRead.toNat (fileBytes disk inode) offset.toNat
              (xfer inode.data.length size offset).toNat, reads ++ log) := by
  intro n
  -- induction on the bytes left to read, which every chunk lowers
  induction n using Nat.strong_induction_on with
  | _ n ih =>
    intro size offset bytesRead bounce buffer log hn hs ho hb
    by_cases hstep : 0 < size ∧ offset < inode.data.length
    · obtain ⟨bounce', hr⟩ :=
        readLoop_step disk hfit ho hstep.2 hstep.1 bytesRead bounce buffer log
      have hc := chunkSize_bounds ho hstep.2 hstep.1
      set c := chunkSize inode size offset
      have hx : xfer inode.data.length size offset =
          c + xfer inode.data.length (size - c) (offset + c) := by
        unfold xfer
        omega
      obtain ⟨reads, hin, hrest⟩ := ih (size - c).toNat (by omega) (size - c) (offset + c)
        (bytesRead + c) bounce' (memcpy buffer bytesRead.toNat (fileBytes disk inode) offset.toNat
          c.toNat) (byteToSector inode offset :: log) rfl (by omega) (by omega) (by omega)
      refine ⟨reads ++ [byteToSector inode offset], fun sector hsec => ?_, ?_⟩
      · -- the chunk's sector lies in the file
        rcases List.mem_append.mp hsec with hsec | hsec
        · exact hin sector hsec
        · rw [List.mem_singleton.mp hsec]
          exact byteToSector_inFile hfit ho hstep.2
      rw [hr, hrest]
      have e1 : (bytesRead + c).toNat = bytesRead.toNat + c.toNat := by omega
      have e2 : (offset + c).toNat = offset.toNat + c.toNat := by omega
      have e3 : (xfer inode.data.length size offset).toNat =
          c.toNat + (xfer inode.data.length (size - c) (offset + c)).toNat := by
        have : 0 ≤ xfer inode.data.length (size - c) (offset + c) := by
          unfold xfer
          omega
        omega
      rw [e1, e2, e3, memcpy_append, hx, Int.add_assoc, List.append_assoc, List.singleton_append]
    · have hx : xfer inode.data.length size offset = 0 := by
        unfold xfer
        omega
      refine ⟨[], fun _ h => absurd h List.not_mem_nil, ?_⟩
      rw [readLoop_stop disk bounce buffer log ho hstep, hx, Int.add_zero, Int.toNat_zero,
        memcpy_zero, List.nil_append]

/-- **`inode_read_at`.**  A read of `size ≥ 0` bytes at `offset ≥ 0` returns
`min size (max 0 (length - offset))`, puts exactly those bytes of the file at the start of the
buffer, leaving the rest of it, and reads only sectors of the file. -/
theorem inodeReadAt_spec (hfit : SectorsFit inode) (buffer : Nat → UInt8) {size offset : Int}
    (hs : 0 ≤ size) (ho : 0 ≤ offset) :
    ∃ reads, (∀ sector ∈ reads, InFile inode sector) ∧
      inodeReadAt inode disk true buffer size offset =
        (xfer inode.data.length size offset, memcpy buffer 0 (fileBytes disk inode) offset.toNat
          (xfer inode.data.length size offset).toNat, reads) := by
  obtain ⟨reads, hin, h⟩ := readLoop_eq disk hfit _ size offset 0 false buffer [] rfl hs ho
    (Int.le_refl 0)
  refine ⟨reads, hin, ?_⟩
  rw [inodeReadAt, h, Int.zero_add, List.append_nil]
  rfl

end Read

/-! ## Writes -/

/-- What a write of `count` bytes from `buffer + srcAt` to the file at `offset` leaves: the file
with those bytes replaced, and every sector outside the file's as it was. -/
def Wrote (inode : Inode) (disk disk' : Disk) (buffer : Nat → UInt8) (srcAt offset count : Nat) :
    Prop :=
  (∀ i < inode.data.length,
    fileBytes disk' inode i = memcpy (fileBytes disk inode) offset buffer srcAt count i) ∧
  ∀ sector, ¬ InFile inode sector → disk' sector = disk sector

section Write

variable {inode : Inode} (buffer : Nat → UInt8)

theorem wrote_zero (disk : Disk) (srcAt offset : Nat) :
    Wrote inode disk disk buffer srcAt offset 0 :=
  ⟨fun i _ => by rw [memcpy_zero], fun _ _ => rfl⟩

/-- Two writes of consecutive bytes to consecutive places are one write. -/
theorem Wrote.trans {disk disk₁ disk₂ : Disk} {srcAt offset c k : Nat}
    (h₁ : Wrote inode disk disk₁ buffer srcAt offset c)
    (h₂ : Wrote inode disk₁ disk₂ buffer (srcAt + c) (offset + c) k) :
    Wrote inode disk disk₂ buffer srcAt offset (c + k) := by
  refine ⟨fun i hi => ?_, fun sector hs => (h₂.2 sector hs).trans (h₁.2 sector hs)⟩
  rw [h₂.1 i hi, memcpy_apply_of_eq _ _ _ _ (h₁.1 i hi), memcpy_append]

theorem writeLoop_stop (bounce : Bool) (disk : Disk) (log : List Nat)
    {size offset bytesWritten : Int} (hoff : 0 ≤ offset)
    (h : ¬ (0 < size ∧ offset < inode.data.length)) :
    writeLoop inode true buffer size offset bytesWritten bounce disk log =
      (bytesWritten, disk, log) := by
  rw [writeLoop]
  split
  · rw [if_pos]
    rw [chunkSize_eq hoff]
    omega
  · rfl

/-- One chunk of `inode_write_at`: the chunk's sector gets the chunk in place, whether it is
written whole or read first. -/
theorem writeLoop_step {size offset : Int} (hoff : 0 ≤ offset)
    (hlt : offset < inode.data.length) (hsize : 0 < size) (bytesWritten : Int) (bounce : Bool)
    (disk : Disk) (log : List Nat) :
    ∃ bounce', writeLoop inode true buffer size offset bytesWritten bounce disk log =
      writeLoop inode true buffer (size - chunkSize inode size offset)
        (offset + chunkSize inode size offset) (bytesWritten + chunkSize inode size offset) bounce'
        (Function.update disk (byteToSector inode offset)
          (memcpy (disk (byteToSector inode offset)) (offset.tmod BLOCK_SECTOR_SIZE).toNat buffer
            bytesWritten.toNat (chunkSize inode size offset).toNat))
        (byteToSector inode offset :: log) := by
  have hb := chunkSize_bounds hoff hlt hsize
  rw [writeLoop, if_pos hsize]
  simp only
  rw [if_neg (by omega)]
  split
  · -- a whole sector
    rename_i hwhole
    refine ⟨bounce, ?_⟩
    rw [hwhole.1, hwhole.2]
    rfl
  · rename_i hpart
    refine ⟨true, ?_⟩
    simp only [Bool.not_true, Bool.and_false, Bool.false_eq_true, ↓reduceIte]
    -- a chunk that is not a whole sector leaves some of it, so the sector is read first: the
    -- zero-filled start is never taken
    rw [Int.tmod_eq_emod_of_nonneg hoff] at hpart ⊢
    unfold BLOCK_SECTOR_SIZE at *
    rw [if_pos (by omega)]

/-- The loop of `inode_write_at` writes `xfer` bytes of the buffer, from `bytes_written`, to the
file at `offset`, returns their count, and reads and writes only sectors of the file. -/
theorem writeLoop_eq (hfit : SectorsFit inode) :
    ∀ (n : Nat) (size offset bytesWritten : Int) (bounce : Bool) (disk : Disk) (log : List Nat),
      size.toNat = n → 0 ≤ size → 0 ≤ offset → 0 ≤ bytesWritten →
      (writeLoop inode true buffer size offset bytesWritten bounce disk log).1 =
          bytesWritten + xfer inode.data.length size offset ∧
        Wrote inode disk (writeLoop inode true buffer size offset bytesWritten bounce disk log).2.1
          buffer bytesWritten.toNat offset.toNat (xfer inode.data.length size offset).toNat ∧
        ∃ sectors, (∀ sector ∈ sectors, InFile inode sector) ∧
          (writeLoop inode true buffer size offset bytesWritten bounce disk log).2.2 =
            sectors ++ log := by
  intro n
  -- induction on the bytes left to write, which every chunk lowers
  induction n using Nat.strong_induction_on with
  | _ n ih =>
    intro size offset bytesWritten bounce disk log hn hs ho hb
    by_cases hstep : 0 < size ∧ offset < inode.data.length
    · obtain ⟨bounce', hw⟩ :=
        writeLoop_step buffer ho hstep.2 hstep.1 bytesWritten bounce disk log
      have hc := chunkSize_bounds ho hstep.2 hstep.1
      have hsec := byteToSector_inFile hfit ho hstep.2
      set c := chunkSize inode size offset
      set disk₁ := Function.update disk (byteToSector inode offset)
        (memcpy (disk (byteToSector inode offset)) (offset.tmod BLOCK_SECTOR_SIZE).toNat buffer
          bytesWritten.toNat c.toNat)
      -- the chunk alone
      have hchunk : Wrote inode disk disk₁ buffer bytesWritten.toNat offset.toNat c.toNat :=
        ⟨fun i _ => fileBytes_update disk buffer _ hfit ho hstep.2 hstep.1 i,
          fun sector hs => Function.update_of_ne (by rintro rfl; exact hs hsec) _ _⟩
      have hx : xfer inode.data.length size offset =
          c + xfer inode.data.length (size - c) (offset + c) := by
        unfold xfer
        omega
      have hx0 : 0 ≤ xfer inode.data.length (size - c) (offset + c) := by
        unfold xfer
        omega
      obtain ⟨h1, h2, sectors, hin, h3⟩ := ih (size - c).toNat (by omega) (size - c) (offset + c)
        (bytesWritten + c) bounce' disk₁ (byteToSector inode offset :: log) rfl (by omega)
        (by omega) (by omega)
      rw [show (bytesWritten + c).toNat = bytesWritten.toNat + c.toNat by omega,
        show (offset + c).toNat = offset.toNat + c.toNat by omega] at h2
      rw [hw, h1, hx, show (c + xfer inode.data.length (size - c) (offset + c)).toNat =
        c.toNat + (xfer inode.data.length (size - c) (offset + c)).toNat by omega]
      refine ⟨by rw [Int.add_assoc], hchunk.trans buffer h2, sectors ++ [byteToSector inode offset],
        fun sector hs => ?_, by rw [h3, List.append_assoc, List.singleton_append]⟩
      rcases List.mem_append.mp hs with hs | hs
      · exact hin sector hs
      · rw [List.mem_singleton.mp hs]
        exact hsec
    · have hx : xfer inode.data.length size offset = 0 := by
        unfold xfer
        omega
      rw [writeLoop_stop buffer bounce disk log ho hstep, hx, Int.add_zero, Int.toNat_zero]
      exact ⟨rfl, wrote_zero buffer disk _ _, [], fun _ h => absurd h List.not_mem_nil, rfl⟩

/-- **`inode_write_at`.**  While writes are denied it writes nothing; otherwise a write of
`size ≥ 0` bytes at `offset ≥ 0` returns `min size (max 0 (length - offset))` and replaces exactly
those bytes of the file with the start of the buffer, reading and writing only sectors of the
file. -/
theorem inodeWriteAt_spec (hfit : SectorsFit inode) (disk : Disk) {size offset : Int}
    (hs : 0 ≤ size) (ho : 0 ≤ offset) :
    (inodeWriteAt inode disk true buffer size offset).1 =
        (if inode.denyWriteCnt ≠ 0 then 0 else xfer inode.data.length size offset) ∧
      Wrote inode disk (inodeWriteAt inode disk true buffer size offset).2.1 buffer 0 offset.toNat
        (if inode.denyWriteCnt ≠ 0 then 0 else xfer inode.data.length size offset).toNat ∧
      ∀ sector ∈ (inodeWriteAt inode disk true buffer size offset).2.2, InFile inode sector := by
  unfold inodeWriteAt
  split
  · exact ⟨rfl, wrote_zero buffer disk _ _, fun _ h => absurd h List.not_mem_nil⟩
  · obtain ⟨h1, h2, sectors, hin, h3⟩ := writeLoop_eq buffer hfit _ size offset 0 false disk []
      rfl hs ho (Int.le_refl 0)
    refine ⟨by rw [h1, Int.zero_add], h2, ?_⟩
    rw [h3, List.append_nil]
    exact hin

end Write

/-! ## Creation -/

/-- `inode_create` leaves a file of zero bytes and every other sector as it was. -/
theorem inodeCreateData_spec {inode : Inode} (disk : Disk) :
    (∀ i < inode.data.length,
      fileBytes (inodeCreateData inode.data.start inode.data.length disk) inode i = 0) ∧
    ∀ sector, ¬ InFile inode sector →
      inodeCreateData inode.data.start inode.data.length disk sector = disk sector := by
  refine ⟨fun i hi => ?_, fun sector hs => if_neg hs⟩
  unfold fileBytes inodeCreateData
  rw [if_pos]
  unfold bytesToSectors BLOCK_SECTOR_SIZE
  omega

/-! ## What the data are for: an array of bytes -/

/-- A file as an array of `length` bytes. -/
structure FileArray where
  length : Nat
  bytes : Nat → UInt8

namespace FileArray

/-- A read of `size` bytes at `offset` into the start of `buffer`. -/
def read (a : FileArray) (buffer : Nat → UInt8) (size offset : Int) : Int × (Nat → UInt8) :=
  (xfer a.length size offset,
    memcpy buffer 0 a.bytes offset.toNat (xfer a.length size offset).toNat)

/-- A write of `size` bytes from the start of `buffer` at `offset`, or none while `denied`. -/
def write (a : FileArray) (denied : Bool) (buffer : Nat → UInt8) (size offset : Int) :
    Int × FileArray :=
  if denied then (0, a)
  else (xfer a.length size offset,
    { a with bytes := memcpy a.bytes offset.toNat buffer 0 (xfer a.length size offset).toNat })

end FileArray

/-- A call on a file: `inode_read_at` or `inode_write_at` with its buffer, size and offset. -/
inductive FileOp
  | read (buffer : Nat → UInt8) (size offset : Int)
  | write (buffer : Nat → UInt8) (size offset : Int)

/-- The calls with `size ≥ 0` and `offset ≥ 0`. -/
def FileOp.NonNeg : FileOp → Prop
  | .read _ size offset | .write _ size offset => 0 ≤ size ∧ 0 ≤ offset

instance : DecidablePred FileOp.NonNeg := fun op => by
  cases op <;> unfold FileOp.NonNeg <;> infer_instance

/-- One call on the inode's data on the device, with the bounce buffer always allocated: the
count, and the caller's buffer after it.  The device keeps the sectors the calls have read or
written, the latest first. -/
def FileOp.onDisk (inode : Inode) : FileOp → Disk × List Nat → (Int × (Nat → UInt8)) × (Disk × List Nat)
  | .read buffer size offset, (disk, log) =>
    let r := inodeReadAt inode disk true buffer size offset
    ((r.1, r.2.1), (disk, r.2.2 ++ log))
  | .write buffer size offset, (disk, log) =>
    let w := inodeWriteAt inode disk true buffer size offset
    ((w.1, buffer), (w.2.1, w.2.2 ++ log))

/-- The same call on an array. -/
def FileOp.onArray (denied : Bool) : FileOp → FileArray → (Int × (Nat → UInt8)) × FileArray
  | .read buffer size offset, a => (a.read buffer size offset, a)
  | .write buffer size offset, a =>
    let w := a.write denied buffer size offset
    ((w.1, buffer), w.2)

/-- A run of calls on the inode's data on the device. -/
def runInode (inode : Inode) :
    List FileOp → Disk × List Nat → List (Int × (Nat → UInt8)) × (Disk × List Nat) :=
  Lts.runCalls (FileOp.onDisk inode)

/-- The same calls on an array. -/
def FileArray.run (denied : Bool) :
    List FileOp → FileArray → List (Int × (Nat → UInt8)) × FileArray :=
  Lts.runCalls (FileOp.onArray denied)

/-! ## The data refine the array -/

/-- The device holds array `a` as the inode's data, with every other sector as in `disk₀`, and
the calls have read or written only the file's sectors. -/
def Holds (inode : Inode) (disk₀ : Disk) (a : FileArray) (dev : Disk × List Nat) : Prop :=
  a.length = inode.data.length ∧ (∀ i < inode.data.length, fileBytes dev.1 inode i = a.bytes i) ∧
    (∀ sector, ¬ InFile inode sector → dev.1 sector = disk₀ sector) ∧
    ∀ sector ∈ dev.2, InFile inode sector

section Refines

variable {inode : Inode} {disk₀ : Disk}

theorem holds_create (disk : Disk) :
    Holds inode disk ⟨inode.data.length, fun _ => 0⟩
      (inodeCreateData inode.data.start inode.data.length disk, []) :=
  ⟨rfl, (inodeCreateData_spec disk).1, (inodeCreateData_spec disk).2,
    fun _ h => absurd h List.not_mem_nil⟩

theorem read_of_holds (hfit : SectorsFit inode) {a : FileArray} {dev : Disk × List Nat}
    (h : Holds inode disk₀ a dev) (buffer : Nat → UInt8) {size offset : Int} (hs : 0 ≤ size)
    (ho : 0 ≤ offset) :
    ((inodeReadAt inode dev.1 true buffer size offset).1,
        (inodeReadAt inode dev.1 true buffer size offset).2.1) = a.read buffer size offset ∧
      ∀ sector ∈ (inodeReadAt inode dev.1 true buffer size offset).2.2, InFile inode sector := by
  obtain ⟨reads, hin, hr⟩ := inodeReadAt_spec dev.1 hfit buffer hs ho
  rw [hr, FileArray.read, h.1]
  refine ⟨?_, hin⟩
  congr 1
  -- the bytes read lie in the file
  refine memcpy_congr fun j hj => h.2.1 _ ?_
  unfold xfer at hj
  omega

theorem write_of_holds (hfit : SectorsFit inode) {a : FileArray} {dev : Disk × List Nat}
    (h : Holds inode disk₀ a dev) (buffer : Nat → UInt8) {size offset : Int} (hs : 0 ≤ size)
    (ho : 0 ≤ offset) :
    (inodeWriteAt inode dev.1 true buffer size offset).1 =
        (a.write (inode.denyWriteCnt != 0) buffer size offset).1 ∧
      Holds inode disk₀ (a.write (inode.denyWriteCnt != 0) buffer size offset).2
        ((inodeWriteAt inode dev.1 true buffer size offset).2.1,
          (inodeWriteAt inode dev.1 true buffer size offset).2.2 ++ dev.2) := by
  obtain ⟨h1, h2, h3⟩ := inodeWriteAt_spec buffer hfit dev.1 hs ho
  refine ⟨?_, ?_, fun i hi => ?_, fun sector hs => (h2.2 sector hs).trans (h.2.2.1 sector hs),
    fun sector hs => ?_⟩
  · rw [h1, FileArray.write, h.1]
    by_cases hd : inode.denyWriteCnt = 0 <;> simp [hd]
  · unfold FileArray.write
    split <;> exact h.1
  · rw [h2.1 i hi, memcpy_apply_of_eq _ _ _ _ (h.2.1 i hi), FileArray.write, h.1]
    by_cases hd : inode.denyWriteCnt = 0
    · simp [hd]
    · simp only [ne_eq, hd, not_false_eq_true, ↓reduceIte, Int.toNat_zero, memcpy_zero, bne_iff_ne]
  · -- the sectors of this call, then those of the calls before
    rcases List.mem_append.mp hs with hs | hs
    · exact h3 sector hs
    · exact h.2.2.2 sector hs

/-- One call: the device and the array answer alike and still correspond. -/
theorem onDisk_sim (hfit : SectorsFit inode) {a : FileArray} {dev : Disk × List Nat}
    (h : Holds inode disk₀ a dev) {op : FileOp} (hop : op.NonNeg) :
    (op.onDisk inode dev).1 = (op.onArray (inode.denyWriteCnt != 0) a).1 ∧
      Holds inode disk₀ (op.onArray (inode.denyWriteCnt != 0) a).2 (op.onDisk inode dev).2 := by
  obtain ⟨disk, log⟩ := dev
  cases op with
  | read buffer size offset =>
    obtain ⟨h1, h2⟩ := read_of_holds hfit h buffer hop.1 hop.2
    refine ⟨h1, h.1, h.2.1, h.2.2.1, fun sector hs => ?_⟩
    rcases List.mem_append.mp hs with hs | hs
    · exact h2 sector hs
    · exact h.2.2.2 sector hs
  | write buffer size offset =>
    obtain ⟨h1, h2⟩ := write_of_holds hfit h buffer hop.1 hop.2
    exact ⟨by simp only [FileOp.onDisk, FileOp.onArray, h1], h2⟩

/-- **Inode data refine a byte array.**  From an inode created with `length` bytes, any run of
`inode_read_at` and `inode_write_at` calls with `size ≥ 0` and `offset ≥ 0` returns what the same
calls return on an array of `length` zero bytes; the device then holds the array's bytes as the
file, no sector outside the file's has changed since before `inode_create`, and every sector the
calls read or wrote is one of the file's. -/
theorem inode_data_refines_array (hfit : SectorsFit inode) (disk : Disk) {ops : List FileOp}
    (hops : ∀ op ∈ ops, op.NonNeg) :
    (runInode inode ops (inodeCreateData inode.data.start inode.data.length disk, [])).1 =
        (FileArray.run (inode.denyWriteCnt != 0) ops ⟨inode.data.length, fun _ => 0⟩).1 ∧
      (∀ i < inode.data.length,
        fileBytes (runInode inode ops
            (inodeCreateData inode.data.start inode.data.length disk, [])).2.1 inode i =
          (FileArray.run (inode.denyWriteCnt != 0) ops ⟨inode.data.length, fun _ => 0⟩).2.bytes i) ∧
      (∀ sector, ¬ InFile inode sector →
        (runInode inode ops (inodeCreateData inode.data.start inode.data.length disk, [])).2.1
          sector = disk sector) ∧
      ∀ sector ∈
        (runInode inode ops (inodeCreateData inode.data.start inode.data.length disk, [])).2.2,
        InFile inode sector := by
  have hrun := @Lts.runCalls_sim _ _ _ _ (fun dev a => Holds inode disk a dev) FileOp.NonNeg
    (FileOp.onDisk inode) (FileOp.onArray (inode.denyWriteCnt != 0))
    (fun _ _ _ hop h => onDisk_sim hfit h hop) ops _ _ hops (holds_create disk)
  exact ⟨hrun.1, hrun.2.2⟩

/-- Six hundred bytes from sector 10. -/
def dataFixture : Inode := ⟨1, 0, false, ⟨10, 600⟩⟩

/-- A write that runs past the end of the file, then a read across the sector boundary. -/
def dataCalls : List FileOp := [.write (fun _ => 7) 100 500, .read (fun _ => 0) 200 450]

theorem inode_data_refines_array_600 :
    SectorsFit dataFixture ∧ (∀ op ∈ dataCalls, op.NonNeg) ∧
      (runInode dataFixture dataCalls (inodeCreateData 10 600 fun _ _ => 0, [])).1 =
          (FileArray.run false dataCalls ⟨600, fun _ => 0⟩).1 ∧
        (∀ i < 600,
          fileBytes (runInode dataFixture dataCalls (inodeCreateData 10 600 fun _ _ => 0, [])).2.1
            dataFixture i = (FileArray.run false dataCalls ⟨600, fun _ => 0⟩).2.bytes i) ∧
        (∀ sector, ¬ InFile dataFixture sector →
          (runInode dataFixture dataCalls (inodeCreateData 10 600 fun _ _ => 0, [])).2.1 sector =
            0) ∧
        ∀ sector ∈ (runInode dataFixture dataCalls (inodeCreateData 10 600 fun _ _ => 0, [])).2.2,
          InFile dataFixture sector :=
  have hfit : SectorsFit dataFixture := by
    unfold SectorsFit
    decide
  ⟨hfit, by decide, @inode_data_refines_array dataFixture hfit (fun _ _ => 0) dataCalls (by decide)⟩

end Refines

end Pintos.Filesys
