import Mathlib

/-!
# `devices/partition.c`: the partition-table scan

A block device is its size in sectors and the bytes of each sector.  `read_partition_table`
checks the sector against the size, reads a table, checks its `0xaa55` signature, and walks
its four entries: an empty entry is skipped, an extended one sends the scan into the table it
designates (the offset is absolute in the MBR and relative to the primary extended partition
deeper down), and any other becomes the next partition, which `found_partition` registers when
it lies on the device.  Sector numbers are `block_sector_t`, 32 bits.  The recursion has no
bound in the source: here it runs on fuel, and `none` means that the fuel ran out, so a call
returns for some fuel exactly when the source's recursion ends.  The messages the scan prints
and the `malloc` of the table (which panics only when memory runs out) are left out.

* `readPartitionTable` reads its table with `block_read (block, 0, pt)`, from sector 0 whatever
  `sector` is.  `partitionScan_never_returns`: on every device whose MBR has an extended entry
  at an offset `E` with `E + E` below the size, the scan reads the MBR again at every level and
  calls itself on sector `E + E` forever, whatever the extended partition holds.
* `readPartitionTableSpec` is the scan as the comment above it describes it, reading each table
  from its own sector; on the device `extDisk`, whose extended table holds one logical
  partition and no further extended entry, it registers that partition.
-/

set_option autoImplicit false

namespace Pintos.Partition

/-- `BLOCK_SECTOR_SIZE`. -/
def BLOCK_SECTOR_SIZE : Nat := 512

/-- A block device: `block_size` and the bytes of each sector. -/
structure Block where
  size : UInt32
  sector : UInt32 → Nat → UInt8

/-- `enum block_type`, for the partitions `found_partition` registers. -/
inductive BlockType
  | kernel | filesys | scratch | swap | foreign
  deriving DecidableEq, Repr

/-- What `block_register` is given for a partition: its number, type, start and size. -/
structure Found where
  partNr : Nat
  type : BlockType
  start : UInt32
  size : UInt32
  deriving DecidableEq, Repr

/-- `struct partition_table_entry`: the fields the scan reads. -/
structure Entry where
  type : UInt8
  offset : UInt32
  size : UInt32
  deriving DecidableEq, Repr

/-- A little-endian 32-bit field of a table. -/
def le32 (pt : Nat → UInt8) (o : Nat) : UInt32 :=
  (pt o).toUInt32 ||| (pt (o + 1)).toUInt32 <<< 8 ||| (pt (o + 2)).toUInt32 <<< 16 |||
    (pt (o + 3)).toUInt32 <<< 24

/-- `pt->signature`, the last two bytes. -/
def tableSignature (pt : Nat → UInt8) : UInt16 :=
  (pt 510).toUInt16 ||| (pt 511).toUInt16 <<< 8

/-- `pt->partitions[i]`: sixteen bytes from offset 446. -/
def tableEntry (pt : Nat → UInt8) (i : Nat) : Entry :=
  let o := 446 + 16 * i
  ⟨pt (o + 4), le32 pt (o + 8), le32 pt (o + 12)⟩

/-- The four extended partition types. -/
def isExtended (type : UInt8) : Bool :=
  type == 0x05 || type == 0x0f || type == 0x85 || type == 0xc5

/-- The role `found_partition` gives a partition type. -/
def blockTypeOf (type : UInt8) : BlockType :=
  if type = 0x20 then .kernel
  else if type = 0x21 then .filesys
  else if type = 0x22 then .scratch
  else if type = 0x23 then .swap
  else .foreign

/-- `found_partition`: the partition is registered only when it lies on the device. -/
def foundPartition (b : Block) (type : UInt8) (start size : UInt32) (partNr : Nat) : List Found :=
  if start ≥ b.size then []
  else if start + size < start ∨ start + size > b.size then []
  else [⟨partNr, blockTypeOf type, start, size⟩]

/-- One entry of the loop of `read_partition_table`, with `recurse` for the call on an extended
partition's table: the partitions found so far and `*part_nr`. -/
def scanEntry (b : Block) (sector pes : UInt32)
    (recurse : UInt32 → UInt32 → Nat → Option (List Found × Nat)) (pt : Nat → UInt8)
    (acc : List Found × Nat) (i : Nat) : Option (List Found × Nat) :=
  let e := tableEntry pt i
  if e.size = 0 ∨ e.type = 0 then some acc
  else if isExtended e.type then
    let next := if sector = 0 then recurse e.offset e.offset acc.2
      else recurse (e.offset + pes) pes acc.2
    next.map fun (fs, n) => (acc.1 ++ fs, n)
  else
    some (acc.1 ++ foundPartition b e.type (e.offset + sector) e.size (acc.2 + 1), acc.2 + 1)

/-- `read_partition_table (block, sector, primary_extended_sector, part_nr)`, on fuel: the
partitions registered and the new `*part_nr`. -/
def readPartitionTable (b : Block) : Nat → UInt32 → UInt32 → Nat → Option (List Found × Nat)
  | 0, _, _, _ => none
  | fuel + 1, sector, pes, partNr =>
    if sector ≥ b.size then some ([], partNr)
    else
      -- `block_read (block, 0, pt)`
      let pt := b.sector 0
      if tableSignature pt ≠ 0xaa55 then some ([], partNr)
      else (List.range 4).foldlM (scanEntry b sector pes (readPartitionTable b fuel) pt) ([], partNr)

/-- `partition_scan`: the partitions registered. -/
def partitionScan (b : Block) (fuel : Nat) : Option (List Found) :=
  (readPartitionTable b fuel 0 0 0).map Prod.fst

/-- The scan as described above `read_partition_table`, reading the table of `sector`. -/
def readPartitionTableSpec (b : Block) : Nat → UInt32 → UInt32 → Nat → Option (List Found × Nat)
  | 0, _, _, _ => none
  | fuel + 1, sector, pes, partNr =>
    if sector ≥ b.size then some ([], partNr)
    else
      let pt := b.sector sector
      if tableSignature pt ≠ 0xaa55 then some ([], partNr)
      else (List.range 4).foldlM (scanEntry b sector pes (readPartitionTableSpec b fuel) pt)
        ([], partNr)

/-! ## The scan never ends on an extended partition -/

/-- A fold in `Option` fails when one of its steps fails from every accumulator. -/
theorem foldlM_eq_none_of_mem {α β : Type} {f : α → β → Option α} {x : β}
    (hx : ∀ acc, f acc x = none) : ∀ {l : List β} (init : α), x ∈ l → l.foldlM f init = none
  | y :: l, init, hmem => by
    rw [List.foldlM_cons]
    rcases List.mem_cons.mp hmem with rfl | hmem
    · rw [hx]
      rfl
    · cases f init y with
      | none => rfl
      | some acc => exact foldlM_eq_none_of_mem hx acc hmem

section Extended

variable {b : Block} {i : Nat}

/-- The entry of the MBR the scan follows forever. -/
def mbrEntry (b : Block) (i : Nat) : Entry := tableEntry (b.sector 0) i

/-- From a nested table at sector `E + E`, the scan reads the MBR, follows its extended entry
to `E + E` again, and so never returns. -/
theorem readPartitionTable_loop (hi : i < 4) (hsig : tableSignature (b.sector 0) = 0xaa55)
    (hext : isExtended (mbrEntry b i).type = true) (hsz : (mbrEntry b i).size ≠ 0)
    (hin : (mbrEntry b i).offset + (mbrEntry b i).offset < b.size)
    (hne : (mbrEntry b i).offset + (mbrEntry b i).offset ≠ 0) :
    ∀ fuel n, readPartitionTable b fuel ((mbrEntry b i).offset + (mbrEntry b i).offset)
      (mbrEntry b i).offset n = none := by
  have ht : (mbrEntry b i).type ≠ 0 := by
    intro h
    rw [h] at hext
    exact absurd hext (by decide)
  intro fuel
  induction fuel with
  | zero => intro n; rfl
  | succ fuel ih =>
    intro n
    rw [readPartitionTable, if_neg (by simpa using hin), if_neg (by simpa using hsig)]
    apply foldlM_eq_none_of_mem _ _ (List.mem_range.mpr hi)
    intro acc
    simp [scanEntry, show tableEntry (b.sector 0) i = mbrEntry b i from rfl, hext, hsz, ht, hne, ih]

/-- **`partition_scan` never returns** on a device whose MBR has an extended entry at an
offset `E`, `0 < E`, with `E + E` below the size: every nested call reads the MBR instead of
its own table. -/
theorem partitionScan_never_returns (hi : i < 4) (hsig : tableSignature (b.sector 0) = 0xaa55)
    (hext : isExtended (mbrEntry b i).type = true) (hsz : (mbrEntry b i).size ≠ 0)
    (hpos : 0 < (mbrEntry b i).offset.toNat)
    (hin : (mbrEntry b i).offset.toNat + (mbrEntry b i).offset.toNat < b.size.toNat) :
    ∀ fuel, partitionScan b fuel = none := by
  have ht : (mbrEntry b i).type ≠ 0 := by
    intro h
    rw [h] at hext
    exact absurd hext (by decide)
  have hentry : tableEntry (b.sector 0) i = mbrEntry b i := rfl
  obtain ⟨E, hE⟩ : ∃ E, (mbrEntry b i).offset = E := ⟨_, rfl⟩
  rw [hE] at hpos hin
  have hEE : (E + E).toNat = E.toNat + E.toNat := by
    rw [UInt32.toNat_add]
    have := b.size.toNat_lt
    omega
  have hne : E + E ≠ 0 := by
    intro h
    have := congrArg UInt32.toNat h
    rw [hEE] at this
    simp at this
    omega
  have hE0 : E ≠ 0 := by
    rintro rfl
    simp at hpos
  have hloop := readPartitionTable_loop hi hsig hext hsz
    (by rw [hE, UInt32.lt_iff_toNat_lt, hEE]; exact hin) (by rw [hE]; exact hne)
  rw [hE] at hloop
  -- the call on the extended table `(E, E)` reads the MBR and goes to `(E + E, E)`
  have hfirst : ∀ fuel n, readPartitionTable b fuel E E n = none := by
    intro fuel n
    cases fuel with
    | zero => rfl
    | succ fuel =>
      rw [readPartitionTable, if_neg (by simp only [ge_iff_le, UInt32.le_iff_toNat_le]; omega),
        if_neg (by simpa using hsig)]
      apply foldlM_eq_none_of_mem _ _ (List.mem_range.mpr hi)
      intro acc
      simp [scanEntry, hentry, hE, hext, hsz, ht, hE0, hloop]
  intro fuel
  cases fuel with
  | zero => rfl
  | succ fuel =>
    unfold partitionScan
    rw [readPartitionTable, if_neg (by simp only [ge_iff_le, UInt32.le_iff_toNat_le]; simp; omega),
      if_neg (by simpa using hsig), foldlM_eq_none_of_mem _ _ (List.mem_range.mpr hi)]
    · rfl
    intro acc
    simp [scanEntry, hentry, hE, hext, hsz, ht, hfirst]

end Extended

/-! ## A device with one logical partition -/

/-- The bytes of an entry at slot `i` of a table. -/
def entryBytes (i : Nat) (type : UInt8) (offset size : Nat) (o : Nat) : Option UInt8 :=
  let base := 446 + 16 * i
  if o = base + 4 then some type
  else if base + 8 ≤ o ∧ o < base + 12 then some (UInt8.ofNat (offset / 256 ^ (o - base - 8)))
  else if base + 12 ≤ o ∧ o < base + 16 then some (UInt8.ofNat (size / 256 ^ (o - base - 12)))
  else none

/-- A table whose first slot is `(type, offset, size)`, signed. -/
def oneEntryTable (type : UInt8) (offset size : Nat) (o : Nat) : UInt8 :=
  if o = 510 then 0x55 else if o = 511 then 0xaa else (entryBytes 0 type offset size o).getD 0

/-- A 100-sector device: the MBR holds an extended partition from sector 10 for 50 sectors,
and the extended table at sector 10 a Linux partition one sector further on, three long. -/
def extDisk : Block where
  size := 100
  sector := fun s => if s = 0 then oneEntryTable 0x05 10 50
    else if s = 10 then oneEntryTable 0x83 1 3 else fun _ => 0

/-- Read from its own sector, the extended table gives the logical partition, sectors 11 to 13. -/
example : (readPartitionTableSpec extDisk 3 0 0 0).map Prod.fst =
    some [⟨1, .foreign, 11, 3⟩] := by
  decide

/-- On `extDisk`, whose extended table holds one partition and no further extended entry,
`partition_scan` never returns. -/
theorem partitionScan_never_returns_extDisk :
    (0 : Nat) < 4 ∧ tableSignature (extDisk.sector 0) = 0xaa55 ∧
      isExtended (mbrEntry extDisk 0).type = true ∧ (mbrEntry extDisk 0).size ≠ 0 ∧
      0 < (mbrEntry extDisk 0).offset.toNat ∧
      (mbrEntry extDisk 0).offset.toNat + (mbrEntry extDisk 0).offset.toNat <
        extDisk.size.toNat ∧
      ∀ fuel, partitionScan extDisk fuel = none :=
  ⟨by decide, by decide, by decide, by decide, by decide, by decide,
    @partitionScan_never_returns extDisk 0 (by decide) (by decide) (by decide) (by decide)
      (by decide) (by decide)⟩

end Pintos.Partition
