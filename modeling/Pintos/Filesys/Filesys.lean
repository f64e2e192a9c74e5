import Mathlib.Logic.Function.Basic
import Pintos.LibKernel.Bitmap
import Pintos.Lib.Slots

/-!
# The file system: `filesys/{free-map,inode,directory,file,filesys}.c`

The on-disk state is the free map (a bitmap of sectors), the inodes `inode_create` wrote, and the
slots of the root directory.  The in-memory state is the list of open inodes (by sector, with
`open_cnt`, `deny_write_cnt` and `removed`) and the `struct file`s (with `ref_count`).  `malloc`
and `calloc` succeed or fail as a list of outcomes says; `free` has no effect on them.  File
contents are left to `Pintos.Filesys.InodeData`.

Every allocation of the source is one here, the bounce buffers of `inode_read_at` and
`inode_write_at` included.  A directory entry is 20 bytes, never a whole sector, so each read or
write of a slot `malloc`s one (`readSlot`, `writeSlot`): a failed one makes the read or the write
come back short, which ends the loops of `lookup` and `dir_add` where it happens.  The free map is
written back by `bitmap_write`, whose last partial sector needs a bounce buffer too
(`bitmapWrite`); when that `malloc` fails `free_map_allocate` clears its sectors again and fails,
and `free_map_release` ignores it.  The free map's file is open from `free_map_open` on and never
denies writes; the disk itself does not fail.  Offsets in the directory count slots.

A failed `ASSERT` makes a function return `none`: `free_map_release` asserts that its sectors are
in use, `inode_deny_write` and `inode_allow_write` that `deny_write_cnt` stays within
`0 .. open_cnt`.  An inode or a file is named by its sector or by its number; NULL is `none`.

## Results

* `failed_create_leaks_sectors` — when `filesys_create` fails at `dir_add` after `inode_create`
  allocated the data sectors, those sectors stay marked in the free map.
* `dirAdd_duplicates_name` — when the read of the first slot in `lookup` fails, `dir_add` enters
  a name that the directory already holds, in the first free slot.
* `dirAdd_overwrites_slot` — when `lookup` reads every slot but the free-slot loop's first read
  fails, `dir_add` writes over slot 0, in use or not.
-/

set_option autoImplicit false

namespace Pintos.Filesys

/-- `BLOCK_SECTOR_SIZE`. -/
def BLOCK_SECTOR_SIZE : Nat := 512

/-- `FREE_MAP_SECTOR`. -/
def FREE_MAP_SECTOR : Nat := 0

/-- `ROOT_DIR_SECTOR`. -/
def ROOT_DIR_SECTOR : Nat := 1

/-- `NAME_MAX`. -/
def NAME_MAX : Nat := 14

/-- `bytes_to_sectors`. -/
def bytesToSectors (size : Nat) : Nat := (size + BLOCK_SECTOR_SIZE - 1) / BLOCK_SECTOR_SIZE

/-- `struct inode_disk`: where the data of a file lies. -/
structure InodeDisk where
  start : Nat
  length : Nat
  deriving DecidableEq, Repr

/-- `struct inode`. -/
structure Inode where
  openCnt : Nat
  denyWriteCnt : Nat
  removed : Bool
  data : InodeDisk
  deriving DecidableEq, Repr

/-- `struct dir_entry`. -/
structure DirEntry where
  inodeSector : Nat
  name : String
  inUse : Bool
  deriving DecidableEq, Repr

/-- `struct file`. -/
structure File where
  /-- The sector of its inode. -/
  inode : Nat
  denyWrite : Bool
  refCount : Int
  deriving DecidableEq, Repr

/-- The file system. -/
structure Fs where
  freeMap : Bitmap
  /-- The inodes on disk, by sector. -/
  disk : Nat → InodeDisk
  /-- `open_inodes`, by sector. -/
  openInodes : Nat → Option Inode
  /-- The slots of the root directory, in file order. -/
  root : List DirEntry
  files : Nat → Option File
  /-- The number of the next `struct file` to allocate. -/
  nextFile : Nat
  /-- Whether each coming `malloc` or `calloc` succeeds, in order; once the list is used up every
  one does. -/
  allocs : List Bool

namespace Fs

/-- `malloc` or `calloc`: whether it succeeds, and the outcomes left. -/
def malloc (s : Fs) : Bool × Fs :=
  match s.allocs with
  | [] => (true, s)
  | ok :: rest => (ok, { s with allocs := rest })

/-- Set the open inode of a sector. -/
def setInode (s : Fs) (sector : Nat) (i : Option Inode) : Fs :=
  { s with openInodes := Function.update s.openInodes sector i }

/-- Set a `struct file`. -/
def setFile (s : Fs) (f : Nat) (file : Option File) : Fs :=
  { s with files := Function.update s.files f file }

theorem malloc_of_nil {s : Fs} (h : s.allocs = []) : s.malloc = (true, s) := by
  simp [malloc, h]

/-- `malloc` uses up at most the first outcome, and changes nothing else. -/
theorem malloc_cases (s : Fs) :
    ∃ ok al, s.malloc = (ok, { s with allocs := al }) ∧ al <:+ s.allocs := by
  unfold malloc
  split
  · rename_i h
    exact ⟨true, s.allocs, rfl, List.suffix_refl _⟩
  · rename_i ok rest h
    exact ⟨ok, rest, rfl, h ▸ List.suffix_cons ok rest⟩

end Fs

/-! ## The free map -/

/-- `bitmap_write (free_map, free_map_file)`: `inode_write_at` of the bitmap's `byte_cnt` bytes at
offset 0 of the free map's file, which is as long.  Whole sectors go to the disk directly; a last
partial sector goes through a bounce buffer, and when its `malloc` fails the write is short and
`bitmap_write` returns false. -/
def bitmapWrite (s : Fs) : Bool × Fs :=
  if byteCnt s.freeMap.bitCnt % BLOCK_SECTOR_SIZE = 0 then (true, s) else s.malloc

/-- `free_map_allocate`: the first of `cnt` free sectors in a row, now marked, or none; when
`bitmap_write` fails the sectors are cleared again. -/
def freeMapAllocate (cnt : Nat) (s : Fs) : Option Nat × Fs :=
  match s.freeMap.bitmapScanAndFlip 0 cnt false with
  | (some sector, m) =>
    match bitmapWrite { s with freeMap := m } with
    | (true, s₁) => (some sector, s₁)
    | (false, s₁) => (none, { s₁ with freeMap := s₁.freeMap.bitmapSetMultiple sector cnt false })
  | (none, _) => (none, s)

/-- `free_map_release`; what `bitmap_write` returns is ignored. -/
def freeMapRelease (sector cnt : Nat) (s : Fs) : Option Fs :=
  if s.freeMap.bitmapAll sector cnt then
    some (bitmapWrite { s with freeMap := s.freeMap.bitmapSetMultiple sector cnt false }).2
  else none

/-! ## Inodes -/

/-- `inode_create`: allocate the data sectors and write the inode. -/
def inodeCreate (sector length : Nat) (s : Fs) : Bool × Fs :=
  match s.malloc with
  | (false, s₁) => (false, s₁)
  | (true, s₁) =>
    match freeMapAllocate (bytesToSectors length) s₁ with
    | (some start, s₂) =>
      (true, { s₂ with disk := Function.update s₂.disk sector ⟨start, length⟩ })
    | (none, s₂) => (false, s₂)

/-- `inode_open`: the inode of a sector, or NULL when `malloc` fails. -/
def inodeOpen (sector : Nat) (s : Fs) : Option Nat × Fs :=
  match s.openInodes sector with
  | some i => (some sector, s.setInode sector (some { i with openCnt := i.openCnt + 1 }))
  | none =>
    match s.malloc with
    | (false, s₁) => (none, s₁)
    | (true, s₁) => (some sector, s₁.setInode sector (some ⟨1, 0, false, s₁.disk sector⟩))

/-- `inode_close`. -/
def inodeClose (inode : Option Nat) (s : Fs) : Option Fs :=
  match inode with
  | none => some s
  | some sector =>
    match s.openInodes sector with
    | none => some s
    | some i =>
      if i.openCnt - 1 = 0 then
        let s₁ := s.setInode sector none
        if i.removed then do
          let s₂ ← freeMapRelease sector 1 s₁
          freeMapRelease i.data.start (bytesToSectors i.data.length) s₂
        else some s₁
      else some (s.setInode sector (some { i with openCnt := i.openCnt - 1 }))

/-- `inode_remove`. -/
def inodeRemove (sector : Nat) (s : Fs) : Fs :=
  match s.openInodes sector with
  | some i => s.setInode sector (some { i with removed := true })
  | none => s

/-- `inode_deny_write`. -/
def inodeDenyWrite (sector : Nat) (s : Fs) : Option Fs :=
  match s.openInodes sector with
  | some i =>
    if i.denyWriteCnt + 1 ≤ i.openCnt then
      some (s.setInode sector (some { i with denyWriteCnt := i.denyWriteCnt + 1 }))
    else none
  | none => some s

/-- `inode_allow_write`. -/
def inodeAllowWrite (sector : Nat) (s : Fs) : Option Fs :=
  match s.openInodes sector with
  | some i =>
    if 0 < i.denyWriteCnt ∧ i.denyWriteCnt ≤ i.openCnt then
      some (s.setInode sector (some { i with denyWriteCnt := i.denyWriteCnt - 1 }))
    else none
  | none => some s

/-! ## The root directory -/

/-- `inode_read_at (dir->inode, &e, sizeof e, ofs)` of a slot: through a bounce buffer, and
short when its `malloc` fails.  A read past the last slot reads nothing and allocates nothing:
the loops below stop there by themselves. -/
def readSlot (e : DirEntry) (s : Fs) : Option DirEntry × Fs :=
  match s.malloc with
  | (true, s₁) => (some e, s₁)
  | (false, s₁) => (none, s₁)

/-- The root directory's inode denies writes. -/
def rootDenied (s : Fs) : Bool :=
  match s.openInodes ROOT_DIR_SECTOR with
  | some i => i.denyWriteCnt != 0
  | none => false

/-- `inode_write_at (dir->inode, &e, sizeof e, ofs)`: nothing while the inode denies writes or
past the last slot, since the directory does not grow; otherwise through a bounce buffer, and
nothing when its `malloc` fails. -/
def writeSlot (ofs : Nat) (e : DirEntry) (s : Fs) : Bool × Fs :=
  if rootDenied s then (false, s)
  else if ofs < s.root.length then
    match s.malloc with
    | (true, s₁) => (true, { s₁ with root := s₁.root.set ofs e })
    | (false, s₁) => (false, s₁)
  else (false, s)

/-- The loop of `lookup` over the slots from offset `ofs` on: it stops at the first slot in use
with the name, or at the first read that comes back short. -/
def lookupFrom (name : String) : List DirEntry → Nat → Fs → Option (DirEntry × Nat) × Fs
  | [], _, s => (none, s)
  | e :: es, ofs, s =>
    match readSlot e s with
    | (none, s₁) => (none, s₁)
    | (some e, s₁) =>
      if e.inUse && e.name == name then (some (e, ofs), s₁) else lookupFrom name es (ofs + 1) s₁

/-- `lookup`: the entry of the name and its offset, when the loop finds one. -/
def lookup (name : String) (s : Fs) : Option (DirEntry × Nat) × Fs := lookupFrom name s.root 0 s

/-- The loop of `dir_add` that looks for a free slot from offset `ofs` on: it stops at the first
slot not in use, or at the first read that comes back short, past the last slot or where a
`malloc` failed. -/
def freeSlotFrom : List DirEntry → Nat → Fs → Nat × Fs
  | [], ofs, s => (ofs, s)
  | e :: es, ofs, s =>
    match readSlot e s with
    | (none, s₁) => (ofs, s₁)
    | (some e, s₁) => if !e.inUse then (ofs, s₁) else freeSlotFrom es (ofs + 1) s₁

/-- `dir_open_root`: the root inode and the `struct dir`; NULL when an allocation fails, after
`dir_open` has closed the inode again. -/
def dirOpenRoot (s : Fs) : Option (Bool × Fs) :=
  match inodeOpen ROOT_DIR_SECTOR s with
  | (some _, s₁) =>
    match s₁.malloc with
    | (true, s₂) => some (true, s₂)
    | (false, s₂) => (inodeClose (some ROOT_DIR_SECTOR) s₂).map fun s₃ => (false, s₃)
  | (none, s₁) => some (false, s₁)

/-- `dir_close` of the root directory. -/
def dirCloseRoot (s : Fs) : Option Fs := inodeClose (some ROOT_DIR_SECTOR) s

/-- `dir_lookup`: the inode of the name, opened, or NULL. -/
def dirLookup (name : String) (s : Fs) : Option Nat × Fs :=
  match lookup name s with
  | (some (e, _), s₁) => inodeOpen e.inodeSector s₁
  | (none, s₁) => (none, s₁)

/-- `dir_add`: the slot it writes is the one where the free-slot loop stopped. -/
def dirAdd (name : String) (inodeSector : Nat) (s : Fs) : Bool × Fs :=
  if name.isEmpty ∨ name.utf8ByteSize > NAME_MAX then (false, s)
  else
    match lookup name s with
    | (some _, s₁) => (false, s₁)
    | (none, s₁) =>
      let (ofs, s₂) := freeSlotFrom s₁.root 0 s₁
      writeSlot ofs ⟨inodeSector, name, true⟩ s₂

/-- `dir_remove`. -/
def dirRemove (name : String) (s : Fs) : Option (Bool × Fs) :=
  match lookup name s with
  | (none, s₁) => some (false, s₁)
  | (some (e, ofs), s₁) =>
    match inodeOpen e.inodeSector s₁ with
    | (none, s₂) => some (false, s₂)
    | (some sector, s₂) =>
      match writeSlot ofs { e with inUse := false } s₂ with
      | (true, s₃) => (inodeClose (some sector) (inodeRemove sector s₃)).map fun s₄ => (true, s₄)
      | (false, s₃) => (inodeClose (some sector) s₃).map fun s₄ => (false, s₄)

/-! ## Files -/

/-- `file_open`: takes the inode; NULL if it is NULL or `calloc` fails. -/
def fileOpen (inode : Option Nat) (s : Fs) : Option (Option Nat × Fs) :=
  match s.malloc, inode with
  | (true, s₁), some sector =>
    some (some s₁.nextFile,
      { s₁.setFile s₁.nextFile (some ⟨sector, false, 1⟩) with nextFile := s₁.nextFile + 1 })
  | (true, s₁), none => some (none, s₁)
  | (false, s₁), _ => (inodeClose inode s₁).map fun s₂ => (none, s₂)

/-- `file_ref`. -/
def fileRef (f : Nat) (s : Fs) : Fs :=
  match s.files f with
  | some file => s.setFile f (some { file with refCount := file.refCount + 1 })
  | none => s

/-- `file_deny_write`. -/
def fileDenyWrite (f : Nat) (s : Fs) : Option Fs :=
  match s.files f with
  | some file =>
    if file.denyWrite then some s
    else inodeDenyWrite file.inode (s.setFile f (some { file with denyWrite := true }))
  | none => none

/-- `file_allow_write`. -/
def fileAllowWrite (f : Nat) (s : Fs) : Option Fs :=
  match s.files f with
  | some file =>
    if file.denyWrite then inodeAllowWrite file.inode (s.setFile f (some { file with denyWrite := false }))
    else some s
  | none => none

/-- `file_close`. -/
def fileClose (f : Option Nat) (s : Fs) : Option Fs :=
  match f with
  | none => some s
  | some f =>
    match s.files f with
    | none => some s
    | some file =>
      if file.refCount - 1 ≤ 0 then do
        let s₁ ← fileAllowWrite f (s.setFile f (some { file with refCount := file.refCount - 1 }))
        let s₂ ← inodeClose (some file.inode) s₁
        pure (s₂.setFile f none)
      else some (s.setFile f (some { file with refCount := file.refCount - 1 }))

/-! ## `filesys.c` -/

/-- `filesys_create`. -/
def filesysCreate (name : String) (initialSize : Nat) (s : Fs) : Option (Bool × Fs) :=
  (dirOpenRoot s).bind fun
  | (false, s₁) => some (false, s₁)
  | (true, s₁) =>
    let (success, inodeSector, s₂) :=
      match freeMapAllocate 1 s₁ with
      | (none, s₂) => (false, 0, s₂)
      | (some inodeSector, s₂) =>
        match inodeCreate inodeSector initialSize s₂ with
        | (false, s₃) => (false, inodeSector, s₃)
        | (true, s₃) =>
          let (added, s₄) := dirAdd name inodeSector s₃
          (added, inodeSector, s₄)
    let released := if !success && inodeSector ≠ 0 then freeMapRelease inodeSector 1 s₂ else some s₂
    (released.bind dirCloseRoot).map fun s₃ => (success, s₃)

/-- `filesys_open`. -/
def filesysOpen (name : String) (s : Fs) : Option (Option Nat × Fs) :=
  (dirOpenRoot s).bind fun
  | (false, s₁) => fileOpen none s₁
  | (true, s₁) =>
    let (inode, s₂) := dirLookup name s₁
    (dirCloseRoot s₂).bind (fileOpen inode)

/-- `filesys_remove`. -/
def filesysRemove (name : String) (s : Fs) : Option (Bool × Fs) :=
  (dirOpenRoot s).bind fun
  | (false, s₁) => some (false, s₁)
  | (true, s₁) => (dirRemove name s₁).bind fun (ok, s₂) => (dirCloseRoot s₂).map fun s₃ => (ok, s₃)

/-! ## What each read and write does

A read of a slot, the loops of `lookup` and `dir_add` and the free map's write-back use up
allocation outcomes and change nothing else (`UsesAllocs`).  With no outcome left to fail, every
`malloc` succeeds and they change nothing at all. -/

section Reads

variable {s t : Fs}

/-- `t` is `s` with some of its first allocation outcomes used up. -/
def UsesAllocs (s t : Fs) : Prop := ∃ al, al <:+ s.allocs ∧ t = { s with allocs := al }

theorem UsesAllocs.refl (s : Fs) : UsesAllocs s s := ⟨s.allocs, List.suffix_refl _, rfl⟩

theorem UsesAllocs.trans {u : Fs} (h₁ : UsesAllocs s t) (h₂ : UsesAllocs t u) :
    UsesAllocs s u := by
  obtain ⟨al, hal, rfl⟩ := h₁
  obtain ⟨al', hal', rfl⟩ := h₂
  exact ⟨al', hal'.trans hal, rfl⟩

theorem UsesAllocs.of_nil (h : UsesAllocs s t) (hnil : s.allocs = []) : t = s := by
  obtain ⟨al, hal, rfl⟩ := h
  rw [hnil] at hal
  rw [List.eq_nil_of_suffix_nil hal, ← hnil]

theorem usesAllocs_malloc (s : Fs) : UsesAllocs s s.malloc.2 := by
  obtain ⟨ok, al, hm, hal⟩ := s.malloc_cases
  exact ⟨al, hal, by rw [hm]⟩

/-- A read of a slot returns the slot, or nothing when its `malloc` fails. -/
theorem readSlot_cases (e : DirEntry) (s : Fs) :
    ∃ t, UsesAllocs s t ∧ (readSlot e s = (none, t) ∨ readSlot e s = (some e, t)) := by
  have hm := usesAllocs_malloc s
  unfold readSlot
  split <;> rename_i s₁ hs₁ <;> rw [hs₁] at hm
  · exact ⟨s₁, hm, .inr rfl⟩
  · exact ⟨s₁, hm, .inl rfl⟩

theorem readSlot_of_nil (e : DirEntry) (hnil : s.allocs = []) : readSlot e s = (some e, s) := by
  simp [readSlot, Fs.malloc_of_nil hnil]

/-- What the loop of `lookup` can return: an entry it finds is the slot at its offset, in use
with the name. -/
theorem lookupFrom_spec (name : String) :
    ∀ (l : List DirEntry) (ofs : Nat) (s : Fs), UsesAllocs s (lookupFrom name l ofs s).2 ∧
      ∀ e ofs', (lookupFrom name l ofs s).1 = some (e, ofs') →
        ∃ (i : Nat) (hi : i < l.length), ofs' = ofs + i ∧ l[i] = e ∧ e.inUse = true ∧
          e.name = name
  | [], _, s => ⟨UsesAllocs.refl s, fun _ _ h => by cases h⟩
  | e :: es, ofs, s => by
    obtain ⟨t, hu, hr | hr⟩ := readSlot_cases e s <;> simp only [lookupFrom, hr]
    · exact ⟨hu, fun _ _ h => by cases h⟩
    · split
      · -- this slot: in use with the name
        rename_i hmatch
        simp only [Bool.and_eq_true, beq_iff_eq] at hmatch
        refine ⟨hu, fun e' ofs' h => ?_⟩
        simp only [Option.some.injEq, Prod.mk.injEq] at h
        obtain ⟨rfl, rfl⟩ := h
        exact ⟨0, by simp, rfl, rfl, hmatch⟩
      · -- the loop goes on with the rest of the slots
        obtain ⟨hu', hfound⟩ := lookupFrom_spec name es (ofs + 1) t
        refine ⟨hu.trans hu', fun e' ofs' h => ?_⟩
        obtain ⟨i, hi, rfl, hei, hin⟩ := hfound e' ofs' h
        exact ⟨i + 1, by simpa using hi, by omega, hei, hin⟩

/-- With no outcome left to fail, the loop of `lookup` changes nothing and finds the first slot
in use with the name. -/
theorem lookupFrom_of_nil (name : String) (hnil : s.allocs = []) :
    ∀ (l : List DirEntry) (ofs : Nat), (lookupFrom name l ofs s).2 = s ∧
      (lookupFrom name l ofs s).1.map Prod.fst = Slots.lookup DirEntry.inUse DirEntry.name name l
  | [], _ => ⟨rfl, rfl⟩
  | e :: es, ofs => by
    simp only [lookupFrom, readSlot_of_nil e hnil]
    split
    · rename_i hmatch
      simp [Slots.lookup, hmatch]
    · rename_i hmatch
      obtain ⟨h₁, h₂⟩ := lookupFrom_of_nil name hnil es (ofs + 1)
      refine ⟨h₁, ?_⟩
      rw [h₂]
      simp [Slots.lookup, hmatch]

theorem lookup_spec (name : String) (s : Fs) :
    UsesAllocs s (lookup name s).2 ∧
      ∀ e ofs, (lookup name s).1 = some (e, ofs) →
        ∃ hofs : ofs < s.root.length, s.root[ofs] = e ∧ e.inUse = true ∧ e.name = name := by
  obtain ⟨hu, hfound⟩ := lookupFrom_spec name s.root 0 s
  refine ⟨hu, fun e ofs h => ?_⟩
  obtain ⟨i, hi, rfl, hei, hin⟩ := hfound e ofs h
  simp only [Nat.zero_add]
  exact ⟨hi, hei, hin⟩

/-- What the free-slot loop of `dir_add` can return: an offset from `ofs` to past the last slot. -/
theorem freeSlotFrom_spec :
    ∀ (l : List DirEntry) (ofs : Nat) (s : Fs), UsesAllocs s (freeSlotFrom l ofs s).2 ∧
      ofs ≤ (freeSlotFrom l ofs s).1 ∧ (freeSlotFrom l ofs s).1 ≤ ofs + l.length
  | [], ofs, s => ⟨UsesAllocs.refl s, le_rfl, by simp [freeSlotFrom]⟩
  | e :: es, ofs, s => by
    obtain ⟨t, hu, hr | hr⟩ := readSlot_cases e s <;> simp only [freeSlotFrom, hr]
    · exact ⟨hu, le_rfl, by simp⟩
    · split
      · exact ⟨hu, le_rfl, by simp⟩
      · obtain ⟨hu', h₁, h₂⟩ := freeSlotFrom_spec es (ofs + 1) t
        refine ⟨hu.trans hu', by omega, ?_⟩
        simp only [List.length_cons]
        omega

/-- With no outcome left to fail, the free-slot loop changes nothing and stops at a free slot or
past the last one. -/
theorem freeSlotFrom_of_nil (hnil : s.allocs = []) :
    ∀ (l : List DirEntry) (ofs : Nat), (freeSlotFrom l ofs s).2 = s ∧
      ∀ i (hi : i < l.length), (freeSlotFrom l ofs s).1 = ofs + i → l[i].inUse = false
  | [], _ => ⟨rfl, fun _ hi => by simp at hi⟩
  | e :: es, ofs => by
    simp only [freeSlotFrom, readSlot_of_nil e hnil]
    split
    · rename_i hfree
      refine ⟨rfl, fun i hi h => ?_⟩
      obtain rfl : i = 0 := by omega
      simpa using hfree
    · rename_i hused
      obtain ⟨h₁, h₂⟩ := freeSlotFrom_of_nil hnil es (ofs + 1)
      refine ⟨h₁, fun i hi h => ?_⟩
      -- the loop went past slot 0, which is in use
      have hlo := (freeSlotFrom_spec es (ofs + 1) s).2.1
      obtain ⟨j, rfl⟩ : ∃ j, i = j + 1 := ⟨i - 1, by omega⟩
      exact h₂ j (by simpa using hi) (by omega)

/-- What a write of a slot can do: nothing but use up outcomes, or write the slot, which lies in
the directory, while writes are not denied. -/
theorem writeSlot_cases {ofs : Nat} {e : DirEntry} {b : Bool} (h : writeSlot ofs e s = (b, t)) :
    (b = false ∧ UsesAllocs s t) ∨
    (b = true ∧ rootDenied s = false ∧ ofs < s.root.length ∧
      ∃ al, al <:+ s.allocs ∧ t = { s with root := s.root.set ofs e, allocs := al }) := by
  unfold writeSlot at h
  split at h
  · cases h
    exact .inl ⟨rfl, UsesAllocs.refl s⟩
  · rename_i hdeny
    split at h
    · rename_i hofs
      obtain ⟨ok, al, hm, hal⟩ := s.malloc_cases
      rw [hm] at h
      cases ok <;> dsimp only at h <;> cases h
      · exact .inl ⟨rfl, al, hal, rfl⟩
      · exact .inr ⟨rfl, by simpa using hdeny, hofs, al, hal, rfl⟩
    · cases h
      exact .inl ⟨rfl, UsesAllocs.refl s⟩

theorem writeSlot_of_nil {ofs : Nat} (e : DirEntry) (hnil : s.allocs = [])
    (hdeny : rootDenied s = false) (hofs : ofs < s.root.length) :
    writeSlot ofs e s = (true, { s with root := s.root.set ofs e }) := by
  simp [writeSlot, hdeny, hofs, Fs.malloc_of_nil hnil]

theorem usesAllocs_bitmapWrite (s : Fs) : UsesAllocs s (bitmapWrite s).2 := by
  unfold bitmapWrite
  split
  · exact UsesAllocs.refl s
  · exact usesAllocs_malloc s

theorem bitmapWrite_of_nil (hnil : s.allocs = []) : bitmapWrite s = (true, s) := by
  simp [bitmapWrite, Fs.malloc_of_nil hnil]

/-- What `free_map_allocate` can do: find no free run and change nothing, or mark the first free
run of `cnt` sectors, or, when the write-back fails, clear it again. -/
theorem freeMapAllocate_cases {cnt : Nat} {r : Option Nat} (h : freeMapAllocate cnt s = (r, t)) :
    (r = none ∧ t = s) ∨
    ∃ i al, i + cnt ≤ s.freeMap.bitCnt ∧
      (∀ y, i ≤ y → y < i + cnt → s.freeMap.bitmapTest y = false) ∧ al <:+ s.allocs ∧
      ((r = some i ∧ t = { s with freeMap := s.freeMap.bitmapSetMultiple i cnt true, allocs := al }) ∨
        (r = none ∧ t = { s with allocs := al, freeMap :=
          (s.freeMap.bitmapSetMultiple i cnt true).bitmapSetMultiple i cnt false })) := by
  unfold freeMapAllocate at h
  rcases hscan : s.freeMap.bitmapScan 0 cnt false with _ | i
  · simp only [Bitmap.bitmapScanAndFlip, hscan] at h
    cases h
    exact .inl ⟨rfl, rfl⟩
  · simp only [Bitmap.bitmapScanAndFlip, hscan, Bool.not_false] at h
    obtain ⟨-, hfit, hclear, -⟩ := s.freeMap.bitmapScan_eq_some hscan
    -- the write-back of the marked map uses up outcomes only
    obtain ⟨al, hal, hw⟩ :=
      usesAllocs_bitmapWrite { s with freeMap := s.freeMap.bitmapSetMultiple i cnt true }
    rcases hb : bitmapWrite { s with freeMap := s.freeMap.bitmapSetMultiple i cnt true } with
      ⟨ok, s₁⟩
    rw [hb] at h hw
    dsimp only at hw
    subst hw
    refine .inr ⟨i, al, hfit, fun y h₁ h₂ => hclear y (by omega) h₂, hal, ?_⟩
    cases ok <;> dsimp only at h <;> cases h
    · exact .inr ⟨rfl, rfl⟩
    · exact .inl ⟨rfl, rfl⟩

/-- With no outcome left to fail, `free_map_allocate` marks the free run its scan finds. -/
theorem freeMapAllocate_of_scan {cnt i : Nat} (hnil : s.allocs = [])
    (h : s.freeMap.bitmapScan 0 cnt false = some i) :
    freeMapAllocate cnt s = (some i, { s with freeMap := s.freeMap.bitmapSetMultiple i cnt true }) := by
  simp [freeMapAllocate, Bitmap.bitmapScanAndFlip, h, bitmapWrite_of_nil (s := { s with
    freeMap := s.freeMap.bitmapSetMultiple i cnt true }) hnil]

/-- What `free_map_release` does when its `ASSERT` holds: clear the sectors and use up the
write-back's outcome. -/
theorem freeMapRelease_cases {sector cnt : Nat} (h : freeMapRelease sector cnt s = some t) :
    s.freeMap.bitmapAll sector cnt = true ∧ ∃ al, al <:+ s.allocs ∧
      t = { s with freeMap := s.freeMap.bitmapSetMultiple sector cnt false, allocs := al } := by
  unfold freeMapRelease at h
  split at h
  · rename_i hall
    cases h
    obtain ⟨al, hal, hw⟩ :=
      usesAllocs_bitmapWrite { s with freeMap := s.freeMap.bitmapSetMultiple sector cnt false }
    exact ⟨hall, al, hal, hw⟩
  · cases h

end Reads

/-! ## What leaves the `struct file`s alone

Only `file_open`, `file_ref`, the write-denial calls and `file_close` touch the `struct file`s;
the inode and directory layers leave them and the next file number as they were. -/

section Files

variable {s s' : Fs}

/-- `t` has the `struct file`s of `s` and the same next file number. -/
def FilesOf (s t : Fs) : Prop := t.files = s.files ∧ t.nextFile = s.nextFile

theorem FilesOf.refl (s : Fs) : FilesOf s s := ⟨rfl, rfl⟩

theorem FilesOf.trans {t u : Fs} (h₁ : FilesOf s t) (h₂ : FilesOf t u) : FilesOf s u :=
  ⟨h₂.1.trans h₁.1, h₂.2.trans h₁.2⟩

theorem filesOf_malloc (s : Fs) : FilesOf s s.malloc.2 := by
  unfold Fs.malloc
  split <;> exact ⟨rfl, rfl⟩

theorem filesOf_setInode (s : Fs) (sector : Nat) (i : Option Inode) :
    FilesOf s (s.setInode sector i) := ⟨rfl, rfl⟩

theorem FilesOf.of_usesAllocs (h : UsesAllocs s s') : FilesOf s s' := by
  obtain ⟨al, -, rfl⟩ := h
  exact ⟨rfl, rfl⟩

theorem filesOf_freeMapRelease {sector cnt : Nat} (h : freeMapRelease sector cnt s = some s') :
    FilesOf s s' := by
  obtain ⟨-, al, -, rfl⟩ := freeMapRelease_cases h
  exact ⟨rfl, rfl⟩

theorem filesOf_inodeOpen (sector : Nat) (s : Fs) : FilesOf s (inodeOpen sector s).2 := by
  unfold inodeOpen
  split
  · exact filesOf_setInode _ _ _
  · split <;> rename_i h
    · simpa [h] using filesOf_malloc s
    · exact (filesOf_malloc s).trans (by rw [h]; exact filesOf_setInode _ _ _)

theorem filesOf_inodeClose {inode : Option Nat} (h : inodeClose inode s = some s') :
    FilesOf s s' := by
  unfold inodeClose at h
  split at h
  · cases h
    exact FilesOf.refl s
  · split at h
    · cases h
      exact FilesOf.refl s
    · split at h
      · -- the last opener: the inode is dropped, and its sectors released if it was removed
        split at h
        · obtain ⟨s₂, h₂, h₃⟩ := Option.bind_eq_some_iff.mp h
          exact ((filesOf_setInode _ _ _).trans (filesOf_freeMapRelease h₂)).trans
            (filesOf_freeMapRelease h₃)
        · cases h
          exact filesOf_setInode _ _ _
      · cases h
        exact filesOf_setInode _ _ _

theorem filesOf_dirOpenRoot {b : Bool} (h : dirOpenRoot s = some (b, s')) : FilesOf s s' := by
  unfold dirOpenRoot at h
  have hopen := filesOf_inodeOpen ROOT_DIR_SECTOR s
  split at h <;> rename_i s₁ hs₁ <;> rw [hs₁] at hopen
  · split at h <;> rename_i s₂ hs₂
    · cases h
      simpa [hs₂] using hopen.trans (filesOf_malloc s₁)
    · obtain ⟨s₃, h₃, h⟩ := Option.map_eq_some_iff.mp h
      cases h
      have hm : FilesOf s₁ s₂ := by simpa [hs₂] using filesOf_malloc s₁
      exact (hopen.trans hm).trans (filesOf_inodeClose h₃)
  · cases h
    exact hopen

theorem filesOf_dirLookup (name : String) (s : Fs) : FilesOf s (dirLookup name s).2 := by
  have hl := FilesOf.of_usesAllocs (lookup_spec name s).1
  unfold dirLookup
  split <;> rename_i hs <;> rw [hs] at hl
  · exact hl.trans (filesOf_inodeOpen _ _)
  · exact hl

/-- `file_ref` raises the `ref_count` of its `struct file`, if there is one. -/
theorem fileRef_refCount (g f : Nat) (s : Fs) :
    ((fileRef g s).files f).map File.refCount =
      ((s.files f).map File.refCount).map (· + if g = f then 1 else 0) := by
  unfold fileRef
  split <;> rename_i hg
  · by_cases hgf : g = f
    · subst hgf
      simp [Fs.setFile, hg]
    · simp [Fs.setFile, Function.update_of_ne (Ne.symm hgf), hgf, Function.comp_def]
  · by_cases hgf : g = f
    · subst hgf
      simp [hg]
    · simp [hgf, Function.comp_def]

/-- `file_open` hands out the next file number, with a `struct file` of `ref_count` 1. -/
theorem fileOpen_some {inode : Option Nat} {f : Nat} (h : fileOpen inode s = some (some f, s')) :
    f = s.nextFile ∧ ∃ sector, s'.files f = some ⟨sector, false, 1⟩ := by
  have hm := filesOf_malloc s
  unfold fileOpen at h
  rcases hs₁ : s.malloc with ⟨ok, s₁⟩
  rw [hs₁] at h hm
  cases ok <;> cases inode <;> simp only [Option.some.injEq, Prod.mk.injEq, reduceCtorEq,
    false_and, Option.map_eq_some_iff, and_false, exists_false] at h
  rename_i sector
  obtain ⟨rfl, rfl⟩ := h
  exact ⟨hm.2, sector, by simp [Fs.setFile]⟩

/-- `filesys_open` returns a fresh `struct file`: the next file number, with `ref_count` 1. -/
theorem filesysOpen_some {name : String} {f : Nat} (h : filesysOpen name s = some (some f, s')) :
    f = s.nextFile ∧ ∃ sector, s'.files f = some ⟨sector, false, 1⟩ := by
  obtain ⟨⟨b, s₁⟩, h₁, h⟩ := Option.bind_eq_some_iff.mp h
  have hf₁ := filesOf_dirOpenRoot h₁
  cases b with
  | false => simpa [hf₁.2] using fileOpen_some h
  | true =>
    -- `dir_lookup`, then `dir_close`, then `file_open`
    simp only at h
    obtain ⟨s₃, h₃, h⟩ := Option.bind_eq_some_iff.mp h
    have hf₂ := filesOf_dirLookup name s₁
    have hf₃ := filesOf_inodeClose h₃
    obtain ⟨hnext, hfile⟩ := fileOpen_some h
    exact ⟨hnext.trans ((hf₁.trans (hf₂.trans hf₃)).2), hfile⟩

end Files

/-! ## A failed `filesys_create` -/

section Create

variable {s : Fs}

theorem inodeCreate_of_scan {sector length start : Nat} (hnil : s.allocs = [])
    (h : s.freeMap.bitmapScan 0 (bytesToSectors length) false = some start) :
    ∃ s', inodeCreate sector length s = (true, s') ∧
      s'.freeMap = s.freeMap.bitmapSetMultiple start (bytesToSectors length) true ∧
      s'.openInodes = s.openInodes ∧ s'.root = s.root ∧ s'.allocs = [] := by
  simp only [inodeCreate, Fs.malloc_of_nil hnil, freeMapAllocate_of_scan hnil h]
  exact ⟨_, rfl, rfl, rfl, rfl, hnil⟩

/-- With no outcome left to fail, `lookup` finds a name exactly when a slot in use holds it. -/
theorem lookup_isSome_of_nil (name : String) (hnil : s.allocs = []) :
    (lookup name s).1.isSome =
      (Slots.lookup DirEntry.inUse DirEntry.name name s.root).isSome := by
  rw [← (lookupFrom_of_nil name hnil s.root 0).2, Option.isSome_map]
  rfl

theorem dirAdd_of_lookup {name : String} {sector : Nat} (hnil : s.allocs = [])
    (h : (lookup name s).1.isSome = true) : dirAdd name sector s = (false, s) := by
  obtain ⟨⟨e, ofs⟩, he⟩ := Option.isSome_iff_exists.mp h
  have hl : lookup name s = (some (e, ofs), s) :=
    Prod.ext he (lookupFrom_of_nil name hnil s.root 0).1
  unfold dirAdd
  rw [hl]
  split <;> rfl

theorem dirOpenRoot_of_closed (hroot : s.openInodes ROOT_DIR_SECTOR = none) (hnil : s.allocs = []) :
    dirOpenRoot s =
      some (true, s.setInode ROOT_DIR_SECTOR (some ⟨1, 0, false, s.disk ROOT_DIR_SECTOR⟩)) := by
  simp [dirOpenRoot, inodeOpen, hroot, Fs.malloc, Fs.setInode, hnil]

/-- A bit a failed `filesys_create` leaves set that it found clear: the data sectors of the
inode it created before `dir_add` refused the name. -/
theorem failed_create_leaks_sectors (name : String) (size k : Nat)
    (hdup : (lookup name s).1.isSome = true) (hsize : 0 < size)
    (hroot : s.openInodes ROOT_DIR_SECTOR = none) (hnil : s.allocs = [])
    (hused : ∀ j < k, s.freeMap.bitmapTest j = true)
    (hfree : ∀ j, k ≤ j → j < k + 1 + bytesToSectors size → s.freeMap.bitmapTest j = false)
    (hfit : k + 1 + bytesToSectors size ≤ s.freeMap.bitCnt) :
    ∃ s', filesysCreate name size s = some (false, s') ∧
      ∀ j, k + 1 ≤ j → j < k + 1 + bytesToSectors size →
        s.freeMap.bitmapTest j = false ∧ s'.freeMap.bitmapTest j = true := by
  have hn0 : 0 < bytesToSectors size := by
    simp only [bytesToSectors, BLOCK_SECTOR_SIZE]
    omega
  -- `dir_open_root`
  set s₁ : Fs := s.setInode ROOT_DIR_SECTOR (some ⟨1, 0, false, s.disk ROOT_DIR_SECTOR⟩) with hs₁
  have hopen := dirOpenRoot_of_closed hroot hnil
  rw [← hs₁] at hopen
  -- `free_map_allocate (1, &inode_sector)` takes sector `k`
  have hscan₁ : s₁.freeMap.bitmapScan 0 1 false = some k := by
    refine Bitmap.bitmapScan_zero_eq_of _ Nat.one_pos (by simp only [hs₁, Fs.setInode]; omega)
      (fun j hj => ?_) (fun j h1 h2 => ?_)
    · simp [hs₁, Fs.setInode, hused j hj]
    · simpa [hs₁, Fs.setInode, show j = k by omega] using hfree k le_rfl (by omega)
  set m₁ := s₁.freeMap.bitmapSetMultiple k 1 true with hm₁
  have hfit₁ : k + 1 ≤ s₁.freeMap.bitCnt := by simp only [hs₁, Fs.setInode]; omega
  have htest₁ : ∀ j, m₁.bitmapTest j = if k ≤ j ∧ j < k + 1 then true else s.freeMap.bitmapTest j :=
    fun j => by rw [hm₁, Bitmap.bitmapTest_setMultiple _ hfit₁]; rfl
  -- `inode_create` takes the data sectors after it
  have hfit₂ : k + 1 + bytesToSectors size ≤ m₁.bitCnt := by
    simp only [hm₁, Bitmap.bitCnt_setMultiple, hs₁, Fs.setInode]
    omega
  have hscan₂ : m₁.bitmapScan 0 (bytesToSectors size) false = some (k + 1) := by
    refine Bitmap.bitmapScan_zero_eq_of _ hn0 hfit₂ (fun j hj => ?_) (fun j h1 h2 => ?_)
    · rw [htest₁]
      by_cases hjk : j = k
      · simp [hjk]
      · rw [if_neg (by omega), hused j (by omega)]
        rfl
    · rw [htest₁, if_neg (by omega)]
      exact hfree j (by omega) h2
  obtain ⟨s₃, hcreate, hfm₃, hopen₃, hroot₃, hnil₃⟩ :=
    @inodeCreate_of_scan { s₁ with freeMap := m₁ } k _ _ hnil hscan₂
  simp only at hfm₃ hopen₃ hroot₃
  have hadd : dirAdd name k s₃ = (false, s₃) := dirAdd_of_lookup hnil₃ (by
    rw [lookup_isSome_of_nil name hnil₃, hroot₃, show s₁.root = s.root from rfl,
      ← lookup_isSome_of_nil name hnil]
    exact hdup)
  have hbits : ∀ j, k + 1 ≤ j → j < k + 1 + bytesToSectors size →
      s₃.freeMap.bitmapTest j = true := by
    intro j h1 h2
    rw [hfm₃, Bitmap.bitmapTest_setMultiple _ hfit₂, if_pos ⟨h1, h2⟩]
  -- `dir_close` closes the root inode and leaves the free map
  have hclose : ∀ t : Fs, t.openInodes = s₁.openInodes →
      dirCloseRoot t = some (t.setInode ROOT_DIR_SECTOR none) := by
    intro t ht
    simp [dirCloseRoot, inodeClose, ht, hs₁, Fs.setInode]
  simp only [filesysCreate, hopen, Option.bind_some, freeMapAllocate_of_scan (s := s₁) hnil hscan₁,
    ← hm₁, hcreate, hadd]
  by_cases hk : k = 0
  · subst hk
    simp only [Bool.not_false, ne_eq, not_true_eq_false, decide_false, Bool.and_false,
      Bool.false_eq_true, ↓reduceIte, Option.bind_some, hclose s₃ hopen₃, Option.map_some,
      Option.some.injEq, Prod.mk.injEq, true_and, exists_eq_left']
    intro j h1 h2
    exact ⟨hfree j (by omega) h2, hbits j h1 h2⟩
  · have hk1 : s₃.freeMap.bitmapTest k = true := by
      rw [hfm₃, Bitmap.bitmapTest_setMultiple _ hfit₂, if_neg (by omega), htest₁, if_pos (by omega)]
    have hall : s₃.freeMap.bitmapAll k 1 = true := by
      simp [Bitmap.bitmapAll, Bitmap.bitmapContains, hk1]
    have hfit₃ : k + 1 ≤ s₃.freeMap.bitCnt := by
      rw [hfm₃, Bitmap.bitCnt_setMultiple]
      omega
    simp only [hk, Bool.not_false, ne_eq, not_false_eq_true, decide_true, Bool.and_self,
      ↓reduceIte, freeMapRelease, hall, Option.bind_some,
      bitmapWrite_of_nil (s := { s₃ with freeMap := s₃.freeMap.bitmapSetMultiple k 1 false }) hnil₃]
    rw [hclose { s₃ with freeMap := s₃.freeMap.bitmapSetMultiple k 1 false } hopen₃]
    simp only [Option.map_some, Option.some.injEq, Prod.mk.injEq, true_and, exists_eq_left']
    intro j h1 h2
    refine ⟨hfree j (by omega) h2, ?_⟩
    simp only [Fs.setInode]
    rw [Bitmap.bitmapTest_setMultiple _ hfit₃, if_neg (by omega)]
    exact hbits j h1 h2

/-- Eight sectors: the free map, the root directory and the inode of an empty file `a`. -/
def dupFixture : Fs where
  freeMap := (Bitmap.bitmapCreate 8).bitmapSetMultiple 0 3 true
  disk := fun _ => ⟨0, 0⟩
  openInodes := fun _ => none
  root := [⟨2, "a", true⟩, ⟨0, "", false⟩]
  files := fun _ => none
  nextFile := 0
  allocs := []

/-- Creating `a` again with 512 bytes leaves sector 4 marked. -/
theorem failed_create_leaks_sectors_dup :
    ∃ s', filesysCreate "a" 512 dupFixture = some (false, s') ∧
      ∀ j, 3 + 1 ≤ j → j < 3 + 1 + bytesToSectors 512 →
        dupFixture.freeMap.bitmapTest j = false ∧ s'.freeMap.bitmapTest j = true :=
  failed_create_leaks_sectors (s := dupFixture) "a" 512 3 (by decide) (by decide) rfl (by decide)
    (by decide) (by decide) (by decide)

end Create

/-! ## `dir_add` after a failed read

The free-slot loop of `dir_add` takes a short read for the end of the directory, as the source's
comment says ("inode_read_at() will only return a short read at end of file").  A failed `malloc`
of the bounce buffer makes a read short too, in `lookup` and in that loop, and `dir_add` then
writes where it should not. -/

section FailedRead

variable {s : Fs}

/-- The names `dir_add` accepts: not empty, and at most `NAME_MAX` bytes. -/
def ValidName (name : String) : Prop := name.isEmpty = false ∧ name.utf8ByteSize ≤ NAME_MAX

theorem readSlot_of_ok {e : DirEntry} {ok : Bool} {rest : List Bool} (hal : s.allocs = ok :: rest) :
    readSlot e s = (if ok then some e else none, { s with allocs := rest }) := by
  cases ok <;> simp [readSlot, Fs.malloc, hal]

/-- `lookup` reads every slot when all the reads succeed and no slot in use has the name. -/
theorem lookupFrom_of_absent (name : String) :
    ∀ (l : List DirEntry) (ofs : Nat) (s : Fs) (rest : List Bool),
      (∀ e ∈ l, e.inUse = true → e.name ≠ name) → s.allocs = List.replicate l.length true ++ rest →
      lookupFrom name l ofs s = (none, { s with allocs := rest })
  | [], _, s, rest, _, hal => by
    simp only [List.length_nil, List.replicate_zero, List.nil_append] at hal
    rw [← hal]
    rfl
  | e :: es, ofs, s, rest, habs, hal => by
    have hmiss : (e.inUse && e.name == name) = false := by
      simpa using habs e (by simp)
    simp only [lookupFrom, readSlot_of_ok (e := e) (show s.allocs = true :: _ by
      rw [hal]; rfl), if_true, hmiss, Bool.false_eq_true, if_false]
    exact lookupFrom_of_absent name es (ofs + 1) _ rest (fun e' he' => habs e' (by simp [he'])) rfl

/-- The free-slot loop stops at the first free slot when all its reads succeed. -/
theorem freeSlotFrom_of_free :
    ∀ (k : Nat) (l : List DirEntry) (ofs : Nat) (s : Fs) (rest : List Bool) (hk : k < l.length),
      l[k].inUse = false → (∀ i (hi : i < k), l[i].inUse = true) →
      s.allocs = List.replicate (k + 1) true ++ rest →
      freeSlotFrom l ofs s = (ofs + k, { s with allocs := rest })
  | _, [], _, _, _, hk, _, _, _ => by simp at hk
  | 0, e :: es, ofs, s, rest, _, hfree, _, hal => by
    simp only [List.getElem_cons_zero] at hfree
    simp [freeSlotFrom, readSlot_of_ok (e := e) (show s.allocs = true :: rest by rw [hal]; rfl),
      hfree]
  | k + 1, e :: es, ofs, s, rest, hk, hfree, hbefore, hal => by
    have hused : e.inUse = true := by simpa using hbefore 0 (by omega)
    simp only [freeSlotFrom, readSlot_of_ok (e := e) (show s.allocs = true :: _ by
      rw [hal]; rfl), if_true, hused, Bool.not_true, Bool.false_eq_true, if_false]
    rw [freeSlotFrom_of_free k es (ofs + 1) _ rest (by simpa using hk) (by simpa using hfree)
      (fun i hi => by simpa using hbefore (i + 1) (by omega)) rfl]
    simp only [Prod.mk.injEq, and_true]
    omega

theorem writeSlot_of_ok {ofs : Nat} (e : DirEntry) {rest : List Bool}
    (hdeny : rootDenied s = false) (hofs : ofs < s.root.length) (hal : s.allocs = true :: rest) :
    writeSlot ofs e s = (true, { s with root := s.root.set ofs e, allocs := rest }) := by
  simp [writeSlot, hdeny, hofs, Fs.malloc, hal]

theorem dirAdd_of_valid {name : String} {x : Nat} (hvalid : ValidName name) :
    dirAdd name x s =
      match lookup name s with
      | (some _, s₁) => (false, s₁)
      | (none, s₁) =>
        let (ofs, s₂) := freeSlotFrom s₁.root 0 s₁
        writeSlot ofs ⟨x, name, true⟩ s₂ := by
  have h : ¬ (name.isEmpty = true ∨ name.utf8ByteSize > NAME_MAX) := by
    rw [hvalid.1]
    simpa using hvalid.2
  simp only [dirAdd, if_neg h]

/-- **A duplicate name.**  When the read of slot 0 in `lookup` fails, `lookup` reports the name
absent; the free-slot loop then reads the slots in use up to the first free one, and `dir_add`
enters the name there, although a slot in use before it holds the name already. -/
theorem dirAdd_duplicates_name {name : String} {x k j : Nat} {rest : List Bool}
    (hvalid : ValidName name) (hdeny : rootDenied s = false) (hk : k < s.root.length)
    (hfree : s.root[k].inUse = false) (hbefore : ∀ i (hi : i < k), s.root[i].inUse = true)
    (hj : j < k) (hname : s.root[j].name = name)
    (hal : s.allocs = false :: (List.replicate (k + 1) true ++ true :: rest)) :
    ∃ t, dirAdd name x s = (true, t) ∧ ¬ Slots.Distinct DirEntry.inUse DirEntry.name t.root := by
  obtain ⟨e, es, hroot⟩ : ∃ e es, s.root = e :: es := List.exists_cons_of_length_pos (by omega)
  have hlookup : lookup name s =
      (none, { s with allocs := List.replicate (k + 1) true ++ true :: rest }) := by
    simp [lookup, hroot, lookupFrom, readSlot_of_ok (e := e) hal]
  have hscan := freeSlotFrom_of_free k s.root 0
    { s with allocs := List.replicate (k + 1) true ++ true :: rest } (true :: rest) hk hfree hbefore
    rfl
  rw [Nat.zero_add] at hscan
  refine ⟨{ s with root := s.root.set k ⟨x, name, true⟩, allocs := rest }, ?_, fun hd => ?_⟩
  · rw [dirAdd_of_valid hvalid, hlookup]
    dsimp only
    rw [hscan]
    exact writeSlot_of_ok _ hdeny hk rfl
  · -- slots `j` and `k` are both in use with the name
    have hjk : j ≠ k := by omega
    have hlen : k < (s.root.set k ⟨x, name, true⟩).length := by simpa using hk
    have hne := hd.ne (i := j) (j := k) (by simpa using hj.trans hk) hlen hjk
    simp only [List.getElem_set_ne hjk.symm, List.getElem_set_self] at hne
    exact hne (hbefore j hj) trivial hname

/-- `dupFixture` with the read of slot 0 in `lookup` failing. -/
def lookupFailFixture : Fs := { dupFixture with allocs := [false, true, true, true] }

/-- Creating `a` there enters it a second time, in slot 1. -/
theorem dirAdd_duplicates_name_a :
    ∃ t, dirAdd "a" 3 lookupFailFixture = (true, t) ∧
      ¬ Slots.Distinct DirEntry.inUse DirEntry.name t.root :=
  dirAdd_duplicates_name (s := lookupFailFixture) (k := 1) (j := 0) ⟨rfl, by decide⟩ rfl
    (by decide) rfl (fun i hi => by cases Nat.lt_one_iff.mp hi; rfl) (by decide) rfl rfl

/-- **A lost entry.**  When `lookup` reads every slot without finding the name, and the first read
of the free-slot loop fails, `dir_add` writes over slot 0 without having read it.  A file that
slot 0 held is then gone from the directory, though nothing removed it. -/
theorem dirAdd_overwrites_slot {name : String} {x : Nat} {rest : List Bool}
    (hvalid : ValidName name) (hdeny : rootDenied s = false) (hlen : 0 < s.root.length)
    (habsent : Slots.lookup DirEntry.inUse DirEntry.name name s.root = none)
    (hal : s.allocs = List.replicate s.root.length true ++ false :: true :: rest) :
    ∃ t, dirAdd name x s = (true, t) ∧ t.root = s.root.set 0 ⟨x, name, true⟩ ∧
      (s.root[0].inUse = true → Slots.Distinct DirEntry.inUse DirEntry.name s.root →
        Slots.lookup DirEntry.inUse DirEntry.name s.root[0].name t.root = none) := by
  obtain ⟨e, es, hroot⟩ : ∃ e es, s.root = e :: es := List.exists_cons_of_length_pos hlen
  have habs := Slots.lookup_eq_none_iff.mp habsent
  have hlookup : lookup name s = (none, { s with allocs := false :: true :: rest }) :=
    lookupFrom_of_absent name s.root 0 s (false :: true :: rest) habs hal
  have hscan : freeSlotFrom s.root 0 { s with allocs := false :: true :: rest } =
      (0, { s with allocs := true :: rest }) := by
    nth_rewrite 1 [hroot]
    simp [freeSlotFrom, readSlot_of_ok (s := { s with allocs := false :: true :: rest }) (e := e) rfl]
  refine ⟨{ s with root := s.root.set 0 ⟨x, name, true⟩, allocs := rest }, ?_, rfl,
    fun hused hd => ?_⟩
  · rw [dirAdd_of_valid hvalid, hlookup]
    dsimp only
    rw [hscan]
    exact writeSlot_of_ok _ hdeny hlen rfl
  · -- the new entry holds another name than the one it wrote over
    exact Slots.lookup_set_other hd hlen hused fun _ h =>
      habs _ (List.getElem_mem hlen) hused h.symm

/-- `dupFixture` with the first read of the free-slot loop failing. -/
def freeSlotFailFixture : Fs := { dupFixture with allocs := [true, true, false, true] }

/-- Creating `b` there writes over slot 0, and `a` is gone from the directory. -/
theorem dirAdd_overwrites_slot_b :
    ∃ t, dirAdd "b" 3 freeSlotFailFixture = (true, t) ∧
      t.root = freeSlotFailFixture.root.set 0 ⟨3, "b", true⟩ ∧
      Slots.lookup DirEntry.inUse DirEntry.name "a" t.root = none := by
  obtain ⟨t, h, hroot, hlost⟩ := dirAdd_overwrites_slot (s := freeSlotFailFixture) (x := 3)
    (show ValidName "b" from ⟨rfl, by decide⟩) rfl (by decide) rfl rfl
  exact ⟨t, h, hroot, hlost rfl (by unfold Slots.Distinct; decide)⟩

end FailedRead

end Pintos.Filesys
