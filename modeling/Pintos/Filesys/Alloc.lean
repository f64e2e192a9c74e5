import Mathlib
import Pintos.Filesys.Calls

/-!
# Allocation safety of the file system

The free map is what keeps two files from sharing a sector.  A sector is `Used` when the free map
marks it.  The inode at a sector is `Live` when something may still read through it: the free
map's and the root directory's inodes, the inode a slot in use names, and every open inode.  A
live inode occupies its own sector and its data sectors, as the inode on disk records them
(`InExtent`).

`AllocInv` says that the free map marks every sector a live inode occupies; that no sector is
occupied by two live inodes, nor an inode's own sector by its data; that an open inode's data is
the one on disk; that a removed inode is no longer in the directory; that no slot in use names
the free map's or the root directory's inode, and no two name one inode; that an inode is open at
least once for each open file that holds it; and that no open file denies writes.

None of it needs `malloc` to succeed.  A failed allocation can leave sectors marked that no live
inode occupies (`Orphan`s: the data sectors of a failed `filesys_create`, the inode of a slot that
`dir_add` wrote over), but never frees a sector that a live inode occupies.

Each operation below the calls gets one lemma that says, under what its caller guarantees, that
it returns (no `ASSERT` fails) and keeps `AllocInv`: `inodeOpen_spec`, `inodeClose_spec`,
`inodeRemove_spec`, `inodeCreate_spec`, `dirAdd_spec`, `fileOpen_spec`, `fileClose_spec`.  The
calls themselves are in `Pintos.Filesys.Safety`.
-/

set_option autoImplicit false

namespace Pintos.Filesys

/-! ## Sectors in use and live inodes -/

/-- The free map marks sector `y`, which lies within it. -/
def Used (s : Fs) (y : Nat) : Prop := y < s.freeMap.bitCnt ∧ s.freeMap.bitmapTest y = true

/-- The data sectors of an inode. -/
def InData (d : InodeDisk) (y : Nat) : Prop :=
  d.start ≤ y ∧ y < d.start + bytesToSectors d.length

/-- The sectors the inode at `x` occupies: its own, and its data as the disk records it. -/
def InExtent (s : Fs) (x y : Nat) : Prop := y = x ∨ InData (s.disk x) y

/-- A slot in use names the inode at `x`. -/
def InDir (s : Fs) (x : Nat) : Prop := ∃ e ∈ s.root, e.inUse = true ∧ e.inodeSector = x

/-- The inode at `x` may still be read: the free map's, the root directory's, one that a slot in
use names, or an open one. -/
def Live (s : Fs) (x : Nat) : Prop :=
  x = FREE_MAP_SECTOR ∨ x = ROOT_DIR_SECTOR ∨ InDir s x ∨ ∃ i, s.openInodes x = some i

/-- `open_cnt` of the inode at `x`; 0 when it is not open. -/
def openCnt (s : Fs) (x : Nat) : Nat := ((s.openInodes x).map Inode.openCnt).getD 0

/-- A `struct file` on the inode at `x` that is still referenced. -/
def holds (x : Nat) : Option File → Bool
  | some file => file.inode == x && decide (0 < file.refCount)
  | none => false

/-- The files below `n` that hold the inode at `x`. -/
def refsBelow (files : Nat → Option File) (x : Nat) : Nat → Nat
  | 0 => 0
  | n + 1 => refsBelow files x n + if holds x (files n) then 1 else 0

/-- The open files that hold the inode at `x`. -/
def refs (s : Fs) (x : Nat) : Nat := refsBelow s.files x s.nextFile

/-- What keeps the sectors of live inodes apart. -/
structure AllocInv (s : Fs) : Prop where
  /-- The free map marks every sector of a live inode. -/
  used : ∀ x y, Live s x → InExtent s x y → Used s y
  /-- No sector belongs to two live inodes. -/
  apart : ∀ x x' y, Live s x → Live s x' → x ≠ x' → InExtent s x y → ¬ InExtent s x' y
  /-- No live inode's data covers its own sector. -/
  selfApart : ∀ x, Live s x → ¬ InData (s.disk x) x
  /-- An open inode's data is the one on disk. -/
  snapshot : ∀ x i, s.openInodes x = some i → i.data = s.disk x
  /-- A removed inode is out of the directory, and is neither the free map's nor the root's. -/
  removed : ∀ x i, s.openInodes x = some i → i.removed = true →
    ¬ InDir s x ∧ x ≠ FREE_MAP_SECTOR ∧ x ≠ ROOT_DIR_SECTOR
  /-- No slot in use names the free map's or the root directory's inode. -/
  dirSectors : ∀ x, InDir s x → x ≠ FREE_MAP_SECTOR ∧ x ≠ ROOT_DIR_SECTOR
  /-- No two slots in use name one inode. -/
  dirDistinct : Slots.Distinct DirEntry.inUse DirEntry.inodeSector s.root
  /-- An inode is open at least once for each open file that holds it. -/
  refsLe : ∀ x, refs s x ≤ openCnt s x
  /-- No open file denies writes. -/
  noDeny : ∀ f file, s.files f = some file → file.denyWrite = false

/-- Sector `x` is marked, but no live inode occupies it: `filesys_create` has allocated it for
an inode not yet in the directory. -/
structure Orphan (s : Fs) (x : Nat) : Prop where
  used : Used s x
  notLive : ¬ Live s x
  apart : ∀ x', Live s x' → ¬ InExtent s x' x

/-- An inode at `x` that `dir_add` may enter: an orphan whose data sectors are marked, apart
from its own sector, and occupied by no live inode. -/
structure FreshInode (s : Fs) (x : Nat) : Prop extends Orphan s x where
  data : ∀ y, InData (s.disk x) y → Used s y ∧ y ≠ x ∧ ∀ x', Live s x' → ¬ InExtent s x' y

section Basic

variable {s t : Fs}

theorem live_of_open {x : Nat} {i : Inode} (h : s.openInodes x = some i) : Live s x :=
  .inr (.inr (.inr ⟨i, h⟩))

theorem live_of_inDir {x : Nat} (h : InDir s x) : Live s x := .inr (.inr (.inl h))

theorem live_root : Live s ROOT_DIR_SECTOR := .inr (.inl rfl)

theorem AllocInv.used_self (hI : AllocInv s) {x : Nat} (hx : Live s x) : Used s x :=
  hI.used x x hx (.inl rfl)

theorem openCnt_of_open {x : Nat} {i : Inode} (h : s.openInodes x = some i) :
    openCnt s x = i.openCnt := by
  simp [openCnt, h]

theorem openCnt_congr (h : t.openInodes = s.openInodes) (x : Nat) : openCnt t x = openCnt s x := by
  simp [openCnt, h]

theorem refs_congr (h : FilesOf s t) (x : Nat) : refs t x = refs s x := by
  simp [refs, h.1, h.2]

/-- `AllocInv` reads only the free map, the disk, the open inodes, the directory and the
files. -/
theorem AllocInv.congr (hI : AllocInv s) (h₁ : t.freeMap = s.freeMap) (h₂ : t.disk = s.disk)
    (h₃ : t.openInodes = s.openInodes) (h₄ : t.root = s.root) (h₅ : t.files = s.files)
    (h₆ : t.nextFile = s.nextFile) : AllocInv t := by
  obtain ⟨fm, d, oi, r, fs, nf, al⟩ := s
  obtain ⟨fm', d', oi', r', fs', nf', al'⟩ := t
  simp only at h₁ h₂ h₃ h₄ h₅ h₆
  subst h₁ h₂ h₃ h₄ h₅ h₆
  exact ⟨hI.used, hI.apart, hI.selfApart, hI.snapshot, hI.removed, hI.dirSectors, hI.dirDistinct,
    hI.refsLe, hI.noDeny⟩

/-- Using up allocation outcomes keeps `AllocInv`. -/
theorem AllocInv.of_usesAllocs (hI : AllocInv s) (h : UsesAllocs s t) : AllocInv t := by
  obtain ⟨al, -, rfl⟩ := h
  exact hI.congr rfl rfl rfl rfl rfl rfl

theorem openCnt_of_usesAllocs (h : UsesAllocs s t) (x : Nat) : openCnt t x = openCnt s x := by
  obtain ⟨al, -, rfl⟩ := h
  rfl

theorem refs_of_usesAllocs (h : UsesAllocs s t) (x : Nat) : refs t x = refs s x := by
  obtain ⟨al, -, rfl⟩ := h
  rfl

theorem openInodes_of_usesAllocs (h : UsesAllocs s t) : t.openInodes = s.openInodes := by
  obtain ⟨al, -, rfl⟩ := h
  rfl

/-- The live inodes are read from the directory and the open inodes only. -/
theorem live_congr (hr : t.root = s.root) (ho : t.openInodes = s.openInodes) {x : Nat} :
    Live t x ↔ Live s x := by
  simp only [Live, InDir, hr, ho]

/-- An orphan stays one while the free map marks it and the inodes stay as they are. -/
theorem Orphan.mono {x : Nat} (hx : Orphan s x) (hu : Used t x) (hr : t.root = s.root)
    (ho : t.openInodes = s.openInodes) (hd : t.disk = s.disk) : Orphan t x where
  used := hu
  notLive h := hx.notLive ((live_congr hr ho).mp h)
  apart z hz := by
    rw [InExtent, hd]
    exact hx.apart z ((live_congr hr ho).mp hz)

theorem Orphan.of_usesAllocs {x : Nat} (hx : Orphan s x) (h : UsesAllocs s t) : Orphan t x := by
  obtain ⟨al, -, rfl⟩ := h
  exact ⟨hx.used, hx.notLive, hx.apart⟩

/-! ### The open files that hold an inode -/

theorem refsBelow_congr {files files' : Nat → Option File} {x n : Nat}
    (h : ∀ f, f < n → files' f = files f) : refsBelow files' x n = refsBelow files x n := by
  induction n with
  | zero => rfl
  | succ n ih =>
    simp only [refsBelow, ih fun f hf => h f (by omega), h n (by omega)]

theorem refsBelow_update {files : Nat → Option File} {x f n : Nat} (hf : f < n)
    (v : Option File) :
    refsBelow (Function.update files f v) x n + (if holds x (files f) then 1 else 0) =
      refsBelow files x n + (if holds x v then 1 else 0) := by
  induction n with
  | zero => omega
  | succ n ih =>
    simp only [refsBelow]
    by_cases hn : f = n
    · subst hn
      have hbelow : ∀ g, g < f → Function.update files f v g = files g :=
        fun g hg => Function.update_of_ne (show g ≠ f by omega) v files
      rw [refsBelow_congr hbelow, Function.update_self]
      omega
    · rw [Function.update_of_ne (Ne.symm hn)]
      have := ih (by omega)
      omega

/-- Replacing a file below `nextFile` moves its hold from one inode to another. -/
theorem refs_setFile {f : Nat} (hf : f < s.nextFile) (v : Option File) (x : Nat) :
    refs (s.setFile f v) x + (if holds x (s.files f) then 1 else 0) =
      refs s x + (if holds x v then 1 else 0) :=
  refsBelow_update hf v

/-- A file at `nextFile`, which then moves on, adds its hold. -/
theorem refs_newFile (v : Option File) (x : Nat) :
    refs { s.setFile s.nextFile v with nextFile := s.nextFile + 1 } x =
      refs s x + (if holds x v then 1 else 0) := by
  have hbelow : ∀ g, g < s.nextFile → Function.update s.files s.nextFile v g = s.files g :=
    fun g hg => Function.update_of_ne (show g ≠ s.nextFile by omega) v s.files
  simp only [refs, refsBelow, Fs.setFile, Function.update_self]
  rw [refsBelow_congr hbelow]

end Basic

/-! ## What each kind of change does to `AllocInv` -/

section Change

variable {s t : Fs}

/-- A free map that still marks every sector of a live inode. -/
theorem AllocInv.setFreeMap (hI : AllocInv s) {m : Bitmap}
    (hused : ∀ x y, Live s x → InExtent s x y → Used { s with freeMap := m } y) :
    AllocInv { s with freeMap := m } :=
  { hI with used := hused }

/-- The inode written at a sector where no live inode is. -/
theorem AllocInv.setDisk (hI : AllocInv s) {x : Nat} (hx : ¬ Live s x) (d : InodeDisk) :
    AllocInv { s with disk := Function.update s.disk x d } := by
  -- the live inodes, and so the sectors they occupy, stay those of `s`
  have hne : ∀ z, Live s z → z ≠ x := fun z hz h => hx (h ▸ hz)
  have hext : ∀ z y, Live s z →
      (InExtent { s with disk := Function.update s.disk x d } z y ↔ InExtent s z y) := by
    intro z y hz
    simp [InExtent, Function.update_of_ne (hne z hz)]
  exact {
    used := fun z y hz hy => hI.used z y hz ((hext z y hz).mp hy)
    apart := fun z z' y hz hz' hzz hy hy' =>
      hI.apart z z' y hz hz' hzz ((hext z y hz).mp hy) ((hext z' y hz').mp hy')
    selfApart := fun z hz => by
      simpa [Function.update_of_ne (hne z hz)] using hI.selfApart z hz
    snapshot := fun z i h => by
      simpa [Function.update_of_ne (hne z (live_of_open h))] using hI.snapshot z i h
    removed := hI.removed
    dirSectors := hI.dirSectors
    dirDistinct := hI.dirDistinct
    refsLe := hI.refsLe
    noDeny := hI.noDeny }

theorem live_setInode {x : Nat} {i : Option Inode} (hlive : ∀ j, i = some j → Live s x)
    {z : Nat} (hz : Live (s.setInode x i) z) : Live s z := by
  rcases hz with h | h | h | ⟨j, hj⟩
  · exact .inl h
  · exact .inr (.inl h)
  · exact live_of_inDir h
  · by_cases hzx : z = x
    · subst hzx
      simp only [Fs.setInode, Function.update_self] at hj
      exact hlive j hj
    · simp only [Fs.setInode, Function.update_of_ne hzx] at hj
      exact live_of_open hj

/-- An open inode set, changed or dropped: the rest of `AllocInv` asks that a new one be live
with the data on disk, that a removed one be out of the directory, and that it stay open once for
each file that holds it. -/
theorem AllocInv.setInode (hI : AllocInv s) {x : Nat} {i : Option Inode}
    (hlive : ∀ j, i = some j → Live s x)
    (hdata : ∀ j, i = some j → j.data = s.disk x)
    (hrem : ∀ j, i = some j → j.removed = true →
      ¬ InDir s x ∧ x ≠ FREE_MAP_SECTOR ∧ x ≠ ROOT_DIR_SECTOR)
    (hcnt : refs s x ≤ (i.map Inode.openCnt).getD 0) : AllocInv (s.setInode x i) where
  used z y hz hy := hI.used z y (live_setInode hlive hz) hy
  apart z z' y hz hz' := hI.apart z z' y (live_setInode hlive hz) (live_setInode hlive hz')
  selfApart z hz := hI.selfApart z (live_setInode hlive hz)
  snapshot z j h := by
    by_cases hzx : z = x
    · subst hzx
      simp only [Fs.setInode, Function.update_self] at h
      exact hdata j h
    · simp only [Fs.setInode, Function.update_of_ne hzx] at h
      exact hI.snapshot z j h
  removed z j h := by
    by_cases hzx : z = x
    · subst hzx
      simp only [Fs.setInode, Function.update_self] at h
      exact hrem j h
    · simp only [Fs.setInode, Function.update_of_ne hzx] at h
      exact hI.removed z j h
  dirSectors := hI.dirSectors
  dirDistinct := hI.dirDistinct
  refsLe z := by
    rw [show refs (s.setInode x i) z = refs s z from rfl]
    by_cases hzx : z = x
    · subst hzx
      simpa [openCnt, Fs.setInode] using hcnt
    · simpa [openCnt, Fs.setInode, Function.update_of_ne hzx] using hI.refsLe z
  noDeny := hI.noDeny

/-- Files changed, with the free map, the disk, the open inodes and the directory kept: the rest
of `AllocInv` asks that every inode stay open once for each file that holds it, and that no file
deny writes. -/
theorem AllocInv.setFiles (hI : AllocInv s) (h₁ : t.freeMap = s.freeMap) (h₂ : t.disk = s.disk)
    (h₃ : t.openInodes = s.openInodes) (h₄ : t.root = s.root)
    (hrefs : ∀ x, refs t x ≤ openCnt s x)
    (hdeny : ∀ f file, t.files f = some file → file.denyWrite = false) : AllocInv t := by
  obtain ⟨fm, d, oi, r, fs, nf, al⟩ := s
  obtain ⟨fm', d', oi', r', fs', nf', al'⟩ := t
  simp only at h₁ h₂ h₃ h₄
  subst h₁ h₂ h₃ h₄
  exact ⟨hI.used, hI.apart, hI.selfApart, hI.snapshot, hI.removed, hI.dirSectors, hI.dirDistinct,
    hrefs, hdeny⟩

/-! ### The directory -/

theorem inDir_iff_lookup (s : Fs) (x : Nat) :
    InDir s x ↔ Slots.lookup DirEntry.inUse DirEntry.inodeSector x s.root ≠ none := by
  rw [ne_eq, Slots.lookup_eq_none_iff]
  simp [InDir]

/-- Writing a slot in use names one inode more, and maybe one fewer: the one it wrote over. -/
theorem inDir_of_set_add {ofs x z : Nat} {name : String}
    (h : InDir { s with root := s.root.set ofs ⟨x, name, true⟩ } z) : InDir s z ∨ z = x := by
  obtain ⟨e, he, hu, rfl⟩ := h
  rcases Slots.mem_set_iff he with rfl | ⟨j, hj, -, rfl⟩
  · exact .inr rfl
  · exact .inl ⟨_, List.getElem_mem hj, hu, rfl⟩

/-- Clearing a slot names no new inode. -/
theorem inDir_of_set_clear {ofs z : Nat} (hofs : ofs < s.root.length)
    (h : InDir { s with root := s.root.set ofs { s.root[ofs] with inUse := false } } z) :
    InDir s z := by
  obtain ⟨e, he, hu, rfl⟩ := h
  rcases Slots.mem_set_iff he with rfl | ⟨j, hj, -, rfl⟩
  · cases hu
  · exact ⟨_, List.getElem_mem hj, hu, rfl⟩

/-- Clearing the slot in use of an inode leaves no slot naming it. -/
theorem not_inDir_set_clear (hI : AllocInv s) {ofs : Nat} (hofs : ofs < s.root.length)
    (huse : s.root[ofs].inUse = true) :
    ¬ InDir { s with root := s.root.set ofs { s.root[ofs] with inUse := false } }
      s.root[ofs].inodeSector := by
  rw [inDir_iff_lookup, not_not]
  exact Slots.lookup_set_unused hI.dirDistinct hofs huse rfl

/-- A fresh inode entered in a slot, free or not: the inode of a slot in use that it writes
over may stop being live, its sectors staying marked. -/
theorem AllocInv.addEntry (hI : AllocInv s) {ofs x : Nat} {name : String} (hx : FreshInode s x) :
    AllocInv { s with root := s.root.set ofs ⟨x, name, true⟩ } := by
  have hlive : ∀ z, Live { s with root := s.root.set ofs ⟨x, name, true⟩ } z →
      Live s z ∨ z = x := by
    rintro z (h | h | h | h)
    · exact .inl (.inl h)
    · exact .inl (.inr (.inl h))
    · exact (inDir_of_set_add h).imp_left live_of_inDir
    · exact .inl (.inr (.inr (.inr h)))
  -- the sectors of the new inode are marked and no live inode's
  have hnew : ∀ y, InExtent s x y → Used s y ∧ ∀ z, Live s z → ¬ InExtent s z y := by
    rintro y (rfl | hy)
    · exact ⟨hx.used, hx.apart⟩
    · exact ⟨(hx.data y hy).1, (hx.data y hy).2.2⟩
  exact {
    used := fun z y hz hy => by
      rcases hlive z hz with hz | rfl
      · exact hI.used z y hz hy
      · exact (hnew y hy).1
    apart := fun z z' y hz hz' hzz hy hy' => by
      rcases hlive z hz with hzs | rfl <;> rcases hlive z' hz' with hzs' | rfl
      · exact hI.apart z z' y hzs hzs' hzz hy hy'
      · exact (hnew y hy').2 z hzs hy
      · exact (hnew y hy).2 z' hzs' hy'
      · exact hzz rfl
    selfApart := fun z hz => by
      rcases hlive z hz with hz | rfl
      · exact hI.selfApart z hz
      · exact fun h => (hx.data z h).2.1 rfl
    snapshot := hI.snapshot
    removed := fun z j h hr => by
      obtain ⟨hdir, h0, h1⟩ := hI.removed z j h hr
      refine ⟨fun hd => ?_, h0, h1⟩
      rcases inDir_of_set_add hd with hd | rfl
      · exact hdir hd
      · exact hx.notLive (live_of_open h)
    dirSectors := fun z hz => by
      rcases inDir_of_set_add hz with hz | rfl
      · exact hI.dirSectors z hz
      · exact ⟨fun h => hx.notLive (.inl h), fun h => hx.notLive (.inr (.inl h))⟩
    dirDistinct := by
      refine hI.dirDistinct.set_fresh ofs ?_
      have : ¬ InDir s x := fun h => hx.notLive (live_of_inDir h)
      rwa [inDir_iff_lookup, not_not] at this
    refsLe := hI.refsLe
    noDeny := hI.noDeny }

/-- A slot cleared: the inode it named may stop being live, and its sectors stay marked. -/
theorem AllocInv.clearEntry (hI : AllocInv s) {ofs : Nat} (hofs : ofs < s.root.length) :
    AllocInv { s with root := s.root.set ofs { s.root[ofs] with inUse := false } } := by
  have hlive : ∀ z, Live { s with root := s.root.set ofs { s.root[ofs] with inUse := false } } z →
      Live s z := by
    rintro z (h | h | h | h)
    · exact .inl h
    · exact .inr (.inl h)
    · exact live_of_inDir (inDir_of_set_clear hofs h)
    · exact .inr (.inr (.inr h))
  exact {
    used := fun z y hz => hI.used z y (hlive z hz)
    apart := fun z z' y hz hz' => hI.apart z z' y (hlive z hz) (hlive z' hz')
    selfApart := fun z hz => hI.selfApart z (hlive z hz)
    snapshot := hI.snapshot
    removed := fun z j h hr => by
      obtain ⟨hdir, h0, h1⟩ := hI.removed z j h hr
      exact ⟨fun hd => hdir (inDir_of_set_clear hofs hd), h0, h1⟩
    dirSectors := fun z hz => hI.dirSectors z (inDir_of_set_clear hofs hz)
    dirDistinct := hI.dirDistinct.set_unused ofs rfl
    refsLe := hI.refsLe
    noDeny := hI.noDeny }

end Change

/-! ## The free map -/

section FreeMap

variable {s s' : Fs}

theorem used_setMultiple {a c : Nat} (hfit : a + c ≤ s.freeMap.bitCnt) (v : Bool) (y : Nat) :
    Used { s with freeMap := s.freeMap.bitmapSetMultiple a c v } y ↔
      if a ≤ y ∧ y < a + c then v = true else Used s y := by
  simp only [Used, Bitmap.bitCnt_setMultiple, Bitmap.bitmapTest_setMultiple _ hfit]
  split
  · exact ⟨fun h => h.2, fun h => ⟨by omega, h⟩⟩
  · exact Iff.rfl

/-- Where `free_map_allocate` returns a sector: `cnt` sectors in a row that the free map did not
mark, now marked, and the write-back has used up outcomes. -/
theorem freeMapAllocate_some {cnt i : Nat} (h : freeMapAllocate cnt s = (some i, s')) :
    i + cnt ≤ s.freeMap.bitCnt ∧ (∀ y, i ≤ y → y < i + cnt → ¬ Used s y) ∧
      UsesAllocs { s with freeMap := s.freeMap.bitmapSetMultiple i cnt true } s' := by
  rcases freeMapAllocate_cases h with ⟨h, -⟩ | ⟨j, al, hfit, hclear, hal, ⟨hj, rfl⟩ | ⟨h, -⟩⟩
  · cases h
  · cases hj
    refine ⟨hfit, fun y h₁ h₂ hy => ?_, al, hal, rfl⟩
    rw [Used, hclear y h₁ h₂] at hy
    exact Bool.false_ne_true hy.2
  · cases h

theorem openInodes_freeMapAllocate {cnt : Nat} {r : Option Nat}
    (h : freeMapAllocate cnt s = (r, s')) : s'.openInodes = s.openInodes := by
  rcases freeMapAllocate_cases h with ⟨-, rfl⟩ | ⟨i, al, -, -, -, ⟨-, rfl⟩ | ⟨-, rfl⟩⟩ <;> rfl

/-- After `free_map_allocate` returns a sector the free map marks what it marked before and the
run it returns, whose sectors are orphans. -/
theorem AllocInv.allocate (hI : AllocInv s) {cnt i : Nat}
    (h : freeMapAllocate cnt s = (some i, s')) :
    AllocInv s' ∧ (∀ y, Used s y → Used s' y) ∧
      ∀ y, i ≤ y → y < i + cnt → ¬ Used s y ∧ Orphan s' y := by
  obtain ⟨hfit, hclear, hw⟩ := freeMapAllocate_some h
  obtain ⟨al, -, rfl⟩ := hw
  have hused : ∀ y, Used s y → Used { s with freeMap := s.freeMap.bitmapSetMultiple i cnt true } y :=
    fun y hy => (used_setMultiple hfit true y).mpr (by split <;> simp [hy])
  refine ⟨(hI.setFreeMap fun x y hx hy => hused y (hI.used x y hx hy)).congr rfl rfl rfl rfl rfl rfl,
    hused, fun y h₁ h₂ => ?_⟩
  -- a sector that was not marked belongs to no live inode
  refine ⟨hclear y h₁ h₂, (used_setMultiple hfit true y).mpr (by simp [h₁, h₂]), ?_, ?_⟩
  · exact fun hy => hclear y h₁ h₂ (hI.used_self hy)
  · exact fun x hx hy => hclear y h₁ h₂ (hI.used x y hx hy)

/-- After `free_map_allocate` returns no sector the free map marks what it marked before: the
scan found no run, or the write-back failed and the run was cleared again. -/
theorem AllocInv.allocate_none (hI : AllocInv s) {cnt : Nat}
    (h : freeMapAllocate cnt s = (none, s')) :
    AllocInv s' ∧ InodeFrame s s' ∧ s'.openInodes = s.openInodes ∧ s'.disk = s.disk ∧
      ∀ y, Used s' y ↔ Used s y := by
  rcases freeMapAllocate_cases h with ⟨-, rfl⟩ | ⟨i, al, hfit, hclear, hal, ⟨h, -⟩ | ⟨-, rfl⟩⟩
  · exact ⟨hI, .refl _, rfl, rfl, fun _ => Iff.rfl⟩
  · cases h
  · have hfit' : i + cnt ≤ (s.freeMap.bitmapSetMultiple i cnt true).bitCnt := by
      rwa [Bitmap.bitCnt_setMultiple]
    have hiff : ∀ y, Used { s with freeMap :=
        (s.freeMap.bitmapSetMultiple i cnt true).bitmapSetMultiple i cnt false } y ↔ Used s y := by
      intro y
      simp only [Used, Bitmap.bitCnt_setMultiple, Bitmap.bitmapTest_setMultiple _ hfit',
        Bitmap.bitmapTest_setMultiple _ hfit]
      by_cases hy : i ≤ y ∧ y < i + cnt
      · simp [hy, hclear y hy.1 hy.2]
      · simp [hy]
    exact ⟨(hI.setFreeMap fun x y hx hy => (hiff y).mpr (hI.used x y hx hy)).congr rfl rfl rfl rfl
      rfl rfl, ⟨rfl, ⟨rfl, rfl⟩, hal⟩, rfl, rfl, hiff⟩

/-- `free_map_release` of marked sectors clears them and writes the map back. -/
theorem freeMapRelease_of_used {a c : Nat} (hused : ∀ y, a ≤ y → y < a + c → Used s y) :
    freeMapRelease a c s =
      some (bitmapWrite { s with freeMap := s.freeMap.bitmapSetMultiple a c false }).2 := by
  have hall : s.freeMap.bitmapContains a c (!true) = false :=
    s.freeMap.bitmapContains_not_eq_false.mpr fun j h₁ h₂ => (hused j h₁ h₂).2
  have hall' : s.freeMap.bitmapAll a c = true := by
    simpa [Bitmap.bitmapAll] using hall
  unfold freeMapRelease
  rw [if_pos hall']

theorem used_release {a c : Nat} (hused : ∀ y, a ≤ y → y < a + c → Used s y) (y : Nat) :
    Used { s with freeMap := s.freeMap.bitmapSetMultiple a c false } y ↔
      Used s y ∧ ¬ (a ≤ y ∧ y < a + c) := by
  rcases Nat.eq_zero_or_pos c with rfl | hc
  · simp [Bitmap.bitmapSetMultiple, Used]
  · have hfit : a + c ≤ s.freeMap.bitCnt := by
      have := (hused (a + c - 1) (by omega) (by omega)).1
      omega
    rw [used_setMultiple hfit]
    split <;> simp_all

/-- `free_map_release` of marked sectors that no live inode occupies: its `ASSERT` holds, and
`AllocInv` holds after, whatever the write-back does. -/
theorem AllocInv.release (hI : AllocInv s) {a c : Nat}
    (hused : ∀ y, a ≤ y → y < a + c → Used s y)
    (hfree : ∀ y, a ≤ y → y < a + c → ∀ x, Live s x → ¬ InExtent s x y) :
    ∃ s', freeMapRelease a c s = some s' ∧ AllocInv s' ∧ InodeFrame s s' ∧
      s'.openInodes = s.openInodes ∧ s'.disk = s.disk ∧
      ∀ y, Used s' y ↔ Used s y ∧ ¬ (a ≤ y ∧ y < a + c) := by
  have hI₁ : AllocInv { s with freeMap := s.freeMap.bitmapSetMultiple a c false } :=
    hI.setFreeMap fun x y hx hy =>
      (used_release hused y).mpr ⟨hI.used x y hx hy, fun hr => hfree y hr.1 hr.2 x hx hy⟩
  obtain ⟨al, hal, hw⟩ :=
    usesAllocs_bitmapWrite { s with freeMap := s.freeMap.bitmapSetMultiple a c false }
  refine ⟨_, freeMapRelease_of_used hused, hI₁.of_usesAllocs ⟨al, hal, hw⟩, ?_⟩
  rw [hw]
  exact ⟨⟨rfl, ⟨rfl, rfl⟩, hal⟩, rfl, rfl, used_release hused⟩

/-- An orphan released: what `filesys_create` does with the inode sector when it fails. -/
theorem AllocInv.releaseOrphan (hI : AllocInv s) {x : Nat} (hx : Orphan s x) :
    ∃ s', freeMapRelease x 1 s = some s' ∧ AllocInv s' ∧ InodeFrame s s' ∧
      s'.openInodes = s.openInodes := by
  have hone : ∀ y, x ≤ y → y < x + 1 → y = x := fun y h₁ h₂ => by omega
  obtain ⟨s', h, hI', f, o, -⟩ := hI.release (fun y h₁ h₂ => hone y h₁ h₂ ▸ hx.used)
    fun y h₁ h₂ => hone y h₁ h₂ ▸ hx.apart
  exact ⟨s', h, hI', f, o⟩

/-- A fresh inode released, its sector and then its data: what `inode_close` does with the last
opening of a removed inode. -/
theorem AllocInv.releaseFresh (hI : AllocInv s) {x : Nat} (hx : FreshInode s x) :
    ∃ s', (freeMapRelease x 1 s).bind
        (freeMapRelease (s.disk x).start (bytesToSectors (s.disk x).length)) = some s' ∧
      AllocInv s' ∧ InodeFrame s s' ∧ s'.openInodes = s.openInodes := by
  have hone : ∀ y, x ≤ y → y < x + 1 → y = x := fun y h₁ h₂ => by omega
  obtain ⟨s₁, h₁, hI₁, f₁, o₁, d₁, u₁⟩ := hI.release (fun y h₁ h₂ => hone y h₁ h₂ ▸ hx.used)
    fun y h₁ h₂ => hone y h₁ h₂ ▸ hx.apart
  -- the data sectors are still marked, since only the inode's own sector was released, and the
  -- live inodes are those of `s`
  obtain ⟨s₂, h₂, hI₂, f₂, o₂, -⟩ := hI₁.release
    (fun y h₁ h₂ => (u₁ y).mpr
      ⟨(hx.data y ⟨h₁, h₂⟩).1, by have := (hx.data y ⟨h₁, h₂⟩).2.1; omega⟩)
    fun y h₁ h₂ z hz => by
      rw [InExtent, d₁]
      exact (hx.data y ⟨h₁, h₂⟩).2.2 z ((live_congr f₁.1 o₁).mp hz)
  exact ⟨s₂, by rw [h₁]; exact h₂, hI₂, f₁.trans f₂, o₂.trans o₁⟩

end FreeMap

/-! ## Inodes and the directory -/

section Inodes

variable {s s' : Fs}

/-- An inode that stops being live, with its sectors left marked, is fresh: nothing else
occupies them. -/
theorem freshInode_of_dead (hI : AllocInv s) {t : Fs} {x : Nat} (hx : Live s x)
    (hdead : ¬ Live t x) (hlive : ∀ z, Live t z → Live s z) (hfm : t.freeMap = s.freeMap)
    (hdisk : t.disk = s.disk) : FreshInode t x := by
  have hext : ∀ z y, InExtent t z y ↔ InExtent s z y := by simp [InExtent, hdisk]
  have hne : ∀ z, Live t z → z ≠ x := fun z hz h => hdead (h ▸ hz)
  refine ⟨⟨?_, hdead, fun z hz hzx => ?_⟩, fun y hy => ⟨?_, ?_, fun z hz hzy => ?_⟩⟩
  · simpa [Used, hfm] using hI.used_self hx
  · exact hI.apart x z x hx (hlive z hz) (hne z hz).symm (.inl rfl) ((hext z x).mp hzx)
  · simpa [Used, hfm] using hI.used x y hx (.inr (hdisk ▸ hy))
  · rintro rfl
    exact hI.selfApart y hx (hdisk ▸ hy)
  · exact hI.apart x z y hx (hlive z hz) (hne z hz).symm (.inr (hdisk ▸ hy)) ((hext z y).mp hzy)

/-- `inode_open` of a live inode: it is open once more, or, when `malloc` fails, nothing
changes that `AllocInv` reads. -/
theorem inodeOpen_spec (hI : AllocInv s) {x : Nat} (hx : Live s x) :
    AllocInv (inodeOpen x s).2 ∧ InodeFrame s (inodeOpen x s).2 ∧
      (∀ z, z ≠ x → openCnt (inodeOpen x s).2 z = openCnt s z) ∧
      ((inodeOpen x s).1 = some x → openCnt (inodeOpen x s).2 x = openCnt s x + 1) := by
  have hne : ∀ z, z ≠ x → ∀ i, openCnt (s.setInode x i) z = openCnt s z := fun z hz i => by
    simp [openCnt, Fs.setInode, Function.update_of_ne hz]
  unfold inodeOpen
  split
  · -- already open: one more opener
    rename_i i hi
    refine ⟨hI.setInode (fun _ _ => hx) (fun j hj => ?_) (fun j hj hr => ?_) ?_,
      inodeFrame_setInode _ _ _, fun z hz => hne z hz _, fun _ => ?_⟩
    · cases hj
      exact hI.snapshot x i hi
    · cases hj
      exact hI.removed x i hi hr
    · have := hI.refsLe x
      rw [openCnt_of_open hi] at this
      simp
      omega
    · simp [openCnt, Fs.setInode, hi]
  · rename_i hnone
    obtain ⟨ok, al, hm, hal⟩ := s.malloc_cases
    rw [hm]
    have hI₁ : AllocInv { s with allocs := al } := hI.congr rfl rfl rfl rfl rfl rfl
    cases ok with
    | false =>
      exact ⟨hI₁, ⟨rfl, ⟨rfl, rfl⟩, hal⟩, fun _ _ => rfl, fun h => by cases h⟩
    | true =>
      -- opened for the first time: open count 1, data read from the disk
      have hrefs : refs s x = 0 := by
        have := hI.refsLe x
        simp [openCnt, hnone] at this
        exact this
      refine ⟨hI₁.setInode (fun _ _ => hx) (fun j hj => by cases hj; rfl)
        (fun j hj hr => by cases hj; cases hr) (by
          have h0 : refs { s with allocs := al } x = 0 := hrefs
          rw [h0]
          exact Nat.zero_le _),
        ⟨rfl, ⟨rfl, rfl⟩, hal⟩,
        fun z hz => hne z hz _, fun _ => ?_⟩
      simp [openCnt, Fs.setInode, hnone]

/-- `inode_close` of an inode whose caller holds one opening of it: no `ASSERT` fails, and
`AllocInv` holds after.  The last close of a removed inode releases its sectors. -/
theorem inodeClose_spec (hI : AllocInv s) {x : Nat} (hpre : refs s x + 1 ≤ openCnt s x) :
    ∃ s', inodeClose (some x) s = some s' ∧ AllocInv s' ∧ InodeFrame s s' ∧
      ∀ z, z ≠ x → openCnt s' z = openCnt s z := by
  obtain ⟨i, hi⟩ : ∃ i, s.openInodes x = some i := by
    cases h : s.openInodes x with
    | none => simp [openCnt, h] at hpre
    | some i => exact ⟨i, rfl⟩
  rw [openCnt_of_open hi] at hpre
  have hne : ∀ z, z ≠ x → ∀ j, openCnt (s.setInode x j) z = openCnt s z := fun z hz j => by
    simp [openCnt, Fs.setInode, Function.update_of_ne hz]
  simp only [inodeClose, hi]
  split
  · -- the last opening: the inode is dropped
    have hI₁ : AllocInv (s.setInode x none) :=
      hI.setInode (fun _ h => by cases h) (fun _ h => by cases h) (fun _ h => by cases h)
        (by simp only [Option.map_none, Option.getD_none]; omega)
    split
    · -- a removed inode is dead now: its sector and its data go back to the free map
      rename_i hrem
      obtain ⟨hdir, h0, h1⟩ := hI.removed x i hi hrem
      have hdead : ¬ Live (s.setInode x none) x := by
        rintro (h | h | h | ⟨j, hj⟩)
        · exact h0 h
        · exact h1 h
        · exact hdir h
        · simp [Fs.setInode] at hj
      have hfresh := freshInode_of_dead hI (live_of_open hi) hdead
        (fun z hz => live_setInode (fun _ h => by cases h) hz) rfl rfl
      obtain ⟨s', h', hI', f', o'⟩ := hI₁.releaseFresh hfresh
      rw [hI.snapshot x i hi]
      refine ⟨s', h', hI', (inodeFrame_setInode _ _ _).trans f', fun z hz => ?_⟩
      rw [openCnt_congr o', hne z hz]
    · exact ⟨_, rfl, hI₁, inodeFrame_setInode _ _ _, fun z hz => hne z hz _⟩
  · -- one opening fewer
    refine ⟨_, rfl, hI.setInode (fun _ _ => live_of_open hi) (fun j hj => ?_)
      (fun j hj hr => ?_) ?_, inodeFrame_setInode _ _ _, fun z hz => hne z hz _⟩
    · cases hj
      exact hI.snapshot x i hi
    · cases hj
      exact hI.removed x i hi hr
    · simp only [Option.map_some, Option.getD_some]
      omega

/-- `inode_remove` of an inode no slot names, other than the free map's and the root's. -/
theorem inodeRemove_spec (hI : AllocInv s) {x : Nat}
    (hx : ¬ InDir s x ∧ x ≠ FREE_MAP_SECTOR ∧ x ≠ ROOT_DIR_SECTOR) :
    AllocInv (inodeRemove x s) ∧ InodeFrame s (inodeRemove x s) ∧
      ∀ z, openCnt (inodeRemove x s) z = openCnt s z := by
  unfold inodeRemove
  split
  · rename_i i hi
    refine ⟨hI.setInode (fun _ _ => live_of_open hi)
      (fun j hj => by cases hj; exact hI.snapshot x i hi) (fun _ _ _ => hx) ?_,
      inodeFrame_setInode _ _ _, fun z => ?_⟩
    · simpa [openCnt_of_open hi] using hI.refsLe x
    · by_cases hz : z = x
      · subst hz
        simp [openCnt, Fs.setInode, hi]
      · simp [openCnt, Fs.setInode, Function.update_of_ne hz]
  · exact ⟨hI, InodeFrame.refl s, fun _ => rfl⟩

theorem inExtent_setDisk {x z y : Nat} (hzx : z ≠ x) (d : InodeDisk) :
    InExtent { s with disk := Function.update s.disk x d } z y ↔ InExtent s z y := by
  simp [InExtent, Function.update_of_ne hzx]

/-- `inode_create` at an orphan sector: on success the inode there is fresh, its data newly
marked; on failure the sector is still an orphan. -/
theorem inodeCreate_spec (hI : AllocInv s) {x : Nat} (hx : Orphan s x) (length : Nat) :
    AllocInv (inodeCreate x length s).2 ∧ InodeFrame s (inodeCreate x length s).2 ∧
      (inodeCreate x length s).2.openInodes = s.openInodes ∧
      ((inodeCreate x length s).1 = true → FreshInode (inodeCreate x length s).2 x) ∧
      ((inodeCreate x length s).1 = false → Orphan (inodeCreate x length s).2 x) := by
  obtain ⟨ok, al, hm, hal⟩ := s.malloc_cases
  have hI₁ : AllocInv { s with allocs := al } := hI.congr rfl rfl rfl rfl rfl rfl
  have hx₁ : Orphan { s with allocs := al } x := ⟨hx.used, hx.notLive, hx.apart⟩
  have f₁ : InodeFrame s { s with allocs := al } := ⟨rfl, ⟨rfl, rfl⟩, hal⟩
  unfold inodeCreate
  rw [hm]
  cases ok with
  | false => exact ⟨hI₁, f₁, rfl, (fun h => by cases h), fun _ => hx₁⟩
  | true =>
    dsimp only
    split
    · rename_i start s₂ h₂
      obtain ⟨hI₂, hmono, hnew⟩ := hI₁.allocate h₂
      obtain ⟨-, -, al₂, hal₂, rfl⟩ := freeMapAllocate_some h₂
      have hne : ∀ z, Live s z → z ≠ x := fun z hz h => hx.notLive (h ▸ hz)
      refine ⟨hI₂.setDisk hx.notLive _, f₁.trans ⟨rfl, ⟨rfl, rfl⟩, hal₂⟩, rfl, fun _ => ?_,
        fun h => by cases h⟩
      -- the data sectors are the ones just allocated; the inode's own sector was marked before
      refine ⟨⟨hmono x hx.used, hx.notLive, fun z hz => ?_⟩, fun y hy => ?_⟩
      · rw [inExtent_setDisk (hne z hz)]
        exact hx.apart z hz
      · simp only [Function.update_self, InData] at hy
        obtain ⟨hfree, hy'⟩ := hnew y hy.1 hy.2
        refine ⟨hy'.used, fun h => hfree (h ▸ hx.used), fun z hz => ?_⟩
        rw [inExtent_setDisk (hne z hz)]
        exact hy'.apart z hz
    · -- no data sectors: the inode's sector stays an orphan
      rename_i s₂ h₂
      obtain ⟨hI₂, f₂, o₂, d₂, u₂⟩ := hI₁.allocate_none h₂
      exact ⟨hI₂, f₁.trans f₂, o₂, (fun h => by cases h),
        fun _ => hx₁.mono ((u₂ x).mpr hx.used) f₂.1 o₂ d₂⟩

/-- `dir_add` of a fresh inode keeps `AllocInv`; when it fails it has only used up outcomes. -/
theorem dirAdd_spec (hI : AllocInv s) {x : Nat} (hx : FreshInode s x) (name : String) :
    AllocInv (dirAdd name x s).2 ∧ (dirAdd name x s).2.openInodes = s.openInodes ∧
      FilesOf s (dirAdd name x s).2 ∧
      ((dirAdd name x s).1 = false → UsesAllocs s (dirAdd name x s).2) := by
  rcases hadd : dirAdd name x s with ⟨b, s'⟩
  rcases dirAdd_cases hadd with ⟨rfl, hs⟩ | ⟨rfl, -, ofs, -, al, -, rfl⟩
  · exact ⟨hI.of_usesAllocs hs, openInodes_of_usesAllocs hs, .of_usesAllocs hs, fun _ => hs⟩
  · have hI' : AllocInv { s with root := s.root.set ofs ⟨x, name, true⟩ } := hI.addEntry hx
    exact ⟨hI'.congr rfl rfl rfl rfl rfl rfl, rfl, ⟨rfl, rfl⟩, fun h => by cases h⟩

end Inodes

/-! ## Files -/

section Files

variable {s s' : Fs}

/-- `file_open` of NULL, or of an inode its caller holds one opening of, which the new file then
holds: no `ASSERT` fails, and `AllocInv` holds after. -/
theorem fileOpen_spec (hI : AllocInv s) {inode : Option Nat}
    (hpre : ∀ x, inode = some x → refs s x + 1 ≤ openCnt s x) :
    ∃ f s', fileOpen inode s = some (f, s') ∧ AllocInv s' := by
  obtain ⟨ok, al, hm, -⟩ := s.malloc_cases
  have hI₁ : AllocInv { s with allocs := al } := hI.congr rfl rfl rfl rfl rfl rfl
  unfold fileOpen
  rw [hm]
  cases ok <;> cases inode <;> dsimp only
  · exact ⟨none, _, rfl, hI₁⟩
  · -- `calloc` failed: the inode is closed again
    rename_i x
    obtain ⟨s', h', hI', -⟩ := inodeClose_spec hI₁ (hpre x rfl)
    exact ⟨none, s', by rw [h']; rfl, hI'⟩
  · exact ⟨none, _, rfl, hI₁⟩
  · -- the new file takes over the caller's opening
    rename_i x
    have hpre₁ : refs { s with allocs := al } x + 1 ≤ openCnt { s with allocs := al } x :=
      hpre x rfl
    refine ⟨_, _, rfl, hI₁.setFiles rfl rfl rfl rfl (fun z => ?_) (fun g file h => ?_)⟩
    · rw [refs_newFile]
      by_cases hz : z = x
      · subst hz
        simpa [holds] using hpre₁
      · simpa [holds, Ne.symm hz] using hI₁.refsLe z
    · simp only [Fs.setFile] at h
      by_cases hg : g = s.nextFile
      · subst hg
        simp only [Function.update_self, Option.some.injEq] at h
        rw [← h]
      · rw [Function.update_of_ne hg] at h
        exact hI.noDeny g file h

/-- `file_close` of any file number: no `ASSERT` fails, and `AllocInv` holds after.  The file's
reference is its only one (`FilesInv`), so its inode is closed. -/
theorem fileClose_spec (hI : AllocInv s) (hF : FilesInv s) (f : Nat) :
    ∃ s', fileClose (some f) s = some s' ∧ AllocInv s' := by
  dsimp only [fileClose]
  split
  · exact ⟨s, rfl, hI⟩
  · rename_i file hfile
    have hone := hF.single f file hfile
    have hlt : f < s.nextFile := by
      by_contra h
      rw [hF.fresh f (by omega)] at hfile
      cases hfile
    have hdeny := hI.noDeny f file hfile
    rw [if_pos (by rw [hone]; decide)]
    -- the file with its count at 0: it holds its inode no more, and denies no writes
    obtain ⟨file₀, hfile₀⟩ : ∃ file₀ : File, { file with refCount := file.refCount - 1 } = file₀ :=
      ⟨_, rfl⟩
    have hinode : file₀.inode = file.inode := by rw [← hfile₀]
    have hdeny₀ : file₀.denyWrite = false := by rw [← hfile₀]; exact hdeny
    have hholds₀ : ∀ z, holds z (some file₀) = false := fun z => by
      simp [holds, ← hfile₀, hone]
    rw [hfile₀]
    have hallow : fileAllowWrite f (s.setFile f (some file₀)) = some (s.setFile f (some file₀)) := by
      simp [fileAllowWrite, Fs.setFile, hdeny₀]
    have hrefs₁ : ∀ z, refs (s.setFile f (some file₀)) z + (if file.inode = z then 1 else 0) =
        refs s z := by
      intro z
      have h := refs_setFile hlt (some file₀) z
      rw [hfile, hholds₀] at h
      simpa [holds, hone] using h
    have hI₁ : AllocInv (s.setFile f (some file₀)) :=
      hI.setFiles rfl rfl rfl rfl (fun z => by have := hrefs₁ z; have := hI.refsLe z; omega)
        (fun g file' h => by
          simp only [Fs.setFile] at h
          by_cases hg : g = f
          · subst hg
            simp only [Function.update_self, Option.some.injEq] at h
            rw [← h]
            exact hdeny₀
          · rw [Function.update_of_ne hg] at h
            exact hI.noDeny g file' h)
    have hpre : refs (s.setFile f (some file₀)) file.inode + 1 ≤
        openCnt (s.setFile f (some file₀)) file.inode := by
      have h₁ := hrefs₁ file.inode
      have h₂ := hI.refsLe file.inode
      have h₃ : openCnt (s.setFile f (some file₀)) file.inode = openCnt s file.inode := rfl
      rw [if_pos rfl] at h₁
      omega
    obtain ⟨s₂, h₂, hI₂, f₂, -⟩ := inodeClose_spec hI₁ hpre
    refine ⟨s₂.setFile f none, by simp [hallow, h₂], hI₂.setFiles rfl rfl rfl rfl (fun z => ?_)
      (fun g file' h => ?_)⟩
    · -- the freed file held nothing any more
      have h := refs_setFile (f₂.2.1.2 ▸ hlt : f < s₂.nextFile) none z
      have h₀ : holds z (s₂.files f) = false := by
        rw [f₂.2.1.1]
        simpa [Fs.setFile] using hholds₀ z
      rw [h₀] at h
      simp only [holds, Bool.false_eq_true, if_false, add_zero] at h
      rw [h]
      exact hI₂.refsLe z
    · by_cases hg : g = f
      · subst hg
        simp [Fs.setFile] at h
      · simp only [Fs.setFile, Function.update_of_ne hg] at h
        exact hI₂.noDeny g file' h

end Files

end Pintos.Filesys
