import Mathlib
import Pintos.Filesys.Filesys
import Pintos.Lib.Slots
import Pintos.Lib.Run

/-!
# The file system over runs of calls

`filesys_create`, `filesys_open`, `filesys_remove` and `file_close` are the calls through which a
process changes or reads the root directory and its open files.  `FsStep` makes one of them, with
the result it returns; any interleaving of calls, with `malloc` failing wherever the state's list
of outcomes says, is a run of `FsStep`.

Seen from outside, the file system is a map from names to inode sectors (the first slot in use
with each name) and a map from open files to the sectors of their inodes: the `FsView`.  `FsSpec`
says what each call may do to it: a successful create binds a valid name that was unbound, a
successful remove unbinds a bound name, an open that returns a file gives a fresh file on the
inode of the name, a close forgets its file, and a failed call changes nothing.

`FsInv` is what the refinement needs of a state: no two slots in use share a name, the file
numbers from `nextFile` on are free, and every open file is referenced once.  The refinement
holds while every `malloc` succeeds (`allocs = []`).  A failed read of a slot is taken for the end
of the directory, and `dir_add` then enters a name twice or writes over a slot in use
(`dirAdd_duplicates_name`, `dirAdd_overwrites_slot`): no `FsSpec` step does that.

## Results

* `fs_refines_spec` — from a state with `FsInv` in which every `malloc` succeeds, every run of
  calls is a run of `FsSpec` on the views, with the same calls and results.  Removal relies on
  the unique names: `dir_remove` clears only the first slot with the name, so a second one would
  survive it.
-/

set_option autoImplicit false

namespace Pintos.Filesys

/-! ## What the free map and the inode layer leave alone -/

section Frame

variable {s s' : Fs}

/-- `t` has the directory and the `struct file`s of `s`, and has only used up allocation
outcomes. -/
def InodeFrame (s t : Fs) : Prop := t.root = s.root ∧ FilesOf s t ∧ t.allocs <:+ s.allocs

theorem InodeFrame.refl (s : Fs) : InodeFrame s s := ⟨rfl, FilesOf.refl s, List.suffix_refl _⟩

theorem InodeFrame.trans {t u : Fs} (h₁ : InodeFrame s t) (h₂ : InodeFrame t u) :
    InodeFrame s u :=
  ⟨h₂.1.trans h₁.1, h₁.2.1.trans h₂.2.1, h₂.2.2.trans h₁.2.2⟩

theorem InodeFrame.of_usesAllocs (h : UsesAllocs s s') : InodeFrame s s' := by
  obtain ⟨al, hal, rfl⟩ := h
  exact ⟨rfl, ⟨rfl, rfl⟩, hal⟩

theorem inodeFrame_setInode (s : Fs) (sector : Nat) (i : Option Inode) :
    InodeFrame s (s.setInode sector i) := ⟨rfl, ⟨rfl, rfl⟩, List.suffix_refl _⟩

theorem inodeFrame_malloc (s : Fs) : InodeFrame s s.malloc.2 :=
  .of_usesAllocs (usesAllocs_malloc s)

theorem inodeFrame_freeMapAllocate {cnt : Nat} {r : Option Nat}
    (h : freeMapAllocate cnt s = (r, s')) : InodeFrame s s' := by
  rcases freeMapAllocate_cases h with ⟨-, rfl⟩ | ⟨i, al, -, -, hal, ⟨-, rfl⟩ | ⟨-, rfl⟩⟩
  · exact .refl _
  · exact ⟨rfl, ⟨rfl, rfl⟩, hal⟩
  · exact ⟨rfl, ⟨rfl, rfl⟩, hal⟩

theorem inodeFrame_freeMapRelease {sector cnt : Nat} (h : freeMapRelease sector cnt s = some s') :
    InodeFrame s s' := by
  obtain ⟨-, al, hal, rfl⟩ := freeMapRelease_cases h
  exact ⟨rfl, ⟨rfl, rfl⟩, hal⟩

theorem inodeFrame_inodeCreate (sector length : Nat) (s : Fs) :
    InodeFrame s (inodeCreate sector length s).2 := by
  have h₁ := inodeFrame_malloc s
  unfold inodeCreate
  split <;> rename_i s₁ hs₁ <;> rw [hs₁] at h₁
  · exact h₁
  · split
    · next start s₂ hs₂ =>
      exact h₁.trans ((inodeFrame_freeMapAllocate hs₂).trans ⟨rfl, ⟨rfl, rfl⟩, List.suffix_refl _⟩)
    · next s₂ hs₂ => exact h₁.trans (inodeFrame_freeMapAllocate hs₂)

theorem inodeFrame_inodeOpen (sector : Nat) (s : Fs) : InodeFrame s (inodeOpen sector s).2 := by
  have h₁ := inodeFrame_malloc s
  unfold inodeOpen
  split
  · exact inodeFrame_setInode _ _ _
  · split <;> rename_i s₁ hs₁ <;> rw [hs₁] at h₁
    · exact h₁
    · exact h₁.trans (inodeFrame_setInode _ _ _)

theorem inodeFrame_inodeClose {inode : Option Nat} (h : inodeClose inode s = some s') :
    InodeFrame s s' := by
  unfold inodeClose at h
  split at h
  · cases h
    exact InodeFrame.refl s
  · split at h
    · cases h
      exact InodeFrame.refl s
    · split at h
      · -- the last opener: the inode is dropped, and its sectors released if it was removed
        split at h
        · obtain ⟨s₂, h₂, h₃⟩ := Option.bind_eq_some_iff.mp h
          exact ((inodeFrame_setInode _ _ _).trans (inodeFrame_freeMapRelease h₂)).trans
            (inodeFrame_freeMapRelease h₃)
        · cases h
          exact inodeFrame_setInode _ _ _
      · cases h
        exact inodeFrame_setInode _ _ _

theorem inodeFrame_inodeRemove (sector : Nat) (s : Fs) : InodeFrame s (inodeRemove sector s) := by
  unfold inodeRemove
  split
  · exact inodeFrame_setInode _ _ _
  · exact InodeFrame.refl s

theorem inodeFrame_inodeAllowWrite {sector : Nat} (h : inodeAllowWrite sector s = some s') :
    InodeFrame s s' := by
  unfold inodeAllowWrite at h
  split at h
  · split at h
    · cases h
      exact inodeFrame_setInode _ _ _
    · cases h
  · cases h
    exact InodeFrame.refl s

theorem inodeFrame_dirOpenRoot {b : Bool} (h : dirOpenRoot s = some (b, s')) : InodeFrame s s' := by
  have h₁ := inodeFrame_inodeOpen ROOT_DIR_SECTOR s
  unfold dirOpenRoot at h
  split at h <;> rename_i s₁ hs₁ <;> rw [hs₁] at h₁
  · have h₂ := inodeFrame_malloc s₁
    split at h <;> rename_i s₂ hs₂ <;> rw [hs₂] at h₂
    · cases h
      exact h₁.trans h₂
    · obtain ⟨s₃, h₃, h⟩ := Option.map_eq_some_iff.mp h
      cases h
      exact (h₁.trans h₂).trans (inodeFrame_inodeClose h₃)
  · cases h
    exact h₁

theorem inodeFrame_lookup (name : String) (s : Fs) : InodeFrame s (lookup name s).2 :=
  .of_usesAllocs (lookup_spec name s).1

theorem inodeFrame_dirLookup (name : String) (s : Fs) : InodeFrame s (dirLookup name s).2 := by
  have hl := inodeFrame_lookup name s
  unfold dirLookup
  split <;> rename_i hs <;> rw [hs] at hl
  · exact hl.trans (inodeFrame_inodeOpen _ _)
  · exact hl

end Frame

/-! ## The directory operations -/

section Dir

variable {s s' : Fs}

/-- What `dir_add` can do: fail and leave the directory, or write a valid name into the slot where
its free-slot loop stopped. -/
theorem dirAdd_cases {name : String} {sector : Nat} {b : Bool}
    (h : dirAdd name sector s = (b, s')) :
    (b = false ∧ UsesAllocs s s') ∨
    (b = true ∧ ValidName name ∧ ∃ (ofs : Nat) (_ : ofs < s.root.length) (al : List Bool),
      al <:+ s.allocs ∧ s' = { s with root := s.root.set ofs ⟨sector, name, true⟩, allocs := al }) := by
  unfold dirAdd at h
  split at h
  · cases h
    exact .inl ⟨rfl, .refl s⟩
  · rename_i hname
    have hvalid : ValidName name := by
      simp only [not_or, Bool.not_eq_true, gt_iff_lt, not_lt] at hname
      exact hname
    obtain ⟨hl, -⟩ := lookup_spec name s
    rcases hlk : lookup name s with ⟨r, s₁⟩
    rw [hlk] at h hl
    obtain ⟨al₁, hal₁, rfl⟩ := hl
    cases r with
    | some _ =>
      cases h
      exact .inl ⟨rfl, al₁, hal₁, rfl⟩
    | none =>
      -- the free-slot loop, then the write of the slot where it stopped
      dsimp only at h
      obtain ⟨hf, -, -⟩ := freeSlotFrom_spec s.root 0 { s with allocs := al₁ }
      rcases hfs : freeSlotFrom s.root 0 { s with allocs := al₁ } with ⟨ofs, s₂⟩
      rw [hfs] at h hf
      obtain ⟨al₂, hal₂, rfl⟩ := hf
      rcases writeSlot_cases h with ⟨rfl, hw⟩ | ⟨rfl, -, hofs, al, hal, rfl⟩
      · exact .inl ⟨rfl, UsesAllocs.trans ⟨al₂, hal₂.trans hal₁, rfl⟩ hw⟩
      · exact .inr ⟨rfl, hvalid, ofs, hofs, al, (hal.trans hal₂).trans hal₁, rfl⟩

/-- While every `malloc` succeeds, `dir_add` changes nothing when it fails, and when it succeeds
the name was not in the directory and the slot it fills was free. -/
theorem dirAdd_cases_of_nil {name : String} {sector : Nat} {b : Bool} (hnil : s.allocs = [])
    (h : dirAdd name sector s = (b, s')) :
    (b = false ∧ s' = s) ∨
    (b = true ∧ ValidName name ∧ Slots.lookup DirEntry.inUse DirEntry.name name s.root = none ∧
      ∃ (ofs : Nat) (hofs : ofs < s.root.length), s.root[ofs].inUse = false ∧
        s' = { s with root := s.root.set ofs ⟨sector, name, true⟩ }) := by
  unfold dirAdd at h
  split at h
  · cases h
    exact .inl ⟨rfl, rfl⟩
  · rename_i hname
    have hvalid : ValidName name := by
      simp only [not_or, Bool.not_eq_true, gt_iff_lt, not_lt] at hname
      exact hname
    obtain ⟨hl₂, hl₁⟩ := lookupFrom_of_nil name hnil s.root 0
    have hlk : lookup name s = ((lookup name s).1, s) := Prod.ext rfl hl₂
    rcases hr : (lookup name s).1 with _ | ⟨e, ofs⟩ <;> rw [hlk, hr] at h
    · -- the name is not in the directory: the loop stops at a free slot or past the last one
      have hnone : Slots.lookup DirEntry.inUse DirEntry.name name s.root = none := by
        rw [← hl₁]
        simp only [lookup] at hr
        rw [hr]
        rfl
      dsimp only at h
      obtain ⟨hf₂, hfree⟩ := freeSlotFrom_of_nil hnil s.root 0
      rcases hfs : freeSlotFrom s.root 0 s with ⟨ofs, s₂⟩
      rw [hfs] at h hf₂ hfree
      dsimp only at hf₂ hfree
      subst hf₂
      rcases writeSlot_cases h with ⟨rfl, hw⟩ | ⟨rfl, -, hofs, al, hal, rfl⟩
      · exact .inl ⟨rfl, hw.of_nil hnil⟩
      · rw [hnil] at hal
        rw [List.eq_nil_of_suffix_nil hal, ← hnil]
        exact .inr ⟨rfl, hvalid, hnone, ofs, hofs, hfree ofs hofs (by omega), rfl⟩
    · cases h
      exact .inl ⟨rfl, rfl⟩

/-- What `dir_remove` can do: fail and leave the directory, or free the slot in use with the name
that `lookup` found. -/
theorem dirRemove_cases {name : String} {b : Bool} (h : dirRemove name s = some (b, s')) :
    (b = false ∧ InodeFrame s s') ∨
    (b = true ∧ FilesOf s s' ∧ s'.allocs <:+ s.allocs ∧
      ∃ (ofs : Nat) (hofs : ofs < s.root.length), s.root[ofs].inUse = true ∧
        s.root[ofs].name = name ∧ s'.root = s.root.set ofs { s.root[ofs] with inUse := false }) := by
  obtain ⟨hl, hfound⟩ := lookup_spec name s
  unfold dirRemove at h
  rcases hlk : lookup name s with ⟨r, s₁⟩
  rw [hlk] at h hl hfound
  have f₁ := InodeFrame.of_usesAllocs hl
  cases r with
  | none =>
    cases h
    exact .inl ⟨rfl, f₁⟩
  | some p =>
    obtain ⟨e, ofs⟩ := p
    obtain ⟨hofs, he, huse, hname⟩ := hfound e ofs rfl
    dsimp only at h
    have f₂ := inodeFrame_inodeOpen e.inodeSector s₁
    rcases hop : inodeOpen e.inodeSector s₁ with ⟨_ | sector, s₂⟩ <;> rw [hop] at h f₂ <;>
      dsimp only at h
    · cases h
      exact .inl ⟨rfl, f₁.trans f₂⟩
    · have f₁₂ := f₁.trans f₂
      rcases hw : writeSlot ofs { e with inUse := false } s₂ with ⟨ok, s₃⟩
      rw [hw] at h
      rcases writeSlot_cases hw with ⟨rfl, hw'⟩ | ⟨rfl, -, -, al, hal, rfl⟩
      · -- the write failed: the inode is closed again
        obtain ⟨s₄, h₄, hb⟩ := Option.map_eq_some_iff.mp h
        cases hb
        exact .inl ⟨rfl, (f₁₂.trans (.of_usesAllocs hw')).trans (inodeFrame_inodeClose h₄)⟩
      · -- the slot is cleared, then `inode_remove` and `inode_close` keep the directory
        obtain ⟨s₄, h₄, hb⟩ := Option.map_eq_some_iff.mp h
        cases hb
        have f₄ := (inodeFrame_inodeRemove _ _).trans (inodeFrame_inodeClose h₄)
        have hr₂ : s₂.root = s.root := f₁₂.1
        refine .inr ⟨rfl, f₁₂.2.1.trans f₄.2.1, f₄.2.2.trans (hal.trans f₁₂.2.2), ofs, hofs,
          he ▸ huse, he ▸ hname, ?_⟩
        rw [f₄.1]
        dsimp only
        rw [hr₂, he]

end Dir

/-! ## Opening and closing files -/

section Files

variable {s s' : Fs}

/-- `inode_open` returns the inode of the sector it was given, or NULL. -/
theorem inodeOpen_fst (sector : Nat) (s : Fs) :
    (inodeOpen sector s).1 = none ∨ (inodeOpen sector s).1 = some sector := by
  unfold inodeOpen
  split
  · exact .inr rfl
  · split
    · exact .inl rfl
    · exact .inr rfl

/-- `dir_lookup` opens the inode of the slot `lookup` found, or returns NULL. -/
theorem dirLookup_some {name : String} {sector : Nat} (h : (dirLookup name s).1 = some sector) :
    ∃ e ofs, (lookup name s).1 = some (e, ofs) ∧ e.inodeSector = sector := by
  unfold dirLookup at h
  split at h
  · rename_i e ofs s₁ hs
    rcases inodeOpen_fst e.inodeSector s₁ with h' | h' <;> rw [h'] at h
    · cases h
    · exact ⟨e, ofs, by rw [hs], Option.some.inj h⟩
  · cases h

/-- What `file_open` can do: return NULL and leave the open files, or hand out the next file
number on the inode it was given, with `ref_count` 1. -/
theorem fileOpen_cases {inode : Option Nat} {f : Option Nat} (h : fileOpen inode s = some (f, s')) :
    s'.root = s.root ∧ s'.allocs <:+ s.allocs ∧
    ((f = none ∧ FilesOf s s') ∨
      (∃ sector, inode = some sector ∧ f = some s.nextFile ∧ s'.nextFile = s.nextFile + 1 ∧
        s'.files = Function.update s.files s.nextFile (some ⟨sector, false, 1⟩))) := by
  have m := inodeFrame_malloc s
  unfold fileOpen at h
  rcases hs₁ : s.malloc with ⟨ok, s₁⟩
  rw [hs₁] at h m
  have r₁ : s₁.root = s.root := m.1
  have g₁ : FilesOf s s₁ := m.2.1
  cases ok with
  | false =>
    -- `calloc` failed: the inode is closed again
    obtain ⟨s₂, h₂, hb⟩ := Option.map_eq_some_iff.mp h
    cases hb
    have f₂ := inodeFrame_inodeClose h₂
    exact ⟨f₂.1.trans r₁, f₂.2.2.trans m.2.2, .inl ⟨rfl, g₁.trans f₂.2.1⟩⟩
  | true =>
    cases inode with
    | none =>
      cases h
      exact ⟨r₁, m.2.2, .inl ⟨rfl, g₁⟩⟩
    | some sector =>
      cases h
      refine ⟨r₁, m.2.2, .inr ⟨sector, rfl, by rw [g₁.2], by simp [g₁.2], ?_⟩⟩
      simp [Fs.setFile, g₁.1, g₁.2]

/-- `file_allow_write` touches only its own file. -/
theorem fileAllowWrite_frame {f : Nat} (h : fileAllowWrite f s = some s') :
    s'.root = s.root ∧ s'.nextFile = s.nextFile ∧ s'.allocs <:+ s.allocs ∧
      ∀ g, g ≠ f → s'.files g = s.files g := by
  unfold fileAllowWrite at h
  split at h
  · split at h
    · have f₁ := inodeFrame_inodeAllowWrite h
      refine ⟨f₁.1, f₁.2.1.2, f₁.2.2, fun g hg => ?_⟩
      rw [f₁.2.1.1]
      exact Function.update_of_ne hg _ _
    · cases h
      exact ⟨rfl, rfl, List.suffix_refl _, fun _ _ => rfl⟩
  · cases h

/-- `file_close` of a file referenced once forgets it, and leaves the directory and the other
files. -/
theorem fileClose_of_single {f : Nat} (h : fileClose (some f) s = some s')
    (hsingle : ∀ file, s.files f = some file → file.refCount = 1) :
    s'.root = s.root ∧ s'.nextFile = s.nextFile ∧ s'.allocs <:+ s.allocs ∧
      s'.files = Function.update s.files f none := by
  dsimp only [fileClose] at h
  split at h
  · -- no such file
    rename_i hnone
    cases h
    exact ⟨rfl, rfl, List.suffix_refl _, by rw [← hnone, Function.update_eq_self]⟩
  · rename_i file hfile
    rw [if_pos (by rw [hsingle file hfile]; decide)] at h
    obtain ⟨s₁, h₁, h⟩ := Option.bind_eq_some_iff.mp h
    obtain ⟨s₂, h₂, h⟩ := Option.bind_eq_some_iff.mp h
    cases h
    obtain ⟨r₁, n₁, a₁, g₁⟩ := fileAllowWrite_frame h₁
    have f₂ := inodeFrame_inodeClose h₂
    refine ⟨f₂.1.trans r₁, f₂.2.1.2.trans n₁, f₂.2.2.trans a₁, ?_⟩
    funext g
    by_cases hg : g = f
    · subst hg
      simp [Fs.setFile]
    · simp only [Fs.setFile, Function.update_of_ne hg, f₂.2.1.1]
      rw [g₁ g hg]
      exact Function.update_of_ne hg _ _

end Files

/-! ## The four calls -/

section Calls

variable {s s' : Fs}

/-- The end of `filesys_create`: the release of the inode sector after a failure, and
`dir_close`, leave the directory and the open files. -/
theorem inodeFrame_createTail {success : Bool} {inodeSector : Nat} {s₂ s₃ : Fs}
    (h : ((if (!success && decide (inodeSector ≠ 0)) = true then freeMapRelease inodeSector 1 s₂
      else some s₂).bind dirCloseRoot) = some s₃) : InodeFrame s₂ s₃ := by
  obtain ⟨s₄, h₄, h₅⟩ := Option.bind_eq_some_iff.mp h
  have f₅ := inodeFrame_inodeClose h₅
  split at h₄
  · exact (inodeFrame_freeMapRelease h₄).trans f₅
  · cases h₄
    exact f₅

/-- `filesys_create`: fails and leaves the directory, or writes a valid name into a slot.  While
every `malloc` succeeds, that name was not in the directory and that slot was free.  The open files
are left alone either way. -/
theorem filesysCreate_cases {name : String} {size : Nat} {b : Bool}
    (h : filesysCreate name size s = some (b, s')) :
    FilesOf s s' ∧ s'.allocs <:+ s.allocs ∧
    ((b = false ∧ s'.root = s.root) ∨
      (b = true ∧ ValidName name ∧ ∃ (ofs : Nat) (hofs : ofs < s.root.length) (sector : Nat),
        s'.root = s.root.set ofs ⟨sector, name, true⟩ ∧
        (s.allocs = [] → Slots.lookup DirEntry.inUse DirEntry.name name s.root = none ∧
          s.root[ofs].inUse = false))) := by
  obtain ⟨⟨ok, s₁⟩, h₁, h⟩ := Option.bind_eq_some_iff.mp h
  have f₁ := inodeFrame_dirOpenRoot h₁
  cases ok with
  | false =>
    cases h
    exact ⟨f₁.2.1, f₁.2.2, .inl ⟨rfl, f₁.1⟩⟩
  | true =>
    simp only at h
    obtain ⟨s₃, h₃, hb⟩ := Option.map_eq_some_iff.mp h
    cases hb
    have f₃ := inodeFrame_createTail h₃
    clear h h₃
    -- what is left is the chain `free_map_allocate && inode_create && dir_add`, by its steps
    revert f₃
    split
    · next s₂ h₂ =>
      intro f₃
      have f := (f₁.trans (inodeFrame_freeMapAllocate h₂)).trans f₃
      exact ⟨f.2.1, f.2.2, .inl ⟨rfl, f.1⟩⟩
    · next inodeSector s₂ h₂ =>
      have f₂ := f₁.trans (inodeFrame_freeMapAllocate h₂)
      have c₂ := inodeFrame_inodeCreate inodeSector size s₂
      split <;> rename_i s₄ h₄ <;> rw [h₄] at c₂ <;> intro f₃
      · have f := f₂.trans (c₂.trans f₃)
        exact ⟨f.2.1, f.2.2, .inl ⟨rfl, f.1⟩⟩
      · have f₄ := f₂.trans c₂
        have hr₄ : s₄.root = s.root := f₄.1
        rcases hadd : dirAdd name inodeSector s₄ with ⟨added, s₅⟩
        rw [hadd] at f₃
        by_cases hnil : s.allocs = []
        · -- with no failing `malloc`, `dir_add` found the name absent and the slot free
          have hnil₄ : s₄.allocs = [] := List.eq_nil_of_suffix_nil (hnil ▸ f₄.2.2)
          rcases dirAdd_cases_of_nil hnil₄ hadd with ⟨rfl, rfl⟩ |
            ⟨rfl, hvalid, hnone, ofs, hofs, hfree, rfl⟩
          · have f := f₄.trans f₃
            exact ⟨f.2.1, f.2.2, .inl ⟨rfl, f.1⟩⟩
          · refine ⟨f₄.2.1.trans f₃.2.1, f₃.2.2.trans f₄.2.2, .inr ⟨rfl, hvalid, ofs, hr₄ ▸ hofs,
              inodeSector, ?_, fun _ => ?_⟩⟩
            · rw [f₃.1]
              dsimp only
              rw [hr₄]
            · simp only [hr₄] at hnone hfree
              exact ⟨hnone, hfree⟩
        · rcases dirAdd_cases hadd with ⟨rfl, f₅⟩ | ⟨rfl, hvalid, ofs, hofs, al, hal, rfl⟩
          · have f := (f₄.trans (.of_usesAllocs f₅)).trans f₃
            exact ⟨f.2.1, f.2.2, .inl ⟨rfl, f.1⟩⟩
          · refine ⟨f₄.2.1.trans f₃.2.1, f₃.2.2.trans (hal.trans f₄.2.2), .inr ⟨rfl, hvalid, ofs,
              hr₄ ▸ hofs, inodeSector, ?_, fun h => absurd h hnil⟩⟩
            rw [f₃.1]
            dsimp only
            rw [hr₄]

/-- `filesys_remove`: fails and leaves the directory, or frees the first slot in use with the
name.  The open files are left alone either way. -/
theorem filesysRemove_cases {name : String} {b : Bool}
    (h : filesysRemove name s = some (b, s')) :
    FilesOf s s' ∧ s'.allocs <:+ s.allocs ∧
    ((b = false ∧ s'.root = s.root) ∨
      (b = true ∧ ∃ (ofs : Nat) (hofs : ofs < s.root.length),
        s.root[ofs].inUse = true ∧ s.root[ofs].name = name ∧
        s'.root = s.root.set ofs { s.root[ofs] with inUse := false })) := by
  obtain ⟨⟨ok, s₁⟩, h₁, h⟩ := Option.bind_eq_some_iff.mp h
  have f₁ := inodeFrame_dirOpenRoot h₁
  cases ok with
  | false =>
    cases h
    exact ⟨f₁.2.1, f₁.2.2, .inl ⟨rfl, f₁.1⟩⟩
  | true =>
    obtain ⟨⟨ok, s₂⟩, h₂, h⟩ := Option.bind_eq_some_iff.mp h
    obtain ⟨s₃, h₃, h⟩ := Option.map_eq_some_iff.mp h
    cases h
    have f₃ := inodeFrame_inodeClose h₃
    rcases dirRemove_cases h₂ with ⟨rfl, f₂⟩ | ⟨rfl, g₂, a₂, ofs, hofs, hu, hname, hroot⟩
    · have f := (f₁.trans f₂).trans f₃
      exact ⟨f.2.1, f.2.2, .inl ⟨rfl, f.1⟩⟩
    · refine ⟨f₁.2.1.trans (g₂.trans f₃.2.1), f₃.2.2.trans (a₂.trans f₁.2.2),
        .inr ⟨rfl, ofs, f₁.1 ▸ hofs, ?_⟩⟩
      simp only [f₁.1] at hu hname hroot
      exact ⟨hu, hname, f₃.1.trans hroot⟩

/-- `filesys_open`: returns NULL and leaves the open files, or hands out the next file number on
the inode of a slot in use with the name, which, while every `malloc` succeeds, is the first
such slot.  The directory is left alone either way. -/
theorem filesysOpen_cases {name : String} {f : Option Nat}
    (h : filesysOpen name s = some (f, s')) :
    s'.root = s.root ∧ s'.allocs <:+ s.allocs ∧
    ((f = none ∧ FilesOf s s') ∨
      (∃ e ∈ s.root, e.inUse = true ∧ e.name = name ∧
        (s.allocs = [] → Slots.lookup DirEntry.inUse DirEntry.name name s.root = some e) ∧
        f = some s.nextFile ∧ s'.nextFile = s.nextFile + 1 ∧
        s'.files = Function.update s.files s.nextFile (some ⟨e.inodeSector, false, 1⟩))) := by
  obtain ⟨⟨ok, s₁⟩, h₁, h⟩ := Option.bind_eq_some_iff.mp h
  have f₁ := inodeFrame_dirOpenRoot h₁
  cases ok with
  | false =>
    -- `dir_close (NULL)`, then `file_open (NULL)`
    obtain ⟨r, a, ⟨rfl, g⟩ | ⟨_, hnull, -⟩⟩ := fileOpen_cases h
    · exact ⟨r.trans f₁.1, a.trans f₁.2.2, .inl ⟨rfl, f₁.2.1.trans g⟩⟩
    · cases hnull
  | true =>
    -- `dir_lookup`, then `dir_close`, then `file_open`
    have f₂ := inodeFrame_dirLookup name s₁
    rcases hdl : dirLookup name s₁ with ⟨inode, s₂⟩
    rw [hdl] at f₂
    simp only [hdl] at h
    obtain ⟨s₃, h₃, h⟩ := Option.bind_eq_some_iff.mp h
    have f := (f₁.trans f₂).trans (inodeFrame_inodeClose h₃)
    obtain ⟨r, a, hf⟩ := fileOpen_cases h
    refine ⟨r.trans f.1, a.trans f.2.2, ?_⟩
    rcases hf with ⟨rfl, g⟩ | ⟨sector, rfl, rfl, hnext, hfiles⟩
    · exact .inl ⟨rfl, f.2.1.trans g⟩
    · obtain ⟨e, ofs, he, rfl⟩ := dirLookup_some (s := s₁) (by rw [hdl])
      obtain ⟨hofs, hslot, huse, hname⟩ := (lookup_spec name s₁).2 e ofs he
      have hr₁ : s₁.root = s.root := f₁.1
      have hn : s₃.nextFile = s.nextFile := f.2.1.2
      refine .inr ⟨e, hr₁ ▸ hslot ▸ List.getElem_mem hofs, huse, hname, fun hnil => ?_, by rw [hn],
        by rw [hnext, hn], by rw [hfiles, f.2.1.1, hn]⟩
      -- with no failing `malloc`, `lookup` finds the first slot with the name
      have hnil₁ : s₁.allocs = [] := List.eq_nil_of_suffix_nil (hnil ▸ f₁.2.2)
      have hfirst := (lookupFrom_of_nil name hnil₁ s₁.root 0).2
      rw [← hr₁, ← hfirst]
      simp only [lookup] at he
      rw [he]
      rfl

end Calls

/-! ## Runs of calls -/

/-- The calls of `filesys.c` and `file.c` that reach the root directory and the open files. -/
inductive FsCall where
  | filesysCreate (name : String) (initialSize : Nat)
  | filesysOpen (name : String)
  | filesysRemove (name : String)
  | fileClose (file : Nat)
  deriving DecidableEq, Repr

/-- What a call returns: `true` or `false`, the open file or NULL, or nothing. -/
inductive FsRet where
  | bool (b : Bool)
  | file (f : Option Nat)
  | unit
  deriving DecidableEq, Repr

/-- A call and its result; `none` when an `ASSERT` of the call fails. -/
def fsCall : FsCall → Fs → Option (FsRet × Fs)
  | .filesysCreate name initialSize, s =>
    (filesysCreate name initialSize s).map fun (b, s') => (.bool b, s')
  | .filesysOpen name, s => (filesysOpen name s).map fun (f, s') => (.file f, s')
  | .filesysRemove name, s => (filesysRemove name s).map fun (b, s') => (.bool b, s')
  | .fileClose f, s => (fileClose (some f) s).map fun s' => (.unit, s')

/-- One call, made with the result it returned. -/
def FsStep (s : Fs) (ev : FsCall × FsRet) (s' : Fs) : Prop := fsCall ev.1 s = some (ev.2, s')

/-- What a process sees of the file system: the inode sector of each name in the root directory,
and the inode sector of each open file. -/
structure FsView where
  dir : String → Option Nat
  files : Nat → Option Nat

/-- The view of a state: the first slot in use with each name, and the inode of each
`struct file`. -/
def view (s : Fs) : FsView where
  dir name := (Slots.lookup DirEntry.inUse DirEntry.name name s.root).map DirEntry.inodeSector
  files f := (s.files f).map File.inode

/-- What each call may do to the view. -/
inductive FsSpec : FsView → FsCall × FsRet → FsView → Prop
  | create {v : FsView} {name : String} {initialSize sector : Nat} :
      ValidName name → v.dir name = none →
      FsSpec v (.filesysCreate name initialSize, .bool true)
        { v with dir := Function.update v.dir name (some sector) }
  | createFails {v : FsView} {name : String} {initialSize : Nat} :
      FsSpec v (.filesysCreate name initialSize, .bool false) v
  | remove {v : FsView} {name : String} :
      v.dir name ≠ none →
      FsSpec v (.filesysRemove name, .bool true) { v with dir := Function.update v.dir name none }
  | removeFails {v : FsView} {name : String} : FsSpec v (.filesysRemove name, .bool false) v
  | openFile {v : FsView} {name : String} {f sector : Nat} :
      v.dir name = some sector → v.files f = none →
      FsSpec v (.filesysOpen name, .file (some f))
        { v with files := Function.update v.files f (some sector) }
  | openFails {v : FsView} {name : String} : FsSpec v (.filesysOpen name, .file none) v
  | close {v : FsView} {f : Nat} :
      FsSpec v (.fileClose f, .unit) { v with files := Function.update v.files f none }

/-- What the open files keep: the file numbers from `nextFile` on are free, and every open file
is referenced once. -/
structure FilesInv (s : Fs) : Prop where
  fresh : ∀ f, s.nextFile ≤ f → s.files f = none
  single : ∀ f file, s.files f = some file → file.refCount = 1

/-- What the refinement needs of a state: `FilesInv`, and no two slots in use share a name. -/
structure FsInv (s : Fs) : Prop extends FilesInv s where
  unique : Slots.Distinct DirEntry.inUse DirEntry.name s.root

section Step

variable {s t : Fs}

/-! ### The view after each kind of step -/

theorem view_of_frame (hr : t.root = s.root) (hf : FilesOf s t) : view t = view s := by
  simp only [view, hr, hf.1]

theorem view_add {name : String} {sector ofs : Nat}
    (hnone : Slots.lookup DirEntry.inUse DirEntry.name name s.root = none)
    (hofs : ofs < s.root.length) (hfree : s.root[ofs].inUse = false)
    (hr : t.root = s.root.set ofs ⟨sector, name, true⟩) (hf : FilesOf s t) :
    view t = { view s with dir := Function.update (view s).dir name (some sector) } := by
  have hslot k := Slots.lookup_set_add hofs hfree (e := ⟨sector, name, true⟩) rfl hnone k
  simp only [view, hr, hf.1, FsView.mk.injEq, and_true]
  funext k
  rw [hslot k]
  by_cases hk : k = name
  · subst hk
    simp
  · simp [Function.update_of_ne hk, Ne.symm hk]

theorem view_remove {name : String} {ofs : Nat} (hu : FsInv s) (hofs : ofs < s.root.length)
    (huse : s.root[ofs].inUse = true) (hname : s.root[ofs].name = name)
    (hr : t.root = s.root.set ofs { s.root[ofs] with inUse := false }) (hf : FilesOf s t) :
    view t = { view s with dir := Function.update (view s).dir name none } := by
  have hslot k := Slots.lookup_set_remove hu.unique hofs huse (e := { s.root[ofs] with inUse := false })
    rfl k
  simp only [view, hr, hf.1, FsView.mk.injEq, and_true]
  funext k
  rw [hslot k, hname]
  by_cases hk : k = name
  · subst hk
    simp
  · simp [Function.update_of_ne hk, Ne.symm hk]

theorem view_files {f : Nat} {file : Option File} (hr : t.root = s.root)
    (hf : t.files = Function.update s.files f file) :
    view t = { view s with files := Function.update (view s).files f (file.map File.inode) } := by
  simp only [view, hr, hf, FsView.mk.injEq, true_and]
  funext g
  by_cases hg : g = f
  · subst hg
    simp
  · simp [Function.update_of_ne hg]

/-! ### The invariants after each kind of step -/

/-- A step that keeps the open files keeps `FilesInv`. -/
theorem FilesInv.of_files (hi : FilesInv s) (hf : FilesOf s t) : FilesInv t where
  fresh f hle := by
    rw [hf.1]
    exact hi.fresh f (hf.2 ▸ hle)
  single f file := by
    rw [hf.1]
    exact hi.single f file

theorem FilesInv.openFile (hi : FilesInv s) {sector : Nat} (hn : t.nextFile = s.nextFile + 1)
    (hf : t.files = Function.update s.files s.nextFile (some ⟨sector, false, 1⟩)) :
    FilesInv t where
  fresh f hle := by
    rw [hf, Function.update_of_ne (by omega)]
    exact hi.fresh f (by omega)
  single f file hfile := by
    rw [hf] at hfile
    by_cases hg : f = s.nextFile
    · subst hg
      simp only [Function.update_self, Option.some.injEq] at hfile
      rw [← hfile]
    · rw [Function.update_of_ne hg] at hfile
      exact hi.single f file hfile

theorem FilesInv.close (hi : FilesInv s) {f : Nat} (hn : t.nextFile = s.nextFile)
    (hf : t.files = Function.update s.files f none) : FilesInv t where
  fresh g hle := by
    rw [hf]
    by_cases hg : g = f
    · subst hg
      exact Function.update_self _ _ _
    · rw [Function.update_of_ne hg]
      exact hi.fresh g (hn ▸ hle)
  single g file hfile := by
    rw [hf] at hfile
    by_cases hg : g = f
    · subst hg
      simp at hfile
    · rw [Function.update_of_ne hg] at hfile
      exact hi.single g file hfile

/-- **One step**: while every `malloc` succeeds, every call from a state with `FsInv` is a step of
`FsSpec` on the views, and keeps `FsInv`; no `malloc` fails after it either. -/
theorem fsStep_spec {ev : FsCall × FsRet} (hi : FsInv s) (hnil : s.allocs = [])
    (h : FsStep s ev t) : FsSpec (view s) ev (view t) ∧ FsInv t ∧ t.allocs = [] := by
  obtain ⟨c, r⟩ := ev
  cases c with
  | filesysCreate name size =>
    obtain ⟨⟨b, t'⟩, ht, hr⟩ := Option.map_eq_some_iff.mp h
    cases hr
    obtain ⟨hf, ha, ⟨rfl, hroot⟩ | ⟨rfl, hvalid, ofs, hofs, sector, hroot, hnew⟩⟩ :=
      filesysCreate_cases ht
    · rw [view_of_frame hroot hf]
      exact ⟨.createFails, ⟨hi.toFilesInv.of_files hf, hroot ▸ hi.unique⟩,
        List.eq_nil_of_suffix_nil (hnil ▸ ha)⟩
    · obtain ⟨hnone, hfree⟩ := hnew hnil
      rw [view_add hnone hofs hfree hroot hf]
      refine ⟨.create hvalid (by simp [view, hnone]), ⟨hi.toFilesInv.of_files hf, ?_⟩,
        List.eq_nil_of_suffix_nil (hnil ▸ ha)⟩
      rw [hroot]
      exact hi.unique.set_fresh ofs hnone
  | filesysOpen name =>
    obtain ⟨⟨f, t'⟩, ht, hr⟩ := Option.map_eq_some_iff.mp h
    cases hr
    obtain ⟨hroot, ha, ⟨rfl, hf⟩ | ⟨e, -, -, -, he, rfl, hn, hf⟩⟩ := filesysOpen_cases ht
    · rw [view_of_frame hroot hf]
      exact ⟨.openFails, ⟨hi.toFilesInv.of_files hf, hroot ▸ hi.unique⟩,
        List.eq_nil_of_suffix_nil (hnil ▸ ha)⟩
    · rw [view_files hroot hf]
      have hfresh : (view s).files s.nextFile = none := by
        simp [view, hi.fresh s.nextFile le_rfl]
      exact ⟨.openFile (by simp [view, he hnil]) hfresh,
        ⟨hi.toFilesInv.openFile hn hf, hroot ▸ hi.unique⟩, List.eq_nil_of_suffix_nil (hnil ▸ ha)⟩
  | filesysRemove name =>
    obtain ⟨⟨b, t'⟩, ht, hr⟩ := Option.map_eq_some_iff.mp h
    cases hr
    obtain ⟨hf, ha, ⟨rfl, hroot⟩ | ⟨rfl, ofs, hofs, huse, hname, hroot⟩⟩ :=
      filesysRemove_cases ht
    · rw [view_of_frame hroot hf]
      exact ⟨.removeFails, ⟨hi.toFilesInv.of_files hf, hroot ▸ hi.unique⟩,
        List.eq_nil_of_suffix_nil (hnil ▸ ha)⟩
    · rw [view_remove hi hofs huse hname hroot hf]
      refine ⟨.remove ?_, ⟨hi.toFilesInv.of_files hf, ?_⟩, List.eq_nil_of_suffix_nil (hnil ▸ ha)⟩
      · -- the slot `dir_remove` cleared was in use with the name, so the view has it
        intro hnone
        have h0 : Slots.lookup DirEntry.inUse DirEntry.name name s.root = none := by
          simpa [view] using hnone
        exact Slots.lookup_eq_none_iff.mp h0 _ (List.getElem_mem hofs) huse hname
      · rw [hroot]
        exact hi.unique.set_unused ofs rfl
  | fileClose f =>
    obtain ⟨t', ht, hr⟩ := Option.map_eq_some_iff.mp h
    cases hr
    obtain ⟨hroot, hn, ha, hf⟩ := fileClose_of_single ht (hi.single f)
    rw [view_files hroot hf]
    exact ⟨.close, ⟨hi.toFilesInv.close hn hf, hroot ▸ hi.unique⟩,
      List.eq_nil_of_suffix_nil (hnil ▸ ha)⟩

end Step

/-- A file system with an empty root directory of sixteen slots, as `do_format` makes it, the
sectors of the free map and the root directory in use, no open files, and no `malloc` that
fails. -/
def emptyFs : Fs where
  freeMap := (Bitmap.bitmapCreate 64).bitmapSetMultiple 0 2 true
  disk := fun _ => ⟨0, 0⟩
  openInodes := fun _ => none
  root := List.replicate 16 ⟨0, "", false⟩
  files := fun _ => none
  nextFile := 0
  allocs := []

theorem fsInv_emptyFs : FsInv emptyFs where
  unique := Slots.distinct_of_getElem fun i _ hi _ _ hu _ => by
    simp only [emptyFs, List.getElem_replicate, Bool.false_eq_true] at hu
  fresh _ _ := rfl
  single _ _ h := by cases h

/-- Create `a`, open it, remove it while it is open, and close it: the inode is freed only
then. -/
def session : List (FsCall × FsRet) :=
  [(.filesysCreate "a" 0, .bool true), (.filesysOpen "a", .file (some 0)),
    (.filesysRemove "a", .bool true), (.fileClose 0, .unit)]

theorem session_run : ∃ s, Lts.Run FsStep emptyFs session s :=
  ⟨_, Lts.Run.cons rfl (Lts.Run.cons rfl (Lts.Run.cons rfl (Lts.Run.single rfl)))⟩

/-- **Refinement**: from a state with `FsInv` in which every `malloc` succeeds, every run of calls
is, on the views, a run of `FsSpec` with the same calls and results. -/
theorem fs_refines_spec {s₀ s : Fs} {evs : List (FsCall × FsRet)} (h0 : FsInv s₀)
    (hnil : s₀.allocs = []) (h : Lts.Run FsStep s₀ evs s) : Lts.Run FsSpec (view s₀) evs (view s) :=
  Lts.Run.refines view (fun s => FsInv s ∧ s.allocs = [])
    (fun _ _ _ hi hs => (fsStep_spec hi.1 hi.2 hs).2)
    (fun _ _ _ hi hs => (fsStep_spec hi.1 hi.2 hs).1) ⟨h0, hnil⟩ h

theorem fs_refines_spec_session :
    FsInv emptyFs ∧ emptyFs.allocs = [] ∧ ∃ s, Lts.Run FsStep emptyFs session s ∧
      Lts.Run FsSpec (view emptyFs) session (view s) := by
  obtain ⟨s, hs⟩ := session_run
  exact ⟨fsInv_emptyFs, rfl, s, hs, fs_refines_spec fsInv_emptyFs rfl hs⟩

end Pintos.Filesys
