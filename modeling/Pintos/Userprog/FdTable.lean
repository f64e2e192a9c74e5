import Mathlib.Data.List.Infix
import Mathlib.Data.List.Nodup
import Pintos.Filesys.Filesys
import Pintos.Lib.Run
import Pintos.Userprog.Syscall

/-!
# Descriptor tables: `userprog/syscall.c` and the files of `userprog/process.c`

A process keeps its open files as a list of `struct file_descriptor` (a number and a `struct
file`), with `next_fd` the number of the next one, and its executable as a `struct file` of its
own.  `syscall_open` and `syscall_close` change the table of the calling process,
`fork_child_process` builds the child's table with `copy_file_descriptors`, and `process_exit`
closes the executable and then every descriptor.  The `struct file`s, the inodes and the heap
are those of `Pintos.Filesys`, where any `malloc` may fail.

`Sys` holds the file system and the live processes by pid, and `FdStep` is one of these calls
by a live process.  `read`, `write`, `seek`, `tell` and `filesize` only look a descriptor up
(`findFileDescriptor`) and change no table and no count, so no step stands for them.

## Results

* `fdsWf_run` — in every live process the descriptor numbers stay distinct, at least
  `FIRST_FILE_FD` and below `next_fd`, over every run.
* `copyFds_spec` — what the loop of `copy_file_descriptors` leaves when it stops: the child has
  a prefix of the parent's table, and every `ref_count` is raised by the copies in it, also when
  a `malloc` stopped the loop and the fork fails.
* `failed_open_leaves_unreferenced_file` — when the descriptor's `malloc` in `syscall_open`
  fails after `filesys_open`, a `struct file` with `ref_count` 1 stays open that no descriptor
  and no executable refers to.
-/

set_option autoImplicit false

namespace Pintos.Userprog.FdTable

open Pintos.Filesys

/-- `struct file_descriptor`. -/
structure FileDescriptor where
  fd : Int
  /-- The `struct file`, by number. -/
  file : Nat
  deriving DecidableEq, Repr

/-- The fields of `struct process` the descriptor table uses. -/
structure Process where
  openFiles : List FileDescriptor
  nextFd : Int
  executableFile : Option Nat
  processName : String
  deriving DecidableEq, Repr

/-- `find_file_descriptor`. -/
def findFileDescriptor (pcb : Process) (fd : Int) : Option FileDescriptor :=
  if fd < FIRST_FILE_FD then none else pcb.openFiles.find? fun d => d.fd == fd

/-- The new descriptor of `syscall_open`: number `next_fd++`, at the back of the table. -/
def Process.addFd (pcb : Process) (f : Nat) : Process :=
  { pcb with openFiles := pcb.openFiles ++ [⟨pcb.nextFd, f⟩], nextFd := pcb.nextFd + 1 }

/-- `syscall_open`: the descriptor or -1, the process and the file system.  A NULL name is
`none`. -/
def syscallOpen (file : Option String) (pcb : Process) (fs : Fs) : Option (Int × Process × Fs) :=
  match file with
  | none => some (-1, pcb, fs)
  | some name =>
    (filesysOpen name fs).bind fun
      | (none, fs₁) => some (-1, pcb, fs₁)
      | (some f, fs₁) =>
        match fs₁.malloc with
        | (false, fs₂) => some (-1, pcb, fs₂)
        | (true, fs₂) => some (pcb.nextFd, pcb.addFd f, fs₂)

/-- `syscall_close`. -/
def syscallClose (fd : Int) (pcb : Process) (fs : Fs) : Option (Bool × Process × Fs) :=
  match findFileDescriptor pcb fd with
  | none => some (false, pcb, fs)
  | some d =>
    (fileClose (some d.file) fs).map fun fs₁ =>
      (true, { pcb with openFiles := pcb.openFiles.erase d }, fs₁)

/-- The loop of `copy_file_descriptors` over the parent's descriptors still to copy: each copy
is a `malloc` and a `file_ref`. -/
def copyFds (child : Process) : List FileDescriptor → Fs → Bool × Process × Fs
  | [], fs => (true, child, fs)
  | d :: ds, fs =>
    match fs.malloc with
    | (false, fs₁) => (false, child, fs₁)
    | (true, fs₁) => copyFds { child with openFiles := child.openFiles ++ [d] } ds (fileRef d.file fs₁)

/-- `copy_file_descriptors`. -/
def copyFileDescriptors (child parent : Process) (fs : Fs) : Bool × Process × Fs :=
  copyFds child parent.openFiles fs

/-- The executable of a forked child: when the parent has one, `filesys_open` of the parent's
name, with writes denied. -/
def forkExecutable (parent : Process) (fs : Fs) : Option (Option Nat × Fs) :=
  match parent.executableFile with
  | none => some (none, fs)
  | some _ =>
    (filesysOpen parent.processName fs).bind fun
      | (none, fs₁) => some (none, fs₁)
      | (some f, fs₁) => (fileDenyWrite f fs₁).map fun fs₂ => (some f, fs₂)

/-- `fork_child_process` up to `sema_up`: the child's `struct process`, or `none` when the fork
failed; `pagedirOk` is whether `pagedir_copy` succeeded.  A failed fork frees the PCB and
nothing else. -/
def forkChildProcess (parent : Process) (pagedirOk : Bool) (fs : Fs) :
    Option (Option Process × Fs) :=
  match fs.malloc with
  | (false, fs₁) => some (none, fs₁)
  | (true, fs₁) =>
    (forkExecutable parent fs₁).bind fun (exe, fs₂) =>
      let child : Process := ⟨[], parent.nextFd, exe, parent.processName⟩
      if pagedirOk then
        match copyFileDescriptors child parent fs₂ with
        | (true, child₁, fs₃) => some (some child₁, fs₃)
        | (false, _, fs₃) => some (none, fs₃)
      else some (none, fs₂)

/-- `destroy_file_descriptor_table`: close the descriptors from the back. -/
def destroyFileDescriptorTable (pcb : Process) (fs : Fs) : Option Fs :=
  pcb.openFiles.foldr (fun d acc => acc.bind (fileClose (some d.file))) (some fs)

/-- The file part of `process_exit`: allow writes to the executable and close it, then destroy
the descriptor table.  `file_allow_write (NULL)` fails its `ASSERT`. -/
def processExit (pcb : Process) (fs : Fs) : Option Fs :=
  match pcb.executableFile with
  | none => none
  | some f => do
    let fs₁ ← fileAllowWrite f fs
    let fs₂ ← fileClose (some f) fs₁
    destroyFileDescriptorTable pcb fs₂

/-! ## The system -/

/-- The file system and the live processes by pid.  Pids come from a counter, as `allocate_tid`
gives them, so every live process has a pid below it. -/
structure Sys where
  fs : Fs
  procs : Nat → Option Process
  nextPid : Nat
  procs_ge : ∀ q, nextPid ≤ q → procs q = none

namespace Sys

theorem lt_of_live {s : Sys} {p : Nat} {pcb : Process} (h : s.procs p = some pcb) :
    p < s.nextPid := by
  by_contra hp
  rw [s.procs_ge p (by omega)] at h
  cases h

/-- Replace the process `p`, or end it, and the file system. -/
def setProc (s : Sys) (p : Nat) (pcb : Option Process) (fs : Fs) (hp : p < s.nextPid) : Sys where
  fs := fs
  procs := Function.update s.procs p pcb
  nextPid := s.nextPid
  procs_ge q hq := by rw [Function.update_of_ne (by omega), s.procs_ge q hq]

/-- A new process at the next pid; `none` when the fork failed, which uses the pid up all the
same. -/
def spawn (s : Sys) (child : Option Process) (fs : Fs) : Sys where
  fs := fs
  procs := Function.update s.procs s.nextPid child
  nextPid := s.nextPid + 1
  procs_ge q hq := by rw [Function.update_of_ne (by omega), s.procs_ge q (by omega)]

end Sys

/-- What a step did, and what it returned. -/
inductive FdEvent where
  | opened (p : Nat) (fd : Int)
  | closed (p : Nat) (ok : Bool)
  | forked (p child : Nat) (ok : Bool)
  | exited (p : Nat)
  deriving DecidableEq, Repr

/-- One call by a live process. -/
inductive FdStep : Sys → FdEvent → Sys → Prop
  | openFile {s : Sys} {p : Nat} {pcb pcb' : Process} {file : Option String} {r : Int} {fs : Fs}
      (hp : s.procs p = some pcb) (h : syscallOpen file pcb s.fs = some (r, pcb', fs)) :
      FdStep s (.opened p r) (s.setProc p (some pcb') fs (Sys.lt_of_live hp))
  | closeFd {s : Sys} {p : Nat} {pcb pcb' : Process} {fd : Int} {ok : Bool} {fs : Fs}
      (hp : s.procs p = some pcb) (h : syscallClose fd pcb s.fs = some (ok, pcb', fs)) :
      FdStep s (.closed p ok) (s.setProc p (some pcb') fs (Sys.lt_of_live hp))
  | fork {s : Sys} {p : Nat} {pcb : Process} {pagedirOk : Bool} {child : Option Process}
      {fs : Fs} (hp : s.procs p = some pcb)
      (h : forkChildProcess pcb pagedirOk s.fs = some (child, fs)) :
      FdStep s (.forked p s.nextPid child.isSome) (s.spawn child fs)
  | exit {s : Sys} {p : Nat} {pcb : Process} {fs : Fs}
      (hp : s.procs p = some pcb) (h : processExit pcb s.fs = some fs) :
      FdStep s (.exited p) (s.setProc p none fs (Sys.lt_of_live hp))

/-! ## Descriptor numbers -/

/-- The numbers of a descriptor table: distinct, from `FIRST_FILE_FD` on, and below `next_fd`. -/
structure FdsWf (pcb : Process) : Prop where
  first : FIRST_FILE_FD ≤ pcb.nextFd
  bounds : ∀ d ∈ pcb.openFiles, FIRST_FILE_FD ≤ d.fd ∧ d.fd < pcb.nextFd
  nodup : (pcb.openFiles.map FileDescriptor.fd).Nodup

namespace FdsWf

variable {pcb : Process}

theorem addFd (hw : FdsWf pcb) (f : Nat) : FdsWf (pcb.addFd f) where
  first := by
    have := hw.first
    simp only [Process.addFd]
    omega
  bounds d hd := by
    have := hw.first
    simp only [Process.addFd, List.mem_append, List.mem_singleton] at hd ⊢
    rcases hd with hd | rfl
    · have := hw.bounds d hd
      omega
    · dsimp only
      omega
  nodup := by
    simp only [Process.addFd, List.map_append, List.map_cons, List.map_nil]
    refine List.nodup_append.mpr ⟨hw.nodup, List.nodup_singleton _, ?_⟩
    -- the new number is `next_fd`, above every number in the table
    intro a ha b hb
    obtain ⟨d, hd, rfl⟩ := List.mem_map.mp ha
    rw [List.mem_singleton.mp hb]
    exact Int.ne_of_lt (hw.bounds d hd).2

theorem erase (hw : FdsWf pcb) (d : FileDescriptor) :
    FdsWf { pcb with openFiles := pcb.openFiles.erase d } where
  first := hw.first
  bounds e he := hw.bounds e (List.mem_of_mem_erase he)
  nodup := hw.nodup.sublist (List.erase_sublist.map _)

/-- A child that starts with a prefix of its parent's table and the parent's `next_fd`. -/
theorem of_prefix {parent : Process} (hw : FdsWf parent) {pre : List FileDescriptor}
    (hpre : pre <+: parent.openFiles) (exe : Option Nat) (name : String) :
    FdsWf ⟨pre, parent.nextFd, exe, name⟩ where
  first := hw.first
  bounds e he := hw.bounds e (hpre.subset he)
  nodup := hw.nodup.sublist (hpre.sublist.map _)

end FdsWf

/-- **The copy loop.**  Wherever it stops, the child holds a prefix of the parent's table (all of
it when the loop succeeded), and each `ref_count` is raised by the copies in that prefix. -/
theorem copyFds_spec (child : Process) (ds : List FileDescriptor) (fs : Fs) :
    ∃ pre, pre <+: ds ∧
      (copyFds child ds fs).2.1 = { child with openFiles := child.openFiles ++ pre } ∧
      ((copyFds child ds fs).1 = true → pre = ds) ∧
      ∀ f, ((copyFds child ds fs).2.2.files f).map File.refCount =
        ((fs.files f).map File.refCount).map (· + ((pre.countP fun d => d.file == f) : Int)) := by
  induction ds generalizing child fs with
  | nil => exact ⟨[], List.nil_prefix, by simp [copyFds], by simp [copyFds], fun f => by simp [copyFds, Function.comp_def]⟩
  | cons d ds ih =>
    rcases hm : fs.malloc with ⟨_ | _, fs₁⟩
    all_goals have hf : FilesOf fs fs₁ := by simpa [hm] using filesOf_malloc fs
    · -- the `malloc` fails: nothing more is copied
      refine ⟨[], List.nil_prefix, by simp [copyFds, hm], by simp [copyFds, hm], fun f => ?_⟩
      simp [copyFds, hm, hf.1, Function.comp_def]
    · obtain ⟨pre, hpre, hchild, hok, hrc⟩ :=
        ih { child with openFiles := child.openFiles ++ [d] } (fileRef d.file fs₁)
      refine ⟨d :: pre, (List.prefix_cons_inj d).mpr hpre, ?_, ?_, fun f => ?_⟩
      · simp [copyFds, hm, hchild]
      · simp only [copyFds, hm]
        intro h
        rw [hok h]
      · simp only [copyFds, hm]
        rw [hrc f, fileRef_refCount, hf.1]
        cases fs.files f with
        | none => rfl
        | some file =>
          simp only [Option.map_some, Option.some.injEq, List.countP_cons, beq_iff_eq]
          split_ifs <;> push_cast <;> omega

theorem syscallOpen_fdsWf {file : Option String} {pcb pcb' : Process} {fs fs' : Fs} {r : Int}
    (h : syscallOpen file pcb fs = some (r, pcb', fs')) (hw : FdsWf pcb) : FdsWf pcb' := by
  unfold syscallOpen at h
  split at h
  · cases h
    exact hw
  · obtain ⟨⟨f?, fs₁⟩, -, h⟩ := Option.bind_eq_some_iff.mp h
    cases f? with
    | none =>
      cases h
      exact hw
    | some f =>
      simp only at h
      split at h
      · cases h
        exact hw
      · cases h
        exact hw.addFd f

theorem syscallClose_fdsWf {fd : Int} {pcb pcb' : Process} {fs fs' : Fs} {ok : Bool}
    (h : syscallClose fd pcb fs = some (ok, pcb', fs')) (hw : FdsWf pcb) : FdsWf pcb' := by
  unfold syscallClose at h
  split at h
  · cases h
    exact hw
  · obtain ⟨fs₁, -, h⟩ := Option.map_eq_some_iff.mp h
    cases h
    exact hw.erase _

theorem forkChildProcess_fdsWf {parent child : Process} {pagedirOk : Bool} {fs fs' : Fs}
    (h : forkChildProcess parent pagedirOk fs = some (some child, fs')) (hw : FdsWf parent) :
    FdsWf child := by
  unfold forkChildProcess at h
  split at h
  · cases h
  · obtain ⟨⟨exe, fs₂⟩, -, h⟩ := Option.bind_eq_some_iff.mp h
    simp only at h
    split at h
    · -- `pagedir_copy` succeeded, and the child's table is what the copy loop built
      obtain ⟨pre, hpre, hchild, -, -⟩ :=
        copyFds_spec ⟨[], parent.nextFd, exe, parent.processName⟩ parent.openFiles fs₂
      unfold copyFileDescriptors at h
      rcases hc : copyFds ⟨[], parent.nextFd, exe, parent.processName⟩ parent.openFiles fs₂ with
        ⟨_ | _, child₁, fs₃⟩
      · rw [hc] at h
        cases h
      · rw [hc] at h hchild
        cases h
        simp only at hchild
        rw [hchild]
        simpa using hw.of_prefix hpre exe parent.processName
    · cases h

/-- Every live process has a well-formed table. -/
def AllFdsWf (s : Sys) : Prop := ∀ p pcb, s.procs p = some pcb → FdsWf pcb

theorem allFdsWf_update {procs : Nat → Option Process}
    (hw : ∀ p pcb, procs p = some pcb → FdsWf pcb) (q : Nat) {o : Option Process}
    (ho : ∀ pcb, o = some pcb → FdsWf pcb) :
    ∀ p pcb, Function.update procs q o p = some pcb → FdsWf pcb := by
  intro p pcb hp
  by_cases hpq : p = q
  · subst hpq
    exact ho pcb (by simpa using hp)
  · exact hw p pcb (by simpa [Function.update_of_ne hpq] using hp)

theorem AllFdsWf.step {s s' : Sys} {e : FdEvent} (hw : AllFdsWf s) (h : FdStep s e s') :
    AllFdsWf s' := by
  cases h with
  | openFile hp h =>
    exact allFdsWf_update hw _ fun pcb hpcb => by
      cases hpcb
      exact syscallOpen_fdsWf h (hw _ _ hp)
  | closeFd hp h =>
    exact allFdsWf_update hw _ fun pcb hpcb => by
      cases hpcb
      exact syscallClose_fdsWf h (hw _ _ hp)
  | fork hp h =>
    exact allFdsWf_update hw _ fun c hc => by
      subst hc
      exact forkChildProcess_fdsWf h (hw _ _ hp)
  | exit hp h => exact allFdsWf_update hw _ fun _ hc => by cases hc

/-- **Descriptor numbers over a run.** -/
theorem fdsWf_run {s₀ s : Sys} {evs : List FdEvent} (h0 : AllFdsWf s₀)
    (hrun : Lts.Run FdStep s₀ evs s) : AllFdsWf s :=
  Lts.Run.inv AllFdsWf h0 (fun _ _ _ hw hs => hw.step hs) hrun

/-! ## Reference counts -/

/-- The references a process holds to `struct file` `f`: its descriptors and its executable. -/
def Process.refs (pcb : Process) (f : Nat) : Nat :=
  pcb.openFiles.countP (fun d => d.file == f) + if pcb.executableFile = some f then 1 else 0

/-- The references the live processes hold to `struct file` `f`. -/
def Sys.refs (s : Sys) (f : Nat) : Nat :=
  ((List.range s.nextPid).map fun p => ((s.procs p).map fun pcb => pcb.refs f).getD 0).sum

/-- Every open `struct file` has as large a `ref_count` as there are references to it. -/
def RefCounted (s : Sys) : Prop :=
  ∀ f file, s.fs.files f = some file → file.refCount = s.refs f

theorem Sys.refs_setProc_self {s : Sys} {p : Nat} {pcb : Process} (hp : s.procs p = some pcb)
    (fs : Fs) : (s.setProc p (some pcb) fs (Sys.lt_of_live hp)).refs = s.refs := by
  have hprocs : Function.update s.procs p (some pcb) = s.procs := by
    rw [← hp]
    exact Function.update_eq_self p s.procs
  funext f
  simp only [Sys.refs, Sys.setProc, hprocs]

/-- A `struct file` that `syscall_open` leaves open with no descriptor: `filesys_open` made it,
with `ref_count` 1, and then the descriptor's `malloc` failed. -/
theorem failed_open_leaves_unreferenced_file {s : Sys} {p : Nat} {pcb : Process}
    {name : String} {f : Nat} {fs₁ : Fs} (hp : s.procs p = some pcb)
    (hfresh : s.refs s.fs.nextFile = 0) (hopen : filesysOpen name s.fs = some (some f, fs₁))
    (hfail : fs₁.malloc.1 = false) :
    ∃ s', FdStep s (.opened p (-1)) s' ∧
      ∃ file, s'.fs.files f = some file ∧ file.refCount = 1 ∧ s'.refs f = 0 := by
  obtain ⟨hnext, sector, hfile⟩ := filesysOpen_some hopen
  rcases hm : fs₁.malloc with ⟨ok, fs₂⟩
  have hf : FilesOf fs₁ fs₂ := by simpa [hm] using filesOf_malloc fs₁
  rw [hm] at hfail
  subst hfail
  have hcall : syscallOpen (some name) pcb s.fs = some (-1, pcb, fs₂) := by
    simp [syscallOpen, hopen, hm]
  refine ⟨_, FdStep.openFile hp hcall, ⟨sector, false, 1⟩, ?_, rfl, ?_⟩
  · simp [Sys.setProc, hf.1, hfile]
  · rw [Sys.refs_setProc_self hp, hnext, hfresh]

/-- One process with an empty table, over the disk where `a` names sector 2; the sixth `malloc`,
the descriptor's, fails. -/
def openFixture : Sys where
  fs := { dupFixture with allocs := [true, true, true, true, true, false] }
  procs := fun p => if p = 0 then some ⟨[], FIRST_FILE_FD, none, "a"⟩ else none
  nextPid := 1
  procs_ge q hq := by
    simp only [ite_eq_right_iff, reduceCtorEq, imp_false]
    omega

/-- Opening `a` from a state whose counts are right leaves file 0 open with no reference. -/
theorem failed_open_leaves_unreferenced_file_a :
    RefCounted openFixture ∧ ∃ s', FdStep openFixture (.opened 0 (-1)) s' ∧
      ∃ file, s'.fs.files 0 = some file ∧ file.refCount = 1 ∧ s'.refs 0 = 0 :=
  ⟨fun f file h => by simp [openFixture, dupFixture] at h,
    @failed_open_leaves_unreferenced_file openFixture 0 _ "a" 0 _ rfl (by decide) rfl
      (by decide)⟩

end Pintos.Userprog.FdTable
