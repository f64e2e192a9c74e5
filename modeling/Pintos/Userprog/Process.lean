import Mathlib
import Pintos.Lib.Run

/-!
# Processes: `process_execute`, `process_fork`, `process_wait`, `process_exit`

The process layer of `userprog/process.c` as an interleaving machine.  Each thread runs the
code of one process-layer call, cut at its preemption points: each `PInstr` is a stretch of
code with no lock operation or semaphore wait inside.  Any thread that is not blocked may take
the next step.

* `Slot` — the heap cell of a `struct process`: not yet allocated, live, or freed.  The model
  records a use after free (`PFault.useAfterFree`) instead of reading freed memory.
* `Pcb` — the fields the protocol uses: `parent_pcb`, the `children` list of `struct
  child_info`, `children_lock` (its holder), `exit_status` and the page directory.
* `PThread` — a kernel thread: the code it still has to run, `t->pcb`, the parent pointer that
  `process_exit` has tested, and the `load_success`/`child_pcb` pair its child posts through
  `load_sema` (`fork_sema`).
* `PState.kernelPages`, `PState.userPages` — the free pages of the two pools; `palloc_get_page`
  fails exactly when its pool is empty.  `PState.blocks` counts `malloc` blocks in use (the
  PCBs and the `child_info` records).

A process is identified by the tid of its thread (`get_pid`), and its PCB lives in the slot of
that number.  A page directory is the list of its page tables, each with the number of user
pages it maps (`pagedir_create`, `load`, `pagedir_copy`, `pagedir_destroy`).
-/

set_option autoImplicit false

namespace Pintos.Userprog

/-- How the process layer fails. -/
inductive PFault where
  /-- `lock_acquire`: `ASSERT (!lock_held_by_current_thread (lock))`. -/
  | lockAcquireHeld
  /-- `lock_release`: `ASSERT (lock_held_by_current_thread (lock))`. -/
  | lockReleaseNotHeld
  /-- A freed `struct process` is read or written. -/
  | useAfterFree
  /-- A NULL `struct process *` is dereferenced. -/
  | nullDeref
  deriving DecidableEq, Repr

/-- `struct child_info`. -/
structure ChildInfo where
  pid : Nat
  exitStatus : Int
  hasExited : Bool
  hasBeenWaited : Bool
  /-- The value of `exit_sema`. -/
  exitSema : Nat
  pcb : Option Nat
  deriving DecidableEq, Repr

/-- The fields of `struct process` that the process layer uses. -/
structure Pcb where
  parentPcb : Option Nat
  children : List ChildInfo
  /-- The holder of `children_lock`. -/
  childrenLock : Option Nat
  exitStatus : Int
  /-- `pagedir`: its page tables, each with the number of user pages it maps. -/
  pagedir : Option (List Nat)
  deriving DecidableEq, Repr

/-- The heap cell of a `struct process`. -/
inductive Slot where
  | unused
  | live (pcb : Pcb)
  | freed
  deriving DecidableEq, Repr

/-- The stretches of process-layer code between two preemption points that matter. -/
inductive PInstr where
  /-- `fn_copy = palloc_get_page (0)` in `process_execute` and `process_fork`. -/
  | copyName
  /-- `lock_acquire (&thread_current ()->pcb->children_lock)`. -/
  | acquireOwn
  /-- `lock_release (&thread_current ()->pcb->children_lock)`. -/
  | releaseOwn
  /-- `thread_create (file_name, PRI_DEFAULT, start_process, &info)`. -/
  | createExec (name : Nat)
  /-- `thread_create (fn_copy, PRI_DEFAULT, fork_child_process, &fork_info)`. -/
  | createFork
  /-- `sema_down (&load_sema)` and the rest of `process_execute` (of `process_fork` if
  `fork`). -/
  | awaitChild (fork : Bool)
  /-- `start_process` in the new thread. -/
  | startProcess (creator name : Nat)
  /-- `fork_child_process` in the new thread. -/
  | forkChild (creator : Nat)
  /-- `process_wait` from its search of `children` to the `sema_down`. -/
  | waitFind (pid : Nat)
  /-- `sema_down (&matching_child->exit_sema)`. -/
  | waitSema (pid : Nat)
  /-- `process_wait` after it holds `children_lock` again. -/
  | waitRead (pid : Nat)
  /-- `syscall_exit`: `pcb->exit_status = status`. -/
  | setStatus (status : Int)
  /-- `process_exit` up to its test of `cur->pcb->parent_pcb`. -/
  | exitTestParent
  /-- The load of `cur->pcb->parent_pcb` for the argument of `lock_acquire`. -/
  | loadParent
  /-- `lock_acquire (&cur->pcb->parent_pcb->children_lock)` on the pointer loaded. -/
  | acquireParent
  /-- The search of the parent's `children` for this process, and its update. -/
  | notify
  /-- `lock_release (&cur->pcb->parent_pcb->children_lock)`. -/
  | releaseParent
  /-- The loop that destroys `children`, orphaning the children that have not exited. -/
  | orphan
  /-- `free (pcb_to_free)` and `thread_exit`. -/
  | freePcb
  deriving DecidableEq, Repr

/-- A kernel thread of the process layer. -/
structure PThread where
  code : List PInstr
  /-- `t->pcb`. -/
  pcb : Option Nat
  /-- The parent pointer `process_exit` has loaded for `lock_acquire`. -/
  parentReg : Option Nat
  /-- What the child posted through `load_sema` (`fork_sema`): its PCB, or NULL. -/
  childResult : Option (Option Nat)
  /-- The tid `thread_create` returned. -/
  childTid : Nat
  deriving DecidableEq, Repr

/-- A thread in user mode, running the process whose PCB is in slot `p`. -/
def PThread.user (p : Nat) : PThread :=
  { code := [], pcb := some p, parentReg := none, childResult := none, childTid := 0 }

/-- A thread `thread_create` has just made, to run `code`. -/
def PThread.created (code : List PInstr) : PThread :=
  { code, pcb := none, parentReg := none, childResult := none, childTid := 0 }

/-- The process layer: the PCB heap, the threads, the page pools and `malloc`. -/
structure PState where
  slots : Nat → Slot
  threads : Nat → Option PThread
  nextTid : Nat
  kernelPages : Nat
  userPages : Nat
  blocks : Nat
  /-- The executables on disk, by name: the page tables `load` fills (the stack's included). -/
  disk : Nat → Option (List Nat)
  fault : Option PFault

/-- The calls a user process makes into the process layer. -/
inductive PCall where
  | exec (name : Nat)
  | fork
  | wait (pid : Nat)
  | exit (status : Int)
  /-- An exception kills the process (`kill`). -/
  | kill
  deriving DecidableEq, Repr

/-- `process_exit`. -/
def exitCode : List PInstr :=
  [.exitTestParent, .loadParent, .acquireParent, .notify, .releaseParent, .acquireOwn, .orphan,
    .releaseOwn, .freePcb]

/-- The code a call runs in the kernel. -/
def PCall.code : PCall → List PInstr
  | .exec name => [.copyName, .acquireOwn, .createExec name, .awaitChild false]
  | .fork => [.copyName, .acquireOwn, .createFork, .awaitChild true]
  | .wait pid => [.acquireOwn, .waitFind pid]
  | .exit status => .setStatus status :: exitCode
  | .kill => exitCode

/-- What the process layer shows: a call returns a value to the process. -/
inductive PEvent where
  | tau
  | returned (t : Nat) (v : Int)
  deriving DecidableEq, Repr

/-- A user thread calls into the process layer, or a thread takes its next step. -/
inductive PAction where
  | call (t : Nat) (c : PCall)
  | step (t : Nat)
  deriving DecidableEq, Repr

/-! ## Page directories -/

/-- Kernel pages of a page directory: the directory and its tables. -/
def pdKernelPages (pts : List Nat) : Nat := pts.length + 1

/-- User pages a page directory maps. -/
def pdUserPages (pts : List Nat) : Nat := pts.sum

/-- `load`'s pages, after `pagedir_create`: each table's first page takes a user page and then
the table (`install_page` creates it), the others a user page each.  Returns whether all fit,
the tables installed, and the kernel and user pages left. -/
def installTables : List Nat → Nat → Nat → Bool × List Nat × Nat × Nat
  | [], kp, up => (true, [], kp, up)
  | f :: pts, kp, up =>
    if up = 0 ∨ kp = 0 then (false, [], kp, up)
    else if up < f then (false, [up], kp - 1, 0)
    else
      let r := installTables pts (kp - 1) (up - f)
      (r.1, f :: r.2.1, r.2.2.1, r.2.2.2)

/-- The loop of `pagedir_copy` over the tables of the source, after `pagedir_create`.  A table
takes a kernel page, then a user page per frame.  When a frame fails, the table is freed but
the frames already copied into it are not; `pagedir_destroy` then frees the tables linked
before. -/
def copyTables : List Nat → Nat → Nat → Option (List Nat) × Nat × Nat
  | [], kp, up => (some [], kp, up)
  | f :: pts, kp, up =>
    if kp = 0 then (none, kp, up)
    else if up < f then (none, kp, 0)
    else
      match copyTables pts (kp - 1) (up - f) with
      | (some r, kp', up') => (some (f :: r), kp', up')
      | (none, kp', up') => (none, kp' + 1, up' + f)

/-- `pagedir_copy (src)`: the copy, or NULL, and the kernel and user pages left. -/
def pagedirCopy (src : List Nat) (kp up : Nat) : Option (List Nat) × Nat × Nat :=
  if kp = 0 then (none, kp, up)
  else
    match copyTables src (kp - 1) up with
    | (some r, kp', up') => (some r, kp', up')
    | (none, kp', up') => (none, kp' + 1, up')

/-! ## Child records -/

/-- The first record of `pid` in a `children` list. -/
def findChild (pid : Nat) (l : List ChildInfo) : Option ChildInfo := l.find? fun ci => ci.pid = pid

/-- Change the first record of `pid`. -/
def updateChild (pid : Nat) (f : ChildInfo → ChildInfo) : List ChildInfo → List ChildInfo
  | [] => []
  | ci :: l => if ci.pid = pid then f ci :: l else ci :: updateChild pid f l

/-- Change the first record of `pid` in a PCB's `children`. -/
def Pcb.mapChild (pid : Nat) (f : ChildInfo → ChildInfo) (pcb : Pcb) : Pcb :=
  { pcb with children := updateChild pid f pcb.children }

/-- `create_child_info (pid)` with `new_child_info->pcb = child_pcb`. -/
def newChildInfo (pid cp : Nat) : ChildInfo :=
  { pid, exitStatus := -1, hasExited := false, hasBeenWaited := false, exitSema := 0,
    pcb := some cp }

/-- A new PCB, as `start_process` and `fork_child_process` initialise it. -/
def newPcb (parent : Option Nat) : Pcb :=
  { parentPcb := parent, children := [], childrenLock := none, exitStatus := -1, pagedir := none }

namespace PState

/-- Set a thread. -/
def setThread (s : PState) (t : Nat) (th : Option PThread) : PState :=
  { s with threads := fun i => if i = t then th else s.threads i }

/-- Set a slot of the PCB heap. -/
def setSlot (s : PState) (p : Nat) (x : Slot) : PState :=
  { s with slots := fun i => if i = p then x else s.slots i }

/-- Stop with a fault. -/
def failWith (s : PState) (f : PFault) : PState := { s with fault := some f }

/-- Change the PCB in slot `p`; a freed or unallocated one is a use after free. -/
def modifyPcb (s : PState) (p : Nat) (f : Pcb → Pcb) : PState :=
  match s.slots p with
  | .live pcb => s.setSlot p (.live (f pcb))
  | _ => s.failWith .useAfterFree

/-- `lock_acquire (&p->children_lock)` by thread `t`; `none` while another thread holds it. -/
def acquire (s : PState) (t p : Nat) : Option PState :=
  match s.slots p with
  | .live pcb =>
    match pcb.childrenLock with
    | none => some (s.setSlot p (.live { pcb with childrenLock := some t }))
    | some h => if h = t then some (s.failWith .lockAcquireHeld) else none
  | _ => some (s.failWith .useAfterFree)

/-- `lock_release (&p->children_lock)` by thread `t`. -/
def release (s : PState) (t p : Nat) : PState :=
  match s.slots p with
  | .live pcb =>
    if pcb.childrenLock = some t then s.setSlot p (.live { pcb with childrenLock := none })
    else s.failWith .lockReleaseNotHeld
  | _ => s.failWith .useAfterFree

/-- `child->pcb->parent_pcb = NULL` for every record of a child that has not exited, and
`destroy_child_info`. -/
def orphanAll (s : PState) : List ChildInfo → PState
  | [] => s
  | ci :: l =>
    let s₁ :=
      if ci.hasExited then s
      else match ci.pcb with
        | some cp => s.modifyPcb cp fun pcb => { pcb with parentPcb := none }
        | none => s.failWith .nullDeref
    orphanAll { s₁ with blocks := s₁.blocks - 1 } l

/-- Post the child's result to the thread blocked in `sema_down (&load_sema)`. -/
def post (s : PState) (creator : Nat) (r : Option Nat) : PState :=
  match s.threads creator with
  | some th => s.setThread creator (some { th with childResult := some r })
  | none => s

end PState

/-- The PCB in slot `p`, if the slot is live. -/
def PState.pcbOf (s : PState) (p : Nat) : Option Pcb :=
  match s.slots p with
  | .live pcb => some pcb
  | _ => none

/-- Run `k` on the PCB of thread `th`: a thread without one dereferences NULL, and a freed
one is a use after free. -/
def PState.withOwn (s : PState) (th : PThread) (k : Nat → Pcb → Option (PEvent × PState)) :
    Option (PEvent × PState) :=
  match th.pcb with
  | none => some (.tau, s.failWith .nullDeref)
  | some p =>
    match s.pcbOf p with
    | some pcb => k p pcb
    | none => some (.tau, s.failWith .useAfterFree)

/-- A thread's next instruction done, with `rest` left. -/
def PState.cont (s : PState) (t : Nat) (th : PThread) (rest : List PInstr) : PState :=
  s.setThread t (some { th with code := rest })

/-- The call returns `v` to user mode. -/
def PState.ret (s : PState) (t : Nat) (th : PThread) (v : Int) : PEvent × PState :=
  (.returned t v, s.setThread t (some { th with code := [], childResult := none }))

/-- `start_process` in thread `t`, created by `creator` to run executable `name`. -/
def PState.startProcess (s : PState) (t creator name : Nat) : PEvent × PState :=
  -- `malloc (sizeof (struct process))`; `new_pcb->parent_pcb = info->parent_pcb`
  let parent := (s.threads creator).bind PThread.pcb
  let s₁ := { s.setSlot t (.live (newPcb parent)) with blocks := s.blocks + 1 }
  -- `load`: `pagedir_create`, then the executable's pages
  let (ok, pd, kp, up) :=
    if s₁.kernelPages = 0 then (false, none, s₁.kernelPages, s₁.userPages)
    else match s₁.disk name with
      | none => (false, some [], s₁.kernelPages - 1, s₁.userPages)
      | some pts =>
        let r := installTables pts (s₁.kernelPages - 1) s₁.userPages
        (r.1, some r.2.1, r.2.2.1, r.2.2.2)
  let s₂ := { (s₁.modifyPcb t fun pcb => { pcb with pagedir := pd }) with
    kernelPages := kp, userPages := up }
  if ok then
    -- the process runs; `palloc_free_page (argv)` frees `fn_copy`
    let s₃ := { (s₂.post creator (some t)) with kernelPages := s₂.kernelPages + 1 }
    (.tau, s₃.setThread t (some (.user t)))
  else
    -- `free (pcb_to_free)` without `pagedir_destroy`; `fn_copy` and the thread's page freed
    let s₃ := { (s₂.setSlot t .freed).post creator none with
      blocks := s₂.blocks - 1, kernelPages := s₂.kernelPages + 2 }
    (.tau, s₃.setThread t none)

/-- `fork_child_process` in thread `t`, created by `creator`. -/
def PState.forkChild (s : PState) (t creator : Nat) : PEvent × PState :=
  let parent := (s.threads creator).bind PThread.pcb
  let src := (parent.bind s.pcbOf).bind Pcb.pagedir
  let s₁ := { s.setSlot t (.live (newPcb parent)) with blocks := s.blocks + 1 }
  let (pd, kp, up) := pagedirCopy (src.getD []) s₁.kernelPages s₁.userPages
  let s₂ := { (s₁.modifyPcb t fun pcb => { pcb with pagedir := pd }) with
    kernelPages := kp, userPages := up }
  match pd with
  | some _ =>
    -- the child returns 0 from `fork` in user mode
    (.returned t 0, (s₂.post creator (some t)).setThread t (some (.user t)))
  | none =>
    let s₃ := { (s₂.setSlot t .freed).post creator none with
      blocks := s₂.blocks - 1, kernelPages := s₂.kernelPages + 1 }
    (.tau, s₃.setThread t none)

/-- One instruction `i` of thread `t`, with `rest` after it; `none` while it is blocked. -/
def PState.exec (s : PState) (t : Nat) (th : PThread) (rest : List PInstr) :
    PInstr → Option (PEvent × PState)
  | .copyName =>
    if s.kernelPages = 0 then some (s.ret t th (-1))
    else some (.tau, { s with kernelPages := s.kernelPages - 1 }.cont t th rest)
  | .acquireOwn =>
    match th.pcb with
    | none => some (.tau, s.failWith .nullDeref)
    | some p => (s.acquire t p).map fun s' => (.tau, s'.cont t th rest)
  | .releaseOwn =>
    match th.pcb with
    | none => some (.tau, s.failWith .nullDeref)
    | some p => some (.tau, (s.release t p).cont t th rest)
  | .createExec name =>
    -- `thread_create` needs a page; on failure `process_execute` returns -1 with
    -- `children_lock` still held
    if s.kernelPages = 0 then some ({ s with kernelPages := s.kernelPages + 1 }.ret t th (-1))
    else
      let c := s.nextTid
      let s₁ := { s with kernelPages := s.kernelPages - 1, nextTid := c + 1 }
      some (.tau, (s₁.setThread c (some (.created [.startProcess t name]))).cont t
        { th with childTid := c } rest)
  | .createFork =>
    if s.kernelPages = 0 then some ({ s with kernelPages := s.kernelPages + 1 }.ret t th (-1))
    else
      let c := s.nextTid
      let s₁ := { s with kernelPages := s.kernelPages - 1, nextTid := c + 1 }
      some (.tau, (s₁.setThread c (some (.created [.forkChild t]))).cont t
        { th with childTid := c } rest)
  | .awaitChild fork =>
    match th.childResult, th.pcb with
    | none, _ => none
    | some _, none => some (.tau, s.failWith .nullDeref)
    | some none, some p =>
      -- the child failed: `process_fork` also frees `fn_copy`
      let s₁ := s.release t p
      some ({ s₁ with kernelPages := s₁.kernelPages + (if fork then 1 else 0) }.ret t th (-1))
    | some (some cp), some p =>
      -- `create_child_info`, `list_push_back`, `lock_release`; `process_fork` keeps `fn_copy`
      let s₁ := { s.modifyPcb p (fun pcb =>
        { pcb with children := pcb.children ++ [newChildInfo th.childTid cp] }) with
        blocks := s.blocks + 1 }
      some ((s₁.release t p).ret t th th.childTid)
  | .startProcess creator name => some (s.startProcess t creator name)
  | .forkChild creator => some (s.forkChild t creator)
  | .waitFind pid =>
    s.withOwn th fun p pcb =>
      match findChild pid pcb.children with
      | none => some ((s.release t p).ret t th (-1))
      | some ci =>
        if ci.hasBeenWaited then some ((s.release t p).ret t th (-1))
        else
          let s₁ := s.modifyPcb p (Pcb.mapChild pid fun ci => { ci with hasBeenWaited := true })
          if ci.hasExited then some (.tau, s₁.cont t th (.waitRead pid :: rest))
          else some (.tau, (s₁.release t p).cont t th
            (.waitSema pid :: .acquireOwn :: .waitRead pid :: rest))
  | .waitSema pid =>
    -- `matching_child` still points into `children`: the parent alone removes records
    s.withOwn th fun p pcb =>
      match findChild pid pcb.children with
      | none => some (.tau, s.failWith .useAfterFree)
      | some ci =>
        if ci.exitSema = 0 then none
        else some (.tau, (s.modifyPcb p
          (Pcb.mapChild pid fun ci => { ci with exitSema := ci.exitSema - 1 })).cont t th rest)
  | .waitRead pid =>
    s.withOwn th fun p pcb =>
      match findChild pid pcb.children with
      | none => some (.tau, s.failWith .useAfterFree)
      | some ci => some ((s.release t p).ret t th ci.exitStatus)
  | .setStatus status =>
    s.withOwn th fun p _ =>
      some (.tau, (s.modifyPcb p fun pcb => { pcb with exitStatus := status }).cont t th rest)
  | .exitTestParent =>
    match th.pcb with
    | none => some (.tau, { s with kernelPages := s.kernelPages + 1 }.setThread t none)
    | some _ =>
      s.withOwn th fun p pcb =>
        -- `pagedir_destroy (pd)` frees the directory, its tables and their pages
        let (kp, up) := match pcb.pagedir with
          | some pts => (s.kernelPages + pdKernelPages pts, s.userPages + pdUserPages pts)
          | none => (s.kernelPages, s.userPages)
        let s₁ := { s.modifyPcb p (fun pcb => { pcb with pagedir := none }) with
          kernelPages := kp, userPages := up }
        match pcb.parentPcb with
        | none => some (.tau, s₁.cont t th (rest.drop 4))
        | some _ => some (.tau, s₁.cont t th rest)
  | .loadParent =>
    s.withOwn th fun _ pcb => some (.tau, s.cont t { th with parentReg := pcb.parentPcb } rest)
  | .acquireParent =>
    match th.parentReg with
    | none => some (.tau, s.failWith .nullDeref)
    | some q => (s.acquire t q).map fun s' => (.tau, s'.cont t th rest)
  | .notify =>
    -- the loop reads `cur->pcb->parent_pcb` again
    s.withOwn th fun _ pcb =>
      match pcb.parentPcb with
      | none => some (.tau, s.failWith .nullDeref)
      | some q =>
        some (.tau, (s.modifyPcb q (Pcb.mapChild t fun ci =>
          { ci with exitStatus := pcb.exitStatus, hasExited := true, pcb := none,
                    exitSema := ci.exitSema + 1 })).cont t th rest)
  | .releaseParent =>
    s.withOwn th fun _ pcb =>
      match pcb.parentPcb with
      | none => some (.tau, s.failWith .nullDeref)
      | some q => some (.tau, (s.release t q).cont t th rest)
  | .orphan =>
    s.withOwn th fun p pcb =>
      let s₁ := s.orphanAll pcb.children
      some (.tau, (s₁.modifyPcb p fun pcb => { pcb with children := [] }).cont t th rest)
  | .freePcb =>
    match th.pcb with
    | none => some (.tau, s.failWith .nullDeref)
    | some p =>
      -- `free (pcb_to_free)`; `thread_exit` frees the thread's page
      let s₁ := { s.setSlot p .freed with blocks := s.blocks - 1, kernelPages := s.kernelPages + 1 }
      some (.tau, s₁.setThread t none)

/-- The step an action takes, if it is enabled; nothing happens after a fault. -/
def PState.act (s : PState) : PAction → Option (PEvent × PState)
  | .call t c =>
    match s.fault, s.threads t with
    | none, some th =>
      if th.code = [] ∧ th.pcb.isSome then some (.tau, s.cont t th c.code) else none
    | _, _ => none
  | .step t =>
    match s.fault, s.threads t with
    | none, some th =>
      match th.code with
      | i :: rest => s.exec t th rest i
      | [] => none
    | _, _ => none

/-- The process layer's steps. -/
def PStep : PState → PEvent → PState → Prop := Lts.ActStep PState.act

/-- After `userprog_init`: the main thread 1 with its PCB, `kp` and `up` free pages, and the
executables `disk`. -/
def PState.boot (kp up : Nat) (disk : Nat → Option (List Nat)) : PState where
  slots := fun i => if i = 1 then .live (newPcb none) else .unused
  threads := fun i => if i = 1 then some (.user 1) else none
  nextTid := 2
  kernelPages := kp
  userPages := up
  blocks := 1
  disk := disk
  fault := none

/-! ## Runs from boot

Each run below is a schedule of actions evaluated by `decide` and turned into a run of `PStep`
by `Lts.exists_run_of_replayEndsIn`. -/

/-- A disk without executables. -/
def noFiles : Nat → Option (List Nat) := fun _ => none

/-- A disk with executable 7: a code page and a stack page, in two page tables. -/
def oneFile : Nat → Option (List Nat) := fun n => if n = 7 then some [1, 1] else none

/-- `exec` with one free kernel page: `fn_copy` takes it, `thread_create` fails, and
`process_execute` returns -1 still holding `children_lock`; the next `wait` takes it again. -/
def execFailSchedule : List PAction :=
  [.call 1 (.exec 7), .step 1, .step 1, .step 1, .call 1 (.wait 5), .step 1]

/-- After a failed `exec`, `wait` on any pid panics in its `lock_acquire` instead of returning
-1. -/
theorem wait_after_failed_exec_panics :
    ∃ evs s, Lts.Run PStep (PState.boot 1 10 noFiles) evs s ∧
      PEvent.returned 1 (-1) ∈ evs ∧ (s.threads 1).map PThread.code = some [.waitFind 5] ∧
      s.fault = some .lockAcquireHeld := by
  have h : Lts.replayEndsIn PState.act (PState.boot 1 10 noFiles) execFailSchedule
      (fun evs s => PEvent.returned 1 (-1) ∈ evs ∧
        (s.threads 1).map PThread.code = some [.waitFind 5] ∧
        s.fault = some .lockAcquireHeld) = true := by decide
  exact Lts.exists_run_of_replayEndsIn h

/-- Process 1 runs 2, which runs 3.  Process 3 exits: it finds its parent pointer set and loads
it.  Then process 2 exits whole, orphaning 3 and freeing its PCB, and 3 goes on to
`lock_acquire` on the freed PCB. -/
def exitRaceSchedule : List PAction :=
  [.call 1 (.exec 7), .step 1, .step 1, .step 1, .step 2, .step 1,
    .call 2 (.exec 7), .step 2, .step 2, .step 2, .step 3, .step 2,
    .call 3 (.exit 0), .step 3, .step 3, .step 3,
    .call 2 (.exit 0), .step 2, .step 2, .step 2, .step 2, .step 2, .step 2, .step 2, .step 2,
    .step 2, .step 2,
    .step 3]

/-- A child's `process_exit` locks its parent's PCB after the parent freed it: the fault is in
its third step, `acquireParent`. -/
theorem child_exit_locks_freed_parent :
    ∃ evs s, Lts.Run PStep (PState.boot 20 20 oneFile) evs s ∧
      s.slots 2 = .freed ∧ (s.threads 3).map PThread.code = some (exitCode.drop 3) ∧
      s.fault = some .useAfterFree := by
  have h : Lts.replayEndsIn PState.act (PState.boot 20 20 oneFile) exitRaceSchedule
      (fun _ s => s.slots 2 = .freed ∧ (s.threads 3).map PThread.code = some (exitCode.drop 3) ∧
        s.fault = some .useAfterFree) = true := by decide
  exact Lts.exists_run_of_replayEndsIn h

/-- `exec` of a file that is not on disk: `load` has made the page directory when
`filesys_open` fails, and `start_process` frees the PCB without it. -/
def missingExecSchedule : List PAction :=
  [.call 1 (.exec 7), .step 1, .step 1, .step 1, .step 2, .step 1]

/-- Once a failed `exec` has returned and its thread is gone, the kernel pool is a page short. -/
theorem failed_exec_leaks_page :
    ∃ evs s, Lts.Run PStep (PState.boot 20 20 noFiles) evs s ∧
      PEvent.returned 1 (-1) ∈ evs ∧ s.threads 2 = none ∧ s.fault = none ∧ s.blocks = 1 ∧
      s.kernelPages = 19 := by
  have h : Lts.replayEndsIn PState.act (PState.boot 20 20 noFiles) missingExecSchedule
      (fun evs s => PEvent.returned 1 (-1) ∈ evs ∧ s.threads 2 = none ∧ s.fault = none ∧
        s.blocks = 1 ∧ s.kernelPages = 19) = true := by decide
  exact Lts.exists_run_of_replayEndsIn h

end Pintos.Userprog
