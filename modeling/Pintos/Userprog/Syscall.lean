import Mathlib
import Pintos.Lib.Prog

/-!
# The system-call handler (`userprog/syscall.c`, `userprog/exception.c`)

`syscall_handler` runs on the calling thread with the process's address space mapped.  It reads
the call number and its argument words from the user stack, checks the pointers it is given
against `PHYS_BASE`, takes `filesys_lock` around the file-system calls, and either returns to
user mode or terminates the process through `syscall_exit`.  The kernel's own accesses to user
memory page-fault on an unmapped page; `page_fault` then releases `filesys_lock` if the call in
progress takes it, and exits with -1.

The model is a sequential program (`Prog`) over the calling thread's state `Ctx`:

* `UserMem` — the user address space: mapped and writable pages, bytes.  A kernel address
  (at or above `PHYS_BASE`) is read as kernel memory.
* `Ctx.touched` — every address the kernel read or wrote on the process's behalf, and
  `Ctx.passed` — every buffer and string it handed to the console, the file system or the
  process code.
* `Stop` — how the handler ends early: the process exited (`process_exit` reached
  `thread_exit`), a kernel assertion failed, or the machine was powered off.
* `Env` — the file system, the console input and the process code, whose results the handler
  only passes on: each call's result is a parameter.

`process_exit` appears here only through `destroy_file_descriptor_table`, the part of it that
takes `filesys_lock`.
-/

set_option autoImplicit false

namespace Pintos.Userprog

/-- `PHYS_BASE`: user virtual addresses lie below it. -/
def PHYS_BASE : UInt32 := 0xC0000000

/-- `PGSIZE`. -/
def PGSIZE : UInt32 := 4096

/-- `is_user_vaddr`. -/
def isUserVaddr (vaddr : UInt32) : Bool := decide (vaddr < PHYS_BASE)

/-- `(int) w`: the two's-complement reading of a word. -/
def toInt32 (w : UInt32) : Int := if w.toNat < 2 ^ 31 then w.toNat else w.toNat - 2 ^ 32

/-- `(uint32_t) i`: the word that holds an `int`. -/
def ofInt32 (i : Int) : UInt32 := UInt32.ofNat (i % 2 ^ 32).toNat

/-- `STDIN_FILENO`. -/
def STDIN_FILENO : Int := 0

/-- `STDOUT_FILENO`. -/
def STDOUT_FILENO : Int := 1

/-- `FIRST_FILE_FD`. -/
def FIRST_FILE_FD : Int := 2

/-- The calls that take `filesys_lock`: `SYS_CREATE`, `SYS_REMOVE`, `SYS_OPEN`, `SYS_FILESIZE`,
`SYS_READ`, `SYS_WRITE`, `SYS_SEEK`, `SYS_TELL` and `SYS_CLOSE`. -/
def filesysCalls : List Int := [4, 5, 6, 7, 8, 9, 10, 11, 12]

/-- `syscall_uses_filesys_lock`. -/
def syscallUsesFilesysLock (syscallNum : Int) : Bool := decide (syscallNum ∈ filesysCalls)

/-- The user address space: mapped and writable pages (by page number) and bytes. -/
structure UserMem where
  mapped : UInt32 → Bool
  writable : UInt32 → Bool
  byte : UInt32 → UInt8

/-- The word at `a`, little-endian. -/
def UserMem.word (m : UserMem) (a : UInt32) : UInt32 :=
  (m.byte a).toUInt32 ||| (m.byte (a + 1)).toUInt32 <<< 8 ||| (m.byte (a + 2)).toUInt32 <<< 16 |||
    (m.byte (a + 3)).toUInt32 <<< 24

/-- What the kernel hands to the console, the file system or the process code: a buffer, or a
string with the length at which the callee found its NUL. -/
inductive Passed where
  | buffer (p length : UInt32)
  | string (p length : UInt32)

/-- The calling thread and process while a system call runs. -/
structure Ctx where
  mem : UserMem
  /-- `lock_held_by_current_thread (&filesys_lock)`. -/
  holdsFilesysLock : Bool
  /-- `thread_current ()->current_syscall`. -/
  currentSyscall : Int
  /-- `pcb->open_files`: each descriptor with its open file. -/
  openFiles : List (Int × Nat)
  nextFd : Int
  exitStatus : Int
  /-- `f->eax`. -/
  eax : UInt32
  touched : List UInt32
  passed : List Passed

/-- The kernel assertions a system call can reach. -/
inductive Failure where
  /-- `lock_acquire`: `ASSERT (!lock_held_by_current_thread (lock))`. -/
  | lockAcquireHeld
  /-- `lock_release`: `ASSERT (lock_held_by_current_thread (lock))`. -/
  | lockReleaseNotHeld
  /-- `file_seek`: `ASSERT (new_pos >= 0)`. -/
  | fileSeekNegative
  /-- `kill`: `PANIC ("Kernel bug - unexpected interrupt in kernel")`. -/
  | kernelFault
  deriving DecidableEq, Repr

/-- How a system call ends without returning to user mode. -/
inductive Stop where
  /-- `process_exit` ran to `thread_exit`. -/
  | exit (status : Int)
  | panic (why : Failure)
  /-- `shutdown_power_off`. -/
  | halt
  deriving DecidableEq, Repr

/-- The code of a system call. -/
abbrev SysM (α : Type) : Type := Prog Ctx Stop α

/-- The file system, the console input and the process code, as the handler sees them: what
each call returns. -/
structure Env where
  /-- `filesys_create`, by the name's address and the initial size. -/
  create : UInt32 → UInt32 → Bool
  remove : UInt32 → Bool
  /-- `filesys_open`: the open file, if any. -/
  openFile : UInt32 → Option Nat
  /-- `malloc (sizeof (struct file_descriptor))` succeeds. -/
  mallocOk : Bool
  length : Nat → Int
  /-- Bytes `file_read` stores of the ones asked for. -/
  readCount : Nat → UInt32 → Nat
  /-- Bytes `file_write` takes of the ones offered. -/
  writeCount : Nat → UInt32 → Nat
  tell : Nat → Int
  /-- `input_getc ()`. -/
  input : UInt8
  /-- `process_execute`, `process_wait`, `process_fork`. -/
  exec : UInt32 → Int
  wait : Int → Int
  fork : Int

/-! ## Locks, exits and faults -/

/-- `lock_acquire (&filesys_lock)`. -/
def lockAcquire : SysM Unit := do
  let c ← Prog.get
  if c.holdsFilesysLock then Prog.stop (.panic .lockAcquireHeld)
  else Prog.modify fun c => { c with holdsFilesysLock := true }

/-- `lock_release (&filesys_lock)`. -/
def lockRelease : SysM Unit := do
  let c ← Prog.get
  if c.holdsFilesysLock then Prog.modify fun c => { c with holdsFilesysLock := false }
  else Prog.stop (.panic .lockReleaseNotHeld)

/-- `process_exit`, as far as `filesys_lock` goes: `destroy_file_descriptor_table` takes the
lock and closes every descriptor, then the thread exits. -/
def processExit {α : Type} : SysM α := do
  lockAcquire
  Prog.modify fun c => { c with openFiles := [] }
  lockRelease
  let c ← Prog.get
  Prog.stop (.exit c.exitStatus)

/-- `syscall_exit`. -/
def syscallExit {α : Type} (status : Int) : SysM α := do
  Prog.modify fun c => { c with exitStatus := status }
  processExit

/-- `page_fault` on an address the kernel touched: inside a system call and on a user address
it releases `filesys_lock` if the call takes it, and exits with -1; otherwise `kill` panics. -/
def pageFault {α : Type} (faultAddr : UInt32) : SysM α := do
  let c ← Prog.get
  if c.currentSyscall ≠ -1 ∧ isUserVaddr faultAddr = true then
    (if c.currentSyscall > 0 ∧ syscallUsesFilesysLock c.currentSyscall = true then lockRelease
      else pure ()) >>= fun _ => syscallExit (-1)
  else Prog.stop (.panic .kernelFault)

/-! ## User memory -/

/-- A byte the kernel reads on the process's behalf; an unmapped user page faults. -/
def readByte (a : UInt32) : SysM UInt8 := do
  let c ← Prog.get
  if isUserVaddr a = true ∧ c.mem.mapped (a / PGSIZE) = false then pageFault a
  else do
    Prog.modify fun c => { c with touched := a :: c.touched }
    pure (c.mem.byte a)

/-- A byte the kernel stores on the process's behalf; an unmapped or read-only user page
faults. -/
def writeByte (a : UInt32) (v : UInt8) : SysM Unit := do
  let c ← Prog.get
  if isUserVaddr a = true ∧ (c.mem.mapped (a / PGSIZE) && c.mem.writable (a / PGSIZE)) = false then
    pageFault a
  else
    Prog.modify fun c =>
      { c with touched := a :: c.touched, mem := { c.mem with byte := Function.update c.mem.byte a v } }

/-- A word of the user stack (`args[k]`), little-endian. -/
def readWord (a : UInt32) : SysM UInt32 := do
  let b₀ ← readByte a
  let b₁ ← readByte (a + 1)
  let b₂ ← readByte (a + 2)
  let b₃ ← readByte (a + 3)
  pure (b₀.toUInt32 ||| b₁.toUInt32 <<< 8 ||| b₂.toUInt32 <<< 16 ||| b₃.toUInt32 <<< 24)

/-- The bytes `[p, p + n)`, read in order (`putbuf`, `file_write`). -/
def readBuffer (p : UInt32) (n : Nat) : SysM Unit :=
  Prog.forRange (fun i => do let _ ← readByte (p + UInt32.ofNat i); pure ()) n

/-- The bytes `[p, p + n)`, stored in order (`input_getc` into the buffer, `file_read`). -/
def writeBuffer (p : UInt32) (n : Nat) (v : UInt8) : SysM Unit :=
  Prog.forRange (fun i => writeByte (p + UInt32.ofNat i) v) n

/-- The loop of `strnlen` from `length` on: its test `string[length] != '\0' && length < maxlen`
reads the byte before it compares the length.  `fuel` bounds the turns left. -/
def strnlenFrom (string maxlen : UInt32) : Nat → UInt32 → SysM UInt32
  | 0, length => pure length
  | fuel + 1, length => do
    let b ← readByte (string + length)
    if b ≠ 0 ∧ length < maxlen then strnlenFrom string maxlen fuel (length + 1) else pure length

/-- `strnlen (string, maxlen)`: the loop runs at most `maxlen + 1` times. -/
def strnlen (string maxlen : UInt32) : SysM UInt32 :=
  strnlenFrom string maxlen (maxlen.toNat + 1) 0

/-- The loop of `strlen` from `length` on, with at most `fuel` more bytes to look at. -/
def strlenFrom (string : UInt32) : Nat → UInt32 → SysM UInt32
  | 0, length => pure length
  | fuel + 1, length => do
    let b ← readByte (string + length)
    if b = 0 then pure length else strlenFrom string fuel (length + 1)

/-- `strlen`, as the callees that take a name run it (`strlcpy` in `process_execute`,
`filesys_create`, `filesys_open`, `filesys_remove`); it gives up after the whole address
space. -/
def strlen (string : UInt32) : SysM UInt32 := strlenFrom string (2 ^ 32) 0

/-- Hand a buffer to the console or the file system, which reads or stores in it. -/
def passBuffer (p length : UInt32) : SysM Unit :=
  Prog.modify fun c => { c with passed := .buffer p length :: c.passed }

/-- Hand a string to the file system or the process code, which reads it up to its NUL. -/
def passString (string : UInt32) : SysM Unit := do
  let length ← strlen string
  Prog.modify fun c => { c with passed := .string string length :: c.passed }

/-- `f->eax = v`. -/
def setEax (v : UInt32) : SysM Unit := Prog.modify fun c => { c with eax := v }

/-! ## Validation -/

/-- `validate_buffer_in_user_region`. -/
def validateBufferInUserRegion (buffer length : UInt32) : SysM Unit :=
  let delta := PHYS_BASE - buffer
  if !isUserVaddr buffer || decide (length > delta) then syscallExit (-1) else pure ()

/-- `validate_string_in_user_region`. -/
def validateStringInUserRegion (string : UInt32) : SysM Unit := do
  let delta := PHYS_BASE - string
  if !isUserVaddr string then syscallExit (-1)
  else do
    let n ← strnlen string delta
    if n = delta then syscallExit (-1) else pure ()

/-- `safe_validate_buffer_in_user_region`. -/
def safeValidateBufferInUserRegion (buffer length : UInt32) : Bool :=
  isUserVaddr buffer && decide (length ≤ PHYS_BASE - buffer)

/-- `safe_validate_string_in_user_region`. -/
def safeValidateStringInUserRegion (string : UInt32) : SysM Bool := do
  let delta := PHYS_BASE - string
  if isUserVaddr string then do
    let n ← strnlen string delta
    pure (decide (n ≠ delta))
  else pure false

/-! ## The calls -/

/-- `find_file_descriptor`: the open file of descriptor `fd`. -/
def findFileDescriptor (fd : Int) : SysM (Option Nat) := do
  if fd < FIRST_FILE_FD then pure none
  else do
    let c ← Prog.get
    pure ((c.openFiles.find? fun e => e.1 == fd).map Prod.snd)

/-- `syscall_write`. -/
def syscallWrite (env : Env) (fd : Int) (buffer size : UInt32) : SysM Int := do
  -- `size <= 0` on an `unsigned`
  if size ≤ 0 then pure 0
  else if fd = STDIN_FILENO then pure (-1)
  else if fd = STDOUT_FILENO then do
    passBuffer buffer size
    readBuffer buffer size.toNat
    pure (toInt32 size)
  else do
    match ← findFileDescriptor fd with
    | none => pure (-1)
    | some file => do
      passBuffer buffer size
      -- `file_write` takes the size as an `off_t`; what it writes is the file system's answer
      readBuffer buffer (min (env.writeCount file size) size.toNat)
      pure (min (env.writeCount file size) size.toNat)

/-- `syscall_read`. -/
def syscallRead (env : Env) (fd : Int) (buffer size : UInt32) : SysM Int := do
  if fd = STDIN_FILENO then do
    passBuffer buffer size
    writeBuffer buffer size.toNat env.input
    pure (toInt32 size)
  else do
    match ← findFileDescriptor fd with
    | none => pure (-1)
    | some file => do
      passBuffer buffer size
      writeBuffer buffer (min (env.readCount file size) size.toNat) 0
      pure (min (env.readCount file size) size.toNat)

/-- `syscall_create`. -/
def syscallCreate (env : Env) (file initialSize : UInt32) : SysM Bool := do
  passString file
  pure (env.create file initialSize)

/-- `syscall_remove`. -/
def syscallRemove (env : Env) (file : UInt32) : SysM Bool := do
  if file = 0 then pure false
  else do
    passString file
    pure (env.remove file)

/-- `syscall_open`. -/
def syscallOpen (env : Env) (file : UInt32) : SysM Int := do
  if file = 0 then pure (-1)
  else do
    passString file
    match env.openFile file with
    | none => pure (-1)
    | some f =>
      if env.mallocOk then do
        let c ← Prog.get
        Prog.modify fun c => { c with nextFd := c.nextFd + 1, openFiles := c.openFiles ++ [(c.nextFd, f)] }
        pure c.nextFd
      else pure (-1)

/-- `syscall_filesize`. -/
def syscallFilesize (env : Env) (fd : Int) : SysM Int := do
  match ← findFileDescriptor fd with
  | none => pure (-1)
  | some file => pure (env.length file)

/-- `syscall_close`. -/
def syscallClose (fd : Int) : SysM Bool := do
  match ← findFileDescriptor fd with
  | none => pure false
  | some _ => do
    Prog.modify fun c => { c with openFiles := c.openFiles.eraseP fun e => e.1 == fd }
    pure true

/-- `syscall_tell`. -/
def syscallTell (env : Env) (fd : Int) : SysM Int := do
  match ← findFileDescriptor fd with
  | none => pure (-1)
  | some file => pure (env.tell file)

/-- `file_seek`, whose position is an `off_t`. -/
def fileSeek (newPos : Int) : SysM Unit :=
  if newPos ≥ 0 then pure () else Prog.stop (.panic .fileSeekNegative)

/-- `syscall_seek`: the `unsigned` position becomes an `off_t`. -/
def syscallSeek (fd : Int) (position : UInt32) : SysM Unit := do
  match ← findFileDescriptor fd with
  | none => syscallExit (-1)
  | some _ => fileSeek (toInt32 position)

/-- The failure branch of the cases that hold `filesys_lock`:
`lock_release (&filesys_lock); syscall_exit (-1);` unless the arguments are valid. -/
def releaseAndExitUnless (valid : Bool) : SysM Unit :=
  if valid then pure () else lockRelease >>= fun _ => syscallExit (-1)

/-- The test of `SYS_CREATE`, `SYS_REMOVE` and `SYS_OPEN`:
`safe_validate_buffer_in_user_region (&args[1], words)` and then
`safe_validate_string_in_user_region ((char*) args[1])`. -/
def safeValidateName (args words : UInt32) : SysM Bool :=
  if safeValidateBufferInUserRegion (args + 4) words then
    readWord (args + 4) >>= safeValidateStringInUserRegion
  else pure false

/-- The test of `SYS_READ`: `safe_validate_buffer_in_user_region (&args[1], 3 * sizeof (uint32_t))`
and then `safe_validate_buffer_in_user_region ((void*) args[2], (unsigned) args[3])`. -/
def safeValidateReadArgs (args : UInt32) : SysM Bool :=
  if safeValidateBufferInUserRegion (args + 4) 12 then do
    let buffer ← readWord (args + 8)
    let size ← readWord (args + 12)
    pure (safeValidateBufferInUserRegion buffer size)
  else pure false

/-- The case of `SYS_CREATE`, `SYS_REMOVE` and `SYS_OPEN`: validate the argument words and the
name under `filesys_lock`, then run the call. -/
def nameCall (args : UInt32) (words : UInt32) (call : UInt32 → SysM UInt32) : SysM Unit := do
  lockAcquire
  let valid ← safeValidateName args words
  releaseAndExitUnless valid
  let file ← readWord (args + 4)
  let r ← call file
  setEax r
  lockRelease

/-- The case of `SYS_FILESIZE` and `SYS_TELL`: one descriptor under `filesys_lock`. -/
def fdCall (args : UInt32) (call : Int → SysM Int) : SysM Unit := do
  lockAcquire
  releaseAndExitUnless (safeValidateBufferInUserRegion (args + 4) 4)
  let fd ← readWord (args + 4)
  let r ← call (toInt32 fd)
  setEax (ofInt32 r)
  lockRelease

/-- The `switch (args[0])` of `syscall_handler`, on the argument words at `args`. -/
def syscallSwitch (env : Env) (args nr : UInt32) : SysM Unit :=
  match nr.toNat with
  | 1 => do -- SYS_EXIT
    validateBufferInUserRegion (args + 4) 4
    let status ← readWord (args + 4)
    syscallExit (toInt32 status)
  | 9 => do -- SYS_WRITE
    lockAcquire
    validateBufferInUserRegion (args + 4) 12
    let buffer ← readWord (args + 8)
    let size ← readWord (args + 12)
    validateBufferInUserRegion buffer size
    let fd ← readWord (args + 4)
    let r ← syscallWrite env (toInt32 fd) buffer size
    setEax (ofInt32 r)
    lockRelease
  | 13 => do -- SYS_PRACTICE
    validateBufferInUserRegion (args + 4) 4
    let a ← readWord (args + 4)
    setEax (a + 1)
  | 0 => Prog.stop .halt -- SYS_HALT
  | 2 => do -- SYS_EXEC
    validateBufferInUserRegion (args + 4) 4
    let cmdLine ← readWord (args + 4)
    validateStringInUserRegion cmdLine
    passString cmdLine
    setEax (ofInt32 (env.exec cmdLine))
  | 3 => do -- SYS_WAIT
    validateBufferInUserRegion (args + 4) 4
    let pid ← readWord (args + 4)
    setEax (ofInt32 (env.wait (toInt32 pid)))
  | 24 => setEax (ofInt32 env.fork) -- SYS_FORK
  | 4 => -- SYS_CREATE
    nameCall args 8 fun file => do
      let initialSize ← readWord (args + 8)
      let r ← syscallCreate env file initialSize
      pure (if r then 1 else 0)
  | 5 => nameCall args 4 fun file => do -- SYS_REMOVE
      let r ← syscallRemove env file
      pure (if r then 1 else 0)
  | 6 => nameCall args 4 fun file => do -- SYS_OPEN
      let r ← syscallOpen env file
      pure (ofInt32 r)
  | 7 => fdCall args (syscallFilesize env) -- SYS_FILESIZE
  | 12 => do -- SYS_CLOSE
    lockAcquire
    releaseAndExitUnless (safeValidateBufferInUserRegion (args + 4) 4)
    let fd ← readWord (args + 4)
    let success ← syscallClose (toInt32 fd)
    lockRelease
    if success then pure () else syscallExit (-1)
  | 8 => do -- SYS_READ
    lockAcquire
    let valid ← safeValidateReadArgs args
    releaseAndExitUnless valid
    let buffer ← readWord (args + 8)
    let size ← readWord (args + 12)
    let fd ← readWord (args + 4)
    let r ← syscallRead env (toInt32 fd) buffer size
    setEax (ofInt32 r)
    lockRelease
  | 11 => fdCall args (syscallTell env) -- SYS_TELL
  | 10 => do -- SYS_SEEK
    lockAcquire
    releaseAndExitUnless (safeValidateBufferInUserRegion (args + 4) 8)
    let fd ← readWord (args + 4)
    let position ← readWord (args + 8)
    syscallSeek (toInt32 fd) position
    lockRelease
  | _ => pure () -- "Unimplemented system call"

section
-- the equation lemmas, generated once here rather than by each proof below that unfolds
-- these definitions
attribute [local simp] syscallSwitch
end

/-- `syscall_handler`, from the stack pointer of the interrupt frame. -/
def syscallHandler (env : Env) (esp : UInt32) : SysM Unit := do
  let args := esp
  Prog.modify fun c => { c with currentSyscall := 0 }
  validateBufferInUserRegion args 4
  let nr ← readWord args
  Prog.modify fun c => { c with currentSyscall := toInt32 nr }
  syscallSwitch env args nr
  Prog.modify fun c => { c with currentSyscall := -1 }

end Pintos.Userprog
