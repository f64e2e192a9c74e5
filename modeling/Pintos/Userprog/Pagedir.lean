import Pintos.Threads.Palloc
import Pintos.Lib.String

/-!
# `userprog/pagedir.c`: page directories, and `pagedir_copy`

A page directory and its page tables are pages of kernel memory holding 1024 little-endian
`uint32_t` entries (`loadWord`, `storeWord`). A present entry (`PTE_P`) holds the physical
address of a page table or of a frame, seen by the kernel at `PHYS_BASE` on (`ptov`, `vtop`).
Pages come from the page allocator of `threads/palloc.c` (`Pintos.PageAlloc`), whose memory is
the kernel's. A failed `ASSERT` gives `none`; a pointer is its address and `NULL` is `0`.

* `lookupPage` and `pagedirGetPage`: what a lookup of a user address reads, the directory entry
  (tested against `0`) and then the table entry (tested for `PTE_P`).
* `pagedirCreate`, `pagedirDestroy`, and `pagedirCopy` with its loops `copyPdes`, over the 768
  user entries of the directory, and `copyPtes`, over the 1024 entries of one table. An early
  `return NULL` ends a loop with `Except.error` and the state it reached.

## Results

* `loadWord_storeWord`, `loadWord_storeWord_of_disjoint`: a stored word reads back, and the
  store changes no other word.
* `pdeGetPt_pdeCreate`: an entry made for a page of kernel memory points back to it.
* `pagedirGetPage_of_pde_eq_zero`, `pagedirGetPage_of_pte_absent`, `pagedirGetPage_of_pdeCreate`:
  what `pagedir_get_page` returns from the two entries it reads.
* `pallocGetPage_mem`, `pallocGetPage_withMem`: without `PAL_ZERO`, `palloc_get_page` neither
  writes nor reads the memory, so a page it hands out holds what it held before.
* `copyPtes_of_absent`, `copyPdes_of_absent`: the loops of `pagedir_copy` do nothing over
  entries that are not present.
* `pagedirCopy_keeps_stale_entries`: the page table `pagedir_copy` takes for a present directory
  entry comes from `palloc_get_page (0)`, which does not clear it, and the copy loop writes only
  the entries present in the source; every other entry keeps what the recycled page held. A
  source that maps no user page then gives a copy that maps one.
-/

set_option autoImplicit false

namespace Pintos.Pagedir

open Pintos.PageAlloc

/-! ## Entries -/

/-- `PHYS_BASE`: user addresses lie below it, and physical memory is mapped from it on. -/
def PHYS_BASE : Nat := 0xc0000000

/-- `PTE_P`: present. -/
def PTE_P : UInt32 := 0x1

/-- `PTE_W`: writable. -/
def PTE_W : UInt32 := 0x2

/-- `PTE_U`: user. -/
def PTE_U : UInt32 := 0x4

/-- `PTE_ADDR`: the address bits. -/
def PTE_ADDR : UInt32 := 0xfffff000

/-- `pd_no`: the directory index of a virtual address. -/
def pdNo (va : Nat) : Nat := va / 2 ^ 22

/-- `pt_no`: the table index of a virtual address. -/
def ptNo (va : Nat) : Nat := va % 2 ^ 22 / 2 ^ 12

/-- `pg_ofs`. -/
def pgOfs (va : Nat) : Nat := va % PGSIZE

/-- `ptov`. -/
def ptov (paddr : UInt32) : Nat := paddr.toNat + PHYS_BASE

/-- `vtop`. -/
def vtop (vaddr : Nat) : UInt32 := UInt32.ofNat (vaddr - PHYS_BASE)

/-- `pde_create`. -/
def pdeCreate (pt : Nat) : UInt32 := vtop pt ||| PTE_U ||| PTE_P ||| PTE_W

/-- `pde_get_pt`. -/
def pdeGetPt (pde : UInt32) : Nat := ptov (pde &&& PTE_ADDR)

/-- `pte_create_kernel`. -/
def pteCreateKernel (page : Nat) (writable : Bool) : UInt32 :=
  vtop page ||| PTE_P ||| (if writable then PTE_W else 0)

/-- `pte_create_user`. -/
def pteCreateUser (page : Nat) (writable : Bool) : UInt32 := pteCreateKernel page writable ||| PTE_U

/-- `pte_get_page`. -/
def pteGetPage (pte : UInt32) : Nat := ptov (pte &&& PTE_ADDR)

/-! ## Memory and pages -/

/-- The `uint32_t` at `a`, little-endian. -/
def loadWord (mem : Nat → UInt8) (a : Nat) : UInt32 :=
  UInt32.ofNat ((mem a).toNat + 2 ^ 8 * (mem (a + 1)).toNat + 2 ^ 16 * (mem (a + 2)).toNat +
    2 ^ 24 * (mem (a + 3)).toNat)

/-- A `uint32_t` store at `a`. -/
def storeWord (mem : Nat → UInt8) (a : Nat) (w : UInt32) : Nat → UInt8 :=
  fun x => if a ≤ x ∧ x < a + 4 then UInt8.ofNat (w.toNat / 2 ^ (8 * (x - a))) else mem x

/-- The flags `0`. -/
def noPallocFlags : PallocFlags := ⟨false, false, false⟩

/-- `PAL_ZERO`. -/
def PAL_ZERO : PallocFlags := ⟨false, true, false⟩

/-- `PAL_USER`. -/
def PAL_USER : PallocFlags := ⟨false, false, true⟩

/-- `palloc_get_page`. -/
def pallocGetPage (flags : PallocFlags) (s : Palloc) : Option (Option Nat × Palloc) :=
  pallocGetMultiple flags 1 s

/-- `palloc_free_page`. -/
def pallocFreePage (page : Nat) (s : Palloc) : Option Palloc := pallocFreeMultiple page 1 s

/-! ## Lookups -/

/-- `lookup_page`: the address of the entry for `vaddr` in the directory `pd`, creating its page
table under `create`; `NULL` when there is none. -/
def lookupPage (pd vaddr : Nat) (create : Bool) (s : Palloc) : Option (Nat × Palloc) :=
  if pd = 0 then none
  else if create = true ∧ ¬ vaddr < PHYS_BASE then none
  else
    let pde := pd + 4 * pdNo vaddr
    if loadWord s.mem pde = 0 then
      if create then
        match pallocGetPage PAL_ZERO s with
        | none => none
        | some (none, s) => some (0, s)
        | some (some pt, s) =>
          let s := { s with mem := storeWord s.mem pde (pdeCreate pt) }
          some (pdeGetPt (loadWord s.mem pde) + 4 * ptNo vaddr, s)
      else some (0, s)
    else some (pdeGetPt (loadWord s.mem pde) + 4 * ptNo vaddr, s)

/-- `pagedir_get_page`: the kernel address that the user address `uaddr` is mapped to in `pd`,
or `NULL`. -/
def pagedirGetPage (pd uaddr : Nat) (s : Palloc) : Option Nat :=
  if ¬ uaddr < PHYS_BASE then none
  else
    match lookupPage pd uaddr false s with
    | none => none
    | some (pte, s) =>
      if pte ≠ 0 ∧ loadWord s.mem pte &&& PTE_P ≠ 0 then
        some (pteGetPage (loadWord s.mem pte) + pgOfs uaddr)
      else some 0

/-! ## Creating, destroying and copying directories -/

/-- `pagedir_create`: a page with a copy of `init_page_dir`. -/
def pagedirCreate (initPageDir : Nat) (s : Palloc) : Option (Nat × Palloc) :=
  match pallocGetPage noPallocFlags s with
  | none => none
  | some (none, s) => some (0, s)
  | some (some pd, s) =>
    match String.memcpy s.mem pd initPageDir PGSIZE with
    | none => none
    | some (mem, _) => some (pd, { s with mem })

/-- The inner loop of `pagedir_destroy`, over entries `0, …, n - 1` of the table at `pt`. -/
def destroyPtes (pt : Nat) : Nat → Palloc → Option Palloc
  | 0, s => some s
  | n + 1, s =>
    match destroyPtes pt n s with
    | none => none
    | some s =>
      let pte := loadWord s.mem (pt + 4 * n)
      if pte &&& PTE_P ≠ 0 then pallocFreePage (pteGetPage pte) s else some s

/-- The outer loop of `pagedir_destroy`, over entries `0, …, n - 1` of the directory `pd`. -/
def destroyPdes (pd : Nat) : Nat → Palloc → Option Palloc
  | 0, s => some s
  | n + 1, s =>
    match destroyPdes pd n s with
    | none => none
    | some s =>
      let pde := loadWord s.mem (pd + 4 * n)
      if pde &&& PTE_P ≠ 0 then
        match destroyPtes (pdeGetPt pde) 1024 s with
        | none => none
        | some s => pallocFreePage (pdeGetPt pde) s
      else some s

/-- `pagedir_destroy`. -/
def pagedirDestroy (initPageDir pd : Nat) (s : Palloc) : Option Palloc :=
  if pd = 0 then some s
  else if pd = initPageDir then none
  else
    match destroyPdes pd (pdNo PHYS_BASE) s with
    | none => none
    | some s => pallocFreePage pd s

/-- The inner loop of `pagedir_copy`, over entries `0, …, n - 1` of the source table `srcPt`,
into the table `dstPt` of the new directory `dst`. -/
def copyPtes (initPageDir dst srcPt dstPt : Nat) : Nat → Palloc → Option (Except Palloc Palloc)
  | 0, s => some (.ok s)
  | n + 1, s =>
    match copyPtes initPageDir dst srcPt dstPt n s with
    | some (.ok s) =>
      if loadWord s.mem (srcPt + 4 * n) &&& PTE_P ≠ 0 then
        let srcPage := pteGetPage (loadWord s.mem (srcPt + 4 * n))
        match pallocGetPage PAL_USER s with
        | none => none
        | some (none, s) =>
          -- `palloc_free_page (dst_pt); pagedir_destroy (dst); return NULL;`
          match pallocFreePage dstPt s with
          | none => none
          | some s => (pagedirDestroy initPageDir dst s).map .error
        | some (some dstPage, s) =>
          match String.memcpy s.mem dstPage srcPage PGSIZE with
          | none => none
          | some (mem, _) =>
            -- `*src_pte` is read again for `PTE_W`, after the copy
            let pte := pteCreateUser dstPage (loadWord mem (srcPt + 4 * n) &&& PTE_W ≠ 0)
            some (.ok { s with mem := storeWord mem (dstPt + 4 * n) pte })
      else some (.ok s)
    | r => r

/-- The outer loop of `pagedir_copy`, over entries `0, …, n - 1` of the source directory. -/
def copyPdes (initPageDir src dst : Nat) : Nat → Palloc → Option (Except Palloc Palloc)
  | 0, s => some (.ok s)
  | n + 1, s =>
    match copyPdes initPageDir src dst n s with
    | some (.ok s) =>
      if loadWord s.mem (src + 4 * n) &&& PTE_P ≠ 0 then
        let srcPt := pdeGetPt (loadWord s.mem (src + 4 * n))
        match pallocGetPage noPallocFlags s with
        | none => none
        | some (none, s) => (pagedirDestroy initPageDir dst s).map .error
        | some (some dstPt, s) =>
          match copyPtes initPageDir dst srcPt dstPt 1024 s with
          | some (.ok s) =>
            some (.ok { s with mem := storeWord s.mem (dst + 4 * n) (pdeCreate dstPt) })
          | r => r
      else some (.ok s)
    | r => r

/-- `pagedir_copy`. -/
def pagedirCopy (initPageDir src : Nat) (s : Palloc) : Option (Nat × Palloc) :=
  if src = 0 then none
  else
    match pagedirCreate initPageDir s with
    | none => none
    | some (dst, s) =>
      if dst = 0 then some (0, s)
      else
        match copyPdes initPageDir src dst (pdNo PHYS_BASE) s with
        | none => none
        | some (.error s) => some (0, s)
        | some (.ok s) => some (dst, s)

/-! ## Words -/

theorem storeWord_of_not_mem {mem : Nat → UInt8} {a x : Nat} (w : UInt32) (h : x < a ∨ a + 4 ≤ x) :
    storeWord mem a w x = mem x := by
  rw [storeWord, if_neg (by omega)]

theorem loadWord_congr {mem mem' : Nat → UInt8} {a : Nat} (h : ∀ k < 4, mem (a + k) = mem' (a + k)) :
    loadWord mem a = loadWord mem' a := by
  have h0 := h 0 (by omega)
  rw [Nat.add_zero] at h0
  rw [loadWord, loadWord, h0, h 1 (by omega), h 2 (by omega), h 3 (by omega)]

/-- A stored word reads back. -/
theorem loadWord_storeWord (mem : Nat → UInt8) (a : Nat) (w : UInt32) :
    loadWord (storeWord mem a w) a = w := by
  have hw := w.toNat_lt
  simp only [loadWord, storeWord]
  rw [if_pos (by omega), if_pos (by omega), if_pos (by omega), if_pos (by omega)]
  simp only [Nat.sub_self, Nat.add_sub_cancel_left]
  apply UInt32.toNat_inj.1
  simp only [UInt32.toNat_ofNat', UInt8.toNat_ofNat']
  omega

/-- A store changes no other word. -/
theorem loadWord_storeWord_of_disjoint (mem : Nat → UInt8) {a b : Nat} (w : UInt32)
    (h : b + 4 ≤ a ∨ a + 4 ≤ b) : loadWord (storeWord mem a w) b = loadWord mem b :=
  loadWord_congr fun k hk => storeWord_of_not_mem w (by omega)

/-- A word of zero bytes is `0`. -/
theorem loadWord_of_zero {mem : Nat → UInt8} {a : Nat} (h : ∀ k < 4, mem (a + k) = 0) :
    loadWord mem a = 0 := by
  have h0 : loadWord mem a = loadWord (fun _ => 0) a := loadWord_congr h
  rw [h0]
  rfl

/-! ## Entries for pages of kernel memory -/

/-- `PTE_ADDR` keeps the page of an entry. -/
theorem toNat_and_PTE_ADDR (x : UInt32) : (x &&& PTE_ADDR).toNat = x.toNat / 2 ^ 12 * 2 ^ 12 := by
  have hx := x.toNat_lt
  rw [UInt32.toNat_and, show PTE_ADDR.toNat = (2 ^ 20 - 1) <<< 12 from rfl,
    ← Nat.shiftRight_eq_div_pow, ← Nat.shiftLeft_eq]
  apply Nat.eq_of_testBit_eq
  intro i
  simp only [Nat.testBit_and, Nat.testBit_shiftLeft, Nat.testBit_shiftRight,
    Nat.testBit_two_pow_sub_one]
  by_cases h12 : 12 ≤ i
  · rw [Nat.add_sub_cancel' h12]
    by_cases h32 : i < 32
    · simp [h12, show i - 12 < 20 by omega]
    · -- past bit 31 both sides are `false`
      have : x.toNat.testBit i = false :=
        Nat.testBit_lt_two_pow (Nat.lt_of_lt_of_le hx (Nat.pow_le_pow_right (by omega) (by omega)))
      simp [h12, show ¬ i - 12 < 20 by omega, this]
  · simp [h12]

/-- `pde_create` sets the three low flags of an address aligned to a page. -/
theorem pdeCreate_toNat {pt : Nat} (h : (vtop pt).toNat % 2 ^ 12 = 0) :
    (pdeCreate pt).toNat = (vtop pt).toNat + 7 := by
  simp only [pdeCreate, UInt32.toNat_or]
  rw [show PTE_U.toNat = 4 from rfl, show PTE_P.toNat = 1 from rfl, show PTE_W.toNat = 2 from rfl,
    Nat.or_assoc, Nat.or_assoc, show (4 ||| (1 ||| 2) : Nat) = 7 from rfl]
  obtain ⟨q, hq⟩ : ∃ q, (vtop pt).toNat = q <<< 12 := ⟨(vtop pt).toNat / 2 ^ 12, by
    rw [Nat.shiftLeft_eq]
    omega⟩
  rw [hq, ← Nat.shiftLeft_add_eq_or_of_lt (by decide : 7 < 2 ^ 12)]

/-- A page of kernel memory: from `PHYS_BASE` on, below `2 ^ 32`, aligned. -/
structure KernelPage (page : Nat) : Prop where
  above : PHYS_BASE ≤ page
  below : page < 2 ^ 32
  aligned : page % PGSIZE = 0

theorem KernelPage.vtop_toNat {pt : Nat} (h : KernelPage pt) : (vtop pt).toNat = pt - PHYS_BASE := by
  have := h.below
  rw [vtop, UInt32.toNat_ofNat']
  exact Nat.mod_eq_of_lt (by omega)

/-- An entry made for a page table in kernel memory points back to it. -/
theorem pdeGetPt_pdeCreate {pt : Nat} (h : KernelPage pt) : pdeGetPt (pdeCreate pt) = pt := by
  have hv := h.vtop_toNat
  have hal : (vtop pt).toNat % 2 ^ 12 = 0 := by
    have := h.aligned
    have := h.above
    simp only [PGSIZE, PHYS_BASE] at *
    omega
  rw [pdeGetPt, ptov, toNat_and_PTE_ADDR, pdeCreate_toNat hal, hv]
  have := h.above
  have := h.aligned
  simp only [PGSIZE, PHYS_BASE] at *
  omega

/-- An entry made by `pde_create` is present. -/
theorem pdeCreate_present {pt : Nat} (h : KernelPage pt) : pdeCreate pt &&& PTE_P ≠ 0 := by
  have hal : (vtop pt).toNat % 2 ^ 12 = 0 := by
    have := h.aligned
    have := h.above
    rw [h.vtop_toNat]
    simp only [PGSIZE, PHYS_BASE] at *
    omega
  intro h0
  have := congrArg UInt32.toNat h0
  rw [UInt32.toNat_and, pdeCreate_toNat hal, show PTE_P.toNat = 1 from rfl, Nat.and_one_is_mod] at this
  simp at this
  omega

/-! ## `palloc_get_page` without `PAL_ZERO` -/

/-- Without `PAL_ZERO`, `palloc_get_page` leaves the memory as it is. -/
theorem pallocGetPage_mem {flags : PallocFlags} (hz : flags.zero = false) {s s' : Palloc}
    {r : Option Nat} (h : pallocGetPage flags s = some (r, s')) : s'.mem = s.mem := by
  unfold pallocGetPage pallocGetMultiple at h
  simp only [Nat.one_ne_zero, ↓reduceIte, hz, Bool.false_eq_true] at h
  split at h
  · simp only [Option.some.injEq, Prod.mk.injEq] at h
    rw [← h.2, Palloc.mem_setPool]
  · split at h
    · cases h
    · simp only [Option.some.injEq, Prod.mk.injEq] at h
      rw [← h.2, Palloc.mem_setPool]

/-- Without `PAL_ZERO`, `palloc_get_page` does not read the memory. -/
theorem pallocGetPage_withMem {flags : PallocFlags} (hz : flags.zero = false) (s : Palloc)
    (m : Nat → UInt8) :
    pallocGetPage flags { s with mem := m } =
      (pallocGetPage flags s).map fun r => (r.1, { r.2 with mem := m }) := by
  have hpool : ∀ u, ({ s with mem := m } : Palloc).pool u = s.pool u := fun u => by
    cases u <;> rfl
  have hset : ∀ u p, ({ s with mem := m } : Palloc).setPool u p = { s.setPool u p with mem := m } :=
    fun u p => by cases u <;> rfl
  unfold pallocGetPage pallocGetMultiple
  simp only [hpool, hset, Nat.one_ne_zero, ↓reduceIte, hz, Bool.false_eq_true]
  split
  · rfl
  · split <;> rfl

/-! ## Looking up a user address -/

theorem ne_zero_of_present {w : UInt32} (h : w &&& PTE_P ≠ 0) : w ≠ 0 := by
  rintro rfl
  exact h rfl

theorem pdNo_lt_of_user {va : Nat} (h : va < PHYS_BASE) : pdNo va < 768 := by
  unfold pdNo PHYS_BASE at *
  omega

theorem ptNo_lt (va : Nat) : ptNo va < 1024 := by
  unfold ptNo
  omega

/-- Without `create`, `lookup_page` follows a directory entry that is not 0 and returns NULL
for one that is; it tests the entry against 0, not `PTE_P`. -/
theorem lookupPage_of_not_create {pd va : Nat} {s : Palloc} (hpd : pd ≠ 0) :
    lookupPage pd va false s =
      if loadWord s.mem (pd + 4 * pdNo va) = 0 then some (0, s)
      else some (pdeGetPt (loadWord s.mem (pd + 4 * pdNo va)) + 4 * ptNo va, s) := by
  unfold lookupPage
  simp only [if_neg hpd, Bool.false_eq_true, false_and, ↓reduceIte]

section GetPage

variable {pd va : Nat} {s : Palloc}

/-- A user address whose directory entry is 0 is not mapped. -/
theorem pagedirGetPage_of_pde_eq_zero (hpd : pd ≠ 0) (hva : va < PHYS_BASE)
    (h : loadWord s.mem (pd + 4 * pdNo va) = 0) : pagedirGetPage pd va s = some 0 := by
  unfold pagedirGetPage
  rw [if_neg (not_not.2 hva), lookupPage_of_not_create hpd, if_pos h]
  simp

/-- A user address whose page-table entry lacks `PTE_P` is not mapped. -/
theorem pagedirGetPage_of_pte_absent (hpd : pd ≠ 0) (hva : va < PHYS_BASE)
    (hpde : loadWord s.mem (pd + 4 * pdNo va) ≠ 0)
    (h : loadWord s.mem (pdeGetPt (loadWord s.mem (pd + 4 * pdNo va)) + 4 * ptNo va) &&& PTE_P = 0) :
    pagedirGetPage pd va s = some 0 := by
  unfold pagedirGetPage
  rw [if_neg (not_not.2 hva), lookupPage_of_not_create hpd, if_neg hpde]
  simp [h]

/-- A user address whose page-table entry has `PTE_P` is mapped to the page that entry names. -/
theorem pagedirGetPage_of_pte_present (hpd : pd ≠ 0) (hva : va < PHYS_BASE)
    (hpde : loadWord s.mem (pd + 4 * pdNo va) ≠ 0)
    (hpt : pdeGetPt (loadWord s.mem (pd + 4 * pdNo va)) + 4 * ptNo va ≠ 0)
    (h : loadWord s.mem (pdeGetPt (loadWord s.mem (pd + 4 * pdNo va)) + 4 * ptNo va) &&& PTE_P ≠ 0) :
    pagedirGetPage pd va s =
      some (pteGetPage (loadWord s.mem (pdeGetPt (loadWord s.mem (pd + 4 * pdNo va)) + 4 * ptNo va)) +
        pgOfs va) := by
  unfold pagedirGetPage
  rw [if_neg (not_not.2 hva), lookupPage_of_not_create hpd, if_neg hpde]
  simp only [if_pos (And.intro hpt h)]

end GetPage

/-! ## Copying a source whose tables have no present entry -/

/-- Over source entries that all lack `PTE_P`, the inner loop of `pagedir_copy` changes nothing:
it writes no entry of `dst_pt`, whatever that page held before. -/
theorem copyPtes_of_absent {initPageDir dst srcPt dstPt : Nat} {s : Palloc} :
    ∀ n, (∀ t < n, loadWord s.mem (srcPt + 4 * t) &&& PTE_P = 0) →
      copyPtes initPageDir dst srcPt dstPt n s = some (.ok s)
  | 0, _ => rfl
  | n + 1, h => by
    rw [copyPtes, copyPtes_of_absent n fun t ht => h t (by omega)]
    simp only [h n (by omega), ne_eq, not_true_eq_false, ↓reduceIte]

/-- Over source entries `m, …, n - 1` that all lack `PTE_P`, the outer loop of `pagedir_copy`
ends where it stood after entry `m - 1`. -/
theorem copyPdes_of_absent {initPageDir src dst m n : Nat} {s s' : Palloc} (hmn : m ≤ n)
    (hm : copyPdes initPageDir src dst m s = some (.ok s'))
    (h : ∀ d, m ≤ d → d < n → loadWord s'.mem (src + 4 * d) &&& PTE_P = 0) :
    copyPdes initPageDir src dst n s = some (.ok s') := by
  induction n, hmn using Nat.le_induction with
  | base => exact hm
  | succ n hmn ih =>
    rw [copyPdes, ih fun d hd hdn => h d hd (by omega)]
    simp only [h n hmn (by omega), ne_eq, not_true_eq_false, ↓reduceIte]

/-- Round 0 of the outer loop over a present directory entry whose table has no present entry:
`dst_pt` comes from `palloc_get_page (0)` as it is, and `dst`'s entry 0 points at it. -/
theorem copyPdes_one_of_empty_table {initPageDir src dst dstPt : Nat} {s s₂ : Palloc}
    (hpde : loadWord s.mem src &&& PTE_P ≠ 0)
    (hget : pallocGetPage noPallocFlags s = some (some dstPt, s₂))
    (hptes : ∀ t < 1024, loadWord s₂.mem (pdeGetPt (loadWord s.mem src) + 4 * t) &&& PTE_P = 0) :
    copyPdes initPageDir src dst 1 s =
      some (.ok { s₂ with mem := storeWord s₂.mem dst (pdeCreate dstPt) }) := by
  rw [copyPdes, copyPdes]
  simp only [Nat.mul_zero, Nat.add_zero, ne_eq, hpde, not_false_eq_true, ↓reduceIte, hget,
    copyPtes_of_absent 1024 hptes]

/-- A directory whose entry for `va` is `pde_create (pt)` maps `va` as entry `pt_no (va)` of `pt`
says. -/
theorem pagedirGetPage_of_pdeCreate {pd pt va : Nat} {s : Palloc} (hpd : pd ≠ 0)
    (hva : va < PHYS_BASE) (hpt : KernelPage pt)
    (h : loadWord s.mem (pd + 4 * pdNo va) = pdeCreate pt)
    (hpte : loadWord s.mem (pt + 4 * ptNo va) &&& PTE_P ≠ 0) :
    pagedirGetPage pd va s = some (pteGetPage (loadWord s.mem (pt + 4 * ptNo va)) + pgOfs va) := by
  have hpt0 : pt + 4 * ptNo va ≠ 0 := by
    have := hpt.above
    unfold PHYS_BASE at this
    omega
  have hpde : loadWord s.mem (pd + 4 * pdNo va) ≠ 0 := by
    rw [h]
    exact ne_zero_of_present (pdeCreate_present hpt)
  rw [pagedirGetPage_of_pte_present hpd hva hpde (by rw [h, pdeGetPt_pdeCreate hpt]; exact hpt0)
    (by rw [h, pdeGetPt_pdeCreate hpt]; exact hpte), h, pdeGetPt_pdeCreate hpt]

/-! ## A stale entry survives the copy -/

/-- A source directory that maps no user page although one of its entries is present: entry 0
has `PTE_P` and points at a table none of whose entries has it, and the other user entries are
0. -/
structure NoUserPage (mem : Nat → UInt8) (src : Nat) : Prop where
  first : loadWord mem src &&& PTE_P ≠ 0
  rest : ∀ d, 1 ≤ d → d < 768 → loadWord mem (src + 4 * d) = 0
  table : ∀ t < 1024, loadWord mem (pdeGetPt (loadWord mem src) + 4 * t) &&& PTE_P = 0

/-- Such a directory maps no user address. -/
theorem NoUserPage.getPage {src va : Nat} {s : Palloc} (h : NoUserPage s.mem src) (hsrc : src ≠ 0)
    (hva : va < PHYS_BASE) : pagedirGetPage src va s = some 0 := by
  have hd := pdNo_lt_of_user hva
  by_cases h0 : pdNo va = 0
  · -- through entry 0, to a table entry without `PTE_P`
    have hpde : src + 4 * pdNo va = src := by rw [h0, Nat.mul_zero, Nat.add_zero]
    apply pagedirGetPage_of_pte_absent hsrc hva
    · rw [hpde]
      exact ne_zero_of_present h.first
    · rw [hpde]
      exact h.table _ (ptNo_lt va)
  · exact pagedirGetPage_of_pde_eq_zero hsrc hva (h.rest _ (by omega) hd)

/-- Where the pages `pagedir_copy` touches lie: the new directory `dst` overlaps neither
`init_page_dir`, the source's user entries, the source's first table, nor `dst_pt`. -/
structure Apart (initPageDir src srcPt dst dstPt : Nat) : Prop where
  init : dst + PGSIZE ≤ initPageDir ∨ initPageDir + PGSIZE ≤ dst
  src : src + 4 * 768 ≤ dst ∨ dst + PGSIZE ≤ src
  srcPt : srcPt + PGSIZE ≤ dst ∨ dst + PGSIZE ≤ srcPt
  dstPt : dstPt + PGSIZE ≤ dst ∨ dst + PGSIZE ≤ dstPt

/-- `pagedir_copy` copies a present directory entry without clearing the page it takes for the
copied table: from a source that maps no user page, the copy maps every address of the first
4 MB whose entry in that recycled page has `PTE_P`, to the page the stale entry names. -/
theorem pagedirCopy_keeps_stale_entries {initPageDir src dst dstPt : Nat} {s s₁ s₂ : Palloc}
    (hsrc : src ≠ 0) (hinit : initPageDir ≠ 0) (hdst : dst ≠ 0)
    (hget₁ : pallocGetPage noPallocFlags s = some (some dst, s₁))
    (hget₂ : pallocGetPage noPallocFlags s₁ = some (some dstPt, s₂))
    (hpt : KernelPage dstPt) (hshape : NoUserPage s.mem src)
    (hapart : Apart initPageDir src (pdeGetPt (loadWord s.mem src)) dst dstPt) :
    ∃ s', pagedirCopy initPageDir src s = some (dst, s') ∧
      (∀ va, va < PHYS_BASE → pagedirGetPage src va s = some 0) ∧
      ∀ va, va < 2 ^ 22 → loadWord s.mem (dstPt + 4 * ptNo va) &&& PTE_P ≠ 0 →
        pagedirGetPage dst va s' = some (pteGetPage (loadWord s.mem (dstPt + 4 * ptNo va)) + pgOfs va) := by
  have hs₁ : s₁.mem = s.mem := pallocGetPage_mem rfl hget₁
  -- the memory once `pagedir_create` has copied `init_page_dir` into `dst`
  obtain ⟨M, hM⟩ : ∃ M, M = String.moveBytes s.mem dst initPageDir PGSIZE := ⟨_, rfl⟩
  have hread : ∀ a, a + 4 ≤ dst ∨ dst + PGSIZE ≤ a → loadWord M a = loadWord s.mem a := by
    intro a ha
    rw [hM]
    exact loadWord_congr fun k _ => String.moveBytes_of_not_mem (by omega)
  have hcreate : pagedirCreate initPageDir s = some (dst, { s₁ with mem := M }) := by
    rw [pagedirCreate, hget₁]
    simp only
    rw [String.memcpy_spec _ (.inl hdst) (.inl hinit) hapart.init, hs₁, hM]
  -- round 0 of the outer loop takes `dst_pt` and points `dst`'s entry 0 at it
  have hsrc0 : loadWord M src = loadWord s.mem src := hread src (by have := hapart.src; omega)
  have hget₂' : pallocGetPage noPallocFlags { s₁ with mem := M } =
      some (some dstPt, { s₂ with mem := M }) := by
    rw [pallocGetPage_withMem rfl, hget₂]
    rfl
  have hptes : ∀ t < 1024, loadWord M (pdeGetPt (loadWord M src) + 4 * t) &&& PTE_P = 0 := by
    intro t ht
    rw [hsrc0, hread _ (by have := hapart.srcPt; unfold PGSIZE at *; omega)]
    exact hshape.table t ht
  have hround : copyPdes initPageDir src dst 1 { s₁ with mem := M } =
      some (.ok { s₂ with mem := storeWord M dst (pdeCreate dstPt) }) :=
    copyPdes_one_of_empty_table (hsrc0 ▸ hshape.first) hget₂' hptes
  -- entries 1, …, 767 are 0 in the source
  have hloop : copyPdes initPageDir src dst (pdNo PHYS_BASE) { s₁ with mem := M } =
      some (.ok { s₂ with mem := storeWord M dst (pdeCreate dstPt) }) := by
    refine copyPdes_of_absent (by decide) hround fun d hd hd' => ?_
    have hd'' : d < 768 := hd'
    have := hapart.src
    unfold PGSIZE at this
    dsimp only
    rw [loadWord_storeWord_of_disjoint _ _ (by omega), hread _ (by unfold PGSIZE; omega),
      hshape.rest d hd hd'']
    rfl
  refine ⟨{ s₂ with mem := storeWord M dst (pdeCreate dstPt) }, ?_,
    fun va hva => hshape.getPage hsrc hva, fun va hva hstale => ?_⟩
  · rw [pagedirCopy, if_neg hsrc, hcreate]
    simp only [if_neg hdst, hloop]
  · -- `dst`'s entry 0 points at `dst_pt`, whose bytes are as `palloc_get_page` found them
    have hpde : loadWord (storeWord M dst (pdeCreate dstPt)) (dst + 4 * pdNo va) = pdeCreate dstPt := by
      have : pdNo va = 0 := by unfold pdNo; omega
      rw [this, Nat.mul_zero, Nat.add_zero, loadWord_storeWord]
    have hpte : loadWord (storeWord M dst (pdeCreate dstPt)) (dstPt + 4 * ptNo va) =
        loadWord s.mem (dstPt + 4 * ptNo va) := by
      have := ptNo_lt va
      have := hapart.dstPt
      unfold PGSIZE at *
      rw [loadWord_storeWord_of_disjoint _ _ (by omega), hread _ (by omega)]
    have hpresent : loadWord (storeWord M dst (pdeCreate dstPt)) (dstPt + 4 * ptNo va) &&& PTE_P ≠ 0 := by
      rw [hpte]
      exact hstale
    have hva' : va < PHYS_BASE := by unfold PHYS_BASE; omega
    rw [pagedirGetPage_of_pdeCreate (s := { s₂ with mem := storeWord M dst (pdeCreate dstPt) })
      hdst hva' hpt hpde hpresent, ← hpte]

/-- Memory at boot, before anything clears it: a source directory at `0xc0200000` whose entry 0
is present with frame 0 (its table is the zero page at `PHYS_BASE`), and the word
`PTE_U | PTE_W | PTE_P` with frame 0 left at `0xc0102000`, the second page the kernel pool hands
out. -/
def bootMem : Nat → UInt8 := fun a => if a = 0xc0200000 ∨ a = 0xc0102000 then 7 else 0

/-- The allocator `palloc_init` builds over eight free pages from `0xc0100000`. -/
def bootState : Palloc :=
  ⟨⟨Bitmap.bitmapCreate 3, 0xc0101000⟩, ⟨Bitmap.bitmapCreate 3, 0xc0105000⟩, bootMem⟩

example : pallocInit 0xc0100000 8 8 bootMem = some bootState := rfl

theorem bootMem_of_ne {a : Nat} (h : a ≠ 0xc0200000) (h' : a ≠ 0xc0102000) : bootMem a = 0 := by
  rw [bootMem, if_neg (by omega)]

theorem pagedirCopy_maps_stale_page_at_boot :
    ∃ s', pagedirCopy 0xc0300000 0xc0200000 bootState = some (0xc0101000, s') ∧
      (∀ va, va < PHYS_BASE → pagedirGetPage 0xc0200000 va bootState = some 0) ∧
      pagedirGetPage 0xc0101000 0 s' = some PHYS_BASE := by
  -- `pagedir_create` takes the first free kernel page, the copy of entry 0 the second
  obtain ⟨s₁, s₂, hget₁, hget₂⟩ : ∃ s₁ s₂,
      pallocGetPage noPallocFlags bootState = some (some 0xc0101000, s₁) ∧
        pallocGetPage noPallocFlags s₁ = some (some 0xc0102000, s₂) :=
    ⟨_, _, rfl, rfl⟩
  have hsrcPt : pdeGetPt (loadWord bootMem 0xc0200000) = PHYS_BASE := by decide +kernel
  have hshape : NoUserPage bootState.mem 0xc0200000 := by
    refine ⟨by decide +kernel, fun d hd hd' => loadWord_of_zero fun k hk => ?_,
      fun t ht => ?_⟩
    · exact bootMem_of_ne (by omega) (by omega)
    · show loadWord bootMem (pdeGetPt (loadWord bootMem 0xc0200000) + 4 * t) &&& PTE_P = 0
      rw [hsrcPt, loadWord_of_zero fun k hk => bootMem_of_ne (by unfold PHYS_BASE; omega)
        (by unfold PHYS_BASE; omega)]
      rfl
  have hapart : Apart 0xc0300000 0xc0200000 (pdeGetPt (loadWord bootState.mem 0xc0200000))
      0xc0101000 0xc0102000 := by
    show Apart _ _ (pdeGetPt (loadWord bootMem 0xc0200000)) _ _
    rw [hsrcPt]
    constructor <;> decide
  obtain ⟨s', hcopy, hsrc, hdst⟩ := pagedirCopy_keeps_stale_entries (by decide) (by decide)
    (by decide) hget₁ hget₂ ⟨by decide, by decide, by decide⟩ hshape hapart
  refine ⟨s', hcopy, hsrc, ?_⟩
  rw [hdst 0 (by decide) (by decide +kernel)]
  decide +kernel

end Pintos.Pagedir
