import Mathlib.Data.List.Pairwise
import Pintos.LibKernel.Bitmap
import Pintos.Lib.Run

/-!
# The page allocator: `threads/palloc.c`

Two pools, each a `used_map` bitmap and the address of its first page.  `palloc_get_multiple`
takes the first run of free pages `bitmap_scan_and_flip` finds, and `palloc_free_multiple`
finds the pool of a page with `page_from_pool` and clears its bits.  `palloc_init` splits the
free memory in two and puts each pool's bitmap in the pool's first pages (`init_pool`).
Memory is a map from kernel virtual addresses to bytes, for `PAL_ZERO` and for the `0xcc`
that freed pages are filled with.  A `PANIC` or a failed `ASSERT` ends the call with `none`.

## The allocator as a machine

The callers are a machine that holds the live allocations: `PallocStep` gets pages or frees a
live allocation, named exactly as it was handed out.  `Alloc` records an allocation by its pool,
first page index and page count.

## Results

* `palloc_sound` — in every state reachable from `palloc_init`, a bit of a pool's `used_map`
  is set exactly when its page lies in a live allocation, live allocations are disjoint and
  inside their pools, `palloc_get_multiple` returns the lowest run of free pages (zeroed under
  `PAL_ZERO`) and NULL exactly when there is none, and freeing a live allocation passes its
  `ASSERT`s.
-/

set_option autoImplicit false

namespace Pintos.PageAlloc

/-- `PGSIZE`. -/
def PGSIZE : Nat := 4096

/-- `enum palloc_flags`, as a set of flags. -/
structure PallocFlags where
  /-- `PAL_ASSERT`: panic on failure. -/
  assert : Bool
  /-- `PAL_ZERO`: zero the pages. -/
  zero : Bool
  /-- `PAL_USER`: take the pages from the user pool. -/
  user : Bool
  deriving DecidableEq, Repr

/-- `struct pool`. -/
structure Pool where
  usedMap : Bitmap
  base : Nat

/-- The allocator's state: its pools and the memory they hand out. -/
structure Palloc where
  kernelPool : Pool
  userPool : Pool
  mem : Nat → UInt8

/-- The pool `PAL_USER` selects. -/
def Palloc.pool (s : Palloc) (user : Bool) : Pool := if user then s.userPool else s.kernelPool

section
-- the equation lemmas, generated once here rather than by each proof below that unfolds
-- these definitions
attribute [local simp] Palloc.pool
end

/-- Replace the pool `PAL_USER` selects. -/
def Palloc.setPool (s : Palloc) (user : Bool) (p : Pool) : Palloc :=
  if user then { s with userPool := p } else { s with kernelPool := p }

/-- `memset (p, v, n)`. -/
def memset (mem : Nat → UInt8) (p : Nat) (v : UInt8) (n : Nat) : Nat → UInt8 :=
  fun a => if p ≤ a ∧ a < p + n then v else mem a

/-- `palloc_get_multiple`: the first page, or NULL; `none` if `PAL_ASSERT` panics. -/
def pallocGetMultiple (flags : PallocFlags) (pageCnt : Nat) (s : Palloc) :
    Option (Option Nat × Palloc) :=
  let pool := s.pool flags.user
  if pageCnt = 0 then some (none, s)
  else
    let (pageIdx, usedMap) := pool.usedMap.bitmapScanAndFlip 0 pageCnt false
    let s₁ := s.setPool flags.user { pool with usedMap }
    match pageIdx with
    | some idx =>
      let pages := pool.base + PGSIZE * idx
      if flags.zero then some (some pages, { s₁ with mem := memset s₁.mem pages 0 (PGSIZE * pageCnt) })
      else some (some pages, s₁)
    | none => if flags.assert then none else some (none, s₁)

/-- `page_from_pool`. -/
def pageFromPool (pool : Pool) (page : Nat) : Bool :=
  let pageNo := page / PGSIZE
  let startPage := pool.base / PGSIZE
  decide (pageNo ≥ startPage) && decide (pageNo < startPage + pool.usedMap.bitmapSize)

/-- `palloc_free_multiple`; `none` when an `ASSERT` fails or `NOT_REACHED` is reached. -/
def pallocFreeMultiple (pages pageCnt : Nat) (s : Palloc) : Option Palloc :=
  if pages % PGSIZE ≠ 0 then none
  else if pages = 0 ∨ pageCnt = 0 then some s
  else
    let user? :=
      if pageFromPool s.kernelPool pages then some false
      else if pageFromPool s.userPool pages then some true
      else none
    match user? with
    | none => none
    | some user =>
      let pool := s.pool user
      let pageIdx := pages / PGSIZE - pool.base / PGSIZE
      let s₁ := { s with mem := memset s.mem pages 0xcc (PGSIZE * pageCnt) }
      if pool.usedMap.bitmapAll pageIdx pageCnt then
        some (s₁.setPool user { pool with usedMap := pool.usedMap.bitmapSetMultiple pageIdx pageCnt false })
      else none

/-- `bitmap_buf_size`: the `struct bitmap` header and its words. -/
def bitmapBufSize (bitCnt : Nat) : Nat := 8 + 4 * elemCnt bitCnt

/-- `init_pool`: the bitmap takes the pool's first pages; `none` if they do not fit. -/
def initPool (base pageCnt : Nat) : Option Pool :=
  let bmPages := (bitmapBufSize pageCnt + PGSIZE - 1) / PGSIZE
  if bmPages > pageCnt then none
  else some ⟨Bitmap.bitmapCreate (pageCnt - bmPages), base + bmPages * PGSIZE⟩

/-- `palloc_init`: free memory from `freeStart`, `freePages` pages, at most `userPageLimit` of
them for the user pool. -/
def pallocInit (freeStart freePages userPageLimit : Nat) (mem : Nat → UInt8) : Option Palloc :=
  let userPages := min (freePages / 2) userPageLimit
  let kernelPages := freePages - userPages
  match initPool freeStart kernelPages, initPool (freeStart + kernelPages * PGSIZE) userPages with
  | some k, some u => some ⟨k, u, mem⟩
  | _, _ => none

/-! ## Allocations -/

/-- A live allocation: its pool, first page index and page count. -/
structure Alloc where
  user : Bool
  idx : Nat
  cnt : Nat
  deriving DecidableEq, Repr

/-- The address `palloc_get_multiple` returned for an allocation. -/
def Palloc.addr (s : Palloc) (a : Alloc) : Nat := (s.pool a.user).base + PGSIZE * a.idx

/-- Page `j` of pool `user` lies in allocation `a`. -/
def Alloc.Covers (a : Alloc) (user : Bool) (j : Nat) : Prop :=
  a.user = user ∧ a.idx ≤ j ∧ j < a.idx + a.cnt

/-- Two allocations share no page. -/
def Alloc.Disjoint (a b : Alloc) : Prop := ∀ user j, a.Covers user j → ¬ b.Covers user j

/-- What the allocator's callers do: get pages, or free a live allocation. -/
inductive PallocEvent where
  | got (flags : PallocFlags) (pageCnt : Nat) (pages : Option Nat)
  | freed (a : Alloc)
  deriving DecidableEq, Repr

/-- The allocator with its callers, who keep the live allocations. -/
inductive PallocStep : Palloc × List Alloc → PallocEvent → Palloc × List Alloc → Prop where
  | getSome {s s' : Palloc} {live : List Alloc} {flags : PallocFlags} {n idx : Nat}
      (h : pallocGetMultiple flags n s = some (some ((s.pool flags.user).base + PGSIZE * idx), s')) :
      PallocStep (s, live) (.got flags n (some ((s.pool flags.user).base + PGSIZE * idx)))
        (s', live ++ [⟨flags.user, idx, n⟩])
  | getNone {s s' : Palloc} {live : List Alloc} {flags : PallocFlags} {n : Nat}
      (h : pallocGetMultiple flags n s = some (none, s')) :
      PallocStep (s, live) (.got flags n none) (s', live)
  | free {s s' : Palloc} {live : List Alloc} {a : Alloc} (ha : a ∈ live)
      (h : pallocFreeMultiple (s.addr a) a.cnt s = some s') :
      PallocStep (s, live) (.freed a) (s', live.erase a)

/-! ## Pools -/

namespace Palloc

variable (s : Palloc)

@[simp] theorem pool_setPool (u u' : Bool) (p : Pool) :
    (s.setPool u p).pool u' = if u' = u then p else s.pool u' := by
  cases u <;> cases u' <;> simp [setPool, pool]

@[simp] theorem mem_setPool (u : Bool) (p : Pool) : (s.setPool u p).mem = s.mem := by
  cases u <;> rfl

theorem setPool_pool (u : Bool) : s.setPool u (s.pool u) = s := by
  cases u <;> rfl

end Palloc

/-- The pools lie one after the other, page-aligned and above NULL, as `palloc_init` places
them. -/
structure Layout (s : Palloc) : Prop where
  kernel_aligned : s.kernelPool.base % PGSIZE = 0
  user_aligned : s.userPool.base % PGSIZE = 0
  kernel_pos : 0 < s.kernelPool.base
  ordered : s.kernelPool.base + PGSIZE * s.kernelPool.usedMap.bitCnt ≤ s.userPool.base

theorem Layout.of_pools {s s' : Palloc} (h : Layout s)
    (hb : ∀ u, (s'.pool u).base = (s.pool u).base)
    (hc : ∀ u, (s'.pool u).usedMap.bitCnt = (s.pool u).usedMap.bitCnt) : Layout s' := by
  have hbk := hb false
  have hbu := hb true
  have hck := hc false
  simp only [Palloc.pool, Bool.false_eq_true, ↓reduceIte] at hbk hbu hck
  exact ⟨hbk ▸ h.kernel_aligned, hbu ▸ h.user_aligned, hbk ▸ h.kernel_pos,
    hbk ▸ hbu ▸ hck ▸ h.ordered⟩

/-! ## `palloc_get_multiple` -/

theorem pallocGetMultiple_zero (flags : PallocFlags) (s : Palloc) :
    pallocGetMultiple flags 0 s = some (none, s) := by
  simp [pallocGetMultiple]

theorem pallocGetMultiple_of_scan_none {flags : PallocFlags} {n : Nat} {s : Palloc} (hn : n ≠ 0)
    (h : (s.pool flags.user).usedMap.bitmapScan 0 n false = none) :
    pallocGetMultiple flags n s = if flags.assert then none else some (none, s) := by
  simp only [pallocGetMultiple, hn, ↓reduceIte, Bitmap.bitmapScanAndFlip, h]
  rw [show ({ usedMap := (s.pool flags.user).usedMap, base := (s.pool flags.user).base } : Pool) =
    s.pool flags.user from rfl, Palloc.setPool_pool]

/-- `palloc_get_multiple` hands out pages of the pool it draws on. -/
theorem pallocGetMultiple_addr {flags : PallocFlags} {n a : Nat} {s s' : Palloc}
    (h : pallocGetMultiple flags n s = some (some a, s')) :
    ∃ idx, a = (s.pool flags.user).base + PGSIZE * idx := by
  unfold pallocGetMultiple at h
  split at h
  · cases h
  · rcases hsc : (s.pool flags.user).usedMap.bitmapScan 0 n false with _ | idx
    · simp only [Bitmap.bitmapScanAndFlip, hsc] at h
      split at h <;> cases h
    · simp only [Bitmap.bitmapScanAndFlip, hsc] at h
      refine ⟨idx, ?_⟩
      split at h <;>
      · simp only [Option.some.injEq, Prod.mk.injEq] at h
        exact h.1.symm

theorem pallocGetMultiple_of_scan_some {flags : PallocFlags} {n idx : Nat} {s : Palloc}
    (hn : n ≠ 0) (h : (s.pool flags.user).usedMap.bitmapScan 0 n false = some idx) :
    ∃ s', pallocGetMultiple flags n s = some (some ((s.pool flags.user).base + PGSIZE * idx), s') ∧
      (∀ u, s'.pool u = if u = flags.user then
        { s.pool flags.user with
          usedMap := (s.pool flags.user).usedMap.bitmapSetMultiple idx n true }
        else s.pool u) ∧
      (flags.zero = true → ∀ a, (s.pool flags.user).base + PGSIZE * idx ≤ a →
        a < (s.pool flags.user).base + PGSIZE * idx + PGSIZE * n → s'.mem a = 0) := by
  simp only [pallocGetMultiple, hn, ↓reduceIte, Bitmap.bitmapScanAndFlip, h, Bool.not_false]
  cases hz : flags.zero
  · exact ⟨_, rfl, fun u => by simp, by simp⟩
  · refine ⟨_, rfl, fun u => ?_, fun _ a h1 h2 => ?_⟩
    · cases u <;> cases hu : flags.user <;> simp [Palloc.setPool, Palloc.pool]
    · simp [memset, h1, h2]

/-! ## The invariant -/

/-- What holds between the allocator and its callers: the bits of `used_map` are the pages of
live allocations, which lie inside their pools and do not overlap. -/
structure Inv (s : Palloc) (live : List Alloc) : Prop where
  layout : Layout s
  used : ∀ u j, j < (s.pool u).usedMap.bitCnt →
    ((s.pool u).usedMap.bitmapTest j = true ↔ ∃ a ∈ live, a.Covers u j)
  inside : ∀ a ∈ live, 0 < a.cnt ∧ a.idx + a.cnt ≤ (s.pool a.user).usedMap.bitCnt
  disjoint : live.Pairwise Alloc.Disjoint

theorem covers_append (live : List Alloc) (x : Alloc) (u : Bool) (j : Nat) :
    (∃ a ∈ live ++ [x], a.Covers u j) ↔ (∃ a ∈ live, a.Covers u j) ∨ x.Covers u j := by
  simp [or_and_right, exists_or]

section Inv

variable {s : Palloc} {live : List Alloc}

theorem Inv.not_covers_of_test (hI : Inv s live) {u : Bool} {j : Nat}
    (hj : j < (s.pool u).usedMap.bitCnt) (ht : (s.pool u).usedMap.bitmapTest j = false) :
    ∀ a ∈ live, ¬ a.Covers u j := by
  intro a ha hc
  have := (hI.used u j hj).mpr ⟨a, ha, hc⟩
  rw [ht] at this
  cases this

/-- Live allocations are distinct: each covers its own first page. -/
theorem Inv.nodup (hI : Inv s live) : live.Nodup := by
  refine hI.disjoint.imp_of_mem fun {a b} ha _ hab hEq => ?_
  subst hEq
  have hpos := (hI.inside a ha).1
  exact hab a.user a.idx ⟨rfl, le_refl _, by omega⟩ ⟨rfl, le_refl _, by omega⟩

theorem Inv.get (hI : Inv s live) {flags : PallocFlags} {n idx : Nat} {s' : Palloc} (hn : n ≠ 0)
    (hs : (s.pool flags.user).usedMap.bitmapScan 0 n false = some idx)
    (hp : ∀ u, s'.pool u = if u = flags.user then
      { s.pool flags.user with
        usedMap := (s.pool flags.user).usedMap.bitmapSetMultiple idx n true }
      else s.pool u) :
    Inv s' (live ++ [⟨flags.user, idx, n⟩]) := by
  obtain ⟨-, hfit, hfree, -⟩ := (s.pool flags.user).usedMap.bitmapScan_eq_some hs
  have hcnt : ∀ u, (s'.pool u).usedMap.bitCnt = (s.pool u).usedMap.bitCnt := by
    intro u
    rw [hp u]
    split <;> simp_all
  refine ⟨hI.layout.of_pools (fun u => by rw [hp u]; split <;> simp_all) hcnt, ?_, ?_, ?_⟩
  · intro u j hj
    rw [hcnt] at hj
    rw [covers_append]
    by_cases hu : u = flags.user
    · subst hu
      rw [hp, if_pos rfl]
      simp only
      rw [Bitmap.bitmapTest_setMultiple _ hfit, ← hI.used _ j hj]
      simp only [Alloc.Covers, true_and]
      split
      · rename_i hr
        simp [hr]
      · rename_i hr
        simp [hr]
    · rw [hp, if_neg hu, hI.used u j hj]
      simp only [Alloc.Covers]
      constructor
      · exact Or.inl
      · rintro (h | ⟨h1, -⟩)
        · exact h
        · exact absurd h1.symm hu
  · intro a ha
    rw [hcnt]
    rcases List.mem_append.mp ha with ha | ha
    · exact hI.inside a ha
    · rw [List.mem_singleton] at ha
      subst ha
      exact ⟨Nat.pos_of_ne_zero hn, hfit⟩
  · refine List.pairwise_append.mpr ⟨hI.disjoint, List.pairwise_singleton _ _, ?_⟩
    intro a ha b hb u j hca hcb
    rw [List.mem_singleton] at hb
    subst hb
    simp only [Alloc.Covers] at hcb
    obtain ⟨rfl, h1, h2⟩ := hcb
    have ht := hfree j (by simpa using h1) h2
    exact hI.not_covers_of_test (by omega) ht a ha hca

end Inv

theorem Alloc.Disjoint.symm {a b : Alloc} (h : a.Disjoint b) : b.Disjoint a :=
  fun u j hb ha => h u j ha hb

instance : Std.Symm Alloc.Disjoint := ⟨fun _ _ => Alloc.Disjoint.symm⟩

/-! ## `palloc_free_multiple` -/

section Free

variable {s : Palloc} {live : List Alloc} {a : Alloc}

/-- The pages of other allocations are the pages of live ones outside `a`. -/
theorem Inv.covers_erase (hI : Inv s live) (ha : a ∈ live) (u : Bool) (j : Nat) :
    (∃ b ∈ live.erase a, b.Covers u j) ↔ (∃ b ∈ live, b.Covers u j) ∧ ¬ a.Covers u j := by
  constructor
  · rintro ⟨b, hb, hc⟩
    rw [hI.nodup.mem_erase_iff] at hb
    exact ⟨⟨b, hb.2, hc⟩, fun hac => hI.disjoint.forall ha hb.2 (Ne.symm hb.1) u j hac hc⟩
  · rintro ⟨⟨b, hb, hc⟩, hna⟩
    refine ⟨b, (List.mem_erase_of_ne ?_).mpr hb, hc⟩
    rintro rfl
    exact hna hc

theorem Inv.addr_aligned (hI : Inv s live) (a : Alloc) : s.addr a % PGSIZE = 0 := by
  have hk := hI.layout.kernel_aligned
  have hu := hI.layout.user_aligned
  unfold Palloc.addr Palloc.pool PGSIZE at *
  split <;> omega

theorem Inv.addr_pos (hI : Inv s live) (a : Alloc) : 0 < s.addr a := by
  have hk := hI.layout.kernel_pos
  have ho := hI.layout.ordered
  unfold Palloc.addr Palloc.pool at *
  split <;> omega

/-- `page_from_pool` finds the pool an allocation came from. -/
theorem Inv.pageFromPool_kernel (hI : Inv s live) (ha : a ∈ live) :
    pageFromPool s.kernelPool (s.addr a) = !a.user := by
  obtain ⟨hpos, hin⟩ := hI.inside a ha
  have hk := hI.layout.kernel_aligned
  have hu := hI.layout.user_aligned
  have ho := hI.layout.ordered
  unfold PGSIZE at hk hu ho
  cases hua : a.user <;>
    simp only [pageFromPool, Bitmap.bitmapSize, Palloc.addr, Palloc.pool, PGSIZE, hua,
      Bool.false_eq_true, ↓reduceIte, Nat.add_mul_div_left _ _ (show 0 < 4096 by decide)]
      at hin ⊢ <;> simp <;> omega

theorem Inv.pageFromPool_user (hI : Inv s live) (ha : a ∈ live) (hua : a.user = true) :
    pageFromPool s.userPool (s.addr a) = true := by
  obtain ⟨hpos, hin⟩ := hI.inside a ha
  have hu := hI.layout.user_aligned
  unfold PGSIZE at hu
  simp only [pageFromPool, Bitmap.bitmapSize, Palloc.addr, Palloc.pool, PGSIZE, hua,
    ↓reduceIte, Nat.add_mul_div_left _ _ (show 0 < 4096 by decide)] at hin ⊢
  simp
  omega

theorem Inv.pageIdx (hI : Inv s live) (a : Alloc) :
    s.addr a / PGSIZE - (s.pool a.user).base / PGSIZE = a.idx := by
  have hk := hI.layout.kernel_aligned
  have hu := hI.layout.user_aligned
  unfold Palloc.addr Palloc.pool PGSIZE at *
  split <;> omega

/-- The pages of a live allocation are all marked used. -/
theorem Inv.bitmapAll (hI : Inv s live) (ha : a ∈ live) :
    (s.pool a.user).usedMap.bitmapAll a.idx a.cnt = true := by
  have hin := (hI.inside a ha).2
  have h : (s.pool a.user).usedMap.bitmapContains a.idx a.cnt (!true) = false :=
    (Bitmap.bitmapContains_not_eq_false _).mpr fun j h1 h2 =>
      (hI.used a.user j (by omega)).mpr ⟨a, ha, rfl, h1, h2⟩
  simpa [Bitmap.bitmapAll] using h

/-- Freeing a live allocation passes the `ASSERT`s and clears exactly its bits. -/
theorem Inv.free (hI : Inv s live) (ha : a ∈ live) :
    ∃ s', pallocFreeMultiple (s.addr a) a.cnt s = some s' ∧
      ∀ u, s'.pool u = if u = a.user then
        { s.pool a.user with
          usedMap := (s.pool a.user).usedMap.bitmapSetMultiple a.idx a.cnt false }
        else s.pool u := by
  have hk := hI.pageFromPool_kernel ha
  have hidx := hI.pageIdx a
  have hall := hI.bitmapAll ha
  have hpos := (hI.inside a ha).1
  unfold pallocFreeMultiple
  rw [if_neg (by rw [hI.addr_aligned a]; decide), if_neg (by have := hI.addr_pos a; omega)]
  cases hua : a.user
  · rw [hua] at hk hidx hall
    simp only [hk, Bool.not_false, ↓reduceIte, hidx, hall]
    refine ⟨_, rfl, fun u => ?_⟩
    cases u <;> simp [Palloc.setPool, Palloc.pool]
  · have hu := hI.pageFromPool_user ha hua
    rw [hua] at hk hidx hall
    simp only [hk, Bool.not_true, Bool.false_eq_true, ↓reduceIte, hu, hidx, hall]
    refine ⟨_, rfl, fun u => ?_⟩
    cases u <;> simp [Palloc.setPool, Palloc.pool]

theorem Inv.erase (hI : Inv s live) (ha : a ∈ live) {s' : Palloc}
    (hp : ∀ u, s'.pool u = if u = a.user then
      { s.pool a.user with
        usedMap := (s.pool a.user).usedMap.bitmapSetMultiple a.idx a.cnt false }
      else s.pool u) :
    Inv s' (live.erase a) := by
  have hin := (hI.inside a ha).2
  have hcnt : ∀ u, (s'.pool u).usedMap.bitCnt = (s.pool u).usedMap.bitCnt := by
    intro u
    rw [hp u]
    split <;> simp_all
  refine ⟨hI.layout.of_pools (fun u => by rw [hp u]; split <;> simp_all) hcnt, ?_, ?_, ?_⟩
  · intro u j hj
    rw [hcnt] at hj
    rw [hI.covers_erase ha, ← hI.used u j hj]
    by_cases hu : u = a.user
    · subst hu
      rw [hp, if_pos rfl]
      simp only
      rw [Bitmap.bitmapTest_setMultiple _ hin]
      simp only [Alloc.Covers, true_and]
      split
      · rename_i hr
        simp [hr]
      · rename_i hr
        simp [hr]
    · rw [hp, if_neg hu]
      simp [Alloc.Covers, Ne.symm hu]
  · intro b hb
    rw [hcnt]
    exact hI.inside b (List.mem_of_mem_erase hb)
  · exact hI.disjoint.sublist (List.erase_sublist)

end Free

/-! ## What `palloc_get_multiple` returns -/

/-- Page `j` of pool `user` lies in no live allocation. -/
def PageFree (live : List Alloc) (user : Bool) (j : Nat) : Prop := ∀ a ∈ live, ¬ a.Covers user j

/-- `n` free pages of pool `user` start at page `i`. -/
def FreeRun (s : Palloc) (live : List Alloc) (user : Bool) (n i : Nat) : Prop :=
  i + n ≤ (s.pool user).usedMap.bitCnt ∧ ∀ j, i ≤ j → j < i + n → PageFree live user j

/-- `palloc_get_multiple` from a state: NULL for no page, the lowest run of free pages (zeroed
under `PAL_ZERO`), and NULL (or the panic `PAL_ASSERT` asks for) when there is no run. -/
def GetSpec (s : Palloc) (live : List Alloc) : Prop :=
  ∀ flags n,
    (n = 0 → pallocGetMultiple flags n s = some (none, s)) ∧
    (n ≠ 0 → (∀ i, ¬ FreeRun s live flags.user n i) →
      pallocGetMultiple flags n s = if flags.assert then none else some (none, s)) ∧
    (∀ i, n ≠ 0 → FreeRun s live flags.user n i → (∀ i' < i, ¬ FreeRun s live flags.user n i') →
      ∃ s', pallocGetMultiple flags n s = some (some ((s.pool flags.user).base + PGSIZE * i), s') ∧
        (flags.zero = true → ∀ p, (s.pool flags.user).base + PGSIZE * i ≤ p →
          p < (s.pool flags.user).base + PGSIZE * i + PGSIZE * n → s'.mem p = 0))

section Get

variable {s : Palloc} {live : List Alloc}

/-- Under the invariant, a run of free pages is a run of clear bits. -/
theorem Inv.freeRun_iff (hI : Inv s live) (u : Bool) (n i : Nat) :
    FreeRun s live u n i ↔ i + n ≤ (s.pool u).usedMap.bitCnt ∧
      ∀ j, i ≤ j → j < i + n → (s.pool u).usedMap.bitmapTest j = false := by
  constructor
  · rintro ⟨hfit, hfree⟩
    refine ⟨hfit, fun j h1 h2 => ?_⟩
    rw [← Bool.not_eq_true, hI.used u j (by omega)]
    rintro ⟨a, ha, hc⟩
    exact hfree j h1 h2 a ha hc
  · rintro ⟨hfit, hclear⟩
    exact ⟨hfit, fun j h1 h2 => hI.not_covers_of_test (by omega) (hclear j h1 h2)⟩

theorem Inv.scan_of_freeRun (hI : Inv s live) {u : Bool} {n i : Nat}
    (hr : FreeRun s live u n i) (hmin : ∀ i' < i, ¬ FreeRun s live u n i') :
    (s.pool u).usedMap.bitmapScan 0 n false = some i := by
  have hr' := (hI.freeRun_iff u n i).mp hr
  refine (s.pool u).usedMap.bitmapScan_eq_of (Nat.zero_le i) hr'.1 hr'.2 fun i' _ hlt => ?_
  -- an earlier start with every bit clear would be an earlier free run
  by_contra hno
  refine hmin i' hlt ((hI.freeRun_iff u n i').mpr ⟨by omega, fun j h1 h2 => ?_⟩)
  by_contra hj
  exact hno ⟨j, h1, h2, hj⟩

theorem Inv.getSpec (hI : Inv s live) : GetSpec s live := by
  intro flags n
  refine ⟨fun hn => hn ▸ pallocGetMultiple_zero flags s, fun hn hnone => ?_, ?_⟩
  · apply pallocGetMultiple_of_scan_none hn
    cases hs : (s.pool flags.user).usedMap.bitmapScan 0 n false with
    | none => rfl
    | some i =>
      obtain ⟨-, hfit, hclear, -⟩ := (s.pool flags.user).usedMap.bitmapScan_eq_some hs
      exact absurd ((hI.freeRun_iff _ n i).mpr ⟨hfit, hclear⟩) (hnone i)
  · intro i hn hr hmin
    obtain ⟨s', hget, -, hzero⟩ := pallocGetMultiple_of_scan_some hn (hI.scan_of_freeRun hr hmin)
    exact ⟨s', hget, hzero⟩

end Get

/-! ## Addresses -/

/-- Address `p` lies in the pages of allocation `a`. -/
def Palloc.Holds (s : Palloc) (a : Alloc) (p : Nat) : Prop :=
  s.addr a ≤ p ∧ p < s.addr a + PGSIZE * a.cnt

/-- The allocator's guarantees at the level of addresses: the used bits are the pages of live
allocations, each of which lies inside its pool, and no two of which share an address. -/
def AddrSpec (s : Palloc) (live : List Alloc) : Prop :=
  (∀ u j, j < (s.pool u).usedMap.bitCnt →
    ((s.pool u).usedMap.bitmapTest j = true ↔
      ∃ a ∈ live, s.Holds a ((s.pool u).base + PGSIZE * j))) ∧
  (∀ a ∈ live, (s.pool a.user).base ≤ s.addr a ∧
    s.addr a + PGSIZE * a.cnt ≤ (s.pool a.user).base + PGSIZE * (s.pool a.user).usedMap.bitCnt) ∧
  live.Pairwise fun a b => ∀ p, s.Holds a p → ¬ s.Holds b p

section Addr

variable {s : Palloc} {live : List Alloc} {a : Alloc}

/-- An address of a live allocation lies in its pool. -/
theorem Inv.holds_pool (hI : Inv s live) (ha : a ∈ live) {p : Nat} (hp : s.Holds a p) :
    (s.pool a.user).base ≤ p ∧ p < (s.pool a.user).base + PGSIZE * (s.pool a.user).usedMap.bitCnt := by
  have hin := (hI.inside a ha).2
  unfold Palloc.Holds Palloc.addr PGSIZE at *
  omega

/-- The page of pool `u` at index `j` lies in a live allocation exactly when the allocation
covers index `j` of that pool. -/
theorem Inv.holds_iff_covers (hI : Inv s live) (ha : a ∈ live) {u : Bool} {j : Nat}
    (hj : j < (s.pool u).usedMap.bitCnt) :
    s.Holds a ((s.pool u).base + PGSIZE * j) ↔ a.Covers u j := by
  have hin := (hI.inside a ha).2
  have ho := hI.layout.ordered
  unfold Palloc.Holds Palloc.addr Alloc.Covers PGSIZE at *
  cases hua : a.user <;> cases u <;> simp only [hua, Palloc.pool, Bool.false_eq_true,
    ↓reduceIte, true_and, reduceCtorEq, false_and, iff_false] at hin hj ⊢ <;> omega

/-- The page index of an address of an allocation. -/
theorem Palloc.holds_covers {p : Nat} (hp : s.Holds a p) :
    a.Covers a.user ((p - (s.pool a.user).base) / PGSIZE) := by
  unfold Palloc.Holds Palloc.addr Alloc.Covers PGSIZE at *
  refine ⟨rfl, ?_, ?_⟩
  · rw [Nat.le_div_iff_mul_le (by decide)]
    omega
  · rw [Nat.div_lt_iff_lt_mul (by decide)]
    omega

theorem Inv.addrSpec (hI : Inv s live) : AddrSpec s live := by
  refine ⟨fun u j hj => ?_, fun a ha => ?_, ?_⟩
  · rw [hI.used u j hj]
    exact ⟨fun ⟨a, ha, hc⟩ => ⟨a, ha, (hI.holds_iff_covers ha hj).mpr hc⟩,
      fun ⟨a, ha, hh⟩ => ⟨a, ha, (hI.holds_iff_covers ha hj).mp hh⟩⟩
  · have hin := (hI.inside a ha).2
    unfold Palloc.addr PGSIZE at *
    omega
  · refine hI.disjoint.imp_of_mem fun {a b} ha hb hab p hpa hpb => ?_
    have hra := hI.holds_pool ha hpa
    have hrb := hI.holds_pool hb hpb
    by_cases hu : a.user = b.user
    · have hca := Palloc.holds_covers hpa
      have hcb := Palloc.holds_covers hpb
      rw [← hu] at hcb
      exact hab _ _ hca hcb
    · have ho := hI.layout.ordered
      unfold Palloc.pool PGSIZE at *
      cases hua : a.user <;> cases hub : b.user <;> simp_all <;> omega

end Addr

/-! ## Runs from `palloc_init` -/

theorem initPool_eq {base n : Nat} {p : Pool} (h : initPool base n = some p) :
    ∃ bm, bm ≤ n ∧ p = ⟨Bitmap.bitmapCreate (n - bm), base + bm * PGSIZE⟩ := by
  dsimp only [initPool] at h
  split at h
  · cases h
  · rename_i hle
    cases h
    exact ⟨_, by omega, rfl⟩

theorem pallocInit_inv {freeStart freePages userPageLimit : Nat} {mem : Nat → UInt8} {s₀ : Palloc}
    (hstart : freeStart % PGSIZE = 0) (hpos : 0 < freeStart)
    (h : pallocInit freeStart freePages userPageLimit mem = some s₀) : Inv s₀ [] := by
  dsimp only [pallocInit] at h
  split at h
  · rename_i k u hk hu
    cases h
    obtain ⟨kbm, hkbm, rfl⟩ := initPool_eq hk
    obtain ⟨ubm, -, rfl⟩ := initPool_eq hu
    refine ⟨⟨?_, ?_, ?_, ?_⟩, ?_, by simp, List.Pairwise.nil⟩
    · simp only [PGSIZE] at *
      omega
    · simp only [PGSIZE] at *
      omega
    · simp only
      omega
    · simp only [Bitmap.bitmapCreate, PGSIZE] at *
      omega
    · intro u j _
      cases u <;> simp [Palloc.pool, Bitmap.bitmapTest_create]
  · cases h

theorem Inv.step {s s' : Palloc} {live live' : List Alloc} {e : PallocEvent}
    (hI : Inv s live) (h : PallocStep (s, live) e (s', live')) : Inv s' live' := by
  cases h with
  | getSome h =>
    rename_i flags n idx
    have hn : n ≠ 0 := by
      rintro rfl
      rw [pallocGetMultiple_zero] at h
      cases h
    cases hs : (s.pool flags.user).usedMap.bitmapScan 0 n false with
    | none =>
      rw [pallocGetMultiple_of_scan_none hn hs] at h
      split at h <;> cases h
    | some idx' =>
      obtain ⟨s'', hget, hp, -⟩ := pallocGetMultiple_of_scan_some hn hs
      rw [hget] at h
      simp only [Option.some.injEq, Prod.mk.injEq, Nat.add_left_cancel_iff, PGSIZE] at h
      obtain ⟨hidx, rfl⟩ := h
      rw [show idx' = idx by omega] at hs hp
      exact hI.get hn hs hp
  | getNone h =>
    rename_i flags n
    by_cases hn : n = 0
    · subst hn
      rw [pallocGetMultiple_zero] at h
      cases h
      exact hI
    · cases hs : (s.pool flags.user).usedMap.bitmapScan 0 n false with
      | none =>
        rw [pallocGetMultiple_of_scan_none hn hs] at h
        split at h <;> cases h
        exact hI
      | some idx =>
        obtain ⟨s'', hget, -, -⟩ := pallocGetMultiple_of_scan_some hn hs
        rw [hget] at h
        cases h
  | free ha h =>
    obtain ⟨s'', hfree, hp⟩ := hI.free ha
    rw [hfree] at h
    cases h
    exact hI.erase ha hp

/-- **Page allocator soundness.**  In every state reached from `palloc_init` by any sequence of
`palloc_get_multiple` calls and frees of live allocations: the `used_map` bits are exactly the
pages of live allocations, which are disjoint and lie inside their pools; the next
`palloc_get_multiple` returns the lowest run of free pages, zeroed under `PAL_ZERO`, and NULL
exactly when there is none (or for no page); and freeing a live allocation passes the
`ASSERT`s of `palloc_free_multiple`. -/
theorem palloc_sound {freeStart freePages userPageLimit : Nat} {mem : Nat → UInt8}
    {s₀ : Palloc} (hstart : freeStart % PGSIZE = 0) (hpos : 0 < freeStart)
    (hinit : pallocInit freeStart freePages userPageLimit mem = some s₀)
    {evs : List PallocEvent} {s : Palloc} {live : List Alloc}
    (hrun : Lts.Run PallocStep (s₀, []) evs (s, live)) :
    AddrSpec s live ∧ GetSpec s live ∧
      ∀ a ∈ live, ∃ s', pallocFreeMultiple (s.addr a) a.cnt s = some s' := by
  have hI : Inv s live :=
    Lts.Run.inv (fun st : Palloc × List Alloc => Inv st.1 st.2) (pallocInit_inv hstart hpos hinit)
      (fun _ _ _ hI hs => hI.step hs) hrun
  exact ⟨hI.addrSpec, hI.getSpec, fun a ha => (hI.free ha).imp fun _ h => h.1⟩

/-- `palloc_init` with 64 pages from 1 MB; then two kernel pages zeroed, one user page, three
kernel pages, and the first two pages freed. -/
theorem palloc_sound_get_free :
    ∃ s₀ evs s, pallocInit 0x100000 64 1000 (fun _ => 0) = some s₀ ∧
      Lts.Run PallocStep (s₀, []) evs (s, [⟨true, 0, 1⟩, ⟨false, 2, 3⟩]) ∧
      AddrSpec s [⟨true, 0, 1⟩, ⟨false, 2, 3⟩] ∧ GetSpec s [⟨true, 0, 1⟩, ⟨false, 2, 3⟩] ∧
      ∀ a ∈ [(⟨true, 0, 1⟩ : Alloc), ⟨false, 2, 3⟩],
        ∃ s', pallocFreeMultiple (s.addr a) a.cnt s = some s' := by
  obtain ⟨s₀, evs, s, hinit, hrun⟩ : ∃ s₀ evs s,
      pallocInit 0x100000 64 1000 (fun _ => 0) = some s₀ ∧
        Lts.Run PallocStep (s₀, []) evs (s, [⟨true, 0, 1⟩, ⟨false, 2, 3⟩]) :=
    ⟨_, _, _, rfl,
      .cons (@PallocStep.getSome _ _ [] ⟨false, true, false⟩ 2 0 rfl) <|
      .cons (@PallocStep.getSome _ _ _ ⟨false, false, true⟩ 1 0 rfl) <|
      .cons (@PallocStep.getSome _ _ _ ⟨false, false, false⟩ 3 2 rfl) <|
      .single (@PallocStep.free _ _ _ ⟨false, 0, 2⟩ (by decide) rfl)⟩
  exact ⟨s₀, evs, s, hinit, hrun, palloc_sound (by decide) (by decide) hinit hrun⟩

end Pintos.PageAlloc
