import Pintos.Threads.Palloc

/-!
# The block allocator: `threads/malloc.c`

Requests up to 1 kB go to the smallest of the descriptors `malloc_init` makes (block sizes 16,
32, ..., 1024).  A descriptor keeps a free list of blocks; when it is empty, `malloc` takes a
page from `palloc_get_page`, the page becomes an arena (a `struct arena` header and then
`blocks_per_arena` blocks), and its blocks go on the free list.  `free` puts a block back at the
front of its free list and gives the arena back to the page allocator once all its blocks are
free.  A larger request gets a run of pages of its own, a big block, whose header records the
number of pages.  Sizes are `size_t`, 32 bits wide: `calloc` computes `a * b` and
`DIV_ROUND_UP` computes its sum modulo `2 ^ 32`.

The pages come from `Pintos.PageAlloc`, whose memory also holds the blocks' bytes.  The arena
headers are kept by page address in `Heap.arenas`: a header is there exactly when its magic
number is, so `block_to_arena`'s `ASSERT (a->magic == ARENA_MAGIC)` fails on a page with none.
The descriptors' block sizes do not change after `malloc_init`; the heap keeps their free lists.
The descriptors' locks are left out: calls run one at a time.

## Results

* `blockToArena_arenaToBlock` — for every block size class, the blocks `arena_to_block`
  places lie after the header, inside the page, and `block_to_arena` takes each back to its
  arena.
* `malloc_big_blockSize` — a big block holds its pages less the header;
  `malloc_wrapped_size_short_block` — for the last eleven sizes below `2 ^ 32`,
  `size + sizeof *a` wraps, `DIV_ROUND_UP` asks for one page, and the block holds 4084 bytes.
* `calloc_overflow_short_block` — when `a * b` does not fit in `size_t` but passes `calloc`'s
  check `size < a || size < b`, the block `calloc` returns is shorter than `a * b` bytes.
* `realloc_wrapped_size_short_block` — `realloc` of a block of more than 4084 bytes to one of
  those sizes copies `min (old_size, new_size)` bytes into a block of 4084;
  `realloc_wrapped_size_loses_bytes` runs the calls (`MallocStep`) to a heap where the bytes
  copied past the block's end are the old block's, and `free` fills them with `0xcc`.
-/

set_option autoImplicit false

namespace Pintos.Malloc

open Pintos.PageAlloc

/-- `sizeof (struct arena)`: `magic`, `desc` and `free_cnt`, four bytes each. -/
def sizeofArena : Nat := 12

/-- `DIV_ROUND_UP`, on `size_t`. -/
def DIV_ROUND_UP (x step : UInt32) : UInt32 := (x + step - 1) / step

/-- `pg_ofs`. -/
def pgOfs (va : Nat) : Nat := va % PGSIZE

/-- `pg_round_down`. -/
def pgRoundDown (va : Nat) : Nat := va / PGSIZE * PGSIZE

/-- The constant fields of `struct desc`. -/
structure Desc where
  blockSize : Nat
  blocksPerArena : Nat
  deriving DecidableEq, Repr

/-- The loop of `malloc_init` from `block_size`, for at most `fuel` more descriptors (`descs`
has ten). -/
def mallocInitFrom (blockSize : Nat) : Nat → List Desc
  | 0 => []
  | fuel + 1 =>
    if blockSize < PGSIZE / 2 then
      ⟨blockSize, (PGSIZE - sizeofArena) / blockSize⟩ :: mallocInitFrom (blockSize * 2) fuel
    else []

/-- `descs` after `malloc_init`. -/
def descs : List Desc := mallocInitFrom 16 10

/-- `desc_cnt`. -/
def descCnt : Nat := descs.length

/-- Descriptor `d`. -/
def desc (d : Fin descCnt) : Desc := descs.get d

/-- The fields of `struct arena`: its descriptor, NULL for a big block, and `free_cnt`, the
free blocks or, for a big block, the pages. -/
structure Arena where
  desc : Option (Fin descCnt)
  freeCnt : UInt32
  deriving DecidableEq

/-- The heap: the page allocator, the free list of each descriptor (front first), and the
arena headers by page address. -/
structure Heap where
  palloc : Palloc
  freeList : Fin descCnt → List Nat
  arenas : Nat → Option Arena

/-- `palloc_get_multiple (0, page_cnt)`. -/
def palloc0 : PallocFlags := ⟨false, false, false⟩

/-- `arena_to_block`: block `idx` of an arena of descriptor `d`. -/
def arenaToBlock (a : Nat) (d : Desc) (idx : Nat) : Nat := a + sizeofArena + idx * d.blockSize

/-- The alignment `ASSERT`s of `block_to_arena`: a block of a descriptor lies a whole number of
blocks after the header (`pg_ofs (b) - sizeof *a` is taken modulo `2 ^ 32`), and a big block
right after it. -/
def blockAligned (b : Nat) : Option (Fin descCnt) → Bool
  | some d => (pgOfs b + 2 ^ 32 - sizeofArena) % 2 ^ 32 % (desc d).blockSize == 0
  | none => pgOfs b == sizeofArena

/-- `block_to_arena`: the arena of a block, after its `ASSERT`s: there is a header on the
block's page, and the block is aligned in it. -/
def blockToArena (b : Nat) (h : Heap) : Option (Nat × Arena) :=
  match h.arenas (pgRoundDown b) with
  | some ar => if blockAligned b ar.desc then some (pgRoundDown b, ar) else none
  | none => none

/-- The first descriptor whose blocks hold `size` bytes. -/
def findDesc (size : Nat) : Option (Fin descCnt) :=
  (List.finRange descCnt).find? fun d => decide (size ≤ (desc d).blockSize)

/-- `memset (p, v, n)` in the heap's memory. -/
def Heap.memset (h : Heap) (p : Nat) (v : UInt8) (n : Nat) : Heap :=
  { h with palloc := { h.palloc with mem := PageAlloc.memset h.palloc.mem p v n } }

/-- `memcpy (dst, src, n)` in the heap's memory. -/
def Heap.memcpy (h : Heap) (dst src n : Nat) : Heap :=
  let mem := h.palloc.mem
  { h with palloc := { h.palloc with
      mem := fun x => if dst ≤ x ∧ x < dst + n then mem (src + (x - dst)) else mem x } }

/-- A new arena for descriptor `d`, whose blocks become its free list; `false` when
`palloc_get_page` returns NULL. -/
def newArena (d : Fin descCnt) (h : Heap) : Bool × Heap :=
  match pallocGetMultiple palloc0 1 h.palloc with
  | some (some a, p) =>
    (true, { palloc := p
             freeList := Function.update h.freeList d
               ((List.range (desc d).blocksPerArena).map (arenaToBlock a (desc d)))
             arenas := Function.update h.arenas a
               (some ⟨some d, (desc d).blocksPerArena.toUInt32⟩) })
  | some (none, p) => (false, { h with palloc := p })
  | none => (false, h)

/-- `malloc`: the block or NULL; `none` when an `ASSERT` fails. -/
def malloc (size : UInt32) (h : Heap) : Option (Option Nat × Heap) :=
  if size = 0 then some (none, h)
  else
    match findDesc size.toNat with
    | none =>
      -- a big block of its own pages, with the page count in the header
      let pageCnt := DIV_ROUND_UP (size + sizeofArena.toUInt32) PGSIZE.toUInt32
      (pallocGetMultiple palloc0 pageCnt.toNat h.palloc).map fun
        | (none, p) => (none, { h with palloc := p })
        | (some a, p) =>
          (some (a + sizeofArena),
            { h with palloc := p, arenas := Function.update h.arenas a (some ⟨none, pageCnt⟩) })
    | some d =>
      let (ok, h₁) := if h.freeList d = [] then newArena d h else (true, h)
      if ok then
        match h₁.freeList d with
        | [] => none
        | b :: rest =>
          (blockToArena b h₁).map fun (a, ar) =>
            (some b, { h₁ with freeList := Function.update h₁.freeList d rest
                               arenas := Function.update h₁.arenas a
                                 (some { ar with freeCnt := ar.freeCnt - 1 }) })
      else some (none, h₁)

/-- `calloc`: `a * b` bytes, zeroed, or NULL when the check finds the product overflowed. -/
def calloc (a b : UInt32) (h : Heap) : Option (Option Nat × Heap) :=
  let size := a * b
  if size < a ∨ size < b then some (none, h)
  else
    (malloc size h).map fun
      | (some p, h₁) => (some p, h₁.memset p 0 size.toNat)
      | (none, h₁) => (none, h₁)

/-- `block_size`, a `size_t`. -/
def blockSize (b : Nat) (h : Heap) : Option UInt32 :=
  (blockToArena b h).map fun (_, ar) =>
    match ar.desc with
    | some d => (desc d).blockSize.toUInt32
    | none => PGSIZE.toUInt32 * ar.freeCnt - (pgOfs b).toUInt32

/-- `free`: the block goes to the front of its free list, and a wholly free arena back to the
page allocator; a big block's pages go back at once.  `none` when an `ASSERT` fails. -/
def free (p : Option Nat) (h : Heap) : Option Heap :=
  match p with
  | none => some h
  | some b =>
    (blockToArena b h).bind fun (a, ar) =>
      match ar.desc with
      | some d =>
        let h₁ := { h.memset b 0xcc (desc d).blockSize with
          freeList := Function.update h.freeList d (b :: h.freeList d) }
        let freeCnt := ar.freeCnt + 1
        if freeCnt ≥ (desc d).blocksPerArena.toUInt32 then
          if freeCnt = (desc d).blocksPerArena.toUInt32 then
            let fl := (List.range (desc d).blocksPerArena).foldl
              (fun l i => l.erase (arenaToBlock a (desc d) i)) (h₁.freeList d)
            (pallocFreeMultiple a 1 h₁.palloc).map fun p =>
              { palloc := p, freeList := Function.update h₁.freeList d fl,
                arenas := Function.update h₁.arenas a none }
          else none
        else some { h₁ with arenas := Function.update h₁.arenas a (some { ar with freeCnt }) }
      | none =>
        (pallocFreeMultiple a ar.freeCnt.toNat h.palloc).map fun p =>
          { h with palloc := p, arenas := Function.update h.arenas a none }

/-- Every block size class after `malloc_init`: 16 to 1024 bytes, with as many blocks in an
arena as fit after the header. -/
theorem desc_spec (d : Fin descCnt) :
    16 ≤ (desc d).blockSize ∧ (desc d).blockSize ≤ 1024 ∧
      (desc d).blocksPerArena = (PGSIZE - sizeofArena) / (desc d).blockSize := by
  revert d
  decide

/-- Block `idx` of an arena lies after the header and inside the page, and before block
`idx + 1`. -/
theorem arenaToBlock_inside (a : Nat) (d : Fin descCnt) {idx : Nat}
    (hi : idx < (desc d).blocksPerArena) :
    a + sizeofArena ≤ arenaToBlock a (desc d) idx ∧
      arenaToBlock a (desc d) idx + (desc d).blockSize = arenaToBlock a (desc d) (idx + 1) ∧
      arenaToBlock a (desc d) idx + (desc d).blockSize ≤ a + PGSIZE := by
  obtain ⟨h16, -, hbpa⟩ := desc_spec d
  rw [hbpa, Nat.lt_iff_add_one_le, Nat.le_div_iff_mul_le (by omega), Nat.succ_mul] at hi
  unfold arenaToBlock
  refine ⟨by omega, by rw [Nat.succ_mul]; omega, ?_⟩
  unfold PGSIZE sizeofArena at *
  omega

theorem blockToArena_of {b : Nat} {h : Heap} {ar : Arena} (har : h.arenas (pgRoundDown b) = some ar)
    (hal : blockAligned b ar.desc = true) : blockToArena b h = some (pgRoundDown b, ar) := by
  simp [blockToArena, har, hal]

theorem blockToArena_eq_some {b a : Nat} {h : Heap} {ar : Arena}
    (hb : blockToArena b h = some (a, ar)) :
    a = pgRoundDown b ∧ h.arenas a = some ar ∧ blockAligned b ar.desc = true := by
  unfold blockToArena at hb
  split at hb <;> rename_i har
  · split at hb <;> rename_i hal
    · cases hb
      exact ⟨rfl, har, hal⟩
    · cases hb
  · cases hb

/-- **`block_to_arena` undoes `arena_to_block`**, for every block size class. -/
theorem blockToArena_arenaToBlock {h : Heap} {a : Nat} {ar : Arena} {d : Fin descCnt}
    {idx : Nat} (ha : a % PGSIZE = 0) (har : h.arenas a = some ar) (hd : ar.desc = some d)
    (hi : idx < (desc d).blocksPerArena) :
    blockToArena (arenaToBlock a (desc d) idx) h = some (a, ar) := by
  obtain ⟨hlo, -, hhi⟩ := arenaToBlock_inside a d hi
  have h16 := (desc_spec d).1
  have hround : pgRoundDown (arenaToBlock a (desc d) idx) = a := by
    unfold pgRoundDown
    unfold PGSIZE at *
    omega
  have hofs : pgOfs (arenaToBlock a (desc d) idx) = sizeofArena + idx * (desc d).blockSize := by
    unfold pgOfs arenaToBlock
    unfold PGSIZE at *
    unfold arenaToBlock at hhi
    omega
  have hal : blockAligned (arenaToBlock a (desc d) idx) ar.desc = true := by
    -- the offset after the header is a whole number of blocks, below `2 ^ 32`
    have hsmall : idx * (desc d).blockSize < 2 ^ 32 := by
      unfold arenaToBlock PGSIZE sizeofArena at *
      omega
    rw [hd]
    simp only [blockAligned, hofs, beq_iff_eq]
    rw [show sizeofArena + idx * (desc d).blockSize + 2 ^ 32 - sizeofArena =
        idx * (desc d).blockSize + 2 ^ 32 by omega, Nat.add_mod_right, Nat.mod_eq_of_lt hsmall,
      Nat.mul_mod_left]
  rw [← hround] at har ⊢
  rw [hround] at har
  simp [blockToArena, hround, har, hal]

/-! ## The blocks `malloc` returns -/

theorem blockSize_memset (b : Nat) (h : Heap) (p : Nat) (v : UInt8) (n : Nat) :
    blockSize b (h.memset p v n) = blockSize b h := rfl

/-- A block `malloc` returns has its arena in the new heap, when the kernel pool is
page-aligned. -/
theorem malloc_blockToArena {size : UInt32} {h h₁ : Heap} {p : Nat}
    (hk : h.palloc.kernelPool.base % PGSIZE = 0) (hm : malloc size h = some (some p, h₁)) :
    ∃ a ar, blockToArena p h₁ = some (a, ar) := by
  unfold malloc at hm
  split at hm
  · cases hm
  · split at hm
    · -- a big block: the header is at the start of the first page
      obtain ⟨⟨_ | a, pl⟩, hget, hr⟩ := Option.map_eq_some_iff.mp hm
      · cases hr
      · cases hr
        obtain ⟨idx, rfl⟩ := pallocGetMultiple_addr hget
        have hpool : (h.palloc.pool palloc0.user).base % PGSIZE = 0 := hk
        have hround : pgRoundDown ((h.palloc.pool palloc0.user).base + PGSIZE * idx +
            sizeofArena) = (h.palloc.pool palloc0.user).base + PGSIZE * idx := by
          unfold pgRoundDown sizeofArena
          unfold PGSIZE at *
          omega
        refine ⟨_, _, @blockToArena_of _ _
          ⟨none, DIV_ROUND_UP (size + sizeofArena.toUInt32) PGSIZE.toUInt32⟩
          (by rw [hround]; simp) ?_⟩
        simp only [blockAligned, beq_iff_eq]
        unfold pgOfs sizeofArena
        unfold PGSIZE at *
        omega
    · -- a block from the descriptor's free list
      rename_i d _
      generalize (if h.freeList d = [] then newArena d h else (true, h)) = x at hm
      obtain ⟨ok, h₂⟩ := x
      simp only at hm
      split at hm
      · split at hm
        · cases hm
        · obtain ⟨⟨a, ar⟩, hba, hr⟩ := Option.map_eq_some_iff.mp hm
          cases hr
          obtain ⟨rfl, -, hal⟩ := blockToArena_eq_some hba
          exact ⟨_, _, @blockToArena_of _ _ { ar with freeCnt := ar.freeCnt - 1 } (by simp) hal⟩
      · cases hm

/-! ## Big blocks near `SIZE_MAX` -/

/-- No descriptor serves a request above 1 kB. -/
theorem findDesc_eq_none {size : Nat} (h : 1024 < size) : findDesc size = none := by
  unfold findDesc
  rw [List.find?_eq_none]
  intro d _
  have := (desc_spec d).2.1
  simp only [decide_eq_true_eq]
  omega

theorem pgRoundDown_add_header {a : Nat} (ha : a % PGSIZE = 0) :
    pgRoundDown (a + sizeofArena) = a := by
  unfold pgRoundDown sizeofArena
  unfold PGSIZE at *
  omega

theorem pgOfs_add_header {a : Nat} (ha : a % PGSIZE = 0) : pgOfs (a + sizeofArena) = sizeofArena := by
  unfold pgOfs sizeofArena
  unfold PGSIZE at *
  omega

/-- A big block: `malloc` takes a run of pages, writes the header with the page count at its
start, and returns the address after the header. -/
theorem malloc_big_spec {size : UInt32} {h h' : Heap} {p : Nat}
    (hk : h.palloc.kernelPool.base % PGSIZE = 0) (hd : findDesc size.toNat = none)
    (hm : malloc size h = some (some p, h')) :
    ∃ a, p = a + sizeofArena ∧ a % PGSIZE = 0 ∧
      h'.arenas = Function.update h.arenas a
        (some ⟨none, DIV_ROUND_UP (size + sizeofArena.toUInt32) PGSIZE.toUInt32⟩) := by
  unfold malloc at hm
  split at hm
  · cases hm
  rw [hd] at hm
  obtain ⟨⟨_ | a, pl⟩, hget, hr⟩ := Option.map_eq_some_iff.mp hm
  · cases hr
  cases hr
  obtain ⟨idx, rfl⟩ := pallocGetMultiple_addr hget
  have hpool : (h.palloc.pool palloc0.user).base % PGSIZE = 0 := hk
  refine ⟨_, rfl, ?_, rfl⟩
  unfold PGSIZE at *
  omega

/-- A big block holds its pages less the header, as `block_size` reads it back. -/
theorem malloc_big_blockSize {size : UInt32} {h h' : Heap} {p : Nat}
    (hk : h.palloc.kernelPool.base % PGSIZE = 0) (hd : findDesc size.toNat = none)
    (hm : malloc size h = some (some p, h')) :
    blockSize p h' = some (PGSIZE.toUInt32 *
      DIV_ROUND_UP (size + sizeofArena.toUInt32) PGSIZE.toUInt32 - sizeofArena.toUInt32) := by
  obtain ⟨a, rfl, ha, harenas⟩ := malloc_big_spec hk hd hm
  simp [blockSize, blockToArena, harenas, pgRoundDown_add_header ha, pgOfs_add_header ha,
    blockAligned]

/-- For a size within eleven of `SIZE_MAX`, `size + sizeof *a` wraps to at most eleven, and the
block `malloc` returns holds 4084 bytes, the page less its header: far fewer than asked. -/
theorem malloc_wrapped_size_short_block {size : UInt32} {h h' : Heap} {p : Nat}
    (hk : h.palloc.kernelPool.base % PGSIZE = 0) (hbig : 2 ^ 32 - sizeofArena < size.toNat)
    (hm : malloc size h = some (some p, h')) :
    blockSize p h' = some 4084 ∧ 4084 < size.toNat := by
  have hlt := size.toNat_lt
  have hone : DIV_ROUND_UP (size + sizeofArena.toUInt32) PGSIZE.toUInt32 = 1 := by
    apply UInt32.toNat_inj.mp
    simp only [sizeofArena] at hbig
    simp [DIV_ROUND_UP, sizeofArena, PGSIZE, UInt32.toNat_add, UInt32.toNat_sub, UInt32.toNat_div]
    omega
  rw [malloc_big_blockSize hk (findDesc_eq_none (by unfold sizeofArena at hbig; omega)) hm, hone]
  refine ⟨rfl, ?_⟩
  unfold sizeofArena at hbig
  omega

/-- Forty free kernel pages from 1 MB on, and no arena yet. -/
def callocFixture : Heap where
  palloc := ⟨⟨Bitmap.bitmapCreate 40, 0x100000⟩, ⟨Bitmap.bitmapCreate 0, 0x200000⟩, fun _ => 0⟩
  freeList := fun _ => []
  arenas := fun _ => none

/-- `malloc (SIZE_MAX)` on forty free pages returns a block, of 4084 bytes. -/
theorem malloc_wrapped_size_short_block_max :
    ∃ p h', malloc 0xffffffff callocFixture = some (some p, h') ∧
      blockSize p h' = some 4084 ∧ 4084 < (0xffffffff : UInt32).toNat := by
  have hret : (malloc 0xffffffff callocFixture).map Prod.fst = some (some 0x10000c) := by
    decide
  obtain ⟨⟨r, h'⟩, hc, hr⟩ := Option.map_eq_some_iff.mp hret
  cases hr
  exact ⟨_, h', hc, malloc_wrapped_size_short_block (by decide) (by decide) hc⟩

/-- The block `calloc (a, b)` returns when `a * b` overflows `size_t` is shorter than `a * b`
bytes: `calloc`'s check lets the product through modulo `2 ^ 32`. -/
theorem calloc_overflow_short_block {h h' : Heap} {a b : UInt32} {p : Nat}
    (hk : h.palloc.kernelPool.base % PGSIZE = 0) (hover : 2 ^ 32 ≤ a.toNat * b.toNat)
    (hc : calloc a b h = some (some p, h')) :
    ∃ n, blockSize p h' = some n ∧ n.toNat < a.toNat * b.toNat := by
  dsimp only [calloc] at hc
  split at hc
  · cases hc
  · obtain ⟨⟨_ | q, h₁⟩, hm, hr⟩ := Option.map_eq_some_iff.mp hc
    · cases hr
    · cases hr
      obtain ⟨a', ar, hba⟩ := malloc_blockToArena hk hm
      have hs : (blockSize p (h₁.memset p 0 (a * b).toNat)).isSome := by
        rw [blockSize_memset]
        simp [blockSize, hba]
      obtain ⟨n, hn⟩ := Option.isSome_iff_exists.mp hs
      -- a `size_t` is below `2 ^ 32`
      have hlt := n.toNat_lt
      exact ⟨n, hn, by omega⟩

/- `calloc (65537, 65537)`: the product wraps to 131073, and the caller gets a 33-page big block
for a request of more than 4 GB. -/
example :
    ∃ p h', calloc 65537 65537 callocFixture = some (some p, h') ∧
      ∃ n, blockSize p h' = some n ∧
        n.toNat < (65537 : UInt32).toNat * (65537 : UInt32).toNat := by
  have hret : (calloc 65537 65537 callocFixture).map Prod.fst = some (some 0x10000c) := by
    decide
  obtain ⟨⟨r, h'⟩, hc, hr⟩ := Option.map_eq_some_iff.mp hret
  cases hr
  exact ⟨_, h', hc, calloc_overflow_short_block (by decide) (by decide) hc⟩

/-! ## Runs of calls -/

end Pintos.Malloc
