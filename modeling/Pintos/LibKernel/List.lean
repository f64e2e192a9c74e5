import Pintos.Lib.Links
import Pintos.LibKernel.Ordered

/-!
# `lib/kernel/list.c`: the doubly-linked lists

A `struct list` is two header elements, `head` and `tail`; its elements are the cells met
following `next` from `head` to `tail`.  `WellFormed m l xs` says that in the memory `m` the list
`l` holds `xs`, front first: `head.prev` and `tail.next` are null, and `prev` and `next` are
mutually inverse along `head`, `xs`, `tail`.  Each function of `list.c` is modelled on the memory,
with its reads and writes in the source's order; an `ASSERT` that fails, or a null pointer
dereferenced, is `none`.  Each loop runs on `fuel`, a bound on its tests; the comparison
`less (a, b, aux)` is a function `less a b` of the two cells.

## Results

* `WellFormed.nodup` — the cells of a list are distinct; `WellFormed.eq` — its elements are
  determined by the memory; `WellFormed.frame` — writes to other cells keep it.
* `listInsert_spec`, `listRemove_spec`, `listPushFront_spec`, `listPushBack_spec`,
  `listPopFront_spec`, `listPopBack_spec`, `listSplice_spec`, `listSplice_spec_same`,
  `listReverse_spec`, `listInsertOrdered_spec`, `listUnique_spec`, `listMax_spec`,
  `listMin_spec` — on well-formed lists each function succeeds, the lists stay well-formed
  with the elements the sequence operation of `Pintos.LibKernel.Ordered` or `Pintos.Threads.List`
  gives, and no other cell changes.
* `list_refines_sequences` — all of them at once, with the order facts of the sequence
  operations for a `less` that is a strict weak order.
-/

set_option autoImplicit false

namespace Pintos

open Mem

/-- `struct list`: the addresses of its two header elements. -/
structure LinkedList (ε : Type) where
  head : ε
  tail : ε

namespace LinkedList

variable {ε : Type}

/-- The list `l` holds the elements `xs`, front first. -/
structure WellFormed (m : Mem ε) (l : LinkedList ε) (xs : List ε) : Prop where
  head_prev : (m l.head).prev = none
  tail_next : (m l.tail).next = none
  chain : (l.head :: xs ++ [l.tail]).IsChain (Adj m)

variable [DecidableEq ε]

/-! ## The functions -/

/-- `is_interior`. -/
def isInterior (m : Mem ε) (e : ε) : Bool := (m e).prev.isSome && (m e).next.isSome

/-- `list_init`. -/
def listInit (m : Mem ε) (l : LinkedList ε) : Mem ε :=
  (((m.setPrev l.head none).setNext l.head (some l.tail)).setPrev l.tail (some l.head)).setNext
    l.tail none

/-- `list_empty`: `list_begin (list) == list_end (list)`. -/
def listEmpty (m : Mem ε) (l : LinkedList ε) : Bool := decide ((m l.head).next = some l.tail)

/-- `list_insert`: `elem` goes just before `before`, an interior element or a tail — the
`ASSERT` holds when `before->prev` is not null. -/
def listInsert (m : Mem ε) (before elem : ε) : Option (Mem ε) := do
  let bp ← (m before).prev
  let m₁ := (m.setPrev elem (some bp)).setNext elem (some before)
  let p ← (m₁ before).prev
  pure ((m₁.setNext p (some elem)).setPrev before (some elem))

/-- `list_splice`: the elements from `first` up to `last` (exclusive) go just before `before`. -/
def listSplice (m : Mem ε) (before first last : ε) : Option (Mem ε) :=
  if (m before).prev = none then none
  else if first = last then some m
  else
    match (m last).prev with
    | none => none
    | some last =>
      if !(isInterior m first && isInterior m last) then none
      else do
        -- cleanly remove `first` … `last` from its current list
        let a ← (m first).prev
        let m₁ := m.setNext a (m last).next
        let b ← (m₁ last).next
        let m₂ := m₁.setPrev b (m₁ first).prev
        -- splice them into the new list
        let m₃ := m₂.setPrev first (m₂ before).prev
        let m₄ := m₃.setNext last (some before)
        let c ← (m₄ before).prev
        pure ((m₄.setNext c (some first)).setPrev before (some last))

/-- `list_push_front`: `list_insert (list_begin (list), elem)`. -/
def listPushFront (m : Mem ε) (l : LinkedList ε) (elem : ε) : Option (Mem ε) := do
  let b ← (m l.head).next
  listInsert m b elem

/-- `list_push_back`: `list_insert (list_end (list), elem)`. -/
def listPushBack (m : Mem ε) (l : LinkedList ε) (elem : ε) : Option (Mem ε) :=
  listInsert m l.tail elem

/-- `list_remove`: unlinks an interior `elem` and returns what followed it. -/
def listRemove (m : Mem ε) (elem : ε) : Option (Mem ε × Option ε) :=
  if !isInterior m elem then none
  else do
    let p ← (m elem).prev
    let m₁ := m.setNext p (m elem).next
    let n ← (m₁ elem).next
    let m₂ := m₁.setPrev n (m₁ elem).prev
    pure (m₂, (m₂ elem).next)

/-- `list_front`: `ASSERT (!list_empty (list))`, then `list->head.next`. -/
def listFront (m : Mem ε) (l : LinkedList ε) : Option ε :=
  if listEmpty m l then none else (m l.head).next

/-- `list_back`: `ASSERT (!list_empty (list))`, then `list->tail.prev`. -/
def listBack (m : Mem ε) (l : LinkedList ε) : Option ε :=
  if listEmpty m l then none else (m l.tail).prev

/-- `list_pop_front`. -/
def listPopFront (m : Mem ε) (l : LinkedList ε) : Option (Mem ε × ε) := do
  let front ← listFront m l
  let (m', _) ← listRemove m front
  pure (m', front)

/-- `list_pop_back`. -/
def listPopBack (m : Mem ε) (l : LinkedList ε) : Option (Mem ε × ε) := do
  let back ← listBack m l
  let (m', _) ← listRemove m back
  pure (m', back)

/-- The loop of `list_reverse`:
`for (e = list_begin (list); e != list_end (list); e = e->prev) swap (&e->prev, &e->next);`,
for at most `fuel` tests. -/
def reverseLoop (tl : ε) : Nat → Mem ε → ε → Option (Mem ε)
  | 0, _, _ => none
  | fuel + 1, m, e =>
    if e = tl then some m
    else
      let m' := m.swapLinks e
      match (m' e).prev with
      | none => none
      | some e' => reverseLoop tl fuel m' e'

/-- `list_reverse`. -/
def listReverse (fuel : Nat) (m : Mem ε) (l : LinkedList ε) : Option (Mem ε) :=
  if listEmpty m l then some m
  else do
    let b ← (m l.head).next
    let m₁ ← reverseLoop l.tail fuel m b
    -- swap (&list->head.next, &list->tail.prev)
    let m₂ := (m₁.setNext l.head (m₁ l.tail).prev).setPrev l.tail (m₁ l.head).next
    -- swap (&list->head.next->prev, &list->tail.prev->next)
    let a ← (m₂ l.head).next
    let z ← (m₂ l.tail).prev
    pure ((m₂.setPrev a (m₂ z).next).setNext z (m₂ a).prev)

/-- The loop of `list_insert_ordered`:
`for (e = list_begin (list); e != list_end (list); e = list_next (e)) if (less (elem, e, aux)) break;`
— the `e` it stops at, for at most `fuel` tests. -/
def insertOrderedLoop (tl : ε) (less : ε → ε → Bool) (elem : ε) (m : Mem ε) : Nat → ε → Option ε
  | 0, _ => none
  | fuel + 1, e =>
    if e = tl then some e
    else if less elem e then some e
    else
      match (m e).next with
      | none => none
      | some e' => insertOrderedLoop tl less elem m fuel e'

/-- `list_insert_ordered`: `elem` goes before the first element it is `less` than. -/
def listInsertOrdered (fuel : Nat) (m : Mem ε) (l : LinkedList ε) (elem : ε)
    (less : ε → ε → Bool) : Option (Mem ε) := do
  let b ← (m l.head).next
  let e ← insertOrderedLoop l.tail less elem m fuel b
  listInsert m e elem

/-- The body of `list_unique` for an element equal to the one kept:
`list_remove (next); if (duplicates != NULL) list_push_back (duplicates, next);`. -/
def removeDuplicate (m : Mem ε) (duplicates : Option (LinkedList ε)) (next : ε) :
    Option (Mem ε) := do
  let (m₁, _) ← listRemove m next
  match duplicates with
  | none => pure m₁
  | some d => listPushBack m₁ d next

/-- The loop of `list_unique`:
`while ((next = list_next (elem)) != list_end (list))` an element equal to `elem` according to
`less` is removed, and another becomes `elem`. -/
def uniqueLoop (tl : ε) (duplicates : Option (LinkedList ε)) (less : ε → ε → Bool) :
    Nat → Mem ε → ε → Option (Mem ε)
  | 0, _, _ => none
  | fuel + 1, m, elem => do
    let next ← (m elem).next
    if next = tl then pure m
    else if !less elem next && !less next elem then
      let m₂ ← removeDuplicate m duplicates next
      uniqueLoop tl duplicates less fuel m₂ elem
    else uniqueLoop tl duplicates less fuel m next

/-- `list_unique`. -/
def listUnique (fuel : Nat) (m : Mem ε) (l : LinkedList ε) (duplicates : Option (LinkedList ε))
    (less : ε → ε → Bool) : Option (Mem ε) :=
  if listEmpty m l then some m
  else do
    let elem ← (m l.head).next
    uniqueLoop l.tail duplicates less fuel m elem

/-- The loop shared by `list_max` and `list_min`:
`for (e = list_next (max); e != list_end (list); e = list_next (e)) if (better (max, e)) max = e;`. -/
def bestLoop (tl : ε) (better : ε → ε → Bool) (m : Mem ε) : Nat → ε → ε → Option ε
  | 0, _, _ => none
  | fuel + 1, best, e =>
    if e = tl then some best
    else
      let best' := if better best e then e else best
      match (m e).next with
      | none => none
      | some e' => bestLoop tl better m fuel best' e'

/-- `list_max` and `list_min` but for the comparison: the first element, then the loop from the
one after it; the tail when the list is empty. -/
def listBest (fuel : Nat) (m : Mem ε) (l : LinkedList ε) (better : ε → ε → Bool) : Option ε := do
  let best ← (m l.head).next
  if best = l.tail then pure best
  else
    let e ← (m best).next
    bestLoop l.tail better m fuel best e

/-- `list_max`: `if (less (max, e, aux)) max = e;`. -/
def listMax (fuel : Nat) (m : Mem ε) (l : LinkedList ε) (less : ε → ε → Bool) : Option ε :=
  listBest fuel m l fun max e => less max e

/-- `list_min`: `if (less (e, min, aux)) min = e;`. -/
def listMin (fuel : Nat) (m : Mem ε) (l : LinkedList ε) (less : ε → ε → Bool) : Option ε :=
  listBest fuel m l fun min e => less e min

/-! ## Well-formed lists -/

section WellFormed

variable {m m' : Mem ε} {l : LinkedList ε} {xs : List ε}

omit [DecidableEq ε] in
/-- The cells of a list are distinct. -/
theorem WellFormed.nodup (hw : WellFormed m l xs) : (l.head :: xs ++ [l.tail]).Nodup :=
  nodup_of_isChain hw.tail_next hw.chain

omit [DecidableEq ε] in
/-- The elements of a list are determined by the memory. -/
theorem WellFormed.eq {ys : List ε} (hw : WellFormed m l xs) (hw' : WellFormed m l ys) : xs = ys :=
  eq_of_isChain hw.tail_next hw.chain hw'.chain

omit [DecidableEq ε] in
/-- Writes to other cells keep a list. -/
theorem WellFormed.frame (hw : WellFormed m l xs) (h : ∀ x ∈ l.head :: xs ++ [l.tail], m' x = m x) :
    WellFormed m' l xs where
  head_prev := by rw [h l.head (by simp)]; exact hw.head_prev
  tail_next := by rw [h l.tail (by simp)]; exact hw.tail_next
  chain := isChain_frame hw.chain (fun x hx => by rw [h x (List.mem_of_mem_dropLast hx)])
    (fun x hx => by rw [h x (List.mem_of_mem_tail hx)])

theorem listInit_wellFormed (m : Mem ε) (hl : l.head ≠ l.tail) : WellFormed (listInit m l) l [] where
  head_prev := by simp [listInit, hl]
  tail_next := by simp [listInit]
  chain := by
    refine List.isChain_pair.mpr ⟨?_, ?_⟩ <;> simp [listInit, hl]

omit [DecidableEq ε] in
/-- The headers of a list are not among its elements, nor each other. -/
theorem headers_of_nodup (hnd : (l.head :: xs ++ [l.tail]).Nodup) :
    l.head ∉ xs ∧ l.tail ∉ xs ∧ l.head ≠ l.tail := by
  have h₁ := List.nodup_cons.mp hnd
  have h₂ := (List.nodup_append.mp h₁.2).2.2
  refine ⟨fun h => h₁.1 (List.mem_append_left _ h), fun h => h₂ _ h _ (List.mem_singleton_self _) rfl,
    fun h => h₁.1 (by simp [h])⟩

omit [DecidableEq ε] in
/-- Cutting a list between its elements `u` and `v`: the cells `p` and `q` on either side of the
cut, whatever `b` is put in it. -/
theorem cells_cut (l : LinkedList ε) (u v : List ε) :
    ∃ c₁ p q c₂, (l.head :: u).getLast? = some p ∧ (v ++ [l.tail]).head? = some q ∧
      ∀ b : List ε, l.head :: (u ++ b ++ v) ++ [l.tail] = c₁ ++ p :: (b ++ q :: c₂) := by
  obtain ⟨q, c₂, hq⟩ : ∃ q c₂, v ++ [l.tail] = q :: c₂ := by
    cases v with
    | nil => exact ⟨l.tail, [], rfl⟩
    | cons x v => exact ⟨x, v ++ [l.tail], rfl⟩
  refine ⟨(l.head :: u).dropLast, (l.head :: u).getLast (List.cons_ne_nil _ _), q, c₂,
    List.getLast?_eq_some_getLast _, by rw [hq]; rfl, fun b => ?_⟩
  rw [← hq]
  calc l.head :: (u ++ b ++ v) ++ [l.tail] = (l.head :: u) ++ (b ++ (v ++ [l.tail])) := by simp
    _ = ((l.head :: u).dropLast ++ [(l.head :: u).getLast (List.cons_ne_nil _ _)]) ++
          (b ++ (v ++ [l.tail])) := by rw [List.dropLast_append_getLast]
    _ = _ := by simp

omit [DecidableEq ε] in
/-- The head is not after a cut, the tail not before it, and neither among what is put in it. -/
theorem headers_of_cut {u b v : List ε} {p q : ε}
    (hnd : (l.head :: (u ++ b ++ v) ++ [l.tail]).Nodup) (hp : (l.head :: u).getLast? = some p)
    (hq : (v ++ [l.tail]).head? = some q) :
    l.head ≠ q ∧ l.tail ≠ p ∧ l.head ∉ b ∧ l.tail ∉ b := by
  obtain ⟨hh, ht, hht⟩ := headers_of_nodup hnd
  have hpu : p ∈ l.head :: u := List.mem_of_mem_getLast? hp
  have hqv : q ∈ v ++ [l.tail] := List.mem_of_mem_head? hq
  refine ⟨?_, ?_, fun h => hh (by simp [h]), fun h => ht (by simp [h])⟩
  · rintro rfl
    rcases List.mem_append.mp hqv with h | h
    · exact hh (by simp [h])
    · exact hht (List.mem_singleton.mp h)
  · rintro rfl
    rcases List.mem_cons.mp hpu with h | h
    · exact hht h.symm
    · exact ht (by simp [h])

omit [DecidableEq ε] in
/-- The cells around a cut and those in it are a chain. -/
theorem WellFormed.isChain_cut {u b v : List ε} (hw : WellFormed m l (u ++ b ++ v)) {p q : ε}
    (hp : (l.head :: u).getLast? = some p) (hq : (v ++ [l.tail]).head? = some q) :
    (p :: b ++ [q]).IsChain (Adj m) := by
  obtain ⟨c₁, p', q', c₂, hp', hq', hcut⟩ := cells_cut l u v
  rw [hp] at hp'
  rw [hq] at hq'
  cases hp'
  cases hq'
  have h := hw.chain
  rw [hcut] at h
  exact h.infix ⟨c₁, c₂, by simp⟩

omit [DecidableEq ε] in
theorem mem_cells_of_cut {u v : List ε} {p q : ε} (hp : (l.head :: u).getLast? = some p)
    (hq : (v ++ [l.tail]).head? = some q) :
    p ∈ l.head :: (u ++ v) ++ [l.tail] ∧ q ∈ l.head :: (u ++ v) ++ [l.tail] := by
  have hpu : p ∈ l.head :: u := List.mem_of_mem_getLast? hp
  have hqv : q ∈ v ++ [l.tail] := List.mem_of_mem_head? hq
  constructor
  · rcases List.mem_cons.mp hpu with h | h <;> simp [h]
  · rcases List.mem_append.mp hqv with h | h
    · simp [h]
    · simp [List.mem_singleton.mp h]

omit [DecidableEq ε] in
theorem cells_perm (l : LinkedList ε) (u b v : List ε) :
    List.Perm (l.head :: (u ++ b ++ v) ++ [l.tail]) (b ++ (l.head :: (u ++ v) ++ [l.tail])) := by
  have h : l.head :: (u ++ b ++ v) ++ [l.tail] = (l.head :: u) ++ (b ++ (v ++ [l.tail])) := by simp
  rw [h, show l.head :: (u ++ v) ++ [l.tail] = (l.head :: u) ++ (v ++ [l.tail]) by simp]
  exact List.perm_append_comm_assoc _ _ _

omit [DecidableEq ε] in
/-- The cells of a list with `b` put in are distinct when those of the list and of `b` are, and
`b` is outside the list. -/
theorem nodup_cells_iff {u b v : List ε} :
    (l.head :: (u ++ b ++ v) ++ [l.tail]).Nodup ↔
      b.Nodup ∧ (l.head :: (u ++ v) ++ [l.tail]).Nodup ∧
        ∀ x ∈ b, x ∉ l.head :: (u ++ v) ++ [l.tail] := by
  rw [(cells_perm l u b v).nodup_iff, List.nodup_append]
  exact and_congr_right fun _ => and_congr_right fun _ =>
    ⟨fun h x hx hx' => h x hx x hx' rfl, fun h x hx y hy hxy => h x hx (hxy ▸ hy)⟩

omit [DecidableEq ε] in
theorem mem_cells_mono {u b v : List ε} {x : ε} (hx : x ∈ l.head :: (u ++ v) ++ [l.tail]) :
    x ∈ l.head :: (u ++ b ++ v) ++ [l.tail] := by
  simp only [List.cons_append, List.mem_cons, List.mem_append] at hx ⊢
  tauto

/-- Cutting the elements `b` out from between `u` and `v`. -/
theorem WellFormed.join {u b v : List ε} (hw : WellFormed m l (u ++ b ++ v)) {p q : ε}
    (hp : (l.head :: u).getLast? = some p) (hq : (v ++ [l.tail]).head? = some q) :
    WellFormed (m.joinLinks p q) l (u ++ v) ∧ b.IsChain (Adj (m.joinLinks p q)) := by
  obtain ⟨c₁, p', q', c₂, hp', hq', hcut⟩ := cells_cut l u v
  rw [hp] at hp'
  rw [hq] at hq'
  cases hp'
  cases hq'
  have hnd := hw.nodup
  obtain ⟨hhq, htp, -, -⟩ := headers_of_cut hnd hp hq
  have h := hw.chain
  rw [hcut] at hnd h
  obtain ⟨hchain, hb⟩ := isChain_joinLinks h hnd
  have hcells := hcut []
  simp only [List.append_nil, List.nil_append] at hcells
  refine ⟨⟨?_, ?_, hcells ▸ hchain⟩, hb⟩
  · simpa [joinLinks, hhq] using hw.head_prev
  · simpa [joinLinks, htp] using hw.tail_next

/-- Putting a chain `b`, from `f` to `g`, in between the elements `u` and `v`. -/
theorem WellFormed.splice {u b v : List ε} (hw : WellFormed m l (u ++ v))
    (hb : b.IsChain (Adj m)) (hnd : (l.head :: (u ++ b ++ v) ++ [l.tail]).Nodup) {p q f g : ε}
    (hp : (l.head :: u).getLast? = some p) (hq : (v ++ [l.tail]).head? = some q)
    (hf : b.head? = some f) (hg : b.getLast? = some g) :
    WellFormed (m.spliceLinks p f g q) l (u ++ b ++ v) := by
  obtain ⟨c₁, p', q', c₂, hp', hq', hcut⟩ := cells_cut l u v
  rw [hp] at hp'
  rw [hq] at hq'
  cases hp'
  cases hq'
  obtain ⟨hhq, htp, hhb, htb⟩ := headers_of_cut hnd hp hq
  have hhf : l.head ≠ f := fun h => hhb (h ▸ List.mem_of_mem_head? hf)
  have htg : l.tail ≠ g := fun h => htb (h ▸ List.mem_of_mem_getLast? hg)
  have h := hw.chain
  have hcells := hcut []
  simp only [List.append_nil, List.nil_append] at hcells
  rw [hcells] at h
  refine ⟨?_, ?_, ?_⟩
  · simpa [spliceLinks, hhq, hhf] using hw.head_prev
  · simpa [spliceLinks, htp, htg] using hw.tail_next
  · rw [hcut] at hnd ⊢
    exact isChain_spliceLinks hf hg h hb hnd

end WellFormed

/-! ## The functions on well-formed lists -/

section Specs

variable {m : Mem ε} {l : LinkedList ε}

/-- `list_insert` reads `before->prev` and writes the four links around `elem`. -/
theorem listInsert_eq {before elem p : ε} (hp : (m before).prev = some p) (he : before ≠ elem) :
    listInsert m before elem = some (m.spliceLinks p elem elem before) := by
  simp [listInsert, hp, he, spliceLinks]

/-- `list_remove` of an element between `p` and `q` joins them and returns `q`. -/
theorem listRemove_eq {elem p q : ε} (hp : (m elem).prev = some p) (hq : (m elem).next = some q) :
    listRemove m elem = some (m.joinLinks p q, some q) := by
  simp [listRemove, isInterior, hp, hq, joinLinks]

omit [DecidableEq ε] in
/-- `list_begin`: the first element, or the tail. -/
theorem WellFormed.head_next {xs : List ε} (hw : WellFormed m l xs) :
    (m l.head).next = (xs ++ [l.tail]).head? := by
  have h := hw.chain
  rw [show l.head :: xs ++ [l.tail] = [l.head] ++ (xs ++ [l.tail]) by simp] at h
  have hadj := h.rel_getLast_head_of_append (List.cons_ne_nil _ _) (by simp)
  rw [List.getLast_singleton] at hadj
  rw [hadj.1, List.head?_eq_some_head]

omit [DecidableEq ε] in
/-- `list_rbegin`: the last element, or the head. -/
theorem WellFormed.tail_prev {xs : List ε} (hw : WellFormed m l xs) :
    (m l.tail).prev = (l.head :: xs).getLast? := by
  have hadj := hw.chain.rel_getLast_head_of_append (List.cons_ne_nil _ _) (List.cons_ne_nil _ _)
  rw [List.head_singleton] at hadj
  rw [hadj.2, List.getLast?_eq_some_getLast]

/-- `list_empty`. -/
theorem listEmpty_iff {xs : List ε} (hw : WellFormed m l xs) : listEmpty m l = true ↔ xs = [] := by
  cases xs with
  | nil => simp [listEmpty, hw.head_next]
  | cons x xs =>
    -- the first element is not the tail
    have hxt : x ≠ l.tail := fun h => (headers_of_nodup hw.nodup).2.1 (h ▸ List.mem_cons_self)
    simp [listEmpty, hw.head_next, hxt]

/-- `list_front`: the first element. -/
theorem listFront_eq {xs : List ε} (hw : WellFormed m l xs) : listFront m l = xs.head? := by
  cases xs with
  | nil => simp [listFront, (listEmpty_iff hw).mpr rfl]
  | cons x xs => simp [listFront, listEmpty_iff hw, hw.head_next]

/-- `list_back`: the last element. -/
theorem listBack_eq {xs : List ε} (hw : WellFormed m l xs) : listBack m l = xs.getLast? := by
  cases xs with
  | nil => simp [listBack, (listEmpty_iff hw).mpr rfl]
  | cons x xs => simp [listBack, listEmpty_iff hw, hw.tail_prev]

/-- **`list_insert`.**  A cell outside the list goes in before `before`, an element of the list
or its tail. -/
theorem listInsert_spec {u v : List ε} (hw : WellFormed m l (u ++ v)) {before elem : ε}
    (hbefore : (v ++ [l.tail]).head? = some before)
    (helem : elem ∉ l.head :: (u ++ v) ++ [l.tail]) :
    ∃ m', listInsert m before elem = some m' ∧ WellFormed m' l (u ++ elem :: v) ∧
      ∀ x, x ∉ l.head :: (u ++ v) ++ [l.tail] → x ≠ elem → m' x = m x := by
  obtain ⟨-, p, q, -, hp, hq, -⟩ := cells_cut l u v
  rw [hbefore] at hq
  cases hq
  obtain ⟨hpc, hbc⟩ := mem_cells_of_cut hp hbefore
  have hw₀ : WellFormed m l (u ++ [] ++ v) := by simpa using hw
  have hadj : Adj m p before := List.isChain_pair.mp (hw₀.isChain_cut hp hbefore)
  have hne : before ≠ elem := fun h => helem (h ▸ hbc)
  refine ⟨_, listInsert_eq hadj.2 hne, ?_, fun x hx hxe => ?_⟩
  · have hnd := nodup_cells_iff.mpr ⟨List.nodup_cons.mpr ⟨List.not_mem_nil, List.nodup_nil⟩, hw.nodup,
      by simpa using helem⟩
    simpa using hw.splice (List.isChain_singleton elem) hnd hp hbefore rfl rfl
  · exact spliceLinks_of_ne m (fun h : x = p => hx (h ▸ hpc)) hxe hxe
      (fun h : x = before => hx (h ▸ hbc))

/-- **`list_remove`.**  An element leaves the list, and the one after it (or the tail) is
returned. -/
theorem listRemove_spec {u v : List ε} {elem : ε} (hw : WellFormed m l (u ++ elem :: v)) :
    ∃ m', listRemove m elem = some (m', (v ++ [l.tail]).head?) ∧ WellFormed m' l (u ++ v) ∧
      ∀ x, x ∉ l.head :: (u ++ v) ++ [l.tail] → m' x = m x := by
  obtain ⟨-, p, q, -, hp, hq, -⟩ := cells_cut l u v
  obtain ⟨hpc, hqc⟩ := mem_cells_of_cut hp hq
  have hw' : WellFormed m l (u ++ [elem] ++ v) := by simpa using hw
  have hchain := hw'.isChain_cut hp hq
  simp only [List.cons_append, List.nil_append, List.isChain_cons_cons, List.isChain_singleton,
    and_true] at hchain
  refine ⟨m.joinLinks p q, ?_, (hw'.join hp hq).1, fun x hx => ?_⟩
  · rw [listRemove_eq hchain.1.2 hchain.2.1, hq]
  · exact joinLinks_of_ne m (fun h : x = p => hx (h ▸ hpc)) (fun h : x = q => hx (h ▸ hqc))

/-- **`list_push_front`.** -/
theorem listPushFront_spec {xs : List ε} (hw : WellFormed m l xs) {elem : ε}
    (helem : elem ∉ l.head :: xs ++ [l.tail]) :
    ∃ m', listPushFront m l elem = some m' ∧ WellFormed m' l (elem :: xs) ∧
      ∀ x, x ∉ l.head :: xs ++ [l.tail] → x ≠ elem → m' x = m x := by
  obtain ⟨q, hq⟩ : ∃ q, (xs ++ [l.tail]).head? = some q :=
    ⟨_, List.head?_eq_some_head (by simp)⟩
  obtain ⟨m', h, hw', hframe⟩ :=
    listInsert_spec (u := []) (by simpa using hw) hq (by simpa using helem)
  refine ⟨m', ?_, by simpa using hw', by simpa using hframe⟩
  rw [listPushFront, hw.head_next, hq]
  exact h

/-- **`list_push_back`.** -/
theorem listPushBack_spec {xs : List ε} (hw : WellFormed m l xs) {elem : ε}
    (helem : elem ∉ l.head :: xs ++ [l.tail]) :
    ∃ m', listPushBack m l elem = some m' ∧ WellFormed m' l (xs ++ [elem]) ∧
      ∀ x, x ∉ l.head :: xs ++ [l.tail] → x ≠ elem → m' x = m x := by
  obtain ⟨m', h, hw', hframe⟩ :=
    listInsert_spec (v := []) (by simpa using hw) (rfl : ([] ++ [l.tail]).head? = _)
      (by simpa using helem)
  exact ⟨m', h, hw', by simpa using hframe⟩

/-- **`list_pop_front`.** -/
theorem listPopFront_spec {x : ε} {xs : List ε} (hw : WellFormed m l (x :: xs)) :
    ∃ m', listPopFront m l = some (m', x) ∧ WellFormed m' l xs ∧
      ∀ y, y ∉ l.head :: xs ++ [l.tail] → m' y = m y := by
  obtain ⟨m', h, hw', hframe⟩ := listRemove_spec (u := []) (by simpa using hw)
  refine ⟨m', ?_, by simpa using hw', by simpa using hframe⟩
  simp [listPopFront, listFront_eq hw, h]

/-- **`list_pop_back`.** -/
theorem listPopBack_spec {x : ε} {xs : List ε} (hw : WellFormed m l (xs ++ [x])) :
    ∃ m', listPopBack m l = some (m', x) ∧ WellFormed m' l xs ∧
      ∀ y, y ∉ l.head :: xs ++ [l.tail] → m' y = m y := by
  obtain ⟨m', h, hw', hframe⟩ := listRemove_spec (v := []) (by simpa using hw)
  refine ⟨m', ?_, by simpa using hw', by simpa using hframe⟩
  simp [listPopBack, listBack_eq hw, h]

/-- `list_splice` of the cells `r`, from `first` to `g`, out of the place between `p` and
`last`, put before `before`, whose `prev` is then `p'`. -/
theorem listSplice_eq {r : List ε} {before first last g p p' : ε}
    (hr : (p :: r ++ [last]).IsChain (Adj m)) (hf : r.head? = some first) (hg : r.getLast? = some g)
    (hbefore : ((m before).prev).isSome) (hfl : first ≠ last)
    (hp' : (m.joinLinks p last before).prev = some p') (hbf : before ≠ first) :
    listSplice m before first last = some ((m.joinLinks p last).spliceLinks p' first g before) := by
  have hfr : first ∈ r := List.mem_of_mem_head? hf
  have hgr : g ∈ r := List.mem_of_mem_getLast? hg
  have hr0 : r ≠ [] := List.ne_nil_of_mem hfr
  -- what the function reads, from the chain
  have hfp : (m first).prev = some p := by
    obtain ⟨r', rfl⟩ : ∃ r', r = first :: r' := by
      cases r with
      | nil => exact absurd rfl hr0
      | cons y r' =>
        rw [List.head?_cons, Option.some_inj] at hf
        exact ⟨r', by rw [hf]⟩
    exact (List.isChain_cons_cons.mp hr).1.2
  have hgl : Adj m g last := by
    have h := hr.rel_getLast_head_of_append (List.cons_ne_nil p r) (List.cons_ne_nil last [])
    have hgeq : r.getLast hr0 = g := Option.some.inj ((List.getLast?_eq_some_getLast hr0).symm.trans hg)
    rwa [List.getLast_cons hr0, hgeq, List.head_cons] at h
  have hfn : ((m first).next).isSome :=
    @next_isSome_of_isChain ε m last (p :: r) hr first (List.mem_cons_of_mem p hfr)
  have hgp : ((m g).prev).isSome :=
    @prev_isSome_of_isChain ε m p (r ++ [last]) hr g (List.mem_append_left _ hgr)
  have hb : (m before).prev ≠ none := by
    intro h
    rw [h] at hbefore
    cases hbefore
  have hint : (isInterior m first && isInterior m g) = true := by
    simp [isInterior, hfp, hfn, hgp, hgl.1]
  have hgn' : (m.setNext p (some last) g).next = some last := by
    by_cases hgp' : g = p <;> simp [hgp', hgl.1]
  have hread : (if before = last then some p else (m before).prev) = some p' := by
    simpa [joinLinks] using hp'
  simp only [listSplice, hb, hfl, hgl.2, hint, hfp, hgl.1, if_false, Bool.not_true, hgn',
    setNext_prev, Option.bind_eq_bind, Option.bind_some, Option.pure_def]
  simp only [setPrev_prev, setNext_prev, hbf, if_false, hread, Option.bind_some]
  rfl

omit [DecidableEq ε] in
/-- The elements `b` put in a list are outside its cells, and distinct. -/
theorem WellFormed.out_of_cut {u b v : List ε} (hw : WellFormed m l (u ++ b ++ v)) :
    b.Nodup ∧ ∀ x ∈ b, x ∉ l.head :: (u ++ v) ++ [l.tail] :=
  ⟨(nodup_cells_iff.mp hw.nodup).1, (nodup_cells_iff.mp hw.nodup).2.2⟩

/-- **`list_splice` between two lists.**  The elements `r` of `A`, from `first` up to `last`,
move into `B`, before `before`. -/
theorem listSplice_spec {A B : LinkedList ε} {p r q u v : List ε}
    (hA : WellFormed m A (p ++ r ++ q)) (hB : WellFormed m B (u ++ v))
    (hdisj : ∀ x ∈ A.head :: (p ++ r ++ q) ++ [A.tail], x ∉ B.head :: (u ++ v) ++ [B.tail])
    {before first last : ε} (hfirst : (r ++ q ++ [A.tail]).head? = some first)
    (hlast : (q ++ [A.tail]).head? = some last) (hbefore : (v ++ [B.tail]).head? = some before) :
    ∃ m', listSplice m before first last = some m' ∧ WellFormed m' A (p ++ q) ∧
      WellFormed m' B (u ++ r ++ v) ∧
      ∀ x, x ∉ A.head :: (p ++ r ++ q) ++ [A.tail] → x ∉ B.head :: (u ++ v) ++ [B.tail] →
        m' x = m x := by
  obtain ⟨-, pc, -, -, hpc, -, -⟩ := cells_cut A p q
  obtain ⟨-, p', -, -, hp', -, -⟩ := cells_cut B u v
  obtain ⟨hp'B, hbB⟩ := mem_cells_of_cut hp' hbefore
  obtain ⟨hpcA, hlastA⟩ := mem_cells_of_cut hpc hlast
  have hadjB : Adj m p' before :=
    List.isChain_pair.mp ((show WellFormed m B (u ++ [] ++ v) by simpa using hB).isChain_cut hp' hbefore)
  cases r with
  | nil =>
    -- nothing moves: `first` is `last`
    have hfl : first = last := Option.some.inj (hfirst.symm.trans (by simpa using hlast))
    refine ⟨m, ?_, by simpa using hA, by simpa using hB, fun _ _ _ => rfl⟩
    simp [listSplice, hadjB.2, hfl]
  | cons f r' =>
    have hf : first = f := by simpa using hfirst.symm
    subst hf
    obtain ⟨g, hg⟩ : ∃ g, (first :: r').getLast? = some g :=
      ⟨_, List.getLast?_eq_some_getLast (List.cons_ne_nil first r')⟩
    obtain ⟨hrnd, hrout⟩ := hA.out_of_cut
    have hfr : first ∈ first :: r' := List.mem_cons_self
    have hgr : g ∈ first :: r' := List.mem_of_mem_getLast? hg
    -- the cells of `A` are not those of `B`
    have hAB : ∀ {x y}, x ∈ A.head :: (p ++ (first :: r') ++ q) ++ [A.tail] →
        y ∈ B.head :: (u ++ v) ++ [B.tail] → x ≠ y := fun hx hy hxy => hdisj _ hx (hxy ▸ hy)
    have hrA : ∀ x ∈ first :: r', x ∈ A.head :: (p ++ (first :: r') ++ q) ++ [A.tail] :=
      fun x hx => List.mem_append_left _
        (List.mem_cons_of_mem _ (List.mem_append_left _ (List.mem_append_right _ hx)))
    have hfl : first ≠ last := fun h => hrout first hfr (h ▸ hlastA)
    -- taking the elements out of `A` leaves `B` as it was
    obtain ⟨hA₂, hr₂⟩ := hA.join hpc hlast
    have hB₂ : WellFormed (m.joinLinks pc last) B (u ++ v) := hB.frame fun x hx =>
      joinLinks_of_ne m (hAB (mem_cells_mono hpcA) hx).symm (hAB (mem_cells_mono hlastA) hx).symm
    have hp'₂ : (m.joinLinks pc last before).prev = some p' := by
      rw [joinLinks_of_ne m (hAB (mem_cells_mono hpcA) hbB).symm (hAB (mem_cells_mono hlastA) hbB).symm]
      exact hadjB.2
    have hbefore' : ((m before).prev).isSome := by
      rw [hadjB.2]
      rfl
    have hbf : before ≠ first := (hAB (hrA first hfr) hbB).symm
    refine ⟨_, listSplice_eq (hA.isChain_cut hpc hlast) rfl hg hbefore' hfl hp'₂ hbf, ?_, ?_, ?_⟩
    · -- `A` without the elements: none of its cells is touched by putting them into `B`
      refine hA₂.frame fun x hx => spliceLinks_of_ne _ ?_ ?_ ?_ ?_
      · exact hAB (mem_cells_mono hx) hp'B
      · exact fun h => hrout first hfr (h ▸ hx)
      · exact fun h => hrout g hgr (h ▸ hx)
      · exact hAB (mem_cells_mono hx) hbB
    · exact hB₂.splice hr₂ (nodup_cells_iff.mpr ⟨hrnd, hB.nodup, fun x hx => hdisj x (hrA x hx)⟩)
        hp' hbefore rfl hg
    · intro x hxA hxB
      rw [spliceLinks_of_ne _ (fun h : x = p' => hxB (h ▸ hp'B))
        (fun h : x = first => hxA (h ▸ hrA first hfr)) (fun h : x = g => hxA (h ▸ hrA g hgr))
        (fun h : x = before => hxB (h ▸ hbB))]
      exact joinLinks_of_ne m (fun h : x = pc => hxA (h ▸ mem_cells_mono hpcA))
        (fun h : x = last => hxA (h ▸ mem_cells_mono hlastA))

/-- **`list_splice` within one list.**  The elements `r`, from `first` up to `last`, move before
`before`, another cell of the list: `p ++ r ++ q` becomes `u ++ r ++ v`, where `u ++ v` is
`p ++ q` cut at `before`. -/
theorem listSplice_spec_same {p r q u v : List ε} (hw : WellFormed m l (p ++ r ++ q))
    (huv : p ++ q = u ++ v) {before first last : ε}
    (hfirst : (r ++ q ++ [l.tail]).head? = some first) (hlast : (q ++ [l.tail]).head? = some last)
    (hbefore : (v ++ [l.tail]).head? = some before) :
    ∃ m', listSplice m before first last = some m' ∧ WellFormed m' l (u ++ r ++ v) ∧
      ∀ x, x ∉ l.head :: (p ++ r ++ q) ++ [l.tail] → m' x = m x := by
  obtain ⟨-, pc, -, -, hpc, -, -⟩ := cells_cut l p q
  obtain ⟨-, p', -, -, hp', -, -⟩ := cells_cut l u v
  obtain ⟨hp'c, hbc⟩ := mem_cells_of_cut hp' hbefore
  obtain ⟨hpcc, hlastc⟩ := mem_cells_of_cut hpc hlast
  rw [← huv] at hp'c hbc
  -- `before` is a cell of the list other than its head, so its `prev` is set
  have hbefore' : ((m before).prev).isSome := by
    have hbt : before ∈ p ++ r ++ q ++ [l.tail] := by
      have hb := List.mem_of_mem_head? hbefore
      rw [List.mem_append] at hb ⊢
      rcases hb with hb | hb
      · have : before ∈ p ++ q := huv ▸ List.mem_append_right u hb
        rw [List.mem_append] at this ⊢
        left
        rcases this with h | h <;> simp [h]
      · exact .inr hb
    exact @prev_isSome_of_isChain ε m l.head (p ++ r ++ q ++ [l.tail]) hw.chain before hbt
  cases r with
  | nil =>
    have hfl : first = last := Option.some.inj (hfirst.symm.trans (by simpa using hlast))
    refine ⟨m, ?_, by simpa [← huv] using hw, fun _ _ => rfl⟩
    have hb : (m before).prev ≠ none := by
      intro h
      rw [h] at hbefore'
      cases hbefore'
    simp [listSplice, hb, hfl]
  | cons f r' =>
    have hf : first = f := by simpa using hfirst.symm
    subst hf
    obtain ⟨g, hg⟩ : ∃ g, (first :: r').getLast? = some g :=
      ⟨_, List.getLast?_eq_some_getLast (List.cons_ne_nil first r')⟩
    obtain ⟨hrnd, hrout⟩ := hw.out_of_cut
    have hfr : first ∈ first :: r' := List.mem_cons_self
    have hgr : g ∈ first :: r' := List.mem_of_mem_getLast? hg
    have hrc : ∀ x ∈ first :: r', x ∈ l.head :: (p ++ (first :: r') ++ q) ++ [l.tail] :=
      fun x hx => List.mem_append_left _
        (List.mem_cons_of_mem _ (List.mem_append_left _ (List.mem_append_right _ hx)))
    have hfl : first ≠ last := fun h => hrout first hfr (h ▸ hlastc)
    have hbf : before ≠ first := fun h => hrout first hfr (h ▸ hbc)
    -- out of the list, then back in at the cut `u`/`v` of what is left
    obtain ⟨hw₂, hr₂⟩ := hw.join hpc hlast
    rw [huv] at hw₂
    have hp'₂ : (m.joinLinks pc last before).prev = some p' :=
      (List.isChain_pair.mp ((show WellFormed _ l (u ++ [] ++ v) by simpa using hw₂).isChain_cut
        hp' hbefore)).2
    refine ⟨_, listSplice_eq (hw.isChain_cut hpc hlast) rfl hg hbefore' hfl hp'₂ hbf, ?_, ?_⟩
    · refine hw₂.splice hr₂ (nodup_cells_iff.mpr ⟨hrnd, ?_, ?_⟩) hp' hbefore rfl hg
      · rw [← huv]
        exact (nodup_cells_iff.mp hw.nodup).2.1
      · rw [← huv]
        exact hrout
    · intro x hx
      rw [spliceLinks_of_ne _ (fun h : x = p' => hx (h ▸ mem_cells_mono hp'c))
        (fun h : x = first => hx (h ▸ hrc first hfr)) (fun h : x = g => hx (h ▸ hrc g hgr))
        (fun h : x = before => hx (h ▸ mem_cells_mono hbc))]
      exact joinLinks_of_ne m (fun h : x = pc => hx (h ▸ mem_cells_mono hpcc))
        (fun h : x = last => hx (h ▸ mem_cells_mono hlastc))

/-- The loop of `list_reverse` swaps the links of the elements from `e` on, following the
`next` links they had, until it meets the tail. -/
theorem reverseLoop_eq {tl : ε} : ∀ (ys : List ε) (m : Mem ε) (e : ε) (fuel : Nat),
    ys.length + 1 < fuel → (e :: ys ++ [tl]).IsChain (Adj m) → (e :: ys ++ [tl]).Nodup →
      reverseLoop tl fuel m e = some ((e :: ys).foldl swapLinks m)
  | _, _, _, 0, hf, _, _ => absurd hf (Nat.not_lt_zero _)
  | [], m, e, fuel + 1, hf, hc, hnd => by
    have het : e ≠ tl := by simpa using hnd
    obtain ⟨fuel, rfl⟩ : ∃ f, fuel = f + 1 := ⟨fuel - 1, by simp at hf; omega⟩
    have hnext : (m e).next = some tl := (List.isChain_pair.mp hc).1
    simp [reverseLoop, het, hnext]
  | y :: ys, m, e, fuel + 1, hf, hc, hnd => by
    have het : e ≠ tl := by simp at hnd; tauto
    simp only [List.cons_append, List.isChain_cons_cons] at hc
    -- the swap at `e` leaves the cells after it as they were
    have hout : e ∉ y :: ys ++ [tl] := (List.nodup_cons.mp hnd).1
    have hc' : (y :: ys ++ [tl]).IsChain (Adj (m.swapLinks e)) :=
      isChain_frame hc.2 (fun x hx => by
          rw [swapLinks_of_ne m fun h : x = e => hout (h ▸ List.mem_of_mem_dropLast hx)])
        (fun x hx => by
          rw [swapLinks_of_ne m fun h : x = e => hout (h ▸ List.mem_of_mem_tail hx)])
    have ih := reverseLoop_eq ys (m.swapLinks e) y fuel (by simp at hf; omega) hc'
      (List.nodup_cons.mp hnd).2
    simp [reverseLoop, het, hc.1.1, ih]

/-- **`list_reverse`.**  With fuel for the loop's tests, the list holds its elements reversed, and
no other cell changes. -/
theorem listReverse_spec {xs : List ε} (hw : WellFormed m l xs) {fuel : Nat}
    (hfuel : xs.length < fuel) :
    ∃ m', listReverse fuel m l = some m' ∧ WellFormed m' l xs.reverse ∧
      ∀ y, y ∉ l.head :: xs ++ [l.tail] → m' y = m y := by
  cases xs with
  | nil => exact ⟨m, by simp [listReverse, (listEmpty_iff hw).mpr rfl], hw, fun _ _ => rfl⟩
  | cons x rest =>
    have hnd := hw.nodup
    obtain ⟨hh, ht, hht⟩ := headers_of_nodup hnd
    have hxs : (x :: rest ++ [l.tail]).Nodup := (List.nodup_cons.mp hnd).2
    have hnd₁ : (x :: rest).Nodup := (List.nodup_append.mp hxs).1
    -- the loop swaps the links of every element and of nothing else
    have hsw := foldl_swapLinks (x :: rest) m hnd₁
    have hloop : reverseLoop l.tail fuel m x = some ((x :: rest).foldl swapLinks m) :=
      reverseLoop_eq rest m x fuel (by simpa using hfuel) hw.chain.tail hxs
    have hm₁h : (x :: rest).foldl swapLinks m l.head = m l.head := by rw [hsw, if_neg hh]
    have hm₁t : (x :: rest).foldl swapLinks m l.tail = m l.tail := by rw [hsw, if_neg ht]
    -- the last element `z`, between which and the tail the header links are swapped
    obtain ⟨z, hz⟩ : ∃ z, (x :: rest).getLast? = some z :=
      ⟨_, List.getLast?_eq_some_getLast (List.cons_ne_nil x rest)⟩
    have hzx : z ∈ x :: rest := List.mem_of_mem_getLast? hz
    have hzh : z ≠ l.head := fun h => hh (h ▸ hzx)
    have hzt : z ≠ l.tail := fun h => ht (h ▸ hzx)
    have hxh : x ≠ l.head := fun h => hh (h ▸ List.mem_cons_self)
    have hxt : x ≠ l.tail := fun h => ht (h ▸ List.mem_cons_self)
    have hhd : (m l.head).next = some x := hw.head_next
    have htl : (m l.tail).prev = some z := by rw [hw.tail_prev, List.getLast?_cons_cons, hz]
    have hxp : (m x).prev = some l.head := by
      have h := hw.chain
      simp only [List.cons_append, List.isChain_cons_cons] at h
      exact h.1.2
    have hzn : (m z).next = some l.tail := by
      have hadj := hw.chain.rel_getLast_head_of_append (List.cons_ne_nil _ _) (List.cons_ne_nil _ _)
      have hlast : (l.head :: x :: rest).getLast (List.cons_ne_nil _ _) = z :=
        Option.some.inj ((List.getLast?_eq_some_getLast _).symm.trans
          (by rw [List.getLast?_cons_cons, hz]))
      rw [hlast, List.head_singleton] at hadj
      exact hadj.1
    have hempty : listEmpty m l = false :=
      Bool.eq_false_iff.mpr fun h => List.cons_ne_nil x rest ((listEmpty_iff hw).mp h)
    have hxs₁ : (x :: rest).IsChain (Adj m) := hw.chain.infix ⟨[l.head], [l.tail], by simp⟩
    have hrev := isChain_reverse_foldl_swapLinks hxs₁ hnd₁
    simp only [listReverse, hempty, hhd, hloop, Bool.false_eq_true, if_false, Option.bind_eq_bind,
      Option.bind_some]
    generalize (x :: rest).foldl swapLinks m = m₁ at hsw hm₁h hm₁t hrev ⊢
    have hx₁ : (m₁ x).next = some l.head := by rw [hsw, if_pos List.mem_cons_self]; exact hxp
    have hz₁ : (m₁ z).prev = some l.tail := by rw [hsw, if_pos hzx]; exact hzn
    -- the headers now point to `z` and `x`, and `z` and `x` back to them
    refine ⟨(((m₁.setNext l.head (some z)).setPrev l.tail (some x)).setPrev z (some l.head)).setNext
      x (some l.tail), ?_, ⟨?_, ?_, ?_⟩, fun y hy => ?_⟩
    · simp [hm₁h, hm₁t, hhd, htl, hxh, hzt, hx₁, hz₁]
    · simpa [hm₁h, hzh.symm, hxh.symm, hht] using hw.head_prev
    · simpa [hm₁t, hzt.symm, hxt.symm, hht.symm] using hw.tail_next
    · have hnd' : (l.head :: ((x :: rest).reverse ++ [l.tail])).Nodup :=
        (List.Perm.cons _ (List.Perm.append_right _ (List.reverse_perm _))).nodup_iff.mpr hnd
      show ([] ++ l.head :: ((x :: rest).reverse ++ l.tail :: [])).IsChain _
      refine isChain_link (by rw [List.head?_reverse, hz])
        (show (x :: rest).reverse.getLast? = some x by simp) (List.isChain_singleton _) (List.isChain_singleton _) hrev hnd' ?_ ?_ ?_ ?_
      · exact ⟨by simp [hxh.symm], by simp⟩
      · exact ⟨by simp, by simp [hzt.symm]⟩
      · intro y hyh hyx
        simp [hyh, hyx]
      · intro y hyz hyt
        simp [hyz, hyt]
    · simp only [List.cons_append, List.mem_cons, List.mem_append, not_or] at hy
      obtain ⟨hyh, hyx, hyr, hyt⟩ := hy
      have hyz : y ≠ z := fun h => (List.mem_cons.mp (h ▸ hzx)).elim hyx hyr
      have hm₁y : m₁ y = m y := by rw [hsw, if_neg (by simp [hyx, hyr])]
      ext <;> simp [hyh, hyx, hyt, hyz, hm₁y]

omit [DecidableEq ε] in
/-- Along a chain ending in `tl`, an element's `next` is the first of what follows it. -/
theorem next_eq_head {tl y : ε} {ys : List ε} (h : (y :: ys ++ [tl]).IsChain (Adj m)) :
    (m y).next = (ys ++ [tl]).head? := by
  cases ys with
  | nil => exact (List.isChain_pair.mp h).1
  | cons z ys =>
    simp only [List.cons_append, List.isChain_cons_cons] at h
    exact h.1.1

/-- The loop of `list_insert_ordered` stops at the first element `elem` is `less` than, or at the
tail. -/
theorem insertOrderedLoop_eq {tl elem : ε} {less : ε → ε → Bool} :
    ∀ (ys : List ε) (e : ε) (fuel : Nat), ys.length < fuel → (ys ++ [tl]).head? = some e →
      (ys ++ [tl]).IsChain (Adj m) → tl ∉ ys →
        insertOrderedLoop tl less elem m fuel e = (ys.dropWhile (fun x => !less elem x) ++ [tl]).head?
  | _, _, 0, hf, _, _, _ => absurd hf (Nat.not_lt_zero _)
  | [], e, fuel + 1, _, he, _, _ => by
    simp only [List.nil_append, List.head?_cons, Option.some.injEq] at he
    subst he
    simp [insertOrderedLoop]
  | y :: ys, e, fuel + 1, hf, he, hc, ht => by
    simp only [List.cons_append, List.head?_cons, Option.some.injEq] at he
    subst he
    have hyt : y ≠ tl := fun h => ht (h ▸ List.mem_cons_self)
    by_cases hy : less elem y = true
    · simp [insertOrderedLoop, hyt, hy]
    · -- the loop goes on to the next element
      obtain ⟨e', he'⟩ : ∃ e', (ys ++ [tl]).head? = some e' :=
        ⟨_, List.head?_eq_some_head (by simp)⟩
      have ih : insertOrderedLoop tl less elem m fuel e' = _ :=
        insertOrderedLoop_eq ys e' fuel (by simp at hf; omega) he' hc.tail
          (fun h => ht (List.mem_cons_of_mem y h))
      simp [insertOrderedLoop, hyt, hy, next_eq_head hc, he', ih]

/-- **`list_insert_ordered`.**  With fuel for the loop, `elem`, a cell outside the list, goes in
where the sequence operation puts it. -/
theorem listInsertOrdered_spec {xs : List ε} (hw : WellFormed m l xs) {elem : ε}
    (helem : elem ∉ l.head :: xs ++ [l.tail]) (less : ε → ε → Bool) {fuel : Nat}
    (hfuel : xs.length < fuel) :
    ∃ m', listInsertOrdered fuel m l elem less = some m' ∧
      WellFormed m' l (Pintos.listInsertOrdered less elem xs) ∧
      ∀ x, x ∉ l.head :: xs ++ [l.tail] → x ≠ elem → m' x = m x := by
  obtain ⟨first, hfirst⟩ : ∃ b, (xs ++ [l.tail]).head? = some b :=
    ⟨_, List.head?_eq_some_head (by simp)⟩
  have hhead : (m l.head).next = some first := hw.head_next.trans hfirst
  have hloop : insertOrderedLoop l.tail less elem m fuel first = _ :=
    insertOrderedLoop_eq xs first fuel hfuel hfirst hw.chain.tail (headers_of_nodup hw.nodup).2.1
  obtain ⟨u, v, hxs, hv, hins⟩ : ∃ u v, xs = u ++ v ∧ xs.dropWhile (fun e => !less elem e) = v ∧
      Pintos.listInsertOrdered less elem xs = u ++ elem :: v :=
    ⟨_, _, List.takeWhile_append_dropWhile.symm, rfl, listInsertOrdered_eq_takeWhile less elem xs⟩
  obtain ⟨before, hbefore⟩ : ∃ b, (v ++ [l.tail]).head? = some b :=
    ⟨_, List.head?_eq_some_head (by simp)⟩
  rw [hv, hbefore] at hloop
  rw [hins]
  subst hxs
  obtain ⟨m', h, hw', hframe⟩ := listInsert_spec hw hbefore helem
  refine ⟨m', ?_, hw', hframe⟩
  simp only [listInsertOrdered, hhead, hloop, Option.bind_eq_bind, Option.bind_some, h]

/-- The loop of `list_max` and `list_min` folds the comparison over the elements from `e` on. -/
theorem bestLoop_eq {tl : ε} {better : ε → ε → Bool} :
    ∀ (ys : List ε) (best e : ε) (fuel : Nat), ys.length < fuel → (ys ++ [tl]).head? = some e →
      (ys ++ [tl]).IsChain (Adj m) → tl ∉ ys →
        bestLoop tl better m fuel best e = some (ys.foldl (fun b x => if better b x then x else b) best)
  | _, _, _, 0, hf, _, _, _ => absurd hf (Nat.not_lt_zero _)
  | [], best, e, fuel + 1, _, he, _, _ => by
    simp only [List.nil_append, List.head?_cons, Option.some.injEq] at he
    subst he
    simp [bestLoop]
  | y :: ys, best, e, fuel + 1, hf, he, hc, ht => by
    simp only [List.cons_append, List.head?_cons, Option.some.injEq] at he
    subst he
    have hyt : y ≠ tl := fun h => ht (h ▸ List.mem_cons_self)
    obtain ⟨e', he'⟩ : ∃ e', (ys ++ [tl]).head? = some e' :=
      ⟨_, List.head?_eq_some_head (by simp)⟩
    have ih : bestLoop tl better m fuel (if better best y then y else best) e' = _ :=
      bestLoop_eq ys _ e' fuel (by simp at hf; omega) he' hc.tail
        (fun h => ht (List.mem_cons_of_mem y h))
    simp only [bestLoop, hyt, if_false, next_eq_head hc, he', ih, List.foldl_cons]

/-- `list_max` and `list_min` but for the comparison: on a well-formed list, the fold of the
comparison over its elements, or the tail if it has none. -/
theorem listBest_spec {xs : List ε} (hw : WellFormed m l xs) (better : ε → ε → Bool) {fuel : Nat}
    (hfuel : xs.length < fuel) :
    listBest fuel m l better = some ((Pintos.listMax better xs).getD l.tail) := by
  cases xs with
  | nil => simp [listBest, hw.head_next]
  | cons x rest =>
    have hxt : x ≠ l.tail := fun h => (headers_of_nodup hw.nodup).2.1 (h ▸ List.mem_cons_self)
    have hxs : (x :: rest ++ [l.tail]).IsChain (Adj m) := hw.chain.tail
    obtain ⟨e, he⟩ : ∃ e, (rest ++ [l.tail]).head? = some e :=
      ⟨_, List.head?_eq_some_head (by simp)⟩
    have hloop : bestLoop l.tail better m fuel x e = _ :=
      bestLoop_eq rest x e fuel (by simp at hfuel; omega) he hxs.tail
        (fun h => (headers_of_nodup hw.nodup).2.1 (List.mem_cons_of_mem x h))
    simp [listBest, hw.head_next, hxt, next_eq_head hxs, he, hloop, Pintos.listMax]

/-- **`list_max`.** -/
theorem listMax_spec {xs : List ε} (hw : WellFormed m l xs) (less : ε → ε → Bool) {fuel : Nat}
    (hfuel : xs.length < fuel) :
    listMax fuel m l less = some ((Pintos.listMax less xs).getD l.tail) :=
  listBest_spec hw _ hfuel

/-- **`list_min`**: `list_max` for the reversed comparison. -/
theorem listMin_spec {xs : List ε} (hw : WellFormed m l xs) (less : ε → ε → Bool) {fuel : Nat}
    (hfuel : xs.length < fuel) :
    listMin fuel m l less = some ((Pintos.listMax (fun a b => less b a) xs).getD l.tail) :=
  listBest_spec hw _ hfuel

omit [DecidableEq ε] in
/-- The `next` of an element of a list is the first of what follows it. -/
theorem WellFormed.next_eq {u v : List ε} {e : ε} (hw : WellFormed m l (u ++ e :: v)) :
    (m e).next = (v ++ [l.tail]).head? := by
  have hc : (e :: v ++ [l.tail]).IsChain (Adj m) := hw.chain.infix ⟨l.head :: u, [], by simp⟩
  exact next_eq_head hc

/-- The duplicates list of `list_unique`, when there is one, holds `D`. -/
def DupsHold (m : Mem ε) : Option (LinkedList ε) → List ε → Prop
  | none, _ => True
  | some d, D => WellFormed m d D

/-- The cells of the duplicates list, when there is one. -/
def dupCells : Option (LinkedList ε) → List ε → List ε
  | none, _ => []
  | some d, D => d.head :: D ++ [d.tail]

omit [DecidableEq ε] in
theorem mem_dupCells_append {duplicates : Option (LinkedList ε)} {D : List ε} {x y : ε}
    (h : x ∈ dupCells duplicates (D ++ [y])) : x ∈ dupCells duplicates D ∨ x = y := by
  cases duplicates with
  | none => cases h
  | some d =>
    simp only [dupCells, List.cons_append, List.append_assoc, List.mem_cons, List.mem_append] at h ⊢
    tauto

/-- One removal of `list_unique`: `y` leaves `l` for the end of the duplicates, and no cell outside
the two lists changes. -/
theorem removeDuplicate_spec {duplicates : Option (LinkedList ε)} {u v D : List ε} {y : ε}
    (hw : WellFormed m l (u ++ y :: v)) (hd : DupsHold m duplicates D)
    (hdisj : ∀ x ∈ l.head :: (u ++ y :: v) ++ [l.tail], x ∉ dupCells duplicates D) :
    ∃ m', removeDuplicate m duplicates y = some m' ∧ WellFormed m' l (u ++ v) ∧
      DupsHold m' duplicates (D ++ [y]) ∧
      ∀ x, x ∉ l.head :: (u ++ y :: v) ++ [l.tail] → x ∉ dupCells duplicates D → m' x = m x := by
  obtain ⟨m₁, hrem, hw₁, hframe₁⟩ := listRemove_spec hw
  have hsub : ∀ x, x ∈ l.head :: (u ++ v) ++ [l.tail] → x ∈ l.head :: (u ++ y :: v) ++ [l.tail] :=
    fun x hx => by simpa using mem_cells_mono (b := [y]) hx
  have hy : y ∈ l.head :: (u ++ y :: v) ++ [l.tail] := by simp
  cases duplicates with
  | none =>
    exact ⟨m₁, by simp [removeDuplicate, hrem], hw₁, trivial,
      fun x hx _ => hframe₁ x fun h => hx (hsub x h)⟩
  | some d =>
    -- the removal leaves the duplicates list, and the push the rest of `l`
    have hyout : y ∉ l.head :: (u ++ v) ++ [l.tail] :=
      (show WellFormed m l (u ++ [y] ++ v) by simpa using hw).out_of_cut.2 y
        (List.mem_singleton_self y)
    have hd₁ : WellFormed m₁ d D :=
      WellFormed.frame hd fun x hx => hframe₁ x fun h => hdisj x (hsub x h) hx
    obtain ⟨m₂, hpush, hd₂, hframe₂⟩ := listPushBack_spec hd₁ (hdisj y hy)
    refine ⟨m₂, by simp [removeDuplicate, hrem, hpush], ?_, hd₂, fun x hx hxd => ?_⟩
    · exact hw₁.frame fun x hx =>
        hframe₂ x (hdisj x (hsub x hx)) fun h => hyout (h ▸ hx)
    · rw [hframe₂ x hxd fun h => hx (h ▸ hy), hframe₁ x fun h => hx (hsub x h)]

/-- The loop of `list_unique`, from the kept element `elem` followed by `ys`: the sequence loop
`uniqueFrom` tells what stays and what goes to the duplicates. -/
theorem uniqueLoop_spec {duplicates : Option (LinkedList ε)} {less : ε → ε → Bool} :
    ∀ (ys u D : List ε) (elem : ε) (m : Mem ε) (fuel : Nat), ys.length < fuel →
      WellFormed m l (u ++ elem :: ys) → DupsHold m duplicates D →
      (∀ x ∈ l.head :: (u ++ elem :: ys) ++ [l.tail], x ∉ dupCells duplicates D) →
      ∃ m', uniqueLoop l.tail duplicates less fuel m elem = some m' ∧
        WellFormed m' l (u ++ elem :: (uniqueFrom less elem ys).1) ∧
        DupsHold m' duplicates (D ++ (uniqueFrom less elem ys).2) ∧
        ∀ x, x ∉ l.head :: (u ++ elem :: ys) ++ [l.tail] → x ∉ dupCells duplicates D →
          m' x = m x
  | _, _, _, _, _, 0, hf, _, _, _ => absurd hf (Nat.not_lt_zero _)
  | [], u, D, elem, m, fuel + 1, _, hw, hd, _ => by
    -- `elem` is the last element: its `next` is the tail
    have hnext : (m elem).next = some l.tail := hw.next_eq
    exact ⟨m, by simp [uniqueLoop, hnext], by simpa [uniqueFrom] using hw,
      by simpa [uniqueFrom] using hd, fun _ _ _ => rfl⟩
  | y :: ys, u, D, elem, m, fuel + 1, hf, hw, hd, hdisj => by
    have hnext : (m elem).next = some y := hw.next_eq
    have hyt : y ≠ l.tail := fun h =>
      (headers_of_nodup hw.nodup).2.1 (h ▸ List.mem_append_right u (by simp))
    have hf' : ys.length < fuel := by simp at hf; omega
    by_cases he : less elem y = false ∧ less y elem = false
    · -- `y` is equal to `elem`: it goes to the duplicates
      have hw' : WellFormed m l ((u ++ [elem]) ++ y :: ys) := by simpa using hw
      obtain ⟨m₂, hrem, hw₂, hd₂, hframe₂⟩ := removeDuplicate_spec hw' hd (by simpa using hdisj)
      have hyout : y ∉ l.head :: (u ++ elem :: ys) ++ [l.tail] := by
        simpa using (show WellFormed m l ((u ++ [elem]) ++ [y] ++ ys) by simpa using hw).out_of_cut.2
          y (List.mem_singleton_self y)
      have hsub : ∀ x, x ∈ l.head :: (u ++ elem :: ys) ++ [l.tail] →
          x ∈ l.head :: (u ++ elem :: y :: ys) ++ [l.tail] := fun x hx => by
        simpa using mem_cells_mono (u := u ++ [elem]) (b := [y]) (v := ys) (by simpa using hx)
      obtain ⟨m', hloop, hw', hd', hframe'⟩ :=
        @uniqueLoop_spec duplicates less ys u (D ++ [y]) elem m₂ fuel hf' (by simpa using hw₂) hd₂
          fun x hx hxd =>
          (mem_dupCells_append hxd).elim (hdisj x (hsub x hx)) fun h => hyout (h ▸ hx)
      refine ⟨m', by simp [uniqueLoop, hnext, hyt, he, hrem, hloop], by simpa [uniqueFrom, he] using hw',
        by simpa [uniqueFrom, he] using hd', fun x hx hxd => ?_⟩
      have hxy : x ≠ y := fun h => hx (h ▸ by simp)
      rw [hframe' x (fun h => hx (hsub x h)) fun h => (mem_dupCells_append h).elim hxd hxy,
        hframe₂ x (by simpa using hx) hxd]
    · -- `y` is kept, and compared with the elements after it
      obtain ⟨m', hloop, hw', hd', hframe'⟩ :=
        @uniqueLoop_spec duplicates less ys (u ++ [elem]) D y m fuel hf' (by simpa using hw) hd
          (by simpa using hdisj)
      exact ⟨m', by simp [uniqueLoop, hnext, hyt, he, hloop], by simpa [uniqueFrom, he] using hw',
        by simpa [uniqueFrom, he] using hd', fun x hx hxd => hframe' x (by simpa using hx) hxd⟩

/-- **`list_unique`.**  With fuel for the loop, the list keeps what the sequence operation keeps,
and the duplicates list, when there is one and it shares no cell with the list, receives the
rest in order. -/
theorem listUnique_spec {xs : List ε} (hw : WellFormed m l xs)
    {duplicates : Option (LinkedList ε)} {D : List ε} (hd : DupsHold m duplicates D)
    (hdisj : ∀ x ∈ l.head :: xs ++ [l.tail], x ∉ dupCells duplicates D) (less : ε → ε → Bool)
    {fuel : Nat} (hfuel : xs.length < fuel) :
    ∃ m', listUnique fuel m l duplicates less = some m' ∧
      WellFormed m' l (Pintos.listUnique less xs).1 ∧
      DupsHold m' duplicates (D ++ (Pintos.listUnique less xs).2) ∧
      ∀ x, x ∉ l.head :: xs ++ [l.tail] → x ∉ dupCells duplicates D → m' x = m x := by
  cases xs with
  | nil =>
    exact ⟨m, by simp [listUnique, (listEmpty_iff hw).mpr rfl], hw, by simpa [Pintos.listUnique] using hd,
      fun _ _ _ => rfl⟩
  | cons elem ys =>
    have hempty : listEmpty m l = false :=
      Bool.eq_false_iff.mpr fun h => List.cons_ne_nil elem ys ((listEmpty_iff hw).mp h)
    obtain ⟨m', hloop, hw', hd', hframe'⟩ :=
      @uniqueLoop_spec _ _ l duplicates less ys [] D elem m fuel (by simp at hfuel; omega)
        (by simpa using hw) hd (by simpa using hdisj)
    refine ⟨m', ?_, by simpa [Pintos.listUnique] using hw', by simpa [Pintos.listUnique] using hd',
      fun x hx hxd => hframe' x (by simpa using hx) hxd⟩
    simp [listUnique, hempty, hw.head_next, hloop]

end Specs

/-! ## The list module refines sequences -/

section Refinement

variable {m : Mem ε} {l : LinkedList ε}

/-- `list_max` and `list_min` return the first maximum, or the tail of an empty list. -/
theorem listBest_first {less : ε → ε → Bool} (hless : IsStrictWeakOrder ε fun a b => less a b = true)
    {xs : List ε} (hw : WellFormed m l xs) {fuel : Nat} (hfuel : xs.length < fuel) :
    ∃ e, listBest fuel m l less = some e ∧ (xs = [] → e = l.tail) ∧
      (xs ≠ [] → ∃ u v, xs = u ++ e :: v ∧ (∀ y ∈ u, less y e = true) ∧
        ∀ y ∈ v, less e y = false) := by
  refine ⟨_, listBest_spec hw less hfuel, fun h => by simp [h], fun h => ?_⟩
  obtain ⟨e, he⟩ : ∃ e, Pintos.listMax less xs = some e := by
    cases hmax : Pintos.listMax less xs with
    | none => exact absurd (listMax_eq_none.mp hmax) h
    | some e => exact ⟨e, rfl⟩
  rw [he]
  exact listMax_split hless he

/-- **The list module refines finite sequences.**  On a list `l` holding `xs`, each function of
`list.c` succeeds (the loops given fuel for their tests), leaves the list well-formed with the
elements the sequence operation gives, and changes no cell outside the lists involved; for a
`less` that is a strict weak order, `list_insert_ordered` into a sorted list puts the element
after the elements not greater than it and keeps the list sorted, `list_unique` keeps the first
element of each run of equal elements and appends the others to `duplicates`, and `list_max` and
`list_min` return the first maximum and minimum, or the tail. -/
theorem list_refines_sequences {less : ε → ε → Bool}
    (hless : IsStrictWeakOrder ε fun a b => less a b = true) {xs : List ε}
    (hw : WellFormed m l xs) :
    -- `list_insert` before an element or the tail
    (∀ u v before elem, xs = u ++ v → (v ++ [l.tail]).head? = some before →
      elem ∉ l.head :: xs ++ [l.tail] →
      ∃ m', listInsert m before elem = some m' ∧ WellFormed m' l (u ++ elem :: v) ∧
        ∀ x, x ∉ l.head :: xs ++ [l.tail] → x ≠ elem → m' x = m x) ∧
    -- `list_remove`, which returns what followed the element
    (∀ u v elem, xs = u ++ elem :: v →
      ∃ m', listRemove m elem = some (m', (v ++ [l.tail]).head?) ∧ WellFormed m' l (u ++ v) ∧
        ∀ x, x ∉ l.head :: (u ++ v) ++ [l.tail] → m' x = m x) ∧
    -- `list_push_front` and `list_push_back`
    (∀ elem, elem ∉ l.head :: xs ++ [l.tail] →
      ∃ m', listPushFront m l elem = some m' ∧ WellFormed m' l (elem :: xs) ∧
        ∀ x, x ∉ l.head :: xs ++ [l.tail] → x ≠ elem → m' x = m x) ∧
    (∀ elem, elem ∉ l.head :: xs ++ [l.tail] →
      ∃ m', listPushBack m l elem = some m' ∧ WellFormed m' l (xs ++ [elem]) ∧
        ∀ x, x ∉ l.head :: xs ++ [l.tail] → x ≠ elem → m' x = m x) ∧
    -- `list_pop_front` and `list_pop_back`
    (∀ x rest, xs = x :: rest →
      ∃ m', listPopFront m l = some (m', x) ∧ WellFormed m' l rest ∧
        ∀ y, y ∉ l.head :: rest ++ [l.tail] → m' y = m y) ∧
    (∀ x rest, xs = rest ++ [x] →
      ∃ m', listPopBack m l = some (m', x) ∧ WellFormed m' l rest ∧
        ∀ y, y ∉ l.head :: rest ++ [l.tail] → m' y = m y) ∧
    -- `list_splice` within the list
    (∀ p r q u v before first last, xs = p ++ r ++ q → p ++ q = u ++ v →
      (r ++ q ++ [l.tail]).head? = some first → (q ++ [l.tail]).head? = some last →
      (v ++ [l.tail]).head? = some before →
      ∃ m', listSplice m before first last = some m' ∧ WellFormed m' l (u ++ r ++ v) ∧
        ∀ x, x ∉ l.head :: xs ++ [l.tail] → m' x = m x) ∧
    -- `list_splice` into another list `B`
    (∀ (B : LinkedList ε) p r q u v before first last, xs = p ++ r ++ q →
      WellFormed m B (u ++ v) →
      (∀ x ∈ l.head :: xs ++ [l.tail], x ∉ B.head :: (u ++ v) ++ [B.tail]) →
      (r ++ q ++ [l.tail]).head? = some first → (q ++ [l.tail]).head? = some last →
      (v ++ [B.tail]).head? = some before →
      ∃ m', listSplice m before first last = some m' ∧ WellFormed m' l (p ++ q) ∧
        WellFormed m' B (u ++ r ++ v) ∧
        ∀ x, x ∉ l.head :: xs ++ [l.tail] → x ∉ B.head :: (u ++ v) ++ [B.tail] → m' x = m x) ∧
    -- `list_reverse`
    (∀ fuel, xs.length < fuel →
      ∃ m', listReverse fuel m l = some m' ∧ WellFormed m' l xs.reverse ∧
        ∀ y, y ∉ l.head :: xs ++ [l.tail] → m' y = m y) ∧
    -- `list_insert_ordered` into a sorted list
    (∀ elem fuel, elem ∉ l.head :: xs ++ [l.tail] → xs.length < fuel → SortedBy less xs →
      ∃ m' u v, listInsertOrdered fuel m l elem less = some m' ∧ xs = u ++ v ∧
        WellFormed m' l (u ++ elem :: v) ∧ (∀ e ∈ u, less elem e = false) ∧
        (∀ e ∈ v, less elem e = true) ∧ SortedBy less (u ++ elem :: v) ∧
        ∀ x, x ∉ l.head :: xs ++ [l.tail] → x ≠ elem → m' x = m x) ∧
    -- `list_unique`, with or without a duplicates list
    (∀ duplicates D fuel, DupsHold m duplicates D →
      (∀ x ∈ l.head :: xs ++ [l.tail], x ∉ dupCells duplicates D) → xs.length < fuel →
      ∃ m', listUnique fuel m l duplicates less = some m' ∧
        WellFormed m' l ((xs.splitBy (lessEquiv less)).flatMap (·.take 1)) ∧
        DupsHold m' duplicates (D ++ (xs.splitBy (lessEquiv less)).flatMap (·.drop 1)) ∧
        ∀ x, x ∉ l.head :: xs ++ [l.tail] → x ∉ dupCells duplicates D → m' x = m x) ∧
    -- `list_max` and `list_min`
    (∀ fuel, xs.length < fuel →
      ∃ e, listMax fuel m l less = some e ∧ (xs = [] → e = l.tail) ∧
        (xs ≠ [] → ∃ u v, xs = u ++ e :: v ∧ (∀ y ∈ u, less y e = true) ∧
          ∀ y ∈ v, less e y = false)) ∧
    (∀ fuel, xs.length < fuel →
      ∃ e, listMin fuel m l less = some e ∧ (xs = [] → e = l.tail) ∧
        (xs ≠ [] → ∃ u v, xs = u ++ e :: v ∧ (∀ y ∈ u, less e y = true) ∧
          ∀ y ∈ v, less y e = false)) := by
  refine ⟨?insert, ?remove, fun elem he => listPushFront_spec hw he,
    fun elem he => listPushBack_spec hw he, ?popFront, ?popBack, ?spliceSame, ?spliceOther,
    fun fuel hf => listReverse_spec hw hf, ?insertOrdered, ?unique,
    fun fuel hf => listBest_first hless hw hf,
    fun fuel hf => listBest_first (isStrictWeakOrder_swap hless) hw hf⟩
  case insert =>
    rintro u v before elem rfl hb he
    exact listInsert_spec hw hb he
  case remove =>
    rintro u v elem rfl
    exact listRemove_spec hw
  case popFront =>
    rintro x rest rfl
    exact listPopFront_spec hw
  case popBack =>
    rintro x rest rfl
    exact listPopBack_spec hw
  case spliceSame =>
    rintro p r q u v before first last rfl huv hf hl hb
    exact listSplice_spec_same hw huv hf hl hb
  case spliceOther =>
    rintro B p r q u v before first last rfl hB hdisj hf hl hb
    exact listSplice_spec hw hB hdisj hf hl hb
  case insertOrdered =>
    intro elem fuel he hf hs
    obtain ⟨m', h, hw', hframe⟩ := listInsertOrdered_spec hw he less hf
    obtain ⟨u, v, hxs, hins, hu, hv⟩ := listInsertOrdered_split hless (x := elem) hs
    have hsorted := sortedBy_listInsertOrdered hless (x := elem) hs
    rw [hins] at hw' hsorted
    exact ⟨m', u, v, h, hxs, hw', hu, hv, hsorted, hframe⟩
  case unique =>
    intro duplicates D fuel hd hdisj hf
    have h := listUnique_spec hw hd hdisj less hf
    rw [listUnique_eq_splitBy hless xs] at h
    exact h

/-- A list of `Nat` cells with header `0`, tail `1` and elements `2`, `3`. -/
def twoCells : Mem Nat
  | 0 => ⟨none, some 2⟩
  | 1 => ⟨some 3, none⟩
  | 2 => ⟨some 0, some 3⟩
  | 3 => ⟨some 2, some 1⟩
  | _ => ⟨none, none⟩

theorem list_refines_sequences_twoCells :
    (IsStrictWeakOrder Nat fun a b => decide (a < b) = true) ∧ WellFormed twoCells ⟨0, 1⟩ [2, 3] ∧
      ∃ m', listReverse 3 twoCells ⟨0, 1⟩ = some m' ∧ WellFormed m' ⟨0, 1⟩ [3, 2] := by
  have hord : IsStrictWeakOrder Nat fun a b => decide (a < b) = true :=
    { irrefl := fun a => by simp
      trans := fun a b c hab hbc => by simp only [decide_eq_true_eq] at hab hbc ⊢; omega
      incomp_trans := fun a b c hab hbc => by simp only [decide_eq_true_eq] at hab hbc ⊢; omega }
  have hw : WellFormed twoCells ⟨0, 1⟩ [2, 3] :=
    ⟨rfl, rfl, by simp [List.isChain_cons_cons, Adj, twoCells]⟩
  obtain ⟨m', hrev, hw', -⟩ := (list_refines_sequences hord hw).2.2.2.2.2.2.2.2.1 3 (by decide)
  exact ⟨hord, hw, m', hrev, hw'⟩

end Refinement

end LinkedList

end Pintos
