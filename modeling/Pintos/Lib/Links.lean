import Mathlib.Data.List.Chain
import Mathlib.Data.List.Infix

/-!
# Doubly-linked chains in a memory

A memory gives every cell two links, `prev` and `next`, `none` standing for a null pointer.
`Adj m a b` says that `a` points to `b` by `next` and `b` back to `a` by `prev`; a list of cells
is a doubly-linked chain when `List.IsChain (Adj m)` holds of it.  Nothing here is specific to
one program.

* `setPrev`, `setNext`, `swapLinks` — one cell's links written; the simp lemmas read the links
  after the write.
* `isChain_frame` — a chain reads only the `next` links of its cells but the last and the `prev`
  links of its cells but the first, so writes elsewhere keep it.
* `nodup_of_isChain` — a chain from `a` to a cell `b` whose `next` is null passes each cell once,
  and `eq_of_isChain` — it is determined by its two ends.
* `foldl_swapLinks` — swapping the links of each cell of a list, one after the other;
  `isChain_reverse_foldl_swapLinks` — done along a chain, it gives the chain reversed.
-/

set_option autoImplicit false

/-- The two links of a cell; `none` is a null pointer. -/
@[ext] structure Link (ε : Type) where
  prev : Option ε
  next : Option ε

/-- The links of every cell. -/
abbrev Mem (ε : Type) := ε → Link ε

namespace Mem

variable {ε : Type}

/-- `a` points to `b` by `next`, and `b` back to `a` by `prev`. -/
def Adj (m : Mem ε) (a b : ε) : Prop := (m a).next = some b ∧ (m b).prev = some a

variable [DecidableEq ε]

/-- `e->prev = p`. -/
def setPrev (m : Mem ε) (e : ε) (p : Option ε) : Mem ε :=
  Function.update m e { m e with prev := p }

/-- `e->next = n`. -/
def setNext (m : Mem ε) (e : ε) (n : Option ε) : Mem ε :=
  Function.update m e { m e with next := n }

/-- `swap (&e->prev, &e->next)`. -/
def swapLinks (m : Mem ε) (e : ε) : Mem ε :=
  Function.update m e ⟨(m e).next, (m e).prev⟩

/-- `p->next = q; q->prev = p`: what lay between `p` and `q` is cut out. -/
def joinLinks (m : Mem ε) (p q : ε) : Mem ε := (m.setNext p (some q)).setPrev q (some p)

/-- `f->prev = p; g->next = q; p->next = f; q->prev = g`: the cells from `f` to `g` go in between
`p` and `q`. -/
def spliceLinks (m : Mem ε) (p f g q : ε) : Mem ε :=
  (((m.setPrev f (some p)).setNext g (some q)).setNext p (some f)).setPrev q (some g)

section Writes

variable (m : Mem ε) (e x : ε)

@[simp] theorem setPrev_prev (p : Option ε) :
    (m.setPrev e p x).prev = if x = e then p else (m x).prev := by
  by_cases h : x = e
  · subst h
    simp [setPrev]
  · simp [setPrev, h]

@[simp] theorem setPrev_next (p : Option ε) : (m.setPrev e p x).next = (m x).next := by
  by_cases h : x = e
  · subst h
    simp [setPrev]
  · simp [setPrev, Function.update_of_ne h]

@[simp] theorem setNext_next (n : Option ε) :
    (m.setNext e n x).next = if x = e then n else (m x).next := by
  by_cases h : x = e
  · subst h
    simp [setNext]
  · simp [setNext, h]

@[simp] theorem setNext_prev (n : Option ε) : (m.setNext e n x).prev = (m x).prev := by
  by_cases h : x = e
  · subst h
    simp [setNext]
  · simp [setNext, Function.update_of_ne h]

@[simp] theorem swapLinks_prev :
    (m.swapLinks e x).prev = if x = e then (m x).next else (m x).prev := by
  by_cases h : x = e
  · subst h
    simp [swapLinks]
  · simp [swapLinks, h]

@[simp] theorem swapLinks_next :
    (m.swapLinks e x).next = if x = e then (m x).prev else (m x).next := by
  by_cases h : x = e
  · subst h
    simp [swapLinks]
  · simp [swapLinks, h]

theorem swapLinks_of_ne {e x : ε} (h : x ≠ e) : m.swapLinks e x = m x :=
  Function.update_of_ne h _ _

theorem joinLinks_of_ne {p q x : ε} (hp : x ≠ p) (hq : x ≠ q) : m.joinLinks p q x = m x := by
  ext <;> simp [joinLinks, hp, hq]

theorem spliceLinks_of_ne {p f g q x : ε} (hp : x ≠ p) (hf : x ≠ f) (hg : x ≠ g) (hq : x ≠ q) :
    m.spliceLinks p f g q x = m x := by
  ext <;> simp [spliceLinks, hp, hf, hg, hq]

end Writes

/-- Swapping the links of the cells of `xs` in turn swaps each of them once. -/
theorem foldl_swapLinks : ∀ (xs : List ε) (m : Mem ε), xs.Nodup → ∀ x,
    xs.foldl swapLinks m x = if x ∈ xs then ⟨(m x).next, (m x).prev⟩ else m x
  | [], m, _, x => by simp
  | y :: xs, m, hnd, x => by
    rw [List.foldl_cons, foldl_swapLinks xs _ (List.nodup_cons.mp hnd).2]
    by_cases hx : x ∈ xs
    · -- `y` is not among the later cells, so `x ≠ y`
      have hxy : x ≠ y := fun h => (List.nodup_cons.mp hnd).1 (h ▸ hx)
      simp [hx, swapLinks_of_ne m hxy]
    · by_cases hxy : x = y
      · subst hxy
        simp [swapLinks, hx]
      · simp [hx, hxy, swapLinks_of_ne m hxy]

/-- Swapping the links of every cell of a chain gives the chain reversed. -/
theorem isChain_reverse_foldl_swapLinks {m : Mem ε} {c : List ε} (h : c.IsChain (Adj m))
    (hnd : c.Nodup) : c.reverse.IsChain (Adj (c.foldl swapLinks m)) := by
  rw [List.isChain_reverse]
  refine h.imp_of_mem_imp fun a b ha hb hab => ?_
  rw [Adj, foldl_swapLinks c m hnd, foldl_swapLinks c m hnd, if_pos ha, if_pos hb]
  exact ⟨hab.2, hab.1⟩

omit [DecidableEq ε]

variable {m m' : Mem ε}

/-- A chain reads the `next` links of its cells but the last and the `prev` links of its cells
but the first. -/
theorem isChain_frame {c : List ε} (h : c.IsChain (Adj m))
    (hnext : ∀ x ∈ c.dropLast, (m' x).next = (m x).next)
    (hprev : ∀ x ∈ c.tail, (m' x).prev = (m x).prev) : c.IsChain (Adj m') := by
  induction h with
  | nil => exact .nil
  | singleton a => exact .singleton a
  | @cons_cons a b l hab _ ih =>
    refine .cons_cons ⟨?_, ?_⟩ (ih (fun x hx => hnext x ?_) (fun x hx => hprev x ?_))
    · rw [hnext a (by simp)]
      exact hab.1
    · rw [hprev b (by simp)]
      exact hab.2
    · rw [List.dropLast_cons_cons]
      exact List.mem_cons_of_mem a hx
    · exact List.mem_of_mem_tail hx

/-- `b` is `k` steps along `next` from `a`. -/
def Reaches (m : Mem ε) : ε → Nat → ε → Prop
  | a, 0, b => a = b
  | a, k + 1, b => ∃ c, (m a).next = some c ∧ Reaches m c k b

/-- A cell whose `next` is null is reached in one number of steps only. -/
theorem Reaches.unique {b : ε} (hb : (m b).next = none) :
    ∀ {a : ε} {k k' : Nat}, Reaches m a k b → Reaches m a k' b → k = k'
  | _, 0, 0, _, _ => rfl
  | _, 0, _ + 1, rfl, ⟨_, hc, _⟩ => by rw [hb] at hc; cases hc
  | _, _ + 1, 0, ⟨_, hc, _⟩, rfl => by rw [hb] at hc; cases hc
  | _, _ + 1, _ + 1, ⟨c, hc, h⟩, ⟨c', hc', h'⟩ => by
    rw [hc] at hc'
    cases hc'
    rw [Reaches.unique hb h h']

theorem reaches_of_isChain {b : ε} :
    ∀ {a : ε} {xs : List ε}, (a :: xs ++ [b]).IsChain (Adj m) → Reaches m a (xs.length + 1) b
  | a, [], h => ⟨b, (List.isChain_pair.mp h).1, rfl⟩
  | a, x :: xs, h => by
    simp only [List.cons_append, List.isChain_cons_cons] at h
    exact ⟨x, h.1.1, reaches_of_isChain h.2⟩

theorem reaches_of_mem {b : ε} :
    ∀ {a : ε} {xs : List ε}, (a :: xs ++ [b]).IsChain (Adj m) → ∀ {y : ε}, y ∈ xs ++ [b] →
      ∃ k ≤ xs.length, Reaches m y k b
  | a, [], _, y, hy => ⟨0, le_refl 0, List.mem_singleton.mp hy⟩
  | a, x :: xs, h, y, hy => by
    simp only [List.cons_append, List.isChain_cons_cons] at h
    rcases List.mem_cons.mp hy with rfl | hy
    · exact ⟨xs.length + 1, le_refl _, reaches_of_isChain h.2⟩
    · obtain ⟨k, hk, hr⟩ := reaches_of_mem h.2 hy
      exact ⟨k, Nat.le_succ_of_le hk, hr⟩

/-- Every cell of a chain but the first has a `prev` link. -/
theorem prev_isSome_of_isChain : ∀ {a : ε} {ys : List ε}, (a :: ys).IsChain (Adj m) →
    ∀ y ∈ ys, ((m y).prev).isSome
  | _, [], _, _, hy => absurd hy List.not_mem_nil
  | a, z :: ys, h, y, hy => by
    rw [List.isChain_cons_cons] at h
    rcases List.mem_cons.mp hy with rfl | hy
    · rw [h.1.2]
      rfl
    · exact prev_isSome_of_isChain h.2 y hy

/-- Every cell of a chain but the last has a `next` link. -/
theorem next_isSome_of_isChain {b : ε} : ∀ {ys : List ε}, (ys ++ [b]).IsChain (Adj m) →
    ∀ y ∈ ys, ((m y).next).isSome
  | [], _, _, hy => absurd hy List.not_mem_nil
  | z :: ys, h, y, hy => by
    obtain ⟨w, t, hwt⟩ : ∃ w t, ys ++ [b] = w :: t := by
      cases ys with
      | nil => exact ⟨b, [], rfl⟩
      | cons w ys => exact ⟨w, ys ++ [b], rfl⟩
    rw [List.cons_append, hwt, List.isChain_cons_cons] at h
    rcases List.mem_cons.mp hy with rfl | hy
    · rw [h.1.1]
      rfl
    · exact next_isSome_of_isChain (hwt ▸ h.2) y hy

/-- The first cell of a chain ending in a null `next` does not come back. -/
theorem not_mem_of_isChain {a b : ε} {xs : List ε} (h : (a :: xs ++ [b]).IsChain (Adj m))
    (hb : (m b).next = none) : a ∉ xs ++ [b] := by
  intro ha
  obtain ⟨k, hk, hr⟩ := reaches_of_mem h ha
  have := Reaches.unique hb (reaches_of_isChain h) hr
  omega

/-- A chain ending in a cell whose `next` is null passes each cell once. -/
theorem nodup_of_isChain {b : ε} (hb : (m b).next = none) :
    ∀ {a : ε} {xs : List ε}, (a :: xs ++ [b]).IsChain (Adj m) → (a :: xs ++ [b]).Nodup
  | a, [], h => by
    have := not_mem_of_isChain h hb
    simp_all
  | a, x :: xs, h => by
    refine List.nodup_cons.mpr ⟨not_mem_of_isChain h hb, ?_⟩
    simp only [List.cons_append, List.isChain_cons_cons] at h
    exact nodup_of_isChain hb h.2

/-- The cells between two ends are determined by the links. -/
theorem eq_of_isChain {b : ε} (hb : (m b).next = none) :
    ∀ {a : ε} {xs ys : List ε}, (a :: xs ++ [b]).IsChain (Adj m) →
      (a :: ys ++ [b]).IsChain (Adj m) → xs = ys
  | _, [], [], _, _ => rfl
  | _, [], y :: ys, h, h' => by
    simp only [List.cons_append, List.isChain_cons_cons] at h'
    have hy : y = b := Option.some.inj (h'.1.1.symm.trans (List.isChain_pair.mp h).1)
    subst hy
    exact absurd (List.mem_append_right ys (List.mem_singleton_self y)) (not_mem_of_isChain h'.2 hb)
  | _, x :: xs, [], h, h' => by
    simp only [List.cons_append, List.isChain_cons_cons] at h
    have hx : x = b := Option.some.inj (h.1.1.symm.trans (List.isChain_pair.mp h').1)
    subst hx
    exact absurd (List.mem_append_right xs (List.mem_singleton_self x)) (not_mem_of_isChain h.2 hb)
  | _, x :: xs, y :: ys, h, h' => by
    simp only [List.cons_append, List.isChain_cons_cons] at h h'
    have hxy : x = y := Option.some.inj (h.1.1.symm.trans h'.1.1)
    subst hxy
    rw [eq_of_isChain hb h.2 h'.2]

/-! ## Relinking -/

section Relink

/-- Taking the cells `b` out from between `p` and `q`: once `p` and `q` point to each other, with
no other link changed, what remains is a chain, and so is `b`. -/
theorem isChain_unlink {c₁ b c₂ : List ε} {p q : ε}
    (h : (c₁ ++ p :: (b ++ q :: c₂)).IsChain (Adj m)) (hnd : (c₁ ++ p :: (b ++ q :: c₂)).Nodup)
    (hpq : Adj m' p q) (hnext : ∀ x, x ≠ p → (m' x).next = (m x).next)
    (hprev : ∀ x, x ≠ q → (m' x).prev = (m x).prev) :
    (c₁ ++ p :: q :: c₂).IsChain (Adj m') ∧ b.IsChain (Adj m') := by
  obtain ⟨hl, h⟩ := List.isChain_split.mp h
  obtain ⟨hb, hr⟩ := List.isChain_split.mp (show ((p :: b) ++ q :: c₂).IsChain (Adj m) from h)
  refine ⟨List.isChain_append_cons_cons.mpr ⟨?_, hpq, ?_⟩, ?_⟩
  · -- the cells up to `p`
    refine isChain_frame hl (fun x hx => hnext x ?_) (fun x hx => hprev x ?_)
    · rw [List.dropLast_concat] at hx
      grind
    · have := List.mem_of_mem_tail hx
      grind
  · -- the cells from `q`
    refine isChain_frame hr (fun x hx => hnext x ?_) (fun x hx => hprev x ?_)
    · have := List.mem_of_mem_dropLast hx
      grind
    · rw [List.tail_cons] at hx
      grind
  · have hb' : b.IsChain (Adj m) := hb.infix ⟨[p], [q], by simp⟩
    refine isChain_frame hb' (fun x hx => hnext x ?_) (fun x hx => hprev x ?_)
    · have := List.mem_of_mem_dropLast hx
      grind
    · have := List.mem_of_mem_tail hx
      grind

/-- Putting a chain `b`, from `f` to `l`, in between `p` and `q`: once `p`, `f` and `l`, `q` point
to each other, with no other link changed, the whole is a chain. -/
theorem isChain_link {c₁ b c₂ : List ε} {p q f l : ε} (hf : b.head? = some f)
    (hl : b.getLast? = some l) (hl' : (c₁ ++ [p]).IsChain (Adj m)) (hr : (q :: c₂).IsChain (Adj m))
    (hb : b.IsChain (Adj m)) (hnd : (c₁ ++ p :: (b ++ q :: c₂)).Nodup)
    (hpf : Adj m' p f) (hlq : Adj m' l q)
    (hnext : ∀ x, x ≠ p → x ≠ l → (m' x).next = (m x).next)
    (hprev : ∀ x, x ≠ f → x ≠ q → (m' x).prev = (m x).prev) :
    (c₁ ++ p :: (b ++ q :: c₂)).IsChain (Adj m') := by
  have hfb : f ∈ b := List.mem_of_mem_head? hf
  have hlb : l ∈ b := List.mem_of_mem_getLast? hl
  rw [show c₁ ++ p :: (b ++ q :: c₂) = (c₁ ++ [p]) ++ (b ++ q :: c₂) by simp]
  refine List.IsChain.append ?_ (List.IsChain.append ?_ ?_ ?_) ?_
  · -- the cells up to `p`
    refine isChain_frame hl' (fun x hx => hnext x ?_ ?_) (fun x hx => hprev x ?_ ?_)
    all_goals first
      | (rw [List.dropLast_concat] at hx; grind)
      | (have hmem := List.mem_of_mem_tail hx; grind)
  · -- the cells of `b`
    refine isChain_frame hb (fun x hx => hnext x ?_ ?_) (fun x hx => hprev x ?_ ?_)
    · have := List.mem_of_mem_dropLast hx
      grind
    · -- the last cell of `b` is not among the ones before it
      intro hxl
      subst hxl
      obtain ⟨b', rfl⟩ : ∃ b', b = b' ++ [x] := ⟨b.dropLast,
        (List.dropLast_append_getLast (List.ne_nil_of_mem hlb)).symm.trans (by
          rw [List.getLast?_eq_some_getLast (List.ne_nil_of_mem hlb)] at hl
          rw [Option.some.inj hl])⟩
      rw [List.dropLast_concat] at hx
      grind
    · intro hxf
      subst hxf
      obtain ⟨b', rfl⟩ : ∃ b', b = x :: b' := by
        cases b with
        | nil => exact absurd hfb List.not_mem_nil
        | cons y b' =>
          rw [List.head?_cons, Option.some.inj hf] at *
          exact ⟨b', rfl⟩
      rw [List.tail_cons] at hx
      grind
    · have := List.mem_of_mem_tail hx
      grind
  · -- the cells from `q`
    refine isChain_frame hr (fun x hx => hnext x ?_ ?_) (fun x hx => hprev x ?_ ?_)
    all_goals first
      | (have hmem := List.mem_of_mem_dropLast hx; grind)
      | (rw [List.tail_cons] at hx; grind)
  · intro x hx y hy
    rw [hl, Option.mem_some_iff] at hx
    rw [List.head?_cons, Option.mem_some_iff] at hy
    subst hx hy
    exact hlq
  · intro x hx y hy
    rw [List.getLast?_concat, Option.mem_some_iff] at hx
    rw [List.head?_append_of_ne_nil _ (List.ne_nil_of_mem hfb), hf, Option.mem_some_iff] at hy
    subst hx hy
    exact hpf

end Relink

/-! ### The two relinkings -/

variable [DecidableEq ε]

/-- `joinLinks` cuts the cells `b` out of a chain, which stay a chain. -/
theorem isChain_joinLinks {c₁ b c₂ : List ε} {p q : ε}
    (h : (c₁ ++ p :: (b ++ q :: c₂)).IsChain (Adj m)) (hnd : (c₁ ++ p :: (b ++ q :: c₂)).Nodup) :
    (c₁ ++ p :: q :: c₂).IsChain (Adj (m.joinLinks p q)) ∧ b.IsChain (Adj (m.joinLinks p q)) := by
  refine isChain_unlink h hnd ⟨by simp [joinLinks], by simp [joinLinks]⟩ ?_ ?_
  · intro x hx
    simp [joinLinks, hx]
  · intro x hx
    simp [joinLinks, hx]

/-- `spliceLinks` puts a chain `b` from `f` to `g` in between two consecutive cells. -/
theorem isChain_spliceLinks {c₁ b c₂ : List ε} {p q f g : ε} (hf : b.head? = some f)
    (hg : b.getLast? = some g) (h : (c₁ ++ p :: q :: c₂).IsChain (Adj m))
    (hb : b.IsChain (Adj m)) (hnd : (c₁ ++ p :: (b ++ q :: c₂)).Nodup) :
    (c₁ ++ p :: (b ++ q :: c₂)).IsChain (Adj (m.spliceLinks p f g q)) := by
  have hfb : f ∈ b := List.mem_of_mem_head? hf
  have hgb : g ∈ b := List.mem_of_mem_getLast? hg
  have hpf : p ≠ f := by grind
  have hpg : p ≠ g := by grind
  have hqf : q ≠ f := by grind
  have hqg : q ≠ g := by grind
  obtain ⟨hl, -, hr⟩ := List.isChain_append_cons_cons.mp h
  refine isChain_link hf hg hl hr hb hnd ?_ ?_ ?_ ?_
  · exact ⟨by simp [spliceLinks], by simp [spliceLinks, hqf.symm]⟩
  · exact ⟨by simp [spliceLinks, hpg.symm], by simp [spliceLinks]⟩
  · intro x hxp hxg
    simp [spliceLinks, hxp, hxg]
  · intro x hxf hxq
    simp [spliceLinks, hxf, hxq]

end Mem
