import Mathlib.Data.List.Basic
import Mathlib.Tactic

/-!
# Doubly linked cells

Cells live in a heap and are known by reference, the position at which they were allocated. Each has
the references of its two neighbours. A chain of cells is listed by reference and key.

* `Linked h p cells n`: the cells are linked in both directions, between the neighbours `p` and `n`;
* `linked_append`, and what writing one link does to a chain (`Linked.setPrev`, `Linked.setNext`);
* `Path h link start cells`: following one link from `start` visits the cells and ends;
  `Linked.path_next`, `Linked.path_prev`.
-/

namespace DistributedCache

universe u

/-- A cell: its key and its two links. -/
structure Cell (α : Type u) where
  key : α
  prev : Option ℕ
  next : Option ℕ
  deriving DecidableEq, Repr

namespace Cell

variable {α : Type u}

/-- The reference of the first cell, or what comes after the chain. -/
def firstRef (cells : List (ℕ × α)) (n : Option ℕ) : Option ℕ :=
  match cells with
  | [] => n
  | c :: _ => some c.1

/-- The reference of the last cell, or what comes before the chain. -/
def lastRef (p : Option ℕ) : List (ℕ × α) → Option ℕ
  | [] => p
  | c :: cells => lastRef (some c.1) cells

/-- The cells are linked to each other, the first one back to `p` and the last one on to `n`. -/
def Linked (h : List (Cell α)) (p : Option ℕ) : List (ℕ × α) → Option ℕ → Prop
  | [], _ => True
  | c :: cells, n => h[c.1]? = some ⟨c.2, p, firstRef cells n⟩ ∧ Linked h (some c.1) cells n

/-- Following `link` from `start` visits the cells and ends. -/
inductive Path (h : List (Cell α)) (link : Cell α → Option ℕ) : Option ℕ → List (ℕ × α) → Prop
  | nil : Path h link none []
  | cons {r : ℕ} {cell : Cell α} {cells : List (ℕ × α)} (read : h[r]? = some cell)
      (rest : Path h link (link cell) cells) : Path h link (some r) ((r, cell.key) :: cells)

/-- Write the `prev` link of a cell, if there is one. -/
def setPrev (h : List (Cell α)) (r q : Option ℕ) : List (Cell α) :=
  match r with
  | none => h
  | some r => h.modify r fun cell => { cell with prev := q }

/-- Write the `next` link of a cell, if there is one. -/
def setNext (h : List (Cell α)) (r q : Option ℕ) : List (Cell α) :=
  match r with
  | none => h
  | some r => h.modify r fun cell => { cell with next := q }

variable {h : List (Cell α)} {p n q : Option ℕ} {cells cells' : List (ℕ × α)} {c : ℕ × α} {r : ℕ}

@[simp] theorem lastRef_append (p : Option ℕ) (cells cells' : List (ℕ × α)) :
    lastRef p (cells ++ cells') = lastRef (lastRef p cells) cells' := by
  induction cells generalizing p with
  | nil => rfl
  | cons c cells ih => exact ih (some c.1)

theorem firstRef_append (cells cells' : List (ℕ × α)) (n : Option ℕ) :
    firstRef (cells ++ cells') n = firstRef cells (firstRef cells' n) := by
  cases cells <;> rfl

theorem lastRef_eq_or (p : Option ℕ) (cells : List (ℕ × α)) :
    lastRef p cells = (lastRef none cells).or p := by
  induction cells generalizing p with
  | nil => rfl
  | cons c cells ih =>
    show lastRef (some c.1) cells = (lastRef (some c.1) cells).or p
    rw [ih, Option.or_assoc, Option.some_or]

theorem lastRef_cons_ne_none (p : Option ℕ) (c : ℕ × α) (cells : List (ℕ × α)) :
    lastRef p (c :: cells) ≠ none := by
  rw [lastRef, lastRef_eq_or]
  cases lastRef none cells <;> exact Option.some_ne_none _

theorem mem_of_firstRef (h : firstRef cells none = some r) : r ∈ cells.map Prod.fst := by
  cases cells with
  | nil => cases h
  | cons c cells =>
    cases h
    exact List.mem_cons_self

theorem mem_of_lastRef (h : lastRef none cells = some r) : r ∈ cells.map Prod.fst := by
  rcases List.eq_nil_or_concat' cells with rfl | ⟨init, c, rfl⟩
  · cases h
  · rw [lastRef_append] at h
    cases h
    rw [List.map_append]
    exact List.mem_append_right _ List.mem_cons_self

/-- **A chain of two parts**: each part ends where the other begins. -/
theorem linked_append : Linked h p (cells ++ cells') n ↔
    Linked h p cells (firstRef cells' n) ∧ Linked h (lastRef p cells) cells' n := by
  induction cells generalizing p with
  | nil => exact ⟨fun hl => ⟨trivial, hl⟩, fun hl => hl.2⟩
  | cons c cells ih =>
    rw [List.cons_append, Linked, Linked, firstRef_append, ih, lastRef, and_assoc]

/-- A cell of the chain has its key. -/
theorem Linked.read (hl : Linked h p cells n) (hc : c ∈ cells) :
    ∃ prev next, h[c.1]? = some ⟨c.2, prev, next⟩ := by
  induction cells generalizing p with
  | nil => cases hc
  | cons d cells ih =>
    rcases List.mem_cons.1 hc with rfl | hc
    · exact ⟨_, _, hl.1⟩
    · exact ih hl.2 hc

/-- Cells with different keys have different references. -/
theorem Linked.nodup_refs (hl : Linked h p cells n) (hkeys : (cells.map Prod.snd).Nodup) :
    (cells.map Prod.fst).Nodup := by
  refine List.pairwise_map.2 ((List.pairwise_map.1 hkeys).imp_of_mem ?_)
  intro c d hc hd hne heq
  obtain ⟨prev, next, hread⟩ := hl.read hc
  obtain ⟨prev', next', hread'⟩ := hl.read hd
  rw [heq, hread'] at hread
  exact hne (congrArg Cell.key (Option.some.inj hread)).symm

/-- The references of a chain have been allocated. -/
theorem Linked.ref_lt (hl : Linked h p cells n) (hr : r ∈ cells.map Prod.fst) : r < h.length := by
  obtain ⟨c, hc, rfl⟩ := List.mem_map.1 hr
  obtain ⟨prev, next, hread⟩ := hl.read hc
  exact (List.getElem?_eq_some_iff.1 hread).1

/-! ### Writing to the heap -/

/-- Two heaps that agree on the cells of a chain have it both. -/
theorem Linked.congr {h' : List (Cell α)} (hl : Linked h p cells n)
    (hsame : ∀ r ∈ cells.map Prod.fst, h'[r]? = h[r]?) : Linked h' p cells n := by
  induction cells generalizing p with
  | nil => trivial
  | cons c cells ih =>
    exact ⟨(hsame c.1 List.mem_cons_self).trans hl.1,
      ih hl.2 fun r hr => hsame r (List.mem_cons_of_mem _ hr)⟩

/-- A write elsewhere. -/
theorem Linked.modify (hl : Linked h p cells n) (hr : r ∉ cells.map Prod.fst)
    (f : Cell α → Cell α) : Linked (h.modify r f) p cells n :=
  hl.congr fun _ hr' => List.getElem?_modify_ne f h fun heq => hr (heq ▸ hr')

/-- An allocation. -/
theorem Linked.alloc (hl : Linked h p cells n) (cell : Cell α) : Linked (h ++ [cell]) p cells n :=
  hl.congr fun _ hr => List.getElem?_append_left (hl.ref_lt hr)

theorem read_modify {cell : Cell α} (hread : h[r]? = some cell) (f : Cell α → Cell α) :
    (h.modify r f)[r]? = some (f cell) := by
  rw [List.getElem?_modify_eq, hread]
  rfl

theorem getElem?_setPrev_of_ne (hne : p ≠ some r) (q : Option ℕ) : (setPrev h p q)[r]? = h[r]? := by
  cases p with
  | none => rfl
  | some p => exact List.getElem?_modify_ne _ h fun heq => hne (congrArg some heq)

theorem getElem?_setNext_of_ne (hne : p ≠ some r) (q : Option ℕ) : (setNext h p q)[r]? = h[r]? := by
  cases p with
  | none => rfl
  | some p => exact List.getElem?_modify_ne _ h fun heq => hne (congrArg some heq)

/-- Linking the first cell back to something else. -/
theorem Linked.setPrev (hl : Linked h p cells n) (hrefs : (cells.map Prod.fst).Nodup)
    (q : Option ℕ) : Linked (setPrev h (firstRef cells none) q) q cells n := by
  cases cells with
  | nil => trivial
  | cons c cells =>
    rw [List.map_cons, List.nodup_cons] at hrefs
    exact ⟨read_modify hl.1 _, hl.2.modify hrefs.1 _⟩

/-- Linking the last cell on to something else. -/
theorem Linked.setNext (hl : Linked h p cells n) (hrefs : (cells.map Prod.fst).Nodup)
    (q : Option ℕ) : Linked (setNext h (lastRef none cells) q) p cells q := by
  rcases List.eq_nil_or_concat' cells with rfl | ⟨init, c, rfl⟩
  · trivial
  · rw [List.map_append, List.map_cons, List.map_nil, List.nodup_append] at hrefs
    have hinit : c.1 ∉ init.map Prod.fst := fun hmem =>
      hrefs.2.2 c.1 hmem c.1 List.mem_cons_self rfl
    obtain ⟨hl, hlast⟩ := linked_append.1 hl
    rw [lastRef_append]
    exact linked_append.2 ⟨hl.modify hinit _, read_modify hlast.1 _, trivial⟩

/-! ### Following the links -/

/-- Forward along the chain. -/
theorem Linked.path_next (hl : Linked h p cells none) :
    Path h Cell.next (firstRef cells none) cells := by
  induction cells generalizing p with
  | nil => exact .nil
  | cons c cells ih => exact .cons hl.1 (ih hl.2)

/-- Backward along the chain. -/
theorem Linked.path_prev (hl : Linked h none cells n) :
    Path h Cell.prev (lastRef none cells) cells.reverse := by
  induction cells using List.reverseRecOn generalizing n with
  | nil => exact .nil
  | append_singleton init c ih =>
    obtain ⟨hinit, hlast⟩ := linked_append.1 hl
    rw [lastRef_append, List.reverse_append]
    exact .cons hlast.1 (ih hinit)

end Cell

end DistributedCache
