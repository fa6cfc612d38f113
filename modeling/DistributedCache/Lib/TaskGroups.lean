import Mathlib.Data.List.Basic
import Mathlib.Tactic

/-!
# Groups of tasks

A group of tasks is started as a whole; its tasks settle one by one in any order, and the group is
released once all of them have. Groups are numbered in the order in which they are started.

* `TaskGroup`, with `TaskGroup.start`, `TaskGroup.settle` and `TaskGroup.release`;
* `unreleased`, `started`, `running`: how many groups have not been released, and how many have a
  task at all, or still running; `unreleased_start`, `running_set_settle` and so on: what a step
  does to these counts;
* `ReleasedAt`, and what a step does to it;
* `exists_step`: unless every group is released, some task can settle or some group be released;
  `work`: what is left to happen, and `work_set_lt`.
-/

namespace DistributedCache

universe u v

/-- A group: what it is about, all of its tasks, those that have not settled, and whether it has
been released. -/
structure TaskGroup (κ : Type u) (ι : Type v) where
  subject : κ
  tasks : List ι
  unsettled : List ι
  released : Bool
  nodup : tasks.Nodup
  sublist : unsettled.Sublist tasks
  settled_of_released : released = true → unsettled = []

namespace TaskGroup

variable {κ : Type u} {ι : Type v}

/-- A group none of whose tasks has settled. -/
def start (subject : κ) (tasks : List ι) (nodup : tasks.Nodup) : TaskGroup κ ι where
  subject := subject
  tasks := tasks
  unsettled := tasks
  released := false
  nodup := nodup
  sublist := List.Sublist.refl tasks
  settled_of_released h := absurd h Bool.false_ne_true

/-- The group once all of its tasks have settled. -/
def release (g : TaskGroup κ ι) (h : g.unsettled = []) : TaskGroup κ ι :=
  { g with
    released := true
    settled_of_released := fun _ => h }

/-- The group without one of its unsettled tasks. -/
def settle [DecidableEq ι] (g : TaskGroup κ ι) (i : ι) : TaskGroup κ ι :=
  { g with
    unsettled := g.unsettled.erase i
    sublist := List.erase_sublist.trans g.sublist
    settled_of_released := fun h => by rw [g.settled_of_released h, List.erase_nil] }

theorem nodup_unsettled (g : TaskGroup κ ι) : g.unsettled.Nodup := g.nodup.sublist g.sublist

/-! ### Counting -/

/-- Replacing an element, up to the order. -/
theorem perm_set {α : Type u} {l : List α} {k : ℕ} {a : α} (h : l[k]? = some a) :
    ∃ rest, l.Perm (a :: rest) ∧ ∀ a', (l.set k a').Perm (a' :: rest) := by
  obtain ⟨hlt, rfl⟩ := List.getElem?_eq_some_iff.1 h
  exact ⟨l.eraseIdx k, (List.getElem_cons_eraseIdx_perm hlt).symm,
    List.set_perm_cons_eraseIdx hlt⟩

theorem countP_set_add {α : Type u} {l : List α} {k : ℕ} {a : α} (h : l[k]? = some a)
    (p : α → Bool) (a' : α) :
    (l.set k a').countP p + (if p a = true then 1 else 0) =
      l.countP p + (if p a' = true then 1 else 0) := by
  obtain ⟨rest, hl, hset⟩ := perm_set h
  rw [hl.countP_eq, (hset a').countP_eq, List.countP_cons, List.countP_cons]
  omega

/-- How many groups have not been released. -/
def unreleased (gs : List (TaskGroup κ ι)) : ℕ := gs.countP fun g => !g.released

variable {gs : List (TaskGroup κ ι)} {g g' : TaskGroup κ ι} {number k : ℕ} {i j : ι}

theorem unreleased_start (subject : κ) {tasks : List ι} (hnodup : tasks.Nodup) :
    unreleased (gs ++ [start subject tasks hnodup]) = unreleased gs + 1 := by
  rw [unreleased, List.countP_append, List.countP_singleton]
  rfl

/-- A group that is released is one less. -/
theorem unreleased_set_release (h : gs[number]? = some g) (hopen : g.released = false)
    (hall : g.unsettled = []) :
    unreleased (gs.set number (g.release hall)) + 1 = unreleased gs := by
  have hset := countP_set_add h (fun g => !g.released) (g.release hall)
  rw [if_pos (by rw [hopen]; rfl), if_neg (by exact Bool.false_ne_true)] at hset
  exact hset

/-- The group with this number has been released. -/
def ReleasedAt (gs : List (TaskGroup κ ι)) (k : ℕ) : Prop :=
  ∃ g, gs[k]? = some g ∧ g.released = true

theorem releasedAt_start (subject : κ) {tasks : List ι} (hnodup : tasks.Nodup) :
    ReleasedAt (gs ++ [start subject tasks hnodup]) k ↔ ReleasedAt gs k := by
  constructor
  · rintro ⟨g, hg, hreleased⟩
    rw [List.getElem?_append] at hg
    split_ifs at hg with hk
    · exact ⟨g, hg, hreleased⟩
    · rw [List.mem_singleton.1 (List.mem_of_getElem? hg)] at hreleased
      cases hreleased
  · rintro ⟨g, hg, hreleased⟩
    exact ⟨g, List.getElem?_append_left (List.getElem?_eq_some_iff.1 hg).1 ▸ hg, hreleased⟩

theorem releasedAt_set (h : gs[number]? = some g) :
    ReleasedAt (gs.set number g') k ↔
      if k = number then g'.released = true else ReleasedAt gs k := by
  have hlt := (List.getElem?_eq_some_iff.1 h).1
  split_ifs with hk
  · subst hk
    simp [ReleasedAt, List.getElem?_set_self hlt]
  · rw [ReleasedAt, List.getElem?_set_ne (Ne.symm hk)]
    rfl

/-- **No group is stuck**: while one is unreleased, a task can settle or a group be released. -/
theorem exists_step (h : unreleased gs ≠ 0) : ∃ (number : ℕ) (g : TaskGroup κ ι),
    gs[number]? = some g ∧
      ((∃ i, i ∈ g.unsettled) ∨ g.released = false ∧ g.unsettled = []) := by
  obtain ⟨g, hb, hopen⟩ := List.countP_pos_iff.1 (Nat.pos_of_ne_zero h)
  obtain ⟨number, hnumber⟩ := List.mem_iff_getElem?.1 hb
  refine ⟨number, g, hnumber, ?_⟩
  cases hunsettled : g.unsettled with
  | nil => exact Or.inr ⟨by simpa using hopen, rfl⟩
  | cons i rest => exact Or.inl ⟨i, List.mem_cons_self⟩

/-- The tasks of a group that have yet to settle, and its release. -/
def left (g : TaskGroup κ ι) : ℕ := g.unsettled.length + if g.released then 0 else 1

/-- What is left to happen. -/
def work (gs : List (TaskGroup κ ι)) : ℕ := (gs.map left).sum

theorem work_set_lt (h : gs[number]? = some g) (hless : g'.left < g.left) :
    work (gs.set number g') < work gs := by
  obtain ⟨rest, hgs, hset⟩ := perm_set h
  rw [work, work, (hgs.map left).sum_eq, ((hset g').map left).sum_eq, List.map_cons, List.map_cons,
    List.sum_cons, List.sum_cons]
  omega

theorem left_release (hopen : g.released = false) (hall : g.unsettled = []) :
    (g.release hall).left < g.left := by
  simp [left, release, hall, hopen]

variable [DecidableEq ι]

theorem left_settle (hi : i ∈ g.unsettled) : (g.settle i).left < g.left := by
  have hlength : (g.unsettled.erase i).length < g.unsettled.length := by
    have hpos := List.length_pos_of_mem hi
    rw [List.length_erase_of_mem hi]
    omega
  exact Nat.add_lt_add_right hlength _

/-- In how many groups there is this task. -/
def started (gs : List (TaskGroup κ ι)) (i : ι) : ℕ := gs.countP fun g => decide (i ∈ g.tasks)

/-- In how many groups this task has not settled. -/
def running (gs : List (TaskGroup κ ι)) (i : ι) : ℕ := gs.countP fun g => decide (i ∈ g.unsettled)

theorem unreleased_set_settle (h : gs[number]? = some g) :
    unreleased (gs.set number (g.settle i)) = unreleased gs := by
  have hset := countP_set_add h (fun g => !g.released) (g.settle i)
  exact Nat.add_right_cancel hset

theorem started_start (subject : κ) {tasks : List ι} (hnodup : tasks.Nodup) :
    started (gs ++ [start subject tasks hnodup]) i = started gs i + if i ∈ tasks then 1 else 0 := by
  simp [started, start, List.countP_append, List.countP_singleton]

theorem running_start (subject : κ) {tasks : List ι} (hnodup : tasks.Nodup) :
    running (gs ++ [start subject tasks hnodup]) i = running gs i + if i ∈ tasks then 1 else 0 := by
  simp [running, start, List.countP_append, List.countP_singleton]

/-- A group keeps its tasks. -/
theorem started_set (h : gs[number]? = some g) (htasks : g'.tasks = g.tasks) :
    started (gs.set number g') i = started gs i := by
  have hset := countP_set_add h (fun g => decide (i ∈ g.tasks)) g'
  simp only [htasks] at hset
  exact Nat.add_right_cancel hset

theorem started_set_settle (h : gs[number]? = some g) :
    started (gs.set number (g.settle i)) j = started gs j :=
  started_set h rfl

theorem started_set_release (h : gs[number]? = some g) (hall : g.unsettled = []) :
    started (gs.set number (g.release hall)) i = started gs i :=
  started_set h rfl

/-- A task that settles is one less of its kind. -/
theorem running_set_settle (h : gs[number]? = some g) (hi : i ∈ g.unsettled) :
    running (gs.set number (g.settle i)) j + (if j = i then 1 else 0) = running gs j := by
  have hset := countP_set_add h (fun g => decide (j ∈ g.unsettled)) (g.settle i)
  simp only [decide_eq_true_eq] at hset
  by_cases hj : j = i
  · subst hj
    have hgone : j ∉ (g.settle j).unsettled := g.nodup_unsettled.not_mem_erase
    rw [if_pos hi, if_neg hgone] at hset
    rw [if_pos rfl]
    exact hset
  · have hsame : j ∈ (g.settle i).unsettled ↔ j ∈ g.unsettled := List.mem_erase_of_ne hj
    simp only [hsame] at hset
    rw [if_neg hj]
    exact Nat.add_right_cancel hset

theorem running_set_release (h : gs[number]? = some g) (hall : g.unsettled = []) :
    running (gs.set number (g.release hall)) i = running gs i := by
  have hset := countP_set_add h (fun g => decide (i ∈ g.unsettled)) (g.release hall)
  exact Nat.add_right_cancel hset

end TaskGroup

end DistributedCache
