import Mathlib.Data.List.Basic
import Mathlib.Tactic

/-!
# Sublists with few gaps

`ShortBy d l l'` says that `l` is `l'` with at most `d` elements left out. Filtering both lists,
erasing an element from both and putting one in front of both keep this, and so does cutting `l` down
to `a` elements while `l'` is cut down to `a + d` (`ShortBy.take`).
-/

namespace DistributedCache

variable {α : Type*}

/-- `l` is `l'` with at most `d` elements left out. -/
structure ShortBy (d : ℕ) (l l' : List α) : Prop where
  sublist : l.Sublist l'
  length_le : l'.length ≤ l.length + d

namespace ShortBy

variable {d : ℕ} {l l' : List α}

theorem refl (d : ℕ) (l : List α) : ShortBy d l l := ⟨List.Sublist.refl l, Nat.le_add_right _ d⟩

theorem cons (h : ShortBy d l l') (a : α) : ShortBy d (a :: l) (a :: l') where
  sublist := h.sublist.cons_cons a
  length_le := by
    have := h.length_le
    simp only [List.length_cons]
    omega

/-- A filter drops no more from the sublist than from the list. -/
theorem length_filter_add_le (h : l.Sublist l') (p : α → Bool) :
    (l'.filter p).length + l.length ≤ (l.filter p).length + l'.length := by
  induction h with
  | slnil => exact le_rfl
  | cons a _ ih =>
    have := List.length_filter_le p [a]
    simp only [List.filter_cons, List.length_cons]
    split_ifs
    · rw [List.length_cons]
      omega
    · omega
  | cons_cons a _ ih =>
    simp only [List.filter_cons, List.length_cons]
    split_ifs
    · simp only [List.length_cons]
      omega
    · omega

theorem filter (h : ShortBy d l l') (p : α → Bool) : ShortBy d (l.filter p) (l'.filter p) where
  sublist := h.sublist.filter p
  length_le := by
    have hdrop := length_filter_add_le h.sublist p
    have := h.length_le
    omega

theorem erase [DecidableEq α] (h : ShortBy d l l') (a : α) :
    ShortBy d (l.erase a) (l'.erase a) where
  sublist := h.sublist.erase a
  length_le := by
    have hle := h.length_le
    by_cases ha : a ∈ l
    · rw [List.length_erase_of_mem ha, List.length_erase_of_mem (h.sublist.subset ha)]
      have := List.length_pos_of_mem ha
      omega
    · rw [List.erase_of_not_mem ha]
      exact List.length_erase_le.trans hle

/-- **Cuts of lengths `d` apart keep the gap**: what the longer list loses at its end, the shorter
one does not hold or loses too. -/
theorem take (h : ShortBy d l l') (a : ℕ) : ShortBy d (l.take a) (l'.take (a + d)) where
  sublist := by
    -- split the list where the kept part of the sublist ends
    obtain ⟨m, n, rfl, hm, hn⟩ := List.append_sublist_iff.1
      ((List.take_append_drop a l).symm ▸ h.sublist)
    have hle := h.length_le
    have hdrop := hn.length_le
    rw [List.length_append] at hle
    rw [List.length_drop] at hdrop
    exact hm.trans (List.prefix_take_iff.2 ⟨List.prefix_append m n, by omega⟩).sublist
  length_le := by
    have := h.length_le
    simp only [List.length_take]
    omega

end ShortBy

end DistributedCache
