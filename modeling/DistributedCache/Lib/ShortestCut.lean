import Mathlib.Data.List.Basic
import Mathlib.Tactic

/-!
# Shortest suffixes

`ShortestCut fits l kept cut` says that `l` splits into `kept ++ cut` where `cut` is the shortest
suffix of `l` whose removal leaves a list that fits. A loop that drops last elements one at a time
finds it (`ShortestCut.of_steps`), and so do two such loops in a row when the first requirement,
once met, stays met for every initial segment (`ShortestCut.trans`).
-/

namespace DistributedCache

variable {α : Type*}

/-- `cut` is the shortest suffix of `l` whose removal leaves a list that fits. -/
structure ShortestCut (fits : List α → Prop) (l kept cut : List α) : Prop where
  split : l = kept ++ cut
  fitting : fits kept
  shortest : ∀ kept' cut', l = kept' ++ cut' → fits kept' → cut.length ≤ cut'.length

namespace ShortestCut

variable {fits fits' : List α → Prop} {l kept cut kept' cut' : List α}

/-- Every list that still held a dropped element did not fit. -/
def Needed (fits : List α → Prop) (kept cut : List α) : Prop :=
  ∀ mid rest, cut = mid ++ rest → mid ≠ [] → ¬ fits (kept ++ mid)

theorem of_steps (hl : l = kept ++ cut) (hfits : fits kept) (h : Needed fits kept cut) :
    ShortestCut fits l kept cut where
  split := hl
  fitting := hfits
  shortest := by
    intro kept' cut' hl' hfits'
    by_contra hlt
    rw [hl] at hl'
    obtain ⟨mid, rfl, rfl⟩ | ⟨mid, rfl, rfl⟩ := List.append_eq_append_iff.1 hl'
    · refine h mid cut' rfl ?_ hfits'
      rintro rfl
      simp at hlt
    · simp at hlt

theorem needed_nil : Needed fits kept [] := by
  intro mid rest h hmid
  exact absurd (List.append_eq_nil_iff.1 h.symm).1 hmid

/-- Dropping for `fits` and then for `fits'` drops nothing that both together could have kept. -/
theorem Needed.trans (h : Needed fits (kept' ++ cut') cut) (h' : Needed fits' kept' cut') :
    Needed (fun l => fits l ∧ fits' l) kept' (cut' ++ cut) := by
  rintro mid rest hsplit hmid ⟨hf, hf'⟩
  obtain ⟨as, rfl, rfl⟩ | ⟨as, rfl, rfl⟩ := List.append_eq_append_iff.1 hsplit
  · -- the dropped part reaches into the first cut
    by_cases has : as = []
    · subst has
      rw [List.append_nil] at hmid hf'
      exact h' cut' [] (List.append_nil _).symm hmid hf'
    · exact h as rest rfl has (by rwa [List.append_assoc])
  · exact h' mid as rfl hmid hf'

end ShortestCut

/-- Filtering a cut out of a list without repetitions leaves what was kept. -/
theorem filter_notMem_cut [DecidableEq α] {kept cut : List α} (h : (kept ++ cut).Nodup) :
    (kept ++ cut).filter (· ∉ cut) = kept := by
  have hcut : cut.filter (· ∉ cut) = [] :=
    List.filter_eq_nil_iff.2 fun a ha => by simpa using ha
  rw [List.filter_append, hcut, List.append_nil]
  refine List.filter_eq_self.2 fun a ha => ?_
  simpa using fun hc => (List.nodup_append.1 h).2.2 a ha a hc rfl

end DistributedCache
