import Mathlib.Data.List.Basic
import Mathlib.Logic.Relation
import Mathlib.Tactic

/-!
# The ledger of a single-server queue

Jobs are numbered in the order in which they are submitted. A job waits until it is started, which
happens one at a time and oldest first, or until it is given up while it waits; a job that has been
started runs until it is finished. The ledger keeps where each job was started and how it ended.

* `Ledger`, `Ledger.Step`, `Ledger.Steps`;
* `Steps.giveUpAll`;
* `Ledger.Ordered`: what stays true of a ledger, and `Steps.ordered`, which carries it along;
* `Ordered.running_of_started`: a job that was started and has not ended is the one that runs;
* `Ordered.ended_of_lt`: before a job is started, those before it have ended.
-/

namespace DistributedCache

universe u v

/-- The jobs by number: waiting ones oldest first, started and ended ones newest first. -/
structure Ledger (π : Type u) (ρ : Type v) where
  submitted : ℕ
  waiting : List ℕ
  running : Option ℕ
  started : List (ℕ × π)
  ended : List (ℕ × ρ)

namespace Ledger

variable {π : Type u} {ρ : Type v} {l l' l'' : Ledger π ρ}

/-- What can happen to a job. -/
inductive Step : Ledger π ρ → Ledger π ρ → Prop
  | submit (l : Ledger π ρ) :
      Step l { l with submitted := l.submitted + 1, waiting := l.waiting ++ [l.submitted] }
  | refuse (l : Ledger π ρ) (r : ρ) :
      Step l { l with submitted := l.submitted + 1, ended := (l.submitted, r) :: l.ended }
  | giveUp (l : Ledger π ρ) {before after : List ℕ} {i : ℕ}
      (h : l.waiting = before ++ i :: after) (r : ρ) :
      Step l { l with waiting := before ++ after, ended := (i, r) :: l.ended }
  | start (l : Ledger π ρ) {i : ℕ} {rest : List ℕ} (h : l.waiting = i :: rest)
      (hfree : l.running = none) (p : π) :
      Step l { l with waiting := rest, running := some i, started := (i, p) :: l.started }
  | finish (l : Ledger π ρ) {i : ℕ} (h : l.running = some i) (r : ρ) :
      Step l { l with running := none, ended := (i, r) :: l.ended }

/-- Any number of steps. -/
def Steps : Ledger π ρ → Ledger π ρ → Prop := Relation.ReflTransGen Step

theorem Steps.refl (l : Ledger π ρ) : Steps l l := Relation.ReflTransGen.refl

theorem Steps.of_eq (h : l = l') : Steps l l' := h ▸ Steps.refl l

theorem Step.steps (h : Step l l') : Steps l l' := Relation.ReflTransGen.single h

theorem Steps.trans (h : Steps l l') (h' : Steps l' l'') : Steps l l'' :=
  Relation.ReflTransGen.trans h h'

/-- No job yet. -/
def empty : Ledger π ρ := ⟨0, [], none, [], []⟩

/-- What is true of every ledger that steps lead to. -/
structure Ordered (l : Ledger π ρ) : Prop where
  waiting_sorted : l.waiting.Pairwise (· < ·)
  waiting_lt : ∀ i ∈ l.waiting, i < l.submitted
  started_sorted : l.started.Pairwise fun x y => y.1 < x.1
  started_lt : ∀ x ∈ l.started, x.1 < l.submitted
  started_before : ∀ x ∈ l.started, ∀ i ∈ l.waiting, x.1 < i
  running_head : ∀ i, l.running = some i → ∃ p rest, l.started = (i, p) :: rest
  ended_nodup : (l.ended.map Prod.fst).Nodup
  ended_out : ∀ i ∈ l.ended.map Prod.fst, i < l.submitted ∧ i ∉ l.waiting ∧ l.running ≠ some i
  covered : ∀ i < l.submitted, i ∈ l.ended.map Prod.fst ∨ i ∈ l.waiting ∨ l.running = some i

theorem ordered_empty : Ordered (empty : Ledger π ρ) where
  waiting_sorted := List.Pairwise.nil
  waiting_lt _ h := (nomatch h)
  started_sorted := List.Pairwise.nil
  started_lt _ h := (nomatch h)
  started_before _ h := (nomatch h)
  running_head _ h := (nomatch h)
  ended_nodup := List.nodup_nil
  ended_out _ h := (nomatch h)
  covered _ h := absurd h (Nat.not_lt_zero _)

/-- The running job is not waiting. -/
theorem Ordered.running_notMem (h : l.Ordered) {i : ℕ} (hi : l.running = some i) :
    i ∉ l.waiting := by
  obtain ⟨p, rest, hstarted⟩ := h.running_head i hi
  intro hmem
  exact lt_irrefl i (h.started_before (i, p) (hstarted ▸ List.mem_cons_self) i hmem)

theorem Ordered.running_lt (h : l.Ordered) {i : ℕ} (hi : l.running = some i) : i < l.submitted := by
  obtain ⟨p, rest, hstarted⟩ := h.running_head i hi
  exact h.started_lt (i, p) (hstarted ▸ List.mem_cons_self)

theorem Ordered.submit (h : l.Ordered) :
    Ordered { l with submitted := l.submitted + 1, waiting := l.waiting ++ [l.submitted] } where
  waiting_sorted := by
    refine List.pairwise_append.2 ⟨h.waiting_sorted, List.pairwise_singleton _ _, ?_⟩
    intro i hi j hj
    rw [List.mem_singleton.1 hj]
    exact h.waiting_lt i hi
  waiting_lt := by
    intro i hi
    rcases List.mem_append.1 hi with hi | hi
    · exact Nat.lt_succ_of_lt (h.waiting_lt i hi)
    · rw [List.mem_singleton.1 hi]
      exact Nat.lt_succ_self _
  started_sorted := h.started_sorted
  started_lt x hx := Nat.lt_succ_of_lt (h.started_lt x hx)
  started_before := by
    intro x hx i hi
    rcases List.mem_append.1 hi with hi | hi
    · exact h.started_before x hx i hi
    · rw [List.mem_singleton.1 hi]
      exact h.started_lt x hx
  running_head := h.running_head
  ended_nodup := h.ended_nodup
  ended_out := by
    intro i hi
    obtain ⟨hlt, hwaiting, hrunning⟩ := h.ended_out i hi
    refine ⟨Nat.lt_succ_of_lt hlt, fun hmem => ?_, hrunning⟩
    rcases List.mem_append.1 hmem with hmem | hmem
    · exact hwaiting hmem
    · exact absurd (List.mem_singleton.1 hmem) (Nat.ne_of_lt hlt)
  covered := by
    intro i hi
    rcases Nat.lt_succ_iff_lt_or_eq.1 hi with hi | rfl
    · rcases h.covered i hi with hended | hwaiting | hrunning
      · exact Or.inl hended
      · exact Or.inr (Or.inl (List.mem_append_left _ hwaiting))
      · exact Or.inr (Or.inr hrunning)
    · exact Or.inr (Or.inl (List.mem_append_right _ List.mem_cons_self))

theorem Ordered.refuse (h : l.Ordered) (r : ρ) :
    Ordered { l with submitted := l.submitted + 1, ended := (l.submitted, r) :: l.ended } where
  waiting_sorted := h.waiting_sorted
  waiting_lt i hi := Nat.lt_succ_of_lt (h.waiting_lt i hi)
  started_sorted := h.started_sorted
  started_lt x hx := Nat.lt_succ_of_lt (h.started_lt x hx)
  started_before := h.started_before
  running_head := h.running_head
  ended_nodup := by
    refine List.nodup_cons.2 ⟨fun hmem => ?_, h.ended_nodup⟩
    exact lt_irrefl _ (h.ended_out _ hmem).1
  ended_out := by
    intro i hi
    rcases List.mem_cons.1 hi with rfl | hi
    · refine ⟨Nat.lt_succ_self _, fun hmem => lt_irrefl _ (h.waiting_lt _ hmem), fun hrun => ?_⟩
      exact lt_irrefl _ (h.running_lt hrun)
    · obtain ⟨hlt, hwaiting, hrunning⟩ := h.ended_out i hi
      exact ⟨Nat.lt_succ_of_lt hlt, hwaiting, hrunning⟩
  covered := by
    intro i hi
    rcases Nat.lt_succ_iff_lt_or_eq.1 hi with hi | rfl
    · rcases h.covered i hi with hended | hrest
      · exact Or.inl (List.mem_cons_of_mem _ hended)
      · exact Or.inr hrest
    · exact Or.inl List.mem_cons_self

theorem Ordered.giveUp (h : l.Ordered) {before after : List ℕ} {i : ℕ}
    (hi : l.waiting = before ++ i :: after) (r : ρ) :
    Ordered { l with waiting := before ++ after, ended := (i, r) :: l.ended } := by
  have hsub : (before ++ after).Sublist l.waiting := by
    rw [hi]
    exact List.Sublist.append_left (List.sublist_cons_self i after) before
  have hmem : i ∈ l.waiting := hi ▸ List.mem_append_right before List.mem_cons_self
  have hgone : i ∉ before ++ after := by
    have hnodup : l.waiting.Nodup := h.waiting_sorted.imp Nat.ne_of_lt
    rw [hi, List.nodup_middle, List.nodup_cons] at hnodup
    exact hnodup.1
  refine ⟨h.waiting_sorted.sublist hsub, fun j hj => h.waiting_lt j (hsub.subset hj),
    h.started_sorted, h.started_lt, fun x hx j hj => h.started_before x hx j (hsub.subset hj),
    h.running_head, List.nodup_cons.2 ⟨fun hold => (h.ended_out i hold).2.1 hmem, h.ended_nodup⟩,
    fun j hj => ?_, fun j hj => ?_⟩
  · rcases List.mem_cons.1 hj with rfl | hj
    · exact ⟨h.waiting_lt _ hmem, hgone, fun hrun => h.running_notMem hrun hmem⟩
    · obtain ⟨hlt, hwaiting, hrunning⟩ := h.ended_out j hj
      exact ⟨hlt, fun hin => hwaiting (hsub.subset hin), hrunning⟩
  · rcases h.covered j hj with hended | hwaiting | hrunning
    · exact Or.inl (List.mem_cons_of_mem _ hended)
    · by_cases hij : j = i
      · exact Or.inl (hij ▸ List.mem_cons_self)
      · refine Or.inr (Or.inl ?_)
        rw [hi, List.mem_append, List.mem_cons] at hwaiting
        rcases hwaiting with hin | heq | hin
        · exact List.mem_append_left _ hin
        · exact absurd heq hij
        · exact List.mem_append_right _ hin
    · exact Or.inr (Or.inr hrunning)

theorem Ordered.start (h : l.Ordered) {i : ℕ} {rest : List ℕ} (hi : l.waiting = i :: rest)
    (hfree : l.running = none) (p : π) :
    Ordered { l with waiting := rest, running := some i, started := (i, p) :: l.started } := by
  have hsorted := h.waiting_sorted
  rw [hi, List.pairwise_cons] at hsorted
  have hmem : i ∈ l.waiting := hi ▸ List.mem_cons_self
  have hrest : ∀ j ∈ rest, j ∈ l.waiting := fun j hj => hi ▸ List.mem_cons_of_mem i hj
  refine ⟨hsorted.2, fun j hj => h.waiting_lt j (hrest j hj),
    List.pairwise_cons.2 ⟨fun x hx => h.started_before x hx i hmem, h.started_sorted⟩,
    fun x hx => ?_, fun x hx j hj => ?_, fun j hj => ?_, h.ended_nodup, fun j hj => ?_,
    fun j hj => ?_⟩
  · rcases List.mem_cons.1 hx with rfl | hx
    · exact h.waiting_lt i hmem
    · exact h.started_lt x hx
  · rcases List.mem_cons.1 hx with rfl | hx
    · exact hsorted.1 j hj
    · exact h.started_before x hx j (hrest j hj)
  · cases hj
    exact ⟨p, l.started, rfl⟩
  · obtain ⟨hlt, hwaiting, -⟩ := h.ended_out j hj
    refine ⟨hlt, fun hin => hwaiting (hrest j hin), fun hrun => ?_⟩
    cases hrun
    exact hwaiting hmem
  · rcases h.covered j hj with hended | hwaiting | hrunning
    · exact Or.inl hended
    · rw [hi, List.mem_cons] at hwaiting
      rcases hwaiting with rfl | hin
      · exact Or.inr (Or.inr rfl)
      · exact Or.inr (Or.inl hin)
    · rw [hfree] at hrunning
      cases hrunning

theorem Ordered.finish (h : l.Ordered) {i : ℕ} (hi : l.running = some i) (r : ρ) :
    Ordered { l with running := none, ended := (i, r) :: l.ended } := by
  refine ⟨h.waiting_sorted, h.waiting_lt, h.started_sorted, h.started_lt, h.started_before,
    fun j hj => (nomatch hj),
    List.nodup_cons.2 ⟨fun hold => (h.ended_out i hold).2.2 hi, h.ended_nodup⟩,
    fun j hj => ?_, fun j hj => ?_⟩
  · rcases List.mem_cons.1 hj with rfl | hj
    · exact ⟨h.running_lt hi, h.running_notMem hi, fun hrun => (nomatch hrun)⟩
    · obtain ⟨hlt, hwaiting, -⟩ := h.ended_out j hj
      exact ⟨hlt, hwaiting, fun hrun => (nomatch hrun)⟩
  · rcases h.covered j hj with hended | hwaiting | hrunning
    · exact Or.inl (List.mem_cons_of_mem _ hended)
    · exact Or.inr (Or.inl hwaiting)
    · obtain rfl : i = j := Option.some.inj (hi.symm.trans hrunning)
      exact Or.inl List.mem_cons_self

theorem Step.ordered (h : Step l l') (hl : l.Ordered) : l'.Ordered := by
  cases h with
  | submit => exact hl.submit
  | refuse r => exact hl.refuse r
  | giveUp hi r => exact hl.giveUp hi r
  | start hi hfree p => exact hl.start hi hfree p
  | finish hi r => exact hl.finish hi r

/-- **The invariant along steps.** -/
theorem Steps.ordered (h : Steps l l') (hl : l.Ordered) : l'.Ordered := by
  induction h with
  | refl => exact hl
  | tail _ hstep ih => exact hstep.ordered ih

/-- What has ended stays ended. -/
theorem Steps.ended_suffix (h : Steps l l') : l.ended <:+ l'.ended := by
  induction h with
  | refl => exact List.suffix_rfl
  | tail _ hstep ih =>
    refine ih.trans ?_
    cases hstep with
    | submit | start => exact List.suffix_rfl
    | refuse | giveUp | finish => exact List.suffix_cons _ _

/-- Jobs are not taken back. -/
theorem Steps.submitted_le (h : Steps l l') : l.submitted ≤ l'.submitted := by
  induction h with
  | refl => exact le_rfl
  | tail _ hstep ih =>
    refine ih.trans ?_
    cases hstep with
    | submit | refuse => exact Nat.le_succ _
    | giveUp | start | finish => exact le_rfl

/-- Give up the last of the waiting jobs, all for the same reason. -/
theorem Steps.giveUpAll {before after : List ℕ} (h : l.waiting = before ++ after) (r : ρ) :
    Steps l { l with
      waiting := before
      ended := (after.map fun i => (i, r)).reverse ++ l.ended } := by
  induction after generalizing l with
  | nil =>
    refine Steps.of_eq ?_
    rw [List.append_nil] at h
    rw [← h]
    rfl
  | cons i after ih =>
    have hrest := ih (l := { l with waiting := before ++ after, ended := (i, r) :: l.ended }) rfl
    simpa using (Step.giveUp l h r).steps.trans hrest

/-- **One job at a time**: a job that was started and has not ended is the one that runs. -/
theorem Ordered.running_of_started (h : l.Ordered) {x : ℕ × π} (hx : x ∈ l.started)
    (hend : x.1 ∉ l.ended.map Prod.fst) : l.running = some x.1 := by
  rcases h.covered x.1 (h.started_lt x hx) with hended | hwaiting | hrunning
  · exact absurd hended hend
  · exact absurd (h.started_before x hx x.1 hwaiting) (lt_irrefl _)
  · exact hrunning

/-- A job submitted before one that was started has ended. -/
theorem Ordered.ended_of_lt (h : l.Ordered) {x : ℕ × π} (hx : x ∈ l.started) {i : ℕ}
    (hlt : i < x.1) : i ∈ l.ended.map Prod.fst := by
  rcases h.covered i (hlt.trans (h.started_lt x hx)) with hended | hwaiting | hrunning
  · exact hended
  · exact absurd (h.started_before x hx i hwaiting) (lt_asymm hlt)
  · -- the running job is the last one started
    obtain ⟨p, rest, hstarted⟩ := h.running_head i hrunning
    have hsorted := h.started_sorted
    rw [hstarted] at hx hsorted
    rcases List.mem_cons.1 hx with rfl | hx
    · exact absurd hlt (lt_irrefl _)
    · exact absurd ((List.pairwise_cons.1 hsorted).1 x hx) (lt_asymm hlt)

/-- How a job ended, once it is found, stays what is found. -/
theorem lookup_of_suffix {ended ended' : List (ℕ × ρ)} (hsuffix : ended <:+ ended')
    (hnodup : (ended'.map Prod.fst).Nodup) {i : ℕ} {r : ρ} (h : ended.lookup i = some r) :
    ended'.lookup i = some r := by
  obtain ⟨more, rfl⟩ := hsuffix
  have hmem : i ∈ ended.map Prod.fst := by
    obtain ⟨before, after, rfl, -⟩ := List.lookup_eq_some_iff.1 h
    simp
  rw [List.map_append, List.nodup_append] at hnodup
  have hnone : more.lookup i = none := by
    refine List.lookup_eq_none_iff.2 fun x hx => ?_
    simpa using fun heq => hnodup.2.2 x.1 (List.mem_map_of_mem hx) i hmem heq.symm
  rw [List.lookup_append, hnone, Option.none_or, h]

end Ledger

end DistributedCache
