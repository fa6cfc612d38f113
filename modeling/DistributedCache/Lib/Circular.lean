import Mathlib.Data.List.Rotate
import Mathlib.Data.List.Nodup

/-!
# Walks around a circle

A loop that reads a list at `start + i` modulo its length reads the rotated list from its front
(`getElem?_add_mod`). The elements such a loop collects when it takes each one once are
`List.eraseDups` of what it reads: the elements in the order in which they are first met. That order
survives filtering and injective renaming, and the loop that stops at a target finds an initial
segment of it (`collect_eq`). Filtering the circle leaves a position where it is as long as everything
before it survives (`rotate_filter`).
-/

namespace DistributedCache

variable {α β : Type*}

/-- Reading at `start + i` modulo the length is reading the rotated list at `i`. -/
theorem getElem?_add_mod {l : List α} {start i : ℕ} (h : i < l.length) :
    l[(start + i) % l.length]? = (l.rotate start)[i]? := by
  rw [Nat.add_comm, List.getElem?_rotate h]

/-! ### Filtering a circle -/

/-- Filtering does not move a position that has nothing but survivors before it. -/
theorem rotate_filter {p : α → Bool} {l : List α} {n : ℕ} (hn : n ≤ l.length)
    (h : ∀ a ∈ l.take n, p a = true) : (l.filter p).rotate n = (l.rotate n).filter p := by
  have htake : (l.take n).filter p = l.take n := List.filter_eq_self.2 h
  have hfilter : l.filter p = l.take n ++ (l.drop n).filter p := by
    conv_lhs => rw [← List.take_append_drop n l, List.filter_append, htake]
  have hlen : (l.take n).length = n := List.length_take_of_le hn
  have hrot := List.rotate_append_length_eq (l.take n) ((l.drop n).filter p)
  rw [hlen] at hrot
  rw [hfilter, hrot, List.rotate_eq_drop_append_take hn, List.filter_append, htake]

/-- Survivors up to and including a position are all kept. -/
theorem lt_length_filter {p : α → Bool} {l : List α} {n : ℕ} {a : α}
    (h : ∀ a ∈ l.take n, p a = true) (ha : l[n]? = some a) (hp : p a = true) :
    n < (l.filter p).length := by
  have hlt : n < l.length := (List.getElem?_eq_some_iff.1 ha).1
  have hall : (l.take (n + 1)).filter p = l.take (n + 1) := by
    refine List.filter_eq_self.2 fun b hb => ?_
    rw [List.take_add_one, ha] at hb
    rcases List.mem_append.1 hb with hb | hb
    · exact h b hb
    · obtain rfl : b = a := by simpa using hb
      exact hp
  have hsub := ((List.take_sublist (n + 1) l).filter p).length_le
  rw [hall, List.length_take_of_le hlt] at hsub
  exact hsub

section FirstMet

variable [BEq α] [LawfulBEq α] [BEq β] [LawfulBEq β]

omit [LawfulBEq α] in
/-- Induction along `eraseDups`: what holds of the rest without its head holds of the list. -/
theorem eraseDups_induction {P : List α → Prop} (nil : P [])
    (cons : ∀ a l, P (l.filter fun b => !b == a) → P (a :: l)) (l : List α) : P l := by
  induction hn : l.length using Nat.strong_induction_on generalizing l with
  | _ n ih =>
    cases l with
    | nil => exact nil
    | cons a l =>
      refine cons a l (ih _ ?_ _ rfl)
      rw [← hn, List.length_cons]
      exact Nat.lt_succ_of_le (List.length_filter_le _ _)

theorem nodup_eraseDups (l : List α) : l.eraseDups.Nodup := by
  induction l using eraseDups_induction with
  | nil => exact List.nodup_nil
  | cons a l ih =>
    rw [List.eraseDups_cons, List.nodup_cons]
    exact ⟨fun h => by simpa using List.mem_eraseDups.1 h, ih⟩

/-- Filtering before or after makes no difference. -/
theorem eraseDups_filter (p : α → Bool) (l : List α) :
    (l.filter p).eraseDups = l.eraseDups.filter p := by
  induction l using eraseDups_induction with
  | nil => rfl
  | cons a l ih =>
    rw [List.eraseDups_cons]
    cases hp : p a with
    | true =>
      rw [List.filter_cons_of_pos hp, List.filter_cons_of_pos hp, List.eraseDups_cons, ← ih,
        List.filter_comm]
    | false =>
      have hne : p a ≠ true := by simp [hp]
      rw [List.filter_cons_of_neg hne, List.filter_cons_of_neg hne, ← ih, List.filter_comm]
      congr 1
      -- `a` itself does not pass the filter
      refine (List.filter_eq_self.2 fun b hb => ?_).symm
      have hpb := (List.mem_filter.1 hb).2
      simpa using fun hba : b = a => hne (hba ▸ hpb)

/-- Renaming without collisions before or after makes no difference. -/
theorem eraseDups_map (f : α → β) (l : List α) (hf : ∀ a ∈ l, ∀ b ∈ l, f a = f b → a = b) :
    (l.map f).eraseDups = l.eraseDups.map f := by
  induction l using eraseDups_induction with
  | nil => rfl
  | cons a l ih =>
    have hrest : (l.map f).filter (fun b => !b == f a) = (l.filter fun b => !b == a).map f := by
      rw [List.filter_map]
      congr 1
      refine List.filter_congr fun b hb => ?_
      by_cases hba : b = a
      · simp [hba]
      · have hne : f b ≠ f a := fun h =>
          hba (hf b (List.mem_cons_of_mem _ hb) a List.mem_cons_self h)
        simp [hba, hne]
    rw [List.map_cons, List.eraseDups_cons, hrest, List.eraseDups_cons, List.map_cons, ih]
    intro b hb c hc
    exact hf b (List.mem_cons_of_mem _ (List.mem_of_mem_filter hb)) c
      (List.mem_cons_of_mem _ (List.mem_of_mem_filter hc))

end FirstMet

/-! ### A loop that collects up to a target -/

variable [DecidableEq α]

/-- Go through `l` and collect what has not been collected yet, until there are `target`. -/
def collect (target : ℕ) : List α → List α → List α
  | result, [] => result
  | result, a :: l =>
      if result.length < target then
        collect target (if a ∈ result then result else result ++ [a]) l
      else result

/-- **The loop appends the first new elements of the list**, as many as are missing. -/
theorem collect_eq (target : ℕ) (result l : List α) :
    collect target result l =
      result ++ (l.filter (· ∉ result)).eraseDups.take (target - result.length) := by
  induction l generalizing result with
  | nil => simp [collect]
  | cons a l ih =>
    rw [collect]
    split_ifs with hlen hmem
    · rw [ih, List.filter_cons_of_neg (by simpa using hmem)]
    · have hleft : target - result.length = (target - (result ++ [a]).length) + 1 := by
        rw [List.length_append, List.length_singleton]
        omega
      rw [ih, List.filter_cons_of_pos (by simpa using hmem), List.eraseDups_cons, hleft,
        List.take_succ_cons, List.append_assoc, List.singleton_append, List.filter_filter]
      congr 5
      funext b
      by_cases hba : b = a <;> simp [hba]
    · rw [Nat.sub_eq_zero_of_le (not_lt.1 hlen), List.take_zero, List.append_nil]

theorem collect_nil_eq (target : ℕ) (l : List α) :
    collect target [] l = l.eraseDups.take target := by
  rw [collect_eq]
  simp

/-! ### Prefixes -/

/-- Removing an element from an initial segment gives an initial segment of what is left. -/
theorem erase_take_prefix {l : List α} (h : l.Nodup) (a : α) (n : ℕ) :
    (l.take n).erase a <+: (l.filter (· != a)).take n := by
  have hpre : (l.take n).erase a <+: l.filter (· != a) := by
    rw [(h.sublist (List.take_sublist n l)).erase_eq_filter]
    exact (List.take_prefix n l).filter _
  refine List.prefix_take_iff.2 ⟨hpre, ?_⟩
  exact (List.erase_sublist.length_le).trans (List.length_take_le n l)

end DistributedCache
