import DistributedCache.Lib.System

/-!
# Progress by a rank

Some of the steps of a system are moves. As long as what is waited for has not come about, a rank
that no step raises and every move lowers bounds how many moves there have been, however the other
steps are interleaved.

* `System.Moves`: steps, and how many of them are moves;
* `Moves.bound`.
-/

namespace DistributedCache

universe u v

namespace System

variable {σ : Type u} {ℓ : Type v} {S : System σ ℓ} {move : σ → σ → Prop} {s t t' : σ} {n : ℕ}

/-- `Moves S move s n t`: steps lead from `s` to `t`, and `n` of them are moves. -/
inductive Moves (S : System σ ℓ) (move : σ → σ → Prop) (s : σ) : ℕ → σ → Prop
  | refl : Moves S move s 0 s
  | move {n : ℕ} {t t' : σ} {l : ℓ} (moves : Moves S move s n t) (step : S.step t l t')
      (h : move t t') : Moves S move s (n + 1) t'
  | stay {n : ℕ} {t t' : σ} {l : ℓ} (moves : Moves S move s n t) (step : S.step t l t')
      (h : ¬ move t t') : Moves S move s n t'

/-- What `rank` must do while one waits: `P` is an invariant, and a state that still waits is
reached from such states only, by steps that do not raise the rank and moves that lower it. -/
structure Ranked (S : System σ ℓ) (move : σ → σ → Prop) (P waits : σ → Prop) (rank : σ → ℕ) :
    Prop where
  invariant : ∀ {s l s'}, P s → S.step s l s' → P s'
  waited : ∀ {s l s'}, P s → S.step s l s' → waits s' → waits s
  step : ∀ {s l s'}, P s → S.step s l s' → waits s' → rank s' ≤ rank s
  move : ∀ {s l s'}, P s → S.step s l s' → waits s' → move s s' → rank s' < rank s

/-- **Every move is paid for by the rank.** -/
theorem Moves.bound {P waits : σ → Prop} {rank : σ → ℕ} (hrank : S.Ranked move P waits rank)
    (h : S.Moves move s n t) (hs : P s) : P t ∧ (waits t → n + rank t ≤ rank s) := by
  induction h with
  | refl => exact ⟨hs, fun _ => by rw [Nat.zero_add]⟩
  | move _ step hmove ih =>
    refine ⟨hrank.invariant ih.1 step, fun hwaits => ?_⟩
    have hbefore := ih.2 (hrank.waited ih.1 step hwaits)
    have hless := hrank.move ih.1 step hwaits hmove
    omega
  | stay _ step _ ih =>
    refine ⟨hrank.invariant ih.1 step, fun hwaits => ?_⟩
    have hbefore := ih.2 (hrank.waited ih.1 step hwaits)
    have hle := hrank.step ih.1 step hwaits
    omega

end System

end DistributedCache
