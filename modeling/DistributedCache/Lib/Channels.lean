import Mathlib.Data.List.Basic
import Mathlib.Tactic

/-!
# Numbered messages over several channels

Messages are numbered in the order in which they are scheduled, and each has a key. A message waits
until it is sent on one of several channels, or is given up. A channel is received first in, first
out, but the channels go on independently of each other, and what is in one may stay there for ever.

* `Channels`, `Channels.Step`;
* `Clear`: when a message is sent, the earlier ones with its key are neither waiting nor in another
  channel;
* `Channels.Ordered` and `Step.ordered`: if messages are sent only when it is clear, those with one
  key are received in the order of their numbers.
-/

namespace DistributedCache

universe u

/-- The keys of the messages by number, the messages that wait, those that were sent, what is in each
channel, oldest first, and the messages received, newest first. -/
structure Channels (κ : Type u) where
  keys : List κ
  pending : Set ℕ
  sent : Set ℕ
  channel : ℕ → List ℕ
  received : List ℕ

namespace Channels

variable {κ : Type u} {l l' : Channels κ} {n n' c : ℕ}

/-- Two messages have the same key. -/
def SameKey (l : Channels κ) (n n' : ℕ) : Prop :=
  ∃ k, l.keys[n]? = some k ∧ l.keys[n']? = some k

/-- No earlier message with the key of `n` waits or is in a channel other than `c`. -/
def Clear (l : Channels κ) (n c : ℕ) : Prop :=
  ∀ n', n' < n → l.SameKey n' n → n' ∉ l.pending ∧ ∀ c', c' ≠ c → n' ∉ l.channel c'

/-- What can happen. A message that is sent may be lost on the way. -/
inductive Step : Channels κ → Channels κ → Prop
  | schedule (l : Channels κ) (k : κ) {pending : Set ℕ}
      (h : pending ⊆ insert l.keys.length l.pending) :
      Step l { l with keys := l.keys ++ [k], pending := pending }
  | keep (l : Channels κ) {pending : Set ℕ} (h : pending ⊆ l.pending) :
      Step l { l with pending := pending }
  | send (l : Channels κ) {n c : ℕ} {pending : Set ℕ} {channel : ℕ → List ℕ} (hn : n ∈ l.pending)
      (hclear : l.Clear n c) (h : pending ⊆ l.pending \ {n})
      (hchannel : channel = l.channel ∨ channel = Function.update l.channel c (l.channel c ++ [n])) :
      Step l { l with pending := pending, sent := insert n l.sent, channel := channel }
  | receive (l : Channels κ) {n c : ℕ} {rest : List ℕ} (h : l.channel c = n :: rest) :
      Step l { l with
        channel := Function.update l.channel c rest
        received := n :: l.received }

/-- Nothing has been scheduled. -/
def empty : Channels κ := ⟨[], ∅, ∅, fun _ => [], []⟩

/-- What is true as long as messages are sent only when it is clear. -/
structure Ordered (l : Channels κ) : Prop where
  pending_lt : ∀ n ∈ l.pending, n < l.keys.length
  sent_lt : ∀ n ∈ l.sent, n < l.keys.length
  unsent : ∀ n ∈ l.pending, n ∉ l.sent
  behind : ∀ n ∈ l.pending, ∀ n' ∈ l.sent, l.SameKey n' n → n' < n
  channel_sent : ∀ c, ∀ n ∈ l.channel c, n ∈ l.sent
  received_sent : ∀ n ∈ l.received, n ∈ l.sent
  sorted : ∀ c, (l.channel c).Pairwise fun n n' => l.SameKey n n' → n < n'
  apart : ∀ c c', c ≠ c' → ∀ n ∈ l.channel c, ∀ n' ∈ l.channel c', ¬ l.SameKey n n'
  ahead : ∀ c, ∀ n' ∈ l.channel c, ∀ n ∈ l.received, l.SameKey n n' → n < n'
  received : l.received.Pairwise fun n n' => l.SameKey n' n → n' < n

theorem ordered_empty : Ordered (empty : Channels κ) where
  pending_lt _ h := h.elim
  sent_lt _ h := h.elim
  unsent _ h := h.elim
  behind _ h := h.elim
  channel_sent _ _ h := (nomatch h)
  received_sent _ h := (nomatch h)
  sorted _ := .nil
  apart _ _ _ _ h := (nomatch h)
  ahead _ _ h := (nomatch h)
  received := .nil

theorem SameKey.symm (h : l.SameKey n n') : l.SameKey n' n := by
  obtain ⟨k, hn, hn'⟩ := h
  exact ⟨k, hn', hn⟩

/-- Scheduling leaves the keys of the earlier messages. -/
theorem Ordered.sameKey_of_append (hn : n < l.keys.length) (hn' : n' < l.keys.length) {k : κ}
    {pending : Set ℕ}
    (h : SameKey { l with keys := l.keys ++ [k], pending := pending } n n') : l.SameKey n n' := by
  obtain ⟨k', hk, hk'⟩ := h
  exact ⟨k', (List.getElem?_append_left hn).symm.trans hk,
    (List.getElem?_append_left hn').symm.trans hk'⟩

theorem Ordered.schedule (h : l.Ordered) (k : κ) {pending : Set ℕ}
    (hp : pending ⊆ insert l.keys.length l.pending) :
    Ordered { l with keys := l.keys ++ [k], pending := pending } := by
  have channel_lt (c : ℕ) (n : ℕ) (hn : n ∈ l.channel c) : n < l.keys.length :=
    h.sent_lt n (h.channel_sent c n hn)
  have received_lt (n : ℕ) (hn : n ∈ l.received) : n < l.keys.length :=
    h.sent_lt n (h.received_sent n hn)
  have hlength : (l.keys ++ [k]).length = l.keys.length + 1 := List.length_append
  refine ⟨fun n hn => ?_, fun n hn => ?_, fun n hn => ?_, fun n hn n' hn' hsame => ?_,
    h.channel_sent, h.received_sent, fun c => ?_, fun c c' hne n hn n' hn' hsame => ?_,
    fun c n' hn' n hn hsame => ?_, ?_⟩
  · rcases hp hn with rfl | hold
    · exact hlength ▸ Nat.lt_succ_self _
    · exact hlength ▸ Nat.lt_succ_of_lt (h.pending_lt n hold)
  · exact hlength ▸ Nat.lt_succ_of_lt (h.sent_lt n hn)
  · rcases hp hn with rfl | hold
    · exact fun hsent => lt_irrefl _ (h.sent_lt _ hsent)
    · exact h.unsent n hold
  · rcases hp hn with rfl | hold
    · exact h.sent_lt n' hn'
    · exact h.behind n hold n' hn' (sameKey_of_append (h.sent_lt n' hn') (h.pending_lt n hold) hsame)
  · exact (h.sorted c).imp_of_mem fun hn hn' hlt hsame =>
      hlt (sameKey_of_append (channel_lt c _ hn) (channel_lt c _ hn') hsame)
  · exact h.apart c c' hne n hn n' hn'
      (sameKey_of_append (channel_lt c n hn) (channel_lt c' n' hn') hsame)
  · exact h.ahead c n' hn' n hn (sameKey_of_append (received_lt n hn) (channel_lt c n' hn') hsame)
  · exact h.received.imp_of_mem fun hn hn' hlt hsame =>
      hlt (sameKey_of_append (received_lt _ hn') (received_lt _ hn) hsame)

theorem Ordered.keep (h : l.Ordered) {pending : Set ℕ} (hp : pending ⊆ l.pending) :
    Ordered { l with pending := pending } :=
  ⟨fun n hn => h.pending_lt n (hp hn), h.sent_lt, fun n hn => h.unsent n (hp hn),
    fun n hn => h.behind n (hp hn), h.channel_sent, h.received_sent, h.sorted, h.apart, h.ahead,
    h.received⟩

/-- Sending a message that is lost. -/
theorem Ordered.lose (h : l.Ordered) (hn : n ∈ l.pending) (hclear : l.Clear n c) {pending : Set ℕ}
    (hp : pending ⊆ l.pending \ {n}) :
    Ordered { l with pending := pending, sent := insert n l.sent } := by
  refine ⟨fun m hm => h.pending_lt m (hp hm).1, fun m hm => ?_, fun m hm hsent => ?_,
    fun m hm m' hm' hsame => ?_, fun c m hm => Or.inr (h.channel_sent c m hm),
    fun m hm => Or.inr (h.received_sent m hm), h.sorted, h.apart, h.ahead, h.received⟩
  · rcases hm with rfl | hm
    · exact h.pending_lt _ hn
    · exact h.sent_lt m hm
  · rcases hsent with rfl | hsent
    · exact (hp hm).2 rfl
    · exact h.unsent m (hp hm).1 hsent
  · rcases hm' with rfl | hm'
    · -- an earlier message with the key would not be waiting
      by_contra hlt
      have hne : m ≠ m' := fun heq => (hp hm).2 heq
      exact (hclear m (lt_of_le_of_ne (not_lt.1 hlt) hne) hsame.symm).1 (hp hm).1
    · exact h.behind m (hp hm).1 m' hm' hsame

/-- The message joins its channel. -/
theorem Ordered.join (h : l.Ordered) (hsent : n ∈ l.sent)
    (hlast : ∀ c', ∀ m ∈ l.channel c', l.SameKey m n → c' = c ∧ m < n)
    (hahead : ∀ m ∈ l.received, l.SameKey m n → m < n) :
    Ordered { l with channel := Function.update l.channel c (l.channel c ++ [n]) } := by
  have mem_channel (c' m : ℕ) (hm : m ∈ Function.update l.channel c (l.channel c ++ [n]) c') :
      m ∈ l.channel c' ∨ c' = c ∧ m = n := by
    by_cases hc : c' = c
    · subst hc
      rw [Function.update_self] at hm
      rcases List.mem_append.1 hm with hm | hm
      · exact Or.inl hm
      · exact Or.inr ⟨rfl, List.mem_singleton.1 hm⟩
    · rw [Function.update_of_ne hc] at hm
      exact Or.inl hm
  refine ⟨h.pending_lt, h.sent_lt, h.unsent, h.behind, fun c' m hm => ?_, h.received_sent,
    fun c' => ?_, fun c₁ c₂ hne m hm m' hm' hsame => ?_, fun c' m hm m' hm' hsame => ?_, h.received⟩
  · rcases mem_channel c' m hm with hm | ⟨-, rfl⟩
    · exact h.channel_sent c' m hm
    · exact hsent
  · show (Function.update l.channel c (l.channel c ++ [n]) c').Pairwise
      fun n n' => l.SameKey n n' → n < n'
    by_cases hc : c' = c
    · subst hc
      rw [Function.update_self]
      refine List.pairwise_append.2 ⟨h.sorted c', List.pairwise_singleton _ _, fun m hm m' hm' => ?_⟩
      rw [List.mem_singleton.1 hm']
      exact fun hsame => (hlast c' m hm hsame).2
    · rw [Function.update_of_ne hc]
      exact h.sorted c'
  · rcases mem_channel c₁ m hm with hold | ⟨hc₁, rfl⟩
    · rcases mem_channel c₂ m' hm' with hold' | ⟨hc₂, rfl⟩
      · exact h.apart c₁ c₂ hne m hold m' hold' hsame
      · -- what is on its way of the same key is in the channel that is joined
        exact hne ((hlast c₁ m hold hsame).1.trans hc₂.symm)
    · rcases mem_channel c₂ m' hm' with hold' | ⟨hc₂, -⟩
      · exact hne (hc₁.trans (hlast c₂ m' hold' hsame.symm).1.symm)
      · exact hne (hc₁.trans hc₂.symm)
  · rcases mem_channel c' m hm with hm | ⟨-, rfl⟩
    · exact h.ahead c' m hm m' hm' hsame
    · exact hahead m' hm' hsame

theorem Ordered.send (h : l.Ordered) (hn : n ∈ l.pending) (hclear : l.Clear n c) {pending : Set ℕ}
    (hp : pending ⊆ l.pending \ {n}) :
    Ordered { l with
      pending := pending
      sent := insert n l.sent
      channel := Function.update l.channel c (l.channel c ++ [n]) } := by
  refine (h.lose hn hclear hp).join (Set.mem_insert n _) (fun c' m hm hsame => ?_)
    fun m hm hsame => h.behind n hn m (h.received_sent m hm) hsame
  have hlt := h.behind n hn m (h.channel_sent c' m hm) hsame
  refine ⟨?_, hlt⟩
  by_contra hne
  exact (hclear m hlt hsame).2 c' hne hm

theorem Ordered.receive (h : l.Ordered) {rest : List ℕ} (hc : l.channel c = n :: rest) :
    Ordered { l with
      channel := Function.update l.channel c rest
      received := n :: l.received } := by
  have hsorted := h.sorted c
  rw [hc, List.pairwise_cons] at hsorted
  have hn : n ∈ l.channel c := hc ▸ List.mem_cons_self
  have mem_channel (c' m : ℕ) (hm : m ∈ Function.update l.channel c rest c') : m ∈ l.channel c' := by
    by_cases hc' : c' = c
    · subst hc'
      rw [Function.update_self] at hm
      exact hc ▸ List.mem_cons_of_mem n hm
    · rwa [Function.update_of_ne hc'] at hm
  refine ⟨h.pending_lt, h.sent_lt, h.unsent, h.behind,
    fun c' m hm => h.channel_sent c' m (mem_channel c' m hm), fun m hm => ?_, fun c' => ?_,
    fun c₁ c₂ hne m hm m' hm' => h.apart c₁ c₂ hne m (mem_channel c₁ m hm) m' (mem_channel c₂ m' hm'),
    fun c' m hm m' hm' hsame => ?_, List.pairwise_cons.2 ⟨fun m hm => h.ahead c n hn m hm, h.received⟩⟩
  · rcases List.mem_cons.1 hm with rfl | hm
    · exact h.channel_sent c _ hn
    · exact h.received_sent m hm
  · show (Function.update l.channel c rest c').Pairwise fun n n' => l.SameKey n n' → n < n'
    by_cases hc' : c' = c
    · subst hc'
      rw [Function.update_self]
      exact hsorted.2
    · rw [Function.update_of_ne hc']
      exact h.sorted c'
  · rcases List.mem_cons.1 hm' with rfl | hm'
    · -- the rest of the channel comes later, and the other channels have other keys
      have hm : m ∈ Function.update l.channel c rest c' := hm
      by_cases hc' : c' = c
      · subst hc'
        rw [Function.update_self] at hm
        exact hsorted.1 m hm hsame
      · exact absurd hsame (h.apart c c' (Ne.symm hc') m' hn m (mem_channel c' m hm))
    · exact h.ahead c' m (mem_channel c' m hm) m' hm' hsame

/-- **Sent when it is clear, received in order.** -/
theorem Step.ordered (h : Step l l') (hl : l.Ordered) : l'.Ordered := by
  cases h with
  | schedule k hp => exact hl.schedule k hp
  | keep hp => exact hl.keep hp
  | send hn hclear hp hchannel =>
    rcases hchannel with rfl | rfl
    · exact hl.lose hn hclear hp
    · exact hl.send hn hclear hp
  | receive hc => exact hl.receive hc

end Channels

end DistributedCache
