import DistributedCache.Protocol.RoundTrip

/-!
# Texts that stay within their line

A text that contains no newline and neither begins nor ends with white space stays where it was put
in a line (`Inline`): joined by single spaces, such texts make a line that is not trimmed
(`inline_unwords`), and its words are theirs, one text after the other (`splitSpaces_unwords_inline`).
A text with white space inside contributes more than one word.
-/

namespace DistributedCache

/-- No newline, and no white space at either end. -/
structure Inline (s : JsString) : Prop where
  newline : .char '\n' ∉ s
  head : s.head?.any isSpace = false
  last : s.getLast?.any isSpace = false

/-- No white space at all. -/
def Solid (s : JsString) : Prop := ∀ c ∈ s, isSpace c = false

instance (s : JsString) : Decidable (Solid s) := List.decidableBAll _ s

variable {s t : JsString} {ws : List JsString} {c : JsChar}

theorem inline_nil : Inline [] := ⟨List.not_mem_nil, rfl, rfl⟩

theorem Solid.inline (h : Solid s) : Inline s where
  newline := fun hmem => absurd (h _ hmem) (by decide)
  head := by
    cases hc : s.head? with
    | none => rfl
    | some c => exact h c (List.mem_of_head? hc)
  last := by
    cases hc : s.getLast? with
    | none => rfl
    | some c => exact h c (List.mem_of_getLast? hc)

theorem IsToken.solid (h : IsToken s) : Solid s := fun c hc => (h.2 c hc).1

/-- Two texts and a space between them. -/
theorem Inline.append (hs : Inline s) (ht : Inline t) (hne : s ≠ []) (hne' : t ≠ []) :
    Inline (s ++ .char ' ' :: t) where
  newline := by
    rw [List.mem_append, List.mem_cons, not_or, not_or]
    exact ⟨hs.newline, by decide, ht.newline⟩
  head := by
    obtain ⟨c, s, rfl⟩ := List.exists_cons_of_ne_nil hne
    exact hs.head
  last := by
    rw [List.getLast?_append_of_ne_nil s (List.cons_ne_nil (.char ' ') t),
      List.getLast?_cons_of_ne_nil hne']
    exact ht.last

theorem inline_unwords (h : ∀ w ∈ ws, Inline w ∧ w ≠ []) : Inline (unwords ws) := by
  induction ws with
  | nil => exact inline_nil
  | cons w ws ih =>
    obtain ⟨hw, hne⟩ := h w List.mem_cons_self
    cases ws with
    | nil => exact hw
    | cons v vs =>
      have hrest := ih fun u hu => h u (List.mem_cons_of_mem w hu)
      have hv := (h v (List.mem_cons_of_mem w List.mem_cons_self)).2
      rw [unwords_cons (List.cons_ne_nil v vs)]
      refine hw.append hrest hne ?_
      cases vs with
      | nil => exact hv
      | cons u us =>
        rw [unwords_cons (List.cons_ne_nil u us)]
        exact List.append_ne_nil_of_left_ne_nil hv _

/-- Nothing is trimmed. -/
theorem Inline.trim_eq (h : Inline s) : trim s = s := by
  have hdrop : s.dropWhile isSpace = s := by
    cases s with
    | nil => rfl
    | cons c s =>
      have hc : isSpace c = false := h.head
      exact List.dropWhile_cons_of_neg (by rw [hc]; exact Bool.false_ne_true)
  rw [trim, hdrop, trimEnd]
  refine List.rdropWhile_eq_self_iff.2 fun hne => ?_
  have hlast := h.last
  rw [List.getLast?_eq_some_getLast hne] at hlast
  rw [show isSpace (s.getLast hne) = false from hlast]
  exact Bool.false_ne_true

theorem Inline.dropCr_eq (h : Inline s) : dropCr s = s := by
  unfold dropCr
  rw [if_neg]
  intro hcr
  have hlast := h.last
  rw [hcr] at hlast
  exact absurd hlast (by decide)

/-! ### Words -/

theorem consFirst_append {as : List JsString} (h : as ≠ []) (bs : List JsString) :
    consFirst c (as ++ bs) = consFirst c as ++ bs := by
  cases as with
  | nil => exact absurd rfl h
  | cons a as => rfl

/-- **The words of two texts and a space between them.** -/
theorem splitSpaces_append (hne : s ≠ []) (hs : s.getLast?.any isSpace = false)
    (ht : t.head?.any isSpace = false) :
    splitSpaces (s ++ .char ' ' :: t) = splitSpaces s ++ splitSpaces t := by
  induction s with
  | nil => exact absurd rfl hne
  | cons c s ih =>
    by_cases hnil : s = []
    · subst hnil
      have hc : isSpace c = false := hs
      have hspace : splitSpaces (.char ' ' :: t) = [] :: splitSpaces t := by
        rw [splitSpaces, if_pos (by decide), ht]
        rfl
      rw [List.singleton_append, splitSpaces, hspace, hc, splitSpaces, hc]
      rfl
    · have hrest := ih hnil (by rwa [List.getLast?_cons_of_ne_nil hnil] at hs)
      have hhead : (s ++ .char ' ' :: t).head? = s.head? := List.head?_append_of_ne_nil s hnil
      rw [List.cons_append, splitSpaces, hrest, hhead, splitSpaces]
      split_ifs
      · rfl
      · rfl
      · exact consFirst_append (splitSpaces_ne_nil s) _

/-- A text without white space is one word. -/
theorem splitSpaces_solid (h : Solid s) : splitSpaces s = [s] := by
  induction s with
  | nil => rfl
  | cons c s ih =>
    have hc := h c List.mem_cons_self
    rw [splitSpaces, hc, ih fun d hd => h d (List.mem_cons_of_mem c hd)]
    rfl

/-- **A line of inline texts has their words.** -/
theorem splitSpaces_unwords_inline (hne : ws ≠ []) (h : ∀ w ∈ ws, Inline w ∧ w ≠ []) :
    splitSpaces (unwords ws) = ws.flatMap splitSpaces := by
  induction ws with
  | nil => exact absurd rfl hne
  | cons w ws ih =>
    cases ws with
    | nil => exact (List.append_nil _).symm
    | cons v vs =>
      obtain ⟨hw, hwne⟩ := h w List.mem_cons_self
      have hrest : ∀ u ∈ v :: vs, Inline u ∧ u ≠ [] := fun u hu => h u (List.mem_cons_of_mem w hu)
      rw [unwords_cons (List.cons_ne_nil v vs), splitSpaces_append hwne hw.last
        (inline_unwords hrest).head, ih (List.cons_ne_nil v vs) hrest]
      rfl

theorem length_consFirst {as : List JsString} (h : as ≠ []) :
    (consFirst c as).length = as.length := by
  cases as with
  | nil => exact absurd rfl h
  | cons a as => rfl

/-- White space in a text makes it more than one word. -/
theorem two_le_length_splitSpaces (h : ¬ Solid s) : 2 ≤ (splitSpaces s).length := by
  induction s with
  | nil => exact absurd (fun _ hc => nomatch hc) h
  | cons c s ih =>
    have hpos := List.length_pos_of_ne_nil (splitSpaces_ne_nil s)
    rw [splitSpaces]
    split_ifs with hc hs
    · refine ih fun hsolid => ?_
      cases hd : s.head? with
      | none =>
        rw [hd] at hs
        cases hs
      | some d =>
        rw [hd] at hs
        exact absurd (hsolid d (List.mem_of_head? hd)) (by simpa using hs)
    · rw [List.length_cons]
      omega
    · rw [length_consFirst (splitSpaces_ne_nil s)]
      refine ih fun hsolid => h fun d hd => ?_
      rcases List.mem_cons.1 hd with rfl | hd
      · simpa using hc
      · exact hsolid d hd

end DistributedCache
