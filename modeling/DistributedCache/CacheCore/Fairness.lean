import DistributedCache.CacheCore.Sweep

/-!
# Consecutive sweeps

Sweeps of at most `m` keys are meant to go round the stored keys. The cursor is a position in the
insertion order, and a sweep that removes a key standing before the cursor it leaves pushes the keys
behind it forward, past the cursor. As long as that does not happen (`Undisturbed`), the store after
`i` sweeps has lost exactly the expired ones among the first `i * m` keys from the first cursor on,
and the cursor stands at the key after them (`Reached`). So `⌈n / m⌉` sweeps examine every key
(`Undisturbed.covers`), and where the condition fails a key is passed over (`exists_displaced`).
-/

namespace DistributedCache
namespace CacheStore

variable {s t : CacheStore} {now : ℤ} {m : ℕ+} {i x y : ℕ} {k : JsString}

/-! ### Sweeps one after the other -/

/-- The options `{ maxExamined: m }`. -/
def boundedOptions (m : ℕ+) : JsValue := .object .undefined (.number (.int (m : ℕ)))

theorem purgeArguments_bounded (m : ℕ+) :
    purgeArguments (boundedOptions m) = .ok (some (m : ℕ)) := by
  simp [purgeArguments, boundedOptions, plainObject, bind, Except.bind, pure, Except.pure]

/-- The store after `i` consecutive sweeps of at most `m` keys while the clock stands at `now`. -/
def afterSweeps (s : CacheStore) (now : ℤ) (m : ℕ+) : ℕ → Option CacheStore
  | 0 => some s
  | i + 1 => (afterSweeps s now m i).bind fun t =>
      (t.purgeExpired (Stream'.const now) (boundedOptions m)).map fun r => r.2.1

/-- `⌈n / m⌉`, the number of sweeps that `n` keys take. -/
def rounds (s : CacheStore) (m : ℕ+) : ℕ := (s.store.size + m - 1) / m

/-- `⌈n / m⌉` sweeps examine every key, and no expired entry remains. -/
def SweepsCover (s : CacheStore) (now : ℤ) (m : ℕ+) : Prop :=
  (∀ k ∈ s.store.keys, ∃ i < s.rounds m, ∃ t, s.afterSweeps now m i = some t ∧
    k ∈ t.sweepWindow (some m)) ∧
  ∃ t, s.afterSweeps now m (s.rounds m) = some t ∧ ∀ k, ¬ t.Stale k now

/-- The stored keys as the sweeps should come to them. -/
def fromCursor (s : CacheStore) : List JsString := s.store.keys.rotate s.sweepCursor

/-- How many keys there are from the cursor to the end of the insertion order. -/
def untilEnd (s : CacheStore) : ℕ := s.store.size - s.sweepCursor % s.store.size

/-- The expired keys among the first `i * m` from the cursor on. -/
def sweptBy (s : CacheStore) (now : ℤ) (m : ℕ+) (i : ℕ) : List JsString :=
  (s.fromCursor.take (i * m)).filter (s.staleAt now)

/-- Of the first `i * m` keys from the cursor on, cut into blocks of `m`, only those have expired
that lie in the block of the last key of the insertion order, and not behind that key. -/
def Undisturbed (s : CacheStore) (now : ℤ) (m : ℕ+) (i : ℕ) : Prop :=
  ∀ x k, x < i * m → s.fromCursor[x]? = some k → s.Stale k now →
    x < s.untilEnd ∧ x / m = (s.untilEnd - 1) / m

instance : Decidable (s.Undisturbed now m i) :=
  decidable_of_iff (∀ x < i * (m : ℕ), ∀ k ∈ s.fromCursor[x]?, s.staleAt now k = true →
      x < s.untilEnd ∧ x / m = (s.untilEnd - 1) / m)
    ⟨fun h x k hx hget hstale => h x hx k hget (staleAt_iff.2 hstale),
      fun h x hx k hget hstale => h x k hx hget (staleAt_iff.1 hstale)⟩

theorem Undisturbed.mono {j : ℕ} (h : s.Undisturbed now m i) (hj : j ≤ i) :
    s.Undisturbed now m j := fun x k hx =>
  h x k (lt_of_lt_of_le hx (Nat.mul_le_mul_right _ hj))

/-! ### Positions -/

/-- The position in the insertion order of the key number `x` from the cursor on. -/
def position (s : CacheStore) (x : ℕ) : ℕ := (s.sweepCursor + x) % s.store.size

theorem position_eq (hx : x < s.store.size) : s.position x =
    if x < s.untilEnd then s.store.size - s.untilEnd + x else x - s.untilEnd := by
  have hmod := Nat.mod_lt s.sweepCursor (by omega : 0 < s.store.size)
  unfold position untilEnd
  rw [Nat.add_mod_eq_ite, Nat.mod_eq_of_lt hx]
  split_ifs <;> omega

@[simp] theorem length_fromCursor (s : CacheStore) : s.fromCursor.length = s.store.size := by
  rw [fromCursor, List.length_rotate, OrderedMap.length_keys]

theorem nodup_fromCursor (s : CacheStore) : s.fromCursor.Nodup :=
  List.nodup_rotate.2 s.store.keys_nodup

theorem getElem?_fromCursor (hx : x < s.store.size) :
    s.fromCursor[x]? = s.store.keys[s.position x]? := by
  rw [fromCursor, ← getElem?_add_mod (by rwa [OrderedMap.length_keys]), OrderedMap.length_keys]
  rfl

theorem lt_size_of_getElem? (h : s.fromCursor[x]? = some k) : x < s.store.size := by
  rw [← length_fromCursor]
  exact (List.getElem?_eq_some_iff.1 h).1

/-- A key that was to be swept is one of the first from the cursor on. -/
theorem mem_sweptBy : k ∈ s.sweptBy now m i ↔
    (∃ x < i * m, s.fromCursor[x]? = some k) ∧ s.Stale k now := by
  rw [sweptBy, List.mem_filter, staleAt_iff, List.mem_take_iff_getElem]
  constructor
  · rintro ⟨⟨x, hx, rfl⟩, hstale⟩
    have hlt : x < s.fromCursor.length := by omega
    exact ⟨⟨x, by omega, List.getElem?_eq_getElem hlt⟩, hstale⟩
  · rintro ⟨⟨x, hx, hget⟩, hstale⟩
    obtain ⟨hlt, rfl⟩ := List.getElem?_eq_some_iff.1 hget
    exact ⟨⟨x, by omega, rfl⟩, hstale⟩

/-- A key further on is not among them. -/
theorem notMem_sweptBy (hx : i * m ≤ x) (hget : s.fromCursor[x]? = some k) :
    k ∉ s.sweptBy now m i := by
  intro hmem
  obtain ⟨⟨x', hx', hget'⟩, -⟩ := mem_sweptBy.1 hmem
  have := (nodup_fromCursor s).getElem_inj_iff.1
    ((List.getElem?_eq_some_iff.1 hget).2.trans (List.getElem?_eq_some_iff.1 hget').2.symm)
  omega

/-- Undisturbed, only keys between the first cursor and the end have been swept, and none before the
end has been reached. -/
theorem Undisturbed.position_of_swept (hu : s.Undisturbed now m i) (hk : k ∈ s.sweptBy now m i)
    (hy : s.store.keys[y]? = some k) :
    s.untilEnd ≤ i * m ∧ s.store.size - s.untilEnd ≤ y := by
  obtain ⟨⟨x, hx, hget⟩, hstale⟩ := mem_sweptBy.1 hk
  obtain ⟨hend, hblock⟩ := hu x k hx hget hstale
  have hlt := lt_size_of_getElem? hget
  rw [getElem?_fromCursor hlt] at hget
  have hxy : s.position x = y := s.store.keys_nodup.getElem_inj_iff.1
    ((List.getElem?_eq_some_iff.1 hget).2.trans (List.getElem?_eq_some_iff.1 hy).2.symm)
  rw [position_eq hlt, if_pos hend] at hxy
  refine ⟨?_, by omega⟩
  by_contra hbefore
  -- the block of the last key has not been begun
  have hlow : x / m < i := (Nat.div_lt_iff_lt_mul m.pos).2 hx
  have hhigh : i ≤ (s.untilEnd - 1) / m := (Nat.le_div_iff_mul_le m.pos).2 (by omega)
  omega

/-! ### The store after some sweeps -/

/-- `t` is what is left of `s` when the first `i * m` keys have been swept, and its cursor stands at
the next one. -/
structure Reached (s : CacheStore) (now : ℤ) (m : ℕ+) (i : ℕ) (t : CacheStore) : Prop where
  sync : Sync t
  store : t.store = s.store.without (s.sweptBy now m i)
  cursor : t.sweepCursor % t.store.size = s.position (i * m)

theorem reached_zero (hs : Sync s) : Reached s now m 0 s where
  sync := hs
  store := by simp [sweptBy]
  cursor := by simp [position]

/-- Every key before a position that is still to come has survived. -/
theorem Undisturbed.survives_before (hu : s.Undisturbed now m i) (hi : i * m ≤ x)
    (hx : x < s.store.size) :
    ∀ a ∈ s.store.keys.take (s.position x), decide (a ∉ s.sweptBy now m i) = true := by
  intro a ha
  rw [decide_eq_true_iff]
  intro hmem
  obtain ⟨y, hy, rfl⟩ := List.mem_take_iff_getElem.1 ha
  have hlt : y < s.store.keys.length := by omega
  obtain ⟨hend, hle⟩ := hu.position_of_swept hmem (List.getElem?_eq_getElem hlt)
  rw [position_eq hx, if_neg (by omega)] at hy
  omega

section Store

variable (hu : s.Undisturbed now m i) (hstore : t.store = s.store.without (s.sweptBy now m i))
include hu hstore

/-- So the position itself is one of the store that is left. -/
theorem position_lt_size (hi : i * m ≤ x) (hx : x < s.store.size) :
    s.position x < t.store.size := by
  have hlt : x < s.fromCursor.length := by simpa using hx
  have hget : s.store.keys[s.position x]? = some s.fromCursor[x] := by
    rw [← getElem?_fromCursor hx]
    exact List.getElem?_eq_getElem hlt
  have hself : s.fromCursor[x] ∉ s.sweptBy now m i :=
    notMem_sweptBy hi (List.getElem?_eq_getElem hlt)
  rw [← OrderedMap.length_keys, hstore, OrderedMap.keys_without]
  exact lt_length_filter (hu.survives_before hi hx) hget (by simpa using hself)

/-- Before the end has been reached nothing has been swept. -/
theorem size_eq_of_lt_untilEnd (hi : i * m < s.untilEnd) : t.store = s.store := by
  have hnil : ∀ k, k ∉ s.sweptBy now m i := by
    intro k hk
    obtain ⟨⟨x, -, hget⟩, -⟩ := mem_sweptBy.1 hk
    rw [getElem?_fromCursor (lt_size_of_getElem? hget)] at hget
    have := (hu.position_of_swept hk hget).1
    omega
  have hempty (k : JsString) : k ∈ s.sweptBy now m i ↔ k ∈ [] := by simp [hnil k]
  rw [hstore, OrderedMap.without_congr hempty, OrderedMap.without_nil]

end Store

section Reached

variable (h : Reached s now m i t) (hu : s.Undisturbed now m i) (hi : i * m < s.store.size)
include h hu hi

/-- From its cursor on, the store lists the keys not swept yet and then the survivors. -/
theorem Reached.fromCursor_eq : t.fromCursor = s.fromCursor.drop (i * m) ++
    (s.fromCursor.take (i * m)).filter (· ∉ s.sweptBy now m i) := by
  have hkeys : t.store.keys = s.store.keys.filter (· ∉ s.sweptBy now m i) := by
    rw [h.store, OrderedMap.keys_without]
  have hle : s.position (i * m) ≤ s.store.keys.length := by
    rw [OrderedMap.length_keys]
    exact (Nat.mod_lt _ (by omega)).le
  have hrot : s.store.keys.rotate (s.position (i * m)) = s.fromCursor.rotate (i * m) := by
    rw [position, ← OrderedMap.length_keys, List.rotate_mod, fromCursor, List.rotate_rotate]
  have hdrop : (s.fromCursor.drop (i * m)).filter (· ∉ s.sweptBy now m i) =
      s.fromCursor.drop (i * m) := by
    refine List.filter_eq_self.2 fun k hk => ?_
    obtain ⟨x, hx⟩ := List.mem_iff_getElem?.1 hk
    rw [List.getElem?_drop] at hx
    simpa using notMem_sweptBy (Nat.le_add_right _ _) hx
  rw [fromCursor, ← List.rotate_mod, OrderedMap.length_keys, h.cursor, hkeys,
    rotate_filter hle (hu.survives_before le_rfl hi), hrot,
    List.rotate_eq_drop_append_take (by simpa using hi.le), List.filter_append, hdrop]

/-- The next sweep examines the keys that are next. -/
theorem Reached.mem_window (hix : i * m ≤ x) (hx : x < (i + 1) * m)
    (hget : s.fromCursor[x]? = some k) : k ∈ t.sweepWindow (some m) := by
  have hlt := lt_size_of_getElem? hget
  have hfrom := h.fromCursor_eq hu hi
  have hlen := congrArg List.length hfrom
  rw [length_fromCursor, List.length_append, List.length_drop, length_fromCursor] at hlen
  rw [Nat.add_mul, Nat.one_mul] at hx
  have hx' : x - i * m < min (m : ℕ) t.store.size := by omega
  have hget' : t.fromCursor[x - i * m]? = some k := by
    rw [hfrom, List.getElem?_append_left (by rw [List.length_drop, length_fromCursor]; omega),
      List.getElem?_drop, Nat.add_sub_cancel' hix, hget]
  refine List.mem_of_getElem? (i := x - i * m) ?_
  show (t.fromCursor.take (min (m : ℕ) t.store.size))[x - i * m]? = some k
  rw [List.getElem?_take_of_lt hx', hget']

omit hu hi in
/-- An entry still to come is as it was. -/
theorem Reached.staleAt_eq (hix : i * m ≤ x) (hget : s.fromCursor[x]? = some k) :
    t.staleAt now k = s.staleAt now k :=
  staleAt_congr (by rw [h.store, OrderedMap.get?_without, if_neg (notMem_sweptBy hix hget)])

/-- With more keys to come than the next sweep examines, its window is the next block. -/
theorem Reached.window_eq (hi' : (i + 1) * m < s.store.size) :
    t.sweepWindow (some m) = (s.fromCursor.drop (i * m)).take m ∧ (m : ℕ) ≤ t.store.size := by
  have hfrom := h.fromCursor_eq hu hi
  have hlen := congrArg List.length hfrom
  rw [length_fromCursor, List.length_append, List.length_drop, length_fromCursor] at hlen
  rw [Nat.add_mul, Nat.one_mul] at hi'
  have hm : (m : ℕ) ≤ t.store.size := by omega
  refine ⟨?_, hm⟩
  show t.fromCursor.take (min (m : ℕ) t.store.size) = _
  rw [min_eq_left hm, hfrom, List.take_append_of_le_length]
  rw [List.length_drop, length_fromCursor]
  omega

/-- **The sweep leaves its cursor at the key after its window.** -/
theorem Reached.cursor_next (hi' : (i + 1) * m < s.store.size) :
    (t.sweepCursor + m) % t.store.size = s.position ((i + 1) * m) := by
  have hnext : (i + 1) * (m : ℕ) = i * m + m := by rw [Nat.add_mul, Nat.one_mul]
  rw [← Nat.mod_add_mod, h.cursor]
  by_cases hend : i * m < s.untilEnd
  · rw [size_eq_of_lt_untilEnd hu h.store hend, position, Nat.mod_add_mod, position, hnext,
      Nat.add_assoc]
  · have hlt := position_lt_size hu h.store (x := (i + 1) * m) (by omega) hi'
    have hstep : s.position (i * m) + m = s.position ((i + 1) * m) := by
      rw [position_eq hi, position_eq hi', if_neg hend, if_neg (by omega)]
      omega
    rw [hstep, Nat.mod_eq_of_lt hlt]

end Reached

/-! ### The next sweep -/

theorem sweptBy_succ (s : CacheStore) (now : ℤ) (m : ℕ+) (i : ℕ) : s.sweptBy now m (i + 1) =
    s.sweptBy now m i ++ ((s.fromCursor.drop (i * m)).take m).filter (s.staleAt now) := by
  rw [sweptBy, Nat.add_mul, Nat.one_mul, List.take_add, List.filter_append, sweptBy]

/-- What a sweep does to the store that was reached. -/
theorem Reached.purge (h : Reached s now m i t) (hn : 1 ≤ t.store.size) :
    ∃ t', (t.purgeExpired (Stream'.const now) (boundedOptions m)).map (fun r => r.2.1) = some t' ∧
      Sync t' ∧
      t'.store = s.store.without
        ((t.sweepWindow (some m)).filter (t.staleAt now) ++ s.sweptBy now m i) ∧
      (t'.store.size ≠ 0 →
        t'.sweepCursor = (t.sweepCursor + min (m : ℕ) t.store.size) % t.store.size) := by
  obtain ⟨swept, hswept, heq⟩ :=
    purgeExpired_spec h.sync hn (purgeArguments_bounded m) (Stream'.const now)
  refine ⟨{ swept with sweepCursor := t.nextCursor (min (m : ℕ) t.store.size) t.store.size swept },
    by rw [heq]; rfl, hswept.sync.congr rfl (List.Perm.refl _) rfl, ?_, fun hne => ?_⟩
  · show swept.store = _
    rw [hswept.store, h.store, OrderedMap.without_without]
    rfl
  · exact if_neg hne

/-- One more sweep, with keys still to come after it. -/
theorem Reached.next (h : Reached s now m i t) (hu : s.Undisturbed now m (i + 1))
    (hi' : (i + 1) * m < s.store.size) :
    ∃ t', (t.purgeExpired (Stream'.const now) (boundedOptions m)).map (fun r => r.2.1) = some t' ∧
      Reached s now m (i + 1) t' := by
  have hu' : s.Undisturbed now m i := hu.mono (Nat.le_succ i)
  have hi : i * m < s.store.size :=
    lt_of_le_of_lt (Nat.mul_le_mul_right _ (Nat.le_succ i)) hi'
  obtain ⟨hwindow, hm⟩ := h.window_eq hu' hi hi'
  obtain ⟨t', hpurge, hsync, hstore, hcursor⟩ := h.purge (le_trans m.pos hm)
  have hfilter : (t.sweepWindow (some m)).filter (t.staleAt now) =
      ((s.fromCursor.drop (i * m)).take m).filter (s.staleAt now) := by
    rw [hwindow]
    refine List.filter_congr fun k hk => ?_
    obtain ⟨x, hx⟩ := List.mem_iff_getElem?.1 (List.mem_of_mem_take hk)
    rw [List.getElem?_drop] at hx
    exact h.staleAt_eq (Nat.le_add_right _ _) hx
  have hstore' : t'.store = s.store.without (s.sweptBy now m (i + 1)) := by
    rw [hstore, hfilter, sweptBy_succ]
    refine OrderedMap.without_congr fun j => ?_
    rw [List.mem_append, List.mem_append, or_comm]
  have hlt := position_lt_size hu hstore' le_rfl hi'
  refine ⟨t', hpurge, hsync, hstore', ?_⟩
  rw [hcursor (by omega), min_eq_left hm, h.cursor_next hu' hi hi', Nat.mod_eq_of_lt hlt]

/-- **Undisturbed sweeps keep to their order.** -/
theorem Undisturbed.reached {j : ℕ} (hs : Sync s) (hu : s.Undisturbed now m j) (hij : i ≤ j)
    (hi : i * m < s.store.size) : ∃ t, s.afterSweeps now m i = some t ∧ Reached s now m i t := by
  induction i with
  | zero => exact ⟨s, rfl, reached_zero hs⟩
  | succ i ih =>
    obtain ⟨t, hafter, h⟩ := ih (by omega)
      (lt_of_le_of_lt (Nat.mul_le_mul_right _ (Nat.le_succ i)) hi)
    obtain ⟨t', hpurge, h'⟩ := h.next (hu.mono hij) hi
    exact ⟨t', by rw [afterSweeps, hafter, Option.bind_some, hpurge], h'⟩

/-! ### All of them -/

/-- The last round begins before the end and reaches it. -/
theorem rounds_spec (hn : 1 ≤ s.store.size) : ∃ last, s.rounds m = last + 1 ∧
    last * m < s.store.size ∧ s.store.size ≤ (last + 1) * m := by
  have hm := m.pos
  have hpos : 1 ≤ s.rounds m := (Nat.le_div_iff_mul_le hm).2 (by omega)
  have hlow : s.rounds m * m ≤ s.store.size + m - 1 := Nat.div_mul_le_self _ _
  have hhigh : s.store.size + m - 1 < (s.rounds m + 1) * m :=
    (Nat.div_lt_iff_lt_mul hm).1 (Nat.lt_succ_self _)
  obtain ⟨last, hlast⟩ := Nat.exists_eq_add_of_le' hpos
  rw [hlast, Nat.add_mul, Nat.one_mul] at hlow
  rw [hlast, Nat.add_mul, Nat.one_mul] at hhigh
  exact ⟨last, hlast, by omega, by omega⟩

/-- **Undisturbed sweeps examine every key and leave no expired entry.** -/
theorem Undisturbed.covers (hs : Sync s) (hn : 1 ≤ s.store.size)
    (hu : s.Undisturbed now m (s.rounds m - 1)) : s.SweepsCover now m := by
  obtain ⟨last, hrounds, hlast, hend⟩ := rounds_spec (m := m) hn
  rw [hrounds, Nat.add_sub_cancel] at hu
  unfold SweepsCover
  rw [hrounds]
  constructor
  · intro k hk
    obtain ⟨x, hget⟩ := List.mem_iff_getElem?.1 (List.mem_rotate.2 hk : k ∈ s.fromCursor)
    have hlt := lt_size_of_getElem? hget
    have hblock : x / m * m ≤ x := Nat.div_mul_le_self x m
    have hx : x < (x / m + 1) * m := (Nat.div_lt_iff_lt_mul m.pos).1 (Nat.lt_succ_self _)
    have hle : x / m ≤ last :=
      Nat.lt_succ_iff.1 ((Nat.div_lt_iff_lt_mul m.pos).2 (lt_of_lt_of_le hlt hend))
    obtain ⟨t, hafter, h⟩ := hu.reached hs hle (lt_of_le_of_lt hblock hlt)
    exact ⟨x / m, Nat.lt_succ_of_le hle, t, hafter,
      h.mem_window (hu.mono hle) (lt_of_le_of_lt hblock hlt) hblock hx hget⟩
  · obtain ⟨t, hafter, h⟩ := hu.reached hs le_rfl hlast
    have hpos : 1 ≤ t.store.size :=
      Nat.one_le_iff_ne_zero.2 (Nat.ne_zero_of_lt (position_lt_size hu h.store le_rfl hlast))
    obtain ⟨t', hpurge, -, hstore, -⟩ := h.purge hpos
    refine ⟨t', by rw [afterSweeps, hafter, Option.bind_some, hpurge], ?_⟩
    rintro k ⟨e, d, he, hd, hle⟩
    rw [hstore, OrderedMap.get?_without] at he
    split_ifs at he with hswept
    have hstale : s.Stale k now := ⟨e, d, he, hd, hle⟩
    have hk : k ∈ s.fromCursor := List.mem_rotate.2 (OrderedMap.mem_keys_of_get? he)
    obtain ⟨x, hget⟩ := List.mem_iff_getElem?.1 hk
    have hlt := lt_size_of_getElem? hget
    refine hswept (List.mem_append.2 ?_)
    -- examined before the last sweep, or by it
    rcases Nat.lt_or_ge x (last * m) with hx | hx
    · exact Or.inr (mem_sweptBy.2 ⟨⟨x, hx, hget⟩, hstale⟩)
    · refine Or.inl (List.mem_filter.2 ⟨h.mem_window hu hlast hx (by omega) hget, ?_⟩)
      rw [h.staleAt_eq hx hget]
      exact staleAt_iff.2 hstale

/-! ### Where the order is lost -/

/-- The next sweep removes a key that stands before the cursor it leaves, so that the keys behind it
move past the cursor. -/
def Displaced (t : CacheStore) (now : ℤ) (m : ℕ+) : Prop :=
  ∃ k ∈ t.store.keys.take ((t.sweepCursor + min (m : ℕ) t.store.size) % t.store.size),
    k ∈ t.sweepWindow (some m) ∧ t.Stale k now

/-- A key outside the block of the last key stands before the cursor that its block leaves. -/
theorem position_lt_next (hx : x < s.store.size) (hnext : (x / m + 1) * m < s.store.size)
    (hout : ¬ (x < s.untilEnd ∧ x / m = (s.untilEnd - 1) / m)) :
    s.position x < s.position ((x / m + 1) * m) := by
  have hblock : x < (x / m + 1) * m := (Nat.div_lt_iff_lt_mul m.pos).1 (Nat.lt_succ_self _)
  have hle : s.untilEnd ≤ s.store.size := Nat.sub_le _ _
  rw [position_eq hx, position_eq hnext]
  by_cases hend : x < s.untilEnd
  · -- an earlier block than that of the last key
    have hne : x / m ≠ (s.untilEnd - 1) / m := fun h => hout ⟨hend, h⟩
    have hdiv : x / m ≤ (s.untilEnd - 1) / m := Nat.div_le_div_right (by omega)
    have hfull : (x / m + 1) * m ≤ s.untilEnd - 1 :=
      (Nat.le_div_iff_mul_le m.pos).1 (by omega)
    rw [if_pos hend, if_pos (by omega)]
    omega
  · rw [if_neg hend, if_neg (by omega)]
    omega

/-- **Where the condition fails, a sweep before the last one passes over keys.** -/
theorem exists_displaced (hs : Sync s) (hn : 1 ≤ s.store.size)
    (hu : ¬ s.Undisturbed now m (s.rounds m - 1)) :
    ∃ i < s.rounds m - 1, ∃ t, s.afterSweeps now m i = some t ∧ t.Displaced now m := by
  obtain ⟨last, hrounds, hlast, -⟩ := rounds_spec (m := m) hn
  rw [hrounds, Nat.add_sub_cancel] at hu ⊢
  -- the first key that breaks the condition
  have hex : ∃ x k, x < last * m ∧ s.fromCursor[x]? = some k ∧ s.Stale k now ∧
      ¬ (x < s.untilEnd ∧ x / m = (s.untilEnd - 1) / m) := by
    by_contra hno
    refine hu fun x k hx hget hstale => ?_
    by_contra hout
    exact hno ⟨x, k, hx, hget, hstale, hout⟩
  classical
  obtain ⟨k, hx, hget, hstale, hout⟩ := Nat.find_spec hex
  set x := Nat.find hex with hfind
  have hlt := lt_size_of_getElem? hget
  have hi : x / m < last := (Nat.div_lt_iff_lt_mul m.pos).2 hx
  have hblock : x / m * m ≤ x := Nat.div_mul_le_self x m
  have hnext : (x / m + 1) * m < s.store.size :=
    lt_of_le_of_lt (Nat.mul_le_mul_right _ hi) hlast
  have hbefore : s.Undisturbed now m (x / m) := by
    intro x' k' hx' hget' hstale'
    by_contra hout'
    exact Nat.find_min hex (m := x') (by omega) ⟨k', by omega, hget', hstale', hout'⟩
  obtain ⟨t, hafter, h⟩ := hbefore.reached hs le_rfl (lt_of_le_of_lt hblock hlt)
  have hblock_lt := lt_of_le_of_lt hblock hlt
  obtain ⟨-, hm⟩ := h.window_eq hbefore hblock_lt hnext
  refine ⟨x / m, hi, t, hafter, k, ?_, ?_, ?_⟩
  · rw [min_eq_left hm, h.cursor_next hbefore hblock_lt hnext, h.store, OrderedMap.keys_without]
    -- the survivors before a position are before it still
    have hprefix : ((s.store.keys.take (s.position ((x / m + 1) * m))).filter
        (· ∉ s.sweptBy now m (x / m))) <+: (s.store.keys.filter
          (· ∉ s.sweptBy now m (x / m))).take (s.position ((x / m + 1) * m)) :=
      List.prefix_take_iff.2 ⟨(List.take_prefix _ _).filter _,
        (List.length_filter_le _ _).trans (List.length_take_le _ _)⟩
    refine hprefix.subset (List.mem_filter.2 ⟨?_, by simpa using notMem_sweptBy hblock hget⟩)
    rw [getElem?_fromCursor hlt] at hget
    refine List.mem_of_getElem? (i := s.position x) ?_
    rw [List.getElem?_take_of_lt (position_lt_next hlt hnext hout), hget]
  · exact h.mem_window hbefore hblock_lt hblock
      ((Nat.div_lt_iff_lt_mul m.pos).1 (Nat.lt_succ_self _)) hget
  · rw [← staleAt_iff, h.staleAt_eq hblock hget]
    exact staleAt_iff.2 hstale

/-! ### From any reachable store -/

variable {past : List CallEvent} {maxEntries maxMemoryBytes : Option ℕ+}

/-- **When the sampled sweep is a round robin.** From any reachable store and any cursor, `⌈n / m⌉`
sweeps of at most `m` keys at one reading of the clock examine every key and leave no expired entry,
if the keys that have expired among those before the last round lie in the block of the last key of
the insertion order, and not behind it. Otherwise one of these sweeps removes a key that stands
before the cursor it leaves. -/
theorem sweeps_cover_of_undisturbed (hrun : (system maxEntries maxMemoryBytes).Run past s)
    (hn : 1 ≤ s.store.size) (cursor : ℕ) (now : ℤ) (m : ℕ+) :
    let t := { s with sweepCursor := cursor }
    (t.Undisturbed now m (t.rounds m - 1) → t.SweepsCover now m) ∧
      (¬ t.Undisturbed now m (t.rounds m - 1) →
        ∃ i < t.rounds m - 1, ∃ u, t.afterSweeps now m i = some u ∧ u.Displaced now m) := by
  intro t
  have hsync : Sync t := (reachable_inv hrun).toSync.congr rfl (List.Perm.refl _) rfl
  exact ⟨Undisturbed.covers hsync hn, exists_displaced hsync hn⟩

/-- A store with four entries, the first and the third of which expire. -/
theorem exists_four_entries : ∃ past s, (system none none).Run past s ∧ 1 ≤ s.store.size ∧
    (∃ t, s.afterSweeps 5000 2 (s.rounds 2) = some t ∧ t.staleAt 5000 (js "c") = true) ∧
    { s with sweepCursor := 2 }.Undisturbed 5000 2 ({ s with sweepCursor := 2 }.rounds 2 - 1) := by
  let calls : List Call := [
    .set (.string (js "a")) (.string (js "1")) (.object (.number (.int 1)) .undefined),
    .set (.string (js "b")) (.string (js "2")) .undefined,
    .set (.string (js "c")) (.string (js "3")) (.object (.number (.int 1)) .undefined),
    .set (.string (js "d")) (.string (js "4")) .undefined]
  have hrun : (CacheStore.new none none).run (Stream'.const 0) calls = some (_, _, _) := rfl
  obtain ⟨past, h⟩ := reachable_of_run .start hrun
  exact ⟨past, _, h, by decide, ⟨_, rfl, rfl⟩, by decide⟩

/-- **The sampled sweep is no round robin.** The first of two sweeps removes `a` and leaves the cursor
behind `c`, which has moved up; the second sweep examines `d` and `b`. -/
theorem sweeps_miss : ∃ past s, (system none none).Run past s ∧ 1 ≤ s.store.size ∧
    ¬ s.SweepsCover 5000 2 := by
  obtain ⟨past, s, h, hn, ⟨t, hafter, hstale⟩, -⟩ := exists_four_entries
  refine ⟨past, s, h, hn, fun hcover => ?_⟩
  obtain ⟨t', hafter', hnone⟩ := hcover.2
  rw [hafter] at hafter'
  cases hafter'
  exact hnone _ (staleAt_iff.1 hstale)

/-- From the third key on, the same store is swept as it should be. -/
theorem sweeps_cover_of_undisturbed_example : ∃ past s, (system none none).Run past s ∧
    { s with sweepCursor := 2 }.SweepsCover 5000 2 := by
  obtain ⟨past, s, h, hn, -, hu⟩ := exists_four_entries
  exact ⟨past, s, h, (sweeps_cover_of_undisturbed h hn 2 5000 2).1 hu⟩

end CacheStore
end DistributedCache
