import DistributedCache.CacheCore.Accounting
import DistributedCache.CacheCore.Fairness

/-!
# Rounds of a sweep among other calls

A sampled sweep may pass over a key, but only where some key has gone and the others have moved up
(`exists_displaced`). So what is behind the cursor stays free of expired keys until a key goes
(`Behind`), whatever is called in between: a new key comes in at the end of the insertion order, and
it has not expired. `exec_advance` says this of one call. Either a key has gone for each one that
could have come, or the cursor has moved on over keys that had not expired.
-/

namespace DistributedCache

/-! ### A circle with one more element -/

/-- The last elements of a list with one more in the middle. -/
theorem mem_drop_append_cons {α : Type*} {xs ys : List α} {x a : α} {w : ℕ}
    (h : a ∈ (xs ++ x :: ys).drop ((xs ++ ys).length + 1 - w)) :
    a = x ∨ a ∈ (xs ++ ys).drop ((xs ++ ys).length - w) := by
  rw [List.length_append] at h ⊢
  rcases Nat.lt_or_ge ys.length w with hlong | hshort
  · -- the new element is among them
    rw [List.drop_append_of_le_length (by omega)] at h ⊢
    have hmove : xs.length + ys.length + 1 - w = xs.length + ys.length - w ∨
        xs.length + ys.length + 1 - w = xs.length + ys.length - w + 1 := by omega
    rcases List.mem_append.1 h with ha | ha
    · refine Or.inr (List.mem_append_left _ ?_)
      rcases hmove with hmove | hmove
      · rwa [hmove] at ha
      · rw [hmove, ← List.drop_drop] at ha
        exact List.mem_of_mem_drop ha
    · rcases List.mem_cons.1 ha with ha | ha
      · exact Or.inl ha
      · exact Or.inr (List.mem_append_right _ ha)
  · have hdrop : (xs ++ x :: ys).drop (xs.length + ys.length + 1 - w) =
        (xs ++ ys).drop (xs.length + ys.length - w) := by
      rw [show xs.length + ys.length + 1 - w = xs.length + (ys.length - w + 1) by omega,
        show xs.length + ys.length - w = xs.length + (ys.length - w) by omega,
        List.drop_length_add_append, List.drop_length_add_append, List.drop_succ_cons]
    exact Or.inr (hdrop ▸ h)

namespace CacheStore

open Relation

variable {s s' t : CacheStore} {c c' : Clock} {key : JsString} {now : ℤ} {w n : ℕ}
  {p p' : Moment}

/-! ### Keys that go -/

/-- `s'` is `s` without some of its keys, and with the cursor where it was. -/
structure Shrunk (s s' : CacheStore) : Prop where
  store : ∃ victims, s'.store = s.store.without victims
  cursor : s'.sweepCursor = s.sweepCursor

theorem Shrunk.refl (s : CacheStore) : Shrunk s s := ⟨⟨[], OrderedMap.without_nil.symm⟩, rfl⟩

theorem Shrunk.trans (h : Shrunk s s') (h' : Shrunk s' t) : Shrunk s t where
  store := by
    obtain ⟨vs, hvs⟩ := h.store
    obtain ⟨ws, hws⟩ := h'.store
    exact ⟨ws ++ vs, by rw [hws, hvs, OrderedMap.without_without]⟩
  cursor := h'.cursor.trans h.cursor

theorem shrunk_removeStoredKey (s : CacheStore) (key : JsString) (reason : RemoveReason) :
    Shrunk s (s.removeStoredKey key reason).2 := by
  refine ⟨?_, (frame_removeStoredKey s key reason).sweepCursor⟩
  cases he : s.store.get? key with
  | none => rw [removeStoredKey_of_none he]; exact ⟨[], OrderedMap.without_nil.symm⟩
  | some e => exact ⟨[key], by rw [removeStoredKey_store he, OrderedMap.without_singleton]⟩

theorem MissingAt.shrunk (h : MissingAt s c key s') : Shrunk s s' := by
  rcases h with ⟨rfl, -⟩ | ⟨rfl, -⟩
  · exact .refl _
  · exact shrunk_removeStoredKey s key .expire

theorem Purge.shrunk (h : Purge p p') : Shrunk p.1 p'.1 := by
  cases h with
  | lookup s c key =>
    rcases s.getLiveEntry_live_or_missing c key with ⟨e, c', h, -⟩ | ⟨s', c', h, hmiss⟩
    · rw [h]; exact .refl s
    · rw [h]; exact hmiss.shrunk
  | evict s c key =>
    unfold evictOne
    split
    · exact .refl s
    · split_ifs
      · exact .refl s
      · exact shrunk_removeStoredKey s _ _
  | sweep s c key purged =>
    rw [sweepKey_eq]
    split_ifs
    · exact shrunk_removeStoredKey s key .expire
    · exact .refl s
  | read s c => exact .refl s
  | touch s c key => exact ⟨⟨[], OrderedMap.without_nil.symm⟩, rfl⟩

theorem shrunk_of_purges (h : ReflTransGen Purge p p') : Shrunk p.1 p'.1 := by
  induction h with
  | refl => exact .refl _
  | tail _ step ih => exact ih.trans step.shrunk

/-- Either a key has gone, or none has. -/
theorem size_without_lt_or_eq (m : OrderedMap JsString CacheEntry) (victims : List JsString) :
    (m.without victims).size < m.size ∨ m.without victims = m := by
  rw [← OrderedMap.length_keys, ← OrderedMap.length_keys, OrderedMap.keys_without]
  rcases (List.length_filter_le (· ∉ victims) m.keys).lt_or_eq with hlt | heq
  · exact Or.inl hlt
  · rw [List.length_filter_eq_length_iff] at heq
    refine Or.inr (OrderedMap.ext (List.filter_eq_self.2 fun e he => ?_))
    exact heq e.1 (List.mem_map_of_mem he)

theorem Shrunk.fewer_or_same (h : Shrunk s s') :
    s'.store.size < s.store.size ∨ s'.store = s.store := by
  obtain ⟨victims, hstore⟩ := h.store
  rw [hstore]
  exact size_without_lt_or_eq s.store victims

theorem Shrunk.stale (h : Shrunk s s') (hk : s'.Stale key now) : s.Stale key now := by
  obtain ⟨victims, hstore⟩ := h.store
  obtain ⟨e, d, he, hd, hle⟩ := hk
  rw [hstore, OrderedMap.get?_without] at he
  split_ifs at he
  exact ⟨e, d, he, hd, hle⟩

/-! ### Behind the cursor -/

/-- None of the `w` keys behind the cursor has expired. The cursor may stand anywhere until the
first of them has been examined. -/
structure Behind (s : CacheStore) (now : ℤ) (w : ℕ) : Prop where
  clean : ∀ k ∈ s.fromCursor.drop (s.store.size - w), ¬ s.Stale k now
  cursor : w = 0 ∨ s.sweepCursor ≤ s.store.size

theorem behind_zero (s : CacheStore) (now : ℤ) : Behind s now 0 where
  clean := by
    rw [Nat.sub_zero, ← length_fromCursor, List.drop_length]
    exact fun k hk => absurd hk List.not_mem_nil
  cursor := Or.inl rfl

theorem Behind.mono (h : Behind s now w) (hn : n ≤ w) : Behind s now n where
  clean k hk := by
    refine h.clean k ?_
    rw [show s.store.size - n = s.store.size - w + (s.store.size - n - (s.store.size - w)) by omega,
      ← List.drop_drop] at hk
    exact List.mem_of_mem_drop hk
  cursor := by
    have := h.cursor
    omega

/-- A whole round. -/
theorem Behind.round (h : Behind s now w) (hw : s.store.size ≤ w) (k : JsString) :
    ¬ s.Stale k now := by
  intro hstale
  refine h.clean k ?_ hstale
  obtain ⟨e, -, he, -⟩ := hstale
  rw [Nat.sub_eq_zero_of_le hw, List.drop_zero, fromCursor, List.mem_rotate]
  exact OrderedMap.mem_keys_of_get? he

/-- A sweep that finds nothing moves the cursor on over clean keys. -/
theorem Behind.sweep (h : Behind s now w) (hstore : t.store = s.store) (hn : n ≤ s.store.size)
    (hcursor : t.sweepCursor = (s.sweepCursor + n) % s.store.size)
    (hclean : ∀ k ∈ s.fromCursor.take n, ¬ s.Stale k now) : Behind t now (w + n) where
  clean k hk := by
    have hstale : t.Stale k now ↔ s.Stale k now := by rw [Stale, Stale, hstore]
    have hfrom : t.fromCursor = s.fromCursor.drop n ++ s.fromCursor.take n := by
      rw [fromCursor, hstore, hcursor, ← OrderedMap.length_keys, List.rotate_mod,
        ← List.rotate_rotate, List.rotate_eq_drop_append_take (by simpa using hn)]
      rfl
    rw [hstale]
    rw [hfrom, hstore] at hk
    rcases Nat.le_total (s.store.size - (w + n)) (s.fromCursor.drop n).length with hle | hle
    · rw [List.drop_append_of_le_length hle, List.drop_drop] at hk
      rcases List.mem_append.1 hk with hk | hk
      · refine h.clean k ?_
        rw [show n + (s.store.size - (w + n)) =
          s.store.size - w + (n + (s.store.size - (w + n)) - (s.store.size - w)) by omega,
          ← List.drop_drop] at hk
        exact List.mem_of_mem_drop hk
      · exact hclean k hk
    · rw [List.drop_append, List.drop_eq_nil_of_le hle, List.nil_append] at hk
      exact hclean k (List.mem_of_mem_drop hk)
  cursor := by
    rw [hcursor, hstore]
    rcases Nat.eq_zero_or_pos s.store.size with hzero | hpos
    · rw [hzero, Nat.mod_zero]
      have := h.cursor
      omega
    · exact Or.inr (Nat.mod_lt _ hpos).le

/-- A new key comes in at the end of the insertion order. -/
theorem Behind.append (h : Behind s now w) (hkeys : t.store.keys = s.store.keys ++ [key])
    (hcursor : t.sweepCursor = s.sweepCursor) (hkey : ¬ t.Stale key now)
    (hold : ∀ k, t.Stale k now → s.Stale k now) : Behind t now w := by
  have hsize : t.store.size = s.store.size + 1 := by
    rw [← OrderedMap.length_keys, hkeys, List.length_append, OrderedMap.length_keys]
    rfl
  rcases h.cursor with rfl | hle
  · exact behind_zero t now
  · have hlen : s.sweepCursor ≤ s.store.keys.length := by rwa [OrderedMap.length_keys]
    have hs : s.fromCursor = s.store.keys.drop s.sweepCursor ++ s.store.keys.take s.sweepCursor :=
      List.rotate_eq_drop_append_take hlen
    have ht : t.fromCursor =
        s.store.keys.drop s.sweepCursor ++ key :: s.store.keys.take s.sweepCursor := by
      rw [fromCursor, hkeys, hcursor,
        List.rotate_eq_drop_append_take (by rw [List.length_append]; omega),
        List.drop_append_of_le_length hlen, List.take_append_of_le_length hlen, List.append_assoc]
      rfl
    refine ⟨fun k hk hstale => ?_, Or.inr (by rw [hcursor, hsize]; omega)⟩
    rw [ht, hsize, ← length_fromCursor, hs] at hk
    rcases mem_drop_append_cons hk with rfl | hk
    · exact hkey hstale
    · rw [← hs, length_fromCursor] at hk
      exact h.clean k hk (hold k hstale)

/-! ### One call -/

/-- What happens to the round: nothing new has expired, and either a key has gone for each of the
`added` ones, or `examined` keys have come behind the cursor. -/
structure Advance (s : CacheStore) (now : ℤ) (added examined : ℕ) (s' : CacheStore) : Prop where
  stale : ∀ k, s'.Stale k now → s.Stale k now
  round : s'.store.size < s.store.size + added ∨
    s'.store.size = s.store.size + added ∧ ∀ w, Behind s now w → Behind s' now (w + examined)

theorem Shrunk.advance (h : Shrunk s s') : Advance s now 0 0 s' where
  stale _ hk := h.stale hk
  round := by
    rcases h.fewer_or_same with hlt | hstore
    · exact Or.inl hlt
    · refine Or.inr ⟨by rw [hstore]; rfl, fun w hw => ⟨fun k hk hstale => ?_, ?_⟩⟩
      · rw [fromCursor, hstore, h.cursor] at hk
        exact hw.clean k hk (h.stale hstale)
      · rw [hstore, h.cursor]
        exact hw.cursor

theorem purge_advance (hs : Sync s) {options : JsValue} {maxExamined : Option ℕ}
    (hargs : purgeArguments options = .ok maxExamined) {r : Except CacheError ℕ}
    (hnow : now ≤ c.head) (h : s.purgeExpired c options = some (r, s', c')) :
    Advance s now 0 (sweepCount maxExamined s.store.size) s' := by
  rcases Nat.eq_zero_or_pos s.store.size with hzero | hpos
  · have heq : s.purgeExpired c options = some (.ok 0, { s with sweepCursor := 0 }, c) := by
      simp only [purgeExpired, hargs, if_pos hzero]
    obtain ⟨rfl, rfl, rfl⟩ : .ok 0 = r ∧ { s with sweepCursor := 0 } = s' ∧ c = c' := by
      simpa using heq.symm.trans h
    refine ⟨fun _ hk => hk, Or.inr ⟨rfl, fun w _ => ⟨fun k hk => ?_, Or.inr (Nat.zero_le _)⟩⟩⟩
    have hnil : fromCursor { s with sweepCursor := 0 } = [] :=
      List.eq_nil_of_length_eq_zero ((length_fromCursor _).trans hzero)
    rw [hnil, List.drop_nil] at hk
    exact absurd hk List.not_mem_nil
  · obtain ⟨swept, hswept, heq⟩ := purgeExpired_spec hs hpos hargs c
    cases h.symm.trans heq
    have hstale {k : JsString} (hk : swept.Stale k now) : s.Stale k now := by
      obtain ⟨e, d, he, hd, hle⟩ := hk
      rw [hswept.get?] at he
      split_ifs at he
      exact ⟨e, d, he, hd, hle⟩
    refine ⟨fun k hk => hstale hk, ?_⟩
    set victims := (s.sweepWindow maxExamined).filter (s.staleAt c.head) with hvictims
    rcases size_without_lt_or_eq s.store victims with hlt | heq
    · rw [← hswept.store] at hlt
      exact Or.inl hlt
    · rw [← hswept.store] at heq
      -- nothing was taken out, so nothing in the window had expired
      have hclean : ∀ k ∈ s.fromCursor.take (sweepCount maxExamined s.store.size),
          ¬ s.Stale k now := by
        rintro k hk ⟨e, d, he, hd, hle⟩
        have hle' := hle.trans (WithTop.coe_le_coe.2 hnow)
        have hmem : k ∈ victims := List.mem_filter.2 ⟨hk, staleAt_iff.2 ⟨e, d, he, hd, hle'⟩⟩
        have hgone := hswept.get? k
        rw [if_pos hmem, heq, he] at hgone
        cases hgone
      have hsize : swept.store.size ≠ 0 := by
        rw [heq]
        omega
      refine Or.inr ⟨congrArg OrderedMap.size heq, fun w hw => ?_⟩
      exact hw.sweep heq (sweepCount_le _ _) (if_neg hsize) hclean

/-! ### A `set` -/

theorem setArguments_pos {key value options : JsValue} {k v : JsString} {n : ℤ}
    (h : setArguments key value options = .ok (k, v, some n)) : 0 < n := by
  unfold setArguments at h
  obtain ⟨k', -, h⟩ := bind_eq_ok_iff.1 h
  obtain ⟨v', -, h⟩ := bind_eq_ok_iff.1 h
  obtain ⟨o, -, h⟩ := bind_eq_ok_iff.1 h
  by_cases hu : o.1 = .undefined
  · rw [if_pos hu] at h
    cases h
  · rw [if_neg hu] at h
    obtain ⟨m, hm, h⟩ := bind_eq_ok_iff.1 h
    cases h
    exact (assertValidEx_eq_ok_iff.1 hm).2

/-- What a `set` that is not refused leaves in the map. -/
theorem set_writes {key value options : JsValue} {k v : JsString} {ex : Option ℤ}
    {r : Except CacheError Unit} (hargs : setArguments key value options = .ok (k, v, ex))
    (h : s.set c key value options = some (r, s', c')) :
    ∃ t, Shrunk s t ∧ (s' = t ∨ s'.sweepCursor = t.sweepCursor ∧ s'.store =
      t.store.set k ⟨v, ex.map (expiryOf c.head), entrySizeBytes k v⟩) := by
  rw [set, hargs] at h
  simp only at h
  by_cases hlarge : s.entryTooLarge (entrySizeBytes k v) = true
  · rw [if_pos hlarge] at h
    cases h
    exact ⟨s, .refl s, Or.inl rfl⟩
  · rw [if_neg hlarge] at h
    obtain ⟨p, hpurges, -, ⟨-, hp⟩ | ⟨-, hp⟩⟩ := setEntry_steps h
    · exact ⟨p.1, shrunk_of_purges hpurges, Or.inl (congrArg Prod.fst hp)⟩
    · have hs' := congrArg Prod.fst hp
      simp only at hs'
      exact ⟨p.1, shrunk_of_purges hpurges, Or.inr (by rw [hs']; exact ⟨rfl, rfl⟩)⟩

theorem set_advance {key value options : JsValue} {r : Except CacheError Unit}
    (hsafe : now.natAbs < 2 ^ 53) (hnow : now ≤ c.head)
    (h : s.set c key value options = some (r, s', c')) :
    Advance s now 1 0 s' := by
  cases hargs : setArguments key value options with
  | error e =>
    have hs' : s' = s := by
      rw [set, hargs] at h
      cases h
      rfl
    rw [hs']
    exact ⟨fun _ hk => hk, Or.inl (Nat.lt_succ_self _)⟩
  | ok args =>
    obtain ⟨k, v, ex⟩ := args
    obtain ⟨t, hshrunk, rfl | ⟨hcursor, hstore⟩⟩ := set_writes hargs h
    · refine ⟨fun _ hk => hshrunk.stale hk, Or.inl ?_⟩
      rcases hshrunk.fewer_or_same with hlt | hsame
      · omega
      · rw [hsame]
        exact Nat.lt_succ_self _
    · have hkey : ¬ s'.Stale k now := by
        rintro ⟨e, d, he, hd, hle⟩
        rw [hstore, OrderedMap.get?_set_self] at he
        cases he
        obtain ⟨n, hn, rfl⟩ := Option.map_eq_some_iff.1 hd
        rw [hn] at hargs
        exact absurd hle (not_le.2 (lt_expiryOf hsafe hnow (setArguments_pos hargs)))
      have hold : ∀ j, s'.Stale j now → t.Stale j now := by
        rintro j hstale
        have hj : j ≠ k := fun hj => hkey (hj ▸ hstale)
        obtain ⟨e, d, he, hd, hle⟩ := hstale
        rw [hstore, OrderedMap.get?_set_of_ne hj] at he
        exact ⟨e, d, he, hd, hle⟩
      refine ⟨fun j hj => hshrunk.stale (hold j hj), ?_⟩
      have hsize := congrArg OrderedMap.size hstore
      rw [OrderedMap.size_set] at hsize
      split_ifs at hsize with hmem
      · -- overwritten where it stood
        rcases hshrunk.fewer_or_same with hlt | hsame
        · exact Or.inl (by omega)
        · exact Or.inl (by rw [hsize, hsame]; exact Nat.lt_succ_self _)
      · rcases hshrunk.fewer_or_same with hlt | hsame
        · exact Or.inl (by omega)
        · have hkeys := congrArg OrderedMap.keys hstore
          rw [OrderedMap.keys_set_of_notMem hmem, hsame] at hkeys
          refine Or.inr ⟨by rw [hsize, hsame], fun w hw => ?_⟩
          exact hw.append hkeys (hcursor.trans hshrunk.cursor) hkey
            fun j hj => hshrunk.stale (hold j hj)

/-! ### Any call -/

/-- How many keys a call may add. -/
def added : Call → ℕ
  | .set _ _ _ => 1
  | _ => 0

/-- The calls on one key that is not set. -/
theorem Effect.shrunk {op : Op} {r : Except CacheError Reply} (h : Effect s c op r s')
    (hset : ∀ k v ex, op ≠ .set k v ex) (hpurge : ∀ m, op ≠ .purgeExpired m) : Shrunk s s' := by
  cases h with
  | tooLarge _ | stored _ _ => exact absurd rfl (hset _ _ _)
  | swept _ _ => exact absurd rfl (hpurge _)
  | hit _ => exact ⟨(Shrunk.refl s).store, rfl⟩
  | miss h => exact ⟨h.shrunk.store, h.shrunk.cursor⟩
  | deleted h => exact shrunk_removeStoredKey s _ .delete
  | nothingToDelete h => exact h.shrunk
  | found _ => exact .refl s
  | notFound h => exact h.shrunk
  | timed _ => exact .refl s
  | notTimed h => exact h.shrunk

/-- **One call keeps a round going**, or a key has gone for each one that could have come. -/
theorem exec_advance (hs : Inv s) {call : Call} {r : Except CacheError Reply}
    (hsafe : now.natAbs < 2 ^ 53) (hnow : now ≤ c.head) (h : s.exec c call = some (r, s', c')) :
    ∃ n, Advance s now (added call) n s' := by
  by_cases hset : ∃ key value options, call = .set key value options
  · obtain ⟨key, value, options, rfl⟩ := hset
    obtain ⟨⟨r', s₁, c₁⟩, hrun, heq⟩ := Option.map_eq_some_iff.1 h
    cases heq
    exact ⟨0, set_advance hsafe hnow hrun⟩
  · have hadded : added call = 0 := by
      cases call with
      | set key value options => exact absurd ⟨key, value, options, rfl⟩ hset
      | _ => rfl
    rw [hadded]
    rcases exec_cases hs h with ⟨e, -, -, rfl⟩ | ⟨op, hcheck, heff⟩
    · exact ⟨0, (Shrunk.refl _).advance⟩
    · cases call with
      | set key value options => exact absurd ⟨key, value, options, rfl⟩ hset
      | purgeExpired options =>
        obtain ⟨maxExamined, hargs, -⟩ := map_eq_ok_iff.1 hcheck
        obtain ⟨⟨r', s₁, c₁⟩, hrun, heq⟩ := Option.map_eq_some_iff.1 h
        cases heq
        exact ⟨_, purge_advance hs.toSync hargs hnow hrun⟩
      | get key | delete key | existsKey key | ttl key =>
        obtain ⟨k, -, rfl⟩ := map_eq_ok_iff.1 hcheck
        exact ⟨0, (heff.shrunk (by simp) (by simp)).advance⟩

/-! ### Many calls -/

/-- Of a store that could hold `held` keys by now: none of them has expired, or `p` of the `r`
sweeps of a round have been made, and every key that has gone accounts for one round before. -/
def Draining (s : CacheStore) (now : ℤ) (m r held sweeps : ℕ) : Prop :=
  s.store.size ≤ held ∧ ((∀ k, ¬ s.Stale k now) ∨
    ∃ p < r, Behind s now (p * m) ∧ sweeps ≤ (held - s.store.size) * r + p)

theorem draining_start {m r : ℕ} (s : CacheStore) (now : ℤ) (hr : s.store.size ≤ r * m) :
    Draining s now m r s.store.size 0 := by
  refine ⟨le_rfl, ?_⟩
  rcases Nat.eq_zero_or_pos r with rfl | hpos
  · rw [Nat.zero_mul] at hr
    exact Or.inl ((behind_zero s now).round hr)
  · exact Or.inr ⟨0, hpos, by rw [Nat.zero_mul]; exact behind_zero s now, Nat.zero_le _⟩

theorem Draining.advance {m r held sweeps swept added examined : ℕ}
    (h : Draining s now m r held sweeps) (hadvance : Advance s now added examined s')
    (hr : held + added ≤ r * m)
    (hswept : swept = 0 ∨ swept = 1 ∧ added = 0 ∧ min m s.store.size ≤ examined) :
    Draining s' now m r (held + added) (sweeps + swept) := by
  obtain ⟨hle, hclean | ⟨p, hp, hbehind, hsweeps⟩⟩ := h
  · refine ⟨?_, Or.inl fun k hk => hclean k (hadvance.stale k hk)⟩
    rcases hadvance.round with hlt | ⟨heq, -⟩ <;> omega
  · rcases hadvance.round with hlt | ⟨heq, hround⟩
    · -- a key has gone, and the round starts again
      refine ⟨by omega, Or.inr ⟨0, by omega, ?_, ?_⟩⟩
      · rw [Nat.zero_mul]
        exact behind_zero s' now
      · have hpaid : (held - s.store.size + 1) * r ≤ (held + added - s'.store.size) * r :=
          Nat.mul_le_mul_right _ (by omega)
        rw [Nat.add_mul, Nat.one_mul] at hpaid
        omega
    · refine ⟨by omega, ?_⟩
      have hahead := hround _ hbehind
      rw [show held + added - s'.store.size = held - s.store.size by omega]
      rcases hswept with rfl | ⟨rfl, rfl, hexamined⟩
      · exact Or.inr ⟨p, hp, hahead.mono (Nat.le_add_right _ _), hsweeps⟩
      · rcases Nat.lt_or_ge examined m with hfew | hmany
        · exact Or.inl (hahead.round (by omega))
        · have hnext : (p + 1) * m ≤ p * m + examined := by
            rw [Nat.add_mul, Nat.one_mul]
            omega
          rcases Nat.lt_or_ge (p + 1) r with hlt | hge
          · exact Or.inr ⟨p + 1, hlt, hahead.mono hnext, by omega⟩
          · have hall := Nat.mul_le_mul_right m hge
            exact Or.inl (hahead.round (by omega))

/-- One sweep more than those accounted for leaves no key that has expired. -/
theorem Draining.drained {m r held sweeps : ℕ} (h : Draining s now m r held sweeps)
    (hsweeps : (held - s.store.size + 1) * r ≤ sweeps) (k : JsString) : ¬ s.Stale k now := by
  obtain ⟨-, hclean | ⟨p, hp, -, hle⟩⟩ := h
  · exact hclean k
  · rw [Nat.add_mul, Nat.one_mul] at hsweeps
    omega

end CacheStore
end DistributedCache
