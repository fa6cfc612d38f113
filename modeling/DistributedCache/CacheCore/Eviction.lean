import DistributedCache.Lib.ShortestCut
import DistributedCache.CacheCore.Removal

/-!
# The eviction loops and the write at the end of `set`

While a key is written, the recency list is `hd ++ others`, where `hd` is empty or the written key
alone. An eviction takes the last element of `others` (`evictOne_append`) and stops at `hd`
(`evictOne_stop`), so a loop removes a suffix of `others`, terminates within its fuel, and removes
no key that its condition would have let stay (`evictWhile_spec`). The two loops of
`ensureCapacity` together remove the shortest suffix whose removal makes both limits hold
(`ensureCapacity_spec`), and the second `ENTRY_TOO_LARGE` is not thrown.
-/

namespace DistributedCache
namespace CacheStore

variable {s s' t : CacheStore} {c : Clock} {key value : JsString}
  {hd others kept victims : List JsString}

/-! ### One eviction -/

/-- Eviction removes the last key of the recency list if it is not the protected one. -/
theorem evictOne_append {init : List JsString} {v : JsString} (hs : Sync s) (c : Clock)
    (ho : s.lru.order = hd ++ (init ++ [v])) (hv : v ≠ key) :
    ∃ e reason c', s.store.get? v = some e ∧
      s.evictOne c key = (true, (s.removeStoredKey v reason).2, c') := by
  have hlast : s.lru.peekLru = some v := by
    rw [LruList.peekLru, ho, ← List.append_assoc, List.getLast?_concat]
  have hmem : v ∈ s.lru.order := by rw [ho]; simp
  obtain ⟨e, he⟩ := OrderedMap.mem_keys_iff.1 (hs.mem_order_iff.1 hmem)
  refine ⟨e, if (victimExpired c (some e)).1 then .expire else .evict,
    (victimExpired c (some e)).2, he, ?_⟩
  simp only [evictOne, hlast, if_neg hv, he]

/-- Eviction stops at an empty list and at the protected key. -/
theorem evictOne_stop (c : Clock) (ho : s.lru.order = hd) (hhd : hd = [] ∨ hd = [key]) :
    s.evictOne c key = (false, s, c) := by
  rcases hhd with rfl | rfl <;> simp [evictOne, LruList.peekLru, ho]

/-! ### One loop -/

/-- What is left of `hd ++ others` after the removal of a suffix of `others`. -/
theorem Trimmed.order_eq (h : Trimmed s victims s') (ho : s.lru.order = hd ++ (kept ++ victims)) :
    s'.lru.order = hd ++ kept := by
  rw [← List.append_assoc] at ho
  rw [h.order, ho]
  exact filter_notMem_cut (ho ▸ s.lru.nodup)

/-- The removed keys are removed from what is left without some key, too. -/
theorem Trimmed.order_erase (h : Trimmed s victims s') (key : JsString) :
    s'.lru.order.erase key = (s.lru.order.erase key).filter (· ∉ victims) := by
  rw [h.order, (s.lru.nodup.filter _).erase_eq_filter, s.lru.nodup.erase_eq_filter,
    List.filter_filter, List.filter_filter]
  apply List.filter_congr
  intro k _
  exact Bool.and_comm _ _

/-- **A loop terminates within its fuel and removes a suffix of the other keys**: it goes on until
its condition fails or only `hd` is left, and it held before each removal. -/
theorem evictWhile_spec (cond : CacheStore → Bool) (fuel : ℕ) (hs : Sync s) (c : Clock)
    (ho : s.lru.order = hd ++ others) (hhd : hd = [] ∨ hd = [key]) (hkey : key ∉ others)
    (hfuel : others.length < fuel) :
    ∃ kept victims s' c', evictWhile cond key fuel s c = some (s', c') ∧
      others = kept ++ victims ∧ Trimmed s victims s' ∧ (cond s' = true → kept = []) ∧
      ∀ mid rest, victims = mid ++ rest → mid ≠ [] → ∃ t, Trimmed s rest t ∧ cond t = true := by
  induction fuel generalizing s c others with
  | zero => omega
  | succ fuel ih =>
    by_cases hc : cond s = true
    · rcases List.eq_nil_or_concat others with rfl | ⟨init, v, rfl⟩
      · refine ⟨[], [], s, c, ?_, rfl, Trimmed.refl hs, fun _ => rfl, ?_⟩
        · rw [evictWhile, if_pos hc, evictOne_stop c (by simpa using ho) hhd]
        · intro mid rest h hmid
          exact absurd (List.append_eq_nil_iff.1 h.symm).1 hmid
      · rw [List.concat_eq_append] at ho hkey hfuel
        have hv : v ≠ key := by rintro rfl; simp at hkey
        obtain ⟨e, reason, c₁, he, hone⟩ := evictOne_append hs c ho hv
        have htrim := trimmed_removeStoredKey hs he reason
        obtain ⟨kept, victims, s', c', hloop, hsplit, htrim', hstop, hneed⟩ :=
          ih htrim.sync c₁ (htrim.order_eq ho) (fun h => hkey (by simp [h]))
            (by rw [List.length_append, List.length_singleton] at hfuel; omega)
        refine ⟨kept, victims ++ [v], s', c', ?_, by rw [hsplit, List.concat_eq_append,
          List.append_assoc], htrim.trans htrim', hstop, ?_⟩
        · rw [evictWhile, if_pos hc, hone]
          exact hloop
        · intro mid rest h hmid
          rcases List.eq_nil_or_concat rest with rfl | ⟨rest', w, rfl⟩
          · -- nothing removed yet: the condition held at the start
            exact ⟨s, Trimmed.refl hs, hc⟩
          · rw [List.concat_eq_append, ← List.append_assoc] at h
            obtain ⟨h1, h2⟩ := List.append_inj' h rfl
            obtain rfl : v = w := by simpa using h2
            obtain ⟨t, ht, hct⟩ := hneed mid rest' h1 hmid
            exact ⟨t, by rw [List.concat_eq_append]; exact htrim.trans ht, hct⟩
    · refine ⟨others, [], s, c, by rw [evictWhile, if_neg hc], (List.append_nil _).symm,
        Trimmed.refl hs, fun h => absurd h hc, ?_⟩
      intro mid rest h hmid
      exact absurd (List.append_eq_nil_iff.1 h.symm).1 hmid

/-! ### Room for one more entry -/

/-- The entry limit holds with the written key next to `kept`. -/
def FitsEntries (s : CacheStore) (kept : List JsString) : Prop :=
  ∀ n, s.maxEntries = some n → kept.length + 1 ≤ (n : ℕ)

/-- The memory limit holds with an entry of `sizeBytes` bytes next to `kept`. -/
def FitsBytes (s : CacheStore) (sizeBytes : ℕ) (kept : List JsString) : Prop :=
  ∀ n, s.maxMemoryBytes = some n → (kept.map s.sizeOf).sum + sizeBytes ≤ ((n : ℕ) : ℤ)

/-- Both limits hold with the new entry in place. -/
def Fits (s : CacheStore) (sizeBytes : ℕ) (kept : List JsString) : Prop :=
  FitsEntries s kept ∧ FitsBytes s sizeBytes kept

/-- Only the limits and the sizes of the kept keys matter. -/
theorem fitsBytes_congr {sizeBytes : ℕ} (hframe : Frame s t)
    (hsizes : ∀ k ∈ kept, t.sizeOf k = s.sizeOf k) :
    FitsBytes t sizeBytes kept ↔ FitsBytes s sizeBytes kept := by
  simp only [FitsBytes, hframe.maxMemoryBytes, List.map_congr_left hsizes]

theorem fits_congr {sizeBytes : ℕ} (hframe : Frame s t)
    (hsizes : ∀ k ∈ kept, t.sizeOf k = s.sizeOf k) :
    Fits t sizeBytes kept ↔ Fits s sizeBytes kept := by
  simp only [Fits, FitsEntries, hframe.maxEntries, fitsBytes_congr hframe hsizes]

/-- The first loop, for a key that is not stored. -/
theorem ensureEntries_new (hs : Sync s) (c : Clock) (hkey : key ∉ s.lru.order) :
    ∃ kept victims s' c', s.ensureEntries c key true = some (s', c') ∧
      s.lru.order = kept ++ victims ∧ Trimmed s victims s' ∧ FitsEntries s kept ∧
      ShortestCut.Needed (FitsEntries s) kept victims := by
  cases hn : s.maxEntries with
  | none =>
    refine ⟨s.lru.order, [], s, c, by simp only [ensureEntries, hn], (List.append_nil _).symm,
      Trimmed.refl hs, fun n h => ?_, ShortestCut.needed_nil⟩
    rw [hn] at h; cases h
  | some n =>
    obtain ⟨kept, victims, s', c', hloop, hsplit, htrim, hstop, hneed⟩ :=
      evictWhile_spec (overEntries n) s.evictFuel hs c (List.nil_append _).symm
        (Or.inl rfl) hkey (Nat.lt_succ_self _)
    -- the number of entries left after a suffix has gone
    have hsize : ∀ {kept rest : List JsString} {t : CacheStore}, s.lru.order = kept ++ rest →
        Trimmed s rest t → t.store.size = kept.length := by
      intro kept rest t hsplit ht
      rw [← ht.sync.length_order, @Trimmed.order_eq _ _ [] _ _ ht hsplit, List.nil_append]
    refine ⟨kept, victims, s', c', ?_, hsplit, htrim, ?_, ?_⟩
    · simp only [ensureEntries, hn, if_true]
      exact hloop
    · intro m hm
      rw [hn, Option.some.injEq] at hm
      subst hm
      by_cases hc : overEntries n s' = true
      · rw [hstop hc]
        exact n.pos
      · rw [overEntries, hsize hsplit htrim, decide_eq_true_iff] at hc
        omega
    · intro mid rest hv hmid hfits
      obtain ⟨t, ht, hc⟩ := hneed mid rest hv hmid
      rw [overEntries, hsize (by rw [hsplit, hv, List.append_assoc]) ht, decide_eq_true_iff] at hc
      have := hfits n hn
      omega

/-! ### Room for the bytes -/

/-- The byte total after a suffix of `others` has gone. -/
theorem Trimmed.memory_eq_sum (h : Trimmed s victims s')
    (ho : s.lru.order = hd ++ (kept ++ victims)) :
    s'.memoryBytes = (hd.map s.sizeOf).sum + (kept.map s.sizeOf).sum := by
  rw [h.sync.memory_eq_sum, h.order_eq ho, List.map_append, List.sum_append]
  have hsize : ∀ k ∈ hd ++ kept, s'.sizeOf k = s.sizeOf k := by
    intro k hk
    have hk' : k ∈ s'.lru.order := by rw [h.order_eq ho]; exact hk
    rw [h.order, List.mem_filter] at hk'
    exact h.sizeOf_eq (by simpa using hk'.2)
  rw [List.map_congr_left fun k hk => hsize k (List.mem_append_left _ hk),
    List.map_congr_left fun k hk => hsize k (List.mem_append_right _ hk)]

/-- The second loop: `hd` is empty for a new key and the key itself, with its old size, for a
stored one. An entry within the memory limit always fits in the end, so nothing is thrown. -/
theorem ensureMemory_spec {sizeBytes oldSizeBytes : ℕ} {isNew : Bool} (hs : Sync s) (c : Clock)
    (hkey : isNew = true ↔ key ∉ s.lru.order)
    (hold : (oldSizeBytes : ℤ) = if isNew then 0 else s.sizeOf key)
    (hfit : ∀ n, s.maxMemoryBytes = some n → sizeBytes ≤ (n : ℕ)) :
    ∃ kept victims t s' c',
      s.ensureMemory c key isNew sizeBytes oldSizeBytes = some (.ok (), s', c') ∧
      (t = s ∨ t = s.touchExisting key isNew) ∧ Trimmed t victims s' ∧
      s.lru.order.erase key = kept ++ victims ∧ FitsBytes s sizeBytes kept ∧
      ShortestCut.Needed (FitsBytes s sizeBytes) kept victims := by
  cases hn : s.maxMemoryBytes with
  | none =>
    refine ⟨s.lru.order.erase key, [], s, s, c, by simp only [ensureMemory, hn], Or.inl rfl,
      Trimmed.refl hs, (List.append_nil _).symm, fun n h => ?_, ShortestCut.needed_nil⟩
    rw [hn] at h; cases h
  | some n =>
    -- the state the loop starts from, and its recency list
    obtain ⟨t, ht, hts, hd, hhd, ho, hsum⟩ : ∃ t : CacheStore,
        t = s.touchExisting key isNew ∧ Sync t ∧
        ∃ hd, (hd = [] ∨ hd = [key]) ∧ t.lru.order = hd ++ s.lru.order.erase key ∧
          (hd.map s.sizeOf).sum = oldSizeBytes := by
      cases isNew with
      | true =>
        refine ⟨s, rfl, hs, [], Or.inl rfl, ?_, by rw [hold]; rfl⟩
        rw [List.erase_of_not_mem (hkey.1 rfl), List.nil_append]
      | false =>
        have hmem : key ∈ s.lru.order := by
          by_contra h
          exact absurd (hkey.2 h) (by decide)
        refine ⟨_, rfl, hs.congr rfl LruList.order_touch_perm rfl, [key], Or.inr rfl,
          LruList.order_touch_of_mem hmem, by rw [hold]; simp⟩
    have hsize : t.sizeOf = s.sizeOf := by rw [ht, touchExisting]; cases isNew <;> rfl
    have hlen : (s.lru.order.erase key).length < t.evictFuel := by
      rw [evictFuel, LruList.size, ho, List.length_append]
      omega
    obtain ⟨kept, victims, s', c', hloop, hsplit, htrim, hstop, hneed⟩ :=
      evictWhile_spec (overMemory n sizeBytes oldSizeBytes) t.evictFuel hts c ho hhd
        s.lru.nodup.not_mem_erase hlen
    -- the loop condition after a suffix of the other keys has gone
    have hover : ∀ {kept rest : List JsString} {u : CacheStore},
        s.lru.order.erase key = kept ++ rest → Trimmed t rest u →
        (overMemory n sizeBytes oldSizeBytes u = true ↔
          (kept.map s.sizeOf).sum + sizeBytes > ((n : ℕ) : ℤ)) := by
      intro kept rest u hsplit hu
      rw [overMemory, decide_eq_true_iff, hu.memory_eq_sum (by rw [ho, hsplit]), hsize, hsum]
      constructor <;> intro h <;> linarith
    have hdone : ¬ overMemory n sizeBytes oldSizeBytes s' = true := by
      intro hc
      have hgt := (hover hsplit htrim).1 hc
      rw [hstop hc] at hgt
      have := hfit n hn
      simp only [List.map_nil, List.sum_nil] at hgt
      omega
    refine ⟨kept, victims, t, s', c', ?_, Or.inr ht, htrim, hsplit, ?_, ?_⟩
    · simp only [ensureMemory, hn, ← ht, hloop, if_neg hdone]
    · intro m hm
      rw [hn, Option.some.injEq] at hm
      subst hm
      by_contra hgt
      exact hdone ((hover hsplit htrim).2 (not_le.1 hgt))
    · intro mid rest hv hmid hfits
      obtain ⟨u, hu, hc⟩ := hneed mid rest hv hmid
      have hgt := (hover (by rw [hsplit, hv, List.append_assoc]) hu).1 hc
      exact absurd (hfits n hn) (not_le.2 hgt)

/-! ### Both loops -/

/-- What `ensureCapacity` leaves: the shortest suffix of the other keys whose removal makes both
limits hold is gone. -/
structure MadeRoom (s : CacheStore) (key : JsString) (sizeBytes : ℕ) (kept victims : List JsString)
    (s' : CacheStore) : Prop where
  cut : ShortestCut (Fits s sizeBytes) (s.lru.order.erase key) kept victims
  store : s'.store = s.store.without victims
  order : s'.lru.order.erase key = kept
  sync : Sync s'
  frame : Frame s s'

/-- For a new key both loops may remove keys, the second one after the first one. -/
theorem ensureCapacity_new {sizeBytes : ℕ} (hs : Sync s) (c : Clock)
    (hex : s.store.get? key = none)
    (hfit : ∀ n, s.maxMemoryBytes = some n → sizeBytes ≤ (n : ℕ)) :
    ∃ kept victims s' c', s.ensureCapacity c key true sizeBytes 0 = some (.ok (), s', c') ∧
      MadeRoom s key sizeBytes kept victims s' := by
  have hkey : key ∉ s.lru.order := fun h =>
    OrderedMap.get?_eq_none_iff.1 hex (hs.mem_order_iff.1 h)
  obtain ⟨kept₁, victims₁, s₁, c₁, hrun₁, hsplit₁, htrim₁, hfits₁, hneed₁⟩ :=
    ensureEntries_new hs c hkey
  have ho₁ : s₁.lru.order = kept₁ := @Trimmed.order_eq _ _ [] _ _ htrim₁ hsplit₁
  have hkey₁ : key ∉ s₁.lru.order := fun h => hkey (htrim₁.sublist.subset h)
  obtain ⟨kept, victims, t, s', c', hrun, ht, htrim, hsplit, hfits, hneed⟩ :=
    ensureMemory_spec htrim₁.sync c₁
      (iff_of_true rfl hkey₁) rfl (by rw [htrim₁.frame.maxMemoryBytes]; exact hfit)
  obtain rfl : t = s₁ := by rcases ht with rfl | rfl <;> rfl
  rw [List.erase_of_not_mem hkey₁, ho₁] at hsplit
  -- the sizes seen by the second loop are those of the first state
  have hbytes (l : List JsString) (hl : l.Sublist kept₁) :
      FitsBytes t sizeBytes l ↔ FitsBytes s sizeBytes l := by
    refine fitsBytes_congr htrim₁.frame fun k hk => htrim₁.sizeOf_eq fun hv => ?_
    have hnd := hsplit₁ ▸ s.lru.nodup
    exact (List.nodup_append.1 hnd).2.2 k (hl.subset hk) k hv rfl
  have hsub : kept.Sublist kept₁ := by rw [hsplit]; exact List.sublist_append_left _ _
  refine ⟨kept, victims ++ victims₁, s', c', ?_, ?_, ?_, ?_, htrim.sync,
    htrim₁.frame.trans htrim.frame⟩
  · simp only [ensureCapacity, hrun₁]
    exact hrun
  · rw [List.erase_of_not_mem hkey]
    refine ShortestCut.of_steps (by rw [hsplit₁, hsplit, List.append_assoc]) ⟨?_, ?_⟩ ?_
    · intro n hn
      have := hfits₁ n hn
      have := hsub.length_le
      omega
    · exact (hbytes kept hsub).1 hfits
    · refine ShortestCut.Needed.trans (hsplit ▸ hneed₁) ?_
      intro mid rest hv hmid hf
      refine hneed mid rest hv hmid ((hbytes _ ?_).2 hf)
      rw [hsplit, hv, ← List.append_assoc]
      exact List.sublist_append_left _ _
  · rw [htrim.store, htrim₁.store, OrderedMap.without_without]
  · have ho : s'.lru.order = kept := @Trimmed.order_eq _ _ [] _ _ htrim (by rw [ho₁, hsplit]; rfl)
    rw [ho]
    exact List.erase_of_not_mem fun h => hkey₁ (ho₁ ▸ hsub.subset h)

/-- For a stored key only the second loop runs, since its entry is there already. -/
theorem ensureCapacity_stored {sizeBytes : ℕ} {old : CacheEntry} (hs : Sync s) (c : Clock)
    (hex : s.store.get? key = some old) (hfull : FitsEntries s (s.lru.order.erase key))
    (hfit : ∀ n, s.maxMemoryBytes = some n → sizeBytes ≤ (n : ℕ)) :
    ∃ kept victims s' c',
      s.ensureCapacity c key false sizeBytes old.sizeBytes = some (.ok (), s', c') ∧
      MadeRoom s key sizeBytes kept victims s' := by
  have hmem : key ∈ s.lru.order := hs.mem_order_iff.2 (OrderedMap.mem_keys_of_get? hex)
  obtain ⟨kept, victims, t, s', c', hrun, ht, htrim, hsplit, hfits, hneed⟩ :=
    @ensureMemory_spec s key _ old.sizeBytes false hs
      c (iff_of_false (by decide) (not_not.2 hmem)) (by simp [sizeOf, hex]) hfit
  have htkey : t.lru.order.erase key = s.lru.order.erase key := by
    rcases ht with rfl | rfl
    · rfl
    · exact LruList.erase_order_touch
  have htframe : t.store = s.store ∧ Frame s t := by
    rcases ht with rfl | rfl
    · exact ⟨rfl, Frame.refl _⟩
    · exact ⟨rfl, ⟨rfl, rfl, rfl, rfl, rfl⟩⟩
  refine ⟨kept, victims, s', c', ?_, ShortestCut.of_steps hsplit ⟨?_, hfits⟩ ?_,
    by rw [htrim.store, htframe.1], ?_, htrim.sync, htframe.2.trans htrim.frame⟩
  · simp only [ensureCapacity, ensureEntries, Bool.false_eq_true, if_false]
    cases s.maxEntries <;> exact hrun
  · intro n hn
    have hlen := hfull n hn
    rw [hsplit, List.length_append] at hlen
    omega
  · rintro mid rest hv hmid ⟨-, hf⟩
    exact hneed mid rest hv hmid hf
  · rw [htrim.order_erase, htkey, hsplit,
      filter_notMem_cut (hsplit ▸ s.lru.nodup.erase key)]

/-- **Both loops together**: the removed keys are the shortest suffix of the other keys whose
removal makes both limits hold, and no error is thrown. -/
theorem ensureCapacity_spec {sizeBytes : ℕ} (hs : Sync s) (c : Clock)
    (hfull : s.store.get? key ≠ none → FitsEntries s (s.lru.order.erase key))
    (hfit : ∀ n, s.maxMemoryBytes = some n → sizeBytes ≤ (n : ℕ)) :
    ∃ kept victims s' c',
      s.ensureCapacity c key (s.store.get? key).isNone sizeBytes
        (((s.store.get? key).map CacheEntry.sizeBytes).getD 0) = some (.ok (), s', c') ∧
      MadeRoom s key sizeBytes kept victims s' := by
  cases hex : s.store.get? key with
  | none => exact ensureCapacity_new hs c hex hfit
  | some old => exact ensureCapacity_stored hs c hex (hfull (by rw [hex]; simp)) hfit

/-! ### The write -/

/-- What a successful `set` leaves: the new entry in front, `kept` behind it, `victims` gone. -/
structure Stored (s : CacheStore) (key value : JsString) (expiresAt : Option Deadline)
    (kept victims : List JsString) (s' : CacheStore) : Prop where
  cut : ShortestCut (Fits s (entrySizeBytes key value)) (s.lru.order.erase key) kept victims
  get? : ∀ k, s'.store.get? k =
    if k = key then some ⟨value, expiresAt, entrySizeBytes key value⟩
    else if k ∈ victims then none else s.store.get? k
  order : s'.lru.order = key :: kept
  sync : Sync s'
  frame : Frame s s'

theorem sync_writeEntry {existing : Option CacheEntry} (hs : Sync s)
    (hex : s.store.get? key = existing) (expiresAt : Option Deadline) :
    Sync (s.writeEntry key value expiresAt (entrySizeBytes key value) existing) where
  perm := by
    show (key :: s.lru.order.erase key).Perm (s.store.set key _).keys
    by_cases hkey : key ∈ s.store.keys
    · rw [OrderedMap.keys_set_of_mem hkey]
      exact (List.perm_cons_erase (hs.mem_order_iff.2 hkey)).symm.trans hs.perm
    · rw [OrderedMap.keys_set_of_notMem hkey,
        List.erase_of_not_mem fun h => hkey (hs.mem_order_iff.1 h)]
      exact (hs.perm.cons key).trans (List.perm_append_singleton key _).symm
  memory := by
    cases existing with
    | none =>
      show s.memoryBytes + _ = (s.store.set key _).total sizeMeasure
      rw [OrderedMap.total_set, OrderedMap.delete_of_notMem (OrderedMap.get?_eq_none_iff.1 hex),
        ← hs.memory]
      rfl
    | some old =>
      show s.memoryBytes - _ + _ = (s.store.set key _).total sizeMeasure
      rw [OrderedMap.total_set, OrderedMap.total_delete hex, ← hs.memory]
      rfl
  sizes := by
    intro k e hk
    change (s.store.set key _).get? k = some e at hk
    rw [OrderedMap.get?_set] at hk
    split_ifs at hk with hkk
    · cases hk
      rw [hkk]
    · exact hs.sizes k e hk

/-- **A `set` past its checks returns** and stores the key, as `Stored` says. -/
theorem setEntry_spec (hs : Sync s) (c : Clock) (expiresAt : Option Deadline)
    (hfull : s.store.get? key ≠ none → FitsEntries s (s.lru.order.erase key))
    (hfit : s.entryTooLarge (entrySizeBytes key value) = false) :
    ∃ kept victims s' c', s.setEntry c key value expiresAt = some (.ok (), s', c') ∧
      Stored s key value expiresAt kept victims s' := by
  -- the state after the lookup that drops a stale copy
  set live := s.getLiveEntry c key with hlive
  have htrim : live.2.1 = s ∨ Trimmed s [key] live.2.1 := getLiveEntry_trimmed hs c key
  have hs₁ : Sync live.2.1 := htrim.elim (fun h => h ▸ hs) Trimmed.sync
  have hframe : Frame s live.2.1 := htrim.elim (fun h => h ▸ Frame.refl s) Trimmed.frame
  have horder : live.2.1.lru.order.erase key = s.lru.order.erase key := by
    rcases htrim with h | h
    · rw [h]
    · rw [h.order_erase, List.filter_eq_self]
      intro k hk
      have hne : k ≠ key := fun heq => s.lru.nodup.not_mem_erase (heq ▸ hk)
      simpa using hne
  have hother : ∀ k, k ≠ key → live.2.1.store.get? k = s.store.get? k := by
    intro k hk
    rcases htrim with h | h
    · rw [h]
    · rw [h.get?, if_neg (by simpa using hk)]
  have hfit' : ∀ n, s.maxMemoryBytes = some n → entrySizeBytes key value ≤ (n : ℕ) := by
    intro n hn
    simpa [entryTooLarge, hn] using hfit
  obtain ⟨kept, victims, s₂, c₂, hrun, hcut, hstore, hkept, hs₂, hframe₂⟩ :=
    ensureCapacity_spec hs₁ live.2.2
      (by
        intro hne
        rw [horder]
        intro n hn
        rcases htrim with h | h
        · exact hfull (h ▸ hne) n (hframe.maxEntries ▸ hn)
        · exact absurd (by rw [h.get?]; simp) hne)
      (by rw [hframe.maxMemoryBytes]; exact hfit')
  have hvict : key ∉ victims := by
    intro h
    have : key ∈ s.lru.order.erase key := by
      rw [← horder, hcut.split]
      exact List.mem_append_right _ h
    exact s.lru.nodup.not_mem_erase this
  have hex : s₂.store.get? key = live.2.1.store.get? key := by
    rw [hstore, OrderedMap.get?_without, if_neg hvict]
  refine ⟨kept, victims, s₂.writeEntry key value expiresAt (entrySizeBytes key value)
    (live.2.1.store.get? key), c₂, ?_, ?_, ?_, ?_, sync_writeEntry hs₂ hex expiresAt, ?_⟩
  · simp only [setEntry, ← hlive, hrun]
  · have hfits : ∀ l : List JsString, l.Sublist (s.lru.order.erase key) →
        (Fits live.2.1 (entrySizeBytes key value) l ↔ Fits s (entrySizeBytes key value) l) := by
      intro l hl
      refine fits_congr hframe fun k hk => ?_
      have hne : k ≠ key := fun heq => s.lru.nodup.not_mem_erase (hl.subset (heq ▸ hk))
      rw [sizeOf, sizeOf, hother k hne]
    rw [horder] at hcut
    refine ⟨hcut.split, (hfits _ ?_).1 hcut.fitting, fun kept' cut' hl hf => ?_⟩
    · rw [hcut.split]
      exact List.sublist_append_left _ _
    · refine hcut.shortest kept' cut' hl ((hfits _ ?_).2 hf)
      rw [hl]
      exact List.sublist_append_left _ _
  · intro k
    show (s₂.store.set key _).get? k = _
    rw [OrderedMap.get?_set]
    split_ifs with hk hv
    · rfl
    · rw [hstore, OrderedMap.get?_without, if_pos hv]
    · rw [hstore, OrderedMap.get?_without, if_neg hv, hother k hk]
  · show key :: s₂.lru.order.erase key = _
    rw [hkept]
  · exact (hframe.trans hframe₂).trans ⟨rfl, rfl, rfl, rfl, rfl⟩

end CacheStore
end DistributedCache
