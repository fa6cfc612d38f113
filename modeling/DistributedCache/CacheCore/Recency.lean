import DistributedCache.CacheCore.Invariant

/-!
# Recency and the victims of a `set`

A key is used by a successful `set` and by a `get` that hits. `lastUse past k` is the number of the
last call of the history that used `k`. Along every run the recency list is strictly decreasing in
`lastUse`; a call moves the key it uses to the front and otherwise only removes keys from the list
(`OrderStep`). A successful `set` removes exactly the shortest suffix of the other keys that makes
room for the new entry (`lru_exact`).
-/

namespace DistributedCache

/-- The key an operation uses, given its result: that of a successful `set` or of a `get` hit. -/
def Op.uses : Op → Except CacheError Reply → Option JsString
  | .set key _ _, .ok _ => some key
  | .get key, .ok (.value (some _)) => some key
  | _, _ => none

namespace CacheStore

/-- The key a call of a history uses; a rejected call uses none. -/
def CallEvent.uses (ev : CallEvent) : Option JsString :=
  match ev.call.check with
  | .ok op => op.uses ev.result
  | .error _ => none

/-- The number of the last call that used `key`, counted from `1`; `0` if there is none. -/
def lastUse (key : JsString) : List CallEvent → ℕ
  | [] => 0
  | ev :: past => if ev.uses = some key then past.length + 1 else lastUse key past

/-- What a call that uses `used` does to the recency list: the key used comes to the front, and the
surviving others keep their order. -/
def OrderStep (used : Option JsString) (s s' : CacheStore) : Prop :=
  match used with
  | none => s'.lru.order.Sublist s.lru.order
  | some key => ∃ rest, s'.lru.order = key :: rest ∧ rest.Sublist (s.lru.order.erase key)

variable {s s' : CacheStore} {c : Clock} {key : JsString} {past : List CallEvent} {ev : CallEvent}
  {maxEntries maxMemoryBytes : Option ℕ+}

theorem MissingAt.sublist (hs : Sync s) (h : MissingAt s c key s') :
    s'.lru.order.Sublist s.lru.order := by
  rcases h with ⟨rfl, -⟩ | ⟨rfl, e, d, he, -⟩
  · exact List.Sublist.refl _
  · exact (trimmed_removeStoredKey hs he .expire).sublist

/-- Every operation changes the recency list as its use says. -/
theorem Effect.orderStep {op : Op} {r : Except CacheError Reply} (hs : Sync s)
    (h : Effect s c op r s') : OrderStep (op.uses r) s s' := by
  cases h with
  | tooLarge _ => exact List.Sublist.refl s.lru.order
  | stored _ h =>
    refine ⟨_, h.order, ?_⟩
    rw [h.cut.split]
    exact List.sublist_append_left _ _
  | hit h =>
    have hmem := hs.mem_order_iff.2 (OrderedMap.mem_keys_of_get? h.1)
    exact ⟨_, LruList.order_touch_of_mem hmem, List.Sublist.refl _⟩
  | miss h =>
    have hsub := h.sublist hs
    exact hsub
  | deleted h => exact (trimmed_removeStoredKey hs h.1 .delete).sublist
  | nothingToDelete h => exact h.sublist hs
  | found _ => exact List.Sublist.refl s.lru.order
  | notFound h => exact h.sublist hs
  | timed _ => exact List.Sublist.refl s.lru.order
  | notTimed h => exact h.sublist hs
  | swept h _ => exact h.sublist

/-- Every call of a run changes the recency list as its use says. -/
theorem orderStep_of_step (hs : Inv s) (h : (system maxEntries maxMemoryBytes).step s ev s') :
    OrderStep ev.uses s s' := by
  obtain ⟨c', hexec⟩ := h
  rcases exec_cases hs hexec with ⟨e, hcheck, -, rfl⟩ | ⟨op, hcheck, heff⟩
  · simp only [CallEvent.uses, hcheck]
    exact List.Sublist.refl _
  · simp only [CallEvent.uses, hcheck]
    exact heff.orderStep hs.toSync

/-! ### The order is the order of last use -/

theorem lastUse_le_length (key : JsString) (past : List CallEvent) :
    lastUse key past ≤ past.length := by
  induction past with
  | nil => exact le_refl 0
  | cons ev past ih =>
    rw [lastUse, List.length_cons]
    split_ifs
    · exact le_refl _
    · omega

/-- A call that does not use `key` leaves its last use where it was. -/
theorem lastUse_cons_of_ne (h : ev.uses ≠ some key) : lastUse key (ev :: past) = lastUse key past :=
  if_neg h

/-- The recency list is strictly decreasing in the last use, and every key in it has been used. -/
structure ByLastUse (past : List CallEvent) (order : List JsString) : Prop where
  strict : order.Pairwise fun a b => lastUse b past < lastUse a past
  used : ∀ k ∈ order, 0 < lastUse k past

theorem ByLastUse.sublist {l l' : List JsString} (h : ByLastUse past l) (hl : l'.Sublist l) :
    ByLastUse past l' where
  strict := h.strict.sublist hl
  used := fun k hk => h.used k (hl.subset hk)

/-- Keys that the new call does not use stay ordered. -/
theorem ByLastUse.cons {l : List JsString} (h : ByLastUse past l)
    (hl : ∀ k ∈ l, ev.uses ≠ some k) : ByLastUse (ev :: past) l where
  strict := by
    refine h.strict.imp_of_mem fun {a b} ha hb hab => ?_
    rw [lastUse_cons_of_ne (hl a ha), lastUse_cons_of_ne (hl b hb)]
    exact hab
  used := by
    intro k hk
    rw [lastUse_cons_of_ne (hl k hk)]
    exact h.used k hk

theorem ByLastUse.orderStep (h : ByLastUse past s.lru.order) (hstep : OrderStep ev.uses s s') :
    ByLastUse (ev :: past) s'.lru.order := by
  cases hu : ev.uses with
  | none =>
    rw [hu] at hstep
    exact (h.sublist hstep).cons fun k _ => by rw [hu]; exact fun hk => nomatch hk
  | some key =>
    rw [hu] at hstep
    obtain ⟨rest, ho, hrest⟩ := hstep
    have hkey : key ∉ rest := fun hk => s.lru.nodup.not_mem_erase (hrest.subset hk)
    have hold : ByLastUse (ev :: past) rest := by
      refine (h.sublist (hrest.trans (List.erase_sublist))).cons fun k hk => ?_
      rw [hu]
      rintro ⟨rfl⟩
      exact hkey hk
    have hself : lastUse key (ev :: past) = past.length + 1 := if_pos hu
    rw [ho]
    refine ⟨List.pairwise_cons.2 ⟨fun k hk => ?_, hold.strict⟩, fun k hk => ?_⟩
    · -- the use of an older key is older than this call
      have hne : ev.uses ≠ some k := by
        rw [hu]
        rintro ⟨rfl⟩
        exact hkey hk
      have := lastUse_le_length k past
      rw [hself, lastUse_cons_of_ne hne]
      omega
    · rcases List.mem_cons.1 hk with rfl | hk
      · rw [hself]
        omega
      · exact hold.used k hk

/-- In every reachable state the recency list is ordered by last use. -/
theorem reachable_byLastUse (hrun : (system maxEntries maxMemoryBytes).Run past s) :
    ByLastUse past s.lru.order := by
  induction hrun with
  | start => exact ⟨List.Pairwise.nil, fun k hk => nomatch hk⟩
  | snoc run step ih => exact ih.orderStep (orderStep_of_step (reachable_inv run) step)

/-! ### A successful `set` -/

/-- A `set` returns, and if it does not throw it stores its entry as `Stored` says. -/
theorem set_returns (hs : Inv s) (c : Clock) (key value options : JsValue) :
    ∃ r s' c', s.set c key value options = some (r, s', c') ∧
      (r = .ok () → ∃ k v ex kept victims, setArguments key value options = .ok (k, v, ex) ∧
        Stored s k v (ex.map (expiryOf c.head)) kept victims s') := by
  obtain ⟨r, s', c', hexec, hcases⟩ := exec_returns hs c (.set key value options)
  obtain ⟨⟨r₀, s₀, c₀⟩, hset, heq⟩ := Option.map_eq_some_iff.1 hexec
  cases heq
  refine ⟨r₀, s', c', hset, ?_⟩
  rintro rfl
  rcases hcases with ⟨e, -, h, -⟩ | ⟨op, hcheck, heff⟩
  · cases h
  · obtain ⟨⟨k, v, ex⟩, hargs, rfl⟩ := map_eq_ok_iff.1 hcheck
    cases heff with
    | stored _ h => exact ⟨k, v, ex, _, _, hargs, h⟩

/-- **LRU exactness over whole runs.** In every reachable state the recency list holds the stored
keys strictly by last use; every call moves only the key it uses; every `set` returns; and a `set`
that does not throw removes exactly the shortest suffix of the other keys that makes both limits
hold, leaves the remaining entries alone, and stores its key in front with the new value. -/
theorem lru_exact (hrun : (system maxEntries maxMemoryBytes).Run past s) :
    (s.lru.order.Perm s.store.keys ∧
      s.lru.order.Pairwise (fun a b => lastUse b past < lastUse a past) ∧
      ∀ k ∈ s.lru.order, 0 < lastUse k past) ∧
    (∀ ev s', (system maxEntries maxMemoryBytes).step s ev s' → OrderStep ev.uses s s') ∧
    ∀ c key value options, ∃ r s' c', s.set c key value options = some (r, s', c') ∧
      (r = .ok () → ∃ k v ex kept victims, setArguments key value options = .ok (k, v, ex) ∧
        ShortestCut (Fits s (entrySizeBytes k v)) (s.lru.order.erase k) kept victims ∧
        k ∉ victims ∧
        (∀ j, j ≠ k → s'.store.get? j = if j ∈ victims then none else s.store.get? j) ∧
        s'.store.get? k =
          some ⟨v, ex.map (expiryOf c.head), entrySizeBytes k v⟩ ∧
        s'.lru.order = k :: kept) := by
  have hs := reachable_inv hrun
  have horder := reachable_byLastUse hrun
  refine ⟨⟨hs.perm, horder.strict, horder.used⟩, fun ev s' => orderStep_of_step hs, ?_⟩
  intro c key value options
  obtain ⟨r, s', c', hset, hok⟩ := set_returns hs c key value options
  refine ⟨r, s', c', hset, fun hr => ?_⟩
  obtain ⟨k, v, ex, kept, victims, hargs, h⟩ := hok hr
  refine ⟨k, v, ex, kept, victims, hargs, h.cut, fun hk => ?_, fun j hj => ?_, ?_, h.order⟩
  · refine s.lru.nodup.not_mem_erase (a := k) ?_
    rw [h.cut.split]
    exact List.mem_append_right _ hk
  · rw [h.get?, if_neg hj]
  · rw [h.get?, if_pos rfl]

/-- After `set a`, `set b`, `get a` on a store for two entries, `a` is in front. -/
theorem lru_exact_example : ∃ past s, (system (some 2) none).Run past s ∧
    s.lru.order = [js "a", js "b"] ∧
    s.lru.order.Pairwise fun a b => lastUse b past < lastUse a past := by
  let calls : List Call := [
    .set (.string (js "a")) (.string (js "1")) .undefined,
    .set (.string (js "b")) (.string (js "2")) .undefined,
    .get (.string (js "a"))]
  have hrun : (CacheStore.new (some 2) none).run (Stream'.const 0) calls = some (_, _, _) := rfl
  obtain ⟨past, h⟩ := reachable_of_run .start hrun
  exact ⟨past, _, h, rfl, (lru_exact h).1.2.1⟩

end CacheStore
end DistributedCache
