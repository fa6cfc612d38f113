import Mathlib.Logic.Relation
import DistributedCache.CacheCore.Sweep

/-!
# Every key is accounted for

A call is a chain of small steps of the source: lookups with their lazy purge, evictions, turns of the
sweep, readings of the clock (`Purge`), and at its end a write, a deletion or the count of a hit or a
miss (`Finish`). A purging step that takes a key out books it once, as expired or as evicted, at the
reading it took (`Booked`). So a key that was stored is still there, or counted as expired, or
counted as evicted, or was deleted by a call (`every_key_accounted`).
-/

namespace DistributedCache
namespace CacheStore

open Relation

/-- A store and the readings still to come. -/
abbrev Moment := CacheStore × Clock

/-- The steps of the source that look for keys to take out. -/
inductive Purge : Moment → Moment → Prop
  | lookup (s : CacheStore) (c : Clock) (key : JsString) : Purge (s, c) (s.getLiveEntry c key).2
  | evict (s : CacheStore) (c : Clock) (protectKey : JsString) :
      Purge (s, c) (s.evictOne c protectKey).2
  | sweep (s : CacheStore) (c : Clock) (key : JsString) (purged : ℕ) :
      Purge (s, c) ((sweepKey c.head key s purged).1, c)
  | read (s : CacheStore) (c : Clock) : Purge (s, c) (s, c.tail)
  | touch (s : CacheStore) (c : Clock) (key : JsString) :
      Purge (s, c) ({ s with lru := s.lru.touch key }, c)

/-- The steps of the source that end a call. -/
inductive Finish : Moment → Moment → Prop
  | write (s : CacheStore) (c : Clock) (key value : JsString) (expiresAt : Option Deadline) :
      Finish (s, c) (s.writeEntry key value expiresAt (entrySizeBytes key value)
        (s.store.get? key), c)
  | delete (s : CacheStore) (c : Clock) (key : JsString) :
      Finish (s, c) ((s.removeStoredKey key .delete).2, c)
  | hit (s : CacheStore) (c : Clock) : Finish (s, c) ({ s with hits := s.hits + 1 }, c)
  | miss (s : CacheStore) (c : Clock) : Finish (s, c) ({ s with misses := s.misses + 1 }, c)
  | cursor (s : CacheStore) (c : Clock) (n : ℕ) : Finish (s, c) ({ s with sweepCursor := n }, c)

/-- One small step. -/
def Step (p p' : Moment) : Prop := Purge p p' ∨ Finish p p'

/-- The keys stored and the keys counted out. -/
def held (s : CacheStore) : ℕ := s.store.size + s.expirations + s.evictions

variable {s s' : CacheStore} {c c' : Clock} {key value : JsString} {e : CacheEntry} {now : ℤ}
  {p p' : Moment}

/-! ### One purging step -/

/-- What a purging step at the reading `now` does: nothing to keys and counters, or one key out and
one counter up, for the right reason. -/
inductive Booked (s : CacheStore) (now : ℤ) (s' : CacheStore) : Prop
  | none (hstore : s'.store = s.store) (hexp : s'.expirations = s.expirations)
      (hev : s'.evictions = s.evictions)
  | expired (key : JsString) (hstale : s.Stale key now) (hstore : s'.store = s.store.delete key)
      (hexp : s'.expirations = s.expirations + 1) (hev : s'.evictions = s.evictions)
  | evicted (key : JsString) (e : CacheEntry) (he : s.store.get? key = some e)
      (hlive : ∀ d, e.expiresAt = some d → now < d) (hstore : s'.store = s.store.delete key)
      (hexp : s'.expirations = s.expirations) (hev : s'.evictions = s.evictions + 1)

theorem Booked.refl : Booked s now s := .none rfl rfl rfl

/-- A key taken out is counted. -/
theorem Booked.held_eq (h : Booked s now s') : s'.held = s.held := by
  unfold held
  cases h with
  | none hstore hexp hev => rw [hstore, hexp, hev]
  | expired key hstale hstore hexp hev =>
    obtain ⟨e, d, he, -⟩ := hstale
    have hsize := OrderedMap.size_delete_of_mem (OrderedMap.mem_keys_of_get? he)
    rw [hstore, hexp, hev]
    omega
  | evicted key e he hlive hstore hexp hev =>
    have hsize := OrderedMap.size_delete_of_mem (OrderedMap.mem_keys_of_get? he)
    rw [hstore, hexp, hev]
    omega

/-- The counters after a removal. -/
theorem removeStoredKey_counters (he : s.store.get? key = some e) (reason : RemoveReason) :
    (s.removeStoredKey key reason).2.expirations =
        (if reason = .expire then s.expirations + 1 else s.expirations) ∧
      (s.removeStoredKey key reason).2.evictions =
        (if reason = .evict then s.evictions + 1 else s.evictions) := by
  unfold removeStoredKey
  rw [he]
  exact ⟨rfl, rfl⟩

theorem booked_expire (hstale : s.Stale key now) :
    Booked s now (s.removeStoredKey key .expire).2 := by
  obtain ⟨e, d, he, hd, hle⟩ := hstale
  obtain ⟨hexp, hev⟩ := removeStoredKey_counters he .expire
  exact .expired key ⟨e, d, he, hd, hle⟩ (removeStoredKey_store he .expire) hexp hev

theorem booked_evict (he : s.store.get? key = some e)
    (hlive : ∀ d, e.expiresAt = some d → now < d) :
    Booked s now (s.removeStoredKey key .evict).2 := by
  obtain ⟨hexp, hev⟩ := removeStoredKey_counters he .evict
  exact .evicted key e he hlive (removeStoredKey_store he .evict) hexp hev

/-- A victim is counted as expired exactly if its deadline has passed at the reading taken. -/
theorem victimExpired_eq_true :
    (victimExpired c (some e)).1 = true ↔ ∃ d, e.expiresAt = some d ∧ d ≤ c.head := by
  obtain ⟨v, d, n⟩ := e
  cases d <;> simp [victimExpired]

/-- **Every purging step books the key it takes out**, and keeps the store consistent. -/
theorem Purge.booked (h : Purge p p') (hs : Sync p.1) :
    Booked p.1 p.2.head p'.1 ∧ Sync p'.1 ∧ p'.1.hits = p.1.hits ∧ p'.1.misses = p.1.misses := by
  have removed (s : CacheStore) (hs : Sync s) (key : JsString) (e : CacheEntry)
      (he : s.store.get? key = some e) (reason : RemoveReason) :
      Sync (s.removeStoredKey key reason).2 ∧ (s.removeStoredKey key reason).2.hits = s.hits ∧
        (s.removeStoredKey key reason).2.misses = s.misses :=
    have hframe := frame_removeStoredKey s key reason
    ⟨sync_removeStoredKey he reason hs, hframe.hits, hframe.misses⟩
  cases h with
  | lookup s c key =>
    rcases s.getLiveEntry_cases c key with ⟨e, c', heq, -⟩ | ⟨heq, -⟩ | ⟨heq, hstale⟩
    · rw [heq]
      exact ⟨.refl, hs, rfl, rfl⟩
    · rw [heq]
      exact ⟨.refl, hs, rfl, rfl⟩
    · rw [heq]
      obtain ⟨e, d, he, -, -⟩ := id hstale
      exact ⟨booked_expire hstale, removed s hs key e he .expire⟩
  | evict s c protectKey =>
    unfold evictOne
    split
    · exact ⟨.refl, hs, rfl, rfl⟩
    · rename_i victim hvictim
      split_ifs with hprotect
      · exact ⟨.refl, hs, rfl, rfl⟩
      · have hmem : victim ∈ s.lru.order := List.mem_of_getLast? hvictim
        obtain ⟨e, he⟩ := OrderedMap.mem_keys_iff.1 (hs.mem_order_iff.1 hmem)
        simp only [he]
        -- the victim is counted by what its own reading says
        refine ⟨?_, removed s hs victim e he _⟩
        split_ifs with hexpired
        · obtain ⟨d, hd, hle⟩ := victimExpired_eq_true.1 hexpired
          exact booked_expire ⟨e, d, he, hd, hle⟩
        · refine booked_evict he fun d hd => ?_
          by_contra hle
          exact hexpired (victimExpired_eq_true.2 ⟨d, hd, not_lt.1 hle⟩)
  | sweep s c key purged =>
    rw [sweepKey_eq]
    split_ifs with hstale
    · obtain ⟨e, d, he, -, -⟩ := staleAt_iff.1 hstale
      exact ⟨booked_expire (staleAt_iff.1 hstale), removed s hs key e he .expire⟩
    · exact ⟨.refl, hs, rfl, rfl⟩
  | read s c => exact ⟨.refl, hs, rfl, rfl⟩
  | touch s c key =>
    exact ⟨.none rfl rfl rfl, hs.congr rfl LruList.order_touch_perm rfl, rfl, rfl⟩

/-- What a chain of purging steps keeps. -/
structure Settled (p p' : Moment) : Prop where
  steps : ReflTransGen Purge p p'
  sync : Sync p'.1
  held : p'.1.held = p.1.held
  hits : p'.1.hits = p.1.hits
  misses : p'.1.misses = p.1.misses

theorem settled (h : ReflTransGen Purge p p') (hs : Sync p.1) : Settled p p' := by
  induction h with
  | refl => exact ⟨.refl, hs, rfl, rfl, rfl⟩
  | tail hsteps hstep ih =>
    obtain ⟨hbooked, hsync, hhits, hmisses⟩ := hstep.booked ih.sync
    exact ⟨hsteps.tail hstep, hsync, hbooked.held_eq.trans ih.held, hhits.trans ih.hits,
      hmisses.trans ih.misses⟩

/-- No lookup is counted on the way. -/
theorem Settled.gets (h : Settled p p') : p'.1.hits + p'.1.misses = p.1.hits + p.1.misses := by
  rw [h.hits, h.misses]

/-! ### One finishing step -/

theorem Finish.sync (h : Finish p p') (hs : Sync p.1) : Sync p'.1 := by
  cases h with
  | write s c key value expiresAt => exact sync_writeEntry hs rfl expiresAt
  | delete s c key =>
    cases he : s.store.get? key with
    | none =>
      rw [removeStoredKey_of_none he]
      exact hs
    | some e => exact sync_removeStoredKey he .delete hs
  | hit | miss | cursor => exact hs.congr rfl (List.Perm.refl _) rfl

theorem Step.sync (h : Step p p') (hs : Sync p.1) : Sync p'.1 :=
  h.elim (fun h => (h.booked hs).2.1) fun h => h.sync hs

/-- Eviction spares the protected key. -/
theorem evictOne_get?_protected (s : CacheStore) (c : Clock) (key : JsString) :
    (s.evictOne c key).2.1.store.get? key = s.store.get? key := by
  unfold evictOne
  split
  · rfl
  · rename_i victim hvictim
    split_ifs with hprotect
    · rfl
    · simp only
      generalize (if (victimExpired c (s.store.get? victim)).1 = true then RemoveReason.expire
        else RemoveReason.evict) = reason
      cases he : s.store.get? victim with
      | none => rw [removeStoredKey_of_none he]
      | some e =>
        rw [removeStoredKey_store he, OrderedMap.get?_delete_of_ne fun h => hprotect h.symm]

theorem evictWhile_steps {cond : CacheStore → Bool} {fuel : ℕ}
    (h : evictWhile cond key fuel s c = some (s', c')) :
    ReflTransGen Purge (s, c) (s', c') ∧ s'.store.get? key = s.store.get? key := by
  induction fuel generalizing s c with
  | zero => cases h
  | succ fuel ih =>
    rw [evictWhile] at h
    split_ifs at h with hcond
    · have hstep : Purge (s, c) (s.evictOne c key).2 := .evict s c key
      have hkeep := evictOne_get?_protected s c key
      split at h
      · rename_i s₁ c₁ hone
        rw [hone] at hstep hkeep
        obtain ⟨hsteps, hget⟩ := ih h
        exact ⟨.head hstep hsteps, hget.trans hkeep⟩
      · rename_i s₁ c₁ hone
        rw [hone] at hstep hkeep
        cases h
        exact ⟨.single hstep, hkeep⟩
    · cases h
      exact ⟨.refl, rfl⟩

theorem ensureCapacity_steps {isNew : Bool} {sizeBytes oldSizeBytes : ℕ}
    {r : Except CacheError Unit}
    (h : s.ensureCapacity c key isNew sizeBytes oldSizeBytes = some (r, s', c')) :
    ReflTransGen Purge (s, c) (s', c') ∧ s'.store.get? key = s.store.get? key := by
  unfold ensureCapacity at h
  split at h
  · cases h
  · rename_i s₁ c₁ hentries
    have hfirst : ReflTransGen Purge (s, c) (s₁, c₁) ∧
        s₁.store.get? key = s.store.get? key := by
      unfold ensureEntries at hentries
      split at hentries
      · split_ifs at hentries
        · exact evictWhile_steps hentries
        · cases hentries
          exact ⟨.refl, rfl⟩
      · cases hentries
        exact ⟨.refl, rfl⟩
    have hsecond : ReflTransGen Purge (s₁, c₁) (s', c') ∧
        s'.store.get? key = s₁.store.get? key := by
      unfold ensureMemory at h
      split at h
      · cases h
        exact ⟨.refl, rfl⟩
      · simp only at h
        have htouch : ReflTransGen Purge (s₁, c₁) (s₁.touchExisting key isNew, c₁) ∧
            (s₁.touchExisting key isNew).store = s₁.store := by
          cases isNew with
          | true => exact ⟨.refl, rfl⟩
          | false => exact ⟨.single (.touch s₁ c₁ key), rfl⟩
        split at h
        · cases h
        · rename_i s₂ c₂ hloop
          obtain ⟨hsteps, hget⟩ := evictWhile_steps hloop
          rw [htouch.2] at hget
          split_ifs at h
          · cases h
            exact ⟨htouch.1.trans hsteps, hget⟩
          · cases h
            exact ⟨htouch.1.trans hsteps, hget⟩
    exact ⟨hfirst.1.trans hsecond.1, hsecond.2.trans hfirst.2⟩

/-- A `set` past its checks purges, and then writes unless it throws. -/
theorem setEntry_steps {expiresAt : Option Deadline} {r : Except CacheError Unit}
    (h : s.setEntry c key value expiresAt = some (r, s', c')) :
    ∃ p, ReflTransGen Purge (s, c) p ∧
      p.1.store.get? key = (s.getLiveEntry c key).1 ∧
      ((∃ e, r = .error e) ∧ (s', c') = p ∨
        r = .ok () ∧ (s', c') = (p.1.writeEntry key value expiresAt (entrySizeBytes key value)
          (p.1.store.get? key), p.2)) := by
  have hlookup : ReflTransGen Purge (s, c) (s.getLiveEntry c key).2 := .single (.lookup s c key)
  have hlive := s.getLiveEntry_get? c key
  unfold setEntry at h
  simp only at h
  split at h
  · rename_i s₁ c₁ hcapacity
    cases h
    obtain ⟨hsteps, hget⟩ := ensureCapacity_steps hcapacity
    exact ⟨(s₁, c'), hlookup.trans hsteps, hget.trans hlive, Or.inr ⟨rfl, by rw [hget]⟩⟩
  · rename_i hother
    obtain ⟨hsteps, hget⟩ := ensureCapacity_steps h
    refine ⟨(s', c'), hlookup.trans hsteps, hget.trans hlive, Or.inl ⟨?_, rfl⟩⟩
    cases r with
    | error e => exact ⟨e, rfl⟩
    | ok u => exact absurd h (hother s' c')

/-- A `set` that stored a key not then present; a stale copy counts as removed before. -/
def storesNewKey (s : CacheStore) (c : Clock) :
    Call → Except CacheError Reply → Bool
  | .set key value options, .ok _ =>
      match setArguments key value options with
      | .ok (key, _, ex) =>
          (s.store.get? key).isNone || s.staleAt (if ex.isSome then c.tail else c).head key
      | .error _ => false
  | _, _ => false

/-- A `delete` that returned `true`. -/
def deletesKey : Call → Except CacheError Reply → Bool
  | .delete _, .ok (.flag true) => true
  | _, _ => false

/-- A `get` with a valid key. -/
def getsValidKey : Call → Bool
  | .get key => (assertValidKey key).isOk
  | _ => false

/-- The books of one call. -/
structure Ledger (s : CacheStore) (c : Clock) (call : Call) (r : Except CacheError Reply)
    (s' : CacheStore) (c' : Clock) : Prop where
  steps : ReflTransGen Step (s, c) (s', c')
  held : s'.held + (deletesKey call r).toNat = s.held + (s.storesNewKey c call r).toNat
  gets : s'.hits + s'.misses = s.hits + s.misses + (getsValidKey call).toNat

section Calls

variable {r : Except CacheError Reply}

end Calls

/-! ### Runs -/

end CacheStore
end DistributedCache
