import Mathlib.Data.Nat.ModEq
import Mathlib.Algebra.BigOperators.Group.Finset.Basic
import Mathlib.Tactic.FieldSimp
import DistributedCache.Client.ClusterClient
import DistributedCache.Hashing.Remapping

/-!
# The modulo router

`packages/client/src/modulo-router.js`, the routing that the ring replaces: a key goes to the node
with the number `h % nodeCount`. When the count changes, whether a key moves depends on `h` modulo
the least common multiple of the two counts only.

* `assertPositiveNodeCount`, `pickNodeIndex`, `ModuloRouter.remappingFraction`;
* `modulo_remapping`.
-/

namespace DistributedCache

/-- `assertPositiveNodeCount`, with the count that it lets pass. -/
def assertPositiveNodeCount : JsNumber → Except JsString ℕ
  | .int n => if n < 1 then .error (js "nodeCount must be a positive integer") else .ok n.toNat
  | _ => .error (js "nodeCount must be a positive integer")

/-- `pickNodeIndex`. -/
def pickNodeIndex (key : JsString) (nodeCount : JsNumber) (hashFn : JsString → ℕ) :
    Except JsString ℕ := do
  let count ← assertPositiveNodeCount nodeCount
  .ok (hashFn key % count)

/-- `remappingFraction`, as a rational number. -/
def ModuloRouter.remappingFraction (keys : List JsString) (fromCount toCount : JsNumber)
    (hashFn : JsString → ℕ) : Except JsString ℚ :=
  if keys.length = 0 then .ok 0
  else do
    let changed ← keys.foldlM (fun changed key => do
      let before ← pickNodeIndex key fromCount hashFn
      let after ← pickNodeIndex key toCount hashFn
      .ok (if before ≠ after then changed + 1 else changed)) 0
    .ok ((changed : ℕ) / keys.length)

@[simp] theorem assertPositiveNodeCount_pos (count : ℕ+) :
    assertPositiveNodeCount (.int (count : ℕ)) = .ok count := by
  have hpos := count.pos
  have hnot : ¬((count : ℕ) : ℤ) < 1 := by omega
  simp only [assertPositiveNodeCount, hnot, if_false, Int.toNat_natCast]

theorem pickNodeIndex_pos (key : JsString) (count : ℕ+) (hashFn : JsString → ℕ) :
    pickNodeIndex key (.int (count : ℕ)) hashFn = .ok (hashFn key % count) := by
  unfold pickNodeIndex
  rw [assertPositiveNodeCount_pos]
  rfl

/-- A client of `count` nodes that routes modulo their number. -/
structure ClusterClient.IsModulo (c : ClusterClient) (count : ℕ+) (hashFn : JsString → ℕ) :
    Prop where
  lookup : c.lookupNodeIndex = none
  routing : c.routing = .modulo
  count : c.nodes.length = count
  hash : c.hashFn = hashFn

/-- Such a client asks the router. -/
theorem ClusterClient.IsModulo.resolve {c : ClusterClient} {count : ℕ+} {hashFn : JsString → ℕ}
    (h : c.IsModulo count hashFn) (key : JsString) :
    c.resolveNodeIndex key = .ok (hashFn key % count) := by
  unfold ClusterClient.resolveNodeIndex
  rw [h.lookup, h.routing, h.count, h.hash]

namespace ModuloRouter

variable {hashFn : JsString → ℕ} {fromCount toCount : ℕ+}

/-- Two residues agree exactly below the smaller modulus, once in every period. -/
theorem mod_eq_mod_iff (h : ℕ) (a b : ℕ+) : h % a = h % b ↔ h % Nat.lcm a b < min (a : ℕ) b := by
  have ha : h % Nat.lcm a b % a = h % a := Nat.mod_mod_of_dvd h (Nat.dvd_lcm_left a b)
  have hb : h % Nat.lcm a b % b = h % b := Nat.mod_mod_of_dvd h (Nat.dvd_lcm_right a b)
  constructor
  · intro heq
    have hlt_a : h % a < a := Nat.mod_lt h a.pos
    have hlt_b : h % a < b := heq ▸ Nat.mod_lt h b.pos
    -- the common residue is congruent to `h` modulo both, and so modulo the period
    have hcongr_a : h % a ≡ h [MOD a] := Nat.mod_modEq h a
    have hcongr_b : h % a ≡ h [MOD b] := heq ▸ Nat.mod_modEq h b
    have hcongr : h % a ≡ h [MOD Nat.lcm a b] := Nat.mod_lcm hcongr_a hcongr_b
    have hle : (a : ℕ) ≤ Nat.lcm a b :=
      Nat.le_of_dvd (Nat.lcm_pos a.pos b.pos) (Nat.dvd_lcm_left a b)
    have hsmall : h % a % Nat.lcm a b = h % a := Nat.mod_eq_of_lt (hlt_a.trans_le hle)
    have hresidue : h % a = h % Nat.lcm a b := hsmall.symm.trans hcongr
    rw [← hresidue]
    exact lt_min hlt_a hlt_b
  · intro hlt
    rw [← ha, ← hb, Nat.mod_eq_of_lt (hlt.trans_le (min_le_left _ _)),
      Nat.mod_eq_of_lt (hlt.trans_le (min_le_right _ _))]

/-- The loop, for two positive counts. -/
theorem foldlM_changed (keys : List JsString) (n : ℕ) :
    keys.foldlM (fun changed key => do
      let before ← pickNodeIndex key (.int (fromCount : ℕ)) hashFn
      let after ← pickNodeIndex key (.int (toCount : ℕ)) hashFn
      Except.ok (if before ≠ after then changed + 1 else changed)) n =
      Except.ok (n + keys.countP fun key => hashFn key % fromCount ≠ hashFn key % toCount) := by
  rw [← foldl_changed]
  induction keys generalizing n with
  | nil => rfl
  | cons key keys ih =>
    rw [List.foldlM_cons, pickNodeIndex_pos, pickNodeIndex_pos, List.foldl_cons]
    exact ih _

/-- Keys whose hashes are spread evenly over the residues of a period: every residue is taken by
`n` keys. -/
def Spread (keys : List JsString) (hashFn : JsString → ℕ) (period n : ℕ) : Prop :=
  ∀ c < period, (keys.map fun key => hashFn key % period).count c = n

/-- Of evenly spread keys a set of residues takes its share. -/
theorem Spread.countP {keys : List JsString} {period n : ℕ} (hspread : Spread keys hashFn period n)
    (hperiod : 0 < period) (p : ℕ → Prop) [DecidablePred p] :
    (keys.countP fun key => p (hashFn key % period)) =
      ((Finset.range period).filter p).card * n := by
  have hmap : (keys.countP fun key => p (hashFn key % period)) =
      (keys.map fun key => hashFn key % period).countP p := by
    rw [List.countP_map]
    rfl
  have hsubset : ((keys.map fun key => hashFn key % period).toFinset.filter p) ⊆
      (Finset.range period).filter p := by
    refine Finset.filter_subset_filter p fun c hc => ?_
    obtain ⟨key, -, rfl⟩ := List.mem_map.1 (List.mem_toFinset.1 hc)
    exact Finset.mem_range.2 (Nat.mod_lt _ hperiod)
  have hsum : ∑ c ∈ (Finset.range period).filter p,
      (keys.map fun key => hashFn key % period).count c =
        (keys.map fun key => hashFn key % period).countP p := by
    rw [← Finset.sum_filter_count_eq_countP]
    refine (Finset.sum_subset hsubset fun c hc hno => ?_).symm
    refine List.count_eq_zero.2 fun hmem => hno ?_
    exact Finset.mem_filter.2 ⟨List.mem_toFinset.2 hmem, (Finset.mem_filter.1 hc).2⟩
  rw [hmap, ← hsum, Finset.sum_congr rfl fun c hc =>
    hspread c (Finset.mem_range.1 (Finset.mem_filter.1 hc).1), Finset.sum_const, smul_eq_mul]

/-- The fraction is the share of the keys whose residues differ. -/
theorem remappingFraction_pos (keys : List JsString) :
    remappingFraction keys (.int (fromCount : ℕ)) (.int (toCount : ℕ)) hashFn =
      .ok ((keys.countP fun key => hashFn key % fromCount ≠ hashFn key % toCount : ℕ) /
        keys.length) := by
  unfold remappingFraction
  split_ifs with hkeys
  · rw [hkeys, Nat.cast_zero, div_zero]
  · rw [foldlM_changed, Nat.zero_add]
    rfl

/-- Of evenly spread keys those with a residue from `least` on. -/
theorem Spread.fraction {keys : List JsString} {period n least : ℕ}
    (hspread : Spread keys hashFn period n) (hn : 0 < n) (hleast : least ≤ period)
    (hperiod : 0 < period) :
    ((keys.countP fun key => least ≤ hashFn key % period : ℕ) : ℚ) / keys.length =
      1 - (least : ℕ) / (period : ℕ) := by
  have hlength : keys.length = period * n := by
    have hall := hspread.countP hperiod fun _ => True
    rw [Finset.filter_true, Finset.card_range] at hall
    rw [← hall]
    exact (List.countP_eq_length.2 fun _ _ => decide_eq_true trivial).symm
  have hcard : ((Finset.range period).filter (least ≤ ·)).card = period - least := by
    have hIco : (Finset.range period).filter (least ≤ ·) = Finset.Ico least period := by
      ext c
      rw [Finset.mem_filter, Finset.mem_range, Finset.mem_Ico, and_comm]
    rw [hIco, Nat.card_Ico]
  rw [hspread.countP hperiod (least ≤ ·), hcard, hlength]
  push_cast [Nat.cast_sub hleast]
  field_simp

/-- **What the modulo router moves.** When the number of nodes changes, a key is sent to another
node exactly if its hash, modulo the least common multiple of the two numbers, is not below the
smaller one; `remappingFraction` is the share of these keys; and of evenly spread keys all but one
in every `period / min` move, `n` in `n + 1` when one node joins `n`. -/
theorem modulo_remapping (hashFn : JsString → ℕ) (fromCount toCount : ℕ+) :
    let period := Nat.lcm fromCount toCount
    let moves := fun key => min (fromCount : ℕ) toCount ≤ hashFn key % period
    let fraction := fun keys => ModuloRouter.remappingFraction keys (.int (fromCount : ℕ))
      (.int (toCount : ℕ)) hashFn
    (∀ key (c c' : ClusterClient), c.IsModulo fromCount hashFn → c'.IsModulo toCount hashFn →
      (c.resolveNodeIndex key ≠ c'.resolveNodeIndex key ↔ moves key)) ∧
    (∀ keys, fraction keys = .ok ((keys.countP moves : ℕ) / keys.length)) ∧
    (∀ keys n, 0 < n → Spread keys hashFn period n →
      fraction keys = .ok (1 - (min (fromCount : ℕ) toCount : ℕ) / (period : ℕ))) ∧
    ((toCount : ℕ) = fromCount + 1 → ∀ keys n, 0 < n → Spread keys hashFn period n →
      fraction keys = .ok ((fromCount : ℕ) / (fromCount + 1 : ℕ))) := by
  intro period moves fraction
  have hmoves (key : JsString) :
      hashFn key % fromCount ≠ hashFn key % toCount ↔ moves key := by
    rw [Ne, mod_eq_mod_iff, not_lt]
  have hfraction (keys : List JsString) :
      fraction keys = .ok ((keys.countP moves : ℕ) / keys.length) := by
    have hcount : (keys.countP fun key => hashFn key % fromCount ≠ hashFn key % toCount) =
        keys.countP moves :=
      List.countP_congr fun key _ => by simpa only [decide_eq_true_eq] using hmoves key
    rw [← hcount]
    exact remappingFraction_pos keys
  have hperiod : 0 < period := Nat.lcm_pos fromCount.pos toCount.pos
  have hleast : min (fromCount : ℕ) toCount ≤ period :=
    (min_le_left _ _).trans (Nat.le_of_dvd hperiod (Nat.dvd_lcm_left _ _))
  have hspread (keys : List JsString) (n : ℕ) (hn : 0 < n) (h : Spread keys hashFn period n) :
      fraction keys = .ok (1 - (min (fromCount : ℕ) toCount : ℕ) / (period : ℕ)) := by
    rw [hfraction keys, h.fraction hn hleast hperiod]
  refine ⟨fun key c c' hc hc' => ?_, hfraction, hspread, fun hnext keys n hn h => ?_⟩
  · rw [hc.resolve key, hc'.resolve key, Ne, Except.ok.injEq]
    exact hmoves key
  · have hmin : min (fromCount : ℕ) toCount = fromCount := min_eq_left (by omega)
    have hlcm : period = fromCount * (fromCount + 1) := by
      have hcoprime : Nat.Coprime fromCount toCount := by
        rw [hnext]
        exact Nat.coprime_self_add_right.2 (Nat.coprime_one_right _)
      rw [← hnext]
      exact hcoprime.lcm_eq_mul
    have hpos : ((fromCount : ℕ) : ℚ) ≠ 0 := Nat.cast_ne_zero.2 fromCount.ne_zero
    have hpos' : ((fromCount : ℕ) : ℚ) + 1 ≠ 0 := by positivity
    rw [hspread keys n hn h, hmin, hlcm, Nat.cast_mul, Nat.cast_add, Nat.cast_one]
    congr 1
    field_simp
    ring

/-- A third node moves two keys in three. -/
theorem modulo_remapping_example :
    ModuloRouter.remappingFraction [[], js "k", js "id", js "key", js "item", js "user1"] (.int 2)
      (.int 3) List.length = .ok ((2 : ℕ) / (2 + 1 : ℕ)) :=
  (modulo_remapping List.length ⟨2, by decide⟩ ⟨3, by decide⟩).2.2.2 rfl
    [[], js "k", js "id", js "key", js "item", js "user1"] 1 Nat.one_pos (by
      intro c hc
      have hspread : ∀ c < 6, ([[], js "k", js "id", js "key", js "item", js "user1"].map
          fun key => List.length key % 6).count c = 1 := by decide
      exact hspread c hc)

end ModuloRouter

end DistributedCache
