import DistributedCache.Cluster.Transparent
import DistributedCache.Node.Refusal

/-!
# Where the values of a replica come from

The stores of the nodes have limits of their own, lines arrive in any order, and a client's commands
are served by the primaries of their keys. `dispatchCommand` replicates a mutation whatever its
response was, so a replica with more room can hold what its primary refused (`refused_replicated`).

* `LimitedEvent`, `limitedSystem`;
* `HandsRefused`: a step hands a mutation to the engine although its response is an error;
* `Takes`: the primary's store takes every mutation that is handed over;
* `replicas_hold_accepted`: a step hands over a refused mutation exactly when this fails, and while it
  holds every value of a replica was once stored by the primary.
-/

namespace DistributedCache

open CacheStore

/-- The limits of a node's store. -/
structure StoreLimits where
  maxEntries : Option ℕ+
  maxMemoryBytes : Option ℕ+

/-- All nodes start with empty stores, and nothing has been sent. -/
def LossyCluster.startWith (t : Topology) (limits : ℕ → StoreLimits) : LossyCluster where
  node i := .new (CacheStore.new (limits i).maxEntries (limits i).maxMemoryBytes) (t.configAt i)
  sent := []

/-- A client's line with its response, the arrival of a line, or the release of a settled mutation. -/
inductive LimitedEvent
  | client (p : ℕ) (clock : Clock) (line : JsString) (reply : Option JsString)
  | deliver (clock : Clock) (q : ℕ) (text : JsString)
  | release (p : ℕ)

/-- A client's line is no `REPL` line, and a command with a key goes to the key's primary. -/
def AtPrimary (num : Numerals) (t : Topology) (p : ℕ) (line : JsString) : Prop :=
  match parseCommand num (dropCr line) with
  | .ok (.set cmd) => t.primary cmd.key = p
  | .ok (.keyed _ key) => t.primary key = p
  | .ok (.repl _) => False
  | .ok .ping => True
  | .error _ => True

/-- The steps. -/
def LimitedStep (num : Numerals) (t : Topology) (s : LossyCluster) :
    LimitedEvent → LossyCluster → Prop
  | .client p clock line reply, s' =>
      AtPrimary num t p line ∧ ∃ served, serveLine num (s.node p) clock line = some served ∧
        reply = served.reply ∧ s' = s.absorb p served
  | .deliver clock q text, s' =>
      (q, text) ∈ s.sent ∧ ∃ served, serveLine num (s.node q) clock text = some served ∧
        s' = s.absorb q served
  | .release p, s' => s' = { s with node := Function.update s.node p (s.node p).release }

/-- The cluster as a transition system. -/
def limitedSystem (num : Numerals) (t : Topology) (limits : ℕ → StoreLimits) :
    System LossyCluster LimitedEvent where
  init := .startWith t limits
  step := LimitedStep num t

/-- The step hands to the engine a mutation that is answered with an error. -/
def HandsRefused (num : Numerals) (s : LossyCluster) : LimitedEvent → Prop
  | .client p _ line reply =>
      ∃ m text, (s.node p).handed num line = some m ∧ reply = some text ∧ IsErr text
  | .deliver _ _ _ => False
  | .release _ => False

/-- The store of the primary takes the mutation that is handed to the engine. -/
def Takes (num : Numerals) (s : LossyCluster) : LimitedEvent → Prop
  | .client p _ line _ => ∀ m, (s.node p).handed num line = some m → m.TakenBy (s.node p).store
  | .deliver _ _ _ => True
  | .release _ => True

/-- The primary of the key holds the value under it. -/
def Holds (t : Topology) (key value : JsString) (s : LossyCluster) : Prop :=
  ∃ e, (s.node (t.primary key)).store.store.get? key = some e ∧ e.value = value

variable {num : Numerals} {t : Topology} {limits : ℕ → StoreLimits} {s s' : LossyCluster}
  {clock : Clock} {p q : ℕ} {line text : JsString} {reply : Option JsString}
  {past : List LimitedEvent} {ev : LimitedEvent}

/-- Every value was once held by the primary: those of the replicas and those under way. -/
structure Backed (num : Numerals) (t : Topology) (limits : ℕ → StoreLimits)
    (past : List LimitedEvent) (s : LossyCluster) : Prop where
  inv : ∀ i, Inv (s.node i).store
  engine : ∀ i, ∃ e, (s.node i).replication = some e ∧ e.config = t.configAt i
  sent : ∀ q text, (q, text) ∈ s.sent → ∃ m, text = replLine num m ∧ m.WellFormed num ∧
    ∀ cmd, m = .set cmd → (limitedSystem num t limits).Passed past s (Holds t cmd.key cmd.value)
  held : ∀ i k e, (s.node i).store.store.get? k = some e →
    (limitedSystem num t limits).Passed past s (Holds t k e.value)

theorem backed_start : Backed num t limits [] (.startWith t limits) where
  inv _ := inv_new _ _
  engine _ := ⟨_, rfl, rfl⟩
  sent _ _ h := (nomatch h)
  held _ _ _ h := (nomatch h)

/-- A client's step hands a refused mutation over exactly when the store does not take it. -/
theorem handsRefused_iff (h : Backed num t limits past s) (hstep : LimitedStep num t s ev s') :
    HandsRefused num s ev ↔ ¬ Takes num s ev := by
  cases ev with
  | deliver clock q text => exact iff_of_false id (not_not.2 trivial)
  | release p => exact iff_of_false id (not_not.2 trivial)
  | client p clock line reply =>
    obtain ⟨-, served, hserve, rfl, -⟩ := hstep
    constructor
    · rintro ⟨m, text, hm, hreply, herr⟩ htakes
      obtain ⟨-, reply', hreply', hiff, -⟩ := serve_handed (h.inv p) hserve hm
      obtain rfl := Option.some.inj (hreply.symm.trans hreply')
      exact hiff.1 herr (htakes m hm)
    · intro hnot
      by_contra hno
      refine hnot fun m hm => ?_
      obtain ⟨-, reply', hreply', hiff, -⟩ := serve_handed (h.inv p) hserve hm
      by_contra hrefused
      exact hno ⟨m, reply', hm, hreply', hiff.2 hrefused⟩

/-- What serving a line at a node needs to keep every value backed. -/
theorem Backed.absorb {served : Served} (h : Backed num t limits past s)
    (hserve : serveLine num (s.node p) clock line = some served)
    (hstep : (limitedSystem num t limits).step s ev (s.absorb p served))
    (hsent : ∀ send ∈ served.sends, ∃ m, trim send.2 = replLine num m ∧ m.WellFormed num ∧
      ∀ cmd, m = .set cmd →
        (limitedSystem num t limits).Passed (ev :: past) (s.absorb p served)
          (Holds t cmd.key cmd.value))
    (hnew : ∀ cmd : SetCommand, (parseCommand num (dropCr line) = .ok (.set cmd) ∨
        parseCommand num (dropCr line) = .ok (.repl (.set cmd))) →
      ∀ e : CacheEntry, served.node.store.store.get? cmd.key = some e → e.value = cmd.value →
        (limitedSystem num t limits).Passed (ev :: past) (s.absorb p served)
          (Holds t cmd.key cmd.value)) :
    Backed num t limits (ev :: past) (s.absorb p served) := by
  obtain ⟨hinv, hkept, hentries⟩ := serve_entries (h.inv p) hserve
  refine ⟨fun i => ?_, fun i => ?_, fun q text htext => ?_, fun i k e he => ?_⟩
  · by_cases hi : i = p
    · subst hi
      simpa only [LossyCluster.absorb, Function.update_self] using hinv
    · simpa only [LossyCluster.absorb, Function.update_of_ne hi] using h.inv i
  · by_cases hi : i = p
    · subst hi
      obtain ⟨e, he, hconfig⟩ := h.engine i
      obtain ⟨e', he', hconfig', -⟩ := hkept.engine e he
      simp only [LossyCluster.absorb, Function.update_self]
      exact ⟨e', he', hconfig'.trans hconfig⟩
    · simpa only [LossyCluster.absorb, Function.update_of_ne hi] using h.engine i
  · rcases List.mem_append.1 htext with hold | hin
    · obtain ⟨m, hline, hw, hpassed⟩ := h.sent q text hold
      exact ⟨m, hline, hw, fun cmd hcmd => (hpassed cmd hcmd).snoc hstep⟩
    · obtain ⟨send, hsend, heq⟩ := List.mem_map.1 hin
      cases heq
      exact hsent send hsend
  · by_cases hi : i = p
    · subst hi
      simp only [LossyCluster.absorb, Function.update_self] at he
      -- an entry of this node is an old one or the one that the line has written
      rcases hentries k e he with hold | ⟨cmd, rfl, hvalue, hparse⟩
      · exact (h.held i k e hold).snoc hstep
      · rw [hvalue]
        exact hnew cmd hparse e he hvalue
    · simp only [LossyCluster.absorb, Function.update_of_ne hi] at he
      exact (h.held i k e he).snoc hstep

theorem backed_client (h : Backed num t limits past s)
    (hrun : (limitedSystem num t limits).Run past s)
    (hstep : LimitedStep num t s (.client p clock line reply) s')
    (htakes : Takes num s (.client p clock line reply)) :
    Backed num t limits (.client p clock line reply :: past) s' := by
  have hstep' : (limitedSystem num t limits).step s (.client p clock line reply) s' := hstep
  have hrun' := hrun.snoc hstep'
  obtain ⟨hprimary, served, hserve, rfl, rfl⟩ := hstep
  -- what the primary holds after the step it has held
  have holds (cmd : SetCommand) (hp : t.primary cmd.key = p) {e : CacheEntry}
      (he : served.node.store.store.get? cmd.key = some e) (hvalue : e.value = cmd.value) :
      Holds t cmd.key cmd.value (s.absorb p served) := by
    refine ⟨e, ?_, hvalue⟩
    rw [hp]
    simpa only [LossyCluster.absorb, Function.update_self] using he
  refine h.absorb hserve hstep' (fun send hsend => ?_) fun cmd hparse e he hvalue => ?_
  · obtain ⟨m, e, hm, hengine, hp, -, hline⟩ := serve_sends hserve hsend
    obtain ⟨hw, -, -, -, hstored⟩ := serve_handed (h.inv p) hserve hm
    refine ⟨m, by rw [replLine, hline], hw, ?_⟩
    rintro cmd rfl
    obtain ⟨e', he', hvalue⟩ := hstored (htakes _ hm) cmd rfl
    obtain ⟨e₀, he₀, hconfig⟩ := h.engine p
    obtain rfl : e = e₀ := Option.some.inj (hengine.symm.trans he₀)
    rw [hconfig] at hp
    exact hrun'.passed (holds cmd (of_decide_eq_true hp) he' hvalue)
  · rw [AtPrimary] at hprimary
    rcases hparse with hparse | hparse
    · rw [hparse] at hprimary
      exact hrun'.passed (holds cmd hprimary he hvalue)
    · rw [hparse] at hprimary
      exact hprimary.elim

theorem backed_deliver (h : Backed num t limits past s)
    (hstep : LimitedStep num t s (.deliver clock q text) s') :
    Backed num t limits (.deliver clock q text :: past) s' := by
  have hstep' := hstep
  obtain ⟨hsent, served, hserve, rfl⟩ := hstep
  obtain ⟨m, rfl, hw, hpassed⟩ := h.sent q text hsent
  have hparse : parseCommand num (dropCr (replLine num m)) = .ok (.repl m.normal) := by
    rw [dropCr_replLine hw, parse_replLine hw]
  refine h.absorb hserve hstep' (fun send hsend => ?_) fun cmd hcmd e he hvalue => ?_
  · -- a `REPL` line hands nothing to the engine
    obtain ⟨m', e, hm', -⟩ := serve_sends hserve hsend
    unfold CacheNode.handed CacheNode.handedBy at hm'
    rw [hparse] at hm'
    split_ifs at hm'
    cases hengine : (s.node q).replication <;> simp [hengine, Command.mutation] at hm'
  · rw [hparse] at hcmd
    have hset : m = .set cmd := by
      rcases hcmd with hcmd | hcmd
      · cases hcmd
      · cases m with
        | set cmd' =>
          cases hcmd
          rfl
        | del key | delete key => cases hcmd
    exact (hpassed cmd hset).snoc hstep'

theorem backed_release (h : Backed num t limits past s)
    (hstep : LimitedStep num t s (.release p) s') : Backed num t limits (.release p :: past) s' := by
  have hstep' := hstep
  obtain rfl := hstep
  have hstore (i : ℕ) : (Function.update s.node p (s.node p).release i).store = (s.node i).store := by
    by_cases hi : i = p
    · subst hi
      rw [Function.update_self]
      rfl
    · rw [Function.update_of_ne hi]
  refine ⟨fun i => ?_, fun i => ?_, fun q text htext => ?_, fun i k e he => ?_⟩
  · show Inv (Function.update s.node p (s.node p).release i).store
    rw [hstore]
    exact h.inv i
  · by_cases hi : i = p
    · subst hi
      obtain ⟨e, he, hconfig⟩ := h.engine i
      refine ⟨e.release, ?_, hconfig⟩
      simp only [Function.update_self, CacheNode.release, he, Option.map_some]
    · simpa only [Function.update_of_ne hi] using h.engine i
  · obtain ⟨m, hline, hw, hpassed⟩ := h.sent q text htext
    exact ⟨m, hline, hw, fun cmd hcmd => (hpassed cmd hcmd).snoc hstep'⟩
  · have he : (Function.update s.node p (s.node p).release i).store.store.get? k = some e := he
    rw [hstore] at he
    exact (h.held i k e he).snoc hstep'

/-- Every value is backed while the primaries take what they replicate. -/
theorem reachable_backed (hrun : ((limitedSystem num t limits).restrict (Takes num)).Run past s) :
    Backed num t limits past s := by
  refine hrun.invariant (P := Backed num t limits) backed_start ?_
  rintro past s ev s' hrun hs ⟨hstep, htakes⟩
  cases ev with
  | client p clock line reply => exact backed_client hs hrun.of_restrict hstep htakes
  | deliver clock q text => exact backed_deliver hs hstep
  | release p => exact backed_release hs hstep

/-- **A replica holds what its primary accepted, as long as the primaries accept what they replicate.**
In a run in which they do, a step hands over a mutation that was refused exactly when its primary's
store does not take it, and every value that any node holds was at some moment held by the key's
primary. -/
theorem replicas_hold_accepted
    (hrun : ((limitedSystem num t limits).restrict (Takes num)).Run past s) :
    (∀ ev s', (limitedSystem num t limits).step s ev s' →
      (HandsRefused num s ev ↔ ¬ Takes num s ev)) ∧
    ∀ i k e, (s.node i).store.store.get? k = some e →
      (limitedSystem num t limits).Passed past s (Holds t k e.value) :=
  ⟨fun _ _ hstep => handsRefused_iff (reachable_backed hrun) hstep, (reachable_backed hrun).held⟩

/-- The value that reached the replica was held by the primary. -/
theorem replicas_hold_accepted_example : ∃ past s e,
    ((limitedSystem decimalNumerals twoNodes fun _ => ⟨none, none⟩).restrict
      (Takes decimalNumerals)).Run past s ∧ past.length = 2 ∧
      (s.node 1).store.store.get? (js "k") = some e ∧ e.value = js "v" ∧
      (limitedSystem decimalNumerals twoNodes fun _ => ⟨none, none⟩).Passed past s
        (Holds twoNodes (js "k") e.value) := by
  let clock : Clock := fun _ => 0
  let ev₁ : LimitedEvent := .client 0 clock (js "SET k v") (some (js "OK" ++ newline))
  let ev₂ : LimitedEvent := .deliver clock 1 (js "REPL SET k v")
  have htakes : Takes decimalNumerals (.startWith twoNodes fun _ => ⟨none, none⟩) ev₁ := by
    intro m hm
    obtain rfl : .set ⟨js "k", js "v", none⟩ = m := Option.some.inj hm
    exact ⟨by decide, by decide, rfl⟩
  have h₁ := System.Run.start (S := (limitedSystem decimalNumerals twoNodes fun _ =>
    ⟨none, none⟩).restrict (Takes decimalNumerals))
  have h₂ := h₁.snoc (l := ev₁) ⟨⟨by rfl, _, rfl, rfl, rfl⟩, htakes⟩
  have h₃ := h₂.snoc (l := ev₂) ⟨⟨List.mem_cons_self, _, rfl, rfl⟩, trivial⟩
  exact ⟨_, _, ⟨js "v", none, 2⟩, h₃, rfl, rfl, rfl,
    (replicas_hold_accepted h₃).2 1 (js "k") ⟨js "v", none, 2⟩ rfl⟩

/-! ### What happens otherwise -/

/-- A step is determined by its event. -/
theorem limitedStep_unique {s₁ s₂ : LossyCluster} (h₁ : LimitedStep num t s ev s₁)
    (h₂ : LimitedStep num t s ev s₂) : s₁ = s₂ := by
  cases ev with
  | client p clock line reply =>
    obtain ⟨-, served₁, hserve₁, -, rfl⟩ := h₁
    obtain ⟨-, served₂, hserve₂, -, rfl⟩ := h₂
    rw [Option.some.inj (hserve₁.symm.trans hserve₂)]
  | deliver clock q text =>
    obtain ⟨-, served₁, hserve₁, rfl⟩ := h₁
    obtain ⟨-, served₂, hserve₂, rfl⟩ := h₂
    rw [Option.some.inj (hserve₁.symm.trans hserve₂)]
  | release p => exact h₁.trans h₂.symm

/-- Room for one byte at the first node, and any amount at the others. -/
def smallPrimary (i : ℕ) : StoreLimits := ⟨none, if i = 0 then some ⟨1, Nat.one_pos⟩ else none⟩

/-- The primary answers `SET k v` with an error and sends it to the replica all the same; the replica
holds a value that the primary never held. -/
theorem refused_replicated : ∃ past s e,
    (limitedSystem decimalNumerals twoNodes smallPrimary).Run past s ∧
      past = [.deliver (fun _ => 0) 1 (js "REPL SET k v"),
        .client 0 (fun _ => 0) (js "SET k v")
          (some (js "ERR key+value size 2 exceeds maxMemoryBytes 1" ++ newline))] ∧
      HandsRefused decimalNumerals (.startWith twoNodes smallPrimary)
        (.client 0 (fun _ => 0) (js "SET k v")
          (some (js "ERR key+value size 2 exceeds maxMemoryBytes 1" ++ newline))) ∧
      (s.node 1).store.store.get? (js "k") = some e ∧ e.value = js "v" ∧
      ¬ (limitedSystem decimalNumerals twoNodes smallPrimary).Passed past s
        (Holds twoNodes (js "k") e.value) := by
  let reply := js "ERR key+value size 2 exceeds maxMemoryBytes 1" ++ newline
  let ev₁ : LimitedEvent := .client 0 (fun _ => 0) (js "SET k v") (some reply)
  let ev₂ : LimitedEvent := .deliver (fun _ => 0) 1 (js "REPL SET k v")
  have h₁ := System.Run.start (S := limitedSystem decimalNumerals twoNodes smallPrimary)
  have h₂ := h₁.snoc (l := ev₁) ⟨by rfl, _, rfl, rfl, rfl⟩
  have h₃ := h₂.snoc (l := ev₂) ⟨List.mem_cons_self, _, rfl, rfl⟩
  refine ⟨_, _, ⟨js "v", none, 2⟩, h₃, rfl, ⟨_, reply, rfl, rfl, by decide⟩, rfl, rfl, ?_⟩
  -- the moments of the run are its three states, and in none of them the primary has an entry
  rintro ⟨later, before, s', heq, hrun, -, e, he, -⟩
  rcases later with _ | ⟨_, _ | ⟨_, _ | ⟨_, later⟩⟩⟩
  · cases heq
    obtain rfl := hrun.unique (fun _ _ _ _ => limitedStep_unique) h₃
    exact nomatch show none = some e from he
  · cases heq
    obtain rfl := hrun.unique (fun _ _ _ _ => limitedStep_unique) h₂
    exact nomatch show none = some e from he
  · cases heq
    obtain rfl := hrun.unique (fun _ _ _ _ => limitedStep_unique) h₁
    exact nomatch show none = some e from he
  · simp at heq

end DistributedCache
