import DistributedCache.Cluster.System

/-!
# Replicas converge

The accepted mutations of a key, in the order in which its primary executed them, are the key's log.
The primary holds what the last mutation of the log left. A replica has applied a prefix of the log,
and the rest is what is still in flight to it, in order (`Behind`); so once nothing is in flight it
holds what the primary holds, up to the later reading at which its copy was written.

* `written`: the log of a key, read off the history;
* `Clocked past now`: the clock readings of the history never go back and do not exceed `now`;
* `Good`: the invariant, and `reachable_good`, which carries it through every run;
* `replicas_converge`.
-/

namespace DistributedCache

open CacheStore

/-- The accepted mutations of `k` at its primary, oldest first. -/
def written (num : Numerals) (k : JsString) : List ClusterEvent → List InnerCommand
  | [] => []
  | .client _ _ line :: past =>
      match lineMutation num line with
      | some m => if m.Accepted ∧ k = m.key then written num k past ++ [m] else written num k past
      | none => written num k past
  | .deliver _ _ _ :: past => written num k past
  | .release _ :: past => written num k past

/-- The first clock reading of an event. -/
def ClusterEvent.reading : ClusterEvent → Option ℤ
  | .client _ clock _ => some clock.head
  | .deliver _ _ clock => some clock.head
  | .release _ => none

/-- The readings of a history never go back, and none is later than `now`. -/
def Clocked : List ClusterEvent → ℤ → Prop
  | [], _ => True
  | ev :: past, now =>
      match ev.reading with
      | some r => r ≤ now ∧ Clocked past r
      | none => Clocked past now

/-- The accepted mutation of `k` that a line in flight carries. -/
def effective (num : Numerals) (k text : JsString) : Option InnerCommand :=
  match parseCommand num text with
  | .ok (.repl m) => if m.Accepted ∧ k = m.key then some m else none
  | _ => none

/-- The accepted mutations of `k` among the lines in flight. -/
def pendingOf (num : Numerals) (k : JsString) (texts : List JsString) : List InnerCommand :=
  texts.filterMap (effective num k)

/-- A log: the mutations of one key with the readings at which the primary executed them. -/
abbrev KeyLog := List (InnerCommand × ℤ)

/-- What the last mutation of a log left at the primary. -/
def KeyLog.last (log : KeyLog) : Option CacheEntry :=
  match log.getLast? with
  | none => none
  | some (m, r) => m.entry r

/-- `entry` is what the last mutation of `done` left when it was applied at a reading no earlier
than the primary's. -/
def Applied (past : List ClusterEvent) (done : KeyLog) (entry : Option CacheEntry) : Prop :=
  (done = [] ∧ entry = none) ∨ ∃ init m r₀ r₁, done = init ++ [(m, r₀)] ∧ entry = m.entry r₁ ∧
    ∀ now, Clocked past now → r₀ ≤ r₁ ∧ r₁ ≤ now

/-- A replica has applied a prefix of the log, and the rest is in flight. -/
def Behind (num : Numerals) (past : List ClusterEvent) (k : JsString) (log : KeyLog)
    (entry : Option CacheEntry) (texts : List JsString) : Prop :=
  ∃ done pend, log = done ++ pend ∧ pend.map Prod.fst = pendingOf num k texts ∧
    Applied past done entry

/-- A line in flight carries a mutation from the primary of its key to another replica. -/
def Routed (num : Numerals) (t : Topology) (p q : ℕ) (text : JsString) : Prop :=
  ∃ m, text = replLine num m ∧ m.WellFormed num ∧ m.normal = m ∧ t.primary m.key = p ∧
    q ∈ t.replicas m.key ∧ q ≠ p

/-- The entry of a node under a key. -/
def ClusterState.entry (s : ClusterState) (i : ℕ) (k : JsString) : Option CacheEntry :=
  (s.node i).store.store.get? k

/-- The invariant, for a choice of logs. -/
structure Good (num : Numerals) (t : Topology) (past : List ClusterEvent) (s : ClusterState)
    (log : JsString → KeyLog) : Prop where
  sound : ∀ i, Sound t i (s.node i)
  routed : ∀ p q, ∀ text ∈ s.channel p q, Routed num t p q text
  written : ∀ k, (log k).map Prod.fst = written num k past
  times : ∀ now, Clocked past now → ∀ k, ∀ x ∈ log k, x.2 ≤ now
  primary : ∀ k, s.entry (t.primary k) k = (log k).last
  replica : ∀ k q, q ∈ t.replicas k → q ≠ t.primary k →
    Behind num past k (log k) (s.entry q k) (s.channel (t.primary k) q)
  other : ∀ k q, q ∉ t.replicas k → s.entry q k = none

variable {num : Numerals} {t : Topology} {s s' : ClusterState} {p q : ℕ} {clock : Clock}
  {line k : JsString} {m : InnerCommand} {past : List ClusterEvent} {ev : ClusterEvent}
  {log : JsString → KeyLog} {now : ℤ}

/-! ### Small facts -/

theorem Clocked.mono {now' : ℤ} (h : Clocked past now) (hle : now ≤ now') : Clocked past now' := by
  induction past with
  | nil => trivial
  | cons ev past ih =>
    unfold Clocked at h ⊢
    cases hr : ev.reading with
    | none =>
      rw [hr] at h
      exact ih h
    | some r =>
      rw [hr] at h
      exact ⟨h.1.trans hle, h.2⟩

/-- Going back one event. -/
theorem Clocked.tail (h : Clocked (ev :: past) now) : Clocked past now := by
  unfold Clocked at h
  cases hr : ev.reading with
  | none => rwa [hr] at h
  | some r =>
    rw [hr] at h
    exact h.2.mono h.1

theorem effective_replLine (hw : m.WellFormed num) (hn : m.normal = m) :
    effective num k (replLine num m) = if m.Accepted ∧ k = m.key then some m else none := by
  simp only [effective, parse_replLine hw, hn]

theorem pendingOf_cons_none {text : JsString} {texts : List JsString}
    (h : effective num k text = none) : pendingOf num k (text :: texts) = pendingOf num k texts :=
  List.filterMap_cons_none h

theorem pendingOf_append (texts texts' : List JsString) :
    pendingOf num k (texts ++ texts') = pendingOf num k texts ++ pendingOf num k texts' :=
  List.filterMap_append

theorem KeyLog.last_append (l : KeyLog) (m : InnerCommand) (r : ℤ) :
    KeyLog.last (l ++ [(m, r)]) = m.entry r := by
  unfold KeyLog.last
  rw [List.getLast?_concat]

theorem Applied.cons {done : KeyLog} {entry : Option CacheEntry} (h : Applied past done entry) :
    Applied (ev :: past) done entry := by
  rcases h with h | ⟨init, m, r₀, r₁, hdone, hentry, htime⟩
  · exact Or.inl h
  · exact Or.inr ⟨init, m, r₀, r₁, hdone, hentry, fun now h => htime now h.tail⟩

theorem Behind.cons {l : KeyLog} {entry : Option CacheEntry} {texts : List JsString}
    (h : Behind num past k l entry texts) : Behind num (ev :: past) k l entry texts := by
  obtain ⟨done, pend, hl, hpend, happ⟩ := h
  exact ⟨done, pend, hl, hpend, happ.cons⟩

/-- A line that carries no accepted mutation of `k` does not matter to it. -/
theorem Behind.append_none {l : KeyLog} {entry : Option CacheEntry} {texts : List JsString}
    {text : JsString} (h : Behind num past k l entry texts) (hnone : effective num k text = none) :
    Behind num past k l entry (texts ++ [text]) := by
  obtain ⟨done, pend, hl, hpend, happ⟩ := h
  refine ⟨done, pend, hl, ?_, happ⟩
  rw [pendingOf_append, pendingOf_cons_none hnone, hpend]
  exact (List.append_nil _).symm

/-- An accepted mutation is appended to the log and put in flight. -/
theorem Behind.append_some {l : KeyLog} {entry : Option CacheEntry} {texts : List JsString}
    {text : JsString} (h : Behind num past k l entry texts) (hsome : effective num k text = some m)
    (r : ℤ) : Behind num past k (l ++ [(m, r)]) entry (texts ++ [text]) := by
  obtain ⟨done, pend, rfl, hpend, happ⟩ := h
  refine ⟨done, pend ++ [(m, r)], (List.append_assoc _ _ _), ?_, happ⟩
  rw [pendingOf_append, List.map_append, hpend, pendingOf, pendingOf, List.filterMap_cons_some hsome]
  rfl

theorem Behind.pop_none {l : KeyLog} {entry : Option CacheEntry} {texts : List JsString}
    {text : JsString} (h : Behind num past k l entry (text :: texts))
    (hnone : effective num k text = none) : Behind num past k l entry texts := by
  obtain ⟨done, pend, hl, hpend, happ⟩ := h
  exact ⟨done, pend, hl, by rw [hpend, pendingOf_cons_none hnone], happ⟩

/-- The oldest mutation in flight is applied. -/
theorem Behind.pop_some {l : KeyLog} {entry : Option CacheEntry} {texts : List JsString}
    {text : JsString} (h : Behind num past k l entry (text :: texts))
    (hsome : effective num k text = some m) {r : ℤ}
    (htimes : ∀ now, Clocked (ev :: past) now → r ≤ now ∧ ∀ x ∈ l, x.2 ≤ r) :
    Behind num (ev :: past) k l (m.entry r) texts := by
  obtain ⟨done, pend, rfl, hpend, -⟩ := h
  rw [pendingOf, List.filterMap_cons_some hsome] at hpend
  cases pend with
  | nil => cases hpend
  | cons x pend =>
    obtain ⟨m', r₀⟩ := x
    obtain ⟨hm, hrest⟩ := List.cons.inj hpend
    obtain rfl : m' = m := hm
    refine ⟨done ++ [(m', r₀)], pend, by rw [List.append_assoc]; rfl, hrest,
      Or.inr ⟨done, m', r₀, r, rfl, rfl, fun now hnow => ?_⟩⟩
    obtain ⟨hr, hall⟩ := htimes now hnow
    exact ⟨hall (m', r₀) (by simp), hr⟩

/-! ### One step -/

/-- The start: every log is empty. -/
theorem good_start : Good num t [] (.start t) fun _ => [] where
  sound _ := ⟨free_new, rfl, _, rfl, rfl, rfl⟩
  routed _ _ _ h := (nomatch h)
  written _ := rfl
  times _ _ _ _ h := (nomatch h)
  primary _ := rfl
  replica _ _ _ _ := ⟨[], [], rfl, rfl, Or.inl ⟨rfl, rfl⟩⟩
  other _ _ _ := rfl

/-- A client's mutation joins the log of its key and the channels to the other replicas. -/
theorem good_client (h : Good num t past s log)
    (hstep : ClusterStep num t s (.client p clock line) s') :
    ∃ log', Good num t (.client p clock line :: past) s' log' := by
  obtain ⟨m, hm, hp, hsound, hother, hself, hchannel⟩ := client_step (h.sound p) hstep
  obtain ⟨hw, hn⟩ := wellFormed_of_lineMutation hm
  have hentry (q : ℕ) (k : JsString) : s'.entry q k =
      if q = p ∧ m.Accepted ∧ k = m.key then m.entry clock.head else s.entry q k := by
    unfold ClusterState.entry
    by_cases hq : q = p
    · subst hq
      simp only [hself, true_and]
    · simp only [hother q hq, hq, false_and, if_false]
  refine ⟨fun k => if m.Accepted ∧ k = m.key then log k ++ [(m, clock.head)] else log k,
    ⟨fun i => ?_, fun p' q text htext => ?_, fun k => ?_, fun now hnow k x hx => ?_, fun k => ?_,
      fun k q hq hne => ?_, fun k q hq => ?_⟩⟩
  · by_cases hi : i = p
    · subst hi
      exact hsound
    · rw [hother i hi]
      exact h.sound i
  · rw [hchannel] at htext
    split_ifs at htext with hcase
    · rcases List.mem_append.1 htext with hold | hnew
      · exact h.routed p' q text hold
      · exact ⟨m, List.mem_singleton.1 hnew, hw, hn, hp.trans hcase.1.symm, hcase.2.1,
          hcase.1 ▸ hcase.2.2⟩
    · exact h.routed p' q text htext
  · simp only [written, hm]
    split_ifs
    · rw [List.map_append, h.written k]
      rfl
    · exact h.written k
  · have hold : ∀ x ∈ log k, x.2 ≤ now := h.times now hnow.tail k
    split_ifs at hx
    · rcases List.mem_append.1 hx with hx | hx
      · exact hold x hx
      · obtain rfl := List.mem_singleton.1 hx
        exact hnow.1
    · exact hold x hx
  · rw [hentry]
    by_cases hcase : m.Accepted ∧ k = m.key
    · rw [if_pos ⟨hcase.2 ▸ hp, hcase⟩, if_pos hcase, KeyLog.last_append]
    · rw [if_neg fun hall => hcase hall.2, if_neg hcase]
      exact h.primary k
  · have hold := @Behind.cons _ _ _ (.client p clock line) _ _ _ (h.replica k q hq hne)
    rw [hentry, hchannel]
    by_cases hk : k = m.key
    · -- the replica gets a line for the mutation, which it has yet to apply
      have hqp : q ≠ p := fun heq => hne (by rw [heq, hk, hp])
      have hat : t.primary k = p ∧ q ∈ t.replicas m.key ∧ q ≠ p := ⟨hk ▸ hp, hk ▸ hq, hqp⟩
      rw [if_pos hat, if_neg (c := q = p ∧ m.Accepted ∧ k = m.key) fun hall => hqp hall.1]
      by_cases hacc : m.Accepted
      · rw [if_pos ⟨hacc, hk⟩]
        exact hold.append_some (by rw [effective_replLine hw hn, if_pos ⟨hacc, hk⟩]) clock.head
      · rw [if_neg fun hall => hacc hall.1]
        exact hold.append_none (by rw [effective_replLine hw hn, if_neg fun hall => hacc hall.1])
    · rw [if_neg (c := q = p ∧ m.Accepted ∧ k = m.key) fun hall => hk hall.2.2,
        if_neg (c := m.Accepted ∧ k = m.key) fun hall => hk hall.2]
      split_ifs
      · exact hold.append_none (by rw [effective_replLine hw hn, if_neg fun hall => hk hall.2])
      · exact hold
  · rw [hentry, if_neg fun hall => ?_]
    · exact h.other k q hq
    · exact hq (hall.1 ▸ hp ▸ hall.2.2 ▸ t.primary_mem_replicas k)

/-- The delivery of a line moves the oldest mutation in flight to what its replica has applied. -/
theorem good_deliver (h : Good num t past s log)
    (hstep : ClusterStep num t s (.deliver p q clock) s') :
    ∃ log', Good num t (.deliver p q clock :: past) s' log' := by
  obtain ⟨text, rest, _, hcons, -⟩ := id hstep
  obtain ⟨m, rfl, hw, hn, hp, hq, hqp⟩ := h.routed p q text (hcons ▸ List.mem_cons_self)
  obtain ⟨hsound, hother, hself, hchannel⟩ := deliver_step (h.sound q) hw hcons hstep
  have hentry (i : ℕ) (k : JsString) : s'.entry i k =
      if i = q ∧ m.Accepted ∧ k = m.key then m.entry clock.head else s.entry i k := by
    unfold ClusterState.entry
    by_cases hi : i = q
    · subst hi
      simp only [hself, true_and]
    · simp only [hother i hi, hi, false_and, if_false]
  refine ⟨log, ⟨fun i => ?_, fun p' q' text htext => ?_, h.written,
    fun now hnow => h.times now hnow.tail, fun k => ?_, fun k i hi hne => ?_, fun k i hi => ?_⟩⟩
  · by_cases hi : i = q
    · subst hi
      exact hsound
    · rw [hother i hi]
      exact h.sound i
  · rw [hchannel] at htext
    split_ifs at htext with hcase
    · obtain ⟨rfl, rfl⟩ := hcase
      exact h.routed p' q' text (hcons ▸ List.mem_cons_of_mem _ htext)
    · exact h.routed p' q' text htext
  · -- the line was not sent to the primary of its key
    rw [hentry, if_neg fun hall => hqp ?_]
    · exact h.primary k
    · rw [← hall.1, hall.2.2, hp]
  · have hold := h.replica k i hi hne
    rw [hentry, hchannel]
    by_cases hcase : t.primary k = p ∧ i = q
    · obtain ⟨rfl, rfl⟩ := hcase
      rw [hcons] at hold
      rw [if_pos (c := t.primary k = t.primary k ∧ i = i) ⟨rfl, rfl⟩]
      by_cases heff : m.Accepted ∧ k = m.key
      · rw [if_pos ⟨rfl, heff⟩]
        -- the oldest mutation in flight is applied, at a reading not before that of the primary
        refine hold.pop_some (by rw [effective_replLine hw hn, if_pos heff]) fun now hnow => ?_
        exact ⟨hnow.1, h.times _ hnow.2 k⟩
      · rw [if_neg fun hall => heff hall.2]
        exact (hold.pop_none (by rw [effective_replLine hw hn, if_neg heff])).cons
    · rw [if_neg fun hall => hcase ⟨by rw [hall.2.2, hp], hall.1⟩, if_neg hcase]
      exact hold.cons
  · rw [hentry, if_neg fun hall => hi ?_]
    · exact h.other k i hi
    · rw [hall.1, hall.2.2]
      exact hq

/-- The release of a settled mutation changes no store and no channel. -/
theorem good_release (h : Good num t past s log) (hstep : ClusterStep num t s (.release p) s') :
    ∃ log', Good num t (.release p :: past) s' log' := by
  obtain rfl := hstep
  have hstore (i : ℕ) :
      (Function.update s.node p (s.node p).release i).store = (s.node i).store := by
    by_cases hi : i = p
    · subst hi
      rw [Function.update_self]
      rfl
    · rw [Function.update_of_ne hi]
  refine ⟨log, ⟨fun i => ?_, h.routed, h.written, fun now hnow => h.times now hnow.tail,
    fun k => ?_, fun k q hq hne => ?_, fun k q hq => ?_⟩⟩
  · by_cases hi : i = p
    · subst hi
      obtain ⟨hfree, hlimit, e, he, hconfig, hopen⟩ := h.sound i
      simp only [Function.update_self]
      exact ⟨hfree, hlimit, e.release, by simp only [CacheNode.release, he, Option.map_some],
        hconfig, hopen⟩
    · simp only [Function.update_of_ne hi]
      exact h.sound i
  · simp only [ClusterState.entry, hstore]
    exact h.primary k
  · simp only [ClusterState.entry, hstore]
    exact (h.replica k q hq hne).cons
  · simp only [ClusterState.entry, hstore]
    exact h.other k q hq

/-- **The invariant of every run.** -/
theorem reachable_good (hrun : (clusterSystem num t).Run past s) : ∃ log, Good num t past s log := by
  refine hrun.invariant (P := fun past s => ∃ log, Good num t past s log) ⟨_, good_start⟩ ?_
  rintro past s ev s' - ⟨log, hgood⟩ hstep
  cases ev with
  | client p clock line => exact good_client hgood hstep
  | deliver p q clock => exact good_deliver hgood hstep
  | release p => exact good_release hgood hstep

/-! ### Convergence -/

/-- No line that carries a mutation of `k` is in flight. -/
def Settled (num : Numerals) (s : ClusterState) (k : JsString) : Prop :=
  ∀ p q, ∀ text ∈ s.channel p q, ∀ m, parseCommand num text = .ok (.repl m) → m.key ≠ k

/-- No client's `SET` of `k` carried an expiry. -/
def NoEx (num : Numerals) (past : List ClusterEvent) (k : JsString) : Prop :=
  ∀ p clock line cmd, .client p clock line ∈ past → lineMutation num line = some (.set cmd) →
    cmd.key = k → cmd.ex = none

/-- The entry is live at the reading `now`. -/
def LiveEntryAt (now : ℤ) (e : CacheEntry) : Prop := ∀ d, e.expiresAt = some d → now < d

theorem pendingOf_settled (h : Settled num s k) (p q : ℕ) :
    pendingOf num k (s.channel p q) = [] := by
  refine List.filterMap_eq_nil_iff.2 fun text htext => ?_
  unfold effective
  split
  · rename_i m hparse
    rw [if_neg]
    exact fun hall => h p q text htext m hparse hall.2.symm
  · rfl

/-- The log holds mutations of its key that clients asked for. -/
theorem mem_written (h : m ∈ written num k past) : m.key = k ∧
    ∃ p clock line, .client p clock line ∈ past ∧ lineMutation num line = some m := by
  induction past with
  | nil => cases h
  | cons ev past ih =>
    have old (h : m ∈ written num k past) : m.key = k ∧
        ∃ p clock line, .client p clock line ∈ ev :: past ∧ lineMutation num line = some m := by
      obtain ⟨hkey, p, clock, line, hmem, hline⟩ := ih h
      exact ⟨hkey, p, clock, line, List.mem_cons_of_mem ev hmem, hline⟩
    cases ev with
    | deliver p q clock => exact old h
    | release p => exact old h
    | client p clock line =>
      unfold written at h
      cases hline : lineMutation num line with
      | none =>
        rw [hline] at h
        exact old h
      | some m' =>
        rw [hline] at h
        simp only at h
        split_ifs at h with hcase
        · rcases List.mem_append.1 h with h | h
          · exact old h
          · obtain rfl := List.mem_singleton.1 h
            exact ⟨hcase.2.symm, p, clock, line, List.mem_cons_self, hline⟩
        · exact old h

/-- Without an expiry the reading does not matter. -/
theorem entry_of_noEx (h : ∀ cmd, m = .set cmd → cmd.ex = none) (r r' : ℤ) :
    m.entry r = m.entry r' := by
  cases m with
  | set cmd => simp only [InnerCommand.entry, h cmd rfl, Option.map_none]
  | del key => rfl
  | delete key => rfl

/-- With one, a later reading leaves the same value with a later deadline. -/
theorem entry_later {r r' : ℤ} {e : CacheEntry} (hle : r ≤ r') (h : m.entry r = some e)
    (hlive : LiveEntryAt now e) :
    ∃ e', m.entry r' = some e' ∧ e'.value = e.value ∧ LiveEntryAt now e' := by
  cases m with
  | del key => cases h
  | delete key => cases h
  | set cmd =>
    cases h
    refine ⟨_, rfl, rfl, fun d hd => ?_⟩
    obtain ⟨ex, hex, rfl⟩ := Option.map_eq_some_iff.1 hd
    exact (hlive _ (Option.map_eq_some_iff.2 ⟨ex, hex, rfl⟩)).trans_le (expiryOf_mono hle ex)

/-- Once nothing is in flight, a replica has applied the last mutation of the log, no earlier than
the primary did. -/
theorem entry_settled (h : Good num t past s log) (hsettled : Settled num s k)
    (hq : q ∈ t.replicas k) (hne : q ≠ t.primary k) :
    (s.entry q k = none ∧ s.entry (t.primary k) k = none) ∨
      ∃ m r₀ r₁, m ∈ written num k past ∧ s.entry (t.primary k) k = m.entry r₀ ∧
        s.entry q k = m.entry r₁ ∧ ∀ now, Clocked past now → r₀ ≤ r₁ := by
  obtain ⟨done, pend, hlog, hpend, happ⟩ := h.replica k q hq hne
  rw [pendingOf_settled hsettled] at hpend
  obtain rfl : pend = [] := List.map_eq_nil_iff.1 hpend
  rw [List.append_nil] at hlog
  rw [h.primary k, hlog]
  rcases happ with ⟨hdone, hentry⟩ | ⟨init, m, r₀, r₁, hdone, hentry, htime⟩
  · rw [hdone]
    exact Or.inl ⟨hentry, rfl⟩
  · refine Or.inr ⟨m, r₀, r₁, ?_, by rw [hdone, KeyLog.last_append], hentry,
      fun now hnow => (htime now hnow).1⟩
    rw [← h.written k, hlog, hdone, List.map_append]
    exact List.mem_append_right _ List.mem_cons_self

/-- **Replicas converge.** A mutation that its primary processes is sent once, in one line that is
read back as this mutation, to each other replica and to nobody else; a delivered line sends nothing.
When no line for a key is in flight every replica holds what the primary holds and no other node
holds the key, exactly if the key was written without an expiry, and else, under a common clock that
does not go back, for as long as the primary's copy is live. -/
theorem replicas_converge (hrun : (clusterSystem num t).Run past s) :
    (∀ p clock line s', ClusterStep num t s (.client p clock line) s' →
      ∃ m, lineMutation num line = some m ∧ t.primary m.key = p ∧
        parseCommand num (replLine num m) = .ok (.repl m) ∧
        ∀ p' q, s'.channel p' q =
          if p' = p ∧ q ∈ t.replicas m.key ∧ q ≠ p then s.channel p' q ++ [replLine num m]
          else s.channel p' q) ∧
    (∀ p q clock s', ClusterStep num t s (.deliver p q clock) s' →
      ∃ text rest, s.channel p q = text :: rest ∧
        ∀ p' q', s'.channel p' q' = if p' = p ∧ q' = q then rest else s.channel p' q') ∧
    (∀ k, Settled num s k → NoEx num past k → ∀ q,
      s.entry q k = if q ∈ t.replicas k then s.entry (t.primary k) k else none) ∧
    (∀ k, Settled num s k → ∀ now, Clocked past now →
      (∀ q, q ∉ t.replicas k → s.entry q k = none) ∧
      ∀ e, s.entry (t.primary k) k = some e → LiveEntryAt now e →
        ∀ q ∈ t.replicas k, ∃ e', s.entry q k = some e' ∧ e'.value = e.value ∧
          LiveEntryAt now e') := by
  obtain ⟨log, h⟩ := reachable_good hrun
  refine ⟨fun p clock line s' hstep => ?_, fun p q clock s' hstep => ?_,
    fun k hsettled hex q => ?_, fun k hsettled now hnow => ⟨h.other k, fun e he hlive q hq => ?_⟩⟩
  · obtain ⟨m, hm, hp, -, -, -, hchannel⟩ := client_step (h.sound p) hstep
    obtain ⟨hw, hn⟩ := wellFormed_of_lineMutation hm
    exact ⟨m, hm, hp, by rw [parse_replLine hw, hn], hchannel⟩
  · obtain ⟨text, rest, _, hcons, -⟩ := id hstep
    obtain ⟨m, rfl, hw, -, -, -, -⟩ := h.routed p q text (hcons ▸ List.mem_cons_self)
    obtain ⟨-, -, -, hchannel⟩ := deliver_step (h.sound q) hw hcons hstep
    exact ⟨_, rest, hcons, hchannel⟩
  · split_ifs with hq
    · by_cases hne : q = t.primary k
      · rw [hne]
      · rcases entry_settled h hsettled hq hne with ⟨hq, hp⟩ | ⟨m, r₀, r₁, hm, hp, hq, -⟩
        · rw [hq, hp]
        · rw [hq, hp]
          obtain ⟨hkey, p, clock, line, hmem, hline⟩ := mem_written hm
          -- the two copies differ in their deadline at most
          refine entry_of_noEx (fun cmd hcmd => ?_) r₁ r₀
          subst hcmd
          exact hex p clock line cmd hmem hline hkey
    · exact h.other k q hq
  · by_cases hne : q = t.primary k
    · exact ⟨e, hne ▸ he, rfl, hlive⟩
    · rcases entry_settled h hsettled hq hne with ⟨-, hp⟩ | ⟨m, r₀, r₁, -, hp, hq, htime⟩
      · rw [hp] at he
        cases he
      · rw [hp] at he
        rw [hq]
        exact entry_later (htime now hnow) he hlive

/-- A `SET` and its delivery: both nodes hold the value. -/
theorem replicas_converge_example : ∃ past s,
    (clusterSystem decimalNumerals twoNodes).Run past s ∧ past.length = 2 ∧
      s.entry 1 (js "k") = s.entry 0 (js "k") ∧
      (s.entry 0 (js "k")).map CacheEntry.value = some (js "v") := by
  let num := decimalNumerals
  let cmd : SetCommand := ⟨js "k", js "v", none⟩
  let clock : Clock := fun _ => 0
  have hm : lineMutation num (js "SET k v") = some (.set cmd) := by decide
  have hw := (wellFormed_of_lineMutation hm).1
  have hp : twoNodes.primary (js "k") = 0 := by decide
  obtain ⟨log₀, h₀⟩ := reachable_good (System.Run.start (S := clusterSystem num twoNodes))
  obtain ⟨s₁, hstep₁⟩ := client_enabled (h₀.sound 0) hm hp (by decide)
    (fun e he => by cases he; decide) clock
  obtain ⟨log₁, h₁⟩ := good_client h₀ hstep₁
  obtain ⟨m, hm', -, -, -, hget, hchannel⟩ := client_step (h₀.sound 0) hstep₁
  obtain rfl : .set cmd = m := Option.some.inj (hm.symm.trans hm')
  have hsent : s₁.channel 0 1 = [replLine num (.set cmd)] := by
    rw [hchannel, if_pos (by decide)]
    rfl
  obtain ⟨s₂, hstep₂⟩ := deliver_enabled (h₁.sound 1) hw hsent clock
  obtain ⟨-, hother, -, hchannel₂⟩ := deliver_step (h₁.sound 1) hw hsent hstep₂
  have hrun : (clusterSystem num twoNodes).Run
      [.deliver 0 1 clock, .client 0 clock (js "SET k v")] s₂ := .snoc (.snoc .start hstep₁) hstep₂
  have hsettled : Settled num s₂ (js "k") := by
    intro p q text htext
    rw [hchannel₂, hchannel] at htext
    split_ifs at htext with h h'
    · cases htext
    · obtain ⟨rfl, hq, hne⟩ := h'
      have hmem : q ∈ [0, 1] := hq
      simp only [List.mem_cons, List.not_mem_nil, or_false] at hmem
      omega
    · cases htext
  have hex : NoEx num [.deliver 0 1 clock, .client 0 clock (js "SET k v")] (js "k") := by
    intro p clock' line cmd' hmem hline _
    simp only [List.mem_cons, List.not_mem_nil, or_false, reduceCtorEq, false_or,
      ClusterEvent.client.injEq] at hmem
    rw [hmem.2.2, hm] at hline
    cases hline
    rfl
  have hsame := (replicas_converge hrun).2.2.1 (js "k") hsettled hex 1
  rw [if_pos (by decide), hp] at hsame
  refine ⟨_, s₂, hrun, rfl, hsame, ?_⟩
  rw [ClusterState.entry, hother 0 (by decide), hget, if_pos (by decide)]
  rfl

end DistributedCache
