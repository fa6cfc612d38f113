import DistributedCache.CacheCore.Errors
import DistributedCache.CacheCore.KeyView
import DistributedCache.Node.Server
import DistributedCache.Protocol.RoundTrip

/-!
# Mutations on a node

What a `SET`, `DEL` or `DELETE` does to a node, whether it comes from a client or as a `REPL` line.
A mutation is `Accepted` if its key and value respect the byte limits; a store that is not asked for
more than that stores or deletes the entry (`executeRepl_accepted`), and a mutation that is not
accepted leaves every store as it was (`executeRepl_rejected`). `replLine` is the line that reaches a
peer; it is read back as the mutation it was made from, and applied without any further fan-out
(`serve_replLine`).
-/

namespace DistributedCache

open CacheStore

/-- The limits on the key and the value of a mutation. -/
def InnerCommand.Accepted : InnerCommand → Prop
  | .set cmd => ValidKey cmd.key ∧ ValidValue cmd.value
  | .del key | .delete key => ValidKey key

instance (m : InnerCommand) : Decidable m.Accepted := by
  cases m <;> unfold InnerCommand.Accepted <;> infer_instance

/-- The entry a mutation leaves under its key when it is applied at the reading `now`. -/
def InnerCommand.entry (now : ℤ) : InnerCommand → Option CacheEntry
  | .set cmd =>
      some ⟨cmd.value, cmd.ex.map (expiryOf now), entrySizeBytes cmd.key cmd.value⟩
  | .del _ | .delete _ => none

/-- A mutation as it is replicated: `DELETE` becomes `DEL`. -/
def InnerCommand.normal : InnerCommand → InnerCommand
  | .delete key => .del key
  | m => m

variable {num : Numerals} {s s' : CacheStore} {c c' : Clock} {m : InnerCommand} {cmd : SetCommand}
  {key : JsString} {node : CacheNode}

@[simp] theorem InnerCommand.normal_key (m : InnerCommand) : m.normal.key = m.key := by
  cases m <;> rfl

@[simp] theorem InnerCommand.normal_accepted (m : InnerCommand) :
    m.normal.Accepted ↔ m.Accepted := by
  cases m <;> rfl

@[simp] theorem InnerCommand.normal_entry (now : ℤ) (m : InnerCommand) :
    m.normal.entry now = m.entry now := by
  cases m <;> rfl

/-- A mutation that `dispatchCommand` replicates is already normal. -/
theorem normal_of_mutation {command : Command} (h : command.mutation = some m) : m.normal = m := by
  cases command with
  | keyed name key => cases name <;> cases h <;> rfl
  | set cmd => cases h; rfl
  | ping | repl => cases h

theorem wellFormed_of_mutation {command : Command} (hw : command.WellFormed num)
    (h : command.mutation = some m) : m.WellFormed num := by
  cases command with
  | keyed name key => cases name <;> cases h <;> exact hw
  | set cmd => cases h; exact hw
  | ping | repl => cases h

/-! ### The store's answer -/

/-- Undo the wrapping of a result. -/
theorem of_outcome_map {α β : Type} {f : α → β} {o : Outcome α} {r : Except CacheError β}
    (h : Outcome.map f o = some (r, s', c')) : ∃ a, o = some (a, s', c') ∧ a.map f = r := by
  obtain ⟨⟨a, s₀, c₀⟩, ho, heq⟩ := Option.map_eq_some_iff.1 h
  cases heq
  exact ⟨a, ho, rfl⟩

theorem setArguments_of_accepted (hk : ValidKey cmd.key) (hv : ValidValue cmd.value)
    (hex : ∀ n, cmd.ex = some n → 0 < n) :
    setArguments (.string cmd.key) (.string cmd.value) (setOptions cmd.ex) =
      .ok (cmd.key, cmd.value, cmd.ex) := by
  have hkey : assertValidKey (.string cmd.key) = .ok cmd.key := assertValidKey_eq_ok_iff.2 ⟨rfl, hk⟩
  have hvalue : assertValidValue (.string cmd.value) = .ok cmd.value :=
    assertValidValue_eq_ok_iff.2 ⟨rfl, hv⟩
  unfold setArguments
  rw [hkey, hvalue]
  cases hn : cmd.ex with
  | none => rfl
  | some n =>
    have hsec : assertValidEx (.number (.int n)) = .ok n := assertValidEx_eq_ok_iff.2 ⟨rfl, hex n hn⟩
    simp only [bind, Except.bind, setOptions, plainObject, hsec, reduceCtorEq, if_false]
    rfl

theorem check_set_of_accepted (hk : ValidKey cmd.key) (hv : ValidValue cmd.value)
    (hex : ∀ n, cmd.ex = some n → 0 < n) :
    (Call.set (.string cmd.key) (.string cmd.value) (setOptions cmd.ex)).check =
      .ok (.set cmd.key cmd.value cmd.ex) := by
  rw [Call.check, setArguments_of_accepted hk hv hex]
  rfl

/-- A mutation outside the limits is rejected by the checks of the store. -/
theorem set_rejected (h : ¬ (ValidKey cmd.key ∧ ValidValue cmd.value)) :
    ∃ e, (Call.set (.string cmd.key) (.string cmd.value) (setOptions cmd.ex)).check = .error e := by
  cases hcheck : (Call.set (.string cmd.key) (.string cmd.value) (setOptions cmd.ex)).check with
  | error e => exact ⟨e, rfl⟩
  | ok op =>
    obtain ⟨⟨k, hk, hvk⟩, ⟨v, hv, hvv⟩, -⟩ := (check_ok_iff _).1 ⟨op, hcheck⟩
    cases hk
    cases hv
    exact absurd ⟨hvk, hvv⟩ h

theorem check_delete_of_valid (hk : ValidKey key) :
    (Call.delete (.string key)).check = .ok (.delete key) := by
  rw [Call.check, assertValidKey_eq_ok_iff.2 ⟨rfl, hk⟩]
  rfl

theorem delete_rejected (h : ¬ ValidKey key) :
    ∃ e, (Call.delete (.string key)).check = .error e := by
  cases hcheck : (Call.delete (.string key)).check with
  | error e => exact ⟨e, rfl⟩
  | ok op =>
    obtain ⟨k, hk, hvk⟩ := (check_ok_iff _).1 ⟨op, hcheck⟩
    cases hk
    exact absurd hvk h

/-! ### Executing a mutation -/

theorem storeSet_accepted (hs : Free s) (c : Clock) (hw : cmd.WellFormed num)
    (hk : ValidKey cmd.key) (hv : ValidValue cmd.value) :
    ∃ s' c', storeSet s c cmd = some (encodeOk, s', c') ∧ Free s' ∧
      ∀ k, s'.store.get? k =
        if k = cmd.key then (InnerCommand.set cmd).entry c.head else s.store.get? k := by
  obtain ⟨s', c', hexec, hs', hget⟩ := exec_keyed hs c
    (check_set_of_accepted hk hv fun n hn => (hw.ex n hn).1) rfl
  obtain ⟨r, hset, hr⟩ := of_outcome_map hexec
  cases r with
  | error e => cases hr
  | ok u => exact ⟨s', c', by simp only [storeSet, hset, respond], hs', hget⟩

theorem storeSet_rejected (c : Clock) (h : ¬ (ValidKey cmd.key ∧ ValidValue cmd.value)) :
    ∃ line, storeSet s c cmd = some (line, s, c) := by
  obtain ⟨e, hcheck⟩ := set_rejected h
  obtain ⟨r, hset, hr⟩ := of_outcome_map (exec_of_check_error (s := s) (c := c) hcheck)
  cases r with
  | error e' => exact ⟨encodeErr e'.message, by simp only [storeSet, hset, respond]⟩
  | ok u => cases hr

theorem storeDelete_accepted (hs : Free s) (c : Clock) (hk : ValidKey key) :
    ∃ line s' c', storeDelete num s c key = some (line, s', c') ∧ Free s' ∧
      ∀ k, s'.store.get? k = if k = key then none else s.store.get? k := by
  obtain ⟨s', c', hexec, hs', hget⟩ :=
    exec_keyed hs c (check_delete_of_valid hk) rfl
  obtain ⟨r, hdelete, hr⟩ := of_outcome_map hexec
  cases r with
  | error e => cases hr
  | ok b =>
    exact ⟨js "INT " ++ num.toText (if b then 1 else 0) ++ newline, s', c',
      by simp only [storeDelete, hdelete, respond, encodeInt], hs', hget⟩

theorem storeDelete_rejected (c : Clock) (h : ¬ ValidKey key) :
    ∃ line, storeDelete num s c key = some (line, s, c) := by
  obtain ⟨e, hcheck⟩ := delete_rejected h
  obtain ⟨r, hdelete, hr⟩ := of_outcome_map (exec_of_check_error (s := s) (c := c) hcheck)
  cases r with
  | error e' => exact ⟨encodeErr e'.message, by simp only [storeDelete, hdelete, respond]⟩
  | ok b => cases hr

/-- **An accepted mutation** on an unlimited store leaves its entry and touches nothing else. -/
theorem executeRepl_accepted (hs : Free s) (c : Clock) (hw : m.WellFormed num) (h : m.Accepted) :
    ∃ line s' c', executeReplCommand num s c m = some (line, s', c') ∧ Free s' ∧
      ∀ k, s'.store.get? k = if k = m.key then m.entry c.head else s.store.get? k := by
  cases m with
  | set cmd =>
    obtain ⟨s', c', hrun, hs', hget⟩ := storeSet_accepted hs c hw h.1 h.2
    exact ⟨encodeOk, s', c', hrun, hs', hget⟩
  | del key => exact storeDelete_accepted hs c h
  | delete key => exact storeDelete_accepted hs c h

/-- A mutation outside the limits leaves every store as it was. -/
theorem executeRepl_rejected (c : Clock) (h : ¬ m.Accepted) :
    ∃ line, executeReplCommand num s c m = some (line, s, c) := by
  cases m with
  | set cmd => exact storeSet_rejected c h
  | del key => exact storeDelete_rejected c h
  | delete key => exact storeDelete_rejected c h

/-- A client's mutation is executed as its replica is. -/
theorem executeCommand_eq_repl {command : Command} (h : command.mutation = some m) :
    executeCommand num s c command = executeReplCommand num s c m := by
  cases command with
  | keyed name key => cases name <;> cases h <;> rfl
  | set cmd => cases h; rfl
  | ping | repl => cases h

/-- Both cases at once. -/
theorem executeRepl_spec (hs : Free s) (c : Clock) (hw : m.WellFormed num) :
    ∃ line s' c', executeReplCommand num s c m = some (line, s', c') ∧ Free s' ∧
      ∀ k, s'.store.get? k =
        if m.Accepted ∧ k = m.key then m.entry c.head else s.store.get? k := by
  by_cases h : m.Accepted
  · obtain ⟨line, s', c', hrun, hs', hget⟩ := executeRepl_accepted hs c hw h
    exact ⟨line, s', c', hrun, hs', fun k => by simp only [hget, h, true_and]⟩
  · obtain ⟨line, hrun⟩ := executeRepl_rejected (s := s) c h
    exact ⟨line, s, c, hrun, hs, fun k => by simp only [h, false_and, if_false]⟩

/-! ### The line that reaches a peer -/

/-- What `#fanOut` and `executeRaw` make of the line of a mutation, without the final newline. -/
def replLine (num : Numerals) (m : InnerCommand) : JsString :=
  trim (trimEnd (formatReplCommand num m))

/-- The words of that line. -/
def replWords (num : Numerals) : InnerCommand → List JsString
  | .set cmd => js "REPL" :: js "SET" :: setWords num cmd
  | .del key | .delete key => [js "REPL", js "DEL", key]

theorem replWords_line (hw : m.WellFormed num) : Line (replWords num m) := by
  cases m with
  | set cmd => exact ((setWords_line hw.printable).cons (by decide)).cons (by decide)
  | del key => exact ((line_singleton hw).cons (by decide)).cons (by decide)
  | delete key => exact ((line_singleton hw).cons (by decide)).cons (by decide)

theorem formatReplCommand_eq (hw : m.WellFormed num) :
    formatReplCommand num m = unwords (replWords num m) ++ newline := by
  cases m with
  | set cmd => exact formatReplSet_eq hw
  | del key => exact formatReplDel_eq key
  | delete key => exact @formatReplDel_eq num key

theorem replLine_eq (hw : m.WellFormed num) : replLine num m = unwords (replWords num m) := by
  have hline := replWords_line hw
  rw [replLine, formatReplCommand_eq hw, trimEnd_newline, trimEnd_unwords hline, trim_unwords hline]

theorem dropCr_replLine (hw : m.WellFormed num) : dropCr (replLine num m) = replLine num m := by
  rw [replLine_eq hw, dropCr_unwords (replWords_line hw)]

/-- The line is read back as the mutation. -/
theorem parse_replLine (hw : m.WellFormed num) :
    parseCommand num (replLine num m) = .ok (.repl m.normal) := by
  rw [replLine_eq hw]
  cases m with
  | set cmd => exact parse_repl_set hw
  | del key => exact parse_repl_del hw
  | delete key => exact parse_repl_del hw

theorem byteLength_setWords (hw : cmd.Printable num) :
    ((setWords num cmd).map fun w => byteLength w + 1).sum ≤
      byteLength cmd.key + byteLength cmd.value + 30 := by
  unfold setWords
  have hvalue : ((if cmd.value = [] then [] else [cmd.value]).map fun w => byteLength w + 1).sum ≤
      byteLength cmd.value + 1 := by
    split_ifs <;> simp
  rw [List.map_cons, List.sum_cons, List.map_append, List.sum_append]
  cases hn : cmd.ex with
  | none =>
    simp only [List.map_nil, List.sum_nil]
    omega
  | some n =>
    have hnum := num.byteLength_toText n (hw.ex n hn)
    have hEX : byteLength (js "EX") = 2 := by decide
    simp only [List.map_cons, List.map_nil, List.sum_cons, List.sum_nil, hEX]
    omega

/-- The line of an accepted mutation respects the default limit of its peer. -/
theorem byteLength_replLine (hw : m.WellFormed num) (h : m.Accepted) :
    byteLength (replLine num m) ≤ DEFAULT_MAX_LINE_BYTES := by
  have hlen := byteLength_unwords (replWords_line hw).1
  rw [← replLine_eq hw] at hlen
  have hREPL : byteLength (js "REPL") = 4 := by decide
  have hSET : byteLength (js "SET") = 3 := by decide
  have hDEL : byteLength (js "DEL") = 3 := by decide
  have hkey (key : JsString) (hk : ValidKey key) : byteLength key ≤ 256 := hk.2
  have del (key : JsString) (hk : ValidKey key) :
      (([js "REPL", js "DEL", key]).map fun w => byteLength w + 1).sum ≤ 300 := by
    have := hkey key hk
    simp only [List.map_cons, List.map_nil, List.sum_cons, List.sum_nil, hREPL, hDEL]
    omega
  unfold DEFAULT_MAX_LINE_BYTES
  cases m with
  | set cmd =>
    have hwords := byteLength_setWords hw.printable
    have hk := hkey cmd.key h.1
    have hv : byteLength cmd.value ≤ 1048576 := h.2
    simp only [replWords, List.map_cons, List.sum_cons, hREPL, hSET] at hlen
    omega
  | del key =>
    have hwords := del key h
    simp only [replWords] at hlen
    omega
  | delete key =>
    have hwords := del key h
    simp only [replWords] at hlen
    omega

/-- A line within the limit that can be parsed is dispatched. -/
theorem serveLine_of_parse {text : JsString} {command : Command}
    (hlen : byteLength (dropCr text) ≤ node.maxLineBytes)
    (hparse : parseCommand num (dropCr text) = .ok command) :
    serveLine num node c text = dispatchCommand num node c command := by
  have hblank : trim (dropCr text) ≠ [] := by
    intro hnil
    rw [parseCommand] at hparse
    simp only [hnil, if_true] at hparse
    cases hparse
  simp only [serveLine, if_neg (not_lt.2 hlen), if_neg hblank, hparse]

/-- **A replicated mutation reaches the peer's store and goes no further.** -/
theorem serve_replLine (hs : Free node.store) (hmax : node.maxLineBytes = DEFAULT_MAX_LINE_BYTES)
    (c : Clock) (hw : m.WellFormed num) :
    ∃ served, serveLine num node c (replLine num m) = some served ∧ served.sends = [] ∧
      (∃ s', served.node = { node with store := s' }) ∧ Free served.node.store ∧
      ∀ k, served.node.store.store.get? k =
        if m.Accepted ∧ k = m.key then m.entry c.head else node.store.store.get? k := by
  have hcr := dropCr_replLine hw
  by_cases hlen : byteLength (replLine num m) > node.maxLineBytes
  · -- only a line that no store would accept is too long
    have hrej : ¬ m.Accepted := by
      intro h
      have := byteLength_replLine hw h
      omega
    refine ⟨⟨some (encodeErr (js "line too long")), node, [], c⟩,
      by simp only [serveLine, hcr, if_pos hlen], rfl, ⟨node.store, rfl⟩, hs, fun k => ?_⟩
    simp only [hrej, false_and, if_false]
  · have hw' : m.normal.WellFormed num := by cases m <;> exact hw
    obtain ⟨line, s', c', hrun, hs', hget⟩ := executeRepl_spec hs c hw'
    refine ⟨⟨some line, { node with store := s' }, [], c'⟩, ?_, rfl, ⟨s', rfl⟩, hs', fun k => ?_⟩
    · rw [serveLine_of_parse (by rw [hcr]; exact not_lt.1 hlen) (by rw [hcr]; exact parse_replLine hw)]
      simp only [dispatchCommand, hrun, Option.map_some]
    · simpa using hget k

end DistributedCache
