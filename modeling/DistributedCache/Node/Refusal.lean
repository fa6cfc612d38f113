import DistributedCache.Node.Operations

/-!
# What a node refuses, and what it replicates

A node whose store has limits may refuse a mutation: its response is then an error, and its store
stays as it was. What `dispatchCommand` hands to the engine is decided without the response.

* `TakenBy`: the store takes the mutation; `exec_mutation` says what it does in either case;
* `handed`: the mutation that serving a line hands to the engine (`fanOut_cases`, `serve_sends`);
* `serve_handed`: the response to that line is an error exactly when the store does not take it;
* `serve_entries`: serving any line puts no entry into the store but the one it sets.
-/

namespace DistributedCache

open CacheStore

/-- The call of the store that executes a mutation. -/
def InnerCommand.call : InnerCommand → Call
  | .set cmd => .set (.string cmd.key) (.string cmd.value) (setOptions cmd.ex)
  | .del key | .delete key => .delete (.string key)

/-- The call after its checks. -/
def InnerCommand.op : InnerCommand → Op
  | .set cmd => .set cmd.key cmd.value cmd.ex
  | .del key | .delete key => .delete key

/-- The store takes the mutation: key and value respect the byte limits, and the entry alone does not
exceed the memory limit. -/
def InnerCommand.TakenBy (s : CacheStore) : InnerCommand → Prop
  | .set cmd => ValidKey cmd.key ∧ ValidValue cmd.value ∧
      s.entryTooLarge (entrySizeBytes cmd.key cmd.value) = false
  | .del key | .delete key => ValidKey key

theorem InnerCommand.TakenBy.accepted {s : CacheStore} {m : InnerCommand} (h : m.TakenBy s) :
    m.Accepted := by
  cases m with
  | set cmd => exact ⟨h.1, h.2.1⟩
  | del key | delete key => exact h

/-- The response is an error. -/
def IsErr (text : JsString) : Prop := js "ERR " <+: text

instance (text : JsString) : Decidable (IsErr text) := by
  unfold IsErr
  infer_instance

variable {num : Numerals} {s s' : CacheStore} {c c' : Clock} {m : InnerCommand} {node : CacheNode}
  {line text : JsString} {command : Command} {served : Served}

theorem isErr_encodeErr (message : JsString) : IsErr (encodeErr message) := by
  rw [encodeErr, List.append_assoc]
  exact List.prefix_append _ _

/-- An error begins with `E`. -/
theorem IsErr.head? {reply : JsString} (h : IsErr (reply ++ newline)) :
    reply.head? = some (.char 'E') := by
  cases reply with
  | nil => exact absurd h (by decide)
  | cons c reply =>
    obtain ⟨rest, hrest⟩ := h
    have hcons : .char 'E' :: (js "RR " ++ rest) = c :: (reply ++ newline) := hrest
    exact congrArg some (List.cons.inj hcons).1.symm

theorem not_isErr_encodeOk : ¬ IsErr encodeOk := by decide

theorem not_isErr_encodeInt (n : ℤ) :
    ∃ text, encodeInt num (.int n) = .ok text ∧ ¬ IsErr text := by
  refine ⟨_, rfl, ?_⟩
  rintro ⟨rest, h⟩
  cases h

/-! ### On the store -/

/-- The checks of the store accept the mutation exactly when it respects the byte limits. -/
theorem check_mutation (hw : m.WellFormed num) :
    (m.Accepted ∧ m.call.check = .ok m.op) ∨ (¬ m.Accepted ∧ ∃ e, m.call.check = .error e) := by
  by_cases h : m.Accepted
  · refine Or.inl ⟨h, ?_⟩
    cases m with
    | set cmd => exact check_set_of_accepted h.1 h.2 fun n hn => (hw.ex n hn).1
    | del key | delete key => exact check_delete_of_valid h
  · refine Or.inr ⟨h, ?_⟩
    cases m with
    | set cmd => exact set_rejected h
    | del key | delete key => exact delete_rejected h

/-- **A mutation on a store with limits**: it is stored, or refused with an error and no effect. -/
theorem exec_mutation (hs : Inv s) (hw : m.WellFormed num) {r : Except CacheError Reply}
    (h : s.exec c m.call = some (r, s', c')) :
    (m.TakenBy s ∧ (∃ a, r = .ok a) ∧
        ∀ cmd, m = .set cmd → ∃ e, s'.store.get? cmd.key = some e ∧ e.value = cmd.value) ∨
      (¬ m.TakenBy s ∧ (∃ e, r = .error e) ∧ s' = s) := by
  rcases check_mutation hw with ⟨haccepted, hok⟩ | ⟨hrejected, e, herror⟩
  · rcases exec_cases hs h with ⟨e, hcheck, -, -⟩ | ⟨op, hcheck, heff⟩
    · cases hok.symm.trans hcheck
    · obtain rfl := Except.ok.inj (hok.symm.trans hcheck)
      cases m with
      | set cmd =>
        cases heff with
        | tooLarge hlarge =>
          refine Or.inr ⟨fun ht => ?_, ⟨_, rfl⟩, rfl⟩
          rw [ht.2.2] at hlarge
          cases hlarge
        | stored hfit hstored =>
          refine Or.inl ⟨⟨haccepted.1, haccepted.2, hfit⟩, ⟨_, rfl⟩, ?_⟩
          rintro cmd' ⟨⟩
          exact ⟨_, by rw [hstored.get?, if_pos rfl], rfl⟩
      | del key | delete key =>
        cases heff with
        | deleted _ | nothingToDelete _ =>
          exact Or.inl ⟨haccepted, ⟨_, rfl⟩, fun cmd heq => (nomatch heq)⟩
  · rcases exec_cases hs h with ⟨e, -, rfl, rfl⟩ | ⟨op, hcheck, -⟩
    · exact Or.inr ⟨fun ht => hrejected ht.accepted, ⟨e, rfl⟩, rfl⟩
    · cases herror.symm.trans hcheck

/-! ### On the node -/

/-- The response was made from a result of the store. -/
theorem respond_cases {α : Type} {o : Outcome α} {encode : α → Except JsString JsString}
    (h : respond o encode = some (line, s', c')) :
    ∃ r, o = some (r, s', c') ∧ ((∃ e, r = .error e) → IsErr line) ∧
      ((∀ a, ∃ text, encode a = .ok text ∧ ¬ IsErr text) → IsErr line → ∃ e, r = .error e) := by
  unfold respond at h
  split at h
  · cases h
  · rename_i e s₁ c₁
    cases h
    exact ⟨_, rfl, fun _ => isErr_encodeErr _, fun _ _ => ⟨e, rfl⟩⟩
  · rename_i a s₁ c₁
    split at h
    · rename_i text hencode
      cases h
      refine ⟨_, rfl, fun ⟨_, he⟩ => (nomatch he), fun hok herr => ?_⟩
      obtain ⟨text', htext, hno⟩ := hok a
      rw [hencode] at htext
      cases htext
      exact absurd herr hno
    · rename_i message hencode
      cases h
      refine ⟨_, rfl, fun _ => isErr_encodeErr _, fun hok herr => ?_⟩
      obtain ⟨text', htext, hno⟩ := hok a
      rw [hencode] at htext
      cases htext

/-- A mutation is one call of the store, and its response is an error exactly when the call is. -/
theorem executeRepl_cases (h : executeReplCommand num s c m = some (line, s', c')) :
    ∃ r, s.exec c m.call = some (r, s', c') ∧ (IsErr line ↔ ∃ e, r = .error e) := by
  have map_error {α : Type} (f : α → Reply) (r : Except CacheError α) :
      (∃ e, r = .error e) ↔ ∃ e, r.map f = .error e := by
    cases r with
    | error e => exact iff_of_true ⟨e, rfl⟩ ⟨e, rfl⟩
    | ok a => exact iff_of_false (fun ⟨_, h⟩ => nomatch h) fun ⟨_, h⟩ => nomatch h
  cases m with
  | set cmd =>
    unfold executeReplCommand storeSet at h
    obtain ⟨r, hset, herr, hok⟩ := respond_cases h
    refine ⟨r.map fun _ => .done, ?_, ?_⟩
    · rw [InnerCommand.call, exec, hset]
      rfl
    · rw [← map_error]
      exact ⟨hok fun _ => ⟨_, rfl, not_isErr_encodeOk⟩, herr⟩
  | del key | delete key =>
    unfold executeReplCommand storeDelete at h
    obtain ⟨r, hdelete, herr, hok⟩ := respond_cases h
    refine ⟨r.map .flag, ?_, ?_⟩
    · rw [InnerCommand.call, exec, hdelete]
      rfl
    · rw [← map_error]
      exact ⟨hok fun _ => not_isErr_encodeInt _, herr⟩

/-- A mutation that is not accepted is answered with an error. -/
theorem executeRepl_refused (hs : Inv s) (hw : m.WellFormed num)
    (h : executeReplCommand num s c m = some (line, s', c')) (hno : ¬ m.Accepted) : IsErr line := by
  obtain ⟨r, hexec, herr⟩ := executeRepl_cases h
  rcases exec_mutation hs hw hexec with ⟨ht, -⟩ | ⟨-, he, -⟩
  · exact absurd ht.accepted hno
  · exact herr.2 he

/-- Any other command with a key is a call of the store too. -/
theorem executeKeyed_cases {name : KeyedName} {key : JsString}
    (h : executeKeyed num s c name key = some (line, s', c')) :
    ∃ r, s.exec c (ClientOp.keyed name key).call = some (r, s', c') := by
  have call {α : Type} {o : Outcome α} {encode : α → Except JsString JsString} (f : α → Reply)
      (h : respond o encode = some (line, s', c')) : ∃ r, Outcome.map f o = some (r, s', c') := by
    obtain ⟨r, ho, -⟩ := respond_cases h
    exact ⟨r.map f, by rw [ho]; rfl⟩
  unfold executeKeyed storeDelete at h
  cases name with
  | get => exact call .value h
  | del | delete | existsKey => exact call .flag h
  | ttl => exact call .seconds h

/-- A mutation's entry is the only one that can come into the store. -/
theorem executeRepl_entries (hs : Inv s) (hw : m.WellFormed num)
    (h : executeReplCommand num s c m = some (line, s', c')) :
    Inv s' ∧ ∀ k e, s'.store.get? k = some e →
      s.store.get? k = some e ∨ ∃ cmd, m = .set cmd ∧ k = cmd.key ∧ e.value = cmd.value := by
  obtain ⟨r, hexec, -⟩ := executeRepl_cases h
  refine ⟨exec_inv hs hexec, fun k e he => ?_⟩
  rcases exec_entries hs hexec he with hold | ⟨value, ex, hcheck, hvalue⟩
  · exact Or.inl hold
  · rcases check_mutation hw with ⟨-, hok⟩ | ⟨-, err, herror⟩
    · have hop := Except.ok.inj (hok.symm.trans hcheck)
      cases m with
      | set cmd =>
        cases hop
        exact Or.inr ⟨cmd, rfl, rfl, hvalue⟩
      | del key | delete key => cases hop
    · cases herror.symm.trans hcheck

/-- No read brings an entry in. -/
theorem executeKeyed_entries (hs : Inv s) {name : KeyedName} {key : JsString}
    (h : executeKeyed num s c name key = some (line, s', c')) :
    Inv s' ∧ ∀ k e, s'.store.get? k = some e → s.store.get? k = some e := by
  obtain ⟨r, hexec⟩ := executeKeyed_cases h
  refine ⟨exec_inv hs hexec, fun k e he => ?_⟩
  rcases exec_entries hs hexec he with hold | ⟨value, ex, hcheck, -⟩
  · exact hold
  · cases hkey : assertValidKey (.string key) with
    | error err => cases name <;> simp [ClientOp.call, Call.check, hkey, Except.map] at hcheck
    | ok k' => cases name <;> simp [ClientOp.call, Call.check, hkey, Except.map] at hcheck

theorem executeCommand_entries (hs : Inv s) (hw : command.WellFormed num)
    (h : executeCommand num s c command = some (line, s', c')) :
    Inv s' ∧ ∀ k e, s'.store.get? k = some e →
      s.store.get? k = some e ∨ ∃ cmd, command = .set cmd ∧ k = cmd.key ∧ e.value = cmd.value := by
  cases command with
  | ping | repl inner =>
    cases h
    exact ⟨hs, fun k e he => Or.inl he⟩
  | set cmd =>
    obtain ⟨hinv, hentries⟩ := executeRepl_entries (m := .set cmd) hs hw h
    refine ⟨hinv, fun k e he => (hentries k e he).imp_right ?_⟩
    rintro ⟨cmd', ⟨⟩, hk, hvalue⟩
    exact ⟨cmd, rfl, hk, hvalue⟩
  | keyed name key =>
    obtain ⟨hinv, hentries⟩ := executeKeyed_entries hs h
    exact ⟨hinv, fun k e he => Or.inl (hentries k e he)⟩

/-! ### What is handed to the engine -/

/-- The mutation that a command hands to the engine. -/
def CacheNode.handedBy (node : CacheNode) (command : Command) : Option InnerCommand :=
  match node.replication with
  | some engine => command.mutation.filter fun m =>
      isPrimaryForKey engine.config.ring m.key engine.config.myNodeIndex
  | none => none

/-- The mutation that serving a line hands to the engine. -/
def CacheNode.handed (num : Numerals) (node : CacheNode) (text : JsString) : Option InnerCommand :=
  if byteLength (dropCr text) > node.maxLineBytes then none
  else match parseCommand num (dropCr text) with
    | .ok command => node.handedBy command
    | .error _ => none

/-- **The engine is called exactly for what is handed to it.** -/
theorem fanOut_cases (num : Numerals) (node : CacheNode) (command : Command) :
    (node.handedBy command = none ∧ node.fanOut num command = (node, [])) ∨
      ∃ m e, node.handedBy command = some m ∧ command.mutation = some m ∧
        node.replication = some e ∧
        isPrimaryForKey e.config.ring m.key e.config.myNodeIndex = true ∧
        node.fanOut num command =
          ({ node with replication := some (e.replicate num m).1 }, (e.replicate num m).2) := by
  unfold CacheNode.handedBy CacheNode.fanOut
  cases node.replication with
  | none => exact Or.inl ⟨rfl, rfl⟩
  | some e =>
    cases command.mutation with
    | none => exact Or.inl ⟨rfl, rfl⟩
    | some m =>
      simp only [Option.filter_some]
      split_ifs with hprimary
      · exact Or.inr ⟨m, e, rfl, rfl, rfl, hprimary, rfl⟩
      · exact Or.inl ⟨rfl, rfl⟩

/-- A line is answered at once, or parsed and dispatched. -/
theorem serveLine_cases (h : serveLine num node c text = some served) :
    (served.node = node ∧ served.sends = [] ∧ node.handed num text = none) ∨
      ∃ command, parseCommand num (dropCr text) = .ok command ∧
        node.handed num text = node.handedBy command ∧
        dispatchCommand num node c command = some served := by
  unfold serveLine at h
  simp only at h
  split_ifs at h with hlong hblank
  · cases h
    exact Or.inl ⟨rfl, rfl, if_pos hlong⟩
  · cases h
    have hparse : parseCommand num (dropCr text) = .error (js "empty command") := by
      rw [parseCommand]
      simp only [hblank, if_true]
    exact Or.inl ⟨rfl, rfl, by rw [CacheNode.handed, if_neg hlong, hparse]⟩
  · split at h
    · rename_i message hparse
      cases h
      exact Or.inl ⟨rfl, rfl, by rw [CacheNode.handed, if_neg hlong, hparse]⟩
    · rename_i command hparse
      exact Or.inr ⟨command, hparse, by rw [CacheNode.handed, if_neg hlong, hparse], h⟩

/-- A command that is not a `REPL` is executed and then fanned out. -/
theorem dispatch_cases (h : dispatchCommand num node c command = some served) :
    (∃ inner line s', command = .repl inner ∧
        executeReplCommand num node.store c inner = some (line, s', served.clock) ∧
        served.reply = some line ∧ served.node = { node with store := s' } ∧ served.sends = []) ∨
      ((∀ inner, command ≠ .repl inner) ∧ ∃ line s',
        executeCommand num node.store c command = some (line, s', served.clock) ∧
        served.reply = some line ∧
        (served.node, served.sends) = CacheNode.fanOut num { node with store := s' } command) := by
  unfold dispatchCommand at h
  cases command with
  | repl inner =>
    obtain ⟨⟨line, s', c'⟩, hrun, rfl⟩ := Option.map_eq_some_iff.1 h
    exact Or.inl ⟨inner, line, s', rfl, hrun, rfl, rfl, rfl⟩
  | ping | set cmd | keyed name key =>
    obtain ⟨⟨line, s', c'⟩, hrun, rfl⟩ := Option.map_eq_some_iff.1 h
    exact Or.inr ⟨fun inner heq => (nomatch heq), line, s', hrun, rfl, rfl⟩

/-- The line of a mutation that is not accepted is answered with an error. -/
theorem serve_replLine_refused (hs : Inv node.store) (hw : m.WellFormed num) (hno : ¬ m.Accepted)
    (h : serveLine num node c (replLine num m) = some served) :
    ∃ reply, served.reply = some reply ∧ IsErr reply := by
  have hcr := dropCr_replLine hw
  by_cases hlen : byteLength (replLine num m) > node.maxLineBytes
  · simp only [serveLine, hcr, if_pos hlen, Option.some.injEq] at h
    subst h
    exact ⟨_, rfl, isErr_encodeErr _⟩
  · rw [serveLine_of_parse (by rw [hcr]; exact not_lt.1 hlen)
      (by rw [hcr]; exact parse_replLine hw)] at h
    rcases dispatch_cases h with ⟨inner, line, s', heq, hrun, hreply, -⟩ | ⟨hrepl, -⟩
    · cases heq
      have hw' : m.normal.WellFormed num := by cases m <;> exact hw
      exact ⟨line, hreply, executeRepl_refused hs hw' hrun (m.normal_accepted.not.2 hno)⟩
    · exact absurd rfl (hrepl m.normal)

/-- What is sent is the line of what was handed, to peers of its key. -/
theorem serve_sends (h : serveLine num node c text = some served) {send : ℕ × JsString}
    (hsend : send ∈ served.sends) :
    ∃ m e, node.handed num text = some m ∧ node.replication = some e ∧
      isPrimaryForKey e.config.ring m.key e.config.myNodeIndex = true ∧
      send.1 ∈ e.peers m.key ∧ send.2 = trimEnd (formatReplCommand num m) := by
  rcases serveLine_cases h with ⟨-, hnil, -⟩ | ⟨command, -, hhanded, hdispatch⟩
  · rw [hnil] at hsend
    cases hsend
  · rcases dispatch_cases hdispatch with ⟨inner, line, s', -, -, -, -, hnil⟩ |
      ⟨-, line, s', -, -, hfan⟩
    · rw [hnil] at hsend
      cases hsend
    · rcases fanOut_cases num { node with store := s' } command with
        ⟨-, heq⟩ | ⟨m, e, hm, -, he, hprimary, heq⟩
      · rw [heq] at hfan
        rw [(Prod.mk.inj hfan).2] at hsend
        cases hsend
      · rw [heq] at hfan
        rw [(Prod.mk.inj hfan).2] at hsend
        exact ⟨m, e, hhanded.trans hm, he, hprimary, e.mem_replicate hsend⟩

/-- **What is handed was executed**, and refused exactly when the store does not take it. -/
theorem serve_handed (hs : Inv node.store) (h : serveLine num node c text = some served)
    (hm : node.handed num text = some m) :
    m.WellFormed num ∧ ∃ reply, served.reply = some reply ∧
      (IsErr reply ↔ ¬ m.TakenBy node.store) ∧
      (m.TakenBy node.store → ∀ cmd, m = .set cmd →
        ∃ e, served.node.store.store.get? cmd.key = some e ∧ e.value = cmd.value) := by
  rcases serveLine_cases h with ⟨-, -, hnone⟩ | ⟨command, hparse, hhanded, hdispatch⟩
  · rw [hnone] at hm
    cases hm
  · rw [hhanded] at hm
    rcases dispatch_cases hdispatch with ⟨inner, line, s', rfl, -⟩ |
      ⟨-, reply, s', hrun, hreply, hfan⟩
    · cases hengine : node.replication <;> simp [CacheNode.handedBy, hengine, Command.mutation] at hm
    · rcases fanOut_cases num { node with store := s' } command with
        ⟨hnone, -⟩ | ⟨m', e, hm', hmutation, -, -, heq⟩
      · cases hnone.symm.trans hm
      · obtain rfl := Option.some.inj (hm'.symm.trans hm)
        have hw := wellFormed_of_mutation (wellFormed_of_parse hparse) hmutation
        rw [executeCommand_eq_repl hmutation] at hrun
        obtain ⟨r, hexec, herr⟩ := executeRepl_cases hrun
        have hstore : served.node.store = s' := by
          rw [heq] at hfan
          rw [(Prod.mk.inj hfan).1]
        refine ⟨hw, reply, hreply, ?_, fun ht => ?_⟩
        · rw [herr]
          rcases exec_mutation hs hw hexec with ⟨ht, ⟨a, rfl⟩, -⟩ | ⟨hnot, he, -⟩
          · exact iff_of_false (fun ⟨_, h⟩ => nomatch h) (not_not.2 ht)
          · exact iff_of_true he hnot
        · rw [hstore]
          rcases exec_mutation hs hw hexec with ⟨-, -, hset⟩ | ⟨hnot, -, -⟩
          · exact hset
          · exact absurd ht hnot

/-- **No entry comes in** but the one of a `SET`, be it the client's or a replicated one. -/
theorem serve_entries (hs : Inv node.store) (h : serveLine num node c text = some served) :
    Inv served.node.store ∧ Kept node served.node ∧
      ∀ k e, served.node.store.store.get? k = some e → node.store.store.get? k = some e ∨
        ∃ cmd, k = cmd.key ∧ e.value = cmd.value ∧
          (parseCommand num (dropCr text) = .ok (.set cmd) ∨
            parseCommand num (dropCr text) = .ok (.repl (.set cmd))) := by
  have same : Kept node node := ⟨rfl, fun e he => ⟨e, he, rfl, rfl⟩⟩
  rcases serveLine_cases h with ⟨hnode, -, -⟩ | ⟨command, hparse, -, hdispatch⟩
  · rw [hnode]
    exact ⟨hs, same, fun k e he => Or.inl he⟩
  · have hw := wellFormed_of_parse hparse
    rw [hparse]
    rcases dispatch_cases hdispatch with ⟨inner, line, s', rfl, hrun, -, hnode, -⟩ |
      ⟨hrepl, line, s', hrun, -, hfan⟩
    · obtain ⟨hinv, hentries⟩ := executeRepl_entries hs hw hrun
      rw [hnode]
      refine ⟨hinv, ⟨same.limit, same.engine⟩, fun k e he => ?_⟩
      rcases hentries k e he with hold | ⟨cmd, rfl, hk, hvalue⟩
      · exact Or.inl hold
      · exact Or.inr ⟨cmd, hk, hvalue, Or.inr rfl⟩
    · obtain ⟨hstore, hkept⟩ := fanOut_kept { node with store := s' } command
      rw [show served.node = _ from congrArg Prod.fst hfan, hstore]
      obtain ⟨hinv, hentries⟩ := executeCommand_entries hs hw hrun
      refine ⟨hinv, ⟨hkept.limit, hkept.engine⟩, fun k e he => ?_⟩
      rcases hentries k e he with hold | ⟨cmd, rfl, hk, hvalue⟩
      · exact Or.inl hold
      · exact Or.inr ⟨cmd, hk, hvalue, Or.inl rfl⟩

end DistributedCache
