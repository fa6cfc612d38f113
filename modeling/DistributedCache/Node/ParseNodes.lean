import DistributedCache.Client.Commands
import DistributedCache.Lib.Result
import DistributedCache.Replication.Reorder

/-!
# Node lists as text

`apps/cache-node/src/parse-nodes.js` and `replication-options.js`: the list of nodes given to every
node, and to the command line interface, as `id@host:port` entries between commas.

* `parseNodeEntry`, `parseNodeList`, `replicationOptionsFromEnv`;
* `ListedAddress`, the addresses that can be written in such a list, and `ListedAddress.text`;
* `node_lists_parsed`: what is written is read, and whatever is read is well formed;
* `config_of_env`: nodes that are started with the text of one list build one configuration.
-/

namespace DistributedCache

/-- The error of a malformed list. -/
def invalidNodes (message : JsString) : ClientError := ⟨.invalidOptions, message⟩

/-- The id of an entry, if it has one, and what follows it; the first `@` ends the id. -/
def splitId (part : JsString) : Except ClientError (Option JsString × JsString) :=
  match part.idxOf? (.char '@') with
  | none => .ok (none, part)
  | some i =>
      let id := trim (part.take i)
      let hostPort := trim (part.drop (i + 1))
      if id = [] ∨ hostPort = [] then
        .error (invalidNodes (js "invalid node entry \"" ++ part ++ js "\""))
      else .ok (some id, hostPort)

/-- The rest of an entry; the last `:` begins the port. -/
def parseHostPort (num : Numerals) (part : JsString) (id : Option JsString) (hostPort : JsString) :
    Except ClientError NodeAddressInput :=
  match lastIndexOf (.char ':') hostPort with
  | none => .error (invalidNodes (js "expected host:port, got \"" ++ part ++ js "\""))
  | some colon =>
      if colon = 0 ∨ colon = hostPort.length - 1 then
        .error (invalidNodes (js "expected host:port, got \"" ++ part ++ js "\""))
      else
        let host := hostPort.take colon
        match validPort (num.toNumber (hostPort.drop (colon + 1))) with
        | none => .error (invalidNodes (js "invalid port in \"" ++ part ++ js "\""))
        | some port =>
            if host = [] then .error (invalidNodes (js "invalid port in \"" ++ part ++ js "\""))
            else .ok ⟨id, host, .int port⟩

/-- The body of the loop of `parseNodeList`, for a trimmed part. -/
def parseNodeEntry (num : Numerals) (part : JsString) : Except ClientError NodeAddressInput :=
  if part = [] then .error (invalidNodes (js "empty node entry in --nodes"))
  else (splitId part).bind fun r => parseHostPort num part r.1 r.2

/-- `parseNodeList`. -/
def parseNodeList (num : Numerals) (nodesStr : JsString) :
    Except ClientError (List NodeAddressInput) :=
  let trimmed := trim nodesStr
  if trimmed = [] then .error (invalidNodes (js "empty --nodes value"))
  else (trimmed.splitOn (.char ',')).mapM fun part => parseNodeEntry num (trim part)

/-- The `replication` option of a node. -/
structure ReplicationOptions where
  nodeId : JsString
  nodes : List NodeAddressInput
  replicationFactor : JsNumber
  virtualNodesPerNode : JsNumber
  deriving DecidableEq, Repr

/-- `replicationOptionsFromEnv`; an error is its message. -/
def replicationOptionsFromEnv (num : Numerals) (nodeId clusterNodes : Option JsString)
    (replicationFactor virtualNodesPerNode : Option JsNumber) :
    Except JsString (Option ReplicationOptions) :=
  let clusterNodes := trim (clusterNodes.getD [])
  if clusterNodes = [] then .ok none
  else
    let nodeId := trim (nodeId.getD [])
    if nodeId = [] then
      .error (js "CACHE_NODE_ID / --node-id is required when cluster nodes are configured")
    else match parseNodeList num clusterNodes with
      | .error e => .error e.message
      | .ok nodes =>
          .ok (some ⟨nodeId, nodes, replicationFactor.getD (.int 3),
            virtualNodesPerNode.getD (.int 128)⟩)

/-! ### What is written -/

/-- Blanks around an entry. -/
def Blank : Type := {s : JsString // s.all isSpace = true}

/-- An address that can be written in a node list. -/
structure ListedAddress where
  id : Option JsString
  host : JsString
  port : ℕ
  id_plain : ∀ i, id = some i → i ≠ [] ∧ .char ',' ∉ i ∧ .char '@' ∉ i ∧ trim i = i
  host_plain : host ≠ [] ∧ .char ',' ∉ host ∧ trim host = host
  host_first : id = none → .char '@' ∉ host
  port_range : 1 ≤ port ∧ port ≤ 65535

/-- `id@host:port`, or `host:port`. -/
def ListedAddress.text (a : ListedAddress) : JsString :=
  match a.id with
  | some id => id ++ .char '@' :: (a.host ++ .char ':' :: decimal a.port)
  | none => a.host ++ .char ':' :: decimal a.port

/-- The address as `parseNodeList` returns it. -/
def ListedAddress.input (a : ListedAddress) : NodeAddressInput := ⟨a.id, a.host, .int a.port⟩

/-- `Number` reads the decimal form of a port. -/
def Numerals.ReadsPorts (num : Numerals) : Prop :=
  ∀ port : ℕ, 1 ≤ port → port ≤ 65535 → num.toNumber (decimal port) = .int port

variable {num : Numerals} {a : ListedAddress} {s t : JsString}

/-! ### Trimming -/

theorem trim_cons_space {c : JsChar} (h : isSpace c = true) (s : JsString) :
    trim (c :: s) = trim s := by
  rw [trim, List.dropWhile_cons_of_pos h]
  rfl

/-- White space around a text does not count. -/
theorem trim_blanks (before after : Blank) (s : JsString) :
    trim (before.1 ++ s ++ after.1) = trim s := by
  obtain ⟨before, hbefore⟩ := before
  obtain ⟨after, hafter⟩ := after
  show trim (before ++ s ++ after) = trim s
  rw [List.all_eq_true] at hbefore hafter
  induction after using List.reverseRecOn with
  | nil =>
    rw [List.append_nil]
    induction before with
    | nil => rfl
    | cons c before ih =>
      rw [List.cons_append, trim_cons_space (hbefore c List.mem_cons_self)]
      exact ih fun d hd => hbefore d (List.mem_cons_of_mem c hd)
  | append_singleton after c ih =>
    rw [← List.append_assoc, trim_concat_space (hafter c (by simp))]
    exact ih fun d hd => hafter d (List.mem_append_left _ hd)

/-- A character after the last part. -/
theorem splitOn_concat {c : JsChar} (hc : c ≠ ',') (s : JsString) : ∃ init last,
    s.splitOn (.char ',') = init ++ [last] ∧
      (s ++ [c]).splitOn (.char ',') = init ++ [last ++ [c]] := by
  induction s with
  | nil => exact ⟨[], [], rfl, List.splitOn_eq_singleton (by simpa using hc.symm)⟩
  | cons d s ih =>
    obtain ⟨init, last, hs, hsc⟩ := ih
    rw [List.cons_append, List.splitOn_cons_eq_if_modifyHead, List.splitOn_cons_eq_if_modifyHead,
      hs, hsc]
    split_ifs
    · exact ⟨[] :: init, last, rfl, rfl⟩
    · cases init with
      | nil => exact ⟨[], d :: last, rfl, rfl⟩
      | cons w init => exact ⟨(d :: w) :: init, last, rfl, rfl⟩

/-- Trimming a list before it is cut does not show in its trimmed parts. -/
theorem splitOn_trim (s : JsString) :
    ((trim s).splitOn (.char ',')).map trim = (s.splitOn (.char ',')).map trim := by
  have comma {c : JsChar} (h : isSpace c = true) : c ≠ ',' := by
    rintro rfl
    exact absurd h (by decide)
  have atEnd (s : JsString) :
      ((trimEnd s).splitOn (.char ',')).map trim = (s.splitOn (.char ',')).map trim := by
    induction s using List.reverseRecOn with
    | nil => rfl
    | append_singleton s c ih =>
      rw [trimEnd, List.rdropWhile_concat]
      split_ifs with hc
      · obtain ⟨init, last, hs, hsc⟩ := splitOn_concat (comma hc) s
        refine ih.trans ?_
        rw [hs, hsc, List.map_append, List.map_append, List.map_singleton, List.map_singleton,
          trim_concat_space hc]
      · rfl
  refine (atEnd _).trans ?_
  induction s with
  | nil => rfl
  | cons c s ih =>
    rw [List.dropWhile_cons]
    split_ifs with hc
    · rw [ih, List.splitOn_cons_eq_if_modifyHead, if_neg (by simpa using comma hc)]
      obtain ⟨w, ws, hw⟩ := List.exists_cons_of_ne_nil (List.splitOn_ne_nil (.char ',') s)
      rw [hw, List.modifyHead_cons, List.map_cons, List.map_cons, trim_cons_space hc]
    · rfl

/-- The list is cut at its commas, and the parts are trimmed. -/
theorem parseNodeList_eq (h : trim s ≠ []) :
    parseNodeList num s = ((s.splitOn (.char ',')).map trim).mapM (parseNodeEntry num) := by
  rw [parseNodeList, if_neg h, ← splitOn_trim, List.mapM_map]
  rfl

/-! ### One entry -/

/-- The part of an entry after its id. -/
def ListedAddress.hostPort (a : ListedAddress) : JsString := a.host ++ .char ':' :: decimal a.port

/-- Nothing is trimmed from a text between a character that is no white space and a port. -/
theorem trim_port (hs : s.head?.any isSpace = false) (hne : s ≠ []) (port : ℕ) :
    trim (s ++ .char ':' :: decimal port) = s ++ .char ':' :: decimal port := by
  have hhead : (s ++ js ":").head?.any isSpace = false := by
    rwa [List.head?_append_of_ne_nil s hne]
  have htrim := trim_eq_self hhead (decimal_isToken port)
  rwa [List.append_assoc] at htrim

namespace ListedAddress

theorem head?_host (a : ListedAddress) : a.host.head?.any isSpace = false := by
  rw [← a.host_plain.2.2]
  exact head?_trim a.host

theorem trim_hostPort (a : ListedAddress) : trim a.hostPort = a.hostPort :=
  trim_port a.head?_host a.host_plain.1 a.port

theorem text_ne_nil (a : ListedAddress) : a.text ≠ [] := by
  unfold text
  cases a.id <;> simp

theorem trim_text (a : ListedAddress) : trim a.text = a.text := by
  cases hid : a.id with
  | none =>
    rw [text, hid]
    exact a.trim_hostPort
  | some i =>
    obtain ⟨hne, -, -, htrim⟩ := a.id_plain i hid
    have hhead : (i ++ .char '@' :: a.host).head?.any isSpace = false := by
      rw [List.head?_append_of_ne_nil i hne, ← htrim]
      exact head?_trim i
    have hport := trim_port hhead (List.append_ne_nil_of_left_ne_nil hne _) a.port
    rw [List.append_assoc, List.cons_append] at hport
    rwa [text, hid]

theorem comma_notMem_text (a : ListedAddress) : .char ',' ∉ a.text := by
  have hport : .char ',' ∉ a.hostPort := by
    rw [hostPort, List.mem_append, List.mem_cons, not_or, not_or]
    exact ⟨a.host_plain.2.1, by decide, notMem_decimal (by decide) _⟩
  cases hid : a.id with
  | none => rwa [text, hid]
  | some i =>
    rw [text, hid]
    simp only [List.mem_append, List.mem_cons, not_or]
    rw [hostPort, List.mem_append, List.mem_cons, not_or, not_or] at hport
    exact ⟨(a.id_plain i hid).2.1, by decide, hport⟩

theorem splitId_text (a : ListedAddress) : splitId a.text = .ok (a.id, a.hostPort) := by
  cases hid : a.id with
  | none =>
    have hat : .char '@' ∉ a.hostPort := by
      rw [hostPort, List.mem_append, List.mem_cons, not_or, not_or]
      exact ⟨a.host_first hid, by decide, notMem_decimal (by decide) _⟩
    rw [text, hid]
    show splitId a.hostPort = _
    rw [splitId, List.idxOf?_eq_none_iff.2 hat]
  | some i =>
    obtain ⟨hne, -, hat, htrim⟩ := a.id_plain i hid
    have hrest : a.hostPort ≠ [] := List.append_ne_nil_of_left_ne_nil a.host_plain.1 _
    rw [text, hid]
    show splitId (i ++ .char '@' :: a.hostPort) = _
    have hdrop : (i ++ .char '@' :: a.hostPort).drop (i.length + 1) = a.hostPort := by
      rw [← List.drop_drop, List.drop_left]
      rfl
    simp only [splitId, idxOf?_append hat, List.take_left, hdrop, htrim, a.trim_hostPort, hne,
      hrest, or_self, if_false]

/-- **An entry is read as it was written.** -/
theorem parseNodeEntry_text (hread : num.ReadsPorts) (a : ListedAddress) :
    parseNodeEntry num a.text = .ok a.input := by
  obtain ⟨hlow, hhigh⟩ := a.port_range
  have hcolon : lastIndexOf (.char ':') a.hostPort = some a.host.length :=
    lastIndexOf_append a.host (notMem_decimal (by decide) _)
  have hpos := List.length_pos_of_ne_nil a.host_plain.1
  have hdigits := List.length_pos_of_ne_nil (decimal_isToken a.port).1
  have hlength : a.hostPort.length = a.host.length + (decimal a.port).length + 1 := by
    rw [hostPort, List.length_append, List.length_cons]
    omega
  have hend : ¬ (a.host.length = 0 ∨ a.host.length = a.hostPort.length - 1) := by omega
  have htake : a.hostPort.take a.host.length = a.host := List.take_left
  have hdrop : a.hostPort.drop (a.host.length + 1) = decimal a.port := by
    rw [hostPort, ← List.drop_drop, List.drop_left]
    rfl
  have hport : validPort (.int a.port) = some a.port := by
    rw [validPort, if_neg (by omega), Int.toNat_natCast]
  rw [parseNodeEntry, if_neg a.text_ne_nil, a.splitId_text]
  simp only [Except.bind, parseHostPort, hcolon, if_neg hend, hdrop, htake, hread a.port hlow hhigh,
    hport, if_neg a.host_plain.1]
  rfl

end ListedAddress

/-- Whatever is read has a host and a port. -/
theorem parseNodeEntry_ok {part : JsString} {entry : NodeAddressInput}
    (h : parseNodeEntry num part = .ok entry) :
    entry.host ≠ [] ∧ ∃ port : ℕ, entry.port = .int port ∧ 1 ≤ port ∧ port ≤ 65535 := by
  unfold parseNodeEntry at h
  split_ifs at h
  obtain ⟨⟨id, hostPort⟩, -, h⟩ := bind_eq_ok_iff.1 h
  unfold parseHostPort at h
  split at h
  · cases h
  · split_ifs at h
    simp only at h
    split at h
    · cases h
    · rename_i port hport
      split_ifs at h with hhost
      cases h
      refine ⟨hhost, port, rfl, ?_⟩
      unfold validPort at hport
      split at hport
      · split_ifs at hport
        cases hport
        omega
      · cases hport

/-! ### The list -/

/-- The text of a list with white space around its entries. -/
def listText (entries : List (Blank × ListedAddress × Blank)) : JsString :=
  [.char ','].intercalate (entries.map fun e => e.1.1 ++ e.2.1.text ++ e.2.2.1)

/-- The list as it is cut and trimmed. -/
theorem splitOn_listText {entries : List (Blank × ListedAddress × Blank)} (hne : entries ≠ []) :
    ((listText entries).splitOn (.char ',')).map trim = entries.map fun e => e.2.1.text := by
  have hcomma : ∀ l ∈ entries.map fun e => e.1.1 ++ e.2.1.text ++ e.2.2.1, .char ',' ∉ l := by
    have blank (b : Blank) : .char ',' ∉ b.1 := fun hmem =>
      absurd (List.all_eq_true.1 b.2 _ hmem) (by decide)
    intro l hl
    obtain ⟨e, -, rfl⟩ := List.mem_map.1 hl
    rw [List.mem_append, List.mem_append, not_or, not_or]
    exact ⟨⟨blank e.1, e.2.1.comma_notMem_text⟩, blank e.2.2⟩
  rw [listText, List.splitOn_intercalate (JsChar.char ',') hcomma (by simpa using hne),
    List.map_map]
  refine List.map_congr_left fun e _ => ?_
  exact (trim_blanks e.1 e.2.2 e.2.1.text).trans e.2.1.trim_text

theorem trim_listText_ne_nil {entries : List (Blank × ListedAddress × Blank)} (hne : entries ≠ []) :
    trim (listText entries) ≠ [] := by
  intro hnil
  have hcut := splitOn_trim (listText entries)
  rw [hnil, splitOn_listText hne] at hcut
  obtain ⟨e, rest, rfl⟩ := List.exists_cons_of_ne_nil hne
  exact e.2.1.text_ne_nil (List.cons.inj hcut).1.symm

/-- **What is written is read.** -/
theorem parseNodeList_listText (hread : num.ReadsPorts)
    {entries : List (Blank × ListedAddress × Blank)} (hne : entries ≠ []) :
    parseNodeList num (listText entries) = .ok (entries.map fun e => e.2.1.input) := by
  rw [parseNodeList_eq (trim_listText_ne_nil hne), splitOn_listText hne, mapM_eq_ok_iff,
    List.forall₂_map_left_iff, List.forall₂_map_right_iff, List.forall₂_same]
  exact fun e _ => e.2.1.parseNodeEntry_text hread

/-- **Node lists parse back exactly.** A list that is written with commas, and any white space
around its entries, is read as that list. Whatever text is read, the result has one entry for each part
between commas, each with a host and a port in range. -/
theorem node_lists_parsed (num : Numerals) :
    (num.ReadsPorts → ∀ entries : List (Blank × ListedAddress × Blank), entries ≠ [] →
      parseNodeList num (listText entries) = .ok (entries.map fun e => e.2.1.input)) ∧
    ∀ text nodes, parseNodeList num text = .ok nodes →
      nodes.length = (text.splitOn (.char ',')).length ∧
      ∀ n ∈ nodes, n.host ≠ [] ∧ ∃ port : ℕ, n.port = .int port ∧ 1 ≤ port ∧ port ≤ 65535 := by
  refine ⟨fun hread entries hne => parseNodeList_listText hread hne, fun text nodes h => ?_⟩
  have hne : trim text ≠ [] := by
    intro hnil
    rw [parseNodeList, if_pos hnil] at h
    cases h
  rw [parseNodeList_eq hne, mapM_eq_ok_iff] at h
  obtain ⟨hlength, hparts⟩ := List.forall₂_iff_get.1 h
  refine ⟨by rw [← hlength, List.length_map], fun n hn => ?_⟩
  obtain ⟨⟨i, hi⟩, rfl⟩ := List.mem_iff_get.1 hn
  exact parseNodeEntry_ok (hparts i (hlength ▸ hi) hi)

/-- Digits are read by the instance. -/
theorem decimalNumerals_readsPorts : decimalNumerals.ReadsPorts := fun port _ hle =>
  readNumeral_decimal (hle.trans (by norm_num))

/-- An IPv6 address with an id, a name without one, and blanks in between. -/
theorem node_lists_parsed_example :
    parseNodeList decimalNumerals (js " n1@::1:6371 ,\th:80") =
      .ok [⟨some (js "n1"), js "::1", .int 6371⟩, ⟨none, js "h", .int 80⟩] := by
  obtain ⟨entries, hne, htext, hinputs⟩ : ∃ entries : List (Blank × ListedAddress × Blank),
      entries ≠ [] ∧ listText entries = js " n1@::1:6371 ,\th:80" ∧
      (entries.map fun e => e.2.1.input) =
        [⟨some (js "n1"), js "::1", .int 6371⟩, ⟨none, js "h", .int 80⟩] :=
    ⟨[(⟨[.char ' '], by decide⟩,
        ⟨some (js "n1"), js "::1", 6371, fun i hi => (by cases hi; decide), by decide,
          fun h => (by cases h), by decide⟩, ⟨[.char ' '], by decide⟩),
      (⟨[.char '\t'], by decide⟩,
        ⟨none, js "h", 80, fun i hi => (by cases hi), by decide, fun _ => by decide, by decide⟩,
        ⟨[], by decide⟩)], List.cons_ne_nil _ _, by decide, by decide⟩
  rw [← htext, ← hinputs]
  exact (node_lists_parsed decimalNumerals).1 decimalNumerals_readsPorts entries hne

/-! ### Starting the nodes -/

/-- An id of a written list has no white space around it. -/
theorem ListedAddress.trim_nodeId (a : ListedAddress) : trim a.input.nodeId = a.input.nodeId := by
  have hport : validPort (.int a.port) = some a.port := by
    obtain ⟨hlow, hhigh⟩ := a.port_range
    rw [validPort, if_neg (by omega), Int.toNat_natCast]
  have haddress : a.input.address = a.hostPort := by
    rw [NodeAddressInput.address, input, hport, Option.getD_some, addressKey, hostPort,
      List.append_assoc]
    rfl
  unfold NodeAddressInput.nodeId NodeAddressInput.effectiveId
  rw [haddress, input]
  cases hid : a.id with
  | none => exact a.trim_hostPort
  | some i =>
    obtain ⟨hne, -, -, htrim⟩ := a.id_plain i hid
    simp only [if_neg hne, htrim]

/-- **Every node that is started with the text of the list and its own id builds the configuration
that all nodes of the list share.** -/
theorem config_of_env (hread : num.ReadsPorts) (t : Topology)
    {entries : List (Blank × ListedAddress × Blank)}
    (hinputs : t.inputs = entries.map fun e => e.2.1.input) {n : ClusterNode} (hn : n ∈ t.nodes) :
    ∃ options, replicationOptionsFromEnv num (some n.id) (some (listText entries))
        (some (.int t.requestedFactor)) (some (.int t.virtualNodesPerNode)) = .ok (some options) ∧
      buildClusterReplicationConfig t.hashKey options.nodeId options.nodes
        (.number options.replicationFactor) (.number options.virtualNodesPerNode) =
          .ok (t.config n) := by
  have hne : entries ≠ [] := by
    rintro rfl
    exact t.nodes_ne_nil (by simpa [hinputs] using ids_of_accepted t.accepted)
  -- the text is trimmed here and once more when it is read
  have hlist : parseNodeList num (trim (listText entries)) = .ok t.inputs := by
    rw [hinputs, ← parseNodeList_listText hread hne]
    simp only [parseNodeList, trim_trim]
  have hid : n.id ∈ t.inputs.map NodeAddressInput.nodeId :=
    ids_of_accepted t.accepted ▸ List.mem_map_of_mem hn
  have htrim : trim n.id = n.id := by
    rw [hinputs, List.map_map] at hid
    obtain ⟨e, -, he⟩ := List.mem_map.1 hid
    rw [← he]
    exact e.2.1.trim_nodeId
  have hnonempty := Topology.id_ne_nil hn
  refine ⟨⟨n.id, t.inputs, .int t.requestedFactor, .int t.virtualNodesPerNode⟩, ?_,
    t.buildClusterReplicationConfig_eq hn⟩
  simp only [replicationOptionsFromEnv, Option.getD_some, if_neg (trim_listText_ne_nil hne), htrim,
    if_neg hnonempty, hlist]

end DistributedCache
