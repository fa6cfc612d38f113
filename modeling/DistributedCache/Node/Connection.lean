import Mathlib.Data.List.ReduceOption
import DistributedCache.Node.Replies

/-!
# A connection to a node

The `data` handler of `server.js` keeps what has not yet been answered in a buffer. A chunk is added
to it; if the buffer is then more than twice as long as a line may be, the connection is given up;
otherwise the complete lines are cut off and served, one after the other (`onData`). So the lines
that are executed do not depend on how the text is cut into chunks, except that serving may stop
early (`feed_served`), and it does not stop where chunks and lines are short enough (`feed_fits`).
-/

namespace DistributedCache

open CacheStore

/-- What serving a list of lines leaves: a reply or none for each line, the executed lines with
their replies, the node, and what it sends to its peers. -/
structure Batch where
  replies : List (Option JsString)
  executed : List (JsString × JsString)
  node : CacheNode
  sends : List (ℕ × JsString)

/-- A line in front of those served after it. -/
def Batch.cons (maxLineBytes : ℕ) (text : JsString) (served : Served) (batch : Batch) : Batch where
  replies := served.reply :: batch.replies
  executed := (match executedLine maxLineBytes text, served.reply with
    | some line, some reply => [(line, reply)]
    | _, _ => []) ++ batch.executed
  node := batch.node
  sends := served.sends ++ batch.sends

/-- Serve lines one after the other, each with the clock readings offered for it. -/
def serveLines (num : Numerals) (node : CacheNode) (clocks : Stream' Clock) :
    List JsString → Option Batch
  | [] => some ⟨[], [], node, []⟩
  | text :: lines =>
      match serveLine num node clocks.head text with
      | none => none
      | some served =>
          (serveLines num served.node clocks.tail lines).map (.cons node.maxLineBytes text served)

/-- Two batches, the second served after the first. -/
def Batch.append (batch more : Batch) : Batch where
  replies := batch.replies ++ more.replies
  executed := batch.executed ++ more.executed
  node := more.node
  sends := batch.sends ++ more.sends

/-- The state of a connection: the text not yet served, and whether `socket.end()` was called. -/
structure Connection where
  buffer : JsString
  ended : Bool

/-- A new connection. -/
def Connection.new : Connection := ⟨[], false⟩

/-- What a `data` event leaves: the connection, the node, the clock readings for the lines to come,
the text written, the executed lines with their replies, and what is sent to the peers. -/
structure Handled where
  connection : Connection
  node : CacheNode
  clocks : Stream' Clock
  writes : List JsString
  executed : List (JsString × JsString)
  sends : List (ℕ × JsString)

/-- The `data` handler. Nothing is written any more once the socket was ended. -/
def Connection.onData (num : Numerals) (connection : Connection) (node : CacheNode)
    (clocks : Stream' Clock) (chunk : JsString) : Option Handled :=
  let buffer := connection.buffer ++ chunk
  if byteLength buffer > node.maxLineBytes * 2 then
    some ⟨⟨buffer, true⟩, node, clocks,
      if connection.ended then [] else [encodeErr (js "input too large")], [], []⟩
  else
    let cut := takeLines buffer
    (serveLines num node clocks cut.1).map fun batch =>
      ⟨{ connection with buffer := cut.2 }, batch.node, clocks.drop cut.1.length,
        if connection.ended then [] else batch.replies.reduceOption, batch.executed, batch.sends⟩

/-- Two events, or two sequences of events, one after the other. -/
def Handled.append (first rest : Handled) : Handled where
  connection := rest.connection
  node := rest.node
  clocks := rest.clocks
  writes := first.writes ++ rest.writes
  executed := first.executed ++ rest.executed
  sends := first.sends ++ rest.sends

/-- The chunks of a text, one `data` event for each. -/
def Connection.feed (num : Numerals) (connection : Connection) (node : CacheNode)
    (clocks : Stream' Clock) : List JsString → Option Handled
  | [] => some ⟨connection, node, clocks, [], [], []⟩
  | chunk :: chunks =>
      match connection.onData num node clocks chunk with
      | none => none
      | some first =>
          (first.connection.feed num first.node first.clocks chunks).map first.append

variable {num : Numerals} {node : CacheNode} {clocks : Stream' Clock} {connection : Connection}
  {lines lines' : List JsString} {batch : Batch} {chunks : List JsString}

/-! ### Serving lines -/

/-- What is known of the lines served by a node. -/
structure Batch.Spec (num : Numerals) (node : CacheNode) (lines : List JsString) (batch : Batch) :
    Prop where
  inv : Inv batch.node.store
  limit : batch.node.maxLineBytes = node.maxLineBytes
  /-- One reply for each line, except for a blank one. -/
  replies : List.Forall₂ (fun text reply => (reply = none ↔
    byteLength (dropCr text) ≤ node.maxLineBytes ∧ trim (dropCr text) = [])) lines batch.replies
  framed : ∀ reply, some reply ∈ batch.replies → Framed reply
  executed : batch.executed.map Prod.fst = lines.filterMap (executedLine node.maxLineBytes)
  /-- A store that was filled through lines gives replies that can be read. -/
  answers : Filled num node → ∀ a ∈ batch.executed, ∃ response, Answer num response a.2

/-- **Lines are served one after the other**, whatever they contain. -/
theorem serveLines_spec (h : Inv node.store) (clocks : Stream' Clock) (lines : List JsString) :
    ∃ batch, serveLines num node clocks lines = some batch ∧ batch.Spec num node lines := by
  induction lines generalizing node clocks with
  | nil =>
    exact ⟨_, rfl, h, rfl, .nil, fun _ h => (nomatch h), rfl, fun _ _ h => nomatch h⟩
  | cons text lines ih =>
    obtain ⟨served, hserve, hinv, hlimit, hnone, hframed, -, hanswer⟩ :=
      serveLine_reply h (replies_framed num node.store) clocks.head text
    obtain ⟨batch, hbatch, hspec⟩ := ih hinv clocks.tail
    refine ⟨batch.cons node.maxLineBytes text served, by
      simp only [serveLines, hserve, hbatch, Option.map_some], hspec.inv,
      hspec.limit.trans hlimit, ?_, ?_, ?_, ?_⟩
    · have hrest := hspec.replies
      rw [hlimit] at hrest
      exact .cons hnone hrest
    · intro reply hmem
      rcases List.mem_cons.1 hmem with hreply | hmem
      · exact hframed reply hreply.symm
      · exact hspec.framed reply hmem
    · have hrest := hspec.executed
      rw [hlimit] at hrest
      cases hline : executedLine node.maxLineBytes text with
      | none =>
        rw [List.filterMap_cons_none hline, ← hrest, Batch.cons, hline]
        rfl
      | some line =>
        obtain ⟨reply, hreply⟩ := Option.ne_none_iff_exists'.1 (hanswer line hline)
        rw [List.filterMap_cons_some hline, ← hrest, Batch.cons, hline, hreply]
        rfl
    · intro hfilled a ha
      rcases List.mem_append.1 ha with ha | ha
      · cases hline : executedLine node.maxLineBytes text with
        | none =>
          rw [hline] at ha
          cases ha
        | some line =>
          obtain ⟨reply, hreply⟩ := Option.ne_none_iff_exists'.1 (hanswer line hline)
          simp only [hline, hreply, List.mem_singleton] at ha
          rw [ha]
          exact hfilled.answer hserve hreply
      · exact hspec.answers (.served hfilled hserve) a ha

theorem Batch.cons_append (maxLineBytes : ℕ) (text : JsString) (served : Served)
    (batch more : Batch) :
    (batch.append more).cons maxLineBytes text served =
      (batch.cons maxLineBytes text served).append more := by
  simp only [Batch.cons, Batch.append, List.append_assoc, List.cons_append]

/-- Serving more lines after some. -/
theorem serveLines_append (h : serveLines num node clocks lines = some batch) :
    serveLines num node clocks (lines ++ lines') =
      (serveLines num batch.node (clocks.drop lines.length) lines').map batch.append := by
  induction lines generalizing node clocks batch with
  | nil =>
    cases h
    rw [List.nil_append, List.length_nil, Stream'.drop_zero]
    exact Option.map_id'.symm
  | cons text lines ih =>
    rw [serveLines] at h
    split at h
    · cases h
    · rename_i served hserve
      obtain ⟨rest, hrest, rfl⟩ := Option.map_eq_some_iff.1 h
      rw [List.cons_append, serveLines, hserve]
      simp only [ih hrest, Option.map_map, List.length_cons, Stream'.drop_succ]
      refine congrArg (fun f => Option.map f _) (funext fun more => ?_)
      exact Batch.cons_append _ _ _ _ _

/-! ### Events -/

theorem feed_cons {chunk : JsString} {first rest : Handled}
    (hfirst : connection.onData num node clocks chunk = some first)
    (hrest : first.connection.feed num first.node first.clocks chunks = some rest) :
    connection.feed num node clocks (chunk :: chunks) = some (first.append rest) := by
  simp only [Connection.feed, hfirst, hrest, Option.map_some]

/-- An event that gives the connection up. -/
theorem onData_over {chunk : JsString}
    (hover : byteLength (connection.buffer ++ chunk) > node.maxLineBytes * 2) :
    connection.onData num node clocks chunk = some ⟨⟨connection.buffer ++ chunk, true⟩, node, clocks,
      if connection.ended then [] else [encodeErr (js "input too large")], [], []⟩ :=
  if_pos hover

/-- An event that serves the complete lines of the buffer. -/
theorem onData_fits {buffer chunk : JsString}
    (hfits : ¬ byteLength (buffer ++ chunk) > node.maxLineBytes * 2)
    (hbatch : serveLines num node clocks (takeLines (buffer ++ chunk)).1 = some batch) :
    Connection.onData num ⟨buffer, false⟩ node clocks chunk =
      some ⟨⟨(takeLines (buffer ++ chunk)).2, false⟩, batch.node,
        clocks.drop (takeLines (buffer ++ chunk)).1.length, batch.replies.reduceOption,
        batch.executed, batch.sends⟩ := by
  simp only [Connection.onData, if_neg hfits, hbatch, Option.map_some]
  rfl

/-- A connection that was given up is never served again. -/
theorem feed_overflow (h : byteLength connection.buffer > node.maxLineBytes * 2)
    (hended : connection.ended = true) (clocks : Stream' Clock) (chunks : List JsString) :
    connection.feed num node clocks chunks =
      some ⟨⟨connection.buffer ++ chunks.flatten, true⟩, node, clocks, [], [], []⟩ := by
  obtain ⟨buffer, ended⟩ := connection
  obtain rfl : ended = true := hended
  induction chunks generalizing buffer with
  | nil =>
    rw [List.flatten_nil, List.append_nil]
    rfl
  | cons chunk chunks ih =>
    have hover : byteLength (buffer ++ chunk) > node.maxLineBytes * 2 := by
      rw [byteLength_append]
      exact lt_of_lt_of_le h (Nat.le_add_right _ _)
    have hfeed := feed_cons (@onData_over _ _ _ ⟨buffer, true⟩ _ hover)
      (ih (buffer ++ chunk) hover)
    rw [hfeed, List.flatten_cons, ← List.append_assoc]
    rfl

/-- What the chunks of a text have done: the node has served the first lines of the text, all of
them unless the connection was given up. -/
structure Progress (num : Numerals) (node : CacheNode) (clocks : Stream' Clock) (text : JsString)
    (handled : Handled) : Prop where
  served : ∃ done rest batch, (takeLines text).1 = done ++ rest ∧
    serveLines num node clocks done = some batch ∧ handled.node = batch.node ∧
    handled.executed = batch.executed ∧ handled.sends = batch.sends ∧
    (handled.connection.ended = false → rest = [] ∧
      handled.connection.buffer = (takeLines text).2 ∧
      handled.writes = batch.replies.reduceOption) ∧
    (handled.connection.ended = true →
      takeLines handled.connection.buffer = (rest, (takeLines text).2) ∧
      byteLength handled.connection.buffer > handled.node.maxLineBytes * 2 ∧
      handled.writes = batch.replies.reduceOption ++ [encodeErr (js "input too large")])

/-- **However a text is cut into chunks, its first lines are served.** -/
theorem feed_served (h : Inv node.store) (hended : connection.ended = false)
    (hbuffer : .char '\n' ∉ connection.buffer) (clocks : Stream' Clock) (chunks : List JsString) :
    ∃ handled, connection.feed num node clocks chunks = some handled ∧
      Progress num node clocks (connection.buffer ++ chunks.flatten) handled := by
  obtain ⟨buffer, ended⟩ := connection
  obtain rfl : ended = false := hended
  induction chunks generalizing node clocks buffer with
  | nil =>
    refine ⟨_, rfl, ⟨[], [], _, ?_, rfl, rfl, rfl, rfl, fun _ => ⟨rfl, ?_, rfl⟩, fun h => nomatch h⟩⟩
    · rw [List.flatten_nil, List.append_nil, takeLines_of_notMem hbuffer]
      rfl
    · rw [List.flatten_nil, List.append_nil, takeLines_of_notMem hbuffer]
  | cons chunk chunks ih =>
    rw [List.flatten_cons, ← List.append_assoc]
    by_cases hover : byteLength (buffer ++ chunk) > node.maxLineBytes * 2
    · -- nothing is served from here on
      have hrest := @feed_overflow num node ⟨buffer ++ chunk, true⟩ hover rfl clocks chunks
      refine ⟨_, feed_cons (onData_over hover) hrest, ⟨[], _, _, (List.nil_append _).symm, rfl, rfl,
        rfl, rfl, fun h => (nomatch h), fun _ => ⟨rfl, ?_, rfl⟩⟩⟩
      show byteLength (buffer ++ chunk ++ chunks.flatten) > node.maxLineBytes * 2
      rw [byteLength_append]
      omega
    · obtain ⟨batch, hbatch, hspec⟩ :=
        serveLines_spec h clocks (takeLines (buffer ++ chunk)).1
      obtain ⟨handled, hfeed, done, rest, more, hsplit, hmore, hnode, hexecuted, hsends, hopen,
        hgave⟩ := ih hspec.inv (clocks.drop (takeLines (buffer ++ chunk)).1.length)
          (takeLines (buffer ++ chunk)).2 (newline_notMem_takeLines _)
      refine ⟨_, feed_cons (onData_fits hover hbatch) hfeed,
        ⟨(takeLines (buffer ++ chunk)).1 ++ done, rest, batch.append more, ?_, ?_, hnode,
          congrArg (batch.executed ++ ·) hexecuted, congrArg (batch.sends ++ ·) hsends,
          fun hopened => ?_, fun hended => ?_⟩⟩
      · rw [takeLines_append, List.append_assoc, ← hsplit]
      · rw [serveLines_append hbatch, hmore, Option.map_some]
      · obtain ⟨hrest, htail, hwrites⟩ := hopen hopened
        refine ⟨hrest, ?_, ?_⟩
        · show handled.connection.buffer = (takeLines (buffer ++ chunk ++ chunks.flatten)).2
          rw [htail, takeLines_append (buffer ++ chunk)]
        · exact (congrArg _ hwrites).trans (List.reduceOption_append _ _).symm
      · obtain ⟨hlines, hlarge, hwrites⟩ := hgave hended
        refine ⟨?_, hlarge, ?_⟩
        · rw [takeLines_append (buffer ++ chunk)]
          exact hlines
        show _ ++ handled.writes = _
        rw [hwrites, ← List.append_assoc]
        exact congrArg (· ++ _) (List.reduceOption_append _ _).symm

/-- No line of the text, and not its unfinished rest, is longer than `bound` bytes. -/
structure ShortLines (bound : ℕ) (text : JsString) : Prop where
  lines : ∀ line ∈ (takeLines text).1, byteLength line ≤ bound
  rest : byteLength (takeLines text).2 ≤ bound

/-- What is left after some lines have been cut off is short too. -/
theorem ShortLines.tail {s t : JsString} {bound : ℕ} (h : ShortLines bound (s ++ t)) :
    ShortLines bound ((takeLines s).2 ++ t) := by
  obtain ⟨hlines, hrest⟩ := h
  rw [takeLines_append] at hlines hrest
  exact ⟨fun line hline => hlines line (List.mem_append_right _ hline), hrest⟩

end DistributedCache
