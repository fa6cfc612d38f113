import DistributedCache.CacheCore.LruList
import DistributedCache.Lib.LinkedCells
import DistributedCache.Lib.OrderedMap

/-!
# The recency order as linked nodes

`packages/cache-core/src/lru-list.js` with its nodes: objects in a heap, linked by `prev` and
`next`, a map from keys to nodes, and the two ends. `none` is the access to an object that does not exist.

* `LinkedLru` and the functions of the source on it;
* `Chain`, `Mirrors`: the nodes form a chain, and the map knows the nodes of the chain;
* `LruCall`, `LinkedLru.run`, `LruList.run`: a sequence of calls on the nodes and on the plain list;
* `linkedLru_refines`: the nodes answer as the plain list does, and always spell it out.
-/

namespace DistributedCache

open Cell

universe u

/-- An `LruList` with its nodes. -/
structure LinkedLru (κ : Type u) where
  heap : List (Cell κ)
  nodes : OrderedMap κ ℕ
  head : Option ℕ
  tail : Option ℕ

namespace LinkedLru

variable {κ : Type u}

/-- A new list. -/
def new : LinkedLru κ := ⟨[], .empty, none, none⟩

/-- `size`. -/
def size (l : LinkedLru κ) : ℕ := l.nodes.size

/-- The first half of `#unlink`: the predecessor, or else the list, goes on with `next`. -/
def linkNext (l : LinkedLru κ) (prev next : Option ℕ) : LinkedLru κ :=
  match prev with
  | some _ => { l with heap := setNext l.heap prev next }
  | none => { l with head := next }

/-- Its second half: the successor, or else the list, goes back to `prev`. -/
def linkPrev (l : LinkedLru κ) (next prev : Option ℕ) : LinkedLru κ :=
  match next with
  | some _ => { l with heap := setPrev l.heap next prev }
  | none => { l with tail := prev }

/-- `#unlink`. -/
def unlink (l : LinkedLru κ) (node : ℕ) : Option (LinkedLru κ) := do
  let cell ← l.heap[node]?
  let l := l.linkNext cell.prev cell.next
  let cell ← l.heap[node]?
  let l := l.linkPrev cell.next cell.prev
  return { l with heap := l.heap.modify node fun cell => { cell with prev := none, next := none } }

/-- The end of `add` and `touch`, once the links of the node are set. -/
def pushFront (l : LinkedLru κ) (node : ℕ) : LinkedLru κ :=
  { l with
    heap := setPrev l.heap l.head (some node)
    head := some node
    tail := if l.tail = none then some node else l.tail }

/-- `peekLru`. -/
def peekLru (l : LinkedLru κ) : Option (Option κ) :=
  match l.tail with
  | none => some none
  | some tail => do
      let cell ← l.heap[tail]?
      return some cell.key

/-- `peekMru`. -/
def peekMru (l : LinkedLru κ) : Option (Option κ) :=
  match l.head with
  | none => some none
  | some head => do
      let cell ← l.heap[head]?
      return some cell.key

variable [DecidableEq κ]

/-- `has`. -/
def has (l : LinkedLru κ) (key : κ) : Bool := l.nodes.has key

/-- `touch`. -/
def touch (l : LinkedLru κ) (key : κ) : Option (LinkedLru κ) :=
  match l.nodes.get? key with
  | none => some l
  | some node =>
      if l.head = some node then some l
      else do
        let l ← l.unlink node
        let heap := l.heap.modify node fun cell => { cell with prev := none, next := l.head }
        return pushFront { l with heap := heap } node

/-- `add`. -/
def add (l : LinkedLru κ) (key : κ) : Option (LinkedLru κ) :=
  if l.nodes.has key then l.touch key
  else
    let node := l.heap.length
    let l := pushFront { l with heap := l.heap ++ [⟨key, none, l.head⟩] } node
    some { l with nodes := l.nodes.set key node }

/-- `remove`. -/
def remove (l : LinkedLru κ) (key : κ) : Option (Bool × LinkedLru κ) :=
  match l.nodes.get? key with
  | none => some (false, l)
  | some node => do
      let l ← l.unlink node
      return (true, { l with nodes := l.nodes.delete key })

/-- `evictLru`. -/
def evictLru (l : LinkedLru κ) : Option (Option κ × LinkedLru κ) :=
  match l.tail with
  | none => some (none, l)
  | some tail => do
      let cell ← l.heap[tail]?
      let r ← l.remove cell.key
      return (some cell.key, r.2)

/-! ### The chain of the nodes -/

section Chain

omit [DecidableEq κ]

/-- The cells form one chain between the ends of the list, and no key occurs twice. -/
structure Chain (l : LinkedLru κ) (cells : List (ℕ × κ)) : Prop where
  linked : Linked l.heap none cells none
  head : l.head = firstRef cells none
  tail : l.tail = lastRef none cells
  keys : (cells.map Prod.snd).Nodup

variable {l : LinkedLru κ} {cells before after : List (ℕ × κ)} {node : ℕ} {key : κ}

theorem Chain.refs (h : l.Chain cells) : (cells.map Prod.fst).Nodup := h.linked.nodup_refs h.keys

theorem linkNext_eq (l : LinkedLru κ) (prev next : Option ℕ) :
    l.linkNext prev next = { l with
      heap := setNext l.heap prev next
      head := if prev = none then next else l.head } := by
  cases prev <;> rfl

theorem linkPrev_eq (l : LinkedLru κ) (next prev : Option ℕ) :
    l.linkPrev next prev = { l with
      heap := setPrev l.heap next prev
      tail := if next = none then prev else l.tail } := by
  cases next <;> rfl

/-- **Unlinking a node** leaves the cells before it and after it, joined. -/
theorem unlink_spec (h : l.Chain (before ++ (node, key) :: after)) :
    ∃ l', l.unlink node = some l' ∧ l'.Chain (before ++ after) ∧ l'.nodes = l.nodes ∧
      l'.heap[node]? = some ⟨key, none, none⟩ := by
  obtain ⟨hbefore, hread, hafter⟩ := linked_append.1 h.linked
  have hrefs := h.refs
  rw [List.map_append, List.map_cons, List.nodup_append, List.nodup_cons] at hrefs
  obtain ⟨hnodupBefore, ⟨hnotAfter, hnodupAfter⟩, hapart⟩ := hrefs
  have hnotBefore : node ∉ before.map Prod.fst := fun hmem =>
    hapart node hmem node List.mem_cons_self rfl
  have hapart' (r) (hr : r ∈ before.map Prod.fst) : r ∉ after.map Prod.fst := fun hmem =>
    hapart r hr r (List.mem_cons_of_mem _ hmem) rfl
  -- the predecessor's link leaves the node and the cells after it as they are
  have hbefore₁ := hbefore.setNext hnodupBefore (firstRef after none)
  have hread₁ := (getElem?_setNext_of_ne (h := l.heap) (fun heq => hnotBefore (mem_of_lastRef heq))
    (firstRef after none)).trans hread
  have hafter₁ : Linked _ (some node) after none := hafter.congr fun r hr =>
    getElem?_setNext_of_ne (fun heq => hapart' r (mem_of_lastRef heq) hr) (firstRef after none)
  -- and so does the successor's, for the node and the cells before it
  have hafter₂ := hafter₁.setPrev hnodupAfter (lastRef none before)
  have hread₂ := (getElem?_setPrev_of_ne (fun heq => hnotAfter (mem_of_firstRef heq))
    (lastRef none before)).trans hread₁
  have hbefore₂ := hbefore₁.congr fun r hr =>
    getElem?_setPrev_of_ne (fun heq => hapart' r hr (mem_of_firstRef heq)) (lastRef none before)
  have hunlink : l.unlink node = some {
      heap := (setPrev (setNext l.heap (lastRef none before) (firstRef after none))
        (firstRef after none) (lastRef none before)).modify node
          fun cell => { cell with prev := none, next := none }
      nodes := l.nodes
      head := if lastRef none before = none then firstRef after none else l.head
      tail := if firstRef after none = none then lastRef none before else l.tail } := by
    simp only [unlink, hread, linkNext_eq, linkPrev_eq, Option.bind_eq_bind, Option.bind_some,
      hread₁]
    rfl
  refine ⟨_, hunlink, ⟨?_, ?_, ?_, ?_⟩, rfl, read_modify hread₂ _⟩
  · exact linked_append.2 ⟨hbefore₂.modify hnotBefore _, hafter₂.modify hnotAfter _⟩
  · cases before with
    | nil => rfl
    | cons c before => exact (if_neg (lastRef_cons_ne_none none c before)).trans h.head
  · cases after with
    | nil =>
      rw [List.append_nil]
      rfl
    | cons c after =>
      rw [show firstRef (c :: after) none = some c.1 from rfl, if_neg (Option.some_ne_none _),
        h.tail,
        lastRef_append, lastRef_append]
      rfl
  · exact h.keys.sublist (((List.sublist_cons_self _ after).append_left before).map Prod.snd)

/-- **Putting a node in front**, once it is linked to the old head. -/
theorem Chain.pushFront (h : l.Chain cells) (hread : l.heap[node]? = some ⟨key, none, l.head⟩)
    (hnode : node ∉ cells.map Prod.fst) (hkey : key ∉ cells.map Prod.snd) :
    (l.pushFront node).Chain ((node, key) :: cells) where
  linked := by
    have hne : l.head ≠ some node := fun heq => hnode (mem_of_firstRef (h.head ▸ heq))
    refine ⟨(getElem?_setPrev_of_ne hne _).trans ?_, ?_⟩
    · rw [hread, h.head]
    · have hlinked := h.linked.setPrev h.refs (some node)
      rwa [← h.head] at hlinked
  head := rfl
  tail := by
    show (if l.tail = none then some node else l.tail) = lastRef (some node) cells
    rw [lastRef_eq_or, ← h.tail]
    cases l.tail <;> rfl
  keys := List.nodup_cons.2 ⟨hkey, h.keys⟩

/-- A node that is in front is the head of the list. -/
theorem Chain.before_eq_nil {before after : List (ℕ × κ)}
    (h : l.Chain (before ++ (node, key) :: after)) (hhead : l.head = some node) : before = [] := by
  cases before with
  | nil => rfl
  | cons c before =>
    have hrefs := h.refs
    rw [List.cons_append, List.map_cons, List.nodup_cons] at hrefs
    have hc : c.1 = node := Option.some.inj (h.head.symm.trans hhead)
    refine absurd (List.mem_map.2 ⟨(node, key), ?_, hc.symm⟩) hrefs.1
    exact List.mem_append_right _ List.mem_cons_self

end Chain

/-! ### The operations -/

/-- The cells form a chain, and the map leads from each of their keys to its node. -/
structure Mirrors (l : LinkedLru κ) (cells : List (ℕ × κ)) : Prop extends Chain l cells where
  nodes : ∀ key node, l.nodes.get? key = some node ↔ (node, key) ∈ cells

section Operations

variable {l : LinkedLru κ} {cells : List (ℕ × κ)} {node : ℕ} {key : κ}

theorem mirrors_new : (new : LinkedLru κ).Mirrors [] where
  linked := trivial
  head := rfl
  tail := rfl
  keys := List.nodup_nil
  nodes _ _ := ⟨fun h => (by cases h), fun h => (by cases h)⟩

theorem Mirrors.mem_keys_iff (h : l.Mirrors cells) :
    key ∈ l.nodes.keys ↔ key ∈ cells.map Prod.snd := by
  rw [OrderedMap.mem_keys_iff, List.mem_map]
  constructor
  · rintro ⟨node, hget⟩
    exact ⟨(node, key), (h.nodes key node).1 hget, rfl⟩
  · rintro ⟨⟨node, key⟩, hmem, rfl⟩
    exact ⟨node, (h.nodes key node).2 hmem⟩

theorem Mirrors.size_eq (h : l.Mirrors cells) : l.size = cells.length := by
  have hperm : l.nodes.keys.Perm (cells.map Prod.snd) :=
    (List.perm_ext_iff_of_nodup l.nodes.keys_nodup h.keys).2 fun _ => h.mem_keys_iff
  rw [size, ← OrderedMap.length_keys, hperm.length_eq, List.length_map]

theorem Mirrors.get?_eq_none (h : l.Mirrors cells) (hkey : key ∉ cells.map Prod.snd) :
    l.nodes.get? key = none :=
  OrderedMap.get?_eq_none_iff.2 fun hmem => hkey (h.mem_keys_iff.1 hmem)

/-- A key of the chain, with the cells before it and after it. -/
theorem Mirrors.split (h : l.Mirrors cells) (hkey : key ∈ cells.map Prod.snd) :
    ∃ node before after, cells = before ++ (node, key) :: after ∧
      l.nodes.get? key = some node ∧
      (cells.map Prod.snd).erase key = (before ++ after).map Prod.snd := by
  obtain ⟨⟨node, key⟩, hmem, rfl⟩ := List.mem_map.1 hkey
  obtain ⟨before, after, rfl⟩ := List.append_of_mem hmem
  have hkeys := h.keys
  rw [List.map_append, List.map_cons, List.nodup_append] at hkeys
  refine ⟨node, before, after, rfl, (h.nodes key node).2 hmem, ?_⟩
  rw [List.map_append, List.map_cons, List.erase_append_right, List.erase_cons_head,
    List.map_append]
  exact fun hbefore => hkeys.2.2 key hbefore key List.mem_cons_self rfl

/-- The nodes stand for the plain list. -/
def Represents (l : LinkedLru κ) (L : LruList κ) : Prop :=
  ∃ cells, l.Mirrors cells ∧ cells.map Prod.snd = L.order

variable {L : LruList κ}

/-- **`touch`.** -/
theorem touch_spec (h : l.Represents L) (key : κ) :
    ∃ l', l.touch key = some l' ∧ l'.Represents (L.touch key) := by
  obtain ⟨cells, h, hL⟩ := h
  by_cases hkey : key ∈ cells.map Prod.snd
  · obtain ⟨node, before, after, rfl, hget, herase⟩ := h.split hkey
    have horder : (L.touch key).order = key :: (before ++ after).map Prod.snd := by
      rw [LruList.order_touch_of_mem (hL ▸ hkey), ← hL, herase]
    simp only [touch, hget]
    split_ifs with hhead
    · obtain rfl := h.before_eq_nil hhead
      exact ⟨l, rfl, _, h, horder.symm⟩
    · obtain ⟨l', hunlink, hchain, hnodes, hread⟩ := unlink_spec h.toChain
      have hrefs := h.refs
      rw [List.map_append, List.map_cons, List.nodup_middle, List.nodup_cons, ← List.map_append]
        at hrefs
      have hkeys := h.keys
      rw [List.map_append, List.map_cons, List.nodup_middle, List.nodup_cons, ← List.map_append]
        at hkeys
      have hlinked : Chain { l' with
          heap := l'.heap.modify node (fun cell => { cell with prev := none, next := l'.head }) }
            (before ++ after) :=
        ⟨hchain.linked.modify hrefs.1 _, hchain.head, hchain.tail, hchain.keys⟩
      refine ⟨_, by rw [hunlink]; rfl, (node, key) :: (before ++ after), ⟨?_, ?_⟩, horder.symm⟩
      · exact hlinked.pushFront (read_modify hread _) hrefs.1 hkeys.1
      · intro key' node'
        show l'.nodes.get? key' = some node' ↔ _
        rw [hnodes, h.nodes, List.perm_middle.mem_iff]
  · refine ⟨l, by rw [touch, h.get?_eq_none hkey], cells, h, ?_⟩
    rw [LruList.order_touch_of_notMem (hL ▸ hkey), hL]

/-- **`add`.** -/
theorem add_spec (h : l.Represents L) (key : κ) :
    ∃ l', l.add key = some l' ∧ l'.Represents (L.add key) := by
  obtain ⟨cells, h, hL⟩ := h
  by_cases hkey : key ∈ cells.map Prod.snd
  · obtain ⟨l', htouch, hl'⟩ := touch_spec ⟨cells, h, hL⟩ key
    rw [LruList.touch, if_pos (hL ▸ hkey)] at hl'
    exact ⟨l', by rw [add, OrderedMap.has, if_pos (decide_eq_true (h.mem_keys_iff.2 hkey)), htouch],
      hl'⟩
  · have hnode : l.heap.length ∉ cells.map Prod.fst := fun hmem =>
      absurd (h.linked.ref_lt hmem) (lt_irrefl _)
    have halloc : Chain { l with heap := l.heap ++ [⟨key, none, l.head⟩] } cells :=
      ⟨h.linked.alloc _, h.head, h.tail, h.keys⟩
    have hread : (l.heap ++ [⟨key, none, l.head⟩])[l.heap.length]? = some ⟨key, none, l.head⟩ :=
      List.getElem?_concat_length
    have hfront := halloc.pushFront hread hnode hkey
    have hhas : l.nodes.has key = false := decide_eq_false fun hmem => hkey (h.mem_keys_iff.1 hmem)
    refine ⟨{ pushFront { l with heap := l.heap ++ [⟨key, none, l.head⟩] } l.heap.length with
        nodes := l.nodes.set key l.heap.length }, by rw [add, hhas]; rfl,
      (l.heap.length, key) :: cells,
      ⟨⟨hfront.linked, hfront.head, hfront.tail, hfront.keys⟩, ?_⟩, ?_⟩
    · intro key' node'
      show (l.nodes.set key l.heap.length).get? key' = some node' ↔ _
      rw [OrderedMap.get?_set, List.mem_cons, Prod.mk.injEq]
      split_ifs with heq
      · subst heq
        constructor
        · intro hnode'
          exact Or.inl ⟨(Option.some.inj hnode').symm, rfl⟩
        · rintro (⟨rfl, -⟩ | hmem)
          · rfl
          · exact absurd (List.mem_map.2 ⟨_, hmem, rfl⟩) hkey
      · rw [h.nodes]
        exact ⟨Or.inr, fun hmem => hmem.resolve_left fun hnew => heq hnew.2⟩
    · rw [List.map_cons, LruList.order_add, List.erase_of_not_mem (hL ▸ hkey), hL]

/-- **`remove`.** -/
theorem remove_spec (h : l.Represents L) (key : κ) :
    ∃ l', l.remove key = some ((L.remove key).1, l') ∧ l'.Represents (L.remove key).2 := by
  obtain ⟨cells, h, hL⟩ := h
  by_cases hkey : key ∈ cells.map Prod.snd
  · obtain ⟨node, before, after, rfl, hget, herase⟩ := h.split hkey
    obtain ⟨l', hunlink, hchain, hnodes, -⟩ := unlink_spec h.toChain
    have hthere : (L.remove key).1 = true := decide_eq_true (hL ▸ hkey)
    have hremove : l.remove key =
        some ((L.remove key).1, { l' with nodes := l'.nodes.delete key }) := by
      rw [remove, hget, hthere]
      simp only [hunlink]
      rfl
    refine ⟨_, hremove, before ++ after,
      ⟨⟨hchain.linked, hchain.head, hchain.tail, hchain.keys⟩, ?_⟩, ?_⟩
    · intro key' node'
      show (l'.nodes.delete key).get? key' = some node' ↔ _
      have hkeys := h.keys
      rw [List.map_append, List.map_cons, List.nodup_middle, List.nodup_cons, ← List.map_append]
        at hkeys
      rw [OrderedMap.get?_delete, hnodes]
      split_ifs with heq
      · subst heq
        exact ⟨fun h => (by cases h), fun hmem => absurd (List.mem_map.2 ⟨_, hmem, rfl⟩) hkeys.1⟩
      · rw [h.nodes, List.perm_middle.mem_iff, List.mem_cons, Prod.mk.injEq]
        exact ⟨fun hmem => hmem.resolve_left fun hold => heq hold.2, Or.inr⟩
    · rw [LruList.order_remove, ← hL, herase]
  · have hgone : (L.remove key).1 = false := decide_eq_false (hL ▸ hkey)
    refine ⟨l, by rw [remove, h.get?_eq_none hkey, hgone], cells, h, ?_⟩
    rw [LruList.order_remove, List.erase_of_not_mem (hL ▸ hkey), hL]

/-- The last cell is the one of the least recently used key. -/
theorem Represents.tail_cases (h : l.Represents L) :
    (l.tail = none ∧ L.peekLru = none) ∨
      ∃ node cell, l.tail = some node ∧ l.heap[node]? = some cell ∧ L.peekLru = some cell.key := by
  obtain ⟨cells, h, hL⟩ := h
  rw [LruList.peekLru, ← hL, h.tail]
  rcases List.eq_nil_or_concat' cells with rfl | ⟨init, c, rfl⟩
  · exact Or.inl ⟨rfl, rfl⟩
  · obtain ⟨-, hread, -⟩ := linked_append.1 h.linked
    refine Or.inr ⟨c.1, _, lastRef_append _ _ _, hread, ?_⟩
    rw [List.map_append, List.map_singleton, List.getLast?_concat]

/-- The first cell is the one of the most recently used key. -/
theorem Represents.head_cases (h : l.Represents L) :
    (l.head = none ∧ L.peekMru = none) ∨
      ∃ node cell, l.head = some node ∧ l.heap[node]? = some cell ∧ L.peekMru = some cell.key := by
  obtain ⟨cells, h, hL⟩ := h
  rw [LruList.peekMru, ← hL, h.head]
  cases cells with
  | nil => exact Or.inl ⟨rfl, rfl⟩
  | cons c cells => exact Or.inr ⟨c.1, _, rfl, h.linked.1, rfl⟩

theorem peekLru_spec (h : l.Represents L) : l.peekLru = some L.peekLru := by
  rcases h.tail_cases with ⟨htail, hpeek⟩ | ⟨node, cell, htail, hread, hpeek⟩
  · rw [peekLru, htail, hpeek]
  · simp only [peekLru, htail, hread, hpeek, Option.bind_eq_bind, Option.bind_some, Option.pure_def]

theorem peekMru_spec (h : l.Represents L) : l.peekMru = some L.peekMru := by
  rcases h.head_cases with ⟨hhead, hpeek⟩ | ⟨node, cell, hhead, hread, hpeek⟩
  · rw [peekMru, hhead, hpeek]
  · simp only [peekMru, hhead, hread, hpeek, Option.bind_eq_bind, Option.bind_some, Option.pure_def]

/-- **`evictLru`.** -/
theorem evictLru_spec (h : l.Represents L) :
    ∃ l', l.evictLru = some (L.evictLru.1, l') ∧ l'.Represents L.evictLru.2 := by
  rcases h.tail_cases with ⟨htail, hpeek⟩ | ⟨node, cell, htail, hread, hpeek⟩
  · simp only [evictLru, LruList.evictLru, htail, hpeek]
    exact ⟨l, rfl, h⟩
  · obtain ⟨l', hremove, hl'⟩ := remove_spec h cell.key
    simp only [evictLru, LruList.evictLru, htail, hpeek, hread, hremove, Option.bind_eq_bind,
      Option.bind_some, Option.pure_def]
    exact ⟨l', rfl, hl'⟩

theorem has_spec (h : l.Represents L) (key : κ) : l.has key = L.has key := by
  obtain ⟨cells, h, hL⟩ := h
  exact decide_eq_decide.2 (h.mem_keys_iff.trans (by rw [hL]))

theorem size_spec (h : l.Represents L) : l.size = L.size := by
  obtain ⟨cells, h, hL⟩ := h
  rw [h.size_eq, LruList.size, ← hL, List.length_map]

end Operations

end LinkedLru

/-! ### Sequences of calls -/

/-- A call of the list. -/
inductive LruCall (κ : Type u)
  | add (key : κ)
  | touch (key : κ)
  | remove (key : κ)
  | evictLru
  | peekLru
  | peekMru
  | has (key : κ)
  | size
  deriving DecidableEq, Repr

/-- What a call returns. -/
inductive LruAnswer (κ : Type u)
  | done
  | flag (b : Bool)
  | key (key : Option κ)
  | count (n : ℕ)
  deriving DecidableEq, Repr

section Calls

variable {κ : Type u} [DecidableEq κ]

/-- A call on the nodes. -/
def LinkedLru.call (l : LinkedLru κ) : LruCall κ → Option (LruAnswer κ × LinkedLru κ)
  | .add key => (l.add key).map fun l' => (.done, l')
  | .touch key => (l.touch key).map fun l' => (.done, l')
  | .remove key => (l.remove key).map fun r => (.flag r.1, r.2)
  | .evictLru => l.evictLru.map fun r => (.key r.1, r.2)
  | .peekLru => l.peekLru.map fun key => (.key key, l)
  | .peekMru => l.peekMru.map fun key => (.key key, l)
  | .has key => some (.flag (l.has key), l)
  | .size => some (.count l.size, l)

/-- The same call on the plain list. -/
def LruList.call (l : LruList κ) : LruCall κ → LruAnswer κ × LruList κ
  | .add key => (.done, l.add key)
  | .touch key => (.done, l.touch key)
  | .remove key => (.flag (l.remove key).1, (l.remove key).2)
  | .evictLru => (.key l.evictLru.1, l.evictLru.2)
  | .peekLru => (.key l.peekLru, l)
  | .peekMru => (.key l.peekMru, l)
  | .has key => (.flag (l.has key), l)
  | .size => (.count l.size, l)

/-- The answers to a sequence of calls, and the list after it. -/
def LinkedLru.run (l : LinkedLru κ) : List (LruCall κ) → Option (List (LruAnswer κ) × LinkedLru κ)
  | [] => some ([], l)
  | call :: calls => do
      let r ← l.call call
      let rest ← r.2.run calls
      return (r.1 :: rest.1, rest.2)

/-- The answers of the plain list, and the list after them. -/
def LruList.run (l : LruList κ) : List (LruCall κ) → List (LruAnswer κ) × LruList κ
  | [] => ([], l)
  | call :: calls =>
      let r := l.call call
      let rest := r.2.run calls
      (r.1 :: rest.1, rest.2)

/-- The nodes spell out `xs`: from the head along `next`, from the tail along `prev`, and by the
map, which knows the node of each of the keys and of no other. -/
def LinkedLru.Spells (l : LinkedLru κ) (xs : List κ) : Prop :=
  xs.Nodup ∧ ∃ cells, cells.map Prod.snd = xs ∧ Path l.heap Cell.next l.head cells ∧
    Path l.heap Cell.prev l.tail cells.reverse ∧
    ∀ key node, l.nodes.get? key = some node ↔ (node, key) ∈ cells

variable {l : LinkedLru κ} {L : LruList κ}

theorem LinkedLru.Represents.spells (h : l.Represents L) : l.Spells L.order := by
  obtain ⟨cells, h, hL⟩ := h
  refine ⟨L.nodup, cells, hL, ?_, ?_, h.nodes⟩
  · rw [h.head]
    exact h.linked.path_next
  · rw [h.tail]
    exact h.linked.path_prev

/-- **One call** on the nodes does what it does on the plain list. -/
theorem LinkedLru.call_spec (h : l.Represents L) (call : LruCall κ) :
    ∃ l', l.call call = some ((L.call call).1, l') ∧ l'.Represents (L.call call).2 := by
  cases call with
  | add key =>
    obtain ⟨l', hadd, hl'⟩ := add_spec h key
    exact ⟨l', by rw [LinkedLru.call, hadd]; rfl, hl'⟩
  | touch key =>
    obtain ⟨l', htouch, hl'⟩ := touch_spec h key
    exact ⟨l', by rw [LinkedLru.call, htouch]; rfl, hl'⟩
  | remove key =>
    obtain ⟨l', hremove, hl'⟩ := remove_spec h key
    exact ⟨l', by rw [LinkedLru.call, hremove]; rfl, hl'⟩
  | evictLru =>
    obtain ⟨l', hevict, hl'⟩ := evictLru_spec h
    exact ⟨l', by rw [LinkedLru.call, hevict]; rfl, hl'⟩
  | peekLru => exact ⟨l, by rw [LinkedLru.call, peekLru_spec h]; rfl, h⟩
  | peekMru => exact ⟨l, by rw [LinkedLru.call, peekMru_spec h]; rfl, h⟩
  | has key => exact ⟨l, by rw [LinkedLru.call, has_spec h]; rfl, h⟩
  | size => exact ⟨l, by rw [LinkedLru.call, size_spec h]; rfl, h⟩

/-- And so does a sequence of calls. -/
theorem LinkedLru.run_spec (h : l.Represents L) (calls : List (LruCall κ)) :
    ∃ l', l.run calls = some ((L.run calls).1, l') ∧ l'.Represents (L.run calls).2 := by
  induction calls generalizing l L with
  | nil => exact ⟨l, rfl, h⟩
  | cons call calls ih =>
    obtain ⟨l₁, hcall, h₁⟩ := call_spec h call
    obtain ⟨l₂, hrun, h₂⟩ := ih h₁
    refine ⟨l₂, ?_, h₂⟩
    simp only [LinkedLru.run, LruList.run, hcall, hrun, Option.bind_eq_bind, Option.bind_some,
      Option.pure_def]

/-- **The linked list refines the plain list.** From a new list, any sequence of calls on the nodes
succeeds and returns what it returns on the plain list, and afterwards the nodes spell out the plain
list. -/
theorem linkedLru_refines (calls : List (LruCall κ)) :
    ∃ l, (LinkedLru.new : LinkedLru κ).run calls = some ((LruList.empty.run calls).1, l) ∧
      l.Spells (LruList.empty.run calls).2.order := by
  obtain ⟨l, hrun, h⟩ :=
    LinkedLru.run_spec ⟨[], LinkedLru.mirrors_new, rfl⟩ calls (L := (LruList.empty : LruList κ))
  exact ⟨l, hrun, h.spells⟩

end Calls

end DistributedCache
