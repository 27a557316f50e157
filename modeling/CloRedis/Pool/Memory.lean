import Mathlib.Data.Finmap
import CloRedis.Pool.IdleList

/-!
The nodes of an idle list in memory: a finite map from blocks to nodes, in
which `next` and `prev` are read and written. A pointer that is NULL, or that
leads to a block which is not in the map, cannot be followed. The pushes and
pops are those of a plain sequence, and they touch no node outside the list.
-/

namespace CloRedis

open Library Function

variable {α : Type*}

/-- The fields of a `ListItem`, and the object behind them in the block. -/
structure ListNode (α : Type*) where
  activeTime : Int64
  createTime : Int64
  next : Option Block
  prev : Option Block
  object : α
  deriving DecidableEq, Repr

/-- What is left of a node when its links are out of sight. -/
def ListNode.unlinked (node : ListNode α) : ListNode α :=
  { node with next := none, prev := none }

abbrev Memory (α : Type*) := Finmap fun _ : Block => ListNode α

namespace Memory

/-- The node a pointer leads to. -/
def deref (m : Memory α) : Option Block → Except Fault (ListNode α)
  | none => .error .nullPointer
  | some block =>
      match m.lookup block with
      | none => .error .useAfterDelete
      | some node => .ok node

/-- An assignment to a field of the node a pointer leads to. -/
def assign (m : Memory α) (field : ListNode α → ListNode α) :
    Option Block → Except Fault (Memory α)
  | none => .error .nullPointer
  | some block =>
      match m.lookup block with
      | none => .error .useAfterDelete
      | some node => .ok (m.insert block (field node))

def setNext (m : Memory α) (p next : Option Block) : Except Fault (Memory α) :=
  m.assign (fun node => { node with next := next }) p

def setPrev (m : Memory α) (p prev : Option Block) : Except Fault (Memory α) :=
  m.assign (fun node => { node with prev := prev }) p

def next (m : Memory α) (block : Block) : Option Block := (m.lookup block).bind ListNode.next

def prev (m : Memory α) (block : Block) : Option Block := (m.lookup block).bind ListNode.prev

variable {m m₁ m₂ : Memory α} {node : ListNode α} {block : Block} {blocks : List Block}

theorem deref_some (h : m.lookup block = some node) : m.deref (some block) = .ok node := by
  simp only [deref, h]

theorem assign_some (h : m.lookup block = some node) (field : ListNode α → ListNode α) :
    m.assign field (some block) = .ok (m.insert block (field node)) := by
  simp only [assign, h]

/-- From `m` to `m₁` only links changed, and only those of `blocks`. -/
structure Relinked (m : Memory α) (blocks : List Block) (m₁ : Memory α) : Prop where
  others : ∀ b, b ∉ blocks → m₁.lookup b = m.lookup b
  contents : ∀ b, (m₁.lookup b).map ListNode.unlinked = (m.lookup b).map ListNode.unlinked

theorem Relinked.refl (m : Memory α) (blocks : List Block) : m.Relinked blocks m :=
  ⟨fun _ _ => rfl, fun _ => rfl⟩

theorem Relinked.trans (h : m.Relinked blocks m₁) (h' : m₁.Relinked blocks m₂) :
    m.Relinked blocks m₂ :=
  ⟨fun b hb => (h'.others b hb).trans (h.others b hb),
    fun b => (h'.contents b).trans (h.contents b)⟩

theorem Relinked.mono {more : List Block} (h : m.Relinked blocks m₁) (hsub : blocks ⊆ more) :
    m.Relinked more m₁ :=
  ⟨fun b hb => h.others b fun hmem => hb (hsub hmem), h.contents⟩

theorem Relinked.mem_iff (h : m.Relinked blocks m₁) (b : Block) : b ∈ m₁ ↔ b ∈ m := by
  have hcontents := congrArg Option.isSome (h.contents b)
  rw [Option.isSome_map, Option.isSome_map] at hcontents
  rw [← Finmap.lookup_isSome, ← Finmap.lookup_isSome, hcontents]

/-- A link of every node after an assignment to one of them. -/
theorem bind_insert (m : Memory α) (block : Block) (node : ListNode α)
    (link : ListNode α → Option Block) :
    (fun b => ((m.insert block node).lookup b).bind link) =
      update (fun b => (m.lookup b).bind link) block (link node) := by
  funext b
  by_cases hb : b = block
  · subst hb
    rw [Finmap.lookup_insert, update_self]
    rfl
  · rw [Finmap.lookup_insert_of_ne _ hb, update_of_ne hb]

theorem next_insert (m : Memory α) (block : Block) (node : ListNode α) :
    next (m.insert block node) = update m.next block node.next :=
  bind_insert m block node ListNode.next

theorem prev_insert (m : Memory α) (block : Block) (node : ListNode α) :
    prev (m.insert block node) = update m.prev block node.prev :=
  bind_insert m block node ListNode.prev

theorem relinked_insert {node' : ListNode α} (h : m.lookup block = some node)
    (hsame : node'.unlinked = node.unlinked) (hmem : block ∈ blocks) :
    m.Relinked blocks (m.insert block node') := by
  constructor
  · intro b hb
    exact Finmap.lookup_insert_of_ne _ fun heq => hb (heq ▸ hmem)
  · intro b
    by_cases hb : b = block
    · subst hb
      rw [Finmap.lookup_insert, h, Option.map_some, Option.map_some, hsame]
    · rw [Finmap.lookup_insert_of_ne _ hb]

theorem setNext_ok (h : block ∈ m) (hmem : block ∈ blocks) (x : Option Block) :
    ∃ m₁, m.setNext (some block) x = .ok m₁ ∧ m₁.next = update m.next block x ∧
      m₁.prev = m.prev ∧ m.Relinked blocks m₁ := by
  obtain ⟨node, hnode⟩ := Finmap.mem_iff.mp h
  refine ⟨_, assign_some hnode _, next_insert .., ?_, relinked_insert hnode rfl hmem⟩
  have hprev : m.prev block = node.prev := by rw [prev, hnode, Option.bind_some]
  rw [prev_insert, ← hprev]
  exact update_eq_self block m.prev

theorem setPrev_ok (h : block ∈ m) (hmem : block ∈ blocks) (x : Option Block) :
    ∃ m₁, m.setPrev (some block) x = .ok m₁ ∧ m₁.next = m.next ∧
      m₁.prev = update m.prev block x ∧ m.Relinked blocks m₁ := by
  obtain ⟨node, hnode⟩ := Finmap.mem_iff.mp h
  refine ⟨_, assign_some hnode _, ?_, prev_insert .., relinked_insert hnode rfl hmem⟩
  have hnext : m.next block = node.next := by rw [next, hnode, Option.bind_some]
  rw [next_insert, ← hnext]
  exact update_eq_self block m.next

/-- Following a link from a pointer visits these nodes and ends at NULL. -/
def Visits (m : Memory α) (link : ListNode α → Option Block) : Option Block → List Block → Prop
  | p, [] => p = none
  | p, block :: rest => p = some block ∧ ∃ node, m.lookup block = some node ∧
      Visits m link (link node) rest

theorem visits_of_follows {link : ListNode α → Option Block} {p : Option Block}
    (h : Follows (fun b => (m.lookup b).bind link) blocks) (hfirst : p = blocks.head?)
    (hmem : ∀ b ∈ blocks, b ∈ m) : m.Visits link p blocks := by
  induction blocks generalizing p with
  | nil => exact hfirst
  | cons block rest ih =>
      obtain ⟨hblock, hrest⟩ := List.forall_mem_cons.mp hmem
      obtain ⟨node, hnode⟩ := Finmap.mem_iff.mp hblock
      refine ⟨hfirst, node, hnode, ih h.2 ?_ hrest⟩
      have hlink := h.1
      dsimp only at hlink
      rw [hnode, Option.bind_some] at hlink
      exact hlink

end Memory

/-- An `IdleList` and the memory its nodes are in. -/
structure IdleNodes (α : Type*) where
  nodes : Memory α := ∅
  count : Int := 0
  front : Option Block := none
  back : Option Block := none

namespace IdleNodes

def pushFront (l : IdleNodes α) (item : Block) : Except Fault (IdleNodes α) := do
  let nodes ← l.nodes.setNext (some item) l.front
  let nodes ← nodes.setPrev (some item) none
  if l.count = 0 then
    .ok { nodes := nodes, count := l.count + 1, front := some item, back := some item }
  else
    let nodes ← nodes.setPrev l.front (some item)
    .ok { nodes := nodes, count := l.count + 1, front := some item, back := l.back }

/-- `item->next = NULL; item->prev = NULL;` -/
def unlink (l : IdleNodes α) (item : Option Block) : Except Fault (IdleNodes α) := do
  let nodes ← l.nodes.setNext item none
  let nodes ← nodes.setPrev item none
  .ok { l with nodes := nodes }

def popFront (l : IdleNodes α) : Except Fault (IdleNodes α) :=
  if l.count = 0 then .ok l
  else if l.count - 1 = 0 then
    unlink { nodes := l.nodes, count := l.count - 1, front := none, back := none } l.front
  else do
    let item ← l.nodes.deref l.front
    let nodes ← l.nodes.setPrev item.next none
    unlink { nodes := nodes, count := l.count - 1, front := item.next, back := l.back } l.front

def popBack (l : IdleNodes α) : Except Fault (IdleNodes α) :=
  if l.count = 0 then .ok l
  else if l.count - 1 = 0 then
    unlink { nodes := l.nodes, count := l.count - 1, front := none, back := none } l.back
  else do
    let item ← l.nodes.deref l.back
    let nodes ← l.nodes.setNext item.prev none
    unlink { nodes := nodes, count := l.count - 1, front := l.front, back := item.prev } l.back

/-- The list with the links as functions. -/
def links (l : IdleNodes α) : IdleList where
  count := l.count
  front := l.front
  back := l.back
  next := l.nodes.next
  prev := l.nodes.prev

/-- The list consists of these nodes, front first, and all are in memory. -/
structure Holds (l : IdleNodes α) (items : List Block) : Prop where
  links : l.links.Holds items
  mem : ∀ b ∈ items, b ∈ l.nodes

/-- What an operation on a list that consists of `items` does besides: it
changes links only, and only those of nodes in the list. -/
structure Effect (l l' : IdleNodes α) (items items' : List Block) : Prop where
  holds : l'.Holds items'
  relinked : l.nodes.Relinked (items ++ items') l'.nodes
  unlinked : ∀ b ∈ items, b ∉ items' → l'.nodes.next b = none ∧ l'.nodes.prev b = none

variable {l : IdleNodes α} {items : List Block} {item : Block}

theorem Holds.over (m : Memory α) : Holds { nodes := m } [] :=
  ⟨⟨rfl, rfl, rfl, Doubly.nil _ _⟩, fun _ hb => absurd hb List.not_mem_nil⟩

/-- A write to a node that is not in the list. -/
theorem Holds.insert (h : l.Holds items) (hitem : item ∉ items) (node : ListNode α) :
    Holds { l with nodes := l.nodes.insert item node } items := by
  have hlookup : ∀ b ∈ items, (l.nodes.insert item node).lookup b = l.nodes.lookup b :=
    fun b hb => Finmap.lookup_insert_of_ne _ fun heq => hitem (heq ▸ hb)
  refine ⟨⟨h.links.count, h.links.front, h.links.back, h.links.links.congr ?_ ?_⟩, ?_⟩
  · intro b hb
    exact congrArg (Option.bind · ListNode.next) (hlookup b hb)
  · intro b hb
    exact congrArg (Option.bind · ListNode.prev) (hlookup b hb)
  · intro b hb
    exact Finmap.mem_insert.mpr (Or.inr (h.mem b hb))

/-- The effect of an operation from what it does to the links as functions. -/
theorem effect_of_links {l' : IdleNodes α} {k : IdleList} {items' : List Block}
    {r : Except Fault IdleList} (hlinks : r = .ok k) (hholds : k.Holds items')
    (hl' : r = .ok l'.links) (hmem : ∀ b ∈ items', b ∈ l.nodes)
    (hrel : l.nodes.Relinked (items ++ items') l'.nodes)
    (hgone : ∀ b ∈ items, b ∉ items' → l'.nodes.next b = none ∧ l'.nodes.prev b = none) :
    Effect l l' items items' := by
  rw [hlinks, Except.ok.injEq] at hl'
  subst hl'
  exact ⟨⟨hholds, fun b hb => (hrel.mem_iff b).mpr (hmem b hb)⟩, hrel, hgone⟩

theorem pushFront_effect (h : l.Holds items) (hmem : item ∈ l.nodes) (hnew : item ∉ items) :
    ∃ l', l.pushFront item = .ok l' ∧ Effect l l' items (item :: items) := by
  obtain ⟨k, hlinks, hholds⟩ := IdleList.pushFront_holds h.links hnew
  have hall : ∀ b ∈ item :: items, b ∈ l.nodes := List.forall_mem_cons.mpr ⟨hmem, h.mem⟩
  have hkept : ∀ b ∈ items, b ∉ item :: items → False :=
    fun b hb hgone => hgone (List.mem_cons_of_mem _ hb)
  have hitem : item ∈ items ++ item :: items := by simp
  obtain ⟨m₁, hset₁, hnext₁, hprev₁, hrel₁⟩ := Memory.setNext_ok hmem hitem l.front
  have hmem₁ : item ∈ m₁ := (hrel₁.mem_iff item).mpr hmem
  obtain ⟨m₂, hset₂, hnext₂, hprev₂, hrel₂⟩ := Memory.setPrev_ok hmem₁ hitem none
  have hrel := hrel₁.trans hrel₂
  unfold pushFront
  rw [hset₁, ok_do, hset₂, ok_do]
  by_cases hzero : l.count = 0
  · rw [if_pos hzero]
    refine ⟨_, rfl, effect_of_links hlinks hholds ?_ hall hrel fun b hb h => (hkept b hb h).elim⟩
    unfold IdleList.pushFront links
    dsimp only
    rw [if_pos hzero, hnext₂, hprev₂, hnext₁, hprev₁]
  · rw [if_neg hzero]
    cases items with
    | nil => exact absurd h.links.count hzero
    | cons first items =>
        have hfront : l.front = some first := h.links.front
        have hfirst : first ∈ m₂ := (hrel.mem_iff first).mpr (h.mem first (List.mem_cons_self ..))
        obtain ⟨m₃, hset₃, hnext₃, hprev₃, hrel₃⟩ :=
          Memory.setPrev_ok hfirst (List.mem_append_left _ (List.mem_cons_self ..)) (some item)
        rw [hfront, hset₃, ok_do]
        refine ⟨_, rfl, effect_of_links hlinks hholds ?_ hall (hrel.trans hrel₃)
          fun b hb h => (hkept b hb h).elim⟩
        unfold IdleList.pushFront links
        dsimp only
        rw [if_neg hzero, hfront, hnext₃, hprev₃, hnext₂, hprev₂, hnext₁, hprev₁, hfront]

/-- Both pops end by unlinking the node that left. -/
theorem unlink_effect {l₀ : IdleNodes α} {k : IdleList} {items' : List Block}
    {r : Except Fault IdleList} (hlinks : r = .ok k) (hholds : k.Holds items')
    (hr : r = .ok (l₀.links.unlink item)) (hrel₀ : l.nodes.Relinked items l₀.nodes)
    (hmem : ∀ b ∈ items, b ∈ l.nodes) (hsub : items' ⊆ items) (hitem : item ∈ items)
    (honly : ∀ b ∈ items, b ∉ items' → b = item) :
    ∃ l', l₀.unlink (some item) = .ok l' ∧ Effect l l' items items' := by
  have hmem₀ : item ∈ l₀.nodes := (hrel₀.mem_iff item).mpr (hmem item hitem)
  obtain ⟨m₁, hset₁, hnext₁, hprev₁, hrel₁⟩ := Memory.setNext_ok hmem₀ hitem none
  have hmem₁ : item ∈ m₁ := (hrel₁.mem_iff item).mpr hmem₀
  obtain ⟨m₂, hset₂, hnext₂, hprev₂, hrel₂⟩ := Memory.setPrev_ok hmem₁ hitem none
  have hrel := (hrel₀.trans hrel₁).trans hrel₂
  unfold unlink
  rw [hset₁, ok_do, hset₂, ok_do]
  refine ⟨_, rfl, effect_of_links hlinks hholds ?_ (fun b hb => hmem b (hsub hb))
    (hrel.mono (List.subset_append_left _ _)) ?_⟩
  · rw [hr]
    unfold IdleList.unlink links
    dsimp only
    rw [hnext₂, hprev₂, hnext₁, hprev₁]
  · intro b hb hgone
    obtain rfl := honly b hb hgone
    dsimp only
    rw [hnext₂, hprev₂, hnext₁, hprev₁]
    exact ⟨update_self .., update_self ..⟩

theorem popFront_effect (h : l.Holds items) :
    ∃ l', l.popFront = .ok l' ∧ Effect l l' items items.tail := by
  obtain ⟨k, hlinks, hholds⟩ := IdleList.popFront_holds h.links
  have hcount : l.count = items.length := h.links.count
  unfold popFront
  match items with
  | [] =>
      have hzero : l.count = 0 := hcount
      rw [if_pos hzero]
      exact ⟨l, rfl, h, .refl _ _, fun b hb => absurd hb List.not_mem_nil⟩
  | [first] =>
      have hone : l.count = 1 := hcount
      have hfront : l.front = some first := h.links.front
      rw [hone, hfront]
      refine unlink_effect hlinks hholds ?_ (.refl _ _) h.mem (List.nil_subset _)
        (List.mem_singleton_self _) fun b hb _ => List.mem_singleton.mp hb
      unfold IdleList.popFront links
      dsimp only
      rw [hone, hfront]
      rfl
  | first :: second :: items =>
      have hfront : l.front = some first := h.links.front
      simp only [List.length_cons] at hcount
      have hpos : l.count ≠ 0 := by omega
      have hmore : l.count - 1 ≠ 0 := by omega
      have hfirst : first ∈ first :: second :: items := List.mem_cons_self ..
      have hsecond : second ∈ first :: second :: items := by simp
      have hlink : l.nodes.next first = some second := h.links.links.forth.1
      obtain ⟨node, hnode⟩ := Finmap.mem_iff.mp (h.mem first hfirst)
      have hnext : node.next = some second := by
        rwa [Memory.next, hnode, Option.bind_some] at hlink
      obtain ⟨m₁, hset₁, hnext₁, hprev₁, hrel₁⟩ :=
        Memory.setPrev_ok (h.mem second hsecond) hsecond none
      have hpop : l.links.popFront = .ok
          ((⟨m₁, l.count - 1, some second, l.back⟩ : IdleNodes α).links.unlink first) := by
        unfold IdleList.popFront links
        dsimp only
        rw [if_neg hpos, hfront]
        dsimp only
        rw [if_neg hmore, hlink, hnext₁, hprev₁]
      have honly : ∀ b ∈ first :: second :: items, b ∉ second :: items → b = first :=
        fun b hb hgone => (List.mem_cons.mp hb).resolve_right hgone
      rw [if_neg hpos, if_neg hmore, hfront, Memory.deref_some hnode, ok_do, hnext, hset₁, ok_do]
      exact unlink_effect hlinks hholds hpop hrel₁ h.mem (List.subset_cons_self _ _) hfirst honly

theorem popBack_effect (h : l.Holds items) :
    ∃ l', l.popBack = .ok l' ∧ Effect l l' items items.dropLast := by
  obtain ⟨k, hlinks, hholds⟩ := IdleList.popBack_holds h.links
  -- the cases are those of the list read from the back
  obtain ⟨reversed, rfl⟩ : ∃ reversed : List Block, items = reversed.reverse :=
    ⟨items.reverse, (List.reverse_reverse items).symm⟩
  have hcount : l.count = reversed.reverse.length := h.links.count
  have hback : l.back = reversed.reverse.getLast? := h.links.back
  rw [List.length_reverse] at hcount
  rw [List.getLast?_reverse] at hback
  unfold popBack
  match reversed with
  | [] =>
      have hzero : l.count = 0 := hcount
      rw [if_pos hzero]
      exact ⟨l, rfl, h, .refl _ _, fun b hb => absurd hb List.not_mem_nil⟩
  | [last] =>
      have hone : l.count = 1 := hcount
      have hlast : l.back = some last := hback
      rw [hone, hlast]
      refine unlink_effect hlinks hholds ?_ (.refl _ _) h.mem (List.nil_subset _)
        (List.mem_singleton_self _) fun b hb _ => List.mem_singleton.mp hb
      unfold IdleList.popBack links
      dsimp only
      rw [hone, hlast]
      rfl
  | last :: second :: rest =>
      have hlast : l.back = some last := hback
      simp only [List.length_cons] at hcount
      have hpos : l.count ≠ 0 := by omega
      have hmore : l.count - 1 ≠ 0 := by omega
      have hmem : last ∈ (last :: second :: rest).reverse := by simp
      have hsecond : second ∈ (last :: second :: rest).reverse := by simp
      have hlink : l.nodes.prev last = some second := by
        have hfollows := h.links.links.back
        rw [List.reverse_reverse] at hfollows
        exact hfollows.1
      obtain ⟨node, hnode⟩ := Finmap.mem_iff.mp (h.mem last hmem)
      have hprev : node.prev = some second := by
        rwa [Memory.prev, hnode, Option.bind_some] at hlink
      obtain ⟨m₁, hset₁, hnext₁, hprev₁, hrel₁⟩ :=
        Memory.setNext_ok (h.mem second hsecond) hsecond none
      have hpop : l.links.popBack = .ok
          ((⟨m₁, l.count - 1, l.front, some second⟩ : IdleNodes α).links.unlink last) := by
        unfold IdleList.popBack links
        dsimp only
        rw [if_neg hpos, hlast]
        dsimp only
        rw [if_neg hmore, hlink, hnext₁, hprev₁]
      have honly : ∀ b ∈ (last :: second :: rest).reverse,
          b ∉ (last :: second :: rest).reverse.dropLast → b = last := by
        intro b hb hgone
        rw [List.reverse_cons, List.dropLast_concat, List.mem_reverse] at hgone
        exact (List.mem_cons.mp (List.mem_reverse.mp hb)).resolve_right hgone
      rw [if_neg hpos, if_neg hmore, hlast, Memory.deref_some hnode, ok_do, hprev, hset₁, ok_do]
      exact unlink_effect hlinks hholds hpop hrel₁ h.mem (List.dropLast_subset _) hmem honly

/-! ### The plain sequence -/

def step (l : IdleNodes α) : IdleList.Op → Except Fault (IdleNodes α)
  | .pushFront item => l.pushFront item
  | .popFront => l.popFront
  | .popBack => l.popBack

/-- The operations on a plain sequence. A node may be pushed that is in memory
and not in the list. -/
def plainStep (m : Memory α) (items : List Block) : IdleList.Op → Except Disabled (List Block)
  | .pushFront item => if item ∈ m ∧ item ∉ items then .ok (item :: items) else .error .elsewhere
  | .popFront => .ok items.tail
  | .popBack => .ok items.dropLast

theorem step_effect {op : IdleList.Op} {items' : List Block} (h : l.Holds items)
    (hplain : plainStep l.nodes items op = .ok items') :
    ∃ l', l.step op = .ok l' ∧ Effect l l' items items' := by
  cases op with
  | pushFront item =>
      by_cases hallowed : item ∈ l.nodes ∧ item ∉ items
      · simp only [plainStep, if_pos hallowed, Except.ok.injEq] at hplain
        subst hplain
        exact pushFront_effect h hallowed.1 hallowed.2
      · simp only [plainStep, if_neg hallowed] at hplain
        cases hplain
  | popFront =>
      cases hplain
      exact popFront_effect h
  | popBack =>
      cases hplain
      exact popBack_effect h

/-- Which nodes may be pushed depends on the blocks of the memory alone. -/
theorem plainStep_congr {m m' : Memory α} (hmem : ∀ b, b ∈ m' ↔ b ∈ m) :
    plainStep m' = plainStep m := by
  funext items op
  cases op with
  | pushFront item => simp only [plainStep, hmem]
  | _ => rfl

theorem run_holds {ops : List IdleList.Op} {items' : List Block} (h : l.Holds items)
    (hplain : run (plainStep l.nodes) items ops = .ok items') :
    ∃ l', run step l ops = .ok l' ∧ l'.Holds items' ∧ ∀ b, b ∈ l'.nodes ↔ b ∈ l.nodes := by
  induction ops generalizing l items with
  | nil =>
      cases hplain
      exact ⟨l, rfl, h, fun _ => Iff.rfl⟩
  | cons op ops ih =>
      obtain ⟨items₁, hop, hrest⟩ := run_cons_ok.mp hplain
      obtain ⟨l₁, hstep, heffect⟩ := step_effect h hop
      have hmem := heffect.relinked.mem_iff
      rw [← plainStep_congr hmem] at hrest
      obtain ⟨l', hrun, hholds, hmem'⟩ := ih heffect.holds hrest
      exact ⟨l', run_cons_ok.mpr ⟨l₁, hstep, hrun⟩, hholds,
        fun b => (hmem' b).trans (hmem b)⟩

/-- The list represents a plain sequence of nodes. -/
structure Represents (l : IdleNodes α) (items : List Block) : Prop where
  forth : l.nodes.Visits ListNode.next l.front items
  back : l.nodes.Visits ListNode.prev l.back items.reverse
  count : l.count = items.length
  front_null : l.front = none ↔ items = []
  back_null : l.back = none ↔ items = []
  nodup : items.Nodup

theorem Holds.represents (h : l.Holds items) : l.Represents items where
  forth := Memory.visits_of_follows h.links.links.forth h.links.front h.mem
  back := by
    have hlast : l.back = items.reverse.head? := by
      rw [List.head?_reverse]
      exact h.links.back
    exact Memory.visits_of_follows h.links.links.back hlast
      fun b hb => h.mem b (List.mem_reverse.mp hb)
  count := h.links.count
  front_null := by
    have hfront : l.front = items.head? := h.links.front
    rw [hfront, List.head?_eq_none_iff]
  back_null := by
    have hback : l.back = items.getLast? := h.links.back
    rw [hback, List.getLast?_eq_none_iff]
  nodup := h.links.links.nodup

theorem step_empty {op : IdleList.Op} {l' : IdleNodes α} (h : l.Holds [])
    (hpop : op = .popFront ∨ op = .popBack) (hstep : l.step op = .ok l') : l' = l := by
  have hzero : l.count = 0 := h.links.count
  rcases hpop with rfl | rfl
  · simp only [step, popFront, if_pos hzero, Except.ok.injEq] at hstep
    exact hstep.symm
  · simp only [step, popBack, if_pos hzero, Except.ok.injEq] at hstep
    exact hstep.symm

/-- Every sequence of pushes and pops follows only pointers to nodes in memory,
and the list represents what the same operations make of a plain sequence. Each
of them leaves a popped node with no links and the nodes outside the list as
they were; a pop of the empty list leaves everything as it was. -/
theorem represents_plain_sequence {m : Memory α} {ops : List IdleList.Op} {items : List Block}
    (hplain : run (plainStep m) [] ops = .ok items) :
    ∃ l, run step { nodes := m } ops = .ok l ∧ l.Represents items ∧
      ∀ op items', plainStep m items op = .ok items' →
        ∃ l', l.step op = .ok l' ∧ l'.Represents items' ∧
          (∀ b ∈ items, b ∉ items' →
            ∃ node, l'.nodes.lookup b = some node ∧ node.next = none ∧ node.prev = none) ∧
          (∀ b, b ∉ items → b ∉ items' → l'.nodes.lookup b = l.nodes.lookup b) ∧
          (items = [] → op = .popFront ∨ op = .popBack → l' = l) := by
  obtain ⟨l, hrun, hholds, hmem⟩ := run_holds (Holds.over m) hplain
  refine ⟨l, hrun, hholds.represents, ?_⟩
  intro op items' hop
  have hmem' : ∀ b, b ∈ l.nodes ↔ b ∈ m := hmem
  rw [← plainStep_congr hmem'] at hop
  obtain ⟨l', hstep, heffect⟩ := step_effect hholds hop
  refine ⟨l', hstep, heffect.holds.represents, ?_, ?_, ?_⟩
  · intro b hb hgone
    have hpresent : b ∈ l'.nodes := (heffect.relinked.mem_iff b).mpr (hholds.mem b hb)
    obtain ⟨node, hnode⟩ := Finmap.mem_iff.mp hpresent
    obtain ⟨hnext, hprev⟩ := heffect.unlinked b hb hgone
    rw [Memory.next, hnode, Option.bind_some] at hnext
    rw [Memory.prev, hnode, Option.bind_some] at hprev
    exact ⟨node, hnode, hnext, hprev⟩
  · intro b hb hb'
    apply heffect.relinked.others
    intro hmem
    exact (List.mem_append.mp hmem).elim hb hb'
  · rintro rfl hpop
    exact step_empty hholds hpop hstep

/-- Three nodes whose links lead anywhere. -/
def threeNodes : Memory Unit :=
  ((∅ : Memory Unit).insert 0 ⟨0, 0, some 7, some 1, ()⟩).insert 1 ⟨0, 0, some 1, none, ()⟩
    |>.insert 2 ⟨0, 0, none, some 9, ()⟩

theorem represents_plain_sequence_of_three :
    ∃ l, run step { nodes := threeNodes } [.pushFront 0, .pushFront 1, .pushFront 2, .popBack] =
        .ok l ∧ l.Represents [2, 1] := by
  have hplain : run (plainStep threeNodes) []
      [.pushFront 0, .pushFront 1, .pushFront 2, .popBack] = .ok [2, 1] := rfl
  obtain ⟨l, hrun, hholds, _⟩ := represents_plain_sequence hplain
  exact ⟨l, hrun, hholds⟩

end IdleNodes

end CloRedis
