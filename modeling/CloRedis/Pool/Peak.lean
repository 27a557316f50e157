import CloRedis.Pool.Ownership

/-!
The memory of a pool that one thread uses. A block is taken from `malloc` only
when none is free, that is when every block is a connection, and every way a
connection dies gives its block back; so the number of blocks is the greatest
number of connections there were at a time.
-/

namespace CloRedis

open Library

variable {α : Type*}

/-- A pool and the one thread that uses it. -/
abbrev Solo (α : Type*) := ConnectionPool α × Thread α

def Solo.step (o : ConnectionPoolOption) (s : Solo α) (label : Label α) :
    Except Disabled (Solo α) :=
  Thread.step o label s.1 s.2

/-- A step changes the number of blocks by what it changes in the four places
a block can be in. -/
theorem Thread.step_blocks {o : ConnectionPoolOption} {label : Label α}
    {p p' : ConnectionPool α} {t t' : Thread α} (h : t.step o label p = .ok (p', t')) :
    p'.idle.length + p'.memPool.length + t'.held.length + t'.pc.blocks.length + p.mallocs =
      p.idle.length + p.memPool.length + t.held.length + t.pc.blocks.length + p'.mallocs := by
  have hmoves := step_moves h
  obtain ⟨pc, held⟩ := t
  obtain ⟨pc', held'⟩ := t'
  dsimp only at hmoves ⊢
  cases hmoves with
  | callPut item rest next hperm hnext =>
      have hlen := hperm.length_eq
      rcases hnext with rfl | rfl <;>
        simp only [Pc.blocks, List.length_cons, List.length_nil] at hlen ⊢ <;> omega
  | admitted next _ hnext =>
      rcases hnext with rfl | rfl <;> rfl
  | expired front item now hidle _ =>
      simp only [Pc.blocks, hidle, List.length_append, List.length_cons, List.length_nil]
      omega
  | usable item behind now hidle _ =>
      simp only [Pc.blocks, hidle, List.length_cons, List.length_nil]
      omega
  | overage item behind now hidle _ =>
      simp only [Pc.blocks, hidle, List.length_cons, List.length_nil]
      omega
  | recycled block rest hpool =>
      simp only [Pc.blocks, hpool, List.length_cons, List.length_nil]
      omega
  | allocated =>
      simp only [Pc.blocks, List.length_cons, List.length_nil]
      omega
  | ready block active create object =>
      simp only [Pc.blocks, ConnectionPool.construct, List.length_cons, List.length_nil]
      omega
  | recycles item next =>
      simp only [Pc.blocks, ConnectionPool.recycle, List.length_cons, List.length_nil]
      omega
  | uncounted next =>
      rw [After.blocks_pc]
      rfl
  | pushed item =>
      simp only [Pc.blocks, ConnectionPool.pushFront, List.length_cons, List.length_nil]
      omega
  | evicted item kept last hsplit _ =>
      have hlen := congrArg List.length hsplit
      simp only [Pc.blocks, List.length_cons, List.length_append, List.length_nil] at hlen ⊢
      omega
  | _ => rfl

namespace Solo

/-- The books of one thread: where the blocks are, what the counter counts, and
that `k` is the number of blocks, but for one that was just obtained. -/
structure Peaked (s : Solo α) (k : ℤ) : Prop where
  blocks : s.1.mallocs =
    s.1.idle.length + s.1.memPool.length + s.2.held.length + s.2.pc.blocks.length
  counted : s.1.activeCnt = s.1.idle.length + (s.2.held.length + s.2.pc.counted : Nat)
  dry : s.2.pc = .malloc → s.1.memPool = []
  filled : ∀ next, s.2.pc = .countDown next → s.1.memPool ≠ []
  peak : k = s.1.mallocs ∨
    (∃ block, s.2.pc = .countUp block) ∧ s.1.memPool = [] ∧ k + 1 = s.1.mallocs

theorem Peaked.new : Peaked (({}, {}) : Solo α) 0 where
  blocks := rfl
  counted := rfl
  dry := fun _ => rfl
  filled := by
    intro next hpc
    cases hpc
  peak := Or.inl rfl

/-- The counter counts blocks. -/
theorem active_le {s : Solo α}
    (hblocks : s.1.mallocs =
      s.1.idle.length + s.1.memPool.length + s.2.held.length + s.2.pc.blocks.length)
    (hcounted : s.1.activeCnt = s.1.idle.length + (s.2.held.length + s.2.pc.counted : Nat))
    (hfilled : ∀ next, s.2.pc = .countDown next → s.1.memPool ≠ []) :
    s.1.activeCnt ≤ s.1.mallocs := by
  have hcalls : s.2.pc.counted ≤ s.1.memPool.length + s.2.pc.blocks.length := by
    cases hpc : s.2.pc with
    | countDown next =>
        have hpool := List.length_pos_iff.mpr (hfilled next hpc)
        simp only [Pc.counted]
        omega
    | _ => simp [Pc.counted, Pc.blocks]
  omega

/-- Only the step behind a successful `malloc` adds a block. -/
theorem moves_mallocs {o : ConnectionPoolOption} {p p' : ConnectionPool α}
    {held held' : List (ListItem α)} {pc pc' : Pc α} (h : Thread.Moves o p held pc p' pc' held') :
    p'.mallocs = p.mallocs ∨ pc = .malloc ∧ (∃ block, pc' = .countUp block) ∧
      p'.memPool = p.memPool ∧ p'.activeCnt = p.activeCnt ∧ p'.mallocs = p.mallocs + 1 := by
  cases h with
  | allocated => exact Or.inr ⟨rfl, ⟨_, rfl⟩, rfl, rfl, rfl⟩
  | _ => exact Or.inl rfl

theorem moves_dry {o : ConnectionPoolOption} {p p' : ConnectionPool α}
    {held held' : List (ListItem α)} {pc : Pc α} (h : Thread.Moves o p held pc p' .malloc held') :
    p'.memPool = [] := by
  generalize hpc' : Pc.malloc = pc' at h
  cases h with
  | noneRecycled hpool => exact hpool
  | callPut item rest next _ hnext => rcases hnext with rfl | rfl <;> cases hpc'
  | admitted next _ hnext => rcases hnext with rfl | rfl <;> cases hpc'
  | uncounted next => cases next <;> cases hpc'
  | _ => cases hpc'

theorem moves_filled {o : ConnectionPoolOption} {p p' : ConnectionPool α}
    {held held' : List (ListItem α)} {pc : Pc α} {next : After}
    (h : Thread.Moves o p held pc p' (.countDown next) held') : p'.memPool ≠ [] := by
  generalize hpc' : Pc.countDown next = pc' at h
  cases h with
  | recycles item next => exact List.cons_ne_nil _ _
  | callPut item rest next _ hnext => rcases hnext with rfl | rfl <;> cases hpc'
  | admitted next _ hnext => rcases hnext with rfl | rfl <;> cases hpc'
  | uncounted next => cases next <;> cases hpc'
  | _ => cases hpc'

theorem Peaked.step {o : ConnectionPoolOption} {s s' : Solo α} {k : ℤ} {label : Label α}
    (h : Peaked s k) (hstep : s.step o label = .ok s') : Peaked s' (max k s'.1.activeCnt) := by
  obtain ⟨p, pc, held⟩ := s
  obtain ⟨p', pc', held'⟩ := s'
  have hmoves : Thread.Moves o p held pc p' pc' held' := Thread.step_moves hstep
  have hblocks : p'.mallocs =
      p'.idle.length + p'.memPool.length + held'.length + pc'.blocks.length := by
    have hold := h.blocks
    have hchange := Thread.step_blocks hstep
    dsimp only at hold hchange
    omega
  have hcounted : p'.activeCnt = p'.idle.length + (held'.length + pc'.counted : Nat) := by
    have hold := h.counted
    have hchange := Thread.step_counted hstep
    dsimp only at hold hchange
    omega
  have hfilled : ∀ next, pc' = .countDown next → p'.memPool ≠ [] := by
    rintro next rfl
    exact moves_filled hmoves
  have hdry : pc' = .malloc → p'.memPool = [] := by
    rintro rfl
    exact moves_dry hmoves
  refine ⟨hblocks, hcounted, hdry, hfilled, ?_⟩
  have hactive : p'.activeCnt ≤ p'.mallocs := active_le (s := (p', ⟨pc', held'⟩)) hblocks hcounted
    hfilled
  have hbefore : p.activeCnt ≤ p.mallocs := active_le h.blocks h.counted h.filled
  dsimp only
  rcases h.peak with hk | ⟨⟨block, hpc⟩, hpool, hk⟩
  · dsimp only at hk
    rcases moves_mallocs hmoves with hsame | ⟨hpc, hnext, hkept, hcnt, hmore⟩
    · left
      omega
    · right
      have hdrained := h.dry hpc
      refine ⟨hnext, hkept.trans hdrained, ?_⟩
      omega
  · -- the new block is counted, and every block is a connection now
    dsimp only at hpc hpool hk
    subst hpc
    left
    cases hmoves with
    | counted block =>
        have hold := h.blocks
        rw [hpool] at hold
        simp only [Pc.blocks, List.length_nil, List.length_cons] at hold
        simp only [ConnectionPool.countUp, Pc.counted] at hcounted ⊢
        omega

theorem peaked {o : ConnectionPoolOption} {s : Solo α} {labels : List (Label α)}
    (hrun : run (Solo.step o) ({}, {}) labels = .ok s) :
    Peaked s (highest (Solo.step o) (fun s => s.1.activeCnt) ({}, {}) labels) := by
  have hstart := le_highest (Solo.step o) (fun s : Solo α => s.1.activeCnt) ({}, {}) labels
  have hpeaked :
      Peaked s (max 0 (highest (Solo.step o) (fun s => s.1.activeCnt) ({}, {}) labels)) :=
    highest_invariant (fun _ _ _ _ hs hstep => Peaked.step hs hstep) Peaked.new (le_refl _) hrun
  rwa [max_eq_right hstart] at hpeaked

/-- Between calls the books close. -/
theorem Peaked.ready {s : Solo α} {k : ℤ} (h : Peaked s k) (hready : s.2.pc = .ready) :
    s.1.mallocs = s.1.idle.length + s.2.held.length + s.1.memPool.length ∧
      (s.1.mallocs : ℤ) = k ∧ s.1.activeCnt = s.1.idle.length + s.2.held.length := by
  have hblocks := h.blocks
  have hcounted := h.counted
  rw [hready] at hblocks hcounted
  simp only [Pc.blocks, Pc.counted, List.length_nil] at hblocks hcounted
  refine ⟨by omega, ?_, by omega⟩
  rcases h.peak with hk | ⟨⟨block, hpc⟩, _⟩
  · exact hk.symm
  · rw [hready] at hpc
    cases hpc

/-! ### Calls whose init handler fails -/

/-- Labels of the parts of a `Get` in front of the init handler. -/
def Inner : Label α → Prop
  | .next | .read _ | .malloc _ => True
  | _ => False

/-- A `Get` that runs the init handler and is told that it failed. -/
def FailedGet (o : ConnectionPoolOption) (s s' : Solo α) : Prop :=
  ∃ before active create object, (∀ label ∈ before, Inner label) ∧
    run (Solo.step o) s (.callGet :: before ++ [.init active create false object, .next, .next]) =
      .ok s'

/-- `Get` is in one of its loops, or in front of them. -/
def Looking : Pc α → Prop
  | .admission | .sweep | .scan => True
  | .recycle _ .sweep | .recycle _ .scan | .countDown .sweep | .countDown .scan => True
  | _ => False

/-- `Get` is in `GetNewInstance`, in front of the init handler. -/
def Building : Pc α → Prop
  | .takeBlock | .malloc | .countUp _ | .construct _ => True
  | _ => False

/-- What calls leave behind that lend nothing: what left the idle list was
destroyed, and no block was obtained but one for a connection more than are lent. -/
structure Collected (s₀ s : Solo α) : Prop where
  held : s.2.held = s₀.2.held
  idle : s.1.idle.Sublist s₀.1.idle
  gone : ∀ item ∈ s₀.1.idle, item ∈ s.1.idle ∨ item ∈ s.1.destroyed ∨
    ∃ next, s.2.pc = .recycle item next
  destroyed : s₀.1.destroyed ⊆ s.1.destroyed
  mallocs : s.1.mallocs = s₀.1.mallocs ∨ s.1.mallocs = s₀.2.held.length + 1

/-- A `Get` in front of the init handler has gone through the idle list before
it builds. -/
structure Collecting (s₀ s : Solo α) : Prop extends Collected s₀ s where
  place : Looking s.2.pc ∨ Building s.2.pc ∧ s.1.idle = []

/-- A step that lends nothing and puts nothing back may take a connection from
the idle list to destroy it. -/
theorem moves_collected {o : ConnectionPoolOption} {p p' : ConnectionPool α}
    {held held' : List (ListItem α)} {pc pc' : Pc α} (h : Thread.Moves o p held pc p' pc' held')
    (hheld : held' = held) (hpush : ∀ item, pc ≠ .push item) :
    p'.idle.Sublist p.idle ∧
      (∀ item ∈ p.idle, item ∈ p'.idle ∨ ∃ next, pc' = .recycle item next) ∧
      (∀ item next, pc = .recycle item next → item ∈ p'.destroyed) ∧
      p.destroyed ⊆ p'.destroyed := by
  cases h with
  | usable item behind now _ _ => exact absurd hheld (List.cons_ne_self item held)
  | ready block active create object => exact absurd hheld (List.cons_ne_self _ held)
  | callPut item rest next hperm _ =>
      have hlen := hperm.length_eq
      rw [hheld, List.length_cons] at hlen
      omega
  | pushed item => exact absurd rfl (hpush item)
  | evicted item kept last _ _ => exact absurd rfl (hpush item)
  | expired front item now hidle _ =>
      rw [hidle]
      refine ⟨List.sublist_append_left _ _, ?_, nofun, List.Subset.refl _⟩
      intro other hother
      rcases List.mem_append.mp hother with hmem | hmem
      · exact Or.inl hmem
      · rw [List.mem_singleton] at hmem
        exact Or.inr ⟨.sweep, by rw [hmem]⟩
  | overage item behind now hidle _ =>
      rw [hidle]
      refine ⟨List.sublist_cons_self _ _, ?_, nofun, List.Subset.refl _⟩
      intro other hother
      rcases List.mem_cons.mp hother with hmem | hmem
      · exact Or.inr ⟨.scan, by rw [hmem]⟩
      · exact Or.inl hmem
  | recycles item next =>
      refine ⟨List.Sublist.refl _, fun _ hmem => Or.inl hmem, ?_, List.subset_cons_self _ _⟩
      intro other next' hpc
      cases hpc
      exact List.mem_cons_self ..
  | _ => exact ⟨List.Sublist.refl _, fun _ hmem => Or.inl hmem, nofun, List.Subset.refl _⟩

theorem Collected.step {o : ConnectionPoolOption} {s₀ : Solo α} {p p' : ConnectionPool α}
    {held held' : List (ListItem α)} {pc pc' : Pc α} (h : Collected s₀ (p, ⟨pc, held⟩))
    (hmoves : Thread.Moves o p held pc p' pc' held') (hheld : held' = held)
    (hpush : ∀ item, pc ≠ .push item)
    (hmallocs : p'.mallocs = p.mallocs ∨ p'.mallocs = s₀.2.held.length + 1) :
    Collected s₀ (p', ⟨pc', held'⟩) := by
  obtain ⟨hidle, hleft, hdone, hdestroyed⟩ := moves_collected hmoves hheld hpush
  refine ⟨hheld.trans h.held, hidle.trans h.idle, ?_, List.Subset.trans h.destroyed hdestroyed, ?_⟩
  · intro item hitem
    rcases h.gone item hitem with hmem | hmem | ⟨next, hpc⟩
    · rcases hleft item hmem with hstays | hnext
      · exact Or.inl hstays
      · exact Or.inr (Or.inr hnext)
    · exact Or.inr (Or.inl (hdestroyed hmem))
    · exact Or.inr (Or.inl (hdone item next hpc))
  · rcases hmallocs with hsame | hmore
    · have hold := h.mallocs
      dsimp only at hold ⊢
      rwa [hsame]
    · exact Or.inr hmore

/-- Where a `Get` in front of the init handler can go. -/
theorem moves_place {o : ConnectionPoolOption} {p p' : ConnectionPool α}
    {held held' : List (ListItem α)} {pc pc' : Pc α} (h : Thread.Moves o p held pc p' pc' held')
    (hplace : Looking pc ∨ Building pc ∧ p.idle = []) :
    (∀ item, pc ≠ .push item) ∧
      (pc' = .ready ∨ (∃ block, pc = .construct block) ∨
        held' = held ∧ (Looking pc' ∨ Building pc' ∧ p'.idle = [])) := by
  cases h with
  | callGet => simp [Looking, Building] at hplace
  | callPut => simp [Looking, Building] at hplace
  | stamped => simp [Looking, Building] at hplace
  | pushed => simp [Looking, Building] at hplace
  | evicted => simp [Looking, Building] at hplace
  | admitted next _ hnext =>
      refine ⟨nofun, Or.inr (Or.inr ⟨rfl, Or.inl ?_⟩)⟩
      rcases hnext with rfl | rfl
      · exact trivial
      · exact trivial
  | refused => exact ⟨nofun, Or.inl rfl⟩
  | usable => exact ⟨nofun, Or.inl rfl⟩
  | outOfMemory => exact ⟨nofun, Or.inl rfl⟩
  | ready => exact ⟨nofun, Or.inl rfl⟩
  | failed block => exact ⟨nofun, Or.inr (Or.inl ⟨block, rfl⟩)⟩
  | swept => exact ⟨nofun, Or.inr (Or.inr ⟨rfl, Or.inl trivial⟩)⟩
  | expired => exact ⟨nofun, Or.inr (Or.inr ⟨rfl, Or.inl trivial⟩)⟩
  | overage => exact ⟨nofun, Or.inr (Or.inr ⟨rfl, Or.inl trivial⟩)⟩
  | exhausted hidle => exact ⟨nofun, Or.inr (Or.inr ⟨rfl, Or.inr ⟨trivial, hidle⟩⟩)⟩
  | recycled block rest _ =>
      have hidle := (hplace.resolve_left id).2
      exact ⟨nofun, Or.inr (Or.inr ⟨rfl, Or.inr ⟨trivial, hidle⟩⟩)⟩
  | noneRecycled _ =>
      have hidle := (hplace.resolve_left id).2
      exact ⟨nofun, Or.inr (Or.inr ⟨rfl, Or.inr ⟨trivial, hidle⟩⟩)⟩
  | allocated =>
      have hidle := (hplace.resolve_left id).2
      exact ⟨nofun, Or.inr (Or.inr ⟨rfl, Or.inr ⟨trivial, hidle⟩⟩)⟩
  | counted block =>
      have hidle := (hplace.resolve_left id).2
      exact ⟨nofun, Or.inr (Or.inr ⟨rfl, Or.inr ⟨trivial, hidle⟩⟩)⟩
  | recycles item next =>
      refine ⟨nofun, Or.inr (Or.inr ⟨rfl, Or.inl ?_⟩)⟩
      cases next <;> simp [Looking, Building] at hplace ⊢
  | uncounted next =>
      refine ⟨nofun, Or.inr (Or.inr ⟨rfl, Or.inl ?_⟩)⟩
      cases next <;> simp [Looking, Building, After.pc] at hplace ⊢

theorem Collecting.step {o : ConnectionPoolOption} {s₀ s s' : Solo α} {k : ℤ} {label : Label α}
    (h : Collecting s₀ s) (hpeaked : Peaked s k) (hinner : Inner label)
    (hstep : s.step o label = .ok s') : s'.2.pc = .ready ∨ Collecting s₀ s' := by
  obtain ⟨p, pc, held⟩ := s
  obtain ⟨p', pc', held'⟩ := s'
  have hmoves : Thread.Moves o p held pc p' pc' held' := Thread.step_moves hstep
  obtain ⟨hpush, hready | ⟨block, hpc⟩ | ⟨hheld, hplace⟩⟩ := moves_place hmoves h.place
  · exact Or.inl hready
  · -- the init handler is not run by such a step
    subst hpc
    cases label <;> first | exact absurd hinner id | simp [Solo.step, Thread.step] at hstep
  · right
    refine ⟨h.toCollected.step hmoves hheld hpush ?_, hplace⟩
    rcases moves_mallocs hmoves with hsame | ⟨hpc, _, _, _, hmore⟩
    · exact Or.inl hsame
    · subst hpc
      have hidle : p.idle = [] := (h.place.resolve_left id).2
      have hpool : p.memPool = [] := hpeaked.dry rfl
      have hblocks := hpeaked.blocks
      have hlent : held.length = s₀.2.held.length := congrArg List.length h.held
      simp only [hidle, hpool, Pc.blocks, List.length_nil] at hblocks
      right
      omega

theorem Collected.refl {s : Solo α} : Collected s s :=
  ⟨rfl, List.Sublist.refl _, fun _ hmem => Or.inl hmem, List.Subset.refl _, Or.inl rfl⟩

theorem Collecting.run {o : ConnectionPoolOption} {s₀ s s' : Solo α} {k : ℤ}
    {labels : List (Label α)} (h : s.2.pc = .ready ∨ Collecting s₀ s) (hpeaked : Peaked s k)
    (hinner : ∀ label ∈ labels, Inner label) (hrun : run (Solo.step o) s labels = .ok s') :
    (s'.2.pc = .ready ∨ Collecting s₀ s') ∧ ∃ k', Peaked s' k' := by
  induction labels generalizing s k with
  | nil =>
      cases hrun
      exact ⟨h, k, hpeaked⟩
  | cons label labels ih =>
      obtain ⟨s₁, hop, hrest⟩ := run_cons_ok.mp hrun
      have hlabel := hinner label (List.mem_cons_self ..)
      have hlater : s₁.2.pc = .ready ∨ Collecting s₀ s₁ := by
        rcases h with hready | hcollecting
        · -- a thread between calls takes no such step
          obtain ⟨p, pc, held⟩ := s
          dsimp only at hready
          subst hready
          cases label <;> first | exact absurd hlabel id | simp [Solo.step, Thread.step] at hop
        · exact hcollecting.step hpeaked hlabel hop
      exact ih hlater (hpeaked.step hop) (fun l hl => hinner l (List.mem_cons_of_mem _ hl)) hrest

theorem callGet_ready {o : ConnectionPoolOption} {s s' : Solo α}
    (h : s.step o .callGet = .ok s') : s.2.pc = .ready := by
  obtain ⟨p, pc, held⟩ := s
  cases pc with
  | ready => rfl
  | _ => cases h

theorem init_construct {o : ConnectionPoolOption} {s s' : Solo α} {active create : UInt64}
    {ok : Bool} {object : α} (h : s.step o (.init active create ok object) = .ok s') :
    ∃ block, s.2.pc = .construct block := by
  obtain ⟨p, pc, held⟩ := s
  cases pc with
  | construct block => exact ⟨block, rfl⟩
  | _ => cases h

/-- A `Get` whose init handler fails lends nothing, and what it takes from the
idle list it destroys. -/
theorem FailedGet.collected {o : ConnectionPoolOption} {s s' : Solo α} {k : ℤ}
    (hpeaked : Peaked s k) (hget : FailedGet o s s') :
    Collected s s' ∧ s'.2.pc = .ready ∧ ∃ k', Peaked s' k' := by
  obtain ⟨before, active, create, object, hinner, hrun⟩ := hget
  obtain ⟨s₁, hcall, hrun⟩ := run_cons_ok.mp hrun
  obtain ⟨s₂, hbefore, hrun⟩ := run_append_ok.mp hrun
  obtain ⟨s₃, hinit, hrun⟩ := run_cons_ok.mp hrun
  obtain ⟨s₄, hrecycle, hrun⟩ := run_cons_ok.mp hrun
  obtain ⟨s₅, hcount, hrun⟩ := run_cons_ok.mp hrun
  cases hrun
  have hcollecting₁ : Collecting s s₁ := by
    obtain ⟨p, pc, held⟩ := s
    have hpc : pc = .ready := callGet_ready hcall
    subst hpc
    cases hcall
    exact ⟨⟨rfl, List.Sublist.refl _, fun _ hmem => Or.inl hmem, List.Subset.refl _, Or.inl rfl⟩,
      Or.inl trivial⟩
  obtain ⟨hplace, k₂, hpeaked₂⟩ :=
    Collecting.run (Or.inr hcollecting₁) (hpeaked.step hcall) hinner hbefore
  have hpeaked₃ := hpeaked₂.step hinit
  have hpeaked₅ := (hpeaked₃.step hrecycle).step hcount
  obtain ⟨p, pc, held⟩ := s₂
  obtain ⟨block, hpc⟩ := init_construct hinit
  dsimp only at hpc
  subst hpc
  have hcollected : Collected s (p, ⟨.construct block, held⟩) :=
    (hplace.resolve_left nofun).toCollected
  cases hinit
  cases hrecycle
  cases hcount
  refine ⟨?_, rfl, _, hpeaked₅⟩
  have hfailed :=
    hcollected.step (.failed (o := o) block active create object) rfl nofun (Or.inl rfl)
  have hrecycled := hfailed.step (.recycles (o := o) _ .returnNull) rfl nofun (Or.inl rfl)
  exact hrecycled.step (.uncounted (o := o) .returnNull) rfl nofun (Or.inl rfl)

/-- The same of any number of such calls. -/
theorem failedGets_collected {o : ConnectionPoolOption} {s s' : Solo α} {k : ℤ}
    (hpeaked : Peaked s k) (hready : s.2.pc = .ready)
    (hgets : Relation.ReflTransGen (FailedGet o) s s') :
    Collected s s' ∧ s'.2.pc = .ready ∧ ∃ k', Peaked s' k' := by
  induction hgets with
  | refl => exact ⟨.refl, hready, k, hpeaked⟩
  | tail _ hget ih =>
      obtain ⟨hfirst, hready₁, k₁, hpeaked₁⟩ := ih
      obtain ⟨hlast, hready', hpeaked'⟩ := FailedGet.collected hpeaked₁ hget
      refine ⟨⟨hlast.held.trans hfirst.held, hlast.idle.trans hfirst.idle, ?_,
        List.Subset.trans hfirst.destroyed hlast.destroyed, ?_⟩, hready', hpeaked'⟩
      · intro item hitem
        rcases hfirst.gone item hitem with hmem | hmem | ⟨next, hpc⟩
        · exact hlast.gone item hmem
        · exact Or.inr (Or.inl (hlast.destroyed hmem))
        · rw [hready₁] at hpc
          cases hpc
      · rcases hlast.mallocs with hsame | hmore
        · rw [hsame]
          exact hfirst.mallocs
        · rw [hfirst.held] at hmore
          exact Or.inr hmore

/-- Between calls the blocks are the idle and lent connections and the free
blocks, and they are as many as there ever were connections at a time. Calls
whose init handler fails obtain at most one more, however many they are, and
change the counter by what they collect. -/
theorem memory_bounded_by_peak {o : ConnectionPoolOption} {s : Solo α} {labels : List (Label α)}
    (hrun : run (Solo.step o) ({}, {}) labels = .ok s) (hready : s.2.pc = .ready) :
    s.1.mallocs = s.1.idle.length + s.2.held.length + s.1.memPool.length ∧
    (s.1.mallocs : ℤ) = highest (Solo.step o) (fun s => s.1.activeCnt) ({}, {}) labels ∧
    ∀ s', Relation.ReflTransGen (FailedGet o) s s' →
      s'.1.mallocs ≤ s.1.mallocs + 1 ∧ s'.1.idle.Sublist s.1.idle ∧
      (∀ item ∈ s.1.idle, item ∈ s'.1.idle ∨ item ∈ s'.1.destroyed) ∧
      s'.1.activeCnt = s.1.activeCnt - (s.1.idle.length - s'.1.idle.length) := by
  have hpeaked := peaked hrun
  obtain ⟨hblocks, hpeak, hactive⟩ := hpeaked.ready hready
  refine ⟨hblocks, hpeak, ?_⟩
  intro s' hgets
  obtain ⟨hcollected, hready', k', hpeaked'⟩ := failedGets_collected hpeaked hready hgets
  obtain ⟨_, _, hactive'⟩ := hpeaked'.ready hready'
  have hheld := congrArg List.length hcollected.held
  refine ⟨?_, hcollected.idle, ?_, by omega⟩
  · rcases hcollected.mallocs with hsame | hmore
    · omega
    · omega
  · intro item hitem
    rcases hcollected.gone item hitem with hmem | hmem | ⟨next, hpc⟩
    · exact Or.inl hmem
    · exact Or.inr hmem
    · rw [hready'] at hpc
      cases hpc

/-- Two connections are lent, and one comes back bad. -/
def lendTwo : List (Label Unit) :=
  [.callGet, .next, .read 0, .next, .malloc true, .next, .init 0 0 true (),
    .callGet, .next, .read 0, .next, .malloc true, .next, .init 0 0 true (),
    .callPut 0 false, .next, .next]

theorem memory_bounded_by_peak_of_two :
    ∃ s : Solo Unit, run (Solo.step {}) ({}, {}) lendTwo = .ok s ∧ s.1.activeCnt = 1 ∧
      s.1.mallocs = 2 ∧
      (s.1.mallocs : ℤ) = highest (Solo.step {}) (fun s => s.1.activeCnt) ({}, {}) lendTwo := by
  obtain ⟨s, hrun, hready, hactive, hmallocs⟩ : ∃ s : Solo Unit,
      run (Solo.step {}) ({}, {}) lendTwo = .ok s ∧ s.2.pc = .ready ∧ s.1.activeCnt = 1 ∧
      s.1.mallocs = 2 :=
    ⟨_, rfl, rfl, rfl, rfl⟩
  exact ⟨s, hrun, hactive, hmallocs, (memory_bounded_by_peak hrun hready).2.1⟩

end Solo

end CloRedis
