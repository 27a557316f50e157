import CloRedis.Manager.Lending

/-!
`Init` and `InitEx` on a new manager. They create the first pools, get a
connection from each and return it, so what holds of a new pool and is kept by
`Get` and `Done` holds of every pool they leave behind.
-/

namespace CloRedis

open Library

variable {C D W : Type}

namespace ManagerWorld

variable {w w' : ManagerWorld C} {s : Slot} {cell : PoolCell C}

/-- Every pool of the manager has a property. -/
def AllPools (w : ManagerWorld C) (P : Slot → PoolCell C → Prop) : Prop :=
  ∀ s cell, w.poolAt s = some cell → P s cell

theorem AllPools.change {P : Slot → PoolCell C → Prop} (hall : w.AllPools P)
    (hchange : SlotChange w w' s cell) (hcell : P s cell) : w'.AllPools P := by
  intro k found hfound
  by_cases hk : k = s
  · subst hk
    cases hchange.here.symm.trans hfound
    exact hcell
  · rw [hchange.others k hk] at hfound
    exact hall k found hfound

/-- A property of new pools that `Get` and `Done` keep. -/
structure Keeps (h : Hiredis C D W) (cfg : ManagerConfig) (P : Slot → PoolCell C → Prop) : Prop where
  fresh : ∀ s, P s (cfg.freshPool s)
  get : ∀ s cell env, P s cell → P s (cell.get h ⟨s, 0⟩ env).2
  done : ∀ s cell block now cell', P s cell → cell.done block now = .ok cell' → P s cell'

theorem AllPools.poolFor {h : Hiredis C D W} {P : Slot → PoolCell C → Prop} (hall : w.AllPools P)
    (hP : Keeps h w.toManagerConfig P) (s : Slot) : P s (w.poolFor s) := by
  cases hpool : w.poolAt s with
  | none =>
      rw [ManagerWorld.poolFor, hpool]
      exact hP.fresh s
  | some cell =>
      rw [ManagerWorld.poolFor, hpool]
      exact hall s cell hpool

/-- The manager has no pool yet. -/
structure Unused (w : ManagerWorld C) : Prop where
  master : w.master = fun _ => none
  slave : w.slave = fun _ => none
  pools : w.pools = fun _ => []
  slaves : w.slaveCnt = w.slaveAddr.length

theorem Unused.new : ({} : ManagerWorld C).Unused :=
  ⟨rfl, rfl, rfl, rfl⟩

theorem Unused.slotPtr (hw : w.Unused) (s : Slot) : w.slotPtr s = none := by
  cases s with
  | master db => simp [ManagerWorld.slotPtr, hw.master]
  | slave db index => simp [ManagerWorld.slotPtr, hw.slave]

theorem Unused.poolAt (hw : w.Unused) (s : Slot) : w.poolAt s = none :=
  poolAt_none (hw.slotPtr s)

theorem Unused.intact (hw : w.Unused) : w.Intact := by
  refine ⟨hw.slaves, ?_, ?_⟩
  · intro db gen hgen
    simp [hw.slave] at hgen
  · intro s
    rw [hw.slotPtr s, hw.pools]
    exact .empty

/-- A handle gives back what it holds, or nothing. -/
theorem Intact.release (hw : w.Intact) (hcell : w.poolAt s = some cell) {block : Option Block}
    {now : Option Timeval} (hrelease : w.release now (block.map (ConnPtr.mk ⟨s, 0⟩)) = .ok w') :
    ∃ cell', SlotChange w w' s cell' ∧
      (cell' = cell ∨ ∃ block, cell.done block now = .ok cell') := by
  cases block with
  | none =>
      cases hrelease
      exact ⟨cell, ⟨hw, rfl, hcell, fun _ _ => rfl⟩, .inl rfl⟩
  | some block =>
      change w.done ⟨⟨s, 0⟩, block⟩ now = .ok w' at hrelease
      rw [hw.done hcell] at hrelease
      cases hdone : cell.done block now with
      | error fault => simp [hdone, Except.map] at hrelease
      | ok cell' =>
          simp only [hdone, Except.map, Except.ok.injEq] at hrelease
          subst hrelease
          have hintact := (hw.full hcell).2.2.done hdone
          exact ⟨cell', hw.setPool hcell hintact, .inr ⟨block, hdone⟩⟩

/-- A handle that holds something lent, or nothing, can be released. -/
theorem Intact.release_lent (hw : w.Intact) {found : Option ConnPtr}
    (hlent : ∀ conn ∈ found, w.Lent conn) (now : Option Timeval) :
    ∃ w', w.release now found = .ok w' ∧ w'.Intact ∧
      ∀ conn, w'.Lent conn ↔ w.Lent conn ∧ found ≠ some conn := by
  cases found with
  | none => exact ⟨w, rfl, hw, fun conn => by simp⟩
  | some conn =>
      obtain ⟨w', hdone, hintact, hrest⟩ := hw.done_lent (hlent conn rfl) now
      refine ⟨w', hdone, hintact, ?_⟩
      intro other
      rw [hrest, ne_eq, ne_eq, Option.some.injEq, eq_comm]

/-- What `Init` and `InitEx` have made of a manager while they hold the
connections `held`. -/
structure Started (h : Hiredis C D W) (held : ConnPtr → Prop) (w : ManagerWorld C) : Prop where
  intact : w.Intact
  lent : ∀ conn, w.Lent conn ↔ held conn
  pools : ∀ P, Keeps h w.toManagerConfig P → w.AllPools P

variable {h : Hiredis C D W} {held : ConnPtr → Prop}

theorem Unused.started (hw : w.Unused) (h : Hiredis C D W) : w.Started h fun _ => False where
  intact := hw.intact
  lent conn := by
    have hnone : w.cellAt conn.pool = none := by simp [cellAt, hw.pools]
    simp [Lent, hnone]
  pools P _ s cell hcell := by
    rw [hw.poolAt s] at hcell
    cases hcell

theorem Started.congr {held' : ConnPtr → Prop} (hw : w.Started h held)
    (hheld : ∀ conn, held conn ↔ held' conn) : w.Started h held' :=
  ⟨hw.intact, fun conn => (hw.lent conn).trans (hheld conn), hw.pools⟩

/-- A change by which every kept property goes over. -/
theorem Started.change {held' : ConnPtr → Prop} (hw : w.Started h held)
    (hchange : SlotChange w w' s cell) (hlent : ∀ conn, w'.Lent conn ↔ held' conn)
    (hkeep : ∀ P, Keeps h w.toManagerConfig P → w.AllPools P → P s cell) :
    w'.Started h held' where
  intact := hchange.intact
  lent := hlent
  pools P hP := by
    rw [hchange.config] at hP
    have hall := hw.pools P hP
    exact hall.change hchange (hkeep P hP hall)

theorem Started.release (hw : w.Started h held) (hcell : w.poolAt s = some cell)
    {block : Option Block} {now : Option Timeval}
    (hheld : ∀ conn ∈ block.map (ConnPtr.mk ⟨s, 0⟩), held conn)
    (hrelease : w.release now (block.map (ConnPtr.mk ⟨s, 0⟩)) = .ok w') :
    w'.Started h (fun conn => held conn ∧ block.map (ConnPtr.mk ⟨s, 0⟩) ≠ some conn) ∧
      w'.toManagerConfig = w.toManagerConfig ∧ ∀ k, k ≠ s → w'.poolAt k = w.poolAt k := by
  obtain ⟨cell', hchange, hdone⟩ := hw.intact.release hcell hrelease
  obtain ⟨w'', hsame, _, hrest⟩ := hw.intact.release_lent
    (fun conn hconn => (hw.lent conn).mpr (hheld conn hconn)) now
  cases hsame.symm.trans hrelease
  refine ⟨hw.change hchange ?_ ?_, hchange.config, hchange.others⟩
  · intro conn
    rw [hrest, hw.lent]
  · intro P hP hall
    rcases hdone with rfl | ⟨block, hdone⟩
    · exact hall s cell' hcell
    · exact hP.done s cell block now cell' (hall s cell hcell) hdone

theorem Started.get (hw : w.Started h held) (hcell : w.poolAt s = some cell)
    (env : GetEnv D W) :
    (w.setPool ⟨s, 0⟩ (cell.get h ⟨s, 0⟩ env).2).Started h fun conn =>
      held conn ∨ (cell.get h ⟨s, 0⟩ env).1.map (ConnPtr.mk ⟨s, 0⟩) = some conn := by
  have hchange := hw.intact.poolGet_change hcell h env
  refine hw.change hchange ?_ fun _ hP hall => hP.get s cell env (hall s cell hcell)
  intro conn
  rw [hchange.lent_get hw.intact (by rw [poolFor, hcell]; rfl), hw.lent]

/-- Creating the pool of an empty slot. -/
theorem Started.create (hw : w.Started h held) (hnone : w.poolAt s = none)
    (hchange : SlotChange w w' s (w.freshPool s)) : w'.Started h held := by
  refine hw.change hchange ?_ fun _ hP _ => hP.fresh s
  intro conn
  rw [← hw.lent, hchange.intact.lent_iff, hw.intact.lent_iff]
  by_cases hk : conn.pool.slot = s
  · rw [hk, poolFor, poolFor, hchange.here, hnone]
    rfl
  · rw [poolFor, poolFor, hchange.others _ hk, hchange.config]

theorem Started.create_master (hw : w.Started h held) (db : Fin maxDbNum)
    (hnone : w.poolAt (.master db) = none) (slaveSlot : Nat) :
    ∃ w', w.initConnectionPool .master db slaveSlot = .ok w' ∧ w'.Started h held ∧
      SlotChange w w' (.master db) (w.freshPool (.master db)) := by
  obtain ⟨w', hcreate, hchange⟩ := hw.intact.create_master slaveSlot hnone
  exact ⟨w', hcreate, hw.create hnone hchange, hchange⟩

theorem Started.create_slave (hw : w.Started h held) (db : Fin maxDbNum)
    {index : Nat} (hindex : index < w.slaveCnt) (hnone : w.poolAt (.slave db index) = none) :
    ∃ w', w.initConnectionPool .slave db index = .ok w' ∧ w'.Started h held ∧
      SlotChange w w' (.slave db index) (w.freshPool (.slave db index)) := by
  obtain ⟨w', hcreate, hchange⟩ := hw.intact.create_slave hindex hnone
  exact ⟨w', hcreate, hw.create hnone hchange, hchange⟩

theorem Unused.configure (hw : w.Unused) (addr : ServiceAddress) (password : String)
    (timeoutMs : Int) (option : Option ConnectionPoolOption) :
    (w.configure addr password timeoutMs option).Unused :=
  ⟨hw.master, hw.slave, hw.pools, hw.slaves⟩

theorem Unused.addSlaves (hw : w.Unused) (addrs : List ServiceAddress) :
    (w.addSlaves addrs).Unused := by
  unfold ManagerWorld.addSlaves
  split
  · exact ⟨hw.master, hw.slave, hw.pools, rfl⟩
  · exact ⟨hw.master, hw.slave, hw.pools, rfl⟩

theorem init_started {host password : String} {timeoutMs : Int}
    {option : Option ConnectionPoolOption} {env : ProbeEnv D W} {r : InitResult C}
    (hinit : init h ({} : ManagerWorld C) host password timeoutMs option env = .ok r) :
    r.world.Started h fun _ => False := by
  have hnew : ({ inited := true } : ManagerWorld C).Unused := ⟨rfl, rfl, rfl, rfl⟩
  simp only [init, Bool.false_eq_true, if_false] at hinit
  split at hinit
  · rename_i addr _
    have hunused := hnew.configure addr password timeoutMs option
    obtain ⟨w₁, hcreate, hw₁, hchange⟩ :=
      (hunused.started h).create_master 0 (hunused.poolAt _) 0
    have hptr : w₁.master 0 = some ⟨.master 0, 0⟩ := (hw₁.intact.full hchange.here).1
    rw [hcreate, ok_do, hptr] at hinit
    dsimp only [getAt] at hinit
    rw [hw₁.intact.poolGet hchange.here, ok_do] at hinit
    obtain ⟨w₂, hrelease, hr⟩ := do_ok.mp hinit
    cases hr
    have hget := hw₁.get hchange.here env.get
    have hcell := (hw₁.intact.poolGet_change hchange.here h env.get).here
    have hreleased := (hget.release hcell (fun conn hconn => .inr hconn) hrelease).1
    exact hreleased.congr fun conn => by simp
  · cases hinit
    exact hnew.started h

/-- `InitEx` creates a pool for `master_[0]` and one for slave 0 of database 0. -/
theorem Unused.create_pair (hw : w.Unused) (h : Hiredis C D W) {w₁ w₂ : ManagerWorld C}
    (hmaster : w.initConnectionPool .master 0 0 = .ok w₁)
    (hslave : w₁.initConnectionPool .slave 0 0 = .ok w₂) :
    w₂.Started h (fun _ => False) ∧ 0 < w₂.slaveCnt ∧
      w₂.poolAt (.master 0) = some (w.freshPool (.master 0)) ∧
      w₂.poolAt (.slave 0 0) = some (w₁.freshPool (.slave 0 0)) := by
  obtain ⟨w₁', hcreate, hw₁, hchange⟩ := (hw.started h).create_master 0 (hw.poolAt _) 0
  cases hmaster.symm.trans hcreate
  -- without a slave the address at 0 is out of bounds
  have hpos : 0 < w₁.slaveCnt := by
    rw [hw₁.intact.slaves]
    cases haddr : w₁.slaveAddr with
    | nil => simp [initConnectionPool, haddr] at hslave
    | cons first rest => simp
  have hne : Slot.slave 0 0 ≠ .master 0 := by simp
  have hnone : w₁.poolAt (.slave 0 0) = none := (hchange.others _ hne).trans (hw.poolAt _)
  obtain ⟨w₂', hcreate₂, hw₂, hchange₂⟩ := hw₁.create_slave 0 hpos hnone
  cases hslave.symm.trans hcreate₂
  refine ⟨hw₂, ?_, (hchange₂.others _ hne.symm).trans hchange.here, hchange₂.here⟩
  rw [hchange₂.config]
  exact hpos

theorem initEx_started {masterHost slaveHosts password : String}
    {timeoutMs : Int} {option : Option ConnectionPoolOption} {masterEnv slaveEnv : ProbeEnv D W}
    {r : InitResult C}
    (hinit : initEx h ({} : ManagerWorld C) masterHost slaveHosts password timeoutMs option
      masterEnv slaveEnv = .ok r) :
    r.world.Started h fun _ => False := by
  have hnew : ({ inited := true } : ManagerWorld C).Unused := ⟨rfl, rfl, rfl, rfl⟩
  simp only [initEx, Bool.false_eq_true, if_false] at hinit
  split at hinit
  · rename_i addr _
    have hunused := (hnew.configure addr password timeoutMs option).addSlaves
      (parseAddressVector slaveHosts)
    generalize addSlaves _ _ = w at hinit hunused
    obtain ⟨w₁, hcreate, hinit⟩ := do_ok.mp hinit
    obtain ⟨w₂, hslave, hinit⟩ := do_ok.mp hinit
    obtain ⟨hw₂, hcount, hmaster, hslave₂⟩ := hunused.create_pair h hcreate hslave
    have hne : Slot.slave 0 0 ≠ .master 0 := by simp
    have hptr : w₂.master 0 = some ⟨.master 0, 0⟩ := (hw₂.intact.full hmaster).1
    rw [hptr] at hinit
    dsimp only [getAt] at hinit
    rw [hw₂.intact.poolGet hmaster, ok_do] at hinit
    have hw₃ := hw₂.get hmaster masterEnv.get
    have hget₃ := hw₂.intact.poolGet_change hmaster h masterEnv.get
    generalize w₂.setPool _ _ = w₃ at hinit hw₃ hget₃
    have hslave₃ := (hget₃.others _ hne).trans hslave₂
    rw [← congrArg ManagerConfig.slaveCnt hget₃.config] at hcount
    dsimp only at hinit
    rw [ArraysLive.readSlave hw₃.intact.arrays hcount, ok_do, (hw₃.intact.full hslave₃).1]
      at hinit
    dsimp only [getAt] at hinit
    rw [hw₃.intact.poolGet hslave₃, ok_do] at hinit
    have hw₄ := hw₃.get hslave₃ slaveEnv.get
    have hget₄ := hw₃.intact.poolGet_change hslave₃ h slaveEnv.get
    generalize w₃.setPool _ _ = w₄ at hinit hw₄ hget₄
    obtain ⟨w₅, hrelease, hinit⟩ := do_ok.mp hinit
    obtain ⟨hw₅, _, hothers⟩ := hw₄.release hget₄.here (fun conn hconn => .inr hconn) hrelease
    have hmaster₅ := (hothers _ hne.symm).trans ((hget₄.others _ hne.symm).trans hget₃.here)
    obtain ⟨w₆, hrelease, hr⟩ := do_ok.mp hinit
    cases hr
    have hreleased := (hw₅.release hmaster₅ (fun conn hconn => by
      refine ⟨.inl (.inr hconn), fun hslave => ?_⟩
      -- the two connections belong to different pools
      obtain ⟨_, _, rfl⟩ := Option.map_eq_some_iff.mp hconn
      obtain ⟨_, _, heq⟩ := Option.map_eq_some_iff.mp hslave
      cases heq) hrelease).1
    exact hreleased.congr fun conn => by
      constructor
      · rintro ⟨⟨(hfalse | hmaster) | hslave, hgone⟩, hgone'⟩
        · exact hfalse
        · exact hgone' hmaster
        · exact hgone hslave
      · exact False.elim
  · cases hinit
    exact hnew.started h

end ManagerWorld

end CloRedis
