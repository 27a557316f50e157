import CloRedis.Manager.Projection

/-!
The public calls of a manager and where `Get` goes: a `Get` asks one pool, in
range and bound to the server and the database it stands for, or none. A
negative database is not turned away.
-/

namespace CloRedis

open Library

variable {C D W : Type}

inductive PublicCall (D W : Type) where
  | init (host password : String) (timeoutMs : Int) (option : Option ConnectionPoolOption)
      (env : ManagerWorld.ProbeEnv D W)
  | initEx (masterHost slaveHosts password : String) (timeoutMs : Int)
      (option : Option ConnectionPoolOption) (masterEnv slaveEnv : ManagerWorld.ProbeEnv D W)
  | get (db : Int) (role : RedisRole) (index : Int) (rand : Nat) (env : GetEnv D W)
  | doCommand (conn : ConnPtr) (command : Command) (wire : W)
  | done (conn : ConnPtr) (now : Option Timeval)
  | activeConnectionCount (role : RedisRole)
  | connectionInPool (role : RedisRole)
  | connectionInUse (role : RedisRole)
  | flush

/-- The calls that neither set up nor tear down. -/
def PublicCall.Uses : PublicCall D W → Prop
  | .init .. | .initEx .. | .flush => False
  | _ => True

def PublicCall.SetsUp : PublicCall D W → Prop
  | .init .. | .initEx .. => True
  | _ => False

/-- The address of the server a slot stands for. -/
def ManagerConfig.server (cfg : ManagerConfig) : Slot → Option ServiceAddress
  | .master _ => some cfg.masterAddr
  | .slave _ index => cfg.slaveAddr[index]?

/-- The slots that may serve a `Get`. -/
inductive ManagerConfig.Routed (cfg : ManagerConfig) (db : Int) (role : RedisRole) (index : Int) :
    Slot → Prop where
  | master (i : Fin maxDbNum) : (i.val : Int) = db → role = .master ∨ cfg.slaveCnt = 0 →
      Routed cfg db role index (.master i)
  | slave (i : Fin maxDbNum) (j : Nat) : (i.val : Int) = db → role = .slave → j < cfg.slaveCnt →
      (0 ≤ index → index < cfg.slaveCnt → (j : Int) = index) →
      Routed cfg db role index (.slave i j)

theorem ManagerConfig.route_routed (cfg : ManagerConfig) (db : Fin maxDbNum) (role : RedisRole)
    (index : Int) (rand : Nat) : cfg.Routed db.val role index (cfg.route db role index rand) := by
  unfold ManagerConfig.route
  by_cases hrole : role = .master ∨ cfg.slaveCnt < 1
  · rw [if_pos hrole]
    exact .master db rfl (hrole.imp id Nat.lt_one_iff.mp)
  · rw [if_neg hrole]
    have hslave : role = .slave := by
      cases role with
      | master => exact absurd (.inl rfl) hrole
      | slave => rfl
    refine .slave db _ rfl hslave (ManagerWorld.realIndex_lt (by omega) index rand) ?_
    intro hnonneg hlt
    rw [ManagerWorld.realIndex, if_pos ⟨hnonneg, hlt⟩]
    exact Int.toNat_of_nonneg hnonneg

/-- A pool is bound to the server and the database of its slot, under the
options of the manager. -/
structure PoolCell.BoundTo (cfg : ManagerConfig) (s : Slot) (cell : PoolCell C) : Prop where
  db : cell.binding.db = s.db.val
  host : ∀ addr, cfg.server s = some addr → cell.binding.host = addr.host
  port : ∀ addr, cfg.server s = some addr → cell.binding.port = addr.port
  option : cell.option = cfg.option

theorem ManagerConfig.freshPool_boundTo (cfg : ManagerConfig) (s : Slot) :
    (cfg.freshPool s : PoolCell C).BoundTo cfg s := by
  cases s with
  | master db =>
      refine ⟨rfl, ?_, ?_, rfl⟩
      · rintro addr ⟨⟩
        rfl
      · rintro addr ⟨⟩
        rfl
  | slave db index =>
      refine ⟨rfl, ?_, ?_, rfl⟩
      · intro addr haddr
        simp only [ManagerConfig.server] at haddr
        simp [ManagerConfig.freshPool, ManagerConfig.bindingFor, haddr]
      · intro addr haddr
        simp only [ManagerConfig.server] at haddr
        simp [ManagerConfig.freshPool, ManagerConfig.bindingFor, haddr]

namespace PoolCell.BoundTo

variable {cfg : ManagerConfig} {s : Slot} {cell cell' : PoolCell C}

theorem get (hcell : cell.BoundTo cfg s) (h : Hiredis C D W) (ptr : PoolPtr) (env : GetEnv D W) :
    (cell.get h ptr env).2.BoundTo cfg s :=
  ⟨hcell.db, hcell.host, hcell.port, hcell.option⟩

theorem done {block : Block} {now : Option Timeval} (hcell : cell.BoundTo cfg s)
    (hdone : cell.done block now = .ok cell') : cell'.BoundTo cfg s := by
  obtain ⟨item, rest, _, rfl⟩ := PoolCell.done_ok hdone
  exact ⟨hcell.db, hcell.host, hcell.port, hcell.option⟩

theorem doCommand {h : Hiredis C D W} {block : Block} {command : Command} {wire : W}
    (hcell : cell.BoundTo cfg s) (hdo : cell.doCommand h block command wire = .ok cell') :
    cell'.BoundTo cfg s := by
  obtain ⟨item, rest, _, rfl⟩ := PoolCell.doCommand_ok hdo
  exact ⟨hcell.db, hcell.host, hcell.port, hcell.option⟩

end PoolCell.BoundTo

namespace ManagerWorld

variable {w w' : ManagerWorld C} {h : Hiredis C D W}

def perform (h : Hiredis C D W) (w : ManagerWorld C) :
    PublicCall D W → Except Fault (ManagerWorld C)
  | .init host password timeoutMs option env =>
      (w.init h host password timeoutMs option env).map (·.world)
  | .initEx masterHost slaveHosts password timeoutMs option masterEnv slaveEnv =>
      (w.initEx h masterHost slaveHosts password timeoutMs option masterEnv slaveEnv).map (·.world)
  | .get db role index rand env => (w.get h db role index rand env).map Prod.snd
  | .doCommand conn command wire => w.doCommand h conn command wire
  | .done conn now => w.done conn now
  | .activeConnectionCount role => (w.activeConnectionCount role).map fun _ => w
  | .connectionInPool role => (w.connectionInPool role).map fun _ => w
  | .connectionInUse role => (w.connectionInUse role).map fun _ => w
  | .flush => w.flush

theorem keeps_boundTo (h : Hiredis C D W) (cfg : ManagerConfig) :
    Keeps h cfg (PoolCell.BoundTo cfg) where
  fresh := cfg.freshPool_boundTo
  get _ _ env hcell := hcell.get h _ env
  done _ _ _ _ _ hcell hdone := hcell.done hdone

theorem get_beyond {db : Int} (hdb : maxDbNum ≤ db) (role : RedisRole) (index : Int) (rand : Nat)
    (env : GetEnv D W) : w.get h db role index rand env = .ok (none, w) := by
  rw [ManagerWorld.get, if_pos hdb]

/-- Nothing turns a negative database away before the arrays are indexed. -/
theorem get_negative {db : Int} (hdb : db < 0) (role : RedisRole) (index : Int) (rand : Nat)
    (env : GetEnv D W) : w.get h db role index rand env = .error .outOfBounds := by
  have hbeyond : ¬ maxDbNum ≤ db := by
    have hpos : (0 : Int) ≤ maxDbNum := Int.natCast_nonneg _
    omega
  have hnone : dbIndex db = none := by
    rw [dbIndex, dif_neg]
    rintro ⟨hnonneg, _⟩
    omega
  simp only [ManagerWorld.get, if_neg hbeyond, hnone]

/-- A use that goes through is a call on one slot, or changes nothing. -/
theorem perform_uses {call : PublicCall D W} (huses : call.Uses)
    (hperform : w.perform h call = .ok w') : w' = w ∨ ∃ own, w.step h own = .ok w' := by
  cases call with
  | get db role index rand env =>
      rcases lt_or_ge db 0 with hneg | hnonneg
      · simp [perform, get_negative hneg, Except.map] at hperform
      · rcases le_or_gt (maxDbNum : Int) db with hbeyond | hlt
        · simp only [perform, get_beyond hbeyond, Except.map, Except.ok.injEq] at hperform
          exact .inl hperform.symm
        · right
          have hval : ((⟨db.toNat, by omega⟩ : Fin maxDbNum).val : Int) = db :=
            Int.toNat_of_nonneg hnonneg
          refine ⟨.get ⟨db.toNat, by omega⟩ role index rand env, ?_⟩
          rw [step, hval]
          exact hperform
  | doCommand conn command wire => exact .inr ⟨.doCommand conn command wire, hperform⟩
  | done conn now => exact .inr ⟨.done conn now, hperform⟩
  | activeConnectionCount role =>
      obtain ⟨_, _, hsame⟩ := map_ok.mp hperform
      exact .inl hsame.symm
  | connectionInPool role =>
      obtain ⟨_, _, hsame⟩ := map_ok.mp hperform
      exact .inl hsame.symm
  | connectionInUse role =>
      obtain ⟨_, _, hsame⟩ := map_ok.mp hperform
      exact .inl hsame.symm
  | init => exact huses.elim
  | initEx => exact huses.elim
  | flush => exact huses.elim

/-- In use under a configuration, with every pool bound to its slot. -/
structure InUse (cfg : ManagerConfig) (w : ManagerWorld C) : Prop where
  intact : w.Intact
  config : w.toManagerConfig = cfg
  pools : w.AllPools (PoolCell.BoundTo cfg)

theorem Started.inUse {held : ConnPtr → Prop} (hw : w.Started h held) :
    w.InUse w.toManagerConfig :=
  ⟨hw.intact, rfl, hw.pools _ (keeps_boundTo h _)⟩

theorem InUse.use {cfg : ManagerConfig} (hw : w.InUse cfg) {call : PublicCall D W}
    (huses : call.Uses) (hperform : w.perform h call = .ok w') : w'.InUse cfg := by
  rcases perform_uses huses hperform with rfl | ⟨own, hstep⟩
  · exact hw
  · obtain ⟨hintact, rfl, hpools⟩ := hw
    obtain ⟨cell, _, hchange⟩ := hintact.step_change hstep
    refine ⟨hchange.intact, hchange.config, ?_⟩
    apply hintact.step_allPools (keeps_boundTo h _) hpools ?_ hstep
    exact fun _ _ _ _ _ _ _ hold hdo => hold.doCommand hdo

theorem InUse.uses {cfg : ManagerConfig} {calls : List (PublicCall D W)} (hw : w.InUse cfg)
    (huses : ∀ call ∈ calls, call.Uses) (hrun : run (perform h) w calls = .ok w') :
    w'.InUse cfg := by
  induction calls generalizing w with
  | nil =>
      cases hrun
      exact hw
  | cons call calls ih =>
      obtain ⟨w₁, hcall, hrest⟩ := run_cons_ok.mp hrun
      apply ih (hw.use (huses call (List.mem_cons_self ..)) hcall) _ hrest
      exact fun other hother => huses other (List.mem_cons_of_mem _ hother)

/-- `Get` asks the pool of a slot and no other, and the pool is bound to the
server and the database of the slot. -/
structure Consults (h : Hiredis C D W) (w w' : ManagerWorld C) (s : Slot) (db : Int)
    (env : GetEnv D W) (found : Option ConnPtr) : Prop where
  found : found = ((w.poolFor s).get h ⟨s, 0⟩ env).1.map (ConnPtr.mk ⟨s, 0⟩)
  change : SlotChange w w' s ((w.poolFor s).get h ⟨s, 0⟩ env).2
  db : ((w.poolFor s).binding.db : Int) = db
  server : ∃ addr, w.server s = some addr ∧ (w.poolFor s).binding.host = addr.host ∧
    (w.poolFor s).binding.port = addr.port

/-- `Get` returns NULL and changes nothing, or asks one pool that may serve it. -/
def Routes (h : Hiredis C D W) (w : ManagerWorld C) (db : Int) (role : RedisRole) (index : Int)
    (rand : Nat) (env : GetEnv D W) : Prop :=
  ∃ found w', w.get h db role index rand env = .ok (found, w') ∧
    (found = none ∧ w' = w ∨
      ∃ s, w.Routed db role index s ∧ Consults h w w' s db env found)

theorem InUse.consults {cfg : ManagerConfig} (hw : w.InUse cfg) (db : Fin maxDbNum)
    (role : RedisRole) (index : Int) (rand : Nat) (env : GetEnv D W) :
    Routes h w db.val role index rand env := by
  obtain ⟨hintact, rfl, hpools⟩ := hw
  obtain ⟨w', hget, hchange⟩ := hintact.get h db role index rand env rfl
  have hrouted := w.route_routed db role index rand
  have hdb := w.route_db db role index rand
  generalize w.route db role index rand = s at hget hchange hrouted hdb
  have hbound := AllPools.poolFor (h := h) hpools (keeps_boundTo h _) s
  have hserver : ∃ addr, w.server s = some addr := by
    cases hrouted with
    | master i hi hrole => exact ⟨_, rfl⟩
    | slave i j hi hrole hj hindex =>
        have hlength : j < w.slaveAddr.length := by
          rw [← hintact.slaves]
          exact hj
        exact ⟨_, List.getElem?_eq_getElem hlength⟩
  obtain ⟨addr, haddr⟩ := hserver
  refine ⟨_, w', hget, .inr ⟨s, hrouted, rfl, hchange, ?_, addr, haddr, ?_, ?_⟩⟩
  · rw [hbound.db, hdb]
  · exact hbound.host addr haddr
  · exact hbound.port addr haddr

/-- On a manager that was set up and used, `Get` routes a request exactly when
its database is not negative. -/
theorem get_routes_iff {w₀ w : ManagerWorld C} {calls : List (PublicCall D W)}
    (hinit : w₀.Initialised h true) (huses : ∀ call ∈ calls, call.Uses)
    (hrun : run (perform h) w₀ calls = .ok w) (db : Int) (role : RedisRole) (index : Int)
    (rand : Nat) (env : GetEnv D W) : Routes h w db role index rand env ↔ 0 ≤ db := by
  constructor
  · rintro ⟨found, w', hget, _⟩
    by_contra hneg
    rw [get_negative (by omega)] at hget
    cases hget
  · intro hnonneg
    rcases le_or_gt (maxDbNum : Int) db with hbeyond | hlt
    · exact ⟨none, w, get_beyond hbeyond role index rand env, .inl ⟨rfl, rfl⟩⟩
    · have hw := hinit.started.inUse.uses huses hrun
      have hroutes := hw.consults (h := h) ⟨db.toNat, by omega⟩ role index rand env
      have hval : ((⟨db.toNat, by omega⟩ : Fin maxDbNum).val : Int) = db :=
        Int.toNat_of_nonneg hnonneg
      rwa [hval] at hroutes

theorem get_routes_of_local :
    ∃ w : ManagerWorld Int,
      run (perform ConnectionWorld.scriptedHiredis) localManager [.get 3 .slave 7 0 localGet] =
        .ok w ∧
      Routes ConnectionWorld.scriptedHiredis w 5 .slave (-2) 0 localGet := by
  have hrun : ∃ w, run (perform ConnectionWorld.scriptedHiredis) localManager
      [.get 3 .slave 7 0 localGet] = .ok w := by
    simp only [localManager, localInit, init, parseAddressVector_localhost]
    exact ⟨_, rfl⟩
  obtain ⟨w, hrun⟩ := hrun
  refine ⟨w, hrun, ?_⟩
  apply (get_routes_iff localManager_initialised _ hrun 5 .slave (-2) 0 localGet).mpr
  · decide
  · intro call hcall
    cases List.mem_singleton.mp hcall
    trivial

/-- `Get` of database -1 reads `master_[-1]`. -/
theorem get_below_zero :
    localManager.Initialised ConnectionWorld.scriptedHiredis true ∧
      ¬Routes ConnectionWorld.scriptedHiredis localManager (-1) .master 0 0 localGet := by
  refine ⟨localManager_initialised, ?_⟩
  rintro ⟨found, w', hget, _⟩
  rw [get_negative (by decide)] at hget
  cases hget

end ManagerWorld

end CloRedis
