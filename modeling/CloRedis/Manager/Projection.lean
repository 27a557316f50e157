import CloRedis.Library.Components
import CloRedis.Manager.Counts
import CloRedis.Manager.Init
import CloRedis.Redis.Health

/-!
The slots do not interfere. Every call is routed to one slot, and what it does
there is what the pool of the slot does alone, so the pool of a slot after a
run depends on the calls routed to it only.
-/

namespace CloRedis

open Library

variable {C D W : Type}

/-- The calls on a manager in use. -/
inductive ManagerCall (D W : Type) where
  | get (db : Fin maxDbNum) (role : RedisRole) (index : Int) (rand : Nat) (env : GetEnv D W)
  | doCommand (conn : ConnPtr) (command : Command) (wire : W)
  | done (conn : ConnPtr) (now : Option Timeval)

/-- The slot a call is routed to. -/
def ManagerCall.route (cfg : ManagerConfig) : ManagerCall D W → Slot
  | .get db role index rand _ => cfg.route db role index rand
  | .doCommand conn _ _ => conn.pool.slot
  | .done conn _ => conn.pool.slot

/-- A call about a connection of a pool, seen from the pool of the slot. -/
def PoolCell.onConn (conn : ConnPtr) (f : PoolCell C → Except Fault (PoolCell C)) :
    Option (PoolCell C) → Except Fault (Option (PoolCell C))
  | none => .error .notLent
  | some cell => if conn.pool.gen = 0 then (f cell).map some else .error .notLent

/-- What a call does to the pool of the slot it is routed to. -/
def PoolCell.ownStep (h : Hiredis C D W) (cfg : ManagerConfig) (s : Slot)
    (found : Option (PoolCell C)) : ManagerCall D W → Except Fault (Option (PoolCell C))
  | .get _ _ _ _ env => .ok (some ((found.getD (cfg.freshPool s)).get h ⟨s, 0⟩ env).2)
  | .doCommand conn command wire =>
      onConn conn (fun cell => cell.doCommand h conn.block command wire) found
  | .done conn now => onConn conn (fun cell => cell.done conn.block now) found

namespace ManagerWorld

variable {w w' : ManagerWorld C}

def step (h : Hiredis C D W) (w : ManagerWorld C) :
    ManagerCall D W → Except Fault (ManagerWorld C)
  | .get db role index rand env => (w.get h db.val role index rand env).map Prod.snd
  | .doCommand conn command wire => w.doCommand h conn command wire
  | .done conn now => w.done conn now

/-- A call about a connection reaches the pool the connection points to. -/
def atPool (w : ManagerWorld C) (conn : ConnPtr) (f : PoolCell C → Except Fault (PoolCell C)) :
    Except Fault (ManagerWorld C) :=
  match w.cellAt conn.pool with
  | none => .error .notLent
  | some cell => (f cell).map (w.setPool conn.pool)

theorem doCommand_atPool (h : Hiredis C D W) (conn : ConnPtr) (command : Command) (wire : W) :
    w.doCommand h conn command wire =
      w.atPool conn fun cell => cell.doCommand h conn.block command wire := by
  cases hcell : w.cellAt conn.pool with
  | none => simp [doCommand, atPool, hcell]
  | some cell =>
      rw [doCommand_eq hcell, atPool, hcell]

theorem Intact.done_atPool (hw : w.Intact) (conn : ConnPtr) (now : Option Timeval) :
    w.done conn now = w.atPool conn fun cell => cell.done conn.block now := by
  cases hcell : w.cellAt conn.pool with
  | none => simp [ManagerWorld.done, atPool, hcell]
  | some cell =>
      obtain ⟨hgen, hat⟩ := hw.cell_of_ptr hcell
      rw [atPool, hcell]
      obtain ⟨⟨s, gen⟩, block⟩ := conn
      cases hgen
      exact hw.done hat block now

theorem Intact.atPool_change (hw : w.Intact) {conn : ConnPtr}
    {f : PoolCell C → Except Fault (PoolCell C)}
    (hf : ∀ ptr cell cell', cell.Intact ptr → f cell = .ok cell' → cell'.Intact ptr)
    (hat : w.atPool conn f = .ok w') :
    ∃ cell, PoolCell.onConn conn f (w.poolAt conn.pool.slot) = .ok (some cell) ∧
      SlotChange w w' conn.pool.slot cell := by
  cases hcell : w.cellAt conn.pool with
  | none => simp [atPool, hcell] at hat
  | some cell =>
      obtain ⟨hgen, hpool⟩ := hw.cell_of_ptr hcell
      cases hf' : f cell with
      | error fault => simp [atPool, hcell, hf', Except.map] at hat
      | ok cell' =>
          simp only [atPool, hcell, hf', Except.map, Except.ok.injEq] at hat
          have hptr : conn.pool = ⟨conn.pool.slot, 0⟩ := by rw [← hgen]
          have hintact := hf _ cell cell' (hw.full hpool).2.2 hf'
          have hchange := hw.setPool hpool hintact
          rw [← hptr, hat] at hchange
          refine ⟨cell', ?_, hchange⟩
          simp [PoolCell.onConn, hpool, hgen, hf', Except.map]

theorem Intact.atPool_enabled (hw : w.Intact) {conn : ConnPtr}
    {f : PoolCell C → Except Fault (PoolCell C)} {found : Option (PoolCell C)}
    (hown : PoolCell.onConn conn f (w.poolAt conn.pool.slot) = .ok found) :
    ∃ w', w.atPool conn f = .ok w' := by
  cases hpool : w.poolAt conn.pool.slot with
  | none => simp [PoolCell.onConn, hpool] at hown
  | some cell =>
      simp only [PoolCell.onConn, hpool] at hown
      split at hown
      · rename_i hgen
        have hcell : w.cellAt conn.pool = some cell := by
          simp [cellAt, (hw.full hpool).2.1, hgen]
        cases hf : f cell with
        | error fault => simp [hf, Except.map] at hown
        | ok cell' => exact ⟨_, by simp only [atPool, hcell, hf, Except.map]; rfl⟩
      · cases hown

/-- A call changes the pool of its slot as the pool alone does. -/
theorem Intact.step_change (hw : w.Intact) {h : Hiredis C D W} {call : ManagerCall D W}
    (hstep : w.step h call = .ok w') :
    ∃ cell, PoolCell.ownStep h w.toManagerConfig (call.route w.toManagerConfig)
        (w.poolAt (call.route w.toManagerConfig)) call = .ok (some cell) ∧
      SlotChange w w' (call.route w.toManagerConfig) cell := by
  cases call with
  | get db role index rand env =>
      obtain ⟨w₁, hget, hchange⟩ := hw.get h db role index rand env rfl
      simp only [step, hget, Except.map, Except.ok.injEq] at hstep
      subst hstep
      exact ⟨_, rfl, hchange⟩
  | doCommand conn command wire =>
      rw [step, doCommand_atPool] at hstep
      exact hw.atPool_change (fun _ _ _ hcell hdo => hcell.doCommand hdo) hstep
  | done conn now =>
      rw [step, hw.done_atPool] at hstep
      exact hw.atPool_change (fun _ _ _ hcell hdone => hcell.done hdone) hstep

theorem Intact.step_enabled (hw : w.Intact) {h : Hiredis C D W} {call : ManagerCall D W}
    {found : Option (PoolCell C)}
    (hown : PoolCell.ownStep h w.toManagerConfig (call.route w.toManagerConfig)
      (w.poolAt (call.route w.toManagerConfig)) call = .ok found) :
    ∃ w', w.step h call = .ok w' := by
  cases call with
  | get db role index rand env =>
      obtain ⟨w₁, hget, _⟩ := hw.get h db role index rand env rfl
      exact ⟨w₁, by simp only [step, hget, Except.map]⟩
  | doCommand conn command wire =>
      rw [step, doCommand_atPool]
      exact hw.atPool_enabled hown
  | done conn now =>
      rw [step, hw.done_atPool]
      exact hw.atPool_enabled hown

theorem onConn_ok {conn : ConnPtr} {f : PoolCell C → Except Fault (PoolCell C)}
    {found : Option (PoolCell C)} {cell : PoolCell C}
    (hown : PoolCell.onConn conn f found = .ok (some cell)) :
    ∃ old, found = some old ∧ conn.pool.gen = 0 ∧ f old = .ok cell := by
  cases found with
  | none => cases hown
  | some old =>
      unfold PoolCell.onConn at hown
      dsimp only at hown
      split at hown
      · rename_i hgen
        cases hf : f old with
        | error fault => simp [hf, Except.map] at hown
        | ok cell' =>
            simp only [hf, Except.map, Except.ok.injEq, Option.some.injEq] at hown
            exact ⟨old, rfl, hgen, congrArg Except.ok hown ▸ hf⟩
      · cases hown

/-- A property that `Get` and `Done` keep holds after a call, if the commands
keep it too. -/
theorem Intact.step_allPools (hw : w.Intact) {h : Hiredis C D W} {call : ManagerCall D W}
    {P : Slot → PoolCell C → Prop} (hP : Keeps h w.toManagerConfig P) (hall : w.AllPools P)
    (hdo : ∀ conn command wire cell cell', call = .doCommand conn command wire →
      w.cellAt conn.pool = some cell → P conn.pool.slot cell →
      cell.doCommand h conn.block command wire = .ok cell' → P conn.pool.slot cell')
    (hstep : w.step h call = .ok w') : w'.AllPools P := by
  obtain ⟨cell, hown, hchange⟩ := hw.step_change hstep
  apply hall.change hchange
  cases call with
  | get db role index rand env =>
      cases hown
      exact hP.get _ _ env (hall.poolFor hP (w.route db role index rand))
  | doCommand conn command wire =>
      obtain ⟨old, hpool, hgen, hcell⟩ := onConn_ok hown
      have hat : w.cellAt conn.pool = some old := by
        simp only [ManagerCall.route] at hpool
        simp [cellAt, (hw.full hpool).2.1, hgen]
      exact hdo conn command wire old cell rfl hat (hall _ old hpool) hcell
  | done conn now =>
      obtain ⟨old, hpool, _, hcell⟩ := onConn_ok hown
      exact hP.done _ old conn.block now cell (hall _ old hpool) hcell

/-- A manager in use is made of its slots. -/
theorem components (h : Hiredis C D W) (cfg : ManagerConfig) :
    Components (step h) (poolAt (C := C)) (ManagerCall.route cfg) (PoolCell.ownStep h cfg)
      (fun w => w.Intact ∧ w.toManagerConfig = cfg) where
  preserved := by
    rintro w call w' ⟨hw, rfl⟩ hstep
    obtain ⟨cell, _, hchange⟩ := hw.step_change hstep
    exact ⟨hchange.intact, hchange.config⟩
  acts := by
    rintro w call w' ⟨hw, rfl⟩ hstep
    obtain ⟨cell, hown, hchange⟩ := hw.step_change hstep
    rw [hchange.here]
    exact hown
  frame := by
    rintro w call w' k ⟨hw, rfl⟩ hstep hk
    obtain ⟨cell, _, hchange⟩ := hw.step_change hstep
    exact hchange.others k hk
  enabled := by
    rintro w call found ⟨hw, rfl⟩ hown
    exact hw.step_enabled hown

/-- A new manager on which `Init` or `InitEx` returned. -/
inductive Initialised (h : Hiredis C D W) (ok : Bool) (w : ManagerWorld C) : Prop where
  | init {host password : String} {timeoutMs : Int} {option : Option ConnectionPoolOption}
      {env : ProbeEnv D W} {errMsg : Option String} :
      ManagerWorld.init h {} host password timeoutMs option env = .ok ⟨ok, errMsg, w⟩ →
        Initialised h ok w
  | initEx {masterHost slaveHosts password : String} {timeoutMs : Int}
      {option : Option ConnectionPoolOption} {masterEnv slaveEnv : ProbeEnv D W}
      {errMsg : Option String} :
      ManagerWorld.initEx h {} masterHost slaveHosts password timeoutMs option masterEnv slaveEnv =
        .ok ⟨ok, errMsg, w⟩ → Initialised h ok w

theorem Initialised.started {h : Hiredis C D W} {ok : Bool} (hw : w.Initialised h ok) :
    w.Started h fun _ => False := by
  cases hw with
  | init hinit => exact init_started hinit
  | initEx hinit => exact initEx_started hinit

/-- The pool of a slot is the one that the calls routed to it make, calls
routed to different slots commute, and the counting methods add up what the
pools of a role hold: every pool of the role, and each of them once. -/
theorem slots_independent {h : Hiredis C D W} {w₀ w : ManagerWorld C}
    {calls : List (ManagerCall D W)} (hinit : w₀.Initialised h true)
    (hrun : run (step h) w₀ calls = .ok w) :
    (∀ s, ∃ w₁, run (step h) w₀ (calls.filter fun call => call.route w₀.toManagerConfig = s) =
        .ok w₁ ∧ w₁.poolAt s = w.poolAt s) ∧
      (∀ first second w₁, first.route w₀.toManagerConfig ≠ second.route w₀.toManagerConfig →
        run (step h) w [first, second] = .ok w₁ →
          ∃ w₂, run (step h) w [second, first] = .ok w₂ ∧ ∀ s, w₂.poolAt s = w₁.poolAt s) ∧
      ∀ role,
        (w.slots role).Nodup ∧
        (∀ s cell, w.poolAt s = some cell → s.role = role → s ∈ w.slots role) ∧
        w.activeConnectionCount role = .ok (w.slotSum role fun cell =>
          cell.world.pool.idle.length + cell.world.lent.length) ∧
        w.connectionInPool role = .ok (w.slotSum role fun cell => cell.world.pool.idle.length) ∧
        w.connectionInUse role = .ok (w.slotSum role fun cell => cell.world.lent.length) := by
  have hcomponents := components h w₀.toManagerConfig
  have hstart : w₀.Intact ∧ w₀.toManagerConfig = w₀.toManagerConfig := ⟨hinit.started.intact, rfl⟩
  have hend := run_invariant hcomponents.preserved hstart hrun
  refine ⟨fun s => hcomponents.run_filter hstart hrun s, ?_, fun role => ?_⟩
  · intro first second w₁ hne hpair
    exact hcomponents.commute hend hne hpair
  · refine ⟨w.slots_nodup role, ?_, hend.1.activeConnectionCount role,
      hend.1.connectionInPool role, hend.1.connectionInUse role⟩
    rintro s cell hcell rfl
    exact hend.1.mem_slots hcell

def localGet : GetEnv Unit Bool :=
  ⟨stillClock 5000 fiveSeconds_lt, true, ConnectionWorld.blankErrMsg, ⟨(), true, true⟩⟩

def localInit : Except Fault (InitResult Int) :=
  init ConnectionWorld.scriptedHiredis {} "localhost:6379" "" 200 none ⟨localGet, none⟩

def localManager : ManagerWorld Int :=
  match localInit with
  | .ok r => r.world
  | .error _ => {}

theorem localManager_initialised :
    localManager.Initialised ConnectionWorld.scriptedHiredis true := by
  have hinit : ∃ errMsg w, localInit = .ok ⟨true, errMsg, w⟩ := by
    simp only [localInit, init, parseAddressVector_localhost]
    exact ⟨_, _, rfl⟩
  obtain ⟨errMsg, w, hinit⟩ := hinit
  have hworld : localManager = w := by
    simp only [localManager, hinit]
  rw [hworld]
  exact .init hinit

theorem slots_independent_of_two_databases :
    ∃ w w₁ : ManagerWorld Int,
      run (step ConnectionWorld.scriptedHiredis) localManager
        [.get 0 .master 0 0 localGet, .get 3 .slave 0 7 localGet, .done ⟨⟨.master 0, 0⟩, 0⟩ none] =
          .ok w ∧
      run (step ConnectionWorld.scriptedHiredis) localManager
        [.get 3 .slave 0 7 localGet] = .ok w₁ ∧
      w₁.poolAt (.master 3) = w.poolAt (.master 3) ∧ w.connectionInUse .master = .ok 1 := by
  have hrun : ∃ w, run (step ConnectionWorld.scriptedHiredis) localManager
      [.get 0 .master 0 0 localGet, .get 3 .slave 0 7 localGet, .done ⟨⟨.master 0, 0⟩, 0⟩ none] =
        .ok w ∧ (w.slotSum .master fun cell => cell.world.lent.length) = 1 := by
    simp only [localManager, localInit, init, parseAddressVector_localhost]
    exact ⟨_, rfl, by decide⟩
  obtain ⟨w, hrun, hsum⟩ := hrun
  have hslots := slots_independent localManager_initialised hrun
  obtain ⟨w₁, hrun₁, hpool⟩ := hslots.1 (.master 3)
  refine ⟨w, w₁, hrun, ?_, hpool, ?_⟩
  · have hfilter : [ManagerCall.get 0 .master 0 0 localGet, .get 3 .slave 0 7 localGet,
        .done ⟨⟨.master 0, 0⟩, 0⟩ none].filter
          (fun call => call.route localManager.toManagerConfig = Slot.master 3) =
        [.get 3 .slave 0 7 localGet] := by
      simp only [localManager, localInit, init, parseAddressVector_localhost]
      rfl
    rwa [hfilter] at hrun₁
  · obtain ⟨_, _, _, _, hinUse⟩ := hslots.2.2 .master
    rw [hinUse, hsum]

end ManagerWorld

end CloRedis
