import CloRedis.Manager.Projection
import CloRedis.Redis.Database
import CloRedis.Redis.Isolation

/-!
The database of the connections that `Get` returns. It travels with the init
handler of the slot to `Connect`, which selects it, but only when there is a
password.
-/

namespace CloRedis

open Library

variable {S N : Type}

namespace ManagerWorld

/-- Borrowers send no command that takes the session they hold to another
database. -/
def Harmless (server : Server S N) (w : ManagerWorld (RedisContext S)) :
    ManagerCall (Dial N) Wire → Prop
  | .doCommand conn command _ =>
      ∀ cell item c, w.cellAt conn.pool = some cell → item ∈ cell.world.lent →
        item.block = conn.block → item.object.redisContext = some c →
        ∀ argv ∈ command.asked, server.Keeps (server.db c.session) argv
  | _ => True

/-- The sessions of the pool of a slot are on the database they started with. -/
structure OnSlot (server : Server S N) (cfg : ManagerConfig) (s : Slot)
    (cell : PoolCell (RedisContext S)) : Prop where
  password : cell.binding.password = cfg.password
  db : cell.binding.db = s.db.val
  conns : cell.AllConns fun conn => conn.OnDb server cell.binding.sessionDb

theorem keeps_onSlot {server : Server S N} (hlawful : server.Lawful) (cfg : ManagerConfig) :
    Keeps (hiredis server) cfg (OnSlot server cfg) where
  fresh s := by
    have hnone : (cfg.freshPool s : PoolCell (RedisContext S)).AllConns
        fun conn => conn.OnDb server (cfg.freshPool s : PoolCell (RedisContext S)).binding.sessionDb := by
      intro item hitem
      cases s <;> simp [ManagerConfig.freshPool] at hitem
    cases s with
    | master db => exact ⟨rfl, rfl, hnone⟩
    | slave db index => exact ⟨rfl, rfl, hnone⟩
  get s cell env hcell := by
    refine ⟨hcell.password, hcell.db, hcell.conns.get ?_⟩
    intro conn hinit
    exact RedisConnectionImpl.initHandler_onDb hlawful rfl hinit
  done s cell block now cell' hcell hdone := by
    have hconns := hcell.conns.done (fun _ hconn => hconn) hdone
    obtain ⟨item, rest, _, rfl⟩ := PoolCell.done_ok hdone
    exact ⟨hcell.password, hcell.db, hconns⟩

theorem OnSlot.doCommand {server : Server S N} {cfg : ManagerConfig} {s : Slot}
    {cell cell' : PoolCell (RedisContext S)} {block : Block} {command : Command} {wire : Wire}
    (hcell : OnSlot server cfg s cell)
    (hkeeps : ∀ item ∈ cell.world.lent, item.block = block →
      ∀ c, item.object.redisContext = some c →
        ∀ argv ∈ command.asked, server.Keeps (server.db c.session) argv)
    (hdo : cell.doCommand (hiredis server) block command wire = .ok cell') :
    OnSlot server cfg s cell' := by
  have hconns := hcell.conns.doCommand (fun item hmem hblock hconn => by
    obtain ⟨c, hcontext, hc⟩ := hconn
    have hsent := hkeeps item hmem hblock c hcontext
    rw [hc.selected] at hsent
    exact RedisConnectionImpl.OnDb.doCommand ⟨c, hcontext, hc⟩ hsent wire) hdo
  obtain ⟨item, rest, _, rfl⟩ := PoolCell.doCommand_ok hdo
  exact ⟨hcell.password, hcell.db, hconns⟩

/-- In use, and every session is on the database it started with. -/
structure OnSlots (server : Server S N) (cfg : ManagerConfig)
    (w : ManagerWorld (RedisContext S)) : Prop where
  intact : w.Intact
  config : w.toManagerConfig = cfg
  pools : w.AllPools (OnSlot server cfg)

theorem OnSlots.step {server : Server S N} (hlawful : server.Lawful) {cfg : ManagerConfig}
    {w w' : ManagerWorld (RedisContext S)} {call : ManagerCall (Dial N) Wire}
    (hw : w.OnSlots server cfg) (hharmless : w.Harmless server call)
    (hstep : w.step (hiredis server) call = .ok w') : w'.OnSlots server cfg := by
  obtain ⟨hintact, rfl, hpools⟩ := hw
  obtain ⟨cell, _, hchange⟩ := hintact.step_change hstep
  refine ⟨hchange.intact, hchange.config, ?_⟩
  apply hintact.step_allPools (keeps_onSlot hlawful _) hpools ?_ hstep
  rintro conn command wire old new rfl hat hold hdo
  exact hold.doCommand (fun item hmem hblock c hcontext =>
    hharmless old item c hat hmem hblock hcontext) hdo

/-- When borrowers leave the databases alone, a connection `Get` returns has
its database selected exactly if there is a password or it is database 0. -/
theorem get_selects_iff {server : Server S N} (hlawful : server.Lawful) {ok : Bool}
    {w₀ w w' : ManagerWorld (RedisContext S)} {calls : List (ManagerCall (Dial N) Wire)}
    {db : Fin maxDbNum} {role : RedisRole} {index : Int} {rand : Nat} {env : GetEnv (Dial N) Wire}
    {conn : ConnPtr} (hinit : w₀.Initialised (hiredis server) ok)
    (hharmless : Along (step (hiredis server)) (Harmless server) w₀ calls)
    (hrun : run (step (hiredis server)) w₀ calls = .ok w)
    (hget : w.get (hiredis server) db.val role index rand env = .ok (some conn, w')) :
    ∃ cell item c, w'.cellAt conn.pool = some cell ∧ item ∈ cell.world.lent ∧
      item.block = conn.block ∧ item.object.redisContext = some c ∧
      (server.db c.session = db.val ↔ w₀.password ≠ "" ∨ db = 0) := by
  have hstart : w₀.OnSlots server w₀.toManagerConfig :=
    ⟨hinit.started.intact, rfl, hinit.started.pools _ (keeps_onSlot hlawful _)⟩
  have hend := invariant_of_along (fun _ _ _ hw hcall hstep => OnSlots.step hlawful hw hcall hstep)
    hstart hharmless hrun
  obtain ⟨w₁, hcall, hchange⟩ := hend.intact.get (hiredis server) db role index rand env rfl
  have hresult := Except.ok.inj (hcall.symm.trans hget)
  obtain ⟨block, hblock, hconn⟩ := Option.map_eq_some_iff.mp (congrArg Prod.fst hresult)
  cases congrArg Prod.snd hresult
  have hcell := (keeps_onSlot hlawful w.toManagerConfig).get _ _ env
    (AllPools.poolFor (h := hiredis server) (hend.config ▸ hend.pools) (keeps_onSlot hlawful _)
      (w.route db role index rand))
  obtain ⟨item, hitem, hlent⟩ := PoolCell.get_lent hblock
  obtain ⟨c, hcontext, hc⟩ := hcell.conns item (.inr hitem)
  refine ⟨_, item, c, ?_, hitem, ?_, hcontext, ?_⟩
  · rw [← hconn]
    have hcells := (hchange.intact.full hchange.here).2.1
    simp [cellAt, hcells]
  · rw [hlent, ← hconn]
  · rw [hc.selected, Binding.sessionDb, hcell.password, hcell.db, ManagerConfig.route_db,
      hend.config]
    by_cases hpassword : w₀.password = ""
    · rw [if_pos hpassword]
      constructor
      · intro hzero
        right
        exact_mod_cast hzero.symm
      · rintro (hne | rfl)
        · exact absurd hpassword hne
        · rfl
    · simp [hpassword]

def smoothGet : GetEnv (Dial Unit) Wire :=
  ⟨stillClock 5000 fiveSeconds_lt, true, ConnectionWorld.blankErrMsg,
    ⟨⟨true, none, ()⟩, SessionWorld.smoothWire, SessionWorld.smoothWire⟩⟩

def initWith (password : String) : Except Fault (InitResult (RedisContext Int)) :=
  init (hiredis SessionWorld.plainServer) {} "localhost:6379" password 200 none ⟨smoothGet, none⟩

def managerWith (password : String) : ManagerWorld (RedisContext Int) :=
  match initWith password with
  | .ok r => r.world
  | .error _ => {}

theorem managerWith_initialised {password : String} {errMsg : Option String}
    {w : ManagerWorld (RedisContext Int)} (hinit : initWith password = .ok ⟨true, errMsg, w⟩) :
    (managerWith password).Initialised (hiredis SessionWorld.plainServer) true := by
  have hworld : managerWith password = w := by
    unfold managerWith
    rw [hinit]
  rw [hworld]
  exact .init hinit

/-- Without a password a connection for database 3 is on database 0. -/
theorem database_not_selected :
    ∃ w₀ w' : ManagerWorld (RedisContext Int), ∃ conn cell item c,
      w₀.Initialised (hiredis SessionWorld.plainServer) true ∧
      w₀.get (hiredis SessionWorld.plainServer) 3 .master 0 0 smoothGet = .ok (some conn, w') ∧
      w'.cellAt conn.pool = some cell ∧ item ∈ cell.world.lent ∧ item.block = conn.block ∧
      item.object.redisContext = some c ∧ SessionWorld.plainServer.db c.session ≠ 3 := by
  have hinit : ∃ errMsg w, initWith "" = .ok ⟨true, errMsg, w⟩ := by
    unfold initWith init
    rw [parseAddressVector_localhost]
    exact ⟨_, _, rfl⟩
  obtain ⟨errMsg, w, hinit⟩ := hinit
  have hget : ∃ w' conn cell item c,
      (managerWith "").get (hiredis SessionWorld.plainServer) 3 .master 0 0 smoothGet =
        .ok (some conn, w') ∧
      w'.cellAt conn.pool = some cell ∧ item ∈ cell.world.lent ∧ item.block = conn.block ∧
      item.object.redisContext = some c ∧ SessionWorld.plainServer.db c.session ≠ 3 := by
    unfold managerWith initWith init
    rw [parseAddressVector_localhost]
    exact ⟨_, _, _, _, _, rfl, rfl, List.mem_cons_self .., rfl, rfl, by decide⟩
  obtain ⟨w', conn, cell, item, c, hget⟩ := hget
  exact ⟨_, w', conn, cell, item, c, managerWith_initialised hinit, hget⟩

theorem get_selects_of_password :
    ∃ w' : ManagerWorld (RedisContext Int), ∃ conn cell item c,
      (managerWith "secret").get (hiredis SessionWorld.plainServer) 3 .master 0 0 smoothGet =
        .ok (some conn, w') ∧
      w'.cellAt conn.pool = some cell ∧ item ∈ cell.world.lent ∧ item.block = conn.block ∧
      item.object.redisContext = some c ∧ SessionWorld.plainServer.db c.session = 3 := by
  have hinit : ∃ errMsg w, initWith "secret" = .ok ⟨true, errMsg, w⟩ ∧ w.password ≠ "" := by
    unfold initWith init
    rw [parseAddressVector_localhost]
    exact ⟨_, _, rfl, by decide⟩
  obtain ⟨errMsg, w, hinit, hpassword⟩ := hinit
  have hget : ∃ w' conn, (managerWith "secret").get (hiredis SessionWorld.plainServer)
      (3 : Fin maxDbNum).val .master 0 0 smoothGet = .ok (some conn, w') := by
    unfold managerWith initWith init
    rw [parseAddressVector_localhost]
    exact ⟨_, _, rfl⟩
  obtain ⟨w', conn, hget⟩ := hget
  obtain ⟨cell, item, c, hcell, hitem, hblock, hcontext, hselects⟩ :=
    get_selects_iff SessionWorld.plainServer_lawful (managerWith_initialised hinit)
      (along_nil _ _ _) rfl hget
  have hsecret : (managerWith "secret").password ≠ "" := by
    unfold managerWith
    rw [hinit]
    exact hpassword
  exact ⟨w', conn, cell, item, c, hget, hcell, hitem, hblock, hcontext,
    hselects.mpr (.inl hsecret)⟩

end ManagerWorld

end CloRedis
