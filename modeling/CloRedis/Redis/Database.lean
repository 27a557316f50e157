import CloRedis.Redis.Sessions

/-!
The database a session is on. It stays selected as long as every command that
reaches the server leaves it so, whether a `Do` sends the command at once or
leaves it in the buffer. A new connection is on the database of its pool only
when there is a password.
-/

namespace CloRedis

variable {S N P : Type*}

namespace Server

/-- On a session with database `db` selected the command leaves it so. -/
def Keeps (server : Server S N) (db : Int) (argv : List String) : Prop :=
  ∀ s, server.db s = db → server.db (server.exec s argv).1 = db

theorem execAll_keeps {server : Server S N} {db : Int} {asked : List (List String)} {s : S}
    (hs : server.db s = db) (hkeeps : ∀ argv ∈ asked, server.Keeps db argv) :
    server.db (server.execAll s asked).1 = db := by
  induction asked generalizing s with
  | nil => exact hs
  | cons argv asked ih =>
      have hfirst := hkeeps argv (List.mem_cons_self ..) s hs
      exact ih hfirst fun other hother => hkeeps other (List.mem_cons_of_mem _ hother)

end Server

/-- The commands a call hands to hiredis. -/
def Command.asked : Command → List (List String)
  | .words argv => [argv]
  | _ => []

namespace RedisContext

/-- `redisvCommand` sends commands from the buffer, and the one it is given. -/
theorem redisvCommand_sends (server : Server S N) (c : RedisContext S) (command : Command)
    (w : Wire) :
    ∃ sent, (∀ argv ∈ sent, argv ∈ c.obuf ++ command.asked) ∧
      (redisvCommand server c command w).2.session = (server.execAll c.session sent).1 ∧
      ∀ argv ∈ (redisvCommand server c command w).2.obuf, argv ∈ c.obuf ++ command.asked := by
  have hkept : ∀ argv ∈ c.obuf, argv ∈ c.obuf ++ command.asked :=
    fun argv hmem => List.mem_append_left _ hmem
  cases command with
  | outOfMemory => exact ⟨[], by simp, rfl, hkept⟩
  | invalidFormat => exact ⟨[], by simp, rfl, hkept⟩
  | words argv =>
      unfold redisvCommand redisGetReply flushAndRead
      dsimp only
      split
      · split
        · exact ⟨[], by simp, rfl, fun _ hmem => hmem⟩
        · split
          · exact ⟨[], by simp, rfl, fun _ hmem => hmem⟩
          · split
            · exact ⟨[], by simp, rfl, fun _ hmem => hmem⟩
            · split
              · rename_i n text _
                exact ⟨(c.obuf ++ [argv]).take n, fun _ hmem => List.take_subset _ _ hmem, rfl,
                  fun _ hmem => hmem⟩
              · split
                · exact ⟨c.obuf ++ [argv], fun _ hmem => hmem, rfl, by simp [setError]⟩
                · exact ⟨c.obuf ++ [argv], fun _ hmem => hmem, rfl, by simp [setError]⟩
                · exact ⟨c.obuf ++ [argv], fun _ hmem => hmem, rfl, by simp⟩
      · exact ⟨[], by simp, rfl, hkept⟩

/-- The session is on a database, and what waits in the buffer leaves it so. -/
structure OnDb (server : Server S N) (db : Int) (c : RedisContext S) : Prop where
  selected : server.db c.session = db
  waiting : ∀ argv ∈ c.obuf, server.Keeps db argv

theorem OnDb.redisvCommand {server : Server S N} {db : Int} {c : RedisContext S}
    {command : Command} (hc : c.OnDb server db)
    (hkeeps : ∀ argv ∈ command.asked, server.Keeps db argv) (w : Wire) :
    (RedisContext.redisvCommand server c command w).2.OnDb server db := by
  obtain ⟨sent, hsent, hsession, hobuf⟩ := redisvCommand_sends server c command w
  have hall : ∀ argv ∈ c.obuf ++ command.asked, server.Keeps db argv := by
    intro argv hmem
    rcases List.mem_append.mp hmem with hold | hnew
    · exact hc.waiting argv hold
    · exact hkeeps argv hnew
  constructor
  · rw [hsession]
    exact Server.execAll_keeps hc.selected fun argv hmem => hall argv (hsent argv hmem)
  · intro argv hmem
    exact hall argv (hobuf argv hmem)

end RedisContext

/-- The database of the new sessions of a pool. -/
def Binding.sessionDb (b : Binding) : Int :=
  if b.password = "" then 0 else b.db

namespace RedisConnectionImpl

/-- The connection has a context, and its session is on a database. -/
def OnDb (server : Server S N) (db : Int) (conn : RedisConnectionImpl (RedisContext S) P) : Prop :=
  ∃ c, conn.redisContext = some c ∧ c.OnDb server db

theorem OnDb.doCommand {server : Server S N} {db : Int}
    {conn : RedisConnectionImpl (RedisContext S) P} {command : Command}
    (hconn : conn.OnDb server db) (hkeeps : ∀ argv ∈ command.asked, server.Keeps db argv) (w : Wire) :
    (conn.doCommand (hiredis server) command w).OnDb server db := by
  obtain ⟨c, hcontext, hc⟩ := hconn
  exact ⟨_, doCommand_redisContext _ _ _ _ hcontext, hc.redisvCommand hkeeps w⟩

/-- Without a password `Init` is done before it comes to `SELECT`. -/
theorem initHandler_onDb {server : Server S N} (hlawful : server.Lawful) {b : Binding}
    {env : ConnectEnv (Dial N) Wire} {conn conn' : RedisConnectionImpl (RedisContext S) P}
    (hnew : conn.redisContext = none)
    (hinit : conn.initHandler (hiredis server) b env = (true, conn')) :
    conn'.OnDb server b.sessionDb := by
  by_cases hpassword : b.password = ""
  · have hconnected := initHandler_connected (hiredis server) b env conn hnew
    rw [hinit] at hconnected
    rw [Binding.sessionDb, if_pos hpassword]
    cases hconnected with
    | noPassword _ timeout c hdial herr _ hcontext _ _ =>
        obtain ⟨hquiet, hsession⟩ := dial_quiet hdial herr
        refine ⟨c, hcontext, ?_, ?_⟩
        · rw [hsession]
          exact hlawful.starts _ _ _
        · simp [hquiet.obuf]
    | selected _ _ _ _ _ _ _ hnonempty _ _ _ => simp [hpassword] at hnonempty
  · have hlength : b.password.length ≠ 0 := by simpa using hpassword
    obtain ⟨c, hcontext, hfresh⟩ := initHandler_fresh hlawful hlength hnew hinit
    rw [Binding.sessionDb, if_neg hpassword]
    refine ⟨c, hcontext, hfresh.selected, ?_⟩
    simp [hfresh.quiet.obuf]

end RedisConnectionImpl

end CloRedis
