import CloRedis.Redis.Health
import CloRedis.Redis.Sessions
import Mathlib

/-!
What one borrower of a connection leaves to the next. `Done`, `Put` and `Get`
change nothing in a session: the next borrower finds what the commands of the
one before made of it.
-/

namespace CloRedis

open Library

variable {S N : Type*}

/-- The commands a borrower says to the connection of a block. -/
def LoanCall.said {D W : Type*} (block : Block) : List (LoanCall D W) → List (List String)
  | [] => []
  | .doCommand other (.words argv) _ :: rest =>
      if other = block then argv :: said block rest else said block rest
  | _ :: rest => said block rest

namespace RedisConnectionImpl

variable {P : Type*} {server : Server S N} {start : S} {asked : List (List String)}
  {conn : RedisConnectionImpl (RedisContext S) P}

/-- As long as nothing failed, the context is where `asked` took it. -/
def Spoken (server : Server S N) (start : S) (asked : List (List String))
    (conn : RedisConnectionImpl (RedisContext S) P) : Prop :=
  ∀ c, conn.redisContext = some c → c.err = 0 →
    ∃ sent taken, RedisContext.Tracks server start asked c sent taken

theorem context_before {command : Command} {w : Wire} {c' : RedisContext S}
    (hcontext : (conn.doCommand (hiredis server) command w).redisContext = some c')
    (herr : c'.err = 0) :
    ∃ c argv, conn.redisContext = some c ∧ c.err = 0 ∧ command = .words argv ∧
      c' = (RedisContext.redisvCommand server c command w).2 := by
  cases hbefore : conn.redisContext with
  | none =>
      have houtcome := doCommand_outcome (hiredis server) conn command w
      generalize conn.doCommand (hiredis server) command w = conn' at houtcome hcontext
      cases houtcome with
      | noContext _ hnone _ _ => simp [hnone] at hcontext
      | failed c hsome _ _ _ _ => simp [hbefore] at hsome
      | replied c tree hsome _ _ _ _ => simp [hbefore] at hsome
  | some c =>
      rw [doCommand_redisContext _ _ _ _ hbefore] at hcontext
      cases hcontext
      obtain ⟨hc, argv, hwords⟩ := RedisContext.err_of_redisvCommand herr
      exact ⟨c, argv, rfl, hc, hwords, rfl⟩

theorem Spoken.say (h : conn.Spoken server start asked) (argv : List String) (w : Wire) :
    (conn.doCommand (hiredis server) (.words argv) w).Spoken server start (asked ++ [argv]) := by
  intro c' hcontext herr
  obtain ⟨c, argv', hbefore, hc, hwords, rfl⟩ := context_before hcontext herr
  cases hwords
  obtain ⟨sent, taken, htracks⟩ := h c hbefore hc
  exact htracks.step herr

/-- A command that could not be formatted leaves an error behind. -/
theorem Spoken.stutter {command : Command} (hwords : ∀ argv, command ≠ .words argv) (w : Wire) :
    (conn.doCommand (hiredis server) command w).Spoken server start asked := by
  intro c' hcontext herr
  obtain ⟨c, argv, _, _, hargv, _⟩ := context_before hcontext herr
  exact absurd hargv (hwords argv)

end RedisConnectionImpl

abbrev SessionWorld (S : Type*) := ConnectionWorld (RedisContext S)

abbrev SessionCall (N : Type*) := LoanCall (Dial N) Wire

namespace SessionWorld

variable {server : Server S N} {o : ConnectionPoolOption} {b : Binding} {clock : Clock}

/-- Step of a pool of connections of the vendored hiredis. -/
abbrev step (server : Server S N) (o : ConnectionPoolOption) (b : Binding) (clock : Clock) :
    SessionWorld S → SessionCall N → Except Fault (SessionWorld S) :=
  ConnectionWorld.step (hiredis server) o b clock

/-- During a loan the connection is where the commands said to it took it. -/
theorem loan_spoken {loan : List (SessionCall N)} {w w' : SessionWorld S} {start : S}
    {asked : List (List String)} {item : ListItem (RedisConnectionImpl (RedisContext S) Unit)}
    (hbooks : w.Sound) (hitem : item ∈ w.lent) (hspoken : item.object.Spoken server start asked)
    (hkept : ∀ call ∈ loan, call ≠ .done item.block)
    (hrun : run (step server o b clock) w loan = .ok w') :
    ∃ item' ∈ w'.lent, item'.block = item.block ∧ item'.serial = item.serial ∧
      item'.object.Spoken server start (asked ++ LoanCall.said item.block loan) := by
  induction loan generalizing w item asked with
  | nil =>
      cases hrun
      refine ⟨item, hitem, rfl, rfl, ?_⟩
      simpa [LoanCall.said] using hspoken
  | cons call loan ih =>
      obtain ⟨next, hstep, hrest⟩ := run_cons_ok.mp hrun
      have hnext := ConnectionWorld.step_sound hbooks hstep
      have hkeptRest : ∀ other ∈ loan, other ≠ .done item.block :=
        fun other hmem => hkept other (List.mem_cons_of_mem _ hmem)
      by_cases hother : call.block ≠ some item.block
      · have hmem := ConnectionWorld.step_other hother hitem hstep
        have hsaid : LoanCall.said item.block (call :: loan) = LoanCall.said item.block loan := by
          cases call with
          | get _ _ _ => rfl
          | done _ => rfl
          | doCommand block command wire =>
              have hne : block ≠ item.block := fun heq => hother (congrArg some heq)
              cases command <;> simp [LoanCall.said, hne]
        rw [hsaid]
        exact ih hnext hmem hspoken hkeptRest hrest
      · cases call with
        | get _ _ _ => exact absurd (by simp [LoanCall.block]) hother
        | done block =>
            have hblock : block = item.block := Option.some.inj (not_not.mp hother)
            exact absurd (congrArg LoanCall.done hblock) (hkept _ (List.mem_cons_self ..))
        | doCommand block command wire =>
            have hblock : block = item.block := Option.some.inj (not_not.mp hother)
            subst hblock
            obtain ⟨taken, rest, htake, rfl⟩ := ConnectionWorld.step_do hstep
            cases ConnectionWorld.taken_eq hbooks hitem rfl htake
            have hmem := List.mem_cons_self (a := item.update fun conn =>
              conn.doCommand (hiredis server) command wire) (l := rest)
            cases command with
            | words argv =>
                have htail := ih hnext hmem (hspoken.say argv wire) hkeptRest hrest
                simpa [LoanCall.said, ListItem.update] using htail
            | outOfMemory =>
                have hspoken' : (item.object.doCommand (hiredis server) .outOfMemory wire).Spoken
                    server start asked :=
                  RedisConnectionImpl.Spoken.stutter (fun _ => Command.noConfusion) wire
                have htail := ih hnext hmem hspoken' hkeptRest hrest
                exact htail
            | invalidFormat =>
                have hspoken' : (item.object.doCommand (hiredis server) .invalidFormat wire).Spoken
                    server start asked :=
                  RedisConnectionImpl.Spoken.stutter (fun _ => Command.noConfusion) wire
                have htail := ih hnext hmem hspoken' hkeptRest hrest
                exact htail

/-- While a connection is not lent, it stays what it is. -/
theorem waiting {meanwhile : List (SessionCall N)} {w w' : SessionWorld S}
    {back : ListItem (RedisConnectionImpl (RedisContext S) Unit)}
    (hold : back.serial < w.pool.constructed ∧
      ∀ x ∈ w.pool.idle, x.serial = back.serial → x = back)
    (hunlent : Throughout (step server o b clock)
      (fun w => ∀ x ∈ w.lent, x.serial ≠ back.serial) w meanwhile)
    (hrun : run (step server o b clock) w meanwhile = .ok w') :
    back.serial < w'.pool.constructed ∧ ∀ x ∈ w'.pool.idle, x.serial = back.serial → x = back := by
  induction meanwhile generalizing w with
  | nil =>
      cases hrun
      exact hold
  | cons call meanwhile ih =>
      obtain ⟨next, hstep, hrest⟩ := run_cons_ok.mp hrun
      refine ih ?_ (hunlent.2 next hstep) hrest
      cases call with
      | get malloc garbage env =>
          cases hstep
          have heffect := ConnectionPool.get_effect o (clock.after w.now)
            (RedisConnectionImpl.callEnv (hiredis server) b () malloc garbage env) w.pool
          exact ⟨hold.1.trans_le heffect.constructed,
            fun x hx => hold.2 x (heffect.idle.subset hx)⟩
      | doCommand block command wire =>
          obtain ⟨taken, rest, htake, rfl⟩ := ConnectionWorld.step_do hstep
          exact hold
      | done block =>
          obtain ⟨taken, rest, htake, ⟨_, rfl⟩ | rfl⟩ := ConnectionWorld.step_done hstep
          · exact hold
          · have heffect := ConnectionPool.put_effect o (clock.read w.now)
              (taken.update fun conn => conn.done.2) taken.object.done.1 w.pool
            have htaken : taken.serial ≠ back.serial :=
              hunlent.1 taken ((takeFirst_perm htake).symm.subset (List.mem_cons_self ..))
            refine ⟨by rw [heffect.constructed]; exact hold.1, ?_⟩
            intro x hx hserial
            rcases heffect.idle x hx with hidle | ⟨_, rfl⟩
            · exact hold.2 x hidle hserial
            · exact absurd hserial htaken

/-- A connection is lent as `item`, fresh and with the context `c`; it is used
during `loan`, put back in the state `returned`, and waits until `later`. -/
structure HandOver (server : Server S N) (o : ConnectionPoolOption) (b : Binding) (clock : Clock)
    (w returned later : SessionWorld S)
    (item : ListItem (RedisConnectionImpl (RedisContext S) Unit)) (c : RedisContext S)
    (loan : List (SessionCall N)) : Prop where
  lent : item ∈ w.lent
  context : item.object.redisContext = some c
  fresh : c.FreshFor server b.db
  used : ∃ ended, run (step server o b clock) w loan = .ok ended ∧
    (∀ call ∈ loan, call ≠ .done item.block) ∧
    step server o b clock ended (.done item.block) = .ok returned
  back : ∃ x ∈ returned.pool.idle, x.serial = item.serial
  waited : ∃ meanwhile, run (step server o b clock) returned meanwhile = .ok later ∧
    Throughout (step server o b clock) (fun w => ∀ x ∈ w.lent, x.serial ≠ item.serial)
      returned meanwhile

section HandOver

variable {w returned later : SessionWorld S}
  {item : ListItem (RedisConnectionImpl (RedisContext S) Unit)} {c : RedisContext S}
  {loan : List (SessionCall N)}

/-- What is put back has a context without an error, where the commands of the
loan took it. -/
theorem HandOver.returned_context (hw : w.Sane (hiredis server))
    (h : HandOver server o b clock w returned later item c loan) :
    returned.Sane (hiredis server) ∧ ∃ back ∈ returned.pool.idle, back.serial = item.serial ∧
      ∃ c', back.object.redisContext = some c' ∧ c'.err = 0 ∧
        ∃ sent taken, RedisContext.Tracks server c.session (LoanCall.said item.block loan) c'
          sent taken := by
  obtain ⟨ended, hloan, hkept, hdone⟩ := h.used
  obtain ⟨x, hx, hserial⟩ := h.back
  have hended := hw.run hloan
  have hreturned := hended.step hdone
  have hspoken : item.object.Spoken server c.session [] := by
    intro c' hcontext _
    cases h.context.symm.trans hcontext
    exact ⟨[], [], h.fresh.quiet.tracks server⟩
  obtain ⟨item', hmem, hblock, hserial', hspoken'⟩ :=
    loan_spoken hw.books h.lent hspoken hkept hloan
  refine ⟨hreturned, x, hx, hserial, ?_⟩
  obtain ⟨taken, rest, htake, ⟨hnone, _⟩ | rfl⟩ := ConnectionWorld.step_done hdone
  · have htaken := hended.lent taken
      ((takeFirst_perm htake).symm.subset (List.mem_cons_self ..))
    simp [htaken.2] at hnone
  · cases ConnectionWorld.taken_eq hended.books hmem hblock htake
    have hother : ∀ y ∈ ended.pool.idle, y.serial ≠ item'.serial :=
      hended.books.serial_apart hmem
    rcases (ConnectionPool.put_effect o _ _ _ _).idle x hx with hidle | ⟨hok, rfl⟩
    · exact absurd (hserial.trans hserial'.symm) (hother x hidle)
    · obtain ⟨c', hcontext, herr⟩ := (hended.lent item' hmem).1.linked hok
      exact ⟨c', hcontext, herr, hspoken' c' hcontext herr⟩

/-- The next borrower gets the connection as it was put back. -/
theorem HandOver.next_eq (hw : returned.Sane (hiredis server))
    {back next : ListItem (RedisConnectionImpl (RedisContext S) Unit)}
    (hback : back ∈ returned.pool.idle) (hserial : back.serial = item.serial)
    (h : HandOver server o b clock w returned later item c loan) {readings : Clock}
    {env : CallEnv (RedisConnectionImpl (RedisContext S) Unit)}
    (hnext : next ∈ (later.pool.get o readings env).item) (hsame : next.serial = item.serial) :
    next = back := by
  obtain ⟨meanwhile, hrun, hunlent⟩ := h.waited
  rw [← hserial] at hunlent hsame
  have hunique := hw.books.serial_unique hback
  have hwaiting := waiting hunique hunlent hrun
  rcases (ConnectionPool.get_effect o readings env later.pool).item next hnext with hidle | hnew
  · exact hwaiting.2 next hidle hsame
  · have hfresh := hnew.serial
    omega

end HandOver

/-- With a password, a connection `Get` creates is fresh for the database of
its pool. When one that was borrowed fresh is put back, the next borrower
finds it fresh exactly if the commands said to it leave the database selected
and were answered by one reply each; and on a fresh connection a `Do` that
returns a reply returns the first reply to its own command. -/
theorem next_borrower_finds (hlawful : server.Lawful) (hanswers : server.Answers)
    (hpassword : b.password.length ≠ 0) {calls : List (SessionCall N)} {w : SessionWorld S}
    (hrun : run (step server o b clock) {} calls = .ok w) :
    (∀ (readings : Clock) (malloc : Bool) (garbage : ErrMsg) (env : ConnectEnv (Dial N) Wire),
      ∀ item ∈ (w.pool.get o readings
          (RedisConnectionImpl.callEnv (hiredis server) b () malloc garbage env)).item,
        item ∉ w.pool.idle →
        ∃ c, item.object.redisContext = some c ∧ c.FreshFor server b.db) ∧
    ∀ (returned later : SessionWorld S)
      (item next : ListItem (RedisConnectionImpl (RedisContext S) Unit)) (c : RedisContext S)
      (loan : List (SessionCall N)) (readings : Clock)
      (env : CallEnv (RedisConnectionImpl (RedisContext S) Unit)),
      HandOver server o b clock w returned later item c loan →
      next ∈ (later.pool.get o readings env).item → next.serial = item.serial →
      ∃ c', next.object.redisContext = some c' ∧ c'.err = 0 ∧
        (c'.FreshFor server b.db ↔
          server.db (server.execAll c.session (LoanCall.said item.block loan)).1 = b.db ∧
          (server.execAll c.session (LoanCall.said item.block loan)).2.length =
            (LoanCall.said item.block loan).length) ∧
        (c'.FreshFor server b.db → ∀ argv wire tree,
          (next.object.doCommand (hiredis server) (.words argv) wire).reply = some tree →
          (server.exec c'.session argv).2.head? = some tree) := by
  have hsane : w.Sane (hiredis server) := ConnectionWorld.Sane.new.run hrun
  constructor
  · intro readings malloc garbage env item hitem hnot
    rcases (ConnectionPool.get_effect o readings
        (RedisConnectionImpl.callEnv (hiredis server) b () malloc garbage env) w.pool).item
        item hitem with hidle | hnew
    · exact absurd hidle hnot
    · rcases hnew.builds with ⟨hnone, _⟩ | ⟨handler, hhandler, hinit⟩
      · cases hnone
      · cases hhandler
        exact RedisConnectionImpl.initHandler_fresh hlawful hpassword rfl hinit
  · intro returned later item next c loan readings env h hnext hsame
    obtain ⟨hreturned, back, hback, hserial, c', hcontext, herr, sent, taken, htracks⟩ :=
      h.returned_context hsane
    cases h.next_eq hreturned hback hserial hnext hsame
    refine ⟨c', hcontext, herr, htracks.freshFor_iff hanswers b.db, ?_⟩
    intro hfresh argv wire tree hreply
    obtain ⟨c₁, hcontext₁, _, hanswer, herr₁⟩ := RedisConnectionImpl.doCommand_reply hreply
    cases hcontext.symm.trans hcontext₁
    obtain ⟨reply, rest, hreplies, hfirst, _⟩ := hfresh.quiet.answer herr₁
    rw [hreplies, List.head?_cons]
    exact hfirst.symm.trans hanswer

/-- The database a `SELECT` with these arguments names. -/
def plainSelect (args : List String) : Option Nat :=
  (List.range 16).find? fun n => [toString (n : Int)] = args

/-- A server with sixteen databases. `SUBSCRIBE` is answered once for every
channel, any other command once. -/
def plainExec (s : Int) : List String → Int × List HiredisReply
  | [] => (s, [{ type := .error }])
  | word :: args =>
      if word = "SELECT" then
        match plainSelect args with
        | some n => ((n : Int), [{ type := .status, str := "OK".toList }])
        | none => (s, [{ type := .error, str := "ERR invalid DB index".toList }])
      else if word = "SUBSCRIBE" ∧ args ≠ [] then
        (s, args.map fun channel => { type := .array, str := channel.toList })
      else (s, [{ type := .status, str := word.toList }])

theorem plainExec_select (s : Int) (args : List String) :
    plainExec s ("SELECT" :: args) =
      match plainSelect args with
      | some n => ((n : Int), [{ type := .status, str := "OK".toList }])
      | none => (s, [{ type := .error, str := "ERR invalid DB index".toList }]) := by
  rw [plainExec, if_pos rfl]

theorem plainExec_auth (s : Int) (args : List String) :
    plainExec s ("AUTH" :: args) = (s, [{ type := .status, str := "AUTH".toList }]) := by
  have hsubscribe : ¬("AUTH" = "SUBSCRIBE" ∧ args ≠ []) := fun h => absurd h.1 (by decide)
  rw [plainExec, if_neg (by decide), if_neg hsubscribe]

def plainServer : Server Int Unit where
  accept _ _ _ := 0
  exec := plainExec
  db s := s

theorem plainServer_lawful : plainServer.Lawful where
  starts _ _ _ := rfl
  selects := by
    intro s n
    simp only [plainServer, selectCommand, plainExec_select]
    cases hfind : plainSelect [toString n] with
    | none => exact ⟨_, rfl, Or.inr ⟨rfl, rfl⟩⟩
    | some k =>
        have hword := List.find?_some hfind
        rw [decide_eq_true_eq, List.cons.injEq] at hword
        refine ⟨_, rfl, Or.inl ⟨ReplyType.noConfusion, ?_⟩⟩
        exact Int.repr_inj.mp hword.1
  auths := by
    intro s password
    simp only [plainServer, authCommand, plainExec_auth]
    exact le_rfl

theorem plainServer_answers : plainServer.Answers := by
  intro s argv
  change (plainExec s argv).2 ≠ []
  unfold plainExec
  split
  · exact List.cons_ne_nil _ _
  · split
    · split <;> exact List.cons_ne_nil _ _
    · split
      · rename_i hsubscribe
        intro hempty
        exact hsubscribe.2 (List.map_eq_nil_iff.mp hempty)
      · exact List.cons_ne_nil _ _

def smoothWire : Wire := ⟨true, none, none, .ok 0⟩

def ordersPool : Binding := ⟨"localhost", 6379, "secret", 200, 1⟩

/-- A new connection. -/
def freshGet : SessionCall Unit :=
  .get true ConnectionWorld.blankErrMsg ⟨⟨true, none, ()⟩, smoothWire, smoothWire⟩

/-- The first borrower selects another database, and its successor gets the
connection on that one. Or it subscribes to two channels, and its successor
reads the second answer in place of its own. -/
theorem session_inherited :
    (∃ w₁ w₂ : SessionWorld Int,
      run (step plainServer {} ordersPool (stillClock 5000 (by decide))) {}
        [freshGet, .doCommand 0 (.words (selectCommand 5)) smoothWire, .done 0] = .ok w₁ ∧
      w₁.pool.connInPool = 1 ∧
      step plainServer {} ordersPool (stillClock 5000 (by decide)) w₁ freshGet = .ok w₂ ∧
      ∃ item ∈ w₂.lent, ∃ c, item.object.redisContext = some c ∧
        plainServer.db c.session ≠ ordersPool.db) ∧
    ∃ w₁ w₂ : SessionWorld Int,
      run (step plainServer {} ordersPool (stillClock 5000 (by decide))) {}
        [freshGet, .doCommand 0 (.words ["SUBSCRIBE", "a", "b"]) smoothWire, .done 0] = .ok w₁ ∧
      w₁.pool.connInPool = 1 ∧
      run (step plainServer {} ordersPool (stillClock 5000 (by decide))) w₁
        [freshGet, .doCommand 0 (.words ["PING"]) smoothWire] = .ok w₂ ∧
      ∃ item ∈ w₂.lent, ∃ tree, item.object.reply = some tree ∧ tree.str = "b".toList := by
  refine ⟨⟨_, _, rfl, rfl, rfl, ?_⟩, ⟨_, _, rfl, rfl, rfl, ?_⟩⟩
  · exact ⟨_, List.mem_cons_self .., _, rfl, by decide⟩
  · exact ⟨_, List.mem_cons_self .., _, rfl, rfl⟩

/-- The state a run of the orders pool reaches. -/
def ordersAfter (calls : List (SessionCall Unit)) : SessionWorld Int :=
  (run (step plainServer {} ordersPool (stillClock 5000 fiveSeconds_lt)) {} calls).toOption.getD {}

theorem next_borrower_finds_after_ping :
    ∃ (w returned : SessionWorld Int)
      (item next : ListItem (RedisConnectionImpl (RedisContext Int) Unit)) (c : RedisContext Int),
      run (step plainServer {} ordersPool (stillClock 5000 (by decide))) {} [freshGet] = .ok w ∧
      HandOver plainServer {} ordersPool (stillClock 5000 (by decide)) w returned returned item c
        [.doCommand 0 (.words ["PING"]) smoothWire] ∧
      ∃ c', next.object.redisContext = some c' ∧ c'.FreshFor plainServer 1 := by
  have hrun : run (step plainServer {} ordersPool (stillClock 5000 (by decide))) {} [freshGet] =
      .ok (ordersAfter [freshGet]) := rfl
  have hand : HandOver plainServer {} ordersPool (stillClock 5000 (by decide))
      (ordersAfter [freshGet])
      (ordersAfter [freshGet, .doCommand 0 (.words ["PING"]) smoothWire, .done 0])
      (ordersAfter [freshGet, .doCommand 0 (.words ["PING"]) smoothWire, .done 0]) _ _
      [.doCommand 0 (.words ["PING"]) smoothWire] :=
    { lent := List.mem_cons_self ..
      context := rfl
      fresh := ⟨⟨rfl, rfl, rfl⟩, rfl⟩
      used := ⟨_, rfl, by simp, rfl⟩
      back := ⟨_, List.mem_cons_self .., rfl⟩
      waited := ⟨[], rfl, by
        intro x hx
        cases hx⟩ }
  have hfinds := (next_borrower_finds plainServer_lawful plainServer_answers (by decide) hrun).2
    _ _ _ _ _ _ (stillClock 5000 (by decide))
    ⟨true, .new (some ()) ConnectionWorld.blankErrMsg, none⟩ hand rfl rfl
  obtain ⟨c', hcontext, _, hfresh, _⟩ := hfinds
  exact ⟨_, _, _, _, _, hrun, hand, c', hcontext, hfresh.mpr ⟨rfl, rfl⟩⟩

end SessionWorld

end CloRedis
