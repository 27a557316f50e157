import CloRedis.Redis.Connection

/-!
The session behind a connection: what its commands have made of it, and which
replies wait to be read. Every `Do` that does not fail takes one reply, the
first unread one, so the two sides stay in step only as long as every command
is answered by one reply.
-/

namespace CloRedis

variable {S N P : Type*}

namespace Server

/-- Every command is answered. -/
def Answers (server : Server S N) : Prop := ∀ s argv, (server.exec s argv).2 ≠ []

/-- A new session is on database 0; `SELECT` is answered once, selects when
the answer is no error and changes no database otherwise; `AUTH` is answered
at most once. -/
structure Lawful (server : Server S N) : Prop where
  starts : ∀ host port n, server.db (server.accept host port n) = 0
  selects : ∀ s n, ∃ reply, (server.exec s (selectCommand n)).2 = [reply] ∧
    (reply.type ≠ .error ∧ server.db (server.exec s (selectCommand n)).1 = n ∨
      reply.type = .error ∧ server.db (server.exec s (selectCommand n)).1 = server.db s)
  auths : ∀ s password, (server.exec s (authCommand password)).2.length ≤ 1

theorem execAll_cons (server : Server S N) (s : S) (argv : List String)
    (rest : List (List String)) :
    server.execAll s (argv :: rest) =
      ((server.execAll (server.exec s argv).1 rest).1,
        (server.exec s argv).2 ++ (server.execAll (server.exec s argv).1 rest).2) := rfl

theorem execAll_append (server : Server S N) (s : S) (first second : List (List String)) :
    server.execAll s (first ++ second) =
      ((server.execAll (server.execAll s first).1 second).1,
        (server.execAll s first).2 ++ (server.execAll (server.execAll s first).1 second).2) := by
  induction first generalizing s with
  | nil => rfl
  | cons argv first ih =>
      simp only [List.cons_append, execAll_cons, ih, List.append_assoc]

theorem execAll_singleton (server : Server S N) (s : S) (argv : List String) :
    server.execAll s [argv] = server.exec s argv := by
  simp [execAll]

/-- With every command answered there are at least as many replies. -/
theorem Answers.length_le {server : Server S N} (h : server.Answers) (s : S)
    (asked : List (List String)) : asked.length ≤ (server.execAll s asked).2.length := by
  induction asked generalizing s with
  | nil => exact Nat.zero_le _
  | cons argv asked ih =>
      have hfirst := List.length_pos_iff.mpr (h s argv)
      have hrest := ih (server.exec s argv).1
      rw [execAll_cons]
      simp only [List.length_cons, List.length_append]
      omega

end Server

namespace RedisContext

/-- Nothing unsent and nothing unread. -/
structure Quiet (c : RedisContext S) : Prop where
  obuf : c.obuf = []
  reader : c.reader = []
  socket : c.socket = []

/-- As a new connection of a pool for the database is. -/
structure FreshFor (server : Server S N) (db : Int) (c : RedisContext S) : Prop where
  quiet : c.Quiet
  selected : server.db c.session = db

theorem err_of_redisvCommand {server : Server S N} {c : RedisContext S} {command : Command}
    {w : Wire} (h : (redisvCommand server c command w).2.err = 0) :
    c.err = 0 ∧ ∃ argv, command = .words argv := by
  have hreplied := redisvCommand_replied server c command w
  generalize redisvCommand server c command w = r at hreplied h
  cases hreplied with
  | failed reply c' herr => exact absurd h herr
  | pending argv reply rest hwords herr _ => exact ⟨herr, argv, hwords⟩
  | answered argv session replies reply rest n hwords herr _ _ _ => exact ⟨herr, argv, hwords⟩

/-- On a quiet context a command that does not fail returns its own first
reply; what else it was answered is left unread. -/
theorem Quiet.answer {server : Server S N} {c : RedisContext S} {argv : List String} {w : Wire}
    (hquiet : c.Quiet) (h : (redisvCommand server c (.words argv) w).2.err = 0) :
    ∃ reply rest, (server.exec c.session argv).2 = reply :: rest ∧
      (redisvCommand server c (.words argv) w).1 = some reply ∧
      (redisvCommand server c (.words argv) w).2.session = (server.exec c.session argv).1 ∧
      (redisvCommand server c (.words argv) w).2.obuf = [] ∧
      (redisvCommand server c (.words argv) w).2.reader ++
        (redisvCommand server c (.words argv) w).2.socket = rest := by
  have hreplied := redisvCommand_replied server c (.words argv) w
  generalize redisvCommand server c (.words argv) w = r at hreplied h ⊢
  cases hreplied with
  | failed reply c' herr => exact absurd h herr
  | pending argv reply rest _ _ hreader =>
      rw [hquiet.reader] at hreader
      cases hreader
  | answered argv' session replies reply rest n hwords _ _ hexec hsent =>
      cases hwords
      rw [hquiet.obuf, List.nil_append, Server.execAll_singleton] at hexec
      rw [hquiet.socket, List.nil_append] at hsent
      rw [hexec]
      refine ⟨reply, rest, hsent, rfl, rfl, rfl, ?_⟩
      exact List.take_append_drop n rest

/-- The commands `asked` since the session was `start`: those sent have been
executed, the others wait in the buffer; one reply was taken for each command,
and the replies left are unread. -/
structure Tracks (server : Server S N) (start : S) (asked : List (List String))
    (c : RedisContext S) (sent : List (List String)) (taken : List HiredisReply) : Prop where
  order : asked = sent ++ c.obuf
  session : c.session = (server.execAll start sent).1
  replies : (server.execAll start sent).2 = taken ++ c.unread
  count : taken.length = asked.length

theorem Quiet.tracks {c : RedisContext S} (server : Server S N) (h : c.Quiet) :
    Tracks server c.session [] c [] [] where
  order := by
    rw [h.obuf]
    rfl
  session := rfl
  replies := by simp [unread, h.reader, h.socket, Server.execAll]
  count := rfl

theorem Tracks.step {server : Server S N} {start : S} {asked sent : List (List String)}
    {c : RedisContext S} {taken : List HiredisReply} {argv : List String} {w : Wire}
    (h : Tracks server start asked c sent taken)
    (herr : (redisvCommand server c (.words argv) w).2.err = 0) :
    ∃ sent taken, Tracks server start (asked ++ [argv])
      (redisvCommand server c (.words argv) w).2 sent taken := by
  have hreplied := redisvCommand_replied server c (.words argv) w
  generalize redisvCommand server c (.words argv) w = r at hreplied herr ⊢
  cases hreplied with
  | failed reply c' hbad => exact absurd herr hbad
  | pending argv' reply rest hwords _ hreader =>
      cases hwords
      refine ⟨sent, taken ++ [reply], ?_, h.session, ?_, ?_⟩
      · rw [h.order, List.append_assoc]
      · rw [h.replies]
        simp [unread, hreader]
      · simp [h.count]
  | answered argv' session replies reply rest n hwords _ hreader hexec hsent =>
      cases hwords
      refine ⟨sent ++ (c.obuf ++ [argv]), taken ++ [reply], ?_, ?_, ?_, ?_⟩
      · rw [h.order, List.append_assoc, List.append_nil]
      · rw [Server.execAll_append, ← h.session, hexec]
      · rw [Server.execAll_append, ← h.session, hexec, h.replies]
        dsimp only
        rw [unread, hreader, List.nil_append, List.append_assoc, hsent]
        simp [unread]
      · simp [h.count]

/-- After a sequence of commands the connection is fresh for a database
exactly if they leave it selected and were answered by one reply each. -/
theorem Tracks.freshFor_iff {server : Server S N} {start : S} {asked sent : List (List String)}
    {c : RedisContext S} {taken : List HiredisReply} (hanswers : server.Answers) (db : Int)
    (h : Tracks server start asked c sent taken) :
    c.FreshFor server db ↔
      server.db (server.execAll start asked).1 = db ∧
        (server.execAll start asked).2.length = asked.length := by
  have htaken := h.count
  constructor
  · intro hfresh
    have hall : asked = sent := by rw [h.order, hfresh.quiet.obuf, List.append_nil]
    rw [hall]
    constructor
    · rw [← h.session]
      exact hfresh.selected
    · rw [h.replies, unread, hfresh.quiet.reader, hfresh.quiet.socket, List.append_nil,
        List.append_nil, htaken, hall]
  · rintro ⟨hdb, hlength⟩
    have hbuffered := hanswers.length_le (server.execAll start sent).1 c.obuf
    have hsplit : (server.execAll start asked).2.length =
        asked.length + c.unread.length +
          (server.execAll (server.execAll start sent).1 c.obuf).2.length := by
      conv_lhs => rw [h.order, Server.execAll_append, h.replies]
      simp only [List.length_append]
      omega
    have hobuf : c.obuf = [] := List.length_eq_zero_iff.mp (by omega)
    have hunread : c.unread = [] := List.length_eq_zero_iff.mp (by omega)
    obtain ⟨hreader, hsocket⟩ := List.append_eq_nil_iff.mp hunread
    refine ⟨⟨hobuf, hreader, hsocket⟩, ?_⟩
    rw [h.session, ← hdb]
    conv_rhs => rw [h.order, hobuf, List.append_nil]

end RedisContext

namespace RedisConnectionImpl

theorem dial_quiet {server : Server S N} {host : String} {port : Int} {timeout : Timeout}
    {d : Dial N} {c : RedisContext S}
    (hdial : (hiredis server).redisConnectWithTimeout host port timeout d = some c)
    (herr : c.err = 0) : c.Quiet ∧ c.session = server.accept host port d.seed := by
  simp only [hiredis, RedisContext.redisConnectWithTimeout] at hdial
  split at hdial
  · split at hdial
    · cases hdial
      exact absurd herr (RedisContext.setError_err_ne_zero _ _ _)
    · cases hdial
      exact ⟨⟨rfl, rfl, rfl⟩, rfl⟩
  · cases hdial

/-- A `Do` that returns a reply has asked hiredis in the context it found. -/
theorem doCommand_reply {C D W : Type*} {h : Hiredis C D W} {conn : RedisConnectionImpl C P}
    {command : Command} {w : W} {tree : HiredisReply}
    (hreply : (conn.doCommand h command w).reply = some tree) :
    ∃ c, conn.redisContext = some c ∧
      (conn.doCommand h command w).redisContext = some (h.redisvCommand c command w).2 ∧
      (h.redisvCommand c command w).1 = some tree ∧
      h.err (h.redisvCommand c command w).2 = 0 := by
  have houtcome := doCommand_outcome h conn command w
  generalize conn.doCommand h command w = conn' at houtcome hreply ⊢
  cases houtcome with
  | noContext _ _ hnone _ => simp [hnone] at hreply
  | failed c _ _ hnone _ _ => simp [hnone] at hreply
  | replied c tree' hcontext hcontext' htree hanswer herr =>
      cases htree.symm.trans hreply
      exact ⟨c, hcontext, hcontext', hanswer, herr⟩

/-- With a password, a connection that `Init` accepts is fresh for its
database. -/
theorem initHandler_fresh {server : Server S N} (hlawful : server.Lawful) {b : Binding}
    (hpassword : b.password.length ≠ 0) {env : ConnectEnv (Dial N) Wire}
    {conn conn' : RedisConnectionImpl (RedisContext S) P} (hnew : conn.redisContext = none)
    (hinit : conn.initHandler (hiredis server) b env = (true, conn')) :
    ∃ c, conn'.redisContext = some c ∧ c.FreshFor server b.db := by
  have hconnected := initHandler_connected (hiredis server) b env conn hnew
  rw [hinit] at hconnected
  cases hconnected with
  | noPassword _ timeout c _ _ hempty _ _ _ => exact absurd hempty hpassword
  | selected opened _ _ timeout c hdial herr _ hopened hconn hok =>
      have hquiet := (dial_quiet hdial herr).1
      obtain ⟨tree, hreply, htype⟩ : ∃ tree, conn'.reply = some tree ∧ tree.type ≠ .error := by
        unfold RedisReply.ok at hok
        cases hreply : conn'.reply with
        | none => simp [hreply] at hok
        | some tree => exact ⟨tree, rfl, by simpa [hreply] using hok⟩
      rw [hconn] at hreply
      obtain ⟨c₁, hcontext₁, hcontext₂, hanswer, herr₂⟩ := doCommand_reply hreply
      -- `AUTH` took the only reply there was
      have herr₁ := (RedisContext.err_of_redisvCommand herr₂).1
      have hc₁ : c₁ = ((hiredis server).redisvCommand c (.words (authCommand b.password))
          env.auth).2 :=
        Option.some.inj (hcontext₁.symm.trans (doCommand_redisContext _ _ _ _ hopened))
      have hquiet₁ : c₁.Quiet := by
        rw [hc₁] at herr₁ ⊢
        obtain ⟨reply, rest, hreplies, _, _, hobuf, hrest⟩ := hquiet.answer herr₁
        have hone := hlawful.auths c.session b.password
        rw [hreplies, List.length_cons] at hone
        rw [List.length_eq_zero_iff.mp (by omega : rest.length = 0)] at hrest
        obtain ⟨hreader, hsocket⟩ := List.append_eq_nil_iff.mp hrest
        exact ⟨hobuf, hreader, hsocket⟩
      obtain ⟨reply, rest, hreplies, hfirst, hsession, hobuf, hrest⟩ := hquiet₁.answer herr₂
      obtain ⟨reply', hone, hselect⟩ := hlawful.selects c₁.session b.db
      cases hone.symm.trans hreplies
      obtain ⟨hreader, hsocket⟩ := List.append_eq_nil_iff.mp hrest
      refine ⟨_, by rw [hconn]; exact hcontext₂, ⟨hobuf, hreader, hsocket⟩, ?_⟩
      rcases hselect with ⟨_, hdb⟩ | ⟨herror, _⟩
      · exact (congrArg server.db hsession).trans hdb
      · cases hfirst.symm.trans hanswer
        exact absurd herror htype

end RedisConnectionImpl

end CloRedis
