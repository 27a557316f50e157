import CloRedis.Redis.Reply

/-!
What a connection uses of hiredis. `Hiredis` is the interface alone. Below it
is the vendored library for a blocking context, at the level of whole
commands and replies: commands wait in the output buffer until the reader is
empty, the server executes them in order, its replies arrive in order, and
`redisvCommand` returns the first one that is unread. The server is a
parameter; what the network does during a call is an argument of the call.
-/

namespace CloRedis

/-- The words of a formatted command, or the error of `redisvFormatCommand`. -/
inductive Command where
  | words (argv : List String)
  | outOfMemory
  | invalidFormat
  deriving DecidableEq, Repr

/-- The `struct timeval` of a connect timeout. -/
structure Timeout where
  tvSec : Int
  tvUsec : Int
  deriving DecidableEq, Repr

structure Hiredis (C D W : Type*) where
  redisConnectWithTimeout : String → Int → Timeout → D → Option C
  redisvCommand : C → Command → W → Option HiredisReply × C
  err : C → Int
  errstr : C → List Char

/-- `REDIS_ERR_*` -/
inductive RedisErr where
  | io
  | other
  | eof
  | protocol
  | oom
  deriving DecidableEq, Repr

def RedisErr.code : RedisErr → Int
  | .io => 1
  | .other => 2
  | .eof => 3
  | .protocol => 4
  | .oom => 5

theorem RedisErr.code_ne_zero (e : RedisErr) : e.code ≠ 0 := by
  cases e <;> decide

/-- A server: how it opens a session, how it executes a command in one, and
the database a session has selected. -/
structure Server (S N : Type*) where
  accept : String → Int → N → S
  exec : S → List String → S × List HiredisReply
  db : S → Int

/-- `obuf` are the commands not yet written, `reader` the replies that have
arrived and `socket` those the server has sent but that have not arrived. -/
structure RedisContext (S : Type*) where
  err : Int := 0
  errstr : List Char := []
  obuf : List (List String) := []
  reader : List HiredisReply := []
  socket : List HiredisReply := []
  session : S

/-- The outside during `redisConnectWithTimeout`. -/
structure Dial (N : Type*) where
  allocated : Bool
  failure : Option (RedisErr × List Char)
  seed : N

/-- The outside during `redisvCommand`: whether the buffer can grow, whether
the reader finds a malformed reply, after how many commands a write fails, and
how many replies arrive behind the one that is waited for. -/
structure Wire where
  grown : Bool
  malformed : Option (List Char)
  written : Option (Nat × List Char)
  received : Except (RedisErr × List Char) Nat

section Embedding

variable {S N : Type*}

def Server.execAll (server : Server S N) : S → List (List String) → S × List HiredisReply
  | s, [] => (s, [])
  | s, argv :: rest =>
      let (s', first) := server.exec s argv
      let (s'', later) := server.execAll s' rest
      (s'', first ++ later)

namespace RedisContext

/-- `__redisSetError` -/
def setError (c : RedisContext S) (e : RedisErr) (text : List Char) : RedisContext S :=
  { c with err := e.code, errstr := text }

/-- The part of `redisGetReply` behind the reader: write the buffer, then read
until there is a reply. -/
def flushAndRead (server : Server S N) (c : RedisContext S) (w : Wire) :
    Option HiredisReply × RedisContext S :=
  if c.err ≠ 0 then (none, c)
  else
    match w.written with
    | some (n, text) =>
        (none, { c with session := (server.execAll c.session (c.obuf.take n)).1 }.setError .io text)
    | none =>
        let (session, replies) := server.execAll c.session c.obuf
        match w.received, c.socket ++ replies with
        | .error (e, text), sent =>
            (none, { c with obuf := [], socket := sent, session := session }.setError e text)
        | .ok _, [] =>
            -- a read that waits for no reply returns when the connection is closed
            (none, { c with obuf := [], session := session }.setError .eof
              "Server closed the connection".toList)
        | .ok n, reply :: rest =>
            (some reply, { c with
              obuf := [], reader := rest.take n, socket := rest.drop n, session := session })

def redisGetReply (server : Server S N) (c : RedisContext S) (w : Wire) :
    Option HiredisReply × RedisContext S :=
  match w.malformed with
  | some text => (none, { c with reader := [] }.setError .protocol text)
  | none =>
      match c.reader with
      | reply :: rest => (some reply, { c with reader := rest })
      | [] => flushAndRead server c w

def redisvCommand (server : Server S N) (c : RedisContext S) (command : Command) (w : Wire) :
    Option HiredisReply × RedisContext S :=
  match command with
  | .outOfMemory => (none, c.setError .oom "Out of memory".toList)
  | .invalidFormat => (none, c.setError .other "Invalid format string".toList)
  | .words argv =>
      if w.grown then redisGetReply server { c with obuf := c.obuf ++ [argv] } w
      else (none, c.setError .oom "Out of memory".toList)

def redisConnectWithTimeout (server : Server S N) (host : String) (port : Int) (_tv : Timeout)
    (d : Dial N) : Option (RedisContext S) :=
  if d.allocated then
    let c : RedisContext S := { session := server.accept host port d.seed }
    match d.failure with
    | some (e, text) => some (c.setError e text)
    | none => some c
  else none

/-- The replies the program has not read, in the order it will get them. -/
def unread (c : RedisContext S) : List HiredisReply := c.reader ++ c.socket

/-- How `redisvCommand` ends: with an error in the context, with a reply that
had arrived before, or with the first reply sent once the buffer is flushed. -/
inductive Replied (server : Server S N) (c : RedisContext S) (command : Command) :
    Option HiredisReply × RedisContext S → Prop where
  | failed (reply : Option HiredisReply) (c' : RedisContext S) : c'.err ≠ 0 →
      Replied server c command (reply, c')
  | pending (argv : List String) (reply : HiredisReply) (rest : List HiredisReply) :
      command = .words argv → c.err = 0 → c.reader = reply :: rest →
      Replied server c command (some reply, { c with obuf := c.obuf ++ [argv], reader := rest })
  | answered (argv : List String) (session : S) (replies : List HiredisReply)
      (reply : HiredisReply) (rest : List HiredisReply) (n : Nat) :
      command = .words argv → c.err = 0 → c.reader = [] →
      server.execAll c.session (c.obuf ++ [argv]) = (session, replies) →
      c.socket ++ replies = reply :: rest →
      Replied server c command (some reply, { c with
        obuf := [], reader := rest.take n, socket := rest.drop n, session := session })

theorem setError_err_ne_zero (c : RedisContext S) (e : RedisErr) (text : List Char) :
    (c.setError e text).err ≠ 0 :=
  e.code_ne_zero

theorem flushAndRead_replied (server : Server S N) (c : RedisContext S) (argv : List String)
    (w : Wire) (hreader : c.reader = []) :
    Replied server c (.words argv)
      (flushAndRead server { c with obuf := c.obuf ++ [argv] } w) := by
  unfold flushAndRead
  split
  · rename_i herr
    exact .failed _ _ herr
  · rename_i herr
    cases w.written with
    | some failure => exact .failed _ _ (setError_err_ne_zero _ _ _)
    | none =>
        cases hexec : server.execAll c.session (c.obuf ++ [argv]) with
        | mk session replies =>
            dsimp only
            cases hsent : c.socket ++ replies with
            | nil => cases w.received <;> exact .failed _ _ (setError_err_ne_zero _ _ _)
            | cons reply rest =>
                cases w.received with
                | error failure => exact .failed _ _ (setError_err_ne_zero _ _ _)
                | ok n =>
                    exact .answered argv session replies reply rest n rfl (not_not.mp herr)
                      hreader hexec hsent

theorem redisvCommand_replied (server : Server S N) (c : RedisContext S) (command : Command)
    (w : Wire) : Replied server c command (redisvCommand server c command w) := by
  cases command with
  | outOfMemory => exact .failed _ _ (setError_err_ne_zero _ _ _)
  | invalidFormat => exact .failed _ _ (setError_err_ne_zero _ _ _)
  | words argv =>
      unfold redisvCommand redisGetReply
      dsimp only
      split
      · cases w.malformed with
        | some text => exact .failed _ _ (setError_err_ne_zero _ _ _)
        | none =>
            cases hreader : c.reader with
            | nil =>
                have hflush := flushAndRead_replied server c argv w hreader
                rw [hreader] at hflush
                exact hflush
            | cons reply rest =>
                by_cases herr : c.err = 0
                · exact .pending argv reply rest rfl herr hreader
                · exact .failed _ _ herr
      · exact .failed _ _ (setError_err_ne_zero _ _ _)

end RedisContext

/-- The vendored hiredis in front of a server. -/
def hiredis (server : Server S N) : Hiredis (RedisContext S) (Dial N) Wire where
  redisConnectWithTimeout := RedisContext.redisConnectWithTimeout server
  redisvCommand := RedisContext.redisvCommand server
  err := RedisContext.err
  errstr := RedisContext.errstr

end Embedding

end CloRedis
