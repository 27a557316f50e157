import CloRedis.Hiredis.Simulation

/-!
A conversation of a program with a server over one blocking context: a sequence
of `redisvCommand`, each with its format string and arguments, with what the
allocator does and with how `write` and `read` return.
-/

namespace CloRedis

open Library

variable {S N F : Type*}

/-- A call of `redisvCommand`, with all that it meets. -/
structure CommandCall (F : Type) where
  format : List Char
  ap : List (VaArg F) := []
  memory : Nat → Bool := fun _ => true
  traffic : Traffic := {}

/-- Why a conversation does not go on: a call does what a program must not do, or
it does not return. -/
inductive CallStop where
  | format (fault : FormatFault)
  | reader (fault : ReaderFault)
  | waits

/-- The context, and what the calls returned. -/
structure Conversation where
  context : BlockingContext := {}
  replies : List ReplyNode := []

/-- The same on commands and replies. -/
structure Exchange (S : Type*) where
  context : RedisContext S
  replies : List (Option HiredisReply) := []

section Format

variable {F : Type} (vsnprintf : List Char → VaArg F → List Char)

def CommandCall.formatted (call : CommandCall F) : Except FormatFault Formatted :=
  redisvFormatCommand vsnprintf call.memory call.format call.ap

def Conversation.step (s : Conversation) (call : CommandCall F) : Except CallStop Conversation :=
  match call.formatted vsnprintf with
  | .error fault => .error (.format fault)
  | .ok formatted =>
      match s.context.redisvCommand formatted call.traffic with
      | .error fault => .error (.reader fault)
      | .ok none => .error .waits
      | .ok (some (node, c)) => .ok { context := c, replies := s.replies ++ [node] }

end Format

def Exchange.step (server : Server S N) (x : Exchange S) (call : Command × Wire) :
    Except CallStop (Exchange S) :=
  let (reply, c) := RedisContext.redisvCommand server x.context call.1 call.2
  .ok { context := c, replies := x.replies ++ [reply] }

/-! ### The commands of a conversation -/

variable {F : Type} {vsnprintf : List Char → VaArg F → List Char} {server : Server S N} {start : S}
  {s s' : Conversation} {x x' : Exchange S} {call : CommandCall F} {calls : List (CommandCall F)}

/-- The words that the format of a call shows. -/
def CommandCall.Asks (vsnprintf : List Char → VaArg F → List Char) (call : CommandCall F)
    (argv : List String) : Prop :=
  ∃ ts ap, Tokens (cText call.format) ts .finished ∧
    renderWords vsnprintf call.ap (wordsOf ts) = .ok (argv.map String.toList, ap)

/-- What a call says to the server. -/
def CommandCall.Says (vsnprintf : List Char → VaArg F → List Char) (call : CommandCall F) :
    Command → Prop
  | .words argv => call.Asks vsnprintf argv
  | .outOfMemory => call.formatted vsnprintf = .ok (.error (-1))
  | .invalidFormat => call.formatted vsnprintf = .ok (.error (-2))

/-- Whatever a format gives is a command or one of two errors. -/
theorem CommandCall.means {formatted : Formatted} (h : call.formatted vsnprintf = .ok formatted) :
    ∃ command, Means formatted command ∧ call.Says vsnprintf command := by
  cases formatted with
  | command cmd len =>
      obtain ⟨ts, argv, ap, htokens, hrender, rfl, _, hsmall⟩ := command_of_format h
      have hargv : (argv.map String.ofList).map String.toList = argv := by
        rw [List.map_map]
        exact (List.map_congr_left fun arg _ => String.toList_ofList).trans (List.map_id _)
      have hbytes : commandBytes argv = wireBytes (argv.map String.ofList) := by
        rw [wireBytes, hargv]
      rw [hbytes] at hsmall ⊢
      refine ⟨.words (argv.map String.ofList), .words len (Nat.lt_of_succ_lt hsmall), ts, ap,
        htokens, ?_⟩
      rw [hargv]
      exact hrender
  | error code =>
      rcases error_of_format h with rfl | rfl
      · exact ⟨.outOfMemory, .outOfMemory, h⟩
      · exact ⟨.invalidFormat, .invalidFormat, h⟩

/-! ### Every conversation is an exchange of commands and replies -/

/-- What a call of the conversation is given: memory for its replies, less than
two gigabytes in each buffer, and bytes that the server sent. -/
structure Conversation.Fair (vsnprintf : List Char → VaArg F → List Char) (server : Server S N)
    (start : S) (s : Conversation) (call : CommandCall F) : Prop where
  memory : ∀ k, call.traffic.memory k = true
  supplied : ∀ a ∈ call.traffic.reads, a.Supplied
  reader : s.context.reader.buf.length + (incoming call.traffic.reads).length < 2 ^ 31
  obuf : ∀ cmd len, call.formatted vsnprintf = .ok (.command cmd len) →
    s.context.obuf.length + cmd.length < 2 ^ 31
  arrives : ∀ s', s.step vsnprintf call = .ok s' →
    s'.context.arrived <+: HiredisReply.encodeAll (server.answered start s'.context.sent).2

/-- The two sides of a conversation. -/
structure Conversation.Shows (server : Server S N) (start : S) (s : Conversation) (x : Exchange S) :
    Prop where
  relates : ∃ p, Relates server start s.context x.context p
  replies : s.replies = x.replies.map shown

theorem Conversation.step_ok (h : s.step vsnprintf call = .ok s') :
    ∃ formatted node, call.formatted vsnprintf = .ok formatted ∧
      s.context.redisvCommand formatted call.traffic = .ok (some (node, s'.context)) ∧
      s'.replies = s.replies ++ [node] := by
  unfold Conversation.step at h
  cases hformatted : call.formatted vsnprintf with
  | error fault =>
      rw [hformatted] at h
      cases h
  | ok formatted =>
      rw [hformatted] at h
      dsimp only at h
      cases hcall : s.context.redisvCommand formatted call.traffic with
      | error fault =>
          rw [hcall] at h
          cases h
      | ok result =>
          rw [hcall] at h
          cases result with
          | none => cases h
          | some v =>
              cases h
              exact ⟨formatted, v.1, rfl, hcall, rfl⟩

theorem Conversation.Shows.step (h : s.Shows server start x) (hspeaks : server.Speaks)
    (hfair : s.Fair vsnprintf server start call) (hstep : s.step vsnprintf call = .ok s') :
    ∃ op x', call.Says vsnprintf op.1 ∧ x.step server op = .ok x' ∧ s'.Shows server start x' := by
  obtain ⟨formatted, node, hformatted, hcall, hreplies⟩ := Conversation.step_ok hstep
  obtain ⟨command, hmeans, hsays⟩ := CommandCall.means hformatted
  obtain ⟨p, hrelates⟩ := h.relates
  have hplausible : Plausible server start s.context formatted call.traffic s'.context := by
    refine ⟨hfair.memory, hfair.supplied, hfair.reader, ?_, hfair.arrives s' hstep⟩
    rintro cmd len rfl
    exact hfair.obuf cmd len hformatted
  obtain ⟨w, p', hrelates', hnode⟩ := hrelates.redisvCommand hspeaks hmeans hplausible hcall
  refine ⟨(command, w), _, hsays, rfl, ⟨p', hrelates'⟩, ?_⟩
  rw [hreplies, h.replies, hnode, List.map_append, List.map_singleton]
  rfl

/-- A new context. -/
theorem Conversation.shows_start (server : Server S N) (start : S) :
    ({} : Conversation).Shows server start { context := { session := start } } := by
  have hready : Ready {} {} := .idle rfl rfl rfl (Nat.zero_le _)
  refine ⟨⟨{}, rfl, rfl, rfl, hready, ⟨{}, [], .nil _ _, rfl⟩, ?_⟩, rfl⟩
  intro _
  refine ⟨[], [], ?_, rfl, ⟨rfl, hready, .nil _ _⟩, rfl, ?_, rfl⟩
  · intro argv hmem
    cases hmem
  · intro argv hmem
    cases hmem

/-- Every conversation over a new context is an exchange of whole commands and
replies: the calls say what their formats show and return the same replies, and
both end with the same error and the same session. -/
theorem Conversation.run_exchanges (hspeaks : server.Speaks)
    (hfair : Along (Conversation.step vsnprintf) (Conversation.Fair vsnprintf server start) {}
      calls)
    (hrun : run (Conversation.step vsnprintf) {} calls = .ok s) :
    ∃ ops x, List.Forall₂ (fun call op => call.Says vsnprintf op.1) calls ops ∧
      run (Exchange.step server) { context := { session := start } } ops = .ok x ∧
      s.Shows server start x :=
  run_matches (fun _ _ _ _ hshows hfair hstep => hshows.step hspeaks hfair hstep)
    (Conversation.shows_start server start) hfair hrun

/-- A server that counts its commands. -/
def tallyServer : Server Nat Unit where
  accept := fun _ _ _ => 0
  exec := fun s _ => ((s + 1) % 10, [{ type := .integer, integer := ((s + 1) % 10 : Nat) }])
  db := fun _ => 0

/-- The first command is written in two pieces, and its reply is read in two. -/
def tallyCalls : List (CommandCall Unit) :=
  [{ format := ['I', 'N', 'C', 'R', ' ', '%', 's'], ap := [.pointer ['n']],
     traffic := {
       writes := [.interrupted, .wrote 5, .wrote 100],
       reads := [{ result := .interrupted }, { result := .bytes [':', '1'] },
         { result := .bytes ['\r', '\n'] }] } },
   { format := ['I', 'N', 'C', 'R', ' ', '%', 's'], ap := [.pointer ['n']],
     traffic := {
       writes := [.wrote 100],
       reads := [{ result := .bytes [':', '2', '\r', '\n'] }] } }]

/-- The conversation after some of the calls. -/
def tallyAfter (n : Nat) : Conversation :=
  match run (Conversation.step fun _ _ => []) {} (tallyCalls.take n) with
  | .ok s => s
  | .error _ => {}

theorem tallyServer_speaks : tallyServer.Speaks := by
  intro s argv reply hreply
  rw [List.mem_singleton.mp hreply]
  exact .inl ⟨rfl, rfl, by omega, by omega⟩

/-- A call that ends in a known state is fair when it is fair in that state. -/
theorem Conversation.fair_of_step {formatted : Formatted} (hstep : s.step vsnprintf call = .ok s')
    (hmemory : ∀ k, call.traffic.memory k = true) (hsupplied : ∀ a ∈ call.traffic.reads, a.Supplied)
    (hreader : s.context.reader.buf.length + (incoming call.traffic.reads).length < 2 ^ 31)
    (hformatted : call.formatted vsnprintf = .ok formatted)
    (hobuf : ∀ cmd len, formatted = .command cmd len →
      s.context.obuf.length + cmd.length < 2 ^ 31)
    (harrives : s'.context.arrived <+: HiredisReply.encodeAll
      (server.answered start s'.context.sent).2) :
    s.Fair vsnprintf server start call := by
  refine ⟨hmemory, hsupplied, hreader, ?_, ?_⟩
  · intro cmd len h
    cases hformatted.symm.trans h
    exact hobuf cmd len rfl
  · intro t ht
    cases hstep.symm.trans ht
    exact harrives

theorem tally_fair : Along (Conversation.step fun _ _ => [])
    (Conversation.Fair (fun _ _ => []) tallyServer 0) {} tallyCalls := by
  have hsupplied : ∀ call ∈ tallyCalls, ∀ a ∈ call.traffic.reads, a.Supplied := by
    simp [tallyCalls, Arrival.Supplied]
  obtain ⟨hfirst, hlater⟩ := List.forall_mem_cons.mp hsupplied
  obtain ⟨hsecond, _⟩ := List.forall_mem_cons.mp hlater
  have hsmall (cmd : List Char) (len : Int)
      (h : Formatted.command (wireBytes ["INCR", "n"]) 21 = .command cmd len) :
      0 + cmd.length < 2 ^ 31 := by
    cases h
    decide +kernel
  have hstep₁ : Conversation.step (fun _ _ => []) {} tallyCalls[0] = .ok (tallyAfter 1) := rfl
  have hstep₂ : Conversation.step (fun _ _ => []) (tallyAfter 1) tallyCalls[1] =
      .ok (tallyAfter 2) := rfl
  refine along_cons hstep₁ ?_ (along_cons hstep₂ ?_ trivial)
  · exact Conversation.fair_of_step hstep₁ (fun _ => rfl) hfirst (by decide +kernel)
      (by decide +kernel) hsmall (List.isPrefixOf_iff_prefix.mp rfl)
  · exact Conversation.fair_of_step hstep₂ (fun _ => rfl) hsecond (by decide +kernel)
      (by decide +kernel) hsmall (List.isPrefixOf_iff_prefix.mp rfl)

/-- The two calls of `tallyCalls` are an exchange with the server. -/
theorem Conversation.run_exchanges_of_tally :
    ∃ ops x, List.Forall₂ (fun call op => call.Says (fun _ _ => []) op.1) tallyCalls ops ∧
      run (Exchange.step tallyServer) { context := { session := 0 } } ops = .ok x ∧
      (tallyAfter 2).Shows tallyServer 0 x :=
  Conversation.run_exchanges tallyServer_speaks tally_fair rfl

/-! ### Every call gets the answer to its command -/

section Tracks

open RedisContext

/-- As long as there is no error a command takes the first reply that is unread. -/
theorem RedisContext.Tracks.takes {asked sent : List (List String)} {c : RedisContext S}
    {taken : List HiredisReply} {argv : List String} {w : Wire}
    (h : c.Tracks server start asked sent taken)
    (herr : (c.redisvCommand server (.words argv) w).2.err = 0) :
    ∃ sent reply, (c.redisvCommand server (.words argv) w).1 = some reply ∧
      (c.redisvCommand server (.words argv) w).2.Tracks server start (asked ++ [argv]) sent
        (taken ++ [reply]) := by
  have hreplied := redisvCommand_replied server c (.words argv) w
  generalize redisvCommand server c (.words argv) w = r at hreplied herr ⊢
  cases hreplied with
  | failed reply c' hbad => exact absurd herr hbad
  | pending argv' reply rest hwords _ hreader =>
      cases hwords
      refine ⟨sent, reply, rfl, ?_, h.session, ?_, ?_⟩
      · rw [h.order, List.append_assoc]
      · rw [h.replies, unread, hreader, List.append_assoc]
        rfl
      · rw [List.length_append, List.length_append, h.count]
        rfl
  | answered argv' session replies reply rest n hwords _ hreader hexec hsent =>
      cases hwords
      refine ⟨sent ++ (c.obuf ++ [argv]), reply, rfl, ?_, ?_, ?_, ?_⟩
      · rw [h.order, List.append_assoc, List.append_nil]
      · rw [Server.execAll_append, ← h.session, hexec]
      · rw [Server.execAll_append, ← h.session, hexec, h.replies, unread, hreader, List.nil_append,
          List.append_assoc, hsent, List.append_assoc, unread, List.take_append_drop]
        rfl
      · rw [List.length_append, List.length_append, h.count]
        rfl

end Tracks

theorem Exchange.err_of_run {ops : List (Command × Wire)}
    (hrun : run (Exchange.step server) x ops = .ok x') (herr : x'.context.err = 0) :
    x.context.err = 0 := by
  induction ops generalizing x with
  | nil =>
      cases hrun
      exact herr
  | cons op ops ih =>
      obtain ⟨x₁, hop, hrest⟩ := run_cons_ok.mp hrun
      have hlater := ih hrest
      cases hop
      exact (RedisContext.err_of_redisvCommand hlater).1

theorem Exchange.run_tracks {ops : List (Command × Wire)} {asked sent : List (List String)}
    {taken : List HiredisReply} (hrun : run (Exchange.step server) x ops = .ok x')
    (herr : x'.context.err = 0) (h : x.context.Tracks server start asked sent taken)
    (hreplies : x.replies = taken.map some) :
    ∃ argvs sent taken, ops.map Prod.fst = argvs.map .words ∧
      x'.context.Tracks server start (asked ++ argvs) sent taken ∧
      x'.replies = taken.map some := by
  induction ops generalizing x asked sent taken with
  | nil =>
      cases hrun
      exact ⟨[], sent, taken, rfl, by rwa [List.append_nil], hreplies⟩
  | cons op ops ih =>
      obtain ⟨x₁, hop, hrest⟩ := run_cons_ok.mp hrun
      have herr₁ := Exchange.err_of_run hrest herr
      cases hop
      obtain ⟨command, w⟩ := op
      obtain ⟨argv, rfl⟩ := (RedisContext.err_of_redisvCommand herr₁).2
      obtain ⟨sent₁, reply, hreply, htracks⟩ := h.takes herr₁
      have hreplies₁ : x.replies ++ [(x.context.redisvCommand server (.words argv) w).1] =
          (taken ++ [reply]).map some := by
        rw [hreplies, hreply, List.map_append, List.map_singleton]
      obtain ⟨argvs, sent', taken', hops, htracks', hreplies'⟩ := ih hrest htracks hreplies₁
      refine ⟨argv :: argvs, sent', taken', ?_, ?_, hreplies'⟩
      · rw [List.map_cons, List.map_cons, hops]
      · rwa [List.append_assoc, List.singleton_append] at htracks'

/-- A server with one reply for every command. -/
def Server.AnswersOnce (server : Server S N) : Prop := ∀ s argv, (server.exec s argv).2.length = 1

theorem Server.AnswersOnce.length {server : Server S N} (h : server.AnswersOnce) (s : S)
    (asked : List (List String)) : (server.execAll s asked).2.length = asked.length := by
  induction asked generalizing s with
  | nil => rfl
  | cons argv asked ih =>
      rw [Server.execAll_cons, List.length_append, h, ih, List.length_cons, Nat.add_comm]

/-- After a conversation without an error with a server that answers every
command once, every call has returned the answer to its own command, and the
server has executed all of them in order. -/
theorem Conversation.run_answers (hspeaks : server.Speaks) (hone : server.AnswersOnce)
    (hfair : Along (Conversation.step vsnprintf) (Conversation.Fair vsnprintf server start) {}
      calls)
    (hrun : run (Conversation.step vsnprintf) {} calls = .ok s) (herr : s.context.err = 0) :
    ∃ argvs, List.Forall₂ (CommandCall.Asks vsnprintf) calls argvs ∧
      s.replies = (server.execAll start argvs).2.map HiredisReply.built ∧
      (server.answered start s.context.sent).1 = (server.execAll start argvs).1 ∧
      s.context.obuf = [] := by
  obtain ⟨ops, x, hsays, hexchange, ⟨p, hrelates⟩, hreplies⟩ :=
    run_matches (fun _ _ _ _ hshows hfair hstep => hshows.step hspeaks hfair hstep)
      (Conversation.shows_start server start) hfair hrun
  have herr' : x.context.err = 0 := hrelates.err.trans herr
  have hquiet : RedisContext.Quiet { session := start } := ⟨rfl, rfl, rfl⟩
  obtain ⟨argvs, sent, taken, hops, htracks, htaken⟩ :=
    Exchange.run_tracks hexchange herr' (hquiet.tracks server) rfl
  rw [List.nil_append] at htracks
  -- one reply for every command leaves nothing unsent and nothing unread
  have hcount := htracks.count
  have hlength := hone.length start sent
  rw [htracks.replies, List.length_append, hcount] at hlength
  have horder := congrArg List.length htracks.order
  rw [List.length_append] at horder
  have hobuf : x.context.obuf = [] := List.length_eq_zero_iff.mp (by omega)
  have hunread : x.context.unread = [] := List.length_eq_zero_iff.mp (by omega)
  have hall : argvs = sent := by rw [htracks.order, hobuf, List.append_nil]
  have hanswers : (server.execAll start argvs).2 = taken := by
    rw [hall, htracks.replies, hunread, List.append_nil]
  refine ⟨argvs, ?_, ?_, ?_, ?_⟩
  · have hcommands := (List.forall₂_map_right_iff (f := Prod.fst)).mpr hsays
    rw [hops] at hcommands
    exact (List.forall₂_map_right_iff (f := Command.words)).mp hcommands
  · rw [hreplies, htaken, hanswers, List.map_map]
    rfl
  · rw [← hrelates.session, htracks.session, hall]
  · obtain ⟨_, _, hstep⟩ := hrelates.inStep herr
    rw [hstep.obuf, hobuf]
    rfl

/-- Both calls of `tallyCalls` have returned. -/
theorem Conversation.run_answers_of_tally :
    ∃ argvs, List.Forall₂ (CommandCall.Asks fun _ _ => []) tallyCalls argvs ∧
      (tallyAfter 2).replies = (tallyServer.execAll 0 argvs).2.map HiredisReply.built ∧
      (tallyServer.answered 0 (tallyAfter 2).context.sent).1 = (tallyServer.execAll 0 argvs).1 ∧
      (tallyAfter 2).context.obuf = [] :=
  Conversation.run_answers tallyServer_speaks (fun _ _ => rfl) tally_fair rfl rfl

end CloRedis
