import CloRedis.Hiredis.Context
import CloRedis.Redis.Sessions

/-!
The context of whole commands and replies is what the context of bytes does:
however often `write` and `read` are interrupted and however little they take
or bring, every call that returns is a call of the former.
-/

namespace CloRedis

open Library

/-! ### The server behind a stream of bytes -/

/-- The bytes of a command with its words as strings. -/
def wireBytes (argv : List String) : List Char := commandBytes (argv.map String.toList)

/-- The words of a command as it is read. -/
def commandWords (r : HiredisReply) : List String :=
  r.element.map fun item => String.ofList item.str

/-- The commands that are complete in a stream. -/
def commandsIn (stream : List Char) : List (List String) :=
  (drain (Parse.turn lineEnd chrtos) (stream.length + 1) {} stream).1.map commandWords

variable {S N : Type*}

/-- The session after a stream, and the replies to it. -/
def Server.answered (server : Server S N) (start : S) (stream : List Char) :
    S × List HiredisReply :=
  server.execAll start (commandsIn stream)

/-- All replies of the server have an encoding. -/
def Server.Speaks (server : Server S N) : Prop :=
  ∀ s argv, ∀ reply ∈ (server.exec s argv).2, reply.Sendable maxDepth

/-- A command fits into an `int`. -/
def Short (argv : List String) : Prop := (wireBytes argv).length < 2 ^ 31

def commandReply (argv : List String) : HiredisReply :=
  arrayOf ((argv.map String.toList).map bulkReply)

theorem commandWords_commandReply (argv : List String) :
    commandWords (commandReply argv) = argv := by
  rw [commandReply, commandWords, arrayOf, List.map_map, List.map_map]
  exact (List.map_congr_left fun arg _ => String.ofList_toList).trans (List.map_id _)

theorem reads_commands {asked : List (List String)} (hshort : ∀ argv ∈ asked, Short argv)
    (rest : List Char) :
    Reads (Parse.turn lineEnd chrtos) {} ((asked.map wireBytes).flatten ++ rest)
      (asked.map commandReply) {} rest := by
  apply reads_replies
  rw [List.forall₂_map_left_iff, List.forall₂_map_right_iff, List.forall₂_same]
  intro argv hargv
  rw [wireBytes, commandBytes_eq_encode]
  exact denoting_encode (command_sendable (hshort argv hargv))

theorem commandsIn_reads (stream : List Char) :
    ∃ items p rest, Reads (Parse.turn lineEnd chrtos) {} stream items p rest ∧
      Stuck (Parse.turn lineEnd chrtos) p rest ∧ commandsIn stream = items.map commandWords :=
  ⟨_, _, _, drain_reads _ _ _ _, drain_stuck Parse.steady (Nat.lt_succ_self _), rfl⟩

theorem stuck_start : Stuck (Parse.turn lineEnd chrtos) {} [] := .of_wait rfl

/-- A stream that ends inside some commands has the commands in front of these,
and some of them. -/
theorem commandsIn_part {asked more : List (List String)} (hasked : ∀ argv ∈ asked, Short argv)
    (hmore : ∀ argv ∈ more, Short argv) {part : List Char}
    (hpart : part <+: (more.map wireBytes).flatten) :
    ∃ n, commandsIn ((asked.map wireBytes).flatten ++ part) = asked ++ more.take n := by
  obtain ⟨tail, htail⟩ := hpart
  obtain ⟨items, p, rest, hreads, hstuck, hcommands⟩ :=
    commandsIn_reads ((asked.map wireBytes).flatten ++ part)
  obtain ⟨mid, rfl, _⟩ := (reads_commands hasked part).before hreads hstuck
  have hboth : ∀ argv ∈ asked ++ more, Short argv :=
    fun argv h => (List.mem_append.mp h).elim (hasked argv) (hmore argv)
  have hall := reads_commands hboth []
  rw [List.map_append, List.flatten_append, List.append_nil, ← htail, ← List.append_assoc] at hall
  obtain ⟨later, hlater, _⟩ := (hreads.append Parse.steady tail).before hall stuck_start
  rw [List.map_append, List.append_assoc, List.append_cancel_left_eq] at hlater
  refine ⟨mid.length, ?_⟩
  have hwords := congrArg (List.map commandWords) hlater
  have hid (l : List (List String)) : (l.map commandReply).map commandWords = l := by
    rw [List.map_map]
    exact (List.map_congr_left fun argv _ => commandWords_commandReply argv).trans (List.map_id _)
  rw [hid, List.map_append] at hwords
  have hlength : mid.length = (mid.map commandWords).length := (List.length_map commandWords).symm
  rw [hcommands, List.map_append, hid, hwords, hlength, List.take_left]

theorem commandsIn_commands {asked : List (List String)} (hshort : ∀ argv ∈ asked, Short argv) :
    commandsIn (asked.map wireBytes).flatten = asked := by
  have hnone : ∀ argv ∈ ([] : List (List String)), Short argv := nofun
  obtain ⟨n, hn⟩ := commandsIn_part hshort hnone (List.prefix_refl _)
  rwa [List.map_nil, List.flatten_nil, List.append_nil, List.take_nil, List.append_nil] at hn

theorem Server.Speaks.execAll {server : Server S N} (h : server.Speaks) (s : S)
    (asked : List (List String)) :
    ∀ reply ∈ (server.execAll s asked).2, reply.Sendable maxDepth := by
  induction asked generalizing s with
  | nil =>
      intro reply hreply
      cases hreply
  | cons argv asked ih =>
      intro reply hreply
      rw [Server.execAll_cons, List.mem_append] at hreply
      rcases hreply with hfirst | hlater
      · exact h s argv reply hfirst
      · exact ih _ reply hlater

/-! ### The bytes that arrive -/

variable {all delivered out : List HiredisReply} {arrived unread rest : List Char} {p p' : Parse}

/-- What is read of a part of an encoding is a part of what was encoded, and is
not followed by an error. -/
theorem reads_of_part (hall : ∀ reply ∈ all, reply.Sendable maxDepth)
    (hstarts : arrived <+: HiredisReply.encodeAll all)
    (hreads : Reads (Parse.turn lineEnd chrtos) {} arrived delivered p unread) :
    (∃ more, all = delivered ++ more) ∧ ∀ e, p.turn lineEnd chrtos unread ≠ .fail e := by
  obtain ⟨tail, htail⟩ := hstarts
  have hend : Reads (Parse.turn lineEnd chrtos) {} ((all.map HiredisReply.encode).flatten ++ [])
      all {} [] := reads_replies (denoting_encodeAll hall) []
  rw [List.append_nil, ← HiredisReply.encodeAll_eq, ← htail] at hend
  obtain ⟨more, hmore, hlater⟩ := (hreads.append Parse.steady tail).before hend stuck_start
  refine ⟨⟨more, hmore⟩, ?_⟩
  intro e hfail
  have hfail' : p.turn lineEnd chrtos (unread ++ tail) = .fail e :=
    (Parse.turn_append tail (by rw [hfail]; nofun)).trans hfail
  obtain ⟨_, hp, hunread⟩ := hlater.stuck_nil (.of_fail hfail')
  rw [← hp, ← hunread] at hfail'
  cases hfail'

/-- The context has no error, and its reader is in the stream. -/
structure Listening (b : BlockingContext) (delivered : List HiredisReply) (p : Parse) : Prop where
  err : b.err = 0
  ready : Ready b.reader p
  reads : Reads (Parse.turn lineEnd chrtos) {} b.arrived delivered p b.reader.unread

variable {b b' : BlockingContext} {memory : Nat → Bool} {node : ReplyNode}

/-- How the reader answers when it has memory and no error is in its bytes. -/
inductive ReaderAnswers (b : BlockingContext) (p : Parse) :
    Except ReaderFault (Bool × ReplyNode × BlockingContext) → Prop where
  | reply {r : RedisReader} {reply : HiredisReply} :
      Reads (Parse.turn lineEnd chrtos) p b.reader.unread [reply] {} r.unread → Ready r {} →
      r.buf.length ≤ b.reader.buf.length →
      ReaderAnswers b p (.ok (true, reply.built, { b with reader := r }))
  | none {r : RedisReader} {p' : Parse} :
      Reads (Parse.turn lineEnd chrtos) p b.reader.unread [] p' r.unread →
      p'.turn lineEnd chrtos r.unread = .wait → Ready r p' →
      r.buf.length ≤ b.reader.buf.length →
      ReaderAnswers b p (.ok (true, .null, { b with reader := r }))

theorem redisGetReplyFromReader_answers (hready : Ready b.reader p)
    (hsmall : b.reader.buf.length < 2 ^ 31)
    (hgood : ∀ p' rest e, Reads (Parse.turn lineEnd chrtos) p b.reader.unread [] p' rest →
      p'.turn lineEnd chrtos rest ≠ .fail e) (hmemory : ∀ k, memory k = true) :
    ReaderAnswers b p (b.redisGetReplyFromReader memory) := by
  have hunread : b.reader.unread.length < 2 ^ 31 :=
    lt_of_le_of_lt (ReaderSession.unread_length _) hsmall
  obtain ⟨v, hv, hasked⟩ := hready.getReply memory
  rw [BlockingContext.redisGetReplyFromReader, hv]
  cases hasked with
  | @replies r reply rest hnext hready' hrest hbuf =>
      have hreads := reads_lineEnd hnext hunread
      rw [← hrest hsmall] at hreads
      exact .reply hreads hready' hbuf
  | @waits r p' rest hnext hwait hready' hrest hbuf =>
      have hreads := reads_lineEnd hnext hunread
      rw [readerTurn_eq (lt_of_le_of_lt hnext.suffix.length_le hunread)] at hwait
      rw [← hrest hsmall] at hreads hwait
      exact .none hreads hwait hready' hbuf
  | @fails r p' rest e hnext hfail _ =>
      rw [readerTurn_eq (lt_of_le_of_lt hnext.suffix.length_le hunread)] at hfail
      exact absurd hfail (hgood p' rest e (reads_lineEnd hnext hunread))
  | starves k hk => cases (hmemory k).symm.trans hk

theorem getReplyFromReader_socket {ok : Bool}
    (h : b.redisGetReplyFromReader memory = .ok (ok, node, b')) :
    b'.sent = b.sent ∧ b'.arrived = b.arrived := by
  obtain ⟨⟨ok', reply, r⟩, _, hv⟩ := map_ok.mp h
  dsimp only at hv
  split at hv
  · cases hv
    exact ⟨rfl, rfl⟩
  · cases hv
    unfold BlockingContext.setReaderError
    split
    · exact ⟨rfl, rfl⟩
    · exact ⟨rfl, rfl⟩

theorem redisBufferRead_socket {a : Arrival} {ok : Bool}
    (h : b.redisBufferRead a = .ok (ok, b')) :
    b'.sent = b.sent ∧ b.arrived <+: b'.arrived := by
  unfold BlockingContext.redisBufferRead at h
  split at h
  · cases h
    exact ⟨rfl, List.prefix_refl _⟩
  · cases hresult : a.result with
    | interrupted =>
        rw [hresult] at h
        cases h
        exact ⟨rfl, List.prefix_refl _⟩
    | failed text =>
        rw [hresult] at h
        cases h
        exact ⟨rfl, List.prefix_refl _⟩
    | closed =>
        rw [hresult] at h
        cases h
        exact ⟨rfl, List.prefix_refl _⟩
    | bytes chunk =>
        rw [hresult] at h
        obtain ⟨⟨taken, r⟩, _, hv⟩ := map_ok.mp h
        cases taken with
        | true =>
            cases hv
            exact ⟨rfl, List.prefix_append _ _⟩
        | false =>
            cases hv
            unfold BlockingContext.setReaderError
            split
            · exact ⟨rfl, List.prefix_append _ _⟩
            · exact ⟨rfl, List.prefix_append _ _⟩

/-- Reading sends nothing, and more bytes arrive. -/
theorem readUntilReply_socket {reads : List Arrival}
    (h : b.readUntilReply reads = .ok (some (node, b'))) :
    b'.sent = b.sent ∧ b.arrived <+: b'.arrived := by
  induction reads generalizing b with
  | nil => cases h
  | cons a reads ih =>
      rw [BlockingContext.readUntilReply] at h
      obtain ⟨⟨ok, b₁⟩, hb, hrest⟩ := do_ok.mp h
      have hread := redisBufferRead_socket hb
      cases ok with
      | false =>
          cases hrest
          exact hread
      | true =>
          obtain ⟨⟨ok, reply, b₂⟩, hv, hnext⟩ := do_ok.mp hrest
          obtain ⟨hsent, harrived⟩ := getReplyFromReader_socket hv
          cases ok with
          | false =>
              cases hnext
              exact ⟨hsent.trans hread.1, harrived ▸ hread.2⟩
          | true =>
              cases reply with
              | null =>
                  obtain ⟨hsent', harrived'⟩ := ih hnext
                  rw [harrived] at harrived'
                  exact ⟨hsent'.trans (hsent.trans hread.1), hread.2.trans harrived'⟩
              | reply type integer str element =>
                  cases hnext
                  exact ⟨hsent.trans hread.1, harrived ▸ hread.2⟩

theorem Listening.answers (h : Listening b delivered p) (hsmall : b.reader.buf.length < 2 ^ 31)
    (hall : ∀ reply ∈ all, reply.Sendable maxDepth)
    (hstarts : b.arrived <+: HiredisReply.encodeAll all) (hmemory : ∀ k, memory k = true) :
    ReaderAnswers b p (b.redisGetReplyFromReader memory) := by
  refine redisGetReplyFromReader_answers h.ready hsmall ?_ hmemory
  intro p' rest e hnext
  exact (reads_of_part hall hstarts (h.reads.trans hnext)).2 e

/-- The bytes that come in during some turns. -/
def incoming (reads : List Arrival) : List Char :=
  reads.flatMap fun a =>
    match a.result with
    | .bytes chunk => chunk
    | _ => []

def Arrival.Supplied (a : Arrival) : Prop := a.buffer.grown = true ∧ ∀ k, a.memory k = true

/-- How the second loop ends: with an error of the socket, while the reader waits
in the middle of a reply or in front of one, or with the next reply. -/
inductive Heard (b : BlockingContext) (delivered : List HiredisReply) :
    ReplyNode → BlockingContext → Prop where
  | failed {b' : BlockingContext} {p' : Parse} (e : RedisErr) (text : List Char) :
      b'.err = e.code → b'.errstr = text → b'.sent = b.sent → Ready b'.reader p' →
      p'.turn lineEnd chrtos b'.reader.unread = .wait → Heard b delivered .null b'
  | replied {b' : BlockingContext} {reply : HiredisReply} :
      Listening b' (delivered ++ [reply]) {} → b'.reader.buf.length < 2 ^ 31 →
      b'.errstr = b.errstr → b'.sent = b.sent → b'.obuf = b.obuf →
      Heard b delivered reply.built b'

theorem Heard.of_same {b₁ : BlockingContext} (h : Heard b₁ delivered node b')
    (herrstr : b₁.errstr = b.errstr) (hsent : b₁.sent = b.sent) (hobuf : b₁.obuf = b.obuf) :
    Heard b delivered node b' := by
  cases h with
  | failed e text herr htext hsent' hready hwait =>
      exact .failed e text herr htext (hsent'.trans hsent) hready hwait
  | replied hlistening hsmall herrstr' hsent' hobuf' =>
      exact .replied hlistening hsmall (herrstr'.trans herrstr) (hsent'.trans hsent)
        (hobuf'.trans hobuf)

/-- How a turn of the loop reads: it fails, it brings what comes in to the reader,
or an assertion fails. -/
inductive Brings (b : BlockingContext) (delivered : List HiredisReply) (p : Parse) (a : Arrival) :
    Except ReaderFault (Bool × BlockingContext) → Prop where
  | failed (e : RedisErr) (text : List Char) :
      Brings b delivered p a (.ok (false, b.setError e text))
  | reads {b₁ : BlockingContext} : Listening b₁ delivered p → b₁.errstr = b.errstr →
      b₁.sent = b.sent → b₁.obuf = b.obuf →
      b₁.reader.buf.length ≤ b.reader.buf.length + (incoming [a]).length →
      Brings b delivered p a (.ok (true, b₁))
  | refused (fault : ReaderFault) : Brings b delivered p a (.error fault)

theorem Listening.read (h : Listening b delivered p) {a : Arrival} (hsupplied : a.Supplied) :
    Brings b delivered p a (b.redisBufferRead a) := by
  have herr : ¬b.err ≠ 0 := not_not.mpr h.err
  rw [BlockingContext.redisBufferRead, if_neg herr]
  cases hresult : a.result with
  | interrupted => exact .reads h rfl rfl rfl (Nat.le_add_right _ _)
  | failed text => exact .failed _ _
  | closed => exact .failed _ _
  | bytes chunk =>
      have hincoming : incoming [a] = chunk := by
        rw [incoming, List.flatMap_singleton, hresult]
      have hfed := h.ready.feed chunk a.buffer
      dsimp only
      generalize b.reader.feed chunk a.buffer = v at hfed
      cases hfed with
      | takes hready hunread hbuf =>
          have hreads := h.reads.append Parse.steady chunk
          rw [← hunread] at hreads
          rw [← hincoming] at hbuf
          exact .reads ⟨h.err, hready, hreads⟩ rfl rfl rfl hbuf
      | starves hnone => cases hsupplied.1.symm.trans hnone
      | refused => exact .refused _

/-- The second loop of `redisGetReply`. -/
theorem Listening.hears {reads : List Arrival} (h : Listening b delivered p)
    (hwait : p.turn lineEnd chrtos b.reader.unread = .wait)
    (hsupplied : ∀ a ∈ reads, a.Supplied)
    (hfits : b.reader.buf.length + (incoming reads).length < 2 ^ 31)
    (hall : ∀ reply ∈ all, reply.Sendable maxDepth)
    (hresult : b.readUntilReply reads = .ok (some (node, b')))
    (hstarts : b'.arrived <+: HiredisReply.encodeAll all) : Heard b delivered node b' := by
  induction reads generalizing b p with
  | nil => cases hresult
  | cons a reads ih =>
      obtain ⟨ha, hrest⟩ := List.forall_mem_cons.mp hsupplied
      have hsplit : (incoming (a :: reads)).length =
          (incoming [a]).length + (incoming reads).length := by
        rw [← List.length_append, incoming, incoming, incoming, List.flatMap_singleton,
          List.flatMap_cons]
      rw [BlockingContext.readUntilReply] at hresult
      have hbrings := h.read ha
      generalize b.redisBufferRead a = v at hbrings hresult
      cases hbrings with
      | failed e text =>
          cases hresult
          exact .failed e _ rfl rfl rfl h.ready hwait
      | refused => cases hresult
      | @reads b₁ h₁ herrstr hsent hobuf hbuf =>
          rw [ok_do] at hresult
          obtain ⟨⟨ok, reply, b₂⟩, hv, hnext⟩ := do_ok.mp hresult
          obtain ⟨_, harrived⟩ := getReplyFromReader_socket hv
          have hsmall : b₁.reader.buf.length < 2 ^ 31 := by omega
          have hlater : b₂.arrived <+: b'.arrived := by
            cases ok with
            | false =>
                cases hnext
                exact List.prefix_refl _
            | true =>
                cases reply with
                | null => exact (readUntilReply_socket hnext).2
                | reply type integer str element =>
                    cases hnext
                    exact List.prefix_refl _
          rw [harrived] at hlater
          have hanswers := h₁.answers hsmall hall (hlater.trans hstarts) ha.2
          rw [hv] at hanswers
          cases hanswers with
          | @reply r reply hnext' hready hbuf' =>
              have hdone : b' = { b₁ with reader := r } ∧ node = reply.built := by
                obtain ⟨type, integer, str, element⟩ := reply
                cases hnext
                exact ⟨rfl, rfl⟩
              obtain ⟨rfl, rfl⟩ := hdone
              exact .replied ⟨h₁.err, hready, h₁.reads.trans hnext'⟩ (lt_of_le_of_lt hbuf' hsmall)
                herrstr hsent hobuf
          | @none r p' hnext' hwait' hready hbuf' =>
              have hreads := h₁.reads.trans hnext'
              rw [List.append_nil] at hreads
              have h₂ : Listening { b₁ with reader := r } delivered p' :=
                ⟨h₁.err, hready, hreads⟩
              have hfits' : r.buf.length + (incoming reads).length < 2 ^ 31 := by omega
              exact (ih h₂ hwait' hrest hfits' hnext).of_same herrstr hsent hobuf

/-! ### Writing -/

/-- How a turn of the first loop writes: it fails, it writes a part of the buffer,
or the new buffer is refused. -/
inductive Writes (b : BlockingContext) : Except ReaderFault (Bool × BlockingContext) → Prop where
  | failed (text : List Char) : Writes b (.ok (false, b.setError .io text))
  | part (n : Nat) :
      Writes b (.ok (true, { b with sent := b.sent ++ b.obuf.take n, obuf := b.obuf.drop n }))
  | refused (fault : ReaderFault) : Writes b (.error fault)

theorem writeObuf_writes (hsmall : b.obuf.length < 2 ^ 31) (w : WriteResult) :
    Writes b (b.writeObuf w) := by
  cases w with
  | interrupted =>
      have hnone := Writes.part (b := b) 0
      rwa [List.take_zero, List.append_nil] at hnone
  | failed text => exact .failed text
  | wrote count fresh =>
      have hpart := Writes.part (b := b) (min count b.obuf.length)
      have hn : min count b.obuf.length ≤ b.obuf.length := Nat.min_le_right _ _
      have hlen : toInt32 b.obuf.length = (b.obuf.length : Int) :=
        toInt32_of_lt (by omega) (by omega)
      rw [BlockingContext.writeObuf]
      dsimp only
      rw [hlen, sdsrange_rest hsmall hn]
      split_ifs with hzero hall
      · rw [hzero] at hpart ⊢
        exact hpart
      · rw [Nat.cast_inj.mp hall, List.drop_length] at hpart
        rw [Nat.cast_inj.mp hall]
        exact hpart
      · exact .refused _
      · exact hpart

theorem sent_of_empty (h : b.obuf = []) : b = { b with sent := b.sent ++ b.obuf, obuf := [] } := by
  rw [h, List.append_nil, ← h]

/-- The first loop writes all of the buffer, or a part of it and fails. -/
theorem writeAll_eq {writes : List WriteResult} {ok : Bool} (herr : b.err = 0)
    (hsmall : b.obuf.length < 2 ^ 31) (h : b.writeAll writes = .ok (some (ok, b'))) :
    (ok = true ∧ b' = { b with sent := b.sent ++ b.obuf, obuf := [] }) ∨
    (ok = false ∧ ∃ part text, part <+: b.obuf ∧ b'.err = RedisErr.io.code ∧ b'.errstr = text ∧
      b'.sent = b.sent ++ part ∧ b'.reader = b.reader ∧ b'.arrived = b.arrived) := by
  induction writes generalizing b with
  | nil =>
      rw [BlockingContext.writeAll, if_neg (not_not.mpr herr)] at h
      split at h
      · rename_i hobuf
        cases h
        exact .inl ⟨rfl, sent_of_empty hobuf⟩
      · cases h
  | cons w writes ih =>
      rw [BlockingContext.writeAll, if_neg (not_not.mpr herr)] at h
      split at h
      · rename_i hobuf
        cases h
        exact .inl ⟨rfl, sent_of_empty hobuf⟩
      · have hwrites := writeObuf_writes hsmall w
        generalize b.writeObuf w = v at hwrites h
        cases hwrites with
        | refused => cases h
        | failed text =>
            cases h
            exact .inr ⟨rfl, [], _, List.nil_prefix, rfl, rfl, (List.append_nil _).symm, rfl, rfl⟩
        | part n =>
            rw [ok_do] at h
            dsimp only at h
            have hdrop : (b.obuf.drop n).length < 2 ^ 31 := by
              rw [List.length_drop]
              omega
            have hbytes : b.sent ++ b.obuf.take n ++ b.obuf.drop n = b.sent ++ b.obuf := by
              rw [List.append_assoc, List.take_append_drop]
            have hrest := ih (b := { b with
              sent := b.sent ++ b.obuf.take n, obuf := b.obuf.drop n }) herr hdrop h
            rcases hrest with
              ⟨hok, hb'⟩ | ⟨hok, part, text, hpart, herr', htext, hsent, hreader, harrived⟩
            · refine .inl ⟨hok, ?_⟩
              rw [hb']
              dsimp only
              rw [hbytes]
            · refine .inr ⟨hok, b.obuf.take n ++ part, text, ?_, herr', htext, ?_, hreader,
                harrived⟩
              · have hall := (List.prefix_append_right_inj (b.obuf.take n)).mpr hpart
                rwa [List.take_append_drop] at hall
              · rw [hsent, List.append_assoc]

/-! ### The two contexts -/

/-- The replies that can be read without more bytes. -/
def Pending (p : Parse) (unread : List Char) (replies : List HiredisReply) : Prop :=
  ∃ p' rest, Reads (Parse.turn lineEnd chrtos) p unread replies p' rest ∧
    p'.turn lineEnd chrtos rest = .wait

/-- While there is no error, the bytes on both ways are whole commands and a part
of the replies to them. -/
structure InStep (server : Server S N) (start : S) (b : BlockingContext) (c : RedisContext S)
    (p : Parse) (asked : List (List String)) (delivered : List HiredisReply) : Prop where
  short : ∀ argv ∈ asked, Short argv
  sent : b.sent = (asked.map wireBytes).flatten
  listening : Listening b delivered p
  replies : (server.execAll start asked).2 = delivered ++ (c.reader ++ c.socket)
  obufShort : ∀ argv ∈ c.obuf, Short argv
  obuf : b.obuf = (c.obuf.map wireBytes).flatten

/-- The context of commands and replies behind the context of bytes. -/
structure Relates (server : Server S N) (start : S) (b : BlockingContext) (c : RedisContext S)
    (p : Parse) : Prop where
  err : c.err = b.err
  errstr : c.errstr = b.errstr
  session : c.session = (server.answered start b.sent).1
  ready : Ready b.reader p
  reader : Pending p b.reader.unread c.reader
  inStep : b.err = 0 → ∃ asked delivered, InStep server start b c p asked delivered

variable {server : Server S N} {start : S} {c : RedisContext S}

theorem Pending.unique {replies replies' : List HiredisReply} (h : Pending p unread replies)
    (h' : Pending p unread replies') : replies = replies' := by
  obtain ⟨_, _, hreads, hwait⟩ := h
  obtain ⟨_, _, hreads', hwait'⟩ := h'
  exact (hreads.unique (.of_wait hwait) hreads' (.of_wait hwait')).1

theorem Relates.setError (h : Relates server start b c p) (e : RedisErr) {text : List Char}
    (htext : text.length ≤ 127) :
    Relates server start (b.setError e text) (c.setError e text) p := by
  refine ⟨rfl, (List.take_of_length_le htext).symm, h.session, h.ready, h.reader, ?_⟩
  intro herr
  exact absurd herr e.code_ne_zero

/-- A command waits in both buffers. -/
theorem Relates.append (h : Relates server start b c p) {argv : List String}
    (hargv : Short argv) :
    Relates server start { b with obuf := b.obuf ++ wireBytes argv }
      { c with obuf := c.obuf ++ [argv] } p := by
  refine ⟨h.err, h.errstr, h.session, h.ready, h.reader, ?_⟩
  intro herr
  obtain ⟨asked, delivered, hstep⟩ := h.inStep herr
  have hl := hstep.listening
  refine ⟨asked, delivered, hstep.short, hstep.sent, ⟨hl.err, hl.ready, hl.reads⟩, hstep.replies,
    ?_, ?_⟩
  · intro argv' hmem
    rcases List.mem_append.mp hmem with hmem | hmem
    · exact hstep.obufShort argv' hmem
    · rw [List.mem_singleton.mp hmem]
      exact hargv
  · show b.obuf ++ wireBytes argv = ((c.obuf ++ [argv]).map wireBytes).flatten
    rw [hstep.obuf, List.map_append, List.flatten_append, List.map_singleton,
      List.flatten_singleton]

/-- A reply that had arrived. -/
theorem Relates.pop (h : Relates server start b c p) {r : RedisReader} {reply : HiredisReply}
    (hreads : Reads (Parse.turn lineEnd chrtos) p b.reader.unread [reply] {} r.unread)
    (hready : Ready r {}) :
    ∃ later, c.reader = reply :: later ∧
      Relates server start { b with reader := r } { c with reader := later } {} := by
  obtain ⟨p', rest, hpending, hwait⟩ := h.reader
  obtain ⟨later, hlater, hrest⟩ := hreads.before hpending (.of_wait hwait)
  refine ⟨later, hlater, h.err, h.errstr, h.session, hready, ⟨p', rest, hrest, hwait⟩, ?_⟩
  intro herr
  obtain ⟨asked, delivered, hstep⟩ := h.inStep herr
  refine ⟨asked, delivered ++ [reply], hstep.short, hstep.sent,
    ⟨herr, hready, hstep.listening.reads.trans hreads⟩, ?_, hstep.obufShort, hstep.obuf⟩
  rw [hstep.replies, hlater]
  simp only [List.append_assoc, List.cons_append, List.nil_append]

/-- No reply had arrived. -/
theorem Relates.drained (h : Relates server start b c p) {r : RedisReader}
    (hreads : Reads (Parse.turn lineEnd chrtos) p b.reader.unread [] p' r.unread)
    (hwait : p'.turn lineEnd chrtos r.unread = .wait) (hready : Ready r p') :
    c.reader = [] ∧ Relates server start { b with reader := r } c p' := by
  have hnone : c.reader = [] := h.reader.unique ⟨p', r.unread, hreads, hwait⟩
  refine ⟨hnone, h.err, h.errstr, h.session, hready, ?_, ?_⟩
  · rw [hnone]
    exact ⟨p', r.unread, .nil _ _, hwait⟩
  · intro herr
    obtain ⟨asked, delivered, hstep⟩ := h.inStep herr
    have hall := hstep.listening.reads.trans hreads
    rw [List.append_nil] at hall
    exact ⟨asked, delivered, hstep.short, hstep.sent, ⟨herr, hready, hall⟩, hstep.replies,
      hstep.obufShort, hstep.obuf⟩

/-- The reader of related contexts meets no error. -/
theorem Relates.answers (h : Relates server start b c p)
    (hsmall : b.reader.buf.length < 2 ^ 31) (hmemory : ∀ k, memory k = true) :
    ReaderAnswers b p (b.redisGetReplyFromReader memory) := by
  refine redisGetReplyFromReader_answers h.ready hsmall ?_ hmemory
  intro p₁ rest₁ e hreads hfail
  obtain ⟨p', rest, hpending, hwait⟩ := h.reader
  obtain ⟨_, rfl, rfl⟩ := hreads.unique (.of_fail hfail) hpending (.of_wait hwait)
  cases hwait.symm.trans hfail

/-- The session after a part of the buffer is that after some of its commands. -/
theorem InStep.session_of_part {asked : List (List String)}
    (h : InStep server start b c p asked delivered)
    (hsession : c.session = (server.answered start b.sent).1) {part : List Char}
    (hpart : part <+: b.obuf) :
    ∃ n, (server.answered start (b.sent ++ part)).1 =
      (server.execAll c.session (c.obuf.take n)).1 := by
  rw [h.obuf] at hpart
  obtain ⟨n, hn⟩ := commandsIn_part h.short h.obufShort hpart
  refine ⟨n, ?_⟩
  rw [hsession, Server.answered, Server.answered, h.sent, hn, commandsIn_commands h.short,
    Server.execAll_append]

/-- The replies after all of the buffer. -/
theorem InStep.answered_all {asked : List (List String)}
    (h : InStep server start b c p asked delivered)
    (hsession : c.session = (server.answered start b.sent).1) :
    b.sent ++ b.obuf = ((asked ++ c.obuf).map wireBytes).flatten ∧
      (∀ argv ∈ asked ++ c.obuf, Short argv) ∧
      server.answered start (b.sent ++ b.obuf) = ((server.execAll c.session c.obuf).1,
        delivered ++ (c.reader ++ c.socket) ++ (server.execAll c.session c.obuf).2) ∧
      server.answered start (b.sent ++ b.obuf) = server.execAll start (asked ++ c.obuf) := by
  have hbytes : b.sent ++ b.obuf = ((asked ++ c.obuf).map wireBytes).flatten := by
    rw [h.sent, h.obuf, List.map_append, List.flatten_append]
  have hshort : ∀ argv ∈ asked ++ c.obuf, Short argv :=
    fun argv hmem => (List.mem_append.mp hmem).elim (h.short argv) (h.obufShort argv)
  have hcommands : server.answered start (b.sent ++ b.obuf) =
      server.execAll start (asked ++ c.obuf) := by
    rw [Server.answered, hbytes, commandsIn_commands hshort]
  refine ⟨hbytes, hshort, ?_, hcommands⟩
  rw [hcommands, hsession, Server.answered, h.sent, commandsIn_commands h.short,
    Server.execAll_append, h.replies]

/-! ### One call -/

/-- A reply as it is given to the caller. -/
def shown : Option HiredisReply → ReplyNode
  | none => .null
  | some reply => reply.built

theorem writeAll_of_err (herr : b.err ≠ 0) (writes : List WriteResult) :
    b.writeAll writes = .ok (some (false, b)) := by
  cases writes with
  | nil => exact congrArg Except.ok (if_pos herr)
  | cons w writes => exact if_pos herr

/-- The wires on which a call finds no malformed reply. -/
def wireOf (written : Option (Nat × List Char)) (received : Except (RedisErr × List Char) Nat) :
    Wire where
  grown := true
  malformed := none
  written := written
  received := received

/-- After an error of the second loop. -/
theorem Relates.hears_failed (h : Relates server start b c p) (herr : b.err = 0)
    (hreader : c.reader = []) {e : RedisErr} {text : List Char} (herr' : b'.err = e.code)
    (htext : b'.errstr = text) (hsent : b'.sent = b.sent ++ b.obuf) (hready : Ready b'.reader p')
    (hwait : p'.turn lineEnd chrtos b'.reader.unread = .wait) :
    Relates server start b'
      (RedisContext.flushAndRead server c (wireOf none (.error (e, text)))).2 p' ∧
    (RedisContext.flushAndRead server c (wireOf none (.error (e, text)))).1 = none := by
  obtain ⟨asked, delivered, hstep⟩ := h.inStep herr
  obtain ⟨_, _, hanswered, _⟩ := hstep.answered_all h.session
  have hzero : ¬c.err ≠ 0 := not_not.mpr (h.err.trans herr)
  rw [RedisContext.flushAndRead, if_neg hzero, wireOf]
  refine ⟨⟨herr'.symm, htext.symm, ?_, hready, ?_, ?_⟩, rfl⟩
  · rw [hsent, hanswered]
    rfl
  · show Pending p' b'.reader.unread c.reader
    rw [hreader]
    exact ⟨p', _, .nil _ _, hwait⟩
  · intro hnone
    exact absurd (herr'.symm.trans hnone) e.code_ne_zero

/-- After the reply that the second loop waits for. -/
theorem Relates.hears_reply (h : Relates server start b c p) (hspeaks : server.Speaks)
    (herr : b.err = 0) (hreader : c.reader = []) {asked : List (List String)}
    (hstep : InStep server start b c p asked delivered) {reply : HiredisReply}
    (hlistening : Listening b' (delivered ++ [reply]) {}) (herrstr : b'.errstr = b.errstr)
    (hsent : b'.sent = b.sent ++ b.obuf) (hobuf : b'.obuf = [])
    (hstarts : b'.arrived <+: HiredisReply.encodeAll (server.answered start b'.sent).2) :
    ∃ n, Relates server start b' (RedisContext.flushAndRead server c (wireOf none (.ok n))).2 {} ∧
      (RedisContext.flushAndRead server c (wireOf none (.ok n))).1 = some reply := by
  obtain ⟨hbytes, hshort, hanswered, hall⟩ := hstep.answered_all h.session
  have hzero : ¬c.err ≠ 0 := not_not.mpr (h.err.trans herr)
  -- what more can be read of the bytes behind the reply
  obtain ⟨later, p₁, rest, hreads, hstuck⟩ : ∃ later p₁ rest,
      Reads (Parse.turn lineEnd chrtos) {} b'.reader.unread later p₁ rest ∧
        Stuck (Parse.turn lineEnd chrtos) p₁ rest :=
    ⟨_, _, _, drain_reads _ _ _ _, drain_stuck Parse.steady (Nat.lt_succ_self _)⟩
  have hsendable : ∀ reply ∈ (server.answered start b'.sent).2, reply.Sendable maxDepth :=
    hspeaks.execAll _ _
  obtain ⟨⟨more, hmore⟩, hgood⟩ :=
    reads_of_part hsendable hstarts (hlistening.reads.trans hreads)
  have hwait : p₁.turn lineEnd chrtos rest = .wait := by
    cases hturn : p₁.turn lineEnd chrtos rest with
    | wait => rfl
    | take n s out => exact absurd hturn (hstuck n s out)
    | fail e => exact absurd hturn (hgood e)
  rw [hsent, hanswered, hreader, List.nil_append] at hmore
  simp only [List.append_assoc, List.append_cancel_left_eq, List.cons_append,
    List.nil_append] at hmore
  have hzip : (later ++ more).take later.length = later := List.take_left
  have hdrop : (later ++ more).drop later.length = more := List.drop_left
  refine ⟨later.length, ?_⟩
  have hflush : RedisContext.flushAndRead server c (wireOf none (.ok later.length)) =
      (some reply, { c with
        obuf := [], reader := later, socket := more,
        session := (server.execAll c.session c.obuf).1 }) := by
    rw [RedisContext.flushAndRead, if_neg hzero, wireOf]
    dsimp only
    rw [hmore]
    dsimp only
    rw [hzip, hdrop]
  rw [hflush]
  refine ⟨⟨?_, ?_, ?_, hlistening.ready, ⟨p₁, rest, hreads, hwait⟩, ?_⟩, rfl⟩
  · exact (h.err.trans herr).trans hlistening.err.symm
  · exact h.errstr.trans herrstr.symm
  · rw [hsent, hanswered]
  · intro _
    refine ⟨asked ++ c.obuf, delivered ++ [reply], hshort, hsent.trans hbytes, hlistening, ?_, ?_,
      hobuf⟩
    · rw [← hall, hanswered, hreader, List.nil_append, List.append_assoc, hmore]
      simp only [List.append_assoc, List.cons_append, List.nil_append]
    · intro argv hmem
      cases hmem

/-- What the outside has for a call: memory, less than two gigabytes, and bytes
that the server sent. -/
structure Plausible (server : Server S N) (start : S) (b : BlockingContext)
    (formatted : Formatted) (t : Traffic) (b' : BlockingContext) : Prop where
  memory : ∀ k, t.memory k = true
  supplied : ∀ a ∈ t.reads, a.Supplied
  reader : b.reader.buf.length + (incoming t.reads).length < 2 ^ 31
  obuf : ∀ cmd len, formatted = .command cmd len → b.obuf.length + cmd.length < 2 ^ 31
  arrives : b'.arrived <+: HiredisReply.encodeAll (server.answered start b'.sent).2

/-- The two loops of `redisGetReply`. -/
theorem Relates.flush (h : Relates server start b c p) (hspeaks : server.Speaks)
    (hreader : c.reader = []) (hwait : p.turn lineEnd chrtos b.reader.unread = .wait) {t : Traffic}
    (hsupplied : ∀ a ∈ t.reads, a.Supplied)
    (hfits : b.reader.buf.length + (incoming t.reads).length < 2 ^ 31)
    (hsmall : b.obuf.length < 2 ^ 31) {ok : Bool} {b₁ : BlockingContext}
    (hwrite : b.writeAll t.writes = .ok (some (ok, b₁)))
    (hresult : if ok then b₁.readUntilReply t.reads = .ok (some (node, b'))
      else node = .null ∧ b' = b₁)
    (hstarts : b'.arrived <+: HiredisReply.encodeAll (server.answered start b'.sent).2) :
    ∃ written received p', Relates server start b'
        (RedisContext.flushAndRead server c (wireOf written received)).2 p' ∧
      node = shown (RedisContext.flushAndRead server c (wireOf written received)).1 := by
  by_cases herr : b.err = 0
  · obtain ⟨asked, delivered, hstep⟩ := h.inStep herr
    have hzero : ¬c.err ≠ 0 := not_not.mpr (h.err.trans herr)
    rcases writeAll_eq herr hsmall hwrite with
      ⟨rfl, rfl⟩ | ⟨rfl, part, text, hpart, herr', htext, hsent, hsame, _⟩
    · rw [if_pos rfl] at hresult
      have hl := hstep.listening
      have hlistening : Listening { b with sent := b.sent ++ b.obuf, obuf := [] } delivered p :=
        ⟨hl.err, hl.ready, hl.reads⟩
      have hsocket := (readUntilReply_socket hresult).1
      have hheard := hlistening.hears hwait hsupplied hfits (hspeaks.execAll _ _) hresult hstarts
      cases hheard with
      | @failed b' p' e text herr' htext _ hready hwait' =>
          obtain ⟨hrelates, hnone⟩ :=
            h.hears_failed herr hreader herr' htext hsocket hready hwait'
          exact ⟨none, .error (e, text), p', hrelates, by rw [hnone]; rfl⟩
      | @replied b' reply hlistening' _ herrstr _ hobuf =>
          obtain ⟨n, hrelates, hsome⟩ := h.hears_reply hspeaks herr hreader hstep hlistening'
            herrstr hsocket hobuf hstarts
          exact ⟨none, .ok n, {}, hrelates, by rw [hsome]; rfl⟩
    · rw [if_neg (by nofun)] at hresult
      obtain ⟨rfl, rfl⟩ := hresult
      obtain ⟨n, hn⟩ := hstep.session_of_part h.session hpart
      refine ⟨some (n, text), .ok 0, p, ?_⟩
      rw [RedisContext.flushAndRead, if_neg hzero, wireOf]
      refine ⟨⟨herr'.symm, htext.symm, ?_, ?_, ?_, ?_⟩, rfl⟩
      · rw [hsent, hn]
        rfl
      · rw [hsame]
        exact h.ready
      · rw [hsame]
        exact h.reader
      · intro hnone
        exact absurd (herr'.symm.trans hnone) RedisErr.io.code_ne_zero
  · cases (writeAll_of_err herr t.writes).symm.trans hwrite
    rw [if_neg (by nofun)] at hresult
    obtain ⟨rfl, rfl⟩ := hresult
    refine ⟨none, .ok 0, p, ?_⟩
    rw [RedisContext.flushAndRead, if_pos (by rw [h.err]; exact herr)]
    exact ⟨h, rfl⟩

/-- `redisGetReply` -/
theorem Relates.getReply (h : Relates server start b c p) (hspeaks : server.Speaks) {t : Traffic}
    (hmemory : ∀ k, t.memory k = true) (hsupplied : ∀ a ∈ t.reads, a.Supplied)
    (hfits : b.reader.buf.length + (incoming t.reads).length < 2 ^ 31)
    (hsmall : b.obuf.length < 2 ^ 31) (hresult : b.redisGetReply t = .ok (some (node, b')))
    (hstarts : b'.arrived <+: HiredisReply.encodeAll (server.answered start b'.sent).2) :
    ∃ written received p', Relates server start b'
        (RedisContext.redisGetReply server c (wireOf written received)).2 p' ∧
      node = shown (RedisContext.redisGetReply server c (wireOf written received)).1 := by
  have hanswers := h.answers (by omega) hmemory
  obtain ⟨v, hv, hnext⟩ := do_ok.mp hresult
  rw [hv] at hanswers
  cases hanswers with
  | @reply r reply hreads hready _ =>
      obtain ⟨later, hlater, hrelates⟩ := h.pop hreads hready
      have hdone : b' = { b with reader := r } ∧ node = reply.built := by
        obtain ⟨type, integer, str, element⟩ := reply
        cases hnext
        exact ⟨rfl, rfl⟩
      obtain ⟨rfl, rfl⟩ := hdone
      refine ⟨none, .ok 0, {}, ?_⟩
      rw [RedisContext.redisGetReply, wireOf]
      dsimp only
      rw [hlater]
      exact ⟨hrelates, rfl⟩
  | @none r p' hreads hwait hready hbuf =>
      obtain ⟨hreader, hrelates⟩ := h.drained hreads hwait hready
      have hfits' : r.buf.length + (incoming t.reads).length < 2 ^ 31 := by omega
      have hflush (written : Option (Nat × List Char))
          (received : Except (RedisErr × List Char) Nat) :
          RedisContext.redisGetReply server c (wireOf written received) =
            RedisContext.flushAndRead server c (wireOf written received) := by
        rw [RedisContext.redisGetReply, wireOf]
        dsimp only
        rw [hreader]
      simp only [hflush]
      dsimp only at hnext
      obtain ⟨u, hwrite, hnext⟩ := do_ok.mp hnext
      cases u with
      | none => cases hnext
      | some u =>
          obtain ⟨ok, b₁⟩ := u
          refine hrelates.flush hspeaks hreader hwait hsupplied hfits' hsmall hwrite ?_ hstarts
          cases ok with
          | false =>
              cases hnext
              exact ⟨rfl, rfl⟩
          | true => exact hnext

/-- The command that was formatted. -/
inductive Means : Formatted → Command → Prop where
  | words {argv : List String} (len : Int) : Short argv →
      Means (.command (wireBytes argv) len) (.words argv)
  | outOfMemory : Means (.error (-1)) .outOfMemory
  | invalidFormat : Means (.error (-2)) .invalidFormat

/-- A call on the bytes that returns is a call on commands and replies. -/
theorem Relates.redisvCommand (h : Relates server start b c p) (hspeaks : server.Speaks)
    {formatted : Formatted} {command : Command} (hmeans : Means formatted command) {t : Traffic}
    (hcall : Plausible server start b formatted t b')
    (hresult : b.redisvCommand formatted t = .ok (some (node, b'))) :
    ∃ w p', Relates server start b' (RedisContext.redisvCommand server c command w).2 p' ∧
      node = shown (RedisContext.redisvCommand server c command w).1 := by
  cases hmeans with
  | @words argv len hargv =>
      cases hgrown : t.grown with
      | false =>
          have hfailed : b.redisvCommand (.command (wireBytes argv) len) t =
              .ok (some (.null, b.setError .oom "Out of memory".toList)) := by
            rw [BlockingContext.redisvCommand, BlockingContext.redisvAppendCommand, hgrown]
            rfl
          cases hresult.symm.trans hfailed
          exact ⟨{ wireOf none (.ok 0) with grown := false }, p, h.setError .oom (by decide), rfl⟩
      | true =>
          have hgoes : b.redisvCommand (.command (wireBytes argv) len) t =
              BlockingContext.redisGetReply { b with obuf := b.obuf ++ wireBytes argv } t := by
            rw [BlockingContext.redisvCommand, BlockingContext.redisvAppendCommand, hgrown]
            rfl
          rw [hgoes] at hresult
          have hsmall : (b.obuf ++ wireBytes argv).length < 2 ^ 31 := by
            rw [List.length_append]
            exact hcall.obuf _ _ rfl
          obtain ⟨written, received, p', hrelates, hnode⟩ := (h.append hargv).getReply hspeaks
            hcall.memory hcall.supplied hcall.reader hsmall hresult hcall.arrives
          exact ⟨wireOf written received, p', hrelates, hnode⟩
  | outOfMemory =>
      cases hresult
      exact ⟨wireOf none (.ok 0), p, h.setError .oom (by decide), rfl⟩
  | invalidFormat =>
      cases hresult
      exact ⟨wireOf none (.ok 0), p, h.setError .other (by decide), rfl⟩

end CloRedis
