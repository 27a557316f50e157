import CloRedis.Redis.Connection

/-!
What is read back of the messages written to `err_msg_`. `UpdateErrMsg` leaves
the byte behind a message as it was and puts its NUL one further on, so the
text read is the message alone only where that byte happened to be NUL, and a
message that fills the buffer has its NUL outside.
-/

namespace CloRedis

/-- A C string ends at the byte that follows it. -/
theorem cText_append_iff {msg : List Char} (hnul : '\x00' ∉ msg) (c : Char) (rest : List Char) :
    cText (msg ++ c :: rest) = msg ↔ c = '\x00' := by
  have hmsg : ∀ a ∈ msg, decide (a ≠ '\x00') = true := by
    intro a ha
    exact decide_eq_true fun h => hnul (h ▸ ha)
  unfold cText
  rw [List.takeWhile_append_of_pos hmsg, List.append_right_eq_self]
  by_cases hc : c = '\x00'
  · simp [hc]
  · simp [hc]

namespace ErrMsg

/-- A buffer with the same byte everywhere. -/
def filled (c : Char) : ErrMsg where
  cells := List.replicate redisErrstrLen c
  size_eq := List.length_replicate

/-- A message cut to what the buffer can hold. -/
def cut (msg : List Char) : List Char := msg.take (redisErrstrLen - 1)

theorem cut_eq_of_lt {msg : List Char} (h : msg.length < redisErrstrLen) : cut msg = msg :=
  List.take_of_length_le (Nat.le_sub_one_of_lt h)

theorem cut_length_of_le {msg : List Char} (h : redisErrstrLen ≤ msg.length) :
    (cut msg).length = redisErrstrLen - 1 :=
  List.length_take_of_le ((Nat.sub_le _ 1).trans h)

theorem cut_length_lt (msg : List Char) : (cut msg).length < redisErrstrLen := by
  unfold cut
  rw [List.length_take]
  exact lt_of_le_of_lt (min_le_left _ _) (by decide)

/-- The bytes copied, the bytes that stay, and the NUL one behind the first of those. -/
theorem updateErrMsg_some (buf : ErrMsg) (msg : List Char) :
    (buf.updateErrMsg (some msg)).cells =
        (cut msg ++ buf.cells.drop (cut msg).length).set ((cut msg).length + 1) '\x00' ∧
      (buf.updateErrMsg (some msg)).stray =
        if (cut msg).length + 1 < redisErrstrLen then buf.stray else buf.stray + 1 := by
  by_cases hlt : msg.length < redisErrstrLen
  · simp [updateErrMsg, len, write, copy, hlt, cut_eq_of_lt hlt]
  · have hlen := cut_length_of_le (not_lt.mp hlt)
    unfold cut at hlen ⊢
    simp [updateErrMsg, len, write, copy, hlt, hlen]

/-- The byte at an index after a message. -/
theorem updateErrMsg_byte (buf : ErrMsg) (msg : List Char) {i : Nat} (hi : i < redisErrstrLen) :
    (buf.updateErrMsg (some msg)).cells[i]? =
      if i < (cut msg).length then (cut msg)[i]?
      else if i = (cut msg).length + 1 then some '\x00' else buf.cells[i]? := by
  have hsize := buf.size_eq
  rw [(buf.updateErrMsg_some msg).1]
  by_cases hcopied : i < (cut msg).length
  · rw [if_pos hcopied, List.getElem?_set_ne (by omega), List.getElem?_append_left hcopied]
  · rw [if_neg hcopied]
    have hrest : (cut msg ++ buf.cells.drop (cut msg).length)[i]? = buf.cells[i]? := by
      rw [List.getElem?_append_right (not_lt.mp hcopied), List.getElem?_drop,
        Nat.add_sub_cancel' (not_lt.mp hcopied)]
    by_cases hnul : i = (cut msg).length + 1
    · rw [if_pos hnul, ← hnul]
      apply List.getElem?_set_self
      rw [List.length_append, List.length_drop]
      omega
    · rw [if_neg hnul, List.getElem?_set_ne (Ne.symm hnul), hrest]

/-- The message is read back alone when the byte behind it is NUL. -/
theorem text_iff (buf : ErrMsg) {msg : List Char} (hnul : '\x00' ∉ msg) :
    (buf.updateErrMsg (some msg)).text = cut msg ↔
      buf.cells[(cut msg).length]? = some '\x00' := by
  have hnul : '\x00' ∉ cut msg := fun h => hnul (List.mem_of_mem_take h)
  obtain ⟨c, rest, hrest⟩ : ∃ c rest, buf.cells.drop (cut msg).length = c :: rest := by
    apply List.exists_cons_of_length_pos
    rw [List.length_drop, buf.size_eq]
    exact Nat.sub_pos_of_lt (cut_length_lt msg)
  have hbyte : buf.cells[(cut msg).length]? = some c := by
    rw [← List.head?_drop, hrest]
    rfl
  unfold text
  rw [(buf.updateErrMsg_some msg).1, hrest, List.set_append_right _ _ (Nat.le_add_right _ 1),
    Nat.add_sub_cancel_left, hbyte, Option.some.injEq]
  exact cText_append_iff hnul c _

/-- What a list of messages leaves. -/
def written (buf : ErrMsg) (msgs : List (List Char)) : ErrMsg :=
  msgs.foldl (fun buf msg => buf.updateErrMsg (some msg)) buf

theorem written_concat (buf : ErrMsg) (msgs : List (List Char)) (msg : List Char) :
    buf.written (msgs ++ [msg]) = (buf.written msgs).updateErrMsg (some msg) :=
  List.foldl_concat ..

/-- The byte at an index is NUL after messages that fit: the last message that
reached it is one byte too short for it, or there is none and the byte was NUL
before. -/
def Cleared (buf : ErrMsg) (i : Nat) (msgs : List (List Char)) : Prop :=
  msgs.foldl (fun nul msg => if i < msg.length then False else if i = msg.length + 1 then True
    else nul) (buf.cells[i]? = some '\x00')

theorem cleared_concat (buf : ErrMsg) (i : Nat) (msgs : List (List Char)) (msg : List Char) :
    buf.Cleared i (msgs ++ [msg]) =
      if i < msg.length then False else if i = msg.length + 1 then True else buf.Cleared i msgs :=
  List.foldl_concat ..

theorem written_byte_iff (buf : ErrMsg) {msgs : List (List Char)}
    (hfit : ∀ msg ∈ msgs, msg.length < redisErrstrLen - 1) (hnul : ∀ msg ∈ msgs, '\x00' ∉ msg)
    {i : Nat} (hi : i < redisErrstrLen) :
    (buf.written msgs).cells[i]? = some '\x00' ↔ buf.Cleared i msgs := by
  induction msgs using List.reverseRecOn with
  | nil => exact Iff.rfl
  | append_singleton msgs msg ih =>
      have hmsgfit := hfit msg (List.mem_append_right _ (List.mem_singleton_self msg))
      have hmsgnul := hnul msg (List.mem_append_right _ (List.mem_singleton_self msg))
      have hearlier := ih (fun m hm => hfit m (List.mem_append_left _ hm))
        (fun m hm => hnul m (List.mem_append_left _ hm))
      rw [written_concat, updateErrMsg_byte _ _ hi, cut_eq_of_lt (Nat.lt_of_lt_pred hmsgfit),
        cleared_concat]
      by_cases hcopied : i < msg.length
      · rw [if_pos hcopied, if_pos hcopied, iff_false]
        intro hbyte
        exact hmsgnul (List.mem_of_getElem? hbyte)
      · rw [if_neg hcopied, if_neg hcopied]
        by_cases hend : i = msg.length + 1
        · rw [if_pos hend, if_pos hend, iff_true]
        · rw [if_neg hend, if_neg hend]
          exact hearlier

/-- A message too long for its NUL costs one write outside. -/
theorem written_stray (buf : ErrMsg) (msgs : List (List Char)) :
    (buf.written msgs).stray =
      buf.stray + msgs.countP fun msg => redisErrstrLen - 1 ≤ msg.length := by
  induction msgs using List.reverseRecOn with
  | nil => rfl
  | append_singleton msgs msg ih =>
      have hlen : (cut msg).length = min (redisErrstrLen - 1) msg.length := List.length_take
      rw [written_concat, (updateErrMsg_some _ msg).2, ih, List.countP_append,
        List.countP_singleton, hlen]
      by_cases hlong : redisErrstrLen - 1 ≤ msg.length
      · have hmiss : ¬min (redisErrstrLen - 1) msg.length + 1 < redisErrstrLen := by omega
        rw [if_neg hmiss, if_pos (decide_eq_true hlong), add_assoc]
      · have hinside : min (redisErrstrLen - 1) msg.length + 1 < redisErrstrLen := by omega
        rw [if_pos hinside, if_neg (by simpa using hlong), add_zero]

theorem written_stray_iff (buf : ErrMsg) (msgs : List (List Char)) :
    (buf.written msgs).stray = buf.stray ↔ ∀ msg ∈ msgs, msg.length < redisErrstrLen - 1 := by
  rw [written_stray, Nat.add_eq_left, List.countP_eq_zero]
  simp only [decide_eq_true_eq, not_le]

end ErrMsg

/-- A call of `Init` or `Update`. -/
inductive ReplyCall where
  | init (reply : Option HiredisReply) (reclaim : Bool) (state : ErrState)
      (errMsg : Option (List Char))
  | update (reply : Option HiredisReply) (reclaim : Bool) (state : ErrState)
      (errMsg : Option (List Char))

def ReplyCall.errMsg : ReplyCall → Option (List Char)
  | .init _ _ _ errMsg => errMsg
  | .update _ _ _ errMsg => errMsg

/-- The messages of the calls that are not NULL. -/
def messages (calls : List ReplyCall) : List (List Char) := calls.filterMap ReplyCall.errMsg

namespace RedisReply

def call (r : RedisReply) : ReplyCall → RedisReply
  | .init reply reclaim state errMsg => r.init reply reclaim state errMsg
  | .update reply reclaim state errMsg => r.update reply reclaim state errMsg

def after (r : RedisReply) (calls : List ReplyCall) : RedisReply := calls.foldl call r

theorem call_errMsg (r : RedisReply) (c : ReplyCall) :
    (r.call c).errMsg = r.errMsg.updateErrMsg c.errMsg := by
  cases c with
  | init reply reclaim state errMsg => rfl
  | update reply reclaim state errMsg =>
      show (r.removeOldState.init reply reclaim state errMsg).errMsg = _
      unfold removeOldState init
      split
      · split <;> rfl
      · rfl

theorem after_errMsg (r : RedisReply) (calls : List ReplyCall) :
    (r.after calls).errMsg = r.errMsg.written (messages calls) := by
  induction calls generalizing r with
  | nil => rfl
  | cons c calls ih =>
      show ((r.call c).after calls).errMsg = _
      rw [ih, call_errMsg]
      unfold messages
      cases hmsg : c.errMsg with
      | none =>
          rw [List.filterMap_cons_none hmsg]
          rfl
      | some msg =>
          rw [List.filterMap_cons_some hmsg]
          rfl

/-- The text read back after a last message is that message, and every write
was inside the buffer, exactly when every message leaves room for its NUL and
the byte behind the last one was NUL. -/
theorem last_text_iff (r : RedisReply) (calls : List ReplyCall) (earlier : List (List Char))
    (last : List Char) (hmessages : messages calls = earlier ++ [last])
    (hnul : ∀ msg ∈ messages calls, '\x00' ∉ msg) :
    ((r.after calls).errMsg.text = ErrMsg.cut last ∧
      ((r.after calls).reply = none → (r.after calls).errStr = ErrMsg.cut last) ∧
      (r.after calls).errMsg.stray = r.errMsg.stray) ↔
    (∀ msg ∈ messages calls, msg.length < redisErrstrLen - 1) ∧
      r.errMsg.Cleared last.length earlier := by
  have herrStr : (r.after calls).reply = none →
      (r.after calls).errStr = (r.after calls).errMsg.text := by
    intro hreply
    unfold errStr
    rw [hreply]
  have hlast : '\x00' ∉ last := by
    apply hnul last
    rw [hmessages]
    exact List.mem_append_right _ (List.mem_singleton_self last)
  have htext : (r.after calls).errMsg.text = ErrMsg.cut last ↔
      (r.errMsg.written earlier).cells[(ErrMsg.cut last).length]? = some '\x00' := by
    rw [after_errMsg, hmessages, ErrMsg.written_concat]
    exact ErrMsg.text_iff _ hlast
  have hstray := r.errMsg.written_stray_iff (messages calls)
  rw [← after_errMsg] at hstray
  rw [hstray]
  -- where every message fits, the byte in question is what the condition says it is
  have hbyte (hfit : ∀ msg ∈ messages calls, msg.length < redisErrstrLen - 1) :
      (r.errMsg.written earlier).cells[(ErrMsg.cut last).length]? = some '\x00' ↔
        r.errMsg.Cleared last.length earlier := by
    rw [hmessages] at hfit hnul
    have hlastfit := hfit last (List.mem_append_right _ (List.mem_singleton_self last))
    have hlt := Nat.lt_of_lt_pred hlastfit
    rw [ErrMsg.cut_eq_of_lt hlt]
    exact r.errMsg.written_byte_iff (fun m hm => hfit m (List.mem_append_left _ hm))
      (fun m hm => hnul m (List.mem_append_left _ hm)) hlt
  constructor
  · rintro ⟨hread, _, hfit⟩
    exact ⟨hfit, (hbyte hfit).mp (htext.mp hread)⟩
  · rintro ⟨hfit, hcleared⟩
    have hread := htext.mpr ((hbyte hfit).mpr hcleared)
    exact ⟨hread, fun hreply => (herrStr hreply).trans hread, hfit⟩

end RedisReply

namespace RedisConnectionImpl

variable {C D W P : Type*}

/-- The message of the exit a `Do` takes when it has no reply to show. -/
def failure (h : Hiredis C D W) (conn : RedisConnectionImpl C P) (command : Command) (w : W) :
    Option (List Char) :=
  match conn.redisContext with
  | none => some errBadConnection.toList
  | some c =>
      let (reply, c) := h.redisvCommand c command w
      if h.err c ≠ 0 then some (h.errstr c)
      else
        match reply with
        | some _ => none
        | none => some errReplyNull.toList

/-- A failed `Do` is one `Update` with its message. -/
theorem doCommand_of_failure {h : Hiredis C D W} {conn : RedisConnectionImpl C P}
    {command : Command} {w : W} {text : List Char}
    (hfail : conn.failure h command w = some text) :
    ∃ state, (conn.doCommand h command w).toRedisReply =
      conn.toRedisReply.update none true state (some text) := by
  unfold failure at hfail
  unfold doCommand
  dsimp only at hfail ⊢
  cases hcontext : conn.redisContext with
  | none =>
      rw [hcontext] at hfail
      cases hfail
      exact ⟨.errorInvoke, rfl⟩
  | some c =>
      rw [hcontext] at hfail
      dsimp only at hfail ⊢
      by_cases herr : h.err (h.redisvCommand c command w).2 = 0
      · rw [if_neg (not_not.mpr herr)] at hfail ⊢
        cases hreply : (h.redisvCommand c command w).1 with
        | some tree => simp [hreply] at hfail
        | none =>
            rw [hreply] at hfail
            cases hfail
            exact ⟨.errorInvoke, rfl⟩
      · rw [if_pos herr] at hfail ⊢
        cases hfail
        exact ⟨.errorHiredis, rfl⟩

theorem failed_do_text_iff {h : Hiredis C D W} {conn : RedisConnectionImpl C P}
    {command : Command} {w : W} {text : List Char} {r : RedisReply} {calls : List ReplyCall}
    (hconn : conn.toRedisReply = r.after calls) (hfail : conn.failure h command w = some text)
    (hnul : ∀ msg ∈ messages calls ++ [text], '\x00' ∉ msg) :
    ((conn.doCommand h command w).errStr = ErrMsg.cut text ∧
      (conn.doCommand h command w).errMsg.stray = r.errMsg.stray) ↔
    (∀ msg ∈ messages calls ++ [text], msg.length < redisErrstrLen - 1) ∧
      r.errMsg.Cleared text.length (messages calls) := by
  obtain ⟨state, hdo⟩ := doCommand_of_failure hfail
  have hafter : (conn.doCommand h command w).toRedisReply =
      r.after (calls ++ [.update none true state (some text)]) := by
    unfold RedisReply.after at hconn ⊢
    rw [hdo, hconn, List.foldl_concat]
    rfl
  have hmessages : messages (calls ++ [.update none true state (some text)]) =
      messages calls ++ [text] :=
    List.filterMap_append ..
  have hnone : (r.after (calls ++ [.update none true state (some text)])).reply = none := by
    rw [← hafter, hdo]
    rfl
  have hiff := r.last_text_iff _ (messages calls) text hmessages (by rwa [hmessages])
  rw [hmessages] at hiff
  rw [hafter, ← hiff]
  constructor
  · rintro ⟨hread, hstray⟩
    refine ⟨?_, fun _ => hread, hstray⟩
    unfold RedisReply.errStr at hread
    rwa [hnone] at hread
  · rintro ⟨_, hread, hstray⟩
    exact ⟨hread hnone, hstray⟩

/-- When the text of the last message is read back alone: of any messages, and
of the message of a `Do` that fails after them. -/
theorem error_text_iff (h : Hiredis C D W) (r : RedisReply) (calls : List ReplyCall) :
    (∀ earlier last, messages calls = earlier ++ [last] →
      (∀ msg ∈ messages calls, '\x00' ∉ msg) →
      (((r.after calls).errMsg.text = ErrMsg.cut last ∧
        ((r.after calls).reply = none → (r.after calls).errStr = ErrMsg.cut last) ∧
        (r.after calls).errMsg.stray = r.errMsg.stray) ↔
      (∀ msg ∈ messages calls, msg.length < redisErrstrLen - 1) ∧
        r.errMsg.Cleared last.length earlier)) ∧
    ∀ (conn : RedisConnectionImpl C P) (command : Command) (w : W) (text : List Char),
      conn.toRedisReply = r.after calls → conn.failure h command w = some text →
      (∀ msg ∈ messages calls ++ [text], '\x00' ∉ msg) →
      (((conn.doCommand h command w).errStr = ErrMsg.cut text ∧
        (conn.doCommand h command w).errMsg.stray = r.errMsg.stray) ↔
      (∀ msg ∈ messages calls ++ [text], msg.length < redisErrstrLen - 1) ∧
        r.errMsg.Cleared text.length (messages calls)) :=
  ⟨fun earlier last hmessages hnul => r.last_text_iff calls earlier last hmessages hnul,
    fun _ _ _ _ hconn hfail hnul => failed_do_text_iff hconn hfail hnul⟩

/-- A library that never connects. -/
def offline : Hiredis Unit Unit Unit where
  redisConnectWithTimeout _ _ _ _ := none
  redisvCommand c _ _ := (none, c)
  err _ := 0
  errstr _ := []

/-- A message is read back alone behind one that is a byte shorter, whatever
the memory held, and in memory full of NULs so is the message of a `Do`. -/
theorem error_text_after_shorter_message :
    ((RedisReply.new (ErrMsg.filled '?')).after
      [.update none true .errorHiredis (some "Connection refuse".toList),
        .init none true .errorInvoke none,
        .update none true .errorHiredis (some "Connection refused".toList)]).errStr =
        "Connection refused".toList ∧
    (((new none (ErrMsg.filled '\x00') : RedisConnectionImpl Unit Unit).update none true
      .errorHiredis (some "EOF".toList)).doCommand offline (.words ["PING"]) ()).errStr =
        errBadConnection.toList := by
  have hiff (garbage : ErrMsg) (calls : List ReplyCall) := error_text_iff (P := Unit) offline
    (RedisReply.new garbage) calls
  constructor
  · have hread := (hiff (ErrMsg.filled '?')
      [.update none true .errorHiredis (some "Connection refuse".toList),
        .init none true .errorInvoke none,
        .update none true .errorHiredis (some "Connection refused".toList)]).1
      ["Connection refuse".toList] _ rfl (by decide)
    refine (hread.mpr ⟨by decide, ?_⟩).2.1 rfl
    simp [ErrMsg.Cleared]
  · have hread := (hiff (ErrMsg.filled '\x00')
      [.update none true .errorHiredis (some "EOF".toList)]).2
      ((new none (ErrMsg.filled '\x00')).update none true .errorHiredis (some "EOF".toList))
      (.words ["PING"]) () _ rfl rfl (by decide)
    have hbyte : (ErrMsg.filled '\x00').cells[errBadConnection.toList.length]? = some '\x00' :=
      rfl
    exact (hread.mpr ⟨by decide, hbyte⟩).1

/-- A byte of an earlier, longer message is read behind the last one. -/
theorem leftover_byte_read :
    ((RedisReply.new (ErrMsg.filled '\x00')).after
      [.update none true .errorHiredis (some "Resource temporarily unavailable".toList),
        .init none true .errorInvoke none,
        .update none true .errorHiredis (some "Connection refused".toList)]).errStr =
      "Connection refusedl".toList ∧
    "Connection refusedl".toList ≠ ErrMsg.cut "Connection refused".toList := by
  constructor
  · decide
  · decide

end RedisConnectionImpl

end CloRedis
