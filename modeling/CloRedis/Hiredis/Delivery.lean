import CloRedis.Hiredis.Reading
import CloRedis.Library.Outcome

/-!
Sessions with a reader: bytes are fed in pieces of any size, and replies are
asked for at any time. The replies that come out are the ones the bytes denote.
-/

namespace CloRedis

open Library

variable {r r' : RedisReader} {p p' : Parse}

/-! ### Small buffers -/

theorem seekNewlineFrom_eq {len : Int} {pos : Nat} {l : List Char}
    (hlen : (pos : Int) + l.length - 1 = len) :
    seekNewlineFrom len pos l = (lineEnd l).map (pos + ·) := by
  induction l generalizing pos with
  | nil => rfl
  | cons c rest ih =>
      rw [List.length_cons] at hlen
      unfold seekNewlineFrom
      by_cases hline : c = '\r' ∧ rest.head? = some '\n'
      · obtain ⟨rfl, hhead⟩ := hline
        cases rest with
        | nil => cases hhead
        | cons d rest =>
            cases Option.some.inj hhead
            rw [List.length_cons] at hlen
            rw [if_pos (by omega), if_pos ⟨rfl, rfl⟩]
            rfl
      · rw [lineEnd_cons hline, if_neg hline]
        cases rest with
        | nil =>
            rw [lineEnd_nil]
            split <;> rfl
        | cons d rest =>
            have hlater : ((pos + 1 : Nat) : Int) + (d :: rest).length - 1 = len := by
              push_cast at hlen ⊢
              omega
            rw [List.length_cons] at hlen
            rw [if_pos (by omega), ih hlater, Option.map_map]
            congr 1
            funext n
            show pos + 1 + n = pos + (n + 1)
            omega

theorem seekNewline_eq {l : List Char} (h : l.length < 2 ^ 31) : seekNewline l = lineEnd l := by
  have hlen : toInt32 ((l.length : Int) - 1) = (l.length : Int) - 1 :=
    toInt32_of_lt (by omega) (by omega)
  rw [seekNewline, hlen, seekNewlineFrom_eq (by omega)]
  simp

theorem scan_eq {l : List Char} (h : l.length < 2 ^ 31) (kind : ReplyType) (depth : Nat) :
    scan seekNewline kind depth l = scan lineEnd kind depth l := by
  cases kind with
  | nil => rfl
  | string => simp only [scan, scanBulk, seekNewline_eq h]
  | array => simp only [scan, scanMultiBulk, seekNewline_eq h]
  | status => simp only [scan, scanLine, seekNewline_eq h]
  | error => simp only [scan, scanLine, seekNewline_eq h]
  | integer => simp only [scan, scanLine, seekNewline_eq h]

theorem readerTurn_eq {l : List Char} (h : l.length < 2 ^ 31) (p : Parse) :
    readerTurn p l = p.turn lineEnd chrtos l := by
  simp only [readerTurn, Parse.turn, scan_eq h]

theorem reads_lineEnd {l rest : List Char} {outs : List HiredisReply}
    (h : Reads readerTurn p l outs p' rest) (hl : l.length < 2 ^ 31) :
    Reads (Parse.turn lineEnd chrtos) p l outs p' rest := by
  induction h with
  | nil => exact .nil _ _
  | cons hturn _ ih =>
      rw [readerTurn_eq hl] at hturn
      refine .cons hturn (ih ?_)
      rw [List.length_drop]
      omega

theorem sdsrange_rest {s : List Char} (hs : s.length < 2 ^ 31) {pos : Nat} (hpos : pos ≤ s.length) :
    sdsrange s (toInt32 pos) (-1) = s.drop pos := by
  rw [toInt32_of_lt (by omega) (by omega), sdsrange]
  by_cases hempty : s.length = 0
  · rw [if_pos (by omega), List.length_eq_zero_iff.mp hempty, List.drop_nil]
  · have hlast : toInt32 ((s.length : Int) + -1) = (s.length : Int) - 1 :=
      toInt32_of_lt (by omega) (by omega)
    have hlen : toInt32 (s.length : Int) = s.length := toInt32_of_lt (by omega) (by omega)
    have hmax : max 0 ((s.length : Int) - 1) = (s.length : Int) - 1 := by omega
    simp only [hlast, hlen, hmax, if_neg (show ¬(s.length : Int) = 0 by omega),
      if_neg (show ¬(pos : Int) < 0 by omega), if_pos (show (-1 : Int) < 0 by decide),
      if_neg (show ¬(s.length : Int) ≤ (s.length : Int) - 1 by omega)]
    split_ifs with hstop hstart
    · rw [List.drop_of_length_le (by omega)]
    · rw [List.drop_of_length_le (by omega)]
    · rw [Int.toNat_natCast, List.take_of_length_le]
      rw [List.length_drop]
      omega

/-! ### One call -/

/-- Between two calls there are no tasks, or the reader waits in the middle of a
reply. -/
inductive Ready (r : RedisReader) : Parse → Prop where
  | idle : r.err = none → r.rstack = [] → r.reply = .null → r.pos ≤ r.buf.length → Ready r {}
  | busy {p : Parse} : Mirrors r p → readerTurn p [] = .wait → Ready r p

theorem Ready.err (h : Ready r p) : r.err = none := by
  cases h with
  | idle herr => exact herr
  | busy hmirrors => exact hmirrors.err

theorem Ready.pos (h : Ready r p) : r.pos ≤ r.buf.length := by
  cases h with
  | idle _ _ _ hpos => exact hpos
  | busy hmirrors => exact hmirrors.pos

theorem Ready.wait (h : Ready r p) : readerTurn p [] = .wait := by
  cases h with
  | idle => rfl
  | busy _ hwait => exact hwait

theorem Ready.start (h : Ready r p) : Mirrors r.start p := by
  unfold RedisReader.start
  cases h with
  | idle herr hstack hreply hpos =>
      rw [if_pos hstack]
      exact ⟨herr, ⟨_, _, rfl, rfl, rfl, trivial⟩, hreply, Nat.zero_le _, nofun, hpos⟩
  | busy hmirrors =>
      obtain ⟨top, below, hstack, _⟩ := hmirrors.stack
      rw [if_neg (by rw [hstack]; nofun)]
      exact hmirrors

theorem start_unread (r : RedisReader) : r.start.unread = r.unread := by
  unfold RedisReader.start
  split <;> rfl

theorem start_buf (r : RedisReader) : r.start.buf = r.buf := by
  unfold RedisReader.start
  split <;> rfl

/-- A reader that waits also waits with nothing. -/
theorem readerTurn_wait {l : List Char} (h : readerTurn p l = .wait) : readerTurn p [] = .wait := by
  cases hkind : p.kind with
  | none => simp only [readerTurn, Parse.turn, hkind]
  | some kind =>
      have hnone : seekNewline [] = none := rfl
      rw [readerTurn_some hkind] at h ⊢
      cases kind with
      | nil => rfl
      | array =>
          simp only [scan, scanMultiBulk, hnone] at h ⊢
          by_cases hdepth : p.frames.length = maxDepth
          · rw [if_pos hdepth] at h
            cases h
          · rw [if_neg hdepth]
      | string => simp only [scan, scanBulk, hnone]
      | status => simp only [scan, scanLine, hnone]
      | error => simp only [scan, scanLine, hnone]
      | integer => simp only [scan, scanLine, hnone]

/-- How the loop of `redisReaderGetReply` ends. -/
inductive Settles (memory : Nat → Bool) (r : RedisReader) (p : Parse) : RedisReader → Prop where
  | completes {r' : RedisReader} {reply : HiredisReply} :
      Reads readerTurn p r.unread [reply] {} r'.unread → Completes r' reply → r'.buf = r.buf →
      Settles memory r p r'
  | waits {r' : RedisReader} {p' : Parse} :
      Reads readerTurn p r.unread [] p' r'.unread → readerTurn p' r'.unread = .wait →
      Mirrors r' p' → r'.buf = r.buf → Settles memory r p r'
  | fails {r' : RedisReader} {p' : Parse} {rest : List Char} {e : RedisErr × List Char} :
      Reads readerTurn p r.unread [] p' rest → readerTurn p' rest = .fail e → Broken r' e →
      Settles memory r p r'
  | starves {r' : RedisReader} (k : Nat) : memory k = false →
      Broken r' (.oom, "Out of memory".toList) → Settles memory r p r'

theorem Landed.pos {out : Option HiredisReply} (h : Landed r p out) : r.pos ≤ r.buf.length := by
  cases out with
  | none => exact Mirrors.pos h
  | some reply => exact h.1.pos

/-- What every turn of the loop keeps. -/
def Under (r : RedisReader) (p : Parse) (s : Nat × RedisReader) : Prop :=
  s.2.buf = r.buf ∧ ∃ p' out, Reads readerTurn p r.unread (Option.toList out) p' s.2.unread ∧
    Landed s.2 p' out

theorem getReplyBody_goes {memory : Nat → Bool} {s s' : Nat × RedisReader} (h : Under r p s)
    (hbody : attempt (RedisReader.getReplyBody memory) s = .inl s') :
    Under r p s' ∧ s'.2.unread.length < s.2.unread.length := by
  obtain ⟨hbuf, p₁, out, hreads, hlanded⟩ := h
  have hok := attempt_inl hbody
  cases out with
  | some reply =>
      obtain ⟨hcompletes, _⟩ := hlanded
      simp only [RedisReader.getReplyBody, hcompletes.stack] at hok
      cases hok
  | none =>
      obtain ⟨v, hitem, hresult⟩ := Mirrors.processItem hlanded (memory s.1)
      obtain ⟨top, below, hstack, _⟩ := hlanded.stack
      simp only [RedisReader.getReplyBody, hstack, hitem] at hok
      cases hresult with
      | @goes r' p' out hnext hlanded' hbuf' hpos =>
          have hbound := hlanded'.pos
          have hless : r'.unread.length < s.2.unread.length := by
            rw [hbuf'] at hbound
            rw [RedisReader.unread, RedisReader.unread, List.length_drop, List.length_drop, hbuf']
            omega
          cases hok
          exact ⟨⟨hbuf'.trans hbuf, _, _, hreads.trans hnext, hlanded'⟩, hless⟩
      | waits => cases hok
      | fails => cases hok
      | starves => cases hok

theorem getReplyBody_stops {memory : Nat → Bool} {s : Nat × RedisReader}
    {b : Except ReaderFault RedisReader} (h : Under r p s)
    (hbody : attempt (RedisReader.getReplyBody memory) s = .inr b) :
    ∃ r', b = .ok r' ∧ Settles memory r p r' := by
  obtain ⟨hbuf, p₁, out, hreads, hlanded⟩ := h
  cases out with
  | some reply =>
      obtain ⟨hcompletes, rfl⟩ := hlanded
      have hstop : RedisReader.getReplyBody memory s = .ok (.inr s.2) := by
        simp only [RedisReader.getReplyBody, hcompletes.stack]
      rw [attempt_stop hstop] at hbody
      cases hbody
      exact ⟨_, rfl, .completes hreads hcompletes hbuf⟩
  | none =>
      obtain ⟨⟨ok, r'⟩, hitem, hresult⟩ := Mirrors.processItem hlanded (memory s.1)
      obtain ⟨top, below, hstack, _⟩ := hlanded.stack
      have hturn : RedisReader.getReplyBody memory s =
          .ok (if ok then .inl (s.1 + 1, r') else .inr r') := by
        simp only [RedisReader.getReplyBody, hstack, hitem]
        rfl
      cases hresult with
      | goes =>
          rw [attempt_next hturn] at hbody
          cases hbody
      | waits hnext hwait hmirrors hbuf' =>
          rw [attempt_stop hturn] at hbody
          cases hbody
          exact ⟨_, rfl, .waits (hreads.trans hnext) hwait hmirrors (hbuf'.trans hbuf)⟩
      | fails hnext hfail hbroken =>
          rw [attempt_stop hturn] at hbody
          cases hbody
          exact ⟨_, rfl, .fails (hreads.trans hnext) hfail hbroken⟩
      | starves hmemory hbroken =>
          rw [attempt_stop hturn] at hbody
          cases hbody
          exact ⟨_, rfl, .starves _ hmemory hbroken⟩

/-- The loop of `redisReaderGetReply` ends, and with what is computed for it. -/
theorem Ready.ends (h : Ready r p) (memory : Nat → Bool) :
    Loop (attempt (RedisReader.getReplyBody memory)) (0, r.start)
        (runLoop (attempt (RedisReader.getReplyBody memory)) (fun s => .ok s.2)
          (r.buf.length + 1) (0, r.start)) ∧
      Under r p (0, r.start) := by
  have hunder : Under r p (0, r.start) := by
    refine ⟨start_buf r, p, none, ?_, h.start⟩
    show Reads readerTurn p r.unread [] p r.start.unread
    rw [start_unread]
    exact .nil _ _
  have hfuel : (r.start.unread).length < r.buf.length + 1 := by
    rw [start_unread, RedisReader.unread, List.length_drop]
    omega
  have hdecr (s s' : Nat × RedisReader) (hs : Under r p s)
      (hbody : attempt (RedisReader.getReplyBody memory) s = .inl s') :=
    getReplyBody_goes hs hbody
  exact ⟨loop_runLoop_of_invariant (fun s => .ok s.2) (fun s => s.2.unread.length) hdecr hfuel
    hunder, hunder⟩

theorem Ready.loop (h : Ready r p) (memory : Nat → Bool) :
    ∃ r', runLoop (attempt (RedisReader.getReplyBody memory)) (fun s => .ok s.2)
      (r.buf.length + 1) (0, r.start) = .ok r' ∧ Settles memory r p r' := by
  obtain ⟨hloop, hunder⟩ := h.ends memory
  exact hloop.invariant (fun _ _ hs hbody => (getReplyBody_goes hs hbody).1)
    (fun _ _ hs hbody => getReplyBody_stops hs hbody) hunder

theorem discard_unread (hpos : r.pos ≤ r.buf.length) (hsmall : r.buf.length < 2 ^ 31) :
    r.discard.unread = r.unread := by
  unfold RedisReader.discard
  split
  · rw [RedisReader.unread, RedisReader.unread, sdsrange_rest hsmall hpos, List.drop_zero]
  · rfl

theorem discard_same (r : RedisReader) :
    r.discard.err = r.err ∧ r.discard.rstack = r.rstack ∧ r.discard.reply = r.reply := by
  unfold RedisReader.discard
  split
  · exact ⟨rfl, rfl, rfl⟩
  · exact ⟨rfl, rfl, rfl⟩

theorem discard_pos (hpos : r.pos ≤ r.buf.length) : r.discard.pos ≤ r.discard.buf.length := by
  unfold RedisReader.discard
  split
  · exact Nat.zero_le _
  · exact hpos

theorem sdsrange_length (s : List Char) (start stop : Int) :
    (sdsrange s start stop).length ≤ s.length := by
  have hpart (i n : Nat) : ((s.drop i).take n).length ≤ s.length := by
    rw [List.length_take, List.length_drop]
    omega
  unfold sdsrange
  dsimp only
  generalize (if start < 0 then _ else _) = first
  generalize (if stop < 0 then _ else _) = last
  generalize (if toInt32 s.length ≤ last then _ else _) = last'
  split_ifs
  · exact Nat.le_refl _
  · exact Nat.zero_le _
  · exact Nat.zero_le _
  · exact Nat.zero_le _
  · exact hpart _ _

theorem discard_buf (r : RedisReader) : r.discard.buf.length ≤ r.buf.length := by
  unfold RedisReader.discard
  split
  · exact sdsrange_length _ _ _
  · exact Nat.le_refl _

theorem Mirrors.discard (h : Mirrors r p) : Mirrors r.discard p := by
  obtain ⟨herr, hstack, hreply⟩ := discard_same r
  refine ⟨herr.trans h.err, ?_, hreply.trans h.reply, h.depth, h.kind, discard_pos h.pos⟩
  rw [hstack]
  exact h.stack

/-- What a call for a reply gives, and the bytes that are left. -/
inductive Asked (memory : Nat → Bool) (r : RedisReader) (p : Parse) :
    Bool × ReplyNode × RedisReader → Prop where
  | replies {r' : RedisReader} {reply : HiredisReply} {rest : List Char} :
      Reads readerTurn p r.unread [reply] {} rest → Ready r' {} →
      (r.buf.length < 2 ^ 31 → r'.unread = rest) → r'.buf.length ≤ r.buf.length →
      Asked memory r p (true, reply.built, r')
  | waits {r' : RedisReader} {p' : Parse} {rest : List Char} :
      Reads readerTurn p r.unread [] p' rest → readerTurn p' rest = .wait → Ready r' p' →
      (r.buf.length < 2 ^ 31 → r'.unread = rest) → r'.buf.length ≤ r.buf.length →
      Asked memory r p (true, .null, r')
  | fails {r' : RedisReader} {p' : Parse} {rest : List Char} {e : RedisErr × List Char} :
      Reads readerTurn p r.unread [] p' rest → readerTurn p' rest = .fail e → Broken r' e →
      Asked memory r p (false, .null, r')
  | starves {r' : RedisReader} (k : Nat) : memory k = false →
      Broken r' (.oom, "Out of memory".toList) → Asked memory r p (false, .null, r')

theorem getReply_of_loop {memory : Nat → Bool} (herr : r.err = none) (hbuf : r.buf.length ≠ 0)
    (hloop : runLoop (attempt (RedisReader.getReplyBody memory)) (fun s => .ok s.2)
      (r.buf.length + 1) (0, r.start) = .ok r') :
    r.getReply memory =
      if r'.err.isSome then .ok (false, .null, r')
      else if r'.discard.rstack = [] then
        .ok (true, r'.discard.reply, { r'.discard with reply := .null })
      else .ok (true, .null, r'.discard) := by
  rw [RedisReader.getReply, herr, if_neg (by nofun), if_neg hbuf, hloop]
  rfl

theorem Ready.getReply (h : Ready r p) (memory : Nat → Bool) :
    ∃ v, r.getReply memory = .ok v ∧ Asked memory r p v := by
  by_cases hempty : r.buf.length = 0
  · have hunread : r.unread = [] := by
      rw [RedisReader.unread, List.length_eq_zero_iff.mp hempty, List.drop_nil]
    have hwait : readerTurn p r.unread = .wait := by
      rw [hunread]
      exact h.wait
    rw [RedisReader.getReply, h.err, if_neg (by simp), if_pos hempty]
    exact ⟨_, rfl, .waits (.nil _ _) hwait h (fun _ => rfl) (Nat.le_refl _)⟩
  · obtain ⟨r', hloop, hsettles⟩ := h.loop memory
    obtain ⟨herr, hstack, hreply⟩ := discard_same r'
    rw [getReply_of_loop h.err hempty hloop]
    cases hsettles with
    | completes hreads hcompletes hbuf =>
        rw [hcompletes.err, if_neg (by simp), hstack, if_pos hcompletes.stack, hreply,
          hcompletes.reply]
        refine ⟨_, rfl, .replies hreads ?_ ?_ (hbuf ▸ discard_buf r')⟩
        · exact .idle (herr.trans hcompletes.err) (hstack.trans hcompletes.stack) rfl
            (discard_pos hcompletes.pos)
        · intro hsmall
          rw [← hbuf] at hsmall
          exact discard_unread hcompletes.pos hsmall
    | waits hreads hwait hmirrors hbuf =>
        obtain ⟨top, below, htasks, _⟩ := hmirrors.stack
        rw [hmirrors.err, if_neg (by simp), hstack, if_neg (by simp [htasks])]
        refine ⟨_, rfl, .waits hreads hwait ?_ ?_ (hbuf ▸ discard_buf r')⟩
        · exact .busy hmirrors.discard (readerTurn_wait hwait)
        · intro hsmall
          rw [← hbuf] at hsmall
          exact discard_unread hmirrors.pos hsmall
    | fails hreads hfail hbroken =>
        rw [hbroken.err, if_pos Option.isSome_some]
        exact ⟨_, rfl, .fails hreads hfail hbroken⟩
    | starves k hmemory hbroken =>
        rw [hbroken.err, if_pos Option.isSome_some]
        exact ⟨_, rfl, .starves k hmemory hbroken⟩

/-- How `redisReaderFeed` ends. -/
inductive Fed (r : RedisReader) (p : Parse) (chunk : List Char) (m : FeedMemory) :
    Except ReaderFault (Bool × RedisReader) → Prop where
  | takes {r' : RedisReader} : Ready r' p → r'.unread = r.unread ++ chunk →
      r'.buf.length ≤ r.buf.length + chunk.length → Fed r p chunk m (.ok (true, r'))
  | starves {r' : RedisReader} : m.grown = false → Broken r' (.oom, "Out of memory".toList) →
      Fed r p chunk m (.ok (false, r'))
  | refused : r.Replaces m → m.fresh = false → Fed r p chunk m (.error .assertion)

/-- An empty buffer that is given back changes nothing. -/
theorem Ready.renew (h : Ready r p) (m : FeedMemory) :
    r.renew m = .ok r ∨ r.renew m = .error .assertion ∧ r.Replaces m ∧ m.fresh = false := by
  unfold RedisReader.renew
  split_ifs with hlarge hfresh
  · have hbuf : r.buf = [] := List.length_eq_zero_iff.mp hlarge.1
    have hpos := h.pos
    have hzero : r.pos = 0 := by rw [hlarge.1] at hpos; omega
    left
    rw [← hbuf, ← hzero]
  · exact .inr ⟨rfl, hlarge, Bool.not_eq_true _ ▸ hfresh⟩
  · exact .inl rfl

/-- The bytes that are fed are behind those that are unread. -/
theorem Ready.feed (h : Ready r p) (chunk : List Char) (m : FeedMemory) :
    Fed r p chunk m (r.feed chunk m) := by
  have hnone : ¬r.err.isSome = true := by
    rw [h.err]
    nofun
  rw [RedisReader.feed, if_neg hnone]
  by_cases hchunk : chunk = []
  · rw [if_pos hchunk]
    exact .takes h (by rw [hchunk, List.append_nil]) (Nat.le_add_right _ _)
  · rw [if_neg hchunk]
    rcases h.renew m with hrenew | ⟨hrenew, hlarge, hfresh⟩
    · rw [hrenew, ok_do]
      split_ifs with hgrown
      · have hpos := h.pos
        have hroom : r.pos ≤ (r.buf ++ chunk).length := by
          rw [List.length_append]
          omega
        refine .takes ?_ (List.drop_append_of_le_length hpos) List.length_append.le
        cases h with
        | idle herr hstack hreply => exact .idle herr hstack hreply hroom
        | busy hm hwait =>
            exact .busy ⟨hm.err, hm.stack, hm.reply, hm.depth, hm.kind, hroom⟩ hwait
      · exact .starves (Bool.not_eq_true _ ▸ hgrown) ⟨rfl, rfl, rfl⟩
    · rw [hrenew]
      exact .refused hlarge hfresh

/-- A reader with an error takes no bytes and gives no replies. -/
theorem broken_feed (h : r.err.isSome) (chunk : List Char) (m : FeedMemory) :
    r.feed chunk m = .ok (false, r) := by
  rw [RedisReader.feed, if_pos h]

theorem broken_getReply (h : r.err.isSome) (memory : Nat → Bool) :
    r.getReply memory = .ok (false, .null, r) := by
  rw [RedisReader.getReply, if_pos h]

theorem Broken.isSome {e : RedisErr × List Char} (h : Broken r e) : r.err.isSome := by
  rw [h.err]
  rfl

/-! ### Sessions -/

/-- What the owner of a reader calls, with what the memory has for the call. -/
inductive ReaderCall where
  | feed (chunk : List Char) (m : FeedMemory)
  | getReply (memory : Nat → Bool)

/-- The bytes that a call offers to the reader. -/
def ReaderCall.bytes : ReaderCall → List Char
  | .feed chunk _ => chunk
  | .getReply _ => []

/-- A reader with the replies it gave, and whether the last call was one for a
reply that gave none. -/
structure ReaderSession where
  reader : RedisReader := {}
  replies : List ReplyNode := []
  drained : Bool := false

namespace ReaderSession

def after (s : ReaderSession) (r : RedisReader) (given : List ReplyNode) (drained : Bool) :
    ReaderSession where
  reader := r
  replies := s.replies ++ given
  drained := drained

def step (s : ReaderSession) : ReaderCall → Except ReaderFault ReaderSession
  | .feed chunk m => (s.reader.feed chunk m).map fun (_, r) => s.after r [] false
  | .getReply memory =>
      (s.reader.getReply memory).map fun
        | (_, .null, r) => s.after r [] true
        | (_, reply, r) => s.after r [reply] false

/-- The positions of `seekNewline` reach all of the buffer. -/
def Small (s : ReaderSession) : Prop := s.reader.buf.length < 2 ^ 31

variable {s s' : ReaderSession} {stream : List Char} {memory : Nat → Bool} {given : Bool}

theorem step_given {reply : HiredisReply}
    (h : s.reader.getReply memory = .ok (given, reply.built, r)) :
    s.step (.getReply memory) = .ok (s.after r [reply.built] false) := by
  obtain ⟨type, integer, str, element⟩ := reply
  rw [step, h]
  rfl

theorem step_none (h : s.reader.getReply memory = .ok (given, .null, r)) :
    s.step (.getReply memory) = .ok (s.after r [] true) := by
  rw [step, h]
  rfl

/-! ### The reader never fails -/

/-- The reader has stopped with an error, or is between two calls. -/
def Alive (s : ReaderSession) : Prop := s.reader.err.isSome ∨ ∃ p, Ready s.reader p

/-- There is no memory for the buffer that is to replace a large one. -/
def Refused (s : ReaderSession) : ReaderCall → Prop
  | .feed _ m => s.reader.Replaces m ∧ m.fresh = false
  | .getReply _ => False

theorem step_fed {chunk : List Char} {m : FeedMemory} {given : Bool}
    (h : s.reader.feed chunk m = .ok (given, r)) :
    s.step (.feed chunk m) = .ok (s.after r [] false) := by
  rw [step, h]
  rfl

theorem step_alive (h : s.Alive) (call : ReaderCall) :
    Ensures Alive (fun e => e = .assertion ∧ s.Refused call) (s.step call) := by
  cases call with
  | feed chunk m =>
      rcases h with herr | ⟨p, hready⟩
      · rw [step_fed (broken_feed herr chunk m)]
        exact .inl herr
      · have hfed := hready.feed chunk m
        generalize hv : s.reader.feed chunk m = v at hfed
        cases hfed with
        | takes hready' =>
            rw [step_fed hv]
            exact .inr ⟨p, hready'⟩
        | starves _ hbroken =>
            rw [step_fed hv]
            exact .inl hbroken.isSome
        | refused hlarge hfresh =>
            rw [step, hv]
            exact ⟨rfl, hlarge, hfresh⟩
  | getReply memory =>
      rcases h with herr | ⟨p, hready⟩
      · rw [step_none (broken_getReply herr memory)]
        exact .inl herr
      · obtain ⟨v, hv, hasked⟩ := hready.getReply memory
        cases hasked with
        | replies _ hready' =>
            rw [step_given hv]
            exact .inr ⟨_, hready'⟩
        | waits _ _ hready' =>
            rw [step_none hv]
            exact .inr ⟨_, hready'⟩
        | fails _ _ hbroken =>
            rw [step_none hv]
            exact .inl hbroken.isSome
        | starves _ _ hbroken =>
            rw [step_none hv]
            exact .inl hbroken.isSome

theorem alive_start : Alive {} := .inr ⟨{}, .idle rfl rfl rfl (Nat.zero_le _)⟩

/-- Whatever the memory has for its objects, the loop of a call for a reply ends
by itself, without a fault, with what is computed for it. -/
def Returns (s : ReaderSession) : Prop :=
  s.reader.err = none → ∀ memory, ∃ r,
    Loop (attempt (RedisReader.getReplyBody memory)) (0, s.reader.start) (.ok r) ∧
      runLoop (attempt (RedisReader.getReplyBody memory)) (fun s => .ok s.2)
        (s.reader.buf.length + 1) (0, s.reader.start) = .ok r

/-- Where the reader is in the stream. -/
inductive Position (stream : List Char) (s : ReaderSession) (replies : List HiredisReply) :
    Prop where
  | reading {p : Parse} : Ready s.reader p →
      Reads (Parse.turn lineEnd chrtos) {} stream replies p s.reader.unread →
      (s.drained → p.turn lineEnd chrtos s.reader.unread = .wait) → Position stream s replies
  | failed {p : Parse} {rest : List Char} {e : RedisErr × List Char} : Broken s.reader e →
      Reads (Parse.turn lineEnd chrtos) {} stream replies p rest →
      p.turn lineEnd chrtos rest = .fail e → Position stream s replies
  | starved {p : Parse} {rest : List Char} : s.reader.err = some .oom →
      Reads (Parse.turn lineEnd chrtos) {} stream replies p rest → Position stream s replies

/-- The replies given are those the reader brought out of the stream. -/
structure Tracks (stream : List Char) (s : ReaderSession) (replies : List HiredisReply) : Prop where
  given : s.replies = replies.map HiredisReply.built
  position : Position stream s replies

variable {replies : List HiredisReply}

theorem Position.feed {s : ReaderSession} (h : Position stream s replies) {chunk : List Char}
    {m : FeedMemory} {given : Bool} (hfeed : s.reader.feed chunk m = .ok (given, r)) :
    Position (stream ++ chunk) (s.after r [] false) replies := by
  cases h with
  | @reading p hready hreads _ =>
      have hmore := hreads.append Parse.steady chunk
      have hfed := hready.feed chunk m
      rw [hfeed] at hfed
      cases hfed with
      | takes hready' hunread =>
          rw [← hunread] at hmore
          exact .reading hready' hmore nofun
      | starves _ hbroken => exact .starved hbroken.err hmore
  | @failed p rest e hbroken hreads hfail =>
      have hfail' : p.turn lineEnd chrtos (rest ++ chunk) = .fail e :=
        (Parse.turn_append chunk (by rw [hfail]; nofun)).trans hfail
      cases (broken_feed hbroken.isSome chunk m).symm.trans hfeed
      exact .failed hbroken (hreads.append Parse.steady chunk) hfail'
  | starved hoom hreads =>
      cases (broken_feed (by rw [hoom]; rfl) chunk m).symm.trans hfeed
      exact .starved hoom (hreads.append Parse.steady chunk)

theorem unread_length (r : RedisReader) : r.unread.length ≤ r.buf.length := by
  rw [RedisReader.unread, List.length_drop]
  exact Nat.sub_le _ _

theorem Tracks.getReply (h : Tracks stream s replies) (hsmall : s.Small) (memory : Nat → Bool) :
    ∃ s' out, s.step (.getReply memory) = .ok s' ∧ Tracks stream s' (replies ++ out) := by
  have hunread : s.reader.unread.length < 2 ^ 31 := lt_of_le_of_lt (unread_length _) hsmall
  have hnone : s.replies ++ [] = (replies ++ []).map HiredisReply.built := by
    rw [List.append_nil, List.append_nil, h.given]
  cases h.position with
  | @reading p hready hreads _ =>
      obtain ⟨v, hv, hasked⟩ := hready.getReply memory
      cases hasked with
      | @replies r' reply rest hnext hready' hrest =>
          have hall := hreads.trans (reads_lineEnd hnext hunread)
          rw [← hrest hsmall] at hall
          refine ⟨_, [reply], step_given hv, ?_, .reading hready' hall nofun⟩
          rw [after, h.given, List.map_append]
          rfl
      | @waits r' p' rest hnext hwait hready' hrest =>
          have hall := hreads.trans (reads_lineEnd hnext hunread)
          have hshort : rest.length < 2 ^ 31 := lt_of_le_of_lt hnext.suffix.length_le hunread
          rw [readerTurn_eq hshort] at hwait
          rw [← hrest hsmall] at hall hwait
          exact ⟨_, [], step_none hv, hnone, .reading hready' hall (fun _ => hwait)⟩
      | @fails r' p' rest e hnext hfail hbroken =>
          have hall := hreads.trans (reads_lineEnd hnext hunread)
          have hshort : rest.length < 2 ^ 31 := lt_of_le_of_lt hnext.suffix.length_le hunread
          rw [readerTurn_eq hshort] at hfail
          exact ⟨_, [], step_none hv, hnone, .failed hbroken hall hfail⟩
      | starves _ _ hbroken =>
          refine ⟨_, [], step_none hv, hnone, ?_⟩
          rw [List.append_nil]
          exact .starved hbroken.err hreads
  | failed hbroken hreads hfail =>
      refine ⟨_, [], step_none (broken_getReply hbroken.isSome memory), hnone, ?_⟩
      rw [List.append_nil]
      exact .failed hbroken hreads hfail
  | starved hoom hreads =>
      have herr : s.reader.err.isSome := by
        rw [hoom]
        rfl
      refine ⟨_, [], step_none (broken_getReply herr memory), hnone, ?_⟩
      rw [List.append_nil]
      exact .starved hoom hreads

theorem Tracks.step (h : Tracks stream s replies) (hsmall : s.Small)
    {call : ReaderCall} (hstep : s.step call = .ok s') :
    ∃ out, Tracks (stream ++ call.bytes) s' (replies ++ out) := by
  cases call with
  | feed chunk m =>
      obtain ⟨⟨given, r⟩, hfeed, rfl⟩ := map_ok.mp hstep
      refine ⟨[], ?_, ?_⟩
      · show s.replies ++ [] = _
        rw [List.append_nil, List.append_nil, h.given]
      · rw [List.append_nil]
        exact h.position.feed hfeed
  | getReply memory =>
      obtain ⟨s₁, out, hstep', htracks⟩ := h.getReply hsmall memory
      cases hstep.symm.trans hstep'
      refine ⟨out, ?_⟩
      rw [ReaderCall.bytes, List.append_nil]
      exact htracks

/-- All the bytes that were offered. -/
def offered (calls : List ReaderCall) : List Char := calls.flatMap ReaderCall.bytes

theorem Tracks.of_run (h : Tracks stream s replies) {calls : List ReaderCall}
    (hrun : run ReaderSession.step s calls = .ok s')
    (hsmall : Throughout ReaderSession.step Small s calls) :
    ∃ out, Tracks (stream ++ offered calls) s' (replies ++ out) := by
  induction calls generalizing s stream replies with
  | nil =>
      cases hrun
      refine ⟨[], ?_⟩
      rw [offered, List.flatMap_nil, List.append_nil, List.append_nil]
      exact h
  | cons call calls ih =>
      obtain ⟨s₁, hstep, hrest⟩ := run_cons_ok.mp hrun
      obtain ⟨hhere, hlater⟩ := hsmall
      obtain ⟨out, htracks⟩ := h.step hhere hstep
      obtain ⟨later, htracks'⟩ := ih htracks hrest (hlater s₁ hstep)
      refine ⟨out ++ later, ?_⟩
      rw [offered, List.flatMap_cons, ← List.append_assoc, ← List.append_assoc]
      exact htracks'

/-- From the start, the session tracks what was offered. -/
theorem tracks_of_run {calls : List ReaderCall} (hrun : run step {} calls = .ok s)
    (hsmall : Throughout step Small {} calls) : ∃ replies, Tracks (offered calls) s replies := by
  have hstart : Tracks [] {} [] :=
    ⟨rfl, .reading (.idle rfl rfl rfl (Nat.zero_le _)) (.nil _ _) nofun⟩
  exact hstart.of_run hrun hsmall

/-- The buffer holds no more than what was offered. -/
theorem step_buf (h : s.Alive) {call : ReaderCall} (hstep : s.step call = .ok s') :
    s'.Alive ∧ s'.reader.buf.length ≤ s.reader.buf.length + call.bytes.length := by
  refine ⟨(step_alive h call).ok hstep, ?_⟩
  cases call with
  | feed chunk m =>
      obtain ⟨⟨given, r⟩, hfeed, rfl⟩ := map_ok.mp hstep
      rcases h with herr | ⟨p, hready⟩
      · cases (broken_feed herr chunk m).symm.trans hfeed
        exact Nat.le_add_right _ _
      · have hfed := hready.feed chunk m
        rw [hfeed] at hfed
        cases hfed with
        | takes _ _ hbuf => exact hbuf
        | starves _ hbroken =>
            show r.buf.length ≤ _
            rw [hbroken.buf]
            exact Nat.zero_le _
  | getReply memory =>
      rcases h with herr | ⟨p, hready⟩
      · cases hstep.symm.trans (step_none (broken_getReply herr memory))
        exact Nat.le_add_right _ _
      · obtain ⟨v, hv, hasked⟩ := hready.getReply memory
        cases hasked with
        | replies _ _ _ hbuf =>
            cases hstep.symm.trans (step_given hv)
            exact hbuf
        | waits _ _ _ _ hbuf =>
            cases hstep.symm.trans (step_none hv)
            exact hbuf
        | fails _ _ hbroken =>
            cases hstep.symm.trans (step_none hv)
            show List.length _ ≤ _
            rw [after, hbroken.buf]
            exact Nat.zero_le _
        | starves _ _ hbroken =>
            cases hstep.symm.trans (step_none hv)
            show List.length _ ≤ _
            rw [after, hbroken.buf]
            exact Nat.zero_le _

/-- Less than two gigabytes make no buffer that is not small. -/
theorem throughout_small (h : s.Alive) {calls : List ReaderCall}
    (hall : s.reader.buf.length + (offered calls).length < 2 ^ 31) :
    Throughout step Small s calls := by
  induction calls generalizing s with
  | nil => exact lt_of_le_of_lt (Nat.le_add_right _ _) hall
  | cons call calls ih =>
      rw [offered, List.flatMap_cons, List.length_append] at hall
      refine ⟨lt_of_le_of_lt (Nat.le_add_right _ _) hall, fun s₁ hstep => ?_⟩
      obtain ⟨halive, hbuf⟩ := step_buf h hstep
      apply ih halive
      rw [offered]
      omega

/-- Where the reading of a stream ends, when no reply is left and there was
memory. -/
theorem Tracks.ending (h : Tracks stream s replies) (hdrained : s.drained = true)
    (hmemory : s.reader.err ≠ some .oom) :
    ∃ p rest, Reads (Parse.turn lineEnd chrtos) {} stream replies p rest ∧
      ((p.turn lineEnd chrtos rest = .wait ∧ s.reader.err = none) ∨
        ∃ e, p.turn lineEnd chrtos rest = .fail e ∧ Broken s.reader e) := by
  cases h.position with
  | reading hready hreads hwait =>
      exact ⟨_, _, hreads, .inl ⟨hwait hdrained, hready.err⟩⟩
  | failed hbroken hreads hfail => exact ⟨_, _, hreads, .inr ⟨_, hfail, hbroken⟩⟩
  | starved hoom => exact absurd hoom hmemory

theorem stuck_of_ending {p : Parse} {rest : List Char} {r : RedisReader}
    (h : (p.turn lineEnd chrtos rest = .wait ∧ r.err = none) ∨
      ∃ e, p.turn lineEnd chrtos rest = .fail e ∧ Broken r e) :
    Stuck (Parse.turn lineEnd chrtos) p rest := by
  rcases h with ⟨hwait, _⟩ | ⟨e, hfail, _⟩
  · exact .of_wait hwait
  · exact .of_fail hfail

theorem Tracks.accounts (h : Tracks stream s replies) :
    ∃ parts rest, stream = parts.flatten ++ rest ∧
      List.Forall₂ (Denoting maxDepth) parts replies := by
  have haccounts {p : Parse} {rest : List Char}
      (hreads : Reads (Parse.turn lineEnd chrtos) {} stream replies p rest) :
      ∃ parts rest, stream = parts.flatten ++ rest ∧
        List.Forall₂ (Denoting maxDepth) parts replies := by
    obtain ⟨past, hstream, parts, mid, hpast, hparts, _⟩ := Parse.accounts_of_reads hreads
    refine ⟨parts, mid ++ rest, ?_, hparts⟩
    rw [hstream, hpast, List.append_assoc]
  cases h.position with
  | reading _ hreads => exact haccounts hreads
  | failed _ hreads => exact haccounts hreads
  | starved _ hreads => exact haccounts hreads

/-- The replies in front of a stream are the first that a session gives. -/
theorem Tracks.first (h : Tracks stream s replies) (hdrained : s.drained = true)
    (hmemory : s.reader.err ≠ some .oom) {parts : List (List Char)} {items : List HiredisReply}
    {rest : List Char} (hparts : List.Forall₂ (Denoting maxDepth) parts items)
    (hstream : stream = parts.flatten ++ rest) :
    ∃ later, replies = items ++ later ∧ (rest = [] → later = [] ∧ s.reader.err = none) := by
  obtain ⟨p, rest', hreads, hend⟩ := h.ending hdrained hmemory
  rw [hstream] at hreads
  obtain ⟨later, hlater, hreads'⟩ :=
    (reads_replies hparts rest).before hreads (stuck_of_ending hend)
  refine ⟨later, hlater, ?_⟩
  rintro rfl
  have hwait : Parse.turn lineEnd chrtos {} [] = .wait := rfl
  obtain ⟨rfl, rfl, rfl⟩ := hreads'.stuck_nil (.of_wait hwait)
  rcases hend with ⟨_, herr⟩ | ⟨e, hfail, _⟩
  · exact ⟨rfl, herr⟩
  · cases hwait.symm.trans hfail

variable {calls calls' : List ReaderCall}

/-- An array with an integer and a nil, and a status. -/
def pairAndStatus : List HiredisReply :=
  [arrayOf [{ type := .integer, integer := 1 }, { type := .nil }],
    { type := .status, str := ['O', 'K'] }]

/-- Its bytes in four pieces, cut inside a number, a line end and a word. -/
def cutCalls : List ReaderCall :=
  [.feed ['*', '2', '\r', '\n', ':'] {}, .getReply fun _ => true,
    .feed ['1', '\r', '\n', '$', '-'] {}, .getReply fun _ => true,
    .feed ['1', '\r', '\n', '+', 'O'] {}, .getReply fun _ => true,
    .feed ['K', '\r', '\n'] {}, .getReply fun _ => true, .getReply fun _ => true]

/-- Its bytes in one piece. -/
def wholeCalls : List ReaderCall :=
  [.feed (HiredisReply.encodeAll pairAndStatus) {}, .getReply fun _ => true,
    .getReply fun _ => true, .getReply fun _ => true]

def ended (calls : List ReaderCall) : ReaderSession :=
  match run step {} calls with
  | .ok s => s
  | .error _ => {}

theorem cutCalls_small : Throughout step Small {} cutCalls :=
  throughout_small alive_start (by decide +kernel)

/-- The replies given are denoted by the bytes offered, one after the other. When
a call gives none, no reply that is complete is held back. -/
theorem replies_denoted_in_order (hrun : run step {} calls = .ok s)
    (hsmall : Throughout step Small {} calls) :
    ∃ parts items rest, offered calls = parts.flatten ++ rest ∧
      List.Forall₂ (Denoting maxDepth) parts items ∧
      s.replies = items.map HiredisReply.built ∧
      (s.drained = true → s.reader.err ≠ some .oom →
        ∀ part reply tail, Denoting maxDepth part reply → rest ≠ part ++ tail) := by
  obtain ⟨replies, htracks⟩ := tracks_of_run hrun hsmall
  obtain ⟨parts, rest, hstream, hparts⟩ := htracks.accounts
  refine ⟨parts, replies, rest, hstream, hparts, htracks.given, ?_⟩
  rintro hdrained hmemory part reply tail hpart rfl
  have hmore : List.Forall₂ (Denoting maxDepth) (parts ++ [part]) (replies ++ [reply]) :=
    List.rel_append hparts (.cons hpart .nil)
  have hlonger : offered calls = (parts ++ [part]).flatten ++ tail := by
    rw [hstream, List.flatten_append, List.flatten_cons, List.flatten_nil, List.append_nil,
      List.append_assoc]
  obtain ⟨later, hlater, _⟩ := htracks.first hdrained hmemory hmore hlonger
  have hlength := congrArg List.length hlater
  rw [List.length_append, List.length_append, List.length_singleton] at hlength
  omega

theorem replies_denoted_in_order_of_pieces :
    ∃ parts items rest, offered cutCalls = parts.flatten ++ rest ∧
      List.Forall₂ (Denoting maxDepth) parts items ∧
      (ended cutCalls).replies = items.map HiredisReply.built ∧
      ((ended cutCalls).drained = true → (ended cutCalls).reader.err ≠ some .oom →
        ∀ part reply tail, Denoting maxDepth part reply → rest ≠ part ++ tail) :=
  replies_denoted_in_order rfl cutCalls_small

/-- When all that is offered is a sequence of replies, they are given. -/
theorem replies_of_parts (hrun : run step {} calls = .ok s)
    (hsmall : Throughout step Small {} calls) (hdrained : s.drained = true)
    (hmemory : s.reader.err ≠ some .oom) {parts : List (List Char)} {items : List HiredisReply}
    (hparts : List.Forall₂ (Denoting maxDepth) parts items)
    (hoffered : offered calls = parts.flatten) :
    s.replies = items.map HiredisReply.built ∧ s.reader.err = none := by
  obtain ⟨replies, htracks⟩ := tracks_of_run hrun hsmall
  rw [← List.append_nil parts.flatten] at hoffered
  obtain ⟨later, hlater, hnil⟩ := htracks.first hdrained hmemory hparts hoffered
  obtain ⟨rfl, herr⟩ := hnil rfl
  rw [htracks.given, hlater, List.append_nil]
  exact ⟨rfl, herr⟩

/-- The replies a server encodes are the replies that are given, whatever the
pieces their bytes arrive in. -/
theorem encoded_replies_given {items : List HiredisReply}
    (hitems : ∀ item ∈ items, item.Sendable maxDepth)
    (hoffered : offered calls = HiredisReply.encodeAll items)
    (hrun : run step {} calls = .ok s) (hsmall : Throughout step Small {} calls)
    (hdrained : s.drained = true) (hmemory : s.reader.err ≠ some .oom) :
    s.replies = items.map HiredisReply.built ∧ s.reader.err = none := by
  rw [HiredisReply.encodeAll_eq] at hoffered
  exact replies_of_parts hrun hsmall hdrained hmemory (denoting_encodeAll hitems) hoffered

theorem sendable_pairAndStatus : ∀ item ∈ pairAndStatus, item.Sendable maxDepth := by
  intro item hitem
  rcases List.mem_cons.mp hitem with rfl | hitem
  · refine .inr ⟨rfl, by decide +kernel, ?_⟩
    intro item hitem
    rcases List.mem_cons.mp hitem with rfl | hitem
    · exact .inl ⟨rfl, rfl, by decide, by decide⟩
    · rw [List.mem_singleton.mp hitem]
      exact .inl ⟨rfl, rfl, rfl⟩
  · rw [List.mem_singleton.mp hitem]
    exact .inl ⟨rfl, rfl, rfl⟩

theorem encoded_replies_given_in_pieces :
    (ended cutCalls).replies = pairAndStatus.map HiredisReply.built ∧
      (ended cutCalls).reader.err = none :=
  encoded_replies_given sendable_pairAndStatus rfl (rfl : run step {} cutCalls = _) cutCalls_small
    rfl nofun

/-- Two sessions with the same bytes give the same replies and stop with the same
error, whatever the pieces and whenever replies are asked for. -/
theorem replies_independent_of_pieces {s s' : ReaderSession} (hrun : run step {} calls = .ok s)
    (hrun' : run step {} calls' = .ok s') (hsame : offered calls = offered calls')
    (hsmall : Throughout step Small {} calls) (hsmall' : Throughout step Small {} calls')
    (hdrained : s.drained = true) (hdrained' : s'.drained = true)
    (hmemory : s.reader.err ≠ some .oom) (hmemory' : s'.reader.err ≠ some .oom) :
    s.replies = s'.replies ∧ s.reader.err = s'.reader.err ∧
      (s.reader.err.isSome → s.reader.errstr = s'.reader.errstr) := by
  obtain ⟨replies, htracks⟩ := tracks_of_run hrun hsmall
  obtain ⟨replies', htracks'⟩ := tracks_of_run hrun' hsmall'
  obtain ⟨p, rest, hreads, hend⟩ := htracks.ending hdrained hmemory
  obtain ⟨p', rest', hreads', hend'⟩ := htracks'.ending hdrained' hmemory'
  rw [← hsame] at hreads'
  obtain ⟨rfl, rfl, rfl⟩ :=
    hreads.unique (stuck_of_ending hend) hreads' (stuck_of_ending hend')
  refine ⟨htracks.given.trans htracks'.given.symm, ?_⟩
  rcases hend with ⟨hwait, herr⟩ | ⟨e, hfail, hbroken⟩
  · rcases hend' with ⟨_, herr'⟩ | ⟨e', hfail', _⟩
    · rw [herr, herr']
      exact ⟨rfl, nofun⟩
    · cases hwait.symm.trans hfail'
  · rcases hend' with ⟨hwait', _⟩ | ⟨e', hfail', hbroken'⟩
    · cases hfail.symm.trans hwait'
    · cases hfail.symm.trans hfail'
      exact ⟨hbroken.err.trans hbroken'.err.symm,
        fun _ => hbroken.errstr.trans hbroken'.errstr.symm⟩

theorem replies_independent_of_pieces_whole :
    (ended cutCalls).replies = (ended wholeCalls).replies ∧
      (ended cutCalls).reader.err = (ended wholeCalls).reader.err ∧
      ((ended cutCalls).reader.err.isSome →
        (ended cutCalls).reader.errstr = (ended wholeCalls).reader.errstr) := by
  have hsmall : Throughout step Small {} wholeCalls :=
    throughout_small alive_start (by decide +kernel)
  have hrun : run step {} cutCalls = .ok (ended cutCalls) := rfl
  have hrun' : run step {} wholeCalls = .ok (ended wholeCalls) := rfl
  exact replies_independent_of_pieces hrun hrun' rfl cutCalls_small hsmall rfl rfl nofun nofun

end ReaderSession

end CloRedis
