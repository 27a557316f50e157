import CloRedis.Hiredis.Parsing
import CloRedis.Hiredis.Tasks

/-!
One item of the reader is one or two turns of the incremental reader, on the
bytes behind the cursor. This holds for buffers of every length, with
`seekNewline` for the end of a line.
-/

namespace CloRedis

open Library

/-- The turns of the reader. -/
abbrev readerTurn : Parse → List Char → Turn Parse HiredisReply (RedisErr × List Char) :=
  Parse.turn seekNewline chrtos

theorem seekNewlineFrom_bounded {len : Int} {pos n : Nat} {l : List Char}
    (h : seekNewlineFrom len pos l = some n) : pos ≤ n ∧ n + 2 ≤ pos + l.length := by
  induction l generalizing pos with
  | nil => cases h
  | cons c rest ih =>
      unfold seekNewlineFrom at h
      split_ifs at h with hlen hline
      · cases h
        obtain ⟨_, hhead⟩ := hline
        cases rest with
        | nil => cases hhead
        | cons d rest =>
            simp only [List.length_cons]
            omega
      · obtain ⟨hlow, hhigh⟩ := ih h
        rw [List.length_cons]
        omega

theorem seekNewline_bounded : Bounded seekNewline := by
  intro l n h
  have hbound := (seekNewlineFrom_bounded h).2
  omega

theorem readerTurn_progress {p p' : Parse} {l : List Char} {n : Nat} {out : Option HiredisReply}
    (h : readerTurn p l = .take n p' out) : 0 < n ∧ n ≤ l.length :=
  Parse.turn_progress seekNewline_bounded h

/-- Between two items the reader is in the middle of a reply. -/
structure Mirrors (r : RedisReader) (p : Parse) : Prop where
  err : r.err = none
  stack : Stacked r.rstack p
  reply : r.reply = plug p.frames .null
  depth : p.frames.length ≤ maxDepth
  kind : p.kind ≠ some .nil
  pos : r.pos ≤ r.buf.length

/-- The reader has its reply and no tasks. -/
structure Completes (r : RedisReader) (reply : HiredisReply) : Prop where
  err : r.err = none
  stack : r.rstack = []
  reply : r.reply = reply.built
  pos : r.pos ≤ r.buf.length

/-- The reader after a turn that brings a reply out, or none. -/
def Landed (r : RedisReader) (p : Parse) : Option HiredisReply → Prop
  | none => Mirrors r p
  | some reply => Completes r reply ∧ p = {}

variable {r r' : RedisReader} {p p' : Parse} {memory : Bool} {kind : ReplyType}

theorem Mirrors.stack_length (h : Mirrors r p) : r.rstack.length = p.frames.length + 1 := by
  obtain ⟨top, below, hstack, _, _, hbelow⟩ := h.stack
  rw [hstack, List.length_cons, hbelow.length]

/-- The root task is alone on the stack when no array is open. -/
theorem Mirrors.atRoot (h : Mirrors r p) : r.atRoot = decide (p.frames = []) := by
  unfold RedisReader.atRoot
  rw [h.stack_length]
  cases p.frames with
  | nil => rfl
  | cons f fs => simp

theorem deliver_frames_length (frames : List Frame) (reply : HiredisReply) :
    (deliver frames reply).1.length ≤ frames.length := by
  induction frames generalizing reply with
  | nil => exact Nat.le_refl _
  | cons f fs ih =>
      rw [deliver]
      split
      · exact (ih _).trans (Nat.le_succ _)
      · exact Nat.le_refl _

theorem deliver_some {frames : List Frame} {reply t : HiredisReply}
    (h : (deliver frames reply).2 = some t) : (deliver frames reply).1 = [] := by
  induction frames generalizing reply with
  | nil => rfl
  | cons f fs ih =>
      rw [deliver] at h ⊢
      split
      · rename_i hlast
        rw [if_pos hlast] at h
        exact ih h
      · rename_i hmore
        rw [if_neg hmore] at h
        cases h

/-! ### Making objects -/

theorem RedisReader.create_root {top : ReadTask} (h : r.rstack = [top]) (node : ReplyNode) :
    r.create true node = .ok (some ([], r)) := by
  simp only [create, h, if_true]

theorem RedisReader.create_element {top parent : ReadTask} {below : List ReadTask}
    {obj : List Nat} {node reply : ReplyNode} (h : r.rstack = top :: parent :: below)
    (hobj : parent.obj = some obj) (hset : r.reply.setElement obj top.idx node = .ok reply) :
    r.create true node = .ok (some (obj ++ [top.idx.toNat], { r with reply := reply })) := by
  simp only [create, h, hobj, hset, if_true]
  rfl

/-- The object is the root of the reply, or an element of the innermost open
array. -/
theorem Mirrors.create (h : Mirrors r p) (node : ReplyNode) :
    ∃ obj reply, r.create true node = .ok (some (obj, { r with reply := reply })) ∧
      obj = path p.frames ∧
      (RedisReader.setRoot { r with reply := reply } r.atRoot node).reply = plug p.frames node := by
  obtain ⟨top, below, hstack, _, hidx, hbelow⟩ := h.stack
  rw [h.atRoot]
  cases hframes : p.frames with
  | nil =>
      rw [hframes] at hbelow
      cases below with
      | nil => exact ⟨[], r.reply, RedisReader.create_root hstack node, rfl, rfl⟩
      | cons task tasks => exact absurd hbelow id
  | cons f fs =>
      rw [hframes] at hidx hbelow
      cases below with
      | nil => exact absurd hbelow id
      | cons task tasks =>
          obtain ⟨_, _, hobj, _, _, _⟩ := hbelow
          have hset : r.reply.setElement (path fs) top.idx node = .ok (plug (f :: fs) node) := by
            rw [h.reply, hframes, hidx]
            exact setElement_hole f fs node
          refine ⟨path fs ++ [top.idx.toNat], plug (f :: fs) node,
            RedisReader.create_element hstack hobj hset, ?_, rfl⟩
          rw [hidx, path, place, Int.toNat_natCast]

/-- An object that is complete: the next task begins, or there is a reply. -/
theorem Mirrors.finish (h : Mirrors r p) (reply : HiredisReply) :
    ∃ r', r.finish reply.built (r.create true reply.built) = .ok (true, r') ∧
      r'.buf = r.buf ∧ r'.pos = r.pos ∧
      Landed r' ⟨(deliver p.frames reply).1, none⟩ (deliver p.frames reply).2 := by
  obtain ⟨obj, root, hcreate, _, hroot⟩ := h.create reply.built
  obtain ⟨top, below, hstack, _, hidx, hbelow⟩ := h.stack
  obtain ⟨rstack, hmove, hcomplete, hnext⟩ :=
    moveToNextTask_deliver reply hidx hbelow
  obtain ⟨hbuilt, hplugged⟩ := plug_deliver reply hbelow
  have hset : RedisReader.setRoot { r with reply := root } r.atRoot reply.built =
      { r with reply := plug p.frames reply.built } := by
    rw [← hroot, RedisReader.setRoot]
    split <;> rfl
  refine ⟨{ r with reply := plug p.frames reply.built, rstack := rstack }, ?_, rfl, rfl, ?_⟩
  · rw [hcreate, RedisReader.finish]
    show (do
      let r' ← (RedisReader.setRoot { r with reply := root } r.atRoot reply.built).next
      Except.ok (true, r')) = _
    rw [hset, RedisReader.next, hstack, hmove]
    rfl
  · cases hout : (deliver p.frames reply).2 with
    | none =>
        exact ⟨h.err, hnext hout, hplugged hout,
          (deliver_frames_length p.frames reply).trans h.depth, nofun, h.pos⟩
    | some t =>
        have hframes := deliver_some hout
        refine ⟨⟨h.err, hcomplete t hout, hbuilt t hout, h.pos⟩, ?_⟩
        rw [hframes]

/-! ### One turn -/

/-- What the reader does where the incremental reader has a turn. -/
def Performs (r : RedisReader) (memory : Bool) (result : Except ReaderFault (Bool × RedisReader)) :
    Turn Parse HiredisReply (RedisErr × List Char) → Prop
  | .wait => result = .ok (false, r)
  | .fail e => result = .ok (false, r.setError e.1 e.2)
  | .take n p out =>
      if memory then
        ∃ r', result = .ok (true, r') ∧ r'.buf = r.buf ∧ r'.pos = r.pos + n ∧ Landed r' p out
      else result = .ok (false, r.setErrorOOM)

theorem Mirrors.moved (h : Mirrors r p) {used : Nat} (hused : used ≤ r.unread.length) :
    Mirrors { r with pos := r.pos + used } p := by
  refine ⟨h.err, h.stack, h.reply, h.depth, h.kind, ?_⟩
  have hpos := h.pos
  rw [RedisReader.unread, List.length_drop] at hused
  show r.pos + used ≤ r.buf.length
  omega

theorem Mirrors.performs_leaf (h : Mirrors r p) {used : Nat} (hused : used ≤ r.unread.length)
    (memory : Bool) (reply : HiredisReply) :
    Performs r memory
      (RedisReader.finish { r with pos := r.pos + used } reply.built
        (RedisReader.create { r with pos := r.pos + used } memory reply.built))
      (.take used ⟨(deliver p.frames reply).1, none⟩ (deliver p.frames reply).2) := by
  cases memory with
  | false => rfl
  | true =>
      obtain ⟨r', hfinish, hbuf, hpos, hlanded⟩ := (h.moved hused).finish reply
      exact ⟨r', hfinish, hbuf, hpos, hlanded⟩

theorem readerTurn_some (hkind : p.kind = some kind) (l : List Char) :
    readerTurn p l =
      match scan seekNewline kind p.frames.length l with
      | .more => .wait
      | .bad e text => .fail (e, text.toList)
      | .leaf used reply => .take used ⟨(deliver p.frames reply).1, none⟩ (deliver p.frames reply).2
      | .array used elements => .take used ⟨⟨elements, []⟩ :: p.frames, none⟩ none := by
  obtain ⟨frames, _⟩ := p
  cases hkind
  cases hscan : scan seekNewline kind frames.length l <;> simp only [readerTurn, Parse.turn, hscan]

theorem Mirrors.processLineItem (h : Mirrors r p) (hkind : p.kind = some kind)
    (htype : kind = .error ∨ kind = .status ∨ kind = .integer) (memory : Bool) :
    Performs r memory (r.processLineItem memory kind) (readerTurn p r.unread) := by
  have hscan : scan seekNewline kind p.frames.length r.unread =
      scanLine seekNewline kind r.unread := by
    rcases htype with rfl | rfl | rfl <;> rfl
  rw [readerTurn_some hkind, hscan, scanLine, RedisReader.processLineItem, RedisReader.readLine]
  cases hn : seekNewline r.unread with
  | none => rfl
  | some n =>
      have hused := seekNewline_bounded _ _ hn
      dsimp only
      by_cases hint : kind = .integer
      · rw [if_pos hint, if_pos hint]
        cases hv : string2ll (r.unread.take n) with
        | none => rfl
        | some v => exact h.performs_leaf hused memory { type := .integer, integer := v }
      · rw [if_neg hint, if_neg hint, RedisReader.createStringObject, if_pos]
        · exact h.performs_leaf hused memory { type := kind, str := r.unread.take n }
        · rcases htype with h | h | h
          · exact .inl h
          · exact .inr (.inl h)
          · exact absurd h hint

theorem Mirrors.processBulkItem (h : Mirrors r p) (hkind : p.kind = some .string)
    (memory : Bool) : Performs r memory (r.processBulkItem memory) (readerTurn p r.unread) := by
  rw [readerTurn_some hkind, scan, scanBulk, RedisReader.processBulkItem]
  cases hn : seekNewline r.unread with
  | none => rfl
  | some n =>
      have hline := seekNewline_bounded _ _ hn
      dsimp only
      cases hv : string2ll (r.unread.take n) with
      | none => rfl
      | some len =>
          have hunread : r.unread.length = r.buf.length - r.pos := List.length_drop
          have hpos := h.pos
          dsimp only
          split_ifs with hrange hnil hfits hfits' hfits'
          · rfl
          · exact h.performs_leaf hline memory { type := .nil }
          · rw [RedisReader.createStringObject, if_pos (.inr (.inr rfl))]
            exact h.performs_leaf hfits' memory
              { type := .string, str := (r.unread.drop (n + 2)).take len.toNat }
          · omega
          · omega
          · rfl

theorem RedisReader.push_eq {top : ReadTask} {below : List ReadTask}
    (hstack : r.rstack = top :: below) (hroom : r.rstack.length < 9) (elements : Int)
    (obj : List Nat) :
    r.push elements obj = .ok { r with
      rstack := { idx := 0 } :: { top with elements := elements, obj := some obj } :: below } := by
  rw [hstack] at hroom
  simp only [push, hstack, if_pos hroom]

theorem RedisReader.setRoot_stack (r : RedisReader) (rstack : List ReadTask) (root : Bool)
    (node : ReplyNode) :
    RedisReader.setRoot { r with rstack := rstack } root node =
      { r with rstack := rstack, reply := (r.setRoot root node).reply } := by
  unfold setRoot
  split <;> rfl

/-- An array with elements is one more open array. -/
theorem Mirrors.performs_array (h : Mirrors r p) (hkind : p.kind = some .array)
    (hdepth : p.frames.length ≠ maxDepth) {used n : Nat} (hused : used ≤ r.unread.length)
    (hn : 0 < n) (memory : Bool) :
    Performs r memory
      (do
        match ← RedisReader.createArrayObject { r with pos := r.pos + used } memory n with
        | none => .ok (false, RedisReader.setErrorOOM { r with pos := r.pos + used })
        | some (obj, r) =>
            let root := r.atRoot
            let r ← r.push n obj
            .ok (true, r.setRoot root (.reply .array 0 [] (List.replicate n .null))))
      (.take used ⟨⟨n, []⟩ :: p.frames, none⟩ none) := by
  cases memory with
  | false => rfl
  | true =>
      have hmoved := h.moved hused
      obtain ⟨obj, root, hcreate, rfl, hroot⟩ :=
        hmoved.create (.reply .array 0 [] (List.replicate n .null))
      obtain ⟨top, below, hstack, htype, hidx, hbelow⟩ := h.stack
      have hroom : r.rstack.length < 9 := by
        have hlen := h.stack_length
        have hmax := h.depth
        rw [maxDepth] at hdepth hmax
        omega
      have hhole : Frame.node ⟨n, []⟩ .null = .reply .array 0 [] (List.replicate n .null) := by
        obtain ⟨m, rfl⟩ := Nat.exists_eq_succ_of_ne_zero hn.ne'
        rfl
      have hpush := RedisReader.push_eq (r := { r with pos := r.pos + used, reply := root })
        hstack hroom n (path p.frames)
      refine ⟨{ r with
        pos := r.pos + used, reply := plug p.frames (Frame.node ⟨n, []⟩ .null),
        rstack := { idx := 0 } ::
          { top with elements := n, obj := some (path p.frames) } :: below }, ?_, rfl, rfl, ?_⟩
      · rw [RedisReader.createArrayObject, hcreate, hhole, ← hroot]
        show (do
          let r' ← RedisReader.push { r with pos := r.pos + used, reply := root } n (path p.frames)
          Except.ok (true, r'.setRoot r.atRoot (.reply .array 0 [] (List.replicate n .null)))) = _
        rw [hpush]
        exact congrArg (fun r' => Except.ok (true, r')) (RedisReader.setRoot_stack _ _ _ _)
      · refine ⟨h.err, ⟨_, _, rfl, rfl, rfl, ?_⟩, rfl, ?_, nofun, hmoved.pos⟩
        · exact ⟨htype.trans hkind, rfl, rfl, hidx, hn, hbelow⟩
        · exact lt_of_le_of_ne h.depth hdepth

theorem Mirrors.processMultiBulkItem (h : Mirrors r p) (hkind : p.kind = some .array)
    (memory : Bool) :
    Performs r memory (r.processMultiBulkItem memory) (readerTurn p r.unread) := by
  have hlen := h.stack_length
  rw [readerTurn_some hkind, scan, scanMultiBulk, RedisReader.processMultiBulkItem,
    RedisReader.readLine]
  by_cases hdepth : p.frames.length = maxDepth
  · rw [if_pos hdepth, if_pos (by rw [hlen, hdepth]; rfl)]
    rfl
  · have hne : r.rstack.length ≠ 9 := by
      rw [maxDepth] at hdepth
      omega
    rw [if_neg hdepth, if_neg hne]
    cases hn : seekNewline r.unread with
    | none => rfl
    | some n =>
        have hused := seekNewline_bounded _ _ hn
        dsimp only
        cases hv : string2ll (r.unread.take n) with
        | none => rfl
        | some elements =>
            dsimp only
            split_ifs with hrange hnil hsome
            · rfl
            · exact h.performs_leaf hused memory { type := .nil }
            · obtain ⟨m, rfl⟩ := Int.eq_ofNat_of_zero_le hsome.le
              exact h.performs_array hkind hdepth hused (Int.natCast_pos.mp hsome) memory
            · exact h.performs_leaf hused memory (arrayOf [])

theorem Mirrors.processTyped (h : Mirrors r p) (hkind : p.kind = some kind) (memory : Bool) :
    Performs r memory (r.processTyped memory kind) (readerTurn p r.unread) := by
  cases kind with
  | error => exact h.processLineItem hkind (.inl rfl) memory
  | status => exact h.processLineItem hkind (.inr (.inl rfl)) memory
  | integer => exact h.processLineItem hkind (.inr (.inr rfl)) memory
  | string => exact h.processBulkItem hkind memory
  | array => exact h.processMultiBulkItem hkind memory
  | nil => exact absurd hkind h.kind

/-! ### One item -/

/-- The reader has stopped with an error. -/
structure Broken (r : RedisReader) (e : RedisErr × List Char) : Prop where
  err : r.err = some e.1
  errstr : r.errstr = e.2.take 127
  buf : r.buf = []

/-- How the reader leaves an item. -/
inductive Item (memory : Bool) (r : RedisReader) (p : Parse) : Bool × RedisReader → Prop where
  | goes {r' : RedisReader} {p' : Parse} {out : Option HiredisReply} :
      Reads readerTurn p r.unread out.toList p' r'.unread → Landed r' p' out → r'.buf = r.buf →
      r.pos < r'.pos → Item memory r p (true, r')
  | waits {r' : RedisReader} {p' : Parse} :
      Reads readerTurn p r.unread [] p' r'.unread → readerTurn p' r'.unread = .wait →
      Mirrors r' p' → r'.buf = r.buf → Item memory r p (false, r')
  | fails {r' : RedisReader} {p' : Parse} {rest : List Char} {e : RedisErr × List Char} :
      Reads readerTurn p r.unread [] p' rest → readerTurn p' rest = .fail e → Broken r' e →
      Item memory r p (false, r')
  | starves {r' : RedisReader} : memory = false → Broken r' (.oom, "Out of memory".toList) →
      Item memory r p (false, r')

theorem unread_of_pos (hbuf : r'.buf = r.buf) {n : Nat} (hpos : r'.pos = r.pos + n) :
    r'.unread = r.unread.drop n := by
  rw [RedisReader.unread, RedisReader.unread, hbuf, hpos, List.drop_drop]

/-- A turn of the incremental reader is an item. -/
theorem Performs.item {result : Except ReaderFault (Bool × RedisReader)} (hmirrors : Mirrors r p)
    (h : Performs r memory result (readerTurn p r.unread)) :
    ∃ v, result = .ok v ∧ Item memory r p v := by
  cases hturn : readerTurn p r.unread with
  | wait =>
      rw [hturn] at h
      exact ⟨_, h, .waits (.nil _ _) hturn hmirrors rfl⟩
  | fail e =>
      rw [hturn] at h
      exact ⟨_, h, .fails (.nil _ _) hturn ⟨rfl, rfl, rfl⟩⟩
  | take n p' out =>
      rw [hturn] at h
      cases memory with
      | false => exact ⟨_, h, .starves rfl ⟨rfl, rfl, rfl⟩⟩
      | true =>
          obtain ⟨r', hresult, hbuf, hpos, hlanded⟩ := h
          have hreads := Reads.single hturn
          rw [← unread_of_pos hbuf hpos] at hreads
          have hprogress := (readerTurn_progress hturn).1
          exact ⟨_, hresult, .goes hreads hlanded hbuf (by omega)⟩

/-- One turn in front of an item. -/
theorem Item.after {mid : RedisReader} {p₁ : Parse} {v : Bool × RedisReader}
    (hreads : Reads readerTurn p r.unread [] p₁ mid.unread) (hbuf : mid.buf = r.buf)
    (hpos : r.pos ≤ mid.pos) (h : Item memory mid p₁ v) : Item memory r p v := by
  cases h with
  | goes hrest hlanded hbuf' hpos' =>
      exact .goes (hreads.trans hrest) hlanded (hbuf'.trans hbuf) (by omega)
  | waits hrest hwait hmirrors hbuf' =>
      exact .waits (hreads.trans hrest) hwait hmirrors (hbuf'.trans hbuf)
  | fails hrest hfail hbroken => exact .fails (hreads.trans hrest) hfail hbroken
  | starves hmemory hbroken => exact .starves hmemory hbroken

/-- The type byte is read, and then the item. -/
theorem Mirrors.processAfterType (h : Mirrors r p) {top : ReadTask} {below : List ReadTask}
    (hstack : r.rstack = top :: below) (hkind : kind ≠ .nil)
    (hturn : readerTurn p r.unread = .take 1 ⟨p.frames, some kind⟩ none) (memory : Bool) :
    ∃ v, RedisReader.processTyped { r with
        pos := r.pos + 1, rstack := { top with type := some kind } :: below } memory kind = .ok v ∧
      Item memory r p v := by
  obtain ⟨top', below', hstack', _, hidx, hbelow⟩ := h.stack
  cases hstack.symm.trans hstack'
  have hused : 1 ≤ r.unread.length := (readerTurn_progress hturn).2
  have hmid : Mirrors { r with
      pos := r.pos + 1, rstack := { top with type := some kind } :: below }
      ⟨p.frames, some kind⟩ := by
    refine ⟨h.err, ⟨_, _, rfl, rfl, hidx, hbelow⟩, h.reply, h.depth, ?_, (h.moved hused).pos⟩
    intro hnil
    exact hkind (Option.some.inj hnil)
  have hunread : RedisReader.unread { r with
      pos := r.pos + 1, rstack := { top with type := some kind } :: below } = r.unread.drop 1 := by
    rw [RedisReader.unread, RedisReader.unread, List.drop_drop]
  have hreads := Reads.single hturn
  rw [← hunread] at hreads
  obtain ⟨v, hv, hitem⟩ := (hmid.processTyped rfl memory).item hmid
  exact ⟨v, hv, hitem.after hreads rfl (Nat.le_succ _)⟩

theorem Mirrors.processItem (h : Mirrors r p) (memory : Bool) :
    ∃ v, r.processItem memory = .ok v ∧ Item memory r p v := by
  obtain ⟨top, below, hstack, htype, hidx, hbelow⟩ := h.stack
  cases hkind : p.kind with
  | some kind =>
      have htyped : r.processItem memory = r.processTyped memory kind := by
        simp only [RedisReader.processItem, hstack, htype, hkind]
      rw [htyped]
      exact (h.processTyped hkind memory).item h
  | none =>
      have hunread : r.unread.length = r.buf.length - r.pos := List.length_drop
      cases hbytes : r.unread with
      | nil =>
          have hwait : readerTurn p r.unread = .wait := by
            simp only [Parse.turn, hkind, hbytes]
          have hnone : r.processItem memory = .ok (false, r) := by
            rw [hbytes, List.length_nil] at hunread
            simp only [RedisReader.processItem, hstack, htype, hkind, RedisReader.readBytes]
            rw [if_neg (by omega)]
          exact ⟨_, hnone, .waits (.nil _ _) hwait h rfl⟩
      | cons c rest =>
          have hone : r.readBytes 1 = some ([c], { r with pos := r.pos + 1 }) := by
            rw [hbytes, List.length_cons] at hunread
            rw [RedisReader.readBytes, if_pos (by omega), hbytes]
            rfl
          cases hc : replyType c with
          | none =>
              have hfail : readerTurn p r.unread =
                  .fail (.protocol, protocolByteText (chrtos c)) := by
                simp only [Parse.turn, hkind, hbytes, hc]
              have hresult : r.processItem memory = .ok (false, r.setErrorProtocolByte c) := by
                simp only [RedisReader.processItem, hstack, htype, hkind, hone, List.head?_cons, hc]
                rfl
              exact ⟨_, hresult, .fails (.nil _ _) hfail ⟨rfl, rfl, rfl⟩⟩
          | some kind =>
              have hturn : readerTurn p r.unread = .take 1 ⟨p.frames, some kind⟩ none := by
                simp only [Parse.turn, hkind, hbytes, hc]
              have hsent : kind ≠ .nil := by
                rintro rfl
                rcases replyType_eq hc with ⟨_, h⟩ | ⟨_, h⟩ | ⟨_, h⟩ | ⟨_, h⟩ | ⟨_, h⟩ <;> cases h
              have hresult : r.processItem memory = RedisReader.processTyped { r with
                  pos := r.pos + 1, rstack := { top with type := some kind } :: below }
                  memory kind := by
                simp only [RedisReader.processItem, hstack, htype, hkind, hone, List.head?_cons, hc]
              rw [hresult]
              exact h.processAfterType hstack hsent hturn memory

end CloRedis
