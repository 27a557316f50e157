import CloRedis.Hiredis.Parser

/-!
The replies that are brought out are those the bytes denote: every denotation
is read, whatever follows it, and what is read is a sequence of denotations in
front of a reply that is still open.
-/

namespace CloRedis

open Library

variable {chrtos : Char → List Char} {frames : List Frame} {bytes body rest : List Char}
  {reply : HiredisReply}

/-! ### Every denotation is read -/

theorem scan_text {kind : ReplyType} (hkind : kind = .status ∨ kind = .error) {text : List Char}
    (htext : lineEnd text = none) (depth : Nat) (rest : List Char) :
    scan lineEnd kind depth (text ++ crlf ++ rest) =
      .leaf (text ++ crlf).length { type := kind, str := text } := by
  have hline := lineEnd_line htext rest
  have htake : (text ++ crlf ++ rest).take text.length = text := by
    rw [List.append_assoc, List.take_left]
  have hscan : scanLine lineEnd kind (text ++ crlf ++ rest) =
      .leaf (text ++ crlf).length { type := kind, str := text } := by
    unfold scanLine
    rw [hline, length_append_crlf]
    dsimp only
    rw [htake]
    apply if_neg
    rcases hkind with rfl | rfl <;> decide
  rcases hkind with rfl | rfl
  · exact hscan
  · exact hscan

theorem take_decimal (n : Int) (rest : List Char) :
    (decimal n ++ crlf ++ rest).take (decimal n).length = decimal n := by
  rw [List.append_assoc, List.take_left]

theorem scan_integer {n : Int} (hlow : -2 ^ 63 ≤ n) (hhigh : n < 2 ^ 63) (depth : Nat)
    (rest : List Char) :
    scan lineEnd .integer depth (decimal n ++ crlf ++ rest) =
      .leaf (decimal n ++ crlf).length { type := .integer, integer := n } := by
  rw [length_append_crlf]
  simp only [scan, scanLine, lineEnd_decimal, take_decimal, string2ll_decimal hlow hhigh, if_true]

theorem scan_nil (depth : Nat) (rest : List Char) :
    scan lineEnd .string depth (decimal (-1) ++ crlf ++ rest) =
      .leaf (decimal (-1) ++ crlf).length { type := .nil } := by
  rw [length_append_crlf]
  simp only [scan, scanBulk, lineEnd_decimal, take_decimal,
    string2ll_decimal (n := -1) (by decide) (by decide)]
  rfl

theorem scan_string {text tail : List Char} (hlen : text.length < 2 ^ 63) (htail : tail.length = 2)
    (depth : Nat) (rest : List Char) :
    scan lineEnd .string depth (decimal text.length ++ crlf ++ (text ++ tail) ++ rest) =
      .leaf (decimal text.length ++ crlf ++ (text ++ tail)).length
        { type := .string, str := text } := by
  have hnumber : string2ll (decimal text.length) = some (text.length : Int) :=
    string2ll_decimal (by omega) (by omega)
  have hall : (decimal text.length ++ crlf ++ (text ++ tail)).length =
      (decimal text.length).length + 2 + (text.length + 2) := by
    rw [List.length_append, length_append_crlf, List.length_append, htail]
  have hbody : ((decimal text.length ++ crlf ++ (text ++ tail) ++ rest).drop
      ((decimal text.length).length + 2)).take text.length = text := by
    rw [← length_append_crlf, List.append_assoc _ _ rest, List.drop_left, List.append_assoc,
      List.take_left]
  have hfits : (decimal text.length).length + 2 + (text.length + 2) ≤
      (decimal text.length ++ crlf ++ (text ++ tail) ++ rest).length := by
    rw [← hall]
    exact (List.prefix_append _ rest).length_le
  have hline : lineEnd (decimal text.length ++ crlf ++ (text ++ tail) ++ rest) =
      some (decimal text.length).length := by
    rw [List.append_assoc _ _ rest]
    exact lineEnd_decimal _ _
  have htake : (decimal text.length ++ crlf ++ (text ++ tail) ++ rest).take
      (decimal text.length).length = decimal text.length := by
    rw [List.append_assoc _ _ rest]
    exact take_decimal _ _
  rw [hall]
  simp only [scan, scanBulk, hline, htake, hnumber, Int.toNat_natCast, hbody]
  rw [if_neg (by omega), if_neg (by omega), if_pos hfits]

/-- A reply that is not an array is one type byte and one scan. -/
theorem Leaf.scan (h : Leaf bytes reply) :
    ∃ c kind body, bytes = c :: body ∧ replyType c = some kind ∧
      ∀ depth rest, scan lineEnd kind depth (body ++ rest) = .leaf body.length reply := by
  cases h with
  | status htext => exact ⟨_, _, _, rfl, rfl, scan_text (.inl rfl) htext⟩
  | error htext => exact ⟨_, _, _, rfl, rfl, scan_text (.inr rfl) htext⟩
  | integer hlow hhigh => exact ⟨_, _, _, rfl, rfl, scan_integer hlow hhigh⟩
  | nil => exact ⟨_, _, _, rfl, rfl, scan_nil⟩
  | string hlen htail => exact ⟨_, _, _, rfl, rfl, scan_string hlen htail⟩

theorem scan_arrayHead {n : Int} (hlow : -1 ≤ n) (hn : n ≤ intMax) {depth : Nat}
    (hdepth : depth ≠ maxDepth) (rest : List Char) :
    scan lineEnd .array depth (decimal n ++ crlf ++ rest) =
      if n = -1 then .leaf (decimal n ++ crlf).length { type := .nil }
      else if 0 < n then .array (decimal n ++ crlf).length n.toNat
      else .leaf (decimal n ++ crlf).length (arrayOf []) := by
  have hmax : (intMax : Int) < 2 ^ 63 := by decide
  have hnumber : string2ll (decimal n) = some n := string2ll_decimal (by omega) (by omega)
  have hrange : ¬(n < -1 ∨ (intMax : Int) < n) := by omega
  rw [length_append_crlf]
  simp only [scan, scanMultiBulk, lineEnd_decimal, take_decimal, hnumber, if_neg hrange,
    if_neg hdepth]

/-- The turns that read a reply that is not announced. -/
theorem reads_item {c : Char} {kind : ReplyType} (hc : replyType c = some kind)
    (hscan : scan lineEnd kind frames.length (body ++ rest) = .leaf body.length reply) :
    Reads (Parse.turn lineEnd chrtos) ⟨frames, none⟩ (c :: (body ++ rest))
      (deliver frames reply).2.toList ⟨(deliver frames reply).1, none⟩ rest := by
  have htype : Parse.turn lineEnd chrtos ⟨frames, none⟩ (c :: (body ++ rest)) =
      .take 1 ⟨frames, some kind⟩ none := by
    simp only [Parse.turn, hc]
  have hitem : Parse.turn lineEnd chrtos ⟨frames, some kind⟩ (body ++ rest) =
      .take body.length ⟨(deliver frames reply).1, none⟩ (deliver frames reply).2 := by
    simp only [Parse.turn, hscan]
  have hreads := Reads.single hitem
  rw [List.drop_left] at hreads
  exact .cons htype hreads

theorem reads_arrayHead {n : Nat} (hpos : 0 < n) (hn : n ≤ intMax)
    (hdepth : frames.length ≠ maxDepth) (rest : List Char) :
    Reads (Parse.turn lineEnd chrtos) ⟨frames, none⟩ (arrayHead n ++ rest) []
      ⟨⟨n, []⟩ :: frames, none⟩ rest := by
  have htype : Parse.turn lineEnd chrtos ⟨frames, none⟩ (arrayHead n ++ rest) =
      .take 1 ⟨frames, some .array⟩ none := by
    simp only [Parse.turn, arrayHead, List.cons_append, replyType]
  have hscan := scan_arrayHead (n := n) (by omega) (by omega) hdepth rest
  rw [if_neg (by omega), if_pos (by omega), Int.toNat_natCast] at hscan
  have hhead : Parse.turn lineEnd chrtos ⟨frames, some .array⟩ (decimal n ++ crlf ++ rest) =
      .take (decimal n ++ crlf).length ⟨⟨n, []⟩ :: frames, none⟩ none := by
    simp only [Parse.turn, hscan]
  have hreads := Reads.single hhead
  rw [List.drop_left] at hreads
  exact .cons htype hreads

/-- The elements that are left of an open array. -/
theorem reads_elements {depth : Nat} {parts : List (List Char)} {items : List HiredisReply}
    (hitem : ∀ frames' : List Frame, frames'.length + depth = maxDepth →
      ∀ bytes reply, Denoting depth bytes reply → ∀ rest,
        Reads (Parse.turn lineEnd chrtos) ⟨frames', none⟩ (bytes ++ rest)
          (deliver frames' reply).2.toList ⟨(deliver frames' reply).1, none⟩ rest)
    (hdepth : frames.length + 1 + depth = maxDepth)
    (h : List.Forall₂ (Denoting depth) parts items) (hne : items ≠ []) (done : List HiredisReply)
    (rest : List Char) :
    Reads (Parse.turn lineEnd chrtos) ⟨⟨done.length + items.length, done⟩ :: frames, none⟩
      (parts.flatten ++ rest) (deliver frames (arrayOf (done ++ items))).2.toList
      ⟨(deliver frames (arrayOf (done ++ items))).1, none⟩ rest := by
  induction h generalizing done with
  | nil => exact absurd rfl hne
  | @cons part item parts items hpart hparts ih =>
      have hfirst := hitem (⟨done.length + (item :: items).length, done⟩ :: frames)
        (by rw [List.length_cons]; exact hdepth) part item hpart (parts.flatten ++ rest)
      rw [List.flatten_cons, List.append_assoc]
      cases items with
      | nil =>
          -- the last element closes the array
          have hlast : deliver (⟨done.length + [item].length, done⟩ :: frames) item =
              deliver frames (arrayOf (done ++ [item])) := by
            rw [deliver]
            exact if_pos rfl
          cases hparts
          rw [hlast] at hfirst
          exact hfirst
      | cons next items =>
          have hopen : deliver (⟨done.length + (item :: next :: items).length, done⟩ :: frames)
              item = (⟨done.length + (item :: next :: items).length, done ++ [item]⟩ :: frames,
                none) := by
            rw [deliver]
            apply if_neg
            simp only [List.length_cons]
            omega
          rw [hopen] at hfirst
          have hlater := ih (by simp) (done ++ [item])
          rw [List.append_assoc, List.length_append, List.length_singleton, Nat.add_assoc,
            Nat.add_comm 1] at hlater
          exact hfirst.trans hlater

/-- Whatever follows it, a denotation is read. -/
theorem reads_denoting (depth : Nat) : ∀ frames : List Frame, frames.length + depth = maxDepth →
    ∀ bytes reply, Denoting depth bytes reply → ∀ rest,
      Reads (Parse.turn lineEnd chrtos) ⟨frames, none⟩ (bytes ++ rest)
        (deliver frames reply).2.toList ⟨(deliver frames reply).1, none⟩ rest := by
  have hleaf (frames : List Frame) (bytes : List Char) (reply : HiredisReply)
      (h : Leaf bytes reply) (rest : List Char) :
      Reads (Parse.turn lineEnd chrtos) ⟨frames, none⟩ (bytes ++ rest)
        (deliver frames reply).2.toList ⟨(deliver frames reply).1, none⟩ rest := by
    obtain ⟨c, kind, body, rfl, hc, hscan⟩ := h.scan
    exact reads_item hc (hscan _ _)
  induction depth with
  | zero => exact fun frames _ bytes reply h rest => hleaf frames bytes reply h rest
  | succ depth ih =>
      intro frames hdepth bytes reply h rest
      have hopen : frames.length ≠ maxDepth := by omega
      rcases h with h | ⟨rfl, rfl⟩ | ⟨parts, items, rfl, rfl, hmax, hitems⟩
      · exact hleaf frames bytes reply h rest
      · apply reads_item (rfl : replyType '*' = some .array)
        have hscan := scan_arrayHead (n := -1) (by decide) (by decide) hopen rest
        rwa [if_pos rfl] at hscan
      · cases items with
        | nil =>
            cases hitems
            apply reads_item (rfl : replyType '*' = some .array)
            have hscan := scan_arrayHead (n := 0) (by decide) (by decide) hopen rest
            rw [if_neg (by decide), if_neg (by decide)] at hscan
            exact hscan
        | cons item items =>
            rw [List.append_assoc]
            have hroom : frames.length + 1 + depth = maxDepth := by omega
            have helements := reads_elements ih hroom hitems (List.cons_ne_nil _ _) [] rest
            rw [List.length_nil, Nat.zero_add] at helements
            exact (reads_arrayHead (Nat.succ_pos _) hmax hopen (parts.flatten ++ rest)).trans
              helements

/-- A sequence of replies, one after the other. -/
theorem reads_replies {parts : List (List Char)} {replies : List HiredisReply}
    (h : List.Forall₂ (Denoting maxDepth) parts replies) (rest : List Char) :
    Reads (Parse.turn lineEnd chrtos) {} (parts.flatten ++ rest) replies {} rest := by
  induction h with
  | nil => exact .nil _ _
  | @cons part reply parts replies hpart _ ih =>
      rw [List.flatten_cons, List.append_assoc]
      exact (reads_denoting maxDepth [] rfl part reply hpart _).trans ih

/-! ### What is read is denoted -/

/-- The bytes of the arrays that are open, with the elements that are there. -/
def OpenFrames : List Frame → List Char → Prop
  | [], past => past = []
  | f :: fs, past =>
      ∃ before parts, past = before ++ (arrayHead f.total ++ parts.flatten) ∧ OpenFrames fs before ∧
        List.Forall₂ (Denoting (maxDepth - (fs.length + 1))) parts f.done ∧
        f.done.length < f.total ∧ f.total ≤ intMax ∧ fs.length < maxDepth

/-- The bytes of a reply that is not complete. -/
def Parse.Opened (p : Parse) (past : List Char) : Prop :=
  match p.kind with
  | none => OpenFrames p.frames past
  | some kind =>
      ∃ before c, past = before ++ [c] ∧ replyType c = some kind ∧ OpenFrames p.frames before

theorem OpenFrames.depth {past : List Char} (h : OpenFrames frames past) :
    frames.length ≤ maxDepth := by
  cases frames with
  | nil => exact Nat.zero_le _
  | cons f fs =>
      obtain ⟨_, _, _, _, _, _, _, hdepth⟩ := h
      exact hdepth

theorem Denoting.of_leaf (h : Leaf bytes reply) (depth : Nat) : Denoting depth bytes reply := by
  cases depth with
  | zero => exact h
  | succ depth => exact .inl h

theorem take_line {l : List Char} {n : Nat} (h : lineEnd l = some n) :
    l.take (n + 2) = l.take n ++ crlf := by
  obtain ⟨hsplit, _, hle⟩ := lineEnd_some h
  have hlen : (l.take n).length = n := List.length_take_of_le (by omega)
  have htwo : n + 2 = (l.take n ++ crlf).length := by
    rw [length_append_crlf, hlen]
  nth_rewrite 1 [hsplit]
  rw [htwo, List.take_left]

theorem replyType_eq {c : Char} {kind : ReplyType} (h : replyType c = some kind) :
    (c = '-' ∧ kind = .error) ∨ (c = '+' ∧ kind = .status) ∨ (c = ':' ∧ kind = .integer) ∨
      (c = '$' ∧ kind = .string) ∨ (c = '*' ∧ kind = .array) := by
  unfold replyType at h
  split at h <;> cases h <;> simp

/-- What a scan brings out is denoted by the bytes it used. -/
theorem denoting_of_scan {c : Char} {kind : ReplyType} {depth used : Nat} {l : List Char}
    (hc : replyType c = some kind) (hdepth : depth ≤ maxDepth)
    (h : Scanned lineEnd kind depth l (.leaf used reply)) :
    Denoting (maxDepth - depth) (c :: l.take used) reply := by
  have hroom (hne : depth ≠ maxDepth) :
      maxDepth - depth = maxDepth - (depth + 1) + 1 := by omega
  have hbyte := replyType_eq hc
  cases h with
  | text n hkind hn =>
      obtain ⟨_, hline, _⟩ := lineEnd_some hn
      apply Denoting.of_leaf
      rw [take_line hn]
      rcases hkind with rfl | rfl
      · have hplus : c = '+' := by simpa using hbyte
        rw [hplus]
        exact .status hline
      · have hminus : c = '-' := by simpa using hbyte
        rw [hminus]
        exact .error hline
  | integer n v hkind hn hv =>
      obtain ⟨hdecimal, hlow, hhigh⟩ := string2ll_iff.mp hv
      have hcolon : c = ':' := by simpa [hkind] using hbyte
      apply Denoting.of_leaf
      rw [take_line hn, hdecimal, hcolon]
      exact .integer hlow hhigh
  | nilString n hkind hn hv =>
      have hdollar : c = '$' := by simpa [hkind] using hbyte
      apply Denoting.of_leaf
      rw [take_line hn, (string2ll_iff.mp hv).1, hdollar]
      exact .nil
  | string n len hkind hn hv hlen =>
      obtain ⟨hdecimal, hlow, hhigh⟩ := string2ll_iff.mp hv
      have hdollar : c = '$' := by simpa [hkind] using hbyte
      have hsplit : l.take (n + 2 + (len + 2)) =
          l.take (n + 2) ++ ((l.drop (n + 2)).take len ++ (l.drop (n + 2 + len)).take 2) := by
        rw [List.take_add (i := n + 2), List.take_add (i := len), List.drop_drop]
      have hbody : ((l.drop (n + 2)).take len).length = len := by
        apply List.length_take_of_le
        rw [List.length_drop]
        omega
      have htail : ((l.drop (n + 2 + len)).take 2).length = 2 := by
        apply List.length_take_of_le
        rw [List.length_drop]
        omega
      apply Denoting.of_leaf
      rw [hsplit, take_line hn, hdecimal, hdollar]
      have hshort : ((l.drop (n + 2)).take len).length < 2 ^ 63 := by
        rw [hbody]
        omega
      have hstring := Leaf.string hshort htail
      rwa [hbody] at hstring
  | nilArray n hkind hne hn hv =>
      have hstar : c = '*' := by simpa [hkind] using hbyte
      rw [take_line hn, (string2ll_iff.mp hv).1, hstar, hroom hne]
      exact .inr (.inl ⟨rfl, rfl⟩)
  | emptyArray n hkind hne hn hv =>
      have hstar : c = '*' := by simpa [hkind] using hbyte
      rw [take_line hn, (string2ll_iff.mp hv).1, hstar, hroom hne]
      exact .inr (.inr ⟨[], [], rfl, rfl, Nat.zero_le _, .nil⟩)

/-- A reply that is delivered completes an array, or is one element more. -/
theorem OpenFrames.deliver {past : List Char} (hopen : OpenFrames frames past)
    (h : Denoting (maxDepth - frames.length) bytes reply) :
    (∀ t, (deliver frames reply).2 = some t →
      (CloRedis.deliver frames reply).1 = [] ∧ Denoting maxDepth (past ++ bytes) t) ∧
    ((CloRedis.deliver frames reply).2 = none →
      OpenFrames (CloRedis.deliver frames reply).1 (past ++ bytes)) := by
  induction frames generalizing past bytes reply with
  | nil =>
      cases hopen
      constructor
      · intro t ht
        cases ht
        exact ⟨rfl, h⟩
      · intro hnone
        cases hnone
  | cons f fs ih =>
      obtain ⟨before, parts, rfl, hbefore, hparts, hlen, hmax, hdepth⟩ := hopen
      have hall : List.Forall₂ (Denoting (maxDepth - (fs.length + 1))) (parts ++ [bytes])
          (f.done ++ [reply]) :=
        List.rel_append hparts (.cons h .nil)
      have hbytes : before ++ (arrayHead f.total ++ parts.flatten) ++ bytes =
          before ++ (arrayHead f.total ++ (parts ++ [bytes]).flatten) := by
        simp only [List.append_assoc, List.flatten_append, List.flatten_cons, List.flatten_nil,
          List.append_nil]
      rw [CloRedis.deliver, hbytes]
      split
      · rename_i hlast
        apply ih hbefore
        have hroom : maxDepth - fs.length = maxDepth - (fs.length + 1) + 1 := by omega
        rw [hroom]
        have hcount : (f.done ++ [reply]).length = f.total := by
          rw [List.length_append]
          exact hlast
        exact .inr (.inr ⟨parts ++ [bytes], f.done ++ [reply], by rw [hcount], rfl,
          by rw [hcount]; exact hmax, hall⟩)
      · rename_i hmore
        constructor
        · intro t ht
          cases ht
        · intro _
          have hroom : (f.done ++ [reply]).length < f.total := by
            rw [List.length_append, List.length_singleton]
            omega
          exact ⟨before, parts ++ [bytes], rfl, hbefore, hall, hroom, hmax, hdepth⟩

/-- The replies brought out so far and the one that is open account for the
stream. -/
def Parse.Accounts (past : List Char) (replies : List HiredisReply) (p : Parse) : Prop :=
  ∃ parts mid, past = parts.flatten ++ mid ∧ List.Forall₂ (Denoting maxDepth) parts replies ∧
    p.Opened mid

theorem Parse.Accounts.turn {past : List Char} {replies : List HiredisReply} {p p' : Parse}
    {l : List Char} {n : Nat} {out : Option HiredisReply} (h : p.Accounts past replies)
    (hturn : p.turn lineEnd chrtos l = .take n p' out) :
    p'.Accounts (past ++ l.take n) (replies ++ out.toList) := by
  obtain ⟨parts, mid, rfl, hparts, hopen⟩ := h
  obtain ⟨frames, kind⟩ := p
  cases kind with
  | none =>
      cases l with
      | nil => cases hturn
      | cons c rest =>
          simp only [Parse.turn] at hturn
          split at hturn
          · rename_i kind hc
            cases hturn
            refine ⟨parts, mid ++ [c], ?_, ?_, mid, c, rfl, hc, hopen⟩
            · rw [List.append_assoc]
              rfl
            · rwa [Option.toList_none, List.append_nil]
          · cases hturn
  | some kind =>
      obtain ⟨before, c, rfl, hc, hbefore⟩ := hopen
      have hscanned := scanned lineEnd kind frames.length l
      simp only [Parse.turn] at hturn
      split at hturn
      · cases hturn
      · cases hturn
      · rename_i used reply hscan
        rw [hscan] at hscanned
        have hdenotes := denoting_of_scan hc hbefore.depth hscanned
        obtain ⟨hcomplete, hincomplete⟩ := hbefore.deliver hdenotes
        have hbytes : before ++ [c] ++ l.take used = before ++ c :: l.take used := by
          rw [List.append_assoc]
          rfl
        cases hturn
        cases hout : (deliver frames reply).2 with
        | none =>
            refine ⟨parts, before ++ c :: l.take n, ?_, ?_, hincomplete hout⟩
            · rw [List.append_assoc, hbytes]
            · rwa [Option.toList_none, List.append_nil]
        | some t =>
            obtain ⟨hframes, ht⟩ := hcomplete t hout
            refine ⟨parts ++ [before ++ c :: l.take n], [], ?_, ?_, ?_⟩
            · rw [List.append_assoc, hbytes, List.flatten_append, List.flatten_cons,
                List.flatten_nil, List.append_nil, List.append_nil]
            · exact List.rel_append hparts (.cons ht .nil)
            · exact hframes ▸ rfl
      · rename_i used elements hscan
        rw [hscan] at hscanned
        cases hturn
        cases hscanned with
        | array n elements hkind hne hn hv hpos hmax =>
            have hstar : c = '*' := by simpa [hkind] using replyType_eq hc
            have hhead : [c] ++ l.take (n + 2) = arrayHead elements := by
              rw [take_line hn, (string2ll_iff.mp hv).1, hstar]
              rfl
            have hdepth : frames.length < maxDepth := lt_of_le_of_ne hbefore.depth hne
            refine ⟨parts, before ++ ([c] ++ l.take (n + 2)), ?_, ?_, before, [], ?_, hbefore, .nil,
              hpos, hmax, hdepth⟩
            · rw [List.append_assoc, List.append_assoc]
            · rwa [Option.toList_none, List.append_nil]
            · rw [hhead, List.flatten_nil, List.append_nil]

/-- What is brought out of a stream is denoted by it, in order, and what is
read beyond that belongs to a reply that is open. -/
theorem Parse.accounts_of_reads {stream rest : List Char} {replies : List HiredisReply} {p : Parse}
    (h : Reads (Parse.turn lineEnd chrtos) {} stream replies p rest) :
    ∃ past, stream = past ++ rest ∧ p.Accounts past replies := by
  have hstart : Parse.Accounts [] [] {} := ⟨[], [], rfl, .nil, rfl⟩
  exact h.invariant (I := fun past replies p => Parse.Accounts past replies p)
    (fun hI hturn => hI.turn hturn) hstart

end CloRedis
