import CloRedis.Hiredis.Commands

/-!
What a format string means. A format alone says how many words a command has
and of what pieces each is made; the arguments only say what the pieces show.
`redisvFormatCommand` does both in one pass and makes the same command, so no
argument can end a word or begin one.
-/

namespace CloRedis

open Library

/-- A piece of a word. A conversion too long for `_format` takes its argument
and shows nothing. -/
inductive Piece where
  | char (c : Char)
  | string
  | binary
  | printf (type : VaType) (format : List Char)
  | ignored (type : VaType)

inductive Token where
  | blank
  | piece (p : Piece)

/-- Why a format ends: at its terminator, at a conversion there is not, or at one
that is cut off by the terminator. -/
inductive FormatStop where
  | finished
  | invalid
  | cutOff

inductive NextToken where
  | stop (e : FormatStop)
  | token (t : Token) (c : List Char)

/-- A conversion of `printf`. -/
def nextPrintf (x : Char) (rest : List Char) : NextToken :=
  match printfConversion (x :: rest) with
  | none => .stop .invalid
  | some (type, p) =>
      let c := '%' :: x :: rest
      let l := c.length - p.length + 1
      if l < 14 then
        if p = [] then .stop .cutOff else .token (.piece (.printf type (c.take l))) (p.drop 1)
      else .token (.piece (.ignored type)) rest

/-- What begins with a `%`. -/
def nextConversion (x : Char) (rest : List Char) : NextToken :=
  if x = 's' then .token (.piece .string) rest
  else if x = 'b' then .token (.piece .binary) rest
  else if x = '%' then .token (.piece (.char '%')) rest
  else nextPrintf x rest

def nextToken : List Char → NextToken
  | [] => .stop .finished
  | '%' :: x :: rest => nextConversion x rest
  | x :: rest => if x = ' ' then .token .blank rest else .token (.piece (.char x)) rest

/-- A format is a sequence of tokens. -/
inductive Tokens : List Char → List Token → FormatStop → Prop where
  | stop {c : List Char} {e : FormatStop} : nextToken c = .stop e → Tokens c [] e
  | token {c c' : List Char} {t : Token} {ts : List Token} {e : FormatStop} :
      nextToken c = .token t c' → Tokens c' ts e → Tokens c (t :: ts) e

/-- The pieces that go on with a word, and the words behind it. -/
def splitWords : List Token → List Piece × List (List Piece)
  | [] => ([], [])
  | .blank :: ts =>
      let (first, rest) := splitWords ts
      ([], if first.isEmpty then rest else first :: rest)
  | .piece p :: ts =>
      let (first, rest) := splitWords ts
      (p :: first, rest)

/-- The words of a format. -/
def wordsOf (ts : List Token) : List (List Piece) :=
  let (first, rest) := splitWords ts
  if first.isEmpty then rest else first :: rest

section Render

variable {F : Type} (vsnprintf : List Char → VaArg F → List Char)

/-- What a piece shows, and the arguments that are left. -/
def Piece.render (ap : List (VaArg F)) : Piece → Except FormatFault (List Char × List (VaArg F))
  | .char c => .ok ([c], ap)
  | .string => (vaPointer ap).map fun (bytes, ap) => (cText bytes, ap)
  | .binary => vaBytes ap
  | .printf type format => do
      let (arg, ap) ← vaArg type ap
      .ok (vsnprintf format arg, ap)
  | .ignored type => do
      let (_, ap) ← vaArg type ap
      .ok ([], ap)

def renderWord : List (VaArg F) → List Piece → Except FormatFault (List Char × List (VaArg F))
  | ap, [] => .ok ([], ap)
  | ap, p :: ps => do
      let (bytes, ap) ← p.render vsnprintf ap
      let (more, ap) ← renderWord ap ps
      .ok (bytes ++ more, ap)

def renderWords : List (VaArg F) → List (List Piece) →
    Except FormatFault (List (List Char) × List (VaArg F))
  | ap, [] => .ok ([], ap)
  | ap, word :: words => do
      let (arg, ap) ← renderWord vsnprintf ap word
      let (argv, ap) ← renderWords ap words
      .ok (arg :: argv, ap)

end Render

variable {F : Type} {vsnprintf : List Char → VaArg F → List Char} {c c' : List Char} {t : Token}
  {ts : List Token} {e : FormatStop}

/-- There are as many arguments as the format has words. -/
theorem renderWords_length {ap ap' : List (VaArg F)} {words : List (List Piece)}
    {argv : List (List Char)} (h : renderWords vsnprintf ap words = .ok (argv, ap')) :
    argv.length = words.length := by
  induction words generalizing ap argv with
  | nil =>
      cases h
      rfl
  | cons word words ih =>
      obtain ⟨⟨arg, ap₁⟩, _, h⟩ := do_ok.mp h
      obtain ⟨⟨rest, ap₂⟩, hrest, h⟩ := do_ok.mp h
      cases h
      rw [List.length_cons, List.length_cons, ih hrest]

/-! ### Tokens -/

theorem sizedConversion_some {type type' : VaType} {p q : List Char}
    (h : sizedConversion type p = some (type', q)) : q = p := by
  unfold sizedConversion at h
  split at h
  · split at h
    · cases h
      rfl
    · cases h
  · cases h

/-- A conversion ends inside the format. -/
theorem printfConversion_suffix {p q : List Char} {type : VaType}
    (h : printfConversion p = some (type, q)) : q <:+ p := by
  unfold printfConversion at h
  dsimp only at h
  have hwidth := (List.dropWhile_suffix Char.isDigit).trans
    (List.dropWhile_suffix (l := p) (· ∈ formatFlags))
  generalize (p.dropWhile (· ∈ formatFlags)).dropWhile Char.isDigit = p₂ at h hwidth
  have hprecision :
      (if p₂.head? = some '.' then (p₂.drop 1).dropWhile Char.isDigit else p₂) <:+ p := by
    split
    · exact (List.dropWhile_suffix _).trans ((List.drop_suffix 1 p₂).trans hwidth)
    · exact hwidth
  generalize (if p₂.head? = some '.' then (p₂.drop 1).dropWhile Char.isDigit else p₂) = p₃
    at h hprecision
  split at h
  · cases h
    exact List.nil_suffix
  · rename_i c rest
    split_ifs at h
    · cases h
      exact hprecision
    · cases h
      exact hprecision
    · rw [sizedConversion_some h]
      exact (List.drop_suffix _ _).trans hprecision
    · rw [sizedConversion_some h]
      exact (List.drop_suffix _ _).trans hprecision
    · rw [sizedConversion_some h]
      exact (List.drop_suffix _ _).trans hprecision
    · rw [sizedConversion_some h]
      exact (List.drop_suffix _ _).trans hprecision

theorem nextPrintf_length {x : Char} {rest : List Char} (h : nextPrintf x rest = .token t c') :
    c'.length ≤ rest.length := by
  unfold nextPrintf at h
  split at h
  · cases h
  · rename_i type p hconversion
    have hlen := (printfConversion_suffix hconversion).length_le
    rw [List.length_cons] at hlen
    dsimp only at h
    split_ifs at h
    · cases h
      rw [List.length_drop]
      omega
    · cases h
      exact Nat.le_refl _

theorem nextConversion_length {x : Char} {rest : List Char}
    (h : nextConversion x rest = .token t c') : c'.length ≤ rest.length := by
  unfold nextConversion at h
  split_ifs at h
  · cases h
    exact Nat.le_refl _
  · cases h
    exact Nat.le_refl _
  · cases h
    exact Nat.le_refl _
  · exact nextPrintf_length h

theorem nextToken_length (h : nextToken c = .token t c') : c'.length < c.length := by
  unfold nextToken at h
  split at h
  · cases h
  · have hlen := nextConversion_length h
    simp only [List.length_cons]
    omega
  · split at h
    · cases h
      exact Nat.lt_succ_self _
    · cases h
      exact Nat.lt_succ_self _

/-- Every format has its tokens. -/
theorem tokens_exist (c : List Char) : ∃ ts e, Tokens c ts e := by
  induction hn : c.length using Nat.strongRecOn generalizing c with
  | ind n ih =>
      cases hnext : nextToken c with
      | stop e => exact ⟨[], e, .stop hnext⟩
      | token t c' =>
          have hless := nextToken_length hnext
          obtain ⟨ts, e, htokens⟩ := ih c'.length (by omega) c' rfl
          exact ⟨t :: ts, e, .token hnext htokens⟩

/-! ### The words token by token -/

/-- The words that are complete, the one that has begun, and the arguments that
are left. -/
structure Words (F : Type) where
  argv : List (List Char) := []
  cur : Option (List Char) := none
  ap : List (VaArg F)

variable (vsnprintf) in
def Words.take (w : Words F) : Token → Except FormatFault (Words F)
  | .blank => .ok { w with argv := w.argv ++ w.cur.toList, cur := none }
  | .piece p => do
      let (bytes, ap) ← p.render vsnprintf w.ap
      .ok { w with cur := some (w.cur.getD [] ++ bytes), ap := ap }

/-- The first word behind one that may have begun. -/
def closeWord (cur : Option (List Char)) (first : List Piece) (bytes : List Char) :
    List (List Char) :=
  if cur = none ∧ first = [] then [] else [cur.getD [] ++ bytes]

theorem closeWord_none (cur : Option (List Char)) : closeWord cur [] [] = cur.toList := by
  cases cur with
  | none => exact if_pos ⟨rfl, rfl⟩
  | some cur =>
      rw [closeWord, if_neg (by simp), Option.getD_some, List.append_nil]
      rfl

theorem closeWord_cons (cur : Option (List Char)) (p : Piece) (ps : List Piece)
    (bytes : List Char) : closeWord cur (p :: ps) bytes = [cur.getD [] ++ bytes] :=
  if_neg (by simp)

theorem closeWord_some (cur : List Char) (ps : List Piece) (bytes : List Char) :
    closeWord (some cur) ps bytes = [cur ++ bytes] :=
  if_neg (by simp)

variable (vsnprintf) in
/-- The words behind one that may have begun. -/
def renderFirst (cur : Option (List Char)) (ap : List (VaArg F))
    (words : List Piece × List (List Piece)) :
    Except FormatFault (List (List Char) × List (VaArg F)) := do
  let (bytes, ap) ← renderWord vsnprintf ap words.1
  let (argv, ap) ← renderWords vsnprintf ap words.2
  .ok (closeWord cur words.1 bytes ++ argv, ap)

theorem renderFirst_nil (cur : Option (List Char)) (ap : List (VaArg F))
    (words : List (List Piece)) :
    renderFirst vsnprintf cur ap ([], words) =
      (renderWords vsnprintf ap words).map fun v => (cur.toList ++ v.1, v.2) := by
  rw [renderFirst, renderWord, ok_do]
  dsimp only
  rw [closeWord_none]
  cases renderWords vsnprintf ap words <;> rfl

theorem renderFirst_cons (cur : Option (List Char)) (ap : List (VaArg F)) (p : Piece)
    (ps : List Piece) (words : List (List Piece)) :
    renderFirst vsnprintf cur ap (p :: ps, words) =
      (p.render vsnprintf ap).bind fun v =>
        renderFirst vsnprintf (some (cur.getD [] ++ v.1)) v.2 (ps, words) := by
  cases hp : p.render vsnprintf ap with
  | error e =>
      rw [renderFirst, renderWord, hp]
      rfl
  | ok v =>
      rw [renderFirst, renderWord, hp, Except.bind, renderFirst, ok_do]
      dsimp only
      cases renderWord vsnprintf v.2 ps with
      | error e => rfl
      | ok u =>
          rw [ok_do, ok_do, ok_do]
          dsimp only
          rw [closeWord_cons, closeWord_some, List.append_assoc]

theorem renderFirst_none (ap : List (VaArg F)) (words : List Piece × List (List Piece)) :
    renderFirst vsnprintf none ap words =
      renderWords vsnprintf ap (if words.1.isEmpty then words.2 else words.1 :: words.2) := by
  obtain ⟨first, rest⟩ := words
  cases first with
  | nil =>
      rw [renderFirst_nil]
      show (renderWords vsnprintf ap rest).map _ = renderWords vsnprintf ap rest
      cases renderWords vsnprintf ap rest <;> rfl
  | cons p ps =>
      show _ = renderWords vsnprintf ap ((p :: ps) :: rest)
      rw [renderFirst, renderWords]
      cases renderWord vsnprintf ap (p :: ps) <;> rfl

variable (vsnprintf ts) in
/-- Taking the tokens one after the other renders the words. -/
theorem run_take (w : Words F) :
    (run (Words.take vsnprintf) w ts).map (fun w' => (w'.argv ++ w'.cur.toList, w'.ap)) =
      (renderFirst vsnprintf w.cur w.ap (splitWords ts)).map fun v => (w.argv ++ v.1, v.2) := by
  induction ts generalizing w with
  | nil =>
      rw [splitWords, renderFirst_nil, renderWords]
      show Except.ok (w.argv ++ w.cur.toList, w.ap) =
        Except.ok (w.argv ++ (w.cur.toList ++ []), w.ap)
      rw [List.append_nil]
  | cons t ts ih =>
      rw [run_cons]
      cases t with
      | blank =>
          have htake : w.take vsnprintf .blank =
              .ok { w with argv := w.argv ++ w.cur.toList, cur := none } := rfl
          rw [htake, Except.bind, ih, renderFirst_none, splitWords]
          dsimp only
          rw [renderFirst_nil]
          cases renderWords vsnprintf w.ap _ with
          | error e => rfl
          | ok v =>
              show Except.ok (w.argv ++ w.cur.toList ++ v.1, v.2) = Except.ok (w.argv ++ _, v.2)
              rw [List.append_assoc]
      | piece p =>
          rw [splitWords]
          dsimp only
          rw [renderFirst_cons, Words.take]
          cases p.render vsnprintf w.ap with
          | error e => rfl
          | ok v =>
              rw [ok_do]
              dsimp only
              rw [Except.bind, Except.bind, ih]

/-! ### One turn of the loop -/

/-- The variables of the loop hold the words. -/
structure Shows (s : FormatState F) (w : Words F) : Prop where
  ap : s.ap = w.ap
  argv : s.argv = w.argv
  curarg : s.curarg = w.cur.getD []
  touched : s.touched = w.cur.isSome
  totlen : s.totlen = toInt32 (w.argv.map fun arg => bulklen arg.length).sum

/-- How a turn takes a token. -/
inductive Takes (vsnprintf : List Char → VaArg F → List Char) (memory : Bool) (w : Words F)
    (t : Token) (c : List Char) : Except FormatFault (FormatState F ⊕ FormatEnd F) → Prop where
  | goes {w' : Words F} {s' : FormatState F} : w.take vsnprintf t = .ok w' → s'.c = c →
      Shows s' w' → Takes vsnprintf memory w t c (.ok (.inl s'))
  | faults {e e' : FormatFault} : w.take vsnprintf t = .error e →
      Takes vsnprintf memory w t c (.error e')
  | starves : memory = false → Takes vsnprintf memory w t c (.ok (.inr (.error (-1))))

/-- How a turn meets the end of the format. -/
inductive Stops (memory : Bool) (s : FormatState F) :
    FormatStop → Except FormatFault (FormatState F ⊕ FormatEnd F) → Prop where
  | finished : Stops memory s .finished (.ok (.inr (.finished s)))
  | invalid : Stops memory s .invalid (.ok (.inr (.error (-2))))
  | cutOff (e : FormatFault) : Stops memory s .cutOff (.error e)
  | starves : memory = false → Stops memory s .cutOff (.ok (.inr (.error (-1))))

/-- What `convert` finds is the next token. -/
inductive Converts (vsnprintf : List Char → VaArg F → List Char) (memory : Bool)
    (ap : List (VaArg F)) : NextToken → Except FormatFault (Converted F) → Prop where
  | shows {p : Piece} {c : List Char} {bytes : List Char} {ap' : List (VaArg F)} :
      p.render vsnprintf ap = .ok (bytes, ap') →
      Converts vsnprintf memory ap (.token (.piece p) c) (.ok (.text bytes ap' c))
  | faults {p : Piece} {c : List Char} {e e' : FormatFault} : p.render vsnprintf ap = .error e →
      Converts vsnprintf memory ap (.token (.piece p) c) (.error e')
  | invalid : Converts vsnprintf memory ap (.stop .invalid) (.ok .invalid)
  | cutOff (e : FormatFault) : Converts vsnprintf memory ap (.stop .cutOff) (.error e)
  | starves {bytes : List Char} {ap' : List (VaArg F)} {c : List Char} : memory = false →
      bytes ≠ [] → Converts vsnprintf memory ap (.stop .cutOff) (.ok (.text bytes ap' c))

theorem convertPrintf_converts (memory : Bool) (x : Char) (rest : List Char)
    (ap : List (VaArg F)) :
    Converts vsnprintf memory ap (nextPrintf x rest)
      (convertPrintf vsnprintf memory x rest ap) := by
  unfold nextPrintf convertPrintf
  cases hconversion : printfConversion (x :: rest) with
  | none => exact .invalid
  | some v =>
      obtain ⟨type, p⟩ := v
      dsimp only
      cases harg : vaArg type ap with
      | error e =>
          have hprintf (format : List Char) :
              (Piece.printf type format).render vsnprintf ap = .error e := by
            rw [Piece.render, harg]
            rfl
          have hignored : (Piece.ignored type).render vsnprintf ap = .error e := by
            rw [Piece.render, harg]
            rfl
          split_ifs
          · exact .cutOff _
          · exact .faults (hprintf _)
          · exact .faults hignored
      | ok u =>
          have hprintf (format : List Char) :
              (Piece.printf type format).render vsnprintf ap =
                .ok (vsnprintf format u.1, u.2) := by
            rw [Piece.render, harg]
            rfl
          have hignored : (Piece.ignored type).render vsnprintf ap = .ok ([], u.2) := by
            rw [Piece.render, harg]
            rfl
          rw [ok_do]
          split_ifs with hlen hend hcut hcut
          · exact .cutOff _
          · obtain ⟨hmemory, hbytes⟩ := not_or.mp (fun h => hcut ⟨hend, h⟩)
            exact .starves (Bool.eq_false_iff.mpr hmemory) hbytes
          · exact absurd hcut.1 hend
          · exact .shows (hprintf _)
          · exact .shows hignored

variable (vsnprintf) in
theorem convert_converts (memory : Bool) (x : Char) (rest : List Char) (ap : List (VaArg F)) :
    Converts vsnprintf memory ap (nextConversion x rest)
      (convert vsnprintf memory x rest ap) := by
  unfold nextConversion convert
  split_ifs with hs hb hpercent
  · cases hpointer : vaPointer ap with
    | error e =>
        apply Converts.faults (e := e)
        rw [Piece.render, hpointer]
        rfl
    | ok v =>
        apply Converts.shows
        rw [Piece.render, hpointer]
        rfl
  · cases hbytes : vaBytes ap with
    | error e => exact .faults hbytes
    | ok v => exact .shows hbytes
  · exact .shows rfl
  · exact convertPrintf_converts memory x rest ap

/-- A piece appended to the current argument. -/
theorem Shows.piece {s : FormatState F} {w : Words F} (h : Shows s w) (bytes : List Char)
    (ap : List (VaArg F)) (c : List Char) :
    Shows { s with c := c, ap := ap, curarg := s.curarg ++ bytes, touched := true }
      { w with cur := some (w.cur.getD [] ++ bytes), ap := ap } := by
  refine ⟨rfl, h.argv, ?_, rfl, h.totlen⟩
  show s.curarg ++ bytes = w.cur.getD [] ++ bytes
  rw [h.curarg]

/-- The current argument is complete. -/
theorem Shows.blank {s : FormatState F} {w : Words F} (h : Shows s w) (htouched : s.touched = true)
    (c : List Char) :
    Shows { s with
        c := c, argv := s.argv ++ [s.curarg], curarg := [], touched := false,
        totlen := toInt32 (s.totlen + bulklen s.curarg.length) }
      { w with argv := w.argv ++ w.cur.toList, cur := none } := by
  rw [h.touched, Option.isSome_iff_exists] at htouched
  obtain ⟨cur, hcur⟩ := htouched
  have hcurarg : s.curarg = cur := by rw [h.curarg, hcur, Option.getD_some]
  refine ⟨h.ap, ?_, rfl, rfl, ?_⟩
  · show s.argv ++ [s.curarg] = w.argv ++ w.cur.toList
    rw [h.argv, hcurarg, hcur]
    rfl
  · show toInt32 (s.totlen + bulklen s.curarg.length) =
      toInt32 ((w.argv ++ w.cur.toList).map fun arg => bulklen arg.length).sum
    rw [h.totlen, hcurarg, hcur, List.map_append, List.sum_append]
    simp only [toInt32, Int.bmod_add_bmod, Nat.cast_add, Option.toList_some, List.map_singleton,
      List.sum_singleton]

theorem formatBody_percent (memory : Bool) {s : FormatState F} {x : Char} {rest : List Char}
    (hc : s.c = '%' :: x :: rest) :
    formatBody vsnprintf memory s =
      (convert vsnprintf memory x rest s.ap).bind fun
        | .invalid => .ok (.inr (.error (-2)))
        | .text bytes ap c =>
            if bytes ≠ [] ∧ ¬memory then .ok (.inr (.error (-1)))
            else .ok (.inl { s with
              c := c, ap := ap, curarg := s.curarg ++ bytes, touched := true }) := by
  unfold formatBody
  rw [hc]
  rfl

theorem formatBody_char (memory : Bool) {s : FormatState F} {x : Char} {rest : List Char}
    (hc : s.c = x :: rest) (hpercent : ∀ y more, s.c ≠ '%' :: y :: more) :
    formatBody vsnprintf memory s =
      if x = ' ' then
        if s.touched then
          if memory then
            .ok (.inl { s with
              c := rest, argv := s.argv ++ [s.curarg], curarg := [], touched := false,
              totlen := toInt32 (s.totlen + bulklen s.curarg.length) })
          else .ok (.inr (.error (-1)))
        else .ok (.inl { s with c := rest })
      else if memory then
        .ok (.inl { s with c := rest, curarg := s.curarg ++ [x], touched := true })
      else .ok (.inr (.error (-1))) := by
  unfold formatBody
  split
  · rename_i hnil
    cases hnil.symm.trans hc
  · rename_i y more hpercent'
    exact absurd hpercent' (hpercent y more)
  · rename_i x' rest' _ hc'
    cases hc'.symm.trans hc
    rfl

theorem take_piece {w : Words F} {p : Piece} {bytes : List Char} {ap : List (VaArg F)}
    (h : p.render vsnprintf w.ap = .ok (bytes, ap)) :
    w.take vsnprintf (.piece p) =
      .ok { w with cur := some (w.cur.getD [] ++ bytes), ap := ap } := by
  rw [Words.take, h]
  rfl

theorem take_piece_error {w : Words F} {p : Piece} {e : FormatFault}
    (h : p.render vsnprintf w.ap = .error e) : w.take vsnprintf (.piece p) = .error e := by
  rw [Words.take, h]
  rfl

variable (vsnprintf) in
/-- A turn takes the next token. -/
theorem formatBody_takes {s : FormatState F} {w : Words F} (h : Shows s w)
    (hnext : nextToken s.c = .token t c') (memory : Bool) :
    Takes vsnprintf memory w t c' (formatBody vsnprintf memory s) := by
  unfold nextToken at hnext
  split at hnext
  · cases hnext
  · rename_i x rest hc
    have hconverts := convert_converts vsnprintf memory x rest s.ap
    rw [formatBody_percent memory hc]
    rw [hnext, h.ap] at hconverts
    rw [h.ap]
    generalize convert vsnprintf memory x rest w.ap = v at hconverts ⊢
    cases hconverts with
    | @shows p _ bytes ap hrender =>
        rw [Except.bind]
        dsimp only
        split_ifs with hstarved
        · exact .starves (Bool.eq_false_iff.mpr hstarved.2)
        · exact .goes (take_piece hrender) rfl (h.piece bytes ap c')
    | faults hrender => exact .faults (take_piece_error hrender)
  · rename_i x rest hpercent hc
    have hplain : ∀ y more, s.c ≠ '%' :: y :: more := by
      intro y more hmore
      cases hmore.symm.trans hc
      exact hpercent y more rfl rfl
    rw [formatBody_char memory hc hplain]
    split_ifs at hnext with hblank
    · cases hnext
      rw [if_pos hblank]
      split_ifs with htouched hmemory
      · exact .goes rfl rfl (h.blank htouched c')
      · exact .starves (Bool.eq_false_iff.mpr hmemory)
      · have hnone : w.cur = none := by
          rw [h.touched, Option.isSome_iff_ne_none, ne_eq, not_not] at htouched
          exact htouched
        have hshows : Shows { s with c := c' }
            { w with argv := w.argv ++ w.cur.toList, cur := none } := by
          refine ⟨h.ap, ?_, ?_, ?_, ?_⟩
          · rw [hnone, Option.toList_none, List.append_nil]
            exact h.argv
          · rw [← hnone]
            exact h.curarg
          · rw [← hnone]
            exact h.touched
          · rw [hnone, Option.toList_none, List.append_nil]
            exact h.totlen
        exact .goes rfl rfl hshows
    · cases hnext
      rw [if_neg hblank]
      split_ifs with hmemory
      · have hshows := h.piece [x] w.ap c'
        rw [← h.ap] at hshows
        exact .goes (take_piece (p := .char x) (by rw [h.ap]; rfl)) rfl hshows
      · exact .starves (Bool.eq_false_iff.mpr hmemory)

variable (vsnprintf) in
theorem formatBody_stops {s : FormatState F} (hnext : nextToken s.c = .stop e) (memory : Bool) :
    Stops memory s e (formatBody vsnprintf memory s) := by
  unfold nextToken at hnext
  split at hnext
  · rename_i hc
    cases hnext
    have hend : formatBody vsnprintf memory s = .ok (.inr (.finished s)) := by
      unfold formatBody
      rw [hc]
    rw [hend]
    exact .finished
  · rename_i x rest hc
    have hconverts := convert_converts vsnprintf memory x rest s.ap
    rw [formatBody_percent memory hc]
    rw [hnext] at hconverts
    generalize convert vsnprintf memory x rest s.ap = v at hconverts ⊢
    cases hconverts with
    | invalid => exact .invalid
    | cutOff e => exact .cutOff e
    | starves hmemory hbytes =>
        rw [Except.bind]
        dsimp only
        rw [if_pos ⟨hbytes, by rw [hmemory]; nofun⟩]
        exact .starves hmemory
  · split_ifs at hnext

/-! ### The whole loop -/

/-- How the loop ends over the tokens of a format. -/
inductive Scans (vsnprintf : List Char → VaArg F → List Char) (memory : Nat → Bool) (w : Words F)
    (ts : List Token) : FormatStop → Except FormatFault (FormatEnd F) → Prop where
  | finished {w' : Words F} {s : FormatState F} : run (Words.take vsnprintf) w ts = .ok w' →
      Shows s w' → Scans vsnprintf memory w ts .finished (.ok (.finished s))
  | invalid {w' : Words F} : run (Words.take vsnprintf) w ts = .ok w' →
      Scans vsnprintf memory w ts .invalid (.ok (.error (-2)))
  | cutOff {w' : Words F} (e : FormatFault) : run (Words.take vsnprintf) w ts = .ok w' →
      Scans vsnprintf memory w ts .cutOff (.error e)
  | faults {stop : FormatStop} {e e' : FormatFault} :
      run (Words.take vsnprintf) w ts = .error e → Scans vsnprintf memory w ts stop (.error e')
  | starves {stop : FormatStop} (k : Nat) : memory k = false →
      Scans vsnprintf memory w ts stop (.ok (.error (-1)))

theorem Scans.cons {memory : Nat → Bool} {w w' : Words F} {v : Except FormatFault (FormatEnd F)}
    (htake : w.take vsnprintf t = .ok w') (h : Scans vsnprintf memory w' ts e v) :
    Scans vsnprintf memory w (t :: ts) e v := by
  have hrun (u : Except FormatFault (Words F)) (hu : run (Words.take vsnprintf) w' ts = u) :
      run (Words.take vsnprintf) w (t :: ts) = u := by
    rw [run_cons, htake]
    exact hu
  cases h with
  | finished hw hshows => exact .finished (hrun _ hw) hshows
  | invalid hw => exact .invalid (hrun _ hw)
  | cutOff e' hw => exact .cutOff e' (hrun _ hw)
  | faults hw => exact .faults (hrun _ hw)
  | starves k hk => exact .starves k hk

/-- The loop takes the tokens of the format one after the other. -/
theorem formatLoop_scans (memory : Nat → Bool) {s : FormatState F} {w : Words F}
    (htokens : Tokens c ts e) (hc : s.c = c) (h : Shows s w) (k : Nat) {fuel : Nat}
    (hfuel : c.length < fuel) :
    Scans vsnprintf memory w ts e
      (runLoop (attempt (formatTurn vsnprintf memory)) (fun _ => .error .pastEnd) fuel (k, s)) := by
  induction htokens generalizing s w k fuel with
  | @stop c e hnext =>
      obtain ⟨fuel, rfl⟩ := Nat.exists_eq_succ_of_ne_zero (Nat.ne_zero_of_lt hfuel)
      rw [← hc] at hnext
      have hstops := formatBody_stops vsnprintf hnext (memory k)
      rw [runLoop]
      generalize hbody : formatBody vsnprintf (memory k) s = v at hstops
      have hturn : formatTurn vsnprintf memory (k, s) =
          v.map (Sum.map (fun s' => (k + 1, s')) id) := by
        rw [← hbody]
        rfl
      cases hstops with
      | finished =>
          rw [attempt_stop hturn]
          exact .finished rfl h
      | invalid =>
          rw [attempt_stop hturn]
          exact .invalid rfl
      | cutOff e' =>
          rw [attempt_error hturn]
          exact .cutOff e' rfl
      | starves hmemory =>
          rw [attempt_stop hturn]
          exact .starves k hmemory
  | @token c c' t ts e hnext _ ih =>
      obtain ⟨fuel, rfl⟩ := Nat.exists_eq_succ_of_ne_zero (Nat.ne_zero_of_lt hfuel)
      have hless := nextToken_length hnext
      rw [← hc] at hnext
      have htakes := formatBody_takes vsnprintf h hnext (memory k)
      rw [runLoop]
      generalize hbody : formatBody vsnprintf (memory k) s = v at htakes
      have hturn : formatTurn vsnprintf memory (k, s) =
          v.map (Sum.map (fun s' => (k + 1, s')) id) := by
        rw [← hbody]
        rfl
      cases htakes with
      | goes htake hc' hshows =>
          rw [attempt_next hturn]
          exact (ih hc' hshows (k + 1) (by omega)).cons htake
      | @faults e₁ e₂ htake =>
          rw [attempt_error hturn]
          apply Scans.faults (e := e₁)
          rw [run_cons, htake]
          rfl
      | starves hmemory =>
          rw [attempt_stop hturn]
          exact .starves k hmemory

/-! ### The command -/

theorem wordsOf_eq (ts : List Token) :
    wordsOf ts = if (splitWords ts).1.isEmpty then (splitWords ts).2
      else (splitWords ts).1 :: (splitWords ts).2 :=
  rfl

theorem rendered_of_run {ap : List (VaArg F)} {w : Words F}
    (h : run (Words.take vsnprintf) { ap := ap } ts = .ok w) :
    renderWords vsnprintf ap (wordsOf ts) = .ok (w.argv ++ w.cur.toList, w.ap) := by
  have hrun := run_take vsnprintf ts { ap := ap }
  rw [h, renderFirst_none, ← wordsOf_eq] at hrun
  obtain ⟨v, hv, hsame⟩ := map_ok.mp hrun.symm
  rw [hv]
  exact congrArg Except.ok hsame

theorem run_of_rendered {ap ap' : List (VaArg F)} {argv : List (List Char)}
    (h : renderWords vsnprintf ap (wordsOf ts) = .ok (argv, ap')) :
    ∃ w, run (Words.take vsnprintf) { ap := ap } ts = .ok w ∧
      w.argv ++ w.cur.toList = argv ∧ w.ap = ap' := by
  have hrun := run_take vsnprintf ts { ap := ap }
  rw [renderFirst_none, ← wordsOf_eq, h] at hrun
  obtain ⟨w, hw, hsame⟩ := map_ok.mp hrun
  cases hsame
  exact ⟨w, hw, rfl, rfl⟩

theorem Shows.finish {s : FormatState F} {w : Words F} (h : Shows s w) :
    s.finish.argv = w.argv ++ w.cur.toList ∧
      toInt32 (s.finish.totlen + (1 + countDigits s.finish.argv.length + 2 : Nat)) =
        toInt32 (commandBytes (w.argv ++ w.cur.toList)).length := by
  have hargv : s.finish.argv = w.argv ++ w.cur.toList ∧
      s.finish.totlen =
        toInt32 ((w.argv ++ w.cur.toList).map fun arg => bulklen arg.length).sum := by
    unfold FormatState.finish
    split
    · rename_i htouched
      have hblank := h.blank htouched s.c
      exact ⟨hblank.argv, hblank.totlen⟩
    · rename_i htouched
      rw [h.touched, Option.isSome_iff_ne_none, ne_eq, not_not] at htouched
      rw [htouched, Option.toList_none, List.append_nil]
      exact ⟨h.argv, h.totlen⟩
  refine ⟨hargv.1, ?_⟩
  rw [hargv.1, hargv.2, length_commandBytes, Nat.add_comm (1 + countDigits _ + 2)]
  simp only [toInt32, Int.bmod_add_bmod, Nat.cast_add]

theorem shows_start (c : List Char) (ap : List (VaArg F)) :
    Shows { c := c, ap := ap } { ap := ap } :=
  ⟨rfl, rfl, rfl, rfl, (toInt32_of_lt (n := 0) (by decide) (by decide)).symm⟩

theorem cText_length (bytes : List Char) : (cText bytes).length ≤ bytes.length :=
  (List.takeWhile_prefix _).length_le

/-- What `redisvFormatCommand` does with the tokens of its format. -/
theorem redisvFormatCommand_scans (memory : Nat → Bool) {format : List Char}
    (htokens : Tokens (cText format) ts e) (ap : List (VaArg F)) :
    (∃ v, Scans vsnprintf memory { ap := ap } ts e v ∧
      redisvFormatCommand vsnprintf memory format ap = v.bind fun
        | .error code => .ok (.error code)
        | .finished s =>
            if s.touched ∧ ¬memory (format.length + 2) then .ok (.error (-1))
            else buildCommand (memory (format.length + 3)) s.finish.argv
              (toInt32 (s.finish.totlen + (1 + countDigits s.finish.argv.length + 2 : Nat)))) ∨
    (memory 0 = false ∧ redisvFormatCommand vsnprintf memory format ap = .ok (.error (-1))) := by
  unfold redisvFormatCommand
  by_cases hmemory : memory 0 = true
  · left
    have hfuel : (cText format).length < format.length + 1 :=
      Nat.lt_succ_of_le (cText_length format)
    rw [if_pos hmemory]
    exact ⟨_, formatLoop_scans memory htokens rfl (shows_start _ ap) 1 hfuel, rfl⟩
  · right
    rw [if_neg hmemory]
    exact ⟨Bool.eq_false_iff.mpr hmemory, rfl⟩

/-- A command that is returned has the words of the format, each argument inside
one word, whatever the memory does. -/
theorem command_of_format {memory : Nat → Bool} {format : List Char} {ap : List (VaArg F)}
    {cmd : List Char} {len : Int}
    (h : redisvFormatCommand vsnprintf memory format ap = .ok (.command cmd len)) :
    ∃ ts argv ap', Tokens (cText format) ts .finished ∧
      renderWords vsnprintf ap (wordsOf ts) = .ok (argv, ap') ∧
      cmd = commandBytes argv ∧ len = cmd.length ∧ cmd.length + 1 < 2 ^ 31 := by
  obtain ⟨ts, e, htokens⟩ := tokens_exist (cText format)
  rcases redisvFormatCommand_scans memory htokens ap with ⟨v, hscans, hv⟩ | ⟨_, hv⟩
  · rw [hv] at h
    cases hscans with
    | @finished w s hw hshows =>
        rw [Except.bind] at h
        dsimp only at h
        split at h
        · cases h
        · rw [hshows.finish.1] at h
          obtain ⟨hcmd, hlen, hsmall⟩ := buildCommand_ok h
          exact ⟨ts, _, _, htokens, rendered_of_run hw, hcmd, hlen, hsmall⟩
    | invalid => cases h
    | cutOff => cases h
    | faults => cases h
    | starves => cases h
  · cases hv.symm.trans h

/-- An error is `-1` or `-2`. -/
theorem error_of_format {memory : Nat → Bool} {format : List Char} {ap : List (VaArg F)}
    {code : Int} (h : redisvFormatCommand vsnprintf memory format ap = .ok (.error code)) :
    code = -1 ∨ code = -2 := by
  obtain ⟨ts, e, htokens⟩ := tokens_exist (cText format)
  rcases redisvFormatCommand_scans memory htokens ap with ⟨v, hscans, hv⟩ | ⟨_, hv⟩
  · rw [hv] at h
    cases hscans with
    | finished =>
        rw [Except.bind] at h
        dsimp only at h
        split at h
        · cases h
          exact .inl rfl
        · exact .inl (buildCommand_error h)
    | invalid =>
        cases h
        exact .inr rfl
    | cutOff => cases h
    | faults => cases h
    | starves =>
        cases h
        exact .inl rfl
  · cases hv.symm.trans h
    exact .inl rfl

theorem finished_of_rendered {format : List Char} {ap ap' : List (VaArg F)}
    {argv : List (List Char)} (htokens : Tokens (cText format) ts .finished)
    (hrender : renderWords vsnprintf ap (wordsOf ts) = .ok (argv, ap')) :
    redisvFormatCommand vsnprintf (fun _ => true) format ap =
      buildCommand true argv (toInt32 (commandBytes argv).length) := by
  obtain ⟨w, hw, hargv, _⟩ := run_of_rendered hrender
  rcases redisvFormatCommand_scans (fun _ => true) htokens ap with ⟨v, hscans, hv⟩ | ⟨hnone, _⟩
  · cases hscans with
    | @finished w' s hw' hshows =>
        cases hw.symm.trans hw'
        rw [hv, Except.bind]
        dsimp only
        rw [if_neg (by simp), hshows.finish.2, hshows.finish.1, hargv]
    | faults hfault => cases hw.symm.trans hfault
    | starves k hk => cases hk
  · cases hnone

/-- With memory, the commands that are returned are those of the words of the
format that fit into an `int`. -/
theorem redisvFormatCommand_iff (format : List Char) (ap : List (VaArg F)) (cmd : List Char)
    (len : Int) :
    redisvFormatCommand vsnprintf (fun _ => true) format ap = .ok (.command cmd len) ↔
      ∃ ts argv ap', Tokens (cText format) ts .finished ∧
        renderWords vsnprintf ap (wordsOf ts) = .ok (argv, ap') ∧
        cmd = commandBytes argv ∧ len = cmd.length ∧ cmd.length + 1 < 2 ^ 31 := by
  constructor
  · exact command_of_format
  · rintro ⟨ts, argv, ap', htokens, hrender, rfl, rfl, hsmall⟩
    rw [finished_of_rendered htokens hrender, buildCommand_of_small hsmall, if_pos rfl]

/-- With memory, a format with an unknown conversion is refused with `-2`, and a
command between two and four gigabytes with `-1`. -/
theorem redisvFormatCommand_refuses {format : List Char} {ap : List (VaArg F)} :
    (∀ w, Tokens (cText format) ts .invalid → run (Words.take vsnprintf) { ap := ap } ts = .ok w →
      redisvFormatCommand vsnprintf (fun _ => true) format ap = .ok (.error (-2))) ∧
    (∀ argv ap', Tokens (cText format) ts .finished →
      renderWords vsnprintf ap (wordsOf ts) = .ok (argv, ap') →
      2 ^ 31 ≤ (commandBytes argv).length + 1 → (commandBytes argv).length + 1 < 2 ^ 32 →
      redisvFormatCommand vsnprintf (fun _ => true) format ap = .ok (.error (-1))) := by
  constructor
  · intro w htokens hw
    rcases redisvFormatCommand_scans (fun _ => true) htokens ap with ⟨v, hscans, hv⟩ | ⟨hnone, _⟩
    · cases hscans with
      | invalid => exact hv
      | faults hfault => cases hw.symm.trans hfault
      | starves k hk => cases hk
    · cases hnone
  · intro argv ap' htokens hrender hlow hhigh
    rw [finished_of_rendered htokens hrender, buildCommand_of_large hlow hhigh]

/-- There is no conversion `%y`, whatever is in front of it. -/
theorem redisvFormatCommand_refuses_y :
    redisvFormatCommand (F := Unit) (fun _ _ => []) (fun _ => true)
        ['G', ' ', '%', 's', '%', 'b', '%', 'y'] [.pointer ['k'], .pointer ['a', '\x00'], .size 2] =
      .ok (.error (-2)) :=
  redisvFormatCommand_refuses.1 _
    (.token rfl (.token rfl (.token rfl (.token rfl (.stop rfl))))) rfl

/-- A formatted command, read in any pieces, gives back the words of its format:
as many as the format alone has. -/
theorem format_reads_back {memory : Nat → Bool} {format : List Char} {ap : List (VaArg F)}
    {cmd : List Char} {len : Int} {calls : List ReaderCall} {s : ReaderSession}
    (hformat : redisvFormatCommand vsnprintf memory format ap = .ok (.command cmd len))
    (hoffered : ReaderSession.offered calls = cmd)
    (hrun : run ReaderSession.step {} calls = .ok s) (hdrained : s.drained = true)
    (hmemory : s.reader.err ≠ some .oom) :
    ∃ ts argv ap', Tokens (cText format) ts .finished ∧
      renderWords vsnprintf ap (wordsOf ts) = .ok (argv, ap') ∧
      argv.length = (wordsOf ts).length ∧
      s.replies = [(arrayOf (argv.map bulkReply)).built] ∧ s.reader.err = none := by
  obtain ⟨ts, argv, ap', htokens, hrender, rfl, _, hsmall⟩ := command_of_format hformat
  have hbuffers : Throughout ReaderSession.step ReaderSession.Small {} calls := by
    apply ReaderSession.throughout_small ReaderSession.alive_start
    rw [hoffered]
    show 0 + (commandBytes argv).length < 2 ^ 31
    omega
  have hparts : List.Forall₂ (Denoting maxDepth) [commandBytes argv]
      [arrayOf (argv.map bulkReply)] := by
    rw [commandBytes_eq_encode]
    exact .cons (denoting_encode (command_sendable (by omega))) .nil
  obtain ⟨hreplies, herr⟩ := ReaderSession.replies_of_parts hrun hbuffers hdrained hmemory hparts
    (hoffered.trans (List.append_nil _).symm)
  exact ⟨ts, argv, ap', htokens, hrender, renderWords_length hrender, hreplies, herr⟩

/-- An argument with a blank, and one with a NUL and a `%`. -/
def setArguments : List (VaArg Unit) :=
  [.pointer ['a', ' ', 'b'], .pointer ['\x00', '%', 's'], .size 3]

/-- The command in two pieces. -/
def setCalls : List ReaderCall :=
  [.feed ((commandBytes [['S', 'E', 'T'], ['a', ' ', 'b'], ['\x00', '%', 's']]).take 17) {},
    .getReply fun _ => true,
    .feed ((commandBytes [['S', 'E', 'T'], ['a', ' ', 'b'], ['\x00', '%', 's']]).drop 17) {},
    .getReply fun _ => true, .getReply fun _ => true]

theorem format_reads_back_of_set :
    ∃ ts argv ap, Tokens (cText ['S', 'E', 'T', ' ', '%', 's', ' ', '%', 'b']) ts .finished ∧
      renderWords (fun _ _ => []) setArguments (wordsOf ts) = .ok (argv, ap) ∧
      argv.length = (wordsOf ts).length ∧
      (ReaderSession.ended setCalls).replies = [(arrayOf (argv.map bulkReply)).built] ∧
      (ReaderSession.ended setCalls).reader.err = none := by
  have hformat : redisvFormatCommand (fun _ _ => []) (fun _ => true)
      ['S', 'E', 'T', ' ', '%', 's', ' ', '%', 'b'] setArguments =
        .ok (.command (ReaderSession.offered setCalls) 31) := by
    decide +kernel
  exact format_reads_back hformat rfl rfl rfl nofun

end CloRedis
