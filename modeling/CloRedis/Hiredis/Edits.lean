import CloRedis.Hiredis.Strings
import CloRedis.Hiredis.Delivery

/-!
Runs of operations on one string. What its users see is a list of bytes, on
which every operation is a function; one that gets no memory returns `NULL` and
leaves the string to its user as it was.
-/

namespace CloRedis

open Library

/-- What is done to a string. `incr` adds bytes that the caller wrote behind the
text, as the comment above `sdsIncrLen` shows, and `decr` takes bytes away. -/
inductive SdsEdit where
  | catlen (t : List Char)
  | cpylen (t : List Char)
  | growzero (len : Nat)
  | makeRoomFor (addlen : Nat)
  | removeFreeSpace
  | incr (room : Nat) (t : List Char)
  | decr (k : Nat)
  | clear
  | range (start stop : Int)
  | trim (cset : List Char)
  | updatelen

namespace SdsEdit

/-- `sdsMakeRoomFor`, the bytes, and `sdsIncrLen`. -/
def readInto (m : Allocation) (s : Sds) (room : Nat) (t : List Char) :
    Except SdsFault (Option Sds) := do
  match ← Sds.sdsMakeRoomFor m s room with
  | none => .ok none
  | some s => do
      let s ← s.store s.len t
      let s ← s.sdsIncrLen t.length
      .ok (some s)

def call (m : Allocation) (s : Sds) : SdsEdit → Except SdsFault (Option Sds)
  | catlen t => Sds.sdscatlen m s t
  | cpylen t => Sds.sdscpylen m s t
  | growzero len => Sds.sdsgrowzero m s len
  | makeRoomFor addlen => Sds.sdsMakeRoomFor m s addlen
  | removeFreeSpace => Sds.sdsRemoveFreeSpace m s
  | incr room t => readInto m s room t
  | decr k => (s.sdsIncrLen (-k)).map some
  | clear => s.sdsclear.map some
  | range start stop => (s.sdsrange start stop).map some
  | trim cset => (s.sdstrim cset).map some
  | updatelen => s.sdsupdatelen.map some

/-- A user that gets `NULL` has the string it had. -/
def step (s : Sds) (op : Allocation × SdsEdit) : Except SdsFault Sds :=
  (op.2.call op.1 s).map fun s' => s'.getD s

/-! ### On the bytes -/

def apply (text : List Char) : SdsEdit → List Char
  | catlen t => text ++ t
  | cpylen t => t
  | growzero len => text ++ List.replicate (len - text.length) '\x00'
  | makeRoomFor _ => text
  | removeFreeSpace => text
  | incr _ t => text ++ t
  | decr k => text.take (text.length - k)
  | clear => []
  | range start stop => sdsrange text start stop
  | trim cset => strip (Sds.inCset cset) text
  | updatelen => cText text

/-- How many bytes there have to be room for. -/
def added : SdsEdit → Nat
  | catlen t => t.length
  | cpylen t => t.length
  | growzero len => len
  | makeRoomFor addlen => addlen
  | incr room t => max room t.length
  | _ => 0

/-- A value of type `int`. -/
def IsInt (n : Int) : Prop := -2 ^ 31 ≤ n ∧ n < 2 ^ 31

/-- The end of a range, counted from the front in `int`. -/
def rangeStop (text : List Char) (stop : Int) : Int :=
  if stop < 0 then toInt32 (text.length + stop) else stop

/-- What the callers keep to. `sdsIncrLen` and `sdsrange` take arguments of type
`int`; `sdsrange` counts in `int` to the place behind its end, and `sdsupdatelen`
to the end of the text. -/
def Admits (text : List Char) : SdsEdit → Prop
  | incr room t => 0 < room ∧ t.length ≤ room ∧ room < 2 ^ 62 ∧ t.length < 2 ^ 31
  | decr k => 0 < k ∧ k ≤ text.length ∧ k < 2 ^ 31
  | range start stop => IsInt start ∧ IsInt stop ∧ IsInt (rangeStop text stop + 1)
  | updatelen => (cText text).length < 2 ^ 31
  | op => op.added < 2 ^ 62

/-- What a user sees of an operation: its result, or `NULL` when there was no
memory or the string would have been too large. -/
inductive Effect : List Char → Allocation × SdsEdit → List Char → Prop where
  | done (text : List Char) (m : Allocation) (op : SdsEdit) : Effect text (m, op) (op.apply text)
  | null (text : List Char) (m : Allocation) (op : SdsEdit) :
      m.granted = false ∨ 2 ^ 62 ≤ text.length + op.added + sdsMaxPrealloc →
      Effect text (m, op) text

/-! ### Steps and runs -/

section Steps

variable {s : Sds} {m : Allocation} {op : SdsEdit}

/-- An operation in the block. -/
theorem returns_of_shows {size : Nat} {v : Except SdsFault Sds} {P : Sds → Prop}
    (hshows : ∃ s', v = .ok s' ∧ P s') : Sds.Returns m size P (v.map some) := by
  obtain ⟨s', rfl, hs'⟩ := hshows
  exact .string hs'

/-- What an operation returns is what becomes of the string. -/
theorem step_of_returns (h : s.Valid)
    (hreturns : Sds.Returns m (s.text.length + op.added + sdsMaxPrealloc)
      (fun s' => s'.Shows (op.apply s.text)) (op.call m s)) :
    ∃ s', step s (m, op) = .ok s' ∧ s'.Valid ∧ Effect s.text (m, op) s'.text := by
  unfold step
  dsimp only
  generalize hcall : op.call m s = v at hreturns
  cases hreturns with
  | @string s' hshows =>
      refine ⟨s', rfl, hshows.1, ?_⟩
      rw [hshows.2]
      exact .done s.text m op
  | null hnone => exact ⟨s, rfl, h, .null s.text m op hnone⟩

/-- `sdsMakeRoomFor`, the bytes, and `sdsIncrLen` append the bytes. -/
theorem readInto_shows (h : s.Valid) {room : Nat} {t : List Char} (hpos : 0 < room)
    (ht : t.length ≤ room) (hroom : room < 2 ^ 62) (hint : t.length < 2 ^ 31) :
    Sds.Returns m (s.len + room + sdsMaxPrealloc) (fun s' => s'.Shows (s.text ++ t))
      (readInto m s room t) := by
  have hmade := h.sdsMakeRoomFor (m := m) hroom
  unfold readInto
  generalize Sds.sdsMakeRoomFor m s room = v at hmade
  cases hmade with
  | null hnone => exact .null hnone
  | @string s₁ hmoved =>
      have hmoved := hmoved.1
      have hle := h.le_roomFor room
      have hvalid := hmoved.valid
      have hfits : (s₁.text ++ t).length ≤ s₁.sdsalloc := hmoved.fits (by omega)
      have hfield : s₁.type ≠ .type5 := by
        intro h5
        have hcapacity := hmoved.capacity
        have hsame := hmoved.len
        rw [Sds.sdsalloc_type5 h5] at hcapacity
        omega
      obtain ⟨s₂, hstore, hincr⟩ := bind_ok.mp (hvalid.sdsIncrLen_forth hfits hfield hint)
      rw [ok_do]
      dsimp only
      rw [hstore, ok_do, hincr, ← hmoved.text]
      exact .string (hvalid.shows_ending hfits)

theorem range_returns (h : s.Valid) (start stop : Int) (size : Nat) :
    Sds.Returns m size (fun s' => s'.Shows ((range start stop).apply s.text))
      ((range start stop).call m s) := by
  obtain ⟨s', hrange, hshows, _⟩ := h.sdsrange start stop
  exact returns_of_shows ⟨s', hrange, hshows⟩

/-- Every operation that returns a string keeps it valid and does to its text
what it does to the bytes. -/
theorem call_returns (h : s.Valid) (hop : op.Admits s.text) :
    Sds.Returns m (s.text.length + op.added + sdsMaxPrealloc)
      (fun s' => s'.Shows (op.apply s.text)) (op.call m s) := by
  have hlen := h.length_text
  have hroom := h.len_le
  cases op with
  | catlen t =>
      have hcat := h.sdscatlen (m := m) hop
      refine hcat.mono ?_ fun _ hs => hs.1
      rw [hlen]
      exact Nat.le_refl _
  | cpylen t =>
      refine (h.sdscpylen hop).mono ?_ fun _ hs => hs
      rw [Nat.add_assoc]
      exact Nat.le_add_left _ _
  | growzero len =>
      have hreturns := h.sdsgrowzero (m := m) hop
      rw [← hlen] at hreturns
      exact hreturns
  | makeRoomFor addlen =>
      have hmade := h.sdsMakeRoomFor (m := m) hop
      refine hmade.mono (by rw [hlen]) fun s' hmoved => ?_
      exact ⟨hmoved.1.valid, hmoved.1.text⟩
  | removeFreeSpace =>
      have hmade := h.sdsRemoveFreeSpace (m := m)
      refine hmade.mono ?_ fun s' hmoved => ?_
      · rw [hlen, Nat.add_assoc]
        exact Nat.le_add_right _ _
      · exact ⟨hmoved.valid, hmoved.text⟩
  | incr room t =>
      obtain ⟨hpos, ht, hsmall, hint⟩ := hop
      have hshows := readInto_shows (m := m) h hpos ht hsmall hint
      rw [hlen, added, max_eq_left ht]
      exact hshows
  | decr k =>
      obtain ⟨hpos, hle, hint⟩ := hop
      rw [hlen] at hle
      refine returns_of_shows ⟨_, h.sdsIncrLen_back hpos hle hint, ?_⟩
      rw [apply, hlen]
      apply h.shows_ending
      rw [List.length_take]
      omega
  | clear => exact returns_of_shows ⟨_, h.sdsclear, h.shows_ending (Nat.zero_le _)⟩
  | range start stop => exact range_returns h start stop _
  | trim cset =>
      obtain ⟨s', htrim, hshows, _⟩ := h.sdstrim cset
      exact returns_of_shows ⟨s', htrim, hshows⟩
  | updatelen => exact returns_of_shows (h.sdsupdatelen hop)

theorem step_shows (h : s.Valid) (hop : op.Admits s.text) :
    ∃ s', step s (m, op) = .ok s' ∧ s'.Valid ∧ Effect s.text (m, op) s'.text :=
  step_of_returns h (call_returns h hop)

/-- In any run of operations nothing is read or written outside the block, no
assertion fails and the string stays valid. What its user sees is what the
operations do to the bytes, but for those that returned `NULL`. -/
theorem run_shows {ops : List (Allocation × SdsEdit)} (h : s.Valid)
    (hadmits : Along step (fun s op => op.2.Admits s.text) s ops) :
    ∃ s', run step s ops = .ok s' ∧ s'.Valid ∧ Steps Effect s.text ops s'.text :=
  run_follows (A := Sds.text) (fun _ _ hs hop => step_shows hs hop) h hadmits

/-- What `sdsempty` makes. -/
def emptySds : Sds := ⟨.type8, 0, 0, ['\x00']⟩

theorem emptySds_valid : emptySds.Valid :=
  (Sds.shows_new .type8 [] (by decide) (by decide)).1

/-- Bytes are appended, more do not fit without memory, more are read into
room that there is, and the ends go. -/
def refusedEdits : List (Allocation × SdsEdit) :=
  [({}, catlen "ab ".toList), ({ granted := false }, catlen "cdefg".toList),
    ({}, incr 8 "hi ".toList), ({}, range 1 (-1)), ({}, trim " ".toList), ({}, decr 1)]

theorem refusedEdits_admitted :
    Along step (fun s op => op.2.Admits s.text) emptySds refusedEdits := by
  apply along_cons rfl (by show 3 < 2 ^ 62; decide)
  apply along_cons rfl (by show 5 < 2 ^ 62; decide)
  apply along_cons rfl ⟨by decide, by decide, by decide, by decide⟩
  apply along_cons rfl
    ⟨by constructor <;> decide, by constructor <;> decide, by constructor <;> decide⟩
  apply along_cons rfl (by show 0 < 2 ^ 62; decide)
  apply along_cons rfl ⟨by decide, by decide, by decide⟩
  exact along_nil _ _ _

theorem run_shows_of_refused :
    ∃ s', run step emptySds refusedEdits = .ok s' ∧ s'.Valid ∧ s'.text = "b h".toList ∧
      Steps Effect [] refusedEdits s'.text := by
  obtain ⟨s', hrun, htext⟩ : ∃ s', run step emptySds refusedEdits = .ok s' ∧
      s'.text = "b h".toList := ⟨_, rfl, rfl⟩
  obtain ⟨s'', hrun', hvalid, hsteps⟩ := run_shows emptySds_valid refusedEdits_admitted
  cases hrun.symm.trans hrun'
  exact ⟨s', hrun, hvalid, htext, hsteps⟩

/-! ### Runs with memory -/

theorem apply_length (text : List Char) (op : SdsEdit) :
    (op.apply text).length ≤ text.length + op.added := by
  cases op with
  | catlen t => exact (List.length_append).le
  | cpylen t => exact Nat.le_add_left _ _
  | growzero len =>
      rw [apply, List.length_append, List.length_replicate, added]
      omega
  | makeRoomFor addlen => exact Nat.le_add_right _ _
  | removeFreeSpace => exact Nat.le_refl _
  | incr room t =>
      rw [apply, List.length_append]
      exact Nat.add_le_add_left (le_max_right _ _) _
  | decr k => exact (List.take_sublist _ _).length_le
  | clear => exact Nat.zero_le _
  | range start stop => exact sdsrange_length text start stop
  | trim cset =>
      have hfront := (List.dropWhile_sublist (Sds.inCset cset) (l := text)).length_le
      exact (List.rdropWhile_prefix _ _).length_le.trans hfront
  | updatelen => exact (List.takeWhile_sublist _).length_le

/-- With memory an operation returns a string. -/
theorem call_of_memory (h : s.Valid) (hop : op.Admits s.text) (hgranted : m.granted = true)
    (hsmall : s.text.length + op.added + sdsMaxPrealloc < 2 ^ 62) :
    ∃ s', op.call m s = .ok (some s') ∧ s'.Shows (op.apply s.text) := by
  have hreturns := call_returns (m := m) h hop
  generalize op.call m s = v at hreturns
  cases hreturns with
  | @string s' hshows => exact ⟨s', rfl, hshows⟩
  | null hnone =>
      rcases hnone with hnone | hlarge
      · exact absurd (hnone.symm.trans hgranted) Bool.false_ne_true
      · exact absurd hsmall (not_lt.mpr hlarge)

/-- With memory for what is added, every operation returns a string and none
`NULL`, and the text is what they make of the bytes. -/
theorem run_text {ops : List (Allocation × SdsEdit)} (h : s.Valid)
    (hadmits : Along step (fun s op => op.2.Admits s.text) s ops)
    (hgranted : ∀ op ∈ ops, op.1.granted = true)
    (hsmall : s.text.length + (ops.map fun op => op.2.added).sum + sdsMaxPrealloc < 2 ^ 62) :
    (∃ s', run step s ops = .ok s' ∧ s'.Valid ∧
      s'.text = (ops.map Prod.snd).foldl apply s.text) ∧
    Along step (fun s op => ∃ s', op.2.call op.1 s = .ok (some s')) s ops := by
  induction ops generalizing s with
  | nil => exact ⟨⟨s, rfl, h, rfl⟩, along_nil _ _ _⟩
  | cons op ops ih =>
      rw [List.map_cons, List.sum_cons] at hsmall
      obtain ⟨s₁, hcall, hvalid, htext⟩ := call_of_memory h hadmits.1
        (hgranted op (List.mem_cons_self ..)) (by omega)
      have hstep : step s op = .ok s₁ := by
        rw [step, hcall]
        rfl
      have hlength := apply_length s.text op.2
      rw [← htext] at hlength
      obtain ⟨⟨s', hrun, hvalid', htext'⟩, hstrings⟩ := ih hvalid (hadmits.2 s₁ hstep)
        (fun op hop => hgranted op (List.mem_cons_of_mem _ hop)) (by omega)
      rw [htext] at htext'
      exact ⟨⟨s', run_cons_ok.mpr ⟨s₁, hstep, hrun⟩, hvalid', htext'⟩,
        along_cons hstep ⟨s₁, hcall⟩ hstrings⟩

/-- The same with memory for the second one. -/
def grantedEdits : List (Allocation × SdsEdit) :=
  [({}, catlen "ab ".toList), ({}, catlen "cdefg".toList), ({}, trim "ag".toList), ({}, decr 1)]

theorem run_text_of_granted :
    (∃ s', run step emptySds grantedEdits = .ok s' ∧ s'.Valid ∧ s'.text = "b cde".toList) ∧
    Along step (fun s op => ∃ s', op.2.call op.1 s = .ok (some s')) emptySds grantedEdits := by
  have hadmits : Along step (fun s op => op.2.Admits s.text) emptySds grantedEdits := by
    apply along_cons rfl (by show 3 < 2 ^ 62; decide)
    apply along_cons rfl (by show 5 < 2 ^ 62; decide)
    apply along_cons rfl (by show 0 < 2 ^ 62; decide)
    apply along_cons rfl ⟨by decide, by decide, by decide⟩
    exact along_nil _ _ _
  exact run_text emptySds_valid hadmits (by decide) (by decide)

end Steps

end SdsEdit

end CloRedis
