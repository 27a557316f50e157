import CloRedis.Hiredis.Sds
import CloRedis.Library.Run
import CloRedis.Library.Text

/-!
What the functions of `sds.c` do to the text of a string. A valid string has a
length and a capacity that fit into its header, and a block with room for the
capacity and a terminator; the functions keep it valid and touch nothing
outside the block.
-/

namespace CloRedis

open Library

/-! ### Sizes -/

theorem toSize_of_lt {n : Int} (hlow : 0 ≤ n) (hhigh : n < 2 ^ 64) : toSize n = n.toNat := by
  rw [toSize, Int.emod_eq_of_lt hlow hhigh]

theorem toInt32_le {n : Int} (h : 0 ≤ n) : toInt32 n ≤ n := by
  unfold toInt32 Int.bmod
  dsimp only
  split_ifs <;> omega

theorem sdsReqType_limit {n : Nat} (h : n < 2 ^ 64) : n < (sdsReqType n).limit := by
  unfold sdsReqType
  split_ifs <;> simp only [SdsType.limit] <;> omega

theorem sdsHdrSize_le (type : SdsType) : sdsHdrSize type ≤ 17 := by
  cases type <;> decide

/-! ### Blocks -/

variable {cells bytes : List Char} {pos len : Nat}

theorem readAt_of_le (h : pos + len ≤ cells.length) :
    readAt cells pos len = .ok ((cells.drop pos).take len) :=
  if_pos h

/-- Bytes written behind a part of the block. -/
theorem writeAt_behind (front : List Char) (hroom : (front ++ bytes).length ≤ cells.length) :
    writeAt (front ++ cells.drop front.length) front.length bytes =
      .ok (front ++ bytes ++ cells.drop (front ++ bytes).length) := by
  rw [List.length_append] at hroom
  have hfits : front.length + bytes.length ≤ (front ++ cells.drop front.length).length := by
    rw [List.length_append, List.length_drop]
    omega
  rw [writeAt, if_pos hfits, List.take_left, ← List.drop_drop, List.drop_left, List.drop_drop,
    List.length_append]

theorem writeAt_front (hroom : bytes.length ≤ cells.length) :
    writeAt cells 0 bytes = .ok (bytes ++ cells.drop bytes.length) :=
  writeAt_behind [] hroom

namespace Sds

/-! ### Valid strings -/

structure Valid (s : Sds) : Prop where
  len : s.len < s.type.limit
  alloc : s.type ≠ .type5 → s.len ≤ s.alloc ∧ s.alloc < s.type.limit
  room : s.sdsalloc + 1 ≤ s.cells.length
  block : s.cells.length < 2 ^ 63
  nul : s.cells[s.len]? = some '\x00'

/-- The bytes of the string. -/
def text (s : Sds) : List Char := s.cells.take s.len

variable {s s' : Sds} {t : List Char} {m : Allocation}

theorem sdsalloc_type5 (h5 : s.type = .type5) : s.sdsalloc = s.len := by
  rw [sdsalloc, h5]

theorem sdsalloc_field (hfield : s.type ≠ .type5) : s.sdsalloc = s.alloc := by
  unfold sdsalloc
  split
  · rename_i h5
    exact absurd h5 hfield
  · rfl

theorem Valid.len_le (h : s.Valid) : s.len ≤ s.sdsalloc := by
  rcases eq_or_ne s.type .type5 with h5 | hfield
  · exact (sdsalloc_type5 h5).ge
  · rw [sdsalloc_field hfield]
    exact (h.alloc hfield).1

theorem Valid.sdsalloc_lt (h : s.Valid) : s.sdsalloc < s.type.limit := by
  rcases eq_or_ne s.type .type5 with h5 | hfield
  · rw [sdsalloc_type5 h5]
    exact h.len
  · rw [sdsalloc_field hfield]
    exact (h.alloc hfield).2

theorem Valid.length_text (h : s.Valid) : s.text.length = s.len := by
  have hlen := h.len_le
  have hroom := h.room
  exact List.length_take_of_le (by omega)

theorem limit_le (type : SdsType) : type.limit ≤ 2 ^ 64 := by
  cases type <;> decide

/-- The free space is what is between the length and the capacity. -/
theorem Valid.sdsavail_eq (h : s.Valid) : s.sdsavail = s.sdsalloc - s.len := by
  have hlimit := limit_le s.type
  unfold sdsavail sdsalloc
  cases htype : s.type with
  | type5 => exact (Nat.sub_self _).symm
  | type32 =>
      obtain ⟨hle, hlt⟩ := h.alloc (by rw [htype]; nofun)
      rw [htype] at hlt
      simp only [SdsType.limit] at hlt
      show (((s.alloc : Int) - s.len) % 2 ^ 32).toNat = s.alloc - s.len
      omega
  | _ =>
      obtain ⟨hle, hlt⟩ := h.alloc (by rw [htype]; nofun)
      show toSize ((s.alloc : Int) - s.len) = s.alloc - s.len
      rw [toSize]
      omega

/-- The string that ends behind a text at the front of the block. -/
def ending (s : Sds) (text : List Char) : Sds :=
  { s with len := text.length, cells := text ++ '\x00' :: s.cells.drop (text.length + 1) }

theorem text_ending (s : Sds) (t : List Char) : (s.ending t).text = t := List.take_left

theorem Valid.ending (h : s.Valid) (hfits : t.length ≤ s.sdsalloc) : (s.ending t).Valid := by
  have hroom := h.room
  have hlt := h.sdsalloc_lt
  have hlength : (s.ending t).cells.length = s.cells.length := by
    simp only [Sds.ending, List.length_append, List.length_cons, List.length_drop]
    omega
  refine ⟨lt_of_le_of_lt hfits hlt, ?_, ?_, ?_, ?_⟩
  · intro hfield
    rw [sdsalloc_field (s := s) hfield] at hfits
    exact ⟨hfits, (h.alloc hfield).2⟩
  · rw [hlength]
    refine le_trans (Nat.succ_le_succ ?_) hroom
    rcases eq_or_ne s.type .type5 with h5 | hfield
    · rw [sdsalloc_type5 (s := s.ending t) h5]
      exact hfits
    · rw [sdsalloc_field (s := s.ending t) hfield, sdsalloc_field hfield]
      exact Nat.le_refl _
  · rw [hlength]
    exact h.block
  · simp only [Sds.ending, List.getElem?_append_right (Nat.le_refl _), Nat.sub_self,
      List.getElem?_cons_zero]

/-! ### Writing -/

/-- A terminator behind what was written. -/
theorem terminate (s : Sds) (front : List Char) (hroom : front.length < s.cells.length)
    (len : Nat) :
    ({ s with len := len, cells := front ++ s.cells.drop front.length } : Sds).store front.length
        ['\x00'] =
      .ok { s with len := len, cells := front ++ '\x00' :: s.cells.drop (front.length + 1) } := by
  have hwrite : writeAt (front ++ s.cells.drop front.length) front.length ['\x00'] =
      .ok (front ++ ['\x00'] ++ s.cells.drop (front ++ ['\x00']).length) := by
    apply writeAt_behind
    rw [List.length_append]
    exact hroom
  rw [store, hwrite, List.length_append, List.append_assoc]
  rfl

/-- Bytes behind the text. -/
theorem Valid.store_behind (h : s.Valid) (hroom : (s.text ++ t).length ≤ s.cells.length) :
    s.store s.len t = .ok { s with cells := s.text ++ t ++ s.cells.drop (s.text ++ t).length } := by
  have hsplit : s.cells = s.text ++ s.cells.drop s.text.length := by
    rw [h.length_text]
    exact (List.take_append_drop _ _).symm
  have hwrite := writeAt_behind s.text hroom
  rw [← hsplit, h.length_text] at hwrite
  rw [store, hwrite]
  rfl

theorem store_front (s : Sds) (hroom : t.length ≤ s.cells.length) :
    s.store 0 t = .ok { s with cells := t ++ s.cells.drop t.length } := by
  rw [store, writeAt_front hroom]
  rfl

theorem sdssetlen_of_lt {n : Nat} (h : n < s.type.limit) : s.sdssetlen n = { s with len := n } := by
  rw [sdssetlen, Nat.mod_eq_of_lt h]

theorem Valid.sdssetlen (h : s.Valid) {n : Nat} (hfits : n ≤ s.sdsalloc) (cells : List Char) :
    ({ s with cells := cells } : Sds).sdssetlen n = { s with len := n, cells := cells } :=
  sdssetlen_of_lt (lt_of_le_of_lt hfits h.sdsalloc_lt)

theorem Valid.sdsclear (h : s.Valid) : s.sdsclear = .ok (s.ending []) := by
  have hroom := h.room
  have hzero : 0 < s.type.limit := Nat.zero_lt_of_lt h.len
  rw [Sds.sdsclear, sdssetlen_of_lt hzero]
  exact terminate s [] (by show 0 < _; omega) 0

/-- The bytes from a position on are kept. -/
theorem Valid.keep (h : s.Valid) {pos n : Nat} (hfits : n = 0 ∨ pos + n ≤ s.len) :
    s.keep pos n = .ok (s.ending ((s.text.drop pos).take n)) := by
  have hlen := h.len_le
  have hroom := h.room
  have hlt : n < s.type.limit := by
    have := h.len
    omega
  have hkept : (s.text.drop pos).take n = (s.cells.drop pos).take n := by
    rcases hfits with rfl | hfits
    · rw [List.take_zero, List.take_zero]
    · rw [text, List.drop_take, List.take_take, Nat.min_eq_left (by omega)]
  have hlength : ((s.cells.drop pos).take n).length = n := by
    rw [List.length_take, List.length_drop]
    omega
  rw [hkept]
  generalize hbytes : (s.cells.drop pos).take n = bytes at hlength
  have hmoved : s.moveFront pos n = .ok { s with cells := bytes ++ s.cells.drop bytes.length } := by
    unfold moveFront
    split_ifs with hmove
    · rw [readAt_of_le (by omega), hbytes, ok_do]
      exact store_front s (by omega)
    · have hsame : bytes ++ s.cells.drop bytes.length = s.cells := by
        rw [hlength]
        rcases Nat.eq_zero_or_pos n with rfl | hn
        · rw [List.length_eq_zero_iff.mp hlength]
          rfl
        · have hpos : pos = 0 := by
            by_contra hne
            exact hmove ⟨hne, by omega⟩
          rw [← hbytes, hpos]
          exact List.take_append_drop n s.cells
      rw [hsame]
  rw [Sds.keep, hmoved, ok_do, ← hlength, terminate s bytes (by omega) s.len, ok_do,
    sdssetlen_of_lt (by rw [hlength]; exact hlt)]
  rfl

/-! ### Room -/

/-- How a function that may need memory ends: with a string, or with `NULL` when
there is no block or one of a certain size is too large. -/
inductive Returns (m : Allocation) (size : Nat) (P : Sds → Prop) :
    Except SdsFault (Option Sds) → Prop where
  | string {s : Sds} : P s → Returns m size P (.ok (some s))
  | null : m.granted = false ∨ 2 ^ 62 ≤ size → Returns m size P (.ok none)

theorem Returns.mono {size size' : Nat} {P Q : Sds → Prop} {v : Except SdsFault (Option Sds)}
    (h : Returns m size P v) (hsize : size ≤ size') (hPQ : ∀ s, P s → Q s) :
    Returns m size' Q v := by
  cases h with
  | string hs => exact .string (hPQ _ hs)
  | null hnone => exact .null (hnone.imp_right fun hle => hle.trans hsize)

/-- The same text with another capacity. -/
structure Moved (s s' : Sds) (capacity : Nat) : Prop where
  valid : s'.Valid
  len : s'.len = s.len
  text : s'.text = s.text
  capacity : s'.sdsalloc = capacity

theorem sdssetalloc_eq {n : Nat} (h : n < s.type.limit) :
    ∃ alloc, s.sdssetalloc n = { s with alloc := alloc } ∧ (s.type ≠ .type5 → alloc = n) := by
  unfold sdssetalloc
  split
  · rename_i htype
    exact ⟨s.alloc, rfl, fun hne => absurd htype hne⟩
  · exact ⟨n, by rw [Nat.mod_eq_of_lt h], fun _ => rfl⟩

/-- A block that begins as that of the string holds the same string. -/
theorem Valid.in_block (h : s.Valid) {type : SdsType} {newlen alloc : Nat} {cells : List Char}
    (hle : s.len ≤ newlen) (hlt : newlen < type.limit) (h5 : type = .type5 → newlen = s.len)
    (halloc : type ≠ .type5 → alloc = newlen) (hlength : cells.length = newlen + 1)
    (hblock : newlen + 1 < 2 ^ 63)
    (hcells : cells.take (s.len + 1) = s.cells.take (s.len + 1)) :
    Moved s ⟨type, s.len, alloc, cells⟩ newlen := by
  have hcapacity : (⟨type, s.len, alloc, cells⟩ : Sds).sdsalloc = newlen := by
    rcases eq_or_ne type .type5 with htype | hfield
    · exact (sdsalloc_type5 htype).trans (h5 htype).symm
    · exact (sdsalloc_field hfield).trans (halloc hfield)
  refine ⟨⟨lt_of_le_of_lt hle hlt, ?_, ?_, ?_, ?_⟩, rfl, ?_, hcapacity⟩
  · intro htype
    rw [halloc htype]
    exact ⟨hle, hlt⟩
  · rw [hcapacity]
    exact hlength.ge
  · exact hlength.trans_lt hblock
  · have hhere := congrArg (fun l => l[s.len]?) hcells
    simp only [List.getElem?_take_of_lt (Nat.lt_succ_self s.len)] at hhere
    exact hhere.trans h.nul
  · have hhere := congrArg (List.take s.len) hcells
    rw [List.take_take, List.take_take, Nat.min_eq_left (Nat.le_succ _)] at hhere
    exact hhere

theorem malloc_some {hdrlen size : Nat} {cells : List Char}
    (h : m.malloc hdrlen size = some cells) : cells.length = size - hdrlen ∧ size < 2 ^ 63 := by
  unfold Allocation.malloc at h
  split at h
  · rename_i hgranted
    cases h
    exact ⟨by rw [List.length_map, List.length_range], hgranted.2⟩
  · cases h

theorem realloc_some {hdrlen size : Nat} {cells old : List Char}
    (h : m.realloc old hdrlen size = some cells) :
    cells = ((List.range (size - hdrlen)).map fun i => old.getD i (m.fill i)) ∧ size < 2 ^ 63 := by
  unfold Allocation.realloc at h
  split at h
  · rename_i hgranted
    cases h
    exact ⟨rfl, hgranted.2⟩
  · cases h

/-- A block that is grown keeps what was in it. -/
theorem take_getD {cells : List Char} {n k : Nat} (fill : Nat → Char) (hk : k ≤ cells.length)
    (hn : k ≤ n) :
    ((List.range n).map fun i => cells.getD i (fill i)).take k = cells.take k := by
  apply List.ext_getElem
  · simp only [List.length_take, List.length_map, List.length_range]
    omega
  · intro i hi _
    have hlt : i < k := lt_of_lt_of_le hi (List.length_take_le _ _)
    simp only [List.getElem_take, List.getElem_map, List.getElem_range]
    rw [List.getD_eq_getElem?_getD, List.getElem?_eq_getElem (lt_of_lt_of_le hlt hk),
      Option.getD_some]

theorem not_granted {size : Nat} {α : Type} {x : α}
    (h : (if m.granted ∧ size < 2 ^ 63 then some x else none) = none) :
    m.granted = false ∨ 2 ^ 63 ≤ size := by
  split at h
  · cases h
  · rename_i hnot
    rw [not_and_or, Bool.not_eq_true, not_lt] at hnot
    exact hnot

/-- A block that was given another size holds the same string. -/
theorem Valid.resized (h : s.Valid) {newlen : Nat} {cells : List Char} (hle : s.len ≤ newlen)
    (hlt : newlen < s.type.limit) (h5 : s.type = .type5 → newlen = s.len)
    (hrealloc : m.realloc s.cells (sdsHdrSize s.type) (sdsHdrSize s.type + newlen + 1) =
      some cells) :
    Moved s (({ s with cells := cells } : Sds).sdssetalloc newlen) newlen := by
  have hroom := h.room
  have hlen := h.len_le
  obtain ⟨hcells, hfits⟩ := realloc_some hrealloc
  have hcount : sdsHdrSize s.type + newlen + 1 - sdsHdrSize s.type = newlen + 1 := by omega
  rw [hcount] at hcells
  obtain ⟨alloc, hset, halloc⟩ := sdssetalloc_eq (s := { s with cells := cells }) hlt
  rw [hset]
  refine h.in_block hle hlt h5 halloc ?_ (by omega) ?_
  · rw [hcells, List.length_map, List.length_range]
  · rw [hcells]
    exact take_getD _ (by omega) (by omega)

/-- So does a new block that its text and terminator were copied to. -/
theorem Valid.copied (h : s.Valid) {type : SdsType} {newlen : Nat} {fresh : List Char}
    (hle : s.len ≤ newlen) (hlt : newlen < type.limit) (h5 : type = .type5 → newlen = s.len)
    (hlength : fresh.length = newlen + 1) (hblock : newlen + 1 < 2 ^ 63) :
    ∃ bytes cells, readAt s.cells 0 (s.len + 1) = .ok bytes ∧ writeAt fresh 0 bytes = .ok cells ∧
      Moved s (({ s with type := type, cells := cells } : Sds).sdssetalloc newlen) newlen := by
  have hroom := h.room
  have hlen := h.len_le
  have hbytes : (s.cells.take (s.len + 1)).length = s.len + 1 := List.length_take_of_le (by omega)
  have hwrite : writeAt fresh 0 (s.cells.take (s.len + 1)) =
      .ok (s.cells.take (s.len + 1) ++ fresh.drop (s.len + 1)) := by
    rw [writeAt_front (by omega), hbytes]
  refine ⟨_, _, readAt_of_le (by omega), hwrite, ?_⟩
  obtain ⟨alloc, hset, halloc⟩ := sdssetalloc_eq (s := ⟨type, s.len, s.alloc,
    s.cells.take (s.len + 1) ++ fresh.drop (s.len + 1)⟩) hlt
  rw [hset]
  refine h.in_block hle hlt h5 halloc ?_ hblock ?_
  · rw [List.length_append, hbytes, List.length_drop]
    omega
  · rw [List.take_append_of_le_length hbytes.ge, List.take_of_length_le hbytes.le]

theorem Valid.moveTo (h : s.Valid) {type : SdsType} {newlen : Nat} (hle : s.len ≤ newlen)
    (hlt : newlen < type.limit) (h5 : type = .type5 → newlen = s.len)
    (hsmall : newlen + 18 < 2 ^ 64) :
    Returns m newlen (fun s' => Moved s s' newlen) (moveTo m s type newlen) := by
  have hhdr := sdsHdrSize_le type
  have hsize : toSize (sdsHdrSize type + newlen + 1) = sdsHdrSize type + newlen + 1 := by
    rw [toSize]
    omega
  rw [Sds.moveTo, hsize]
  split_ifs with hsame
  · subst hsame
    cases hrealloc : m.realloc s.cells (sdsHdrSize s.type) (sdsHdrSize s.type + newlen + 1) with
    | none =>
        refine .null ((not_granted hrealloc).imp_right fun hlarge => ?_)
        omega
    | some cells => exact .string (h.resized hle hlt h5 hrealloc)
  · cases hmalloc : m.malloc (sdsHdrSize type) (sdsHdrSize type + newlen + 1) with
    | none =>
        refine .null ((not_granted hmalloc).imp_right fun hlarge => ?_)
        omega
    | some fresh =>
        obtain ⟨hlength, hfits⟩ := malloc_some hmalloc
        obtain ⟨bytes, cells, hread, hwrite, hmoved⟩ :=
          h.copied hle hlt h5 (show fresh.length = newlen + 1 by omega) (by omega)
        dsimp only
        rw [hread, ok_do, hwrite, ok_do, sdssetlen_of_lt (lt_of_le_of_lt hle hlt)]
        exact .string hmoved

/-- The capacity that `sdsMakeRoomFor` asks for. -/
def grownCapacity (len : Nat) : Nat :=
  if len < sdsMaxPrealloc then len * 2 else len + sdsMaxPrealloc

theorem le_grownCapacity (len : Nat) : len ≤ grownCapacity len := by
  unfold grownCapacity
  split_ifs <;> omega

theorem grownCapacity_le (len : Nat) : grownCapacity len ≤ len + sdsMaxPrealloc := by
  unfold grownCapacity
  split_ifs <;> omega

theorem Valid.stays (h : s.Valid) : Moved s s s.sdsalloc := ⟨h, rfl, rfl, rfl⟩

/-- The capacity behind `sdsMakeRoomFor`. -/
def roomFor (s : Sds) (addlen : Nat) : Nat :=
  if addlen ≤ s.sdsavail then s.sdsalloc else grownCapacity (s.len + addlen)

theorem Valid.le_roomFor (h : s.Valid) (addlen : Nat) : s.len + addlen ≤ s.roomFor addlen := by
  have hlen := h.len_le
  rw [roomFor, h.sdsavail_eq]
  split_ifs
  · omega
  · exact le_grownCapacity _

/-- A capacity that is stored in the header. -/
def Stores (s s' : Sds) (capacity : Nat) : Prop :=
  s.type ≠ .type5 → s'.type ≠ .type5 ∧ s'.sdsalloc = capacity

/-- A string with free space is not of type 5. -/
theorem Moved.stores {capacity : Nat} (h : Moved s s' capacity) (hroom : s.len < capacity) :
    Stores s s' capacity := by
  refine fun _ => ⟨fun h5 => ?_, h.capacity⟩
  have hcapacity := h.capacity
  rw [sdsalloc_type5 h5, h.len] at hcapacity
  exact absurd hcapacity hroom.ne

/-- After `sdsMakeRoomFor` there is room, and the text is the same. -/
theorem Valid.sdsMakeRoomFor (h : s.Valid) {addlen : Nat} (hadd : addlen < 2 ^ 62) :
    Returns m (s.len + addlen + sdsMaxPrealloc)
      (fun s' => Moved s s' (s.roomFor addlen) ∧ Stores s s' (s.roomFor addlen))
      (sdsMakeRoomFor m s addlen) := by
  have hlen := h.len_le
  have hroom := h.room
  have hblock := h.block
  rw [Sds.sdsMakeRoomFor, roomFor, h.sdsavail_eq]
  split_ifs with henough
  · exact .string ⟨h.stays, fun hfield => ⟨hfield, rfl⟩⟩
  · have hprealloc : sdsMaxPrealloc = 2 ^ 20 := rfl
    have hnewlen : toSize (s.len + addlen) = s.len + addlen := by
      rw [toSize]
      omega
    have hgrown : (if s.len + addlen < sdsMaxPrealloc then toSize (↑(s.len + addlen) * 2)
        else toSize (↑(s.len + addlen) + sdsMaxPrealloc)) = grownCapacity (s.len + addlen) := by
      unfold grownCapacity toSize
      split_ifs <;> omega
    have hle := le_grownCapacity (s.len + addlen)
    have hge := grownCapacity_le (s.len + addlen)
    rw [hnewlen]
    dsimp only
    rw [hgrown]
    generalize grownCapacity (s.len + addlen) = capacity at hle hge
    have hlimit := sdsReqType_limit (n := capacity) (by omega)
    have htype : (if sdsReqType capacity = .type5 then SdsType.type8 else sdsReqType capacity) ≠
        .type5 ∧ capacity <
          (if sdsReqType capacity = .type5 then SdsType.type8 else sdsReqType capacity).limit := by
      split_ifs with h5
      · rw [h5] at hlimit
        exact ⟨nofun, lt_trans hlimit (by decide)⟩
      · exact ⟨h5, hlimit⟩
    have hmoved := h.moveTo (m := m) (by omega) htype.2 (fun h5 => absurd h5 htype.1) (by omega)
    exact hmoved.mono hge fun s' hs' => ⟨hs', hs'.stores (by omega)⟩

/-! ### What the functions do to the text -/

/-- A valid string with a text. -/
def Shows (s : Sds) (text : List Char) : Prop := s.Valid ∧ s.text = text

theorem Valid.shows_ending (h : s.Valid) (hfits : t.length ≤ s.sdsalloc) : (s.ending t).Shows t :=
  ⟨h.ending hfits, text_ending s t⟩

/-- The text of a string with enough room, made longer. -/
theorem Moved.fits {capacity : Nat} (h : Moved s s' capacity)
    (hroom : s.len + t.length ≤ capacity) : (s'.text ++ t).length ≤ s'.sdsalloc := by
  rw [List.length_append, h.valid.length_text, h.len, h.capacity]
  exact hroom

/-- The end of a text is not the end of the block. -/
theorem Stores.ending {capacity : Nat} (h : Stores s s' capacity) (t : List Char) :
    Stores s (s'.ending t) capacity := by
  intro hfield
  obtain ⟨hfield', hcapacity⟩ := h hfield
  rw [sdsalloc_field hfield'] at hcapacity
  exact ⟨hfield', (sdsalloc_field (s := s'.ending t) hfield').trans hcapacity⟩

/-- `sdscatlen` appends. -/
theorem Valid.sdscatlen (h : s.Valid) (ht : t.length < 2 ^ 62) :
    Returns m (s.len + t.length + sdsMaxPrealloc)
      (fun s' => s'.Shows (s.text ++ t) ∧ Stores s s' (s.roomFor t.length))
      (sdscatlen m s t) := by
  have hmade := h.sdsMakeRoomFor (m := m) ht
  rw [Sds.sdscatlen]
  generalize Sds.sdsMakeRoomFor m s t.length = v at hmade
  cases hmade with
  | null hnone => exact .null hnone
  | @string s₁ hroom =>
      obtain ⟨hmoved, hstores⟩ := hroom
      have hvalid := hmoved.valid
      have hfits := hmoved.fits (h.le_roomFor t.length)
      have hcells := hvalid.room
      have hblock := hvalid.block
      have hcount : toSize (s₁.len + t.length) = (s₁.text ++ t).length := by
        rw [List.length_append, hvalid.length_text] at hfits ⊢
        rw [toSize]
        omega
      rw [ok_do, ← hmoved.len, ← hmoved.text]
      dsimp only
      rw [hvalid.store_behind (by omega), ok_do, hcount, hvalid.sdssetlen hfits,
        terminate s₁ (s₁.text ++ t) (by omega), ok_do]
      exact .string ⟨hvalid.shows_ending hfits, hstores.ending _⟩

/-- `sdscpylen` replaces. -/
theorem Valid.sdscpylen (h : s.Valid) (ht : t.length < 2 ^ 62) :
    Returns m (t.length + sdsMaxPrealloc) (fun s' => s'.Shows t) (sdscpylen m s t) := by
  have hmade : Returns m (t.length + sdsMaxPrealloc)
      (fun s' => s'.Valid ∧ t.length ≤ s'.sdsalloc) (roomToCopy m s t.length) := by
    unfold roomToCopy
    split_ifs with hshort
    · have hlen := h.len_le
      have hmissing : toSize ((t.length : Int) - s.len) = t.length - s.len := by
        rw [toSize]
        omega
      rw [hmissing]
      refine (h.sdsMakeRoomFor (by omega)).mono (by omega) ?_
      rintro s' ⟨hmoved, _⟩
      have hle := h.le_roomFor (t.length - s.len)
      refine ⟨hmoved.valid, ?_⟩
      rw [hmoved.capacity]
      omega
    · exact .string ⟨h, not_lt.mp hshort⟩
  rw [Sds.sdscpylen]
  generalize roomToCopy m s t.length = v at hmade
  cases hmade with
  | null hnone => exact .null hnone
  | @string s₁ hroom =>
      obtain ⟨hvalid, hfits⟩ := hroom
      have hcells := hvalid.room
      rw [ok_do]
      dsimp only
      rw [store_front s₁ (by omega), ok_do, terminate s₁ t (by omega) s₁.len, ok_do,
        hvalid.sdssetlen hfits]
      exact .string (hvalid.shows_ending hfits)

/-- `sdsgrowzero` appends zeros. -/
theorem Valid.sdsgrowzero (h : s.Valid) {len : Nat} (hlen : len < 2 ^ 62) :
    Returns m (s.len + len + sdsMaxPrealloc)
      (fun s' => s'.Shows (s.text ++ List.replicate (len - s.len) '\x00'))
      (sdsgrowzero m s len) := by
  rw [Sds.sdsgrowzero]
  split_ifs with hlong
  · rw [Nat.sub_eq_zero_of_le hlong, List.replicate_zero, List.append_nil]
    exact .string ⟨h, rfl⟩
  · have hmade := h.sdsMakeRoomFor (m := m) (show len - s.len < 2 ^ 62 by omega)
    generalize Sds.sdsMakeRoomFor m s (len - s.len) = v at hmade
    cases hmade with
    | null hnone => exact .null (hnone.imp_right fun hle => by omega)
    | @string s₁ hroom =>
        have hmoved := hroom.1
        have hle := h.le_roomFor (len - s.len)
        rw [← hmoved.capacity] at hle
        have hvalid := hmoved.valid
        rw [ok_do, ← hmoved.len, ← hmoved.text]
        rw [← hmoved.len] at hle hlong
        have hzeros : List.replicate (len - s₁.len + 1) '\x00' =
            List.replicate (len - s₁.len) '\x00' ++ ['\x00'] := List.replicate_succ'
        generalize hadded : List.replicate (len - s₁.len) '\x00' = zeros at hzeros ⊢
        have hcount : (s₁.text ++ zeros).length = len := by
          rw [List.length_append, hvalid.length_text, ← hadded, List.length_replicate]
          omega
        have hfits : (s₁.text ++ zeros).length ≤ s₁.sdsalloc := by
          rw [hcount]
          omega
        have hroom : (s₁.text ++ (zeros ++ ['\x00'])).length ≤ s₁.cells.length := by
          rw [← List.append_assoc, List.length_append, List.length_singleton]
          exact (Nat.succ_le_succ hfits).trans hvalid.room
        have hdone : (s₁.text ++ zeros ++ ['\x00']).length = (s₁.text ++ zeros).length + 1 :=
          List.length_append
        have hstring : ({ s₁ with
            cells := s₁.text ++ (zeros ++ ['\x00']) ++
              s₁.cells.drop (s₁.text ++ (zeros ++ ['\x00'])).length } : Sds).sdssetlen len =
            s₁.ending (s₁.text ++ zeros) := by
          rw [← hcount, hvalid.sdssetlen hfits, ← List.append_assoc, List.append_assoc,
            hdone]
          rfl
        rw [hzeros]
        dsimp only
        rw [hvalid.store_behind hroom, ok_do, hstring]
        exact .string (hvalid.shows_ending hfits)

theorem Stores.refl (s : Sds) : Stores s s s.sdsalloc := fun hfield => ⟨hfield, rfl⟩

theorem Valid.shows_keep (h : s.Valid) (pos n : Nat) (hfits : n = 0 ∨ pos + n ≤ s.len) :
    ∃ s', s.keep pos n = .ok s' ∧ s'.Shows ((s.text.drop pos).take n) ∧
      Stores s s' s.sdsalloc := by
  refine ⟨_, h.keep hfits, h.shows_ending ?_, (Stores.refl s).ending _⟩
  have hlen := h.len_le
  rw [List.length_take]
  omega

/-- `sdstrim` strips both ends. -/
theorem Valid.sdstrim (h : s.Valid) (cset : List Char) :
    ∃ s', s.sdstrim cset = .ok s' ∧ s'.Shows (strip (inCset cset) s.text) ∧
      Stores s s' s.sdsalloc := by
  have hlen := h.len_le
  have hroom := h.room
  have hcount := h.length_text
  have hread : readAt s.cells 0 s.len = .ok s.text := by
    rw [readAt_of_le (by omega)]
    rfl
  have hskipped := (List.takeWhile_sublist (p := inCset cset) (l := s.text)).length_le
  rw [Sds.sdstrim, hread, ok_do, strip_eq_range, hcount]
  apply h.shows_keep
  omega

/-- `sdsrange` in the block does what it does to the bytes. -/
theorem Valid.sdsrange (h : s.Valid) (start stop : Int) :
    ∃ s', s.sdsrange start stop = .ok s' ∧ s'.Shows (CloRedis.sdsrange s.text start stop) ∧
      Stores s s' s.sdsalloc := by
  unfold Sds.sdsrange CloRedis.sdsrange
  rw [h.length_text]
  dsimp only
  generalize hfirst : (if start < 0 then _ else _) = first
  generalize hlast : (if stop < 0 then _ else _) = last
  have hfirst0 : 0 ≤ first := by
    rw [← hfirst]
    split_ifs <;> omega
  have hempties :
      ∃ s', s.keep first.toNat 0 = .ok s' ∧ s'.Shows [] ∧ Stores s s' s.sdsalloc := by
    have hkept := h.shows_keep first.toNat 0 (.inl rfl)
    rwa [List.take_zero] at hkept
  split_ifs with hempty hback hbehind hcut hcross
  · exact ⟨s, rfl, ⟨h, rfl⟩, .refl s⟩
  · have hkept := h.shows_keep 0 0 (.inl rfl)
    rwa [List.take_zero] at hkept
  · exact hempties
  · exact hempties
  · apply h.shows_keep
    have hle := toInt32_le (n := (s.len : Int) - 1) (by omega)
    omega
  · apply h.shows_keep
    have hle := toInt32_le (n := s.len) (by omega)
    omega

theorem sdsIncrLen_eq {incr : Int} {n : Nat} (hint : toInt32 incr = incr)
    (hfits : s.incrFits incr = true) (hcount : s.len + incr = n) (hlt : n < s.type.limit) :
    s.sdsIncrLen incr = ({ s with len := n } : Sds).store n ['\x00'] := by
  have hlen : ((s.len + incr) % s.type.limit).toNat = n := by
    rw [hcount, Int.emod_eq_of_lt (Int.natCast_nonneg _) (Int.ofNat_lt.mpr hlt), Int.toNat_natCast]
  rw [Sds.sdsIncrLen, hint, if_pos hfits, hlen]

/-- `sdsIncrLen` takes bytes away from the end. -/
theorem Valid.sdsIncrLen_back (h : s.Valid) {k : Nat} (hpos : 0 < k) (hle : k ≤ s.len)
    (hint : k < 2 ^ 31) : s.sdsIncrLen (-k) = .ok (s.ending (s.text.take (s.len - k))) := by
  have hlen := h.len_le
  have hroom := h.room
  have hlt := h.len
  have hneg : toInt32 (-k) = -k := toInt32_of_lt (by omega) (by omega)
  have hfits : s.incrFits (-k) = true := by
    have hback : toInt32 (-(-k : Int)) = k := by
      rw [neg_neg]
      exact toInt32_of_lt (by omega) (by omega)
    have hspace (width : Nat) (hwidth : 31 ≤ width) :
        (decide ((-k : Int) < 0) && decide ((k : Int) % 2 ^ width ≤ s.len)) = true := by
      have hlarge : (2 : Int) ^ 31 ≤ 2 ^ width := pow_le_pow_right₀ (by decide) hwidth
      rw [Bool.and_eq_true, decide_eq_true_eq, decide_eq_true_eq,
        Int.emod_eq_of_lt (Int.natCast_nonneg _) (by omega)]
      omega
    unfold incrFits
    rw [hback]
    split <;> simp only [hspace 32 (by decide), hspace 64 (by decide), Bool.or_true]
  have hcells : s.cells =
      s.text.take (s.len - k) ++ s.cells.drop (s.text.take (s.len - k)).length := by
    rw [text, List.take_take, Nat.min_eq_left (Nat.sub_le _ _), List.length_take_of_le (by omega),
      List.take_append_drop]
  have hcount : (s.text.take (s.len - k)).length = s.len - k := by
    rw [List.length_take, h.length_text]
    omega
  have hend := terminate s (s.text.take (s.len - k)) (by omega) (s.len - k)
  rw [← hcells, hcount] at hend
  rw [sdsIncrLen_eq hneg hfits (by omega) (by omega : s.len - k < s.type.limit), hend, Sds.ending,
    hcount]

/-- It adds the bytes that were written behind the text. -/
theorem Valid.sdsIncrLen_forth (h : s.Valid) (hfits : (s.text ++ t).length ≤ s.sdsalloc)
    (hfield : s.type ≠ .type5) (hint : t.length < 2 ^ 31) :
    (s.store s.len t).bind (fun s => s.sdsIncrLen t.length) = .ok (s.ending (s.text ++ t)) := by
  have hroom := h.room
  have hlt := h.sdsalloc_lt
  obtain ⟨hle, halloc⟩ := h.alloc hfield
  have hcapacity := sdsalloc_field hfield
  have hcount : (s.text ++ t).length = s.len + t.length := by
    rw [List.length_append, h.length_text]
  rw [h.store_behind (by omega)]
  generalize hcells : s.text ++ t ++ s.cells.drop (s.text ++ t).length = cells
  have hincr : ({ s with cells := cells } : Sds).incrFits t.length = true := by
    unfold incrFits
    cases htype : s.type with
    | type5 => exact absurd htype hfield
    | _ =>
        simp only [htype, SdsType.limit] at halloc
        simp only [Bool.or_eq_true, Bool.and_eq_true, decide_eq_true_eq]
        left
        omega
  have hsum : (({ s with cells := cells } : Sds).len : Int) + t.length = (s.text ++ t).length := by
    rw [hcount]
    rfl
  have hend := terminate s (s.text ++ t) (by omega) (s.text ++ t).length
  rw [hcells] at hend
  have hsame : toInt32 t.length = t.length := toInt32_of_lt (by omega) (by omega)
  exact (sdsIncrLen_eq hsame hincr hsum (lt_of_le_of_lt hfits hlt)).trans hend

/-- The block of a valid string begins with its text and a NUL. -/
theorem Valid.cells_eq (h : s.Valid) : ∃ rest, s.cells = s.text ++ '\x00' :: rest := by
  have hnul := h.nul
  obtain ⟨hlt, hchar⟩ := List.getElem?_eq_some_iff.mp hnul
  refine ⟨s.cells.drop (s.len + 1), ?_⟩
  rw [← hchar, List.getElem_cons_drop, text, List.take_append_drop]

/-- Bytes with a NUL are their text, the NUL and what is behind it. -/
theorem cText_split {bytes : List Char} (hmem : '\x00' ∈ bytes) :
    bytes = cText bytes ++ '\x00' :: bytes.drop ((cText bytes).length + 1) := by
  have hrest : bytes.drop (cText bytes).length = bytes.dropWhile (· ≠ '\x00') := drop_takeWhile _ _
  have hstop := head_dropWhile (fun c => decide (c ≠ '\x00')) bytes
  have hsplit := List.takeWhile_append_dropWhile (p := fun c => decide (c ≠ '\x00')) (l := bytes)
  rw [← List.drop_drop, hrest]
  cases hdrop : bytes.dropWhile (· ≠ '\x00') with
  | nil =>
      have hall := List.dropWhile_eq_nil_iff.mp hdrop _ hmem
      rw [decide_eq_true_eq] at hall
      exact absurd rfl hall
  | cons c rest =>
      rw [hdrop] at hstop hsplit
      have hc : c = '\x00' := by
        have hhead := hstop c rfl
        rwa [decide_eq_false_iff_not, not_not] at hhead
      rw [List.drop_succ_cons, List.drop_zero, ← hc]
      exact hsplit.symm

/-- `sdsupdatelen` ends the string at its first NUL. -/
theorem Valid.sdsupdatelen (h : s.Valid) (hsmall : (cText s.text).length < 2 ^ 31) :
    ∃ s', s.sdsupdatelen = .ok s' ∧ s'.Shows (cText s.text) := by
  obtain ⟨rest, hcells⟩ := h.cells_eq
  have hlen := h.len_le
  have hle : (cText s.text).length ≤ s.len := by
    rw [← h.length_text]
    exact (List.takeWhile_sublist _).length_le
  have hfirst : cText s.cells = cText s.text := by
    rw [hcells, cText, List.takeWhile_append, List.takeWhile_cons_of_neg (by decide),
      List.append_nil]
    split_ifs with hall
    · exact (List.takeWhile_sublist _).eq_of_length hall |>.symm
    · rfl
  have hset : toSize (toInt32 (cText s.text).length) = (cText s.text).length := by
    rw [toInt32_of_lt (by omega) (by omega), toSize_of_lt (by omega) (by omega), Int.toNat_natCast]
  have hmem : '\x00' ∈ s.cells := by
    rw [hcells]
    exact List.mem_append_right _ (List.mem_cons_self ..)
  have hsplit := cText_split hmem
  rw [hfirst] at hsplit
  have hend : s.sdsupdatelen = .ok (s.ending (cText s.text)) := by
    rw [Sds.sdsupdatelen, if_pos hmem, hfirst, hset,
      sdssetlen_of_lt (lt_of_le_of_lt hle h.len), Sds.ending, ← hsplit]
  exact ⟨_, hend, h.shows_ending (hle.trans hlen)⟩

/-- `sdsRemoveFreeSpace` leaves the text as it is. -/
theorem Valid.sdsRemoveFreeSpace (h : s.Valid) :
    Returns m s.len (fun s' => Moved s s' s.len) (sdsRemoveFreeSpace m s) := by
  have hlen := h.len_le
  have hroom := h.room
  have hblock := h.block
  exact h.moveTo (Nat.le_refl _) (sdsReqType_limit (by omega)) (fun _ => rfl) (by omega)

/-! ### Strings are made -/

/-- A new string in a block of its size. -/
theorem shows_new (type : SdsType) (t : List Char) (hlt : t.length < type.limit)
    (hblock : t.length + 1 < 2 ^ 63) :
    (⟨type, t.length, t.length, t ++ ['\x00']⟩ : Sds).Shows t := by
  have hlength : (t ++ ['\x00']).length = t.length + 1 := List.length_append
  refine ⟨⟨hlt, fun _ => ⟨Nat.le_refl _, hlt⟩, ?_, hlength.trans_lt hblock, ?_⟩, List.take_left⟩
  · rw [hlength]
    rcases eq_or_ne type .type5 with h5 | hfield
    · exact (congrArg Nat.succ (sdsalloc_type5 h5)).le
    · exact (congrArg Nat.succ (sdsalloc_field hfield)).le
  · exact List.getElem?_concat_length

end Sds

end CloRedis
