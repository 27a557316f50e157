import CloRedis.Hiredis.Grammar
import CloRedis.Hiredis.Numbers
import CloRedis.Library.Incremental
import CloRedis.Redis.Hiredis

/-!
What a reader of replies is for: an incremental reader that keeps the arrays
that are open and brings out replies. It brings out exactly the replies its
bytes denote. `find` says where a line ends.
-/

namespace CloRedis

open Library

/-- An open array: how many elements were announced, and those that are there. -/
structure Frame where
  total : Nat
  done : List HiredisReply := []

/-- The open arrays, the innermost first, and the type of the reply that has
begun. -/
structure Parse where
  frames : List Frame := []
  kind : Option ReplyType := none

/-- A reply that is complete is the next element of the innermost array, and
may complete it. -/
def deliver : List Frame → HiredisReply → List Frame × Option HiredisReply
  | [], reply => ([], some reply)
  | f :: fs, reply =>
      if f.done.length + 1 = f.total then deliver fs (arrayOf (f.done ++ [reply]))
      else (⟨f.total, f.done ++ [reply]⟩ :: fs, none)

/-- The first byte of a reply. -/
def replyType : Char → Option ReplyType
  | '-' => some .error
  | '+' => some .status
  | ':' => some .integer
  | '$' => some .string
  | '*' => some .array
  | _ => none

/-- What stands behind the first byte of a reply. -/
inductive Scan where
  | more
  | bad (e : RedisErr) (text : String)
  | leaf (used : Nat) (reply : HiredisReply)
  | array (used : Nat) (elements : Nat)

section Scan

variable (find : List Char → Option Nat)

def scanLine (kind : ReplyType) (l : List Char) : Scan :=
  match find l with
  | none => .more
  | some n =>
      if kind = .integer then
        match string2ll (l.take n) with
        | none => .bad .protocol "Bad integer value"
        | some v => .leaf (n + 2) { type := .integer, integer := v }
      else .leaf (n + 2) { type := kind, str := l.take n }

def scanBulk (l : List Char) : Scan :=
  match find l with
  | none => .more
  | some n =>
      match string2ll (l.take n) with
      | none => .bad .protocol "Bad bulk string length"
      | some len =>
          if len < -1 then .bad .protocol "Bulk string length out of range"
          else if len = -1 then .leaf (n + 2) { type := .nil }
          else if n + 2 + (len.toNat + 2) ≤ l.length then
            .leaf (n + 2 + (len.toNat + 2))
              { type := .string, str := (l.drop (n + 2)).take len.toNat }
          else .more

def scanMultiBulk (depth : Nat) (l : List Char) : Scan :=
  if depth = maxDepth then
    .bad .protocol "No support for nested multi bulk replies with depth > 7"
  else
    match find l with
    | none => .more
    | some n =>
        match string2ll (l.take n) with
        | none => .bad .protocol "Bad multi-bulk length"
        | some elements =>
            if elements < -1 ∨ (intMax : Int) < elements then
              .bad .protocol "Multi-bulk length out of range"
            else if elements = -1 then .leaf (n + 2) { type := .nil }
            else if 0 < elements then .array (n + 2) elements.toNat
            else .leaf (n + 2) (arrayOf [])

/-- A reply of a type, inside so many arrays. -/
def scan (kind : ReplyType) (depth : Nat) (l : List Char) : Scan :=
  match kind with
  | .error | .status | .integer => scanLine find kind l
  | .string => scanBulk find l
  | .array => scanMultiBulk find depth l
  | .nil => .more

end Scan

/-- `"Protocol error, got %s as reply type byte"`, with the byte as `chrtos`
shows it. -/
def protocolByteText (shown : List Char) : List Char :=
  "Protocol error, got ".toList ++ shown ++ " as reply type byte".toList

/-- One turn: the type byte, or all of what stands behind it. -/
def Parse.turn (find : List Char → Option Nat) (chrtos : Char → List Char) (p : Parse)
    (l : List Char) : Turn Parse HiredisReply (RedisErr × List Char) :=
  match p.kind with
  | none =>
      match l with
      | [] => .wait
      | c :: _ =>
          match replyType c with
          | some kind => .take 1 { p with kind := some kind } none
          | none => .fail (.protocol, protocolByteText (chrtos c))
  | some kind =>
      match scan find kind p.frames.length l with
      | .more => .wait
      | .bad e text => .fail (e, text.toList)
      | .leaf used reply =>
          let (frames, out) := deliver p.frames reply
          .take used ⟨frames, none⟩ out
      | .array used elements => .take used ⟨⟨elements, []⟩ :: p.frames, none⟩ none

/-! ### What a scan finds -/

/-- All that a scan can find. -/
inductive Scanned (find : List Char → Option Nat) (kind : ReplyType) (depth : Nat)
    (l : List Char) : Scan → Prop where
  | more : Scanned find kind depth l .more
  | bad (e : RedisErr) (text : String) : Scanned find kind depth l (.bad e text)
  | text (n : Nat) : kind = .status ∨ kind = .error → find l = some n →
      Scanned find kind depth l (.leaf (n + 2) { type := kind, str := l.take n })
  | integer (n : Nat) (v : Int) : kind = .integer → find l = some n →
      string2ll (l.take n) = some v →
      Scanned find kind depth l (.leaf (n + 2) { type := .integer, integer := v })
  | nilString (n : Nat) : kind = .string → find l = some n → string2ll (l.take n) = some (-1) →
      Scanned find kind depth l (.leaf (n + 2) { type := .nil })
  | string (n len : Nat) : kind = .string → find l = some n →
      string2ll (l.take n) = some (len : Int) → n + 2 + (len + 2) ≤ l.length →
      Scanned find kind depth l (.leaf (n + 2 + (len + 2))
        { type := .string, str := (l.drop (n + 2)).take len })
  | nilArray (n : Nat) : kind = .array → depth ≠ maxDepth → find l = some n →
      string2ll (l.take n) = some (-1) →
      Scanned find kind depth l (.leaf (n + 2) { type := .nil })
  | emptyArray (n : Nat) : kind = .array → depth ≠ maxDepth → find l = some n →
      string2ll (l.take n) = some 0 → Scanned find kind depth l (.leaf (n + 2) (arrayOf []))
  | array (n elements : Nat) : kind = .array → depth ≠ maxDepth → find l = some n →
      string2ll (l.take n) = some (elements : Int) → 0 < elements → elements ≤ intMax →
      Scanned find kind depth l (.array (n + 2) elements)

variable {find : List Char → Option Nat}

theorem scanLine_scanned {kind : ReplyType}
    (hkind : kind = .status ∨ kind = .error ∨ kind = .integer)
    (depth : Nat) (l : List Char) : Scanned find kind depth l (scanLine find kind l) := by
  unfold scanLine
  cases hn : find l with
  | none => exact .more
  | some n =>
      dsimp only
      by_cases hint : kind = .integer
      · rw [if_pos hint]
        cases hv : string2ll (l.take n) with
        | none => exact .bad _ _
        | some v => exact .integer n v hint hn hv
      · rw [if_neg hint]
        have htext : kind = .status ∨ kind = .error := by
          rcases hkind with h | h | h
          · exact .inl h
          · exact .inr h
          · exact absurd h hint
        exact .text n htext hn

theorem scanBulk_scanned (depth : Nat) (l : List Char) :
    Scanned find .string depth l (scanBulk find l) := by
  unfold scanBulk
  cases hn : find l with
  | none => exact .more
  | some n =>
      dsimp only
      cases hv : string2ll (l.take n) with
      | none => exact .bad _ _
      | some len =>
          dsimp only
          split_ifs with hrange hnil hfits
          · exact .bad _ _
          · rw [hnil] at hv
            exact .nilString n rfl hn hv
          · obtain ⟨m, rfl⟩ := Int.eq_ofNat_of_zero_le (by omega : 0 ≤ len)
            exact .string n m rfl hn hv hfits
          · exact .more

theorem scanMultiBulk_scanned (depth : Nat) (l : List Char) :
    Scanned find .array depth l (scanMultiBulk find depth l) := by
  unfold scanMultiBulk
  by_cases hdepth : depth = maxDepth
  · rw [if_pos hdepth]
    exact .bad _ _
  · rw [if_neg hdepth]
    cases hn : find l with
    | none => exact .more
    | some n =>
        dsimp only
        cases hv : string2ll (l.take n) with
        | none => exact .bad _ _
        | some elements =>
            dsimp only
            split_ifs with hrange hnil hsome
            · exact .bad _ _
            · rw [hnil] at hv
              exact .nilArray n rfl hdepth hn hv
            · obtain ⟨m, rfl⟩ := Int.eq_ofNat_of_zero_le hsome.le
              exact .array n m rfl hdepth hn hv (by omega) (by omega)
            · have hzero : elements = 0 := by omega
              rw [hzero] at hv
              exact .emptyArray n rfl hdepth hn hv

variable (find) in
theorem scanned (kind : ReplyType) (depth : Nat) (l : List Char) :
    Scanned find kind depth l (scan find kind depth l) := by
  cases kind with
  | status => exact scanLine_scanned (.inl rfl) depth l
  | error => exact scanLine_scanned (.inr (.inl rfl)) depth l
  | integer => exact scanLine_scanned (.inr (.inr rfl)) depth l
  | string => exact scanBulk_scanned depth l
  | array => exact scanMultiBulk_scanned depth l
  | nil => exact .more

/-- Where a line ends is inside the text. -/
def Bounded (find : List Char → Option Nat) : Prop :=
  ∀ l n, find l = some n → n + 2 ≤ l.length

theorem Scanned.leaf_bound (hfind : Bounded find) {kind : ReplyType} {depth used : Nat}
    {l : List Char} {reply : HiredisReply} (h : Scanned find kind depth l (.leaf used reply)) :
    0 < used ∧ used ≤ l.length := by
  cases h with
  | string n len _ hn _ hlen => exact ⟨by omega, hlen⟩
  | text n _ hn => exact ⟨by omega, hfind l n hn⟩
  | integer n _ _ hn => exact ⟨by omega, hfind l n hn⟩
  | nilString n _ hn => exact ⟨by omega, hfind l n hn⟩
  | nilArray n _ _ hn => exact ⟨by omega, hfind l n hn⟩
  | emptyArray n _ _ hn => exact ⟨by omega, hfind l n hn⟩

theorem Scanned.array_bound (hfind : Bounded find) {kind : ReplyType} {depth used elements : Nat}
    {l : List Char} (h : Scanned find kind depth l (.array used elements)) :
    0 < used ∧ used ≤ l.length := by
  cases h with
  | array n _ _ _ hn => exact ⟨by omega, hfind l n hn⟩

/-! ### What comes behind does not matter -/

theorem lineEnd_bounded : Bounded lineEnd := fun _ _ h => (lineEnd_some h).2.2

theorem scanBulk_append {l : List Char} (more : List Char) (h : scanBulk lineEnd l ≠ .more) :
    scanBulk lineEnd (l ++ more) = scanBulk lineEnd l := by
  unfold scanBulk at h ⊢
  cases hn : lineEnd l with
  | none =>
      rw [hn] at h
      exact absurd rfl h
  | some n =>
      have hle := lineEnd_bounded l n hn
      rw [hn] at h
      rw [lineEnd_append hn]
      dsimp only at h ⊢
      rw [List.take_append_of_le_length (by omega)]
      cases hv : string2ll (l.take n) with
      | none => rfl
      | some len =>
          rw [hv] at h
          dsimp only at h ⊢
          split_ifs at h with hrange hnil hfits
          · rw [if_pos hrange, if_pos hrange]
          · rw [if_neg hrange, if_neg hrange, if_pos hnil, if_pos hnil]
          · have hfits' : n + 2 + (len.toNat + 2) ≤ (l ++ more).length := by
              rw [List.length_append]
              omega
            have hbody : ((l ++ more).drop (n + 2)).take len.toNat =
                (l.drop (n + 2)).take len.toNat := by
              rw [List.drop_append_of_le_length (by omega), List.take_append_of_le_length]
              rw [List.length_drop]
              omega
            rw [if_neg hrange, if_neg hrange, if_neg hnil, if_neg hnil, if_pos hfits,
              if_pos hfits', hbody]
          · exact absurd rfl h

theorem scanLine_append {kind : ReplyType} {l : List Char} (more : List Char)
    (h : scanLine lineEnd kind l ≠ .more) :
    scanLine lineEnd kind (l ++ more) = scanLine lineEnd kind l := by
  unfold scanLine at h ⊢
  cases hn : lineEnd l with
  | none =>
      rw [hn] at h
      exact absurd rfl h
  | some n =>
      have hle := lineEnd_bounded l n hn
      rw [lineEnd_append hn]
      dsimp only
      rw [List.take_append_of_le_length (by omega)]

theorem scanMultiBulk_append {depth : Nat} {l : List Char} (more : List Char)
    (h : scanMultiBulk lineEnd depth l ≠ .more) :
    scanMultiBulk lineEnd depth (l ++ more) = scanMultiBulk lineEnd depth l := by
  unfold scanMultiBulk at h ⊢
  by_cases hdepth : depth = maxDepth
  · rw [if_pos hdepth, if_pos hdepth]
  · rw [if_neg hdepth] at h
    rw [if_neg hdepth, if_neg hdepth]
    cases hn : lineEnd l with
    | none =>
        rw [hn] at h
        exact absurd rfl h
    | some n =>
        have hle := lineEnd_bounded l n hn
        rw [lineEnd_append hn]
        dsimp only
        rw [List.take_append_of_le_length (by omega)]

theorem scan_append (kind : ReplyType) (depth : Nat) {l : List Char} (more : List Char)
    (h : scan lineEnd kind depth l ≠ .more) :
    scan lineEnd kind depth (l ++ more) = scan lineEnd kind depth l := by
  cases kind with
  | status => exact scanLine_append more h
  | error => exact scanLine_append more h
  | integer => exact scanLine_append more h
  | string => exact scanBulk_append more h
  | array => exact scanMultiBulk_append more h
  | nil => exact absurd rfl h

namespace Parse

variable {chrtos : Char → List Char}

theorem turn_progress (hfind : Bounded find) {p p' : Parse} {l : List Char} {n : Nat}
    {out : Option HiredisReply} (h : p.turn find chrtos l = .take n p' out) :
    0 < n ∧ n ≤ l.length := by
  unfold turn at h
  split at h
  · split at h
    · cases h
    · split at h
      · cases h
        exact ⟨Nat.one_pos, Nat.succ_pos _⟩
      · cases h
  · rename_i kind _
    have hscanned := scanned find kind p.frames.length l
    split at h
    · cases h
    · cases h
    · rename_i hleaf
      rw [hleaf] at hscanned
      cases h
      exact hscanned.leaf_bound hfind
    · rename_i harray
      rw [harray] at hscanned
      cases h
      exact hscanned.array_bound hfind

theorem turn_append {p : Parse} {l : List Char} (more : List Char)
    (h : p.turn lineEnd chrtos l ≠ .wait) :
    p.turn lineEnd chrtos (l ++ more) = p.turn lineEnd chrtos l := by
  unfold turn at h ⊢
  cases hkind : p.kind with
  | none =>
      rw [hkind] at h
      cases l with
      | nil => exact absurd rfl h
      | cons c rest => rfl
  | some kind =>
      rw [hkind] at h
      dsimp only at h ⊢
      rw [scan_append]
      intro hscan
      rw [hscan] at h
      exact h rfl

theorem steady : Steady (Parse.turn lineEnd chrtos) where
  progress := turn_progress lineEnd_bounded
  extend := turn_append

end Parse

end CloRedis
