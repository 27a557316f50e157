import CloRedis.Library.Decimals
import CloRedis.Redis.Reply

/-!
The replies of the protocol as bytes. A line goes up to the first CR LF. An
array announces how many replies follow it, and at most eight arrays are open
at a time. The two bytes behind a bulk string are not looked at.
-/

namespace CloRedis

open Library

def crlf : List Char := ['\r', '\n']

/-- How long the line in front of the first CR LF is. -/
def lineEnd : List Char → Option Nat
  | '\r' :: '\n' :: _ => some 0
  | _ :: rest => (lineEnd rest).map (· + 1)
  | [] => none

theorem length_append_crlf (l : List Char) : (l ++ crlf).length = l.length + 2 :=
  List.length_append

def intMax : Nat := 2 ^ 31 - 1

/-- The most arrays that contain one another. -/
def maxDepth : Nat := 8

/-- The replies that are not arrays. -/
inductive Leaf : List Char → HiredisReply → Prop where
  | status {text : List Char} : lineEnd text = none →
      Leaf ('+' :: (text ++ crlf)) { type := .status, str := text }
  | error {text : List Char} : lineEnd text = none →
      Leaf ('-' :: (text ++ crlf)) { type := .error, str := text }
  | integer {n : Int} : -2 ^ 63 ≤ n → n < 2 ^ 63 →
      Leaf (':' :: (decimal n ++ crlf)) { type := .integer, integer := n }
  | nil : Leaf ('$' :: (decimal (-1) ++ crlf)) { type := .nil }
  | string {text tail : List Char} : text.length < 2 ^ 63 → tail.length = 2 →
      Leaf ('$' :: (decimal text.length ++ crlf ++ (text ++ tail))) { type := .string, str := text }

def arrayHead (n : Int) : List Char := '*' :: (decimal n ++ crlf)

def arrayOf (items : List HiredisReply) : HiredisReply := { type := .array, element := items }

/-- The bytes denote the reply, with so many arrays inside one another. -/
def Denoting : Nat → List Char → HiredisReply → Prop
  | 0, bytes, reply => Leaf bytes reply
  | depth + 1, bytes, reply =>
      Leaf bytes reply ∨
      (bytes = arrayHead (-1) ∧ reply = { type := .nil }) ∨
      ∃ parts items, bytes = arrayHead items.length ++ parts.flatten ∧ reply = arrayOf items ∧
        items.length ≤ intMax ∧ List.Forall₂ (Denoting depth) parts items

/-! ### Lines -/

@[simp] theorem lineEnd_nil : lineEnd [] = none := rfl

@[simp] theorem lineEnd_crlf (rest : List Char) : lineEnd ('\r' :: '\n' :: rest) = some 0 := rfl

theorem lineEnd_cons {c : Char} {rest : List Char} (h : ¬(c = '\r' ∧ rest.head? = some '\n')) :
    lineEnd (c :: rest) = (lineEnd rest).map (· + 1) := by
  rw [lineEnd]
  rintro rest' rfl rfl
  exact h ⟨rfl, rfl⟩

/-- A line end is found where it is, and nothing in front of it is one. -/
theorem lineEnd_some {l : List Char} {n : Nat} (h : lineEnd l = some n) :
    l = l.take n ++ crlf ++ l.drop (n + 2) ∧ lineEnd (l.take n) = none ∧ n + 2 ≤ l.length := by
  induction l generalizing n with
  | nil => cases h
  | cons c rest ih =>
      by_cases hfirst : c = '\r' ∧ rest.head? = some '\n'
      · obtain ⟨rfl, hhead⟩ := hfirst
        cases rest with
        | nil => cases hhead
        | cons d rest =>
            cases Option.some.inj hhead
            cases h
            refine ⟨rfl, rfl, ?_⟩
            simp only [List.length_cons]
            omega
      · rw [lineEnd_cons hfirst, Option.map_eq_some_iff] at h
        obtain ⟨m, hm, rfl⟩ := h
        obtain ⟨hsplit, hnone, hlen⟩ := ih hm
        refine ⟨?_, ?_, ?_⟩
        · show c :: rest = c :: (rest.take m ++ crlf ++ rest.drop (m + 2))
          rw [← hsplit]
        · rw [List.take_succ_cons, lineEnd_cons, hnone]
          · rfl
          · rintro ⟨rfl, hhead⟩
            apply hfirst
            refine ⟨rfl, ?_⟩
            rw [List.head?_take] at hhead
            split at hhead
            · cases hhead
            · exact hhead
        · rw [List.length_cons]
          omega

theorem lineEnd_append {l : List Char} {n : Nat} (h : lineEnd l = some n) (more : List Char) :
    lineEnd (l ++ more) = some n := by
  induction l generalizing n with
  | nil => cases h
  | cons c rest ih =>
      by_cases hfirst : c = '\r' ∧ rest.head? = some '\n'
      · obtain ⟨rfl, hhead⟩ := hfirst
        cases rest with
        | nil => cases hhead
        | cons d rest =>
            cases Option.some.inj hhead
            exact h
      · rw [lineEnd_cons hfirst, Option.map_eq_some_iff] at h
        obtain ⟨m, hm, rfl⟩ := h
        rw [List.cons_append, lineEnd_cons, ih hm]
        · rfl
        · rintro ⟨rfl, hhead⟩
          apply hfirst
          refine ⟨rfl, ?_⟩
          cases rest with
          | nil => cases hm
          | cons d rest => exact hhead

/-- A text without a line end is the line in front of the next one. -/
theorem lineEnd_line {text : List Char} (h : lineEnd text = none) (rest : List Char) :
    lineEnd (text ++ crlf ++ rest) = some text.length := by
  induction text with
  | nil => rfl
  | cons c text ih =>
      have hfirst : ¬(c = '\r' ∧ text.head? = some '\n') := by
        rintro ⟨rfl, hhead⟩
        cases text with
        | nil => cases hhead
        | cons d text =>
            cases Option.some.inj hhead
            cases h
      rw [lineEnd_cons hfirst, Option.map_eq_none_iff] at h
      rw [List.cons_append, List.cons_append, lineEnd_cons, ih h]
      · rfl
      · rintro ⟨rfl, hhead⟩
        cases text with
        | nil => cases hhead
        | cons d text => exact hfirst ⟨rfl, hhead⟩

theorem lineEnd_of_no_cr {text : List Char} (h : '\r' ∉ text) : lineEnd text = none := by
  induction text with
  | nil => rfl
  | cons c text ih =>
      obtain ⟨hne, hrest⟩ := not_or.mp (mt List.mem_cons.mpr h)
      rw [lineEnd_cons (fun hfirst => hne hfirst.1.symm), ih hrest]
      rfl

theorem lineEnd_decimal (n : Int) (rest : List Char) :
    lineEnd (decimal n ++ crlf ++ rest) = some (decimal n).length := by
  apply lineEnd_line
  apply lineEnd_of_no_cr
  intro hcr
  have hdecimals : Decimals (decimal n) n := decimals_iff.mpr rfl
  rcases hdecimals.isDigit hcr with h | h
  · cases h
  · cases h

/-! ### Values with their bytes -/

mutual

/-- The bytes of a reply, for the types a server sends. -/
def HiredisReply.encode : HiredisReply → List Char
  | ⟨.status, _, str, _⟩ => '+' :: (str ++ crlf)
  | ⟨.error, _, str, _⟩ => '-' :: (str ++ crlf)
  | ⟨.integer, n, _, _⟩ => ':' :: (decimal n ++ crlf)
  | ⟨.nil, _, _, _⟩ => '$' :: (decimal (-1) ++ crlf)
  | ⟨.string, _, str, _⟩ => '$' :: (decimal str.length ++ crlf ++ (str ++ crlf))
  | ⟨.array, _, _, element⟩ => arrayHead element.length ++ HiredisReply.encodeAll element

def HiredisReply.encodeAll : List HiredisReply → List Char
  | [] => []
  | reply :: rest => reply.encode ++ HiredisReply.encodeAll rest

end

/-- The replies that are not arrays and have an encoding. -/
def HiredisReply.SendableLeaf : HiredisReply → Prop
  | ⟨.status, n, str, element⟩ => n = 0 ∧ element = [] ∧ lineEnd str = none
  | ⟨.error, n, str, element⟩ => n = 0 ∧ element = [] ∧ lineEnd str = none
  | ⟨.integer, n, str, element⟩ => str = [] ∧ element = [] ∧ -2 ^ 63 ≤ n ∧ n < 2 ^ 63
  | ⟨.nil, n, str, element⟩ => n = 0 ∧ str = [] ∧ element = []
  | ⟨.string, n, str, element⟩ => n = 0 ∧ element = [] ∧ str.length < 2 ^ 63
  | ⟨.array, _, _, _⟩ => False

/-- The replies that have an encoding, with so many arrays inside one another. -/
def HiredisReply.Sendable : Nat → HiredisReply → Prop
  | 0, reply => reply.SendableLeaf
  | depth + 1, reply =>
      reply.SendableLeaf ∨
      (reply = arrayOf reply.element ∧ reply.element.length ≤ intMax ∧
        ∀ item ∈ reply.element, item.Sendable depth)

theorem HiredisReply.encodeAll_eq (items : List HiredisReply) :
    encodeAll items = (items.map encode).flatten := by
  induction items with
  | nil => rfl
  | cons reply rest ih => rw [encodeAll, ih, List.map_cons, List.flatten_cons]

theorem HiredisReply.SendableLeaf.leaf {reply : HiredisReply} (h : reply.SendableLeaf) :
    Leaf reply.encode reply := by
  obtain ⟨type, n, str, element⟩ := reply
  cases type with
  | status =>
      obtain ⟨rfl, rfl, hline⟩ := h
      exact .status hline
  | error =>
      obtain ⟨rfl, rfl, hline⟩ := h
      exact .error hline
  | integer =>
      obtain ⟨rfl, rfl, hlow, hhigh⟩ := h
      exact .integer hlow hhigh
  | nil =>
      obtain ⟨rfl, rfl, rfl⟩ := h
      exact .nil
  | string =>
      obtain ⟨rfl, rfl, hlen⟩ := h
      exact .string hlen rfl
  | array => exact absurd h id

/-- An encoding denotes its reply. -/
theorem denoting_encode {depth : Nat} {reply : HiredisReply} (h : reply.Sendable depth) :
    Denoting depth reply.encode reply := by
  induction depth generalizing reply with
  | zero => exact HiredisReply.SendableLeaf.leaf h
  | succ depth ih =>
      rcases h with h | ⟨harray, hmax, hitems⟩
      · exact .inl h.leaf
      · refine .inr (.inr ⟨reply.element.map HiredisReply.encode, reply.element, ?_, harray, hmax,
          ?_⟩)
        · rw [← HiredisReply.encodeAll_eq]
          nth_rewrite 1 [harray]
          rfl
        · rw [List.forall₂_map_left_iff, List.forall₂_same]
          exact fun item hitem => ih (hitems item hitem)

theorem denoting_encodeAll {items : List HiredisReply}
    (h : ∀ item ∈ items, item.Sendable maxDepth) :
    List.Forall₂ (Denoting maxDepth) (items.map HiredisReply.encode) items := by
  rw [List.forall₂_map_left_iff, List.forall₂_same]
  exact fun item hitem => denoting_encode (h item hitem)

end CloRedis
