import CloRedis.Library.Text
import CloRedis.Manager.Address

/-!
`parse_address_vector` finds every address of a well-formed list. An entry is
an address or malformed in one of the ways the parser notices; whatever the
entries are, parsing their text gives the addresses among them in order.
-/

namespace CloRedis

open Library

/-! ### Numbers -/

theorem isSpace_of_isDigit {c : Char} (h : c.isDigit = true) : isSpace c = false := by
  simp only [Char.isDigit, Bool.and_eq_true, decide_eq_true_eq] at h
  have hlow := UInt32.le_iff_toNat_le.mp h.1
  simp only [isSpace, Bool.or_eq_false_iff, decide_eq_false_iff_not, Bool.and_eq_false_iff]
  constructor
  · rintro rfl
    revert hlow
    decide
  · right
    intro hhigh
    have hcode : c.val.toNat ≤ 13 := UInt32.le_iff_toNat_le.mp (Char.le_def.mp hhigh)
    have hdigit : 48 ≤ c.val.toNat := hlow
    omega

theorem isDigit_of_isSpace {c : Char} (h : isSpace c = true) : c.isDigit = false := by
  cases hdigit : c.isDigit with
  | false => rfl
  | true =>
      rw [isSpace_of_isDigit hdigit] at h
      cases h

/-- Digits, of which the value is `n`. -/
structure Decimal (n : Nat) where
  digits : List Char
  nonempty : digits ≠ []
  isDigit : ∀ c ∈ digits, c.isDigit = true
  value : digitValue digits = n

/-- The usual notation of a number. -/
def Decimal.ofNat (n : Nat) : Decimal n where
  digits := Nat.toDigits 10 n
  nonempty := Nat.toDigits_ne_nil
  isDigit _ hc := Nat.isDigit_of_mem_toDigits (by decide) (by decide) hc
  value := Nat.ofDigitChars_ten_toDigits

/-- How `strtol` reads a text: white space, a sign, digits, and what is left. -/
structure Reading (text lead sign digits rest : List Char) : Prop where
  text : text = lead ++ (sign ++ (digits ++ rest))
  lead : ∀ c ∈ lead, isSpace c = true
  sign : sign = [] ∨ sign = ['+'] ∨ sign = ['-']
  digits : ∀ c ∈ digits, c.isDigit = true
  rest : ∀ c ∈ rest.head?, c.isDigit = false

def signed (sign : List Char) (n : Nat) : Int := if sign = ['-'] then -n else n

/-- The nearest 64-bit number, then the 32-bit number congruent to it. -/
def narrow (n : Int) : Int := (max (-2 ^ 63) (min (2 ^ 63 - 1) n)).bmod (2 ^ 32)

theorem narrow_of_lt {n : Nat} (h : n < 2 ^ 31) : narrow n = n := by
  have hsaturate : max (-2 ^ 63) (min (2 ^ 63 - 1) (n : Int)) = n := by omega
  unfold narrow
  rw [hsaturate]
  apply Int.bmod_eq_of_le <;> omega

theorem takeWhile_digits {digits rest : List Char} (hdigits : ∀ c ∈ digits, c.isDigit = true)
    (hrest : ∀ c ∈ rest.head?, c.isDigit = false) :
    (digits ++ rest).takeWhile Char.isDigit = digits := by
  rw [List.takeWhile_append_of_pos hdigits]
  cases rest with
  | nil => simp
  | cons c rest =>
      have hstop := hrest c rfl
      simp [hstop]

namespace Reading

variable {text lead sign digits rest : List Char}

theorem head_digits (h : Reading text lead sign digits rest) (hne : digits ≠ []) :
    ∃ c tail, digits ++ rest = c :: tail ∧ c.isDigit = true := by
  cases digits with
  | nil => exact absurd rfl hne
  | cons c digits => exact ⟨c, digits ++ rest, rfl, h.digits c (List.mem_cons_self ..)⟩

theorem dropWhile_space (h : Reading text lead sign digits rest) (hne : digits ≠ []) :
    text.dropWhile isSpace = sign ++ (digits ++ rest) := by
  rw [h.text, List.dropWhile_append_of_pos h.lead]
  obtain ⟨c, tail, htail, hc⟩ := h.head_digits hne
  apply dropWhile_of_head
  intro d hd
  rcases h.sign with rfl | rfl | rfl
  · rw [htail] at hd
    cases hd
    exact isSpace_of_isDigit hc
  · cases hd
    rfl
  · cases hd
    rfl

theorem signOf_eq (h : Reading text lead sign digits rest) (hne : digits ≠ []) :
    signOf (sign ++ (digits ++ rest)) = (decide (sign = ['-']), digits ++ rest) := by
  obtain ⟨c, tail, htail, hc⟩ := h.head_digits hne
  rcases h.sign with rfl | rfl | rfl
  · rw [htail, List.nil_append]
    unfold signOf
    split
    · rename_i heq
      cases heq
      simp at hc
    · rename_i heq
      cases heq
      simp at hc
    · rfl
  · rfl
  · rfl

theorem atoi_eq (h : Reading text lead sign digits rest) (hne : digits ≠ []) :
    atoi text = narrow (signed sign (digitValue digits)) := by
  unfold atoi strtol
  rw [h.dropWhile_space hne, h.signOf_eq hne]
  dsimp only
  rw [takeWhile_digits h.digits h.rest]
  by_cases hminus : sign = ['-'] <;> simp [narrow, signed, hminus]

end Reading

/-- The digits from the front of a text on. -/
theorem reading_digits (lead sign text : List Char) (hlead : ∀ c ∈ lead, isSpace c = true)
    (hsign : sign = [] ∨ sign = ['+'] ∨ sign = ['-']) :
    Reading (lead ++ (sign ++ text)) lead sign (text.takeWhile Char.isDigit)
      (text.dropWhile Char.isDigit) where
  text := by rw [List.takeWhile_append_dropWhile]
  lead := hlead
  sign := hsign
  digits _ hc := List.mem_takeWhile_imp hc
  rest := head_dropWhile Char.isDigit text

theorem signOf_cases (text : List Char) :
    ∃ sign unsigned, text = sign ++ unsigned ∧ (sign = [] ∨ sign = ['+'] ∨ sign = ['-']) ∧
      ∃ negative, signOf text = (negative, unsigned) := by
  unfold signOf
  split
  · rename_i rest
    exact ⟨['-'], rest, rfl, .inr (.inr rfl), true, rfl⟩
  · rename_i rest
    exact ⟨['+'], rest, rfl, .inr (.inl rfl), false, rfl⟩
  · exact ⟨[], text, rfl, .inl rfl, false, rfl⟩

/-- Every text can be read so; without digits the number is zero. -/
theorem exists_reading (text : List Char) :
    ∃ lead sign digits rest, Reading text lead sign digits rest ∧
      (digits = [] → atoi text = 0) := by
  obtain ⟨lead, htext, hlead⟩ := exists_lead isSpace text
  obtain ⟨sign, unsigned, hunpadded, hsign, negative, hsignOf⟩ :=
    signOf_cases (text.dropWhile isSpace)
  have hreading := reading_digits lead sign unsigned hlead hsign
  rw [← hunpadded, ← htext] at hreading
  refine ⟨lead, sign, _, _, hreading, ?_⟩
  intro hnone
  unfold atoi strtol
  rw [hsignOf]
  dsimp only
  rw [hnone]
  cases negative <;> rfl

/-! ### Entries -/

theorem parseAddress_pair {host service : List Char} (hhost : ':' ∉ host)
    (hservice : ':' ∉ service) :
    parseAddress (host ++ ':' :: service) =
      if 0 < atoi service ∧ atoi service < 65536 then
        some ⟨String.ofList (trim host), String.ofList (trim (host ++ ':' :: service)),
          atoi service⟩
      else none := by
  unfold parseAddress
  rw [splitOn_pair hhost hservice]

theorem parseAddress_unpaired {text : List Char} (h : text.count ':' ≠ 1) :
    parseAddress text = none := by
  have hlen := length_splitOn ':' text
  unfold parseAddress
  split
  · rename_i host service hsplit
    rw [hsplit] at hlen
    simp only [List.length_cons, List.length_nil] at hlen
    omega
  · rfl

/-- An address as it may stand in the list: white space around it, a host, a
colon and a port. -/
structure AddressEntry where
  lead : List Char
  host : List Char
  port : Nat
  decimal : Decimal port
  trail : List Char
  lead_space : ∀ c ∈ lead, isSpace c = true
  trail_space : ∀ c ∈ trail, isSpace c = true
  host_nonempty : host ≠ []
  host_bare : Bare isSpace host
  host_comma : ',' ∉ host
  host_colon : ':' ∉ host
  port_pos : 0 < port
  port_lt : port < 65536

/-- An entry of the list the parser is given. A malformed one has no colon or
more than one, or the number behind its only colon is out of range. -/
inductive Entry where
  | address (a : AddressEntry)
  | unpaired (text : List Char) (comma : ',' ∉ text) (colons : text.count ':' ≠ 1)
  | badPort (host lead : List Char) (n : Nat) (decimal : Decimal n) (trail : List Char)
      (comma : ',' ∉ host) (colon : ':' ∉ host) (lead_space : ∀ c ∈ lead, isSpace c = true)
      (trail_space : ∀ c ∈ trail, isSpace c = true) (range : n = 0 ∨ 65536 ≤ n ∧ n < 2 ^ 31)

/-- Host, colon and port. -/
def AddressEntry.fullHost (a : AddressEntry) : List Char := a.host ++ ':' :: a.decimal.digits

def AddressEntry.text (a : AddressEntry) : List Char := a.lead ++ a.fullHost ++ a.trail

def AddressEntry.parsed (a : AddressEntry) : ServiceAddress :=
  ⟨String.ofList a.host, String.ofList a.fullHost, a.port⟩

namespace Entry

def text : Entry → List Char
  | address a => a.text
  | unpaired text _ _ => text
  | badPort host lead _ decimal trail _ _ _ _ _ =>
      host ++ ':' :: (lead ++ decimal.digits ++ trail)

def parsed : Entry → Option ServiceAddress
  | address a => some a.parsed
  | _ => none

end Entry

theorem not_mem_of_isSpace {l : List Char} {x : Char} (hspace : ∀ c ∈ l, isSpace c = true)
    (hx : isSpace x = false) : x ∉ l := by
  intro hmem
  rw [hspace x hmem] at hx
  cases hx

theorem Decimal.not_mem {n : Nat} (d : Decimal n) {x : Char} (hx : x.isDigit = false) :
    x ∉ d.digits := by
  intro hmem
  rw [d.isDigit x hmem] at hx
  cases hx

theorem Decimal.bare {n : Nat} (d : Decimal n) : Bare isSpace d.digits where
  front _ hc := isSpace_of_isDigit (d.isDigit _ (List.mem_of_mem_head? hc))
  back _ hc := isSpace_of_isDigit (d.isDigit _ (List.mem_of_mem_getLast? hc))

/-- A number with white space around it is converted to its value. -/
theorem atoi_decimal {n : Nat} (d : Decimal n) {lead trail : List Char}
    (hlead : ∀ c ∈ lead, isSpace c = true) (htrail : ∀ c ∈ trail, isSpace c = true)
    (hn : n < 2 ^ 31) : atoi (lead ++ d.digits ++ trail) = n := by
  have hreading : Reading (lead ++ d.digits ++ trail) lead [] d.digits trail := by
    refine ⟨by simp, hlead, .inl rfl, d.isDigit, ?_⟩
    intro c hc
    exact isDigit_of_isSpace (htrail c (List.mem_of_mem_head? hc))
  rw [hreading.atoi_eq d.nonempty, d.value]
  exact narrow_of_lt hn

theorem trim_eq (text : List Char) : trim text = strip isSpace text := rfl

theorem AddressEntry.parse_text (a : AddressEntry) : parseAddress a.text = some a.parsed := by
  have htext : a.text = (a.lead ++ a.host) ++ ':' :: (a.decimal.digits ++ a.trail) := by
    simp [text, fullHost]
  have hhost : ':' ∉ a.lead ++ a.host := by
    rw [List.mem_append, not_or]
    exact ⟨not_mem_of_isSpace a.lead_space rfl, a.host_colon⟩
  have hservice : ':' ∉ a.decimal.digits ++ a.trail := by
    rw [List.mem_append, not_or]
    exact ⟨a.decimal.not_mem rfl, not_mem_of_isSpace a.trail_space rfl⟩
  have hport : atoi (a.decimal.digits ++ a.trail) = a.port := by
    have hlt := a.port_lt
    have hnone : ∀ c ∈ ([] : List Char), isSpace c = true := by simp
    have hread := atoi_decimal a.decimal hnone a.trail_space (by omega)
    rwa [List.nil_append] at hread
  have hrange : (0 : Int) < a.port ∧ (a.port : Int) < 65536 := by
    have hpos := a.port_pos
    have hlt := a.port_lt
    omega
  have htrimHost : trim (a.lead ++ a.host) = a.host := by
    rw [trim_eq, strip_lead a.lead_space, strip_of_bare a.host_bare]
  have htrimText : trim a.text = a.fullHost := by
    have hbare := a.host_bare.pair a.decimal.bare a.host_nonempty a.decimal.nonempty ':'
    exact strip_pad a.lead_space hbare a.trail_space
  rw [htext] at htrimText ⊢
  rw [parseAddress_pair hhost hservice, hport, if_pos hrange, htrimHost, htrimText]
  rfl

/-- The parser finds the address of an entry, and nothing in a malformed one. -/
theorem Entry.parse_text (e : Entry) : parseAddress e.text = e.parsed := by
  cases e with
  | address a => exact a.parse_text
  | unpaired text _ colons => exact parseAddress_unpaired colons
  | badPort host lead n decimal trail comma colon lead_space trail_space range =>
      have hservice : ':' ∉ lead ++ decimal.digits ++ trail := by
        rw [List.mem_append, List.mem_append, not_or, not_or]
        exact ⟨⟨not_mem_of_isSpace lead_space rfl, decimal.not_mem rfl⟩,
          not_mem_of_isSpace trail_space rfl⟩
      have hport : atoi (lead ++ decimal.digits ++ trail) = n :=
        atoi_decimal decimal lead_space trail_space (by omega)
      change parseAddress (host ++ ':' :: (lead ++ decimal.digits ++ trail)) = none
      rw [parseAddress_pair colon hservice, hport, if_neg]
      omega

theorem Entry.text_comma (e : Entry) : ',' ∉ e.text := by
  cases e with
  | address a =>
      have hlead := not_mem_of_isSpace (x := ',') a.lead_space rfl
      have hdigits := a.decimal.not_mem (x := ',') rfl
      have htrail := not_mem_of_isSpace (x := ',') a.trail_space rfl
      simp [text, AddressEntry.text, AddressEntry.fullHost, hlead, a.host_comma, hdigits, htrail]
  | unpaired text comma _ => exact comma
  | badPort host lead n decimal trail comma _ lead_space trail_space _ =>
      have hlead := not_mem_of_isSpace (x := ',') lead_space rfl
      have hdigits := decimal.not_mem (x := ',') rfl
      have htrail := not_mem_of_isSpace (x := ',') trail_space rfl
      simp [text, comma, hlead, hdigits, htrail]

/-- Parsing a list of entries gives their addresses, in order. -/
theorem parse_of_entries (entries : List Entry) :
    parseAddressVector (String.ofList ([','].intercalate (entries.map Entry.text))) =
      entries.filterMap Entry.parsed := by
  unfold parseAddressVector
  rw [String.toList_ofList]
  cases entries with
  | nil => rfl
  | cons e entries =>
      have hcomma : ∀ l ∈ (e :: entries).map Entry.text, ',' ∉ l := by
        intro l hl
        obtain ⟨other, _, rfl⟩ := List.mem_map.mp hl
        exact other.text_comma
      have hne : (e :: entries).map Entry.text ≠ [] := List.cons_ne_nil _ _
      have hparse : parseAddress ∘ Entry.text = Entry.parsed := funext Entry.parse_text
      rw [List.splitOn_intercalate ',' hcomma hne, List.filterMap_map, hparse]

example : parseAddressVector " db1:6379,db2,:db3:1, db4:65536 ,db5:065535\n" =
    [⟨"db1", "db1:6379", 6379⟩, ⟨"db5", "db5:065535", 65535⟩] := by
  decide +kernel

end CloRedis
