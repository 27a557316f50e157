import CloRedis.Manager.Parsing

/-!
What `parse_address_vector` takes for an address and is none. `atoi` stops at
the first character that is not a digit, reads signs, and narrows the number,
and the host is not looked at; so an entry with one colon may be accepted
without being an address. The entries the parser misreads are described by
what stands in them.
-/

namespace CloRedis

open Library

/-- The entry has one colon, a host in front of it and a port in decimal
behind it, and `addr` is this address. -/
def Denotes (entry : List Char) (addr : ServiceAddress) : Prop :=
  ∃ host service, entry = host ++ ':' :: service ∧ ':' ∉ host ∧ ':' ∉ service ∧
    trim host ≠ [] ∧ trim service ≠ [] ∧ (∀ c ∈ trim service, c.isDigit = true) ∧
    1 ≤ digitValue (trim service) ∧ digitValue (trim service) ≤ 65535 ∧
    addr = ⟨String.ofList (trim host), String.ofList (trim entry), digitValue (trim service)⟩

/-- The entry has one colon, and the number that begins behind it, narrowed to
an `int`, is a port; but the host is blank, or the number has a sign, or
something stands behind the digits, or the digits denote a larger number. -/
def Misread (entry : List Char) : Prop :=
  ∃ host service lead sign digits rest, entry = host ++ ':' :: service ∧ ':' ∉ host ∧
    ':' ∉ service ∧ Reading service lead sign digits rest ∧
    1 ≤ narrow (signed sign (digitValue digits)) ∧
    narrow (signed sign (digitValue digits)) ≤ 65535 ∧
    ((∀ c ∈ host, isSpace c = true) ∨ sign ≠ [] ∨ (∃ c ∈ rest, isSpace c = false) ∨
      65535 < digitValue digits)

theorem parseAddress_some {entry : List Char} {addr : ServiceAddress}
    (h : parseAddress entry = some addr) :
    ∃ host service, entry = host ++ ':' :: service ∧ ':' ∉ host ∧ ':' ∉ service ∧
      0 < atoi service ∧ atoi service < 65536 ∧
      addr = ⟨String.ofList (trim host), String.ofList (trim entry), atoi service⟩ := by
  unfold parseAddress at h
  split at h
  · rename_i host service hsplit
    obtain ⟨hentry, hhost, hservice⟩ := splitOn_eq_pair hsplit
    dsimp only at h
    split at h
    · rename_i hrange
      cases h
      exact ⟨host, service, hentry, hhost, hservice, hrange.1, hrange.2, rfl⟩
    · cases h
  · cases h

/-- A text in which digits can be read is read in one way only. -/
theorem Reading.unique {text lead sign digits rest lead' sign' digits' rest' : List Char}
    (h : Reading text lead sign digits rest) (h' : Reading text lead' sign' digits' rest')
    (hne : digits ≠ []) (hne' : digits' ≠ []) :
    sign = sign' ∧ digits = digits' ∧ rest = rest' := by
  have hunpadded : sign ++ (digits ++ rest) = sign' ++ (digits' ++ rest') := by
    rw [← h.dropWhile_space hne, h'.dropWhile_space hne']
  have hsigns := h.signOf_eq hne
  rw [hunpadded, h'.signOf_eq hne', Prod.mk.injEq] at hsigns
  have hdigits := takeWhile_digits h.digits h.rest
  rw [← hsigns.2, takeWhile_digits h'.digits h'.rest] at hdigits
  have hrest := hsigns.2
  rw [hdigits] at hrest hunpadded
  have hrest' : rest' = rest := List.append_cancel_left hrest
  rw [hrest'] at hunpadded
  exact ⟨List.append_cancel_right hunpadded, hdigits.symm, hrest'.symm⟩

theorem Reading.digits_ne_nil {text lead sign digits rest : List Char}
    (h : Reading text lead sign digits rest) (hpos : 1 ≤ narrow (signed sign (digitValue digits))) :
    digits ≠ [] := by
  rintro rfl
  have hzero : narrow (signed sign (digitValue [])) = 0 := by
    rcases h.sign with rfl | rfl | rfl <;> rfl
  omega

/-- What is left of the part behind the colon after trimming, if it consists
of digits, is what `strtol` reads. -/
theorem reading_trim {service : List Char} (hdigits : ∀ c ∈ trim service, c.isDigit = true) :
    ∃ lead trail, Reading service lead [] (trim service) trail ∧
      ∀ c ∈ trail, isSpace c = true := by
  obtain ⟨lead, trail, hservice, hlead, htrail⟩ := exists_padding isSpace service
  refine ⟨lead, trail, ⟨?_, hlead, .inl rfl, hdigits, ?_⟩, htrail⟩
  · rw [List.nil_append, ← List.append_assoc]
    exact hservice
  · intro c hc
    exact isDigit_of_isSpace (htrail c (List.mem_of_mem_head? hc))

theorem Denotes.parse {entry : List Char} {addr : ServiceAddress} (h : Denotes entry addr) :
    parseAddress entry = some addr := by
  obtain ⟨host, service, hentry, hhost, hservice, _, hne, hdigits, hpos, hle, haddr⟩ := h
  obtain ⟨lead, trail, hreading, _⟩ := reading_trim hdigits
  have hport : atoi service = digitValue (trim service) := by
    rw [hreading.atoi_eq hne]
    exact narrow_of_lt (by omega)
  rw [haddr, hentry, parseAddress_pair hhost hservice, hport, if_pos]
  omega

/-- A misread entry denotes nothing. -/
theorem Misread.not_denotes {entry : List Char} (h : Misread entry) (addr : ServiceAddress) :
    ¬Denotes entry addr := by
  obtain ⟨host, service, lead, sign, digits, rest, hentry, hhost, hservice, hreading, hpos, _,
    hwrong⟩ := h
  rintro ⟨host', service', hentry', hhost', hservice', hbare, hne, hdigits, _, hle, _⟩
  obtain ⟨rfl, rfl⟩ :=
    append_separator_inj hhost hservice hhost' hservice' (hentry.symm.trans hentry')
  obtain ⟨lead', trail, hreading', htrail⟩ := reading_trim hdigits
  have hsome : digits ≠ [] := hreading.digits_ne_nil hpos
  obtain ⟨rfl, rfl, rfl⟩ := hreading.unique hreading' hsome hne
  rcases hwrong with hblank | hsign | ⟨c, hc, hnot⟩ | hlarge
  · exact hbare (strip_blank hblank)
  · exact hsign rfl
  · rw [htrail c hc] at hnot
    cases hnot
  · omega

theorem Misread.parse {entry : List Char} (h : Misread entry) :
    ∃ addr, parseAddress entry = some addr := by
  obtain ⟨host, service, lead, sign, digits, rest, rfl, hhost, hservice, hreading, hpos, hle,
    _⟩ := h
  have hsome : digits ≠ [] := hreading.digits_ne_nil hpos
  have hport := hreading.atoi_eq hsome
  rw [parseAddress_pair hhost hservice, hport, if_pos]
  · exact ⟨_, rfl⟩
  · omega

/-- An accepted entry is an address, or it is misread. -/
theorem denotes_or_misread {entry : List Char} {addr : ServiceAddress}
    (h : parseAddress entry = some addr) : Denotes entry addr ∨ Misread entry := by
  obtain ⟨host, service, hentry, hhost, hservice, hpos, hlt, haddr⟩ := parseAddress_some h
  obtain ⟨lead, sign, digits, rest, hreading, hnone⟩ := exists_reading service
  have hsome : digits ≠ [] := by
    intro hempty
    rw [hnone hempty] at hpos
    exact lt_irrefl _ hpos
  have hport := hreading.atoi_eq hsome
  rw [hport] at hpos hlt
  by_cases hwrong : (∀ c ∈ host, isSpace c = true) ∨ sign ≠ [] ∨ (∃ c ∈ rest, isSpace c = false) ∨
      65535 < digitValue digits
  · right
    exact ⟨host, service, lead, sign, digits, rest, hentry, hhost, hservice, hreading, by omega,
      by omega, hwrong⟩
  · left
    simp only [not_or, not_not, not_exists, not_and, Bool.not_eq_false, not_lt] at hwrong
    obtain ⟨hhostSome, rfl, hrest, hvalue⟩ := hwrong
    have htrim : trim service = digits := by
      have hbare : Bare isSpace digits :=
        ⟨fun c hc => isSpace_of_isDigit (hreading.digits c (List.mem_of_mem_head? hc)),
          fun c hc => isSpace_of_isDigit (hreading.digits c (List.mem_of_mem_getLast? hc))⟩
      have htext := hreading.text
      rw [List.nil_append, ← List.append_assoc] at htext
      rw [htext]
      exact strip_pad hreading.lead hbare hrest
    have hnarrow : narrow (digitValue digits) = digitValue digits := narrow_of_lt (by omega)
    have hsigned : signed [] (digitValue digits) = digitValue digits := rfl
    rw [hsigned, hnarrow] at hpos hport
    refine ⟨host, service, hentry, hhost, hservice, ?_, ?_, ?_, ?_, ?_, ?_⟩
    · exact fun hblank => hhostSome (strip_eq_nil_iff.mp hblank)
    · rw [htrim]
      exact hsome
    · rw [htrim]
      exact hreading.digits
    · rw [htrim]
      omega
    · rw [htrim]
      exact hvalue
    · rw [haddr, htrim, hport]

/-- Entries that are accepted as the same address are the same but for the
white space around them. -/
theorem Denotes.of_parse {entry other : List Char} {addr : ServiceAddress}
    (h : Denotes other addr) (hparse : parseAddress entry = some addr) : Denotes entry addr := by
  obtain ⟨host, service, hentry, hhost, hservice, _, _, haddr⟩ := parseAddress_some hparse
  obtain ⟨host', service', hother, hhost', hservice', hne, hsome, hdigits, hpos, hle, haddr'⟩ := h
  have hsame : trim entry = trim other := by
    have hfull := congrArg ServiceAddress.fullHost (haddr.symm.trans haddr')
    exact String.ofList_injective hfull
  have htrim := hsame
  rw [hentry, hother, trim_eq, trim_eq, strip_pair rfl, strip_pair rfl] at htrim
  have hsub (text : List Char) : ':' ∉ text →
      ':' ∉ text.dropWhile isSpace ∧ ':' ∉ text.rdropWhile isSpace := fun hnot =>
    ⟨fun hmem => hnot ((List.dropWhile_sublist _).subset hmem),
      fun hmem => hnot ((List.rdropWhile_prefix _ _).subset hmem)⟩
  obtain ⟨hfront, hback⟩ := append_separator_inj (hsub host hhost).1 (hsub service hservice).2
    (hsub host' hhost').1 (hsub service' hservice').2 htrim
  have hhosts : trim host = trim host' := congrArg (List.rdropWhile isSpace) hfront
  have hservices : trim service = trim service' := by
    rw [trim_eq, ← strip_rdropWhile, hback, strip_rdropWhile, trim_eq]
  rw [← hhosts] at hne
  rw [← hservices] at hsome hdigits hpos hle
  refine ⟨host, service, hentry, hhost, hservice, hne, hsome, hdigits, hpos, hle, ?_⟩
  rw [haddr', hhosts, hservices, hsame]

/-- Every address the parser returns is denoted by an entry of the list if and
only if no entry is misread. -/
theorem accepts_addresses_iff (host : String) :
    (∀ addr ∈ parseAddressVector host, ∃ entry ∈ host.toList.splitOn ',', Denotes entry addr) ↔
      ∀ entry ∈ host.toList.splitOn ',', ¬Misread entry := by
  constructor
  · intro hall entry hentry hmisread
    obtain ⟨addr, hparse⟩ := hmisread.parse
    have hmem : addr ∈ parseAddressVector host := List.mem_filterMap.mpr ⟨entry, hentry, hparse⟩
    obtain ⟨other, _, hdenotes⟩ := hall addr hmem
    exact hmisread.not_denotes addr (hdenotes.of_parse hparse)
  · intro hnone addr hmem
    obtain ⟨entry, hentry, hparse⟩ := List.mem_filterMap.mp hmem
    rcases denotes_or_misread hparse with hdenotes | hmisread
    · exact ⟨entry, hentry, hdenotes⟩
    · exact absurd hmisread (hnone entry hentry)

theorem misread_trailing : Misread "localhost:6379abc".toList :=
  ⟨"localhost".toList, "6379abc".toList, [], [], "6379".toList, "abc".toList, by decide, by decide,
    by decide, ⟨by decide, by simp, .inl rfl, by simp, by simp⟩, by decide,
    by decide, .inr (.inr (.inl ⟨'a', by decide, by decide⟩))⟩

/-- What stands behind the port is not noticed. -/
theorem trailing_text_accepted :
    parseAddressVector "localhost:6379abc" = [⟨"localhost", "localhost:6379abc", 6379⟩] ∧
      ¬∀ addr ∈ parseAddressVector "localhost:6379abc",
        ∃ entry ∈ "localhost:6379abc".toList.splitOn ',', Denotes entry addr := by
  have hparse : parseAddressVector "localhost:6379abc" =
      [⟨"localhost", "localhost:6379abc", 6379⟩] := by
    decide +kernel
  have hsplit : "localhost:6379abc".toList.splitOn ',' = ["localhost:6379abc".toList] :=
    List.splitOn_eq_singleton (by decide)
  refine ⟨hparse, ?_⟩
  intro hall
  rw [hparse, hsplit] at hall
  obtain ⟨entry, hentry, hdenotes⟩ := hall _ (List.mem_singleton_self _)
  rw [List.mem_singleton.mp hentry] at hdenotes
  exact misread_trailing.not_denotes _ hdenotes

end CloRedis
