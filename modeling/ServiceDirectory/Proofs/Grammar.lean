import ServiceDirectory.Json.Reader
import ServiceDirectory.Proofs.Digits

/-! JSON text by its grammar, with white space wherever it may stand, and that it is read as what it
spells, whatever follows it. -/
namespace ServiceDirectory.Json
open Number (isDigit naturalOf Ends)

inductive CodeUnit : Nat → List Char → Prop where
  | four {a b c d : Char} {w x y z : Nat} : hexValue? a = some w → hexValue? b = some x →
      hexValue? c = some y → hexValue? d = some z →
      CodeUnit (((w * 16 + x) * 16 + y) * 16 + z) [a, b, c, d]

inductive Quotes : Option (List Char) → List Char → Prop where
  | close : Quotes (some []) ['"']
  | plain {meant cs c} : c ≠ '"' → c ≠ '\\' → 0x20 ≤ c.toNat → Quotes meant cs →
      Quotes (meant.map (c :: ·)) (c :: cs)
  | short {meant cs c d} : shortEscape? c = some d → Quotes meant cs →
      Quotes (meant.map (d :: ·)) ('\\' :: c :: cs)
  | unit {meant cs n four} : CodeUnit n four → isHighSurrogate n = false →
      isLowSurrogate n = false → Quotes meant cs →
      Quotes (meant.map (Char.ofNat n :: ·)) ('\\' :: 'u' :: (four ++ cs))
  | pair {meant cs high low four more} : CodeUnit high four → CodeUnit low more →
      isHighSurrogate high = true → isLowSurrogate low = true → Quotes meant cs →
      Quotes (meant.map (Char.ofNat (0x10000 + (high - 0xD800) * 0x400 + (low - 0xDC00)) :: ·))
        ('\\' :: 'u' :: (four ++ '\\' :: 'u' :: (more ++ cs)))
  | half {meant cs n four} : CodeUnit n four →
      isHighSurrogate n = true ∨ isLowSurrogate n = true →
      (isHighSurrogate n = true → readLowHalf? cs = none) →
      Quotes meant cs → Quotes none ('\\' :: 'u' :: (four ++ cs))

theorem unitReads {n : Nat} {four : List Char} (unit : CodeUnit n four) (rest : List Char) :
    readHex4 (four ++ rest) = .ok (n, rest) := by
  obtain ⟨first, second, third, last⟩ := unit
  rename_i a b c d w x y z
  have long : 4 ≤ a.utf8Size + (b.utf8Size + (c.utf8Size + d.utf8Size)) := by
    have := Char.utf8Size_pos a
    have := Char.utf8Size_pos b
    have := Char.utf8Size_pos c
    have := Char.utf8Size_pos d
    omega
  simp [readHex4, first, second, third, last, long]

theorem shortNotUnit {c d : Char} (short : shortEscape? c = some d) : c ≠ 'u' := by
  rintro rfl
  cases short

theorem quotesGoOn {meant : Option (List Char)} {cs : List Char} (quotes : Quotes meant cs)
    (rest : List Char) : endsInEscape (cs ++ rest) = false := by
  cases quotes with
  | close => rfl
  | plain noQuote noEscape =>
    simp only [List.cons_append, endsInEscape]
    split <;> simp_all
  | short short =>
    have other := shortNotUnit short
    simp only [List.cons_append, endsInEscape]
    split <;> simp_all
  | unit unit => simp [endsInEscape, unitReads unit]
  | pair unit => simp [endsInEscape, unitReads unit]
  | half unit => simp [endsInEscape, unitReads unit]

theorem lowHalfReads {n : Nat} {four : List Char} (unit : CodeUnit n four) (rest : List Char) :
    readLowHalf? ('\\' :: 'u' :: (four ++ rest)) =
      if isLowSurrogate n = true then some (n, rest) else none := by
  simp [readLowHalf?, unitReads unit]

theorem halfAlone {meant : Option (List Char)} {cs : List Char} (quotes : Quotes meant cs)
    (alone : readLowHalf? cs = none) (rest : List Char) : readLowHalf? (cs ++ rest) = none := by
  cases quotes with
  | close => rfl
  | plain noQuote noEscape =>
    simp only [List.cons_append, readLowHalf?]
    split <;> simp_all
  | short short =>
    have other := shortNotUnit short
    simp only [List.cons_append, readLowHalf?]
    split <;> simp_all
  | unit unit =>
    rw [lowHalfReads unit] at alone
    simpa [lowHalfReads unit] using alone
  | pair unit =>
    rw [lowHalfReads unit] at alone
    simpa [lowHalfReads unit] using alone
  | half unit =>
    rw [lowHalfReads unit] at alone
    simpa [lowHalfReads unit] using alone

def said (whole : Bool) (seen : List Char) (meant : Option (List Char)) : Option String :=
  if whole then meant.map fun more => String.ofList (seen.reverse ++ more) else none

theorem saidCons (whole : Bool) (seen : List Char) (c : Char) (meant : Option (List Char)) :
    said whole (c :: seen) meant = said whole seen (meant.map (c :: ·)) := by
  cases meant <;> simp [said]

theorem spend {n fuel : Nat} (enough : n + 1 ≤ fuel) : ∃ left, fuel = left + 1 ∧ n ≤ left :=
  ⟨fuel - 1, by omega, by omega⟩

theorem quotesRead {meant : Option (List Char)} {cs : List Char} (quotes : Quotes meant cs) :
    ∀ (fuel : Nat) (seen : List Char) (whole : Bool) (rest : List Char), cs.length ≤ fuel →
      readQuotedFrom fuel (cs ++ rest) seen whole = ⟨said whole seen meant, none, rest⟩ := by
  induction quotes with
  | close =>
    intro fuel seen whole rest enough
    obtain ⟨left, rfl, _⟩ := spend enough
    simp [readQuotedFrom, said]
  | @plain meant cs c noQuote noEscape printed _ ih =>
    intro fuel seen whole rest enough
    obtain ⟨left, rfl, fits⟩ := spend enough
    have read := ih left (c :: seen) whole rest fits
    rw [saidCons] at read
    simp [readQuotedFrom, noEscape, Nat.not_lt.mpr printed, read]
  | @short meant cs c d short _ ih =>
    intro fuel seen whole rest enough
    obtain ⟨left, rfl, fits⟩ := spend enough
    have read := ih left (d :: seen) whole rest (Nat.le_of_succ_le fits)
    have other := shortNotUnit short
    rw [saidCons] at read
    simp [readQuotedFrom, short, read]
  | @unit meant cs n four unit noHigh noLow _ ih =>
    intro fuel seen whole rest enough
    obtain ⟨left, rfl, fits⟩ := spend enough
    have read := ih left (Char.ofNat n :: seen) whole rest (by simp at fits; omega)
    rw [saidCons] at read
    simp [readQuotedFrom, unitReads unit, noHigh, noLow, read]
  | @pair meant cs high low four two first second isHigh isLow _ ih =>
    intro fuel seen whole rest enough
    obtain ⟨left, rfl, fits⟩ := spend enough
    have read := ih left (Char.ofNat (0x10000 + (high - 0xD800) * 0x400 + (low - 0xDC00)) :: seen)
      whole rest (by simp at fits; omega)
    rw [saidCons] at read
    simp [readQuotedFrom, unitReads first, isHigh, lowHalfReads second, isLow, read]
  | @half meant cs n four unit either alone quotes ih =>
    intro fuel seen whole rest enough
    obtain ⟨left, rfl, fits⟩ := spend enough
    -- nothing is kept from here on, but it is read up to the closing quote
    have read := ih left seen false rest (by simp at fits; omega)
    have nothing : said false seen meant = said whole seen none := by cases whole <;> rfl
    rw [nothing] at read
    by_cases high : isHighSurrogate n = true
    · simp [readQuotedFrom, unitReads unit, high, halfAlone quotes (alone high),
        quotesGoOn quotes, read]
    · have low := either.resolve_left high
      simp [readQuotedFrom, unitReads unit, high, low, read]

theorem quotedRead {meant : Option (List Char)} {cs : List Char} (quotes : Quotes meant cs)
    (rest : List Char) : readQuoted (cs ++ rest) = ⟨meant.map String.ofList, none, rest⟩ := by
  have read := quotesRead quotes ((cs ++ rest).length + 1) [] true rest (by simp; omega)
  rw [readQuoted, read]
  cases meant <;> rfl

inductive Sign : Bool → List Char → Prop where
  | bare : Sign false []
  | plus : Sign false ['+']
  | minus : Sign true ['-']

inductive Exponent : Option Int → List Char → Prop where
  | absent : Exponent none []
  | written {mark negative sign digits} : mark = 'e' ∨ mark = 'E' → Sign negative sign →
      digits ≠ [] → (∀ c ∈ digits, isDigit c = true) →
      Exponent (some (if negative then -(naturalOf digits : Int) else naturalOf digits))
        (mark :: (sign ++ digits))

def fractionChars (fraction : List Char) : List Char :=
  if fraction.isEmpty then [] else '.' :: fraction

inductive Numeral : NumberParts → List Char → Prop where
  | mk {negative whole fraction exponent raised} : whole ≠ [] → (∀ c ∈ whole, isDigit c = true) →
      (whole = ['0'] ∨ whole.head? ≠ some '0') → (∀ c ∈ fraction, isDigit c = true) →
      Exponent exponent raised →
      Numeral ⟨negative, whole, fraction, exponent⟩ (whole ++ (fractionChars fraction ++ raised))

def Apart (rest : List Char) : Prop :=
  ∀ c more, rest = c :: more → isDigit c = false ∧ c ≠ '.' ∧ c ≠ 'e' ∧ c ≠ 'E'

theorem Apart.ends {rest : List Char} (apart : Apart rest) : Ends rest :=
  fun c more same => (apart c more same).1

theorem wholeReads {whole rest : List Char} (some : whole ≠ [])
    (digits : ∀ c ∈ whole, isDigit c = true) (lead : whole = ['0'] ∨ whole.head? ≠ Option.some '0')
    (ends : Ends rest) : readWhole (whole ++ rest) = .ok (whole, rest) := by
  simp only [readWhole, Number.takeDigits digits ends, Number.dropDigits digits ends]
  split
  · contradiction
  · rcases lead with zero | other
    · cases zero
    · exact absurd rfl other
  · rfl

theorem fractionReads {fraction rest : List Char} (digits : ∀ c ∈ fraction, isDigit c = true)
    (ends : Ends rest) (noPoint : ∀ more, rest ≠ '.' :: more) :
    readFraction (fractionChars fraction ++ rest) = .ok (fraction, rest) := by
  cases fraction with
  | nil =>
    simp only [fractionChars, List.isEmpty_nil, if_true, List.nil_append, readFraction]
  | cons c more =>
    have taken := Number.takeDigits digits ends
    have dropped := Number.dropDigits digits ends
    rw [List.cons_append] at taken dropped
    simp [fractionChars, readFraction, taken, dropped]

theorem raisedReads {exponent : Option Int} {raised rest : List Char}
    (written : Exponent exponent raised) (apart : Apart rest) :
    readExponent (raised ++ rest) = .ok (exponent, rest) := by
  cases written with
  | absent =>
    cases rest with
    | nil => rfl
    | cons c more =>
      obtain ⟨_, _, noSmall, noLarge⟩ := apart c more rfl
      simp [readExponent, noSmall, noLarge]
  | @written mark negative sign digits isMark signed some all =>
    have taken := Number.takeDigits all apart.ends
    have dropped := Number.dropDigits all apart.ends
    have marked : (mark == 'e' || mark == 'E') = true := by simpa using isMark
    cases signed with
    | bare =>
      obtain ⟨c, more, rfl⟩ := List.exists_cons_of_ne_nil some
      have digit := all c List.mem_cons_self
      have noMinus : c ≠ '-' := Number.digitNot digit (by decide)
      have noPlus : c ≠ '+' := Number.digitNot digit (by decide)
      rw [List.cons_append] at taken dropped
      simp only [readExponent, List.nil_append, List.cons_append, marked, if_true]
      split
      · rename_i same
        exact absurd (List.cons.inj same).1 noMinus
      · rename_i same
        exact absurd (List.cons.inj same).1 noPlus
      · simp [taken, dropped]
    | plus => simp [readExponent, marked, taken, dropped, some]
    | minus => simp [readExponent, marked, taken, dropped, some]

theorem raisedStops {exponent : Option Int} {raised rest : List Char}
    (written : Exponent exponent raised) (apart : Apart rest) :
    Ends (raised ++ rest) ∧ ∀ more, raised ++ rest ≠ '.' :: more := by
  cases written with
  | absent => exact ⟨apart.ends, fun more same => (apart '.' more same).2.1 rfl⟩
  | written isMark => rcases isMark with rfl | rfl <;> exact ⟨Number.endsBefore rfl _, by simp⟩

theorem fractionStops {fraction rest : List Char} (ends : Ends rest) :
    Ends (fractionChars fraction ++ rest) := by
  cases fraction with
  | nil => exact ends
  | cons c more => exact Number.endsBefore rfl _

theorem numeralReads {parts : NumberParts} {cs rest : List Char} (numeral : Numeral parts cs)
    (apart : Apart rest) : readNumber parts.negative (cs ++ rest) = (parts.draft, rest) := by
  obtain ⟨some, digits, lead, places, written⟩ := numeral
  obtain ⟨ends, noPoint⟩ := raisedStops written apart
  simp only [readNumber, readParts, List.append_assoc,
    wholeReads some digits lead (fractionStops ends), fractionReads places ends noPoint,
    raisedReads written apart, bind, Except.bind, pure, Except.pure]

abbrev Entries := List (Option String × Draft)

inductive Part where
  | value (d : Draft)
  | items (first : Bool) (ds : List Draft)
  | member (key : Option String) (d : Draft)
  | members (first : Bool) (entries : Entries)

def comma (first : Bool) : List Char := if first then [] else [',']

def quotedDraft : Option (List Char) → Draft
  | some meant => .string (String.ofList meant)
  | none => .broken .malformed none

inductive Spells : Part → List Char → Prop where
  | gap {part cs c} : isSpace c = true → Spells part cs → Spells part (c :: cs)
  | null : Spells (.value .null) ['n', 'u', 'l', 'l']
  | yes : Spells (.value (.bool true)) ['t', 'r', 'u', 'e']
  | no : Spells (.value (.bool false)) ['f', 'a', 'l', 's', 'e']
  | positive {parts cs} : parts.negative = false → Numeral parts cs → Spells (.value parts.draft) cs
  | negative {parts cs} : parts.negative = true → Numeral parts cs →
      Spells (.value parts.draft) ('-' :: cs)
  | quoted {meant cs} : Quotes meant cs → Spells (.value (quotedDraft meant)) ('"' :: cs)
  | array {ds cs} : Spells (.items true ds) cs → Spells (.value (.array ds none)) ('[' :: cs)
  | object {entries cs} : Spells (.members true entries) cs →
      Spells (.value (.object entries none)) ('\x7b' :: cs)
  | noItem {first} : Spells (.items first []) [']']
  | item {first d ds cs more} : Spells (.value d) cs → Spells (.items false ds) more →
      Spells (.items first (d :: ds)) (comma first ++ (cs ++ more))
  | member {meant key gap d cs} : Quotes (some meant) key → (∀ c ∈ gap, isSpace c = true) →
      Spells (.value d) cs →
      Spells (.member (some (String.ofList meant)) d) ('"' :: (key ++ (gap ++ ':' :: cs)))
  | noMember {first} : Spells (.members first []) ['\x7d']
  | members {first key d entries cs more} : Spells (.member key d) cs →
      Spells (.members false entries) more →
      Spells (.members first ((key, d) :: entries)) (comma first ++ (cs ++ more))

def Part.Opens : Part → Char → Prop
  | .value _, c => c ≠ ']'
  | .items _ [], c => c = ']'
  | .items false _, c => c = ','
  | .items true _, c => c ≠ ']'
  | .member _ _, c => c = '"'
  | .members _ [], c => c = '\x7d'
  | .members false _, c => c = ','
  | .members true _, c => c = '"'

theorem digitDark {c : Char} (digit : isDigit c = true) : isSpace c = false := by
  simp only [isSpace, Bool.or_eq_false_iff, beq_eq_false_iff_ne]
  exact ⟨⟨⟨Number.digitNot digit rfl, Number.digitNot digit rfl⟩, Number.digitNot digit rfl⟩,
    Number.digitNot digit rfl⟩

theorem opens {part : Part} {cs : List Char} (spells : Spells part cs) :
    ∃ gap c more, cs = gap ++ c :: more ∧ (∀ g ∈ gap, isSpace g = true) ∧ isSpace c = false ∧
      part.Opens c := by
  induction spells with
  | gap space _ ih =>
    obtain ⟨gap, c, more, rfl, spaces, dark, opens⟩ := ih
    exact ⟨_ :: gap, c, more, rfl, List.forall_mem_cons.mpr ⟨space, spaces⟩, dark, opens⟩
  | null | yes | no | negative | quoted | array | object =>
    exact ⟨[], _, _, rfl, by simp, rfl, by simp [Part.Opens]⟩
  | positive _ numeral =>
    obtain ⟨some, digits⟩ := numeral
    obtain ⟨c, more, rfl⟩ := List.exists_cons_of_ne_nil some
    have digit := digits c List.mem_cons_self
    exact ⟨[], c, _, rfl, by simp, digitDark digit, Number.digitNot digit (by decide)⟩
  | noItem | member | noMember => exact ⟨[], _, _, rfl, by simp, rfl, rfl⟩
  | @item first d ds cs more _ _ ih _ =>
    cases first with
    | false => exact ⟨[], _, _, rfl, by simp, rfl, rfl⟩
    | true =>
      obtain ⟨gap, c, more, rfl, spaces, dark, opens⟩ := ih
      exact ⟨gap, c, _, List.append_assoc .., spaces, dark, opens⟩
  | @members first key d entries cs more _ _ ih _ =>
    cases first with
    | false => exact ⟨[], _, _, rfl, by simp, rfl, rfl⟩
    | true =>
      obtain ⟨gap, c, more, rfl, spaces, dark, opens⟩ := ih
      exact ⟨gap, c, _, List.append_assoc .., spaces, dark, opens⟩

theorem skipSpaces {gap : List Char} (spaces : ∀ c ∈ gap, isSpace c = true) (rest : List Char) :
    skipSpace (gap ++ rest) = skipSpace rest :=
  List.dropWhile_append_of_pos spaces

theorem skipNone {c : Char} (dark : isSpace c = false) (rest : List Char) :
    skipSpace (c :: rest) = c :: rest := by
  simp [skipSpace, dark]

theorem skipOpens {part : Part} {cs : List Char} (spells : Spells part cs) (rest : List Char) :
    ∃ c more, skipSpace (cs ++ rest) = c :: more ∧ isSpace c = false ∧ part.Opens c := by
  obtain ⟨gap, c, more, rfl, spaces, dark, opens⟩ := opens spells
  refine ⟨c, more ++ rest, ?_, dark, opens⟩
  rw [List.append_assoc, skipSpaces spaces, List.cons_append, skipNone dark]

theorem someText {part : Part} {cs : List Char} (spells : Spells part cs) : 0 < cs.length := by
  obtain ⟨gap, c, more, rfl, _⟩ := opens spells
  rw [List.length_append, List.length_cons]
  omega

theorem skipTwice (cs : List Char) : skipSpace (skipSpace cs) = skipSpace cs := by
  induction cs with
  | nil => rfl
  | cons c more ih =>
    by_cases space : isSpace c = true
    · simpa [skipSpace, space] using ih
    · simp [skipSpace, space]

theorem draftGap {cs ds : List Char} (fuel : Nat) (same : skipSpace cs = skipSpace ds) :
    readDraft fuel cs = readDraft fuel ds := by
  cases fuel <;> simp [readDraft, same]

theorem itemsGap {cs ds : List Char} (fuel : Nat) (first : Bool)
    (same : skipSpace cs = skipSpace ds) : readItems fuel first cs = readItems fuel first ds := by
  cases fuel <;> simp [readItems, same]

theorem fieldsGap {cs ds : List Char} (fuel : Nat) (first : Bool)
    (same : skipSpace cs = skipSpace ds) : readFields fuel first cs = readFields fuel first ds := by
  cases fuel <;> simp [readFields, same]

def Part.Reads : Part → List Char → Prop
  | .value d, cs => ∀ (fuel : Nat) (rest : List Char), cs.length ≤ fuel → Apart rest →
      readDraft fuel (cs ++ rest) = (d, rest)
  | .items first ds, cs => ∀ (fuel : Nat) (rest : List Char), cs.length ≤ fuel →
      readItems fuel first (cs ++ rest) = (ds, none, rest)
  | .member key d, cs => ∀ (fuel : Nat) (rest : List Char), cs.length ≤ fuel → Apart rest →
      ∃ quoted behind after, skipSpace (cs ++ rest) = '"' :: quoted ∧
        readQuoted quoted = ⟨key, none, behind⟩ ∧ skipSpace behind = ':' :: after ∧
        readDraft fuel after = (d, rest)
  | .members first entries, cs => ∀ (fuel : Nat) (rest : List Char), cs.length ≤ fuel →
      readFields fuel first (cs ++ rest) = (entries, none, rest)

theorem spaceApart {c : Char} (space : isSpace c = true) (rest : List Char) :
    Apart (c :: rest) := by
  intro d more same
  cases same
  simp only [isSpace, Bool.or_eq_true, beq_iff_eq] at space
  rcases space with ((rfl | rfl) | rfl) | rfl <;> decide

theorem markApart {c : Char} (mark : c = ',' ∨ c = ']' ∨ c = '\x7d') (rest : List Char) :
    Apart (c :: rest) := by
  intro d more same
  cases same
  rcases mark with rfl | rfl | rfl <;> decide

def Part.Behind : Part → Prop
  | .items false _ => True
  | .members false _ => True
  | _ => False

theorem behindApart {part : Part} {cs : List Char} (spells : Spells part cs) (behind : part.Behind)
    (rest : List Char) : Apart (cs ++ rest) := by
  obtain ⟨gap, c, more, rfl, spaces, dark, opens⟩ := opens spells
  cases gap with
  | cons g gap => exact spaceApart (spaces g List.mem_cons_self) _
  | nil =>
    refine markApart ?_ _
    match part, behind, opens with
    | .items false [], _, same => exact .inr (.inl same)
    | .items false (_ :: _), _, same => exact .inl same
    | .members false [], _, same => exact .inr (.inr same)
    | .members false (_ :: _), _, same => exact .inl same

theorem gapReads {part : Part} {cs : List Char} {c : Char} (space : isSpace c = true)
    (reads : part.Reads cs) : part.Reads (c :: cs) := by
  have skipped (rest : List Char) : skipSpace (c :: cs ++ rest) = skipSpace (cs ++ rest) := by
    simp [skipSpace, space]
  cases part with
  | value d =>
    intro fuel rest enough apart
    rw [draftGap fuel (skipped rest)]
    exact reads fuel rest (Nat.le_of_succ_le enough) apart
  | items first ds =>
    intro fuel rest enough
    rw [itemsGap fuel first (skipped rest)]
    exact reads fuel rest (Nat.le_of_succ_le enough)
  | member key d =>
    intro fuel rest enough apart
    rw [skipped rest]
    exact reads fuel rest (Nat.le_of_succ_le enough) apart
  | members first entries =>
    intro fuel rest enough
    rw [fieldsGap fuel first (skipped rest)]
    exact reads fuel rest (Nat.le_of_succ_le enough)

theorem digitDraft {c : Char} (digit : isDigit c = true) (fuel : Nat) (rest : List Char) :
    readDraft (fuel + 1) (c :: rest) = readNumber false (c :: rest) := by
  simp only [readDraft, skipNone (digitDark digit)]
  split <;> rename_i same <;> cases same <;> first | exact absurd digit (by decide) | simp [digit]

theorem numberReads {parts : NumberParts} {cs : List Char} (plus : parts.negative = false)
    (numeral : Numeral parts cs) : (Part.value parts.draft).Reads cs := by
  intro fuel rest enough apart
  have read := numeralReads numeral apart
  obtain ⟨some, digits⟩ := numeral
  obtain ⟨c, more, rfl⟩ := List.exists_cons_of_ne_nil some
  obtain ⟨left, rfl, _⟩ := spend enough
  rw [plus] at read
  exact (digitDraft (digits c List.mem_cons_self) left _).trans read

theorem itemReads {first : Bool} {d : Draft} {ds : List Draft} {cs more : List Char}
    (item : Spells (.value d) cs) (items : Spells (.items false ds) more)
    (itemRead : (Part.value d).Reads cs) (itemsRead : (Part.items false ds).Reads more) :
    (Part.items first (d :: ds)).Reads (comma first ++ (cs ++ more)) := by
  intro fuel rest enough
  have size := someText item
  have sizes := someText items
  rw [List.length_append, List.length_append] at enough
  obtain ⟨left, rfl⟩ : ∃ left, fuel = left + 1 := ⟨fuel - 1, by omega⟩
  have read := itemRead left (more ++ rest) (by omega) (behindApart items trivial rest)
  have readOn := itemsRead left rest (by omega)
  obtain ⟨c, tail, skipped, dark, opens⟩ := skipOpens item (more ++ rest)
  -- whoever reads the items has already skipped the space in front of this one
  have same : readDraft left (c :: tail) = (d, more ++ rest) := by
    rw [← read]
    exact draftGap left (by rw [← skipped, skipTwice])
  have noEnd : c ≠ ']' := opens
  cases first with
  | true => simp [comma, readItems, skipped, noEnd, same, readOn]
  | false =>
    simp [comma, readItems, skipNone (c := ',') (by decide), skipped, noEnd, same, readOn]

theorem memberReads {meant key gap cs : List Char} {d : Draft} (quotes : Quotes (some meant) key)
    (spaces : ∀ c ∈ gap, isSpace c = true) (read : (Part.value d).Reads cs) :
    (Part.member (some (String.ofList meant)) d).Reads ('"' :: (key ++ (gap ++ ':' :: cs))) := by
  intro fuel rest enough apart
  refine ⟨key ++ (gap ++ ':' :: cs) ++ rest, gap ++ ':' :: cs ++ rest, cs ++ rest,
    skipNone (by decide) _, ?_, ?_, read fuel rest ?_ apart⟩
  · rw [List.append_assoc]
    exact quotedRead quotes _
  · rw [List.append_assoc, skipSpaces spaces]
    exact skipNone (by decide) _
  · simp at enough
    omega

theorem membersRead {first : Bool} {key : Option String} {d : Draft} {entries : Entries}
    {cs more : List Char} (member : Spells (.member key d) cs)
    (members : Spells (.members false entries) more) (memberRead : (Part.member key d).Reads cs)
    (membersRead : (Part.members false entries).Reads more) :
    (Part.members first ((key, d) :: entries)).Reads (comma first ++ (cs ++ more)) := by
  intro fuel rest enough
  have size := someText member
  have sizes := someText members
  rw [List.length_append, List.length_append] at enough
  obtain ⟨left, rfl⟩ : ∃ left, fuel = left + 1 := ⟨fuel - 1, by omega⟩
  have readOn := membersRead left rest (by omega)
  obtain ⟨quoted, behind, after, skipped, keyRead, colon, read⟩ :=
    memberRead left (more ++ rest) (by omega) (behindApart members trivial rest)
  cases first with
  | true => simp [comma, readFields, skipped, keyRead, colon, read, readOn]
  | false =>
    simp [comma, readFields, skipNone (c := ',') (by decide), skipped, keyRead, colon, read, readOn]

theorem Spells.reads {part : Part} {cs : List Char} (spells : Spells part cs) : part.Reads cs := by
  induction spells with
  | gap space _ ih => exact gapReads space ih
  | null | yes | no =>
    intro fuel rest enough _
    obtain ⟨left, rfl, _⟩ := spend enough
    rfl
  | positive plus numeral => exact numberReads plus numeral
  | negative minus numeral =>
    intro fuel rest enough apart
    obtain ⟨left, rfl, _⟩ := spend enough
    have read := numeralReads numeral apart
    rw [minus] at read
    exact read
  | @quoted meant cs quotes =>
    intro fuel rest enough _
    obtain ⟨left, rfl, _⟩ := spend enough
    have read := quotedRead quotes rest
    have begun := skipNone (c := '"') (by decide) (cs ++ rest)
    cases meant <;> simp [readDraft, begun, read, QuotedText.draft, quotedDraft]
  | array _ ih =>
    intro fuel rest enough _
    obtain ⟨left, rfl, fits⟩ := spend enough
    simp [readDraft, skipNone (c := '[') (by decide), ih left rest fits]
  | object _ ih =>
    intro fuel rest enough _
    obtain ⟨left, rfl, fits⟩ := spend enough
    simp [readDraft, skipNone (c := '\x7b') (by decide), ih left rest fits]
  | noItem | noMember =>
    intro fuel rest enough
    obtain ⟨left, rfl, _⟩ := spend enough
    rfl
  | item item items ih ihs => exact itemReads item items ih ihs
  | member quotes spaces _ ih => exact memberReads quotes spaces ih
  | members member members ih ihs => exact membersRead member members ih ihs

def Passable (entry : Option String × Draft) : Prop :=
  entry.1.isSome = true ∧ entry.2.skip = .ok ()

structure Draft.Passes (d : Draft) : Prop where
  skips : d.skip = .ok ()
  members : ∀ entries stop, d = .object entries stop → ∀ entry ∈ entries, Passable entry

def Part.Passes : Part → Prop
  | .value d => d.Passes
  | .items _ ds => ∀ d ∈ ds, d.skip = .ok ()
  | .member key d => Passable (key, d)
  | .members _ entries => ∀ entry ∈ entries, Passable entry

theorem numberPasses (parts : NumberParts) : parts.draft.Passes := by
  simp only [NumberParts.draft]
  repeat' split
  all_goals exact ⟨rfl, by simp⟩

theorem skipsItems {ds : List Draft} (skips : ∀ d ∈ ds, d.skip = .ok ()) :
    Draft.skipItems ds = .ok () := by
  induction ds with
  | nil => rfl
  | cons d rest ih =>
    obtain ⟨first, more⟩ := List.forall_mem_cons.mp skips
    simp [Draft.skipItems, first, ih more, bind, Except.bind]

theorem skipsFields {entries : Entries} (passable : ∀ entry ∈ entries, Passable entry) :
    Draft.skipFields entries = .ok () := by
  induction entries with
  | nil => rfl
  | cons entry rest ih =>
    obtain ⟨first, more⟩ := List.forall_mem_cons.mp passable
    simp [Draft.skipFields, first.2, ih more, bind, Except.bind]

theorem Spells.passes {part : Part} {cs : List Char} (spells : Spells part cs) : part.Passes := by
  induction spells with
  | gap _ _ ih => exact ih
  | null | yes | no => exact ⟨rfl, by simp⟩
  | noItem => exact List.forall_mem_nil _
  | noMember => exact List.forall_mem_nil _
  | positive | negative => exact numberPasses _
  | @quoted meant => cases meant <;> exact ⟨rfl, by simp [quotedDraft]⟩
  | array _ ih =>
    exact ⟨by simp [Draft.skip, Draft.finish, skipsItems ih, bind, Except.bind], by simp⟩
  | object _ ih =>
    refine ⟨by simp [Draft.skip, Draft.finish, skipsFields ih, bind, Except.bind],
      fun _ _ same => ?_⟩
    cases same
    exact ih
  | item _ _ ih ihs => exact List.forall_mem_cons.mpr ⟨ih.skips, ihs⟩
  | member _ _ _ ih => exact ⟨rfl, ih.skips⟩
  | members _ _ ih ihs => exact List.forall_mem_cons.mpr ⟨ih, ihs⟩

def Tells (text : String) (d : Draft) : Prop :=
  ∃ cs gap, text.toList = cs ++ gap ∧ Spells (.value d) cs ∧ ∀ c ∈ gap, isSpace c = true

theorem tellsRead {α : Type} {text : String} {d : Draft} (tells : Tells text d)
    (read : Draft → Except Fault α) : readWith read text = read d := by
  obtain ⟨cs, gap, same, spells, spaces⟩ := tells
  have apart : Apart gap := by
    cases gap with
    | nil => exact fun c more same => by cases same
    | cons c more => exact spaceApart (spaces c List.mem_cons_self) _
  have drafted : draftOf text = (d, gap) := by
    rw [draftOf, same]
    exact spells.reads _ gap (by simp; omega) apart
  have nothing : skipSpace gap = [] := by
    have skipped := skipSpaces spaces []
    rwa [List.append_nil] at skipped
  simp only [readWith, drafted, nothing]
  cases read d <;> rfl

theorem tellsMembers {text : String} {entries : Entries} {stop : Option Fault}
    (tells : Tells text (.object entries stop)) : ∀ entry ∈ entries, Passable entry := by
  obtain ⟨_, _, _, spells, _⟩ := tells
  exact spells.passes.members entries stop rfl

end ServiceDirectory.Json
