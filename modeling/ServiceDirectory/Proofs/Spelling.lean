import ServiceDirectory.Json.Printer
import ServiceDirectory.Proofs.Grammar

/-! What is printed of a value is a text of that value. Floating numbers are left out: their digits
are those of the shortest text, not of an exact one. -/
namespace ServiceDirectory.Json
open Number (isDigit)

theorem hexReads : ∀ n < 16, hexValue? (hexDigit n) = some n := by decide

theorem unitEscape {c : Char} (control : c.toNat < 0x20) :
    CodeUnit c.toNat ['0', '0', hexDigit (c.toNat / 16), hexDigit (c.toNat % 16)] := by
  have high := hexReads (c.toNat / 16) (by omega)
  have low := hexReads (c.toNat % 16) (by omega)
  have unit := CodeUnit.four (hexReads 0 (by decide)) (hexReads 0 (by decide)) high low
  have same : ((0 * 16 + 0) * 16 + c.toNat / 16) * 16 + c.toNat % 16 = c.toNat := by omega
  rwa [same] at unit

theorem named {c : Char} {n : Nat} (same : (c.toNat == n) = true) : c = Char.ofNat n := by
  rw [← beq_iff_eq.mp same, Char.ofNat_toNat]

theorem escapeQuotes (c : Char) {meant cs : List Char} (quotes : Quotes (some meant) cs) :
    Quotes (some (c :: meant)) (escapeChar c ++ cs) := by
  unfold escapeChar
  split
  · rename_i same
    cases beq_iff_eq.mp same
    exact .short rfl quotes
  rename_i noQuote
  split
  · rename_i same
    cases beq_iff_eq.mp same
    exact .short rfl quotes
  rename_i noEscape
  split
  · rename_i same
    cases beq_iff_eq.mp same
    exact .short rfl quotes
  split
  · rename_i same
    cases beq_iff_eq.mp same
    exact .short rfl quotes
  split
  · rename_i same
    cases beq_iff_eq.mp same
    exact .short rfl quotes
  split
  · rename_i same
    cases named same
    exact .short rfl quotes
  split
  · rename_i same
    cases named same
    exact .short rfl quotes
  split
  · rename_i control
    have noHigh : isHighSurrogate c.toNat = false := by
      simp only [isHighSurrogate, Bool.and_eq_false_iff, decide_eq_false_iff_not]
      omega
    have noLow : isLowSurrogate c.toNat = false := by
      simp only [isLowSurrogate, Bool.and_eq_false_iff, decide_eq_false_iff_not]
      omega
    have unit := Quotes.unit (unitEscape control) noHigh noLow quotes
    rw [Char.ofNat_toNat] at unit
    exact unit
  · rename_i printed
    exact .plain (by simpa using noQuote) (by simpa using noEscape) (Nat.not_lt.mp printed) quotes

theorem textQuotes (meant : List Char) :
    Quotes (some meant) (meant.flatMap escapeChar ++ ['"']) := by
  induction meant with
  | nil => exact .close
  | cons c meant ih =>
    rw [List.flatMap_cons, List.append_assoc]
    exact escapeQuotes c ih

theorem stringSpells (s : String) : Spells (.value (.string s)) (stringChars s) := by
  have spells := Spells.quoted (textQuotes s.toList)
  rw [quotedDraft, String.ofList_toList] at spells
  exact spells

theorem naturalNumeral (negative : Bool) (n : Nat) :
    Numeral ⟨negative, Nat.toDigits 10 n, [], none⟩ (Nat.toDigits 10 n) := by
  have numeral : Numeral ⟨negative, Nat.toDigits 10 n, [], none⟩ _ :=
    .mk Nat.toDigits_ne_nil (Number.digitsOf n) (Number.digitsLead n) (by simp) .absent
  simpa [fractionChars] using numeral

def Fits (n : Int) : Prop := -9223372036854775808 ≤ n ∧ n ≤ 18446744073709551615

theorem integerSpells {n : Int} (fits : Fits n) :
    Spells (.value (.integer n)) (toString n).toList := by
  obtain ⟨least, most⟩ := fits
  rw [Int.toString_eq_repr, Int.repr_eq_if]
  split
  · rename_i nonneg
    have spells := Spells.positive rfl (naturalNumeral false n.toNat)
    have whole : ((n.toNat : Nat) : Int) = n := Int.toNat_of_nonneg nonneg
    have small : n.toNat ≤ Number.largest64 := by
      simp only [Number.largest64]
      omega
    simpa [NumberParts.draft, Number.naturalOfDigits, small, whole] using spells
  · rename_i below
    obtain ⟨k, rfl⟩ : ∃ k : Nat, n = -(k : Int) := ⟨(-n).toNat, by omega⟩
    have spells := Spells.negative rfl (naturalNumeral true k)
    -- minus zero would be a floating number
    have some : 0 < k := by omega
    have small : Number.fitsSigned64 (-(k : Int)) = true := by
      simp only [Number.fitsSigned64, Bool.and_eq_true, decide_eq_true_eq]
      omega
    simpa [NumberParts.draft, Number.naturalOfDigits, small, some] using spells

mutual

def Value.Exact : Value → Prop
  | .integer n => Fits n
  | .floating _ => False
  | .array items => ExactItems items
  | .object fields => ExactFields fields
  | _ => True

def ExactItems : List Value → Prop
  | [] => True
  | v :: rest => v.Exact ∧ ExactItems rest

def ExactFields : List (String × Value) → Prop
  | [] => True
  | (_, v) :: rest => v.Exact ∧ ExactFields rest

end

mutual

theorem spelled : (v : Value) → v.Exact → Spells (.value (.ofValue v)) (chars v)
  | .null, _ => .null
  | .bool true, _ => .yes
  | .bool false, _ => .no
  | .integer _, fits => integerSpells fits
  | .string s, _ => stringSpells s
  | .array items, exact => .array (spelledItems true items exact)
  | .object fields, exact => .object (spelledFields true fields exact)

theorem spelledItems (first : Bool) : (items : List Value) → ExactItems items →
    Spells (.items first (Draft.ofItems items)) (itemChars first items)
  | [], _ => .noItem
  | v :: rest, ⟨exact, more⟩ => by
    have item : Spells (.items first (Draft.ofValue v :: Draft.ofItems rest)) _ :=
      .item (spelled v exact) (spelledItems false rest more)
    rw [← List.append_assoc] at item
    exact item

theorem spelledFields (first : Bool) : (fields : List (String × Value)) → ExactFields fields →
    Spells (.members first (Draft.ofFields fields)) (fieldChars first fields)
  | [], _ => .noMember
  | (k, v) :: rest, ⟨exact, more⟩ => by
    have member := Spells.member (textQuotes k.toList) (List.forall_mem_nil _) (spelled v exact)
    rw [String.ofList_toList] at member
    have members : Spells (.members first ((some k, Draft.ofValue v) :: Draft.ofFields rest)) _ :=
      .members member (spelledFields false rest more)
    simpa [fieldChars, stringChars, comma, Draft.ofFields] using members

end

theorem renderTells {v : Value} (exact : v.Exact) : Tells (render v) (.ofValue v) :=
  ⟨chars v, [], by simp [render], spelled v exact, by simp⟩

end ServiceDirectory.Json
