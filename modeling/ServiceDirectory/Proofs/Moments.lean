import ServiceDirectory.Proofs.Calendar
import ServiceDirectory.Proofs.Digits

/-! The text of a moment is read as the moment, in every charted year and inside a leap second. -/
namespace ServiceDirectory.Time
open Number (isDigit naturalOf Ends)
open Timestamp (padded)

theorem digitNotBlank {c : Char} (digit : isDigit c = true) : Text.isBlank c = false := by
  have range := Number.digitRange digit
  simp only [Text.isBlank, Bool.or_eq_false_iff, Bool.and_eq_false_iff, decide_eq_false_iff_not,
    beq_eq_false_iff_ne]
  omega

theorem skipNone {c : Char} (dark : Text.isBlank c = false) (rest : List Char) :
    skipBlanks (c :: rest) = c :: rest := by
  simp [skipBlanks, dark]

theorem skipPadded (width n : Nat) (rest : List Char) :
    skipBlanks ((padded width n).toList ++ rest) = (padded width n).toList ++ rest := by
  have digits := Timestamp.paddedDigits width n
  obtain ⟨c, more, same⟩ := List.exists_cons_of_ne_nil (Timestamp.paddedSome width n)
  rw [same] at digits ⊢
  exact skipNone (digitNotBlank (digits c List.mem_cons_self)) _

theorem numberReads {width : Nat} {digits rest : List Char}
    (all : ∀ c ∈ digits, isDigit c = true) (some : digits ≠ []) (short : digits.length ≤ width)
    (ends : digits.length = width ∨ Ends rest) :
    number width (digits ++ rest) = .ok (naturalOf digits, rest) := by
  have stops : Ends (rest.take (width - digits.length)) := by
    rcases ends with full | ends
    · rw [full, Nat.sub_self, List.take_zero]
      exact Number.endsNil
    · intro c more same
      cases rest with
      | nil => simp at same
      | cons d tail =>
        cases left : width - digits.length with
        | zero => simp [left] at same
        | succ k =>
          rw [left, List.take_succ_cons] at same
          cases same
          exact ends c tail rfl
  have taken : ((digits ++ rest).take width).takeWhile isDigit = digits := by
    rw [List.take_append, List.take_of_length_le short, Number.takeDigits all stops]
  simp [number, taken, some]

theorem longNumberReads {digits rest : List Char} (all : ∀ c ∈ digits, isDigit c = true)
    (some : digits ≠ []) (ends : Ends rest) (fits : Number.fitsSigned64 (naturalOf digits) = true) :
    longNumber (digits ++ rest) = .ok (naturalOf digits, rest) := by
  simp [longNumber, Number.takeDigits all ends, some, fits]

theorem fieldReads {low high n : Nat} (least : low ≤ n) (most : n ≤ high) (two : high < 100)
    (rest : List Char) : field low high ((padded 2 n).toList ++ rest) = .ok (n, rest) := by
  have full : (padded 2 n).toList.length = 2 := Timestamp.paddedLength (by decide) (by omega)
  have read : number 2 ((padded 2 n).toList ++ rest) = .ok (_, rest) :=
    numberReads (Timestamp.paddedDigits 2 n) (Timestamp.paddedSome 2 n) (Nat.le_of_eq full)
      (.inl full)
  rw [Timestamp.naturalOfPadded] at read
  simp [field, skipPadded, read, bind, Except.bind, least, most]

theorem markReads {c : Char} (dark : Text.isBlank c = false) (rest : List Char) :
    mark c (c :: rest) = .ok rest := by
  simp [mark, skipNone dark]

theorem signedYearReads {sign : Char} {y : Int} {rest : List Char}
    (signed : sign = '-' ∧ y < 0 ∨ sign = '+' ∧ 0 ≤ y) (fits : Number.fitsSigned32 y = true)
    (ends : Ends rest) : year (sign :: ((padded 4 y.natAbs).toList ++ rest)) = .ok (y, rest) := by
  have range := fits
  simp only [Number.fitsSigned32, Bool.and_eq_true, decide_eq_true_eq] at range
  have wide : Number.fitsSigned64 (y.natAbs : Int) = true := by
    simp only [Number.fitsSigned64, Bool.and_eq_true, decide_eq_true_eq]
    omega
  have long := longNumberReads (Timestamp.paddedDigits 4 y.natAbs) (Timestamp.paddedSome 4 y.natAbs)
    ends (by rw [Timestamp.naturalOfPadded]; exact wide)
  rw [Timestamp.naturalOfPadded] at long
  rcases signed with ⟨rfl, below⟩ | ⟨rfl, above⟩
  · have back : -((y.natAbs : Nat) : Int) = y := by omega
    have skipped := skipNone (c := '-') (by decide) ((padded 4 y.natAbs).toList ++ rest)
    simp only [year, skipped, long, bind, Except.bind, pure, Except.pure, back, fits, if_true]
  · have back : ((y.natAbs : Nat) : Int) = y := Int.natAbs_of_nonneg above
    have skipped := skipNone (c := '+') (by decide) ((padded 4 y.natAbs).toList ++ rest)
    simp only [year, skipped, long, bind, Except.bind, pure, Except.pure, back, fits, if_true]

theorem plainYearReads {n : Nat} (short : n ≤ 9999) (rest : List Char) :
    year ((padded 4 n).toList ++ rest) = .ok ((n : Int), rest) := by
  have full : (padded 4 n).toList.length = 4 := Timestamp.paddedLength (by decide) (by omega)
  have digits := Timestamp.paddedDigits 4 n
  have read : number 4 ((padded 4 n).toList ++ rest) = .ok (_, rest) :=
    numberReads digits (Timestamp.paddedSome 4 n) (Nat.le_of_eq full) (.inl full)
  have fits : Number.fitsSigned32 (n : Int) = true := by
    simp only [Number.fitsSigned32, Bool.and_eq_true, decide_eq_true_eq]
    omega
  rw [Timestamp.naturalOfPadded] at read
  obtain ⟨c, more, same⟩ := List.exists_cons_of_ne_nil (Timestamp.paddedSome 4 n)
  have digit := digits c (by rw [same]; exact List.mem_cons_self)
  have noMinus : c ≠ '-' := Number.digitNot digit (by decide)
  have noPlus : c ≠ '+' := Number.digitNot digit (by decide)
  have skipped := skipPadded 4 n rest
  rw [same, List.cons_append] at read skipped ⊢
  simp only [year, skipped]
  split
  · rename_i head
    exact absurd (List.cons.inj head).1 noMinus
  · rename_i head
    exact absurd (List.cons.inj head).1 noPlus
  · simp only [read, bind, Except.bind, pure, Except.pure, fits, if_true]

theorem yearReads {y : Int} {rest : List Char} (fits : Number.fitsSigned32 y = true)
    (ends : Ends rest) : year ((Timestamp.yearText y).toList ++ rest) = .ok (y, rest) := by
  by_cases plain : 0 ≤ y ∧ y ≤ 9999
  · have shown : Timestamp.yearText y = padded 4 y.toNat := by
      simp [Timestamp.yearText, plain]
    have back : ((y.toNat : Nat) : Int) = y := Int.toNat_of_nonneg plain.1
    have read := plainYearReads (n := y.toNat) (by omega) rest
    rw [back] at read
    rw [shown]
    exact read
  · by_cases below : y < 0
    · have shown : (Timestamp.yearText y).toList = '-' :: (padded 4 y.natAbs).toList := by
        simp [Timestamp.yearText, plain, below]
      rw [shown]
      exact signedYearReads (.inl ⟨rfl, below⟩) fits ends
    · have shown : (Timestamp.yearText y).toList = '+' :: (padded 4 y.natAbs).toList := by
        simp [Timestamp.yearText, plain, below]
      rw [shown]
      exact signedYearReads (.inr ⟨rfl, Int.not_lt.mp below⟩) fits ends

theorem fractionPlaces {places n : Nat} {rest : List Char} (some : 0 < places) (most : places ≤ 9)
    (fits : n < 10 ^ places) (ends : Ends rest) :
    fraction (("." ++ padded places n).toList ++ rest) = .ok (n * 10 ^ (9 - places), rest) := by
  have full := Timestamp.paddedLength some fits
  have read : number 9 ((padded places n).toList ++ rest) = .ok (_, rest) :=
    numberReads (Timestamp.paddedDigits places n) (Timestamp.paddedSome places n) (by omega)
      (.inr ends)
  rw [Timestamp.naturalOfPadded] at read
  have dropped : ([] ++ rest).dropWhile isDigit = rest := Number.dropDigits (by simp) ends
  have length : ((padded places n).toList ++ rest).length - rest.length = places := by
    rw [List.length_append]
    omega
  have shown : ("." ++ padded places n).toList ++ rest =
      '.' :: ((padded places n).toList ++ rest) := by
    simp
  rw [shown]
  simp only [fraction, read, bind, Except.bind, length]
  simpa using dropped

theorem fractionReads {n : Nat} {rest : List Char} (fits : n < 1000000000) (ends : Ends rest)
    (noPoint : rest.head? ≠ some '.') :
    fraction ((Timestamp.fractionText n).toList ++ rest) = .ok (n, rest) := by
  unfold Timestamp.fractionText
  by_cases none : n = 0
  · subst none
    cases rest with
    | nil => rfl
    | cons c more =>
      have other : c ≠ '.' := fun same => noPoint (by rw [same]; rfl)
      simp [fraction, other]
  · by_cases millis : n % 1000000 = 0
    · have whole : n / 1000000 * 10 ^ (9 - 3) = n := by omega
      have read : fraction (("." ++ padded 3 (n / 1000000)).toList ++ rest) = .ok (_, rest) :=
        fractionPlaces (by decide) (by decide) (by omega) ends
      rw [whole] at read
      simpa [none, millis] using read
    · by_cases micros : n % 1000 = 0
      · have whole : n / 1000 * 10 ^ (9 - 6) = n := by omega
        have read : fraction (("." ++ padded 6 (n / 1000)).toList ++ rest) = .ok (_, rest) :=
          fractionPlaces (by decide) (by decide) (by omega) ends
        rw [whole] at read
        simpa [none, millis, micros] using read
      · have read : fraction (("." ++ padded 9 n).toList ++ rest) = .ok (_, rest) :=
          fractionPlaces (by decide) (by decide) (by omega) ends
        simpa [none, millis, micros] using read

theorem separatorReads (rest : List Char) : separator ('T' :: rest) = .ok rest := rfl

theorem offsetReads : offset (skipBlanks ['Z']) = .ok (0, []) := rfl

end ServiceDirectory.Time

namespace ServiceDirectory.Timestamp
open Time (Date firstYear lastYear)

def counted (t : Timestamp) : Int := if t.leap then t.nanos - perSecond else t.nanos

structure Charted (t : Timestamp) : Prop where
  first : (Date.mk firstYear 1 1).toDays * 86400 * perSecond ≤ t.counted
  last : t.counted < ((Date.mk lastYear 12 31).toDays + 1) * 86400 * perSecond
  closing : t.leap = true → t.counted / perSecond % 60 = 59

def day (t : Timestamp) : Int := t.counted / perSecond / 86400

def ofDay (t : Timestamp) : Nat := (t.counted / perSecond % 86400).toNat

def second (t : Timestamp) : Nat := if t.leap then t.ofDay % 60 + 1 else t.ofDay % 60

def fraction (t : Timestamp) : Nat := (t.counted % perSecond).toNat

theorem textChars (t : Timestamp) : t.text.toList =
    (yearText (Date.ofDays t.day).year).toList ++ '-' ::
      ((padded 2 (Date.ofDays t.day).month).toList ++ '-' ::
        ((padded 2 (Date.ofDays t.day).day).toList ++ 'T' ::
          ((padded 2 (t.ofDay / 3600)).toList ++ ':' ::
            ((padded 2 (t.ofDay / 60 % 60)).toList ++ ':' ::
              ((padded 2 t.second).toList ++ ((fractionText t.fraction).toList ++ ['Z'])))))) := by
  have shown : t.text = yearText (Date.ofDays t.day).year ++ "-" ++
      padded 2 (Date.ofDays t.day).month ++ "-" ++ padded 2 (Date.ofDays t.day).day ++ "T" ++
      padded 2 (t.ofDay / 3600) ++ ":" ++ padded 2 (t.ofDay / 60 % 60) ++ ":" ++
      padded 2 t.second ++ fractionText t.fraction ++ "Z" := rfl
  simp [shown]

def ahead (t : Timestamp) : Int := if t.leap then 1 else 0

theorem secondIs {t : Timestamp} (charted : t.Charted) :
    t.second = t.ofDay % 60 + t.ahead ∧ (t.second = 60 ↔ t.leap = true) := by
  have closing := charted.closing
  unfold second ahead
  cases leap : t.leap with
  | true =>
    have last := closing leap
    simp only [ofDay, ↓reduceIte, iff_true]
    omega
  | false =>
    simp only [Bool.false_eq_true, ↓reduceIte, iff_false]
    omega

theorem nanosIs (t : Timestamp) :
    (t.counted / perSecond + t.ahead) * perSecond + t.fraction = t.nanos := by
  simp only [counted, ahead, fraction, perSecond]
  split <;> omega

theorem dayCharted {t : Timestamp} (charted : t.Charted) :
    (Date.mk firstYear 1 1).toDays ≤ t.day ∧ t.day ≤ (Date.mk lastYear 12 31).toDays := by
  obtain ⟨first, last, _⟩ := charted
  simp only [day, perSecond] at *
  omega

theorem assembles {t : Timestamp} (charted : t.Charted) :
    Time.assemble (Date.ofDays t.day) (t.ofDay / 3600) (t.ofDay / 60 % 60) t.second t.fraction 0 =
      .ok t := by
  obtain ⟨opens, closes⟩ := dayCharted charted
  obtain ⟨early, late⟩ := Time.Date.ofDaysCharted opens closes
  obtain ⟨written, isLeap⟩ := secondIs charted
  have seconds : t.day * 86400 +
      ((t.ofDay / 3600 * 3600 + t.ofDay / 60 % 60 * 60 + t.second : Nat) : Int) - 0 =
        t.counted / perSecond + t.ahead := by
    simp only [day, ofDay] at written ⊢
    omega
  have back : (if t.leap = true then t.counted / perSecond + t.ahead - 1
      else t.counted / perSecond + t.ahead) / 86400 = t.day := by
    unfold ahead day
    cases t.leap <;> simp
  have marked : (t.second == 60) = t.leap := by
    rw [Bool.eq_iff_iff, beq_iff_eq]
    exact isLeap
  unfold Time.assemble
  rw [Time.Date.toDaysOfDays]
  simp only [seconds, back, Time.Date.ofDaysValid, nanosIs, marked]
  simp [Int.not_lt.mpr early, Int.not_lt.mpr late, Int.not_lt.mpr opens, Int.not_lt.mpr closes]

theorem textReads {t : Timestamp} (charted : t.Charted) : Time.readTimestamp t.text = .ok t := by
  obtain ⟨opens, closes⟩ := dayCharted charted
  obtain ⟨early, late⟩ := Time.Date.ofDaysCharted opens closes
  have year : Number.fitsSigned32 (Date.ofDays t.day).year = true := by
    simp only [Number.fitsSigned32, firstYear, lastYear, Bool.and_eq_true, decide_eq_true_eq] at *
    omega
  have valid := Time.Date.ofDaysValid t.day
  simp only [Date.valid, Bool.and_eq_true, decide_eq_true_eq] at valid
  obtain ⟨⟨⟨noMonth, months⟩, noDay⟩, days⟩ := valid
  have most : (Date.ofDays t.day).day ≤ 31 := Nat.le_trans days Time.daysInMonthMost
  have seconds : t.second ≤ 60 := by
    have written := (secondIs charted).1
    simp only [ahead] at written
    omega
  have hours : t.ofDay / 3600 ≤ 23 := by
    simp only [ofDay]
    omega
  have part : t.fraction < 1000000000 := by
    simp only [fraction, perSecond]
    omega
  have minutes : t.ofDay / 60 % 60 ≤ 59 := by omega
  have noDash : Number.isDigit '-' = false := by decide
  have noMark : Number.isDigit 'Z' = false := by decide
  have noPoint : ['Z'].head? ≠ some '.' := by decide
  have dash : Text.isBlank '-' = false := by decide
  have colon : Text.isBlank ':' = false := by decide
  have nothing : (Time.skipBlanks []).isEmpty = true := rfl
  simp only [Time.readTimestamp, textChars, Time.yearReads year (Number.endsBefore noDash _),
    Time.markReads dash, Time.markReads colon, Time.fieldReads noMonth months (by decide),
    Time.fieldReads noDay most (by decide), Time.fieldReads (Nat.zero_le _) hours (by decide),
    Time.fieldReads (Nat.zero_le _) minutes (by decide),
    Time.fieldReads (Nat.zero_le _) seconds (by decide),
    Time.fractionReads part (Number.endsBefore noMark _) noPoint, Time.separatorReads,
    Time.offsetReads, nothing, bind, Except.bind, if_true]
  exact assembles charted

end ServiceDirectory.Timestamp
