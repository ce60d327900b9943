import ServiceDirectory.Time.Reader

/-! Days and dates: every day has a date, which is one of the calendar and leads back to the day.
The charted years are the days between their first and their last. -/
namespace ServiceDirectory.Time

theorem eraSplit {day : Int} (first : 0 ≤ day) (last : day ≤ 146096) :
    ∃ century cycle rest : Int, day = 36524 * century + 1461 * cycle + rest ∧
      0 ≤ century ∧ century ≤ 3 ∧ 0 ≤ cycle ∧ cycle ≤ 24 ∧ 0 ≤ rest ∧ rest ≤ 1460 ∧
      (cycle = 24 → century < 3 → rest ≤ 1459) := by
  refine ⟨min (day / 36524) 3, (day - 36524 * min (day / 36524) 3) / 1461,
    (day - 36524 * min (day / 36524) 3) % 1461, ?_⟩
  omega

theorem eraYear {day century cycle rest : Int}
    (split : day = 36524 * century + 1461 * cycle + rest) (noCentury : 0 ≤ century)
    (centuries : century ≤ 3) (noCycle : 0 ≤ cycle) (cycles : cycle ≤ 24) (noRest : 0 ≤ rest)
    (rests : rest ≤ 1460) (short : cycle = 24 → century < 3 → rest ≤ 1459) :
    (day - day / 1460 + day / 36524 - day / 146096) / 365 =
      100 * century + 4 * cycle + min (rest / 365) 3 := by
  have byCycle : day / 1460 = 25 * century + cycle + (24 * century + cycle + rest) / 1460 := by
    omega
  have byCentury : day / 36524 - day / 146096 = century := by
    by_cases last : day = 146096
    · omega
    · have begun : 36524 * century ≤ day := by omega
      have notOver : day < 36524 * (century + 1) := by omega
      omega
  rw [byCycle]
  omega

theorem yearOfEra {day year : Int} (first : 0 ≤ day) (last : day ≤ 146096)
    (found : year = (day - day / 1460 + day / 36524 - day / 146096) / 365) :
    0 ≤ year ∧ year ≤ 399 ∧ 0 ≤ day - (365 * year + year / 4 - year / 100) ∧
      day - (365 * year + year / 4 - year / 100) ≤ 365 ∧
      (day - (365 * year + year / 4 - year / 100) = 365 →
        (year + 1) % 4 = 0 ∧ ((year + 1) % 100 ≠ 0 ∨ year + 1 = 400)) := by
  obtain ⟨century, cycle, rest, split, noCentury, centuries, noCycle, cycles, noRest, rests,
    short⟩ := eraSplit first last
  rw [eraYear split noCentury centuries noCycle cycles noRest rests short] at found
  have fourth : year / 4 = 25 * century + cycle := by omega
  have hundredth : year / 100 = century := by omega
  rw [fourth, hundredth]
  omega

theorem monthOfYear {day month : Int} (first : 0 ≤ day) (last : day ≤ 365)
    (found : month = (5 * day + 2) / 153) :
    0 ≤ month ∧ month ≤ 11 ∧ 1 ≤ day - (153 * month + 2) / 5 + 1 ∧
      day - (153 * month + 2) / 5 + 1 ≤ 31 ∧
      (month = 1 ∨ month = 3 ∨ month = 6 ∨ month = 8 → day - (153 * month + 2) / 5 + 1 ≤ 30) ∧
      (month = 11 → day - (153 * month + 2) / 5 + 1 ≤ if day = 365 then 29 else 28) := by
  split <;> omega

theorem daysInMonthMost {year : Int} {month : Nat} : daysInMonth year month ≤ 31 := by
  unfold daysInMonth
  repeat' split
  all_goals decide

namespace Date

structure Civil (n : Int) (d : Date) (era year rest month : Int) : Prop where
  day : n + 719468 = era * 146097 + (year * 365 + year / 4 - year / 100 + rest)
  years : 0 ≤ year ∧ year ≤ 399
  rests : 0 ≤ rest ∧ rest ≤ 365
  long : rest = 365 → (year + 1) % 4 = 0 ∧ ((year + 1) % 100 ≠ 0 ∨ year + 1 = 400)
  found : month = (5 * rest + 2) / 153
  same : d = ⟨if month < 10 then year + era * 400 else year + era * 400 + 1,
    (if month < 10 then month + 3 else month - 9).toNat, (rest - (153 * month + 2) / 5 + 1).toNat⟩

theorem ofDaysCivil (n : Int) : ∃ era year rest month, Civil n (ofDays n) era year rest month := by
  let day := (n + 719468) % 146097
  let year := (day - day / 1460 + day / 36524 - day / 146096) / 365
  let rest := day - (365 * year + year / 4 - year / 100)
  let month := (5 * rest + 2) / 153
  obtain ⟨noYear, years, noDay, days, long⟩ : 0 ≤ year ∧ year ≤ 399 ∧ 0 ≤ rest ∧ rest ≤ 365 ∧
      (rest = 365 → (year + 1) % 4 = 0 ∧ ((year + 1) % 100 ≠ 0 ∨ year + 1 = 400)) :=
    yearOfEra (by omega) (by omega) rfl
  have months : month ≤ 11 := (monthOfYear noDay days rfl).2.1
  refine ⟨(n + 719468) / 146097, year, rest, month, by omega, ⟨noYear, years⟩, ⟨noDay, days⟩, long,
    rfl, ?_⟩
  -- January and February are the months 10 and 11 of the year before
  have early : (if month < 10 then month + 3 else month - 9) ≤ 2 ↔ ¬month < 10 := by
    split <;> omega
  have reached : (if (if month < 10 then month + 3 else month - 9) ≤ 2
      then year + (n + 719468) / 146097 * 400 + 1 else year + (n + 719468) / 146097 * 400) =
        if month < 10 then year + (n + 719468) / 146097 * 400
        else year + (n + 719468) / 146097 * 400 + 1 := by
    simp only [early, ite_not]
  exact congrArg (Date.mk · _ _) reached

theorem enoughDays {year : Int} {month day : Nat} (all : day ≤ 31)
    (short : month = 4 ∨ month = 6 ∨ month = 9 ∨ month = 11 → day ≤ 30)
    (february : month = 2 → day ≤ if isLeapYear year then 29 else 28) :
    day ≤ daysInMonth year month := by
  unfold daysInMonth
  by_cases second : month = 2
  · simpa [second] using february second
  · by_cases thirty : month = 4 ∨ month = 6 ∨ month = 9 ∨ month = 11
    · simpa [second, or_assoc, thirty] using short thirty
    · simpa [second, or_assoc, thirty] using all

theorem ofDaysValid (n : Int) : (ofDays n).valid = true := by
  obtain ⟨era, year, rest, month, civil⟩ := ofDaysCivil n
  obtain ⟨noMonth, months, noDate, dates, short, february⟩ :=
    monthOfYear civil.rests.1 civil.rests.2 civil.found
  have leap : rest = 365 → isLeapYear (year + era * 400 + 1) = true := fun last => by
    obtain ⟨fourth, hundredth⟩ := civil.long last
    have divides : (year + era * 400 + 1) % 4 = 0 := by omega
    have apart : (year + era * 400 + 1) % 100 ≠ 0 ∨ (year + era * 400 + 1) % 400 = 0 := by omega
    simpa [isLeapYear, divides] using apart
  rw [civil.same]
  simp only [valid, Bool.and_eq_true, decide_eq_true_eq]
  by_cases late : month < 10
  · simp only [late, if_true]
    refine ⟨⟨⟨by omega, by omega⟩, by omega⟩, enoughDays (by omega) (fun _ => by omega) fun _ => ?_⟩
    omega
  · simp only [late, if_false]
    refine ⟨⟨⟨by omega, by omega⟩, by omega⟩, enoughDays (by omega) (fun _ => by omega) fun _ => ?_⟩
    have eleven : month = 11 := by omega
    by_cases last : rest = 365
    · rw [leap last]
      simpa [last] using february eleven
    · have fewer := february eleven
      rw [if_neg last] at fewer
      split <;> omega

theorem toDaysOfDays (n : Int) : (ofDays n).toDays = n := by
  obtain ⟨era, year, rest, month, civil⟩ := ofDaysCivil n
  obtain ⟨noMonth, months, noDate, dates, _⟩ :=
    monthOfYear civil.rests.1 civil.rests.2 civil.found
  obtain ⟨day, ⟨noYear, years⟩, _, _, _, same⟩ := civil
  have byEra : (year + era * 400) / 400 = era := by omega
  have inEra : (year + era * 400) % 400 = year := by omega
  rw [same]
  by_cases late : month < 10
  · have number : (((month + 3).toNat + 9) % 12 : Nat) = month := by omega
    have marches : ¬(month + 3).toNat ≤ 2 := by omega
    simp only [toDays, late, if_true, if_neg marches, number, byEra, inEra]
    omega
  · have number : (((month - 9).toNat + 9) % 12 : Nat) = month := by omega
    have early : (month - 9).toNat ≤ 2 := by omega
    simp only [toDays, late, if_false, if_pos early, number, Int.add_sub_cancel, byEra, inEra]
    omega

theorem ofDaysCharted {n : Int} (first : (Date.mk firstYear 1 1).toDays ≤ n)
    (last : n ≤ (Date.mk lastYear 12 31).toDays) :
    firstYear ≤ (ofDays n).year ∧ (ofDays n).year ≤ lastYear := by
  obtain ⟨era, year, rest, month, civil⟩ := ofDaysCivil n
  obtain ⟨day, ⟨noYear, years⟩, ⟨noRest, rests⟩, long, found, same⟩ := civil
  have opening : (Date.mk firstYear 1 1).toDays = -96465292 := by decide
  have closing : (Date.mk lastYear 12 31).toDays = 95026236 := by decide
  rw [opening] at first
  rw [closing] at last
  rw [same]
  simp only [firstYear, lastYear]
  by_cases late : month < 10
  · simp only [late, if_true]
    omega
  · simp only [late, if_false]
    refine ⟨by omega, Int.not_lt.mp fun after => ?_⟩
    have eras : era = 655 := by omega
    have winter : 306 ≤ rest := by omega
    subst eras
    omega

end Date
end ServiceDirectory.Time
