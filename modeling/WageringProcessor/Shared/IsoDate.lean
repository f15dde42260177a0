import WageringProcessor.Shared.Cursor

/-!
# The text of a date determines the date

`Date.prototype.toISOString` prints a date as the fields of its calendar day and of its time, each
padded to a width that is fixed but for the year's, which stands first.
-/

namespace WageringProcessor.Pagination

variable {w m n : Nat} {s t : String}

/-! ## Padded numbers -/

theorem padded_toList (w n : Nat) : (padded w n).toList =
    List.replicate (w - (Nat.toDigits 10 n).length) '0' ++ Nat.toDigits 10 n := by
  rw [padded, String.toList_append, String.toList_ofList, ← String.length_toList, Nat.toList_repr]

theorem ofDigitChars_padded (w n : Nat) : Nat.ofDigitChars 10 (padded w n).toList 0 = n := by
  rw [padded_toList, Nat.ofDigitChars_append, Nat.ofDigitChars_replicate_zero, Nat.mul_zero,
    Nat.ofDigitChars_ten_toDigits]

theorem padded_inj (h : padded w m = padded w n) : m = n := by
  rw [← ofDigitChars_padded w m, h, ofDigitChars_padded]

theorem padded_length (hw : 0 < w) (hn : n < 10 ^ w) : (padded w n).toList.length = w := by
  have hle := (Nat.length_toDigits_le_iff (by decide : 1 < 10) hw).mpr hn
  rw [padded_toList, List.length_append, List.length_replicate]
  omega

theorem padded_digits {c : Char} (hc : c ∈ (padded w n).toList) : c.isDigit = true := by
  rw [padded_toList] at hc
  rcases List.mem_append.mp hc with hc | hc
  · rw [List.eq_of_mem_replicate hc]
    rfl
  · exact Nat.isDigit_of_mem_toDigits (by decide) (by decide) hc

/-- A number of a fixed width is read back from the end of a text. -/
theorem append_padded_inj (hw : 0 < w) (hm : m < 10 ^ w) (hn : n < 10 ^ w)
    (h : s ++ padded w m = t ++ padded w n) : s = t ∧ m = n := by
  have hchars := congrArg String.toList h
  rw [String.toList_append, String.toList_append] at hchars
  obtain ⟨hs, hpadded⟩ := List.append_inj' hchars
    ((padded_length hw hm).trans (padded_length hw hn).symm)
  exact ⟨String.toList_inj.mp hs, padded_inj (String.toList_inj.mp hpadded)⟩

/-! ## Days -/

/-- The year of an era that a day lies in, and the days before that year. -/
theorem yearOfEra_bounds {dayOfEra yearOfEra : Nat} (h : dayOfEra < 146097) (hyear : yearOfEra =
      (dayOfEra - dayOfEra / 1460 + dayOfEra / 36524 - dayOfEra / 146096) / 365) :
    yearOfEra < 400 ∧ 365 * yearOfEra + yearOfEra / 4 - yearOfEra / 100 ≤ dayOfEra ∧
      dayOfEra ≤ 365 * yearOfEra + yearOfEra / 4 - yearOfEra / 100 + 365 := by
  by_cases hlast : dayOfEra = 146096
  · subst hlast
    subst hyear
    decide
  · have hwhole : dayOfEra / 146096 = 0 := by omega
    rw [hwhole] at hyear
    have hleast : yearOfEra / 4 ≤ dayOfEra / 1460 := by omega
    have hmost : dayOfEra / 1460 ≤ yearOfEra / 4 + 1 := by omega
    have hcentury : yearOfEra / 100 = dayOfEra / 36524 := by
      have hfour : dayOfEra / 36524 = 0 ∨ dayOfEra / 36524 = 1 ∨ dayOfEra / 36524 = 2 ∨
          dayOfEra / 36524 = 3 := by omega
      rcases hfour with hb | hb | hb | hb <;> omega
    omega

/-- Where a day lies: in the year `yearOfEra` of an era, on the day `dayOfYear` and in the month
`monthFromMarch` of a year that begins in March. -/
structure Lies (day era yearOfEra dayOfYear monthFromMarch : Nat) : Prop where
  inEra : yearOfEra < 400
  inYear : dayOfYear ≤ 365
  inMonth : monthFromMarch = (5 * dayOfYear + 2) / 153
  count : day + 719468 =
    146097 * era + (365 * yearOfEra + yearOfEra / 4 - yearOfEra / 100 + dayOfYear)
  civil : civilDate day = (400 * era + yearOfEra + (if monthFromMarch < 10 then 0 else 1),
    if monthFromMarch < 10 then monthFromMarch + 3 else monthFromMarch - 9,
    dayOfYear - (153 * monthFromMarch + 2) / 5 + 1)

theorem exists_lies (day : Nat) : ∃ era yearOfEra dayOfYear monthFromMarch,
    Lies day era yearOfEra dayOfYear monthFromMarch := by
  obtain ⟨era, hera⟩ : ∃ era, era = (day + 719468) / 146097 := ⟨_, rfl⟩
  obtain ⟨doe, hdoe⟩ : ∃ doe, doe = (day + 719468) % 146097 := ⟨_, rfl⟩
  obtain ⟨yoe, hyoe⟩ : ∃ yoe, yoe = (doe - doe / 1460 + doe / 36524 - doe / 146096) / 365 :=
    ⟨_, rfl⟩
  obtain ⟨doy, hdoy⟩ : ∃ doy, doy = doe - (365 * yoe + yoe / 4 - yoe / 100) := ⟨_, rfl⟩
  obtain ⟨mp, hmp⟩ : ∃ mp, mp = (5 * doy + 2) / 153 := ⟨_, rfl⟩
  obtain ⟨hyear, hstart, hend⟩ := yearOfEra_bounds (by omega) hyoe
  have hdays : doy ≤ 365 := by omega
  refine ⟨era, yoe, doy, mp, hyear, hdays, hmp, by omega, ?_⟩
  unfold civilDate
  simp only [← hera, ← hdoe, ← hyoe, ← hdoy, ← hmp]
  by_cases hmonth : mp < 10
  · rw [if_pos hmonth, if_pos hmonth, if_neg (by omega)]
  · rw [if_neg hmonth, if_neg hmonth, if_pos (by omega)]

theorem civilDate_lt (day : Nat) :
    (civilDate day).2.1 < 100 ∧ (civilDate day).2.2 < 100 := by
  obtain ⟨era, yoe, doy, mp, h⟩ := exists_lies day
  have hmonth := h.inMonth
  have hdays := h.inYear
  rw [h.civil]
  dsimp only
  constructor
  · split <;> omega
  · omega

/-- A day is the only one of its calendar date. -/
theorem civilDate_inj {day day' : Nat} (h : civilDate day = civilDate day') : day = day' := by
  obtain ⟨era, yoe, doy, mp, hl⟩ := exists_lies day
  obtain ⟨era', yoe', doy', mp', hl'⟩ := exists_lies day'
  rw [hl.civil, hl'.civil, Prod.mk.injEq, Prod.mk.injEq] at h
  obtain ⟨hyear, hmonth, hday⟩ := h
  have hmp := hl.inMonth
  have hmp' := hl'.inMonth
  have hdays := hl.inYear
  have hdays' := hl'.inYear
  have hsame : mp = mp' := by
    split at hmonth <;> split at hmonth <;> omega
  subst hsame
  have hinEra := hl.inEra
  have hinEra' := hl'.inEra
  have hyears : 400 * era + yoe = 400 * era' + yoe' := Nat.add_right_cancel hyear
  obtain rfl : era = era' := by omega
  obtain rfl : yoe = yoe' := by omega
  obtain rfl : doy = doy' := by omega
  have hcount := hl.count
  have hcount' := hl'.count
  omega

/-! ## Dates -/

theorem year_inj {y z : Nat}
    (h : (if y < 10000 then padded 4 y else "+" ++ padded 6 y) =
      if z < 10000 then padded 4 z else "+" ++ padded 6 z) : y = z := by
  -- the sign of a long year is not a digit
  have hsign : ∀ a b, padded 4 a ≠ "+" ++ padded 6 b := by
    intro a b heq
    have hmem : '+' ∈ (padded 4 a).toList := by
      rw [heq, String.toList_append]
      exact List.mem_append_left _ List.mem_cons_self
    exact absurd (padded_digits hmem) (by decide)
  split at h <;> split at h
  · exact padded_inj h
  · exact absurd h (hsign y z)
  · exact absurd h.symm (hsign z y)
  · exact padded_inj ((String.append_right_inj "+").mp h)

/-- A time is that of its hours, minutes, seconds and milliseconds. -/
theorem time_inj {time time' : Nat} (hhours : time / 3600000 = time' / 3600000)
    (hminutes : time / 60000 % 60 = time' / 60000 % 60)
    (hseconds : time / 1000 % 60 = time' / 1000 % 60) (hmillis : time % 1000 = time' % 1000) :
    time = time' := by
  have hminute : time / 60000 = time' / 60000 := by
    have hsplit := Nat.div_div_eq_div_mul time 60000 60
    have hsplit' := Nat.div_div_eq_div_mul time' 60000 60
    omega
  have hsecond : time / 1000 = time' / 1000 := by
    have hsplit := Nat.div_div_eq_div_mul time 1000 60
    have hsplit' := Nat.div_div_eq_div_mul time' 1000 60
    omega
  omega

theorem toISOString_inj {date date' : Date} (h : toISOString date = toISOString date') :
    date = date' := by
  have hcivil := civilDate_lt (date / 86400000)
  have hcivil' := civilDate_lt (date' / 86400000)
  have htime : date % 86400000 < 86400000 := Nat.mod_lt _ (by decide)
  have htime' : date' % 86400000 < 86400000 := Nat.mod_lt _ (by decide)
  unfold toISOString at h
  dsimp only at h
  -- the fields are read off from the last one on
  replace h := (String.append_left_inj "Z").mp h
  obtain ⟨h, hmillis⟩ := append_padded_inj (by decide) (by omega) (by omega) h
  replace h := (String.append_left_inj ".").mp h
  obtain ⟨h, hseconds⟩ := append_padded_inj (by decide) (by omega) (by omega) h
  replace h := (String.append_left_inj ":").mp h
  obtain ⟨h, hminutes⟩ := append_padded_inj (by decide) (by omega) (by omega) h
  replace h := (String.append_left_inj ":").mp h
  obtain ⟨h, hhours⟩ := append_padded_inj (by decide) (by omega) (by omega) h
  replace h := (String.append_left_inj "T").mp h
  obtain ⟨h, hday⟩ := append_padded_inj (by decide) hcivil.2 hcivil'.2 h
  replace h := (String.append_left_inj "-").mp h
  obtain ⟨h, hmonth⟩ := append_padded_inj (by decide) hcivil.1 hcivil'.1 h
  replace h := (String.append_left_inj "-").mp h
  have hdays : date / 86400000 = date' / 86400000 :=
    civilDate_inj (Prod.ext (year_inj h) (Prod.ext hmonth hday))
  have htimes : date % 86400000 = date' % 86400000 := time_inj hhours hminutes hseconds hmillis
  rw [← Nat.div_add_mod date 86400000, hdays, htimes, Nat.div_add_mod]

end WageringProcessor.Pagination
