import Storix.Foundation.Decimal

/-! # The Gregorian calendar

Days and microseconds since 1970, and the texts of times in UTC. The year is counted from
March, so that the leap day is its last one. 400 years make an era of 146097 days, and of its
parts only the last century and the last year of four are a day longer. -/

namespace Storix.Foundation

structure CivilDate where
  year : Nat
  month : Nat
  day : Nat
  deriving DecidableEq

namespace CivilDate

/-- The days from the first of March to the first of a month counted from March. -/
def daysToMonth (month : Nat) : Nat := (153 * month + 2) / 5

def daysToYear (year : Nat) : Nat := 365 * year + year / 4 - year / 100

def yearOfEra (day : Nat) : Nat :=
  let century := min (day / 36524) 3
  let dayOfCentury := day - 36524 * century
  let dayOfFour := dayOfCentury % 1461
  100 * century + 4 * (dayOfCentury / 1461) + min (dayOfFour / 365) 3

/-- The date of a day of a year that is counted from March. -/
def ofDayOfYear (year day : Nat) : CivilDate :=
  let month := (5 * day + 2) / 153
  { year := if month < 10 then year else year + 1
    month := if month < 10 then month + 3 else month - 9
    day := day - daysToMonth month + 1 }

/-- The day of 1970-01-01, counted from the first of March of the year 0. -/
def epoch : Nat := 719468

/-- The date of a day, counted from 1970-01-01. -/
def ofDays (days : Nat) : CivilDate :=
  let dayOfEra := (days + epoch) % 146097
  let year := yearOfEra dayOfEra
  ofDayOfYear ((days + epoch) / 146097 * 400 + year) (dayOfEra - daysToYear year)

def toDays (date : CivilDate) : Nat :=
  let year := if date.month ≤ 2 then date.year - 1 else date.year
  let month := if date.month ≤ 2 then date.month + 9 else date.month - 3
  year / 400 * 146097 + daysToYear (year % 400) + daysToMonth month + date.day - 1 - epoch

theorem daysToYear_parts {century four year : Nat} (fours : four < 25) (years : year < 4) :
    daysToYear (100 * century + 4 * four + year) = 36524 * century + 1461 * four + 365 * year := by
  unfold daysToYear
  omega

theorem yearOfEra_spec {day : Nat} (inEra : day < 146097) :
    yearOfEra day < 400 ∧ daysToYear (yearOfEra day) ≤ day ∧
      day < daysToYear (yearOfEra day) + 366 := by
  have bounds : min (day / 36524) 3 ≤ 3 ∧ 36524 * min (day / 36524) 3 ≤ day ∧
      day < 36524 * min (day / 36524) 3 + 36525 := by omega
  rw [yearOfEra]
  generalize min (day / 36524) 3 = century at *
  generalize isDay : day - 36524 * century = dayOfCentury
  have four : dayOfCentury / 1461 < 25 := by omega
  have year : min (dayOfCentury % 1461 / 365) 3 < 4 ∧
      365 * min (dayOfCentury % 1461 / 365) 3 ≤ dayOfCentury % 1461 ∧
      dayOfCentury % 1461 < 365 * min (dayOfCentury % 1461 / 365) 3 + 366 := by omega
  rw [daysToYear_parts four year.1]
  omega

theorem ofDayOfYear_spec (year : Nat) {day : Nat} (inYear : day < 366) :
    let date := ofDayOfYear year day
    1 ≤ date.month ∧ date.month ≤ 12 ∧ 1 ≤ date.day ∧ date.day ≤ 31 ∧
      (if date.month ≤ 2 then date.year - 1 else date.year) = year ∧
      daysToMonth (if date.month ≤ 2 then date.month + 9 else date.month - 3) + date.day - 1 =
        day := by
  have month : (5 * day + 2) / 153 < 12 ∧ daysToMonth ((5 * day + 2) / 153) ≤ day ∧
      day < daysToMonth ((5 * day + 2) / 153) + 31 := by
    unfold daysToMonth
    omega
  intro date
  by_cases early : (5 * day + 2) / 153 < 10
  · have isDate : date = ⟨year, (5 * day + 2) / 153 + 3,
        day - daysToMonth ((5 * day + 2) / 153) + 1⟩ := by
      simp only [date, ofDayOfYear, if_pos early]
    rw [isDate]
    dsimp only
    rw [if_neg (by omega), if_neg (by omega), Nat.add_sub_cancel]
    omega
  · have isDate : date = ⟨year + 1, (5 * day + 2) / 153 - 9,
        day - daysToMonth ((5 * day + 2) / 153) + 1⟩ := by
      simp only [date, ofDayOfYear, if_neg early]
    rw [isDate]
    dsimp only
    rw [if_pos (by omega), if_pos (by omega), Nat.sub_add_cancel (by omega)]
    omega

theorem ofDays_ranges (days : Nat) :
    1 ≤ (ofDays days).month ∧ (ofDays days).month ≤ 12 ∧ 1 ≤ (ofDays days).day ∧
      (ofDays days).day ≤ 31 := by
  have inEra : (days + epoch) % 146097 < 146097 := Nat.mod_lt _ (Nat.zero_lt_succ _)
  rcases yearOfEra_spec inEra with ⟨-, atLeast, atMost⟩
  have inYear : (days + epoch) % 146097 - daysToYear (yearOfEra ((days + epoch) % 146097)) < 366 :=
    by omega
  rcases ofDayOfYear_spec ((days + epoch) / 146097 * 400 + yearOfEra ((days + epoch) % 146097))
    inYear with ⟨least, most, first, last, -⟩
  exact ⟨least, most, first, last⟩

theorem toDays_ofDays (days : Nat) : (ofDays days).toDays = days := by
  have inEra : (days + epoch) % 146097 < 146097 := Nat.mod_lt _ (Nat.zero_lt_succ _)
  rcases yearOfEra_spec inEra with ⟨years, atLeast, atMost⟩
  have parts := Nat.div_add_mod (days + epoch) 146097
  simp only [ofDays]
  generalize (days + epoch) / 146097 = era at *
  generalize (days + epoch) % 146097 = dayOfEra at *
  generalize yearOfEra dayOfEra = year at *
  have inYear : dayOfEra - daysToYear year < 366 := by omega
  rcases ofDayOfYear_spec (era * 400 + year) inYear with ⟨-, -, first, -, isYear, isDay⟩
  have isEra : (era * 400 + year) / 400 = era := by omega
  have isYearOfEra : (era * 400 + year) % 400 = year := by omega
  rw [toDays, isYear, isEra, isYearOfEra]
  omega

end CivilDate

/-! ## Texts of times -/

def lastDigits : Nat → Nat → List UInt16
  | 0, _ => []
  | width + 1, value => lastDigits width (value / 10) ++ [UInt16.ofNat (0x30 + value % 10)]

theorem ofDecimal_lastDigits {width value : Nat} (small : value < 10 ^ width) :
    ofDecimal (lastDigits width value) = value := by
  induction width generalizing value with
  | zero =>
      rw [Nat.pow_zero, Nat.lt_one_iff] at small
      rw [small]
      rfl
  | succ width induction =>
      have isDigit : digitValue (UInt16.ofNat (0x30 + value % 10)) = value % 10 := by
        rw [digitValue, UInt16.toNat_ofNat']
        omega
      rw [lastDigits, ofDecimal_append_singleton, induction (by rw [Nat.pow_succ] at small; omega),
        isDigit]
      omega

def yearDigits (year : Nat) : List UInt16 :=
  if year < 10000 then lastDigits 4 year else toDecimal year

theorem ofDecimal_yearDigits (year : Nat) : ofDecimal (yearDigits year) = year := by
  rw [yearDigits]
  split
  case isTrue small => exact ofDecimal_lastDigits small
  case isFalse => exact (toDecimal_spec year).2

/-- `-MM-DDTHH:MM:SS.UUUUUUZ` -/
def timestampEnd (month day hour minute second micro : Nat) : List UInt16 :=
  0x2d :: lastDigits 2 month ++ 0x2d :: lastDigits 2 day ++ 0x54 :: lastDigits 2 hour ++
    0x3a :: lastDigits 2 minute ++ 0x3a :: lastDigits 2 second ++ 0x2e :: lastDigits 6 micro ++
    [0x5a]

/-- A number of microseconds as a time in UTC. -/
def timestampText (time : Nat) : List UInt16 :=
  let date := CivilDate.ofDays (time / 86400000000)
  yearDigits date.year ++ timestampEnd date.month date.day (time / 3600000000 % 24)
    (time / 60000000 % 60) (time / 1000000 % 60) (time % 1000000)

/-- The number of microseconds that such a text stands for. -/
def readTimestamp (text : List UInt16) : Nat :=
  let rest := text.drop (text.length - 23)
  let part (start length : Nat) := ofDecimal ((rest.drop start).take length)
  let date : CivilDate := ⟨ofDecimal (text.take (text.length - 23)), part 1 2, part 4 2⟩
  (((date.toDays * 24 + part 7 2) * 60 + part 10 2) * 60 + part 13 2) * 1000000 + part 16 6

theorem timestampEnd_parts {month day hour minute second micro : Nat} (months : month < 100)
    (days : day < 100) (hours : hour < 100) (minutes : minute < 100) (seconds : second < 100)
    (micros : micro < 1000000) :
    let text := timestampEnd month day hour minute second micro
    text.length = 23 ∧ ofDecimal ((text.drop 1).take 2) = month ∧
      ofDecimal ((text.drop 4).take 2) = day ∧ ofDecimal ((text.drop 7).take 2) = hour ∧
      ofDecimal ((text.drop 10).take 2) = minute ∧ ofDecimal ((text.drop 13).take 2) = second ∧
      ofDecimal ((text.drop 16).take 6) = micro :=
  ⟨rfl, @ofDecimal_lastDigits 2 _ months, @ofDecimal_lastDigits 2 _ days,
    @ofDecimal_lastDigits 2 _ hours, @ofDecimal_lastDigits 2 _ minutes,
    @ofDecimal_lastDigits 2 _ seconds, @ofDecimal_lastDigits 6 _ micros⟩

theorem readTimestamp_timestampText (time : Nat) : readTimestamp (timestampText time) = time := by
  rcases CivilDate.ofDays_ranges (time / 86400000000) with ⟨-, months, -, days⟩
  rcases @timestampEnd_parts (CivilDate.ofDays (time / 86400000000)).month
    (CivilDate.ofDays (time / 86400000000)).day (time / 3600000000 % 24) (time / 60000000 % 60)
    (time / 1000000 % 60) (time % 1000000) (by omega) (by omega) (by omega) (by omega) (by omega)
    (by omega) with ⟨length, isMonth, isDay, isHour, isMinute, isSecond, isMicro⟩
  rw [readTimestamp, timestampText, List.length_append, length, Nat.add_sub_cancel]
  dsimp only
  rw [List.take_left, List.drop_left, isMonth, isDay, isHour, isMinute, isSecond, isMicro,
    ofDecimal_yearDigits]
  have isDate := CivilDate.toDays_ofDays (time / 86400000000)
  rw [show (⟨(CivilDate.ofDays (time / 86400000000)).year,
    (CivilDate.ofDays (time / 86400000000)).month,
    (CivilDate.ofDays (time / 86400000000)).day⟩ : CivilDate).toDays =
    time / 86400000000 from isDate]
  omega

end Storix.Foundation
