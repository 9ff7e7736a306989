import ForgeSync.Calendar.Timestamp
import ForgeSync.Proofs.Calendar.Date
import ForgeSync.Proofs.Text.Decimal

/-!
# Dates and instants are read back

The text of a date is read as that date. The text of an instant is read as that instant, in whatever
year of the calendar it lies, with whatever fraction of a second, and in a leap second too.

Main statements: `Civil.read?_text` and `Instant.read?_text`.
-/

namespace ForgeSync.Calendar

open Text

variable {width n : Nat} {c : Char} {cs rest : List Char}

/-! ## Numbers -/

theorem isBlank_of_isDigit (h : c.isDigit = true) : isBlank c = false := by
  have hrange : 48 ≤ c.toNat ∧ c.toNat ≤ 57 := by
    simpa [Char.isDigit, Char.le_def, UInt32.le_iff_toNat_le] using h
  have hbetween := hrange
  simp only [isBlank, Bool.or_eq_false_iff, Bool.and_eq_false_iff, decide_eq_false_iff_not,
    beq_eq_false_iff_ne]
  omega

/-- A text that does not go on with a digit. -/
def StopsDigits (cs : List Char) : Prop :=
  ∀ c ∈ cs.head?, c.isDigit = false

theorem takeWhile_isDigit_append (hdigits : ∀ c ∈ cs, c.isDigit = true) (hrest : StopsDigits rest) :
    (cs ++ rest).takeWhile Char.isDigit = cs := by
  rw [List.takeWhile_append_of_pos hdigits]
  cases rest with
  | nil => simp
  | cons c rest => simp [hrest c (by simp)]

theorem takeNumber?_of_digits {digits : List Char} (hdigits : ∀ c ∈ digits, c.isDigit = true)
    (hne : digits ≠ []) (hvalue : natOfDigits? digits = some n)
    (hwidth : digits.length = width ∨ digits.length ≤ width ∧ StopsDigits rest) :
    takeNumber? width (digits ++ rest) = some (n, rest) := by
  have htaken : ((digits ++ rest).take width).takeWhile Char.isDigit = digits := by
    obtain hall | ⟨hle, hstops⟩ := hwidth
    · rw [List.take_left' hall]
      exact takeWhile_isDigit hdigits
    · rw [List.take_append, List.take_of_length_le hle]
      refine takeWhile_isDigit_append hdigits fun c hc => hstops c ?_
      rw [List.head?_take] at hc
      split at hc
      · cases hc
      · exact hc
  obtain ⟨d, tail, rfl⟩ := List.exists_cons_of_ne_nil hne
  simp only [takeNumber?, htaken, hvalue, Option.map_some, List.drop_left]

theorem takeNumber?_padded {count : Nat} (hwidth : (padded count n).toList.length = width ∨
      (padded count n).toList.length ≤ width ∧ StopsDigits rest) :
    takeNumber? width ((padded count n).toList ++ rest) = some (n, rest) :=
  takeNumber?_of_digits (fun _ => isDigit_of_mem_padded) (padded_ne_nil count n)
    (natOfDigits?_padded count n) hwidth

theorem dropWhile_isBlank_padded :
    ((padded width n).toList ++ rest).dropWhile isBlank = (padded width n).toList ++ rest := by
  obtain ⟨d, tail, hcons, hdigit⟩ := exists_padded_eq_cons width n
  rw [hcons, List.cons_append, List.dropWhile_cons_of_neg (by simp [isBlank_of_isDigit hdigit])]

theorem takePart?_padded (h : n < 100) :
    takePart? ((padded 2 n).toList ++ rest) = some (n, rest) := by
  rw [takePart?, dropWhile_isBlank_padded, takeNumber?_padded (.inl (length_padded (by decide) h))]

theorem takeSeparator?_cons (h : isBlank c = false) : takeSeparator? c (c :: rest) = some rest := by
  rw [takeSeparator?, List.dropWhile_cons_of_neg (by simp [h])]
  exact if_pos rfl

/-! ## Dates -/

theorem takeYear?_of_isDigit (h : c.isDigit = true) :
    takeYear? (c :: rest) = (takeNumber? 4 (c :: rest)).map fun p => (Int.ofNat p.1, p.2) := by
  rw [takeYear?, List.dropWhile_cons_of_neg (by simp [isBlank_of_isDigit h])]
  split
  · rename_i heq
    cases heq
    cases h
  · rename_i heq
    cases heq
    cases h
  · rfl

theorem takeYear?_plus (rest : List Char) : takeYear? ('+' :: rest) =
    (takeNumber? rest.length rest).map fun p => (Int.ofNat p.1, p.2) :=
  rfl

theorem takeYear?_minus (rest : List Char) : takeYear? ('-' :: rest) =
    (takeNumber? rest.length rest).map fun p => (-Int.ofNat p.1, p.2) :=
  rfl

theorem takeYear?_yearText (year : Int) (hrest : StopsDigits rest) :
    takeYear? ((yearText year).toList ++ rest) = some (year, rest) := by
  have hsigned : ∀ n : Nat, takeNumber? ((padded 4 n).toList ++ rest).length
      ((padded 4 n).toList ++ rest) = some (n, rest) :=
    fun n => takeNumber?_padded (.inr ⟨by simp, hrest⟩)
  cases year with
  | ofNat n =>
      rw [yearText]
      split
      · have hnumber : takeNumber? 4 ((padded 4 n).toList ++ rest) = some (n, rest) :=
          takeNumber?_padded (.inl (length_padded (by decide) (show n < 10000 by omega)))
        obtain ⟨d, tail, hcons, hdigit⟩ := exists_padded_eq_cons 4 n
        rw [hcons, List.cons_append] at hnumber ⊢
        rw [takeYear?_of_isDigit hdigit, hnumber]
        rfl
      · rw [String.toList_append, List.append_assoc, show "+".toList = ['+'] from rfl,
          List.singleton_append, takeYear?_plus, hsigned]
        rfl
  | negSucc n =>
      rw [yearText, String.toList_append, List.append_assoc, show "-".toList = ['-'] from rfl,
        List.singleton_append, takeYear?_minus, hsigned]
      rfl

theorem Civil.month_day_lt_of_isValid {date : Civil} (h : date.isValid = true) :
    date.month < 100 ∧ date.day < 100 := by
  have hlength : daysInMonth date.year date.month ≤ 31 := by
    unfold daysInMonth
    repeat' split
    all_goals omega
  simp only [isValid, Bool.and_eq_true, decide_eq_true_eq] at h
  omega

theorem takeDate?_text (date : Civil) (hmonth : date.month < 100) (hday : date.day < 100) :
    takeDate? (date.text.toList ++ rest) = some (date, rest) := by
  have hdash : isBlank '-' = false := by decide
  have htext : date.text.toList ++ rest = (yearText date.year).toList ++
      ('-' :: ((padded 2 date.month).toList ++ ('-' :: ((padded 2 date.day).toList ++ rest)))) := by
    simp [Civil.text]
  rw [htext, takeDate?, takeYear?_yearText _ (by simp [StopsDigits])]
  simp only [bind, Option.bind, takeSeparator?_cons hdash, takePart?_padded hmonth,
    takePart?_padded hday]
  rfl

/-- The text of a date is read as that date. -/
theorem Civil.read?_text {date : Civil} (h : date.isValid = true) : read? date.text = some date := by
  obtain ⟨hmonth, hday⟩ := month_day_lt_of_isValid h
  have hdate : takeDate? (date.text.toList ++ []) = some (date, []) :=
    takeDate?_text date hmonth hday
  rw [List.append_nil] at hdate
  simp [read?, hdate, h]

/-! ## Fractions -/

theorem takeFraction?_point {count : Nat} (scale : Nat) (hcount : 0 < count)
    (hscale : count + scale = 9) (h : n < Nat.pow 10 count) (hrest : StopsDigits rest) :
    takeFraction? ('.' :: ((padded count n).toList ++ rest)) = some (n * Nat.pow 10 scale, rest) := by
  have hlength := length_padded hcount h
  have hnumber : takeNumber? 9 ((padded count n).toList ++ rest) = some (n, rest) :=
    takeNumber?_padded (.inr ⟨by omega, hrest⟩)
  have hdigits : 9 - (((padded count n).toList ++ rest).length - rest.length) = scale := by
    rw [List.length_append]
    omega
  have hdrop : rest.dropWhile Char.isDigit = rest := by
    cases rest with
    | nil => rfl
    | cons c rest => rw [List.dropWhile_cons_of_neg (by simp [hrest c (by simp)])]
  simp only [takeFraction?, hnumber, bind, Option.bind, hdigits, hdrop]
  rfl

theorem takeFraction?_fractionText {nanos : Nat} (h : nanos < 1000000000)
    (hrest : StopsDigits rest) (hpoint : rest.head? ≠ some '.') :
    takeFraction? ((fractionText nanos).toList ++ rest) = some (nanos, rest) := by
  have hdot : ∀ s : String, ("." ++ s).toList ++ rest = '.' :: (s.toList ++ rest) := by simp
  rw [fractionText]
  split
  · rename_i hzero
    subst hzero
    rw [takeFraction?.eq_def]
    split
    · rename_i heq
      simp at heq
      simp [heq] at hpoint
    · simp
  · split
    · have hlt : nanos / 1000000 < 1000 := by omega
      have hnanos : nanos / 1000000 * 1000000 = nanos := by omega
      rw [hdot, takeFraction?_point 6 (by decide) rfl hlt hrest]
      exact congrArg (fun n => some (n, rest)) hnanos
    · split
      · have hlt : nanos / 1000 < 1000000 := by omega
        have hnanos : nanos / 1000 * 1000 = nanos := by omega
        rw [hdot, takeFraction?_point 3 (by decide) rfl hlt hrest]
        exact congrArg (fun n => some (n, rest)) hnanos
      · rw [hdot, takeFraction?_point 0 (by decide) rfl h hrest]
        exact congrArg (fun n => some (n, rest)) (Nat.mul_one nanos)

/-! ## Instants -/

namespace Instant

/-- An instant between the first and the last one of the calendar. Only the last second of a minute
may have a leap second behind it. -/
structure InCalendar (t : Instant) : Prop where
  first_le : first.second ≤ t.second
  le_last : t.second ≤ last.second
  nanos_lt : t.nanos < 2 * nanosPerSecond
  leap : nanosPerSecond ≤ t.nanos → t.second % 60 = 59

variable {t : Instant}

theorem InCalendar.isValid_date (h : t.InCalendar) : t.date.isValid = true := by
  have hfirst := h.first_le
  have hlast := h.le_last
  simp only [first, last, ofDate, secondsPerDay] at hfirst hlast
  apply Civil.isValid_ofDays
  · simp only [secondsPerDay]
    omega
  · simp only [secondsPerDay]
    omega

/-- The seconds of an instant since its day began. -/
def secondOfDay (t : Instant) : Nat :=
  (t.second % secondsPerDay).toNat

theorem secondOfDay_lt (t : Instant) : t.secondOfDay < 86400 := by
  simp only [secondOfDay, secondsPerDay]
  omega

/-- The day and the parts of the time make up the second that they were taken from. -/
theorem second_eq_parts (t : Instant) :
    t.date.toDays * secondsPerDay + Int.ofNat (3600 * (t.secondOfDay / 3600) +
      60 * (t.secondOfDay / 60 % 60) + t.secondOfDay % 60) - 0 = t.second := by
  have hdays : t.date.toDays = t.second / 86400 := Civil.toDays_ofDays _
  rw [hdays]
  simp only [secondOfDay, secondsPerDay, Int.ofNat_eq_natCast]
  omega

/-- The second that is written: the sixty-first of a minute in a leap second. -/
def shownSecond (t : Instant) : Nat :=
  t.secondOfDay % 60 + t.nanos / nanosPerSecond

theorem InCalendar.shownSecond_le (h : t.InCalendar) : t.shownSecond ≤ 60 := by
  have hnanos := h.nanos_lt
  have hleap := h.leap
  simp only [shownSecond, secondOfDay, secondsPerDay, nanosPerSecond] at hnanos hleap ⊢
  omega

/-- The second that is written tells whether it is a leap second. -/
theorem InCalendar.shownSecond_parts (h : t.InCalendar) :
    (if t.shownSecond = 60 then 59 else t.shownSecond) = t.secondOfDay % 60 ∧
      t.nanos % nanosPerSecond + (if t.shownSecond = 60 then nanosPerSecond else 0) = t.nanos := by
  have hnanos := h.nanos_lt
  have hleap := h.leap
  obtain ⟨shown, hshown⟩ : ∃ shown, shown = t.shownSecond := ⟨_, rfl⟩
  rw [← hshown]
  simp only [shownSecond, secondOfDay, secondsPerDay, nanosPerSecond] at hnanos hleap hshown ⊢
  by_cases hlong : shown = 60
  · rw [if_pos hlong, if_pos hlong]
    omega
  · rw [if_neg hlong, if_neg hlong]
    omega

theorem toList_text (t : Instant) :
    t.text.toList = t.date.text.toList ++ ('T' :: ((padded 2 (t.secondOfDay / 3600)).toList ++
      (':' :: ((padded 2 (t.secondOfDay / 60 % 60)).toList ++
      (':' :: ((padded 2 t.shownSecond).toList ++
      ((fractionText (t.nanos % nanosPerSecond)).toList ++ ['Z']))))))) := by
  simp [text, shownSecond, secondOfDay]

/-- The text of an instant is read as that instant. -/
theorem read?_text (h : t.InCalendar) : read? t.text = some t := by
  have hvalid := h.isValid_date
  obtain ⟨hmonth, hday⟩ := Civil.month_day_lt_of_isValid hvalid
  have hofDay := t.secondOfDay_lt
  have hle := h.shownSecond_le
  obtain ⟨hofMinute, hfraction⟩ := h.shownSecond_parts
  have hcolon : isBlank ':' = false := by decide
  have hnanos : t.nanos % nanosPerSecond < 1000000000 := Nat.mod_lt _ (by decide)
  have hoffset : takeOffset? (['Z'].dropWhile isBlank) = some (0, []) := by decide
  rw [read?, toList_text, takeDate?_text _ hmonth hday]
  simp only [bind, Option.bind]
  rw [takePart?_padded (show t.secondOfDay / 3600 < 100 by omega)]
  dsimp only
  rw [takeSeparator?_cons hcolon]
  dsimp only
  rw [takePart?_padded (show t.secondOfDay / 60 % 60 < 100 by omega)]
  dsimp only
  rw [takeSeparator?_cons hcolon]
  dsimp only
  rw [takePart?_padded (show t.shownSecond < 100 by omega)]
  dsimp only
  rw [takeFraction?_fractionText hnanos (by simp [StopsDigits]) (by simp)]
  dsimp only
  rw [hoffset]
  dsimp only
  rw [hofMinute, hfraction, second_eq_parts, if_neg, if_pos hvalid]
  have hhour : t.secondOfDay / 3600 ≤ 23 := by omega
  have hminute : t.secondOfDay / 60 % 60 ≤ 59 := by omega
  simp [hvalid, hle, hhour, hminute]

theorem decode?_encode (h : t.InCalendar) : decode? t.encode = some t := by
  rw [decode?, encode, Datum.text?, Option.bind_eq_bind, Option.bind_some, read?_text h]

end Instant

end ForgeSync.Calendar
