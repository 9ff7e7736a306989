import ForgeSync.Calendar.Date

/-!
# Instants

A point in universal time: the second it lies in, and the nanoseconds since that second began. A
leap second is the continuation of the second before it, so its nanoseconds run from one thousand
million to two thousand million. Instants are ordered by second and then by nanosecond.
-/

namespace ForgeSync.Calendar

structure Instant where
  /-- Seconds since 1970-01-01T00:00:00. -/
  second : Int
  nanos : Nat
  deriving DecidableEq, Repr, Inhabited

namespace Instant

def secondsPerDay : Int := 86400

/-- Nanoseconds of a second; a leap second has as many again. -/
def nanosPerSecond : Nat := 1000000000

def lt (a b : Instant) : Prop :=
  a.second < b.second ∨ (a.second = b.second ∧ a.nanos < b.nanos)

instance : LT Instant := ⟨lt⟩

instance (a b : Instant) : Decidable (a < b) :=
  inferInstanceAs (Decidable (_ ∨ _))

instance : LE Instant := ⟨fun a b => ¬ b < a⟩

instance (a b : Instant) : Decidable (a ≤ b) :=
  inferInstanceAs (Decidable (¬ _))

theorem lt_def {a b : Instant} :
    a < b ↔ a.second < b.second ∨ (a.second = b.second ∧ a.nanos < b.nanos) := Iff.rfl

theorem lt_irrefl (a : Instant) : ¬ a < a := by
  simp [lt_def]

theorem lt_trans {a b c : Instant} (h : a < b) (k : b < c) : a < c := by
  simp only [lt_def] at *
  omega

theorem le_of_lt {a b : Instant} (h : a < b) : a ≤ b :=
  fun k => lt_irrefl a (lt_trans h k)

theorem le_total (a b : Instant) : a ≤ b ∨ b ≤ a := by
  simp only [LE.le, lt_def]
  omega

/-- Midnight at the start of a date. -/
def ofDate (c : Civil) : Instant :=
  ⟨c.toDays * secondsPerDay, 0⟩

/-- The date that an instant lies in. -/
def date (t : Instant) : Civil :=
  Civil.ofDays (t.second / secondsPerDay)

/-- An instant some days later, at least one. A leap second is left for the second before it,
since the later day need not have one. -/
def addDays (t : Instant) (days : Nat) : Instant :=
  ⟨t.second + days * secondsPerDay,
    if nanosPerSecond ≤ t.nanos then t.nanos - nanosPerSecond else t.nanos⟩

/-- The first instant of the calendar. -/
def first : Instant :=
  ofDate ⟨minYear, 1, 1⟩

/-- The last instant of the calendar; it stands for "never" where an expiry is wanted. -/
def last : Instant :=
  ⟨(ofDate ⟨maxYear, 12, 31⟩).second + 86399, 999999999⟩

end Instant

end ForgeSync.Calendar
