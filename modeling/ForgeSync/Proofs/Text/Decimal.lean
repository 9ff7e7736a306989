import ForgeSync.Text.Decimal

/-!
# Numerals are read back

A number that is written in decimal is read back, as long as it stays below the bound. One that is
written with leading zeros has as many digits as the width says, if they are enough.

Main statements: `readBelow_toString` and `natOfDigits?_padded`.
-/

namespace ForgeSync.Text

theorem digitValue?_of_isDigit {c : Char} (h : c.isDigit = true) :
    digitValue? c = some (c.toNat - '0'.toNat) := by
  simp only [Char.isDigit, Bool.and_eq_true, decide_eq_true_eq] at h
  have hrange : '0' ≤ c ∧ c ≤ '9' := ⟨h.1, h.2⟩
  rw [digitValue?, if_pos hrange]

theorem natOfDigits?_of_isDigit {cs : List Char} (h : ∀ c ∈ cs, c.isDigit = true) :
    natOfDigits? cs = some (Nat.ofDigitChars 10 cs 0) := by
  suffices hfrom : ∀ n, cs.foldlM (fun n c => (digitValue? c).map (10 * n + ·)) n =
      some (Nat.ofDigitChars 10 cs n) from hfrom 0
  induction cs with
  | nil => exact fun n => by simp
  | cons c rest ih =>
      intro n
      rw [List.foldlM_cons, digitValue?_of_isDigit (h c List.mem_cons_self)]
      rw [Nat.ofDigitChars_cons]
      exact ih (fun d hd => h d (List.mem_cons_of_mem c hd)) _

theorem takeWhile_isDigit {cs : List Char} (h : ∀ c ∈ cs, c.isDigit = true) :
    cs.takeWhile Char.isDigit = cs := by
  simpa using @List.takeWhile_append_of_pos _ Char.isDigit cs [] h

theorem dropWhile_isDigit {cs : List Char} (h : ∀ c ∈ cs, c.isDigit = true) :
    cs.dropWhile Char.isDigit = [] := by
  simpa using @List.dropWhile_append_of_pos _ Char.isDigit cs [] h

theorem isDigit_of_mem_toDigits {n : Nat} {c : Char} (h : c ∈ Nat.toDigits 10 n) :
    c.isDigit = true :=
  Nat.isDigit_of_mem_toDigits (by omega) (by omega) h

theorem natOfDigits?_toDigits (n : Nat) : natOfDigits? (Nat.toDigits 10 n) = some n := by
  rw [natOfDigits?_of_isDigit fun _ => isDigit_of_mem_toDigits, Nat.ofDigitChars_ten_toDigits]

/-- Only the numeral of zero begins with a zero. -/
theorem toDigits_eq_zero_cons {n : Nat} {rest : List Char}
    (h : Nat.toDigits 10 n = '0' :: rest) : n = 0 ∧ rest = [] := by
  induction n using Nat.strongRecOn generalizing rest with
  | ind n ih =>
      by_cases hsmall : n < 10
      · rw [Nat.toDigits_of_lt_base hsmall] at h
        obtain ⟨hdigit, hrest⟩ := List.cons.inj h
        have honly : ∀ m < 10, Nat.digitChar m = '0' → m = 0 := by decide
        exact ⟨honly n hsmall hdigit, hrest.symm⟩
      · -- the numeral of a tenth of the number begins alike, and that is not zero
        rw [Nat.toDigits_of_base_le (by omega) (by omega)] at h
        obtain ⟨d, front, hfront⟩ := List.exists_cons_of_ne_nil
          (Nat.toDigits_ne_nil (n := n / 10) (b := 10))
        rw [hfront, List.cons_append] at h
        rw [(List.cons.inj h).1] at hfront
        have hzero := (ih (n / 10) (by omega) hfront).1
        omega

theorem readBelow_toString {bound n : Nat} (h : n < bound) :
    readBelow bound (toString n).toList = some n := by
  have hlist : (toString n).toList = Nat.toDigits 10 n := Nat.toList_repr
  have hvalue := natOfDigits?_toDigits n
  rw [hlist]
  cases hcs : Nat.toDigits 10 n with
  | nil => exact (Nat.toDigits_ne_nil hcs).elim
  | cons c rest =>
      have hplus : c ≠ '+' := by
        intro heq
        subst heq
        have hdigit : '+'.isDigit = true := isDigit_of_mem_toDigits (n := n) (by simp [hcs])
        contradiction
      unfold readBelow
      rw [hcs] at hvalue
      split
      · rename_i tail heq
        exact (hplus (List.cons.inj heq).1).elim
      · dsimp only
        rw [hvalue]
        simp [Option.filter, h]

/-! ## Leading zeros -/

variable {width n : Nat}

theorem toList_padded (width n : Nat) :
    (padded width n).toList =
      List.replicate (width - (Nat.toDigits 10 n).length) '0' ++ Nat.toDigits 10 n := by
  have hlist : (toString n).toList = Nat.toDigits 10 n := Nat.toList_repr
  have hlength : (toString n).length = (Nat.toDigits 10 n).length := by
    rw [← String.length_toList, hlist]
  rw [padded, String.toList_append, String.toList_ofList, hlist, hlength]

theorem isDigit_of_mem_padded {c : Char} (h : c ∈ (padded width n).toList) : c.isDigit = true := by
  rw [toList_padded, List.mem_append] at h
  obtain hzero | hdigit := h
  · rw [List.eq_of_mem_replicate hzero]
    rfl
  · exact isDigit_of_mem_toDigits hdigit

theorem length_padded (hwidth : 0 < width) (h : n < Nat.pow 10 width) :
    (padded width n).toList.length = width := by
  have hle := (Nat.length_toDigits_le_iff (by omega) hwidth).2 h
  rw [toList_padded, List.length_append, List.length_replicate]
  omega

theorem padded_ne_nil (width n : Nat) : (padded width n).toList ≠ [] := by
  have hpos : 0 < (Nat.toDigits 10 n).length := Nat.length_toDigits_pos
  intro hnil
  rw [toList_padded, List.append_eq_nil_iff] at hnil
  rw [hnil.2] at hpos
  exact absurd hpos (Nat.lt_irrefl 0)

theorem exists_padded_eq_cons (width n : Nat) :
    ∃ d rest, (padded width n).toList = d :: rest ∧ d.isDigit = true := by
  obtain ⟨d, rest, hcons⟩ := List.exists_cons_of_ne_nil (padded_ne_nil width n)
  have hmem : d ∈ (padded width n).toList := by
    rw [hcons]
    exact List.mem_cons_self
  exact ⟨d, rest, hcons, isDigit_of_mem_padded hmem⟩

theorem ofDigitChars_zeros (count : Nat) :
    Nat.ofDigitChars 10 (List.replicate count '0') 0 = 0 := by
  induction count with
  | zero => rfl
  | succ count ih =>
      rw [List.replicate_succ, Nat.ofDigitChars_cons]
      exact ih

theorem natOfDigits?_padded (width n : Nat) : natOfDigits? (padded width n).toList = some n := by
  rw [natOfDigits?_of_isDigit fun _ => isDigit_of_mem_padded, toList_padded,
    Nat.ofDigitChars_append, ofDigitChars_zeros, Nat.ofDigitChars_ten_toDigits]

end ForgeSync.Text
