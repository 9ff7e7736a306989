import ForgeSync.Url.Percent

/-!
# What is encoded can be decoded

Decoding takes encoded bytes for what they stand for, and everything else for itself. So a text is
got back from its encoded form, unless a percent sign of it was left as it is. In particular no two
texts have one encoded form. In a form a plus sign stands for a space, and no value of a field holds a
sign that ends it.

Main statements: `percentDecoded_encodeChars`, `encodeChars_injective` and `formDecoded_formText`.
-/

namespace ForgeSync.Url

variable {reserved : List Char}

/-! ## Bytes -/

theorem hexValue?_digit : ∀ n < 16, hexValue? (Nat.digitChar n).toUpper = some n := by
  decide

theorem percentDecoded_percentByte (b : UInt8) (rest : List Char) :
    percentDecoded (percentByte b ++ rest) = b :: percentDecoded rest := by
  have hbound : b.toNat < 256 := b.toNat_lt
  simp only [percentByte, List.cons_append, List.nil_append, percentDecoded,
    hexValue?_digit (b.toNat / 16) (by omega), hexValue?_digit (b.toNat % 16) (by omega)]
  rw [Nat.div_add_mod, UInt8.ofNat_toNat]

theorem percentDecoded_flatMap_percentByte (bytes : List UInt8) (rest : List Char) :
    percentDecoded (bytes.flatMap percentByte ++ rest) = bytes ++ percentDecoded rest := by
  induction bytes with
  | nil => rfl
  | cons b bytes ih =>
    rw [List.flatMap_cons, List.append_assoc, percentDecoded_percentByte, ih, List.cons_append]

theorem percentDecoded_cons_of_ne {c : Char} (h : c ≠ '%') (rest : List Char) :
    percentDecoded (c :: rest) = String.utf8EncodeChar c ++ percentDecoded rest := by
  rw [percentDecoded]
  simp [h]

/-- The digits of an encoded byte are plain. -/
theorem mem_percentByte {b : UInt8} {c : Char} (h : c ∈ percentByte b) :
    c = '%' ∨ c.isDigit ∨ c.isUpper := by
  have hdigit : ∀ n < 16,
      (Nat.digitChar n).toUpper.isDigit ∨ (Nat.digitChar n).toUpper.isUpper := by
    decide
  have hbound : b.toNat < 256 := b.toNat_lt
  simp only [percentByte, List.mem_cons, List.not_mem_nil, or_false] at h
  obtain rfl | rfl | rfl := h
  · exact .inl rfl
  · exact .inr (hdigit _ (by omega))
  · exact .inr (hdigit _ (by omega))

/-! ## Texts -/

/-- No two texts have the same bytes. -/
theorem eq_of_flatMap_utf8EncodeChar {cs ds : List Char}
    (h : cs.flatMap String.utf8EncodeChar = ds.flatMap String.utf8EncodeChar) : cs = ds := by
  have hbytes : cs.utf8Encode = ds.utf8Encode := congrArg List.toByteArray h
  have hdecoded := List.utf8Decode?_utf8Encode (l := cs)
  rw [hbytes, List.utf8Decode?_utf8Encode] at hdecoded
  simpa using hdecoded.symm

theorem percentDecoded_encodeChars (h : '%' ∈ reserved) (cs : List Char) :
    percentDecoded (encodeChars reserved cs) = cs.flatMap String.utf8EncodeChar := by
  induction cs with
  | nil => rfl
  | cons c cs ih =>
    rw [encodeChars, List.flatMap_cons, List.flatMap_cons, ← encodeChars, ← ih, encodeChar]
    split
    · exact percentDecoded_flatMap_percentByte _ _
    next hplain =>
      refine percentDecoded_cons_of_ne ?_ _
      rintro rfl
      simp [h] at hplain

theorem encodeChars_injective (h : '%' ∈ reserved) : Function.Injective (encodeChars reserved) := by
  intro cs ds hsame
  apply eq_of_flatMap_utf8EncodeChar
  rw [← percentDecoded_encodeChars h, ← percentDecoded_encodeChars h, hsame]

/-- An encoded text holds no slash if slashes are reserved. -/
theorem slash_not_mem_encodeChars (h : '/' ∈ reserved) (cs : List Char) :
    '/' ∉ encodeChars reserved cs := by
  intro hmem
  obtain ⟨c, -, hc⟩ := List.mem_flatMap.1 hmem
  rw [encodeChar] at hc
  split at hc
  · obtain ⟨b, -, hb⟩ := List.mem_flatMap.1 hc
    exact absurd (mem_percentByte hb) (by decide)
  next hplain =>
    obtain rfl := List.mem_singleton.1 hc
    simp [h] at hplain

/-! ## Forms -/

/-- The bytes that a name or value of a form field stands for. -/
def formDecoded (cs : List Char) : List UInt8 :=
  percentDecoded (cs.map fun c => if c = '+' then ' ' else c)

theorem percentDecoded_formByte (b : UInt8) (rest : List Char) :
    percentDecoded ((formByte b).map (fun c => if c = '+' then ' ' else c) ++ rest) =
      b :: percentDecoded rest := by
  have hspace : ∀ n < 256, Char.ofNat n = ' ' → n = 32 := by decide +kernel
  -- what is left as it is stands for its own byte
  have hplain : ∀ n < 128, String.utf8EncodeChar (Char.ofNat n) = [UInt8.ofNat n] := by decide
  unfold formByte
  dsimp only
  split
  next h =>
    obtain rfl : b = 32 := UInt8.toNat_inj.1 (hspace _ b.toNat_lt h)
    rfl
  · split
    next hkept =>
      simp only [Bool.and_eq_true, decide_eq_true_eq] at hkept
      have hplus : Char.ofNat b.toNat ≠ '+' := by
        intro h
        exact absurd (h ▸ hkept.2) (by decide)
      have hpercent : Char.ofNat b.toNat ≠ '%' := by
        intro h
        exact absurd (h ▸ hkept.2) (by decide)
      rw [List.map_singleton, if_neg hplus, List.singleton_append,
        percentDecoded_cons_of_ne hpercent, hplain _ hkept.1, UInt8.ofNat_toNat, List.singleton_append]
    · have hdigits : (percentByte b).map (fun c => if c = '+' then ' ' else c) = percentByte b := by
        refine (List.map_congr_left fun c hc => if_neg ?_).trans (List.map_id _)
        rintro rfl
        exact absurd (mem_percentByte hc) (by decide)
      rw [hdigits, percentDecoded_percentByte]

/-- A text is got back from the value of a form field. -/
theorem formDecoded_formText (s : String) : formDecoded (formText s).toList = Text.utf8 s := by
  rw [formDecoded, formText, String.toList_ofList]
  induction Text.utf8 s with
  | nil => rfl
  | cons b bytes ih =>
    rw [List.flatMap_cons, List.map_append, percentDecoded_formByte, ih]

/-- The characters that the encoded form of a byte is made of. -/
theorem mem_formByte {b : UInt8} {c : Char} (h : c ∈ formByte b) :
    c ∈ ['+', '%', '*', '-', '.', '_'] ∨ c.isAlphanum := by
  unfold formByte at h
  dsimp only at h
  split at h
  · exact .inl (by simp [List.mem_singleton.1 h])
  · split at h
    next hkept =>
      rw [← List.mem_singleton.1 h] at hkept
      simp only [Bool.and_eq_true, Bool.or_eq_true, decide_eq_true_eq] at hkept
      rcases hkept.2 with (((halphanum | rfl) | rfl) | rfl) | rfl
      · exact .inr halphanum
      all_goals exact .inl (by decide)
    · rcases mem_percentByte h with rfl | hdigit | hupper
      · exact .inl (by decide)
      · exact .inr (by simp [Char.isAlphanum, hdigit])
      · have halpha : c.isAlpha = true := Bool.or_eq_true_iff.2 (.inl hupper)
        exact .inr (Bool.or_eq_true_iff.2 (.inl halpha))

/-- No value ends its field, nor the query. -/
theorem mem_formText {s : String} {c : Char} (h : c ∈ (formText s).toList) :
    c ≠ '&' ∧ c ≠ '#' := by
  rw [formText, String.toList_ofList] at h
  obtain ⟨b, -, hb⟩ := List.mem_flatMap.1 h
  constructor <;> rintro rfl <;> exact absurd (mem_formByte hb) (by decide)

end ForgeSync.Url
