import ForgeSync.Convergence.AccessToken

/-!
# The newest token that will do

Of the tokens that will do the one that ends last is taken, and of those that end at the same time
the one that is listed first. With a hint only tokens of that identifier will do.

Main statements: `isNewest_of_find?` says what the order of usable tokens is for, and
`selectToken_eq_some_iff` which token is taken.
-/

namespace ForgeSync

open Calendar (Instant)

theorem Calendar.Instant.le_trans {a b c : Instant} (h : a ≤ b) (k : b ≤ c) : a ≤ c := by
  simp only [LE.le, lt_def] at *
  omega

/-! ## Tokens that last -/

/-- The token is active, was not revoked, and ends more than ten days from now. -/
structure AccessTokenRecord.Lasts (now : Instant) (token : AccessTokenRecord) : Prop where
  active : token.active = true
  revoked : token.revoked = false
  expiresAt : now.addDays 10 < token.expiresAt

theorem isUsable_iff_lasts {now : Instant} {token : AccessTokenRecord} :
    isUsable now token = true ↔ token.Lasts now := by
  rw [isUsable, Bool.and_eq_true, Bool.and_eq_true, Bool.not_eq_true', decide_eq_true_eq, and_assoc]
  exact ⟨fun h => ⟨h.1, h.2.1, h.2.2⟩, fun h => ⟨h.active, h.revoked, h.expiresAt⟩⟩

/-! ## The newest of some tokens -/

/-- A token has a property, and of the tokens of a list that have it none ends later; those that end
at the same time come behind it. -/
def IsNewest (p : AccessTokenRecord → Prop) (tokens : List AccessTokenRecord)
    (token : AccessTokenRecord) : Prop :=
  p token ∧ ∃ before after, tokens = before ++ token :: after ∧
    (∀ other ∈ before, p other → other.expiresAt < token.expiresAt) ∧
    ∀ other ∈ after, p other → other.expiresAt ≤ token.expiresAt

section Newest

variable {p : AccessTokenRecord → Prop} {tokens : List AccessTokenRecord}
  {first token other : AccessTokenRecord}

theorem IsNewest.mem (h : IsNewest p tokens token) : token ∈ tokens := by
  obtain ⟨-, before, after, rfl, -⟩ := h
  simp

theorem IsNewest.congr {q : AccessTokenRecord → Prop} (hpq : ∀ t, p t ↔ q t) :
    IsNewest p tokens token ↔ IsNewest q tokens token := by
  rw [show p = q from funext fun t => propext (hpq t)]

theorem isNewest_cons_self (hfirst : p first)
    (hrest : ∀ other ∈ tokens, p other → other.expiresAt ≤ first.expiresAt) :
    IsNewest p (first :: tokens) first :=
  ⟨hfirst, [], tokens, rfl, by simp, hrest⟩

theorem IsNewest.cons (h : IsNewest p tokens token)
    (hfirst : p first → first.expiresAt < token.expiresAt) :
    IsNewest p (first :: tokens) token := by
  obtain ⟨htoken, before, after, rfl, hbefore, hafter⟩ := h
  refine ⟨htoken, first :: before, after, rfl, ?_, hafter⟩
  simpa using ⟨hfirst, hbefore⟩

theorem IsNewest.le (h : IsNewest p tokens token) (hmem : other ∈ tokens) (hother : p other) :
    other.expiresAt ≤ token.expiresAt := by
  obtain ⟨-, before, after, rfl, hbefore, hafter⟩ := h
  rcases List.mem_append.1 hmem with hmem | hmem
  · exact Instant.le_of_lt (hbefore other hmem hother)
  · rcases List.mem_cons.1 hmem with rfl | hmem
    · exact Instant.lt_irrefl _
    · exact hafter other hmem hother

/-- There is only one newest token. -/
theorem IsNewest.unique (h : IsNewest p tokens token) (h' : IsNewest p tokens other) :
    token = other := by
  have hle := h'.le h.mem h.1
  have hle' := h.le h'.mem h'.1
  obtain ⟨htoken, before, after, rfl, hbefore, -⟩ := h
  obtain ⟨hother, before', after', hsame, hbefore', -⟩ := h'
  -- a token in front of the other one would end before it
  have hfront : ∀ t ∈ before', p t → t ≠ token :=
    fun t hmem ht heq => hle' (heq ▸ hbefore' t hmem ht)
  have hfront' : ∀ t ∈ before, p t → t ≠ other :=
    fun t hmem ht heq => hle (heq ▸ hbefore t hmem ht)
  rcases List.append_eq_append_iff.1 hsame with ⟨more, rfl, hcons⟩ | ⟨more, rfl, hcons⟩
  · cases more with
    | nil => exact (List.cons.inj hcons).1
    | cons t more =>
      obtain ⟨rfl, -⟩ := List.cons.inj hcons
      exact absurd rfl (hfront token (by simp) htoken)
  · cases more with
    | nil => exact (List.cons.inj hcons).1.symm
    | cons t more =>
      obtain ⟨rfl, -⟩ := List.cons.inj hcons
      exact absurd rfl (hfront' other (by simp) hother)

/-- The newest of tokens that were rewritten is the newest one rewritten, if all end when they
did. -/
theorem isNewest_map_iff {f : AccessTokenRecord → AccessTokenRecord}
    (hends : ∀ t, (f t).expiresAt = t.expiresAt) :
    IsNewest p (tokens.map f) other ↔
      ∃ token, IsNewest (fun t => p (f t)) tokens token ∧ f token = other := by
  constructor
  · rintro ⟨hother, before, after, hsplit, hbefore, hafter⟩
    obtain ⟨early, late, rfl, rfl, hcons⟩ := List.map_eq_append_iff.1 hsplit
    obtain ⟨token, rest, rfl, rfl, rfl⟩ := List.map_eq_cons_iff.1 hcons
    simp only [List.forall_mem_map, hends] at hbefore hafter
    exact ⟨token, ⟨hother, early, rest, rfl, hbefore, hafter⟩, rfl⟩
  · rintro ⟨token, ⟨htoken, before, after, rfl, hbefore, hafter⟩, rfl⟩
    refine ⟨htoken, before.map f, after.map f, by simp, ?_, ?_⟩
    · simpa only [List.forall_mem_map, hends] using hbefore
    · simpa only [List.forall_mem_map, hends] using hafter

end Newest

/-! ## The order of usable tokens -/

/-- The order in which usable tokens are listed. -/
def endsNoEarlier (a b : AccessTokenRecord) : Bool :=
  b.expiresAt ≤ a.expiresAt

theorem endsNoEarlier_trans (a b c : AccessTokenRecord) (h : endsNoEarlier a b = true)
    (k : endsNoEarlier b c = true) : endsNoEarlier a c = true := by
  simp only [endsNoEarlier, decide_eq_true_eq] at *
  exact Instant.le_trans k h

theorem endsNoEarlier_total (a b : AccessTokenRecord) :
    (endsNoEarlier a b || endsNoEarlier b a) = true := by
  simpa [endsNoEarlier] using Instant.le_total b.expiresAt a.expiresAt

section Order

variable {p q : AccessTokenRecord → Bool} {tokens : List AccessTokenRecord}
  {token : AccessTokenRecord}

/-- Sorting leaves tokens that end at the same time in their order. So the first one with a property
among the sorted tokens is the newest one with it. -/
theorem isNewest_of_find? (h : ((tokens.filter p).mergeSort endsNoEarlier).find? q = some token) :
    IsNewest (fun t => p t = true ∧ q t = true) tokens token := by
  induction tokens with
  | nil => simp at h
  | cons first rest ih =>
    cases hp : p first with
    | false =>
      rw [List.filter_cons_of_neg (by simp [hp])] at h
      exact (ih h).cons (by simp [hp])
    | true =>
      rw [List.filter_cons_of_pos hp] at h
      have hsorted := List.pairwise_mergeSort endsNoEarlier_trans endsNoEarlier_total
        (first :: rest.filter p)
      -- the first token is put behind those that end later, and before all others
      obtain ⟨later, others, hcons, hrest, hlater⟩ :=
        List.mergeSort_cons endsNoEarlier_trans endsNoEarlier_total first (rest.filter p)
      rw [hcons] at h hsorted
      rw [hrest, List.find?_append] at ih
      rw [List.find?_append] at h
      cases hfound : later.find? q with
      | some found =>
        obtain rfl : found = token := by simpa [hfound] using h
        have hlt := hlater found (List.mem_of_find?_eq_some hfound)
        exact (ih (by simp [hfound])).cons fun _ => by simpa [endsNoEarlier, LE.le] using hlt
      | none =>
        rw [hfound, Option.none_or] at h ih
        cases hq : q first with
        | false =>
          rw [List.find?_cons_of_neg (by simp [hq])] at h
          exact (ih h).cons (by simp [hq])
        | true =>
          obtain rfl : first = token := by simpa [List.find?_cons_of_pos hq] using h
          refine isNewest_cons_self ⟨hp, hq⟩ fun other hmem ⟨hpother, hqother⟩ => ?_
          have hother : other ∈ later ++ others := by
            rw [← hrest, List.mem_mergeSort, List.mem_filter]
            exact ⟨hmem, hpother⟩
          have hothers : other ∈ others := by
            refine (List.mem_append.1 hother).resolve_left fun hmem => ?_
            exact List.find?_eq_none.1 hfound other hmem hqother
          have hafter := (List.pairwise_cons.1 (List.pairwise_append.1 hsorted).2.1).1 other hothers
          simpa [endsNoEarlier] using hafter

theorem find?_mergeSort_eq_none_iff :
    ((tokens.filter p).mergeSort endsNoEarlier).find? q = none ↔
      ∀ token ∈ tokens, ¬(p token = true ∧ q token = true) := by
  rw [List.find?_eq_none]
  simp only [List.mem_mergeSort, List.mem_filter, not_and]
  exact forall_congr' fun _ => and_imp

end Order

/-! ## Selection -/

/-- A token will do at a time: it lasts, and it is the one that is asked for, if one is. -/
def Suits (now : Instant) (hint : Option UInt64) (token : AccessTokenRecord) : Prop :=
  token.Lasts now ∧ ∀ uid, hint = some uid → token.uid = uid

section Selection

variable {now : Instant} {hint : Option UInt64} {tokens : List AccessTokenRecord}
  {token : AccessTokenRecord}

/-- With a hint the first usable token of that identifier is taken, without one the first of all. -/
theorem selectToken_eq_find? (usable : List AccessTokenRecord) (hint : Option UInt64) :
    selectToken usable hint = usable.find? fun t => hint.all (t.uid = ·) := by
  cases hint with
  | none => cases usable <;> rfl
  | some uid => rfl

theorem suits_iff :
    Suits now hint token ↔ isUsable now token = true ∧ hint.all (token.uid = ·) = true := by
  rw [Suits, isUsable_iff_lasts]
  cases hint <;> simp

instance : Decidable (Suits now hint token) :=
  decidable_of_iff' _ suits_iff

theorem isNewest_of_selectToken (h : selectToken (usableTokens tokens now) hint = some token) :
    IsNewest (Suits now hint) tokens token := by
  rw [selectToken_eq_find?] at h
  exact (IsNewest.congr fun _ => suits_iff).2 (isNewest_of_find? h)

theorem selectToken_eq_none_iff :
    selectToken (usableTokens tokens now) hint = none ↔
      ∀ token ∈ tokens, ¬Suits now hint token := by
  rw [selectToken_eq_find?]
  simp only [suits_iff]
  exact find?_mergeSort_eq_none_iff

theorem selectToken_eq_some_iff :
    selectToken (usableTokens tokens now) hint = some token ↔
      IsNewest (Suits now hint) tokens token := by
  refine ⟨isNewest_of_selectToken, fun h => ?_⟩
  cases hselected : selectToken (usableTokens tokens now) hint with
  | none => exact absurd h.1 (selectToken_eq_none_iff.1 hselected token h.mem)
  | some selected => rw [(isNewest_of_selectToken hselected).unique h]

end Selection

end ForgeSync
