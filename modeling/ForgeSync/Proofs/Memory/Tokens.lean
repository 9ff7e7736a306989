import ForgeSync.Proofs.Forge.NewestToken
import ForgeSync.Proofs.Memory.Hosting

/-!
# Granting access tokens

A grant names a token that is found again under its identifier at the same time, and a repository
gets a new token only if none will do.

Main statements: `chosen_eq_some_iff` and `endsOn_ensureAccessToken`.
-/

namespace ForgeSync

open Calendar (Instant)

theorem Calendar.Instant.addDays_lt_addDays (t : Instant) {days more : Nat} (h : days < more) :
    t.addDays days < t.addDays more := by
  left
  simp only [addDays, secondsPerDay]
  omega

namespace Forge.Memory

variable {site : Site} {path : String} {project : Project} {s : State} {now : Instant}

/-- The token that would do among those of a repository. -/
def chosen (now : Instant) (tokens : List AccessTokenRecord) (hint : Option UInt64) :
    Option AccessTokenRecord :=
  selectToken (usableTokens (tokens.map fun t => { t with token := none }) now) hint

/-- Whether a token will do does not depend on its secret. -/
theorem suits_withoutSecret {hint : Option UInt64} {token : AccessTokenRecord} :
    Suits now hint { token with token := none } ↔ Suits now hint token :=
  ⟨fun h => ⟨⟨h.1.active, h.1.revoked, h.1.expiresAt⟩, h.2⟩,
    fun h => ⟨⟨h.1.active, h.1.revoked, h.1.expiresAt⟩, h.2⟩⟩

/-- The token is chosen among the listed ones, which come without their secrets. -/
theorem selectToken_listed (now : Instant) (tokens : List AccessTokenRecord)
    (hint : Option UInt64) :
    selectToken (usableTokens (tokens.map fun t => { t with token := none }) now) hint =
      chosen now tokens hint :=
  rfl

/-- It is the newest one that will do, without its secret. -/
theorem chosen_eq_some_iff {tokens : List AccessTokenRecord} {hint : Option UInt64}
    {found : AccessTokenRecord} :
    chosen now tokens hint = some found ↔
      ∃ token, IsNewest (Suits now hint) tokens token ∧ { token with token := none } = found := by
  rw [chosen, selectToken_eq_some_iff,
    isNewest_map_iff (f := fun t => { t with token := none }) fun _ => rfl]
  simp only [suits_withoutSecret]

theorem chosen_eq_none_iff {tokens : List AccessTokenRecord} {hint : Option UInt64} :
    chosen now tokens hint = none ↔ ∀ token ∈ tokens, ¬Suits now hint token := by
  rw [chosen, selectToken_eq_none_iff, List.forall_mem_map]
  simp only [suits_withoutSecret]

/-- A chosen token is one of the repository that will do, without its secret. -/
theorem suits_of_chosen {tokens : List AccessTokenRecord} {hint : Option UInt64}
    {found : AccessTokenRecord} (h : chosen now tokens hint = some found) :
    ∃ token ∈ tokens, Suits now hint token ∧ token.uid = found.uid := by
  obtain ⟨token, hnewest, rfl⟩ := chosen_eq_some_iff.1 h
  exact ⟨token, hnewest.mem, hnewest.1, rfl⟩

/-- By its identifier a token that lasts is found, or another one that has it as well. -/
theorem chosen_of_mem {tokens : List AccessTokenRecord} {token : AccessTokenRecord}
    (h : token ∈ tokens) (hlasts : token.Lasts now) :
    ∃ found, chosen now tokens (some token.uid) = some found ∧ found.uid = token.uid := by
  have hsuits : Suits now (some token.uid) token := ⟨hlasts, by simp⟩
  cases hchosen : chosen now tokens (some token.uid) with
  | none => exact absurd hsuits (chosen_eq_none_iff.1 hchosen token h)
  | some found =>
      obtain ⟨other, -, hother, huid⟩ := suits_of_chosen hchosen
      exact ⟨found, rfl, huid ▸ hother.2 _ rfl⟩

theorem chosen_again {tokens : List AccessTokenRecord} {hint : Option UInt64}
    {found : AccessTokenRecord} (h : chosen now tokens hint = some found) :
    ∃ again, chosen now tokens (some found.uid) = some again ∧ again.uid = found.uid := by
  obtain ⟨token, hmem, hsuits, huid⟩ := suits_of_chosen h
  rw [← huid]
  exact chosen_of_mem hmem hsuits.1

/-- What a grant does: the repository has a token that is found again, and got it if none would
do before. -/
structure Granted (now : Instant) (hint : Option UInt64) (project : Project) (uid : UInt64)
    (after : Project) : Prop where
  tokens : ∃ tokens, after = { project with tokens } ∧
    tokens.length = project.tokens.length + if (chosen now project.tokens hint).isSome then 0 else 1
  found : ∃ token, chosen now after.tokens (some uid) = some token ∧ token.uid = uid
  same : ∀ token, chosen now project.tokens hint = some token → uid = token.uid ∧ after = project

theorem endsOn_ensureAccessToken (h : Hosts path project s)
    (hroom : s.lastId.toNat + 1 < 2 ^ 64) (name : String) (hint : Option UInt64) :
    EndsOn path 1 ((forge site).ensureAccessToken now path name hint) s
      (fun grant after t => Granted now hint project grant.uid after ∧
        ((chosen now project.tokens hint).isSome → t.mutations = s.mutations))
      fun after => after = project := by
  unfold Forge.ensureAccessToken
  apply (endsOn_look h _).bind (m := 0) (n := 1)
  intro listed project t ht hspends hend
  obtain ⟨rfl, rfl, hread⟩ := hend
  dsimp only
  rw [selectToken_listed]
  cases hchosen : chosen now project.tokens hint with
  | some token =>
      refine endsVia_pure ht
        ⟨⟨⟨project.tokens, rfl, by simp [hchosen]⟩, chosen_again hchosen, ?_⟩, ?_⟩
      · intro other hother
        obtain rfl := Option.some.inj (hchosen.symm.trans hother)
        exact ⟨rfl, rfl⟩
      · exact fun _ => hread.trans (by simp [Call.isMutating])
  | none =>
      have hlast : t.lastId.toNat + 1 < 2 ^ 64 := by
        have := hspends.le_lastId
        omega
      refine (endsOn_call_takeId (f := fun uid p =>
        let token : AccessTokenRecord :=
          { uid, name, active := true, revoked := false, expiresAt := now.addDays tokenLifetimeDays
            scopes := tokenScopes, token := some (secretOf uid) }
        (token, { p with tokens := p.tokens ++ [token] })) ht hlast
        (List.sublist_append_left _ _)).bind (m := 1) (n := 0) ?_
      intro token after u hu _ hend
      obtain ⟨rfl, rfl, -⟩ := hend
      refine endsVia_pure hu ⟨⟨⟨_, rfl, by simp [hchosen]⟩, ?_, by simp [hchosen]⟩, by simp⟩
      apply chosen_of_mem (List.mem_append_right _ List.mem_cons_self)
      exact ⟨rfl, rfl, now.addDays_lt_addDays (by decide)⟩

end Forge.Memory

end ForgeSync
