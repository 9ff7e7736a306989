import ForgeSync.Proofs.Memory.Contents

/-!
# Names of granted tokens

A grant is asked for under a name, but the name is only given to a new token. A token that is there
already is chosen by its identifier or by the time when it ends, whatever it is called.

Main statement: `granted_named_iff`.
-/

namespace ForgeSync

open Calendar (Instant)

namespace Forge.Memory

variable {now : Instant} {site : Site} {path : String} {project : Project} {s : State}

/-- Among some tokens, one under the identifier lasts and has the name. -/
def HasNamed (now : Instant) (name : String) (tokens : List AccessTokenRecord) (uid : UInt64) :
    Prop :=
  ∃ token ∈ tokens, token.uid = uid ∧ token.Lasts now ∧ token.name = name

theorem ends_listAccessTokens_of_found (h : s.projects[path]? = some project) :
    ((forge site).listAccessTokens path).Ends s
      (fun listed after => listed = project.tokens.map (fun t => { t with token := none }) ∧
        after.tokens path = some project.tokens)
      fun _ _ => True := by
  refine ends_answer (fun _ _ => trivial) (ends_onProject (s := s.record _) h ?_ nofun)
  intro listed after hbody
  obtain ⟨rfl, rfl⟩ := Prod.mk.inj (Except.ok.inj hbody)
  exact ⟨rfl, by simp [State.tokens]⟩

/-- Whatever the calls answer, a grant is for a token that lasts: the newest one that will do, if any
was there, and then all tokens stay. The token is one of the name that was asked for exactly if no
token that was there would do, so that a new one was created, or the newest one that will do is called
so already. -/
theorem granted_named_iff (h : s.projects[path]? = some project) (name : String)
    (hint : Option UInt64) :
    ((forge site).ensureAccessToken now path name hint).Ends s
      (fun grant after => ∃ tokens, after.tokens path = some tokens ∧
        (∃ token ∈ tokens, token.uid = grant.uid ∧ token.Lasts now) ∧
        (∀ found, IsNewest (Suits now hint) project.tokens found →
          grant.uid = found.uid ∧ tokens = project.tokens) ∧
        (HasNamed now name tokens grant.uid ↔
          ∀ found, IsNewest (Suits now hint) project.tokens found →
            HasNamed now name project.tokens found.uid))
      fun _ _ => True := by
  unfold Forge.ensureAccessToken
  apply (ends_listAccessTokens_of_found h).bind
  intro listed t hlisted
  obtain ⟨rfl, htokens⟩ := hlisted
  dsimp only
  rw [selectToken_listed]
  cases hchosen : chosen now project.tokens hint with
  | some granted =>
      obtain ⟨token, hnewest, rfl⟩ := chosen_eq_some_iff.1 hchosen
      refine ⟨project.tokens, htokens, ⟨token, hnewest.mem, rfl, hnewest.1.1⟩, ?_, ?_⟩
      · intro found hfound
        rw [hfound.unique hnewest]
        exact ⟨rfl, rfl⟩
      · refine ⟨fun hnamed found hfound => ?_, fun hnamed => hnamed token hnewest⟩
        rwa [hfound.unique hnewest]
  | none =>
      have hnone : ∀ found, ¬IsNewest (Suits now hint) project.tokens found :=
        fun found hfound => chosen_eq_none_iff.1 hchosen found hfound.mem hfound.1
      apply (ends_createAccessToken htokens _).bind
      intro token u hcreated
      obtain ⟨hafter, hactive, hrevoked, hexpires, hname⟩ := hcreated
      have hlasts : token.Lasts now := by
        refine ⟨hactive, hrevoked, ?_⟩
        rw [hexpires]
        exact now.addDays_lt_addDays (by decide)
      have hmem : token ∈ project.tokens ++ [token] :=
        List.mem_append_right _ List.mem_cons_self
      cases token.token with
      | none => trivial
      | some secret =>
          refine ⟨_, hafter, ⟨token, hmem, rfl, hlasts⟩,
            fun found hfound => absurd hfound (hnone found), ?_⟩
          exact iff_of_true ⟨token, hmem, rfl, hlasts, hname⟩
            fun found hfound => absurd hfound (hnone found)

/-- A repository whose only token ends within five days. -/
def endingToken (now : Instant) : Project where
  repository := { id := 1, fullPath := "acme/r" }
  tokens := [
    { uid := 5, name := "deploy", active := true, revoked := false, expiresAt := now.addDays 5 }]

/-- The token that is created in its place has the name. -/
theorem granted_named_iff_endingToken :
    let site : Site := ⟨"memory://git.example", 20⟩
    let now : Instant := ⟨1772366400, 0⟩
    ∃ grant after, ((forge site).ensureAccessToken now "acme/r" "bot" none).runFrom
        (State.put {} "acme/r" (endingToken now)) = (.ok grant, after) ∧ grant.uid = 1 ∧
      ∃ tokens, after.tokens "acme/r" = some tokens ∧ HasNamed now "bot" tokens grant.uid := by
  intro site now
  have hgrants : ((forge site).ensureAccessToken now "acme/r" "bot" none).Ends _ _ _ :=
    granted_named_iff (getElem?_put_self {} "acme/r" (endingToken now)) "bot" none
  have hgrant : (((forge site).ensureAccessToken now "acme/r" "bot" none).runFrom
      (State.put {} "acme/r" (endingToken now))).1 =
        .ok ⟨1, now.addDays 30, some "memtok-1"⟩ := by
    decide +kernel
  have hends : ∀ token ∈ (endingToken now).tokens, ¬Suits now none token := by
    decide +kernel
  obtain ⟨tokens, htokens, -, -, hnamed⟩ := hgrants.of_ok (Prod.ext hgrant rfl)
  refine ⟨_, _, Prod.ext hgrant rfl, rfl, tokens, htokens, hnamed.2 fun found hfound => ?_⟩
  exact absurd hfound.1 (hends found hfound.mem)

/-- A grant does not keep to the name that it is asked for under. -/
theorem foreign_token_granted :
    ¬ ∀ (site : Site) (s : State) (project : Project) (path name : String) (hint : Option UInt64)
        (now : Instant),
      s.projects[path]? = some project →
      ((forge site).ensureAccessToken now path name hint).Ends s
        (fun grant after => ∃ tokens, after.tokens path = some tokens ∧
          HasNamed now name tokens grant.uid)
        fun _ _ => True := by
  intro h
  let site : Site := ⟨"memory://git.example", 20⟩
  let now : Instant := ⟨1772366400, 0⟩
  let project : Project := {
    repository := { id := 1, fullPath := "acme/r" }
    tokens := [
      { uid := 5, name := "deploy", active := true, revoked := false,
        expiresAt := now.addDays 90 }] }
  have hend := h site (State.put {} "acme/r" project) project "acme/r" "bot" none now
    (getElem?_put_self _ _ _)
  have hgrant : (((forge site).ensureAccessToken now "acme/r" "bot" none).runFrom
      (State.put {} "acme/r" project)).1 = .ok ⟨5, now.addDays 90, none⟩ := by
    decide +kernel
  have hafter : (((forge site).ensureAccessToken now "acme/r" "bot" none).runFrom
      (State.put {} "acme/r" project)).2.tokens "acme/r" = some project.tokens := by
    decide +kernel
  obtain ⟨tokens, htokens, token, hmem, -, -, hname⟩ := hend.of_ok (Prod.ext hgrant rfl)
  obtain rfl := Option.some.inj (hafter.symm.trans htokens)
  obtain rfl := List.mem_singleton.1 hmem
  exact absurd hname (by decide)

end Forge.Memory

end ForgeSync
