import ForgeSync.Proofs.Forge.NewestToken
import ForgeSync.Proofs.Scripted.Calls

/-!
# Which access token is selected

The newest token that will do is granted as it is, and nothing is created then. A new token is asked
for exactly if no token of the listing will do.

Main statement: `ensureAccessToken_selects` says what a grant comes to on any forge that records its
calls.
-/

namespace ForgeSync

open Calendar (Instant)

namespace Forge

variable {σ : Type} {forge : Forge σ} {log : σ → List Call} {path name : String} {now : Instant}
  {hint : Option UInt64} {listed : List AccessTokenRecord} {s t : σ}

/-- A token that is selected is granted as it is, and the listing is all that is asked for. -/
theorem runFrom_ensureAccessToken_of_selected {token : AccessTokenRecord}
    (hlisted : (forge.listAccessTokens path).runFrom s = (.ok listed, t))
    (hselected : selectToken (usableTokens listed now) hint = some token) :
    (forge.ensureAccessToken now path name hint).runFrom s =
      (.ok ⟨token.uid, token.expiresAt, none⟩, t) := by
  rw [ensureAccessToken, Act.runFrom_bind_of_ok hlisted]
  dsimp only
  rw [hselected]
  rfl

/-- Where no token is selected, one more call is made, and its answer is granted if it comes with the
secret. -/
theorem runFrom_ensureAccessToken_of_none (name : String)
    (hlisted : (forge.listAccessTokens path).runFrom s = (.ok listed, t))
    (hselected : selectToken (usableTokens listed now) hint = none) :
    ((forge.ensureAccessToken now path name hint).runFrom s).2 =
        ((forge.createAccessToken path (newToken name now)).runFrom t).2 ∧
      ∀ grant, ((forge.ensureAccessToken now path name hint).runFrom s).1 = .ok grant ↔
        ∃ token secret,
          ((forge.createAccessToken path (newToken name now)).runFrom t).1 = .ok token ∧
          token.token = some secret ∧ grant = ⟨token.uid, token.expiresAt, some secret⟩ := by
  rw [ensureAccessToken, Act.runFrom_bind_of_ok hlisted]
  dsimp only
  rw [hselected]
  dsimp only
  rw [Act.runFrom_bind]
  rcases (forge.createAccessToken path (newToken name now)).runFrom t with ⟨failure | token, after⟩
  · simp
  · dsimp only
    cases hsecret : token.token <;> simp [hsecret, eq_comm]

/-- Of any tokens that a forge lists, a grant takes the newest one that will do, without its secret
and without another call. If none will do, it asks once for a new token that lasts for thirty days,
and then it is for this token with its secret or fails. -/
theorem ensureAccessToken_selects (now : Instant) (name : String) (hint : Option UInt64)
    (hlog : forge.Records log)
    (hlisted : (forge.listAccessTokens path).runFrom s = (.ok listed, t)) :
    let request : NewAccessToken :=
      { name, scopes := ["read_repository"], accessLevel := 20, expiresAt := now.addDays 30 }
    let run := (forge.ensureAccessToken now path name hint).runFrom s
    (∀ token, IsNewest (Suits now hint) listed token →
      run.1 = .ok ⟨token.uid, token.expiresAt, none⟩) ∧
    ((∃ token ∈ listed, Suits now hint token) →
      (∃ token, IsNewest (Suits now hint) listed token) ∧
        log run.2 = log s ++ [.listAccessTokens path]) ∧
    ((¬∃ token ∈ listed, Suits now hint token) →
      log run.2 = log s ++ [.listAccessTokens path, .createAccessToken path request] ∧
      ∀ grant, run.1 = .ok grant ↔
        ∃ token secret, ((forge.createAccessToken path request).runFrom t).1 = .ok token ∧
          token.token = some secret ∧ grant = ⟨token.uid, token.expiresAt, some secret⟩) := by
  intro request run
  have hlog' : log t = log s ++ [.listAccessTokens path] := by
    simpa [hlisted] using hlog.log_runFrom (.listAccessTokens path) rfl s
  refine ⟨fun token hnewest => ?_, fun ⟨token, hmem, hsuits⟩ => ?_, fun hnone => ?_⟩
  · have hselected := selectToken_eq_some_iff.2 hnewest
    simp only [run, runFrom_ensureAccessToken_of_selected hlisted hselected]
  · cases hselected : selectToken (usableTokens listed now) hint with
    | none => exact absurd hsuits (selectToken_eq_none_iff.1 hselected token hmem)
    | some selected =>
      refine ⟨⟨selected, selectToken_eq_some_iff.1 hselected⟩, ?_⟩
      simp only [run, runFrom_ensureAccessToken_of_selected hlisted hselected, hlog']
  · have hselected : selectToken (usableTokens listed now) hint = none :=
      selectToken_eq_none_iff.2 fun token hmem hsuits => hnone ⟨token, hmem, hsuits⟩
    obtain ⟨hafter, hgrant⟩ := runFrom_ensureAccessToken_of_none name hlisted hselected
    refine ⟨?_, hgrant⟩
    simp only [run, hafter, hlog.log_runFrom (.createAccessToken path _) rfl, hlog',
      List.append_assoc]
    rfl

/-- Tokens of which two end at the same time, and two others have one identifier; the last one ends
too soon. -/
def sampleTokens (now : Instant) : List AccessTokenRecord :=
  [(5, 40), (7, 60), (8, 60), (5, 50), (6, 10)].map fun (uid, days) =>
    { uid, name := "bot", active := true, revoked := false, expiresAt := now.addDays days }

/-- Of the two that end last the first one is taken, and of the two with one identifier the one that
ends later. The last one is replaced. -/
theorem ensureAccessToken_selects_sampleTokens :
    let now : Instant := ⟨1772366400, 0⟩
    let created : AccessTokenRecord :=
      { uid := 9, name := "bot", active := true, revoked := false, expiresAt := now.addDays 30,
        token := some "secret" }
    let s : Scripted.State :=
      { script.listAccessTokens := [.ok (sampleTokens now)]
        script.createAccessToken := [.ok created] }
    let run hint :=
      ((Scripted.forge "https://git.example").ensureAccessToken now "acme/r" "bot" hint).runFrom s
    (run none).1 = .ok ⟨7, now.addDays 60, none⟩ ∧
    (run (some 5)).1 = .ok ⟨5, now.addDays 50, none⟩ ∧
    (run (some 6)).1 = .ok ⟨9, now.addDays 30, some "secret"⟩ ∧
    (run (some 6)).2.calls = [.listAccessTokens "acme/r", .createAccessToken "acme/r"
      ⟨"bot", ["read_repository"], 20, now.addDays 30⟩] := by
  intro now created s run
  have hlisted : ((Scripted.forge "https://git.example").listAccessTokens "acme/r").runFrom s =
      (.ok (sampleTokens now), _) := rfl
  have hselects : ∀ hint, _ := fun hint =>
    ensureAccessToken_selects now "bot" hint (Scripted.records "https://git.example") hlisted
  obtain ⟨hcalls, hcreated⟩ := (hselects (some 6)).2.2 (by decide +kernel)
  refine ⟨(hselects none).1 _ ⟨?_, [_], [_, _, _], rfl, ?_, ?_⟩,
    (hselects (some 5)).1 _ ⟨?_, [_, _, _], [_], rfl, ?_, ?_⟩,
    (hcreated _).2 ⟨created, "secret", rfl, rfl, rfl⟩, hcalls⟩
  all_goals decide +kernel

end Forge

end ForgeSync
