import ForgeSync.Proofs.Forge.Interference
import ForgeSync.Proofs.Memory.Contents
import ForgeSync.Proofs.Memory.Tokens
import ForgeSync.Store.Secrets

/-!
# Tokens from the mint to the vault

The secret of a token is shown once, so it matters which token the vault keeps. A token that could
not be chosen under a hint never can be later, since tokens only cease to be usable as time goes by,
and new ones get identifiers of their own. That the vault has the secret of whatever can be chosen
is therefore kept by all that happens to a forge, and every grant makes it true of what it grants.
It takes a clock without leap seconds: ten days from a leap second is earlier than ten days from the
end of the second before.

Main statements: `ends_ensureAccessToken_preceded`, `Grants.issued` and `Grants.agrees`.
-/

namespace ForgeSync

open Calendar (Instant)

/-! ## Time goes by -/

namespace Calendar.Instant

variable {a b : Instant}

/-- The instant lies in a leap second. -/
def IsLeap (t : Instant) : Prop :=
  nanosPerSecond ≤ t.nanos

instance (t : Instant) : Decidable t.IsLeap :=
  inferInstanceAs (Decidable (_ ≤ _))

theorem le_def : a ≤ b ↔ ¬ b < a :=
  Iff.rfl

theorem lt_of_le_of_lt {c : Instant} (h : a ≤ b) (h' : b < c) : a < c := by
  simp only [le_def, lt_def] at *
  omega

theorem addDays_le_addDays (h : a ≤ b) (hleap : ¬ b.IsLeap) (days : Nat) :
    a.addDays days ≤ b.addDays days := by
  have hkept : (b.addDays days).nanos = b.nanos := if_neg hleap
  have hback : (a.addDays days).nanos ≤ a.nanos := by
    simp only [addDays]
    split <;> omega
  have hsecond : ∀ t : Instant, (t.addDays days).second = t.second + days * secondsPerDay :=
    fun _ => rfl
  rw [le_def, lt_def] at h ⊢
  rw [hkept, hsecond, hsecond]
  omega

end Calendar.Instant

theorem AccessTokenRecord.Lasts.of_le {now later : Instant} {token : AccessTokenRecord}
    (h : token.Lasts later) (hle : now ≤ later) (hleap : ¬ later.IsLeap) : token.Lasts now :=
  ⟨h.active, h.revoked,
    Instant.lt_of_le_of_lt (Instant.addDays_le_addDays hle hleap _) h.expiresAt⟩

/-! ## Tokens that will do -/

/-- A token later on: it is the same, and if it lasts it did so before. -/
structure Remains (before after : AccessTokenRecord) : Prop where
  uid : after.uid = before.uid
  token : after.token = before.token
  lasts : ∀ now, after.Lasts now → before.Lasts now

theorem Remains.refl (token : AccessTokenRecord) : Remains token token :=
  ⟨rfl, rfl, fun _ => id⟩

theorem Remains.trans {a b c : AccessTokenRecord} (h : Remains a b) (h' : Remains b c) :
    Remains a c :=
  ⟨h'.uid.trans h.uid, h'.token.trans h.token,
    fun now hlasts => h.lasts now (h'.lasts now hlasts)⟩

theorem Suits.of_remains {now : Instant} {hint : Option UInt64} {a b : AccessTokenRecord}
    (h : Suits now hint b) (hremains : Remains a b) : Suits now hint a :=
  ⟨hremains.lasts now h.1, fun uid huid => hremains.uid ▸ h.2 uid huid⟩

theorem Suits.of_le {now later : Instant} {hint : Option UInt64} {token : AccessTokenRecord}
    (h : Suits later hint token) (hle : now ≤ later) (hleap : ¬ later.IsLeap) :
    Suits now hint token :=
  ⟨h.1.of_le hle hleap, h.2⟩

namespace Forge.Memory

variable {now : Instant} {hint : Option UInt64} {token : AccessTokenRecord}

/-! ## The tokens of a forge -/

/-- The tokens of the repository at a path, if there is one. -/
def State.tokensAt (s : State) (path : String) : List AccessTokenRecord :=
  (s.tokens path).getD []

variable {α : Type} {site : Site} {path : String} {project : Project} {s t u : State}

theorem tokensAt_of_some (h : s.projects[path]? = some project) :
    s.tokensAt path = project.tokens := by
  rw [State.tokensAt, State.tokens, h]
  rfl

theorem tokensAt_put_self (s : State) (path : String) (project : Project) :
    (s.put path project).tokensAt path = project.tokens :=
  tokensAt_of_some (getElem?_put_self s path project)

theorem mem_tokensAt_put {other : String} (h : token ∈ (s.put path project).tokensAt other) :
    other = path ∧ token ∈ project.tokens ∨ token ∈ s.tokensAt other := by
  by_cases heq : other = path
  · rw [heq, tokensAt_put_self] at h
    exact .inl ⟨heq, h⟩
  · have hother : (s.put path project).projects[other]? = s.projects[other]? := by
      rw [projects_put, Std.ExtTreeMap.getElem?_insert, if_neg]
      simpa using Ne.symm heq
    rw [State.tokensAt, State.tokens, hother] at h
    exact .inr h

/-! ## Changes without a new token -/

/-- No token is new, and a call takes at most one identifier. -/
structure Quiet (s t : State) : Prop where
  tokens : ∀ path, ∀ token ∈ t.tokensAt path, ∃ before ∈ s.tokensAt path, Remains before token
  ids : ∃ taken : Nat, t.lastId = s.lastId + UInt64.ofNat taken ∧
    s.calls.length + taken ≤ t.calls.length

theorem Quiet.of_tokens (h : ∀ path, ∀ token ∈ t.tokensAt path, token ∈ s.tokensAt path)
    (taken : Nat) (hlast : t.lastId = s.lastId + UInt64.ofNat taken)
    (hcalls : s.calls.length + taken ≤ t.calls.length) : Quiet s t :=
  ⟨fun path token hmem => ⟨token, h path token hmem, .refl token⟩, taken, hlast, hcalls⟩

theorem quiet_chains : Act.Chains Quiet where
  refl s := .of_tokens (fun _ _ => id) 0 (by simp) (Nat.le_refl _)
  trans {a b c} h h' := by
    obtain ⟨m, hm, hcm⟩ := h.ids
    obtain ⟨n, hn, hcn⟩ := h'.ids
    refine ⟨fun path token hmem => ?_, m + n, ?_, by omega⟩
    · obtain ⟨mid, hmid, hlater⟩ := h'.tokens path token hmem
      obtain ⟨first, hfirst, hearlier⟩ := h.tokens path mid hmid
      exact ⟨first, hfirst, hearlier.trans hlater⟩
    · rw [hn, hm, UInt64.ofNat_add, UInt64.add_assoc]

theorem quiet_record (s : State) (call : Call) : Quiet s (s.record call) :=
  .of_tokens (fun _ _ => id) 0 (by simp) (by simp [State.record])

/-- A call that takes an identifier, before it looks for the repository. -/
theorem quiet_takeId (s : State) (call : Call) : Quiet s (s.record call).takeId :=
  .of_tokens (fun _ _ => id) 1 rfl (by simp [State.takeId, State.record])

theorem quiet_checkPosition (s : State) (call : Call) (path : String) (position : Nat) :
    Quiet s ((s.record call).checkPosition path position) :=
  ⟨(quiet_record s call).tokens, (quiet_record s call).ids⟩

theorem Quiet.onProject {body : Project → Except Failure (α × Project)} (h : Quiet s t)
    (hbody : ∀ project a after, body project = .ok (a, after) → after.tokens = project.tokens) :
    Quiet s (onProject path body t).2 := by
  unfold Memory.onProject
  split
  · exact h
  · rename_i project hproject
    split
    · exact h
    · rename_i a after hafter
      refine quiet_chains.trans h
        (.of_tokens (fun other token hmem => ?_) 0 (by simp) (by simp [State.put]))
      obtain ⟨rfl, hput⟩ | hkept := mem_tokensAt_put hmem
      · rwa [hbody project a after hafter, ← tokensAt_of_some hproject] at hput
      · exact hkept

theorem respects_quiet (site : Site) :
    (forge site).Respects (fun call => ∀ path request, call ≠ .createAccessToken path request)
      Quiet := by
  intro call hcall
  cases call <;>
    refine Act.moves_map.2 (moves_answer_of (fun s => quiet_record s _) fun s => ?_)
  case getProject => exact quiet_record s _
  case createProject space name description =>
      unfold createProject
      dsimp only
      split
      · exact quiet_record s _
      · refine quiet_chains.trans (quiet_takeId s (.createProject space name description))
          (.of_tokens (fun other token hmem => ?_) 0 (by simp) (by simp [State.put]))
        obtain ⟨-, hput⟩ | hkept := mem_tokensAt_put hmem
        · cases hput
        · exact hkept
  case deleteProject path =>
      unfold deleteProject
      split
      · refine quiet_chains.trans (quiet_record s (.deleteProject path))
          (.of_tokens (fun other token hmem => ?_) 0 (by simp) (by simp))
        unfold State.tokensAt State.tokens at hmem ⊢
        rw [Std.ExtTreeMap.getElem?_erase] at hmem
        split at hmem
        · cases hmem
        · exact hmem
      · exact quiet_record s _
  case createAccessToken path request => exact (hcall path request rfl).elim
  case addDeployKey path title key =>
      refine Quiet.onProject (quiet_takeId s (.addDeployKey path title key)) ?_
      intro project a after hafter
      cases hafter
      rfl
  case listTreePage path page =>
      refine Quiet.onProject (quiet_checkPosition s _ _ _) fun project a after hafter => ?_
      cases hpage : treePage site.pageSize page project <;> rw [hpage] at hafter <;> cases hafter
      rfl
  case deleteDeployKey path id =>
      refine Quiet.onProject (quiet_record s _) fun project a after hafter => ?_
      dsimp only at hafter
      split at hafter <;> cases hafter
      rfl
  all_goals
    refine Quiet.onProject (quiet_record s _) fun project a after hafter => ?_
    first
      | cases hafter
        rfl
      | split at hafter <;> cases hafter
        rfl

/-! ## What others take away -/

/-- What others do to the tokens of a forge. -/
inductive Loss where
  /-- A token is revoked. -/
  | revoke (path : String) (uid : UInt64)
  /-- A repository is removed, with its tokens. -/
  | remove (path : String)

/-- The token, if it has the identifier, as it is once revoked. -/
def revoked (uid : UInt64) (token : AccessTokenRecord) : AccessTokenRecord :=
  if token.uid = uid then { token with active := false, revoked := true } else token

/-- The state after a loss. -/
def State.lose (s : State) : Loss → State
  | .revoke path uid =>
    s.modifyProject path fun p => { p with tokens := p.tokens.map (revoked uid) }
  | .remove path => { s with projects := s.projects.erase path }

theorem remains_revoked (uid : UInt64) (token : AccessTokenRecord) :
    Remains token (revoked uid token) := by
  unfold revoked
  split
  · exact ⟨rfl, rfl, fun now hlasts => absurd hlasts.revoked (by simp)⟩
  · exact .refl token

theorem quiet_lose (s : State) (loss : Loss) : Quiet s (s.lose loss) := by
  cases loss with
  | revoke path uid =>
      unfold State.lose State.modifyProject
      dsimp only
      split
      · exact quiet_chains.refl s
      · rename_i project hproject
        refine ⟨fun other token hmem => ?_, 0, by simp, by simp [State.put]⟩
        obtain ⟨rfl, hput⟩ | hkept := mem_tokensAt_put hmem
        · obtain ⟨before, hbefore, rfl⟩ := List.mem_map.1 hput
          exact ⟨before, by rwa [tokensAt_of_some hproject], remains_revoked uid before⟩
        · exact ⟨token, hkept, .refl token⟩
  | remove path =>
      refine .of_tokens (fun other token hmem => ?_) 0 (by simp [State.lose]) (by simp [State.lose])
      unfold State.tokensAt State.tokens State.lose at hmem
      rw [Std.ExtTreeMap.getElem?_erase] at hmem
      split at hmem
      · cases hmem
      · exact hmem

/-! ## A new token -/

/-- A token with the next identifier and a secret of its own is new at a path. -/
structure Mints (path : String) (token : AccessTokenRecord) (s t : State) : Prop where
  uid : token.uid = s.lastId + 1
  secret : token.token = some (secretOf token.uid)
  new : token ∈ t.tokensAt path
  tokens : ∀ other, ∀ found ∈ t.tokensAt other,
    found ∈ s.tokensAt other ∨ other = path ∧ found = token
  lastId : t.lastId = s.lastId + 1
  calls : t.calls.length = s.calls.length + 1

theorem mints_createAccessToken (site : Site) (request : NewAccessToken) :
    ((forge site).createAccessToken path request).Ends s (fun token t => Mints path token s t)
      fun _ t => Quiet s t := by
  refine ends_answer (fun _ _ => quiet_record s _) ?_
  unfold Act.Ends createAccessToken onProject
  rw [Act.runFrom_ofFunction]
  dsimp only
  split
  · rename_i hrun
    split at hrun
    · cases hrun
    · rename_i project hproject
      cases hrun
      refine ⟨rfl, rfl, ?_, fun other found hmem => ?_, rfl,
        by simp [State.put, State.takeId, State.record]⟩
      · rw [tokensAt_put_self]
        exact List.mem_append_right _ List.mem_cons_self
      · obtain ⟨rfl, hput⟩ | hkept := mem_tokensAt_put hmem
        · rw [List.mem_append, List.mem_singleton, ← tokensAt_of_some hproject] at hput
          exact hput.imp_right fun heq => ⟨rfl, heq⟩
        · exact .inl hkept
  · rename_i hrun
    split at hrun
    · cases hrun
      exact quiet_takeId s _
    · cases hrun

/-! ## Grants -/

/-- How a token is granted: one that may be chosen is there, or none was there and one is minted. -/
inductive Grants (now : Instant) (path : String) (hint : Option UInt64) (grant : AccessTokenGrant)
    (s t : State) : Prop where
  | known (token : AccessTokenRecord) (quiet : Quiet s t) (there : token ∈ t.tokensAt path)
      (suits : Suits now hint token) (uid : grant.uid = token.uid)
      (secret : grant.token = none)
  | minted (mid : State) (token : AccessTokenRecord) (quiet : Quiet s mid)
      (none : ∀ token ∈ mid.tokensAt path, ¬ Suits now hint token)
      (mints : Mints path token mid t) (uid : grant.uid = token.uid)
      (secret : grant.token = some (secretOf token.uid))

/-- A grant on a forge where others may act before each call. -/
theorem ends_ensureAccessToken_preceded {outside : State → State}
    (houtside : ∀ s, Quiet s (outside s)) (name : String) :
    (((forge site).preceded outside).ensureAccessToken now path name hint).Ends s
      (fun grant t => Grants now path hint grant s t) fun _ t => Quiet s t := by
  have hread : Act.Moves Quiet ((forge site).listAccessTokens path) :=
    Act.moves_map.1 (respects_quiet site (.listAccessTokens path) nofun)
  have hlist : (((forge site).preceded outside).listAccessTokens path).Ends s
      (fun listed t => listed = (t.tokensAt path).map (fun token => { token with token := none }) ∧
        Quiet s t) fun _ t => Quiet s t := by
    refine Act.ends_preceded.2 ((ends_listAccessTokens.and (hread.ends (outside s))).mono
      (fun listed t hend => ?_) fun _ t hend => quiet_chains.trans (houtside s) hend.2)
    obtain ⟨⟨tokens, htokens, rfl⟩, hquiet⟩ := hend
    rw [State.tokensAt, htokens]
    exact ⟨rfl, quiet_chains.trans (houtside s) hquiet⟩
  unfold Forge.ensureAccessToken
  refine hlist.bind fun listed t hlisted => ?_
  obtain ⟨rfl, hquiet⟩ := hlisted
  dsimp only
  rw [selectToken_listed]
  cases hchosen : chosen now (t.tokensAt path) hint with
  | some found =>
      obtain ⟨token, hmem, hsuits, huid⟩ := suits_of_chosen hchosen
      exact .known token hquiet hmem hsuits huid.symm rfl
  | none =>
      -- what others do before the token is created makes no other token do
      have hmid := houtside t
      have hnone : ∀ token ∈ (outside t).tokensAt path, ¬ Suits now hint token := by
        intro token hmem hsuits
        obtain ⟨before, hbefore, hremains⟩ := hmid.tokens path token hmem
        exact chosen_eq_none_iff.1 hchosen before hbefore (hsuits.of_remains hremains)
      have hcreate : ∀ request,
          (((forge site).preceded outside).createAccessToken path request).Ends t
            (fun token u => Mints path token (outside t) u) fun _ u => Quiet s u := fun request =>
        Act.ends_preceded.2 ((mints_createAccessToken site request).mono (fun _ _ => id)
          fun _ _ hend => quiet_chains.trans (quiet_chains.trans hquiet hmid) hend)
      refine (hcreate _).bind fun token u hmints => ?_
      rw [hmints.secret]
      exact .minted (outside t) token (quiet_chains.trans hquiet hmid) hnone hmints rfl rfl

/-! ## Identifiers and secrets -/

/-- The tokens carry the secrets of their identifiers, and none has an identifier that is still to
come, until the counter, since so many calls were recorded, has come round. -/
structure Issued (start : Nat) (s : State) : Prop where
  started : start ≤ s.calls.length
  secret : ∀ path, ∀ token ∈ s.tokensAt path, token.token = some (secretOf token.uid)
  fresh : ∀ path, ∀ token ∈ s.tokensAt path, ∀ ahead, 0 < ahead →
    s.calls.length + ahead ≤ start + 2 ^ 64 → token.uid ≠ s.lastId + UInt64.ofNat ahead

variable {start : Nat}

theorem Issued.of_quiet (h : Issued start s) (hquiet : Quiet s t) : Issued start t := by
  obtain ⟨taken, hlast, hcalls⟩ := hquiet.ids
  refine ⟨by have := h.started; omega, fun path token hmem => ?_,
    fun path token hmem ahead hahead hroom => ?_⟩
  · obtain ⟨before, hbefore, hremains⟩ := hquiet.tokens path token hmem
    rw [hremains.token, hremains.uid]
    exact h.secret path before hbefore
  · obtain ⟨before, hbefore, hremains⟩ := hquiet.tokens path token hmem
    rw [hremains.uid, hlast, UInt64.add_assoc, ← UInt64.ofNat_add]
    exact h.fresh path before hbefore (taken + ahead) (by omega) (by omega)

theorem Issued.of_mints (h : Issued start s) (hmints : Mints path token s t) : Issued start t := by
  have hstarted := h.started
  have hcalls := hmints.calls
  refine ⟨by omega, fun other found hmem => ?_, fun other found hmem ahead hahead hroom => ?_⟩
  · obtain hold | ⟨-, rfl⟩ := hmints.tokens other found hmem
    · exact h.secret other found hold
    · exact hmints.secret
  · obtain hold | ⟨-, rfl⟩ := hmints.tokens other found hmem
    · rw [hmints.lastId, UInt64.add_assoc, ← UInt64.ofNat_one, ← UInt64.ofNat_add]
      exact h.fresh other found hold (1 + ahead) (by omega) (by omega)
    · rw [hmints.lastId, ← hmints.uid]
      intro heq
      have hzero : UInt64.ofNat ahead = 0 := by
        simpa using heq
      have := congrArg UInt64.toNat hzero
      simp at this
      omega

theorem Quiet.calls_le (h : Quiet s t) : s.calls.length ≤ t.calls.length := by
  obtain ⟨taken, -, hcalls⟩ := h.ids
  omega

theorem Grants.calls_le {grant : AccessTokenGrant} (hgrants : Grants now path hint grant s t) :
    s.calls.length ≤ t.calls.length := by
  cases hgrants with
  | known token hquiet => exact hquiet.calls_le
  | minted mid token hquiet hnone hmints =>
      rw [hmints.calls]
      exact Nat.le_succ_of_le hquiet.calls_le

theorem Grants.issued {grant : AccessTokenGrant} (hgrants : Grants now path hint grant s t)
    (h : Issued start s) : Issued start t := by
  cases hgrants with
  | known token hquiet => exact h.of_quiet hquiet
  | minted mid token hquiet hnone hmints => exact (h.of_quiet hquiet).of_mints hmints

/-! ## The vault -/

/-- Whatever token may be chosen under a hint, the vault has its secret. -/
def Agrees (now : Instant) (hint : Option UInt64) (vault : TokenVault) (s : State) : Prop :=
  ∀ path, ∀ token ∈ s.tokensAt path, Suits now hint token →
    vault.get? path = some ⟨token.uid, secretOf token.uid⟩

variable {vault : TokenVault}

theorem Agrees.of_quiet (h : Agrees now hint vault s) (hquiet : Quiet s t) :
    Agrees now hint vault t := by
  intro path token hmem hsuits
  obtain ⟨before, hbefore, hremains⟩ := hquiet.tokens path token hmem
  rw [hremains.uid]
  exact h path before hbefore (hsuits.of_remains hremains)

theorem Agrees.of_le {later : Instant} (h : Agrees now hint vault s) (hle : now ≤ later)
    (hleap : ¬ later.IsLeap) : Agrees later hint vault s :=
  fun path token hmem hsuits => h path token hmem (hsuits.of_le hle hleap)

/-- Under the identifier of a token that would do before, no other tokens will do. -/
theorem Agrees.of_suits (h : Agrees now hint vault s) (hsuits : Suits now hint token) :
    Agrees now (some token.uid) vault s := by
  intro path found hmem hfound
  refine h path found hmem ⟨hfound.1, fun uid huid => ?_⟩
  rw [hfound.2 token.uid rfl, hsuits.2 uid huid]

/-- The vault after the secret of a grant, if it has one, was handed to it. -/
def kept (vault : TokenVault) (path : String) (grant : AccessTokenGrant) : TokenVault :=
  grant.token.elim vault (vault.store path grant)

theorem get?_store_self (vault : TokenVault) (path : String) (grant : AccessTokenGrant)
    (secret : String) : (vault.store path grant secret).get? path = some ⟨grant.uid, secret⟩ :=
  Std.ExtTreeMap.getElem?_insert_self

theorem get?_store_of_ne {other : String} (h : other ≠ path) (grant : AccessTokenGrant)
    (secret : String) : (vault.store path grant secret).get? other = vault.get? other := by
  unfold TokenVault.get? TokenVault.store
  rw [Std.ExtTreeMap.getElem?_insert, if_neg]
  simpa using h.symm

/-- What a grant leaves behind at its path, for the vault as it is then. -/
structure Secured (path : String) (uid : UInt64) (vault : TokenVault) (s : State) : Prop where
  entry : vault.get? path = some ⟨uid, secretOf uid⟩
  token : ∃ token ∈ s.tokensAt path, token.uid = uid ∧ token.token = some (secretOf uid)

/-- After a grant the vault agrees with the forge under the hint, under which the grant was asked
for, and under the identifier that was granted. -/
theorem Grants.agrees {grant : AccessTokenGrant} (hgrants : Grants now path hint grant s t)
    (hissued : Issued start s) (h : Agrees now hint vault s)
    (hroom : t.calls.length ≤ start + 2 ^ 64) :
    Agrees now hint (kept vault path grant) t ∧
      Agrees now (some grant.uid) (kept vault path grant) t ∧
        Secured path grant.uid (kept vault path grant) t := by
  cases hgrants with
  | known token hquiet hmem hsuits huid hsecret =>
      have hagrees := h.of_quiet hquiet
      rw [kept, hsecret, huid]
      refine ⟨hagrees, hagrees.of_suits hsuits, hagrees path token hmem hsuits,
        token, hmem, rfl, (hissued.of_quiet hquiet).secret path token hmem⟩
  | minted mid token hquiet hnone hmints huid hsecret =>
      have hagrees := h.of_quiet hquiet
      have hfresh := (hissued.of_quiet hquiet).fresh
      have hcalls := hmints.calls
      have hentry : (kept vault path grant).get? path = some ⟨token.uid, secretOf token.uid⟩ := by
        rw [kept, hsecret, ← huid]
        exact get?_store_self vault path grant _
      have hothers : ∀ other, other ≠ path →
          (kept vault path grant).get? other = vault.get? other := by
        intro other hne
        rw [kept, hsecret]
        exact get?_store_of_ne hne grant _
      rw [huid]
      refine ⟨fun other found hmem hsuits => ?_, fun other found hmem hsuits => ?_,
        hentry, token, hmints.new, rfl, hmints.secret⟩
      · obtain hold | ⟨rfl, rfl⟩ := hmints.tokens other found hmem
        · by_cases hpath : other = path
          · subst hpath
            exact (hnone found hold hsuits).elim
          · rw [hothers other hpath]
            exact hagrees other found hold hsuits
        · exact hentry
      · obtain hold | ⟨rfl, rfl⟩ := hmints.tokens other found hmem
        · refine (hfresh other found hold 1 (by omega) (by omega) ?_).elim
          rw [hsuits.2 token.uid rfl, hmints.uid]
          rfl
        · exact hentry

end Forge.Memory

end ForgeSync
