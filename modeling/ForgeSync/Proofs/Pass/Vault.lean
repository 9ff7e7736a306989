import Mathlib.Data.List.Basic
import ForgeSync.Proofs.Pass.Disturbed
import ForgeSync.Proofs.Pass.Writes

/-!
# The vault and the status

The secret of a new token is handed to the vault before its identifier is stored in the status, and
the store may refuse that. From then on the vault is ahead of the status, and stays so until a pass
finds that the token that the status names is of no use and asks for another one.

Main statements: `Sound.pass`, `Sound.run` and `vaulted_of_run`.
-/

namespace ForgeSync

open Calendar (Instant)
open Forge.Memory

/-! ## The stored object -/

namespace ObjectStore

/-- Under a key a living object is stored, and its status names a token, or none. -/
def Holding (key : String) (hint : Option UInt64) (store : ObjectStore) : Prop :=
  ∃ stored, store.objects[key]? = some stored ∧ stored.key = key ∧ stored.isDeleting = false ∧
    stored.status.accessTokenUid = hint

variable {key : String} {hint : Option UInt64} {store : ObjectStore} {o : Owner}

/-- Users do not get at the status. -/
theorem Holding.update (h : store.Holding key hint) (o : Owner) :
    (store.update o).2.Holding key hint := by
  obtain ⟨stored, hstored, hkey, hliving, hhint⟩ := h
  unfold ObjectStore.update
  cases hcurrent : store.current o with
  | error failure => exact ⟨stored, hstored, hkey, hliving, hhint⟩
  | ok found =>
      dsimp only
      have hfound := getElem?_of_current hcurrent
      by_cases hsame : o.key = key
      · obtain rfl := Option.some.inj ((hsame ▸ hfound).symm.trans hstored)
        have hnext : isReleased (updated found o).metadata = false := by
          simp only [isReleased, updated, ObjectMeta.isDeleting]
          simp only [Owner.isDeleting, ObjectMeta.isDeleting] at hliving
          simp [hliving]
        rw [hnext]
        refine ⟨updated found o, ?_, ?_, hliving, hhint⟩
        · simp [hsame]
        · exact hsame
      · refine ⟨stored, ?_, hkey, hliving, hhint⟩
        dsimp only
        split
        · simpa [Std.ExtTreeMap.getElem?_erase, hsame] using hstored
        · simpa [Std.ExtTreeMap.getElem?_insert, hsame] using hstored

theorem Holding.updates (h : store.Holding key hint) (users : List Owner) :
    (users.foldl (fun store o => (store.update o).2) store).Holding key hint := by
  induction users generalizing store with
  | nil => exact h
  | cons user rest ih => exact ih (h.update user)

/-- A write of the status is refused, or it stores the token that the status names. -/
theorem Holding.updateStatus_cases (h : store.Holding key hint) (hkey : o.key = key) :
    (∃ failure, store.updateStatus o = (.error failure, store)) ∨
      (∃ stored, (store.updateStatus o).1 = .ok stored) ∧
        (store.updateStatus o).2.Holding key o.status.accessTokenUid := by
  obtain ⟨stored, hstored, hsame, hliving, -⟩ := h
  cases hcurrent : store.current o with
  | error failure => exact .inl ⟨failure, updateStatus_of_stale hcurrent⟩
  | ok found =>
      have hfound := getElem?_of_current hcurrent
      rw [hkey, hstored] at hfound
      obtain rfl := Option.some.inj hfound
      simp only [ObjectStore.updateStatus, hcurrent]
      exact .inr ⟨⟨_, rfl⟩, statusUpdated stored o, by simp [hkey], hsame, hliving, rfl⟩

end ObjectStore

namespace Reconciler

variable {key : String} {start : Nat} {now : Instant} {hint : Option UInt64} {w : World State}

/-! ## Worlds in order -/

/-- A world in order for a run over the object under a key: its status has a hint, under which the
vault agrees with the forge. -/
structure Sound (key : String) (start : Nat) (now : Instant) (hint : Option UInt64)
    (w : World State) : Prop where
  faults : w.faults = {}
  holding : w.store.Holding key hint
  issued : Issued start w.backend
  agrees : w.backend.calls.length ≤ start + 2 ^ 64 → Agrees now hint w.vault w.backend

theorem Sound.of_quiet (h : Sound key start now hint w) {t : State} (hquiet : Quiet w.backend t) :
    Sound key start now hint { w with backend := t } := by
  refine ⟨h.faults, h.holding, h.issued.of_quiet hquiet, fun hroom => ?_⟩
  obtain ⟨taken, -, hcalls⟩ := hquiet.ids
  dsimp only at hroom
  exact (h.agrees (by omega)).of_quiet hquiet

theorem Sound.of_holding (h : Sound key start now hint w) {store : ObjectStore}
    (hholding : store.Holding key hint) : Sound key start now hint { w with store } :=
  ⟨h.faults, hholding, h.issued, h.agrees⟩

theorem Sound.updated (h : Sound key start now hint w) (users : List Owner) :
    Sound key start now hint (w.updated users) :=
  h.of_holding (h.holding.updates users)

theorem Sound.withFailures (h : Sound key start now hint w) (failures : Table String) :
    Sound key start now hint (w.withFailures failures) :=
  ⟨h.faults, h.holding, ⟨h.issued.started, h.issued.secret, h.issued.fresh⟩, h.agrees⟩

theorem Sound.of_le {later : Instant} (h : Sound key start now hint w) (hle : now ≤ later)
    (hleap : ¬ later.IsLeap) : Sound key start later hint w :=
  ⟨h.faults, h.holding, h.issued, fun hroom => (h.agrees hroom).of_le hle hleap⟩

end Reconciler

/-! ## Work up to the token -/

namespace Pass

open Reconciler

variable {key : String} {start : Nat} {now : Instant} {hint : Option UInt64}

/-- A pass on a living object in a world in order, with the hint that is stored. -/
structure Steady (key : String) (start : Nat) (now : Instant) (hint : Option UInt64)
    (p : Pass State) : Prop where
  named : p.object.key = key
  living : p.deleted = false
  hinted : p.object.status.accessTokenUid = hint
  sound : Sound key start now hint p.world

/-- What keeps a pass steady. -/
def Steadies (key : String) (start : Nat) (now : Instant) (hint : Option UInt64)
    (p q : Pass State) : Prop :=
  Steady key start now hint p → Steady key start now hint q

theorem steadies_chains (key : String) (start : Nat) (now : Instant) (hint : Option UInt64) :
    Act.Chains (Steadies key start now hint) :=
  ⟨fun _ => id, fun h h' => h' ∘ h⟩

theorem steadies_records (key : String) (start : Nat) (now : Instant) (hint : Option UInt64) :
    Records (Steadies key start now hint) where
  toChains := steadies_chains key start now hint
  phase _ _ h := ⟨h.named, h.living, h.hinted, h.sound⟩
  version _ _ h := ⟨h.named, h.living, h.hinted, h.sound⟩
  write p h := by
    have hrun := runFrom_onWorld (World.runFrom_updateStatus_eq (o := p.object) h.sound.faults)
    rw [hrun]
    refine ⟨h.named, h.living, h.hinted, ?_⟩
    obtain ⟨failure, hrefused⟩ | ⟨-, hholding⟩ := h.sound.holding.updateStatus_cases h.named
    · rw [hrefused]
      exact h.sound
    · exact h.sound.of_holding (h.hinted ▸ hholding)

theorem moves_steadies_onBackend {α : Type} {act : Act State α} (h : Act.Moves Quiet act) :
    Act.Moves (Steadies key start now hint) (act.within onBackend) :=
  fun p hsteady => ⟨hsteady.named, hsteady.living, hsteady.hinted,
    hsteady.sound.of_quiet (h p.world.backend)⟩

end Pass

namespace Convergence

open Reconciler

variable {key : String} {start : Nat} {now : Instant} {hint : Option UInt64}
  {c : Convergence State} {site : Site} {d : Disturbance} {repo : Descriptor} {p : Pass State}

/-- The calls besides the creation of a token, on a forge where others act. -/
theorem respects_quiet_preceded (site : Site) (d : Disturbance) :
    ((forge site).preceded d.strike).Respects
      (fun call => ∀ path request, call ≠ .createAccessToken path request) Quiet :=
  (respects_quiet site).preceded quiet_chains d.quiet_strike

theorem moves_steadies_prepare (existed : Bool) :
    Act.Moves (Pass.Steadies key start now hint)
      (prepare ((forge site).preceded d.strike) repo existed) := by
  have hcalls := respects_quiet_preceded site d
  refine (Pass.steadies_records key start now hint).moves_prepare
    (Pass.moves_steadies_onBackend (Forge.moves_createRepository quiet_chains
      (hcalls.mono fun call hcall path request heq => ?_)))
    (Pass.moves_steadies_onBackend (Forge.moves_commitTemplate quiet_chains
      (hcalls.mono fun call hcall path request heq => ?_)))
    (Pass.moves_steadies_onBackend (Forge.moves_updateRepository quiet_chains
      (hcalls.mono fun call hcall path request heq => ?_))) existed <;>
    subst heq <;> exact hcall

theorem moves_steadies_settleVariables :
    Act.Moves (Pass.Steadies key start now hint)
      (settleVariables ((forge site).preceded d.strike) repo) := by
  refine moves_settleVariables_of (Pass.steadies_chains key start now hint) (fun p => ?_)
    fun p h => ⟨h.named, h.living, h.hinted, h.sound⟩
  refine Pass.moves_steadies_onBackend (Forge.moves_reconcileVariables quiet_chains
    ((respects_quiet_preceded site d).mono fun call hcall path request heq => ?_)) p
  subst heq
  exact hcall

/-! ## The token -/

/-- The work on a living repository has ended: besides the hint that is stored, the token that was
granted is one under which the vault agrees with the forge. -/
structure Delivered (key : String) (start : Nat) (now : Instant) (hint : Option UInt64)
    (path : Option String) (p : Pass State) : Prop where
  named : p.object.key = key
  living : p.deleted = false
  sound : Sound key start now hint p.world
  agrees : p.world.backend.calls.length ≤ start + 2 ^ 64 →
    Agrees now p.object.status.accessTokenUid p.world.vault p.world.backend
  secured : p.world.backend.calls.length ≤ start + 2 ^ 64 → ∀ path', path = some path' →
    ∃ uid, p.object.status.accessTokenUid = some uid ∧
      Secured path' uid p.world.vault p.world.backend

theorem Delivered.of_steady (h : Pass.Steady key start now hint p) :
    Delivered key start now hint none p :=
  ⟨h.named, h.living, h.sound, h.hinted ▸ h.sound.agrees, fun _ _ => nofun⟩

/-- The path under which the vault keeps the token that a descriptor wants. -/
def tokenPath (repo : Descriptor) : Option String :=
  repo.accessToken.map fun _ => repo.fullPath

theorem ends_grantToken_delivered (hnow : c.now = now) (h : Pass.Steady key start now hint p) :
    (c.grantToken ((forge site).preceded d.strike) repo).Ends p
      (fun _ q => Delivered key start now hint (tokenPath repo) q)
      fun _ q => Sound key start now hint q.world := by
  unfold grantToken
  cases hwanted : repo.accessToken with
  | none =>
      rw [tokenPath, hwanted]
      exact .of_steady h
  | some name =>
      rw [Act.ends_bind, Act.ends_get]
      dsimp only
      rw [Act.ends_bind, Act.ends_within, hnow, h.hinted]
      refine (ends_ensureAccessToken_preceded d.quiet_strike name).mono
        (fun grant t hgrants => ?_) fun _ t hquiet => h.sound.of_quiet hquiet
      -- the secret reaches the vault, if there is one, and the identifier the status in hand
      have hend : ∀ q : Pass State,
          q = { Pass.onBackend.set t p with
            world := { p.world with
              backend := t, vault := kept p.world.vault repo.fullPath grant } } →
          Delivered key start now hint (some repo.fullPath)
            { q with object := q.object.mapStatus fun s =>
                { s with accessTokenUid := some grant.uid } } := by
        rintro q rfl
        have hagrees := fun hroom : t.calls.length ≤ start + 2 ^ 64 =>
          hgrants.agrees h.sound.issued (h.sound.agrees (Nat.le_trans hgrants.calls_le hroom)) hroom
        refine ⟨h.named, h.living, ⟨h.sound.faults, h.sound.holding, hgrants.issued h.sound.issued,
          fun hroom => (hagrees hroom).1⟩, fun hroom => (hagrees hroom).2.1,
          fun hroom path hpath => ?_⟩
        obtain rfl := Option.some.inj hpath
        exact ⟨grant.uid, rfl, (hagrees hroom).2.2⟩
      rw [show tokenPath repo = some repo.fullPath by rw [tokenPath, hwanted]; rfl]
      cases hsecret : grant.token with
      | none =>
          refine hend (Pass.onBackend.set t p) ?_
          rw [kept, hsecret]
          rfl
      | some secret =>
          dsimp only
          rw [Act.ends_bind, Act.ends_of_ok (Pass.runFrom_onWorld
            (World.runFrom_storeToken (w := (Pass.onBackend.set t p).world) h.sound.faults _ _ _))]
          refine hend _ ?_
          rw [kept, hsecret]
          rfl

/-! ## The work -/

variable {connection : Connection}

theorem ends_convergeRepository_delivered (hnow : c.now = now)
    (h : Pass.Steady key start now hint p) (existed : Bool) :
    (c.convergeRepository connection ((forge site).preceded d.strike) repo existed).Ends p
      (fun _ q => Delivered key start now hint (tokenPath repo) q)
      fun _ q => Sound key start now hint q.world := by
  have hsteady : ∀ {act : Act (Pass State) Unit} {p : Pass State},
      Act.Moves (Pass.Steadies key start now hint) act → Pass.Steady key start now hint p →
        act.Ends p (fun _ q => Pass.Steady key start now hint q)
          fun _ q => Sound key start now hint q.world := fun hmoves hp =>
    (hmoves.ends _).mono (fun _ _ hq => hq hp) fun _ _ hq => (hq hp).sound
  rw [convergeRepository_eq_prepare, finish]
  refine (hsteady (moves_steadies_prepare existed) h).bind fun _ q hq => ?_
  refine (hsteady moves_steadies_settleVariables hq).bind fun _ u hu => ?_
  refine (ends_grantToken_delivered hnow hu).bind fun _ v hv => ?_
  exact ⟨hv.named, hv.living, hv.sound, hv.agrees, hv.secured⟩

theorem ends_convergeOn_delivered (hnow : c.now = now) (h : Pass.Steady key start now hint p) :
    (c.convergeOn connection ((forge site).preceded d.strike) repo).Ends p
      (fun _ q => Delivered key start now hint (tokenPath repo) q)
      fun _ q => Sound key start now hint q.world := by
  have hquiet : Act.Moves Quiet (((forge site).preceded d.strike).readRepository repo) :=
    Act.moves_map.1 (respects_quiet_preceded site d (.getProject repo.fullPath) nofun)
  have hread := Pass.moves_steadies_onBackend hquiet p h
  unfold Act.Ends
  rw [convergeOn_of_living h.living]
  rcases hrun : ((((forge site).preceded d.strike).readRepository repo).within
    Pass.onBackend).runFrom p with ⟨failure | remote, after⟩ <;> rw [hrun] at hread
  · exact hread.sound
  · exact ends_convergeRepository_delivered hnow hread remote.isSome

theorem ends_converge_delivered (hserves : c.registry.Serves ((forge site).preceded d.strike))
    (hnow : c.now = now) (h : Pass.Steady key start now hint p) :
    c.converge.Ends p
      (fun _ q => Delivered key start now hint (p.object.spec.gitTemplate.bind tokenPath) q)
      fun _ q => Sound key start now hint q.world := by
  by_cases haccess : ∃ repo connection other, Access c p.object p.world repo connection other
  · obtain ⟨repo, connection, other, haccess⟩ := haccess
    obtain rfl := haccess.forge_eq hserves
    obtain ⟨declared, hdeclared, hrepo⟩ := Option.map_eq_some_iff.1 haccess.template
    have hpath : p.object.spec.gitTemplate.bind tokenPath = tokenPath repo := by
      rw [hdeclared, ← hrepo]
      rfl
    unfold Act.Ends
    rw [converge_of_access haccess, hpath]
    exact ends_convergeOn_delivered hnow (p := templated p repo)
      ⟨h.named, h.living, h.hinted, h.sound⟩
  · have hstrayed := strayed_of_no_access (c := c) (p := p)
      fun repo connection other hreached => haccess ⟨repo, connection, other, hreached⟩
    unfold Act.Ends
    rcases hrun : c.converge.runFrom p with ⟨failure | _, q⟩ <;> rw [hrun] at hstrayed
    · have hworld : q.world = p.world := hstrayed.world
      dsimp only
      rw [hworld]
      exact h.sound
    · obtain hdeleted | ⟨hnone, hsame⟩ := hstrayed.ok rfl
      · cases h.living.symm.trans hdeleted
      · rw [hnone, show q = p from hsame]
        exact .of_steady h

end Convergence

/-! ## The closing -/

namespace Lifecycle

variable {key : String} {hint : Option UInt64} {status : RepoStatus} {w : World State}
  {rules : Rules} {p : Pass State}

/-- A pass on a living object is about to store it, with a status, in a world of which it changes
the store only. -/
structure Closing (key : String) (hint : Option UInt64) (status : RepoStatus) (w : World State)
    (p : Pass State) : Prop where
  named : p.object.key = key
  living : p.deleted = false
  status : p.object.status = status
  store : ∃ store : ObjectStore, p.world = { w with store } ∧ store.Holding key hint

theorem moves_closing_storeObject (rules : Rules) :
    Act.Moves (fun p q => Closing key hint status w p → Closing key hint status w q)
      (storeObject rules) := by
  intro p h
  obtain ⟨store, hworld, hholding⟩ := h.store
  obtain hkept | ⟨stored, -, hwritten⟩ := storeObject_cases rules p
  · rwa [hkept]
  · rw [hwritten, hworld]
    exact ⟨h.named, h.living, h.status, _, rfl, hholding.update p.object⟩

theorem Closing.updated (h : Closing key hint status w p) (late : List Owner) :
    Closing key hint status w { p with world := p.world.updated late } := by
  obtain ⟨store, hworld, hholding⟩ := h.store
  exact ⟨h.named, h.living, h.status, _, by rw [World.updated, hworld],
    hholding.updates late⟩

/-- The status is stored, unless it has not changed; if it is refused, the pass does not succeed. -/
theorem ends_storeStatus_holding (h : Closing key hint status w p) (hfaults : w.faults = {})
    (hinitial : rules.initial.status.accessTokenUid = hint) :
    (storeStatus rules).Ends p
      (fun _ q => ∃ store : ObjectStore, q.world = { w with store } ∧
        store.Holding key status.accessTokenUid)
      fun _ q => ∃ store : ObjectStore, q.world = { w with store } ∧ store.Holding key hint := by
  obtain ⟨store, hworld, hholding⟩ := h.store
  unfold storeStatus
  rw [Act.ends_bind, Act.ends_get]
  split
  · have hrun := Pass.runFrom_onWorld (World.runFrom_updateStatus_eq (o := p.object)
      (show p.world.faults = {} by rw [hworld]; exact hfaults))
    rw [Act.ends_bind, Act.ends_attempt]
    unfold Act.Ends
    rw [hrun, hworld]
    obtain ⟨failure, hrefused⟩ | ⟨⟨stored, hok⟩, hwritten⟩ := hholding.updateStatus_cases h.named
    · rw [hrefused]
      dsimp only
      rw [if_neg (by simp [h.living])]
      exact ⟨store, rfl, hholding⟩
    · rw [hok]
      exact ⟨_, rfl, h.status ▸ hwritten⟩
  · rename_i hsame
    refine ⟨store, hworld, ?_⟩
    rw [← h.status, Classical.not_not.1 hsame, hinitial]
    exact hholding

/-- A closing that succeeds stores the token that the status in hand names, and any other leaves the
one that was stored. -/
theorem closing_amid (rules : Rules) (h : Closing key hint status w p) (hfaults : w.faults = {})
    (hinitial : rules.initial.status.accessTokenUid = hint) (late : List Owner) :
    let run := runSteps rules [updateObjectAmid late] p
    ∃ store : ObjectStore, run.2.world = { w with store } ∧
      (store.Holding key status.accessTokenUid ∨ store.Holding key hint ∧ run.1 ≠ .ok {}) := by
  have hends : (storeAmid late rules).Ends p
      (fun _ q => ∃ store : ObjectStore, q.world = { w with store } ∧
        store.Holding key status.accessTokenUid)
      fun _ q => ∃ store : ObjectStore, q.world = { w with store } ∧ store.Holding key hint := by
    have hobject := ((moves_closing_storeObject rules).ends p).mono
      (fun _ _ hq => hq h) fun _ _ hq => (hq h).store
    refine hobject.bind fun _ q hq => ?_
    exact ends_storeStatus_holding (hq.updated late) hfaults hinitial
  intro run
  dsimp only [run, runSteps, updateObjectAmid]
  rw [Act.runFrom_bind, Act.runFrom_attempt]
  rcases hrun : (storeAmid late rules).runFrom p with ⟨failure | _, q⟩
  · obtain ⟨store, hworld, hholding⟩ := hends.of_error hrun
    dsimp only
    cases failure.isConflict <;> exact ⟨store, hworld, .inr ⟨hholding, nofun⟩⟩
  · obtain ⟨store, hworld, hholding⟩ := hends.of_ok hrun
    exact ⟨store, hworld, .inl hholding⟩

end Lifecycle

/-! ## Passes and runs -/

namespace Reconciler

variable {r : Reconciler State} {site : Site} {o : Owner} {key : String} {start : Nat}
  {now : Instant} {hint : Option UInt64} {w : World State}

theorem Sound.opening (h : Sound key start now hint w) (r : Reconciler State) (hkey : o.key = key)
    (hliving : o.isDeleting = false) (hhint : o.status.accessTokenUid = hint) :
    Pass.Steady key start now hint (r.opening o w) :=
  ⟨(key_admitted r o).trans hkey, hliving,
    (congrArg (·.accessTokenUid) (status_admitted r o)).trans hhint, h⟩

/-- The pass comes to its closing with the finalizers set, which are neither key nor status. -/
theorem closing_finalized {p : Pass State}
    {path : Option String} (h : Convergence.Delivered key start now hint path p) :
    Lifecycle.Closing key hint p.object.status p.world (r.finalized o p) :=
  ⟨(key_finalized r o p).trans h.named, (finalized_deleted r o p).trans h.living,
    status_finalized r o p, p.world.store, finalized_world r o p, h.sound.holding⟩

/-- After a pass over a fresh copy the world is in order, and if the pass succeeds, the vault keeps
the token that the status names. -/
theorem Sound.pass (hserves : r.registry.Serves (forge site)) (hnow : r.now = now)
    (h : Sound key start now hint w) (hstored : w.store.objects[key]? = some o)
    (d : Disturbance) :
    let pass := r.reconcileAmid d o w
    ∃ next, Sound key start now next pass.2.world ∧
      (pass.1 = .ok {} → pass.2.world.backend.calls.length ≤ start + 2 ^ 64 →
        ∀ path, o.spec.gitTemplate.bind Convergence.tokenPath = some path →
          ∃ uid, next = some uid ∧ Secured path uid pass.2.world.vault pass.2.world.backend) := by
  intro pass
  obtain ⟨stored, hsame, hkey, hliving, hhint⟩ := h.holding
  obtain rfl := Option.some.inj (hstored.symm.trans hsame)
  let r' : Reconciler State := { r with registry := r.registry.preceded d.strike }
  have hwork := Convergence.ends_converge_delivered (c := r'.convergence)
    (hserves.preceded d.strike) hnow ((h.updated d.early).opening r' hkey hliving hhint)
  have hpass : pass = _ := runSteps_of_admitted r' o (w.updated d.early)
    [Lifecycle.updateObjectAmid d.late] (by simp [hliving])
  rcases hrun : r'.convergence.converge.runFrom (r'.opening o (w.updated d.early)) with
    ⟨failure | _, q⟩ <;> rw [hrun] at hpass
  · rw [hpass]
    exact ⟨hint, hwork.of_error hrun, fun hok => by cases hok⟩
  · have hdelivered := hwork.of_ok hrun
    obtain ⟨store, hworld, hholding⟩ := Lifecycle.closing_amid (r'.rules o)
      (closing_finalized (r := r') (o := o) hdelivered) hdelivered.sound.faults hhint d.late
    rw [hpass]
    dsimp only
    rw [hworld]
    obtain hholding | ⟨hholding, hfailed⟩ := hholding
    · refine ⟨q.object.status.accessTokenUid,
        ⟨hdelivered.sound.faults, hholding, hdelivered.sound.issued, hdelivered.agrees⟩, ?_⟩
      intro _ hroom path hpath
      exact hdelivered.secured hroom path ((spec_admitted r' o).symm ▸ hpath)
    · exact ⟨hint, hdelivered.sound.of_holding hholding, fun hok => (hfailed hok).elim⟩

/-- On a forge without tokens the world is in order, whatever the status names. -/
theorem sound_of_fetched (hfetched : Fetched o w) (hliving : o.isDeleting = false)
    (hnone : ∀ path, w.backend.tokensAt path = []) :
    Sound o.key w.backend.calls.length now o.status.accessTokenUid w where
  faults := hfetched.faults
  holding := ⟨o, hfetched.stored, rfl, hliving, rfl⟩
  issued := ⟨Nat.le_refl _, by simp [hnone], by simp [hnone]⟩
  agrees _ := by simp [Agrees, hnone]

/-- Times that do not go back all follow some first time. -/
theorem exists_pairwise_cons {times : List Instant} (h : times.Pairwise (· ≤ ·)) :
    ∃ first, (first :: times).Pairwise (· ≤ ·) := by
  cases times with
  | nil => exact ⟨default, List.pairwise_singleton _ _⟩
  | cons first rest =>
      refine ⟨first, List.pairwise_cons.2 ⟨fun time hmem => ?_, h⟩⟩
      obtain rfl | hrest := List.mem_cons.1 hmem
      · exact Instant.lt_irrefl time
      · exact List.rel_of_pairwise_cons h hrest

/-- A run keeps the world in order while the clock does not go back. -/
theorem Sound.run {space name : String} (hserves : r.registry.Serves (forge site))
    (h : Sound (storeKey space name) start now hint w) {incidents : List Incident} {last : Instant}
    (htimes : (now :: incidents.filterMap Incident.time? ++ [last]).Pairwise (· ≤ ·))
    (hleap : ∀ time ∈ incidents.filterMap Incident.time? ++ [last], ¬ time.IsLeap) :
    ∃ next, Sound (storeKey space name) start last next (r.runAmid space name w incidents) := by
  induction incidents generalizing w now hint with
  | nil =>
      exact ⟨hint, h.of_le (by simpa using htimes) (hleap last (by simp))⟩
  | cons incident rest ih =>
      cases incident with
      | update user => exact ih (h.updated [user]) htimes hleap
      | loss loss => exact ih (h.of_quiet (quiet_lose w.backend loss)) htimes hleap
      | pass time failures d =>
          simp only [List.filterMap_cons, Incident.time?, List.cons_append] at htimes hleap
          rw [List.pairwise_cons] at htimes
          obtain ⟨hfirst, hrest⟩ := htimes
          have hlater := (h.of_le (hfirst time List.mem_cons_self)
            (hleap time List.mem_cons_self)).withFailures failures
          obtain ⟨stored, hstored, -⟩ := h.holding
          obtain ⟨next, hnext, -⟩ := hlater.pass (r := { r with now := time }) hserves rfl hstored d
          have hafter : Sound (storeKey space name) start time next
              (r.afterIncident space name w (.pass time failures d)) := by
            rw [afterIncident, show w.store.get? space name = some stored from hstored]
            exact hnext
          exact ih hafter hrest fun t ht => hleap t (List.mem_cons_of_mem time ht)

/-- The vault keeps, under a path, the secret of the token that the stored status names, as it was
when the token was minted. -/
def Vaulted (key path : String) (w : World State) : Prop :=
  ∃ stored uid, w.store.objects[key]? = some stored ∧ stored.status.accessTokenUid = some uid ∧
    Secured path uid w.vault w.backend

/-- Vault and status agree after every pass of a run that succeeds, if the template of its copy
wants a token: whatever fails on the forge or is lost there, and whatever users update, also while
passes are on their way. The clock does not go back and shows no leap second, and the counter of the
forge does not come round. -/
theorem vaulted_of_run {copy : Owner} {declared : Descriptor}
    (hserves : r.registry.Serves (forge site)) (hfetched : Fetched o w)
    (hliving : o.isDeleting = false) (hnone : ∀ path, w.backend.tokensAt path = [])
    (incidents : List Incident) (now : Instant) (failures : Table String) (d : Disturbance)
    (htimes : (incidents.filterMap Incident.time? ++ [now]).Pairwise (· ≤ ·))
    (hleap : ∀ time ∈ incidents.filterMap Incident.time? ++ [now], ¬ time.IsLeap) :
    let v := r.runAmid o.metadata.space o.metadata.name w incidents
    let pass := ({ r with now } : Reconciler State).reconcileAmid d copy (v.withFailures failures)
    v.store.get? o.metadata.space o.metadata.name = some copy →
      copy.spec.gitTemplate = some declared → declared.accessToken ≠ none → pass.1 = .ok {} →
      pass.2.world.backend.calls.length ≤ w.backend.calls.length + 2 ^ 64 →
      Vaulted o.key declared.fullPath pass.2.world := by
  intro v pass hcopy htemplate htoken hok hroom
  obtain ⟨first, hfirst⟩ := exists_pairwise_cons htimes
  have hstart : Sound o.key w.backend.calls.length first o.status.accessTokenUid w :=
    sound_of_fetched hfetched hliving hnone
  obtain ⟨hint, hsound⟩ := hstart.run hserves hfirst hleap
  obtain ⟨next, hnext, hsecured⟩ := (hsound.withFailures failures).pass
    (r := { r with now }) (o := copy) hserves rfl hcopy d
  have hpath : copy.spec.gitTemplate.bind Convergence.tokenPath = some declared.fullPath := by
    obtain ⟨name, hname⟩ := Option.ne_none_iff_exists'.1 htoken
    rw [htemplate, Option.bind_some, Convergence.tokenPath, hname]
    rfl
  obtain ⟨uid, rfl, hkept⟩ := hsecured hok hroom _ hpath
  obtain ⟨stored, hstored, -, -, huid⟩ := hnext.holding
  exact ⟨stored, uid, hstored, huid, hkept⟩

/-! ## A token that comes back -/

/-- A template that wants an access token. -/
def botTemplate : Descriptor where
  path := "acme"
  repoName := "r"
  accessToken := some "bot"

/-- A tenant, as stored, with the template. -/
def botTenant : Owner where
  metadata := { name := "t", space := "ns", resourceVersion := 1 }
  spec.gitTemplate := some botTemplate

/-- A world that stores the tenant, with an empty forge. -/
def botStart : World State :=
  { sampleWorld {} with store := (({} : ObjectStore).insert botTenant).2 }

theorem fetched_botTenant : Fetched botTenant botStart :=
  ⟨by decide +kernel, rfl⟩

/-- A user updates the tenant between the two writes of the first pass, so that its status is
refused; the second pass finds the token. -/
theorem vaulted_of_run_botTenant :
    let incidents := [Incident.pass ⟨0, 0⟩ ∅ { late := [botTenant.withVersion 2] }]
    let v := sampleReconciler.runAmid botTenant.metadata.space botTenant.metadata.name botStart
      incidents
    Vaulted botTenant.key botTemplate.fullPath
      (({ sampleReconciler with now := ⟨1, 0⟩ } : Reconciler State).reconcileAmid {}
        (botTenant.withVersion 3) (v.withFailures ∅)).2.world := by
  intro incidents v
  exact vaulted_of_run (serves_factory sampleSite) fetched_botTenant rfl (fun _ => rfl) incidents
    ⟨1, 0⟩ ∅ {} (by decide +kernel) (by decide +kernel) (by decide +kernel) rfl (by decide +kernel)
    (by decide +kernel) (by decide +kernel)

/-- In a leap second vault and status may part, though the clock does not go back. The token of the
first pass has ended for the second one, which gets another token, but whose status is refused; for
the third one it has not ended, and so that one is granted again. -/
theorem parted_in_leap_second :
    ¬ ∀ (r : Reconciler State) (o copy : Owner) (w : World State) (declared : Descriptor)
        (incidents : List Incident) (now : Instant) (failures : Table String) (d : Disturbance),
      r.registry.Serves (forge sampleSite) → Fetched o w → o.isDeleting = false →
      (∀ path, w.backend.tokensAt path = []) →
      (incidents.filterMap Incident.time? ++ [now]).Pairwise (· ≤ ·) →
      let v := r.runAmid o.metadata.space o.metadata.name w incidents
      let pass := ({ r with now } : Reconciler State).reconcileAmid d copy (v.withFailures failures)
      v.store.get? o.metadata.space o.metadata.name = some copy →
      copy.spec.gitTemplate = some declared → declared.accessToken ≠ none → pass.1 = .ok {} →
      pass.2.world.backend.calls.length ≤ w.backend.calls.length + 2 ^ 64 →
      Vaulted o.key declared.fullPath pass.2.world := by
  intro h
  let incidents := [Incident.pass ⟨59, 500000000⟩ ∅ {},
    .pass ⟨1728059, 999999999⟩ ∅ { early := [botTenant.withVersion 3] },
    .loss (.revoke botTemplate.fullPath 3)]
  let v := sampleReconciler.runAmid botTenant.metadata.space botTenant.metadata.name botStart
    incidents
  let copy := (v.store.get? botTenant.metadata.space botTenant.metadata.name).getD default
  let last := (({ sampleReconciler with now := ⟨1728059, 1000000000⟩ } :
    Reconciler State).reconcileAmid {} copy (v.withFailures ∅))
  have hrun : v.store.get? botTenant.metadata.space botTenant.metadata.name = some copy ∧
      copy.spec.gitTemplate = some botTemplate ∧ last.1 = .ok {} ∧
      last.2.world.backend.calls.length ≤ 15 ∧
      last.2.world.store.objects[botTenant.key]?.bind (·.status.accessTokenUid) = some 2 ∧
      last.2.world.vault.get? botTemplate.fullPath = some ⟨3, secretOf 3⟩ := by
    decide +kernel
  obtain ⟨hcopy, htemplate, hok, hcalls, hstatus, hentry⟩ := hrun
  have hvault : Vaulted botTenant.key botTemplate.fullPath last.2.world :=
    h sampleReconciler botTenant copy botStart botTemplate incidents
      ⟨1728059, 1000000000⟩ ∅ {} (serves_factory sampleSite) fetched_botTenant rfl (fun _ => rfl)
      (by decide +kernel) hcopy htemplate (by decide +kernel) hok
      (Nat.le_trans hcalls (by decide +kernel))
  obtain ⟨stored, uid, hstored, huid, hsecured⟩ := hvault
  rw [hstored, Option.bind_some, huid, Option.some.injEq] at hstatus
  rw [hsecured.entry, hstatus] at hentry
  simp at hentry

end Reconciler

end ForgeSync
