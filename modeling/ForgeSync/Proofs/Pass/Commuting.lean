import ForgeSync.Proofs.Pass.Uniform

/-!
# Passes over different objects

Passes over two objects that share neither a key in the store nor a repository may change places.
The passes share the counter of the forge: whichever comes first takes the identifiers that follow
the last one, and the other those behind. So the two orders come to the same repositories, objects
and vault but for the identifiers that the passes took, which are exchanged. Where there are not
enough identifiers left for both, either order halts the program.

Main statements: `reconcile_comm` and `reconcile_not_comm`.
-/

namespace ForgeSync

open Forge.Memory

/-! ## Worlds under other identifiers -/

/-- A stored object under another identifier of its token. -/
def Owner.renamed (ρ : UInt64 → UInt64) (o : Owner) : Owner :=
  o.mapStatus fun s => { s with accessTokenUid := s.accessTokenUid.map ρ }

theorem Owner.renamed_of_fixed {ρ : UInt64 → UInt64} {o : Owner}
    (h : ∀ id, o.status.accessTokenUid = some id → ρ id = id) : o.renamed ρ = o := by
  have huid : o.status.accessTokenUid.map ρ = o.status.accessTokenUid := by
    cases hsome : o.status.accessTokenUid with
    | none => rfl
    | some id => rw [Option.map_some, h id hsome]
  rw [renamed, mapStatus, huid]

/-- A token of the vault under another identifier. -/
def StoredToken.renamed (ρ : UInt64 → UInt64) (token : StoredToken) : StoredToken :=
  ⟨ρ token.uid, renamedSecret ρ token.uid token.token⟩

theorem StoredToken.renamed_minted (ρ : UInt64 → UInt64) (uid : UInt64) :
    (⟨uid, secretOf uid⟩ : StoredToken).renamed ρ = ⟨ρ uid, secretOf (ρ uid)⟩ := by
  rw [renamed, renamedSecret_secretOf]

theorem getElem?_vaultAfter {minted : Bool} {path other : String} {uid : UInt64}
    {vault : TokenVault} :
    (vaultAfter minted path uid vault).tokens[other]? =
      if minted ∧ path = other then some ⟨uid, secretOf uid⟩ else vault.tokens[other]? := by
  cases minted with
  | false => simp [vaultAfter]
  | true => simp [vaultAfter, Std.ExtTreeMap.getElem?_insert]

/-- What is found in one world is found in the other under its new identifier, or it is found there
as it is and has the identifier that it had before. -/
def Follows {α : Type} (renamed : α → α) (uid : α → Option UInt64) (before one other : Option α) :
    Prop :=
  other = one.map renamed ∨ other = one ∧ one.map uid = before.map uid

/-- Two worlds that came from one are the same under other identifiers. -/
structure World.Alike (ρ : UInt64 → UInt64) (before one other : World State) : Prop where
  projects : ∀ path : String, other.backend.projects[path]? =
    one.backend.projects[path]?.map (Project.renamed ρ)
  vault : ∀ path : String, Follows (StoredToken.renamed ρ) (fun token => some token.uid)
    before.vault.tokens[path]? one.vault.tokens[path]? other.vault.tokens[path]?
  stored : ∀ key : String, Follows (Owner.renamed ρ) (·.status.accessTokenUid)
    before.store.objects[key]? one.store.objects[key]? other.store.objects[key]?

namespace Reconciler

variable {r : Reconciler State} {site : Site} {o first second : Owner} {path : String}
  {present : Option Project} {ρ : UInt64 → UInt64} {v w : World State}

/-! ## One pass from different identifiers on -/

section Effects

variable {e : Effect} {run run' : Except StepFailure Outcome × Pass State}

theorem Effect.Describes.lastId (h : e.Describes o path w run) :
    run.2.world.backend.lastId = w.backend.lastId + UInt64.ofNat e.taken :=
  h.backend.lastId

variable (huniform : e.Uniform o present) (h : e.Describes o path w run)
  (h' : e.Describes o path v run')
  (hshifts : Shifts ρ w.backend.lastId v.backend.lastId e.taken)
include huniform h h' hshifts

theorem Effect.project_follows (hfixed : ∀ project, present = some project →
      ∀ id ∈ project.ids, ρ id = id) :
    run'.2.world.backend.projects[path]? =
      run.2.world.backend.projects[path]?.map (Project.renamed ρ) := by
  rw [h'.backend.here, h.backend.here, huniform.project hfixed hshifts]

theorem Effect.final_shifted (hminted : e.minted = true) :
    ρ run.2.world.backend.lastId = run'.2.world.backend.lastId := by
  rw [h.lastId, h'.lastId, hshifts.final (huniform.taken_pos hminted)]

theorem Effect.vault_follows (hvault : v.vault.tokens[path]? = w.vault.tokens[path]?) :
    Follows (StoredToken.renamed ρ) (fun token => some token.uid) w.vault.tokens[path]?
      run.2.world.vault.tokens[path]? run'.2.world.vault.tokens[path]? := by
  rw [h.vault, h'.vault, getElem?_vaultAfter, getElem?_vaultAfter]
  cases hminted : e.minted with
  | false => exact .inr ⟨by simpa using hvault, by simp⟩
  | true =>
      have hfinal := Effect.final_shifted huniform h h' hshifts hminted
      refine .inl ?_
      simp only [and_self, if_true, Option.map_some, StoredToken.renamed_minted, hfinal]

theorem Effect.stored_follows (hfixed : ∀ project, present = some project →
      ∀ id ∈ project.ids, ρ id = id)
    (hcome : e.minted = true → o.status.accessTokenUid ≠ some run.2.world.backend.lastId ∧
      o.status.accessTokenUid ≠ some run'.2.world.backend.lastId) :
    Follows (Owner.renamed ρ) (·.status.accessTokenUid) (some o)
      run.2.world.store.objects[o.key]? run'.2.world.store.objects[o.key]? := by
  have hstored := huniform.stored run.2.world.backend.lastId
  rw [h.stored, h'.stored]
  cases hminted : e.minted with
  | false =>
      rw [hminted] at hstored
      rw [hstored run'.2.world.backend.lastId nofun, if_neg Bool.false_ne_true]
      cases hafter : e.stored run.2.world.backend.lastId with
      | none => exact .inl rfl
      | some after =>
          obtain hsame | ⟨project, hproject, id, hid, huid⟩ :=
            huniform.remembers hminted _ after hafter
          · exact .inr ⟨rfl, congrArg some hsame⟩
          · refine .inl ?_
            rw [Option.map_some, Owner.renamed_of_fixed]
            intro other hother
            rw [huid, Option.some.injEq] at hother
            exact hother ▸ hfixed project hproject id hid
  | true =>
      have hfinal := Effect.final_shifted huniform h h' hshifts hminted
      obtain ⟨hnew, -⟩ := hcome hminted
      have hself := hstored run.2.world.backend.lastId fun _ => ⟨hnew, hnew⟩
      have hother := hstored run'.2.world.backend.lastId hcome
      rw [hminted, if_pos rfl] at hself hother
      refine .inl ?_
      rw [hother, hself, Option.map_map, Option.map_map, ← hfinal]
      rfl

end Effects

theorem Effect.Describes.vault_other {e : Effect} {other : String}
    {run : Except StepFailure Outcome × Pass State} (h : e.Describes o path w run)
    (hne : other ≠ path) : run.2.world.vault.tokens[other]? = w.vault.tokens[other]? := by
  rw [h.vault, getElem?_vaultAfter, if_neg fun hboth => hne hboth.2.symm]

/-! ## Two objects -/

/-- Two stored objects with nothing in common, in a world that disturbs no pass over them. -/
structure Independent (site : Site) (first second : Owner) (w : World State) : Prop where
  fetched : Fetched first w
  fetched' : Fetched second w
  keys : first.key ≠ second.key
  paths : ∀ declared declared', first.spec.gitTemplate = some declared →
    second.spec.gitTemplate = some declared' → declared.fullPath ≠ declared'.fullPath
  reachable : Reachable site w.backend
  running : w.backend.halted = false
  failures : w.backend.failures = ∅
  pageSize : 0 < site.pageSize
  pageSize_lt : site.pageSize < Text.bound64
  files : ∀ (path : String) project, w.backend.projects[path]? = some project →
    2 * project.files.size ≤ Text.bound64

namespace Independent

theorem symm (h : Independent site first second w) : Independent site second first w where
  fetched := h.fetched'
  fetched' := h.fetched
  keys := h.keys.symm
  paths declared declared' hdeclared hdeclared' :=
    (h.paths declared' declared hdeclared' hdeclared).symm
  reachable := h.reachable
  running := h.running
  failures := h.failures
  pageSize := h.pageSize
  pageSize_lt := h.pageSize_lt
  files := h.files

/-- An object without a template has whatever path one likes. -/
theorem exists_paths (h : Independent site first second w) :
    ∃ path path' : String, path ≠ path' ∧
      (∀ declared, first.spec.gitTemplate = some declared → declared.fullPath = path) ∧
      ∀ declared, second.spec.gitTemplate = some declared → declared.fullPath = path' := by
  have hpaths := h.paths
  have hlonger : ∀ path : String, path ++ "/" ≠ path := by
    intro path hsame
    have hlength := congrArg String.length hsame
    rw [String.length_append] at hlength
    exact absurd hlength (by simp)
  cases hfirst : first.spec.gitTemplate with
  | none =>
      cases hsecond : second.spec.gitTemplate with
      | none => exact ⟨"", "/", by decide, nofun, nofun⟩
      | some declared => exact ⟨_, declared.fullPath, hlonger _, nofun, by simp⟩
  | some declared =>
      cases hsecond : second.spec.gitTemplate with
      | none => exact ⟨declared.fullPath, _, (hlonger _).symm, by simp, nofun⟩
      | some declared' =>
          exact ⟨_, _, hpaths declared declared' hfirst hsecond, by simp, by simp⟩

theorem scene (h : Independent site first second w) (path : String) :
    Scene site first path w.backend.projects[path]? w.secrets w where
  stored := h.fetched.stored
  faults := h.fetched.faults
  secrets_eq := rfl
  failures := h.failures
  here := rfl
  hosts _ hproject := h.reachable.hosts hproject
  listable project hproject := .inr ⟨h.pageSize, h.pageSize_lt, h.files path project hproject⟩

/-- A pass over the other object changes nothing for the pass over this one. -/
theorem scene_after (h : Independent site first second w) {other : String} (hne : path ≠ other)
    {e : Effect} (hroom : w.backend.lastId.toNat + e.taken < 2 ^ 64)
    (hdescribes : e.Describes second other w (r.reconcile second w)) :
    Scene site first path w.backend.projects[path]? w.secrets (r.reconcile second w).2.world where
  stored := (hdescribes.others first.key h.keys).trans h.fetched.stored
  faults := (along_reconcile r second w).faults.trans h.fetched.faults
  secrets_eq := (along_reconcile r second w).secrets
  failures := hdescribes.backend.failures.trans h.failures
  here := hdescribes.backend.others path hne
  hosts project hproject := by
    obtain ⟨-, hdistinct, hnumbered⟩ := h.reachable.hosts hproject
    refine ⟨(hdescribes.backend.others path hne).trans hproject, hdistinct, fun key hkey => ?_⟩
    rw [hdescribes.lastId, toNat_add_ofNat hroom]
    exact Nat.le_add_right_of_le (hnumbered key hkey)
  listable project hproject := .inr ⟨h.pageSize, h.pageSize_lt, h.files path project hproject⟩

end Independent

/-! ## Both orders -/

/-- The effects of passes over two objects, in both orders. -/
structure Crossed (r : Reconciler State) (first second : Owner) (path path' : String)
    (e e' : Effect) (w : World State) : Prop where
  paths : path ≠ path'
  keys : first.key ≠ second.key
  one : e.Describes first path w (r.reconcile first w)
  oneTwo : e'.Describes second path' (r.reconcile first w).2.world
    (r.reconcile second (r.reconcile first w).2.world)
  two : e'.Describes second path' w (r.reconcile second w)
  twoOne : e.Describes first path (r.reconcile second w).2.world
    (r.reconcile first (r.reconcile second w).2.world)

namespace Crossed

variable {e e' : Effect} {path' : String}

theorem symm (h : Crossed r first second path path' e e' w) :
    Crossed r second first path' path e' e w :=
  ⟨h.paths.symm, h.keys.symm, h.two, h.twoOne, h.one, h.oneTwo⟩

theorem lastId (h : Crossed r first second path path' e e' w) :
    (r.reconcile second (r.reconcile first w).2.world).2.world.backend.lastId =
      w.backend.lastId + UInt64.ofNat (e.taken + e'.taken) := by
  rw [h.oneTwo.lastId, h.one.lastId, UInt64.ofNat_add, UInt64.add_assoc]

theorem halted (h : Crossed r first second path path' e e' w) :
    (r.reconcile second (r.reconcile first w).2.world).2.world.backend.halted =
      w.backend.haltsBy (e.taken + e'.taken) := by
  rw [h.oneTwo.backend.halted, haltsBy_add h.one.lastId h.one.backend.halted]

/-- The identifiers that the passes take are exchanged, and no other ones. -/
theorem alike (h : Crossed r first second path path' e e' w)
    (huniform : e.Uniform first w.backend.projects[path]?)
    (huniform' : e'.Uniform second w.backend.projects[path']?)
    (hfetched : Fetched first w) (hfetched' : Fetched second w)
    (hpresent : ∀ (q : String) project, w.backend.projects[q]? = some project →
      ∀ id ∈ project.ids, ρ id = id)
    (hshifts : Shifts ρ w.backend.lastId (r.reconcile second w).2.world.backend.lastId e.taken)
    (hshifts' : Shifts ρ (r.reconcile first w).2.world.backend.lastId w.backend.lastId e'.taken)
    (hfresh : ∀ n, 0 < n → n ≤ e.taken + e'.taken →
      (e.minted = true → first.status.accessTokenUid ≠ some (w.backend.lastId + UInt64.ofNat n)) ∧
      (e'.minted = true →
        second.status.accessTokenUid ≠ some (w.backend.lastId + UInt64.ofNat n))) :
    World.Alike ρ w (r.reconcile second (r.reconcile first w).2.world).2.world
      (r.reconcile first (r.reconcile second w).2.world).2.world where
  projects q := by
    by_cases hq : q = path
    · rw [hq, h.oneTwo.backend.others path h.paths]
      exact Effect.project_follows huniform h.one h.twoOne hshifts (hpresent path)
    by_cases hq' : q = path'
    · rw [hq', h.twoOne.backend.others path' h.paths.symm]
      exact Effect.project_follows huniform' h.oneTwo h.two hshifts' (hpresent path')
    rw [h.oneTwo.backend.others q hq', h.one.backend.others q hq, h.twoOne.backend.others q hq,
      h.two.backend.others q hq']
    cases hproject : w.backend.projects[q]? with
    | none => rfl
    | some project => rw [Option.map_some, Project.renamed_of_fixed (hpresent q project hproject)]
  vault q := by
    by_cases hq : q = path
    · rw [hq, h.oneTwo.vault_other h.paths]
      exact Effect.vault_follows huniform h.one h.twoOne hshifts (h.two.vault_other h.paths)
    by_cases hq' : q = path'
    · rw [hq', h.twoOne.vault_other h.paths.symm, ← h.one.vault_other h.paths.symm]
      exact Effect.vault_follows huniform' h.oneTwo h.two hshifts'
        (h.one.vault_other h.paths.symm).symm
    rw [h.oneTwo.vault_other hq', h.one.vault_other hq, h.twoOne.vault_other hq,
      h.two.vault_other hq']
    exact .inr ⟨rfl, rfl⟩
  stored key := by
    by_cases hkey : key = first.key
    · rw [hkey, h.oneTwo.others _ h.keys, hfetched.stored]
      refine Effect.stored_follows huniform h.one h.twoOne hshifts (hpresent path) fun hminted => ?_
      have hpos := huniform.taken_pos hminted
      rw [h.symm.lastId, h.one.lastId]
      exact ⟨(hfresh _ hpos (by omega)).1 hminted, (hfresh _ (by omega) (by omega)).1 hminted⟩
    by_cases hkey' : key = second.key
    · rw [hkey', h.twoOne.others _ h.keys.symm, hfetched'.stored]
      refine Effect.stored_follows huniform' h.oneTwo h.two hshifts' (hpresent path')
        fun hminted => ?_
      have hpos := huniform'.taken_pos hminted
      rw [h.lastId, h.two.lastId]
      exact ⟨(hfresh _ (by omega) (by omega)).2 hminted, (hfresh _ hpos (by omega)).2 hminted⟩
    rw [h.oneTwo.others key hkey', h.one.others key hkey, h.twoOne.others key hkey,
      h.two.others key hkey']
    exact .inr ⟨rfl, rfl⟩

end Crossed

/-- A pass does not set the program going again. -/
theorem onward_reconcile (hserves : r.registry.Serves (forge site)) (o : Owner)
    (w : World State) : Onward w.backend (r.reconcile o w).2.world.backend :=
  (moves_reconcile onward_chains r o w fun _ _ _ _ haccess => by
    obtain rfl := haccess.forge_eq hserves
    exact (respects_onward site).mono fun _ _ => trivial).backend

/-- The effects of the passes over two objects, wherever they are undisturbed. -/
structure Paired (r : Reconciler State) (site : Site) (first second : Owner) (path path' : String)
    (e e' : Effect) (w : World State) : Prop where
  paths : path ≠ path'
  uniform : e.Uniform first w.backend.projects[path]?
  uniform' : e'.Uniform second w.backend.projects[path']?
  governs : ∀ v, Scene site first path w.backend.projects[path]? w.secrets v →
    e.Governs first path v (r.reconcile first v)
  governs' : ∀ v, Scene site second path' w.backend.projects[path']? w.secrets v →
    e'.Governs second path' v (r.reconcile second v)

namespace Paired

variable {e e' : Effect} {path' : String}

theorem symm (h : Paired r site first second path path' e e' w) :
    Paired r site second first path' path e' e w :=
  ⟨h.paths.symm, h.uniform', h.uniform, h.governs', h.governs⟩

variable (h : Paired r site first second path path' e e' w)
  (hindependent : Independent site first second w)
include h hindependent

/-- What a pass comes to behind the one over the other object. -/
theorem governs_behind (hroom : w.backend.lastId.toNat + e.taken < 2 ^ 64) :
    e.Describes first path w (r.reconcile first w) ∧ Fetched second (r.reconcile first w).2.world ∧
      e'.Governs second path' (r.reconcile first w).2.world
        (r.reconcile second (r.reconcile first w).2.world) := by
  have hdescribes := (h.governs w (hindependent.scene path)).describes hroom
  have hscene := hindependent.symm.scene_after h.paths.symm hroom hdescribes
  exact ⟨hdescribes, hscene.toFetched, h.governs' _ hscene⟩

/-- With identifiers enough for both passes, they have their effects in both orders. -/
theorem crossed (hroom : w.backend.lastId.toNat + (e.taken + e'.taken) < 2 ^ 64) :
    Crossed r first second path path' e e' w ∧ Fetched second (r.reconcile first w).2.world ∧
      Fetched first (r.reconcile second w).2.world := by
  obtain ⟨hone, hfetched, hbehind⟩ := h.governs_behind hindependent (by omega)
  obtain ⟨htwo, hfetched', hbehind'⟩ := h.symm.governs_behind hindependent.symm (by omega)
  refine ⟨⟨h.paths, hindependent.keys, hone, hbehind.describes ?_, htwo, hbehind'.describes ?_⟩,
    hfetched, hfetched'⟩
  · rw [hone.lastId, toNat_add_ofNat (by omega)]
    omega
  · rw [htwo.lastId, toNat_add_ofNat (by omega)]
    omega

/-- Both orders then come to the same, but for who takes which identifiers, if no object remembers
one of these already. -/
theorem alike (hroom : w.backend.lastId.toNat + (e.taken + e'.taken) < 2 ^ 64)
    (hnew : ∀ o, o = first ∨ o = second → WantsToken o → ∀ n, 0 < n → n ≤ e.taken + e'.taken →
      o.status.accessTokenUid ≠ some (w.backend.lastId + UInt64.ofNat n)) :
    World.Alike (exchanged w.backend.lastId e.taken e'.taken) w
      (r.reconcile second (r.reconcile first w).2.world).2.world
      (r.reconcile first (r.reconcile second w).2.world).2.world := by
  obtain ⟨hcrossed, -, -⟩ := h.crossed hindependent hroom
  rw [← Nat.add_assoc] at hroom
  refine hcrossed.alike h.uniform h.uniform' hindependent.fetched hindependent.fetched' ?_ ?_ ?_ ?_
  · exact fun q project hproject id hid =>
      exchanged_of_le (hindependent.reachable.given q project hproject id hid)
  · exact hcrossed.two.lastId ▸ shifts_exchanged_first hroom
  · exact hcrossed.one.lastId ▸ shifts_exchanged_second hroom
  · exact fun n hpos hle =>
      ⟨fun hminted => hnew first (.inl rfl) (h.uniform.wanted hminted) n hpos hle,
        fun hminted => hnew second (.inr rfl) (h.uniform'.wanted hminted) n hpos hle⟩

/-- Without identifiers enough for both, the program halts in the first pass or in the second. -/
theorem halted (hserves : r.registry.Serves (forge site))
    (hover : 2 ^ 64 ≤ w.backend.lastId.toNat + (e.taken + e'.taken)) :
    (r.reconcile second (r.reconcile first w).2.world).2.world.backend.halted = true := by
  by_cases hroom : w.backend.lastId.toNat + e.taken < 2 ^ 64
  · obtain ⟨hone, -, hbehind⟩ := h.governs_behind hindependent hroom
    apply hbehind.halts
    rw [hone.lastId, toNat_add_ofNat hroom]
    omega
  · have hone := (h.governs w (hindependent.scene path)).halts (Nat.not_lt.1 hroom)
    exact (onward_reconcile hserves _ _).halted hone

end Paired

theorem Independent.exists_paired (hserves : r.registry.Serves (forge site))
    (h : Independent site first second w) :
    ∃ path path' e e', Paired r site first second path path' e e' w := by
  obtain ⟨path, path', hne, hpath, hpath'⟩ := h.exists_paths
  obtain ⟨e, huniform, hgoverns⟩ :=
    exists_effect r hserves first path hpath w.backend.projects[path]? w.secrets
  obtain ⟨e', huniform', hgoverns'⟩ :=
    exists_effect r hserves second path' hpath' w.backend.projects[path']? w.secrets
  exact ⟨path, path', e, e', hne, huniform, huniform', hgoverns, hgoverns'⟩

/-! ## Main statement -/

/-- Passes over two objects with nothing in common may change places: either order halts the
program, or neither does. Then both orders come to the same outcomes, and to the same repositories,
stored objects and vault up to other identifiers, where none of those that a pass takes is one that
an object remembers already. -/
theorem reconcile_comm (hserves : r.registry.Serves (forge site))
    (h : Independent site first second w) :
    let one := r.reconcile first w
    let oneTwo := r.reconcile second one.2.world
    let two := r.reconcile second w
    let twoOne := r.reconcile first two.2.world
    let taken id := w.backend.lastId < id ∧ id ≤ oneTwo.2.world.backend.lastId
    (∀ o, o = first ∨ o = second → WantsToken o →
      ∀ uid, o.status.accessTokenUid = some uid → ¬ taken uid) →
    oneTwo.2.world.backend.halted = true ∧ twoOne.2.world.backend.halted = true ∨
      oneTwo.2.world.backend.halted = false ∧ twoOne.2.world.backend.halted = false ∧
      Fetched second one.2.world ∧ Fetched first two.2.world ∧
      twoOne.1 = one.1 ∧ two.1 = oneTwo.1 ∧
      ∃ ρ : UInt64 → UInt64, Function.Injective ρ ∧ (∀ id, ¬ taken id → ρ id = id) ∧
        World.Alike ρ w oneTwo.2.world twoOne.2.world := by
  intro one oneTwo two twoOne taken huids
  obtain ⟨path, path', e, e', hpaired⟩ := h.exists_paired (r := r) hserves
  by_cases hover : 2 ^ 64 ≤ w.backend.lastId.toNat + (e.taken + e'.taken)
  · exact .inl ⟨hpaired.halted h hserves hover,
      hpaired.symm.halted h.symm hserves (by rwa [Nat.add_comm e'.taken])⟩
  have hroom := Nat.not_le.1 hover
  obtain ⟨hcrossed, hfetched, hfetched'⟩ := hpaired.crossed h hroom
  have hgoes : oneTwo.2.world.backend.halted = false :=
    (hcrossed.halted.trans (haltsBy_of_lt hroom)).trans h.running
  have hgoes' : twoOne.2.world.backend.halted = false :=
    (hcrossed.symm.halted.trans (haltsBy_of_lt (by omega))).trans h.running
  have htaken : ∀ id, taken id ↔ w.backend.lastId.toNat < id.toNat ∧
      id.toNat ≤ w.backend.lastId.toNat + (e.taken + e'.taken) := fun id => by
    dsimp only [taken, oneTwo, one]
    rw [hcrossed.lastId, UInt64.lt_iff_toNat_lt, UInt64.le_iff_toNat_le, toNat_add_ofNat hroom]
  have halike := hpaired.alike h hroom fun o ho hwants n hpos hle huid =>
    huids o ho hwants _ huid ((htaken _).2 (by rw [toNat_add_ofNat (by omega)]; omega))
  rw [← Nat.add_assoc] at hroom
  refine .inr ⟨hgoes, hgoes', hfetched, hfetched',
    hcrossed.twoOne.outcome.trans hcrossed.one.outcome.symm,
    hcrossed.two.outcome.trans hcrossed.oneTwo.outcome.symm,
    exchanged w.backend.lastId e.taken e'.taken, exchanged_injective hroom, fun id hid => ?_,
    halike⟩
  rw [htaken] at hid
  by_cases hle : id ≤ w.backend.lastId
  · exact exchanged_of_le hle
  · rw [UInt64.le_iff_toNat_le] at hle
    exact exchanged_of_lt (by omega)

/-- A tenant that has just been stored with a template. -/
def tenantOf (name : String) (template : Descriptor) : Owner where
  metadata := { name, space := "ns", resourceVersion := 1 }
  spec.gitTemplate := some template

/-- A world that stores two tenants `t` and `u`, whose secrets lead to one forge. -/
def worldOf (backend : State) (first second : Owner) : World State :=
  let data : Table String :=
    Std.ExtTreeMap.ofList [("endpoint", "memory://git.example"), ("token", "x")]
  { secrets := (({} : SecretSource).insert "ns" "t" data).insert "ns" "u" data
    store := ((({} : ObjectStore).insert first).2.insert second).2
    backend }

/-- A tenant whose repository has an access token. -/
def tokenBearer : Owner :=
  tenantOf "t" { path := "acme", repoName := "r", accessToken := some "bot" }

/-- A tenant with a repository of its own. -/
def neighbour : Owner :=
  tenantOf "u" { path := "acme", repoName := "s" }

/-- Both passes create a repository, and one of them a token. -/
theorem reconcile_comm_neighbours :
    let w := worldOf {} tokenBearer neighbour
    let oneTwo := sampleReconciler.reconcile neighbour
      (sampleReconciler.reconcile tokenBearer w).2.world
    let twoOne := sampleReconciler.reconcile tokenBearer
      (sampleReconciler.reconcile neighbour w).2.world
    oneTwo.2.world.backend.halted = false ∧ twoOne.2.world.backend.halted = false ∧
      ∃ ρ : UInt64 → UInt64,
        Function.Injective ρ ∧ World.Alike ρ w oneTwo.2.world twoOne.2.world := by
  intro w oneTwo twoOne
  have hindependent : Independent sampleSite tokenBearer neighbour w :=
    { fetched := ⟨by decide +kernel, rfl⟩
      fetched' := ⟨by decide +kernel, rfl⟩
      keys := by decide +kernel
      paths := fun declared declared' hdeclared hdeclared' => by
        obtain rfl := Option.some.inj hdeclared
        obtain rfl := Option.some.inj hdeclared'
        decide +kernel
      reachable := .start
      running := rfl
      failures := rfl
      pageSize := by decide
      pageSize_lt := by decide
      files := fun _ _ hproject => by simp [w, worldOf] at hproject }
  obtain ⟨hhalted, -⟩ | ⟨hgoes, hgoes', -, -, -, -, ρ, hinjective, -, halike⟩ :=
    reconcile_comm (r := sampleReconciler) (serves_factory sampleSite) hindependent
      (by rintro o (rfl | rfl) _ uid huid <;> cases huid)
  · have hgoes : oneTwo.2.world.backend.halted = false := by decide +kernel
    exact absurd (hgoes.symm.trans hhalted) Bool.false_ne_true
  · exact ⟨hgoes, hgoes', ρ, hinjective, halike⟩

/-- A forge with the bare repository of the tenant. -/
def bareForge : State :=
  ({} : State).seedProject sampleSite "acme/r"

theorem files_bareForge (path : String) (project : Project)
    (h : bareForge.projects[path]? = some project) : project.files.size = 0 := by
  rw [bareForge, State.seedProject, projects_put, Std.ExtTreeMap.getElem?_insert] at h
  split at h
  · rw [← Option.some.inj h]
    rfl
  · simp at h

/-- The world after a pass over the tenant, on a forge that has been reset to what it was before. -/
def resetWorld : World State :=
  { (sampleReconciler.reconcile tokenBearer (worldOf bareForge tokenBearer neighbour)).2.world with
    backend := bareForge }

/-- The tenant as it is stored there: it remembers a token that is still to come. -/
def foreseeing : Owner :=
  (resetWorld.store.get? "ns" "t").getD tokenBearer

/-- The passes may not change places everywhere, even if the program does not halt. Where an object
remembers a token that is still to come, the pass that comes first mints it and has nothing to
store, while the one that comes second mints another. -/
theorem reconcile_not_comm :
    ¬ ∀ (r : Reconciler State) (first second : Owner) (w : World State),
      r.registry.Serves (forge sampleSite) → Independent sampleSite first second w →
      let oneTwo := r.reconcile second (r.reconcile first w).2.world
      let twoOne := r.reconcile first (r.reconcile second w).2.world
      oneTwo.2.world.backend.halted = false → twoOne.2.world.backend.halted = false →
      ∃ ρ : UInt64 → UInt64, World.Alike ρ w oneTwo.2.world twoOne.2.world := by
  intro h
  have hpath : foreseeing.spec.gitTemplate.map (·.fullPath) = some "acme/r" := by decide +kernel
  obtain ⟨ρ, -, -, hstored⟩ := h sampleReconciler foreseeing neighbour resetWorld
    (serves_factory sampleSite)
    { fetched := ⟨by decide +kernel, by decide +kernel⟩
      fetched' := ⟨by decide +kernel, by decide +kernel⟩
      keys := by decide +kernel
      paths := fun declared declared' hdeclared hdeclared' => by
        obtain rfl := Option.some.inj hdeclared'
        rw [hdeclared, Option.map_some, Option.some.injEq] at hpath
        rw [hpath]
        decide +kernel
      reachable := reachable_foldl [.seedProject "acme/r"] (by decide +kernel)
      running := by decide +kernel
      failures := by decide +kernel
      pageSize := by decide
      pageSize_lt := by decide
      files := fun path project hproject => by
        rw [files_bareForge path project hproject]
        exact Nat.zero_le _ }
    (by decide +kernel) (by decide +kernel)
  have hsame : ((sampleReconciler.reconcile neighbour (sampleReconciler.reconcile foreseeing
      resetWorld).2.world).2.world.store.objects["ns/t"]?).map (·.metadata.resourceVersion) =
      some 3 := by
    decide +kernel
  have hnext : ((sampleReconciler.reconcile foreseeing (sampleReconciler.reconcile neighbour
      resetWorld).2.world).2.world.store.objects["ns/t"]?).map (·.metadata.resourceVersion) =
      some 4 := by
    decide +kernel
  have hversion : (fun o : Owner => o.metadata.resourceVersion) ∘ Owner.renamed ρ =
      fun o => o.metadata.resourceVersion :=
    rfl
  rcases hstored "ns/t" with hrenamed | ⟨hequal, -⟩
  · rw [hrenamed, Option.map_map, hversion, hsame] at hnext
    cases hnext
  · rw [hequal, hsame] at hnext
    cases hnext

end Reconciler

end ForgeSync
