import ForgeSync.Proofs.Pass.Arrival
import ForgeSync.Proofs.Pass.Orphans

/-!
# The second pass

A pass that has succeeded leaves nothing to do: a second one at the same time stores nothing. Nor
does it make a call that may change something, unless a deploy key of the template does not come
back from its line as it is; such a key is replaced in every pass. Each of the passes needs
identifiers to be left for the deploy keys, else the program halts in it.

Main statements: `second_pass_settled` and `second_pass_halts`.
-/

namespace ForgeSync

open Forge.Memory

/-- A log that grew by calls of which none may change something. -/
theorem Forge.Memory.mutations_eq_iff {s t : State} {new : List Forge.Call}
    (h : t.calls = s.calls ++ new) :
    t.mutations = s.mutations ↔ ∀ call ∈ new, call.isMutating = false := by
  rw [State.mutations, State.mutations, h, List.countP_append]
  simp [List.countP_eq_zero]

namespace Convergence

theorem createdStatus_createdStatus (site : Site) (connection : Connection) (repo : Descriptor)
    (status : RepoStatus) (first second : Option UInt64) :
    createdStatus site connection repo (createdStatus site connection repo status first) second =
      createdStatus site connection repo status second := by
  simp only [createdStatus, appliedAim_appliedAim]

theorem Access.connection_eq {σ : Type} {c : Convergence σ} {o : Owner} {w : World σ}
    {repo other : Descriptor} {connection connection' : Connection} {forge forge' : Forge σ}
    (h : Access c o w repo connection forge) (h' : Access c o w other connection' forge') :
    connection' = connection := by
  obtain ⟨data, hdata, hconnection⟩ := h.secret
  obtain ⟨data', hdata', hconnection'⟩ := h'.secret
  obtain rfl := Option.some.inj (hdata.symm.trans hdata')
  exact Except.ok.inj (hconnection'.symm.trans hconnection)

end Convergence

namespace Reconciler

variable {r : Reconciler State} {site : Site} {connection : Connection} {repo : Descriptor}
  {o : Owner} {w : World State} {q : Pass State} {next : RepoStatus} {after : Project}

/-! ## Objects without a template -/

theorem reconcile_of_no_template (hfetched : Fetched o w) (hliving : o.isDeleting = false)
    (hnone : o.spec.gitTemplate = none) :
    ∃ q version, r.reconcile o w = (.ok {}, q) ∧ q.world.backend = w.backend ∧
      q.world.store.objects[o.key]? = some ((o.mapMeta r.keptMeta).withVersion version) ∧
      (r.keptMeta o.metadata = o.metadata → q.world.store = w.store) := by
  have hopening : (r.opening o w).object.spec = o.spec ∧
      (r.opening o w).object.status = o.status := by
    rw [opening, admitted_of_living hliving]
    exact ⟨rfl, rfl⟩
  obtain ⟨q, hreconcile, hcompleted⟩ := completed_of_work hfetched (by simp [hliving])
    (Convergence.converge_of_no_template (c := r.convergence) (p := r.opening o w)
      (by rw [hopening.1, hnone]))
  have hobject : (r.finalized o (r.opening o w)).object = o.mapMeta r.keptMeta := by
    rw [Owner.mapMeta, ← hcompleted.metadata hliving, ← hopening.1, ← hopening.2]
    dsimp only [finalized, Owner.mapMeta]
  obtain ⟨version, hstored⟩ := hcompleted.present hliving
  rw [hobject] at hstored
  refine ⟨q, version, hreconcile, ?_, hstored, fun hsame => ?_⟩
  · rw [hcompleted.closed.world, finalized_world]
    rfl
  · have hunchanged : (r.finalized o (r.opening o w)).object = o := by
      rw [hobject, Owner.mapMeta, hsame]
    rw [hcompleted.closed.unchanged hunchanged, finalized_world]
    rfl

/-! ## Objects that have arrived -/

theorem completed_arrival (htemplate : r.convergence.completed o = some repo) (status : RepoStatus)
    (version : Nat) :
    r.convergence.completed ((r.arrival repo o status).withVersion version) = some repo := by
  rw [← Convergence.completed_withTemplate htemplate]
  exact Convergence.completed_congr rfl

theorem kin_arrival (htemplate : r.convergence.completed o = some repo) (status : RepoStatus)
    (version : Nat) : r.convergence.Kin o ((r.arrival repo o status).withVersion version) :=
  ⟨rfl, rfl, rfl, (completed_arrival htemplate status version).trans htemplate.symm⟩

/-- A pass without failures on what a complete pass has stored succeeds and stores nothing. -/
theorem Arrived.second (h : Arrived r site connection repo o w q next after)
    (hserves : r.registry.Serves (forge site)) (hfetched : Fetched o w)
    (hliving : o.isDeleting = false) (hfit : Fit site repo w.backend)
    (hroom : w.backend.lastId.toNat + 2 * (repo.deployKeys.size + 2) < 2 ^ 64)
    (hnone : w.backend.failures = ∅) (halong : Pass.Along (fun _ _ => True) (r.opening o w) q)
    {stored : Owner} (hstored : q.world.store.objects[o.key]? = some stored) :
    ∃ v, r.reconcile stored q.world = (.ok {}, v) ∧ v.world.backend.halted = w.backend.halted ∧
      v.world.store = q.world.store ∧
      (v.world.backend.mutations = q.world.backend.mutations ↔ repo.KeysSettled) := by
  have htemplate := h.access.template
  have hspends := h.landed.spends
  have hlast := hspends.le_lastId
  have hfaults : q.world.faults = {} := halong.faults.trans hfetched.faults
  obtain ⟨version, hversion⟩ := h.stored
  obtain rfl := Option.some.inj (hversion.symm.trans hstored)
  have haccess := h.access.of_kin (kin_arrival htemplate next version) halong.secrets hfaults
  have hfound := h.landed.hosts.found
  have hagain : Fetched ((r.arrival repo o next).withVersion version) q.world :=
    ⟨hstored, hfaults⟩
  obtain ⟨v, connection', next', after', hreconcile, harrived⟩ | ⟨_, _, _, hstranded⟩ :=
    reconcile_living hserves hagain hliving
      (completed_arrival htemplate next version) (h.landed.fit hfit) (by omega)
  · obtain rfl := haccess.connection_eq harrived.access
    have hrested := h.landed.filled.rested
    have horigin : origin site repo q.world.backend = after := origin_of_some hfound
    have hfilled : r.convergence.Filled site connection' repo next next' after after' :=
      horigin ▸ harrived.landed.filled
    have hnext : next' = next := by
      have hcreated := h.landed.filled.created
      calc next' = Convergence.createdStatus site connection' repo next next'.accessTokenUid :=
            hfilled.created
        _ = Convergence.createdStatus site connection' repo
              (Convergence.createdStatus site connection' repo o.status next.accessTokenUid)
              next.accessTokenUid := by rw [hfilled.again hrested, ← hcreated]
        _ = next := (Convergence.createdStatus_createdStatus ..).trans hcreated.symm
    refine ⟨v, hreconcile, harrived.landed.spends.halted.trans hspends.halted,
      harrived.unchanged ?_, ?_⟩
    · rw [hnext, arrival_arrival]
    · exact harrived.landed.quiet after hfound hrested h.landed.filled.carries
  · exact (hstranded.cause ⟨connection, haccess⟩ (mayStart_of_some hfound)
      (hspends.failures.trans hnone)).elim

/-! ## Main statement -/

/-- After a pass that succeeded, a second one at the same time succeeds, without halting the
program, and leaves the store as it is. It makes no call that may change something exactly if the
object has no template, or each of its deploy keys comes back from its line as it is. -/
theorem second_pass_settled (hserves : r.registry.Serves (forge site))
    (hreachable : Reachable site w.backend) (hruns : w.backend.halted = false)
    (hnone : w.backend.failures = ∅) (hfetched : Fetched o w) (hliving : o.isDeleting = false)
    (hroomy : ∀ declared, o.spec.gitTemplate = some declared → Roomy site declared 2 w.backend)
    (hok : (r.reconcile o w).1 = .ok { requeue := false }) :
    ∃ stored v new, (r.reconcile o w).2.world.store.objects[o.key]? = some stored ∧
      r.reconcile stored (r.reconcile o w).2.world = (.ok { requeue := false }, v) ∧
      v.world.backend.halted = false ∧ v.world.store = (r.reconcile o w).2.world.store ∧
      v.world.backend.calls = (r.reconcile o w).2.world.backend.calls ++ new ∧
      ((∀ call ∈ new, call.isMutating = false) ↔
        ∀ declared, o.spec.gitTemplate = some declared → ∀ title k,
          (title, k) ∈ declared.deployKeys.toList →
            DeployKey.ofAuthorizedKey k.authorizedKey k.writeAccess = k) := by
  have halong := along_reconcile r o w
  cases htemplate : o.spec.gitTemplate with
  | none =>
      obtain ⟨q, version, hreconcile, hfirst, hstored, -⟩ :=
        reconcile_of_no_template (r := r) hfetched hliving htemplate
      rw [hreconcile] at halong ⊢
      obtain ⟨v, -, hagain, hbackend, -, hunchanged⟩ := reconcile_of_no_template (r := r)
        (o := (o.mapMeta r.keptMeta).withVersion version) (w := q.world)
        ⟨hstored, halong.faults.trans hfetched.faults⟩ hliving htemplate
      exact ⟨_, v, [], hstored, hagain, by rw [hbackend, hfirst, hruns],
        hunchanged (keptMeta_idem r o.metadata version), by rw [hbackend, List.append_nil],
        by simp⟩
  | some declared =>
      have hcompleted := completed_of_template (r := r) htemplate
      have hroomy := (hroomy declared htemplate).completed o r.settings.defaultDeletionPolicy
        r.settings.defaultCreationPolicy
      have hids := hroomy.ids
      have hfit := hreachable.fit hroomy
      obtain ⟨q, connection, next, after, hreconcile, harrived⟩ | ⟨failure, q, hreconcile, -⟩ :=
        reconcile_living hserves hfetched hliving hcompleted hfit (by omega)
      · rw [hreconcile] at halong ⊢
        obtain ⟨version, hstored⟩ := harrived.stored
        obtain ⟨v, hagain, hhalted, hstore, hquiet⟩ :=
          harrived.second hserves hfetched hliving hfit hids hnone halong hstored
        obtain ⟨new, hnew, -⟩ := moves_reconcile_of_serves (Logs.chains fun _ => True) hserves
          (w := q.world) (completed_arrival hcompleted next version)
          ((respects_logs site fun _ => True).mono fun _ _ => trivial)
        rw [hagain] at hnew
        refine ⟨_, v, new, hstored, hagain, hhalted.trans hruns, hstore, hnew, ?_⟩
        rw [← mutations_eq_iff hnew, hquiet]
        simp [Descriptor.KeysSettled, DeployKey.IsSettled, completedTemplate]
      · rw [hreconcile] at hok
        cases hok

theorem keysSettled_sampleTenant (declared : Descriptor)
    (h : sampleTenant.spec.gitTemplate = some declared) : declared.KeysSettled := by
  obtain rfl := Option.some.inj h
  decide +kernel

/-- The tenant's one deploy key comes back as it is, so its second pass only reads. -/
theorem second_pass_settled_sampleTenant :
    let first := (sampleReconciler.reconcile sampleTenant sampleStart).2.world
    ∃ stored v new, first.store.objects["ns/t"]? = some stored ∧
      sampleReconciler.reconcile stored first = (.ok { requeue := false }, v) ∧
      v.world.backend.halted = false ∧ v.world.store = first.store ∧
      v.world.backend.calls = first.backend.calls ++ new ∧
      ∀ call ∈ new, call.isMutating = false := by
  obtain ⟨stored, v, new, hstored, hagain, hgoes, hstore, hcalls, hquiet⟩ :=
    second_pass_settled (r := sampleReconciler) (o := sampleTenant) (w := sampleStart)
      (serves_factory sampleSite) .start rfl rfl fetched_sampleTenant rfl
      (fun declared hdeclared => by
        obtain rfl := Option.some.inj hdeclared
        exact ⟨by decide +kernel, by decide, by decide, by decide +kernel⟩)
      (by decide +kernel)
  exact ⟨stored, v, new, hstored, hagain, hgoes, hstore, hcalls,
    hquiet.2 keysSettled_sampleTenant⟩

/-- A forge on which one identifier is left. -/
def almostSpent : State :=
  let token : AccessTokenRecord :=
    { uid := 18446744073709551614, name := "last", active := true, revoked := false
      expiresAt := ⟨0, 0⟩ }
  [.seedProject "acme/r", .seedToken "acme/none" token].foldl (State.play sampleSite) {}

/-- A tenant whose deploy key does not come back from its line as it is. -/
def restlessTenant : Owner where
  metadata := { name := "t", space := "ns", resourceVersion := 1 }
  spec.gitTemplate := some
    { path := "acme"
      repoName := "r"
      deployKeys := .ofList [("ci", (⟨"ssh-ed25519", "AAAA bot", false⟩ : DeployKey))] }

/-- The restless tenant, stored, on that forge. -/
def restlessStart : World State :=
  { sampleWorld almostSpent with store := (({} : ObjectStore).insert restlessTenant).2 }

theorem fetched_restlessTenant : Fetched restlessTenant restlessStart :=
  ⟨by decide +kernel, rfl⟩

/-- A second pass does not succeed on every forge that can be arranged. Where the first one takes
the last identifier for a deploy key, the second one, which replaces that key, halts the program. -/
theorem second_pass_halts :
    ¬ ∀ (r : Reconciler State) (deeds : List Deed) (o : Owner) (w : World State),
      r.registry.Serves (forge sampleSite) →
      w.backend = deeds.foldl (State.play sampleSite) {} → w.backend.halted = false →
      w.backend.failures = ∅ → Fetched o w → o.isDeleting = false →
      (r.reconcile o w).1 = .ok { requeue := false } →
      (r.reconcile o w).2.world.backend.halted = false →
      ∃ stored v, (r.reconcile o w).2.world.store.objects[o.key]? = some stored ∧
        r.reconcile stored (r.reconcile o w).2.world = (.ok { requeue := false }, v) ∧
        v.world.backend.halted = false := by
  intro h
  let first := (sampleReconciler.reconcile restlessTenant restlessStart).2.world
  obtain ⟨stored, v, hstored, hagain, hgoes⟩ := h sampleReconciler _ restlessTenant restlessStart
    (serves_factory sampleSite) rfl (by decide +kernel) (by decide +kernel)
    fetched_restlessTenant rfl (by decide +kernel) (by decide +kernel)
  have hhalted : (first.store.objects[restlessTenant.key]?.map fun stored =>
      (sampleReconciler.reconcile stored first).2.world.backend.halted) = some true := by
    decide +kernel
  rw [show first.store.objects[restlessTenant.key]? = some stored from hstored, Option.map_some,
    show sampleReconciler.reconcile stored first = _ from hagain, hgoes] at hhalted
  cases hhalted

end Reconciler

end ForgeSync
