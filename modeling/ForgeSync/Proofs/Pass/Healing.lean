import ForgeSync.Proofs.Pass.Settled

/-!
# Passes that make up for failures

A pass that was cut short, wherever that happened, moves neither the aim of the repository nor the
standing that its object is to have. So passes under any failures, and then one without, lead to
where one pass without failures would have led at once. Only the identifiers of deploy keys and of
the access token may be others. All these passes take identifiers; where they run short the program
halts.

Main statements: `pass_after_failures` and `pass_after_failures_halts`.
-/

namespace ForgeSync

open Forge.Memory

theorem Forge.Memory.Fit.withFailures {site : Site} {repo : Descriptor} {s : State}
    (h : Fit site repo s) (failures : Table String) : Fit site repo { s with failures } :=
  ⟨fun project hproject => by
    obtain ⟨hfound, hdistinct, hnumbered⟩ := h.hosts project hproject
    exact ⟨hfound, hdistinct, hnumbered⟩, h.before, h.after⟩

/-! ## Standing -/

/-- What counts of a stored object when two versions of it are compared: not the identifier of its
access token. -/
structure Standing where
  spec : OwnerSpec
  annotations : Table String
  finalizers : List String
  status : RepoStatus
  deriving DecidableEq

def Owner.standing (o : Owner) : Standing where
  spec := o.spec
  annotations := o.metadata.annotations
  finalizers := o.metadata.finalizers
  status := { o.status with accessTokenUid := none }

namespace Reconciler

variable {r : Reconciler State} {site : Site} {connection : Connection} {repo : Descriptor}
  {o o' : Owner} {w v : World State} {next : RepoStatus} {spent : Nat}

/-- The standing that a complete pass gives to an object. -/
def destination (r : Reconciler State) (site : Site) (connection : Connection) (repo : Descriptor)
    (o : Owner) : Standing :=
  (r.arrival repo o (Convergence.createdStatus site connection repo o.status none)).standing

theorem standing_arrival (version : Nat)
    (hnext : next = Convergence.createdStatus site connection repo o.status next.accessTokenUid) :
    ((r.arrival repo o next).withVersion version).standing =
      r.destination site connection repo o := by
  rw [hnext]
  rfl

/-- What a complete pass stores is on the way to where it is. -/
theorem destination_arrival (version : Nat)
    (hnext : next = Convergence.createdStatus site connection repo o.status next.accessTokenUid) :
    r.destination site connection repo ((r.arrival repo o next).withVersion version) =
      r.destination site connection repo o := by
  have hstatus : Convergence.createdStatus site connection repo next none =
      Convergence.createdStatus site connection repo o.status none := by
    rw [hnext, Convergence.createdStatus_createdStatus]
  unfold destination
  rw [arrival_arrival]
  exact congrArg (fun status => (r.arrival repo o status).standing) hstatus

theorem destination_marked (phase : Phase) (version : Nat) :
    r.destination site connection repo ((o.withPhase phase).withVersion version) =
      r.destination site connection repo o :=
  rfl

/-! ## Passes under failures -/

/-- A world on the way from one where a pass would succeed: a pass without failures still would,
and it would lead to the same. -/
structure Mending (r : Reconciler State) (site : Site) (connection : Connection)
    (repo : Descriptor) (o : Owner) (w : World State) (spent : Nat) (o' : Owner) (v : World State) :
    Prop where
  fetched : Fetched o' v
  kin : r.convergence.Kin o o'
  living : o'.isDeleting = false
  access : r.convergence.Access o' v repo connection (forge site)
  mayStart : MayStart repo v.backend
  halted : v.backend.halted = w.backend.halted
  fit : Fit site repo v.backend
  ids : v.backend.lastId.toNat ≤ w.backend.lastId.toNat + spent * (repo.deployKeys.size + 2)
  aim_eq : aim repo r.now o'.status (origin site repo v.backend) =
    aim repo r.now o.status (origin site repo w.backend)
  destination_eq :
    r.destination site connection repo o' = r.destination site connection repo o

/-- Where a pass without failures leads to. -/
structure Healed (r : Reconciler State) (site : Site) (connection : Connection) (repo : Descriptor)
    (o : Owner) (w v : World State) : Prop where
  halted : v.backend.halted = w.backend.halted
  project : ∃ after, v.backend.projects[repo.fullPath]? = some after ∧
    after.outline = aim repo r.now o.status (origin site repo w.backend) ∧ Carries repo after
  stored : ∃ stored, v.store.objects[o.key]? = some stored ∧
    stored.standing = r.destination site connection repo o

theorem Mending.freshPass (h : Mending r site connection repo o w spent o' v)
    (failures : Table String) :
    r.freshPass o.metadata.space o.metadata.name failures v =
      (some (r.reconcile o' (v.withFailures failures)).1,
        (r.reconcile o' (v.withFailures failures)).2.world) := by
  rw [← h.kin.space, ← h.kin.name]
  exact freshPass_of_stored h.fetched.stored failures

section Passes

variable (hserves : r.registry.Serves (forge site))

include hserves

/-- What a pass comes to on the way: it arrives, or failures have awaited it. -/
theorem Mending.reconcile (h : Mending r site connection repo o w spent o' v)
    (hroom : w.backend.lastId.toNat + (spent + 1) * (repo.deployKeys.size + 2) < 2 ^ 64)
    (failures : Table String) :
    (∃ q next after, r.reconcile o' (v.withFailures failures) = (.ok {}, q) ∧
      Arrived r site connection repo o' (v.withFailures failures) q next after) ∨
    ∃ failure q, r.reconcile o' (v.withFailures failures) = (.error failure, q) ∧
      failures ≠ ∅ ∧ Stranded r site repo o' (v.withFailures failures) q := by
  have hids := h.ids
  have haccess : r.convergence.Access o' (v.withFailures failures) repo connection (forge site) :=
    h.access.of_kin (.refl _ _) rfl h.fetched.faults
  rw [Nat.succ_mul] at hroom
  obtain ⟨q, connection', next, after, hreconcile, harrived⟩ |
      ⟨failure, q, hreconcile, hstranded⟩ :=
    reconcile_living (w := v.withFailures failures) hserves ⟨h.fetched.stored, h.fetched.faults⟩
      h.living h.access.template (h.fit.withFailures failures)
      (by change v.backend.lastId.toNat + _ < _; omega)
  · obtain rfl := haccess.connection_eq harrived.access
    exact .inl ⟨q, next, after, hreconcile, harrived⟩
  · exact .inr ⟨failure, q, hreconcile, hstranded.cause ⟨connection, haccess⟩ h.mayStart, hstranded⟩

/-- A pass under any failures leaves a world on the way. -/
theorem Mending.step (h : Mending r site connection repo o w spent o' v)
    (hroom : w.backend.lastId.toNat + (spent + 1) * (repo.deployKeys.size + 2) < 2 ^ 64)
    (failures : Table String) :
    ∃ next, Mending r site connection repo o w (spent + 1) next
      (r.freshPass o.metadata.space o.metadata.name failures v).2 := by
  have hids := h.ids
  have hsucc : (spent + 1) * (repo.deployKeys.size + 2) =
      spent * (repo.deployKeys.size + 2) + (repo.deployKeys.size + 2) := Nat.succ_mul _ _
  have hfit := h.fit.withFailures failures
  have htemplate := h.access.template
  have halong := along_reconcile r o' (v.withFailures failures)
  have hstays := stays_of_living (v := v.withFailures failures) hserves htemplate h.living
  rw [h.freshPass failures]
  obtain ⟨q, next, after, hreconcile, harrived⟩ | ⟨failure, q, hreconcile, -, hstranded⟩ :=
    h.reconcile hserves hroom failures <;> rw [hreconcile] at halong hstays ⊢ <;>
    have hfaults : q.world.faults = {} := halong.faults.trans h.fetched.faults
  · obtain ⟨version, hstored⟩ := harrived.stored
    have hkin := kin_arrival htemplate next version
    have hfilled := harrived.landed.filled
    have hlast : q.world.backend.lastId.toNat ≤
        v.backend.lastId.toNat + (repo.deployKeys.size + 2) := harrived.landed.spends.le_lastId
    have horigin : origin site repo q.world.backend = after :=
      origin_of_some harrived.landed.hosts.found
    refine ⟨_, ⟨hstored, hfaults⟩, h.kin.trans hkin, h.living,
      h.access.of_kin hkin halong.secrets hfaults, h.mayStart.of_stays hstays,
      harrived.landed.spends.halted.trans h.halted, harrived.landed.fit hfit, ?_, ?_, ?_⟩
    · exact Nat.le_trans hlast (by omega)
    · rw [horigin]
      exact hfilled.rested.aim_eq.trans (hfilled.outline.trans h.aim_eq)
    · exact (destination_arrival version hfilled.created).trans h.destination_eq
  · obtain ⟨phase, version, hstored⟩ := hstranded.stored
    have hkin : r.convergence.Kin o' ((o'.withPhase phase).withVersion version) :=
      .of_spec rfl rfl rfl
    have hlast : q.world.backend.lastId.toNat ≤
        v.backend.lastId.toNat + (repo.deployKeys.size + 2) := hstranded.halted.spends.le_lastId
    refine ⟨_, ⟨hstored, hfaults⟩, h.kin.trans hkin, h.living,
      h.access.of_kin hkin halong.secrets hfaults, h.mayStart.of_stays hstays,
      hstranded.halted.spends.halted.trans h.halted, hstranded.halted.fit hfit, ?_, ?_, ?_⟩
    · exact Nat.le_trans hlast (by omega)
    · exact hstranded.halted.drifts.aim_eq.trans h.aim_eq
    · exact (destination_marked phase version).trans h.destination_eq

/-- Passes under failures, one after the other. -/
theorem Mending.run (h : Mending r site connection repo o w spent o' v)
    (tables : List (Table String))
    (hroom :
      w.backend.lastId.toNat + (spent + tables.length) * (repo.deployKeys.size + 2) < 2 ^ 64) :
    ∃ next, Mending r site connection repo o w (spent + tables.length) next
      (r.run o.metadata.space o.metadata.name v (tables.map (.pass r.now))) := by
  induction tables generalizing spent o' v with
  | nil => exact ⟨o', h⟩
  | cons failures rest ih =>
      rw [List.length_cons, Nat.add_comm rest.length, ← Nat.add_assoc] at hroom ⊢
      have hmono : (spent + 1) * (repo.deployKeys.size + 2) ≤
          (spent + 1 + rest.length) * (repo.deployKeys.size + 2) :=
        Nat.mul_le_mul_right _ (Nat.le_add_right _ _)
      obtain ⟨next, hnext⟩ := h.step hserves (by omega) failures
      exact ih hnext hroom

/-- A pass without failures, from wherever one is on the way, leads to where it would have led at
once. -/
theorem Mending.heals (h : Mending r site connection repo o w spent o' v)
    (hroom : w.backend.lastId.toNat + (spent + 1) * (repo.deployKeys.size + 2) < 2 ^ 64) :
    (r.freshPass o.metadata.space o.metadata.name ∅ v).1 = some (.ok {}) ∧
      Healed r site connection repo o w (r.freshPass o.metadata.space o.metadata.name ∅ v).2 := by
  rw [h.freshPass ∅]
  obtain ⟨q, next, after, hreconcile, harrived⟩ | ⟨_, _, _, hfailures, -⟩ :=
    h.reconcile hserves hroom ∅
  · rw [hreconcile]
    obtain ⟨version, hstored⟩ := harrived.stored
    have hfilled := harrived.landed.filled
    refine ⟨rfl, harrived.landed.spends.halted.trans h.halted,
      ⟨after, harrived.landed.hosts.found, ?_, hfilled.carries⟩, ?_⟩
    · exact hfilled.outline.trans h.aim_eq
    · rw [h.kin.key] at hstored
      exact ⟨_, hstored, (standing_arrival version hfilled.created).trans h.destination_eq⟩
  · exact (hfailures rfl).elim

end Passes

/-- Where a pass without failures would succeed, one is on the way already. -/
theorem mending_of_ok (hserves : r.registry.Serves (forge site)) (hfetched : Fetched o w)
    (hliving : o.isDeleting = false) (htemplate : r.convergence.completed o = some repo)
    (hfit : Fit site repo w.backend)
    (hroom : w.backend.lastId.toNat + (repo.deployKeys.size + 2) < 2 ^ 64)
    (hok : ∃ outcome,
      (r.freshPass o.metadata.space o.metadata.name ∅ w).1 = some (.ok outcome)) :
    ∃ connection, Mending r site connection repo o w 0 o w := by
  obtain ⟨outcome, hok⟩ := hok
  rw [freshPass_of_stored hfetched.stored, Option.some.injEq] at hok
  obtain ⟨q, connection, next, after, hreconcile, harrived⟩ | ⟨failure, q, hreconcile, -⟩ :=
    reconcile_living (w := w.withFailures ∅) hserves ⟨hfetched.stored, hfetched.faults⟩ hliving
      htemplate (hfit.withFailures ∅) hroom
  · exact ⟨connection, hfetched, .refl _ _, hliving,
      harrived.access.of_kin (.refl _ _) rfl hfetched.faults, harrived.mayStart, rfl, hfit,
      by simp, rfl, rfl⟩
  · rw [hreconcile] at hok
    cases hok

/-! ## Main statement -/

/-- After passes under any failures, one pass without failures succeeds, and leaves repository and
object as one such pass would have left them from the start. None of them halts the program. -/
theorem pass_after_failures {declared : Descriptor} (hserves : r.registry.Serves (forge site))
    (hreachable : Reachable site w.backend) (hruns : w.backend.halted = false)
    (hfetched : Fetched o w) (hliving : o.isDeleting = false)
    (htemplate : o.spec.gitTemplate = some declared) (tables : List (Table String))
    (hroomy : Roomy site declared (tables.length + 1) w.backend)
    (hok : ∃ outcome,
      (r.freshPass o.metadata.space o.metadata.name ∅ w).1 = some (.ok outcome)) :
    let single := (r.freshPass o.metadata.space o.metadata.name ∅ w).2
    let broken := r.run o.metadata.space o.metadata.name w (tables.map (.pass r.now))
    let last := r.freshPass o.metadata.space o.metadata.name ∅ broken
    last.1 = some (.ok { requeue := false }) ∧
      single.backend.halted = false ∧ last.2.backend.halted = false ∧
      (∃ a b, single.backend.projects[declared.fullPath]? = some a ∧
        last.2.backend.projects[declared.fullPath]? = some b ∧ b.outline = a.outline ∧
        (b.deployKeys.map (·.view)).Perm (a.deployKeys.map (·.view))) ∧
      ∃ a b, single.store.objects[o.key]? = some a ∧ last.2.store.objects[o.key]? = some b ∧
        b.standing = a.standing := by
  have hcompleted := completed_of_template (r := r) htemplate
  have hroomy := hroomy.completed o r.settings.defaultDeletionPolicy
    r.settings.defaultCreationPolicy
  have hone := hroomy.ids_of_le (Nat.le_add_left 1 tables.length)
  obtain ⟨connection, hstart⟩ := mending_of_ok hserves hfetched hliving hcompleted
    (hreachable.fit hroomy) (by omega) hok
  obtain ⟨-, hsingle⟩ := hstart.heals hserves hone
  obtain ⟨next, hbroken⟩ := hstart.run hserves tables (hroomy.ids_of_le (by omega))
  obtain ⟨hlast, hhealed⟩ := hbroken.heals hserves (hroomy.ids_of_le (by omega))
  obtain ⟨hgoes, ⟨a, ha, haOutline, haCarries⟩, first, hfirst, hfirstStanding⟩ := hsingle
  obtain ⟨hgoes', ⟨b, hb, hbOutline, hbCarries⟩, second, hsecond, hsecondStanding⟩ := hhealed
  exact ⟨hlast, hgoes.trans hruns, hgoes'.trans hruns,
    ⟨a, b, ha, hb, hbOutline.trans haOutline.symm, hbCarries.trans haCarries.symm⟩,
    first, second, hfirst, hsecond, hsecondStanding.trans hfirstStanding.symm⟩

/-- The tenant's deploy key is refused behind the creation, and then the keys cannot be listed. The
third pass makes up for both. -/
theorem pass_after_failures_sampleTenant :
    let refused : Table String := Std.ExtTreeMap.ofList [("add_deploy_key", "down")]
    let unlisted : Table String := Std.ExtTreeMap.ofList [("list_deploy_keys", "down")]
    let single := (sampleReconciler.freshPass "ns" "t" ∅ sampleStart).2
    let broken := sampleReconciler.run "ns" "t" sampleStart
      [.pass ⟨0, 0⟩ refused, .pass ⟨0, 0⟩ unlisted]
    let last := sampleReconciler.freshPass "ns" "t" ∅ broken
    last.1 = some (.ok { requeue := false }) ∧ last.2.backend.halted = false ∧
      ∃ a b, single.backend.projects["acme/r"]? = some a ∧
        last.2.backend.projects["acme/r"]? = some b ∧ b.outline = a.outline ∧
        (b.deployKeys.map (·.view)).Perm (a.deployKeys.map (·.view)) := by
  intro refused unlisted single broken last
  have hhealed := pass_after_failures (r := sampleReconciler) (o := sampleTenant) (w := sampleStart)
    (serves_factory sampleSite) .start rfl fetched_sampleTenant rfl rfl [refused, unlisted]
    ⟨by decide +kernel, by decide, by decide, by decide +kernel⟩ ⟨{}, by decide +kernel⟩
  exact ⟨hhealed.1, hhealed.2.2.1, hhealed.2.2.2.1⟩

/-- Failures leave a trace where identifiers run short. One is enough for a complete pass over the
restless tenant; a pass that is cut short behind the replacement of the key takes it, and the next
one, which replaces the key again, halts the program. -/
theorem pass_after_failures_halts :
    ¬ ∀ (r : Reconciler State) (deeds : List Deed) (o : Owner) (w : World State)
        (declared : Descriptor) (tables : List (Table String)),
      r.registry.Serves (forge sampleSite) →
      w.backend = deeds.foldl (State.play sampleSite) {} → w.backend.halted = false →
      Fetched o w → o.isDeleting = false → o.spec.gitTemplate = some declared →
      let single := r.freshPass o.metadata.space o.metadata.name ∅ w
      let broken := r.run o.metadata.space o.metadata.name w (tables.map (.pass r.now))
      let last := r.freshPass o.metadata.space o.metadata.name ∅ broken
      (∃ outcome, single.1 = some (.ok outcome)) → single.2.backend.halted = false →
      broken.backend.halted = false →
      last.1 = some (.ok { requeue := false }) ∧ last.2.backend.halted = false := by
  intro h
  let refused : Table String := Std.ExtTreeMap.ofList [("edit_project_description", "down")]
  obtain ⟨-, hgoes⟩ := h sampleReconciler _ restlessTenant restlessStart _ [refused]
    (serves_factory sampleSite) rfl (by decide +kernel) fetched_restlessTenant rfl rfl
    ⟨{}, by decide +kernel⟩ (by decide +kernel) (by decide +kernel)
  have hhalted : (sampleReconciler.freshPass "ns" "t" ∅
      (sampleReconciler.run "ns" "t" restlessStart [.pass ⟨0, 0⟩ refused])).2.backend.halted =
        true := by
    decide +kernel
  exact Bool.false_ne_true (hgoes.symm.trans hhalted)

end Reconciler

end ForgeSync
