import Mathlib.Data.Finset.Card
import Mathlib.Data.List.Perm.Basic
import ForgeSync.Proofs.Memory.Hosting
import ForgeSync.Proofs.Memory.Log
import ForgeSync.Proofs.Memory.VariableItems

/-!
# Settling CI variables

Whatever failures await its calls, a settlement comes to one definite table of variables. What
becomes of a name follows from the failures that concern the name, the entries that are wanted for
it, and the variable that it had; no other name has a part in it. If no item fails, every managed
name is as it is wanted.

Main statements: `ends_reconcileVariables`, of which `endsOn_reconcileVariables` is what matters to a
pass, and `variables_settled_by_name`.
-/

namespace ForgeSync.Forge.Memory

variable {site : Site} {path name : String} {project : Project} {s t : State}
  {managed : List String} {wanted : List CiVariable}

/-! ## Items -/

theorem nodup_eraseDups (names : List String) : names.eraseDups.Nodup := by
  induction hlength : names.length using Nat.strongRecOn generalizing names with
  | ind n ih =>
      cases names with
      | nil => exact .nil
      | cons name rest =>
          rw [List.eraseDups_cons]
          refine List.nodup_cons.2 ⟨by simp, ih _ ?_ _ rfl⟩
          rw [← hlength]
          exact Nat.lt_succ_of_le (List.length_filter_le _ _)

/-- Every managed name that is not wanted is tried once. -/
theorem length_surplusNames (managed : List String) (wanted : List CiVariable) :
    (surplusNames managed wanted).length =
      (managed.toFinset \ (wanted.map (·.key)).toFinset).card := by
  have hnodup : (surplusNames managed wanted).Nodup := nodup_eraseDups _
  rw [← List.toFinset_card_of_nodup hnodup]
  congr 1
  ext name
  simp [mem_surplusNames]

theorem length_managedWanted (managed : List String) (wanted : List CiVariable) :
    (managedWanted managed wanted).length = wanted.countP (·.key ∈ managed) := by
  rw [managedWanted, List.countP_eq_length_filter]
  simp

theorem filter_managedWanted (managed : List String) (wanted : List CiVariable) (name : String)
    (p : CiVariable → Bool) :
    ((managedWanted managed wanted).filter fun v => v.key = name ∧ p v) =
      if managed.contains name then (wanted.filter (·.key = name)).filter p else [] := by
  rw [managedWanted, List.filter_filter]
  split
  · rename_i hmanaged
    rw [List.filter_filter]
    refine List.filter_congr fun v _ => ?_
    by_cases hname : v.key = name
    · simp [hname, List.contains_iff_mem.1 hmanaged]
    · simp [hname]
  · rename_i hmanaged
    refine List.filter_eq_nil_iff.2 fun v _ hcase => hmanaged ?_
    simp only [Bool.and_eq_true, decide_eq_true_eq] at hcase
    exact hcase.1.1 ▸ hcase.2

/-- The names of one table that are missing in a smaller one make up the difference in size. -/
theorem countP_not_mem_add_size {small large : Table CiVariable}
    (h : ∀ {name}, name ∈ small → name ∈ large) :
    large.keys.countP (· ∉ small) + small.size = large.size := by
  have hperm : (large.keys.filter (· ∈ small)).Perm small.keys := by
    refine (List.perm_ext_iff_of_nodup (Std.ExtTreeMap.nodup_keys.filter _)
      Std.ExtTreeMap.nodup_keys).2 fun name => ?_
    simpa using h
  rw [← Std.ExtTreeMap.length_keys (t := small), ← hperm.length_eq, ← List.countP_eq_length_filter,
    ← Std.ExtTreeMap.length_keys (t := large),
    List.length_eq_countP_add_countP (· ∈ small) (l := large.keys), Nat.add_comm]
  simp

/-! ## Deletions and writes -/

section Settlement

variable {faults : String → VariableFaults} {before base after : Table CiVariable}
  {drops writes : List VariableOutcome}

variable (hdropped : Dropped faults before (surplusNames managed wanted) drops base)
  (hwritten : Written faults base (managedWanted managed wanted) writes after)

include hdropped hwritten

/-- What becomes of a name. -/
theorem getElem?_settlement (name : String) :
    after[name]? = (faults name).valueAfter (managed.contains name)
      (wanted.filter (·.key = name)) before[name]? := by
  rw [hwritten.value, filter_managedWanted, VariableFaults.valueAfter]
  by_cases hmanaged : name ∈ managed
  · rw [List.contains_iff_mem.2 hmanaged, if_pos rfl, if_neg (by simp)]
    by_cases hentries : wanted.filter (·.key = name) = []
    · have hsurplus : name ∈ surplusNames managed wanted :=
        mem_surplusNames.2 ⟨hmanaged, filter_key_eq_nil_iff.1 hentries⟩
      rw [hentries, hdropped.value, VariableFaults.dropError?]
      cases (faults name).delete <;> simp [hsurplus]
    · have hkept : name ∉ surplusNames managed wanted := fun hsurplus =>
        hentries (filter_key_eq_nil_iff.2 (mem_surplusNames.1 hsurplus).2)
      rw [hdropped.getElem?_of_not_mem hkept, if_neg (by simpa using hentries)]
  · have hkept : name ∉ surplusNames managed wanted := fun h => hmanaged (mem_surplusNames.1 h).1
    have hfalse : managed.contains name = false := by simpa using hmanaged
    rw [hdropped.getElem?_of_not_mem hkept, hfalse]
    rfl

/-- What is reported. -/
theorem errors_settlement :
    (drops ++ writes).filterMap VariableOutcome.error? =
      ((surplusNames managed wanted).filterMap fun name => (faults name).dropError? name) ++
        (managedWanted managed wanted).filterMap fun v =>
          (faults v.key).writeError? before[v.key]?.isSome v := by
  rw [List.filterMap_append, hdropped.errors, hwritten.errors]
  congr 1
  refine List.filterMap_congr fun v hv => ?_
  have hkept : v.key ∉ surplusNames managed wanted := fun hsurplus =>
    (mem_surplusNames.1 hsurplus).2 (List.mem_map_of_mem (mem_managedWanted.1 hv).1)
  rw [hdropped.getElem?_of_not_mem hkept]

/-- The names that go are those of the deletions, and the names that come those of the creations. -/
theorem mem_of_mem_settlement (hbefore : name ∈ before) : name ∈ after ↔ name ∈ base := by
  by_cases hsurplus : name ∈ surplusNames managed wanted
  · have hunwritten : name ∉ (managedWanted managed wanted).map (·.key) := by
      intro hmem
      obtain ⟨v, hv, rfl⟩ := List.mem_map.1 hmem
      exact (mem_surplusNames.1 hsurplus).2 (List.mem_map_of_mem (mem_managedWanted.1 hv).1)
    simp only [Std.ExtTreeMap.mem_iff_isSome_getElem?, hwritten.getElem?_of_not_mem hunwritten]
  · have hbase : name ∈ base := by
      rwa [Std.ExtTreeMap.mem_iff_isSome_getElem?, hdropped.getElem?_of_not_mem hsurplus,
        ← Std.ExtTreeMap.mem_iff_isSome_getElem?]
    exact iff_of_true (hwritten.mem_of_mem hbase) hbase

theorem count_deleted_settlement :
    (drops ++ writes).count .deleted = before.keys.countP (· ∉ after) := by
  rw [List.count_append, List.count_eq_zero.2 hwritten.deleted, Nat.add_zero]
  have hsame : before.keys.countP (· ∉ after) = before.keys.countP (· ∉ base) :=
    List.countP_congr fun name hname => by
      simp only [mem_of_mem_settlement hdropped hwritten (Std.ExtTreeMap.mem_keys.1 hname)]
  have hkeys := countP_not_mem_add_size hdropped.mem_of_mem
  have hsize := hdropped.deleted
  omega

theorem count_created_settlement :
    (drops ++ writes).count .created = after.keys.countP (· ∉ before) := by
  have hnone : drops.count .created = 0 :=
    List.count_eq_zero.2 fun hmem => (hdropped.others _ hmem).2 rfl
  rw [List.count_append, hnone, Nat.zero_add]
  have hsame : after.keys.countP (· ∉ before) = after.keys.countP (· ∉ base) := by
    refine List.countP_congr fun name hname => ?_
    have hiff : name ∈ before ↔ name ∈ base := ⟨fun hbefore =>
      (mem_of_mem_settlement hdropped hwritten hbefore).1 (Std.ExtTreeMap.mem_keys.1 hname),
      hdropped.mem_of_mem⟩
    simp only [hiff]
  have hkeys := countP_not_mem_add_size hwritten.mem_of_mem
  have hsize := hwritten.created
  omega

/-- Every entry that does not fail is an update or a creation. -/
theorem count_written_settlement
    (hclean : (drops ++ writes).filterMap VariableOutcome.error? = []) :
    (drops ++ writes).count .updated + (drops ++ writes).count .created =
      wanted.countP (·.key ∈ managed) := by
  have hupdated : drops.count .updated = 0 :=
    List.count_eq_zero.2 fun hmem => (hdropped.others _ hmem).1 rfl
  have hcreated : drops.count .created = 0 :=
    List.count_eq_zero.2 fun hmem => (hdropped.others _ hmem).2 rfl
  rw [List.filterMap_append, List.append_eq_nil_iff] at hclean
  have hothers := hwritten.others
  rw [hclean.2, List.length_nil, Nat.add_zero, length_managedWanted] at hothers
  rw [List.count_append, List.count_append, hupdated, hcreated]
  omega

end Settlement

/-! ## How a settlement ends -/

/-- The variables of the repository are settled, each by what concerns its own name. -/
structure SettlesByName (path : String) (managed : List String) (wanted : List CiVariable)
    (project : Project) (vars : Table CiVariable) (s t : State) : Prop where
  resets : Resets path project vars s t
  value : ∀ name, vars[name]? = (s.variableFaults name).valueAfter (managed.contains name)
    (wanted.filter (·.key = name)) project.ciVariables[name]?

/-- What a settlement does, whatever failures await its calls. -/
theorem ends_reconcileVariables (h : s.projects[path]? = some project) (managed : List String)
    (wanted : List CiVariable) :
    ((forge site).reconcileVariables path managed wanted).Ends s
      (fun report t => s.variableErrors managed wanted project.ciVariables = [] ∧
        ∃ vars, SettlesByName path managed wanted project vars s t ∧
          report.deleted = project.ciVariables.keys.countP (· ∉ vars) ∧
          report.created = vars.keys.countP (· ∉ project.ciVariables) ∧
          report.updated + report.created = wanted.countP (·.key ∈ managed))
      fun failure t => s.variableErrors managed wanted project.ciVariables ≠ [] ∧
        failure = .aggregate "CI variables"
          ((managed.toFinset \ (wanted.map (·.key)).toFinset).card +
            wanted.countP (·.key ∈ managed))
          (s.variableErrors managed wanted project.ciVariables) ∧
        ∃ vars, SettlesByName path managed wanted project vars s t := by
  unfold Forge.reconcileVariables
  refine (ends_dropVariables h (surplusNames managed wanted)).mono (fun drops t hend => ?_)
    (fun _ _ => False.elim) |> Act.ends_bind.2
  obtain ⟨base, hbase, hdropped⟩ := hend
  refine (ends_writeVariables hbase.here (managedWanted managed wanted)).mono
    (fun writes u hend => ?_) (fun _ _ => False.elim) |> Act.ends_bind.2
  obtain ⟨vars, hvars, hwritten⟩ := hend
  rw [State.variableFaults_congr hbase.failures] at hwritten
  have hsettles : SettlesByName path managed wanted project vars s u :=
    ⟨hbase.trans hvars, getElem?_settlement hdropped hwritten⟩
  have herrors : (drops ++ writes).filterMap VariableOutcome.error? =
      s.variableErrors managed wanted project.ciVariables :=
    errors_settlement hdropped hwritten
  dsimp only
  rw [herrors, Act.ends_bind]
  by_cases hnil : s.variableErrors managed wanted project.ciVariables = []
  · rw [Failure.ofBatch_eq_ok_iff.2 hnil, Act.ends_ofExcept_ok]
    exact ⟨hnil, vars, hsettles, count_deleted_settlement hdropped hwritten,
      count_created_settlement hdropped hwritten,
      count_written_settlement hdropped hwritten (herrors.trans hnil)⟩
  · rw [Failure.ofBatch, if_neg (by simpa using hnil), Act.ends_ofExcept_error,
      length_surplusNames, length_managedWanted]
    exact ⟨hnil, rfl, vars, hsettles⟩

/-! ## What a settlement comes to -/

theorem variableErrors_of_failures_eq_empty (h : s.failures = ∅) (managed : List String)
    (wanted : List CiVariable) (before : Table CiVariable) :
    s.variableErrors managed wanted before = [] := by
  have hnone : ∀ operation name, s.awaits operation name = none := fun operation name => by
    simp [State.awaits, h]
  simp [State.variableErrors, State.variableFaults, VariableFaults.dropError?,
    VariableFaults.writeError?, hnone]

theorem SettlesByName.agreeOff {vars : Table CiVariable}
    (h : SettlesByName path managed wanted project vars s t) :
    AgreeOff managed vars project.ciVariables := by
  intro name hname
  have hfalse : managed.contains name = false := by simpa using hname
  rw [h.value, hfalse]
  rfl

/-- Where no item fails, every managed name is as it is wanted. -/
theorem SettlesByName.eq_settled {vars : Table CiVariable}
    (h : SettlesByName path managed wanted project vars s t)
    (hnone : s.variableErrors managed wanted project.ciVariables = []) :
    vars = settled managed wanted project.ciVariables := by
  obtain ⟨hdrops, hwrites⟩ := List.append_eq_nil_iff.1 hnone
  rw [List.filterMap_eq_nil_iff] at hdrops hwrites
  apply Std.ExtTreeMap.ext_getElem?
  intro name
  rw [h.value, getElem?_settled, VariableFaults.valueAfter, ← List.getLast?_filter]
  by_cases hmanaged : name ∈ managed
  · rw [List.contains_iff_mem.2 hmanaged, if_neg (by simp), if_pos hmanaged]
    cases hentries : wanted.filter (·.key = name) with
    | nil =>
        have hsurplus : name ∈ surplusNames managed wanted :=
          mem_surplusNames.2 ⟨hmanaged, filter_key_eq_nil_iff.1 hentries⟩
        rw [Option.map_eq_none_iff.1 (hdrops name hsurplus)]
        rfl
    | cons first rest =>
        have hclean : ∀ v ∈ first :: rest, ((s.variableFaults name).writeError?
            project.ciVariables[name]?.isSome v).isNone := fun v hv => by
          rw [← hentries, List.mem_filter, decide_eq_true_iff] at hv
          obtain ⟨hwanted, rfl⟩ := hv
          exact Option.isNone_iff_eq_none.2
            (hwrites v (mem_managedWanted.2 ⟨hwanted, hmanaged⟩))
        rw [List.filter_eq_self.2 hclean, List.getLast?_cons]
        rfl
  · have hfalse : managed.contains name = false := by simpa using hmanaged
    rw [hfalse, if_neg hmanaged]
    rfl

theorem Resets.hosts {vars : Table CiVariable} (hresets : Resets path project vars s t)
    (h : Hosts path project s) : Hosts path { project with ciVariables := vars } t := by
  have hlast : t.lastId = s.lastId := by simp [hresets.lastId]
  exact ⟨hresets.here, h.distinct, hlast ▸ h.numbered⟩

theorem Resets.spends {vars : Table CiVariable} {allowed : Call → Prop}
    (h : Resets path project vars s t) (hlogs : Logs allowed s t) : Spends 0 s t where
  failures := h.failures
  halted := h.halted.trans (haltsBy_zero s)
  lastId_le := by simp [h.lastId]
  le_lastId := by simp [h.lastId]
  mutations := by
    obtain ⟨new, hnew, -⟩ := hlogs
    simp [State.mutations, hnew]

/-- A settlement makes its calls about managed names. -/
theorem logs_reconcileVariables (site : Site) (path : String) (managed : List String)
    (wanted : List CiVariable) :
    Act.Moves (Logs (variableCalls path managed wanted))
      ((forge site).reconcileVariables path managed wanted) :=
  moves_reconcileVariables (Logs.chains _) (respects_logs site _)

/-- A settlement of the variables of a hosted repository. -/
theorem endsOn_reconcileVariables (h : Hosts path project s) (managed : List String)
    (wanted : List CiVariable) :
    EndsOn path 0 ((forge site).reconcileVariables path managed wanted) s
      (fun _ after _ =>
        after = { project with ciVariables := settled managed wanted project.ciVariables })
      fun after => ∃ ciVariables, after = { project with ciVariables } ∧
        AgreeOff managed ciVariables project.ciVariables := by
  refine ((ends_reconcileVariables h.found managed wanted).and
    ((logs_reconcileVariables site path managed wanted).ends s)).mono
    (fun report t hend => ?_) fun failure t hend => ?_
  · obtain ⟨⟨hnone, vars, hsettles, -⟩, hlogs⟩ := hend
    exact ⟨_, hsettles.resets.hosts h, hsettles.resets.spends hlogs,
      by rw [hsettles.eq_settled hnone]⟩
  · obtain ⟨⟨hsome, -, vars, hsettles⟩, hlogs⟩ := hend
    exact ⟨fun hcalm => hsome (variableErrors_of_failures_eq_empty hcalm managed wanted _), _,
      hsettles.resets.hosts h, hsettles.resets.spends hlogs, vars, rfl, hsettles.agreeOff⟩

/-! ## Name by name -/

/-- A settlement tries every item, and no name has a part in what becomes of another. Calls are made
about managed names only. It fails exactly if an item fails, and then it reports each of these once;
otherwise it tells how many names have gone and come, and how many entries were there already. -/
theorem variables_settled_by_name (h : s.projects[path]? = some project) (managed : List String)
    (wanted : List CiVariable) :
    ((forge site).reconcileVariables path managed wanted).Ends s
      (fun report t => s.variableErrors managed wanted project.ciVariables = [] ∧
        Logs (variableCalls path managed wanted) s t ∧
        ∃ vars, SettlesByName path managed wanted project vars s t ∧
          report.deleted = project.ciVariables.keys.countP (· ∉ vars) ∧
          report.created = vars.keys.countP (· ∉ project.ciVariables) ∧
          report.updated + report.created = wanted.countP (·.key ∈ managed))
      fun failure t => s.variableErrors managed wanted project.ciVariables ≠ [] ∧
        failure = .aggregate "CI variables"
          ((managed.toFinset \ (wanted.map (·.key)).toFinset).card +
            wanted.countP (·.key ∈ managed))
          (s.variableErrors managed wanted project.ciVariables) ∧
        Logs (variableCalls path managed wanted) s t ∧
        ∃ vars, SettlesByName path managed wanted project vars s t := by
  refine ((ends_reconcileVariables h managed wanted).and
    ((logs_reconcileVariables site path managed wanted).ends s)).mono
    (fun report t hend => ?_) fun failure t hend => ?_
  · obtain ⟨⟨hnone, hsettled⟩, hlog⟩ := hend
    exact ⟨hnone, hlog, hsettled⟩
  · obtain ⟨⟨hsome, hfailure, hsettled⟩, hlog⟩ := hend
    exact ⟨hsome, hfailure, hlog, hsettled⟩

/-- A repository with three variables. -/
def threeVariables : Project where
  repository := { id := 1, fullPath := "acme/r" }
  ciVariables := .ofList [("A", { key := "A", value := "old" : CiVariable }),
    ("B", { key := "B", value := "old" }), ("X", { key := "X", value := "old" })]

/-- A forge on which one of them cannot be updated. -/
def stuckVariables : State where
  projects := .ofList [("acme/r", threeVariables)]
  failures := .ofList [("update_ci_variable:A", "down")]

/-- The stuck variable keeps its value. Another one is deleted, a third one is created and updated,
and what is not managed stays. -/
theorem variables_settled_by_name_stuck :
    ((forge ⟨"memory://git.example", 20⟩).reconcileVariables "acme/r" ["A", "B", "C"]
      [{ key := "A", value := "1" }, { key := "C", value := "2" }, { key := "X", value := "3" },
        { key := "C", value := "4" }]).Ends stuckVariables
      (fun _ _ => False)
      fun failure t => failure = .aggregate "CI variables" 4 ["update A: Provider error: down"] ∧
        ∃ vars, t.projects["acme/r"]? = some { threeVariables with ciVariables := vars } ∧
          vars["A"]? = some { key := "A", value := "old" } ∧ vars["B"]? = none ∧
          vars["C"]? = some { key := "C", value := "4" } ∧
          vars["X"]? = some { key := "X", value := "old" } := by
  have hfound : stuckVariables.projects["acme/r"]? = some threeVariables := by decide +kernel
  refine (variables_settled_by_name hfound _ _).mono (fun _ _ hend => ?_) fun _ t hend => ?_
  · exact absurd hend.1 (by decide +kernel)
  · obtain ⟨-, rfl, -, vars, hsettles⟩ := hend
    refine ⟨by decide +kernel, vars, hsettles.resets.here, ?_, ?_, ?_, ?_⟩
    all_goals
      rw [hsettles.value]
      decide +kernel

end ForgeSync.Forge.Memory
