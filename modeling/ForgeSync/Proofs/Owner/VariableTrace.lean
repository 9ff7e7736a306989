import Mathlib.Data.List.Sort
import ForgeSync.Proofs.Memory.Settlement
import ForgeSync.Proofs.Owner.RoundTrip

/-!
# What the trace of the variables tells

The trace of a list of wanted variables is made of a text in which the entries stand in the order of
their keys. Two lists have the same text exactly if they have the same entries for every key, in the
same order. That is all that a settlement reads of them, so lists with one trace are settled alike.

Main statements: `canonicalText_eq_iff` and `trace_identifies_effect`.
-/

namespace ForgeSync

namespace Text

/-! ## Bytes -/

theorem toList_loop (bytes : ByteArray) (i : Nat) (done : List UInt8) :
    ByteArray.toList.loop bytes i done = done.reverse ++ bytes.data.toList.drop i := by
  fun_induction ByteArray.toList.loop bytes i done with
  | case1 i done hlt ih =>
      have hi : i < bytes.data.toList.length := hlt
      have hget : bytes.get! i = bytes.data.toList[i] := getElem!_pos bytes.data i hlt
      rw [ih, List.drop_eq_getElem_cons hi, hget]
      simp
  | case2 i done hge =>
      rw [List.drop_eq_nil_of_le (Nat.le_of_not_lt hge), List.append_nil]

/-- A text is determined by its bytes. -/
theorem toUTF8_injective {s t : String} (h : s.toUTF8.toList = t.toUTF8.toList) : s = t := by
  have hdata : ∀ bytes : ByteArray, bytes.toList = bytes.data.toList := fun bytes => by
    rw [ByteArray.toList, toList_loop]
    simp
  rw [hdata, hdata] at h
  exact String.toByteArray_inj.1 (ByteArray.ext (Array.toList_inj.1 h))

end Text

namespace AppliedVariables

variable {a b l m : List CiVariable} {key : String}

/-! ## Lists in the order of their keys -/

/-- The keys do not fall. -/
def KeySorted (l : List CiVariable) : Prop :=
  l.Pairwise fun v w => v.key ≤ w.key

theorem keySorted_sorted (l : List CiVariable) : KeySorted (sorted l) := by
  have hpairwise : (sorted l).Pairwise fun v w => decide (v.key ≤ w.key) = true :=
    List.pairwise_mergeSort (by simpa using fun _ _ _ => String.le_trans)
      (by simpa using fun _ _ => String.le_total _ _) l
  exact hpairwise.imp fun hle => of_decide_eq_true hle

/-- The entries of one key keep their order. -/
theorem filter_sorted (l : List CiVariable) (key : String) :
    (sorted l).filter (·.key = key) = l.filter (·.key = key) := by
  have hsame : (l.filter (·.key = key)).Pairwise fun v w => decide (v.key ≤ w.key) = true := by
    refine List.pairwise_of_forall_mem_list fun v hv w hw => ?_
    simp only [List.mem_filter, decide_eq_true_eq] at hv hw
    have hkeys : v.key = w.key := hv.2.trans hw.2.symm
    exact decide_eq_true (hkeys ▸ String.le_refl v.key)
  have hsublist : (l.filter (·.key = key)).Sublist (sorted l) :=
    List.sublist_mergeSort (by simpa using fun _ _ _ => String.le_trans)
      (by simpa using fun _ _ => String.le_total _ _) hsame List.filter_sublist
  have hfiltered := hsublist.filter (·.key = key)
  rw [List.filter_filter] at hfiltered
  simp only [Bool.and_self] at hfiltered
  exact (hfiltered.eq_of_length
    ((List.mergeSort_perm l _).filter _).length_eq.symm).symm

theorem KeySorted.key_le {v w : CiVariable} (h : KeySorted (v :: l)) (hw : w ∈ v :: l) :
    v.key ≤ w.key := by
  rcases List.mem_cons.1 hw with rfl | hw
  · exact String.le_refl _
  · exact List.rel_of_pairwise_cons h hw

/-- In the order of their keys, the entries of each key determine a list. -/
theorem eq_of_filter_eq (hl : KeySorted l) (hm : KeySorted m)
    (h : ∀ key, l.filter (·.key = key) = m.filter (·.key = key)) : l = m := by
  have hmem : ∀ v, v ∈ l ↔ v ∈ m := fun v => by
    have hv := congrArg (v ∈ ·) (h v.key)
    simpa using hv
  induction l generalizing m with
  | nil => exact (List.eq_nil_iff_forall_not_mem.2 fun v hv => by simpa using (hmem v).2 hv).symm
  | cons v l ih =>
      cases m with
      | nil => simpa using (hmem v).1 List.mem_cons_self
      | cons w m =>
          -- both begin with the least key, and with its first entry
          have hkey : v.key = w.key := String.le_antisymm
            (hl.key_le ((hmem w).2 List.mem_cons_self)) (hm.key_le ((hmem v).1 List.mem_cons_self))
          have hfirst := h v.key
          rw [List.filter_cons_of_pos (by simp), List.filter_cons_of_pos (by simp [hkey])] at hfirst
          obtain ⟨rfl, -⟩ := List.cons.inj hfirst
          have hrest : ∀ key, l.filter (·.key = key) = m.filter (·.key = key) := fun key => by
            have hboth := h key
            rw [List.filter_cons, List.filter_cons] at hboth
            split at hboth
            · exact (List.cons.inj hboth).2
            · exact hboth
          rw [ih hl.of_cons hm.of_cons hrest fun u => ?_]
          have hu := congrArg (u ∈ ·) (hrest u.key)
          simpa using hu

theorem sorted_congr (h : ∀ key, a.filter (·.key = key) = b.filter (·.key = key)) :
    sorted a = sorted b :=
  eq_of_filter_eq (keySorted_sorted a) (keySorted_sorted b) fun key => by
    rw [filter_sorted, filter_sorted, h key]

/-! ## Texts -/

/-- Two lists have the same text exactly if the entries of every key are the same, in their order. -/
theorem canonicalText_eq_iff :
    canonicalText a = canonicalText b ↔
      ∀ key, a.filter (·.key = key) = b.filter (·.key = key) := by
  constructor
  · intro htext key
    have hread : ∀ l, (Json.read? (canonicalText l)).bind (Datum.listOf? CiVariable.decode?) =
        some (sorted l) := fun l => by
      rw [canonicalText, Json.read?_compact (CiVariable.denotable_list _)]
      exact Datum.listOf?_encode _ CiVariable.decode?_encode
    have hsorted : sorted a = sorted b := Option.some.inj (by rw [← hread, ← hread, htext])
    rw [← filter_sorted a, ← filter_sorted b, hsorted]
  · intro h
    rw [canonicalText, canonicalText, sorted_congr h]

/-! ## Settlements -/

section Settlement

open Forge Forge.Memory

variable {site : Site} {path : String} {project : Project} {s : State}

/-- The entries of every key are all that a settlement reads. -/
theorem settles_alike (h : ∀ key, a.filter (·.key = key) = b.filter (·.key = key))
    (hfound : s.projects[path]? = some project) (hfailures : s.failures = ∅)
    (managed : List String) :
    ∃ report t u, ((forge site).reconcileVariables path managed a).runFrom s = (.ok report, t) ∧
      ((forge site).reconcileVariables path managed b).runFrom s = (.ok report, u) ∧
      t.projects = u.projects := by
  have hruns : ∀ wanted, ((forge site).reconcileVariables path managed wanted).Ends s _ _ :=
    fun wanted => (ends_reconcileVariables hfound managed wanted).mono (fun _ _ hend => hend.2)
      fun _ _ hend => hend.1 (variableErrors_of_failures_eq_empty hfailures managed wanted _)
  obtain ⟨report, t, ha, vars, hvars, hdeleted, hcreated, hupdated⟩ := (hruns a).exists_ok
  obtain ⟨other, u, hb, vars', hvars', hdeleted', hcreated', hupdated'⟩ := (hruns b).exists_ok
  obtain rfl : vars = vars' := Std.ExtTreeMap.ext_getElem? fun key => by
    rw [hvars.value, hvars'.value, h key]
  have hperm : a.Perm b := List.perm_iff_count.2 fun v => by
    rw [← List.count_filter (p := (·.key = v.key)) (by simp), h v.key,
      List.count_filter (by simp)]
  rw [hperm.countP_eq, ← hupdated', hcreated, ← hcreated'] at hupdated
  obtain rfl : report = other := by
    cases report
    cases other
    simp_all
  exact ⟨report, t, u, ha, hb, (hvars.resets.reads hvars'.resets).projects.symm⟩

/-- The trace of a list of wanted variables tells what settling them does. Its text is the same for
two lists exactly if they have the same entries for every key, in the same order. So unless the
digests of two texts collide, lists with one trace are settled alike. -/
theorem trace_identifies_effect (a b : List CiVariable) :
    (canonicalText a = canonicalText b ↔
      ∀ key, a.filter (·.key = key) = b.filter (·.key = key)) ∧
    ((Digest.nameId Digest.objectIdSpace (canonicalText a).toUTF8.toList =
        Digest.nameId Digest.objectIdSpace (canonicalText b).toUTF8.toList →
        (canonicalText a).toUTF8.toList = (canonicalText b).toUTF8.toList) →
      ofDesired a = ofDesired b →
      ∀ (site : Site) (path : String) (managed : List String) (s : State) (project : Project),
        s.projects[path]? = some project → s.failures = ∅ →
        ∃ report t u,
          ((forge site).reconcileVariables path managed a).runFrom s = (.ok report, t) ∧
          ((forge site).reconcileVariables path managed b).runFrom s = (.ok report, u) ∧
          t.projects = u.projects) := by
  refine ⟨canonicalText_eq_iff, fun hcollision hsame site path managed s project hfound hnone => ?_⟩
  rw [ofDesired, ofDesired, AppliedVariables.mk.injEq] at hsame
  have htext := Text.toUTF8_injective (hcollision hsame.2)
  exact settles_alike (canonicalText_eq_iff.1 htext) hfound hnone managed

/-- Entries of different keys may be listed in any order. -/
theorem trace_identifies_effect_swapped :
    let x : CiVariable := { key := "X", value := "1" }
    let y : CiVariable := { key := "Y", value := "2" }
    let s : State := { stuckVariables with failures := ∅ }
    ∃ report t u,
      ((forge ⟨"memory://git.example", 20⟩).reconcileVariables "acme/r" ["A", "X", "Y"]
        [x, y]).runFrom s = (.ok report, t) ∧
      ((forge ⟨"memory://git.example", 20⟩).reconcileVariables "acme/r" ["A", "X", "Y"]
        [y, x]).runFrom s = (.ok report, u) ∧
      t.projects = u.projects := by
  intro x y s
  have hentries : ∀ key, [x, y].filter (·.key = key) = [y, x].filter (·.key = key) := fun key => by
    by_cases hx : x.key = key
    · have hy : y.key ≠ key := hx ▸ by decide
      simp [hx, hy]
    · simp [List.filter_cons, hx]
  have htext := (trace_identifies_effect [x, y] [y, x]).1.2 hentries
  have htrace : ofDesired [x, y] = ofDesired [y, x] := by
    rw [ofDesired, ofDesired, htext, sorted_congr hentries]
  exact (trace_identifies_effect [x, y] [y, x]).2 (fun _ => by rw [htext]) htrace _ _ _ s
    threeVariables (by decide +kernel) rfl

end Settlement

end AppliedVariables

end ForgeSync
