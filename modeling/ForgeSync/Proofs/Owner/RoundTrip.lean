import ForgeSync.Owner.Basic
import ForgeSync.Proofs.Calendar.Timestamp
import ForgeSync.Proofs.Datum.Fields
import ForgeSync.Proofs.Json.RoundTrip

/-!
# Owners are read back

An owner is written as nested records, in which most fields are left out where they have their
default. Each record is read back field by field. One wish alone does not survive: a template file
that writes the reserved content is read as one that deletes.

Main statements: `Owner.decode?_encode` and `Owner.decode?_read?_iff`.
-/

namespace ForgeSync

open Calendar (Instant)
open Datum (given given_cons given_nil memberIfSome_some memberIfSome_map memberIfSome_ite)
open Json (Denotable)

/-! ## Metadata -/

namespace ObjectMeta

/-- Metadata that a stored object can have: its version is a word of 64 bits, and its deletion
was requested within the calendar. -/
structure InRange (m : ObjectMeta) : Prop where
  version : m.resourceVersion < Text.bound64
  deletion : ∀ t ∈ m.deletionTimestamp, t.InCalendar

variable {m : ObjectMeta}

theorem encode_eq_given (m : ObjectMeta) : m.encode = .map (given [
    ("name", some (.text m.name)), ("namespace", some (.text m.space)),
    ("resourceVersion", some (.ofNat m.resourceVersion)),
    ("deletionTimestamp", m.deletionTimestamp.map Instant.encode),
    ("finalizers", if m.finalizers.isEmpty then none else some (Datum.ofTexts m.finalizers)),
    ("annotations",
      if m.annotations.isEmpty then none else some (Datum.ofTable Datum.text m.annotations)),
    ("labels", if m.labels.isEmpty then none else some (Datum.ofTable Datum.text m.labels))]) := by
  simp only [encode, given_cons, given_nil, memberIfSome_some, memberIfSome_map, memberIfSome_ite,
    List.append_assoc, List.cons_append, List.nil_append, List.append_nil]

theorem decode?_encode (h : m.InRange) : decode? m.encode = some m := by
  have hversion := Datum.natBelow?_ofNat h.version
  have hdeletion : Datum.option Instant.decode? (m.deletionTimestamp.map Instant.encode) =
      some m.deletionTimestamp :=
    Datum.option_encode _ (fun _ => rfl) fun t ht => Instant.decode?_encode (h.deletion t ht)
  have hfinalizers : Datum.defaulted [] Datum.texts?
      (if m.finalizers.isEmpty then none else some (Datum.ofTexts m.finalizers)) =
        some m.finalizers :=
    Datum.defaulted_ite List.isEmpty_iff.1 (Datum.texts?_ofTexts m.finalizers)
  have htable : ∀ table : Table String, Datum.defaulted ∅ (Datum.tableOf? Datum.text?)
      (if table.isEmpty then none else some (Datum.ofTable Datum.text table)) = some table :=
    fun table => Datum.defaulted_ite Std.ExtTreeMap.isEmpty_iff.1
      (Datum.tableOf?_encode table fun _ => rfl)
  rw [decode?, encode_eq_given, Datum.fields?_given (by rfl) (by decide)]
  simp only [List.map_cons, List.map_nil, Datum.required_some, Datum.defaulted_some,
    Datum.text?_text, hversion, hdeletion, hfinalizers, htable, Option.bind_eq_bind,
    Option.bind_some, pure]

theorem denotable_encode (h : m.InRange) : Denotable m.encode := by
  have htime : ∀ t : Instant, Denotable t.encode := fun t => .text t.text
  have htable : ∀ table : Table String, Denotable (Datum.ofTable Datum.text table) :=
    fun table => Datum.denotable_ofTable table .text
  rw [encode_eq_given]
  refine Datum.denotable_given ?_
  simp [Denotable.text, Datum.denotable_ofNat h.version, Datum.denotable_ofTexts, htime, htable]

end ObjectMeta

/-! ## Status -/

theorem Phase.decode?_encode (p : Phase) : decode? p.encode = some p := by
  rw [decode?, encode, Datum.variant?]
  exact ofName?_name p

theorem Phase.denotable_encode (p : Phase) : Denotable p.encode :=
  .text p.name

namespace AppliedVariables

theorem encode_eq_given (r : AppliedVariables) : r.encode = .map (given [
    ("names", some (Datum.ofTexts r.names)), ("digest", some (.text r.digest))]) := rfl

theorem decode?_encode (r : AppliedVariables) : decode? r.encode = some r := by
  rw [decode?, encode_eq_given, Datum.fields?_given (by rfl) (by decide)]
  simp only [List.map_cons, List.map_nil, Datum.required_some, Datum.text?_text,
    Datum.texts?_ofTexts, Option.bind_eq_bind, Option.bind_some, pure]

theorem denotable_encode (r : AppliedVariables) : Denotable r.encode := by
  rw [encode_eq_given]
  refine Datum.denotable_given ?_
  simp [Denotable.text, Datum.denotable_ofTexts]

end AppliedVariables

namespace RepoStatus

theorem encode_eq_given (s : RepoStatus) : s.encode = .map (given [
    ("phase", some s.phase.encode), ("type", s.providerType.map .text),
    ("url", s.url.map .text), ("hostKeys", s.hostKeys.map .text),
    ("accessTokenUid", s.accessTokenUid.map .ofWord),
    ("lastAppliedCiVariables", s.lastAppliedCiVariables.map AppliedVariables.encode)]) := by
  simp only [encode, given_cons, given_nil, memberIfSome_some, memberIfSome_map,
    List.append_assoc, List.append_nil]

theorem decode?_encode (s : RepoStatus) : decode? s.encode = some s := by
  have hphase := Phase.decode?_encode s.phase
  have htoken : Datum.option Datum.word64? (s.accessTokenUid.map .ofWord) = some s.accessTokenUid :=
    Datum.option_encode _ (fun _ => rfl) fun w _ => Datum.word64?_ofWord w
  have hvariables : Datum.option AppliedVariables.decode?
      (s.lastAppliedCiVariables.map AppliedVariables.encode) = some s.lastAppliedCiVariables :=
    Datum.option_encode _ (fun _ => rfl) fun r _ => AppliedVariables.decode?_encode r
  rw [decode?, encode_eq_given, Datum.fields?_given (by rfl) (by decide)]
  simp only [List.map_cons, List.map_nil, Datum.defaulted_some, Datum.option_text, hphase, htoken,
    hvariables, Option.bind_eq_bind, Option.bind_some, pure]

theorem denotable_encode (s : RepoStatus) : Denotable s.encode := by
  have htoken : ∀ w : UInt64, Denotable (.ofWord w) := fun w => Datum.denotable_ofNat w.toNat_lt
  rw [encode_eq_given]
  refine Datum.denotable_given ?_
  simp [Denotable.text, Phase.denotable_encode, AppliedVariables.denotable_encode, htoken]

end RepoStatus

/-! ## Policies -/

theorem DeletionPolicy.option_encode (policy : Option DeletionPolicy) :
    Datum.option decode? (policy.map encode) = some policy :=
  Datum.option_encode policy (fun _ => rfl) fun p _ => decode?_encode p

theorem DeletionPolicy.denotable_encode (p : DeletionPolicy) : Denotable p.encode :=
  .text p.name

theorem CreationPolicy.option_encode (policy : Option CreationPolicy) :
    Datum.option decode? (policy.map encode) = some policy :=
  Datum.option_encode policy (fun _ => rfl) fun p _ => decode?_encode p

theorem CreationPolicy.denotable_encode (p : CreationPolicy) : Denotable p.encode :=
  .text p.name

/-! ## Descriptors -/

theorem FileOp.decode?_encode (op : FileOp) : decode? op.encode = some (ofContent op.content) :=
  rfl

theorem CiVariable.denotable_list (vars : List CiVariable) :
    Denotable (.list (vars.map CiVariable.encode)) := by
  refine .list fun d hd => ?_
  obtain ⟨v, -, rfl⟩ := List.mem_map.1 hd
  exact .map (by simp [Denotable.text, Denotable.bool])

namespace Descriptor

/-- A descriptor as it is read from its text: writing the reserved content is deleting. -/
def asRead (repo : Descriptor) : Descriptor :=
  { repo with templateFiles := repo.templateFiles.map fun _ op => .ofContent op.content }

theorem encode_eq_given (repo : Descriptor) : repo.encode = .map (given [
    ("path", some (.text repo.path)), ("repoName", some (.text repo.repoName)),
    ("displayName", repo.displayName.map .text), ("repoType", repo.repoType.map .text),
    ("deployKeys", some (Datum.ofTable DeployKey.encode repo.deployKeys)),
    ("templateFiles", some (Datum.ofTable FileOp.encode repo.templateFiles)),
    ("deletionPolicy", repo.deletionPolicy.map DeletionPolicy.encode),
    ("creationPolicy", repo.creationPolicy.map CreationPolicy.encode),
    ("accessToken", repo.accessToken.map encodeAccessToken),
    ("ciVariables", if repo.ciVariables.isEmpty then none
      else some (.list (repo.ciVariables.map CiVariable.encode)))]) := by
  simp only [encode, given_cons, given_nil, memberIfSome_some, memberIfSome_map, memberIfSome_ite,
    List.append_assoc, List.cons_append, List.nil_append, List.append_nil]

theorem decode?_encode (repo : Descriptor) : decode? repo.encode = some repo.asRead := by
  have hkeys := Datum.tableOf?_encode repo.deployKeys DeployKey.decode?_encode
  have hfiles := Datum.tableOf?_ofTable repo.templateFiles FileOp.decode?_encode
  have htoken : Datum.option decodeAccessToken? (repo.accessToken.map encodeAccessToken) =
      some repo.accessToken :=
    Datum.option_encode _ (fun _ => rfl) fun _ _ => rfl
  have hvariables : Datum.defaulted [] (Datum.listOf? CiVariable.decode?)
      (if repo.ciVariables.isEmpty then none
        else some (.list (repo.ciVariables.map CiVariable.encode))) = some repo.ciVariables :=
    Datum.defaulted_ite List.isEmpty_iff.1
      (Datum.listOf?_encode _ CiVariable.decode?_encode)
  rw [decode?, encode_eq_given, Datum.fields?_given (by rfl) (by decide)]
  simp only [List.map_cons, List.map_nil, Datum.required_some, Datum.defaulted_some,
    Datum.text?_text, Datum.option_text, hkeys, hfiles, DeletionPolicy.option_encode,
    CreationPolicy.option_encode, htoken, hvariables, Option.bind_eq_bind, Option.bind_some, pure,
    asRead]

theorem denotable_encode (repo : Descriptor) : Denotable repo.encode := by
  have hkeys : Denotable (Datum.ofTable DeployKey.encode repo.deployKeys) :=
    Datum.denotable_ofTable _ fun k => .map (by simp [Denotable.text, Denotable.bool])
  have hfiles : Denotable (Datum.ofTable FileOp.encode repo.templateFiles) :=
    Datum.denotable_ofTable _ fun op => .text op.content
  have htoken : ∀ name, Denotable (encodeAccessToken name) :=
    fun name => .map (by simp [Denotable.text])
  have hvariables := CiVariable.denotable_list repo.ciVariables
  rw [encode_eq_given]
  refine Datum.denotable_given ?_
  simp [Denotable.text, hkeys, hfiles, DeletionPolicy.denotable_encode,
    CreationPolicy.denotable_encode, htoken, hvariables]

/-- A descriptor survives its text if no template file of it writes the reserved content. -/
theorem asRead_eq_self_iff (repo : Descriptor) :
    repo.asRead = repo ↔
      ∀ path : String, repo.templateFiles[path]? ≠ some (FileOp.write deleteMarker) := by
  have hfiles : repo.asRead = repo ↔
      (repo.templateFiles.map fun _ op => FileOp.ofContent op.content) = repo.templateFiles := by
    constructor
    · exact fun h => congrArg templateFiles h
    · exact fun h => congrArg (fun files => { repo with templateFiles := files }) h
  rw [hfiles, Datum.map_eq_self_iff repo.templateFiles fun op => .ofContent op.content]
  simp only [FileOp.ofContent_content]
  constructor
  · exact fun h path hpath => h path _ hpath rfl
  · exact fun h path op hpath heq => h path (heq ▸ hpath)

end Descriptor

/-! ## Owners -/

namespace OwnerSpec

/-- A spec as it is read from its text. -/
def asRead (s : OwnerSpec) : OwnerSpec :=
  { s with gitTemplate := s.gitTemplate.map Descriptor.asRead }

/-- The fields that both kinds of owner have. -/
def sharedFields (s : OwnerSpec) : List (String × Option Datum) :=
  [("displayName", s.displayName.map .text),
    ("deletionPolicy", s.deletionPolicy.map DeletionPolicy.encode),
    ("creationPolicy", s.creationPolicy.map CreationPolicy.encode),
    ("gitTemplate", s.gitTemplate.map Descriptor.encode)]

theorem encode_eq_given_of_tenant {s : OwnerSpec} (h : s.membership = .tenant) :
    s.encode = .map (given s.sharedFields) := by
  simp only [encode, h, sharedFields, given_cons, given_nil, memberIfSome_map, List.nil_append,
    List.append_assoc, List.append_nil]

theorem encode_eq_given_of_cluster {s : OwnerSpec} {tenant : String}
    (h : s.membership = .cluster tenant) :
    s.encode = .map (given (("tenantRef", some (.text tenant)) :: s.sharedFields)) := by
  simp only [encode, h, sharedFields, given_cons, given_nil, memberIfSome_some, memberIfSome_map,
    List.append_assoc, List.append_nil]

theorem decodeShared?_sharedFields (s : OwnerSpec) :
    decodeShared? s.membership (s.sharedFields.map (·.2)) = some s.asRead := by
  have htemplate : Datum.option Descriptor.decode? (s.gitTemplate.map Descriptor.encode) =
      some (s.gitTemplate.map Descriptor.asRead) :=
    Datum.option_map _ (fun _ => rfl) fun repo _ => Descriptor.decode?_encode repo
  simp only [sharedFields, List.map_cons, List.map_nil, decodeShared?, Datum.option_text,
    DeletionPolicy.option_encode, CreationPolicy.option_encode, htemplate, Option.bind_eq_bind,
    Option.bind_some, pure, asRead]

theorem denotable_encode (s : OwnerSpec) : Denotable s.encode := by
  cases h : s.membership with
  | tenant =>
      rw [encode_eq_given_of_tenant h]
      refine Datum.denotable_given ?_
      simp [sharedFields, Denotable.text, DeletionPolicy.denotable_encode,
        CreationPolicy.denotable_encode, Descriptor.denotable_encode]
  | cluster tenant =>
      rw [encode_eq_given_of_cluster h]
      refine Datum.denotable_given ?_
      simp [sharedFields, Denotable.text, DeletionPolicy.denotable_encode,
        CreationPolicy.denotable_encode, Descriptor.denotable_encode]

theorem asRead_eq_self_iff (s : OwnerSpec) :
    s.asRead = s ↔ ∀ repo, s.gitTemplate = some repo → repo.asRead = repo := by
  have htemplate : s.asRead = s ↔ s.gitTemplate.map Descriptor.asRead = s.gitTemplate := by
    constructor
    · exact fun h => congrArg gitTemplate h
    · exact fun h => congrArg (fun template => { s with gitTemplate := template }) h
  rw [htemplate]
  cases s.gitTemplate <;> simp

end OwnerSpec

namespace Owner

/-- An owner as it is read from its text. -/
def asRead (o : Owner) : Owner :=
  { o with spec := o.spec.asRead }

theorem decode?_encode_spec (o : Owner) :
    OwnerSpec.decode? o.kind o.spec.encode = some o.spec.asRead := by
  have hshared := OwnerSpec.decodeShared?_sharedFields o.spec
  cases h : o.spec.membership with
  | tenant =>
      rw [h] at hshared
      rw [kind, h, OwnerSpec.decode?, OwnerSpec.encode_eq_given_of_tenant h,
        Datum.fields?_given (by rfl) (by decide)]
      exact hshared
  | cluster tenant =>
      rw [h] at hshared
      rw [kind, h, OwnerSpec.decode?, OwnerSpec.encode_eq_given_of_cluster h,
        Datum.fields?_given (by rfl) (by decide)]
      exact hshared

theorem encode_eq_given (o : Owner) : o.encode = .map (given [
    ("metadata", some o.metadata.encode), ("spec", some o.spec.encode),
    ("status", some o.status.encode)]) := rfl

theorem decode?_encode {o : Owner} (h : o.metadata.InRange) :
    decode? o.kind o.encode = some o.asRead := by
  rw [decode?, encode_eq_given, Datum.fields?_given (by rfl) (by decide)]
  simp only [List.map_cons, List.map_nil, Datum.required_some, Datum.defaulted_some,
    ObjectMeta.decode?_encode h, decode?_encode_spec, RepoStatus.decode?_encode,
    Option.bind_eq_bind, Option.bind_some, pure, asRead]

theorem denotable_encode {o : Owner} (h : o.metadata.InRange) : Denotable o.encode := by
  rw [encode_eq_given]
  refine Datum.denotable_given ?_
  simp [ObjectMeta.denotable_encode h, OwnerSpec.denotable_encode, RepoStatus.denotable_encode]

theorem asRead_eq_self_iff (o : Owner) :
    o.asRead = o ↔ ∀ repo, o.spec.gitTemplate = some repo →
      ∀ path : String, repo.templateFiles[path]? ≠ some (FileOp.write deleteMarker) := by
  have hspec : o.asRead = o ↔ o.spec.asRead = o.spec := by
    constructor
    · exact fun h => congrArg spec h
    · exact fun h => congrArg (fun spec => { o with spec }) h
  simp only [hspec, OwnerSpec.asRead_eq_self_iff, Descriptor.asRead_eq_self_iff]

/-- An owner is read back from its JSON text, in either layout, exactly if no template file of it
writes the reserved content. -/
theorem decode?_read?_iff {o : Owner} (hmeta : o.metadata.InRange) {text : String}
    (htext : text = Json.compact o.encode ∨ text = Json.pretty o.encode) :
    (Json.read? text >>= decode? o.kind) = some o ↔
      ∀ repo, o.spec.gitTemplate = some repo →
        ∀ path : String, repo.templateFiles[path]? ≠ some (FileOp.write deleteMarker) := by
  have hread : Json.read? text = some o.encode := by
    obtain rfl | rfl := htext
    · exact Json.read?_compact (denotable_encode hmeta)
    · exact Json.read?_pretty (denotable_encode hmeta)
  rw [hread, Option.bind_eq_bind, Option.bind_some, decode?_encode hmeta, Option.some.injEq]
  exact asRead_eq_self_iff o

/-- A cluster that is being deleted since a leap second, with one file in its template. -/
def leapCluster (content : String) : Owner where
  metadata := {
    name := "c"
    space := "edge"
    resourceVersion := 7
    deletionTimestamp := some ⟨1483228799, 1500000000⟩
    finalizers := ["forge/repo"] }
  spec := {
    membership := .cluster "t"
    gitTemplate := some {
      path := "edge"
      repoName := "c"
      templateFiles := (∅ : Table FileOp).insert "README.md" (.write content) } }

theorem decode?_read?_leapCluster :
    (∀ content, (leapCluster content).metadata.InRange) ∧
    (Json.read? (Json.compact (leapCluster "\"a\"\n").encode) >>= decode? .cluster) =
      some (leapCluster "\"a\"\n") ∧
    (Json.read? (Json.pretty (leapCluster deleteMarker).encode) >>= decode? .cluster) ≠
      some (leapCluster deleteMarker) := by
  have hmeta : ∀ content, (leapCluster content).metadata.InRange := by
    intro content
    refine ⟨(by decide : 7 < Text.bound64), fun t ht => ?_⟩
    obtain rfl := Option.some.inj ht
    exact ⟨by decide, by decide, by decide, by decide⟩
  refine ⟨hmeta, ?_, fun hread => ?_⟩
  · refine (decode?_read?_iff (hmeta _) (.inl rfl)).2 fun repo hrepo path hpath => ?_
    obtain rfl := Option.some.inj hrepo
    dsimp only at hpath
    rw [Std.ExtTreeMap.getElem?_insert] at hpath
    split at hpath
    · exact absurd (FileOp.write.inj (Option.some.inj hpath)) (by decide)
    · cases hpath
  · refine (decode?_read?_iff (hmeta _) (.inr rfl)).1 hread _ rfl "README.md" ?_
    exact Std.ExtTreeMap.getElem?_insert_self

end Owner

end ForgeSync
