import Mathlib.Data.List.Induction
import Mathlib.Data.List.Nodup
import ForgeSync.Convergence.Repository
import ForgeSync.Proofs.Repository.DeployKey
import ForgeSync.Proofs.Repository.KeyDelta

/-!
# Listings of deploy keys

Of the keys with one title the first is compared with the descriptor and the others have to go.
What is left after the changes, with what is added, are the keys of the descriptor in their normal
form, each title once, whatever was listed before.

Main statements: `mem_deletedIds`, of any listing, and `perm_normalKeys`, of one whose keys all differ.
-/

namespace ForgeSync

namespace RemoteDeployKey

/-- The key as it is read from its line. -/
def parsed (k : RemoteDeployKey) : DeployKey :=
  .ofAuthorizedKey k.key k.canPush

/-- What counts of a key when it is compared. -/
def view (k : RemoteDeployKey) : String × DeployKey :=
  (k.title, k.parsed)

theorem normal_parsed (k : RemoteDeployKey) : k.parsed.normal = k.parsed :=
  DeployKey.settled_ofAuthorizedKey k.key k.canPush

end RemoteDeployKey

/-- Keys by title, as they come back. -/
def normalKeys (keys : Table DeployKey) : List (String × DeployKey) :=
  keys.toList.map fun (title, k) => (title, k.normal)

variable {listing : List RemoteDeployKey} {k : RemoteDeployKey} {title : String}
  {repo : Descriptor} {key : DeployKey}

theorem eq_of_id_eq (hdistinct : (listing.map (·.id)).Nodup) {l : RemoteDeployKey}
    (hk : k ∈ listing) (hl : l ∈ listing) (hid : k.id = l.id) : k = l :=
  List.inj_on_of_nodup_map hdistinct hk hl hid

/-! ## Reading a listing -/

namespace ListedKeys

theorem ofListing_concat (listing : List RemoteDeployKey) (k : RemoteDeployKey) :
    ofListing (listing ++ [k]) = (ofListing listing).add k := by
  rw [ofListing, List.foldl_append]
  rfl

/-- The entry of a title belongs to the first key of that title. -/
theorem getElem?_byTitle (listing : List RemoteDeployKey) (title : String) :
    (ofListing listing).byTitle[title]? =
      (listing.find? (·.title = title)).map fun k => (k.id, k.parsed) := by
  induction listing using List.reverseRecOn generalizing title with
  | nil => simp [ofListing]
  | append_singleton listing k ih =>
      have hseen : k.title ∈ (ofListing listing).byTitle ↔
          (listing.find? (·.title = k.title)).isSome := by
        rw [Std.ExtTreeMap.mem_iff_isSome_getElem?, ih, Option.isSome_map]
      rw [ofListing_concat, List.find?_append]
      unfold ListedKeys.add
      by_cases hmem : k.title ∈ (ofListing listing).byTitle
      · obtain ⟨first, hfirst⟩ := Option.isSome_iff_exists.1 (hseen.1 hmem)
        rw [if_pos hmem, ih]
        by_cases htitle : k.title = title
        · rw [← htitle, hfirst, Option.some_or]
        · simp [htitle]
      · have hnone : listing.find? (·.title = k.title) = none := by
          simpa using mt hseen.2 hmem
        rw [if_neg hmem, Std.ExtTreeMap.getElem?_insert, ih]
        by_cases htitle : k.title = title
        · subst htitle
          simp [hnone, RemoteDeployKey.parsed]
        · simp [htitle]

theorem mem_byTitle (title : String) :
    title ∈ (ofListing listing).byTitle ↔ title ∈ listing.map (·.title) := by
  rw [Std.ExtTreeMap.mem_iff_isSome_getElem?, getElem?_byTitle]
  simp

/-- The further keys of a title are those that stand behind another one of it. A key that is listed
more than once stands at every one of its places. -/
theorem mem_duplicates :
    k ∈ (ofListing listing).duplicates ↔
      ∃ before after, listing = before ++ k :: after ∧ k.title ∈ before.map (·.title) := by
  induction listing using List.reverseRecOn with
  | nil => simp [ofListing]
  | append_singleton listing l ih =>
      -- the place is the last one, or it is one of the places before
      have hplaces : (∃ before after, listing ++ [l] = before ++ k :: after ∧
            k.title ∈ before.map (·.title)) ↔
          (∃ before after, listing = before ++ k :: after ∧ k.title ∈ before.map (·.title)) ∨
            k = l ∧ l.title ∈ listing.map (·.title) := by
        constructor
        · intro hplace
          obtain ⟨before, after, heq, htitle⟩ := hplace
          obtain rfl | ⟨rest, last, rfl⟩ := List.eq_nil_or_concat after
          · obtain ⟨rfl, hlast⟩ := List.append_inj' heq rfl
            obtain rfl := List.singleton_inj.1 hlast
            exact .inr ⟨rfl, htitle⟩
          · rw [List.concat_eq_append, ← List.cons_append, ← List.append_assoc] at heq
            obtain ⟨rfl, -⟩ := List.append_inj' heq rfl
            exact .inl ⟨before, rest, rfl, htitle⟩
        · intro hcase
          obtain ⟨before, after, rfl, htitle⟩ | ⟨rfl, htitle⟩ := hcase
          · exact ⟨before, after ++ [l], by simp, htitle⟩
          · exact ⟨listing, [], rfl, htitle⟩
      rw [hplaces, ofListing_concat, ← ih, ← mem_byTitle]
      unfold ListedKeys.add
      by_cases hmem : l.title ∈ (ofListing listing).byTitle
      · simp [hmem]
      · simp [hmem]

/-- Where all keys differ, the further ones are those that are not the first of their title. -/
theorem mem_duplicates_of_distinct (hdistinct : (listing.map (·.id)).Nodup) :
    k ∈ (ofListing listing).duplicates ↔
      k ∈ listing ∧ listing.find? (·.title = k.title) ≠ some k := by
  rw [mem_duplicates]
  constructor
  · intro hplace
    obtain ⟨before, after, rfl, htitle⟩ := hplace
    refine ⟨by simp, fun hfirst => ?_⟩
    obtain ⟨l, hl, htitle⟩ := List.mem_map.1 htitle
    have hfound : (before.find? (·.title = k.title)).isSome := by
      rw [List.find?_isSome]
      exact ⟨l, hl, by simpa using htitle⟩
    obtain ⟨found, hfound⟩ := Option.isSome_iff_exists.1 hfound
    rw [List.find?_append, hfound, Option.some_or] at hfirst
    obtain rfl := Option.some.inj hfirst
    rw [List.map_append, List.map_cons, List.nodup_append] at hdistinct
    exact hdistinct.2.2 _ (List.mem_map_of_mem (List.mem_of_find?_eq_some hfound)) _
      List.mem_cons_self rfl
  · intro hcase
    obtain ⟨hmem, hnot⟩ := hcase
    obtain ⟨before, after, rfl⟩ := List.mem_iff_append.1 hmem
    refine ⟨before, after, rfl, ?_⟩
    by_contra htitle
    refine hnot (List.find?_eq_some_iff_append.2 ⟨by simp, before, after, rfl, fun l hl => ?_⟩)
    simpa using fun hsame => htitle (List.mem_map.2 ⟨l, hl, hsame⟩)

end ListedKeys

/-! ## What has to change -/

section Changes

/-- The changes to a listing that a descriptor asks for. -/
def keyDelta (repo : Descriptor) (listing : List RemoteDeployKey) : KeyDelta :=
  .between repo.deployKeys (ListedKeys.ofListing listing).values

/-- The identifiers that are deleted before a key is added again. -/
def staleIds (listing : List RemoteDeployKey) (entries : List (String × DeployKey)) :
    List UInt64 :=
  entries.filterMap fun entry => (ListedKeys.ofListing listing).byTitle[entry.1]?.map (·.1)

/-- The identifiers that are deleted for good. -/
def surplusIds (repo : Descriptor) (listing : List RemoteDeployKey) : List UInt64 :=
  (Forge.surplusKeys (.ofListing listing) (keyDelta repo listing)).map (·.2)

theorem getElem?_values (title : String) :
    (ListedKeys.ofListing listing).values[title]? =
      (listing.find? (·.title = title)).map (·.parsed) := by
  rw [ListedKeys.values, Std.ExtTreeMap.getElem?_map, ListedKeys.getElem?_byTitle,
    Option.map_map]
  rfl

theorem getElem?_add_keyDelta (title : String) :
    (keyDelta repo listing).add[title]? =
      if repo.deployKeys[title]? = (listing.find? (·.title = title)).map (·.parsed) then none
      else repo.deployKeys[title]? := by
  rw [keyDelta, KeyDelta.between, getElem?_changedEntries, getElem?_values]

theorem mem_remove_keyDelta (title : String) :
    title ∈ (keyDelta repo listing).remove ↔
      title ∉ repo.deployKeys ∧ (listing.find? (·.title = title)).isSome := by
  rw [keyDelta, KeyDelta.mem_remove_between, ← Option.isSome_map, ← getElem?_values,
    ← Std.ExtTreeMap.mem_iff_isSome_getElem?]

theorem byTitle_eq_some_iff {title : String} {id : UInt64} :
    (ListedKeys.ofListing listing).byTitle[title]?.map (·.1) = some id ↔
      ∃ first, listing.find? (·.title = title) = some first ∧ first.id = id := by
  simp [ListedKeys.getElem?_byTitle]

/-! ### What is deleted -/

/-- The first key of a title is stale if another key is wanted under the title. -/
theorem mem_staleIds {id : UInt64} :
    id ∈ staleIds listing (keyDelta repo listing).add.toList ↔
      ∃ l, listing.find? (·.title = l.title) = some l ∧
        repo.deployKeys[l.title]? ≠ some l.parsed ∧ l.title ∈ repo.deployKeys ∧ l.id = id := by
  simp only [staleIds, List.mem_filterMap, Prod.exists, byTitle_eq_some_iff,
    Std.ExtTreeMap.mem_toList_iff_getElem?_eq_some, getElem?_add_keyDelta]
  constructor
  · intro hcase
    obtain ⟨title, key, hadd, first, hfirst, hid⟩ := hcase
    obtain rfl : first.title = title := by simpa using List.find?_some hfirst
    rw [hfirst, Option.map_some] at hadd
    split at hadd
    · cases hadd
    · rename_i hother
      exact ⟨first, hfirst, hother,
        Std.ExtTreeMap.mem_iff_isSome_getElem?.2 (by rw [hadd]; rfl), hid⟩
  · intro hcase
    obtain ⟨l, hfirst, hother, hmem, hid⟩ := hcase
    obtain ⟨key, hkey⟩ := Option.isSome_iff_exists.1 (Std.ExtTreeMap.mem_iff_isSome_getElem?.1 hmem)
    refine ⟨l.title, key, ?_, l, hfirst, hid⟩
    rw [hfirst, Option.map_some, if_neg hother, hkey]

/-- A key is surplus if its title is not wanted, or if it is a further one of its title. -/
theorem mem_surplusIds {id : UInt64} :
    id ∈ surplusIds repo listing ↔
      ∃ l, (listing.find? (·.title = l.title) = some l ∧ l.title ∉ repo.deployKeys ∨
        l ∈ (ListedKeys.ofListing listing).duplicates) ∧ l.id = id := by
  have hsplit : id ∈ surplusIds repo listing ↔
      (∃ title ∈ (keyDelta repo listing).remove.keys,
        (ListedKeys.ofListing listing).byTitle[title]?.map (·.1) = some id) ∨
      ∃ l ∈ (ListedKeys.ofListing listing).duplicates, l.id = id := by
    simp [surplusIds, Forge.surplusKeys, List.map_filterMap]
  simp only [hsplit, Std.ExtTreeMap.mem_keys, mem_remove_keyDelta, byTitle_eq_some_iff]
  constructor
  · intro hcase
    obtain ⟨title, ⟨hnot, -⟩, first, hfirst, hid⟩ | ⟨l, hl, hid⟩ := hcase
    · obtain rfl : first.title = title := by simpa using List.find?_some hfirst
      exact ⟨first, .inl ⟨hfirst, hnot⟩, hid⟩
    · exact ⟨l, .inr hl, hid⟩
  · intro hcase
    obtain ⟨l, ⟨hfirst, hnot⟩ | hl, hid⟩ := hcase
    · exact .inl ⟨l.title, ⟨hnot, by rw [hfirst]; rfl⟩, l, hfirst, hid⟩
    · exact .inr ⟨l, hl, hid⟩

/-- The key stands at a place of the listing from which it has to go: another key of its title comes
before it, or it is not the one that is wanted. -/
def Goes (repo : Descriptor) (listing : List RemoteDeployKey) (k : RemoteDeployKey) : Prop :=
  ∃ before after, listing = before ++ k :: after ∧
    (k.title ∈ before.map (·.title) ∨ repo.deployKeys[k.title]? ≠ some k.parsed)

theorem goes_iff :
    Goes repo listing k ↔ k ∈ (ListedKeys.ofListing listing).duplicates ∨
      listing.find? (·.title = k.title) = some k ∧ repo.deployKeys[k.title]? ≠ some k.parsed := by
  rw [ListedKeys.mem_duplicates]
  constructor
  · intro hgoes
    obtain ⟨before, after, rfl, hcase⟩ := hgoes
    by_cases htitle : k.title ∈ before.map (·.title)
    · exact .inl ⟨before, after, rfl, htitle⟩
    · refine .inr ⟨List.find?_eq_some_iff_append.2 ⟨by simp, before, after, rfl, fun l hl => ?_⟩,
        hcase.resolve_left htitle⟩
      simpa using fun hsame => htitle (List.mem_map.2 ⟨l, hl, hsame⟩)
  · intro hcase
    obtain ⟨before, after, heq, htitle⟩ | ⟨hfirst, hother⟩ := hcase
    · exact ⟨before, after, heq, .inl htitle⟩
    · obtain ⟨-, before, after, heq, -⟩ := List.find?_eq_some_iff_append.1 hfirst
      exact ⟨before, after, heq, .inr hother⟩

theorem Goes.mem (h : Goes repo listing k) : k ∈ listing := by
  obtain ⟨before, after, rfl, -⟩ := h
  simp

/-- The identifiers that are deleted, in this order. -/
def deletedIds (repo : Descriptor) (listing : List RemoteDeployKey) : List UInt64 :=
  staleIds listing (keyDelta repo listing).add.toList ++ surplusIds repo listing

/-- The identifiers that are deleted are those of the keys that have to go, whatever else they
belong to. -/
theorem mem_deletedIds {id : UInt64} :
    id ∈ deletedIds repo listing ↔ ∃ l, Goes repo listing l ∧ l.id = id := by
  have hwanted : ∀ l : RemoteDeployKey, l.title ∉ repo.deployKeys →
      repo.deployKeys[l.title]? ≠ some l.parsed := fun l hnot => by
    rw [Std.ExtTreeMap.getElem?_eq_none hnot]
    nofun
  simp only [deletedIds, List.mem_append, mem_staleIds, mem_surplusIds, goes_iff]
  constructor
  · intro hcase
    obtain ⟨l, hfirst, hother, -, hid⟩ | ⟨l, ⟨hfirst, hnot⟩ | hl, hid⟩ := hcase
    · exact ⟨l, .inr ⟨hfirst, hother⟩, hid⟩
    · exact ⟨l, .inr ⟨hfirst, hwanted l hnot⟩, hid⟩
    · exact ⟨l, .inl hl, hid⟩
  · intro hcase
    obtain ⟨l, hl | ⟨hfirst, hother⟩, hid⟩ := hcase
    · exact .inr ⟨l, .inr hl, hid⟩
    · by_cases hmem : l.title ∈ repo.deployKeys
      · exact .inl ⟨l, hfirst, hother, hmem, hid⟩
      · exact .inr ⟨l, .inl ⟨hfirst, hmem⟩, hid⟩

/-- Only what was listed is deleted for good. -/
theorem exists_of_mem_surplusIds {id : UInt64} (h : id ∈ surplusIds repo listing) :
    ∃ k ∈ listing, k.id = id := by
  obtain ⟨l, hgoes, hid⟩ := mem_deletedIds.1 (List.mem_append_right _ h)
  exact ⟨l, hgoes.mem, hid⟩

section Distinct

variable (hdistinct : (listing.map (·.id)).Nodup)

include hdistinct

theorem byTitle_eq_some_id_iff {title : String} (hk : k ∈ listing) :
    (ListedKeys.ofListing listing).byTitle[title]?.map (·.1) = some k.id ↔
      title = k.title ∧ listing.find? (·.title = k.title) = some k := by
  rw [byTitle_eq_some_iff]
  constructor
  · intro hcase
    obtain ⟨first, hfirst, hid⟩ := hcase
    obtain rfl := eq_of_id_eq hdistinct (List.mem_of_find?_eq_some hfirst) hk hid
    obtain rfl : first.title = title := by simpa using List.find?_some hfirst
    exact ⟨rfl, hfirst⟩
  · intro hcase
    obtain ⟨rfl, hfirst⟩ := hcase
    exact ⟨k, hfirst, rfl⟩

/-- A key stays exactly if it is the first of its title and the one that is wanted. -/
theorem mem_kept_iff (hk : k ∈ listing) :
    k.id ∉ staleIds listing (keyDelta repo listing).add.toList ∧ k.id ∉ surplusIds repo listing ↔
      listing.find? (·.title = k.title) = some k ∧ repo.deployKeys[k.title]? = some k.parsed := by
  have hgoes : (∃ l, Goes repo listing l ∧ l.id = k.id) ↔ Goes repo listing k := by
    constructor
    · intro hcase
      obtain ⟨l, hl, hid⟩ := hcase
      exact eq_of_id_eq hdistinct hl.mem hk hid ▸ hl
    · exact fun hk => ⟨k, hk, rfl⟩
  rw [← not_or, ← List.mem_append, ← deletedIds, mem_deletedIds, hgoes, goes_iff,
    ListedKeys.mem_duplicates_of_distinct hdistinct]
  tauto

end Distinct

end Changes

/-! ## What is left -/

theorem mem_normalKeys {keys : Table DeployKey} {title : String} {key : DeployKey} :
    (title, key) ∈ normalKeys keys ↔ ∃ k, keys[title]? = some k ∧ k.normal = key := by
  simp only [normalKeys, List.mem_map, Prod.exists, Prod.mk.injEq,
    Std.ExtTreeMap.mem_toList_iff_getElem?_eq_some]
  constructor
  · intro hcase
    obtain ⟨_, k, hk, rfl, hkey⟩ := hcase
    exact ⟨k, hk, hkey⟩
  · intro hcase
    obtain ⟨k, hk, hkey⟩ := hcase
    exact ⟨title, k, hk, rfl, hkey⟩

theorem map_title_normalKeys (keys : Table DeployKey) :
    (normalKeys keys).map (·.1) = keys.keys := by
  rw [normalKeys, List.map_map, ← Std.ExtTreeMap.map_fst_toList_eq_keys]
  rfl

theorem nodup_title_normalKeys (keys : Table DeployKey) : ((normalKeys keys).map (·.1)).Nodup := by
  rw [map_title_normalKeys]
  exact Std.ExtTreeMap.nodup_keys

/-- The keys of a listing that stay. -/
def keptKeys (repo : Descriptor) (listing : List RemoteDeployKey) : List RemoteDeployKey :=
  listing.filter fun k => k.id ∉ staleIds listing (keyDelta repo listing).add.toList ∧
    k.id ∉ surplusIds repo listing

theorem mem_keptKeys (hdistinct : (listing.map (·.id)).Nodup) :
    k ∈ keptKeys repo listing ↔ k ∈ listing ∧
      listing.find? (·.title = k.title) = some k ∧ repo.deployKeys[k.title]? = some k.parsed := by
  rw [keptKeys, List.mem_filter, decide_eq_true_iff]
  exact and_congr_right fun hk => mem_kept_iff hdistinct hk

/-- What stays and what is added are the wanted keys. -/
theorem perm_normalKeys (hdistinct : (listing.map (·.id)).Nodup) {news : List RemoteDeployKey}
    (hnews : news.map (·.view) =
      normalKeys (keyDelta repo listing).add) :
    ((keptKeys repo listing ++ news).map (·.view)).Perm (normalKeys repo.deployKeys) := by
  have hkept : ∀ k ∈ keptKeys repo listing, _ := fun k hk => (mem_keptKeys hdistinct).1 hk
  have hadded : ∀ title key, (title, key) ∈ news.map (·.view) ↔
      ∃ k, (keyDelta repo listing).add[title]? = some k ∧ k.normal = key := fun title key => by
    rw [hnews]
    exact mem_normalKeys
  have htitles : (keptKeys repo listing ++ news).map (·.view) |>.map (·.1) |>.Nodup := by
    rw [List.map_append, List.map_append, List.nodup_append]
    refine ⟨?_, ?_, ?_⟩
    · rw [List.map_map]
      refine List.Nodup.map_on (fun k hk l hl htitle => ?_) (hdistinct.of_map.filter _)
      have htitle : k.title = l.title := htitle
      have hl := (hkept l hl).2.1
      rw [← htitle, (hkept k hk).2.1] at hl
      exact Option.some.inj hl
    · rw [hnews]
      exact nodup_title_normalKeys _
    · intro title hold other hnew hsame
      obtain ⟨_, hview, rfl⟩ := List.mem_map.1 hold
      obtain ⟨k, hk, rfl⟩ := List.mem_map.1 hview
      obtain ⟨⟨title, key⟩, hentry, rfl⟩ := List.mem_map.1 hnew
      obtain ⟨l, hl, -⟩ := (hadded title key).1 hentry
      obtain ⟨-, hfirst, hwanted⟩ := hkept k hk
      have hsame : k.title = title := hsame
      rw [getElem?_add_keyDelta, ← hsame, hfirst, Option.map_some, if_pos hwanted] at hl
      cases hl
  refine (List.perm_ext_iff_of_nodup htitles.of_map
    (nodup_title_normalKeys repo.deployKeys).of_map).2 fun ⟨title, key⟩ => ?_
  rw [List.map_append, List.mem_append, hadded, mem_normalKeys]
  constructor
  · intro hcase
    rcases hcase with hold | ⟨k, hk, hkey⟩
    · obtain ⟨k, hk, hview⟩ := List.mem_map.1 hold
      obtain ⟨rfl, rfl⟩ := Prod.mk.inj hview
      exact ⟨k.parsed, (hkept k hk).2.2, k.normal_parsed⟩
    · rw [getElem?_add_keyDelta] at hk
      split at hk
      · cases hk
      · exact ⟨k, hk, hkey⟩
  · intro hcase
    obtain ⟨k, hk, rfl⟩ := hcase
    by_cases hsame : repo.deployKeys[title]? = (listing.find? (·.title = title)).map (·.parsed)
    · obtain ⟨l, hl, rfl⟩ := Option.map_eq_some_iff.1 (hsame.symm.trans hk)
      obtain rfl : l.title = title := by simpa using List.find?_some hl
      refine .inl (List.mem_map.2 ⟨l, (mem_keptKeys hdistinct).2 ⟨?_, hl, hk⟩, ?_⟩)
      · exact List.mem_of_find?_eq_some hl
      · rw [RemoteDeployKey.view, l.normal_parsed]
    · exact .inr ⟨k, by rw [getElem?_add_keyDelta, if_neg hsame, hk], rfl⟩

/-! ## Listings that are in order -/

/-- All keys of a descriptor come back as they are. -/
def Descriptor.KeysSettled (repo : Descriptor) : Prop :=
  ∀ title k, (title, k) ∈ repo.deployKeys.toList → k.IsSettled

instance (repo : Descriptor) : Decidable repo.KeysSettled :=
  decidable_of_iff (∀ entry ∈ repo.deployKeys.toList, entry.2.IsSettled)
    ⟨fun h title k hmem => h (title, k) hmem, fun h entry hmem => h entry.1 entry.2 hmem⟩

/-- A listing of the wanted keys asks for no change exactly if they are settled. -/
theorem keyDelta_of_perm (hdistinct : (listing.map (·.id)).Nodup)
    (hperm : (listing.map (·.view)).Perm (normalKeys repo.deployKeys)) :
    (ListedKeys.ofListing listing).duplicates = [] ∧ (keyDelta repo listing).remove = ∅ ∧
      ((keyDelta repo listing).add = ∅ ↔ repo.KeysSettled) := by
  have htitles : (listing.map (·.title)).Nodup := by
    have := ((hperm.map (·.1)).nodup_iff).2 (nodup_title_normalKeys repo.deployKeys)
    rwa [List.map_map] at this
  have hfirst : ∀ l ∈ listing, listing.find? (·.title = l.title) = some l := fun l hl => by
    have hsome : (listing.find? (·.title = l.title)).isSome := by
      rw [List.find?_isSome]
      exact ⟨l, hl, by simp⟩
    obtain ⟨found, hfound⟩ := Option.isSome_iff_exists.1 hsome
    rw [hfound, List.inj_on_of_nodup_map htitles (List.mem_of_find?_eq_some hfound) hl
      (by simpa using List.find?_some hfound)]
  have hparsed : ∀ title, (listing.find? (·.title = title)).map (·.parsed) =
      repo.deployKeys[title]?.map (·.normal) := by
    intro title
    apply Option.ext
    intro key
    have hmem : (title, key) ∈ listing.map (·.view) ↔
        (listing.find? (·.title = title)).map (·.parsed) = some key := by
      constructor
      · intro hview
        obtain ⟨l, hl, hpair⟩ := List.mem_map.1 hview
        obtain ⟨rfl, rfl⟩ := Prod.mk.inj hpair
        rw [hfirst l hl]
        rfl
      · intro hfound
        obtain ⟨l, hl, rfl⟩ := Option.map_eq_some_iff.1 hfound
        obtain rfl : l.title = title := by simpa using List.find?_some hl
        exact List.mem_map.2 ⟨l, List.mem_of_find?_eq_some hl, rfl⟩
    rw [← hmem, hperm.mem_iff, mem_normalKeys, Option.map_eq_some_iff]
  refine ⟨?_, ?_, ?_⟩
  · rw [List.eq_nil_iff_forall_not_mem]
    intro l hl
    obtain ⟨hmem, hnot⟩ := (ListedKeys.mem_duplicates_of_distinct hdistinct).1 hl
    exact hnot (hfirst l hmem)
  · rw [Std.ExtTreeMap.eq_empty_iff_forall_not_mem]
    intro title hmem
    obtain ⟨hnot, hsome⟩ := (mem_remove_keyDelta title).1 hmem
    rw [← Option.isSome_map, hparsed, Std.ExtTreeMap.getElem?_eq_none hnot] at hsome
    cases hsome
  · rw [Std.ExtTreeMap.eq_empty_iff_forall_not_mem]
    simp only [Descriptor.KeysSettled, Std.ExtTreeMap.mem_toList_iff_getElem?_eq_some,
      Std.ExtTreeMap.mem_iff_isSome_getElem?, getElem?_add_keyDelta, hparsed]
    apply forall_congr'
    intro title
    cases hkey : repo.deployKeys[title]? with
    | none => simp
    | some k =>
        by_cases hsettled : k.IsSettled
        · simp [hsettled, show k.normal = k from hsettled]
        · simp [hsettled, show ¬ k = k.normal from fun h => hsettled h.symm]

end ForgeSync
