import ForgeSync.Proofs.Json.Scanning

/-!
# Records and tables as data

A record is written as a map of the fields that are given. Its fields are found again under their
names, however many of the others are left out, so a record is read back as soon as each field is.
A table is written as a map in the order of its keys, and read back entry by entry.

Main statements: `fields?_given` and `tableOf?_ofTable`.
-/

namespace ForgeSync.Datum

open Json (Denotable)

variable {α β : Type}

/-! ## The members of a record -/

/-- The members of a record, some of whose fields may be left out. -/
def given (fields : List (String × Option Datum)) : List (String × Datum) :=
  fields.flatMap fun field => memberIfSome field.1 id field.2

theorem given_cons (name : String) (entry : Option Datum) (fields : List (String × Option Datum)) :
    given ((name, entry) :: fields) = memberIfSome name id entry ++ given fields := rfl

theorem given_nil : given [] = [] := rfl

theorem memberIfSome_some (name : String) (d : Datum) :
    memberIfSome name id (some d) = [(name, d)] := rfl

theorem memberIfSome_map (name : String) (encode : α → Datum) (value : Option α) :
    memberIfSome name id (value.map encode) = memberIfSome name encode value := by
  cases value <;> rfl

theorem memberIfSome_ite (name : String) (p : Prop) [Decidable p] (d : Datum) :
    memberIfSome name id (if p then none else some d) = if p then [] else [(name, d)] := by
  split <;> rfl

theorem countP_given_le (fields : List (String × Option Datum)) (name : String) :
    (given fields).countP (·.1 = name) ≤ (fields.map (·.1)).count name := by
  induction fields with
  | nil => exact Nat.le_refl 0
  | cons field fields ih =>
      obtain ⟨other, entry⟩ := field
      rw [given_cons, List.countP_append, List.map_cons, List.count_cons]
      have hmember : (memberIfSome other id entry).countP (·.1 = name) ≤
          if other == name then 1 else 0 := by
        cases entry with
        | none => exact Nat.zero_le _
        | some d => by_cases h : other = name <;> simp [memberIfSome, h]
      rw [Nat.add_comm]
      exact Nat.add_le_add ih hmember

theorem lookup?_given_of_not_mem {fields : List (String × Option Datum)} {name : String}
    (h : name ∉ fields.map (·.1)) : lookup? (given fields) name = none := by
  have hcount := countP_given_le fields name
  rw [List.count_eq_zero_of_not_mem h, Nat.le_zero, List.countP_eq_zero] at hcount
  rw [lookup?, List.find?_eq_none.2 hcount]
  rfl

theorem lookup?_given {fields : List (String × Option Datum)} (hdistinct : (fields.map (·.1)).Nodup)
    {name : String} {entry : Option Datum} (h : (name, entry) ∈ fields) :
    lookup? (given fields) name = entry := by
  induction fields with
  | nil => cases h
  | cons field fields ih =>
      obtain ⟨other, first⟩ := field
      rw [List.map_cons, List.nodup_cons] at hdistinct
      obtain ⟨hother, hrest⟩ := hdistinct
      rw [given_cons]
      obtain heq | h := List.mem_cons.1 h
      · cases heq
        cases entry with
        | none => exact lookup?_given_of_not_mem hother
        | some d => simp [lookup?, memberIfSome]
      · have hname : name ∈ fields.map (·.1) := List.mem_map_of_mem h
        have hne : other ≠ name := fun heq => hother (heq ▸ hname)
        have hih := ih hrest h
        cases first with
        | none => exact hih
        | some d =>
            simp only [lookup?, memberIfSome, List.singleton_append] at hih ⊢
            rw [List.find?_cons_of_neg (by simpa using hne)]
            exact hih

/-- The fields of a record are found under their names, given or left out. -/
theorem fields?_given {fields : List (String × Option Datum)} {names : List String}
    (hnames : fields.map (·.1) = names) (hdistinct : names.Nodup) :
    fields? names (.map (given fields)) = some (fields.map (·.2)) := by
  subst hnames
  have hcount : ((fields.map (·.1)).all fun name =>
      decide ((given fields).countP (·.1 = name) ≤ 1)) = true := by
    refine List.all_eq_true.2 fun name _ => decide_eq_true ?_
    exact Nat.le_trans (countP_given_le fields name) (List.nodup_iff_count.1 hdistinct name)
  rw [fields?, if_pos hcount, List.map_map]
  refine congrArg some (List.map_congr_left fun field hfield => ?_)
  exact lookup?_given hdistinct hfield

theorem denotable_given {fields : List (String × Option Datum)}
    (h : ∀ field ∈ fields, ∀ d ∈ field.2, Denotable d) : Denotable (.map (given fields)) := by
  refine .map fun m hm => ?_
  obtain ⟨field, hfield, hmember⟩ := List.mem_flatMap.1 hm
  obtain ⟨name, entry⟩ := field
  cases entry with
  | none => cases hmember
  | some d =>
      rw [List.mem_singleton.1 hmember]
      exact h _ hfield d rfl

/-! ## The fields of a record -/

variable {encode : α → Datum} {decode : Datum → Option β} {f : α → β}

@[simp]
theorem required_some (decode : Datum → Option α) (d : Datum) :
    required decode (some d) = decode d := rfl

@[simp]
theorem defaulted_some (default : α) (decode : Datum → Option α) (d : Datum) :
    defaulted default decode (some d) = decode d := rfl

@[simp]
theorem text?_text (s : String) : text? (.text s) = some s := rfl

theorem option_map (value : Option α) (hnull : ∀ a, (encode a).isNull = false)
    (h : ∀ a ∈ value, decode (encode a) = some (f a)) :
    option decode (value.map encode) = some (value.map f) := by
  cases value with
  | none => rfl
  | some a => simp [option, optional?, hnull, h a rfl]

theorem option_encode {decode : Datum → Option α} (value : Option α)
    (hnull : ∀ a, (encode a).isNull = false) (h : ∀ a ∈ value, decode (encode a) = some a) :
    option decode (value.map encode) = some value := by
  simpa using option_map (f := id) value hnull h

theorem option_text (text : Option String) :
    option text? (text.map .text) = some text :=
  option_encode text (fun _ => rfl) fun _ _ => rfl

/-- A field that is left out where it has its default. -/
theorem defaulted_ite {value default : β} {d : Datum} {p : Prop} [Decidable p]
    (hdefault : p → value = default) (h : decode d = some value) :
    defaulted default decode (if p then none else some d) = some value := by
  by_cases hp : p
  · rw [if_pos hp, hdefault hp]
    rfl
  · rw [if_neg hp]
    exact h

theorem natBelow?_ofNat {bound n : Nat} (h : n < bound) : natBelow? bound (ofNat n) = some n :=
  if_pos h

theorem word64?_ofWord (w : UInt64) : word64? (ofWord w) = some w := by
  have hlt : w.toNat < Text.bound64 := w.toNat_lt
  rw [word64?, ofWord, natBelow?_ofNat hlt]
  simp

theorem listOf?_encode {decode : Datum → Option α} (items : List α)
    (h : ∀ a, decode (encode a) = some a) :
    listOf? decode (.list (items.map encode)) = some items := by
  rw [listOf?, items?, Option.bind_eq_bind, Option.bind_some]
  induction items with
  | nil => rfl
  | cons a items ih =>
      rw [List.map_cons, List.mapM_cons, h, ih]
      rfl

/-! ## Tables -/

/-- The table of some entries; of two with one key the later one counts. -/
def insertAll (entries : List (String × α)) : Table α :=
  entries.foldl (fun table entry => table.insert entry.1 entry.2) ∅

theorem insertAll_eq_insertMany (entries : List (String × α)) :
    insertAll entries = (∅ : Table α).insertMany entries := by
  have hfrom : ∀ (entries : List (String × α)) (table : Table α),
      entries.foldl (fun table entry => table.insert entry.1 entry.2) table =
        table.insertMany entries := by
    intro entries
    induction entries with
    | nil => exact fun _ => Std.ExtTreeMap.insertMany_nil.symm
    | cons entry entries ih =>
        intro table
        rw [List.foldl_cons, ih, Std.ExtTreeMap.insertMany_cons]
  exact hfrom entries ∅

/-- A table is made of its entries again, each changed in its place. -/
theorem insertAll_toList_map (table : Table α) (f : α → β) :
    insertAll (table.toList.map fun entry => (entry.1, f entry.2)) =
      table.map fun _ value => f value := by
  rw [insertAll_eq_insertMany]
  refine Std.ExtTreeMap.ext_getElem? fun key => ?_
  rw [Std.ExtTreeMap.getElem?_map]
  cases hvalue : table[key]? with
  | none =>
      have hkey : ((table.toList.map fun entry => (entry.1, f entry.2)).map Prod.fst).contains key =
          false := by
        rw [List.contains_eq_mem, decide_eq_false_iff_not]
        intro hmem
        simp only [List.map_map, List.mem_map] at hmem
        obtain ⟨⟨other, value⟩, hentry, rfl⟩ := hmem
        have hsome := Std.ExtTreeMap.mem_toList_iff_getElem?_eq_some.1 hentry
        cases hvalue.symm.trans hsome
      rw [Std.ExtTreeMap.getElem?_insertMany_list_of_contains_eq_false hkey]
      rfl
  | some value =>
      have hdistinct : (table.toList.map fun entry => (entry.1, f entry.2)).Pairwise
          fun a b => ¬ compare a.1 b.1 = .eq := by
        rw [List.pairwise_map]
        exact table.distinct_keys_toList
      have hmem : (key, f value) ∈ table.toList.map fun entry => (entry.1, f entry.2) :=
        List.mem_map.2 ⟨(key, value), Std.ExtTreeMap.mem_toList_iff_getElem?_eq_some.2 hvalue, rfl⟩
      exact Std.ExtTreeMap.getElem?_insertMany_list_of_mem (Std.ReflCmp.compare_self) hdistinct hmem

theorem tableOf?_ofTable (table : Table α) (h : ∀ a, decode (encode a) = some (f a)) :
    tableOf? decode (ofTable encode table) = some (table.map fun _ value => f value) := by
  have hentries : ∀ entries : List (String × α),
      (entries.map fun entry => (entry.1, encode entry.2)).mapM
          (fun member => (decode member.2).map (member.1, ·)) =
        some (entries.map fun entry => (entry.1, f entry.2)) := by
    intro entries
    induction entries with
    | nil => rfl
    | cons entry entries ih =>
        rw [List.map_cons, List.mapM_cons, ih, h]
        rfl
  rw [← insertAll_toList_map]
  exact congrArg (·.bind fun entries => some (insertAll entries)) (hentries table.toList)

theorem tableOf?_encode {decode : Datum → Option α} (table : Table α)
    (h : ∀ a, decode (encode a) = some a) :
    tableOf? decode (ofTable encode table) = some table := by
  simpa [Std.ExtTreeMap.map_id] using tableOf?_ofTable (f := id) table h

/-- A change of every value leaves a table as it is if it leaves each of its values. -/
theorem map_eq_self_iff (table : Table α) (f : α → α) :
    (table.map fun _ value => f value) = table ↔
      ∀ (key : String) (value : α), table[key]? = some value → f value = value := by
  constructor
  · intro h key value hvalue
    have hkey := Std.ExtTreeMap.getElem?_map (t := table) (f := fun _ value => f value) (k := key)
    rw [h, hvalue, Option.map_some] at hkey
    exact (Option.some.inj hkey).symm
  · intro h
    refine Std.ExtTreeMap.ext_getElem? fun key => ?_
    rw [Std.ExtTreeMap.getElem?_map]
    cases hvalue : table[key]? with
    | none => rfl
    | some value => rw [Option.map_some, h key value hvalue]

theorem denotable_ofTable (table : Table α) (h : ∀ a, Denotable (encode a)) :
    Denotable (ofTable encode table) := by
  refine .map fun m hm => ?_
  obtain ⟨entry, -, rfl⟩ := List.mem_map.1 hm
  exact h entry.2

theorem denotable_ofTexts (texts : List String) : Denotable (ofTexts texts) := by
  refine .list fun d hd => ?_
  obtain ⟨s, -, rfl⟩ := List.mem_map.1 hd
  exact .text s

theorem denotable_ofNat {n : Nat} (h : n < Text.bound64) : Denotable (ofNat n) := by
  refine .int ?_ (Int.ofNat_lt.2 h)
  have hpos : (0 : Int) ≤ Int.ofNat n := Int.natCast_nonneg n
  simp only [Text.bound63]
  omega

end ForgeSync.Datum
