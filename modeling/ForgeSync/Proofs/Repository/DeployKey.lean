import ForgeSync.Repository.DeployKey

/-!
# Deploy keys that survive their line

A forge keeps a deploy key as a line and gives the line back. The key that is read from the line of
a key is its normal form; a key is settled if it is its own normal form. A key is settled exactly if
its parts are words and a type never stands without material. What was read from a line is always
of this kind, so a forge never holds any other key.

Main statements: `settled_iff_isPlain`, `settled_ofAuthorizedKey`, and `ofAuthorizedKey_append` for
the comment at the end of a line.
-/

namespace ForgeSync

namespace Text

variable {line gap word rest : List Char}

/-- No word goes on into the text: it is empty or starts with a blank. -/
def EndsWord (rest : List Char) : Prop :=
  ∀ c ∈ rest.head?, isBlank c = true

theorem endsWord_nil : EndsWord [] := nofun

/-- A text that starts with blanks ends the word before it. -/
theorem EndsWord.of_blank (hne : gap ≠ []) (hgap : ∀ c ∈ gap, isBlank c = true) :
    EndsWord (gap ++ rest) := by
  obtain ⟨blank, tail, rfl⟩ := List.exists_cons_of_ne_nil hne
  intro c hc
  obtain rfl := Option.some.inj hc
  exact hgap _ List.mem_cons_self

theorem endsWord_snd_nextWord (line : List Char) : EndsWord (nextWord line).2 := by
  intro c hc
  have hstop := List.head?_dropWhile_not (fun c => !isBlank c) (line.dropWhile isBlank)
  have hc : ((line.dropWhile isBlank).dropWhile fun c => !isBlank c).head? = some c := hc
  simpa [hc] using hstop

/-- A word at the start of a line is the next word, if it ends there. -/
theorem nextWord_append (hword : ∀ c ∈ word, isBlank c = false) (hne : word ≠ [])
    (hrest : EndsWord rest) : nextWord (word ++ rest) = (word, rest) := by
  have hstart : (word ++ rest).dropWhile isBlank = word ++ rest := by
    obtain ⟨c, tail, rfl⟩ := List.exists_cons_of_ne_nil hne
    simp [hword c List.mem_cons_self]
  have hend : rest.takeWhile (fun c => !isBlank c) = [] ∧
      rest.dropWhile (fun c => !isBlank c) = rest := by
    cases rest with
    | nil => simp
    | cons blank tail => simp [hrest blank rfl]
  have hpos : ∀ c ∈ word, (!isBlank c) = true := fun c hc => by simp [hword c hc]
  simp only [nextWord, hstart]
  rw [List.takeWhile_append_of_pos hpos, List.dropWhile_append_of_pos hpos, hend.1, hend.2,
    List.append_nil]

theorem nextWord_word (hword : ∀ c ∈ word, isBlank c = false) : nextWord word = (word, []) := by
  by_cases hne : word = []
  · rw [hne]
    rfl
  · simpa using nextWord_append hword hne endsWord_nil

/-- Blanks before a word do not count. -/
theorem nextWord_append_of_blank (hgap : ∀ c ∈ gap, isBlank c = true) :
    nextWord (gap ++ line) = nextWord line := by
  simp only [nextWord, List.dropWhile_append_of_pos hgap]

/-- Where there is no next word, nothing is left of the line. -/
theorem snd_nextWord_of_nil (h : (nextWord line).1 = []) : (nextWord line).2 = [] := by
  unfold nextWord at h ⊢
  have hsplit := List.takeWhile_append_dropWhile (p := fun c => !isBlank c)
    (l := line.dropWhile isBlank)
  cases hrest : line.dropWhile isBlank with
  | nil => simp
  | cons c tail =>
      have hc := List.head?_dropWhile_not isBlank line
      simp only [hrest, List.head?_cons] at hc
      simp [hrest, hc] at h

/-- What is written behind a word, and does not go on with it, leaves the word as it was. -/
theorem nextWord_append_right (hne : (nextWord line).1 ≠ []) (hrest : EndsWord rest) :
    nextWord (line ++ rest) = ((nextWord line).1, (nextWord line).2 ++ rest) := by
  have hends : EndsWord ((nextWord line).2 ++ rest) := by
    have hline := endsWord_snd_nextWord line
    cases hleft : (nextWord line).2 with
    | nil => exact hrest
    | cons c tail => exact fun d hd => hline d (by rwa [hleft])
  have hsplit : line ++ rest =
      line.takeWhile isBlank ++ ((nextWord line).1 ++ ((nextWord line).2 ++ rest)) := by
    have hline := congrArg (· ++ rest) (takeWhile_append_nextWord line)
    simpa only [List.append_assoc] using hline.symm
  rw [hsplit, nextWord_append_of_blank (List.all_eq_true.1 List.all_takeWhile),
    nextWord_append (fun _ => isBlank_nextWord) hne hends]

end Text

namespace DeployKey

variable {k : DeployKey} {line : String} {w : Bool}

/-- The key that comes back from a forge. -/
def normal (k : DeployKey) : DeployKey :=
  ofAuthorizedKey k.authorizedKey k.writeAccess

/-- The key comes back as it is. -/
def IsSettled (k : DeployKey) : Prop :=
  ofAuthorizedKey k.authorizedKey k.writeAccess = k

instance (k : DeployKey) : Decidable k.IsSettled :=
  inferInstanceAs (Decidable (_ = _))

/-- Type and material hold no blanks, and there is material if there is a type. -/
structure IsPlain (k : DeployKey) : Prop where
  keyType : ∀ c ∈ k.keyType.toList, Text.isBlank c = false
  key : ∀ c ∈ k.key.toList, Text.isBlank c = false
  material : k.key ≠ "" ∨ k.keyType = ""

/-! ## The two words that are read -/

def firstWord (line : String) : List Char :=
  (Text.nextWord line.toList).1

def secondWord (line : String) : List Char :=
  (Text.nextWord (Text.nextWord line.toList).2).1

theorem firstWord_ne_nil (h : secondWord line ≠ []) : firstWord line ≠ [] := by
  intro hnil
  refine h ?_
  rw [secondWord, Text.snd_nextWord_of_nil hnil]
  rfl

theorem ofAuthorizedKey_of_nil (h : secondWord line = []) :
    ofAuthorizedKey line w = ⟨"", String.ofList (firstWord line), w⟩ := by
  unfold secondWord at h
  simp [ofAuthorizedKey, h, firstWord]

theorem ofAuthorizedKey_of_ne_nil (h : secondWord line ≠ []) :
    ofAuthorizedKey line w =
      ⟨String.ofList (firstWord line), String.ofList (secondWord line), w⟩ := by
  unfold secondWord at h
  unfold ofAuthorizedKey
  dsimp only
  split
  · contradiction
  · rfl

/-- What is read does not hold a blank. -/
theorem isPlain_ofAuthorizedKey (line : String) (w : Bool) : (ofAuthorizedKey line w).IsPlain := by
  have hfirst : ∀ c ∈ firstWord line, Text.isBlank c = false := fun _ => Text.isBlank_nextWord
  have hsecond : ∀ c ∈ secondWord line, Text.isBlank c = false := fun _ => Text.isBlank_nextWord
  by_cases hnil : secondWord line = []
  · rw [ofAuthorizedKey_of_nil hnil]
    exact ⟨by simp, by simpa using hfirst, .inr rfl⟩
  · rw [ofAuthorizedKey_of_ne_nil hnil]
    exact ⟨by simpa using hfirst, by simpa using hsecond, .inl (by simpa using hnil)⟩

theorem IsPlain.settled (h : k.IsPlain) : k.IsSettled := by
  obtain ⟨keyType, key, w⟩ := k
  unfold IsSettled
  by_cases htype : keyType = ""
  · have hline : authorizedKey ⟨keyType, key, w⟩ = key := by simp [authorizedKey, htype]
    have hword : Text.nextWord key.toList = (key.toList, []) := Text.nextWord_word h.key
    have hfirst : firstWord key = key.toList := by rw [firstWord, hword]
    have hsecond : secondWord key = [] := by
      rw [secondWord, hword]
      rfl
    rw [hline, ofAuthorizedKey_of_nil hsecond, hfirst, String.ofList_toList, htype]
  · have hkey : key.toList ≠ [] := by simpa using h.material.resolve_right htype
    have hspace : ∀ c ∈ [' '], Text.isBlank c = true := List.all_eq_true.1 (by decide)
    have hline : (authorizedKey ⟨keyType, key, w⟩).toList =
        keyType.toList ++ ([' '] ++ key.toList) := by
      simp [authorizedKey, htype]
    have hword : Text.nextWord (authorizedKey ⟨keyType, key, w⟩).toList =
        (keyType.toList, [' '] ++ key.toList) := by
      rw [hline]
      exact Text.nextWord_append h.keyType (by simpa using htype) (.of_blank (by simp) hspace)
    have hfirst : firstWord (authorizedKey ⟨keyType, key, w⟩) = keyType.toList := by
      rw [firstWord, hword]
    have hsecond : secondWord (authorizedKey ⟨keyType, key, w⟩) = key.toList := by
      rw [secondWord, hword, Text.nextWord_append_of_blank hspace, Text.nextWord_word h.key]
    rw [ofAuthorizedKey_of_ne_nil (by rwa [hsecond]), hfirst, hsecond, String.ofList_toList,
      String.ofList_toList]

/-- The keys that come back as they are. -/
theorem settled_iff_isPlain : k.IsSettled ↔ k.IsPlain := by
  constructor
  · intro hsettled
    exact hsettled ▸ isPlain_ofAuthorizedKey k.authorizedKey k.writeAccess
  · exact IsPlain.settled

theorem settled_ofAuthorizedKey (line : String) (w : Bool) :
    (ofAuthorizedKey line w).IsSettled :=
  (isPlain_ofAuthorizedKey line w).settled

/-! ## Comments -/

theorem secondWord_ne_nil_of_keyType (h : (ofAuthorizedKey line w).keyType ≠ "") :
    secondWord line ≠ [] := by
  intro hnil
  rw [ofAuthorizedKey_of_nil hnil] at h
  exact h rfl

/-- What stands behind type and material, with a blank between, does not count. -/
theorem ofAuthorizedKey_append {gap : String} (h : (ofAuthorizedKey line w).keyType ≠ "")
    (hne : gap ≠ "") (hgap : ∀ c ∈ gap.toList, Text.isBlank c = true) (comment : String) :
    ofAuthorizedKey (line ++ gap ++ comment) w = ofAuthorizedKey line w := by
  have hnil : secondWord line ≠ [] := secondWord_ne_nil_of_keyType h
  have hends : Text.EndsWord (gap.toList ++ comment.toList) :=
    .of_blank (by simpa using hne) hgap
  have hword : Text.nextWord (line ++ gap ++ comment).toList =
      (firstWord line, (Text.nextWord line.toList).2 ++ (gap.toList ++ comment.toList)) := by
    rw [String.toList_append, String.toList_append, List.append_assoc]
    exact Text.nextWord_append_right (firstWord_ne_nil hnil) hends
  have hfirst : firstWord (line ++ gap ++ comment) = firstWord line := by
    rw [firstWord, hword]
  have hsecond : secondWord (line ++ gap ++ comment) = secondWord line := by
    rw [secondWord, hword, Text.nextWord_append_right hnil hends]
    rfl
  rw [ofAuthorizedKey_of_ne_nil hnil, ofAuthorizedKey_of_ne_nil (by rwa [hsecond]), hfirst,
    hsecond]

/-- A key comes back as it is exactly if it is plain. Every key that is read from a line is, so
that it is read again from its own line, and a comment at the end of the line does not change it. -/
theorem roundTrip_authorizedKey :
    (∀ k : DeployKey, ofAuthorizedKey k.authorizedKey k.writeAccess = k ↔ k.IsPlain) ∧
      ∀ (line : String) (w : Bool),
        (ofAuthorizedKey line w).IsPlain ∧
        ofAuthorizedKey (ofAuthorizedKey line w).authorizedKey w = ofAuthorizedKey line w ∧
        ∀ gap comment : String, (ofAuthorizedKey line w).keyType ≠ "" → gap ≠ "" →
          (∀ c ∈ gap.toList, Text.isBlank c = true) →
          ofAuthorizedKey (line ++ gap ++ comment) w = ofAuthorizedKey line w := by
  refine ⟨fun k => settled_iff_isPlain, fun line w => ⟨isPlain_ofAuthorizedKey line w, ?_, ?_⟩⟩
  · have hsettled := settled_ofAuthorizedKey line w
    rwa [IsSettled, writeAccess_ofAuthorizedKey] at hsettled
  · intro gap comment htype hne hgap
    exact ofAuthorizedKey_append htype hne hgap comment

/-- A forge may add a comment behind a tab; a type alone is not read as a type. -/
theorem roundTrip_authorizedKey_comment :
    ofAuthorizedKey "ssh-ed25519 AAAAC3Nz\t deploy@ci (old)" true =
        ⟨"ssh-ed25519", "AAAAC3Nz", true⟩ ∧
      ofAuthorizedKey (authorizedKey ⟨"ssh-ed25519", "AAAAC3Nz", true⟩) true =
        ⟨"ssh-ed25519", "AAAAC3Nz", true⟩ ∧
      ¬ IsPlain ⟨"ssh-ed25519", "", true⟩ := by
  obtain ⟨hsettled, hline⟩ := roundTrip_authorizedKey
  have hread : ofAuthorizedKey "ssh-ed25519 AAAAC3Nz" true =
      ⟨"ssh-ed25519", "AAAAC3Nz", true⟩ := by decide +kernel
  obtain ⟨-, hagain, hcomment⟩ := hline "ssh-ed25519 AAAAC3Nz" true
  refine ⟨?_, hread ▸ hagain, mt (hsettled _).2 (by decide +kernel)⟩
  have hgap : ∀ c ∈ "\t ".toList, Text.isBlank c = true := List.all_eq_true.1 (by decide +kernel)
  rw [← hread]
  exact hcomment "\t " "deploy@ci (old)" (by decide +kernel) (by decide) hgap

end DeployKey

end ForgeSync
