import ForgeSync.Proofs.Url.Percent
import ForgeSync.Url.Segments

/-!
# What adding a segment does to a path

A segment that is added is encoded without its tabs and line breaks, and no slash is left in it. So
it opens one place in the path and stays there as it was given, unless it is one of the two that
stand for places themselves: these add nothing, or, if a tab or a line break hides them, lead up or
leave an empty place.

Main statements: `pushToPath_eq` tells the cases apart, `foldl_pushToPath_inj` says that segments can
be read from a path, and `slashes_foldl_pushToPath_le` bounds what other texts can do to it.
-/

namespace ForgeSync.Url

variable {special : Bool} {path text : String} {cs ds : List Char} {reserved : List Char}

/-- A text without the tabs and line breaks that addresses skip. -/
def bare (text : String) : List Char :=
  text.toList.filter fun c => !isSkipped c

/-- A text that is one segment when it is added to a path. -/
def IsSegment (text : String) : Prop :=
  bare text ≠ ['.'] ∧ bare text ≠ ['.', '.']

instance : Decidable (IsSegment text) :=
  inferInstanceAs (Decidable (_ ∧ _))

/-- Behind a host two paths make up one address only if they are the same. -/
theorem text_addSegments_inj {u : Url} (h : u.authority.isSome = true) {more more' : List String} :
    (u.addSegments more).text = (u.addSegments more').text ↔
      (u.addSegments more).path = (u.addSegments more').path := by
  obtain ⟨a, ha⟩ := Option.isSome_iff_exists.1 h
  simp [text, authorityText, suffixText, addSegments, ha, ← String.append_assoc,
    String.append_left_inj, String.append_right_inj]

/-! ## Dots -/

theorem percentDecoded_of_dropDot (h : dropDot cs = some ds) :
    percentDecoded cs = 0x2E :: percentDecoded ds := by
  unfold dropDot at h
  split at h <;> cases h <;> rfl

/-- Only a dot is encoded as one. -/
theorem isSingleDot_encodeChars (h : '%' ∈ reserved) (hdot : '.' ∉ reserved) (cs : List Char) :
    isSingleDot (encodeChars reserved cs) = true ↔ cs = ['.'] := by
  constructor
  · intro hsingle
    have hdrop : dropDot (encodeChars reserved cs) = some [] := by simpa [isSingleDot] using hsingle
    apply eq_of_flatMap_utf8EncodeChar
    rw [← percentDecoded_encodeChars h, percentDecoded_of_dropDot hdrop]
    rfl
  · rintro rfl
    simp [isSingleDot, encodeChars, encodeChar, isNeverPlain, hdot, dropDot]

theorem isDoubleDot_encodeChars (h : '%' ∈ reserved) (hdot : '.' ∉ reserved) (cs : List Char) :
    isDoubleDot (encodeChars reserved cs) = true ↔ cs = ['.', '.'] := by
  constructor
  · intro hdouble
    obtain ⟨rest, hfirst, hsecond⟩ : ∃ rest, dropDot (encodeChars reserved cs) = some rest ∧
        dropDot rest = some [] := by simpa [isDoubleDot, Option.bind_eq_some_iff] using hdouble
    apply eq_of_flatMap_utf8EncodeChar
    rw [← percentDecoded_encodeChars h, percentDecoded_of_dropDot hfirst,
      percentDecoded_of_dropDot hsecond]
    rfl
  · rintro rfl
    simp [isDoubleDot, encodeChars, encodeChar, isNeverPlain, hdot, dropDot]

/-! ## The cases -/

/-- A path that is open for one more segment. -/
def opened (path : String) : String :=
  if path = "/" then path else path ++ "/"

/-- The path above one. -/
def parent (path : String) : String :=
  let above := String.ofList (dropLastSegment (withoutLastSlash path).toList)
  if above.isEmpty then "/" else above

/-- A segment as it stands in a path. -/
def segmentText (special : Bool) (text : String) : String :=
  String.ofList (encodeChars (segmentReserved special) (bare text))

theorem percent_mem_segmentReserved (special : Bool) : '%' ∈ segmentReserved special := by
  cases special <;> decide

theorem slash_mem_segmentReserved (special : Bool) : '/' ∈ segmentReserved special := by
  cases special <;> decide

theorem dot_not_mem_segmentReserved (special : Bool) : '.' ∉ segmentReserved special := by
  cases special <;> decide

/-- What becomes of a path when a segment is added to it. -/
theorem pushToPath_eq (special : Bool) (path text : String) :
    pushToPath special path text =
      if text = "." ∨ text = ".." then path
      else if bare text = ['.', '.'] then parent (opened path)
      else if bare text = ['.'] then opened path
      else opened path ++ segmentText special text := by
  have hpercent := percent_mem_segmentReserved special
  have hdot := dot_not_mem_segmentReserved special
  simp only [← isSingleDot_encodeChars hpercent hdot, ← isDoubleDot_encodeChars hpercent hdot]
  rfl

/-! ## Segments -/

theorem opened_of_one_lt (h : 1 < path.length) : opened path = path ++ "/" := by
  rw [opened, if_neg]
  rintro rfl
  exact absurd h (by decide)

/-- A segment opens one place and stands in it. -/
theorem pushToPath_of_isSegment (hpath : 1 < path.length) (h : IsSegment text) :
    pushToPath special path text = path ++ "/" ++ segmentText special text := by
  have hdots : ¬(text = "." ∨ text = "..") := by
    rintro (rfl | rfl)
    · exact h.1 rfl
    · exact h.2 rfl
  rw [pushToPath_eq, if_neg hdots, if_neg h.2, if_neg h.1, opened_of_one_lt hpath]

theorem slash_not_mem_segmentText (special : Bool) (text : String) :
    '/' ∉ (segmentText special text).toList := by
  rw [segmentText, String.toList_ofList]
  exact slash_not_mem_encodeChars (slash_mem_segmentReserved special) (bare text)

theorem segmentText_inj (special : Bool) {text other : String} :
    segmentText special text = segmentText special other ↔ bare text = bare other := by
  rw [segmentText, segmentText, String.ofList_inj]
  exact (encodeChars_injective (percent_mem_segmentReserved special)).eq_iff

theorem one_lt_length_pushToPath (hpath : 1 < path.length) (h : IsSegment text) :
    1 < (pushToPath special path text).length := by
  rw [pushToPath_of_isSegment hpath h, String.length_append, String.length_append]
  omega

/-- Segments as they stand in a path, each behind a slash. -/
def placed (special : Bool) (texts : List String) : List Char :=
  texts.flatMap fun text => '/' :: (segmentText special text).toList

@[simp] theorem placed_nil : placed special [] = [] := rfl

@[simp] theorem placed_cons {texts : List String} :
    placed special (text :: texts) =
      '/' :: ((segmentText special text).toList ++ placed special texts) := rfl

/-- Segments open a place each, and stand there in their order. -/
theorem toList_foldl_pushToPath {texts : List String} (hpath : 1 < path.length)
    (h : ∀ text ∈ texts, IsSegment text) :
    (texts.foldl (pushToPath special) path).toList = path.toList ++ placed special texts := by
  induction texts generalizing path with
  | nil => simp
  | cons text texts ih =>
    rw [List.forall_mem_cons] at h
    rw [List.foldl_cons, ih (one_lt_length_pushToPath hpath h.1) h.2,
      pushToPath_of_isSegment hpath h.1]
    simp

/-- A segment ends where the next slash is. -/
theorem takeWhile_segmentText (special : Bool) (text : String) (texts : List String) :
    ((segmentText special text).toList ++ placed special texts).takeWhile (· ≠ '/') =
      (segmentText special text).toList := by
  rw [List.takeWhile_append_of_pos fun c hc => by
    simpa using ne_of_mem_of_not_mem hc (slash_not_mem_segmentText special text)]
  cases texts <;> simp

theorem placed_inj (special : Bool) {texts texts' : List String} :
    placed special texts = placed special texts' ↔ texts.map bare = texts'.map bare := by
  induction texts generalizing texts' with
  | nil => cases texts' <;> simp
  | cons text texts ih =>
    cases texts' with
    | nil => simp
    | cons text' texts' =>
      simp only [placed_cons, List.map_cons, List.cons.injEq, true_and, ← segmentText_inj special,
        ← ih]
      constructor
      · intro hsame
        have htext : (segmentText special text).toList = (segmentText special text').toList := by
          rw [← takeWhile_segmentText special text texts, hsame, takeWhile_segmentText]
        rw [htext] at hsame
        exact ⟨String.toList_inj.1 htext, List.append_cancel_left hsame⟩
      · rintro ⟨htext, hrest⟩
        rw [htext, hrest]

/-- Segments in a path can be told apart. -/
theorem foldl_pushToPath_inj {texts texts' : List String} (hpath : 1 < path.length)
    (h : ∀ text ∈ texts, IsSegment text) (h' : ∀ text ∈ texts', IsSegment text) :
    texts.foldl (pushToPath special) path = texts'.foldl (pushToPath special) path ↔
      texts.map bare = texts'.map bare := by
  rw [← String.toList_inj, toList_foldl_pushToPath hpath h, toList_foldl_pushToPath hpath h',
    List.append_cancel_left_eq, placed_inj]

/-! ## Hidden dots -/

theorem withoutLastSlash_append_slash (h : path ≠ "") : withoutLastSlash (path ++ "/") = path := by
  have hlength : 1 < (path ++ "/").length := by
    rw [String.length_append, show "/".length = 1 from rfl]
    simpa [Nat.pos_iff_ne_zero] using h
  have hends : (path ++ "/").endsWith "/" = true := by
    rw [← String.endsWith_toSlice, String.Slice.endsWith_string_iff]
    simp
  rw [withoutLastSlash, if_pos (by rw [hends, decide_eq_true hlength]; rfl)]
  apply String.toList_inj.1
  simp

/-- Above a segment is the path in front of it, up to its last slash. -/
theorem parent_append_slash {front segment : String} (h : '/' ∉ segment.toList) :
    parent (front ++ "/" ++ segment ++ "/") = front ++ "/" := by
  have hpath : front ++ "/" ++ segment ≠ "" := by simp
  have hcut : dropLastSegment (front ++ "/" ++ segment).toList = (front ++ "/").toList := by
    rw [dropLastSegment, String.toList_append, List.reverse_append,
      List.dropWhile_append_of_pos fun c hc => by
        simpa using ne_of_mem_of_not_mem (List.mem_reverse.1 hc) h]
    simp
  unfold parent
  rw [withoutLastSlash_append_slash hpath, hcut, String.ofList_toList]
  simp

/-- Two dots behind a tab or a line break take a segment away and leave its place. -/
theorem pushToPath_of_bare_dots {front segment : String} (hslash : '/' ∉ segment.toList)
    (hpath : 1 < (front ++ "/" ++ segment).length) (h : bare text = ['.', '.']) (hne : text ≠ "..") :
    pushToPath special (front ++ "/" ++ segment) text = front ++ "/" := by
  have hdot : text ≠ "." := by
    rintro rfl
    exact absurd h (by decide)
  rw [pushToPath_eq, if_neg (by simp [hdot, hne]), if_pos h, opened_of_one_lt hpath,
    parent_append_slash hslash]

/-- One dot behind a tab or a line break leaves an empty place. -/
theorem pushToPath_of_bare_dot (hpath : 1 < path.length) (h : bare text = ['.']) (hne : text ≠ ".") :
    pushToPath special path text = path ++ "/" := by
  have hdots : text ≠ ".." := by
    rintro rfl
    exact absurd h (by decide)
  rw [pushToPath_eq, if_neg (by simp [hdots, hne]), if_neg (by simp [h]), if_pos h,
    opened_of_one_lt hpath]

/-! ## Counting slashes -/

/-- How many slashes a path has. -/
def slashes (path : String) : Nat :=
  path.toList.count '/'

@[simp] theorem slashes_slash : slashes "/" = 1 := rfl

@[simp] theorem slashes_append (path more : String) :
    slashes (path ++ more) = slashes path + slashes more := by
  simp [slashes]

@[simp] theorem slashes_segmentText (special : Bool) (text : String) :
    slashes (segmentText special text) = 0 :=
  List.count_eq_zero.2 (slash_not_mem_segmentText special text)

theorem slashes_opened_le (path : String) : slashes (opened path) ≤ slashes path + 1 := by
  unfold opened
  split
  · omega
  · simp

theorem withoutLastSlash_sublist (path : String) :
    (withoutLastSlash path).toList.Sublist path.toList := by
  unfold withoutLastSlash
  split
  · simpa using List.take_sublist _ _
  · exact .refl _

theorem slashes_parent_le (path : String) : slashes (parent path) ≤ max 1 (slashes path) := by
  have hsegment : (dropLastSegment (withoutLastSlash path).toList).Sublist path.toList := by
    refine .trans ?_ (withoutLastSlash_sublist path)
    rw [dropLastSegment, ← List.reverse_sublist, List.reverse_reverse]
    exact List.dropWhile_sublist _
  unfold parent
  dsimp only
  split
  · exact Nat.le_max_left 1 _
  · have hcount := hsegment.count_le '/'
    rw [slashes, String.toList_ofList]
    exact Nat.le_trans hcount (Nat.le_max_right 1 _)

/-- Whatever is added, a path gets one slash more at most. -/
theorem slashes_pushToPath_le (special : Bool) (path text : String) :
    slashes (pushToPath special path text) ≤ slashes path + 1 := by
  have hopened := slashes_opened_le path
  have hparent := slashes_parent_le (opened path)
  rw [pushToPath_eq]
  split
  · omega
  split
  · omega
  split
  · exact hopened
  · simpa using hopened

theorem slashes_foldl_pushToPath_le (special : Bool) (path : String) (texts : List String) :
    slashes (texts.foldl (pushToPath special) path) ≤ slashes path + texts.length := by
  induction texts generalizing path with
  | nil => simp
  | cons text texts ih =>
    have hfirst := slashes_pushToPath_le special path text
    have hrest := ih (pushToPath special path text)
    rw [List.foldl_cons, List.length_cons]
    omega

theorem slashes_foldl_pushToPath {texts : List String} (hpath : 1 < path.length)
    (h : ∀ text ∈ texts, IsSegment text) :
    slashes (texts.foldl (pushToPath special) path) = slashes path + texts.length := by
  induction texts generalizing path with
  | nil => rfl
  | cons text texts ih =>
    rw [List.forall_mem_cons] at h
    rw [List.foldl_cons, ih (one_lt_length_pushToPath hpath h.1) h.2,
      pushToPath_of_isSegment hpath h.1]
    simp only [slashes_append, slashes_slash, slashes_segmentText, List.length_cons]
    omega

end ForgeSync.Url
