import ForgeSync.Proofs.GitLab.Requests
import ForgeSync.Proofs.Url.Segments

/-!
# Where the order to delete a variable goes

The address of a variable is that of its project with two more segments, so it has more slashes than
the address of a project or of all variables of one. A key that consists of dots adds no segment:
what is ordered for it goes to all variables of the project.

Main statements: `variableUrl_ne` keeps addresses apart, and `deleteVariable_targets` says it of the
requests that are sent.
-/

namespace ForgeSync.GitLab.Client

open Http (Request Transport)
open Url (IsSegment bare segmentText slashes pushToPath opened)

variable {τ α : Type} {transport : Transport τ} {sent : τ → List Request}

/-! ## Addresses of projects -/

section Addresses

variable {c : Client} {path key : String}

/-- Whether the address of a client follows the rules of the web or of local files. -/
def isSpecial (c : Client) : Bool :=
  Url.isSpecialScheme c.base.scheme

/-- The path behind which the projects of an instance are found. -/
def projectsPath (c : Client) : String :=
  (c.url ["projects"]).path

theorem path_projectUrl (c : Client) (path : String) (below : List String) :
    (c.projectUrl path below).path =
      (path :: below).foldl (pushToPath c.isSpecial) c.projectsPath :=
  rfl

theorem path_variableUrl (c : Client) (path key : String) :
    (c.projectUrl path ["variables", key]).path =
      pushToPath c.isSpecial (c.projectUrl path ["variables"]).path key :=
  rfl

theorem isSegment_variables : IsSegment "variables" := by
  decide

theorem segmentText_variables (special : Bool) : segmentText special "variables" = "variables" := by
  cases special <;> decide

theorem one_lt_length_projectsPath (c : Client) : 1 < c.projectsPath.length := by
  have htext : ∀ special, segmentText special "projects" = "projects" := by decide
  have hpath : c.projectsPath = opened (Url.withoutLastSlash c.base.path) ++ "projects" := by
    change pushToPath c.isSpecial _ "projects" = _
    rw [Url.pushToPath_eq, htext, if_neg (by decide), if_neg (by decide), if_neg (by decide)]
  rw [hpath, String.length_append]
  exact Nat.lt_add_left _ (by decide)

/-- All variables of a project have an address that ends with their name. -/
theorem path_variablesUrl (c : Client) (path : String) :
    (c.projectUrl path ["variables"]).path = opened (c.projectUrl path []).path ++ "variables" := by
  change pushToPath c.isSpecial (c.projectUrl path []).path "variables" = _
  rw [Url.pushToPath_eq, segmentText_variables, if_neg (by decide), if_neg (by decide),
    if_neg (by decide)]

theorem one_lt_length_projectUrl (hpath : IsSegment path) :
    1 < (c.projectUrl path []).path.length :=
  Url.one_lt_length_pushToPath (one_lt_length_projectsPath c) hpath

theorem one_lt_length_variablesUrl (c : Client) (path : String) :
    1 < (c.projectUrl path ["variables"]).path.length := by
  rw [path_variablesUrl, String.length_append]
  exact Nat.lt_add_left _ (by decide)

theorem slashes_projectUrl_le (c : Client) (path : String) (below : List String) :
    slashes (c.projectUrl path below).path ≤ slashes c.projectsPath + (below.length + 1) := by
  rw [path_projectUrl]
  exact Url.slashes_foldl_pushToPath_le _ _ _

theorem slashes_projectUrl (c : Client) {path : String} {below : List String}
    (h : ∀ text ∈ path :: below, IsSegment text) :
    slashes (c.projectUrl path below).path = slashes c.projectsPath + (below.length + 1) := by
  rw [path_projectUrl]
  exact Url.slashes_foldl_pushToPath (one_lt_length_projectsPath c) h

/-- A key that is no segment, but not written as dots either, has been hiding them. -/
theorem path_variableUrl_of_hidden (hpath : IsSegment path) (hkey : ¬IsSegment key)
    (hdot : key ≠ ".") (hdots : key ≠ "..") :
    (c.projectUrl path ["variables", key]).path = (c.projectUrl path ["variables"]).path ++ "/" ∨
      (c.projectUrl path ["variables", key]).path = (c.projectUrl path []).path ++ "/" := by
  have hlong := one_lt_length_variablesUrl c path
  rw [path_variableUrl]
  by_cases hbare : bare key = ['.']
  · exact .inl (Url.pushToPath_of_bare_dot hlong hbare hdot)
  · have hbare' : bare key = ['.', '.'] := by
      simpa [IsSegment, hbare] using hkey
    refine .inr ?_
    rw [path_variablesUrl, Url.opened_of_one_lt (one_lt_length_projectUrl hpath)] at hlong ⊢
    exact Url.pushToPath_of_bare_dots (by decide) hlong hbare' hdots

/-- Unless the key is written as dots, the address of a variable is not that of any project, nor of
all variables of any. -/
theorem variableUrl_ne (hpath : IsSegment path) (hdot : key ≠ ".") (hdots : key ≠ "..")
    (other : String) :
    (c.projectUrl path ["variables", key]).path ≠ (c.projectUrl other []).path ∧
      (c.projectUrl path ["variables", key]).path ≠ (c.projectUrl other ["variables"]).path := by
  have hother : slashes (c.projectUrl other []).path ≤ slashes c.projectsPath + 1 :=
    slashes_projectUrl_le c other []
  have hothers : slashes (c.projectUrl other ["variables"]).path ≤ slashes c.projectsPath + 2 :=
    slashes_projectUrl_le c other ["variables"]
  have hproject : slashes (c.projectUrl path []).path = slashes c.projectsPath + 1 :=
    slashes_projectUrl c (by simpa using hpath)
  have hvariables : slashes (c.projectUrl path ["variables"]).path = slashes c.projectsPath + 2 :=
    slashes_projectUrl c (by simpa using ⟨hpath, isSegment_variables⟩)
  -- a path with another slash behind all variables of a project has too many of them
  have hmore : ∀ p, slashes p = slashes (c.projectUrl path ["variables"]).path + 1 →
      p ≠ (c.projectUrl other []).path ∧ p ≠ (c.projectUrl other ["variables"]).path := by
    intro p hp
    constructor <;> rintro rfl <;> omega
  by_cases hkey : IsSegment key
  · apply hmore
    rw [path_variableUrl, Url.pushToPath_of_isSegment (one_lt_length_variablesUrl c path) hkey]
    simp
  · rcases path_variableUrl_of_hidden (c := c) hpath hkey hdot hdots with hpush | hpush <;>
      rw [hpush]
    · apply hmore
      simp
    · constructor
      · intro hsame
        have hslashes := congrArg slashes hsame
        rw [Url.slashes_append, Url.slashes_slash] at hslashes
        omega
      · intro hsame
        -- the one ends with a slash, the other with a name
        rw [path_variablesUrl] at hsame
        have hlast := congrArg (fun p => p.toList.getLast?) hsame
        simp at hlast

end Addresses

/-! ## What is sent -/

section Sending

variable {c : Client} {path path' key : String} {s : τ} {request : Request}

theorem isSome_authority_of_isCallable {below : List String}
    (h : Http.isCallable (c.projectUrl path below) = true) : c.base.authority.isSome = true := by
  have hhost : (c.projectUrl path below).host?.isSome = true := by
    simp only [Http.isCallable, Bool.and_eq_true] at h
    exact h.2
  cases hauthority : c.base.authority with
  | some a => rfl
  | none => simp [Url.host?, projectUrl, url, Url.addSegments, hauthority] at hhost

theorem of_mem_sentBy_deleteVariable (hsent : transport.Records sent)
    (hmem : request ∈ sentBy sent ((c.forge transport).deleteVariable path key) s) :
    request = c.request .delete (c.projectUrl path ["variables", key]) none ∧
      c.base.authority.isSome = true := by
  have hsends := sendsOnly_run_perform (c := c) hsent .delete
    (c.projectUrl path ["variables", key]) none s
  obtain ⟨hrequest, hcallable⟩ :=
    SendsOnly.of_mem_sentBy ((c.forge transport).deleteVariable path key) hsends hmem
  exact ⟨hrequest, isSome_authority_of_isCallable hcallable⟩

theorem sentBy_deleteVariable_ne_nil (hsent : transport.Records sent)
    (htoken : Http.isHeaderText c.token = true) (hcallable : Http.isCallable c.base = true) :
    sentBy sent ((c.forge transport).deleteVariable path key) s ≠ [] := by
  obtain ⟨n, -, hrun⟩ := exists_sent_run_perform hsent htoken
    (c.projectUrl path ["variables", key]) hcallable .delete none s
  have hafter : sent (((c.forge transport).deleteVariable path key).runFrom s).2 = _ := hrun
  rw [sentBy, hafter, List.drop_left]
  simp

/-- Behind a host the addresses of one interface are told apart by their paths. -/
theorem text_projectUrl_inj (h : c.base.authority.isSome = true) {below below' : List String} :
    (c.projectUrl path below).text = (c.projectUrl path' below').text ↔
      (c.projectUrl path below).path = (c.projectUrl path' below').path :=
  Url.text_addSegments_inj h

/-- An order to delete a variable is sent wherever it can be. Orders for different projects or keys go
to different addresses, but for tabs and line breaks, which addresses skip. No order goes to the
address of a project or of all variables of one, unless its key is one dot or two: then it goes to
all variables of its project. A key of which nothing is left but dots, or nothing at all, when tabs and
line breaks are skipped is sent to one of these addresses with a slash at its end, as
`path_variableUrl_of_hidden` says of the dots; that is the text of another address. -/
theorem deleteVariable_targets (hsent : transport.Records sent) (c : Client) (path key : String)
    (hpath : IsSegment path) (s : τ) :
    let orders path key s := sentBy sent ((c.forge transport).deleteVariable path key) s
    (Http.isHeaderText c.token = true → Http.isCallable c.base = true → orders path key s ≠ []) ∧
    ∀ request ∈ orders path key s, request.method = .delete ∧
      (∀ path' key' s', IsSegment path' → IsSegment key → IsSegment key' →
        ∀ request' ∈ orders path' key' s',
          request.url.text = request'.url.text ↔ bare path = bare path' ∧ bare key = bare key') ∧
      (key ≠ "." → key ≠ ".." → ∀ other,
        request.url.text ≠ (c.projectUrl other []).text ∧
        request.url.text ≠ (c.projectUrl other ["variables"]).text) ∧
      (key = "." ∨ key = ".." → request.url = c.projectUrl path ["variables"]) := by
  intro orders
  refine ⟨sentBy_deleteVariable_ne_nil hsent, fun request hmem => ?_⟩
  obtain ⟨rfl, hauthority⟩ := of_mem_sentBy_deleteVariable hsent hmem
  refine ⟨rfl, ?_, fun hdot hdots other => ?_, ?_⟩
  · intro path' key' s' hpath' hkey hkey' request' hmem'
    obtain ⟨rfl, -⟩ := of_mem_sentBy_deleteVariable hsent hmem'
    have hsegments : ∀ text ∈ [path, "variables", key], IsSegment text := by
      simpa using ⟨hpath, isSegment_variables, hkey⟩
    have hsegments' : ∀ text ∈ [path', "variables", key'], IsSegment text := by
      simpa using ⟨hpath', isSegment_variables, hkey'⟩
    rw [request, request, text_projectUrl_inj hauthority, path_projectUrl, path_projectUrl,
      Url.foldl_pushToPath_inj (one_lt_length_projectsPath c) hsegments hsegments']
    simp
  · rw [request, ne_eq, ne_eq, text_projectUrl_inj hauthority, text_projectUrl_inj hauthority]
    exact variableUrl_ne hpath hdot hdots other
  · rintro (rfl | rfl) <;> rfl

/-- A slash in a key is not taken for one of the address. Two dots are sent to all variables. -/
theorem deleteVariable_targets_slashAndDots :
    let orders path key := sentBy id
      ((sampleClient.forge (.ofScript [.ok { status := 204 }])).deleteVariable path key) []
    orders "acme/r" "A/B" ≠ [] ∧
    (∀ request ∈ orders "acme/r" "A/B", ∀ other,
      request.url.text ≠ (sampleClient.projectUrl other ["variables"]).text) ∧
    (∀ request ∈ orders "acme/r" "A/B", ∀ request' ∈ orders "acme/r" "A%2FB",
      request.url.text ≠ request'.url.text) ∧
    ∀ request ∈ orders "acme/r" "..",
      request.url = sampleClient.projectUrl "acme/r" ["variables"] := by
  have hsent := Transport.records_playing
    (fun n => ([.ok { status := 204 }][n]?).getD (.ok Http.exhausted)) 2
  obtain ⟨hnonempty, hslash⟩ :=
    deleteVariable_targets hsent sampleClient "acme/r" "A/B" (by decide) []
  obtain ⟨-, hdots⟩ := deleteVariable_targets hsent sampleClient "acme/r" ".." (by decide) []
  refine ⟨hnonempty (by decide) (by decide), fun request hmem other => ?_,
    fun request hmem request' hmem' => ?_, fun request hmem => ?_⟩
  · exact ((hslash request hmem).2.2.1 (by decide) (by decide) other).2
  · rw [ne_eq, (hslash request hmem).2.1 "acme/r" "A%2FB" [] (by decide) (by decide) (by decide)
      request' hmem']
    decide
  · exact (hdots request hmem).2.2.2 (.inr rfl)

/-- One dot and two dots are two keys of one project, and both are sent to all of its variables. -/
theorem deleteVariable_dots_collide :
    let orders key := (sentBy id
      ((sampleClient.forge (.ofScript [.ok { status := 204 }])).deleteVariable "acme/r" key) []).map
        fun request => (request.method, request.url.text)
    connect "https://forge.test" "token" { maxRetries := 5 } = .ok sampleClient ∧
    orders "." = orders ".." ∧
    orders ".." = [(.delete, "https://forge.test/api/v4/projects/acme%2Fr/variables")] ∧
    (sampleClient.projectUrl "acme/r" ["variables"]).text =
      "https://forge.test/api/v4/projects/acme%2Fr/variables" := by
  refine ⟨rfl, ?_, ?_, ?_⟩ <;> decide +kernel

end Sending

end ForgeSync.GitLab.Client
