import ForgeSync.Forge.Scripted
import ForgeSync.Proofs.Forge.Circling
import ForgeSync.Proofs.GitLab.Listings

/-!
# When a listing ends

Of a server whose answer to a page never changes, a client gets a whole listing or goes on asking
for the same pages. Which of the two it is depends on the names that the pages give, and is the same
for the listing of a repository's files, whatever forge it is at, and for the listings of GitLab.

Main statement: `endsUnlessCircling_listings`; `circling_never_ends` has two pages that name each
other.
-/

namespace ForgeSync.GitLab.Client

open Http (NetworkFault Response Transport)
open Paging (Circles EndsUnlessCircling EndsWithin GoesOn cursorOf namedBy)

variable {τ α : Type} {transport : Transport τ} {c : Client} {decode : Datum → Option α} {url : Url}
  {server : Option String → Except NetworkFault Response}

/-- What a client makes of a page of a server whose answer depends on the page only. -/
def answerOf (c : Client) (decode : Datum → Option α) (url : Url)
    (server : Option String → Except NetworkFault Response) (page : Option String) :
    Except Fault (Page α) :=
  (verdict (c.request .get (pageUrl url page) none) (server page)).bind (readPage decode)

/-- However often such a page is asked for, the last answer is as the first. -/
theorem run_getPage_of_steady
    (hserver : ∀ page s,
      (transport.send (c.request .get (pageUrl url page) none) s).1 = server page)
    (page : Option String) (s : τ) :
    ((c.getPage transport decode url page).run s).1 = answerOf c decode url server page := by
  obtain ⟨n, -, hrun, -⟩ := exists_repeats transport c .get (pageUrl url page) none s
  rw [reads_getPage, hrun, outcomeAt, hserver]
  rfl

theorem before_eq_ok_none_iff {items : List α} {listing : Except Fault (Option (List α))} :
    before items listing = .ok none ↔ listing = .ok none := by
  rcases listing with fault | _ | rest <;> simp [before, Except.map]

/-- The pages of a server that does not change end within a budget exactly if the loop does. -/
theorem getPages_ended_iff
    (hserver : ∀ page s,
      (transport.send (c.request .get (pageUrl url page) none) s).1 = server page)
    (budget : Nat) (page : Option String) (s : τ) :
    ((c.getPages transport decode url budget page).run s).1 ≠ .ok none ↔
      EndsWithin (GoesOn (namedBy Page.nextPage (answerOf c decode url server))) budget page := by
  induction budget generalizing page s with
  | zero => exact ⟨fun h => absurd rfl h, False.elim⟩
  | succ budget ih =>
    have hanswer : ((c.getPage transport decode url page).run s).1 =
        answerOf c decode url server page :=
      run_getPage_of_steady hserver page s
    rw [run_getPages_succ]
    rcases hrun : (c.getPage transport decode url page).run s with ⟨fault | answer, after⟩
    · rw [hrun] at hanswer
      have hlast : namedBy Page.nextPage (answerOf c decode url server) page = none := by
        simp [namedBy, ← hanswer]
      exact iff_of_true (by simp) (Paging.endsWithin_of_named_eq_none hlast budget)
    · rw [hrun] at hanswer
      rw [Paging.endsWithin_succ_iff (Paging.goesOn_namedBy_iff hanswer.symm), ← following]
      dsimp only
      cases hnext : following page answer with
      | none => simp
      | some next => simpa [before_eq_ok_none_iff] using ih (some next) after

/-- A listing of files of a forge whose pages do not change, and a listing of a GitLab whose pages
do not change: both end within one page more than they have cursors, unless the pages lead around
in a circle; then they do not end. -/
theorem endsUnlessCircling_listings {σ : Type} (forge : Forge σ) (path : String)
    (pages : Option String → Except Failure TreePage) (cursors : Finset String) (s : σ)
    (transport : Transport τ) (c : Client) (decode : Datum → Option α) (url : Url)
    (server : Option String → Except NetworkFault Response) (names : Finset String) (t : τ)
    (hpages : ∀ cursor s, ((forge.listTreePage path cursor).runFrom s).1 = pages cursor)
    (hfailures : ∀ cursor, pages cursor ≠ .error .unfinished)
    (hcursors : ∀ cursor next, namedBy cursorOf pages cursor = some next → next ∈ cursors)
    (hserver : ∀ page t,
      (transport.send (c.request .get (pageUrl url page) none) t).1 = server page)
    (hnames : ∀ page next,
      namedBy Page.nextPage (answerOf c decode url server) page = some next → next ∈ names) :
    (EndsUnlessCircling (namedBy cursorOf pages) cursors.card fun budget =>
      (((Paging.allowing forge budget).fetchTree path).runFrom s).1 ≠ .error .unfinished) ∧
    EndsUnlessCircling (namedBy Page.nextPage (answerOf c decode url server)) names.card
      fun budget => ((c.getPages transport decode url budget none).run t).1 ≠ .ok none :=
  ⟨Paging.endsUnlessCircling hcursors fun budget =>
      Paging.fetchTree_ended_iff hpages hfailures budget s,
    Paging.endsUnlessCircling hnames fun budget => getPages_ended_iff hserver budget none t⟩

/-! ## Two pages that name each other -/

/-- A forge whose pages of files do not change. -/
def steadyForge (pages : Option String → Except Failure TreePage) :
    Forge Forge.Scripted.State :=
  { Forge.Scripted.forge "https://git.example" with
    listTreePage := fun _ cursor => Act.ofExcept (pages cursor) }

/-- A GitLab whose answers do not change. -/
def steadyTransport (answer : Url → Response) : Transport Unit where
  exchange request := pure (.ok (answer request.url))
  patience _ := 1

theorem send_steadyTransport (answer : Url → Response) (page : Option String) (t : Unit) :
    ((steadyTransport answer).send
        (sampleClient.request .get (pageUrl sampleClient.base page) none) t).1 =
      .ok (answer (pageUrl sampleClient.base page)) := by
  have htoken : Http.isHeaderText sampleClient.token = true := by decide
  have hurl : Http.isCallable sampleClient.base = true := by decide
  have hpage : Http.isCallable (pageUrl sampleClient.base page) = true := hurl
  simp only [Transport.send, request, htoken, hpage, Bool.not_true, Bool.false_eq_true, if_false]
  rfl

/-- The first page of files names page 1, and the pages 1 and 2 name each other. -/
def circlingPages : Option String → Except Failure TreePage
  | none => .ok { paths := ["a.yml"], nextPage := some "1" }
  | some page =>
    if page = "1" then .ok { paths := ["b.yml"], nextPage := some "2" }
    else .ok { paths := ["c.yml"], nextPage := some "1" }

theorem circlingPages_ne_unfinished (cursor : Option String) :
    circlingPages cursor ≠ .error .unfinished := by
  rcases cursor with _ | page
  · simp [circlingPages]
  · by_cases h : page = "1" <;> simp [circlingPages, h]

theorem mem_of_named_circlingPages (cursor : Option String) (next : String)
    (h : namedBy cursorOf circlingPages cursor = some next) :
    next ∈ ({"1", "2"} : Finset String) := by
  rcases cursor with _ | page
  · simp_all [namedBy, circlingPages, cursorOf]
  · by_cases hpage : page = "1" <;> simp_all [namedBy, circlingPages, cursorOf]

theorem circles_circlingPages : Circles (GoesOn (namedBy cursorOf circlingPages)) none :=
  Paging.circles_of_pair "1" "2" (by decide) (by decide) (by decide) (by decide)

/-- An empty page that names another one. -/
def emptyPage (next : String) : Response where
  status := 200
  headers := [("x-next-page", next)]
  body := "[]".toUTF8.toList

/-- A GitLab whose page 2 names page 1; the others name page 2. -/
def circlingAnswer (url : Url) : Response :=
  if url = pageUrl sampleClient.base (some "2") then emptyPage "1" else emptyPage "2"

/-- What a client finds named on the pages of a GitLab that answers with empty pages. -/
def namedInEmptyPages (answer : Url → Response) : Option String → Option String :=
  namedBy Page.nextPage (answerOf sampleClient Datum.text? sampleClient.base fun page =>
    .ok (answer (pageUrl sampleClient.base page)))

theorem namedInEmptyPages_eq {answer : Url → Response} {page : Option String} {next : String}
    (h : answer (pageUrl sampleClient.base page) = emptyPage next) :
    namedInEmptyPages answer page = nextPageOf (emptyPage next) := by
  have hsuccess : (emptyPage next).isSuccess = true := rfl
  have hbody : decodeBody (Datum.listOf? Datum.text?) (emptyPage next) = .ok [] :=
    (by decide +kernel : decodeBody (Datum.listOf? Datum.text?) (emptyPage "") = .ok [])
  simp [namedInEmptyPages, namedBy, answerOf, h, verdict, classify, hsuccess, Except.bind, readPage,
    hbody, Except.map]

theorem nextPageOf_emptyPage_one : nextPageOf (emptyPage "1") = some "1" := by
  decide +kernel

theorem nextPageOf_emptyPage_two : nextPageOf (emptyPage "2") = some "2" := by
  decide +kernel

theorem mem_of_named_circlingAnswer (page : Option String) (next : String)
    (h : namedInEmptyPages circlingAnswer page = some next) :
    next ∈ ({"1", "2"} : Finset String) := by
  by_cases hpage : pageUrl sampleClient.base page = pageUrl sampleClient.base (some "2")
  · rw [namedInEmptyPages_eq (if_pos hpage), nextPageOf_emptyPage_one] at h
    simp_all
  · rw [namedInEmptyPages_eq (if_neg hpage), nextPageOf_emptyPage_two] at h
    simp_all

theorem circles_circlingAnswer : Circles (GoesOn (namedInEmptyPages circlingAnswer)) none := by
  -- the first page is page 1
  have hother : pageUrl sampleClient.base none ≠ pageUrl sampleClient.base (some "2") := by
    decide +kernel
  refine Paging.circles_of_pair "2" "1" ?_ ?_ ?_ (by decide)
  · exact (namedInEmptyPages_eq (if_neg hother)).trans nextPageOf_emptyPage_two
  · exact (namedInEmptyPages_eq (if_pos rfl)).trans nextPageOf_emptyPage_one
  · exact (namedInEmptyPages_eq (if_neg hother)).trans nextPageOf_emptyPage_two

/-- Neither loop ends on pages that never change and name only two cursors. -/
theorem circling_never_ends :
    (¬∀ (pages : Option String → Except Failure TreePage) (cursors : Finset String),
      (∀ cursor, pages cursor ≠ .error .unfinished) →
      (∀ cursor next, namedBy cursorOf pages cursor = some next → next ∈ cursors) →
      ∃ budget, (((Paging.allowing (steadyForge pages) budget).fetchTree "acme/r").runFrom {}).1 ≠
        .error .unfinished) ∧
    ¬∀ (answer : Url → Response) (names : Finset String),
      (∀ page next, namedInEmptyPages answer page = some next → next ∈ names) →
      ∃ budget, ((sampleClient.getPages (steadyTransport answer) Datum.text? sampleClient.base
        budget none).run ()).1 ≠ .ok none := by
  constructor
  · intro hends
    obtain ⟨budget, hended⟩ := hends circlingPages {"1", "2"} circlingPages_ne_unfinished
      mem_of_named_circlingPages
    have hwithin : EndsWithin (GoesOn (namedBy cursorOf circlingPages)) budget none :=
      (Paging.fetchTree_ended_iff (fun _ _ => rfl) circlingPages_ne_unfinished budget _).1 hended
    exact hwithin.not_circles circles_circlingPages
  · intro hends
    obtain ⟨budget, hended⟩ := hends circlingAnswer {"1", "2"} mem_of_named_circlingAnswer
    have hwithin :=
      (getPages_ended_iff (send_steadyTransport circlingAnswer) budget none ()).1 hended
    exact hwithin.not_circles circles_circlingAnswer

/-- A first page of files that names another one, which is the last. -/
def straightPages (cursor : Option String) : Except Failure TreePage :=
  .ok { nextPage := if cursor = none then some "1" else none }

theorem endsWithin_straightPages :
    EndsWithin (GoesOn (namedBy cursorOf straightPages)) 2 none := by
  rintro second ⟨rfl, -, -⟩ third ⟨rfl, hsome, -⟩
  exact hsome (by decide)

theorem endsUnlessCircling_listings_straightAndCircling :
    (∀ budget, 1 < budget →
      (((Paging.allowing (steadyForge straightPages) budget).fetchTree "acme/r").runFrom {}).1 ≠
        .error .unfinished) ∧
    ∀ budget, ((sampleClient.getPages (steadyTransport circlingAnswer) Datum.text?
      sampleClient.base budget none).run ()).1 = .ok none := by
  obtain ⟨htree, hgitlab⟩ := endsUnlessCircling_listings (steadyForge straightPages) "acme/r"
    straightPages {"1"} {} (steadyTransport circlingAnswer) sampleClient Datum.text?
    sampleClient.base (fun page => .ok (circlingAnswer (pageUrl sampleClient.base page)))
    {"1", "2"} () (fun _ _ => rfl) (by simp [straightPages])
    (by intro cursor; cases cursor <;> simp [namedBy, cursorOf, straightPages, Option.filter])
    (send_steadyTransport circlingAnswer) mem_of_named_circlingAnswer
  constructor
  · exact htree.of_not_circles endsWithin_straightPages.not_circles
  · intro budget
    simpa using hgitlab.of_circles circles_circlingAnswer budget

end ForgeSync.GitLab.Client
