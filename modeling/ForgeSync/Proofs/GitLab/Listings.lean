import ForgeSync.Proofs.GitLab.Retry
import ForgeSync.Proofs.Url.Percent
import Mathlib.Data.List.DropRight

/-!
# Listings in pages

A listing is asked for page by page, each page under the name that the header of the page before
gives it. While a page is asked for the server may fail, as often as the client lets it. What the
client has in the end is every item of every page, in order, if it gets to a page that names no
further one; if it cannot get a page, it has the fault of that page and nothing else.

Main statements: `run_getPages_of_leads` says what pages that lead on contribute, `getPages_lists`
what a whole listing comes to.
-/

namespace ForgeSync.Text

/-- Nothing is left of a text exactly if it holds nothing but blanks. -/
theorem isEmpty_trim (s : String) : (trim s).isEmpty = isBlankText s := by
  -- what is left after the first cut begins with no blank, so the second one leaves some of it
  have hall : (∀ c ∈ s.toList.dropWhile isBlank, isBlank c = true) ↔
      ∀ c ∈ s.toList, isBlank c = true := by
    rw [← List.dropWhile_eq_nil_iff, List.dropWhile_idempotent, List.dropWhile_eq_nil_iff]
  rw [Bool.eq_iff_iff]
  simpa [trim, trimOf, trimEndOf, trimStartOf, isBlankText] using hall

end ForgeSync.Text

namespace ForgeSync.GitLab.Client

open Http (Method NetworkFault Request Response Transport)

/-! ## Requests in a row -/

section Rows

variable {τ : Type} {transport : Transport τ}

/-- Requests that are sent one after the other meet these outcomes, and leave that state behind. -/
inductive Meets (transport : Transport τ) :
    List Request → τ → List (Except NetworkFault Response) → τ → Prop where
  | nil (s : τ) : Meets transport [] s [] s
  | cons {request : Request} {requests : List Request} {s after t : τ}
      {outcome : Except NetworkFault Response} {outcomes : List (Except NetworkFault Response)} :
      transport.send request s = (outcome, after) → Meets transport requests after outcomes t →
        Meets transport (request :: requests) s (outcome :: outcomes) t

/-- What a longer row meets is what its parts meet, one after the other. -/
theorem Meets.split {first second : List Request} {s t : τ}
    {early late : List (Except NetworkFault Response)}
    (h : Meets transport (first ++ second) s (early ++ late) t)
    (hlength : first.length = early.length) :
    ∃ between, Meets transport first s early between ∧ Meets transport second between late t := by
  induction first generalizing s early with
  | nil =>
    obtain rfl : early = [] := List.length_eq_zero_iff.1 hlength.symm
    exact ⟨s, .nil s, h⟩
  | cons request first ih =>
    cases early with
    | nil => simp at hlength
    | cons outcome early =>
      cases h with
      | cons hsend hrest =>
        obtain ⟨between, hfirst, hsecond⟩ := ih hrest (by simpa using hlength)
        exact ⟨between, .cons hsend hfirst, hsecond⟩

/-- A script gives one outcome to each request, and records the requests. -/
theorem meets_playing (outcome : Nat → Except NetworkFault Response) (patience : Nat)
    {requests : List Request}
    (hsendable : ∀ request ∈ requests, Http.isHeaderText request.token = true ∧
      Http.isCallable request.url = true) (sent : List Request) :
    Meets (.playing outcome patience) requests sent
      ((List.range' sent.length requests.length).map outcome) (sent ++ requests) := by
  induction requests generalizing sent with
  | nil => simpa using Meets.nil sent
  | cons request requests ih =>
    obtain ⟨htoken, hurl⟩ := hsendable request List.mem_cons_self
    have hrest := ih (fun r hr => hsendable r (List.mem_cons_of_mem request hr)) (sent ++ [request])
    rw [List.length_append, List.length_singleton, List.append_assoc,
      List.singleton_append] at hrest
    exact .cons (send_playing outcome patience htoken hurl sent) hrest

theorem meets_ofScript {script : List (Except NetworkFault Response)} {requests : List Request}
    (hsendable : ∀ request ∈ requests, Http.isHeaderText request.token = true ∧
      Http.isCallable request.url = true) (hlength : requests.length = script.length) :
    Meets (.ofScript script) requests [] script requests := by
  have hmeets := meets_playing (fun n => (script[n]?).getD (.ok Http.exhausted))
    (script.length + 1) hsendable []
  have hscript : (List.range' 0 requests.length).map
      (fun n => (script[n]?).getD (.ok Http.exhausted)) = script := by
    refine List.ext_getElem (by simp [hlength]) fun i _ hi => ?_
    simp [hi]
  rwa [List.length_nil, hscript] at hmeets

/-- After these failures a request is sent again, and after the final outcome it is not. -/
structure Closes (retries : Nat) (failures : List (Except NetworkFault Response))
    (final : Except NetworkFault Response) : Prop where
  transient : ∀ failure ∈ failures, MayRepeat .get failure
  length_le : failures.length ≤ retries
  final : failures.length = retries ∨ ¬MayRepeat .get final

theorem Closes.tail {retries : Nat} {failure final : Except NetworkFault Response}
    {failures : List (Except NetworkFault Response)}
    (h : Closes (retries + 1) (failure :: failures) final) : Closes retries failures final :=
  ⟨fun f hf => h.transient f (List.mem_cons_of_mem failure hf), Nat.le_of_succ_le_succ h.length_le,
    h.final.imp_left Nat.succ.inj⟩

/-- What comes of a request is what its last outcome stands for. -/
theorem run_sendAgain_of_closes {request : Request} (hget : request.method = .get)
    {retries : Nat} {failures : List (Except NetworkFault Response)}
    {final : Except NetworkFault Response} (hcloses : Closes retries failures final) {s t : τ}
    (hmeets : Meets transport (List.replicate (failures.length + 1) request) s
      (failures ++ [final]) t) :
    (sendAgain transport request retries).run s = (verdict request final, t) := by
  induction failures generalizing retries s with
  | nil =>
    obtain _ | ⟨hsend, _ | _⟩ := hmeets
    have honce : (sendOnce transport request).run s = (verdict request final, t) := by
      rw [sendOnce_run, outcomeAt, stateAt, stateAt, stateAt, hsend]
    rcases hcloses.final with rfl | hstop
    · exact honce
    · rw [sendAgain_of_not_repeat transport, ← sendOnce_run, honce]
      rwa [outcomeAt, stateAt, hsend, hget]
  | cons failure failures ih =>
    obtain _ | ⟨hsend, hrest⟩ := hmeets
    obtain ⟨retries, rfl⟩ : ∃ n, retries = n + 1 :=
      ⟨retries - 1, by have := hcloses.length_le; rw [List.length_cons] at this; omega⟩
    have hrepeat : MayRepeat request.method (outcomeAt transport request s 0) := by
      rw [outcomeAt, stateAt, hsend, hget]
      exact hcloses.transient failure List.mem_cons_self
    rw [sendAgain_of_repeat transport hrepeat, stateAt, stateAt, hsend]
    exact ih hcloses.tail hrest

end Rows

/-! ## Pages -/

/-- The header of a response names a page: a text that is not blank, without the blanks around
it. -/
def Names (r : Response) (next : String) : Prop :=
  ∃ value, r.header? "x-next-page" = some value ∧ Text.isBlankText value = false ∧
    next = Text.trim value

/-- A response without the header, or with a blank one. -/
def NamesNone (r : Response) : Prop :=
  ∀ value, r.header? "x-next-page" = some value → Text.isBlankText value = true

theorem Names.nextPageOf {r : Response} {next : String} (h : Names r next) :
    nextPageOf r = some next := by
  obtain ⟨value, hheader, hblank, rfl⟩ := h
  simp [Client.nextPageOf, hheader, Option.filter, Text.isEmpty_trim, hblank]

theorem NamesNone.nextPageOf {r : Response} (h : NamesNone r) : nextPageOf r = none := by
  cases hheader : r.header? "x-next-page" with
  | none => simp [Client.nextPageOf, hheader]
  | some value =>
    simp [Client.nextPageOf, hheader, Option.filter, Text.isEmpty_trim, h value hheader]

/-- A page as a server gives it: the name under which it is asked for, what goes wrong before the
response, the response and the items in it. -/
structure Served (α : Type) where
  cursor : Option String
  failures : List (Except NetworkFault Response)
  response : Response
  items : List α

section Pages

variable {α : Type}

/-- What the requests for a page meet. -/
def Served.outcomes (p : Served α) : List (Except NetworkFault Response) :=
  p.failures ++ [.ok p.response]

/-- The requests for a page; the first page of all is asked for as page 1. -/
def Served.requests (c : Client) (url : Url) (p : Served α) : List Request :=
  List.replicate (p.failures.length + 1) (c.request .get (pageUrl url p.cursor) none)

variable {τ : Type} {transport : Transport τ} {s t : τ} {c : Client} {decode : Datum → Option α}
  {url : Url} {p : Served α}

/-- A request asks for the page of that name, or for page 1: it gets the address of the listing with
two more fields in the query, and the name is all that the last one of them holds. -/
structure AsksFor (c : Client) (url : Url) (page : Option String) (request : Request) : Prop where
  method_eq : request.method = .get
  token_eq : request.token = c.token
  body_eq : request.body = none
  url_eq : ∃ value,
    request.url =
      { url with query := some (queryStart url ++ "per_page=100&page=" ++ value) } ∧
    Url.formDecoded value.toList = Text.utf8 (page.getD "1") ∧
    ∀ ch ∈ value.toList, ch ≠ '&' ∧ ch ≠ '#'

theorem asksFor_request (c : Client) (url : Url) (page : Option String) :
    AsksFor c url page (c.request .get (pageUrl url page) none) :=
  ⟨rfl, rfl, rfl, Url.formText (page.getD "1"), pageUrl_eq url page, Url.formDecoded_formText _,
    fun _ => Url.mem_formText⟩

theorem Served.asksFor_of_mem_requests {request : Request} (h : request ∈ p.requests c url) :
    AsksFor c url p.cursor request := by
  rw [List.eq_of_mem_replicate h]
  exact asksFor_request c url p.cursor

/-- The client may repeat its request until it gets to the response, and finds the items in it. -/
structure Served.Readable (c : Client) (decode : Datum → Option α) (p : Served α) : Prop where
  transient : ∀ failure ∈ p.failures, MayRepeat .get failure
  length_le : p.failures.length ≤ c.settings.maxRetries
  isSuccess : p.response.isSuccess = true
  decodeBody_eq : decodeBody (Datum.listOf? decode) p.response = .ok p.items

theorem not_mayRepeat_of_isSuccess {r : Response} (h : r.isSuccess = true) (method : Method) :
    ¬MayRepeat method (.ok r) := by
  simp only [Response.isSuccess, Bool.and_eq_true, decide_eq_true_eq] at h
  simp only [MayRepeat]
  omega

theorem Served.Readable.closes (h : p.Readable c decode) :
    Closes c.settings.maxRetries p.failures (.ok p.response) :=
  ⟨h.transient, h.length_le, .inr (not_mayRepeat_of_isSuccess h.isSuccess _)⟩

/-- What comes of a page is what the last outcome of its requests holds. -/
theorem run_getPage_of_closes {page : Option String}
    {failures : List (Except NetworkFault Response)} {final : Except NetworkFault Response}
    (hcloses : Closes c.settings.maxRetries failures final)
    (hmeets : Meets transport
      (List.replicate (failures.length + 1) (c.request .get (pageUrl url page) none)) s
      (failures ++ [final]) t) :
    (c.getPage transport decode url page).run s =
      ((verdict (c.request .get (pageUrl url page) none) final).bind (readPage decode), t) := by
  rw [reads_getPage, send, run_sendAgain_of_closes rfl hcloses hmeets]

theorem run_getPage_of_readable (h : p.Readable c decode)
    (hmeets : Meets transport (p.requests c url) s p.outcomes t) :
    (c.getPage transport decode url p.cursor).run s =
      (.ok ⟨p.items, nextPageOf p.response⟩, t) := by
  rw [run_getPage_of_closes h.closes hmeets]
  simp [verdict, classify, h.isSuccess, readPage, h.decodeBody_eq, Except.bind, Except.map]

/-! ## Chains of pages -/

/-- Pages lead from one name to another: each is asked for under the name that the page before
gives, and gives one itself that is not its own. Pages that all give different names do, but it
does no harm if a name comes back later. -/
inductive Leads : Option String → List (Served α) → Option String → Prop where
  | nil (cursor : Option String) : Leads cursor [] cursor
  | cons {p : Served α} {rest : List (Served α)} {next : String} {stop : Option String} :
      Names p.response next → some next ≠ p.cursor → Leads (some next) rest stop →
        Leads p.cursor (p :: rest) stop

theorem length_requests (c : Client) (url : Url) (pages : List (Served α)) :
    (pages.flatMap (Served.requests c url)).length =
      (pages.flatMap Served.outcomes).length := by
  simp [List.length_flatMap, Served.requests, Served.outcomes]

/-- What a listing comes to with more items in front. -/
def before (items : List α) (listing : Except Fault (Option (List α))) :
    Except Fault (Option (List α)) :=
  listing.map (Option.map (items ++ ·))

@[simp] theorem before_nil (listing : Except Fault (Option (List α))) :
    before [] listing = listing := by
  rcases listing with fault | _ | items <;> rfl

theorem before_before (first second : List α) (listing : Except Fault (Option (List α))) :
    before first (before second listing) = before (first ++ second) listing := by
  rcases listing with fault | _ | items <;> simp [before, Except.map]

/-- One turn of the loop. -/
theorem run_getPages_succ (budget : Nat) (page : Option String) :
    (c.getPages transport decode url (budget + 1) page).run s =
      match (c.getPage transport decode url page).run s with
      | (.error fault, after) => (.error fault, after)
      | (.ok answer, after) =>
        match following page answer with
        | none => (.ok (some answer.items), after)
        | some next =>
          let rest := (c.getPages transport decode url budget (some next)).run after
          (before answer.items rest.1, rest.2) := by
  rw [getPages, run_bind]
  rcases (c.getPage transport decode url page).run s with ⟨fault | answer, after⟩
  · rfl
  · dsimp only
    cases following page answer with
    | none => rfl
    | some next =>
      dsimp only
      rw [run_bind]
      rcases (c.getPages transport decode url budget (some next)).run after with
        ⟨fault | rest, final⟩ <;> rfl

/-- Pages that lead on give their items to the front of what the page that they lead to comes
to. -/
theorem run_getPages_of_leads {cursor stop : Option String} {pages : List (Served α)}
    (hleads : Leads cursor pages stop) (hreadable : ∀ p ∈ pages, p.Readable c decode)
    (hmeets : Meets transport (pages.flatMap (Served.requests c url)) s
      (pages.flatMap Served.outcomes) t) (budget : Nat) :
    (c.getPages transport decode url (budget + pages.length) cursor).run s =
      let rest := (c.getPages transport decode url budget stop).run t
      (before (pages.flatMap Served.items) rest.1, rest.2) := by
  induction hleads generalizing s with
  | nil cursor =>
    obtain _ | _ := hmeets
    simp
  | @cons p pages next stop hnames hother _ ih =>
    obtain ⟨between, hp, hpages⟩ := Meets.split hmeets (by simp [Served.requests, Served.outcomes])
    have hfollowing : following p.cursor ⟨p.items, nextPageOf p.response⟩ = some next := by
      simp [following, hnames.nextPageOf, Option.filter, hother.symm]
    rw [List.length_cons, ← Nat.add_assoc, run_getPages_succ,
      run_getPage_of_readable (hreadable p List.mem_cons_self) hp]
    dsimp only
    rw [hfollowing]
    dsimp only
    rw [ih (fun q hq => hreadable q (List.mem_cons_of_mem p hq)) hpages, before_before,
      List.flatMap_cons]

/-- A listing of which every page can be got in the end is listed in full and in order, and what
is sent is one series of requests for each page: first for page 1, then each time for the page that
the header before named, and the query of each says which page it asks for. A listing in which a page
cannot be got, or not be read, comes to the fault of that page, and nothing is sent after it. -/
theorem getPages_lists (transport : Transport τ) (c : Client) (decode : Datum → Option α) (url : Url)
    (s t : τ) (earlier : List (Served α)) (stop : Option String) (budget : Nat)
    (hleads : Leads none earlier stop) (hreadable : ∀ p ∈ earlier, p.Readable c decode)
    (hbudget : earlier.length < budget) :
    (∀ p : Served α, ∀ request ∈ p.requests c url, AsksFor c url p.cursor request) ∧
    AsksFor c url stop (c.request .get (pageUrl url stop) none) ∧
    (∀ last : Served α, last.cursor = stop → last.Readable c decode → NamesNone last.response →
      Meets transport ((earlier ++ [last]).flatMap (Served.requests c url)) s
        ((earlier ++ [last]).flatMap Served.outcomes) t →
      (c.getPages transport decode url budget none).run s =
        (.ok (some ((earlier ++ [last]).flatMap Served.items)), t)) ∧
    ∀ failures final fault, Closes c.settings.maxRetries failures final →
      (verdict (c.request .get (pageUrl url stop) none) final).bind (readPage decode) =
        .error fault →
      Meets transport
        (earlier.flatMap (Served.requests c url) ++
          List.replicate (failures.length + 1) (c.request .get (pageUrl url stop) none)) s
        (earlier.flatMap Served.outcomes ++ (failures ++ [final])) t →
      (c.getPages transport decode url budget none).run s = (.error fault, t) := by
  obtain ⟨more, rfl⟩ : ∃ more, budget = more + 1 + earlier.length :=
    ⟨budget - earlier.length - 1, by omega⟩
  refine ⟨fun p request hrequest => p.asksFor_of_mem_requests hrequest, asksFor_request c url stop,
    ?_, ?_⟩
  · rintro last rfl hlast hnone hmeets
    rw [List.flatMap_append, List.flatMap_append] at hmeets
    obtain ⟨between, hearlier, hend⟩ := hmeets.split (length_requests c url earlier)
    have hpage : Meets transport (last.requests c url) between last.outcomes t := by
      simpa using hend
    rw [run_getPages_of_leads hleads hreadable hearlier, run_getPages_succ,
      run_getPage_of_readable hlast hpage]
    simp [following, hnone.nextPageOf, before, Except.map]
  · intro failures final fault hcloses hfault hmeets
    obtain ⟨between, hearlier, hend⟩ := hmeets.split (length_requests c url earlier)
    rw [run_getPages_of_leads hleads hreadable hearlier, run_getPages_succ,
      run_getPage_of_closes hcloses hend, hfault]
    simp [before, Except.map]

end Pages

/-! ## A listing of two pages -/

/-- A page of two names behind a busy server; its header has blanks around the next page. -/
def firstNames : Served String where
  cursor := none
  failures := [.ok { status := 503 }]
  response := { status := 200, headers := [("X-Next-Page", " 2 ")],
                body := "[\"a\", \"b\"]".toUTF8.toList }
  items := ["a", "b"]

/-- The last page, with a blank header. -/
def lastNames : Served String where
  cursor := some "2"
  failures := []
  response := { status := 200, headers := [("X-Next-Page", "")], body := "[\"c\"]".toUTF8.toList }
  items := ["c"]

/-- The last page after it is gone. -/
def goneNames : Served String where
  cursor := some "2"
  failures := []
  response := { status := 404 }
  items := []

theorem firstNames_readable : firstNames.Readable sampleClient Datum.text? := by
  refine ⟨fun failure hfailure => ?_, by decide, by decide, by decide +kernel⟩
  obtain rfl := List.mem_singleton.1 hfailure
  exact .inr ⟨by decide, by decide, by decide⟩

theorem lastNames_readable : lastNames.Readable sampleClient Datum.text? :=
  ⟨fun _ hfailure => absurd hfailure List.not_mem_nil, by decide, by decide, by decide +kernel⟩

theorem firstNames_leads : Leads none [firstNames] (some "2") := by
  have hnames : Names firstNames.response "2" := ⟨" 2 ", by decide +kernel, by decide, by decide⟩
  exact .cons hnames (by decide) (.nil _)

theorem lastNames_namesNone : NamesNone lastNames.response := by
  intro value hvalue
  have hheader : lastNames.response.header? "x-next-page" = some "" := by decide +kernel
  obtain rfl : "" = value := Option.some.inj (hheader.symm.trans hvalue)
  decide

/-- The script of some pages is what the requests for them meet. -/
theorem meets_script (pages : List (Served String)) :
    Meets (.ofScript (pages.flatMap Served.outcomes))
      (pages.flatMap (Served.requests sampleClient sampleClient.base)) []
      (pages.flatMap Served.outcomes)
      (pages.flatMap (Served.requests sampleClient sampleClient.base)) := by
  have htoken : Http.isHeaderText sampleClient.token = true := by decide
  have hurl : Http.isCallable sampleClient.base = true := by decide
  refine meets_ofScript (fun request hmem => ?_) (length_requests _ _ pages)
  obtain ⟨p, -, hp⟩ := List.mem_flatMap.1 hmem
  obtain rfl := List.eq_of_mem_replicate hp
  exact ⟨htoken, hurl⟩

/-- The first page is asked for again under its name, and the second one under the name in the
header. -/
theorem getPages_lists_twoPages :
    ([firstNames, lastNames].flatMap (Served.requests sampleClient sampleClient.base)).map
        (·.url.query) =
      [some "per_page=100&page=1", some "per_page=100&page=1", some "per_page=100&page=2"] ∧
    (∀ request ∈ lastNames.requests sampleClient sampleClient.base,
      AsksFor sampleClient sampleClient.base (some "2") request) ∧
    (sampleClient.getPages (.ofScript ([firstNames, lastNames].flatMap Served.outcomes))
        Datum.text? sampleClient.base 2 none).run [] =
      (.ok (some ["a", "b", "c"]),
        [firstNames, lastNames].flatMap (Served.requests sampleClient sampleClient.base)) ∧
    (sampleClient.getPages (.ofScript ([firstNames, goneNames].flatMap Served.outcomes))
        Datum.text? sampleClient.base 2 none).run [] =
      (.error (.notFound "GET /api/v4: "),
        [firstNames, goneNames].flatMap (Served.requests sampleClient sampleClient.base)) := by
  have hreadable : ∀ p ∈ [firstNames], p.Readable sampleClient Datum.text? := by
    simpa using firstNames_readable
  refine ⟨by decide +kernel, ?_, ?_, ?_⟩
  · exact (getPages_lists (.ofScript []) sampleClient Datum.text? sampleClient.base [] []
      [firstNames] (some "2") 2 firstNames_leads hreadable (by decide)).1 lastNames
  · exact (getPages_lists _ sampleClient Datum.text? sampleClient.base [] _ [firstNames] (some "2")
      2 firstNames_leads hreadable (by decide)).2.2.1 lastNames rfl lastNames_readable
      lastNames_namesNone (meets_script [firstNames, lastNames])
  · have hgone : Closes 5 [] (.ok goneNames.response) :=
      ⟨by simp, by decide, .inr (by simp [MayRepeat, goneNames])⟩
    exact (getPages_lists _ sampleClient Datum.text? sampleClient.base [] _ [firstNames] (some "2")
      2 firstNames_leads hreadable (by decide)).2.2.2 [] (.ok goneNames.response)
      (.notFound "GET /api/v4: ") hgone rfl (meets_script [firstNames, goneNames])

end ForgeSync.GitLab.Client
