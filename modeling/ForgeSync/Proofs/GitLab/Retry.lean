import ForgeSync.GitLab.Client
import Mathlib.Order.Bounds.Basic

/-!
# How often a request is sent

A request that goes out several times in a row meets one outcome after the other, whatever the
server does in the meantime. The client gives up at the first outcome that does not let it repeat
the request, or when the budget is used up, and answers with what that outcome stands for; before
that it has only repeated itself.

Main statements: `mayRepeat_iff` says which outcomes let a request be repeated, `sendAgain_run`
what a budget of repetitions comes to, and `send_retries` puts them together for a client, for a
script of outcomes and for the calls that read a value.
-/

namespace ForgeSync.Http.Transport

/-- Every request that gets to the transport is recorded, once and at the end of the record. -/
def Records {τ : Type} (transport : Transport τ) (sent : τ → List Request) : Prop :=
  ∀ request s, sent (transport.exchange request s).2 = sent s ++ [request]

theorem records_playing (outcome : Nat → Except NetworkFault Response)
    (patience : Nat) : (playing outcome patience).Records id :=
  fun _ _ => rfl

end ForgeSync.Http.Transport

namespace ForgeSync.GitLab.Client

open Http (Method NetworkFault Request Response Transport)

/-! ## Calls in a row -/

section Runs

variable {τ α β : Type}

theorem run_bind (call : Exchange τ α) (next : α → Exchange τ β) (s : τ) :
    (call >>= next).run s =
      match call.run s with
      | (.ok a, after) => (next a).run after
      | (.error fault, after) => (.error fault, after) := by
  simp only [ExceptT.run, ExceptT.mk, bind, ExceptT.bind, ExceptT.bindCont, StateT.bind]
  rcases call s with ⟨fault | a, after⟩ <;> rfl

theorem run_attempt (call : Exchange τ α) (s : τ) :
    call.attempt.run s = (.ok (call.run s).1, (call.run s).2) := rfl

/-- One call is another one whose result is read after it has ended, whether or not it can be
read. -/
def Reads (call : Exchange τ β) (sent : Exchange τ α) (read : α → Except Fault β) : Prop :=
  ∀ s, call.run s = ((sent.run s).1.bind read, (sent.run s).2)

theorem reads_bind (sent : Exchange τ α) (read : α → Except Fault β) :
    Reads (sent >>= fun a => ExceptT.mk (pure (read a))) sent read := by
  intro s
  rw [run_bind]
  rcases sent.run s with ⟨fault | a, after⟩ <;> rfl

end Runs

/-! ## Repeating one request -/

section Repeated

variable {τ : Type} (transport : Transport τ) (request : Request) (s : τ)

/-- The state after a request was sent so many times. -/
def stateAt : Nat → τ
  | 0 => s
  | n + 1 => (transport.send request (stateAt n)).2

/-- What a request meets that was sent so many times before. -/
def outcomeAt (n : Nat) : Except NetworkFault Response :=
  (transport.send request (stateAt transport request s n)).1

/-- A request that can be sent is recorded each time. -/
theorem sent_stateAt {sent : τ → List Request} (h : transport.Records sent)
    (htoken : Http.isHeaderText request.token = true)
    (hurl : Http.isCallable request.url = true) (n : Nat) :
    sent (stateAt transport request s n) = sent s ++ List.replicate n request := by
  have hsend : ∀ s, transport.send request s = transport.exchange request s := by
    intro s
    simp [Transport.send, htoken, hurl]
  induction n with
  | zero => simp [stateAt]
  | succ n ih =>
    rw [stateAt, hsend, h, ih, List.replicate_succ', List.append_assoc]

/-- What happens from the first repetition on is what happens from the state it is sent in. -/
theorem stateAt_succ (n : Nat) :
    stateAt transport request (stateAt transport request s 1) n =
      stateAt transport request s (n + 1) := by
  induction n with
  | zero => rfl
  | succ n ih =>
    rw [stateAt, ih]
    rfl

theorem outcomeAt_succ (n : Nat) :
    outcomeAt transport request (stateAt transport request s 1) n =
      outcomeAt transport request s (n + 1) := by
  rw [outcomeAt, stateAt_succ, outcomeAt]

theorem sendOnce_run :
    (sendOnce transport request).run s =
      (verdict request (outcomeAt transport request s 0), stateAt transport request s 1) := rfl

end Repeated

/-! ## Which outcomes let a request be repeated -/

/-- Whether the outcome of a request lets a client send it again: no answer, too many requests or
a fault of the server; for a request that creates something only too many requests. -/
def MayRepeat (method : Method) : Except NetworkFault Response → Prop
  | .error _ => method ≠ .post
  | .ok r => r.status = 429 ∨ method ≠ .post ∧ 500 ≤ r.status ∧ r.status < 600

theorem ofStatus_eq_rateLimited_iff (status : Nat) (detail : String) (retryAfter : Option Nat) :
    (∃ wait, Fault.ofStatus status detail retryAfter = .rateLimited wait) ↔ status = 429 := by
  unfold Fault.ofStatus
  repeat' split
  all_goals simp
  all_goals omega

theorem isRetryable_post_iff (fault : Fault) :
    isRetryable .post fault = true ↔ ∃ wait, fault = .rateLimited wait := by
  cases fault <;> simp [isRetryable]

theorem isRetryable_of_ne_post {method : Method} (h : method ≠ .post) (fault : Fault) :
    isRetryable method fault = fault.isTransient := by
  simp [isRetryable, h]

/-- A response lets a request be repeated when the fault that it stands for does. -/
theorem isRetryable_ofStatus_iff (method : Method) (status : Nat) (detail : String)
    (retryAfter : Option Nat) :
    isRetryable method (Fault.ofStatus status detail retryAfter) = true ↔
      status = 429 ∨ method ≠ .post ∧ 500 ≤ status ∧ status < 600 := by
  by_cases hpost : method = .post
  · simp [hpost, isRetryable_post_iff, ofStatus_eq_rateLimited_iff]
  · simp [hpost, isRetryable_of_ne_post, Fault.ofStatus_isTransient_iff]

/-- An outcome lets a request be repeated exactly if it stands for a fault that does. -/
theorem mayRepeat_iff (request : Request) (outcome : Except NetworkFault Response) :
    MayRepeat request.method outcome ↔
      ∃ fault, verdict request outcome = .error fault ∧
        isRetryable request.method fault = true := by
  cases outcome with
  | error fault =>
    by_cases hpost : request.method = .post
    · simp [MayRepeat, verdict, hpost, isRetryable_post_iff]
    · simp [MayRepeat, verdict, hpost, isRetryable_of_ne_post, Fault.isTransient]
  | ok r =>
    cases hsuccess : r.isSuccess with
    | true =>
      have hrange : 200 ≤ r.status ∧ r.status < 300 := by
        simpa [Response.isSuccess] using hsuccess
      have hfinal : ¬MayRepeat request.method (.ok r) := by
        simp only [MayRepeat]
        omega
      simp [verdict, classify, hsuccess, hfinal]
    | false => simp [verdict, classify, hsuccess, MayRepeat, isRetryable_ofStatus_iff]

/-! ## A budget of repetitions -/

section Budget

variable {τ : Type} (transport : Transport τ)

theorem sendAgain_of_repeat {request : Request} {s : τ}
    (h : MayRepeat request.method (outcomeAt transport request s 0)) (retries : Nat) :
    (sendAgain transport request (retries + 1)).run s =
      (sendAgain transport request retries).run (stateAt transport request s 1) := by
  obtain ⟨fault, hfault, hretry⟩ := (mayRepeat_iff request _).1 h
  rw [sendAgain, run_bind, run_attempt, sendOnce_run, hfault]
  simp [hretry]

theorem sendAgain_of_not_repeat {request : Request} {s : τ}
    (h : ¬MayRepeat request.method (outcomeAt transport request s 0)) (retries : Nat) :
    (sendAgain transport request retries).run s =
      (verdict request (outcomeAt transport request s 0), stateAt transport request s 1) := by
  have honce := sendOnce_run transport request s
  cases hverdict : verdict request (outcomeAt transport request s 0) with
  | ok r =>
    rw [hverdict] at honce
    exact sendAgain_of_ok transport honce retries
  | error fault =>
    rw [hverdict] at honce
    have hfinal : isRetryable request.method fault = false := by
      by_contra hretry
      exact h ((mayRepeat_iff request _).2 ⟨fault, hverdict, by simpa using hretry⟩)
    exact sendAgain_of_final transport honce hfinal retries

/-- The first index at which a search stops, shifted past a place where it goes on. -/
theorem isLeast_succ {p : Nat → Prop} {budget n : Nat} (hzero : p 0)
    (h : IsLeast {i | i = budget ∨ ¬p (i + 1)} n) :
    IsLeast {i | i = budget + 1 ∨ ¬p i} (n + 1) := by
  obtain ⟨hmem, hleast⟩ := h
  constructor
  · rcases hmem with rfl | hstop
    · exact .inl rfl
    · exact .inr hstop
  · rintro (_ | i) hi
    · rcases hi with hbudget | hstop
      · omega
      · exact absurd hzero hstop
    · have hle : n ≤ i := hleast (hi.imp_left Nat.succ.inj)
      omega

/-- A budget of repetitions ends with the first outcome that is final or for which nothing is
left of the budget. -/
theorem sendAgain_run (request : Request) (retries : Nat) (s : τ) :
    ∃ n, IsLeast {i | i = retries ∨
        ¬MayRepeat request.method (outcomeAt transport request s i)} n ∧
      (sendAgain transport request retries).run s =
        (verdict request (outcomeAt transport request s n),
          stateAt transport request s (n + 1)) := by
  induction retries generalizing s with
  | zero =>
    exact ⟨0, ⟨.inl rfl, fun _ _ => Nat.zero_le _⟩, sendOnce_run transport request s⟩
  | succ retries ih =>
    by_cases hrepeat : MayRepeat request.method (outcomeAt transport request s 0)
    · obtain ⟨n, hleast, hrun⟩ := ih (stateAt transport request s 1)
      simp only [outcomeAt_succ, stateAt_succ] at hleast hrun
      refine ⟨n + 1, isLeast_succ hrepeat hleast, ?_⟩
      rw [sendAgain_of_repeat transport hrepeat, hrun]
    · exact ⟨0, ⟨.inr hrepeat, fun _ _ => Nat.zero_le _⟩,
        sendAgain_of_not_repeat transport hrepeat _⟩

end Budget

/-! ## Scripts of outcomes -/

section Scripts

variable (outcome : Nat → Except NetworkFault Response) (patience : Nat) {request : Request}

theorem send_playing (htoken : Http.isHeaderText request.token = true)
    (hurl : Http.isCallable request.url = true) (sent : List Request) :
    (Transport.playing outcome patience).send request sent =
      (outcome sent.length, sent ++ [request]) := by
  simp [Transport.send, htoken, hurl, Transport.playing]

theorem stateAt_playing (htoken : Http.isHeaderText request.token = true)
    (hurl : Http.isCallable request.url = true) (sent : List Request) (n : Nat) :
    stateAt (.playing outcome patience) request sent n = sent ++ List.replicate n request :=
  sent_stateAt _ request sent (Transport.records_playing outcome patience) htoken hurl n

theorem outcomeAt_playing (htoken : Http.isHeaderText request.token = true)
    (hurl : Http.isCallable request.url = true) (sent : List Request) (n : Nat) :
    outcomeAt (.playing outcome patience) request sent n = outcome (sent.length + n) := by
  rw [outcomeAt, stateAt_playing outcome patience htoken hurl,
    send_playing outcome patience htoken hurl]
  simp

end Scripts

/-! ## Clients -/

section Clients

variable {τ : Type} (transport : Transport τ) (c : Client)

/-- A client sends one request `n + 1` times from a state and answers with what the last outcome
stands for. -/
structure Repeats (method : Method) (url : Url) (body : Option Datum) (s : τ) (n : Nat) :
    Prop where
  isLeast : IsLeast {i | i = c.settings.maxRetries ∨
    ¬MayRepeat method (outcomeAt transport (c.request method url body) s i)} n
  run_send : (c.send transport method url body).run s =
    (verdict (c.request method url body) (outcomeAt transport (c.request method url body) s n),
      stateAt transport (c.request method url body) s (n + 1))
  tooEarly : method = .post → ∀ i < n, ∃ r,
    outcomeAt transport (c.request method url body) s i = .ok r ∧ r.status = 429

/-- What a client has gone past let it repeat the request. -/
theorem mayRepeat_of_lt {p : Nat → Prop} {budget n i : Nat}
    (h : IsLeast {i | i = budget ∨ ¬p i} n) (hi : i < n) : p i := by
  by_contra hstop
  have hle : n ≤ i := h.2 (.inr hstop)
  omega

theorem tooEarly_of_mayRepeat {outcome : Except NetworkFault Response}
    (h : MayRepeat .post outcome) : ∃ r, outcome = .ok r ∧ r.status = 429 := by
  cases outcome with
  | error fault => exact absurd rfl h
  | ok r => exact ⟨r, rfl, by simpa [MayRepeat] using h⟩

theorem exists_repeats (method : Method) (url : Url) (body : Option Datum) (s : τ) :
    ∃ n, Repeats transport c method url body s n := by
  obtain ⟨n, hleast, hrun⟩ :=
    sendAgain_run transport (c.request method url body) c.settings.maxRetries s
  refine ⟨n, hleast, hrun, ?_⟩
  rintro rfl i hi
  exact tooEarly_of_mayRepeat (mayRepeat_of_lt hleast hi)

/-- The request for one page of a listing. -/
def pageUrl (url : Url) (page : Option String) : Url :=
  (url.addQueryField "per_page" pageSize).addQueryField "page" (page.getD "1")

/-- The query of an address up to where another field is added. -/
def queryStart (url : Url) : String :=
  match url.query with
  | none => ""
  | some query => if query.isEmpty then "" else query ++ "&"

/-- A page is asked for by two more fields in the query: a hundred items to a page, and the name of
the page or 1. -/
theorem pageUrl_eq (url : Url) (page : Option String) :
    pageUrl url page =
      { url with
        query := some (queryStart url ++ "per_page=100&page=" ++ Url.formText (page.getD "1")) } := by
  have hnames : Url.formText "per_page" = "per_page" ∧ Url.formText pageSize = "100" ∧
      Url.formText "page" = "page" := by decide
  obtain ⟨hfirst, hsize, hsecond⟩ := hnames
  simp only [pageUrl, Url.addQueryField, hfirst, hsize, hsecond, queryStart]
  congr 2
  apply String.toList_inj.1
  cases url.query with
  | none => simp
  | some query => cases hempty : query.isEmpty <;> simp [hempty]

/-- What the answer to the request for a page holds. -/
def readPage {α : Type} (decode : Datum → Option α) (r : Response) : Except Fault (Page α) :=
  (decodeBody (Datum.listOf? decode) r).map fun items => ⟨items, nextPageOf r⟩

theorem reads_getPage {α : Type} (decode : Datum → Option α) (url : Url) (page : Option String) :
    Reads (c.getPage transport decode url page) (c.send transport .get (pageUrl url page) none)
      (readPage decode) := by
  have hread : ∀ r : Response,
      (do let items ← ExceptT.mk (pure (decodeBody (Datum.listOf? decode) r))
          return ⟨items, nextPageOf r⟩ : Exchange τ (Page α)) =
        ExceptT.mk (pure (readPage decode r)) := by
    intro r
    rw [readPage]
    cases decodeBody (Datum.listOf? decode) r <;> rfl
  have hpage : c.getPage transport decode url page =
      c.send transport .get (pageUrl url page) none >>= fun r =>
        ExceptT.mk (pure (readPage decode r)) := by
    simp only [getPage, pageUrl, hread]
  rw [hpage]
  exact reads_bind _ _

/-- A request is sent until an outcome is final or the budget is used up. Of a script every
request takes one outcome, and every one has the method, the address and the body that were given and
the credential of the client. A value is read off the answer once. -/
theorem send_retries (method : Method) (url : Url) (body : Option Datum) :
    (∀ s, ∃ n, Repeats transport c method url body s n) ∧
    (∀ outcome patience sent, Http.isHeaderText c.token = true → Http.isCallable url = true →
      let request : Request := { method, url, token := c.token, body }
      ∃ n, IsLeast {i | i = c.settings.maxRetries ∨
          ¬MayRepeat method (outcome (sent.length + i))} n ∧
        (c.send (.playing outcome patience) method url body).run sent =
          (verdict request (outcome (sent.length + n)), sent ++ List.replicate (n + 1) request) ∧
        (method = .post → ∀ i < n, ∃ r, outcome (sent.length + i) = .ok r ∧ r.status = 429)) ∧
    ∀ {α : Type} (decode : Datum → Option α),
      Reads (c.get transport decode url) (c.send transport .get url none) (decodeBody decode) ∧
      (∀ d, Reads (c.post transport decode url d) (c.send transport .post url (some d))
        (decodeBody decode)) ∧
      ∀ page, Reads (c.getPage transport decode url page)
        (c.send transport .get (pageUrl url page) none) (readPage decode) := by
  refine ⟨exists_repeats transport c method url body, ?_, ?_⟩
  · intro outcome patience sent htoken hurl request
    obtain ⟨n, hleast, hrun, hpost⟩ :=
      exists_repeats (.playing outcome patience) c method url body sent
    have hcall : Http.isCallable (c.request method url body).url = true := hurl
    simp only [outcomeAt_playing outcome patience htoken hcall,
      stateAt_playing outcome patience htoken hcall] at hleast hrun hpost
    exact ⟨n, hleast, hrun, hpost⟩
  · intro α decode
    exact ⟨reads_bind _ _, fun d => reads_bind _ _, reads_getPage transport c decode url⟩

end Clients

/-- A client that may repeat a request five times. -/
def sampleClient : Client where
  endpoint := "https://forge.test"
  base := { scheme := "https", authority := some { host := "forge.test" }, path := "/api/v4" }
  token := "token"
  settings := { maxRetries := 5 }

/-- A server that is busy for two requests and breaks at the third. -/
def sampleOutcome (n : Nat) : Except NetworkFault Response :=
  .ok { status := if n < 2 then 429 else 503 }

theorem send_retries_busyTwice :
    (sampleClient.send (.playing sampleOutcome 1) .post sampleClient.base none).run [] =
      (.error (.server 503 "POST /api/v4: "),
        List.replicate 3 (sampleClient.request .post sampleClient.base none)) := by
  obtain ⟨n, ⟨hstop, hleast⟩, hrun, -⟩ :=
    (send_retries (.playing sampleOutcome 1) sampleClient .post sampleClient.base none).2.1
      sampleOutcome 1 [] (by decide) (by decide)
  have hle : n ≤ 2 := hleast (.inr (by simp [MayRepeat, sampleOutcome]))
  have hge : 2 ≤ n := by
    by_contra hlt
    have hlt : n < 2 := by omega
    simp [MayRepeat, sampleOutcome, sampleClient] at hstop
    omega
  obtain rfl : n = 2 := by omega
  rw [hrun]
  rfl

end ForgeSync.GitLab.Client
