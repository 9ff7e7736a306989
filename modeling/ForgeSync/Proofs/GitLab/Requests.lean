import ForgeSync.GitLab.Forge
import ForgeSync.Proofs.Action.Calculus
import ForgeSync.Proofs.GitLab.Listings

/-!
# What a client sends

A transport may keep a record of the requests that it was given. Of a call to GitLab the record tells
which requests it has sent, whatever they were answered: a listing sends requests that read, and an
order only repeats a single request.

Main statements: `sendsOnly_run_perform`, `exists_sent_run_perform` and `sendsOnly_listing`.
-/

namespace ForgeSync.GitLab.Client

open Http (Method Request Transport)

variable {τ α : Type} {transport : Transport τ} {sent : τ → List Request}
  {allowed : Request → Prop} {c : Client}

/-- From one state to the next only requests of a kind were sent. -/
def SendsOnly (sent : τ → List Request) (allowed : Request → Prop) (s t : τ) : Prop :=
  ∃ new, sent t = sent s ++ new ∧ ∀ request ∈ new, allowed request

theorem SendsOnly.refl (sent : τ → List Request) (allowed : Request → Prop) (s : τ) :
    SendsOnly sent allowed s s :=
  ⟨[], (List.append_nil _).symm, nofun⟩

theorem SendsOnly.trans {s t u : τ} (h : SendsOnly sent allowed s t)
    (h' : SendsOnly sent allowed t u) : SendsOnly sent allowed s u := by
  obtain ⟨new, hnew, hallowed⟩ := h
  obtain ⟨more, hmore, hallowed'⟩ := h'
  refine ⟨new ++ more, by rw [hmore, hnew, List.append_assoc], fun request hmem => ?_⟩
  exact (List.mem_append.1 hmem).elim (hallowed request) (hallowed' request)

/-- The requests that an action adds to the record. -/
def sentBy (sent : τ → List Request) (act : Act τ α) (s : τ) : List Request :=
  (sent (act.runFrom s).2).drop (sent s).length

theorem SendsOnly.of_mem_sentBy (act : Act τ α) {s : τ} {request : Request}
    (h : SendsOnly sent allowed s (act.runFrom s).2)
    (hmem : request ∈ sentBy sent act s) : allowed request := by
  obtain ⟨new, hnew, hallowed⟩ := h
  rw [sentBy, hnew, List.drop_left] at hmem
  exact hallowed request hmem

/-- A request is recorded, unless it cannot be sent at all. -/
theorem sendsOnly_send (h : transport.Records sent) {request : Request}
    (hrequest : Http.isCallable request.url = true → allowed request) (s : τ) :
    SendsOnly sent allowed s (transport.send request s).2 := by
  unfold Transport.send
  split
  · exact .refl sent allowed s
  · split
    · exact .refl sent allowed s
    next hcallable =>
      have hallowed := hrequest (by simpa using hcallable)
      exact ⟨[request], h request s, by simpa using hallowed⟩

theorem sendsOnly_stateAt (h : transport.Records sent) {request : Request}
    (hrequest : Http.isCallable request.url = true → allowed request) (s : τ) (n : Nat) :
    SendsOnly sent allowed s (stateAt transport request s n) := by
  induction n with
  | zero => exact .refl sent allowed s
  | succ n ih => exact ih.trans (sendsOnly_send h hrequest _)

/-- However often a request is repeated, no other one is sent. -/
theorem sendsOnly_run_send (h : transport.Records sent) {method : Method} {url : Url}
    {body : Option Datum}
    (hrequest : Http.isCallable url = true → allowed (c.request method url body)) (s : τ) :
    SendsOnly sent allowed s ((c.send transport method url body).run s).2 := by
  obtain ⟨n, -, hrun, -⟩ := exists_repeats transport c method url body s
  rw [hrun]
  exact sendsOnly_stateAt h hrequest s (n + 1)

/-- An order sends nothing but itself, and only where it can be called. -/
theorem sendsOnly_run_perform (h : transport.Records sent) (method : Method) (url : Url)
    (body : Option Datum) (s : τ) :
    SendsOnly sent
      (fun request => request = c.request method url body ∧ Http.isCallable url = true) s
      ((c.perform transport method url body).run s).2 := by
  have hsend : SendsOnly sent
      (fun request => request = c.request method url body ∧ Http.isCallable url = true) s
      ((c.send transport method url body).run s).2 :=
    sendsOnly_run_send h (fun hcallable => ⟨by rfl, hcallable⟩) s
  rw [perform, run_bind]
  rcases hrun : (c.send transport method url body).run s with ⟨fault | r, after⟩ <;>
    rw [hrun] at hsend <;> exact hsend

/-- An order that can be sent is sent at least once. -/
theorem exists_sent_run_perform (h : transport.Records sent)
    (htoken : Http.isHeaderText c.token = true) (url : Url) (hurl : Http.isCallable url = true)
    (method : Method) (body : Option Datum) (s : τ) :
    ∃ n ≤ c.settings.maxRetries, sent ((c.perform transport method url body).run s).2 =
      sent s ++ List.replicate (n + 1) (c.request method url body) := by
  obtain ⟨n, hleast, hrun, -⟩ := exists_repeats transport c method url body s
  refine ⟨n, hleast.2 (.inl rfl), ?_⟩
  have hsent : sent (stateAt transport (c.request method url body) s (n + 1)) = _ :=
    sent_stateAt transport _ s h htoken hurl (n + 1)
  rw [← hsent, perform, run_bind, hrun]
  cases verdict (c.request method url body)
    (outcomeAt transport (c.request method url body) s n) <;> rfl

theorem sendsOnly_run_getPage (h : transport.Records sent) (decode : Datum → Option α) (url : Url)
    (page : Option String) (s : τ) :
    SendsOnly sent (·.method = .get) s ((c.getPage transport decode url page).run s).2 := by
  have hsend : SendsOnly sent (·.method = .get) s
      ((c.send transport .get (pageUrl url page) none).run s).2 :=
    sendsOnly_run_send h (fun _ => by rfl) s
  rw [reads_getPage]
  exact hsend

/-- A listing sends requests that read. -/
theorem sendsOnly_run_getPages (h : transport.Records sent) (decode : Datum → Option α) (url : Url)
    (budget : Nat) (page : Option String) (s : τ) :
    SendsOnly sent (·.method = .get) s ((c.getPages transport decode url budget page).run s).2 := by
  induction budget generalizing page s with
  | zero => exact .refl _ _ s
  | succ budget ih =>
    have hpage := sendsOnly_run_getPage (c := c) h decode url page s
    rw [run_getPages_succ]
    rcases hrun : (c.getPage transport decode url page).run s with ⟨fault | answer, after⟩ <;>
      rw [hrun] at hpage
    · exact hpage
    · dsimp only
      cases following page answer with
      | none => exact hpage
      | some next => exact hpage.trans (ih (some next) after)

theorem runFrom_act (call : Exchange τ α) (s : τ) :
    (Exchange.act call).runFrom s = ((call.run s).1.mapError Fault.toFailure, (call.run s).2) :=
  rfl

theorem sendsOnly_listing (h : transport.Records sent) (decode : Datum → Option α) (url : Url) (s : τ) :
    SendsOnly sent (·.method = .get) s ((c.listing transport decode url).runFrom s).2 := by
  have hpages := sendsOnly_run_getPages (c := c) h decode url (transport.patience s) none s
  rw [listing, Act.runFrom_bind_of_ok (Act.runFrom_get s), Act.runFrom_bind, runFrom_act]
  rcases hrun : (c.getPages transport decode url (transport.patience s) none).run s with
    ⟨fault | _ | items, after⟩ <;> rw [hrun] at hpages <;> exact hpages

end ForgeSync.GitLab.Client
