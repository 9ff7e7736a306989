import ForgeSync.Proofs.Datum.Fields
import ForgeSync.Proofs.Calendar.Timestamp
import ForgeSync.Proofs.Forge.TokenSelection
import ForgeSync.Proofs.GitLab.Requests

/-!
# Tokens that end on a date

GitLab is asked for the end of a token as a date, and tells it as a date again. The time of the day
is lost on the way, so a token ends less than a day before it should. That leaves it in use for
nineteen days, and it is replaced after twenty.

Main statements: `decodeToken?_tokenAnswer` says what comes back, and `token_kept_until_replaced` for
how long it is kept.
-/

namespace ForgeSync

open Calendar (Civil Instant)

/-! ## Midnights -/

namespace Calendar.Instant

/-- The instant at which the day of another one begins. -/
theorem ofDate_date (t : Instant) : ofDate t.date = ⟨t.second / secondsPerDay * secondsPerDay, 0⟩ := by
  rw [ofDate, date, Civil.toDays_ofDays]

variable {now t : Instant} {days more : Nat}

theorem ofDate_date_le (t : Instant) : ofDate t.date ≤ t := by
  rw [ofDate_date]
  simp only [LE.le, lt_def, secondsPerDay]
  omega

/-- Less than a day is lost. -/
theorem addDays_lt_ofDate_date (now : Instant) (days : Nat) :
    now.addDays days < ofDate (now.addDays (days + 1)).date := by
  rw [ofDate_date]
  left
  simp only [addDays, secondsPerDay]
  omega

/-- Until so many days from now no more days than those are missing to the midnight. -/
theorem addDays_lt_ofDate_date_of_le (h : t ≤ now.addDays days) :
    t.addDays more < ofDate (now.addDays (days + more + 1)).date := by
  rw [ofDate_date]
  left
  simp only [LE.le, lt_def] at h
  simp only [addDays, secondsPerDay] at h ⊢
  omega

/-- One day later they are. In a leap second, which is counted as the second before it, this is so
because midnight is the first instant of its second. -/
theorem ofDate_date_le_addDays_of_le (h : now.addDays days ≤ t) :
    ofDate (now.addDays (days + more)).date ≤ t.addDays more := by
  rw [ofDate_date]
  simp only [LE.le, lt_def] at h ⊢
  simp only [addDays, secondsPerDay] at h ⊢
  omega

end Calendar.Instant

namespace GitLab

/-! ## Dates on the way to GitLab and back -/

/-- A member of a record that is given as a map. -/
def memberOf? (name : String) : Datum → Option Datum
  | .map members => Datum.lookup? members name
  | _ => none

/-- A token as GitLab tells it, with a date on which it ends. -/
def tokenAnswer (t : AccessTokenRecord) (date : Datum) : Datum :=
  .map <| Datum.given [("id", some (.ofWord t.uid)), ("name", some (.text t.name)),
    ("active", some (.bool t.active)), ("revoked", some (.bool t.revoked)),
    ("expires_at", some date), ("scopes", some (Datum.ofTexts t.scopes)),
    ("token", t.token.map .text)]

/-- What is asked for is the date on which the token should end. -/
theorem expires_at_tokenBody (request : NewAccessToken) :
    memberOf? "expires_at" (tokenBody request) = some (.text request.expiresAt.date.text) := by
  simp [memberOf?, tokenBody, Datum.lookup?]

theorem option_decodeDate? {date : Civil} (h : date.isValid = true) :
    Datum.option decodeDate? (some (.text date.text)) = some (some date) := by
  simp [Datum.option, Datum.optional?, Datum.isNull, decodeDate?, Civil.read?_text h]

/-- A token ends at the beginning of its date. -/
theorem decodeToken?_tokenAnswer (t : AccessTokenRecord) {date : Civil} (h : date.isValid = true) :
    decodeToken? (tokenAnswer t (.text date.text)) =
      some { t with expiresAt := Instant.ofDate date } := by
  rw [decodeToken?, tokenAnswer, Datum.fields?_given (by rfl) (by decide)]
  simp [Datum.word64?_ofWord, Datum.bool?, Datum.texts?_ofTexts, option_decodeDate? h,
    Datum.option_text, endOfToken]

namespace Client

open Http (Request Transport)

variable {τ : Type} {transport : Transport τ} {sent : τ → List Request} {c : Client}
  {listed : List AccessTokenRecord} {token : AccessTokenRecord} {s after : τ} {now : Instant}

/-- A token that lasts is granted under its identifier, or another one that has it as well and ends
no earlier. Only requests that read are sent. -/
theorem runFrom_ensureAccessToken_of_lasts (hsent : transport.Records sent) (path name : String)
    (hlisted : ((c.forge transport).listAccessTokens path).runFrom s = (.ok listed, after))
    (hmem : token ∈ listed) (hlasts : token.Lasts now) :
    let run := ((c.forge transport).ensureAccessToken now path name (some token.uid)).runFrom s
    (∃ found ∈ listed, found.uid = token.uid ∧ token.expiresAt ≤ found.expiresAt ∧
      run.1 = .ok ⟨token.uid, found.expiresAt, none⟩) ∧
    SendsOnly sent (·.method = .get) s run.2 := by
  intro run
  have hsuits : Suits now (some token.uid) token := ⟨hlasts, by simp⟩
  cases hselected : selectToken (usableTokens listed now) (some token.uid) with
  | none => exact absurd hsuits (selectToken_eq_none_iff.1 hselected token hmem)
  | some found =>
    have hnewest := selectToken_eq_some_iff.1 hselected
    have huid : found.uid = token.uid := hnewest.1.2 _ rfl
    have hrun : run = (.ok ⟨found.uid, found.expiresAt, none⟩, after) :=
      Forge.runFrom_ensureAccessToken_of_selected hlisted hselected
    refine ⟨⟨found, hnewest.mem, huid, hnewest.le hmem hsuits, by rw [hrun, huid]⟩, ?_⟩
    have hlisting := sendsOnly_listing (c := c) hsent decodeToken?
      (c.projectUrl path ["access_tokens"]) s
    rw [show (c.listing transport _ _).runFrom s = _ from hlisted] at hlisting
    rw [hrun]
    exact hlisting

/-- A new token is asked for with a date, and GitLab tells that date of it. So it ends in the last
day of its thirty days. Listed as working, it is granted under its identifier for nineteen days,
without a request for another one, and it is not usable after twenty. -/
theorem token_kept_until_replaced (now : Instant) (name : String)
    (hfirst : 0 ≤ (now.addDays 30).date.year) (hlast : (now.addDays 30).date.year ≤ 9999) :
    ∃ date ending, memberOf? "expires_at" (tokenBody (newToken name now)) = some date ∧
      (∀ token, decodeToken? (tokenAnswer token date) = some { token with expiresAt := ending }) ∧
      ending ≤ now.addDays 30 ∧ now.addDays 29 < ending ∧
      ∀ {τ : Type} (transport : Transport τ) (sent : τ → List Request) (c : Client)
        (path wanted : String) (s after : τ) (listed : List AccessTokenRecord)
        (token : AccessTokenRecord), transport.Records sent →
        ((c.forge transport).listAccessTokens path).runFrom s = (.ok listed, after) →
        token ∈ listed → token.active = true → token.revoked = false → token.expiresAt = ending →
        (∀ t, now ≤ t → t ≤ now.addDays 19 →
          let run := ((c.forge transport).ensureAccessToken t path wanted (some token.uid)).runFrom s
          (∃ found ∈ listed, found.uid = token.uid ∧ ending ≤ found.expiresAt ∧
            run.1 = .ok ⟨token.uid, found.expiresAt, none⟩) ∧
          SendsOnly sent (·.method = .get) s run.2) ∧
        ∀ t, now.addDays 20 ≤ t → isUsable t token = false := by
  have hvalid : (now.addDays 30).date.isValid = true := by
    apply Civil.isValid_ofDays_of_year
    · exact Int.le_trans (by decide) hfirst
    · exact Int.le_trans hlast (by decide)
  refine ⟨_, Instant.ofDate (now.addDays 30).date, expires_at_tokenBody _,
    fun token => decodeToken?_tokenAnswer token hvalid, Instant.ofDate_date_le _,
    Instant.addDays_lt_ofDate_date now 29, ?_⟩
  intro τ transport sent c path wanted s after listed token hsent hlisted hmem hactive hrevoked hends
  constructor
  · intro t _ ht
    have hending : t.addDays 10 < Instant.ofDate (now.addDays (19 + 10 + 1)).date :=
      Instant.addDays_lt_ofDate_date_of_le ht
    rw [← hends] at hending ⊢
    exact runFrom_ensureAccessToken_of_lasts hsent path wanted hlisted hmem
      ⟨hactive, hrevoked, hending⟩
  · intro t ht
    have hended : Instant.ofDate (now.addDays (20 + 10)).date ≤ t.addDays 10 :=
      Instant.ofDate_date_le_addDays_of_le ht
    rw [← hends] at hended
    rw [Bool.eq_false_iff, ne_eq, isUsable_iff_lasts]
    exact fun hlasts => hended hlasts.expiresAt

/-- A listing of one token, which ends on the last day of its month. -/
def marchTokens : Http.Response where
  status := 200
  body := ("[\x7b\"id\": 7, \"name\": \"bot\", \"active\": true, \"revoked\": false, " ++
    "\"expires_at\": \"2026-03-31\"\x7d]").toUTF8.toList

/-- It was asked for half a second before midnight. -/
theorem token_kept_until_replaced_marchTokens :
    let now : Instant := ⟨1772409599, 500000000⟩
    let ending := Instant.ofDate ⟨2026, 3, 31⟩
    let token : AccessTokenRecord :=
      { uid := 7, name := "bot", active := true, revoked := false, expiresAt := ending }
    let forge := sampleClient.forge (.ofScript [.ok marchTokens])
    let run := (forge.ensureAccessToken (now.addDays 19) "acme/r" "bot" (some 7)).runFrom []
    run.1 = .ok ⟨7, ending, none⟩ ∧ (∀ request ∈ run.2, request.method = .get) ∧
      isUsable (now.addDays 20) token = false := by
  intro now ending token forge run
  obtain ⟨date, ending', hdate, hanswer, -, -, hkept⟩ :=
    token_kept_until_replaced now "bot" (by decide +kernel) (by decide +kernel)
  obtain rfl := Option.some.inj ((expires_at_tokenBody _).symm.trans hdate)
  have htold : decodeToken? (tokenAnswer token (.text (now.addDays 30).date.text)) = some token := by
    decide +kernel
  obtain rfl : ending' = ending :=
    congrArg AccessTokenRecord.expiresAt (Option.some.inj ((hanswer token).symm.trans htold))
  have hlisted : (forge.listAccessTokens "acme/r").runFrom [] = (.ok [token], _) :=
    Prod.ext (by decide +kernel) rfl
  obtain ⟨hgranted, hreplaced⟩ := hkept _ id sampleClient "acme/r" "bot" [] _ [token] token
    (Transport.records_playing _ _) hlisted List.mem_cons_self rfl rfl rfl
  obtain ⟨⟨found, hmem, -, -, hrun⟩, new, hnew, hget⟩ :=
    hgranted (now.addDays 19) (by decide) (by decide)
  obtain rfl := List.mem_singleton.1 hmem
  have hall : run.2 = new := hnew
  exact ⟨hrun, hall ▸ hget, hreplaced _ (by decide)⟩

end Client

end GitLab

end ForgeSync
