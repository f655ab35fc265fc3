import ForestPager.Http.QueryClient
import Mathlib.Data.Option.Basic

/-!
# What a failed POST is reported as

A query client is to report every failed POST as a failure of whoever answers requests: one that
wants to be asked later if the service refused with status 429, one with the status and the
request number for any other refusal, and one with neither if there was no answer. It does, with
one exception. The delay of a refusal with status 429 is whatever a header says, and a header may
write an infinity, in words or as a number too large. The reading of the delay fails then, and it
is this failure that comes out, of no family of the library's.

Results:

* `QueryClient.execute_eq`: what comes out of a request is read off the outcome of its POST.
* `retryDelay_of_no_numeral`: a delay that is not written as a number is the usual one.
* `promised_ofRefusal`, `ofRefusal_of_endless`: a refusal is reported as promised unless it
  asks for an endless delay.
* `reported_iff_not_endless`: what comes out of a request whose POST fails.
* `exists_not_reported`: a service that asks for an endless delay.
-/

namespace ForestPager.Http

/-! ## One POST for a request -/

namespace QueryClient

/-- The POST that a request is sent with. -/
def postOf (q : QueryClient) (request : Request) : Post :=
  ⟨q.client.connect.1, q.client.connect.2.url q.path, none, request.body⟩

/-- What comes out of a request is read off the outcome of its one POST. -/
theorem execute_eq {m : Type → Type} [Monad m] [LawfulMonad m] (send : Post → m PostOutcome)
    (request : Request) (q : QueryClient) :
    (execute send request).run q =
      (fun outcome => (outcomeOf outcome, { q with client := q.client.connect.2 })) <$>
        send (q.postOf request) := by
  show (q.client.post send q.path request.body none >>= fun r =>
    pure (outcomeOf r.1, { q with client := r.2 })) = _
  simp [Client.post, postOf]

end QueryClient

/-! ## Refusals -/

/-- The status and the headers of a refusal; none if the service did not answer. -/
def PostFailure.refusal? : PostFailure → Option (Int × Headers)
  | rejected status _ headers => some (status, headers.getD [])
  | undecodable status _ headers => some (status, headers.getD [])
  | malformed _ => none
  | timedOut _ => none
  | transport _ _ => none

/-- The delay written in the headers of a refusal, if a number is. -/
def writtenDelay? (headers : Headers) : Option Numeral :=
  (header? headers "Retry-After").bind readNumeral?

/-- The failure that is to be reported for a refusal. -/
def PromisedRefusal (status : Int) (headers : Headers) (e : Failure) : Prop :=
  if status = 429 then
    ∃ message delay, e = .rateLimited message delay (header? headers "X-Request-Id") ∧ 0 ≤ delay ∧
      (writtenDelay? headers = none → delay = 60)
  else ∃ message, e = .executor message (some status) (header? headers "X-Request-Id")

/-- The failure that is to be reported for a failed POST. -/
def Promised (failure : PostFailure) (e : Failure) : Prop :=
  FailureFamily.executor ∈ e.families ∧
    match failure.refusal? with
    | some (status, headers) => PromisedRefusal status headers e
    | none => ∃ message, e = .executor message none none

/-- A refusal with status 429 that writes an infinity as its delay. -/
def EndlessRefusal (status : Int) (headers : Headers) : Prop :=
  status = 429 ∧
    ∃ n negative, writtenDelay? headers = some n ∧ n.toBinary64 = .infinite negative

/-- A failed POST that asks for an endless delay. -/
def PostFailure.Endless (failure : PostFailure) : Prop :=
  ∃ status headers, failure.refusal? = some (status, headers) ∧ EndlessRefusal status headers

variable {status : Int} {headers : Headers}

/-- A delay that is not written as a number is the usual one. -/
theorem retryDelay_of_no_numeral {value : Option String} (h : value.bind readNumeral? = none) :
    retryDelay value = .ok usualDelay := by
  cases value with
  | none => rfl
  | some s =>
    rw [Option.bind_some] at h
    simp only [retryDelay, h]

/-- Unless it asks for an endless delay, a refusal is reported as promised. -/
theorem promised_ofRefusal (message : String) (h : ¬ EndlessRefusal status headers) :
    FailureFamily.executor ∈ (ofRefusal status message headers).families ∧
      PromisedRefusal status headers (ofRefusal status message headers) := by
  unfold PromisedRefusal
  by_cases hs : status = 429
  · cases hd : retryDelay (header? headers "Retry-After") with
    | error failure =>
      obtain ⟨s, n, negative, hv, hn, hb⟩ := (retryDelay_eq_error_iff _).1 ⟨failure, hd⟩
      have hwritten : writtenDelay? headers = some n := by
        rw [writtenDelay?, hv, Option.bind_some, hn]
      exact absurd ⟨hs, n, negative, hwritten, hb⟩ h
    | ok delay =>
      have he : ofRefusal status message headers = .rateLimited ("Query rate limited: " ++ message)
          delay (header? headers "X-Request-Id") := by
        simp only [ofRefusal, tooManyRequests, retryAfterHeader, requestIdHeader, if_pos hs, hd]
      rw [he, if_pos hs]
      refine ⟨by simp [Failure.families], _, delay, rfl, retryDelay_nonneg hd, fun hno => ?_⟩
      exact Except.ok.inj (hd.symm.trans (retryDelay_of_no_numeral hno))
  · have he : ofRefusal status message headers =
        .executor ("Query failed with status " ++ toString status ++ ": " ++ message) (some status)
          (header? headers "X-Request-Id") := if_neg hs
    rw [he, if_neg hs]
    exact ⟨by simp [Failure.families], _, rfl⟩

/-- The failure of reading an endless delay comes out as it is. -/
theorem ofRefusal_of_endless (message : String) (h : EndlessRefusal status headers) :
    ofRefusal status message headers = .infinite := by
  obtain ⟨hs, n, negative, hn, hb⟩ := h
  obtain ⟨s, hv, hn⟩ := Option.bind_eq_some_iff.1 hn
  have hd : retryDelay (header? headers "Retry-After") = .error .infinite := by
    simp only [retryDelay, hv, hn, hb, delayOf]
  simp only [ofRefusal, tooManyRequests, retryAfterHeader, if_pos hs, hd]

/-! ## Failed POSTs -/

/-- What a failed POST is reported as, an answer that is not what it claims to be apart. -/
theorem ofPostFailure_of_refusal? {failure : PostFailure} (h : ∀ text, failure ≠ .malformed text) :
    match failure.refusal? with
    | some (status, headers) => ∃ message, ofPostFailure failure = ofRefusal status message headers
    | none => ∃ message, ofPostFailure failure = .executor message none none := by
  cases failure with
  | rejected status message headers => exact ⟨message, rfl⟩
  | undecodable status message headers => exact ⟨message, rfl⟩
  | malformed text => exact absurd rfl (h text)
  | timedOut kind => exact ⟨_, rfl⟩
  | transport kind text => exact ⟨_, rfl⟩

/-- What comes out of a request whose POST fails, be it refused with any status and headers or
without an answer in time or at all. It is a failure, and the promised one exactly if the POST
does not ask for an endless delay; else it is the failure of reading that delay. -/
theorem reported_iff_not_endless {send : Post → PostOutcome} {q : QueryClient} {request : Request}
    {failure : PostFailure} (hsend : send (q.postOf request) = .error (.post failure))
    (hread : ∀ text, failure ≠ .malformed text) :
    ∃ e, ((QueryClient.execute (m := Id) send request).run q).1 = .error e ∧
      (Promised failure e ↔ ¬ failure.Endless) ∧ (failure.Endless → e = .infinite) := by
  refine ⟨ofPostFailure failure, ?_, ?_⟩
  · rw [QueryClient.execute_eq]
    show outcomeOf (send (q.postOf request)) = _
    rw [hsend, outcomeOf]
  · have hreport := ofPostFailure_of_refusal? hread
    unfold Promised PostFailure.Endless
    cases hr : failure.refusal? with
    | none =>
      rw [hr] at hreport
      obtain ⟨message, he⟩ := hreport
      simp [he, Failure.families]
    | some refusal =>
      obtain ⟨status, headers⟩ := refusal
      rw [hr] at hreport
      obtain ⟨message, he⟩ := hreport
      rw [he]
      by_cases hend : EndlessRefusal status headers
      · rw [ofRefusal_of_endless message hend]
        simp [Failure.families, hend]
      · have hpromised := promised_ofRefusal message hend
        simp [hpromised, hend]

/-- A client without a connection. -/
def newClient : QueryClient := ⟨"/p", .new (some "https://h") Client.usualTimeout []⟩

/-- A request for one sub-query. -/
def oneQuery : Request := ⟨.ofList [("A", ⟨{}, none⟩)], []⟩

/-- A service that refuses with status 429, a delay and the number of the request. -/
def refusing (delay : String) (_ : Post) : PostOutcome :=
  .error (.post (.rejected 429 "m" (some [("retry-after", delay), ("X-Request-Id", "r")])))

/-- A delay that is no number counts as the usual one. -/
theorem reported_iff_not_endless_soon :
    refusing "soon" (newClient.postOf oneQuery) =
        .error (.post (.rejected 429 "m" (some [("retry-after", "soon"), ("X-Request-Id", "r")]))) ∧
      ∃ message, ((QueryClient.execute (m := Id) (refusing "soon") oneQuery).run newClient).1 =
        .error (.rateLimited message 60 (some "r")) := by
  have hsend : refusing "soon" (newClient.postOf oneQuery) =
      .error (.post (.rejected 429 "m" (some [("retry-after", "soon"), ("X-Request-Id", "r")]))) :=
    rfl
  obtain ⟨e, he, hpromised, -⟩ := reported_iff_not_endless hsend nofun
  have hwritten : writtenDelay? [("retry-after", "soon"), ("X-Request-Id", "r")] = none := by
    decide +kernel
  have hid : header? [("retry-after", "soon"), ("X-Request-Id", "r")] "X-Request-Id" =
      some "r" := by
    decide +kernel
  have hends : ¬ PostFailure.Endless
      (.rejected 429 "m" (some [("retry-after", "soon"), ("X-Request-Id", "r")])) := by
    rintro ⟨status, headers, hrefusal, -, n, negative, hn, -⟩
    cases hrefusal
    exact absurd (hwritten.symm.trans hn) nofun
  obtain ⟨-, message, delay, rfl, -, hdelay⟩ := hpromised.2 hends
  obtain rfl := hdelay hwritten
  rw [Option.getD_some, hid] at he
  exact ⟨hsend, message, he⟩

/-- A service that asks for an endless delay: what comes out is not what is promised. -/
theorem exists_not_reported :
    ∃ (send : Post → PostOutcome) (q : QueryClient) (request : Request) (failure : PostFailure),
      send (q.postOf request) = .error (.post failure) ∧
      (∀ text, failure ≠ .malformed text) ∧
      ((QueryClient.execute (m := Id) send request).run q).1 = .error .infinite ∧
      ¬ ∃ e, ((QueryClient.execute (m := Id) send request).run q).1 = .error e ∧
        Promised failure e := by
  have hends : EndlessRefusal 429 [("retry-after", "inf"), ("X-Request-Id", "r")] :=
    ⟨rfl, .infinite false, false, by decide +kernel, rfl⟩
  have hsend : refusing "inf" (newClient.postOf oneQuery) =
      .error (.post (.rejected 429 "m" (some [("retry-after", "inf"), ("X-Request-Id", "r")]))) :=
    rfl
  have hout : ((QueryClient.execute (m := Id) (refusing "inf") oneQuery).run newClient).1 =
      .error .infinite := by
    rw [QueryClient.execute_eq]
    show outcomeOf (refusing "inf" (newClient.postOf oneQuery)) = _
    rw [hsend, outcomeOf, ofPostFailure, Option.getD_some, ofRefusal_of_endless "m" hends]
  refine ⟨refusing "inf", newClient, oneQuery, _, hsend, nofun, hout, ?_⟩
  rintro ⟨e, he, hexecutor, -⟩
  obtain rfl := Except.error.inj (hout.symm.trans he)
  simp [Failure.families] at hexecutor

end ForestPager.Http
