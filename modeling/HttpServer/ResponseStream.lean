/-
The responses of a keep-alive connection as a client cuts them apart.  The
encoder chooses a framing from the body alone, the client's rule also looks at
the request method and the status; the stream stays in step exactly where the
two agree on every response.
-/
import HttpServer.HttpClient
import HttpServer.PipelineService
import HttpServer.ResponseFraming

namespace HttpServer

open ByteText GuardedRun HttpClient HttpResponseEncoder

/-- No body where the client expects none, and no chunked terminator behind
`Content-Length: 0`. -/
def InStep (method : HttpMethod) (res : HttpResponse) : Prop :=
  (noBody method res.statusCode.toNat = true → res.body = []) ∧
    (res.body = [] → res.bodyType = .contentLength)

section Reader

variable {order : HeaderOrder} {res : HttpResponse}

theorem digitsValue_spanDigits_numeral (n : Nat) {rest : Bytes}
    (hrest : ∀ b ∈ rest.head?, digitValue 10 b = none) :
    digitsValue 10 (spanDigits 10 (numeral 10 n ++ rest)).1 = n := by
  obtain ⟨_, digits, hdigits, hvalue⟩ := @numeral_spells 10 (by decide) (by decide) n
  rw [spanDigits_append hdigits hrest]
  exact hvalue

theorem readStatus_statusLine : readStatus (statusLine res) = res.statusCode.toNat := by
  have hversion : ascii "HTTP/1.1 " = ascii "HTTP/1.1" ++ [32] := by decide
  have hspace : ascii " " = [32] := by decide
  have hbefore : ∀ b ∈ ascii "HTTP/1.1", decide (b ≠ 32) = true := by decide +kernel
  rw [readStatus, statusLine, hversion, List.append_assoc,
    List.dropWhile_append_of_pos hbefore, hspace]
  apply digitsValue_spanDigits_numeral
  simp
  decide

theorem fieldNamed_of_single {fields : List (Bytes × Bytes)} {own : Bytes × Bytes}
    (hmem : own ∈ fields) (hsingle : ∀ field ∈ fields, isFraming field = true → field = own)
    {name : Bytes}
    (hname : name = ascii "content-length" ∨ name = ascii "transfer-encoding") :
    fieldNamed fields name = if lowerBytes own.1 = name then some own.2 else none := by
  have hown : ∀ field ∈ fields, lowerBytes field.1 = name → field = own := by
    intro field hfield hlower
    apply hsingle field hfield
    rcases hname with rfl | rfl
    · simp [isFraming, hlower]
    · simp [isFraming, hlower]
  rw [fieldNamed]
  split
  · next hlower =>
      obtain ⟨found, hfind⟩ : ∃ found,
          fields.find? (fun field => lowerBytes field.1 = name) = some found := by
        rw [← Option.isSome_iff_exists, List.find?_isSome]
        exact ⟨own, hmem, by simpa using hlower⟩
      have hfound := hown found (List.mem_of_find?_eq_some hfind)
        (by simpa using List.find?_some hfind)
      rw [hfind, hfound, Option.map_some]
  · next hother =>
      have hmissing : fields.find? (fun field => lowerBytes field.1 = name) = none := by
        rw [List.find?_eq_none]
        intro field hfield hlower
        have hlower' : lowerBytes field.1 = name := by simpa using hlower
        exact hother (hown field hfield hlower' ▸ hlower')
      rw [hmissing, Option.map_none]

theorem encodeBody_eq_nil_iff :
    encodeBody (setResponseHeader res) = [] ↔
      res.body = [] ∧ res.bodyType = .contentLength := by
  have hterminator : ascii "0\r\n\r\n" ≠ [] := by decide
  rw [encodeBody_framed, codingOf_text]
  split
  · next hlarge =>
      have hne : res.body ≠ [] := by
        rintro hempty
        simp [hempty] at hlarge
      simp [hne, hterminator]
  · split
    · next hstale => simp [hstale.2, hterminator]
    · next hfresh =>
        constructor
        · intro hempty
          refine ⟨hempty, ?_⟩
          cases htype : res.bodyType with
          | contentLength => rfl
          | chunked => exact absurd ⟨hempty, htype⟩ hfresh
        · exact fun h => h.1

/-- How a client that expects a body finds its end. -/
theorem readBody_encode {fields : List (Bytes × Bytes)} (hmem : ownFraming res ∈ fields)
    (hsingle : ∀ field ∈ fields, isFraming field = true → field = ownFraming res)
    (rest : Bytes) :
    ∃ body left,
      readBody fields (encodeBody (setResponseHeader res) ++ rest) =
          some (body, left ++ rest) ∧
        left <:+ encodeBody (setResponseHeader res) ∧
        (left = [] ↔ (res.body = [] → res.bodyType = .contentLength)) := by
  have hlength := fieldNamed_of_single hmem hsingle (Or.inl rfl)
  have hcoding := fieldNamed_of_single hmem hsingle (Or.inr rfl)
  rw [readBody, hcoding, hlength, encodeBody_framed]
  by_cases hlarge : maxChuckSize < res.body.length
  · have hne : res.body ≠ [] := by
      rintro hempty
      simp [hempty] at hlarge
    have hread := readChunked_text (codingOf_ok res.body) rest
    simp only [ownFraming, if_pos hlarge, lower_names.1, ↓reduceIte, hread]
    exact ⟨_, [], rfl, List.nil_suffix, by simp [hne]⟩
  · have hcount : digitsValue 10 (spanDigits 10 (numeral 10 res.body.length)).1 =
        res.body.length := by
      have hvalue := @digitsValue_spanDigits_numeral res.body.length [] (by simp)
      rwa [List.append_nil] at hvalue
    simp only [ownFraming, if_neg hlarge, lower_names.2, ↓reduceIte, hcount,
      contentLength_ne_transferEncoding]
    split
    · next hstale =>
        refine ⟨[], ascii "0\r\n\r\n", ?_, List.suffix_rfl, ?_⟩
        · simp [takeExact, hstale.1]
        · have hterminator : ascii "0\r\n\r\n" ≠ [] := by decide
          simp [hstale.1, hstale.2, hterminator]
    · next hfresh =>
        refine ⟨res.body, [], takeExact_append _ _, List.nil_suffix, ?_⟩
        simp only [true_iff]
        intro hempty
        cases htype : res.bodyType with
        | contentLength => rfl
        | chunked => exact absurd ⟨hempty, htype⟩ hfresh

/-- No CRLF in the texts a handler sets, and no header line that reads as a
framing header. -/
structure UnframedText (res : HttpResponse) : Prop where
  messageFree : CrlfFree res.statusMessage
  fieldsFree : ∀ name value, res.headers.mHeaders.lookup name = some value →
    CrlfFree name ∧ CrlfFree value
  unframed : ∀ name value, res.headers.mHeaders.lookup name = some value →
    isFraming (readField (fieldText (name, value))) = false

namespace UnframedText

variable (hunframed : UnframedText res)
include hunframed

theorem crlfFree : ∀ field ∈ order.entries (setResponseHeader res).headers,
    CrlfFree (fieldText field) := by
  refine @framed_fields order res (fun field => CrlfFree (fieldText field)) ?_ ?_ ?_
  · intro name value hlookup
    obtain ⟨hname, hvalue⟩ := hunframed.fieldsFree name value hlookup
    exact crlfFree_fieldText hname hvalue
  · exact fun _ => fieldOk_transferEncoding.crlfFree
  · exact fun _ => (fieldOk_contentLength _).crlfFree

/-- The encoder's field is the only one that a reader takes for framing. -/
theorem single : ∀ field ∈ order.entries (setResponseHeader res).headers,
    isFraming (readField (fieldText field)) = true →
      readField (fieldText field) = ownFraming res := by
  refine @framed_fields order res (fun field =>
    isFraming (readField (fieldText field)) = true →
      readField (fieldText field) = ownFraming res) ?_ ?_ ?_
  · intro name value hlookup hframing
    rw [hunframed.unframed name value hlookup] at hframing
    contradiction
  · intro hlarge _
    rw [readField_fieldText fieldOk_transferEncoding, ownFraming, if_pos hlarge]
  · intro hsmall _
    rw [readField_fieldText (fieldOk_contentLength _), ownFraming,
      if_neg (Nat.not_lt.mpr hsmall)]

/-- A client reads one response off the front; nothing of it is left exactly
when the two rules agree. -/
theorem readResponse_encode (method : HttpMethod) (rest : Bytes) :
    ∃ body left,
      readResponse method (wireBytes order res ++ rest) = some (body, left ++ rest) ∧
        left <:+ wireBytes order res ∧ (left = [] ↔ InStep method res) := by
  have hwire : wireBytes order res = statusLine res ++ (crlf ++
      (fieldLines (order.entries (setResponseHeader res).headers) ++
        (crlf ++ encodeBody (setResponseHeader res)))) := rfl
  have hpayload : encodeBody (setResponseHeader res) <:+ wireBytes order res := by
    rw [hwire]
    exact ⟨statusLine res ++ (crlf ++
      (fieldLines (order.entries (setResponseHeader res).headers) ++ crlf)), by simp⟩
  have hblock := readBlock_encoded order hunframed.messageFree hunframed.crlfFree
    (encodeBody (setResponseHeader res) ++ rest)
  have hsplit : wireBytes order res ++ rest = statusLine res ++ (crlf ++
      (fieldLines (order.entries (setResponseHeader res).headers) ++
        (crlf ++ (encodeBody (setResponseHeader res) ++ rest)))) := by
    simp [hwire]
  rw [readResponse, hsplit, hblock]
  simp only [readStatus_statusLine]
  cases hnone : noBody method res.statusCode.toNat with
  | true =>
      simp only [↓reduceIte]
      refine ⟨[], encodeBody (setResponseHeader res), rfl, hpayload, ?_⟩
      rw [encodeBody_eq_nil_iff, InStep, hnone]
      constructor
      · rintro ⟨hempty, htype⟩
        exact ⟨fun _ => hempty, fun _ => htype⟩
      · rintro ⟨hempty, htype⟩
        exact ⟨hempty rfl, htype (hempty rfl)⟩
  | false =>
      simp only [Bool.false_eq_true, ↓reduceIte, List.map_map]
      have hmem : ownFraming res ∈ (order.entries (setResponseHeader res).headers).map
          (readField ∘ fieldText) :=
        List.mem_map.mpr ⟨_, ownFraming_mem, readField_fieldText (ownFraming_fieldOk res)⟩
      have hsingle : ∀ field ∈ (order.entries (setResponseHeader res).headers).map
          (readField ∘ fieldText), isFraming field = true → field = ownFraming res := by
        intro field hfield
        obtain ⟨entry, hentry, rfl⟩ := List.mem_map.mp hfield
        exact hunframed.single entry hentry
      obtain ⟨body, left, hread, hleft, hstep⟩ := readBody_encode hmem hsingle rest
      refine ⟨body, left, hread, hleft.trans hpayload, ?_⟩
      rw [hstep, InStep, hnone]
      simp

end UnframedText

end Reader

/-- A message that a client cuts at its end, or too early. -/
structure CutBy (method : HttpMethod) (message : Bytes) (inStep : Prop) : Prop where
  cut : ∀ rest, ∃ body left,
    readResponse method (message ++ rest) = some (body, left ++ rest) ∧
      left <:+ message ∧ (left = [] ↔ inStep)

/-- A stream of messages is cut back into them exactly when every one is in
step. -/
theorem splitResponses_iff {R : Type} {method : R → HttpMethod} {message : R → Bytes}
    {inStep : R → Prop} {items : List R}
    (hcut : ∀ item ∈ items, CutBy (method item) (message item) (inStep item)) :
    splitResponses (items.map method) (items.flatMap message) = some (items.map message) ↔
      ∀ item ∈ items, inStep item := by
  induction items with
  | nil => simp [splitResponses]
  | cons item items ih =>
      obtain ⟨body, left, hread, ⟨front, hfront⟩, hstep⟩ :=
        (hcut item List.mem_cons_self).cut (items.flatMap message)
      have hlater := ih fun other hother => hcut other (List.mem_cons_of_mem _ hother)
      have hlength : (message item ++ items.flatMap message).length -
          (left ++ items.flatMap message).length = front.length := by
        rw [← hfront]
        simp only [List.length_append]
        omega
      have htake : (message item ++ items.flatMap message).take front.length = front := by
        rw [← hfront, List.append_assoc]
        exact List.take_left' rfl
      rw [List.map_cons, List.flatMap_cons, List.map_cons, splitResponses, hread]
      simp only [hlength, htake, List.forall_mem_cons]
      by_cases hin : inStep item
      · have hnil : left = [] := hstep.mpr hin
        have hwhole : front = message item := by simpa [hnil] using hfront
        rw [hnil, hwhole, List.nil_append]
        simp only [hin, true_and, ← hlater, Option.map_eq_some_iff, List.cons.injEq,
          exists_eq_right]
      · have hne : left ≠ [] := fun hnil => hin (hstep.mp hnil)
        have hshort : front ≠ message item := by
          intro heq
          rw [← hfront] at heq
          exact hne (by simpa using heq)
        simp [hin, hshort]

section Run

variable {router : HttpRouter} {order : HeaderOrder}

/-- The client asks for keep-alive; the response is returned, keeps the connection
open and leaves the framing to the encoder. -/
def AnsweredPlainly (router : HttpRouter) (request : HttpRequest) : Prop :=
  request.wantsKeepAlive = true ∧
    ∃ res, router.route request = some res ∧ res.alreadyClose = false ∧ UnframedText res

/-- What `router.route` gives for this request, a handler's response or the router's
own 404 page, stays in step. -/
def RouteInStep (router : HttpRouter) (r : WireRequest) : Prop :=
  ∀ res, router.route r.request = some res → InStep r.method res

theorem AnsweredPlainly.keepsOpen {request : HttpRequest}
    (hplain : AnsweredPlainly router request) : KeepsOpen router request := by
  obtain ⟨hkeep, res, hroute, hopen, _⟩ := hplain
  exact ⟨hkeep, res, hroute, hopen⟩

/-- The `Connection` header is the only text added before encoding. -/
theorem UnframedText.respond {res : HttpResponse} (hunframed : UnframedText res)
    (request : HttpRequest) : UnframedText (respond request res) := by
  have hadded : ∀ keepAlive : Bool,
      let field := (lowerBytes (ascii "Connection"),
        if keepAlive then ascii "keep-alive" else ascii "close")
      (CrlfFree field.1 ∧ CrlfFree field.2) ∧
        isFraming (readField (fieldText field)) = false := by
    decide
  constructor
  · exact hunframed.messageFree
  · intro name value hlookup
    rcases lookup_set hlookup with ⟨rfl, rfl⟩ | hold
    · exact (hadded _).1
    · exact hunframed.fieldsFree name value hold
  · intro name value hlookup
    rcases lookup_set hlookup with ⟨rfl, rfl⟩ | hold
    · exact (hadded _).2
    · exact hunframed.unframed name value hold

theorem cutBy_answer {r : WireRequest} (hplain : AnsweredPlainly router r.request) :
    CutBy r.method (answer router order r.request) (RouteInStep router r) := by
  obtain ⟨_, res, hroute, _, hunframed⟩ := hplain
  have hanswer : answer router order r.request = wireBytes order (respond r.request res) := by
    simp only [answer, hroute]
  have hstep : RouteInStep router r ↔ InStep r.method (respond r.request res) := by
    constructor
    · exact fun hall => hall res hroute
    · intro hin other hother
      rw [Option.some.inj (hother.symm.trans hroute)]
      exact hin
  rw [hanswer, hstep]
  exact ⟨(hunframed.respond r.request).readResponse_encode r.method⟩

/-- The responses queued for the first `count` requests of the pipeline. -/
def responsesTo (router : HttpRouter) (order : HeaderOrder) (pipeline : List WireRequest)
    (count : Nat) : List Bytes :=
  (pipeline.take count).map fun r => answer router order r.request

variable {pipeline : List WireRequest}

/-- In every run a client recovers the responses from the queued bytes, one
for each request answered so far, exactly when each of them is in step. -/
theorem responses_split_iff (hwf : ∀ r ∈ pipeline, r.WellFormed)
    (hplain : ∀ r ∈ pipeline, AnsweredPlainly router r.request) {actions : List Action}
    {s : ClientState}
    (hguard : Guarded (step router order) (undisturbed (streamOf pipeline)) {} actions)
    (hrun : run (step router order) {} actions = some s) :
    ∃ count, AnsweredInOrder router order pipeline s count ∧
      (splitResponses ((pipeline.take count).map WireRequest.method) s.history.queued =
          some (responsesTo router order pipeline count) ↔
        ∀ r ∈ pipeline.take count, RouteInStep router r) := by
  have hserving := serving_run hwf (fun r hr => (hplain r hr).keepsOpen) hguard hrun
  have hanswered := hserving.answeredInOrder hwf
  refine ⟨_, hanswered, ?_⟩
  have hqueued : s.history.queued = (pipeline.take s.history.routed.length).flatMap
      fun r => answer router order r.request := by
    rw [← hserving.accounted, hanswered.answered, answers, requestsOf, List.flatMap_map]
  rw [hqueued]
  exact splitResponses_iff fun r hr => cutBy_answer (hplain r (List.mem_of_mem_take hr))

/-- A missing page: any status and body, here the router's own. -/
theorem unframedText_notFound : UnframedText HttpRouter.notFound := by
  constructor
  · decide
  · intro name value hlookup
    obtain ⟨rfl, rfl⟩ := Prod.mk.inj (@lookup_html HttpRouter.notFound.body _ _ hlookup)
    decide
  · intro name value hlookup
    obtain ⟨rfl, rfl⟩ := Prod.mk.inj (@lookup_html HttpRouter.notFound.body _ _ hlookup)
    decide

theorem answeredPlainly_notFound {request : HttpRequest}
    (hkeep : request.wantsKeepAlive = true) : AnsweredPlainly {} request :=
  ⟨hkeep, HttpRouter.notFound, rfl, by decide, unframedText_notFound⟩

end Run

/-- `HEAD /b` is answered with no body. -/
def headRouter : HttpRouter :=
  HttpRouter.addRoute {} .head (ascii "/b") fun _ => some {}

theorem route_headRouter :
    ∀ r ∈ getThenHead, (r.method = .get ∧ headRouter.route r.request = some HttpRouter.notFound) ∨
      (r.method = .head ∧ headRouter.route r.request = some {}) := by
  decide

theorem unframedText_default : UnframedText {} := by
  constructor
  · exact (by decide : CrlfFree (ascii "OK"))
  · intro name value hlookup
    simp [HttpHeaders.empty] at hlookup
  · intro name value hlookup
    simp [HttpHeaders.empty] at hlookup

theorem responses_split_emptyHead :
    ∃ s, run (step headRouter sortedOrder) {} getThenHeadRun = some s ∧ s.tasks = [] ∧
      ∃ count, AnsweredInOrder headRouter sortedOrder getThenHead s count ∧
        splitResponses ((getThenHead.take count).map WireRequest.method) s.history.queued =
          some (responsesTo headRouter sortedOrder getThenHead count) := by
  have hplain : ∀ r ∈ getThenHead, AnsweredPlainly headRouter r.request := by
    intro r hr
    have hkeep : ∀ r ∈ getThenHead, r.request.wantsKeepAlive = true := by decide
    refine ⟨hkeep r hr, ?_⟩
    rcases route_headRouter r hr with ⟨_, hroute⟩ | ⟨_, hroute⟩
    · exact ⟨_, hroute, by decide, unframedText_notFound⟩
    · exact ⟨_, hroute, by decide, unframedText_default⟩
  have hstep : ∀ r ∈ getThenHead, RouteInStep headRouter r := by
    intro r hr res hres
    rcases route_headRouter r hr with ⟨hmethod, hroute⟩ | ⟨hmethod, hroute⟩
    · obtain rfl := Option.some.inj (hres.symm.trans hroute)
      rw [hmethod]
      exact ⟨fun hnone => absurd hnone (by decide), fun _ => rfl⟩
    · obtain rfl := Option.some.inj (hres.symm.trans hroute)
      exact ⟨fun _ => rfl, fun _ => rfl⟩
  obtain ⟨s, hrun, htasks⟩ := @exists_reached _ _ (step headRouter sortedOrder) {} getThenHeadRun
    (fun s => s.tasks = []) _ (by decide +kernel)
  obtain ⟨count, hanswered, hiff⟩ :=
    responses_split_iff (by decide +kernel) hplain (by decide +kernel) hrun
  exact ⟨s, hrun, htasks, count, hanswered,
    hiff.mpr fun r hr => hstep r (List.mem_of_mem_take hr)⟩

/-- `encode` is never told that the request was `HEAD`: the body of the page
that answers it stays in the stream. -/
theorem head_body_left_over :
    (∀ r ∈ getThenHead, r.WellFormed ∧ AnsweredPlainly {} r.request) ∧
      Guarded (step {} sortedOrder) (undisturbed (streamOf getThenHead)) {} getThenHeadRun ∧
      ∃ s, run (step {} sortedOrder) {} getThenHeadRun = some s ∧
        s.history.received = streamOf getThenHead ∧ s.tasks = [] ∧
        s.history.queued = answers {} sortedOrder (requestsOf getThenHead) ∧
        splitResponses (getThenHead.map WireRequest.method) s.history.queued = none := by
  refine ⟨?_, by decide +kernel, exists_reached (by decide +kernel)⟩
  intro r hr
  have hwf : ∀ r ∈ getThenHead, r.WellFormed ∧ r.request.wantsKeepAlive = true := by
    decide
  exact ⟨(hwf r hr).1, answeredPlainly_notFound (hwf r hr).2⟩

end HttpServer
