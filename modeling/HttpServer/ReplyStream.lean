/-
What a client gets from a connection: for each request the status and the body
its handler returned.  The reader knows the HTTP/1.1 message rules and nothing
of the server; chunked and plain bodies come out alike.
-/
import HttpServer.ResponseStream

namespace HttpServer

open ByteText GuardedRun HttpClient HttpResponseEncoder

namespace HttpClient

/-- One response to a request with the given method: its status and body, and
the bytes behind the message. -/
def readReply (method : HttpMethod) (wire : Bytes) : Option ((Nat × Bytes) × Bytes) :=
  match readBlock wire with
  | some (status :: lines, rest) =>
      if noBody method (readStatus status) then some ((readStatus status, []), rest)
      else
        (readBody (lines.map readField) rest).map fun read =>
          ((readStatus status, read.1), read.2)
  | _ => none

/-- One response for each request, and no byte behind the last. -/
def readReplies : List HttpMethod → Bytes → Option (List (Nat × Bytes))
  | [], wire => if wire = [] then some [] else none
  | method :: methods, wire =>
      (readReply method wire).bind fun read =>
        (readReplies methods read.2).map (read.1 :: ·)

end HttpClient

/-- What a client is to be told of a response. -/
def HttpResponse.shown (res : HttpResponse) : Nat × Bytes := (res.statusCode.toNat, res.body)

section Reader

variable {order : HeaderOrder} {res : HttpResponse}

/-- The body comes out whole in either framing. -/
theorem readBody_whole {fields : List (Bytes × Bytes)} (hmem : ownFraming res ∈ fields)
    (hsingle : ∀ field ∈ fields, isFraming field = true → field = ownFraming res)
    (hempty : res.body = [] → res.bodyType = .contentLength) (rest : Bytes) :
    readBody fields (encodeBody (setResponseHeader res) ++ rest) = some (res.body, rest) := by
  have hlength := fieldNamed_of_single hmem hsingle (Or.inl rfl)
  have hcoding := fieldNamed_of_single hmem hsingle (Or.inr rfl)
  rw [readBody, hcoding, hlength, encodeBody_framed]
  by_cases hlarge : maxChuckSize < res.body.length
  · have hread := readChunked_text (codingOf_ok res.body) rest
    rw [codingOf_payload] at hread
    simp only [ownFraming, if_pos hlarge, lower_names.1, ↓reduceIte, hread]
  · have hcount := @digitsValue_spanDigits_numeral res.body.length [] (by simp)
    rw [List.append_nil] at hcount
    have hfresh : ¬(res.body = [] ∧ res.bodyType = .chunked) := by
      rintro ⟨hnil, hchunked⟩
      rw [hempty hnil] at hchunked
      contradiction
    simp only [ownFraming, if_neg hlarge, lower_names.2, ↓reduceIte, hcount,
      contentLength_ne_transferEncoding, if_neg hfresh]
    exact takeExact_append res.body rest

/-- A response in step with its request is read back whole. -/
theorem UnframedText.readReply_encode (hunframed : UnframedText res) {method : HttpMethod}
    (hstep : InStep method res) (rest : Bytes) :
    readReply method (wireBytes order res ++ rest) = some (res.shown, rest) := by
  have hsplit : wireBytes order res ++ rest = statusLine res ++ (crlf ++
      (fieldLines (order.entries (setResponseHeader res).headers) ++
        (crlf ++ (encodeBody (setResponseHeader res) ++ rest)))) := by
    simp [wireBytes, encode]
  rw [readReply, hsplit, readBlock_encoded order hunframed.messageFree hunframed.crlfFree]
  simp only [readStatus_statusLine]
  split
  · next hnone =>
      have hbody : res.body = [] := hstep.1 hnone
      have hpayload : encodeBody (setResponseHeader res) = [] :=
        encodeBody_eq_nil_iff.mpr ⟨hbody, hstep.2 hbody⟩
      rw [hpayload, List.nil_append, HttpResponse.shown, hbody]
  · rw [List.map_map, readBody_whole _ _ hstep.2]
    · rfl
    · exact List.mem_map.mpr ⟨_, ownFraming_mem, readField_fieldText (ownFraming_fieldOk res)⟩
    · intro field hfield
      obtain ⟨entry, hentry, rfl⟩ := List.mem_map.mp hfield
      exact hunframed.single entry hentry

end Reader

section Stream

variable {router : HttpRouter} {order : HeaderOrder}

/-- The request is answered, with this status and body, in a form that a client
can cut off the stream. -/
def Shows (router : HttpRouter) (r : WireRequest) (reply : Nat × Bytes) : Prop :=
  r.request.wantsKeepAlive = true ∧ ∃ res, router.route r.request = some res ∧
    res.alreadyClose = false ∧ UnframedText res ∧ InStep r.method res ∧ res.shown = reply

theorem Shows.keepsOpen {r : WireRequest} {reply : Nat × Bytes} (hshows : Shows router r reply) :
    KeepsOpen router r.request := by
  obtain ⟨hkeep, res, hroute, hopen, _⟩ := hshows
  exact ⟨hkeep, res, hroute, hopen⟩

theorem Shows.readReply {r : WireRequest} {reply : Nat × Bytes} (hshows : Shows router r reply)
    (rest : Bytes) :
    readReply r.method (answer router order r.request ++ rest) = some (reply, rest) := by
  obtain ⟨_, res, hroute, _, hunframed, hstep, rfl⟩ := hshows
  have hanswer : answer router order r.request = wireBytes order (respond r.request res) := by
    simp only [answer, hroute]
  rw [hanswer]
  exact (hunframed.respond r.request).readReply_encode hstep rest

/-- The answers to a pipeline are read back one by one. -/
theorem readReplies_answers {reply : WireRequest → Nat × Bytes} {pipeline : List WireRequest}
    (hshows : ∀ r ∈ pipeline, Shows router r (reply r)) :
    readReplies (pipeline.map WireRequest.method)
        (answers router order (requestsOf pipeline)) = some (pipeline.map reply) := by
  induction pipeline with
  | nil => rfl
  | cons r pipeline ih =>
      obtain ⟨hfirst, hlater⟩ := List.forall_mem_cons.mp hshows
      have hsplit : answers router order (requestsOf (r :: pipeline)) =
          answer router order r.request ++ answers router order (requestsOf pipeline) := rfl
      rw [List.map_cons, hsplit, readReplies, hfirst.readReply, Option.bind_some, ih hlater]
      rfl

/-- In every undisturbed run the bytes sent and still to be sent are, to a client,
the replies to the requests answered so far. -/
theorem replies_of_run {reply : WireRequest → Nat × Bytes} {pipeline : List WireRequest}
    (hwf : ∀ r ∈ pipeline, r.WellFormed) (hshows : ∀ r ∈ pipeline, Shows router r (reply r))
    {actions : List Action} {s : ClientState}
    (hguard : Guarded (step router order) (undisturbed (streamOf pipeline)) {} actions)
    (hrun : run (step router order) {} actions = some s) :
    ∃ count, AnsweredInOrder router order pipeline s count ∧
      readReplies ((pipeline.take count).map WireRequest.method)
          (s.history.sent ++ s.conn.writeBuffer) =
        some ((pipeline.take count).map reply) := by
  have hanswered := (serving_run hwf (fun r hr => (hshows r hr).keepsOpen) hguard
    hrun).answeredInOrder hwf
  refine ⟨_, hanswered, ?_⟩
  rw [hanswered.answered]
  exact readReplies_answers fun r hr => hshows r (List.mem_of_mem_take hr)

end Stream

end HttpServer
