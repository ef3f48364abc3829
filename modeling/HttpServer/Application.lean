/-
The program's own routes, and what a client of the whole server gets from them.
Status and body of every answer are read back from the connection's bytes as the
handler returned them, through request parser, router and response encoder.
-/
import HttpServer.LogEntry
import HttpServer.ReplyStream
import HttpServer.RouteTable

namespace HttpServer

open ByteText GuardedRun HttpClient HttpResponseEncoder

namespace Application

def root : HttpHandler := fun _ =>
  some (HttpResponse.html {} (ascii "<h1>Hello from C++ HTTP Server!</h1>"))

def health : HttpHandler := fun _ =>
  some (HttpResponse.json {} (ascii "\x7b\"status\":\"ok\",\"uptime\":\"healthy\"\x7d"))

def echo : HttpHandler := fun req =>
  some ((HttpResponse.setStatus {} 200 (ascii "OK")).setBody (ascii "Echo: " ++ req.body))

def resource : HttpHandler := fun req =>
  if req.body.isEmpty then
    some ((HttpResponse.setStatus {} 400 (ascii "Bad Request")).json
      (ascii "\x7b\"error\":\"empty body\"\x7d"))
  else
    some ((HttpResponse.setStatus {} 200 (ascii "OK")).json
      (ascii "\x7b\"status\":\"updated\",\"received_bytes\":" ++ numeral 10 req.body.length ++
        ascii "\x7d"))

def resources : HttpHandler := fun _ =>
  some (HttpResponse.setStatus {} 204 (ascii "No Content"))

def echoLarge : HttpHandler := fun req =>
  some ((HttpResponse.setStatus {} 200 (ascii "OK")).setBody req.body)

/-- `"line-%06d-0123456789abcdef\n"`. -/
def line (i : Nat) : Bytes := ascii "line-" ++ padded 6 i ++ ascii "-0123456789abcdef\n"

def largeBody : Bytes := (List.range (200 * 1024 / 50)).flatMap line

def testLarge : HttpHandler := fun _ =>
  some ((HttpResponse.setStatus {} 200 (ascii "OK")).html largeBody)

def testEcho : HttpHandler := fun req =>
  some (((HttpResponse.setStatus {} 200 (ascii "OK")).setHeader (ascii "Content-Type")
    (ascii "text/plain")).setBody req.body)

/-- The registrations of `main`, in their order. -/
def server : HttpRouter :=
  let server : HttpRouter := {}
  let server := server.get (ascii "/") root
  let server := server.get (ascii "/api/health") health
  let server := server.post (ascii "/api/echo") echo
  let server := server.put (ascii "/api/resource") resource
  let server := server.del (ascii "/api/resources") resources
  let server := server.post (ascii "/api/echo/large") echoLarge
  let server := server.get (ascii "/test/large") testLarge
  server.post (ascii "/test/echo") testEcho

def missing : Nat × Bytes :=
  (404, ascii "<h1>404 Not Found</h1><p>The requested URL was not found on this server.</p>")

/-- What the program promises for a request: a status and a body. -/
def reply (request : HttpRequest) : Nat × Bytes :=
  match request.method with
  | .get =>
      if request.path = ascii "/test/large" then (200, largeBody)
      else if request.path = ascii "/api/health" then
        (200, ascii "\x7b\"status\":\"ok\",\"uptime\":\"healthy\"\x7d")
      else if request.path = ascii "/" then
        (200, ascii "<h1>Hello from C++ HTTP Server!</h1>")
      else missing
  | .post =>
      if request.path = ascii "/test/echo" then (200, request.body)
      else if request.path = ascii "/api/echo/large" then (200, request.body)
      else if request.path = ascii "/api/echo" then (200, ascii "Echo: " ++ request.body)
      else missing
  | .put =>
      if request.path = ascii "/api/resource" then
        if request.body = [] then (400, ascii "\x7b\"error\":\"empty body\"\x7d")
        else (200, ascii "\x7b\"status\":\"updated\",\"received_bytes\":" ++
          numeral 10 request.body.length ++ ascii "\x7d")
      else missing
  | .delete => if request.path = ascii "/api/resources" then (204, []) else missing
  | _ => missing

/-- A handler's answer that leaves framing and connection to the server. -/
structure Plain (res : HttpResponse) : Prop where
  keepsOpen : res.alreadyClose = false
  unframed : UnframedText res
  bodyType : res.bodyType = .contentLength

/-- No header, or the content type of one of the program's own pages. -/
def OwnHeaders (headers : HttpHeaders) : Prop :=
  headers = .empty ∨ ∃ value ∈ [ascii "text/html; charset=utf-8", ascii "application/json",
    ascii "text/plain"], headers = HttpHeaders.empty.set (ascii "Content-Type") value

theorem contentTypes_plain : ∀ value ∈ [ascii "text/html; charset=utf-8",
    ascii "application/json", ascii "text/plain"],
    CrlfFree value ∧
      isFraming (readField (fieldText (lowerBytes (ascii "Content-Type"), value))) = false := by
  decide

theorem plain_of_ownHeaders {res : HttpResponse} (hmessage : CrlfFree res.statusMessage)
    (hbodyType : res.bodyType = .contentLength) (hheaders : OwnHeaders res.headers) :
    Plain res := by
  have hlookup : ∀ name value, res.headers.mHeaders.lookup name = some value →
      name = lowerBytes (ascii "Content-Type") ∧ value ∈ [ascii "text/html; charset=utf-8",
        ascii "application/json", ascii "text/plain"] := by
    intro name value hfound
    rcases hheaders with hempty | ⟨own, hown, hset⟩
    · simp [hempty, HttpHeaders.empty] at hfound
    · rw [hset] at hfound
      rcases lookup_set hfound with ⟨rfl, rfl⟩ | hold
      · exact ⟨rfl, hown⟩
      · simp [HttpHeaders.empty] at hold
  have hname : CrlfFree (lowerBytes (ascii "Content-Type")) := by decide
  constructor
  · have hconnection : res.headers.get (ascii "Connection") = none := by
      cases hget : res.headers.get (ascii "Connection") with
      | none => rfl
      | some value => exact absurd (hlookup _ _ hget).1 (by decide)
    simp [HttpResponse.alreadyClose, hconnection]
  · constructor
    · exact hmessage
    · intro name value hfound
      obtain ⟨rfl, hvalue⟩ := hlookup name value hfound
      exact ⟨hname, (contentTypes_plain value hvalue).1⟩
    · intro name value hfound
      obtain ⟨rfl, hvalue⟩ := hlookup name value hfound
      exact (contentTypes_plain value hvalue).2
  · exact hbodyType

/-- The handler returns, and a client is to be told this. -/
def Answers (result : Option HttpResponse) (expected : Nat × Bytes) : Prop :=
  ∃ res, result = some res ∧ Plain res ∧ res.shown = expected

theorem messages_free : CrlfFree (ascii "OK") ∧ CrlfFree (ascii "Bad Request") ∧
    CrlfFree (ascii "No Content") ∧ CrlfFree (ascii "Not Found") := by
  decide

theorem answers_html {res : HttpResponse} (hmessage : CrlfFree res.statusMessage)
    (hbodyType : res.bodyType = .contentLength) (hheaders : res.headers = .empty)
    (text : Bytes) : Answers (some (res.html text)) (res.statusCode.toNat, text) := by
  refine ⟨_, rfl, plain_of_ownHeaders hmessage hbodyType (Or.inr ⟨_, List.mem_cons_self, ?_⟩), rfl⟩
  rw [← hheaders]
  rfl

theorem answers_json {res : HttpResponse} (hmessage : CrlfFree res.statusMessage)
    (hbodyType : res.bodyType = .contentLength) (hheaders : res.headers = .empty)
    (text : Bytes) : Answers (some (res.json text)) (res.statusCode.toNat, text) := by
  refine ⟨_, rfl, plain_of_ownHeaders hmessage hbodyType (Or.inr ⟨ascii "application/json",
    by simp, ?_⟩), rfl⟩
  rw [← hheaders]
  rfl

theorem answers_setBody {res : HttpResponse} (hplain : Plain res) (body : Bytes) :
    Answers (some (res.setBody body)) (res.statusCode.toNat, body) :=
  ⟨_, rfl, ⟨hplain.keepsOpen, ⟨hplain.unframed.messageFree, hplain.unframed.fieldsFree,
    hplain.unframed.unframed⟩, hplain.bodyType⟩, rfl⟩

theorem plain_status (code : UInt16) {message : Bytes} (hmessage : CrlfFree message) :
    Plain (HttpResponse.setStatus {} code message) :=
  plain_of_ownHeaders hmessage rfl (Or.inl rfl)

theorem answers_missing : Answers (some HttpRouter.notFound) missing :=
  @answers_html (HttpResponse.setStatus {} 404 (ascii "Not Found")) messages_free.2.2.2 rfl rfl _

/-- Every request gets an answer, and it is the promised one. -/
theorem route_server (request : HttpRequest) : Answers (server.route request) (reply request) := by
  obtain ⟨hok, hbad, hnoContent, _⟩ := messages_free
  have htestEcho : Answers (testEcho request) (200, request.body) :=
    answers_setBody (plain_of_ownHeaders hok rfl (Or.inr ⟨ascii "text/plain", by simp, rfl⟩)) _
  have hechoLarge : Answers (echoLarge request) (200, request.body) :=
    answers_setBody (plain_status 200 hok) _
  have hecho : Answers (echo request) (200, ascii "Echo: " ++ request.body) :=
    answers_setBody (plain_status 200 hok) _
  have hresources : Answers (resources request) (204, []) :=
    ⟨_, rfl, plain_status 204 hnoContent, rfl⟩
  simp only [server, HttpRouter.get, HttpRouter.post, HttpRouter.put, HttpRouter.del,
    HttpRouter.route_addRoute, HttpRouter.route_empty]
  cases hmethod : request.method with
  | get =>
      simp only [reply, hmethod, true_and, reduceCtorEq, false_and, ↓reduceIte]
      split
      · exact answers_html hok rfl rfl _
      · split
        · exact @answers_json {} hok rfl rfl _
        · split
          · exact @answers_html {} hok rfl rfl _
          · exact answers_missing
  | post =>
      simp only [reply, hmethod, true_and, reduceCtorEq, false_and, ↓reduceIte]
      split
      · exact htestEcho
      · split
        · exact hechoLarge
        · split
          · exact hecho
          · exact answers_missing
  | put =>
      simp only [reply, hmethod, true_and, reduceCtorEq, false_and, ↓reduceIte]
      split
      · simp only [resource, List.isEmpty_iff]
        split
        · exact answers_json hbad rfl rfl _
        · exact answers_json hok rfl rfl _
      · exact answers_missing
  | delete =>
      simp only [reply, hmethod, true_and, reduceCtorEq, false_and, ↓reduceIte]
      split
      · exact hresources
      · exact answers_missing
  | _ =>
      simp only [reply, hmethod, reduceCtorEq, false_and, ↓reduceIte]
      exact answers_missing

/-- The only page without a body is the one that must not have one. -/
theorem reply_status (request : HttpRequest) :
    (reply request).1 ∈ [200, 400, 404] ∨ reply request = (204, []) := by
  unfold reply
  split
  · split
    · exact Or.inl (by simp)
    · split
      · exact Or.inl (by simp)
      · split <;> exact Or.inl (by simp [missing])
  · split
    · exact Or.inl (by simp)
    · split
      · exact Or.inl (by simp)
      · split <;> exact Or.inl (by simp [missing])
  · split
    · split <;> exact Or.inl (by simp)
    · exact Or.inl (by simp [missing])
  · split
    · exact Or.inr rfl
    · exact Or.inl (by simp [missing])
  · exact Or.inl (by simp [missing])

theorem noBody_reply {method : HttpMethod} (hhead : method ≠ .head) (request : HttpRequest)
    (hnone : noBody method (reply request).1 = true) : (reply request).2 = [] := by
  rcases reply_status request with hstatus | hempty
  · have hbody : ∀ status ∈ [200, 400, 404], noBody method status = false := by
      simp [noBody, hhead]
    rw [hbody _ hstatus] at hnone
    contradiction
  · rw [hempty]

theorem shows_reply {r : WireRequest} (hkeep : r.request.wantsKeepAlive = true)
    (hhead : r.method ≠ .head) : Shows server r (reply r.request) := by
  obtain ⟨res, hroute, hplain, hshown⟩ := route_server r.request
  refine ⟨hkeep, res, hroute, hplain.keepsOpen, hplain.unframed, ⟨?_, fun _ => hplain.bodyType⟩,
    hshown⟩
  have hbody := noBody_reply hhead r.request
  rw [← hshown] at hbody
  exact hbody

/-- A client that pipelines keep-alive requests to the program reads the promised
statuses and bodies from the connection, one for each request answered so far, in
every undisturbed run; with no task left these are all the requests that have
arrived. -/
theorem program_replies {order : HeaderOrder} {pipeline : List WireRequest}
    (hwf : ∀ r ∈ pipeline, r.WellFormed)
    (hkeep : ∀ r ∈ pipeline, r.request.wantsKeepAlive = true)
    (hhead : ∀ r ∈ pipeline, r.method ≠ .head) {actions : List Action} {s : ClientState}
    (hguard : Guarded (step server order) (undisturbed (streamOf pipeline)) {} actions)
    (hrun : run (step server order) {} actions = some s) :
    ∃ count, AnsweredInOrder server order pipeline s count ∧
      readReplies ((pipeline.take count).map WireRequest.method)
          (s.history.sent ++ s.conn.writeBuffer) =
        some ((pipeline.take count).map fun r => reply r.request) :=
  replies_of_run hwf (fun r hr => shows_reply (hkeep r hr) (hhead r hr)) hguard hrun

/-- An update without a body and a chunked echo; the second request arrives in two
pieces, and the kernel takes some bytes at a time. -/
def putThenEcho : List WireRequest :=
  [{ method := .put, path := ascii "/api/resource", version := ascii "HTTP/1.1", fields := [],
     body := [], framing := .none },
   { method := .post, path := ascii "/test/echo", version := ascii "HTTP/1.1",
     fields := [(ascii "Transfer-Encoding", ascii "chunked")], body := ascii "a\r\nb",
     framing := .chunked
       { chunks := [⟨ascii "3", none, ascii "a\r\n"⟩, ⟨ascii "1", none, ascii "b"⟩],
         lastSize := ascii "0" } }]

def putThenEchoRun : List Action :=
  [.deliver { epollIn := true }, .dispatch,
    .read { recvs := [.data (ascii "PUT /api/resource HTTP/1.1\r\n\r\nPOST /test/echo HT")],
            sends := [.accepted 30] },
    .deliver { epollIn := true, epollOut := true }, .dispatch, .dispatch, .write [.accepted 50],
    .read { recvs := [.data (ascii
      "TP/1.1\r\nTransfer-Encoding: chunked\r\n\r\n3\r\na\r\n\r\n1\r\nb\r\n0\r\n\r\n")] },
    .updateEpoll false]

theorem program_replies_putThenEcho :
    ∃ s, run (step server sortedOrder) {} putThenEchoRun = some s ∧ s.tasks = [] ∧
      ∃ count, AnsweredInOrder server sortedOrder putThenEcho s count ∧
        readReplies ((putThenEcho.take count).map WireRequest.method)
            (s.history.sent ++ s.conn.writeBuffer) =
          some ((putThenEcho.take count).map fun r => reply r.request) := by
  obtain ⟨s, hrun, htasks⟩ := @exists_reached _ _ (step server sortedOrder) {} putThenEchoRun
    (fun s => s.tasks = []) _ (by decide +kernel)
  exact ⟨s, hrun, htasks, program_replies (by decide +kernel) (by decide +kernel) (by decide)
    (by decide +kernel) hrun⟩

end Application

end HttpServer
