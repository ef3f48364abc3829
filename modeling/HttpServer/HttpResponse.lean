/-
Responses, their encoder and the router.  The encoder walks an unordered map,
so everything it writes is stated for an arbitrary iteration order.
-/
import Mathlib.Data.List.Lex
import Mathlib.Data.List.Sort
import Mathlib.Data.Prod.Lex
import HttpServer.MessageFormat

namespace HttpServer

open ByteText

inductive BodyType where
  | contentLength
  | chunked
deriving Repr, DecidableEq

structure HttpResponse where
  statusCode : UInt16 := 200
  statusMessage : Bytes := ascii "OK"
  headers : HttpHeaders := .empty
  body : Bytes := []
  bodyType : BodyType := .contentLength
  closeAfterSend : Bool := false
deriving DecidableEq

namespace HttpResponse

def setStatus (res : HttpResponse) (code : UInt16) (message : Bytes) : HttpResponse :=
  { res with statusCode := code, statusMessage := message }

def setHeader (res : HttpResponse) (key value : Bytes) : HttpResponse :=
  { res with headers := res.headers.set key value }

def setBody (res : HttpResponse) (body : Bytes) : HttpResponse :=
  { res with body }

def json (res : HttpResponse) (text : Bytes) : HttpResponse :=
  (res.setHeader (ascii "Content-Type") (ascii "application/json")).setBody text

def html (res : HttpResponse) (text : Bytes) : HttpResponse :=
  (res.setHeader (ascii "Content-Type") (ascii "text/html; charset=utf-8")).setBody text

/-- The handler has asked for the connection to be closed. -/
def alreadyClose (res : HttpResponse) : Bool :=
  match res.headers.get (ascii "Connection") with
  | none => false
  | some value => HttpRequest.contains (lowerBytes value) (ascii "close")

/-- The second argument of the source, `is_head_request`, is not used there. -/
def finalizeForConnection (res : HttpResponse) (clientWantsKeepAlive : Bool)
    (_isHeadRequest : Bool) : HttpResponse :=
  let keepAlive := clientWantsKeepAlive && !res.alreadyClose
  { res.setHeader (ascii "Connection")
      (if keepAlive then ascii "keep-alive" else ascii "close") with
    closeAfterSend := !keepAlive }

/-- Body type and close flag survive a reset. -/
def reset (res : HttpResponse) : HttpResponse :=
  { res with
    statusCode := 200
    statusMessage := ascii "OK"
    headers := .empty
    body := [] }

end HttpResponse

/-- The order in which an iteration over `getAll()` visits the entries: each
entry once, in no particular order. -/
structure HeaderOrder where
  entries : HttpHeaders → List (Bytes × Bytes)
  keysNodup : ∀ headers, ((entries headers).map Prod.fst).Nodup
  mem_entries : ∀ headers key value,
    (key, value) ∈ entries headers ↔ headers.mHeaders.lookup key = some value

def maxChuckSize : Nat := 64 * 1024

namespace HttpResponseEncoder

def setResponseHeader (res : HttpResponse) : HttpResponse :=
  let bodySize := res.body.length
  if maxChuckSize < bodySize then
    { res with
      bodyType := .chunked
      headers := (res.headers.del (ascii "Content-Length")).set
        (ascii "Transfer-Encoding") (ascii "chunked") }
  else if bodySize = 0 then
    { res with headers := res.headers.set (ascii "Content-Length") (ascii "0") }
  else
    { res with
      bodyType := .contentLength
      headers := (res.headers.del (ascii "Transfer-Encoding")).set
        (ascii "Content-Length") (numeral 10 bodySize) }

def statusLine (res : HttpResponse) : Bytes :=
  ascii "HTTP/1.1 " ++ (numeral 10 res.statusCode.toNat ++ (ascii " " ++ res.statusMessage))

/-- The `while (offset < body_size)` loop; the argument is the body from the
current offset on. -/
def encodeChunks (body : Bytes) : Bytes :=
  if body = [] then []
  else
    let chunk := body.take maxChuckSize
    numeral 16 chunk.length ++ (crlf ++ (chunk ++ (crlf ++
      encodeChunks (body.drop maxChuckSize))))
termination_by body.length
decreasing_by
  rename_i hne
  have hpositive : 0 < body.length := List.length_pos_iff.mpr hne
  simp only [List.length_drop, maxChuckSize]
  omega

/-- What follows the blank line. -/
def encodeBody (res : HttpResponse) : Bytes :=
  match res.bodyType with
  | .contentLength => res.body
  | .chunked => encodeChunks res.body ++ ascii "0\r\n\r\n"

/-- Wire bytes and the response as `encode` leaves it. -/
def encode (order : HeaderOrder) (response : HttpResponse) (isHeadRequest : Bool) :
    Bytes × HttpResponse :=
  let framed := setResponseHeader response
  let payload := if isHeadRequest then [] else encodeBody framed
  (statusLine response ++ (crlf ++
    (fieldLines (order.entries framed.headers) ++ (crlf ++ payload))), framed)

end HttpResponseEncoder

/-- A handler; `none` is an exception that escapes from it. -/
abbrev HttpHandler := HttpRequest → Option HttpResponse

structure HttpRouter where
  mRoutes : Finmap (fun _ : Bytes => HttpHandler) := ∅

namespace HttpRouter

def makeRouteKey (method : HttpMethod) (path : Bytes) : Bytes :=
  (match method with
    | .get => ascii "GET:"
    | .post => ascii "POST:"
    | .put => ascii "PUT:"
    | .delete => ascii "DELETE:"
    | .head => ascii "HEAD:"
    | .options => ascii "OPTIONS:"
    | .unknown => ascii "UNKNOWN:") ++ path

/-- A later registration of the same key replaces the earlier one. -/
def addRoute (router : HttpRouter) (method : HttpMethod) (path : Bytes)
    (handler : HttpHandler) : HttpRouter :=
  ⟨router.mRoutes.insert (makeRouteKey method path) handler⟩

def get (router : HttpRouter) (path : Bytes) (handler : HttpHandler) : HttpRouter :=
  router.addRoute .get path handler

def post (router : HttpRouter) (path : Bytes) (handler : HttpHandler) : HttpRouter :=
  router.addRoute .post path handler

def put (router : HttpRouter) (path : Bytes) (handler : HttpHandler) : HttpRouter :=
  router.addRoute .put path handler

def del (router : HttpRouter) (path : Bytes) (handler : HttpHandler) : HttpRouter :=
  router.addRoute .delete path handler

def notFound : HttpResponse :=
  (HttpResponse.setStatus {} 404 (ascii "Not Found")).html
    (ascii "<h1>404 Not Found</h1><p>The requested URL was not found on this server.</p>")

def route (router : HttpRouter) (request : HttpRequest) : Option HttpResponse :=
  match router.mRoutes.lookup (makeRouteKey request.method request.path) with
  | some handler => handler request
  | none => some notFound

end HttpRouter

section SortedOrder

/-- Entries compared by their bytes, key first. -/
def entryRank (entry : Σ _ : Bytes, Bytes) : List Nat ×ₗ List Nat :=
  toLex (entry.1.map UInt8.toNat, entry.2.map UInt8.toNat)

theorem entryRank_injective : Function.Injective entryRank := by
  rintro ⟨leftKey, leftValue⟩ ⟨rightKey, rightValue⟩ heq
  have hbyte : Function.Injective UInt8.toNat := fun _ _ h => UInt8.toNat_inj.mp h
  obtain ⟨hkey, hvalue⟩ := Prod.mk.inj (toLex_inj.mp heq)
  have hkeys : leftKey = rightKey := List.map_injective_iff.mpr hbyte hkey
  have hvalues : leftValue = rightValue := List.map_injective_iff.mpr hbyte hvalue
  rw [hkeys, hvalues]

def entryLe (left right : Σ _ : Bytes, Bytes) : Prop := entryRank left ≤ entryRank right

instance : DecidableRel entryLe := fun left right =>
  inferInstanceAs (Decidable (entryRank left ≤ entryRank right))

instance : IsTrans (Σ _ : Bytes, Bytes) entryLe :=
  ⟨fun first second third => @le_trans _ _ (entryRank first) (entryRank second)
    (entryRank third)⟩

instance : Std.Total entryLe :=
  ⟨fun left right => le_total (entryRank left) (entryRank right)⟩

instance : Std.Antisymm entryLe :=
  ⟨fun _ _ hle hge => entryRank_injective (le_antisymm hle hge)⟩

theorem insertionSort_eq_of_perm {left right : List (Σ _ : Bytes, Bytes)}
    (hperm : left.Perm right) :
    left.insertionSort entryLe = right.insertionSort entryLe := by
  apply List.Perm.eq_of_pairwise' (List.pairwise_insertionSort entryLe left)
    (List.pairwise_insertionSort entryLe right)
  exact ((List.perm_insertionSort entryLe left).trans hperm).trans
    (List.perm_insertionSort entryLe right).symm

/-- The entries in byte order: one iteration order that can be computed. -/
def sortedEntries (headers : HttpHeaders) : List (Σ _ : Bytes, Bytes) :=
  Quotient.liftOn headers.mHeaders.entries (fun l => l.insertionSort entryLe)
    fun _ _ hperm => insertionSort_eq_of_perm hperm

theorem coe_sortedEntries (headers : HttpHeaders) :
    (sortedEntries headers : Multiset (Σ _ : Bytes, Bytes)) =
      headers.mHeaders.entries := by
  unfold sortedEntries
  induction headers.mHeaders.entries using Quotient.inductionOn with
  | _ l => exact Multiset.coe_eq_coe.mpr (List.perm_insertionSort entryLe l)

def sortedOrder : HeaderOrder where
  entries headers := (sortedEntries headers).map fun entry => (entry.1, entry.2)
  keysNodup := by
    intro headers
    have hkeys := headers.mHeaders.nodupKeys
    rw [← coe_sortedEntries headers] at hkeys
    simpa [List.NodupKeys, List.keys, Function.comp_def] using hkeys
  mem_entries := by
    intro headers key value
    rw [Finmap.lookup_eq_some_iff, ← coe_sortedEntries headers, Multiset.mem_coe,
      List.mem_map]
    constructor
    · rintro ⟨⟨key', value'⟩, hmem, heq⟩
      obtain ⟨rfl, rfl⟩ := Prod.mk.inj heq
      exact hmem
    · intro hmem
      exact ⟨⟨key, value⟩, hmem, rfl⟩

end SortedOrder

end HttpServer
