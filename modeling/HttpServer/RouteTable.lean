/-
The route table.  Method and path are joined into one key; no two pairs share
a key, so a request reaches the handler that was last registered for exactly its
method and its path.
-/
import HttpServer.HttpResponse

namespace HttpServer

open ByteText

namespace HttpRouter

/-- One call of `add_route`. -/
structure Registration where
  method : HttpMethod
  path : Bytes
  handler : HttpHandler

/-- A router after these calls, in this order. -/
def registerAll (routes : List Registration) : HttpRouter :=
  routes.foldl (fun router r => router.addRoute r.method r.path r.handler) {}

theorem registerAll_concat (routes : List Registration) (r : Registration) :
    registerAll (routes ++ [r]) = (registerAll routes).addRoute r.method r.path r.handler := by
  rw [registerAll, List.foldl_append]
  rfl

/-- What stands in front of the path in a key. -/
def keyHead (method : HttpMethod) : Bytes := makeRouteKey method []

theorem makeRouteKey_eq (method : HttpMethod) (path : Bytes) :
    makeRouteKey method path = keyHead method ++ path := by
  simp [keyHead, makeRouteKey]

/-- The head of a key ends at its first colon, wherever else the path has one. -/
theorem keyHead_eq (method : HttpMethod) :
    ∃ name, keyHead method = name ++ [58] ∧ 58 ∉ name := by
  refine ⟨(keyHead method).dropLast, ?_⟩
  cases method <;> decide

theorem keyHead_injective : ∀ left right : HttpMethod,
    keyHead left = keyHead right → left = right := by
  intro left right
  cases left <;> cases right <;> decide

theorem takeWhile_colon {name : Bytes} (hname : 58 ∉ name) (path : Bytes) :
    (name ++ 58 :: path).takeWhile (· ≠ 58) = name := by
  rw [List.takeWhile_append_of_pos]
  · simp
  · intro b hb
    have hne : b ≠ 58 := fun heq => hname (heq ▸ hb)
    simpa using hne

theorem makeRouteKey_inj {method method' : HttpMethod} {path path' : Bytes} :
    makeRouteKey method path = makeRouteKey method' path' ↔
      method = method' ∧ path = path' := by
  constructor
  · intro heq
    rw [makeRouteKey_eq, makeRouteKey_eq] at heq
    obtain ⟨name, hname, hcolon⟩ := keyHead_eq method
    obtain ⟨name', hname', hcolon'⟩ := keyHead_eq method'
    have hcut := congrArg (List.takeWhile (· ≠ 58)) heq
    rw [hname, hname', List.append_assoc, List.append_assoc, List.singleton_append,
      List.singleton_append, takeWhile_colon hcolon, takeWhile_colon hcolon'] at hcut
    have hhead : keyHead method = keyHead method' := by rw [hname, hname', hcut]
    rw [hhead] at heq
    exact ⟨keyHead_injective _ _ hhead, List.append_cancel_left heq⟩
  · rintro ⟨rfl, rfl⟩
    rfl

/-- A registration decides about its own method and path and about nothing else. -/
theorem route_addRoute (router : HttpRouter) (method : HttpMethod) (path : Bytes)
    (handler : HttpHandler) (request : HttpRequest) :
    (router.addRoute method path handler).route request =
      if request.method = method ∧ request.path = path then handler request
      else router.route request := by
  by_cases hserves : request.method = method ∧ request.path = path
  · rw [if_pos hserves, route, addRoute, hserves.1, hserves.2, Finmap.lookup_insert]
  · have hkey : makeRouteKey request.method request.path ≠ makeRouteKey method path :=
      fun heq => hserves (makeRouteKey_inj.mp heq)
    rw [if_neg hserves, route, addRoute, Finmap.lookup_insert_of_ne _ hkey, route]

theorem route_empty (request : HttpRequest) : ({} : HttpRouter).route request = some notFound :=
  rfl

/-- The registration is for this request. -/
def Registration.Serves (r : Registration) (request : HttpRequest) : Prop :=
  request.method = r.method ∧ request.path = r.path

instance (r : Registration) (request : HttpRequest) : Decidable (r.Serves request) :=
  inferInstanceAs (Decidable (_ ∧ _))

/-- How a table of registrations answers a request. -/
structure Dispatches (routes : List Registration) (request : HttpRequest)
    (result : Option HttpResponse) : Prop where
  last : ∀ before r after, routes = before ++ r :: after → r.Serves request →
    (∀ later ∈ after, ¬later.Serves request) → result = r.handler request
  missing : (∀ r ∈ routes, ¬r.Serves request) → result = some notFound

theorem route_registerAll_of_unserved {before after : List Registration} {request : HttpRequest}
    (hafter : ∀ later ∈ after, ¬later.Serves request) :
    (registerAll (before ++ after)).route request = (registerAll before).route request := by
  induction after using List.reverseRecOn with
  | nil => rw [List.append_nil]
  | append_singleton after later ih =>
      obtain ⟨hearlier, hlater⟩ := List.forall_mem_append.mp hafter
      have hother : ¬(request.method = later.method ∧ request.path = later.path) :=
        hlater later List.mem_cons_self
      rw [← List.append_assoc, registerAll_concat, route_addRoute, if_neg hother, ih hearlier]

/-- For every table of registrations, repeated ones included, and every request. -/
theorem route_dispatches (routes : List Registration) (request : HttpRequest) :
    Dispatches routes request ((registerAll routes).route request) := by
  constructor
  · rintro before r after rfl hserves hafter
    rw [List.append_cons, route_registerAll_of_unserved hafter, registerAll_concat,
      route_addRoute]
    exact if_pos hserves
  · intro hnone
    have hroute := @route_registerAll_of_unserved [] routes request hnone
    rwa [List.nil_append] at hroute

end HttpRouter

end HttpServer
