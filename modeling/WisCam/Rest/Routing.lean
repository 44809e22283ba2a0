import WisCam.Rest.Listing

/-!
# Routing of requests

`ev_handler` compares the start of the URI with the path of the interface, which is written without
the slash that every URI begins with, and calls a handler if they differ. The handlers then search
the URI for the paths of their endpoints, at any place.

`routing_iff` says for which requests this comes to what is meant: a handler is called exactly for
the URIs below the interface, other URIs are files, and an endpoint is selected only where its path
follows the slash. This is so for a URI that begins with the path without a slash, and for one below
the interface with one of the four methods, if no endpoint that is found elsewhere in the URI is
tested before the one at its start.
-/

set_option autoImplicit false

namespace WisCam.Rest

open Foundations List

/-! ### The event handler -/

/-- `mg_strncmp(a, b, n) == 0`. -/
def mgStrncmpZero (a b : Bytes) (n : ℕ) : Bool := a.take n == b.take n

/-- What `ev_handler` does with a request. -/
inductive Route
  | get
  | put
  | post
  | delete
  | notAllowed
  | staticContent
deriving DecidableEq, Repr

/-- The methods that have a handler. -/
def apiMethods : List Bytes := ["GET", "PUT", "POST", "DELETE"].map ascii

/-- The branches of `ev_handler`. -/
def route (hm : HttpMessage) : Route :=
  if mgStrncmpZero hm.uriText platformApi platformApi.length then .staticContent
  else if hm.methodText = ascii "GET" then .get
  else if hm.methodText = ascii "PUT" then .put
  else if hm.methodText = ascii "POST" then .post
  else if hm.methodText = ascii "DELETE" then .delete
  else .notAllowed

/-- `ev_handler` for a request: the answer of a handler, or none if a file is served. -/
def evHandler (device : Device) (hm : HttpMessage) (files : Group → Storage) :
    Except Fault (Option Answer × (Group → Storage)) :=
  match route hm with
  | .get => do
    let answer ← rkGetMethod device hm
    .ok (some answer, files)
  | .put => do
    let (answer, files) ← rkPutMethod hm files
    .ok (some answer, files)
  | .post => .ok (some ⟨[501], none, 0⟩, files)
  | .delete => .ok (some ⟨[501], none, 0⟩, files)
  | .notAllowed => .ok (some ⟨[405], none, 0⟩, files)
  | .staticContent => .ok (none, files)

/-- A handler of the interface is called. -/
def Route.IsApi (route : Route) : Prop :=
  route = .get ∨ route = .put ∨ route = .post ∨ route = .delete

/-- The paths that a handler tests, in this order. -/
def Route.tested : Route → List Bytes
  | .get => getEndpoints.map GetEndpoint.path
  | .put => putEndpoints.map PutEndpoint.path
  | .post => []
  | .delete => []
  | .notAllowed => []
  | .staticContent => []

/-- The path of the endpoint that a handler selects. -/
def Route.selected (route : Route) (uri : Bytes) : Option Bytes :=
  route.tested.find? fun path ↦ mgStrstr uri path

/-- The handlers select the endpoint with this path. -/
theorem selected_get (uri : Bytes) :
    Route.get.selected uri = (getEndpoint uri).map GetEndpoint.path := by
  rw [Route.selected, Route.tested, List.find?_map]
  rfl

theorem selected_put (uri : Bytes) :
    Route.put.selected uri = (putEndpoint uri).map PutEndpoint.path := by
  rw [Route.selected, Route.tested, List.find?_map]
  rfl

/-- A path directly behind the first slash. -/
def Follows (path uri : Bytes) : Prop := 47 :: path <+: uri

/-- What is meant by the routing. -/
structure RoutesRight (hm : HttpMessage) : Prop where
  api : (route hm).IsApi ↔ Follows platformApi hm.uriText
  content : ¬Follows platformApi hm.uriText → route hm = .staticContent
  endpoint : ∀ path, (route hm).selected hm.uriText = some path → Follows path hm.uriText

/-- The paths of the endpoints for a method, in the order in which they are tested. -/
def endpointsOf (method : Bytes) : List Bytes :=
  if method = ascii "GET" then getEndpoints.map GetEndpoint.path
  else if method = ascii "PUT" then putEndpoints.map PutEndpoint.path
  else []

/-- No endpoint that is found elsewhere is tested before the one at the start. -/
def TestedFirst (list : List Bytes) (uri : Bytes) : Prop :=
  ∀ earlier path later, list = earlier ++ path :: later → mgStrstr uri path = true →
    ∃ first ∈ earlier ++ [path], Follows first uri

/-! ### When the routing is right -/

section Right

variable {hm : HttpMessage} {list : List Bytes} {path uri : Bytes}

theorem mgStrncmpZero_iff : mgStrncmpZero uri platformApi platformApi.length = true ↔
    platformApi <+: uri := by
  rw [mgStrncmpZero, beq_iff_eq, take_length, prefix_iff_eq_take, eq_comm]

theorem mgStrstr_of_follows (hne : path ≠ []) (hfollows : Follows path uri) :
    mgStrstr uri path = true := by
  obtain ⟨rest, rfl⟩ := hfollows
  rw [mgStrstr, Option.isSome_iff_ne_none]
  intro hnone
  exact (strstr_eq_none_iff hne).mp hnone 1 (prefix_append path rest)

/-- The endpoint that is selected follows the slash exactly if it is tested first. -/
theorem find_follows_iff (hne : ∀ path ∈ list, path ≠ []) :
    (∀ path, (list.find? fun path ↦ mgStrstr uri path) = some path → Follows path uri) ↔
      TestedFirst list uri := by
  constructor
  · rintro hselected earlier path later rfl hpath
    rw [List.find?_append, List.find?_cons_of_pos hpath] at hselected
    cases hearlier : earlier.find? fun path ↦ mgStrstr uri path with
    | none =>
      rw [hearlier] at hselected
      exact ⟨path, mem_append_right _ (mem_singleton_self _), hselected path rfl⟩
    | some first =>
      rw [hearlier] at hselected
      exact ⟨first, mem_append_left _ (List.mem_of_find?_eq_some hearlier), hselected first rfl⟩
  · intro hfirst path hpath
    obtain ⟨hfound, earlier, later, rfl, hearlier⟩ := List.find?_eq_some_iff_append.mp hpath
    obtain ⟨first, hmem, hfollows⟩ := hfirst earlier path later rfl hfound
    rcases mem_append.mp hmem with hmem | hmem
    · have htested : first ∈ earlier ++ path :: later := mem_append_left _ hmem
      have hcontained := mgStrstr_of_follows (hne first htested) hfollows
      exact absurd hcontained (by simpa using hearlier first hmem)
    · exact mem_singleton.mp hmem ▸ hfollows

theorem tested_ne_nil (route : Route) : ∀ path ∈ route.tested, path ≠ [] := by
  cases route <;> decide

theorem not_follows_of_starts (hstarts : platformApi <+: uri) : ¬Follows platformApi uri := by
  rintro ⟨rest, rfl⟩
  exact absurd (cons_prefix_cons.mp hstarts).1 (by decide)

theorem route_of_starts (hstarts : platformApi <+: hm.uriText) : route hm = .staticContent := by
  rw [route, if_pos (mgStrncmpZero_iff.mpr hstarts)]

/-- The route of another request is given by its method. -/
theorem route_of_not_starts (hstarts : ¬platformApi <+: hm.uriText) :
    route hm ≠ .staticContent ∧ ((route hm).IsApi ↔ hm.methodText ∈ apiMethods) ∧
      (route hm).tested = endpointsOf hm.methodText := by
  have hdiffers : ¬mgStrncmpZero hm.uriText platformApi platformApi.length = true :=
    fun hsame ↦ hstarts (mgStrncmpZero_iff.mp hsame)
  have hmethods : hm.methodText ∈ apiMethods ↔ hm.methodText = ascii "GET" ∨
      hm.methodText = ascii "PUT" ∨ hm.methodText = ascii "POST" ∨
      hm.methodText = ascii "DELETE" := by simp [apiMethods]
  rw [route, if_neg hdiffers, hmethods, Route.IsApi, endpointsOf]
  split
  · simp [*, Route.tested]
  · split
    · simp [*, Route.tested]
    · split
      · simp [*, Route.tested]
      · split
        · simp [*, Route.tested]
        · simp [*, Route.tested]

end Right

/-- The routing of a request is right exactly if its URI begins with the path of the interface
without a slash, or with the path after a slash, the method has a handler and the endpoint at the
start of the URI, if there is one, is tested before any other one that is found in the URI. -/
theorem routing_iff (hm : HttpMessage) :
    RoutesRight hm ↔ platformApi <+: hm.uriText ∨
      Follows platformApi hm.uriText ∧ hm.methodText ∈ apiMethods ∧
        TestedFirst (endpointsOf hm.methodText) hm.uriText := by
  have hendpoint := @find_follows_iff (route hm).tested hm.uriText (tested_ne_nil _)
  by_cases hstarts : platformApi <+: hm.uriText
  · have hroute := route_of_starts hstarts
    refine iff_of_true ⟨?_, fun _ ↦ hroute, ?_⟩ (.inl hstarts)
    · rw [hroute]
      exact iff_of_false (by simp [Route.IsApi]) (not_follows_of_starts hstarts)
    · rw [hroute]
      exact fun path hselected ↦ absurd hselected (by simp [Route.selected, Route.tested])
  · obtain ⟨hnotStatic, hisApi, htested⟩ := route_of_not_starts hstarts
    rw [or_iff_right hstarts, ← htested]
    constructor
    · rintro ⟨hapi, hcontent, hselected⟩
      have hfollows : Follows platformApi hm.uriText := by
        by_contra hnot
        exact hnotStatic (hcontent hnot)
      exact ⟨hfollows, hisApi.mp (hapi.mpr hfollows), hendpoint.mp hselected⟩
    · rintro ⟨hfollows, hmethod, hfirst⟩
      exact ⟨iff_of_true (hisApi.mpr hmethod) hfollows, fun hnot ↦ absurd hfollows hnot,
        hendpoint.mpr hfirst⟩

instance (path uri : Bytes) : Decidable (Follows path uri) :=
  inferInstanceAs (Decidable (47 :: path <+: uri))

/-- A file that is asked for is looked for among the endpoints, and one in a directory with the name
of an endpoint is answered by the endpoint. -/
theorem file_routed_to_get :
    (¬Follows platformApi (ascii "/index.html") ∧
        route (getRequest (ascii "/index.html")) = .get) ∧
      ¬Follows (ascii "wiscam.api/v1/version") (ascii "/old/wiscam.api/v1/version") ∧
        Route.get.selected (ascii "/old/wiscam.api/v1/version") =
          some (ascii "wiscam.api/v1/version") := by
  decide +kernel

end WisCam.Rest
