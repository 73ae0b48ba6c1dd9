import Amicode.Control.Grant

/-!
# The route matrix by segments

A scope lists routes. A path is under a route if it is the route or goes on behind it with a new segment
(`Under`). The matrix of `fleet_control_lifecycle.ts` asks for less: its last test takes a path whose text begins
with a listed route. No listed route begins another one of the same scope, so a path begins with one at most, and
the matrix grants what is listed if that route ends with a segment of the path (`Segmental`).

No listed route of `control` begins one of `lifecycle-admin`, nor the other way round. So the two scopes have no path
in common, whatever the method.
-/

namespace Amicode.Control

def GrantScope.routes : GrantScope → List String
  | .observe => observePrefixes
  | .control => controlPrefixes
  | .lifecycleAdmin => lifecycleAdminPrefixes

/-- A route that is followed by this text ends with a segment: nothing follows, or a separator, or the route ends
with one itself. -/
def EndsSegment (route rest : List Char) : Prop := rest = [] ∨ rest.head? = some '/' ∨ route.getLast? = some '/'

/-- The path is the route or extends it at a segment boundary. -/
def Under (route pathname : String) : Prop :=
  ∃ rest, pathname.toList = route.toList ++ rest ∧ EndsSegment route.toList rest

/-- The scope may be used with the method: `observe` is for reading. -/
def GrantScope.Permits (scope : GrantScope) (method : String) : Prop := scope = .observe → isReadMethod method = true

def Lists (scope : GrantScope) (method pathname : String) : Prop :=
  scope.Permits method ∧ ∃ route ∈ scope.routes, Under route pathname

structure MatrixLaw (scope : GrantScope) (method pathname : String) : Prop where
  /-- What is granted is listed; all else is denied. -/
  listed : evaluateRouteMatrix scope method pathname = true → Lists scope method pathname
  /-- The same of the requests that go through with a token. -/
  enforced : ∀ store token, enforceScopeForRequest store token method pathname = .ok scope →
    Lists scope method pathname
  /-- Controlling a session and administering grants have no request in common that changes anything. -/
  apart : isReadMethod method = false → ¬ (evaluateRouteMatrix .control method pathname = true ∧
    evaluateRouteMatrix .lifecycleAdmin method pathname = true)

/-- A listed route at the beginning of the path ends with a segment of it. -/
def Segmental (scope : GrantScope) (method pathname : String) : Prop :=
  scope.Permits method → ∀ route ∈ scope.routes, ∀ rest, pathname.toList = route.toList ++ rest →
    EndsSegment route.toList rest

theorem matchesPrefixes_iff {prefixes : List String} {pathname : String} :
    matchesPrefixes prefixes pathname = true ↔ ∃ route ∈ prefixes, route.toList <+: pathname.toList := by
  rw [matchesPrefixes, List.any_eq_true]
  refine exists_congr fun route ↦ and_congr_right fun _ ↦ ?_
  rw [Bool.or_eq_true, Bool.or_eq_true, decide_eq_true_eq, List.isPrefixOf_iff_prefix, List.isPrefixOf_iff_prefix]
  constructor
  · rintro ((rfl | hslash) | hroute)
    · exact List.prefix_rfl
    · rw [String.toList_append] at hslash
      exact (List.prefix_append _ _).trans hslash
    · exact hroute
  · exact .inr

theorem evaluateRouteMatrix_iff {scope : GrantScope} {method pathname : String} :
    evaluateRouteMatrix scope method pathname = true ↔
      scope.Permits method ∧ ∃ route ∈ scope.routes, route.toList <+: pathname.toList := by
  rcases scope
  · rw [evaluateRouteMatrix, Bool.and_eq_true, matchesPrefixes_iff, and_comm]
    exact and_congr_left' ⟨fun h _ ↦ h, fun h ↦ h rfl⟩
  · rw [evaluateRouteMatrix, matchesPrefixes_iff]
    exact ⟨fun h ↦ ⟨fun hscope ↦ GrantScope.noConfusion hscope, h⟩, fun h ↦ h.2⟩
  · rw [evaluateRouteMatrix, matchesPrefixes_iff]
    exact ⟨fun h ↦ ⟨fun hscope ↦ GrantScope.noConfusion hscope, h⟩, fun h ↦ h.2⟩

/-- Two routes at the beginning of one path, of which neither begins the other, are the same. -/
theorem eq_of_prefix {routes : List String}
    (hroutes : ∀ r ∈ routes, ∀ r' ∈ routes, r.toList.isPrefixOf r'.toList = true → r = r') {r r' : String}
    {text : List Char} (hr : r ∈ routes) (hr' : r' ∈ routes) (h : r.toList <+: text) (h' : r'.toList <+: text) :
    r = r' := by
  rcases List.prefix_or_prefix_of_prefix h h' with hprefix | hprefix
  · exact hroutes r hr r' hr' (List.isPrefixOf_iff_prefix.mpr hprefix)
  · exact (hroutes r' hr' r hr (List.isPrefixOf_iff_prefix.mpr hprefix)).symm

theorem routes_apart (scope : GrantScope) :
    ∀ r ∈ scope.routes, ∀ r' ∈ scope.routes, r.toList.isPrefixOf r'.toList = true → r = r' := by
  cases scope <;> decide +kernel

theorem control_lifecycleAdmin_apart (method pathname : String) :
    ¬ (evaluateRouteMatrix .control method pathname = true ∧
      evaluateRouteMatrix .lifecycleAdmin method pathname = true) := by
  rintro ⟨hcontrol, hadmin⟩
  obtain ⟨-, r, hr, hprefix⟩ := evaluateRouteMatrix_iff.mp hcontrol
  obtain ⟨-, r', hr', hprefix'⟩ := evaluateRouteMatrix_iff.mp hadmin
  have hapart : ∀ r ∈ controlPrefixes, ∀ r' ∈ lifecycleAdminPrefixes,
      r.toList.isPrefixOf r'.toList = false ∧ r'.toList.isPrefixOf r.toList = false := by
    decide +kernel
  obtain ⟨hno, hno'⟩ := hapart r hr r' hr'
  rcases List.prefix_or_prefix_of_prefix hprefix hprefix' with h | h
  · rw [List.isPrefixOf_iff_prefix.mpr h] at hno
    exact Bool.noConfusion hno
  · rw [List.isPrefixOf_iff_prefix.mpr h] at hno'
    exact Bool.noConfusion hno'

/-- **The route matrix.** At every request the law holds if a listed route at the beginning of the path ends with a
segment of it. -/
theorem matrixLaw_iff (scope : GrantScope) (method pathname : String) :
    MatrixLaw scope method pathname ↔ Segmental scope method pathname := by
  constructor
  · rintro ⟨hlisted, -, -⟩ hpermits route hroute rest hrest
    obtain ⟨-, route', hroute', rest', hrest', hends⟩ := hlisted
      (evaluateRouteMatrix_iff.mpr ⟨hpermits, route, hroute, ⟨rest, hrest.symm⟩⟩)
    -- the route that is listed for the path is this one
    obtain rfl := eq_of_prefix (routes_apart scope) hroute hroute' ⟨rest, hrest.symm⟩ ⟨rest', hrest'.symm⟩
    obtain rfl := List.append_cancel_left (hrest.symm.trans hrest')
    exact hends
  · intro hsegmental
    have hlisted : evaluateRouteMatrix scope method pathname = true → Lists scope method pathname := by
      intro hgranted
      obtain ⟨hpermits, route, hroute, rest, hrest⟩ := evaluateRouteMatrix_iff.mp hgranted
      exact ⟨hpermits, route, hroute, rest, hrest.symm, hsegmental hpermits route hroute rest hrest.symm⟩
    refine ⟨hlisted, fun store token henforced ↦ ?_, fun _ ↦ control_lifecycleAdmin_apart method pathname⟩
    obtain ⟨-, -, -, hgranted⟩ := enforceScopeForRequest_ok henforced
    exact hlisted hgranted

/-- A path whose first segment only begins with that of a listed route is granted to `control`. -/
theorem not_matrixLaw_longerSegment :
    ¬ ∀ (scope : GrantScope) (method pathname : String), MatrixLaw scope method pathname := by
  intro h
  obtain ⟨-, route, hroute, rest, hrest, hends⟩ := (h .control "POST" "/sessions-export").listed (by decide +kernel)
  have hlist : ∀ route ∈ controlPrefixes, route.toList.isPrefixOf "/sessions-export".toList = true →
      route = "/session" := by
    decide +kernel
  obtain rfl := hlist route hroute (List.isPrefixOf_iff_prefix.mpr ⟨rest, hrest.symm⟩)
  have hrest' : rest = "s-export".toList :=
    (List.append_cancel_left (show "/session".toList ++ "s-export".toList = _ ++ rest from hrest)).symm
  subst hrest'
  rcases hends with h | h | h <;> exact absurd h (by decide)

end Amicode.Control
