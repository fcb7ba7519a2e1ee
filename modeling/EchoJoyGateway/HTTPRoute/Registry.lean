import EchoJoyGateway.HTTPRoute.Pattern
import EchoJoyGateway.Lib.Traverse
import EchoJoyGateway.State.Registry
import Mathlib.Data.List.Sort

/-!
# The route registry

`NewRegistry` of `internal/platform/httproute/registry.go`: the modules are
checked one by one, then the ownership of all namespaces, and last the patterns
against Gin, whose answer is a parameter. A handler or a matcher may be missing;
nothing else of it is read.
-/

namespace EchoJoyGateway.HTTPRoute

open State (trimSpace)

inductive Owner where
  | system
  | control
  | data
  | web
  | other (name : String)
  deriving DecidableEq

inductive AuthPolicy where
  | none
  | control
  | accessKey
  | other (name : String)
  deriving DecidableEq

def Owner.text : Owner → String
  | .system => "system"
  | .control => "control"
  | .data => "data"
  | .web => "web"
  | .other name => name

def AuthPolicy.text : AuthPolicy → String
  | .none => "none"
  | .control => "control"
  | .accessKey => "access-key"
  | .other name => name

structure Route (Handler : Type) where
  name : String
  methods : List String
  path : Path
  prepare : List (Option Handler)
  handlers : List (Option Handler)

structure Fallback (Handler : Type) where
  name : String
  matcher : Option Handler
  handler : Option Handler

structure Module (Handler : Type) where
  name : String
  owner : Owner
  auth : AuthPolicy
  pathPrefix : Path
  namespacePrefixes : List Path
  beforeAuth : List (Option Handler)
  authenticate : Option Handler
  routes : List (Route Handler)
  fallback : Option (Fallback Handler)

structure RouteInfo where
  moduleName : String
  routeName : String
  owner : Owner
  auth : AuthPolicy
  methods : List String
  path : Path

structure CompiledRoute where
  moduleIndex : Nat
  routeIndex : Nat
  path : Path
  deriving DecidableEq

structure NamespaceBinding where
  moduleIndex : Nat
  namespacePrefix : Path
  deriving DecidableEq

structure RoutePattern where
  method : String
  path : Path

structure Registry (Handler : Type) where
  modules : List (Module Handler)
  routes : List CompiledRoute
  routeInfos : List RouteInfo
  namespaces : List NamespaceBinding
  fallback : Option (Fallback Handler)

section Checks

variable {Handler : Type}

def validateName (kind name : String) : Except String Unit :=
  if name = "" ∨ trimSpace name ≠ name then
    .error s!"{kind} name must be non-empty without surrounding whitespace"
  else .ok ()

def requiredAuth : Owner → Option AuthPolicy
  | .system | .web => some .none
  | .control => some .control
  | .data => some .accessKey
  | .other _ => Option.none

def validateOwnerAuth (module : Module Handler) : Except String Unit :=
  match requiredAuth module.owner with
  | Option.none => .error s!"invalid owner {module.owner.text.quote}"
  | some required =>
    if module.auth ≠ required then
      .error (s!"owner {module.owner.text.quote} requires auth policy {required.text.quote}, " ++
        s!"got {module.auth.text.quote}")
    else if module.auth = .none ∧ module.authenticate.isSome then
      .error s!"auth policy {module.auth.text.quote} forbids an authenticator"
    else if module.auth ≠ .none ∧ module.authenticate.isNone then
      .error s!"auth policy {module.auth.text.quote} requires an authenticator"
    else .ok ()

def validateHandlers (kind : String) (handlers : List (Option Handler)) ( optional : Bool) :
    Except String Unit :=
  if optional = false ∧ handlers = [] then .error s!"{kind} handler chain is empty"
  else
    match handlers.findIdx? Option.isNone with
    | some index => .error s!"{kind} handler {index} is nil"
    | Option.none => .ok ()

def validateFallback (fallback : Fallback Handler) : Except String Unit := do
  validateName "fallback" fallback.name
  if fallback.matcher.isNone then .error s!"fallback {fallback.name.quote} requires a matcher"
  else if fallback.handler.isNone then
    .error s!"fallback {fallback.name.quote} requires a handler"
  else .ok ()

def methodCharacter (c : Char) : Bool := c.isAlphanum || "!#$%&'*+-.^_`|~".toList.contains c

def validMethod (method : String) : Bool := method != "" && method.toList.all methodCharacter

def validateMethods (seen : List String) : List String → Except String Unit
  | [] => .ok ()
  | method :: rest =>
    if validMethod method = false then .error s!"invalid HTTP method {method.quote}"
    else if method ≠ method.toUpper then
      .error s!"HTTP method {method.quote} must be uppercase"
    else if method ∈ seen then .error s!"duplicate HTTP method {method.quote}"
    else validateMethods (method :: seen) rest

def validateRoute (route : Route Handler) : Except String Unit := do
  if route.methods = [] then .error "at least one method is required"
  else
    validateMethods [] route.methods
    validateRoutePattern route.path
    validateHandlers "prepare" route.prepare true
    validateHandlers "route" route.handlers false

end Checks

/-- Names the place of an error. -/
def within {α : Type} (place : String) : Except String α → Except String α
  | .error message => .error s!"{place}: {message}"
  | .ok a => .ok a

def refuseIf (condition : Bool) (message : String) : Except String Unit :=
  if condition then .error message else .ok ()

/-- The registry under construction and the tables of `NewRegistry`. A method
holds no zero byte, so a key of `methodPaths` is the pair it is joined of. -/
structure Draft (Handler : Type) where
  routes : List CompiledRoute
  routeInfos : List RouteInfo
  namespaces : List NamespaceBinding
  fallback : Option (Fallback Handler)
  moduleNames : List String
  routeNames : List String
  methodPaths : List ((String × Path) × String)
  namespaceOwners : List (Path × String)
  patterns : List RoutePattern

namespace Draft

variable {Handler : Type}

def empty : Draft Handler := ⟨[], [], [], Option.none, [], [], [], [], []⟩

def addNamespace (module : Module Handler) (moduleIndex : Nat) (draft : Draft Handler)
    (namespacePrefix : Path) : Except String (Draft Handler) := do
  within s!"module {module.name.quote} namespace prefix {quoted namespacePrefix}"
    (validateStaticPrefix namespacePrefix true)
  match draft.namespaceOwners.lookup namespacePrefix with
  | some owner =>
    .error (s!"duplicate namespace prefix {quoted namespacePrefix} in modules {owner.quote} and " ++
      s!"{module.name.quote}")
  | Option.none =>
    .ok { draft with
      namespaceOwners := (namespacePrefix, module.name) :: draft.namespaceOwners
      namespaces := draft.namespaces ++ [⟨moduleIndex, namespacePrefix⟩] }

def addFallback (module : Module Handler) (draft : Draft Handler) :
    Except String (Draft Handler) :=
  match module.fallback with
  | Option.none => .ok draft
  | some fallback => do
    within s!"module {module.name.quote}" (validateFallback fallback)
    refuseIf draft.fallback.isSome "multiple global fallbacks are not allowed"
    .ok { draft with fallback := some fallback }

def addMethod (routeName : String) (fullPath : Path) (draft : Draft Handler) (method : String) :
    Except String (Draft Handler) :=
  match draft.methodPaths.lookup (method, fullPath) with
  | some existing =>
    .error (s!"duplicate route pattern {method} {pathText fullPath} in routes " ++
      s!"{existing.quote} and {routeName.quote}")
  | Option.none =>
    .ok { draft with
      methodPaths := ((method, fullPath), routeName) :: draft.methodPaths
      patterns := draft.patterns ++ [⟨method, fullPath⟩] }

def addRoute (module : Module Handler) (moduleIndex : Nat) (draft : Draft Handler)
    (item : Route Handler × Nat) : Except String (Draft Handler) := do
  let route := item.1
  within s!"module {module.name.quote}" (validateName "route" route.name)
  refuseIf (draft.routeNames.contains route.name) s!"duplicate route name {route.name.quote}"
  within s!"module {module.name.quote} route {route.name.quote}" (validateRoute route)
  let fullPath := module.pathPrefix ++ route.path
  within s!"module {module.name.quote} route {route.name.quote} full path {quoted fullPath}"
    (validateRoutePattern fullPath)
  let added ← route.methods.foldlM (addMethod route.name fullPath)
    { draft with routeNames := route.name :: draft.routeNames }
  .ok { added with
    routes := draft.routes ++ [⟨moduleIndex, item.2, fullPath⟩]
    routeInfos := draft.routeInfos ++
      [⟨module.name, route.name, module.owner, module.auth, route.methods, fullPath⟩] }

def addModule (draft : Draft Handler) (item : Module Handler × Nat) :
    Except String (Draft Handler) := do
  let module := item.1
  validateName "module" module.name
  refuseIf (draft.moduleNames.contains module.name) s!"duplicate module name {module.name.quote}"
  within s!"module {module.name.quote}" (validateOwnerAuth module)
  within s!"module {module.name.quote} prefix" (validatePrefix module.pathPrefix)
  within s!"module {module.name.quote}" (validateHandlers "before-auth" module.beforeAuth true)
  let draft ← module.namespacePrefixes.foldlM (addNamespace module item.2)
    { draft with moduleNames := module.name :: draft.moduleNames }
  let draft ← addFallback module draft
  module.routes.zipIdx.foldlM (addRoute module item.2) draft

end Draft

def routeIsInsideLongerOwnedNamespace (route : CompiledRoute) (foreign : NamespaceBinding)
    (namespaces : List NamespaceBinding) : Bool :=
  namespaces.any fun candidate =>
    candidate.moduleIndex == route.moduleIndex &&
    decide (foreign.namespacePrefix.length < candidate.namespacePrefix.length) &&
    namespaceMatches foreign.namespacePrefix candidate.namespacePrefix &&
    namespaceContainsPattern candidate.namespacePrefix route.path

/-- The route reaches into a namespace of another module. -/
def trespasses (namespaces : List NamespaceBinding) (route : CompiledRoute)
    (binding : NamespaceBinding) : Bool :=
  !(binding.moduleIndex == route.moduleIndex ||
    !patternIntersectsNamespace route.path binding.namespacePrefix) &&
  !routeIsInsideLongerOwnedNamespace route binding namespaces

section

variable {Handler : Type}

def moduleName (modules : List (Module Handler)) (index : Nat) : String :=
  match modules[index]? with
  | Option.none => ""
  | some module => module.name

def routeName (modules : List (Module Handler)) (route : CompiledRoute) : String :=
  match modules[route.moduleIndex]? with
  | Option.none => ""
  | some module =>
    match module.routes[route.routeIndex]? with
    | Option.none => ""
    | some declaration => declaration.name

def validateNamespaceOwnership (modules : List (Module Handler)) (routes : List CompiledRoute)
    (namespaces : List NamespaceBinding) : Except String Unit :=
  match routes.findSome? fun route =>
      (namespaces.find? (trespasses namespaces route)).map fun binding => (route, binding) with
  | Option.none => .ok ()
  | some (route, binding) =>
    .error (s!"module {(moduleName modules route.moduleIndex).quote} " ++
      s!"route {(routeName modules route).quote} pattern {quoted route.path} intersects " ++
      s!"namespace {quoted binding.namespacePrefix} " ++
      s!"owned by module {(moduleName modules binding.moduleIndex).quote}")

def longerFirst (left right : NamespaceBinding) : Prop :=
  right.namespacePrefix.length ≤ left.namespacePrefix.length

instance : DecidableRel longerFirst := fun left right =>
  inferInstanceAs (Decidable (right.namespacePrefix.length ≤ left.namespacePrefix.length))

def newRegistry (validateGinPatterns : List RoutePattern → Except String Unit)
    (modules : List (Module Handler)) : Except String (Registry Handler) := do
  let draft ← modules.zipIdx.foldlM Draft.addModule Draft.empty
  let namespaces := draft.namespaces.insertionSort longerFirst
  validateNamespaceOwnership modules draft.routes namespaces
  validateGinPatterns draft.patterns
  .ok ⟨modules, draft.routes, draft.routeInfos, namespaces, draft.fallback⟩

end

end EchoJoyGateway.HTTPRoute
