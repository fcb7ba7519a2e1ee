import EchoJoyGateway.HTTPRoute.Registry

/-!
# Who answers inside a namespace

In a registry that was accepted, a route that matches a path belongs to the
module that owns the longest namespace around the path.
-/

namespace EchoJoyGateway.HTTPRoute

section Paths

variable {path namespacePrefix : Path}

theorem segments_absolute (h : path.head? = some slash) :
    segments path = path.tail.splitOn slash := by
  obtain ⟨rest, rfl⟩ := List.head?_eq_some_iff.mp h
  rfl

theorem namespaceMatches_iff (hstart : namespacePrefix.head? = some slash)
    (hroot : namespacePrefix ≠ root) (hpath : path.head? = some slash) :
    namespaceMatches namespacePrefix path = true ↔ segments namespacePrefix <+: segments path := by
  rw [segments_absolute hstart, segments_absolute hpath, Segments.splitOn_prefix_iff]
  obtain ⟨y, rfl⟩ := List.head?_eq_some_iff.mp hstart
  obtain ⟨x, rfl⟩ := List.head?_eq_some_iff.mp hpath
  unfold namespaceMatches
  rw [if_neg hroot]
  simp [root]

def Literal (segment : Path) : Prop :=
  segment ≠ [] ∧ segment.head? ≠ some colon ∧ segment.head? ≠ some star

structure Static (namespacePrefix : Path) : Prop where
  absolute : namespacePrefix.head? = some slash
  literal : namespacePrefix ≠ root → ∀ segment ∈ segments namespacePrefix, Literal segment

theorem static_of_validated (h : validateStaticPrefix namespacePrefix true = .ok ()) :
    Static namespacePrefix := by
  unfold validateStaticPrefix at h
  split at h
  · cases h
  · rename_i habsolute
    have hhead : namespacePrefix.head? = some slash := by
      by_contra hne
      exact habsolute (.inr hne)
    refine ⟨hhead, ?_⟩
    intro hroot segment hsegment
    rw [if_neg hroot] at h
    split at h
    · cases h
    · split at h
      · cases h
      · rename_i hplain
        split at h
        · cases h
        · rename_i hcanonical
          have hbyte : ∀ b ∈ ascii "?#\\:*", segment.head? ≠ some b := by
            intro b hb hfirst
            have hmem : b ∈ namespacePrefix.tail := by
              rw [segments_absolute hhead] at hsegment
              exact Segments.mem_of_mem_splitOn hsegment (List.mem_of_head? hfirst)
            apply hplain
            exact List.any_eq_true.mpr ⟨b, List.mem_of_mem_tail hmem, List.contains_iff_mem.mpr hb⟩
          have hall := eq_true_of_ne_false hcanonical
          rw [List.all_eq_true] at hall
          have hne : segment ≠ [] := by
            have hcanon := hall segment hsegment
            unfold canonicalSegment at hcanon
            simp only [Bool.and_eq_true, bne_iff_ne] at hcanon
            exact hcanon.1.1
          exact ⟨hne, hbyte colon (by decide), hbyte star (by decide)⟩

end Paths

section Patterns

theorem segmentsIntersect_of_match {pattern path own : List Path}
    (hmatch : matchSegments pattern path = some true) (hown : own <+: path) :
    segmentsIntersect pattern own = true := by
  induction pattern generalizing path own with
  | nil =>
    have hpath : path = [] := by
      simpa [matchSegments] using hmatch
    rw [hpath] at hown
    rw [List.prefix_nil.mp hown]
    rfl
  | cons segment pattern ih =>
    cases segment with
    | nil => simp [matchSegments] at hmatch
    | cons first name =>
      unfold segmentsIntersect
      by_cases hstar : first = star
      · rw [if_pos (by simp [hstar])]
      · rw [if_neg (by simpa using hstar)]
        cases own with
        | nil => rfl
        | cons head own =>
          obtain ⟨rest, rfl⟩ := hown
          have htail : own <+: own ++ rest := List.prefix_append own rest
          simp only [List.cons_append, matchSegments, if_neg hstar] at hmatch
          by_cases hcolon : first = colon
          · rw [if_pos hcolon] at hmatch
            simp only [hcolon]
            split at hmatch
            · cases hmatch
            · exact ih hmatch htail
          · rw [if_neg hcolon] at hmatch
            split at hmatch
            · cases hmatch
            · rename_i hsame
              simp only [List.head?_cons, Option.some.injEq, hcolon, hsame]
              exact ih hmatch htail

theorem prefix_of_match {own pattern path : List Path} (hliteral : ∀ s ∈ own, Literal s)
    (hown : own <+: pattern) (hmatch : matchSegments pattern path = some true) : own <+: path := by
  induction own generalizing pattern path with
  | nil => exact List.nil_prefix
  | cons segment own ih =>
    obtain ⟨rest, rfl⟩ := hown
    obtain ⟨hne, hcolon, hstar⟩ := hliteral segment (.head _)
    obtain ⟨first, name, rfl⟩ := List.exists_cons_of_ne_nil hne
    have hcolon' : first ≠ colon := by
      simpa using hcolon
    have hstar' : first ≠ star := by
      simpa using hstar
    cases path with
    | nil => simp [matchSegments] at hmatch
    | cons head path =>
      simp only [List.cons_append, matchSegments, if_neg hstar', if_neg hcolon'] at hmatch
      split at hmatch
      · cases hmatch
      · rename_i hsame
        rw [not_not.mp hsame]
        refine List.cons_prefix_cons.mpr ⟨rfl, ?_⟩
        exact ih (fun s hs => hliteral s (.tail _ hs)) (List.prefix_append own rest) hmatch

variable {pattern path namespacePrefix : Path}

theorem matchPattern_cases (h : matchPattern pattern path = some true) :
    (pattern = root ∧ path = root) ∨
      (pattern ≠ root ∧ path ≠ root ∧ path.head? = some slash ∧
        matchSegments (segments pattern) (segments path) = some true) := by
  unfold matchPattern at h
  split at h
  · rename_i hpattern
    refine .inl ⟨hpattern, ?_⟩
    simpa using h
  · rename_i hpattern
    split at h
    · cases h
    · rename_i hpath
      rw [not_or, not_not] at hpath
      exact .inr ⟨hpattern, hpath.1, hpath.2, h⟩

theorem matchPattern_absolute (h : matchPattern pattern path = some true) :
    path.head? = some slash := by
  rcases matchPattern_cases h with ⟨-, rfl⟩ | ⟨-, -, habsolute, -⟩
  · rfl
  · exact habsolute

theorem not_prefix_root (hstatic : Static namespacePrefix) (hroot : namespacePrefix ≠ root) :
    ¬ segments namespacePrefix <+: segments root := by
  intro hstart
  have hne : segments namespacePrefix ≠ [] := by
    rw [segments_absolute hstatic.absolute]
    exact Segments.splitOn_ne_nil _ _
  obtain ⟨first, rest, hsegments⟩ := List.exists_cons_of_ne_nil hne
  have hfirst := hstatic.literal hroot first (by rw [hsegments]; exact .head _)
  rw [hsegments] at hstart
  exact hfirst.1 (List.cons_prefix_cons.mp hstart).1

theorem intersects_of_match (hstatic : Static namespacePrefix)
    (hmatch : matchPattern pattern path = some true)
    (hin : namespaceMatches namespacePrefix path = true) :
    patternIntersectsNamespace pattern namespacePrefix = true := by
  unfold patternIntersectsNamespace
  by_cases hroot : namespacePrefix = root
  · rw [if_pos hroot]
  · rw [if_neg hroot]
    have hpath := matchPattern_absolute hmatch
    have hstart := (namespaceMatches_iff hstatic.absolute hroot hpath).mp hin
    rcases matchPattern_cases hmatch with ⟨-, rfl⟩ | ⟨-, -, -, hsegments⟩
    · exact absurd hstart (not_prefix_root hstatic hroot)
    · exact segmentsIntersect_of_match hsegments hstart

theorem matches_of_contains (hstatic : Static namespacePrefix) (hroot : namespacePrefix ≠ root)
    (hcontains : namespaceContainsPattern namespacePrefix pattern = true)
    (hmatch : matchPattern pattern path = some true) :
    namespaceMatches namespacePrefix path = true := by
  unfold namespaceContainsPattern at hcontains
  rw [if_neg hroot, List.isPrefixOf_iff_prefix] at hcontains
  refine (namespaceMatches_iff hstatic.absolute hroot (matchPattern_absolute hmatch)).mpr ?_
  rcases matchPattern_cases hmatch with ⟨rfl, -⟩ | ⟨-, -, -, hsegments⟩
  · exact absurd hcontains (not_prefix_root hstatic hroot)
  · exact prefix_of_match (hstatic.literal hroot) hcontains hsegments

end Patterns

section Building

open Traverse

variable {Handler : Type} {draft result : Draft Handler} {module : Module Handler} {index : Nat}

theorem within_ok {α : Type} {place : String} {x : Except String α} {a : α} :
    within place x = .ok a ↔ x = .ok a := by
  cases x with
  | error message =>
    constructor
    · intro h
      cases h
    · intro h
      cases h
  | ok b => exact Iff.rfl

def bindings (item : Module Handler × Nat) : List NamespaceBinding :=
  item.1.namespacePrefixes.map fun namespacePrefix => ⟨item.2, namespacePrefix⟩

def compiledRoutes (item : Module Handler × Nat) : List CompiledRoute :=
  item.1.routes.zipIdx.map fun route => ⟨item.2, route.2, item.1.pathPrefix ++ route.1.path⟩

theorem addNamespace_ok {namespacePrefix : Path}
    (h : Draft.addNamespace module index draft namespacePrefix = .ok result) :
    Static namespacePrefix ∧ result.routes = draft.routes ∧
      result.namespaces = draft.namespaces ++ [⟨index, namespacePrefix⟩] := by
  unfold Draft.addNamespace at h
  rw [bind_ok] at h
  obtain ⟨_, hvalid, h⟩ := h
  rw [within_ok] at hvalid
  split at h
  · cases h
  · obtain rfl := Except.ok.inj h
    exact ⟨static_of_validated hvalid, rfl, rfl⟩

theorem addNamespaces_ok {prefixes : List Path}
    (h : prefixes.foldlM (Draft.addNamespace module index) draft = .ok result) :
    (∀ namespacePrefix ∈ prefixes, Static namespacePrefix) ∧ result.routes = draft.routes ∧
      result.namespaces = draft.namespaces ++ prefixes.map fun p => ⟨index, p⟩ := by
  refine foldlM_ok (fun done (d : Draft Handler) =>
    (∀ namespacePrefix ∈ done, Static namespacePrefix) ∧ d.routes = draft.routes ∧
      d.namespaces = draft.namespaces ++ done.map fun p => ⟨index, p⟩) ?_ ?_ h
  · rintro done p d d' ⟨hstatic, hroutes, hnamespaces⟩ hstep
    obtain ⟨hp, hroutes', hnamespaces'⟩ := addNamespace_ok hstep
    refine ⟨?_, hroutes'.trans hroutes, ?_⟩
    · intro q hq
      rcases List.mem_append.mp hq with hq | hq
      · exact hstatic q hq
      · rw [List.mem_singleton.mp hq]
        exact hp
    · rw [hnamespaces', hnamespaces, List.map_append, List.append_assoc]
      rfl
  · exact ⟨by simp, rfl, by simp⟩

theorem addFallback_ok (h : Draft.addFallback module draft = .ok result) :
    result.routes = draft.routes ∧ result.namespaces = draft.namespaces := by
  unfold Draft.addFallback at h
  split at h
  · obtain rfl := Except.ok.inj h
    exact ⟨rfl, rfl⟩
  · rw [bind_ok] at h
    obtain ⟨_, -, h⟩ := h
    rw [bind_ok] at h
    obtain ⟨_, -, h⟩ := h
    obtain rfl := Except.ok.inj h
    exact ⟨rfl, rfl⟩

theorem addMethods_ok {name : String} {path : Path} {methods : List String}
    (h : methods.foldlM (Draft.addMethod name path) draft = .ok result) :
    result.namespaces = draft.namespaces := by
  refine foldlM_ok (fun _ (d : Draft Handler) => d.namespaces = draft.namespaces) ?_ rfl h
  intro done method d d' hd hstep
  unfold Draft.addMethod at hstep
  split at hstep
  · cases hstep
  · obtain rfl := Except.ok.inj hstep
    exact hd

theorem addRoute_ok {item : Route Handler × Nat}
    (h : Draft.addRoute module index draft item = .ok result) :
    result.namespaces = draft.namespaces ∧
      result.routes = draft.routes ++ [⟨index, item.2, module.pathPrefix ++ item.1.path⟩] := by
  unfold Draft.addRoute at h
  simp only [bind_ok] at h
  obtain ⟨_, -, _, -, _, -, _, -, added, hadded, h⟩ := h
  obtain rfl := Except.ok.inj h
  have hnamespaces := addMethods_ok hadded
  exact ⟨hnamespaces, rfl⟩

theorem addRoutes_ok {items : List (Route Handler × Nat)}
    (h : items.foldlM (Draft.addRoute module index) draft = .ok result) :
    result.namespaces = draft.namespaces ∧
      result.routes = draft.routes ++
        items.map fun item => ⟨index, item.2, module.pathPrefix ++ item.1.path⟩ := by
  refine foldlM_ok (fun done (d : Draft Handler) => d.namespaces = draft.namespaces ∧
    d.routes = draft.routes ++
      done.map fun item => ⟨index, item.2, module.pathPrefix ++ item.1.path⟩) ?_ ?_ h
  · rintro done item d d' ⟨hnamespaces, hroutes⟩ hstep
    obtain ⟨hnamespaces', hroutes'⟩ := addRoute_ok hstep
    refine ⟨hnamespaces'.trans hnamespaces, ?_⟩
    rw [hroutes', hroutes, List.map_append, List.append_assoc]
    rfl
  · exact ⟨rfl, by simp⟩

theorem addModule_ok {item : Module Handler × Nat} (h : Draft.addModule draft item = .ok result) :
    (∀ binding ∈ bindings item, Static binding.namespacePrefix) ∧
      result.namespaces = draft.namespaces ++ bindings item ∧
      result.routes = draft.routes ++ compiledRoutes item := by
  unfold Draft.addModule at h
  simp only [bind_ok] at h
  obtain ⟨_, -, _, -, _, -, _, -, _, -, d, hd, d', hd', hroutes⟩ := h
  obtain ⟨hstatic, hr, hn⟩ := addNamespaces_ok hd
  obtain ⟨hr', hn'⟩ := addFallback_ok hd'
  obtain ⟨hn'', hr''⟩ := addRoutes_ok hroutes
  refine ⟨?_, ?_, ?_⟩
  · intro binding hbinding
    obtain ⟨p, hp, rfl⟩ := List.mem_map.mp hbinding
    exact hstatic p hp
  · rw [hn'', hn', hn]
    rfl
  · rw [hr'', hr', hr]
    rfl

structure Builds (modules : List (Module Handler)) (registry : Registry Handler) : Prop where
  static : ∀ binding ∈ registry.namespaces, Static binding.namespacePrefix
  namespaces : registry.namespaces.Perm (modules.zipIdx.flatMap bindings)
  routes : registry.routes = modules.zipIdx.flatMap compiledRoutes
  owned : validateNamespaceOwnership modules registry.routes registry.namespaces = .ok ()

theorem newRegistry_builds {validateGinPatterns : List RoutePattern → Except String Unit}
    {modules : List (Module Handler)} {registry : Registry Handler}
    (h : newRegistry validateGinPatterns modules = .ok registry) : Builds modules registry := by
  unfold newRegistry at h
  simp only [bind_ok] at h
  obtain ⟨draft, hdraft, _, howned, _, -, h⟩ := h
  obtain rfl := Except.ok.inj h
  have hbuilt : (∀ binding ∈ modules.zipIdx.flatMap bindings, Static binding.namespacePrefix) ∧
      draft.namespaces = modules.zipIdx.flatMap bindings ∧
      draft.routes = modules.zipIdx.flatMap compiledRoutes := by
    refine foldlM_ok (fun done (d : Draft Handler) =>
      (∀ binding ∈ done.flatMap bindings, Static binding.namespacePrefix) ∧
      d.namespaces = done.flatMap bindings ∧ d.routes = done.flatMap compiledRoutes) ?_ ?_ hdraft
    · rintro done item d d' ⟨hstatic, hnamespaces, hroutes⟩ hstep
      obtain ⟨hstatic', hnamespaces', hroutes'⟩ := addModule_ok hstep
      rw [List.flatMap_append, List.flatMap_append, List.flatMap_singleton, List.flatMap_singleton]
      refine ⟨?_, hnamespaces ▸ hnamespaces', hroutes ▸ hroutes'⟩
      intro binding hbinding
      rcases List.mem_append.mp hbinding with hbinding | hbinding
      · exact hstatic binding hbinding
      · exact hstatic' binding hbinding
    · exact ⟨by simp, rfl, rfl⟩
  obtain ⟨hstatic, hnamespaces, hroutes⟩ := hbuilt
  have hperm : (draft.namespaces.insertionSort longerFirst).Perm
      (modules.zipIdx.flatMap bindings) := by
    rw [← hnamespaces]
    exact List.perm_insertionSort _ _
  exact ⟨fun binding hbinding => hstatic binding (hperm.mem_iff.mp hbinding), hperm, hroutes,
    howned⟩

end Building

section Owned

variable {Handler : Type} {modules : List (Module Handler)} {registry : Registry Handler}

theorem Builds.mem_namespaces (h : Builds modules registry) {binding : NamespaceBinding} :
    binding ∈ registry.namespaces ↔ ∃ module, modules[binding.moduleIndex]? = some module ∧
      binding.namespacePrefix ∈ module.namespacePrefixes := by
  rw [h.namespaces.mem_iff, List.mem_flatMap]
  constructor
  · rintro ⟨⟨module, index⟩, hitem, hbinding⟩
    obtain ⟨p, hp, rfl⟩ := List.mem_map.mp hbinding
    exact ⟨module, List.mem_zipIdx_iff_getElem?.mp hitem, hp⟩
  · rintro ⟨module, hmodule, hp⟩
    exact ⟨(module, binding.moduleIndex), List.mem_zipIdx_iff_getElem?.mpr hmodule,
      List.mem_map.mpr ⟨_, hp, rfl⟩⟩

theorem Builds.mem_routes (h : Builds modules registry) {index : Nat} {module : Module Handler}
    (hmodule : modules[index]? = some module) {route : Route Handler}
    (hroute : route ∈ module.routes) :
    ∃ routeIndex, ⟨index, routeIndex, module.pathPrefix ++ route.path⟩ ∈ registry.routes := by
  obtain ⟨routeIndex, hindex⟩ := List.mem_iff_getElem?.mp hroute
  refine ⟨routeIndex, ?_⟩
  rw [h.routes, List.mem_flatMap]
  exact ⟨(module, index), List.mem_zipIdx_iff_getElem?.mpr hmodule,
    List.mem_map.mpr ⟨(route, routeIndex), List.mem_zipIdx_iff_getElem?.mpr hindex, rfl⟩⟩

theorem Builds.not_trespasses (h : Builds modules registry) {route : CompiledRoute}
    (hroute : route ∈ registry.routes) {binding : NamespaceBinding}
    (hbinding : binding ∈ registry.namespaces) :
    trespasses registry.namespaces route binding = false := by
  have howned := h.owned
  unfold validateNamespaceOwnership at howned
  split at howned
  · rename_i hnone
    rw [List.findSome?_eq_none_iff] at hnone
    have hroute' := hnone route hroute
    rw [Option.map_eq_none_iff, List.find?_eq_none] at hroute'
    exact eq_false_of_ne_true (hroute' binding hbinding)
  · cases howned

end Owned

def plainRoute (name : String) (path : Path) : Route Unit := ⟨name, ["GET"], path, [], [some ()]⟩

/-- The control plane owns `/api`, the data plane `/api/v1` inside of it. -/
def nestedModules : List (Module Unit) :=
  [⟨"control", .control, .control, ascii "/api", [ascii "/api"], [], some (),
      [plainRoute "settings" (ascii "/settings/:key")], none⟩,
    ⟨"data", .data, .accessKey, [], [ascii "/api/v1"], [], some (),
      [plainRoute "models" (ascii "/api/v1/models/*name")], none⟩]

/-- HTTP namespaces are owned: where an accepted route matches a path inside
declared namespaces, the longest of them is declared by the module of the route,
and so with its authentication policy. -/
theorem longest_namespace_owned {Handler : Type}
    {validateGinPatterns : List RoutePattern → Except String Unit}
    {modules : List (Module Handler)} {registry : Registry Handler}
    (haccepted : newRegistry validateGinPatterns modules = .ok registry)
    {index : Nat} {module : Module Handler} (hmodule : modules[index]? = some module)
    {route : Route Handler} (hroute : route ∈ module.routes) {path : Path}
    (hmatch : matchPattern (module.pathPrefix ++ route.path) path = some true)
    {ownerIndex : Nat} {owner : Module Handler} (howner : modules[ownerIndex]? = some owner)
    {namespacePrefix : Path} (hdeclared : namespacePrefix ∈ owner.namespacePrefixes)
    (hin : namespaceMatches namespacePrefix path = true)
    (hlongest : ∀ (i : Nat) (m : Module Handler), modules[i]? = some m →
      ∀ p ∈ m.namespacePrefixes, namespaceMatches p path = true →
        p.length ≤ namespacePrefix.length) :
    ownerIndex = index ∧ owner.auth = module.auth := by
  have hbuilds := newRegistry_builds haccepted
  have hbinding : (⟨ownerIndex, namespacePrefix⟩ : NamespaceBinding) ∈ registry.namespaces :=
    hbuilds.mem_namespaces.mpr ⟨owner, howner, hdeclared⟩
  obtain ⟨routeIndex, hcompiled⟩ := hbuilds.mem_routes hmodule hroute
  have hintersects := intersects_of_match (hbuilds.static _ hbinding) hmatch hin
  have hnot := hbuilds.not_trespasses hcompiled hbinding
  have hindex : ownerIndex = index := by
    by_contra hne
    have hinside : routeIsInsideLongerOwnedNamespace
        ⟨index, routeIndex, module.pathPrefix ++ route.path⟩ ⟨ownerIndex, namespacePrefix⟩
        registry.namespaces = true := by
      simpa [trespasses, hne, hintersects] using hnot
    obtain ⟨candidate, hcandidate, hconditions⟩ := List.any_eq_true.mp hinside
    simp only [Bool.and_eq_true, decide_eq_true_eq] at hconditions
    obtain ⟨⟨⟨-, hlonger⟩, -⟩, hcontains⟩ := hconditions
    have hstatic := hbuilds.static candidate hcandidate
    obtain ⟨m, hm, hp⟩ := hbuilds.mem_namespaces.mp hcandidate
    have hroot : candidate.namespacePrefix ≠ root := by
      intro hroot
      have habsolute := (hbuilds.static _ hbinding).absolute
      have hpositive : 0 < namespacePrefix.length :=
        List.length_pos_of_mem (List.mem_of_head? habsolute)
      rw [hroot] at hlonger
      have hone : namespacePrefix.length < 1 := hlonger
      omega
    have hmatches := matches_of_contains hstatic hroot hcontains hmatch
    have hshorter := hlongest _ m hm _ hp hmatches
    omega
  subst hindex
  rw [howner] at hmodule
  cases hmodule
  exact ⟨rfl, rfl⟩

theorem nestedModules_owned :
    (newRegistry (fun _ => .ok ()) nestedModules).isOk = true ∧
    ∀ (k : Nat) (owner : Module Unit), nestedModules[k]? = some owner →
      ascii "/api/v1" ∈ owner.namespacePrefixes → k = 1 ∧ owner.auth = .accessKey := by
  have hok : (newRegistry (fun _ => .ok ()) nestedModules).isOk = true := by
    decide +kernel
  refine ⟨hok, ?_⟩
  intro k owner howner hdeclared
  have hmatch : matchPattern ([] ++ ascii "/api/v1/models/*name") (ascii "/api/v1/models/a") =
      some true := by
    decide
  have hshort : ∀ m ∈ nestedModules, ∀ p ∈ m.namespacePrefixes,
      p.length ≤ (ascii "/api/v1").length := by
    decide
  have hroute : plainRoute "models" (ascii "/api/v1/models/*name") ∈
      [plainRoute "models" (ascii "/api/v1/models/*name")] := List.mem_singleton_self _
  cases haccepted : newRegistry (fun _ => .ok ()) nestedModules with
  | error message =>
    rw [haccepted] at hok
    cases hok
  | ok registry =>
    exact longest_namespace_owned haccepted (rfl : nestedModules[1]? = some _) hroute hmatch howner
      hdeclared (by decide) fun i m hm p hp _ => hshort m (List.mem_of_getElem? hm) p hp

end EchoJoyGateway.HTTPRoute
