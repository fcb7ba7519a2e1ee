import EchoJoyGateway.Lib.Segments

/-!
# Paths, route patterns and namespaces

The path functions of `internal/platform/httproute/registry.go`. A path is a
string of bytes. A segment of a pattern that starts with `:` stands for any one
segment, one that starts with `*` for all that follow.
-/

namespace EchoJoyGateway.HTTPRoute

abbrev Path := List UInt8

def slash : UInt8 := 47

def colon : UInt8 := 58

def star : UInt8 := 42

/-- The path of an ASCII text. -/
def ascii (text : String) : Path := text.toList.map fun c => UInt8.ofNat c.toNat

/-- A path as `%q` prints it, where it is ASCII. -/
def pathText (path : Path) : String := String.ofList (path.map fun b => Char.ofNat b.toNat)

def quoted (path : Path) : String := (pathText path).quote

/-- `strings.Split(strings.TrimPrefix(path, "/"), "/")`. -/
def segments (path : Path) : List Path :=
  match path with
  | [] => [].splitOn slash
  | b :: rest => if b = slash then rest.splitOn slash else (b :: rest).splitOn slash

def root : Path := [slash]

def containsAny (path : Path) (bytes : Path) : Bool := path.any bytes.contains

def canonicalSegment (segment : Path) : Bool :=
  segment != [] && segment != ascii "." && segment != ascii ".."

def validateStaticPrefix (path : Path) (allowRoot : Bool) : Except String Unit :=
  if path = [] ∨ path.head? ≠ some slash then .error "must be an absolute path"
  else if path = root then
    if allowRoot then .ok () else .error "root prefix is not allowed"
  else if path.getLast? = some slash then .error "must not have a trailing slash"
  else if containsAny path (ascii "?#\\:*") then
    .error "must be a static path without query, fragment, or wildcard"
  else if (segments path).all canonicalSegment = false then
    .error "contains a non-canonical path segment"
  else .ok ()

def validatePrefix (path : Path) : Except String Unit :=
  if path = [] then .ok ()
  else if path = root then .error "root prefix must be represented by an empty string"
  else validateStaticPrefix path false

def validWildcardName (name : Path) : Bool :=
  name != [] && name.all fun b =>
    (97 ≤ b && b ≤ 122) || (65 ≤ b && b ≤ 90) || (48 ≤ b && b ≤ 57) || b == 95 || b == 45

/-- The segments of a pattern, with the wildcard names before them. -/
def validateSegments (wildcardNames : List Path) : List Path → Except String Unit
  | [] => .ok ()
  | segment :: rest =>
    if canonicalSegment segment = false then .error "path contains a non-canonical segment"
    else
      match segment with
      | [] => .error "path contains a non-canonical segment"
      | first :: name =>
        if first ≠ colon ∧ first ≠ star then
          if containsAny segment [colon, star] then
            .error "wildcard must occupy its complete path segment"
          else validateSegments wildcardNames rest
        else if validWildcardName name = false then
          .error s!"invalid wildcard name {quoted name}"
        else if name ∈ wildcardNames then .error s!"duplicate wildcard name {quoted name}"
        else if first = star ∧ rest ≠ [] then
          .error "catch-all wildcard must be the final segment"
        else validateSegments (name :: wildcardNames) rest

def validateRoutePattern (pattern : Path) : Except String Unit :=
  if pattern = [] ∨ pattern.head? ≠ some slash then .error "path must be absolute"
  else if pattern ≠ root ∧ pattern.getLast? = some slash then
    .error "path must not have a trailing slash"
  else if containsAny pattern (ascii "?#\\") then
    .error "path contains query, fragment, or backslash"
  else if pattern = root then .ok ()
  else validateSegments [] (segments pattern)

/-- The loop of `matchPattern`; `none` is the panic on an empty segment of the
pattern. -/
def matchSegments : List Path → List Path → Option Bool
  | [], path => some path.isEmpty
  | [] :: _, _ => none
  | (first :: name) :: pattern, path =>
    if first = star then some (pattern.isEmpty && !path.isEmpty)
    else
      match path with
      | [] => some false
      | segment :: path =>
        if first = colon then
          if segment = [] then some false else matchSegments pattern path
        else if first :: name ≠ segment then some false
        else matchSegments pattern path

def matchPattern (pattern requestPath : Path) : Option Bool :=
  if pattern = root then some (requestPath == root)
  else if requestPath = root ∨ requestPath.head? ≠ some slash then some false
  else matchSegments (segments pattern) (segments requestPath)

def namespaceMatches (namespacePrefix requestPath : Path) : Bool :=
  if namespacePrefix = root then requestPath.head? == some slash
  else requestPath == namespacePrefix || (namespacePrefix ++ root).isPrefixOf requestPath

/-- The loop of `patternIntersectsNamespace`. -/
def segmentsIntersect : List Path → List Path → Bool
  | [], rest => rest.isEmpty
  | segment :: pattern, rest =>
    if segment.head? = some star then true
    else
      match rest with
      | [] => true
      | own :: rest =>
        if segment.head? = some colon then segmentsIntersect pattern rest
        else if segment ≠ own then false
        else segmentsIntersect pattern rest

def patternIntersectsNamespace (pattern namespacePrefix : Path) : Bool :=
  if namespacePrefix = root then true
  else segmentsIntersect (segments pattern) (segments namespacePrefix)

def namespaceContainsPattern (namespacePrefix pattern : Path) : Bool :=
  if namespacePrefix = root then true
  else (segments namespacePrefix).isPrefixOf (segments pattern)

end EchoJoyGateway.HTTPRoute
