import EchoJoyGateway.Lib.Utf8

/-!
# The address of a client

`ClientIPResolver.resolve` of `internal/platform/utils`, over any `net/netip`.
-/

namespace EchoJoyGateway.ClientIP

open Utf8

structure Netip (Addr Prefix : Type) where
  parseAddr : Text → Option Addr
  parseAddrPort : Text → Except Text Addr
  zone : Addr → Text
  unmap : Addr → Addr
  withoutZone : Addr → Addr
  string : Addr → Text
  contains : Prefix → Addr → Bool

structure Resolver (Prefix : Type) where
  header : Text
  trusted : List Prefix

structure Request where
  remoteAddr : Text
  values : Text → List Text

variable {Addr Prefix : Type} (netip : Netip Addr Prefix) (trusted : List Prefix)

def normalizeIP (value : Text) : Except Text Text :=
  match (netip.parseAddr (trimSpace value)).filter (netip.zone · = []) with
  | none => .error (ascii "invalid IP address")
  | some address => .ok (netip.string (netip.unmap address))

def normalizePeerIP (remoteAddr : Text) : Except Text Text :=
  match netip.parseAddrPort (trimSpace remoteAddr) with
  | .error err => .error (ascii "parse remote peer endpoint: " ++ err)
  | .ok address => .ok (netip.string (netip.withoutZone (netip.unmap address)))

def allowedCIDRsContain (peer : Text) : Bool :=
  match netip.parseAddr (trimSpace peer) with
  | none => false
  | some address => trusted.any (netip.contains · (netip.withoutZone (netip.unmap address)))

/-- The loop from the last item, none where it breaks off. -/
def scan : List Text → Option Text
  | [] => none
  | item :: rest =>
    match normalizeIP netip item with
    | .error _ => none
    | .ok address =>
      if rest.isEmpty || !allowedCIDRsContain netip trusted address then some address
      else scan rest

variable (resolver : Resolver Prefix) (request : Request)

/-- An error comes with an empty address. -/
def Resolver.trusts : Bool :=
  allowedCIDRsContain netip resolver.trusted
    ((normalizePeerIP netip request.remoteAddr).toOption.getD [])

def Resolver.value : Text := (ascii ",").intercalate (request.values resolver.header)

def Resolver.items : List Text := (resolver.value request).splitOn 0x2C

def forwardedFor : Text := ascii "X-Forwarded-For"

def Resolver.resolve : Except Text Text :=
  let peer := normalizePeerIP netip request.remoteAddr
  if resolver.header = [] || !resolver.trusted.isEmpty && !resolver.trusts netip request then peer
  else if resolver.header ≠ forwardedFor then
    (normalizeIP netip (resolver.value request)).toOption.elim peer .ok
  else if resolver.trusted.isEmpty then
    (normalizeIP netip ((resolver.items request).headD [])).toOption.elim peer .ok
  else (scan netip resolver.trusted (resolver.items request).reverse).elim peer .ok

def Proxies (hops : List Text) : Prop :=
  ∀ item ∈ hops, ∃ proxy, normalizeIP netip item = .ok proxy ∧
    allowedCIDRsContain netip trusted proxy = true

variable {netip trusted resolver request} {hop address : Text} {hops : List Text}

theorem scan_append (hhop : normalizeIP netip hop = .ok address)
    (huntrusted : allowedCIDRsContain netip trusted address = false)
    (hhops : Proxies netip trusted hops) (front : List Text) :
    scan netip trusted (hops ++ hop :: front) = some address := by
  induction hops with
  | nil => simp [scan, hhop, huntrusted]
  | cons item hops ih =>
    obtain ⟨proxy, hproxy, htrusted⟩ := hhops item (.head _)
    rw [List.cons_append, scan, hproxy]
    simpa [htrusted] using ih fun other hother => hhops other (.tail _ hother)

/-- The client is the peer or, behind proxies, the last hop that is none, whatever else the
headers say. -/
theorem client_cannot_choose_address (htrusted : resolver.trusted ≠ []) :
    (resolver.trusts netip request = false →
      resolver.resolve netip request = normalizePeerIP netip request.remoteAddr) ∧
    (resolver.header = forwardedFor → resolver.trusts netip request = true →
      hop :: hops <:+ resolver.items request → normalizeIP netip hop = .ok address →
      allowedCIDRsContain netip resolver.trusted address = false →
      Proxies netip resolver.trusted hops → resolver.resolve netip request = .ok address) := by
  have hnonempty : resolver.trusted.isEmpty = false := by simpa using htrusted
  constructor
  · intro hpeer
    simp [Resolver.resolve, hnonempty, hpeer]
  · rintro hheader hpeer ⟨front, hitems⟩ hhop huntrusted hhops
    have hscan := scan_append hhop huntrusted (fun item h => hhops item (List.mem_reverse.mp h))
      front.reverse
    simp [Resolver.resolve, hheader, hnonempty, hpeer, show forwardedFor ≠ [] by decide, ← hitems,
      hscan]

/-- The answers of `netip` on four addresses and one network. -/
def quads : Netip Text Text where
  parseAddr text :=
    (["10.0.0.1", "10.0.0.2", "198.51.100.7", "203.0.113.9"].map ascii).find? (· == text)
  parseAddrPort text :=
    if text = ascii "10.0.0.1:443" then .ok (ascii "10.0.0.1") else .error (ascii "not an ip:port")
  zone _ := []
  unmap := id
  withoutZone := id
  string := id
  contains network address := network == ascii "10.0.0.0/8" && (ascii "10.").isPrefixOf address

theorem quads_cannot_choose :
    Resolver.resolve quads ⟨forwardedFor, [ascii "10.0.0.0/8"]⟩
        ⟨ascii "10.0.0.1:443", fun _ => [ascii "203.0.113.9, 198.51.100.7", ascii " 10.0.0.2"]⟩ =
      .ok (ascii "198.51.100.7") :=
  (client_cannot_choose_address (by simp)).2 rfl (by decide) ⟨[ascii "203.0.113.9"], rfl⟩ rfl
    (by decide) (List.forall_mem_singleton.mpr ⟨ascii "10.0.0.2", rfl, by decide⟩)

end EchoJoyGateway.ClientIP
