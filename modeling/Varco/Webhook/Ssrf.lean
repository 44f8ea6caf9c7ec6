import Varco.Foundations.Text

/-!
# The check of a webhook target

`validate_target` of `varco_core.webhook.ssrf`. Addresses, networks and the ranges of special
addresses are those of Python's `ipaddress` module; how a URL, an address or a network is read from
its text is a parameter (`UrlText`), and so is the resolver. An address of the URL or the resolver
stands for its text.

`validateTarget_guards` says what a target that passes is worth: all its addresses are outside the
ranges that are denied, the first of them is the one to connect to, and the allowlist names the host
or holds one of the addresses.
-/

namespace Varco

/-! ## Addresses and networks -/

/-- `IPv4Address` and `IPv6Address`, the latter with its zone. -/
inductive IPAddress
  | v4 (n : BitVec 32)
  | v6 (n : BitVec 128) (scope : Option String)
  deriving DecidableEq

/-- `IPv4Network` and `IPv6Network`: an address and the length of the prefix. -/
inductive IPNetwork
  | v4 (n : BitVec 32) (prefixlen : ℕ)
  | v6 (n : BitVec 128) (prefixlen : ℕ)

/-- `address in network` -/
def IPNetwork.contains : IPNetwork → IPAddress → Bool
  | .v4 a len, .v4 n => n >>> (32 - len) = a >>> (32 - len)
  | .v6 a len, .v6 n _ => n >>> (128 - len) = a >>> (128 - len)
  | _, _ => false

def unwrapIpv4Mapped : IPAddress → IPAddress
  | .v6 n scope => if n >>> 32 = 0xffff then .v4 (n.truncate 32) else .v6 n scope
  | .v4 n => .v4 n

def net4 (a b c d : ℕ) (prefixlen : ℕ) : IPNetwork :=
  .v4 (BitVec.ofNat 32 (a * 2 ^ 24 + b * 2 ^ 16 + c * 2 ^ 8 + d)) prefixlen

def net6 (a b c d : ℕ) (prefixlen : ℕ) : IPNetwork :=
  .v6 (BitVec.ofNat 128 (a * 2 ^ 112 + b * 2 ^ 96 + c * 2 ^ 80 + d * 2 ^ 64)) prefixlen

def privateNetworks : List IPNetwork :=
  [net4 0 0 0 0 8, net4 10 0 0 0 8, net4 127 0 0 0 8, net4 169 254 0 0 16, net4 172 16 0 0 12,
    net4 192 0 0 0 24, net4 192 0 0 170 31, net4 192 0 2 0 24, net4 192 168 0 0 16,
    net4 198 18 0 0 15, net4 198 51 100 0 24, net4 203 0 113 0 24, net4 240 0 0 0 4,
    net4 255 255 255 255 32,
    .v6 1 128, .v6 0 128, .v6 0xffff00000000 96, net6 0x64 0xff9b 1 0 48, net6 0x100 0 0 0 64,
    net6 0x2001 0 0 0 23, net6 0x2001 0xdb8 0 0 32, net6 0x2002 0 0 0 16, net6 0xfc00 0 0 0 7,
    net6 0xfe80 0 0 0 10]

/-- `_private_networks_exceptions` -/
def privateExceptions : List IPNetwork :=
  [net4 192 0 0 9 32, net4 192 0 0 10 32,
    .v6 0x20010001000000000000000000000001 128, .v6 0x20010001000000000000000000000002 128,
    net6 0x2001 3 0 0 32, net6 0x2001 4 0x112 0 48, net6 0x2001 0x20 0 0 28,
    net6 0x2001 0x30 0 0 28]

namespace IPAddress

def isPrivate (ip : IPAddress) : Bool :=
  privateNetworks.any (·.contains ip) && privateExceptions.all (!·.contains ip)

def isLoopback (ip : IPAddress) : Bool := [net4 127 0 0 0 8, .v6 1 128].any (·.contains ip)

def isLinkLocal (ip : IPAddress) : Bool :=
  [net4 169 254 0 0 16, net6 0xfe80 0 0 0 10].any (·.contains ip)

def isMulticast (ip : IPAddress) : Bool :=
  [net4 224 0 0 0 4, net6 0xff00 0 0 0 8].any (·.contains ip)

def isUnspecified (ip : IPAddress) : Bool := [net4 0 0 0 0 32, .v6 0 128].any (·.contains ip)

def isReserved (ip : IPAddress) : Bool :=
  [net4 240 0 0 0 4, net6 0 0 0 0 8, net6 0x100 0 0 0 8, net6 0x200 0 0 0 7, net6 0x400 0 0 0 6,
    net6 0x800 0 0 0 5, net6 0x1000 0 0 0 4, net6 0x4000 0 0 0 3, net6 0x6000 0 0 0 3,
    net6 0x8000 0 0 0 3, net6 0xa000 0 0 0 3, net6 0xc000 0 0 0 3, net6 0xe000 0 0 0 4,
    net6 0xf000 0 0 0 5, net6 0xf800 0 0 0 6, net6 0xfe00 0 0 0 9].any (·.contains ip)

end IPAddress

example : (unwrapIpv4Mapped (.v6 0xffffa9fea9fe none)).isLinkLocal = true ∧
    IPAddress.isPrivate (.v4 0x0a010203) = true ∧ IPAddress.isPrivate (.v4 0x08080808) = false := by
  decide

/-! ## Texts -/

/-- What `urlsplit` returns; asking for the port can raise. -/
structure SplitUrl where
  scheme : String
  hostname : Option String
  port : Except PyException (Option ℕ)
  path : String
  query : String

/-- How texts are read: `urlsplit`, `ip_address` and `ip_network`, the latter two with `none` for a
`ValueError`; and `str()` of an address. -/
structure UrlText where
  urlsplit : String → Except PyException SplitUrl
  ipAddress : String → Option IPAddress
  ipNetwork : String → Option IPNetwork
  str : IPAddress → String

/-- What `getaddrinfo` raises. -/
inductive ResolveError
  | osError (text : String)
  | other (e : PyException)

/-- `SSRFValidationError(message)` -/
def ssrfValidationError (message : String) : PyException := ⟨"SSRFValidationError", message⟩

structure TargetValidation where
  scheme : String
  hostname : String
  port : ℕ
  pathQs : String
  pinnedIp : IPAddress
  deriving DecidableEq

/-! ## The checks -/

section

variable (L : UrlText) (getaddrinfo : String → Except ResolveError (List IPAddress))

def inDeniedRange (ip : IPAddress) : Bool :=
  ip.isPrivate || ip.isLoopback || ip.isLinkLocal || ip.isMulticast || ip.isUnspecified ||
    ip.isReserved

/-- The loop of `_is_blocked_address` over `extra_deny_ranges`. -/
def inExtraRange (ip : IPAddress) : List String → Except PyException Bool
  | [] => .ok false
  | cidr :: cidrs =>
    match L.ipNetwork cidr with
    | none =>
      .error (.valueError (pyRepr cidr ++ " does not appear to be an IPv4 or IPv6 network"))
    | some network => if network.contains ip then .ok true else inExtraRange ip cidrs

def isBlockedAddress (addr : IPAddress) (extraDenyRanges : List String) : Except PyException Bool :=
  let ip := unwrapIpv4Mapped addr
  if inDeniedRange ip then .ok true else inExtraRange L ip extraDenyRanges

def isAllowedByAllowlist (hostname : String) (resolvedIps : List IPAddress) :
    Option (List String) → Bool
  | none => true
  | some allowList =>
    hostname ∈ allowList || allowList.any fun entry =>
      (L.ipNetwork entry).any fun network => resolvedIps.any network.contains

/-- `_resolve_host`: in order, each address once. -/
def resolveHost (host : String) : Except PyException (List IPAddress) :=
  match getaddrinfo host with
  | .ok infos =>
    .ok (infos.foldl (fun seen addr => if addr ∈ seen then seen else seen ++ [addr]) [])
  | .error (.osError text) =>
    .error (ssrfValidationError s!"Could not resolve host {pyRepr host}: {text}")
  | .error (.other e) => .error e

/-- The address in the URL, or those that its host name resolves to. -/
def resolvedAddresses (hostname : String) : Except PyException (List IPAddress) :=
  match L.ipAddress hostname with
  | some literal => .ok [literal]
  | none => resolveHost getaddrinfo hostname

def rejectBlocked (hostname : String) (extraDenyRanges : List String) :
    List IPAddress → Except PyException Unit
  | [] => .ok ()
  | addr :: addrs => do
    if ← isBlockedAddress L addr extraDenyRanges then
      throw (ssrfValidationError
        (s!"Host {pyRepr hostname} resolves to a blocked address ({L.str addr}) — " ++
          "private, loopback, link-local, multicast, unspecified, or " ++
          "reserved ranges are never valid webhook delivery targets."))
    rejectBlocked hostname extraDenyRanges addrs

def validateTarget (url : String) (allowInsecureHttp : Bool) (allowList : Option (List String))
    (extraDenyRanges : List String) : Except PyException TargetValidation := do
  let parsed ← L.urlsplit url
  let scheme := pyLower parsed.scheme
  if scheme ≠ "https" ∧ ¬(scheme = "http" ∧ allowInsecureHttp = true) then
    throw (ssrfValidationError
      (s!"Scheme {pyRepr scheme} is not permitted for webhook delivery. " ++
        "Only https:// is allowed by default (set allow_insecure_http=True " ++
        "at the deployment level to permit http://)."))
  let hostname := parsed.hostname.getD ""
  if hostname = "" then
    throw (ssrfValidationError s!"URL {pyRepr url} has no hostname to validate.")
  let port ← parsed.port
  let port := if port.getD 0 = 0 then (if scheme = "https" then 443 else 80) else port.getD 0
  let path := if parsed.path = "" then "/" else parsed.path
  let pathQs := if parsed.query = "" then path else path ++ "?" ++ parsed.query
  let resolvedIps ← resolvedAddresses L getaddrinfo hostname
  match resolvedIps with
  | [] => throw (ssrfValidationError s!"Host {pyRepr hostname} did not resolve to any address.")
  | first :: rest =>
    if !isAllowedByAllowlist L hostname (first :: rest) allowList then
      throw (ssrfValidationError s!"Host {pyRepr hostname} is not on the configured allowlist.")
    rejectBlocked L hostname extraDenyRanges (first :: rest)
    return ⟨scheme, hostname, port, pathQs, first⟩

/-! ## What the checks find -/

/-- The addresses that a host name stands for: itself, or those that the resolver names. -/
def ResolvesTo (hostname : String) (addr : IPAddress) : Prop :=
  L.ipAddress hostname = some addr ∨
    L.ipAddress hostname = none ∧ ∃ infos, getaddrinfo hostname = .ok infos ∧ addr ∈ infos

def ListedIn (entries : List String) (addr : IPAddress) : Prop :=
  ∃ entry ∈ entries, ∃ network, L.ipNetwork entry = some network ∧ network.contains addr = true

def Networks (entries : List String) : Prop := ∀ entry ∈ entries, (L.ipNetwork entry).isSome

/-- Read as IPv4 where it is a mapped one, the address is outside the built-in ranges and outside
every further range. -/
structure Deliverable (extraDenyRanges : List String) (addr : IPAddress) : Prop where
  builtin : inDeniedRange (unwrapIpv4Mapped addr) = false
  extra : ¬ListedIn L extraDenyRanges (unwrapIpv4Mapped addr)

variable {L getaddrinfo}

theorem inExtraRange_false {ip : IPAddress} {cidrs : List String}
    (h : inExtraRange L ip cidrs = .ok false) : ¬ListedIn L cidrs ip := by
  induction cidrs with
  | nil => exact fun ⟨_, hentry, _⟩ => nomatch hentry
  | cons cidr cidrs ih =>
    rintro ⟨entry, hentry, network, hnetwork, hmem⟩
    cases hread : L.ipNetwork cidr with
    | none => simp [inExtraRange, hread] at h
    | some found =>
      by_cases hfound : found.contains ip = true
      · simp [inExtraRange, hread, hfound] at h
      · have hrest : inExtraRange L ip cidrs = .ok false := by
          simpa [inExtraRange, hread, hfound] using h
        rcases List.mem_cons.mp hentry with rfl | hentry
        · rw [hread, Option.some.injEq] at hnetwork
          exact hfound (hnetwork ▸ hmem)
        · exact ih hrest ⟨entry, hentry, network, hnetwork, hmem⟩

theorem inExtraRange_total {ip : IPAddress} {cidrs : List String} (h : Networks L cidrs) :
    ∃ found, inExtraRange L ip cidrs = .ok found := by
  induction cidrs with
  | nil => exact ⟨false, rfl⟩
  | cons cidr cidrs ih =>
    obtain ⟨network, hnetwork⟩ := Option.isSome_iff_exists.mp (h cidr List.mem_cons_self)
    by_cases hmem : network.contains ip = true
    · exact ⟨true, by simp [inExtraRange, hnetwork, hmem]⟩
    · obtain ⟨found, hfound⟩ := ih fun entry hentry => h entry (List.mem_cons_of_mem _ hentry)
      exact ⟨found, by simp [inExtraRange, hnetwork, hmem, hfound]⟩

variable {extra : List String}

theorem isBlockedAddress_false {addr : IPAddress}
    (h : isBlockedAddress L addr extra = .ok false) : Deliverable L extra addr := by
  unfold isBlockedAddress at h
  by_cases hbuiltin : inDeniedRange (unwrapIpv4Mapped addr) = true
  · simp [hbuiltin] at h
  · exact ⟨by simpa using hbuiltin, inExtraRange_false (by simpa [hbuiltin] using h)⟩

theorem isBlockedAddress_total (h : Networks L extra) (addr : IPAddress) :
    ∃ blocked, isBlockedAddress L addr extra = .ok blocked := by
  unfold isBlockedAddress
  by_cases hbuiltin : inDeniedRange (unwrapIpv4Mapped addr) = true
  · exact ⟨true, by simp [hbuiltin]⟩
  · simpa [hbuiltin] using inExtraRange_total h

variable {hostname : String}

theorem rejectBlocked_ok {addrs : List IPAddress}
    (h : rejectBlocked L hostname extra addrs = .ok ()) :
    ∀ addr ∈ addrs, Deliverable L extra addr := by
  induction addrs with
  | nil => exact fun _ haddr => nomatch haddr
  | cons first rest ih =>
    cases hblocked : isBlockedAddress L first extra with
    | error e => simp [rejectBlocked, hblocked, bind, Except.bind] at h
    | ok blocked =>
      cases blocked with
      | true => simp [rejectBlocked, hblocked, bind, Except.bind, throw, throwThe,
          MonadExceptOf.throw] at h
      | false =>
        have hrest : rejectBlocked L hostname extra rest = .ok () := by
          simpa [rejectBlocked, hblocked, bind, Except.bind] using h
        intro addr haddr
        rcases List.mem_cons.mp haddr with rfl | haddr
        · exact isBlockedAddress_false hblocked
        · exact ih hrest addr haddr

/-- When all further ranges are networks, the loop fails with the guard's own error only. -/
theorem rejectBlocked_error {addrs : List IPAddress} {e : PyException} (hextra : Networks L extra)
    (h : rejectBlocked L hostname extra addrs = .error e) :
    e.typeName = "SSRFValidationError" := by
  induction addrs with
  | nil => exact nomatch h
  | cons first rest ih =>
    obtain ⟨blocked, hblocked⟩ := isBlockedAddress_total hextra first
    cases blocked with
    | true =>
      simp only [rejectBlocked, hblocked, bind, Except.bind, throw, throwThe, MonadExceptOf.throw,
        if_true, Except.error.injEq] at h
      rw [← h]
      rfl
    | false => exact ih (by simpa [rejectBlocked, hblocked, bind, Except.bind] using h)

theorem isAllowedByAllowlist_some {addrs : List IPAddress} {l : List String}
    (h : isAllowedByAllowlist L hostname addrs (some l) = true) :
    hostname ∈ l ∨ ∃ addr ∈ addrs, ListedIn L l addr := by
  simp only [isAllowedByAllowlist, Bool.or_eq_true, decide_eq_true_eq, List.any_eq_true] at h
  rcases h with hhost | ⟨entry, hentry, hnetwork⟩
  · exact .inl hhost
  · cases hread : L.ipNetwork entry with
    | none => simp [hread] at hnetwork
    | some network =>
      obtain ⟨addr, haddr, hmem⟩ : ∃ addr ∈ addrs, network.contains addr = true := by
        simpa [hread] using hnetwork
      exact .inr ⟨addr, haddr, entry, hentry, network, hread, hmem⟩

theorem mem_foldl_once {addr : IPAddress} (infos seen : List IPAddress) :
    addr ∈ infos.foldl (fun seen addr => if addr ∈ seen then seen else seen ++ [addr]) seen ↔
      addr ∈ seen ∨ addr ∈ infos := by
  induction infos generalizing seen with
  | nil => simp
  | cons info infos ih =>
    rw [List.foldl_cons, ih, List.mem_cons]
    by_cases hinfo : info ∈ seen
    · rw [if_pos hinfo]
      refine ⟨fun h => h.imp_right .inr, ?_⟩
      rintro (h | rfl | h)
      exacts [.inl h, .inl hinfo, .inr h]
    · rw [if_neg hinfo, List.mem_append, List.mem_singleton, or_assoc]

theorem mem_resolvedAddresses {resolved : List IPAddress}
    (h : resolvedAddresses L getaddrinfo hostname = .ok resolved) (addr : IPAddress) :
    addr ∈ resolved ↔ ResolvesTo L getaddrinfo hostname addr := by
  unfold resolvedAddresses at h
  unfold ResolvesTo
  cases hliteral : L.ipAddress hostname with
  | some literal =>
    rw [hliteral] at h
    rw [← Except.ok.inj h]
    simp [eq_comm]
  | none =>
    rw [hliteral] at h
    simp only [resolveHost] at h
    cases hinfos : getaddrinfo hostname with
    | error e => cases e <;> simp [hinfos] at h
    | ok infos =>
      simp only [hinfos, Except.ok.injEq] at h
      rw [← h, mem_foldl_once]
      simp

/-- With a resolver that fails in its own way only, resolving raises the guard's error only. -/
theorem resolvedAddresses_error {e : PyException}
    (hresolver : ∀ host e, getaddrinfo host ≠ .error (.other e))
    (h : resolvedAddresses L getaddrinfo hostname = .error e) :
    e.typeName = "SSRFValidationError" := by
  unfold resolvedAddresses at h
  cases hliteral : L.ipAddress hostname with
  | some literal => simp [hliteral] at h
  | none =>
    simp only [hliteral, resolveHost] at h
    cases hinfos : getaddrinfo hostname with
    | ok infos => simp [hinfos] at h
    | error failure =>
      cases failure with
      | osError text =>
        simp only [hinfos, Except.error.injEq] at h
        rw [← h]
        rfl
      | other e => exact absurd hinfos (hresolver hostname e)

/-! ## What passes, and what is raised -/

variable {url : String} {allowInsecureHttp : Bool} {allowList : Option (List String)}
  {extraDenyRanges : List String}

theorem validateTarget_ok {v : TargetValidation}
    (h : validateTarget L getaddrinfo url allowInsecureHttp allowList extraDenyRanges = .ok v) :
    ∃ rest, resolvedAddresses L getaddrinfo v.hostname = .ok (v.pinnedIp :: rest) ∧
      isAllowedByAllowlist L v.hostname (v.pinnedIp :: rest) allowList = true ∧
      rejectBlocked L v.hostname extraDenyRanges (v.pinnedIp :: rest) = .ok () := by
  simp only [validateTarget, bind, Except.bind, throw, throwThe, MonadExceptOf.throw, pure,
    Except.pure] at h
  split at h
  · cases h
  · next parsed hparsed =>
    split at h
    · cases h
    · split at h
      · cases h
      · split at h
        · cases h
        · next port hport =>
          split at h
          · cases h
          · next resolved hresolved =>
            cases resolved with
            | nil => cases h
            | cons first rest =>
              simp only at h
              split at h
              · cases h
              · next hallowed =>
                split at h
                · cases h
                · next hblocked =>
                  cases h
                  exact ⟨rest, hresolved, by simpa using hallowed, hblocked⟩

/-- A URL that can be read, with networks to deny and a resolver that fails in its own way only,
makes the guard raise its own error only. -/
theorem validateTarget_error {e : PyException}
    (hurl : ∃ parsed port, L.urlsplit url = .ok parsed ∧ parsed.port = .ok port)
    (hextra : Networks L extraDenyRanges)
    (hresolver : ∀ host e, getaddrinfo host ≠ .error (.other e))
    (h : validateTarget L getaddrinfo url allowInsecureHttp allowList extraDenyRanges = .error e) :
    e.typeName = "SSRFValidationError" := by
  obtain ⟨parsed, port, hparsed, hport⟩ := hurl
  simp only [validateTarget, hparsed, hport, bind, Except.bind, throw, throwThe,
    MonadExceptOf.throw, pure, Except.pure] at h
  split at h
  · cases h; rfl
  · split at h
    · cases h; rfl
    · split at h
      · next hfailed =>
        cases h
        exact resolvedAddresses_error hresolver hfailed
      · next resolved _ =>
        cases resolved with
        | nil => cases h; rfl
        | cons first rest =>
          simp only at h
          split at h
          · cases h; rfl
          · split at h
            · next hfailed =>
              cases h
              exact rejectBlocked_error hextra hfailed
            · cases h

variable (L getaddrinfo url allowInsecureHttp allowList extraDenyRanges)

/-- **The webhook guard.** Every address that the host of an accepted target stands for is outside
all denied ranges, the pinned address is one of them, and an allowlist names the host or holds one
of its addresses. With a readable URL, networks to deny and a resolver that fails in its own way
only, a target that is not accepted gives an `SSRFValidationError`. -/
theorem validateTarget_guards :
    (∀ v, validateTarget L getaddrinfo url allowInsecureHttp allowList extraDenyRanges = .ok v →
      (∀ addr, ResolvesTo L getaddrinfo v.hostname addr → Deliverable L extraDenyRanges addr) ∧
      ResolvesTo L getaddrinfo v.hostname v.pinnedIp ∧
      ∀ l, allowList = some l →
        v.hostname ∈ l ∨ ∃ addr, ResolvesTo L getaddrinfo v.hostname addr ∧ ListedIn L l addr) ∧
    ((∃ parsed port, L.urlsplit url = .ok parsed ∧ parsed.port = .ok port) →
      Networks L extraDenyRanges → (∀ host e, getaddrinfo host ≠ .error (.other e)) →
      ∀ e, validateTarget L getaddrinfo url allowInsecureHttp allowList extraDenyRanges =
        .error e → e.typeName = "SSRFValidationError") := by
  refine ⟨fun v hv => ?_, fun hurl hextra hresolver e he =>
    validateTarget_error hurl hextra hresolver he⟩
  obtain ⟨rest, hresolved, hallowed, hblocked⟩ := validateTarget_ok hv
  have hmem := mem_resolvedAddresses hresolved
  refine ⟨fun addr haddr => rejectBlocked_ok hblocked addr ((hmem addr).mpr haddr),
    (hmem v.pinnedIp).mp List.mem_cons_self, fun l hl => ?_⟩
  rw [hl] at hallowed
  exact (isAllowedByAllowlist_some hallowed).imp_right fun ⟨addr, haddr, hlisted⟩ =>
    ⟨addr, (hmem addr).mp haddr, hlisted⟩

end

/-- **The pinned address can be outside the allowlist.** The host has two addresses, the second of
them in the listed network; the first is the pinned one. -/
theorem validateTarget_pins_unlisted :
    let listed : IPNetwork := .v4 0x01010100 24
    let L : UrlText :=
      { urlsplit := fun _ => .ok ⟨"https", some "api.example.com", .ok none, "/hook", ""⟩
        ipAddress := fun _ => none
        ipNetwork := fun entry => if entry = "1.1.1.0/24" then some listed else none
        str := fun ip => if ip = .v4 0x08080808 then "8.8.8.8" else "1.1.1.1" }
    let pinned : IPAddress := .v4 0x08080808
    validateTarget L (fun _ => .ok [pinned, .v4 0x01010101]) "https://api.example.com/hook" false
        (some ["1.1.1.0/24"]) [] =
      .ok ⟨"https", "api.example.com", 443, "/hook", pinned⟩ ∧
    "api.example.com" ∉ ["1.1.1.0/24"] ∧ listed.contains pinned = false := by
  decide

end Varco
