import Noted.Library.Attempt
import Noted.Library.Netip
import Noted.Text

/-!
# The address of a client (internal/httpapi/proxy.go, internal/config/config.go)

`values` are the X-Forwarded-For lines of a request. The proxies append to them, so that
what is to the left of the first hop that is not trusted is that hop's own claim.
-/

namespace Noted.Proxy

open Library.Netip

section Code

def trustedProxy (address : Addr) (trusted : List Prefix) : Bool :=
  trusted.any fun p => p.contains address

def peerAddr (remoteAddr : Text) : Option Addr :=
  match parseAddrPort remoteAddr with
  | some (ip, _) => some (ip.withZone []).unmap
  | none =>
    match parseAddr remoteAddr with
    | some ip => some (ip.withZone []).unmap
    | none => none

def forwardedHop (hop : Text) : Option Addr :=
  match parseAddr (trimSpace hop) with
  | none => none
  | some ip => if ip.zone ≠ [] then none else some ip.unmap

def hops (values : List Text) : List Text := values.flatMap fun value => value.splitOn ','

def forwardedClientIP (remoteAddr : Text) (values : List Text) (trusted : List Prefix) : Text :=
  match peerAddr remoteAddr with
  | none => remoteAddr
  | some address =>
    let fallback := address.string
    if trustedProxy address trusted = false then fallback
    else if values = [] then fallback
    else
      match (hops values).mapM forwardedHop with
      | none => fallback
      | some chain =>
        -- from the right
        match chain.reverse.find? fun ip => !trustedProxy ip trusted with
        | some client => client.string
        | none => fallback

inductive CIDRError
  | invalid (entry : Text)
  /-- A mapped network that holds other addresses too. -/
  | mapped (entry : Text)
  | everyPeer (entry : Text)
  deriving DecidableEq

def trustedProxyCIDR (entry : Text) : Except CIDRError Prefix :=
  match parsePrefix (trimSpace entry) with
  | none => .error (.invalid (trimSpace entry))
  | some p =>
    if p.ip.is4In6 ∧ p.bits < 96 then .error (.mapped (trimSpace entry))
    else
      let p := if p.ip.is4In6 then ⟨p.ip.unmap, p.bits - 96⟩ else p
      if p.bits = 0 then .error (.everyPeer (trimSpace entry)) else .ok p.masked

def parseTrustedProxyCIDRs (raw : Text) : Except CIDRError (List Prefix) :=
  if trimSpace raw = [] then .ok [] else (raw.splitOn ',').mapM trustedProxyCIDR

end Code

section Networks

variable {raw entry entry' text number number' : Text} {p : Prefix} {bits : BitVec 32} {n : Nat}

/-- A network of peers: not of all of them, and of IPv4 addresses in their own form. -/
structure Network (p : Prefix) : Prop where
  pos : 0 < p.bits
  le : p.bits ≤ p.ip.bitLen
  unmapped : p.ip.unmap = p.ip

theorem network_v4 {q : Prefix} {four : BitVec 32} (hip : q.ip = .v4 four) (hpos : 0 < q.bits)
    (hle : q.bits ≤ 32) : Network q.masked := by
  obtain ⟨ip, n⟩ := q
  obtain rfl := hip
  exact ⟨hpos, hle, rfl⟩

theorem trustedProxyCIDR_network (h : trustedProxyCIDR entry = .ok p) : Network p := by
  rw [trustedProxyCIDR] at h
  split at h
  · cases h
  · next q hq =>
    have hle := parsePrefix_bits hq
    cases hmapped : q.ip.is4In6 with
    | false =>
      simp only [hmapped, Bool.false_eq_true, false_and, if_false] at h
      split_ifs at h with hzero
      obtain rfl := Except.ok.inj h
      obtain ⟨hunmap, hbits, hlen⟩ := Prefix.masked_unmap hmapped
      exact ⟨hbits ▸ Nat.pos_of_ne_zero hzero, by rwa [hbits, hlen], hunmap⟩
    | true =>
      simp only [hmapped, true_and, if_true] at h
      split_ifs at h with hbeyond hzero
      obtain rfl := Except.ok.inj h
      obtain ⟨four, hfour, hlen⟩ := Addr.unmap_of_is4In6 hmapped
      rw [hlen] at hle
      refine network_v4 hfour (Nat.pos_of_ne_zero hzero) ?_
      change q.bits - 96 ≤ 32
      omega

theorem parseTrustedProxyCIDRs_networks {prefixes : List Prefix}
    (h : parseTrustedProxyCIDRs raw = .ok prefixes) : ∀ p ∈ prefixes, Network p := by
  rw [parseTrustedProxyCIDRs] at h
  split_ifs at h with hempty
  · obtain rfl := Except.ok.inj h
    simp
  · intro p hp
    obtain ⟨entry, -, hentry⟩ := Library.mem_of_mapM_eq_ok h hp
    exact trustedProxyCIDR_network hentry

theorem trustedProxyCIDR_v4 (h : parsePrefix (trimSpace entry) = some ⟨.v4 bits, n⟩) :
    trustedProxyCIDR entry = .ok p ↔ n ≠ 0 ∧ Prefix.masked ⟨.v4 bits, n⟩ = p := by
  rw [trustedProxyCIDR, h]
  by_cases hzero : n = 0 <;> simp [hzero, Addr.is4In6]

theorem trustedProxyCIDR_v6 (h : parsePrefix (trimSpace entry) = some ⟨.v6 (mapped bits) [], n + 96⟩) :
    trustedProxyCIDR entry = .ok p ↔ n ≠ 0 ∧ Prefix.masked ⟨.v4 bits, n⟩ = p := by
  have hmapped : (Addr.v6 (mapped bits) []).is4In6 = true := isMapped_mapped bits
  rw [trustedProxyCIDR, h]
  by_cases hzero : n = 0 <;> simp [hzero, hmapped]

theorem trustedProxyCIDR_mapped (h : parseAddr text = some (.v4 bits))
    (hn : parseBits number = some n) (hn' : parseBits number' = some (n + 96))
    (hentry : trimSpace entry = text ++ '/' :: number)
    (hentry' : trimSpace entry' = "::ffff:".toList ++ text ++ '/' :: number') :
    trustedProxyCIDR entry = .ok p ↔ trustedProxyCIDR entry' = .ok p := by
  have hread := parsePrefix_eq hn h rfl
  have hread' := parsePrefix_eq hn' (parseAddr_mapped h) rfl
  rw [← hentry] at hread
  rw [← hentry'] at hread'
  by_cases hlong : 32 < n
  · have hlong' : 128 < n + 96 := by omega
    rw [trustedProxyCIDR, trustedProxyCIDR, hread.trans (if_pos hlong),
      hread'.trans (if_pos hlong')]
    simp
  · have hlong' : ¬ 128 < n + 96 := by omega
    rw [trustedProxyCIDR_v4 (hread.trans (if_neg hlong)),
      trustedProxyCIDR_v6 (hread'.trans (if_neg hlong'))]

end Networks

section Chains

variable {trusted : List Prefix} {remoteAddr : Text} {values : List Text} {peer client : Addr}

theorem forwardedClientIP_untrusted
    (h : ∀ peer, peerAddr remoteAddr = some peer → trustedProxy peer trusted = false)
    (values : List Text) :
    forwardedClientIP remoteAddr values trusted =
      ((peerAddr remoteAddr).map Addr.string).getD remoteAddr := by
  rw [forwardedClientIP]
  cases hpeer : peerAddr remoteAddr with
  | none => rfl
  | some address =>
    dsimp only
    rw [if_pos (h address hpeer)]
    rfl

/-- A chain that ends in a hop that is not trusted, and then in trusted ones. -/
structure Vouched (trusted : List Prefix) (suffix : List Text) (client : Addr) : Prop where
  hop : suffix.head?.bind forwardedHop = some client
  untrusted : trustedProxy client trusted = false
  proxies : ∀ h ∈ suffix.tail, ∃ ip, forwardedHop h = some ip ∧ trustedProxy ip trusted = true

theorem mapM_trusted {proxies : List Text}
    (h : ∀ hop ∈ proxies, ∃ ip, forwardedHop hop = some ip ∧ trustedProxy ip trusted = true) :
    ∃ ips, proxies.mapM forwardedHop = some ips ∧ ∀ ip ∈ ips, trustedProxy ip trusted = true := by
  induction proxies with
  | nil => exact ⟨[], rfl, by simp⟩
  | cons hop rest ih =>
    obtain ⟨ip, hip, htrusted⟩ := h hop (List.mem_cons_self ..)
    obtain ⟨ips, hips, hall⟩ := ih fun hop hhop => h hop (List.mem_cons_of_mem _ hhop)
    refine ⟨ip :: ips, by simp [hip, hips], ?_⟩
    rintro a (_ | ⟨_, ha⟩)
    · exact htrusted
    · exact hall a ha

theorem find_client {before proxies : List Addr} (hclient : trustedProxy client trusted = false)
    (hproxies : ∀ ip ∈ proxies, trustedProxy ip trusted = true) :
    (before ++ client :: proxies).reverse.find? (fun ip => !trustedProxy ip trusted) =
      some client := by
  have hnone : proxies.reverse.find? (fun ip => !trustedProxy ip trusted) = none := by
    rw [List.find?_eq_none]
    intro ip hip
    simp [hproxies ip (List.mem_reverse.mp hip)]
  rw [List.reverse_append, List.reverse_cons, List.append_assoc, List.find?_append, hnone,
    List.singleton_append, List.find?_cons_of_pos (by simp [hclient])]
  rfl

/-- Whatever is to the left of the hop can only turn its address into the peer's. -/
theorem forwardedClientIP_vouched {left suffix : List Text} (hpeer : peerAddr remoteAddr = some peer)
    (htrusted : trustedProxy peer trusted = true) (hhops : hops values = left ++ suffix)
    (h : Vouched trusted suffix client) :
    forwardedClientIP remoteAddr values trusted =
      if (left.mapM forwardedHop).isSome then client.string else peer.string := by
  obtain ⟨hop, huntrusted, hproxies⟩ := h
  cases suffix with
  | nil => cases hop
  | cons first rest =>
    obtain ⟨ips, hips, hall⟩ := mapM_trusted hproxies
    have hfirst : forwardedHop first = some client := hop
    have hne : values ≠ [] := by
      rintro rfl
      simp [hops] at hhops
    have hsuffix : (first :: rest).mapM forwardedHop = some (client :: ips) := by
      rw [List.mapM_cons, hfirst]
      simp only [List.tail_cons] at hips
      simp [hips]
    rw [forwardedClientIP, hpeer]
    dsimp only
    rw [if_neg (by simp [htrusted]), if_neg hne, hhops, List.mapM_append, hsuffix]
    cases hleft : left.mapM forwardedHop with
    | none => rfl
    | some before =>
      simp only [Option.bind_eq_bind, Option.bind_some, Option.pure_def, Option.isSome_some,
        if_true, find_client huntrusted hall]

theorem forwardedClientIP_mem {left suffix : List Text} (hpeer : peerAddr remoteAddr = some peer)
    (htrusted : trustedProxy peer trusted = true) (hhops : hops values = left ++ suffix)
    (h : Vouched trusted suffix client) :
    forwardedClientIP remoteAddr values trusted ∈ [client.string, peer.string] := by
  rw [forwardedClientIP_vouched hpeer htrusted hhops h]
  split <;> simp

theorem hops_line (before : List Text) (text line : Text) (after : List Text) :
    hops (before ++ (text ++ ',' :: line) :: after) =
      hops (before ++ [text]) ++ hops (line :: after) := by
  simp [hops, List.splitOn_append_cons_self]

theorem hops_eq_nil : hops values = [] ↔ values = [] := by
  cases values with
  | nil => simp [hops]
  | cons value rest => simp [hops, List.splitOn_ne_nil]

end Chains

section Writings

/-- A hop as it is, or an IPv4 address in mapped form. -/
inductive MappedHop (hop : Text) : Text → Prop
  | same : MappedHop hop hop
  | mapped {hop' : Text} {bits : BitVec 32} (h : parseAddr (trimSpace hop) = some (.v4 bits))
    (h' : parseAddr (trimSpace hop') = some (.v6 (mapped bits) [])) : MappedHop hop hop'

inductive MappedPeer (peer : Text) : Text → Prop
  | same : MappedPeer peer peer
  | port {peer' : Text} {bits : BitVec 32} {zone : Text} {n : Nat}
    (h : parseAddrPort peer = some (.v4 bits, n))
    (h' : parseAddrPort peer' = some (.v6 (mapped bits) zone, n)) : MappedPeer peer peer'
  | bare {peer' : Text} {bits : BitVec 32} {zone : Text} (hport : parseAddrPort peer = none)
    (hport' : parseAddrPort peer' = none) (h : parseAddr peer = some (.v4 bits))
    (h' : parseAddr peer' = some (.v6 (mapped bits) zone)) : MappedPeer peer peer'

variable {trusted : List Prefix} {remoteAddr remoteAddr' text port hop hop' : Text}
  {values values' : List Text} {bits : BitVec 32} {n : Nat}

theorem MappedHop.eq (h : MappedHop hop hop') : forwardedHop hop = forwardedHop hop' := by
  cases h with
  | same => rfl
  | @mapped _ bits h h' =>
    have hread : forwardedHop hop = some (.v4 bits) := by
      rw [forwardedHop, h]
      rfl
    rw [hread, forwardedHop, h']
    exact congrArg some unmap_mapped.symm

theorem MappedPeer.eq (h : MappedPeer remoteAddr remoteAddr') :
    remoteAddr = remoteAddr' ∨ ∃ ip, peerAddr remoteAddr = some ip ∧ peerAddr remoteAddr' = some ip := by
  cases h with
  | same => exact Or.inl rfl
  | @port _ bits _ _ h h' =>
    refine Or.inr ⟨.v4 bits, ?_, ?_⟩
    · rw [peerAddr, h]
      rfl
    · rw [peerAddr, h']
      exact congrArg some unmap_mapped
  | @bare _ bits _ hport hport' h h' =>
    refine Or.inr ⟨.v4 bits, ?_, ?_⟩
    · rw [peerAddr, hport, h]
      rfl
    · rw [peerAddr, hport', h']
      exact congrArg some unmap_mapped

theorem mapM_mappedHop {a b : List Text} (h : List.Forall₂ MappedHop a b) :
    a.mapM forwardedHop = b.mapM forwardedHop := by
  induction h with
  | nil => rfl
  | cons hhop _ ih => rw [List.mapM_cons, List.mapM_cons, hhop.eq, ih]

theorem forwardedClientIP_mapped (hpeer : MappedPeer remoteAddr remoteAddr')
    (hhops : List.Forall₂ MappedHop (hops values) (hops values')) :
    forwardedClientIP remoteAddr values trusted = forwardedClientIP remoteAddr' values' trusted := by
  have hchain := mapM_mappedHop hhops
  have hnil : values = [] ↔ values' = [] := by
    have hlength := hhops.length_eq
    rw [← hops_eq_nil, ← List.length_eq_zero_iff, hlength, List.length_eq_zero_iff, hops_eq_nil]
  rcases hpeer.eq with rfl | ⟨ip, ha, hb⟩
  · simp only [forwardedClientIP, hchain, hnil]
  · simp only [forwardedClientIP, ha, hb, hchain, hnil]

structure Texts (text : Text) : Prop where
  hop : ∀ hop hop', trimSpace hop = text → trimSpace hop' = "::ffff:".toList ++ text →
    MappedHop hop hop'
  peer : MappedPeer text ("::ffff:".toList ++ text)
  port : ∀ port n, parsePort port = some n →
    MappedPeer (text ++ ':' :: port) ('[' :: ("::ffff:".toList ++ text) ++ [']'] ++ ':' :: port)

theorem texts_of_v4 (h : parseAddr text = some (.v4 bits)) : Texts text where
  hop _ _ hhop hhop' := .mapped (hhop ▸ h) (hhop' ▸ parseAddr_mapped h)
  peer := .bare (parseAddrPort_bare h).1 (parseAddrPort_bare h).2 h (parseAddr_mapped h)
  port _ _ hport := .port (parseAddrPort_v4 h hport) (parseAddrPort_mapped h hport)

end Writings

structure NotForged (trusted : List Prefix) : Prop where
  untrusted : ∀ remoteAddr, (∀ peer, peerAddr remoteAddr = some peer →
    trustedProxy peer trusted = false) → ∀ values values',
      forwardedClientIP remoteAddr values trusted = forwardedClientIP remoteAddr values' trusted
  vouched : ∀ remoteAddr peer, peerAddr remoteAddr = some peer →
    trustedProxy peer trusted = true → ∀ values left suffix client,
      hops values = left ++ suffix → Vouched trusted suffix client →
        forwardedClientIP remoteAddr values trusted ∈ [client.string, peer.string]
  /-- A proxy appends to the line it got, and adds lines. -/
  appended : ∀ remoteAddr peer, peerAddr remoteAddr = some peer →
    trustedProxy peer trusted = true → ∀ before text line after client,
      Vouched trusted (hops (line :: after)) client →
        forwardedClientIP remoteAddr (before ++ (text ++ ',' :: line) :: after) trusted ∈
          [client.string, peer.string]
  mapped : ∀ remoteAddr remoteAddr' values values', MappedPeer remoteAddr remoteAddr' →
    List.Forall₂ MappedHop (hops values) (hops values') →
      forwardedClientIP remoteAddr values trusted = forwardedClientIP remoteAddr' values' trusted
  texts : ∀ text bits, parseAddr text = some (.v4 bits) → Texts text

/-- A client cannot forge its address. -/
theorem forwardedClientIP_notForged (trusted : List Prefix) : NotForged trusted where
  untrusted remoteAddr h values values' := by
    rw [forwardedClientIP_untrusted h, forwardedClientIP_untrusted h]
  vouched remoteAddr peer hpeer htrusted values left suffix client hhops h := by
    exact forwardedClientIP_mem hpeer htrusted hhops h
  appended remoteAddr peer hpeer htrusted before text line after client h := by
    exact forwardedClientIP_mem hpeer htrusted (hops_line before text line after) h
  mapped remoteAddr remoteAddr' values values' := forwardedClientIP_mapped
  texts text bits := texts_of_v4

theorem forwardedClientIP_notForged_chain :
    let trusted : List Prefix := [⟨.v4 0xc000020a, 32⟩, ⟨.v4 0xc000020b, 32⟩]
    let peer := "192.0.2.10:4444".toList
    let chain := ["203.0.113.99,198.51.100.7".toList, "192.0.2.11".toList]
    forwardedClientIP peer chain trusted ∈ ["198.51.100.7".toList, "192.0.2.10".toList] ∧
      (∀ text, forwardedClientIP peer [text ++ ',' :: "198.51.100.7".toList, "192.0.2.11".toList]
        trusted ∈ ["198.51.100.7".toList, "192.0.2.10".toList]) ∧
      forwardedClientIP peer chain trusted =
        forwardedClientIP "[::ffff:192.0.2.10]:4444".toList
          ["203.0.113.99,::ffff:198.51.100.7".toList, "::ffff:192.0.2.11".toList] trusted := by
  intro trusted peer chain
  have hpeer : peerAddr peer = some (.v4 0xc000020a) := by decide +kernel
  have htrusted : trustedProxy (.v4 0xc000020a) trusted = true := by decide
  have hclient : Vouched trusted ["198.51.100.7".toList, "192.0.2.11".toList]
      (.v4 0xc6336407) := by
    refine ⟨by decide +kernel, by decide, ?_⟩
    intro hop hhop
    obtain rfl := List.mem_singleton.mp hhop
    exact ⟨.v4 0xc000020b, by decide +kernel, by decide⟩
  have h := forwardedClientIP_notForged trusted
  have hstrings : [Addr.string (.v4 0xc6336407), Addr.string (.v4 0xc000020a)] =
      ["198.51.100.7".toList, "192.0.2.10".toList] := by decide +kernel
  rw [← hstrings]
  refine ⟨?_, ?_, ?_⟩
  · exact h.vouched peer _ hpeer htrusted chain ["203.0.113.99".toList] _ _ (by decide +kernel)
      hclient
  · intro text
    exact h.appended peer _ hpeer htrusted [] text _ ["192.0.2.11".toList] _ hclient
  · have hclientHop : MappedHop "198.51.100.7".toList "::ffff:198.51.100.7".toList :=
      (h.texts "198.51.100.7".toList 0xc6336407 (by decide +kernel)).hop _ _ rfl rfl
    have hproxyHop : MappedHop "192.0.2.11".toList "::ffff:192.0.2.11".toList :=
      (h.texts "192.0.2.11".toList 0xc000020b (by decide +kernel)).hop _ _ rfl rfl
    have hport := (h.texts "192.0.2.10".toList 0xc000020a (by decide +kernel)).port
      "4444".toList 4444 (by decide +kernel)
    exact h.mapped _ _ _ _ hport (.cons .same (.cons hclientHop (.cons hproxyHop .nil)))

/-- What is put to the left of a client's address is not believed. -/
example : forwardedClientIP "[::ffff:192.0.2.10]:4444".toList
    ["203.0.113.99, 198.51.100.7".toList, "::ffff:192.0.2.11".toList]
    [⟨.v4 0xc000020a, 32⟩, ⟨.v4 0xc000020b, 32⟩] = "198.51.100.7".toList := by
  decide +kernel

end Noted.Proxy
