import Noted.GoString
import Noted.Library.Netip

/-!
# URLs (net/url)

`Parse` and `ParseRequestURI` as Go's net/url defines them, as far as their
callers here look: the scheme, whether there is user information, the host and
the path, the last two as the bytes that percent-decoding gives.
-/

namespace Noted.Url

open Library

def ishex (c : Char) : Bool :=
  c.isDigit || ('a' ≤ c && c ≤ 'f') || ('A' ≤ c && c ≤ 'F')

def unhex (c : Char) : Nat :=
  if c.isDigit then c.toNat - '0'.toNat
  else if 'a' ≤ c && c ≤ 'f' then c.toNat - 'a'.toNat + 10
  else c.toNat - 'A'.toNat + 10

inductive Encoding
  | path
  | fragment
  | userPassword
  | host
  | zone
  deriving DecidableEq

def shouldEscapeHost (c : Char) : Bool :=
  !(c.isAlphanum || "!$&'()*+,;=:[]<>\"-_.~".toList.contains c)

def isHostMode (mode : Encoding) : Bool := mode == .host || mode == .zone

def forbiddenEscape (mode : Encoding) (a b : Char) : Bool :=
  match mode with
  | .host => unhex a < 8 && !(a == '2' && b == '5')
  | .zone =>
    !(a == '2' && b == '5') && unhex a * 16 + unhex b != 32 &&
      (128 ≤ unhex a * 16 + unhex b || shouldEscapeHost (Char.ofNat (unhex a * 16 + unhex b)))
  | _ => false

structure URL where
  scheme : Text
  hasUser : Bool
  host : Bytes
  path : Bytes
  deriving DecidableEq

def isSchemeLetter (c : Char) : Bool := c.isAlpha

def isSchemeRest (c : Char) : Bool := c.isDigit || c == '+' || c == '-' || c == '.'

def schemeChar (c : Char) : Bool := isSchemeLetter c || isSchemeRest c

def validOptionalPort (port : Text) : Bool :=
  match port with
  | [] => true
  | c :: digits => c == ':' && digits.all Char.isDigit

def validUserinfo (t : Text) : Bool :=
  t.all fun c => c.isAlphanum || "-._:~!$&'()*+,;=%@".toList.contains c

def isControl (c : Char) : Bool := c.toNat < 0x20 || c.toNat == 0x7F

def containsCTL (t : Text) : Bool := t.any isControl

def lowerASCII (t : Text) : Text := t.map Char.toLower

section Parsing

variable {α : Type} [Letter α]

open Letter (char)

def unescape (mode : Encoding) : List α → Option Bytes
  | [] => some []
  | c :: cs =>
    if char c = '%' then
      match cs with
      | a :: b :: rest =>
        if ishex (char a) && ishex (char b) && !forbiddenEscape mode (char a) (char b) then
          (unescape mode rest).map (UInt8.ofNat (unhex (char a) * 16 + unhex (char b)) :: ·)
        else none
      | _ => none
    else if isHostMode mode && (char c).toNat < 128 && shouldEscapeHost (char c) then none
    else (unescape mode cs).map (Letter.bytes c ++ ·)

/-- `getScheme`: the scheme and the rest, or `none` for a missing scheme. -/
def getScheme (raw : List α) : Option (Text × List α) :=
  let head := asText (raw.takeWhile fun c => schemeChar (char c))
  match raw.dropWhile fun c => schemeChar (char c) with
  | [] => some ([], raw)
  | colon :: rest =>
    if char colon = ':' then
      match head with
      | [] => none
      | c :: _ => if isSchemeRest c then some ([], raw) else some (head, rest)
    else some ([], raw)

def cutLast (c : Char) (t : List α) : Option (List α × List α) :=
  if (asText t).contains c then
    some ((t.reverse.dropWhile (char · ≠ c)).tail.reverse,
      (t.reverse.takeWhile (char · ≠ c)).reverse)
  else none

def cutZone : List α → Option (List α × List α)
  | [] => none
  | c :: cs =>
    if "%25".toList.isPrefixOf (asText (c :: cs)) then some ([], c :: cs)
    else (cutZone cs).map fun p => (c :: p.1, p.2)

/-- `netip.ParseAddr` gives an address that is not `Is4`. -/
def isIPv6 (host : Bytes) : Bool :=
  match Netip.parseAddr (host.map fun b => Char.ofNat b.toNat) with
  | some (.v6 _ _) => true
  | _ => false

/-- What stands in brackets, its zone from `%25` on. -/
def unescapeLiteral (literal : List α) : Option Bytes :=
  match cutZone literal with
  | none => unescape .host literal
  | some (address, zone) => do
    let address ← unescape .host address
    let zone ← unescape .zone zone
    pure (address ++ zone)

/-- The port of a host that is not in brackets, with its colon: PostgreSQL's hosts may
have more than one. -/
def colonPort (scheme host : Text) : Text :=
  if scheme = "postgresql".toList ∨ scheme = "postgres".toList then
    match cutLast ':' host with
    | none => []
    | some (_, port) => ':' :: port
  else host.dropWhile (· ≠ ':')

def parseHost (scheme : Text) (host : List α) : Option Bytes :=
  if (asText host).tail.contains '[' then none
  else if (asText host).head? = some '[' then
    match cutLast ']' host with
    | none => none
    | some (literal, port) =>
      if validOptionalPort (asText port) then do
        let port ← unescape .host port
        let hostname ← (unescapeLiteral literal.tail).filter isIPv6
        pure (utf8 ['['] ++ hostname ++ utf8 [']'] ++ port)
      else none
  else if validOptionalPort (colonPort scheme (asText host)) then unescape .host host
  else none

def parseAuthority (scheme : Text) (authority : List α) : Option (Bool × Bytes) :=
  match cutLast '@' authority with
  | none => (parseHost scheme authority).map ((false, ·))
  | some (userinfo, host) => do
    let host ← parseHost scheme host
    let name := userinfo.takeWhile (char · ≠ ':')
    let password := userinfo.drop (name.length + 1)
    if validUserinfo (asText userinfo) && (unescape .userPassword name).isSome &&
        (unescape .userPassword password).isSome then
      pure (true, host)
    else none

def parse (raw : List α) (viaRequest : Bool) : Option URL :=
  if containsCTL (asText raw) then none
  else if asText raw = [] ∧ viaRequest then none
  else if asText raw = "*".toList then some ⟨[], false, [], utf8 "*".toList⟩
  else do
    let (scheme, rest) ← getScheme raw
    let rest := rest.takeWhile (char · ≠ '?')
    if !"/".toList.isPrefixOf (asText rest) && scheme ≠ [] then
      pure ⟨lowerASCII scheme, false, [], []⟩
    else if !"/".toList.isPrefixOf (asText rest) && viaRequest then none
    else if !"/".toList.isPrefixOf (asText rest) &&
        ((asText rest).takeWhile (· ≠ '/')).contains ':' then none
    else if (scheme ≠ [] ∨ (!viaRequest && !"///".toList.isPrefixOf (asText rest))) ∧
        "//".toList.isPrefixOf (asText rest) then do
      let authority := (rest.drop 2).takeWhile (char · ≠ '/')
      let (hasUser, host) ← parseAuthority (lowerASCII scheme) authority
      let path ← unescape .path ((rest.drop 2).dropWhile (char · ≠ '/'))
      pure ⟨lowerASCII scheme, hasUser, host, path⟩
    else do
      let path ← unescape .path rest
      pure ⟨lowerASCII scheme, false, [], path⟩

/-- `Parse`: the fragment is cut off first. -/
def Parse (raw : List α) : Option URL := do
  let url ← parse (raw.takeWhile (char · ≠ '#')) false
  let _ ← unescape .fragment ((raw.dropWhile (char · ≠ '#')).drop 1)
  pure url

def ParseRequestURI (raw : List α) : Option URL := parse raw true

def rawQuery (raw : List α) : List α :=
  ((raw.takeWhile (char · ≠ '#')).dropWhile (char · ≠ '?')).drop 1

def fragment (raw : List α) : List α := (raw.dropWhile (char · ≠ '#')).drop 1

end Parsing

def URL.hostname (url : URL) : Bytes :=
  let colon := UInt8.ofNat ':'.toNat
  let port := url.host.reverse.takeWhile (· ≠ colon)
  let host :=
    if url.host.contains colon && port.all (fun b => 48 ≤ b && b ≤ 57) then
      (url.host.reverse.drop (port.length + 1)).reverse
    else url.host
  if host.head? = some (UInt8.ofNat '['.toNat) ∧ host.getLast? = some (UInt8.ofNat ']'.toNat) then
    host.tail.dropLast
  else host

example : (Parse "http://a:80:80/".toList, Parse "http://[zz]/".toList,
    Parse "http://[1.2.3.4]/".toList) = (none, none, none) := by decide +kernel

section Escapes

section Letters

variable {α : Type} [Letter α] {mode : Encoding} {c : α}

open Letter (char)

theorem unescape_letter (hc : char c ≠ '%') (cs : List α) : unescape mode (c :: cs) =
    if isHostMode mode && (char c).toNat < 128 && shouldEscapeHost (char c) then none
    else (unescape mode cs).map (Letter.bytes c ++ ·) := by
  match cs with
  | [] | [_] | _ :: _ :: _ => simp [unescape, hc]

theorem unescape_percent (hc : char c = '%') (a b : α) (rest : List α) :
    unescape mode (c :: a :: b :: rest) =
      if ishex (char a) && ishex (char b) && !forbiddenEscape mode (char a) (char b) then
        (unescape mode rest).map (UInt8.ofNat (unhex (char a) * 16 + unhex (char b)) :: ·)
      else none := by
  rw [unescape, if_pos hc]

theorem unescape_short (hc : char c = '%') {cs : List α} (hcs : cs.length < 2) :
    unescape mode (c :: cs) = none := by
  match cs with
  | [] | [_] => simp [unescape, hc]

end Letters

theorem unescape_cons {c : Char} (hc : c ≠ '%') (cs : Text) :
    (unescape .path (c :: cs)).isSome = (unescape .path cs).isSome := by
  rw [unescape_letter hc]
  simp [isHostMode]

theorem unescape_escape (a b : Char) (rest : Text) :
    (unescape .path ('%' :: a :: b :: rest)).isSome =
      (ishex a && ishex b && (unescape .path rest).isSome) := by
  rw [unescape_percent rfl]
  cases hhex : ishex a && ishex b <;> simp [forbiddenEscape, hhex]

theorem unescape_fragment (t : Text) : unescape .fragment t = unescape .path t := by
  induction hlen : t.length using Nat.strong_induction_on generalizing t with
  | _ n ih =>
  match t with
  | [] => rfl
  | c :: cs =>
    by_cases hc : c = '%'
    · subst hc
      match cs with
      | a :: b :: rest =>
        rw [unescape_percent rfl, unescape_percent rfl, ih rest.length (by simp at hlen; omega) rest rfl]
        rfl
      | [a] => simp [unescape]
      | [] => simp [unescape]
    · rw [unescape_letter hc, unescape_letter hc, ih cs.length (by simp at hlen; omega) cs rfl]
      rfl

theorem unescape_prefix {a b : Text} (hb : ∀ c ∈ b.head?, ishex c = false)
    (h : (unescape .path (a ++ b)).isSome = true) : (unescape .path a).isSome = true := by
  induction hlen : a.length using Nat.strong_induction_on generalizing a with
  | _ n ih =>
  match a with
  | [] => rfl
  | c :: cs =>
    by_cases hc : c = '%'
    · subst hc
      match cs with
      | x :: y :: rest =>
        rw [List.cons_append, List.cons_append, List.cons_append, unescape_escape,
          Bool.and_eq_true] at h
        rw [unescape_escape, Bool.and_eq_true]
        exact ⟨h.1, ih rest.length (by simp at hlen; omega) h.2 rfl⟩
      | [x] =>
        cases b with
        | nil => simpa using h
        | cons y rest =>
          have hy := hb y (by simp)
          rw [List.cons_append, List.cons_append, List.nil_append, unescape_escape] at h
          simp [hy] at h
      | [] =>
        match b with
        | [] => simpa using h
        | [x] => simp [unescape] at h
        | x :: y :: rest =>
          have hx := hb x (by simp)
          rw [List.cons_append, List.nil_append, unescape_escape] at h
          simp [hx] at h
    · rw [List.cons_append, unescape_cons hc] at h
      rw [unescape_cons hc]
      exact ih cs.length (by simp at hlen; omega) h rfl

theorem unescape_append {a b : Text} (ha : (unescape .path a).isSome = true)
    (hb : (unescape .path b).isSome = true) : (unescape .path (a ++ b)).isSome = true := by
  induction hlen : a.length using Nat.strong_induction_on generalizing a with
  | _ n ih =>
  match a with
  | [] => exact hb
  | c :: cs =>
    by_cases hc : c = '%'
    · subst hc
      match cs with
      | x :: y :: rest =>
        rw [unescape_escape, Bool.and_eq_true] at ha
        rw [List.cons_append, List.cons_append, List.cons_append, unescape_escape, Bool.and_eq_true]
        exact ⟨ha.1, ih rest.length (by simp at hlen; omega) ha.2 rfl⟩
      | [x] => simp [unescape] at ha
      | [] => simp [unescape] at ha
    · rw [unescape_cons hc] at ha
      rw [List.cons_append, unescape_cons hc]
      exact ih cs.length (by simp at hlen; omega) ha rfl

end Escapes

section Requests

theorem getScheme_eq {raw scheme rest : Text} (h : getScheme raw = some (scheme, rest))
    (hne : scheme ≠ []) : raw = scheme ++ ':' :: rest ∧ (∀ c ∈ scheme, schemeChar c = true) ∧
      ∀ c ∈ scheme.head?, isSchemeRest c = false := by
  unfold getScheme at h
  simp only [char_char, asText_text] at h
  have hsplit := List.takeWhile_append_dropWhile (p := schemeChar) (l := raw)
  have hall : ∀ c ∈ raw.takeWhile schemeChar, schemeChar c = true := fun c hc =>
    List.mem_takeWhile_imp hc
  generalize raw.takeWhile schemeChar = head at h hsplit hall
  generalize raw.dropWhile schemeChar = tail at h hsplit
  have hnone : some ([], raw) ≠ some (scheme, rest) := fun heq =>
    hne (Prod.mk.inj (Option.some.inj heq)).1.symm
  split at h
  · exact absurd h hnone
  split_ifs at h with hcolon
  · split at h
    · cases h
    · split_ifs at h with hc
      · exact absurd h hnone
      · obtain ⟨rfl, rfl⟩ := Prod.mk.inj (Option.some.inj h)
        subst hcolon
        exact ⟨hsplit.symm, hall, by simpa using hc⟩
  · exact absurd h hnone

theorem getScheme_append {scheme : Text} (hne : scheme ≠ [])
    (hall : ∀ c ∈ scheme, schemeChar c = true) (hhead : ∀ c ∈ scheme.head?, isSchemeRest c = false)
    (rest : Text) : getScheme (scheme ++ ':' :: rest) = some (scheme, rest) := by
  have hcolon : schemeChar ':' = false := by decide
  have htake : (scheme ++ ':' :: rest).takeWhile schemeChar = scheme := by
    rw [List.takeWhile_append_of_pos hall, List.takeWhile_cons_of_neg (by simp [hcolon]),
      List.append_nil]
  have hdrop : (scheme ++ ':' :: rest).dropWhile schemeChar = ':' :: rest := by
    rw [List.dropWhile_append_of_pos hall, List.dropWhile_cons_of_neg (by simp [hcolon])]
  unfold getScheme
  simp only [char_char, asText_text, htake, hdrop, if_true]
  cases scheme with
  | nil => exact absurd rfl hne
  | cons c cs => simp [hhead c (by simp)]

/-- What `parse` found in a reference with a scheme and a host. -/
structure Parsed (raw : Text) (url : URL) (scheme authority path query : Text) : Prop where
  raw_eq : raw = scheme ++ ':' :: '/' :: '/' :: (authority ++ (path ++ query))
  scheme_ne : scheme ≠ []
  scheme_all : ∀ c ∈ scheme, schemeChar c = true
  scheme_head : ∀ c ∈ scheme.head?, isSchemeRest c = false
  scheme_lower : url.scheme = lowerASCII scheme
  authority_all : ∀ c ∈ authority, c ≠ '/' ∧ c ≠ '?'
  authority_eq : parseAuthority (lowerASCII scheme) authority = some (url.hasUser, url.host)
  path_all : ∀ c ∈ path, c ≠ '?'
  path_head : path = [] ∨ path.head? = some '/'
  path_eq : unescape .path path = some url.path
  query_head : query = [] ∨ query.head? = some '?'

theorem head?_dropWhile {p : Char → Bool} {t : Text} {c : Char} (hp : ∀ d, p d = false → d = c) :
    t.dropWhile p = [] ∨ (t.dropWhile p).head? = some c := by
  cases h : t.dropWhile p with
  | nil => exact Or.inl rfl
  | cons d ds =>
    right
    have hd := head?_dropWhile_not (p := p) (t := t) d (by simp [h])
    simp [hp d hd]

/-- A reference with a scheme and a host is taken apart at its delimiters. -/
theorem parse_parsed {raw : Text} {url : URL} {viaRequest : Bool}
    (h : parse raw viaRequest = some url) (hscheme : url.scheme ≠ []) (hhost : url.host ≠ []) :
    ∃ scheme authority path query, Parsed raw url scheme authority path query := by
  unfold parse at h
  simp only [asText_text, char_char] at h
  split at h
  · cases h
  split at h
  · cases h
  split at h
  · obtain rfl := Option.some.inj h
    exact absurd rfl hscheme
  obtain ⟨⟨scheme, rest⟩, hget, h⟩ := Option.bind_eq_some_iff.mp h
  dsimp only at h
  have hlower : scheme = [] → lowerASCII scheme = [] := by
    rintro rfl
    rfl
  split at h
  · obtain rfl := Option.some.inj h
    exact absurd rfl hhost
  split at h
  · cases h
  split at h
  · cases h
  split at h
  · rename_i hslashes
    obtain ⟨⟨hasUser, host⟩, hauthority, h⟩ := Option.bind_eq_some_iff.mp h
    obtain ⟨path, hpath, h⟩ := Option.bind_eq_some_iff.mp h
    obtain rfl := Option.some.inj h
    have hne : scheme ≠ [] := fun he => hscheme (hlower he)
    obtain ⟨hraw, hall, hhead⟩ := getScheme_eq hget hne
    obtain ⟨r, hr⟩ : ∃ r, rest.takeWhile (· ≠ '?') = '/' :: '/' :: r := by
      obtain ⟨r, hr⟩ := List.isPrefixOf_iff_prefix.mp hslashes.2
      exact ⟨r, hr.symm⟩
    rw [hr] at hauthority hpath
    refine ⟨scheme, r.takeWhile (· ≠ '/'), r.dropWhile (· ≠ '/'), rest.dropWhile (· ≠ '?'), ?_⟩
    have hquery : ∀ c ∈ rest.takeWhile (· ≠ '?'), c ≠ '?' := by
      intro c hc
      simpa using List.mem_takeWhile_imp hc
    refine ⟨?_, hne, hall, hhead, rfl, ?_, hauthority, ?_, ?_, hpath, ?_⟩
    · have hrest := List.takeWhile_append_dropWhile (p := (· ≠ '?')) (l := rest)
      rw [hr] at hrest
      rw [hraw, ← List.append_assoc (r.takeWhile _), List.takeWhile_append_dropWhile]
      simpa using hrest.symm
    · intro c hc
      refine ⟨by simpa using List.mem_takeWhile_imp hc, hquery c ?_⟩
      rw [hr]
      simp [(List.takeWhile_prefix _).subset hc]
    · intro c hc
      refine hquery c ?_
      rw [hr]
      simp [(List.dropWhile_suffix _).subset hc]
    · exact head?_dropWhile (by simp)
    · exact head?_dropWhile (by simp)
  · obtain ⟨path, hpath, h⟩ := Option.bind_eq_some_iff.mp h
    obtain rfl := Option.some.inj h
    exact absurd rfl hhost

theorem parse_composed {scheme authority path query : Text} {hasUser : Bool} {host : List UInt8}
    {viaRequest : Bool} (hctl : containsCTL (scheme ++ ':' :: '/' :: '/' ::
      (authority ++ ('/' :: path ++ query))) = false)
    (hne : scheme ≠ []) (hall : ∀ c ∈ scheme, schemeChar c = true)
    (hhead : ∀ c ∈ scheme.head?, isSchemeRest c = false)
    (hauthority : ∀ c ∈ authority, c ≠ '/' ∧ c ≠ '?')
    (hparse : parseAuthority (lowerASCII scheme) authority = some (hasUser, host)) (hpath : ∀ c ∈ path, c ≠ '?')
    (hescapes : (unescape .path ('/' :: path)).isSome = true)
    (hquery : query = [] ∨ query.head? = some '?') :
    ∃ bytes, parse (scheme ++ ':' :: '/' :: '/' :: (authority ++ ('/' :: path ++ query)))
      viaRequest = some ⟨lowerASCII scheme, hasUser, host, bytes⟩ := by
  obtain ⟨bytes, hbytes⟩ := Option.isSome_iff_exists.mp hescapes
  refine ⟨bytes, ?_⟩
  have hrest : ('/' :: '/' :: (authority ++ ('/' :: path ++ query))).takeWhile (· ≠ '?') =
      '/' :: '/' :: (authority ++ '/' :: path) := by
    have hstop : query.takeWhile (· ≠ '?') = [] := by
      rcases hquery with rfl | hq
      · rfl
      · cases query with
        | nil => rfl
        | cons c cs => simp at hq; simp [hq]
    have hkeep : ∀ c ∈ '/' :: '/' :: (authority ++ '/' :: path), decide (c ≠ '?') = true := by
      intro c hc
      simp only [List.mem_cons, List.mem_append] at hc
      rcases hc with rfl | rfl | hc | rfl | hc
      · decide
      · decide
      · simpa using (hauthority c hc).2
      · decide
      · simpa using hpath c hc
    have hassoc : '/' :: '/' :: (authority ++ ('/' :: path ++ query)) =
        ('/' :: '/' :: (authority ++ '/' :: path)) ++ query := by simp
    rw [hassoc, List.takeWhile_append_of_pos hkeep, hstop, List.append_nil]
  have hauth : (authority ++ '/' :: path).takeWhile (· ≠ '/') = authority := by
    rw [List.takeWhile_append_of_pos fun c hc => by simpa using (hauthority c hc).1]
    simp
  have hrestpath : (authority ++ '/' :: path).dropWhile (· ≠ '/') = '/' :: path := by
    rw [List.dropWhile_append_of_pos fun c hc => by simpa using (hauthority c hc).1]
    simp
  have hnil : scheme ++ ':' :: '/' :: '/' :: (authority ++ ('/' :: path ++ query)) ≠ [] := by simp
  have hstar : scheme ++ ':' :: '/' :: '/' :: (authority ++ ('/' :: path ++ query)) ≠
      "*".toList := by
    intro heq
    have hlen := congrArg List.length heq
    simp at hlen
    omega
  simp only [ne_eq, decide_not] at hauth hrestpath
  unfold parse
  simp only [asText_text, char_char]
  rw [if_neg (by rw [hctl]; simp), if_neg (fun h => hnil h.1), if_neg hstar,
    getScheme_append hne hall hhead]
  simp only [Option.bind_eq_bind, Option.bind_some, hrest]
  simp [hne, hauth, hrestpath, hparse, hbytes, List.isPrefixOf]

theorem rdropWhile_append_cons {p : Char → Bool} (a b : Text) {c : Char} (hc : p c = false) :
    (a ++ c :: b).rdropWhile p = a ++ c :: b.rdropWhile p := by
  simp only [List.rdropWhile, List.reverse_append, List.reverse_cons, List.append_assoc]
  rw [List.dropWhile_append]
  split
  · rename_i h
    rw [List.singleton_append, List.dropWhile_cons_of_neg (by simp [hc])]
    simp only [List.isEmpty_iff] at h
    simp [h]
  · simp

theorem schemeLetter_not_space {c : Char} (h : isSchemeLetter c = true) : goSpace c = false := by
  have hval : c.toNat = c.val.toNat := rfl
  have hlow : 65 ≤ c.toNat ∧ c.toNat ≤ 122 := by
    simp only [isSchemeLetter, Char.isAlpha, Char.isUpper, Char.isLower, Bool.or_eq_true,
      Bool.and_eq_true, decide_eq_true_iff, UInt32.le_iff_toNat_le] at h
    simp at h
    omega
  have hnl : c ≠ nextLine := by
    rintro rfl
    simp [nextLine] at hlow
  simp [goSpace, sharedSpace, hnl]
  omega

theorem space_not_hex {c : Char} (h : goSpace c = true) : ishex c = false := by
  rw [Bool.eq_false_iff]
  intro hx
  have hval : c.toNat = c.val.toNat := rfl
  have hrange : 48 ≤ c.toNat ∧ c.toNat ≤ 102 := by
    simp only [ishex, Char.isDigit, Bool.or_eq_true, Bool.and_eq_true, decide_eq_true_iff,
      UInt32.le_iff_toNat_le, Char.le_def] at hx
    simp at hx
    omega
  have hnl : c ≠ nextLine := by
    rintro rfl
    simp [nextLine] at hrange
  simp [goSpace, sharedSpace, hnl] at h
  omega

theorem unescape_trimmed {path query fragment : Text}
    (hpath : (unescape .path path).isSome = true) (hquery : query = [] ∨ query.head? = some '?')
    (hpathall : ∀ c ∈ path, c ≠ '?') (hfragment : (unescape .path (fragment.drop 1)).isSome = true)
    (hmark : fragment = [] ∨ fragment.head? = some '#') :
    (unescape .path (((path ++ (query ++ fragment)).rdropWhile goSpace).takeWhile (· ≠ '?'))).isSome =
      true := by
  have hwhole : (unescape .path ((path ++ (query ++ fragment)).takeWhile (· ≠ '?'))).isSome = true := by
    rw [List.takeWhile_append_of_pos fun c hc => by simpa using hpathall c hc]
    cases query with
    | cons c cs =>
      obtain rfl : c = '?' := by simpa using hquery
      simpa using hpath
    | nil =>
      cases fragment with
      | nil => simpa using hpath
      | cons c cs =>
        obtain rfl : c = '#' := by simpa using hmark
        refine unescape_append hpath ?_
        rw [List.nil_append, List.takeWhile_cons_of_pos (by decide), unescape_cons (by decide)]
        have hsplit := List.takeWhile_append_dropWhile (p := (· ≠ '?')) (l := cs)
        refine unescape_prefix (b := cs.dropWhile (· ≠ '?')) ?_ (by rw [hsplit]; simpa using hfragment)
        intro d hd
        have hd' := head?_dropWhile_not d hd
        obtain rfl : d = '?' := by simpa using hd'
        decide
  generalize path ++ (query ++ fragment) = t at hwhole ⊢
  have hsplit : t = t.rdropWhile goSpace ++ t.rtakeWhile goSpace := by
    simp [List.rdropWhile, List.rtakeWhile, ← List.reverse_append]
  by_cases hq : ∀ c ∈ t.rdropWhile goSpace, c ≠ '?'
  · have hall : (t.rdropWhile goSpace).takeWhile (· ≠ '?') = t.rdropWhile goSpace :=
      List.takeWhile_eq_self_iff.mpr fun c hc => by simpa using hq c hc
    rw [hall]
    rw [hsplit, List.takeWhile_append_of_pos fun c hc => by simpa using hq c hc] at hwhole
    refine unescape_prefix ?_ hwhole
    intro c hc
    refine space_not_hex ?_
    have hmem : c ∈ t.rtakeWhile goSpace :=
      (List.takeWhile_prefix _).subset (List.mem_of_mem_head? hc)
    exact List.mem_takeWhile_imp (List.mem_reverse.mp hmem)
  · have hsame : t.takeWhile (· ≠ '?') = (t.rdropWhile goSpace).takeWhile (· ≠ '?') := by
      conv_lhs => rw [hsplit]
      rw [List.takeWhile_append, if_neg]
      intro hlen
      refine hq fun c hc => ?_
      have heq : (t.rdropWhile goSpace).takeWhile (· ≠ '?') = t.rdropWhile goSpace :=
        (List.takeWhile_prefix _).eq_of_length hlen
      rw [← heq] at hc
      simpa using List.mem_takeWhile_imp hc
    rw [← hsame]
    exact hwhole

/-- A link that `Parse` takes apart into scheme, host and path is a valid request
link once trimmed, unless it holds a control character: `Parse` looks for those
before the fragment only. -/
theorem parseRequestURI_of_Parse {v : Text} {url : URL} (h : Parse v = some url)
    (hscheme : url.scheme ≠ []) (hhost : url.host ≠ []) (hpath : url.path ≠ [])
    (hctl : containsCTL (trimSpace v) = false) :
    ∃ bytes, ParseRequestURI (trimSpace v) =
      some ⟨url.scheme, url.hasUser, url.host, bytes⟩ := by
  simp only [Parse, char_char] at h
  obtain ⟨found, hparse, h⟩ := Option.bind_eq_some_iff.mp h
  obtain ⟨fragment, hfragment, h⟩ := Option.bind_eq_some_iff.mp h
  obtain rfl := Option.some.inj h
  obtain ⟨scheme, authority, path, query, hp⟩ := parse_parsed hparse hscheme hhost
  have hv := List.takeWhile_append_dropWhile (p := (· ≠ '#')) (l := v)
  have hmark : v.dropWhile (· ≠ '#') = [] ∨ (v.dropWhile (· ≠ '#')).head? = some '#' :=
    head?_dropWhile (by simp)
  rw [unescape_fragment] at hfragment
  obtain ⟨p, rfl⟩ : ∃ p, path = '/' :: p := by
    rcases hp.path_head with rfl | hhead
    · have heq := hp.path_eq
      simp [unescape] at heq
      exact absurd heq.symm fun he => hpath he.symm
    · cases path with
      | nil => simp at hhead
      | cons c cs => exact ⟨cs, by simpa using hhead⟩
  have hfirst : ∃ c cs, scheme = c :: cs ∧ goSpace c = false := by
    cases hs : scheme with
    | nil => exact absurd hs hp.scheme_ne
    | cons c cs =>
      refine ⟨c, cs, rfl, schemeLetter_not_space ?_⟩
      have hall := hp.scheme_all c (by simp [hs])
      have hrest := hp.scheme_head c (by simp [hs])
      simpa [schemeChar, hrest] using hall
  have hpsome : (unescape .path p).isSome = true := by
    rw [← unescape_cons (by decide : '/' ≠ '%'), hp.path_eq]
    rfl
  have htrim : trimSpace v = scheme ++ ':' :: '/' :: '/' :: (authority ++ '/' ::
      ((p ++ (query ++ v.dropWhile (· ≠ '#'))).rdropWhile goSpace)) := by
    obtain ⟨c, cs, rfl, hc⟩ := hfirst
    have hveq : v = (c :: cs ++ ':' :: '/' :: '/' :: authority) ++ '/' ::
        (p ++ (query ++ v.dropWhile (· ≠ '#'))) := by
      conv_lhs => rw [← hv, hp.raw_eq]
      simp
    have hdrop : v.dropWhile goSpace = v := by
      rw [hveq, List.cons_append, List.cons_append]
      exact List.dropWhile_cons_of_neg (by simp [hc])
    rw [trimSpace, trimBy, hdrop]
    conv_lhs => rw [hveq]
    rw [rdropWhile_append_cons _ _ (by decide)]
    simp
  have hescapes := unescape_trimmed hpsome hp.query_head
    (fun c hc => hp.path_all c (by simp [hc])) (by rw [hfragment]; rfl) hmark
  rw [htrim] at hctl ⊢
  generalize (p ++ (query ++ v.dropWhile (· ≠ '#'))).rdropWhile goSpace = q at hctl hescapes ⊢
  have hq := List.takeWhile_append_dropWhile (p := (· ≠ '?')) (l := q)
  have hcomposed : '/' :: q = '/' :: q.takeWhile (· ≠ '?') ++ q.dropWhile (· ≠ '?') := by
    rw [List.cons_append, hq]
  rw [hcomposed] at hctl ⊢
  rw [hp.scheme_lower]
  refine parse_composed hctl hp.scheme_ne hp.scheme_all hp.scheme_head hp.authority_all
    hp.authority_eq ?_ ?_ (head?_dropWhile (by simp))
  · intro c hc
    simpa using List.mem_takeWhile_imp hc
  · rw [unescape_cons (by decide)]
    exact hescapes

end Requests

section Runes

variable {mode : Encoding} {scheme : Text} {t raw : GoString} {bytes : Bytes}

/-- The bytes of a part of a string, and those of the same part of its text. -/
structure Similar (a b : Bytes) : Prop where
  ascii : (∀ x ∈ a, x < 0x80) → b = a
  ne_nil : a ≠ [] → b ≠ []

theorem Similar.append {a b a' b' : Bytes} (h : Similar a b) (h' : Similar a' b') :
    Similar (a ++ a') (b ++ b') := by
  refine ⟨?_, ?_⟩
  · intro hascii
    rw [h.ascii fun x hx => hascii x (List.mem_append_left _ hx),
      h'.ascii fun x hx => hascii x (List.mem_append_right _ hx)]
  · intro hne hnil
    obtain ⟨hb, hb'⟩ := List.append_eq_nil_iff.mp hnil
    refine hne (List.append_eq_nil_iff.mpr ⟨?_, ?_⟩)
    · exact not_not.mp fun ha => h.ne_nil ha hb
    · exact not_not.mp fun ha => h'.ne_nil ha hb'

theorem Similar.refl (a : Bytes) : Similar a a := ⟨fun _ => rfl, id⟩

theorem similar_bytes (r : Rune) : Similar (Letter.bytes r) (String.utf8EncodeChar (Letter.char r)) := by
  refine ⟨?_, fun _ => String.utf8EncodeChar_ne_nil⟩
  intro h
  cases r with
  | char c => rfl
  | byte b => exact absurd (h b.1 (List.mem_singleton_self _)) (UInt8.not_lt.mpr b.2)

theorem unescape_similar (h : unescape mode t = some bytes) :
    ∃ read, unescape mode (asText t) = some read ∧ Similar bytes read := by
  induction hlen : t.length using Nat.strong_induction_on generalizing t bytes with
  | _ n ih =>
  match t with
  | [] => exact ⟨bytes, h, .refl bytes⟩
  | c :: cs =>
    by_cases hc : Letter.char c = '%'
    · match cs with
      | a :: b :: rest =>
        rw [unescape_percent hc] at h
        split_ifs at h with hhex
        obtain ⟨decoded, hdecoded, rfl⟩ := Option.map_eq_some_iff.mp h
        obtain ⟨read, hread, hsimilar⟩ := ih rest.length (by simp at hlen; omega) hdecoded rfl
        refine ⟨_, ?_, Similar.append (.refl [_]) hsimilar⟩
        simp only [asText_cons]
        rw [unescape_percent (by exact hc), if_pos (by exact hhex), hread]
        rfl
      | [a] =>
        rw [unescape_short hc (by simp)] at h
        cases h
      | [] =>
        rw [unescape_short hc (by simp)] at h
        cases h
    · rw [unescape_letter hc] at h
      split_ifs at h with hescape
      obtain ⟨decoded, hdecoded, rfl⟩ := Option.map_eq_some_iff.mp h
      obtain ⟨read, hread, hsimilar⟩ := ih cs.length (by simp at hlen; omega) hdecoded rfl
      refine ⟨_, ?_, (similar_bytes c).append hsimilar⟩
      rw [asText_cons, unescape_letter (by exact hc), if_neg (by exact hescape), hread]
      rfl

theorem unescape_asText (h : unescape mode t = some bytes) (hascii : ∀ b ∈ bytes, b < 0x80) :
    unescape mode (asText t) = some bytes := by
  obtain ⟨read, hread, hsimilar⟩ := unescape_similar h
  rw [hread, hsimilar.ascii hascii]

theorem cutLast_asText (c : Char) (t : GoString) :
    cutLast c (asText t) = (cutLast c t).map (Prod.map asText asText) := by
  unfold cutLast
  simp only [asText_text, char_char]
  split_ifs
  · simp only [Option.map_some, Prod.map, asText_reverse, asText_tail,
      asText_dropWhile fun d => decide (d ≠ c), asText_takeWhile fun d => decide (d ≠ c)]
  · rfl

theorem cutZone_asText (t : GoString) :
    cutZone (asText t) = (cutZone t).map (Prod.map asText asText) := by
  induction t with
  | nil => rfl
  | cons c cs ih =>
    rw [cutZone, asText_cons, cutZone, ih]
    simp only [asText_text, asText_cons, char_char]
    split_ifs
    · rfl
    · cases cutZone cs <;> rfl

theorem unescapeLiteral_asText (h : unescapeLiteral t = some bytes)
    (hascii : ∀ b ∈ bytes, b < 0x80) : unescapeLiteral (asText t) = some bytes := by
  unfold unescapeLiteral at h ⊢
  rw [cutZone_asText]
  cases hcut : cutZone t with
  | none =>
    simp only [hcut] at h
    exact unescape_asText h hascii
  | some parts =>
    simp only [hcut] at h
    obtain ⟨address, haddress, h⟩ := Option.bind_eq_some_iff.mp h
    obtain ⟨zone, hzone, h⟩ := Option.bind_eq_some_iff.mp h
    obtain rfl := Option.some.inj h
    have haddress := unescape_asText haddress fun b hb => hascii b (List.mem_append_left _ hb)
    have hzone := unescape_asText hzone fun b hb => hascii b (List.mem_append_right _ hb)
    simp [haddress, hzone]

theorem parseHost_asText (h : parseHost scheme t = some bytes) (hascii : ∀ b ∈ bytes, b < 0x80) :
    parseHost scheme (asText t) = some bytes := by
  unfold parseHost at h ⊢
  rw [asText_text, cutLast_asText]
  split_ifs at h ⊢ with hmid hfirst hport
  · cases hcut : cutLast ']' t with
    | none => simp [hcut] at h
    | some parts =>
      obtain ⟨literal, port⟩ := parts
      simp only [hcut] at h
      split_ifs at h with hport
      obtain ⟨digits, hdigits, h⟩ := Option.bind_eq_some_iff.mp h
      obtain ⟨hostname, hhostname, h⟩ := Option.bind_eq_some_iff.mp h
      obtain rfl := Option.some.inj h
      obtain ⟨hhostname, hipv6⟩ := Option.filter_eq_some_iff.mp hhostname
      have hdigits := unescape_asText hdigits fun b hb => hascii b (List.mem_append_right _ hb)
      have hhostname := unescapeLiteral_asText hhostname fun b hb => hascii b (by simp [hb])
      rw [asText_tail] at hhostname
      simp [hport, hdigits, hhostname, hipv6, Option.filter]
  · exact unescape_asText h hascii

theorem parseAuthority_asText {hasUser : Bool} (h : parseAuthority scheme t = some (hasUser, bytes))
    (hascii : ∀ b ∈ bytes, b < 0x80) : parseAuthority scheme (asText t) = some (hasUser, bytes) := by
  unfold parseAuthority at h ⊢
  rw [cutLast_asText]
  cases hcut : cutLast '@' t with
  | none =>
    simp only [hcut] at h
    obtain ⟨host, hhost, h⟩ := Option.map_eq_some_iff.mp h
    obtain ⟨rfl, rfl⟩ := Prod.mk.inj h
    simp [parseHost_asText hhost hascii]
  | some parts =>
    obtain ⟨userinfo, host⟩ := parts
    simp only [hcut] at h
    obtain ⟨found, hfound, h⟩ := Option.bind_eq_some_iff.mp h
    split_ifs at h with huser
    obtain ⟨rfl, rfl⟩ := Prod.mk.inj (Option.some.inj h)
    have hfound := parseHost_asText hfound hascii
    simp only [Bool.and_eq_true, Option.isSome_iff_exists] at huser
    obtain ⟨⟨hvalid, name, hname⟩, password, hpassword⟩ := huser
    obtain ⟨name', hname', -⟩ := unescape_similar hname
    obtain ⟨password', hpassword', -⟩ := unescape_similar hpassword
    rw [asText_takeWhile fun c => decide (c ≠ ':')] at hname'
    rw [asText_drop, ← asText_length, asText_takeWhile fun c => decide (c ≠ ':')] at hpassword'
    simp only [Option.map_some, Prod.map_apply, hfound, Option.bind_eq_bind, Option.bind_some,
      asText_text, char_char, hvalid, hname', hpassword']
    rfl

theorem getScheme_asText (raw : GoString) :
    getScheme (asText raw) = (getScheme raw).map (Prod.map id asText) := by
  unfold getScheme
  simp only [asText_text, char_char, asText_takeWhile schemeChar, ← asText_dropWhile schemeChar]
  cases raw.dropWhile fun c => schemeChar (Letter.char c) with
  | nil => rfl
  | cons colon rest =>
    simp only [asText_cons]
    split_ifs
    · cases (asText raw).takeWhile schemeChar with
      | nil => simp only [Option.map_none]
      | cons c cs =>
        by_cases hc : isSchemeRest c = true <;>
          simp only [hc, if_true, Bool.false_eq_true, if_false, Option.map_some, Prod.map, id]
    · rfl

/-- A link is taken apart like its text, when its host is text. -/
theorem parse_asText {viaRequest : Bool} {url : URL} (h : parse raw viaRequest = some url)
    (hascii : ∀ b ∈ url.host, b < 0x80) : ∃ path, (url.path ≠ [] → path ≠ []) ∧
      parse (asText raw) viaRequest = some { url with path := path } := by
  unfold parse at h ⊢
  simp only [asText_text, char_char]
  split at h
  · cases h
  rename_i hctl
  split at h
  · cases h
  rename_i hempty
  rw [if_neg hctl, if_neg hempty]
  split at h
  · rename_i hstar
    obtain rfl := Option.some.inj h
    exact ⟨_, id, if_pos hstar⟩
  rename_i hstar
  rw [if_neg hstar, getScheme_asText]
  obtain ⟨⟨scheme, rest⟩, hget, h⟩ := Option.bind_eq_some_iff.mp h
  simp only [hget, Option.map_some, Prod.map_apply, id, Option.bind_eq_bind, Option.bind_some]
  rw [← asText_takeWhile fun c => decide (c ≠ '?')]
  dsimp only at h
  generalize rest.takeWhile (fun c => decide (Letter.char c ≠ '?')) = rest at h ⊢
  split at h
  · rename_i hopaque
    obtain rfl := Option.some.inj h
    exact ⟨_, id, if_pos hopaque⟩
  rename_i hopaque
  split at h
  · cases h
  rename_i hrequest
  split at h
  · cases h
  rename_i hcolon
  rw [if_neg hopaque, if_neg hrequest, if_neg hcolon]
  split at h
  · rename_i hslashes
    obtain ⟨⟨hasUser, host⟩, hauthority, h⟩ := Option.bind_eq_some_iff.mp h
    obtain ⟨path, hpath, h⟩ := Option.bind_eq_some_iff.mp h
    obtain rfl := Option.some.inj h
    have hauthority := parseAuthority_asText hauthority hascii
    obtain ⟨read, hread, hsimilar⟩ := unescape_similar hpath
    rw [asText_takeWhile fun c => decide (c ≠ '/'), asText_drop] at hauthority
    rw [asText_dropWhile fun c => decide (c ≠ '/'), asText_drop] at hread
    refine ⟨read, hsimilar.ne_nil, ?_⟩
    rw [if_pos hslashes, hauthority, Option.bind_some, hread]
    rfl
  · rename_i hslashes
    obtain ⟨path, hpath, h⟩ := Option.bind_eq_some_iff.mp h
    obtain rfl := Option.some.inj h
    obtain ⟨read, hread, hsimilar⟩ := unescape_similar hpath
    refine ⟨read, hsimilar.ne_nil, ?_⟩
    rw [if_neg hslashes, hread]
    rfl

theorem Parse_asText {url : URL} (h : Parse raw = some url) (hascii : ∀ b ∈ url.host, b < 0x80) :
    ∃ path, (url.path ≠ [] → path ≠ []) ∧
      Parse (asText raw) = some { url with path := path } := by
  obtain ⟨found, hparse, h⟩ := Option.bind_eq_some_iff.mp h
  obtain ⟨fragment, hfragment, h⟩ := Option.bind_eq_some_iff.mp h
  obtain rfl := Option.some.inj h
  obtain ⟨path, hne, hread⟩ := parse_asText hparse hascii
  obtain ⟨fragment', hfragment', -⟩ := unescape_similar hfragment
  rw [asText_takeWhile fun c => decide (c ≠ '#')] at hread
  rw [asText_drop, asText_dropWhile fun c => decide (c ≠ '#')] at hfragment'
  refine ⟨path, hne, ?_⟩
  simp only [Parse, char_char, hread, Option.bind_eq_bind, Option.bind_some, hfragment']
  rfl

end Runes

end Noted.Url
