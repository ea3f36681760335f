import Mathlib

/-!
# IP addresses

Addresses of four bytes, and of sixteen with a zone, as Go's `net/netip` reads and writes
them. The addresses of four bytes have a mapped form of sixteen, `::ffff:0:0/96`.
-/

namespace Noted.Library.Netip

inductive Addr
  | v4 (bits : BitVec 32)
  | v6 (bits : BitVec 128) (zone : List Char)
  deriving DecidableEq

section Addresses

def mapped (bits : BitVec 32) : BitVec 128 := 0xffff#96 ++ bits

def isMapped (bits : BitVec 128) : Bool := bits.extractLsb' 32 96 == 0xffff#96

namespace Addr

def zone : Addr → List Char
  | .v4 _ => []
  | .v6 _ zone => zone

def bitLen : Addr → Nat
  | .v4 _ => 32
  | .v6 _ _ => 128

def is4In6 : Addr → Bool
  | .v4 _ => false
  | .v6 bits _ => isMapped bits

def withZone (zone : List Char) : Addr → Addr
  | .v4 bits => .v4 bits
  | .v6 bits _ => .v6 bits zone

def unmap : Addr → Addr
  | .v4 bits => .v4 bits
  | .v6 bits zone => if isMapped bits then .v4 (bits.extractLsb' 0 32) else .v6 bits zone

end Addr

def number (bytes : List Nat) : Nat := bytes.foldl (fun n b => 256 * n + b) 0

def bytes (width n : Nat) : List Nat :=
  (List.range width).map fun i => n / 256 ^ (width - 1 - i) % 256

end Addresses

section Reading

def digit (c : Char) : Nat := c.toNat - '0'.toNat

/-- The bytes before the text, the number and the digits of the current one. -/
def parseIPv4Fields : List Char → List Nat → Nat → Nat → Option (List Nat)
  | [], done, val, _ => if done.length < 3 then none else some (done ++ [val])
  | c :: rest, done, val, digLen =>
    if c.isDigit then
      if digLen = 1 ∧ val = 0 then none
      else if 255 < val * 10 + digit c then none
      else parseIPv4Fields rest done (val * 10 + digit c) (digLen + 1)
    else if c = '.' then
      -- a dot with no digit before it, or at the end
      if digLen = 0 ∨ rest = [] then none
      else if done.length = 3 then none
      else parseIPv4Fields rest (done ++ [val]) 0 0
    else none

def parseIPv4 (text : List Char) : Option Addr :=
  (parseIPv4Fields text [] 0 0).map fun fields => .v4 (BitVec.ofNat 32 (number fields))

def hexDigit (c : Char) : Option Nat :=
  if c.isDigit then some (digit c)
  else if 'a' ≤ c ∧ c ≤ 'f' then some (c.toNat - 'a'.toNat + 10)
  else if 'A' ≤ c ∧ c ≤ 'F' then some (c.toNat - 'A'.toNat + 10)
  else none

def isHex (c : Char) : Bool := (hexDigit c).isSome

def hexNumber (digits : List Char) : Nat :=
  digits.foldl (fun acc c => 16 * acc + (hexDigit c).getD 0) 0

/-- The loop over the groups, for at most as many as there is room for: what is left of the
text, the bytes and the place of the ellipsis. -/
def parseGroups : Nat → List Char → List Nat → Option Nat →
    Option (List Char × List Nat × Option Nat)
  | 0, s, ip, ellipsis => some (s, ip, ellipsis)
  | room + 1, s, ip, ellipsis =>
    let digits := s.takeWhile isHex
    if digits.length = 0 ∨ 4 < digits.length then none
    else
      match s.dropWhile isHex with
      | '.' :: _ =>
        -- the rest is an address of four bytes
        if ellipsis = none ∧ ip.length ≠ 12 then none
        else if 16 < ip.length + 4 then none
        else (parseIPv4Fields s [] 0 0).map fun fields => ([], ip ++ fields, ellipsis)
      | rest =>
        let ip := ip ++ [hexNumber digits / 256, hexNumber digits % 256]
        match rest with
        | [] => some ([], ip, ellipsis)
        | ':' :: ':' :: rest =>
          if ellipsis ≠ none then none
          else if rest = [] then some ([], ip, some ip.length)
          else parseGroups room rest ip (some ip.length)
        | ':' :: c :: rest => parseGroups room (c :: rest) ip ellipsis
        | _ => none

def expand : List Char × List Nat × Option Nat → Option (List Nat)
  | (s, ip, ellipsis) =>
    if s ≠ [] then none
    else
      match ellipsis with
      | none => if ip.length < 16 then none else some ip
      | some at_ =>
        if ip.length < 16 then
          some (ip.take at_ ++ List.replicate (16 - ip.length) 0 ++ ip.drop at_)
        else none

def parseIPv6Bytes : List Char → Option (List Nat)
  | [':', ':'] => some (List.replicate 16 0)
  | ':' :: ':' :: s => (parseGroups 8 s [] (some 0)).bind expand
  | s => (parseGroups 8 s [] none).bind expand

def parseIPv6 (text : List Char) : Option Addr :=
  let s := text.takeWhile (· ≠ '%')
  match text.dropWhile (· ≠ '%') with
  | [_] => none
  | zone => (parseIPv6Bytes s).map fun ip => .v6 (BitVec.ofNat 128 (number ip)) zone.tail

/-- The first of the three characters decides. -/
def parseAddr (text : List Char) : Option Addr :=
  match text.find? fun c => c == '.' || c == ':' || c == '%' with
  | some '.' => parseIPv4 text
  | some ':' => parseIPv6 text
  | _ => none

def parsePort (text : List Char) : Option Nat :=
  if text ≠ [] ∧ text.all Char.isDigit ∧ text.foldl (fun n c => 10 * n + digit c) 0 < 2 ^ 16 then
    some (text.foldl (fun n c => 10 * n + digit c) 0)
  else none

def splitLast (separator : Char) (text : List Char) : Option (List Char × List Char) :=
  if separator ∈ text then
    some ((text.rdropWhile (· ≠ separator)).dropLast, text.rtakeWhile (· ≠ separator))
  else none

def unbracket : List Char → Option (List Char × Bool)
  | '[' :: rest => if rest.getLast? = some ']' then some (rest.dropLast, true) else none
  | ip => some (ip, false)

def parseAddrPort (text : List Char) : Option (Addr × Nat) := do
  let (ip, port) ← splitLast ':' text
  if ip = [] ∨ port = [] then none
  else
    let (ip, v6) ← unbracket ip
    let port ← parsePort port
    match ← parseAddr ip, v6 with
    | .v4 bits, false => some (.v4 bits, port)
    | .v6 bits zone, true => some (.v6 bits zone, port)
    | _, _ => none

end Reading

section Writing

def string4 (bits : BitVec 32) : List Char :=
  ['.'].intercalate ((bytes 4 bits.toNat).map (Nat.toDigits 10))

def groups (bits : BitVec 128) : List Nat :=
  (List.range 8).map fun i => bits.toNat / 65536 ^ (7 - i) % 65536

/-- The first of the longest runs of two zeros or more. -/
def zeroRun (groups : List Nat) : Option (Nat × Nat) :=
  (List.range groups.length).foldl (fun best i =>
    let length := ((groups.drop i).takeWhile (· = 0)).length
    if 2 ≤ length ∧ (best.map Prod.snd).getD 0 < length then some (i, length) else best) none

def hexGroups (groups : List Nat) : List Char := [':'].intercalate (groups.map (Nat.toDigits 16))

def string6 (bits : BitVec 128) : List Char :=
  match zeroRun (groups bits) with
  | none => hexGroups (groups bits)
  | some (start, length) =>
    hexGroups ((groups bits).take start) ++ [':', ':'] ++
      hexGroups ((groups bits).drop (start + length))

def zoneString (zone : List Char) : List Char := if zone = [] then [] else '%' :: zone

def Addr.string : Addr → List Char
  | .v4 bits => string4 bits
  | .v6 bits zone =>
    (if isMapped bits then "::ffff:".toList ++ string4 (bits.extractLsb' 0 32) else string6 bits) ++
      zoneString zone

end Writing

section Prefixes

/-- An address and how many of its leading bits count, at most as many as it has. -/
structure Prefix where
  ip : Addr
  bits : Nat
  deriving DecidableEq

def mask6 (bits : Nat) : BitVec 128 := BitVec.allOnes 128 <<< (128 - bits)

/-- Whether an address without a zone, of as many bytes, has the bits that count. -/
def Prefix.contains (p : Prefix) (ip : Addr) : Bool :=
  match p.ip, ip with
  | .v4 a, .v4 b => p.bits ≤ 32 && ((b ^^^ a) >>> (32 - p.bits)) == 0
  | .v6 a _, .v6 b zone => p.bits ≤ 128 && zone == [] && ((b ^^^ a) &&& mask6 p.bits) == 0
  | _, _ => false

def Prefix.masked (p : Prefix) : Prefix :=
  match p.ip with
  | .v4 bits => ⟨.v4 (bits &&& BitVec.allOnes 32 <<< (32 - p.bits)), p.bits⟩
  | .v6 bits _ => ⟨.v6 (bits &&& mask6 p.bits) [], p.bits⟩

/-- Decimal digits without a sign or leading zeros. -/
def parseBits (text : List Char) : Option Nat :=
  if text ≠ [] ∧ text.all Char.isDigit ∧ ¬(1 < text.length ∧ text.head? = some '0') then
    some (text.foldl (fun n c => 10 * n + digit c) 0)
  else none

def parsePrefix (text : List Char) : Option Prefix := do
  let (ip, bits) ← splitLast '/' text
  let ip ← parseAddr ip
  if ip.zone ≠ [] then none
  else
    let bits ← parseBits bits
    if ip.bitLen < bits then none else some ⟨ip, bits⟩

end Prefixes

section Mapped

variable {bits : BitVec 32} {zone : List Char}

theorem isMapped_mapped (bits : BitVec 32) : isMapped (mapped bits) = true := by
  rw [isMapped, mapped, beq_iff_eq, BitVec.extractLsb'_append_eq_left]

@[simp] theorem unmap_mapped : (Addr.v6 (mapped bits) zone).unmap = .v4 bits := by
  rw [Addr.unmap, if_pos (isMapped_mapped bits), mapped, BitVec.extractLsb'_append_eq_right]

theorem Addr.unmap_of_is4In6 {a : Addr} (h : a.is4In6 = true) :
    ∃ bits, a.unmap = .v4 bits ∧ a.bitLen = 128 := by
  cases a with
  | v4 bits => cases h
  | v6 bits zone => exact ⟨_, if_pos h, rfl⟩

theorem mapped_ofNat {n : Nat} (h : n < 2 ^ 32) :
    mapped (BitVec.ofNat 32 n) = BitVec.ofNat 128 (0xffff * 2 ^ 32 + n) := by
  apply BitVec.eq_of_toNat_eq
  rw [mapped, BitVec.toNat_append, BitVec.toNat_ofNat, BitVec.toNat_ofNat, Nat.mod_eq_of_lt h,
    BitVec.toNat_ofNat, ← Nat.shiftLeft_add_eq_or_of_lt h]
  omega

end Mapped

section Octets

variable {text rest : List Char} {done fields : List Nat} {c : Char} {val digLen : Nat}

theorem digit_lt (h : c.isDigit = true) : digit c ≤ 9 := by
  have hbounds := Char.isDigit_iff_toNat.mp h
  have hzero : '0'.toNat = 48 := rfl
  have hnine : '9'.toNat = 57 := rfl
  rw [digit]
  omega

def Octet (val digLen : Nat) : Prop :=
  (digLen = 0 ∧ val = 0) ∨ (digLen = 1 ∧ val ≤ 9) ∨ (digLen = 2 ∧ 10 ≤ val ∧ val ≤ 99) ∨
    (digLen = 3 ∧ 100 ≤ val ∧ val ≤ 255)

theorem Octet.next (h : Octet val digLen) (hc : c.isDigit = true)
    (hlead : ¬(digLen = 1 ∧ val = 0)) (hle : ¬ 255 < val * 10 + digit c) :
    Octet (val * 10 + digit c) (digLen + 1) := by
  have hdigit := digit_lt hc
  unfold Octet at *
  omega

theorem parseIPv4Fields_cons (h : parseIPv4Fields (c :: rest) done val digLen = some fields) :
    (c.isDigit = true ∧ ¬(digLen = 1 ∧ val = 0) ∧ ¬ 255 < val * 10 + digit c ∧
      parseIPv4Fields rest done (val * 10 + digit c) (digLen + 1) = some fields) ∨
    (c = '.' ∧ digLen ≠ 0 ∧ done.length ≠ 3 ∧
      parseIPv4Fields rest (done ++ [val]) 0 0 = some fields) := by
  rw [parseIPv4Fields] at h
  by_cases hdigit : c.isDigit = true
  · rw [if_pos hdigit] at h
    split_ifs at h with hlead hle
    exact Or.inl ⟨hdigit, hlead, hle, h⟩
  · rw [if_neg hdigit] at h
    split_ifs at h with hdot hplace hlong
    exact Or.inr ⟨hdot, fun hz => hplace (Or.inl hz), hlong, h⟩

theorem parseIPv4Fields_chars (h : parseIPv4Fields text done val digLen = some fields) :
    ∀ c ∈ text, c.isDigit = true ∨ c = '.' := by
  induction text generalizing done val digLen with
  | nil => simp
  | cons d rest ih =>
    rintro c (_ | ⟨_, hc⟩)
    · rcases parseIPv4Fields_cons h with ⟨hdigit, -⟩ | ⟨hdot, -⟩
      · exact Or.inl hdigit
      · exact Or.inr hdot
    · rcases parseIPv4Fields_cons h with ⟨-, -, -, hrest⟩ | ⟨-, -, -, hrest⟩
      · exact ih hrest c hc
      · exact ih hrest c hc

theorem parseIPv4Fields_bytes (h : parseIPv4Fields text done val digLen = some fields)
    (hoctet : Octet val digLen) (hlength : done.length ≤ 3) (hbytes : ∀ b ∈ done, b ≤ 255) :
    fields.length = 4 ∧ ∀ b ∈ fields, b ≤ 255 := by
  induction text generalizing done val digLen with
  | nil =>
    rw [parseIPv4Fields] at h
    split_ifs at h with hshort
    obtain rfl := Option.some.inj h
    refine ⟨by rw [List.length_append, List.length_singleton]; omega, fun b hb => ?_⟩
    rcases List.mem_append.mp hb with hold | hnew
    · exact hbytes b hold
    · rw [List.mem_singleton.mp hnew]
      unfold Octet at hoctet
      omega
  | cons c rest ih =>
    rcases parseIPv4Fields_cons h with ⟨hdigit, hlead, hle, hrest⟩ | ⟨-, -, hlong, hrest⟩
    · exact ih hrest (hoctet.next hdigit hlead hle) hlength hbytes
    · refine ih hrest (Or.inl ⟨rfl, rfl⟩) ?_ fun b hb => ?_
      · rw [List.length_append, List.length_singleton]
        omega
      · rcases List.mem_append.mp hb with hold | hnew
        · exact hbytes b hold
        · rw [List.mem_singleton.mp hnew]
          unfold Octet at hoctet
          omega

theorem parseIPv4Fields_first (h : parseIPv4Fields text done val digLen = some fields)
    (hoctet : Octet val digLen) (hmore : done.length < 3) :
    ∃ digits rest, text = digits ++ '.' :: rest ∧ (∀ c ∈ digits, c.isDigit = true) ∧
      digLen + digits.length ≤ 3 ∧ digLen + digits.length ≠ 0 := by
  induction text generalizing val digLen with
  | nil =>
    rw [parseIPv4Fields, if_pos hmore] at h
    cases h
  | cons c rest ih =>
    rcases parseIPv4Fields_cons h with ⟨hdigit, hlead, hle, hrest⟩ | ⟨rfl, hplace, -, -⟩
    · obtain ⟨digits, rest, rfl, hdigits, hlength, -⟩ :=
        ih hrest (hoctet.next hdigit hlead hle)
      refine ⟨c :: digits, rest, rfl, ?_, ?_, ?_⟩
      · rintro d (_ | ⟨_, hd⟩)
        · exact hdigit
        · exact hdigits d hd
      · rw [List.length_cons]
        omega
      · rw [List.length_cons]
        omega
    · refine ⟨[], rest, rfl, by simp, ?_, by simpa using hplace⟩
      unfold Octet at hoctet
      rw [List.length_nil]
      omega

end Octets

section Writings

variable {text : List Char} {fields : List Nat} {bits : BitVec 32} {c : Char}

theorem isHex_of_isDigit (h : c.isDigit = true) : isHex c = true := by
  rw [isHex, hexDigit, if_pos h]
  rfl

theorem octet_start : Octet 0 0 := Or.inl ⟨rfl, rfl⟩

section Groups

variable {digits rest : List Char} {d : Char}

theorem takeWhile_group (rest : List Char) (hdigits : ∀ c ∈ digits, isHex c = true) (hd : isHex d = false) :
    (digits ++ d :: rest).takeWhile isHex = digits ∧
      (digits ++ d :: rest).dropWhile isHex = d :: rest := by
  rw [List.takeWhile_append_of_pos hdigits, List.dropWhile_append_of_pos hdigits,
    List.takeWhile_cons_of_neg (by simp [hd]), List.dropWhile_cons_of_neg (by simp [hd]),
    List.append_nil]
  exact ⟨rfl, rfl⟩

theorem parseGroups_next {room : Nat} {ip : List Nat} {ellipsis : Option Nat}
    (hdigits : ∀ c ∈ digits, isHex c = true) (hne : digits.length ≠ 0) (hle : digits.length ≤ 4)
    (hc : c ≠ ':') :
    parseGroups (room + 1) (digits ++ ':' :: c :: rest) ip ellipsis =
      parseGroups room (c :: rest) (ip ++ [hexNumber digits / 256, hexNumber digits % 256])
        ellipsis := by
  obtain ⟨htake, hdrop⟩ := takeWhile_group (c :: rest) hdigits (by rfl : isHex ':' = false)
  rw [parseGroups, htake, hdrop]
  dsimp only
  rw [if_neg (by omega)]
  split
  · next heq => simp at heq
  · split
    · next heq => cases heq
    · next heq => simp [hc] at heq
    · next heq =>
      obtain ⟨-, rfl, rfl⟩ : ':' = ':' ∧ c = _ ∧ rest = _ := by simpa using heq
      rfl
    · next hother => exact absurd rfl (hother c rest)

theorem parseGroups_last {room place : Nat} {ip : List Nat}
    (h : parseIPv4Fields text [] 0 0 = some fields) (hroom : ip.length + 4 ≤ 16) :
    parseGroups (room + 1) text ip (some place) = some ([], ip ++ fields, some place) := by
  obtain ⟨digits, rest, rfl, hdigits, hle, hne⟩ := parseIPv4Fields_first h octet_start (by simp)
  obtain ⟨htake, hdrop⟩ := takeWhile_group rest
    (fun c hc => isHex_of_isDigit (hdigits c hc)) (by rfl : isHex '.' = false)
  rw [parseGroups, htake, hdrop]
  dsimp only
  rw [if_neg (by omega), if_neg (by simp), if_neg (by omega), h, Option.map_some]
  rfl

end Groups

theorem parseIPv4Fields_head (h : parseIPv4Fields text [] 0 0 = some fields) :
    ∃ c rest, text = c :: rest ∧ c.isDigit = true := by
  obtain ⟨digits, rest, rfl, hdigits, hle, hne⟩ := parseIPv4Fields_first h octet_start (by simp)
  cases digits with
  | nil => simp at hne
  | cons c digits => exact ⟨c, digits ++ '.' :: rest, rfl, hdigits c (List.mem_cons_self ..)⟩

theorem parseIPv6Bytes_mapped (h : parseIPv4Fields text [] 0 0 = some fields) :
    parseIPv6Bytes ("::ffff:".toList ++ text) =
      some (List.replicate 10 0 ++ ([255, 255] ++ fields)) := by
  obtain ⟨hlength, -⟩ := parseIPv4Fields_bytes h octet_start (by simp) (by simp)
  obtain ⟨c, rest, rfl, hdigit⟩ := parseIPv4Fields_head h
  have hcolon : c ≠ ':' := by
    rintro rfl
    exact absurd hdigit (by decide)
  have hhex : ∀ d ∈ ['f', 'f', 'f', 'f'], isHex d = true := by
    intro d hd
    obtain rfl : d = 'f' := by simpa using hd
    rfl
  have hgroups : parseGroups 8 (['f', 'f', 'f', 'f'] ++ ':' :: c :: rest) [] (some 0) =
      some ([], [255, 255] ++ fields, some 0) := by
    rw [parseGroups_next hhex (by simp) (by simp) hcolon]
    exact parseGroups_last h (by decide)
  have hlong : ([255, 255] ++ fields).length = 6 := by simp [hlength]
  change (parseGroups 8 (['f', 'f', 'f', 'f'] ++ ':' :: c :: rest) [] (some 0)).bind expand = _
  rw [hgroups, Option.bind_some, expand, if_neg (by simp), hlong, if_pos (by decide)]
  rfl

theorem number_mapped (hlength : fields.length = 4) :
    number (List.replicate 10 0 ++ ([255, 255] ++ fields)) = 0xffff * 2 ^ 32 + number fields := by
  obtain ⟨a, b, c, d, rfl⟩ := List.length_eq_four.mp hlength
  simp only [number, List.replicate, List.cons_append, List.nil_append, List.foldl_cons,
    List.foldl_nil]
  omega

theorem number_lt (hlength : fields.length = 4) (hbytes : ∀ b ∈ fields, b ≤ 255) :
    number fields < 2 ^ 32 := by
  obtain ⟨a, b, c, d, rfl⟩ := List.length_eq_four.mp hlength
  have ha := hbytes a (by simp)
  have hb := hbytes b (by simp)
  have hc := hbytes c (by simp)
  have hd := hbytes d (by simp)
  simp only [number, List.foldl_cons, List.foldl_nil]
  omega

theorem parseIPv6_ne_v4 : parseIPv6 text ≠ some (.v4 bits) := by
  intro h
  rw [parseIPv6] at h
  split at h
  · cases h
  · obtain ⟨ip, -, hip⟩ := Option.map_eq_some_iff.mp h
    cases hip

theorem parseAddr_eq_v4 : parseAddr text = some (.v4 bits) ↔
    ∃ fields, parseIPv4Fields text [] 0 0 = some fields ∧ BitVec.ofNat 32 (number fields) = bits := by
  constructor
  · intro h
    rw [parseAddr] at h
    split at h
    · obtain ⟨fields, hfields, hbits⟩ := Option.map_eq_some_iff.mp h
      exact ⟨fields, hfields, Addr.v4.inj hbits⟩
    · exact absurd h parseIPv6_ne_v4
    · cases h
  · rintro ⟨fields, hfields, rfl⟩
    obtain ⟨digits, rest, rfl, hdigits, -⟩ := parseIPv4Fields_first hfields octet_start (by simp)
    have hnone : digits.find? (fun c => c == '.' || c == ':' || c == '%') = none := by
      rw [List.find?_eq_none]
      rintro c hc hspecial
      have hdigit := hdigits c hc
      simp only [Bool.or_eq_true, beq_iff_eq] at hspecial
      rcases hspecial with (rfl | rfl) | rfl <;> exact absurd hdigit (by decide)
    have hfind : (digits ++ '.' :: rest).find? (fun c => c == '.' || c == ':' || c == '%') =
        some '.' := by
      rw [List.find?_append, hnone]
      rfl
    rw [parseAddr, hfind]
    exact congrArg (Option.map _) hfields

theorem parseAddr_v4_chars (h : parseAddr text = some (.v4 bits)) :
    ∀ c ∈ text, c.isDigit = true ∨ c = '.' := by
  obtain ⟨fields, hfields, -⟩ := parseAddr_eq_v4.mp h
  exact parseIPv4Fields_chars hfields

theorem parseAddr_v4_not_mem (h : parseAddr text = some (.v4 bits)) (hdigit : c.isDigit = false)
    (hdot : c ≠ '.') : c ∉ text := by
  intro hc
  rcases parseAddr_v4_chars h c hc with hd | hd
  · exact absurd (hd.symm.trans hdigit) (by decide)
  · exact hdot hd

theorem parseIPv6_unzoned (h : '%' ∉ text) :
    parseIPv6 text = (parseIPv6Bytes text).map fun ip => .v6 (BitVec.ofNat 128 (number ip)) [] := by
  have hkeep : ∀ c ∈ text, decide (c ≠ '%') = true :=
    fun c hc => decide_eq_true fun hzone => h (hzone ▸ hc)
  rw [parseIPv6, List.takeWhile_eq_self_iff.mpr hkeep, List.dropWhile_eq_nil_iff.mpr hkeep]
  rfl

/-- The text of four bytes after `::ffff:` is their mapped form. -/
theorem parseAddr_mapped (h : parseAddr text = some (.v4 bits)) :
    parseAddr ("::ffff:".toList ++ text) = some (.v6 (mapped bits) []) := by
  have hzone : '%' ∉ "::ffff:".toList ++ text := by
    rw [List.mem_append, not_or]
    exact ⟨by decide, parseAddr_v4_not_mem h rfl (by decide)⟩
  obtain ⟨fields, hfields, rfl⟩ := parseAddr_eq_v4.mp h
  obtain ⟨hlength, hbytes⟩ := parseIPv4Fields_bytes hfields octet_start (by simp) (by simp)
  have hsix : parseAddr ("::ffff:".toList ++ text) = parseIPv6 ("::ffff:".toList ++ text) := rfl
  rw [hsix, parseIPv6_unzoned hzone, parseIPv6Bytes_mapped hfields, Option.map_some,
    number_mapped hlength, ← mapped_ofNat (number_lt hlength hbytes)]

end Writings

section Ports

variable {text ip port : List Char} {bits : BitVec 32} {n : Nat} {a : Addr}

theorem splitLast_append {separator : Char} (text : List Char) (h : separator ∉ port) :
    splitLast separator (text ++ separator :: port) = some (text, port) := by
  have hport : ∀ c ∈ port.reverse, decide (c ≠ separator) = true :=
    fun c hc => decide_eq_true fun heq => h (heq ▸ List.mem_reverse.mp hc)
  have hdrop : (text ++ separator :: port).rdropWhile (fun c => decide (c ≠ separator)) =
      text ++ [separator] := by
    rw [List.rdropWhile, List.reverse_append, List.reverse_cons, List.append_assoc,
      List.dropWhile_append_of_pos hport]
    simp
  have htake : (text ++ separator :: port).rtakeWhile (fun c => decide (c ≠ separator)) =
      port := by
    rw [List.rtakeWhile, List.reverse_append, List.reverse_cons, List.append_assoc,
      List.takeWhile_append_of_pos hport]
    simp
  rw [splitLast, if_pos (by simp), hdrop, htake, List.dropLast_concat]

theorem parsePort_digits (h : parsePort port = some n) :
    port ≠ [] ∧ ∀ c ∈ port, c.isDigit = true := by
  rw [parsePort] at h
  split_ifs at h with hport
  exact ⟨hport.1, List.all_eq_true.mp hport.2.1⟩

theorem parsePort_colon (h : parsePort port = some n) : ':' ∉ port :=
  fun hc => absurd ((parsePort_digits h).2 _ hc) (by decide)

theorem parseAddr_v4_ne_nil (h : parseAddr text = some (.v4 bits)) : text ≠ [] := by
  rintro rfl
  cases h

theorem unbracket_v4 (h : parseAddr text = some (.v4 bits)) :
    unbracket text = some (text, false) := by
  cases text with
  | nil => rfl
  | cons c rest =>
    have hc : c ≠ '[' := by
      rintro rfl
      exact parseAddr_v4_not_mem h rfl (by decide) (List.mem_cons_self ..)
    rw [unbracket]
    simp [hc]

theorem parseAddrPort_v4 (h : parseAddr text = some (.v4 bits)) (hport : parsePort port = some n) :
    parseAddrPort (text ++ ':' :: port) = some (.v4 bits, n) := by
  have hne : ¬(text = [] ∨ port = []) :=
    not_or.mpr ⟨parseAddr_v4_ne_nil h, (parsePort_digits hport).1⟩
  rw [parseAddrPort, splitLast_append text (parsePort_colon hport)]
  simp only [Option.bind_eq_bind, Option.bind_some, if_neg hne, unbracket_v4 h, hport, h]

theorem unbracket_bracketed (ip : List Char) : unbracket ('[' :: ip ++ [']']) = some (ip, true) := by
  rw [List.cons_append, unbracket, if_pos (by simp), List.dropLast_concat]

theorem parseAddrPort_mapped (h : parseAddr text = some (.v4 bits))
    (hport : parsePort port = some n) :
    parseAddrPort ('[' :: ("::ffff:".toList ++ text) ++ [']'] ++ ':' :: port) =
      some (.v6 (mapped bits) [], n) := by
  have hne : ¬('[' :: ("::ffff:".toList ++ text) ++ [']'] = [] ∨ port = []) :=
    not_or.mpr ⟨by simp, (parsePort_digits hport).1⟩
  rw [parseAddrPort, splitLast_append _ (parsePort_colon hport)]
  simp only [Option.bind_eq_bind, Option.bind_some, if_neg hne, unbracket_bracketed, hport,
    parseAddr_mapped h]

theorem parsePort_v4 (h : parseAddr text = some (.v4 bits)) : parsePort text = none := by
  obtain ⟨fields, hfields, -⟩ := parseAddr_eq_v4.mp h
  obtain ⟨digits, rest, rfl, -⟩ := parseIPv4Fields_first hfields octet_start (by simp)
  cases hport : parsePort (digits ++ '.' :: rest) with
  | none => rfl
  | some n => exact absurd ((parsePort_digits hport).2 '.' (by simp)) (by decide)

theorem parseAddrPort_bare (h : parseAddr text = some (.v4 bits)) :
    parseAddrPort text = none ∧ parseAddrPort ("::ffff:".toList ++ text) = none := by
  have hcolon : ':' ∉ text := parseAddr_v4_not_mem h rfl (by decide)
  have hne : ¬("::ffff".toList = [] ∨ text = []) := not_or.mpr ⟨by decide, parseAddr_v4_ne_nil h⟩
  constructor
  · rw [parseAddrPort, splitLast, if_neg hcolon]
    rfl
  · have hsplit : splitLast ':' ("::ffff:".toList ++ text) = some ("::ffff".toList, text) :=
      splitLast_append "::ffff".toList hcolon
    have hplain : unbracket "::ffff".toList = some ("::ffff".toList, false) := rfl
    rw [parseAddrPort, hsplit]
    generalize "::ffff".toList = ip at hne hplain ⊢
    simp only [Option.bind_eq_bind, Option.bind_some, if_neg hne, hplain, parsePort_v4 h,
      Option.bind_none]

end Ports

section Masks

variable {p : Prefix} {text entry : List Char} {n : Nat} {a : Addr}

theorem getLsbD_mask6 (n i : Nat) :
    (mask6 n).getLsbD i = (decide (i < 128) && decide (128 - n ≤ i)) := by
  rw [mask6, BitVec.getLsbD_shiftLeft, BitVec.getLsbD_allOnes]
  grind

theorem isMapped_masked {bits : BitVec 128} (h : isMapped (bits &&& mask6 n) = true) :
    isMapped bits = true := by
  have heq : (bits &&& mask6 n).extractLsb' 32 96 = 0xffff#96 := by simpa [isMapped] using h
  have hbit : ∀ i < 96, (bits.getLsbD (32 + i) && decide (128 - n ≤ 32 + i)) =
      (0xffff#96).getLsbD i := by
    intro i hi
    have hin : 32 + i < 128 := by omega
    rw [← heq, BitVec.getLsbD_extractLsb', BitVec.getLsbD_and, getLsbD_mask6]
    simp [hi, hin]
  have hlow : 128 - n ≤ 32 := by
    have hfirst := hbit 0 (by decide)
    simp at hfirst
    omega
  rw [isMapped, beq_iff_eq]
  refine BitVec.eq_of_getLsbD_eq fun i hi => ?_
  have hin : 128 - n ≤ 32 + i := by omega
  rw [BitVec.getLsbD_extractLsb', ← hbit i hi]
  simp [hi, hin]

theorem Prefix.masked_unmap (h : p.ip.is4In6 = false) :
    p.masked.ip.unmap = p.masked.ip ∧ p.masked.bits = p.bits ∧
      p.masked.ip.bitLen = p.ip.bitLen := by
  obtain ⟨ip, n⟩ := p
  cases ip with
  | v4 bits => exact ⟨rfl, rfl, rfl⟩
  | v6 bits zone =>
    have hmasked : isMapped (bits &&& mask6 n) = false := by
      rw [Bool.eq_false_iff]
      intro hmapped
      rw [Addr.is4In6, isMapped_masked hmapped] at h
      cases h
    refine ⟨?_, rfl, rfl⟩
    rw [Prefix.masked, Addr.unmap, hmasked]
    rfl

theorem parseBits_digits (h : parseBits text = some n) : ∀ c ∈ text, c.isDigit = true := by
  rw [parseBits] at h
  split_ifs at h with hbits
  exact List.all_eq_true.mp hbits.2.1

theorem parsePrefix_eq (h : parseBits text = some n) (ha : parseAddr entry = some a)
    (hzone : a.zone = []) :
    parsePrefix (entry ++ '/' :: text) = if a.bitLen < n then none else some ⟨a, n⟩ := by
  have hslash : '/' ∉ text := fun hc => absurd (parseBits_digits h _ hc) (by decide)
  rw [parsePrefix, splitLast_append entry hslash]
  simp only [Option.bind_eq_bind, Option.bind_some, ha, hzone, h, ne_eq, not_true_eq_false,
    if_false]

theorem parsePrefix_bits (h : parsePrefix text = some p) : p.bits ≤ p.ip.bitLen := by
  obtain ⟨⟨ip, bits⟩, -, h⟩ := Option.bind_eq_some_iff.mp h
  obtain ⟨a, -, h⟩ := Option.bind_eq_some_iff.mp h
  split_ifs at h with hzone
  obtain ⟨n, -, h⟩ := Option.bind_eq_some_iff.mp h
  split_ifs at h with hlong
  obtain rfl := Option.some.inj h
  exact not_lt.mp hlong

end Masks

end Noted.Library.Netip
