import Noted.Imslp.Breaker
import Noted.Types
import Noted.Url

/-!
# File lookups (internal/app/imslp_files.go, internal/app/imslp.go)

A download's name gives an IMSLP file number, and `Special:ReverseLookup` redirects
the number to the page of its work. The answer of IMSLP is any: an error, or a
response with any status and any `Location` header, whose bytes need not be text, and
neither need those that its escapes stand for.
-/

namespace Noted

namespace Imslp

open Library

section Names

/-- `^IMSLP0*(\d{1,8})-`: the digits without leading zeros, of which one stays when
there is no other. -/
def imslpFileNumberOf (filename : Text) : Option Text :=
  if "IMSLP".toList.isPrefixOf filename then
    let rest := filename.drop 5
    let digits := rest.takeWhile Char.isDigit
    let number := digits.dropWhile (· == '0')
    if (rest.dropWhile Char.isDigit).head? ≠ some '-' ∨ digits = [] ∨ 8 < number.length then none
    else if number = [] then some ['0']
    else some number
  else none

def regexpSpace (c : Char) : Bool :=
  c == ' ' || c == '\t' || c == '\n' || c == '\r' || c == Char.ofNat 12

def isComposerName (name : Text) : Bool :=
  !name.contains '(' && !name.contains ')' && contains name.tail.dropLast ", ".toList

variable {α : Type} [Letter α]

open Letter (char ofChar)

/-- `^(.*?)\s*\(([^()]+, [^()]+)\)$`: the name in the last parentheses is the
composer's, and the work is what stands before them and white space. -/
def imslpWorkTitle (title : List α) : Option (List α × List α) :=
  match Url.cutLast '(' title with
  | none => none
  | some (before, rest) =>
    let work := before.rdropWhile fun c => regexpSpace (char c)
    if (asText rest).getLast? = some ')' ∧ isComposerName (asText rest.dropLast) = true ∧
        '\n' ∉ asText work then
      some (work, rest.dropLast)
    else none

def imslpWorkName (title : List α) : Option (List α × List α) :=
  match imslpWorkTitle title with
  | none => none
  | some (work, composer) =>
    if asText (trimRunes work) = [] then none else some (trimRunes work, trimRunes composer)

def validIMSLPWorkURL (raw : List α) : Bool :=
  match Url.Parse raw with
  | none => false
  | some u =>
    u.scheme == "https".toList &&
      (u.host == utf8 "imslp.org".toList || u.host == utf8 "www.imslp.org".toList) &&
      !u.hasUser && (utf8 "/wiki/".toList).isPrefixOf u.path && 6 < u.path.length &&
      asText (Url.rawQuery raw) == [] && asText (Url.fragment raw) == []

def encodeTitle (raw : List α) : List α :=
  raw.flatMap fun c =>
    if char c = '?' then "%3F".toList.map ofChar
    else if char c = '#' then "%23".toList.map ofChar
    else [c]

def canonicalIMSLPWorkURL (raw : List α) : Option (List α) :=
  if "https://imslp.org/wiki/".toList.isPrefixOf (asText raw) ∨
      "https://www.imslp.org/wiki/".toList.isPrefixOf (asText raw) then
    if validIMSLPWorkURL (encodeTitle raw) then some (encodeTitle raw) else none
  else none

def locationLink (location : GoString) : GoString :=
  let raw := (trimRunes location).takeWhile (char · ≠ '#')
  if "//".toList.isPrefixOf (asText raw) then goString "https:".toList ++ raw
  else if "/wiki/".toList.isPrefixOf (asText raw) then goString "https://imslp.org".toList ++ raw
  else if "http://".toList.isPrefixOf (asText raw) then goString "https://".toList ++ raw.drop 7
  else raw

def pageTitle (path : GoString) : GoString :=
  (if "/wiki/".toList.isPrefixOf (asText path) then path.drop 6 else path).map fun c =>
    if c = .char '_' then .char ' ' else c

def imslpWorkFromLocation (location : Bytes) : Option IMSLPWork := do
  let url ← canonicalIMSLPWorkURL (locationLink (runes location))
  let parsed ← Url.Parse url
  let (title, composer) ← imslpWorkName (pageTitle (runes parsed.path))
  pure ⟨title, composer, url⟩

end Names

section Lookup

/-- What `client.Do` gives: an error, or a response, of which a 429 may ask to wait. -/
inductive Response
  | error
  | response (status : Int) (location : Bytes) (retryAfter : ℚ)
  deriving DecidableEq

abbrev FoundWork := { work : IMSLPWork // ∃ location, imslpWorkFromLocation location = some work }

def foundWork (location : Bytes) : Option FoundWork :=
  match h : imslpWorkFromLocation location with
  | none => none
  | some work => some ⟨work, location, h⟩

def reverseLookup (answer : Response) : Option FoundWork × Outcome :=
  match answer with
  | .error => (none, ⟨true, 0⟩)
  | .response status location retryAfter =>
    if status = 429 then (none, ⟨true, retryAfter⟩)
    else if 500 ≤ status then (none, ⟨true, 0⟩)
    else if 300 ≤ status ∧ status < 400 then
      match foundWork location with
      | none => (none, ⟨true, 0⟩)
      | some work => (some work, ⟨false, 0⟩)
    else (none, ⟨false, 0⟩)

structure FileEntry where
  number : Text
  work : FoundWork
  expires : ℚ

abbrev FileCache := List FileEntry

def cachedFile (number : Text) (now : ℚ) (files : FileCache) : Option FoundWork × FileCache :=
  match files.find? fun entry => entry.number == number with
  | none => (none, files)
  | some entry =>
    let others := files.filter fun other => other.number != number
    if entry.expires ≤ now then (none, others) else (some entry.work, entry :: others)

structure CacheLimits where
  fileCacheTTL : ℚ
  fileCacheSize : Nat

def storeFile (limits : CacheLimits) (number : Text) (work : FoundWork) (now : ℚ)
    (files : FileCache) : FileCache :=
  let entry := ⟨number, work, now + limits.fileCacheTTL⟩
  if files.any fun other => other.number == number then
    entry :: files.filter fun other => other.number != number
  else (entry :: files).take limits.fileCacheSize

/-- What a lookup meets: the times at which it starts and ends, whether the limiter
lets it out, and what IMSLP answers. -/
structure Lookup where
  started : ℚ
  ended : ℚ
  outbound : Bool
  answer : Response
  deriving DecidableEq

/-- Every way but a redirect to a work page ends without a work. -/
def resolveFile (cfg : Controls) (limits : CacheLimits) (number : Text) (l : Lookup)
    (b : Breaker) (files : FileCache) : Option FoundWork × Breaker × FileCache :=
  match cachedFile number l.started files with
  | (some work, files) => (some work, b, files)
  | (none, files) =>
    match b.admitRequest l.started with
    | ((_, false), b) => (none, b, files)
    | ((probe, true), b) =>
      if l.outbound = false then (none, b.abandonProbe probe, files)
      else
        match reverseLookup l.answer with
        | (none, outcome) => (none, b.record cfg probe outcome l.ended, files)
        | (some work, outcome) =>
          (some work, b.record cfg probe outcome l.ended,
            storeFile limits number work l.ended files)

end Lookup

section Found

theorem encodeTitle_no_hash (raw : GoString) : '#' ∉ asText (encodeTitle raw) := by
  intro h
  obtain ⟨d, hd, hhash⟩ := List.mem_map.mp h
  obtain ⟨c, -, hc⟩ := List.mem_flatMap.mp hd
  split_ifs at hc with hquery hnumber
  · simp at hc
    obtain rfl | rfl | rfl := hc <;> cases hhash
  · simp at hc
    obtain rfl | rfl | rfl := hc <;> cases hhash
  · obtain rfl : d = c := by simpa using hc
    exact hnumber hhash

theorem canonicalIMSLPWorkURL_ok {α : Type} [Letter α] {raw url : List α}
    (h : canonicalIMSLPWorkURL raw = some url) :
    validIMSLPWorkURL url = true ∧ url = encodeTitle raw := by
  unfold canonicalIMSLPWorkURL at h
  split_ifs at h with hprefix hvalid
  obtain rfl := Option.some.inj h
  exact ⟨hvalid, rfl⟩

theorem FoundWork.valid (w : FoundWork) : validIMSLPWorkURL w.1.url = true ∧ '#' ∉ asText w.1.url := by
  obtain ⟨work, location, h⟩ := w
  obtain ⟨url, hurl, h⟩ := Option.bind_eq_some_iff.mp h
  obtain ⟨parsed, -, h⟩ := Option.bind_eq_some_iff.mp h
  obtain ⟨⟨title, composer⟩, -, h⟩ := Option.bind_eq_some_iff.mp h
  obtain rfl := Option.some.inj h
  obtain ⟨hvalid, rfl⟩ := canonicalIMSLPWorkURL_ok hurl
  exact ⟨hvalid, encodeTitle_no_hash _⟩

theorem foundWork_eq_some {location : Bytes} {w : FoundWork} :
    foundWork location = some w ↔ imslpWorkFromLocation location = some w.1 := by
  obtain ⟨work, hwork⟩ := w
  unfold foundWork
  split
  · rename_i h
    simp [h]
  · rename_i found h
    simp [h]

variable {cfg : Controls} {limits : CacheLimits} {number : Text} {l : Lookup} {b : Breaker}
  {files : FileCache} {w : FoundWork}

/-- The two ways to a work: a lookup found before, or one that gets through and is
redirected to a work page. -/
inductive Finds (number : Text) (l : Lookup) (b : Breaker) (files : FileCache) : FoundWork → Prop
  | cached (entry : FileEntry) (hentry : files.find? (fun e => e.number == number) = some entry)
      (hfresh : l.started < entry.expires) : Finds number l b files entry.work
  | redirected (status : Int) (location : Bytes) (retryAfter : ℚ) (w : FoundWork)
      (hmissing : (cachedFile number l.started files).1 = none)
      (hadmitted : (b.admitRequest l.started).1.2 = true) (hout : l.outbound = true)
      (hanswer : l.answer = .response status location retryAfter)
      (hstatus : 300 ≤ status ∧ status < 400) (hwork : imslpWorkFromLocation location = some w.1) :
      Finds number l b files w

theorem cachedFile_eq_some {now : ℚ} : (cachedFile number now files).1 = some w ↔
    ∃ entry, files.find? (fun e => e.number == number) = some entry ∧ now < entry.expires ∧
      entry.work = w := by
  unfold cachedFile
  cases hfind : files.find? fun e => e.number == number with
  | none => simp
  | some entry =>
    by_cases hexpired : entry.expires ≤ now
    · simp [hexpired, not_lt.mpr hexpired]
    · simp [hexpired, not_le.mp hexpired]

theorem reverseLookup_eq_some {answer : Response} : (reverseLookup answer).1 = some w ↔
    ∃ status location retryAfter, answer = .response status location retryAfter ∧
      (300 ≤ status ∧ status < 400) ∧ imslpWorkFromLocation location = some w.1 := by
  cases answer with
  | error => simp [reverseLookup]
  | response status location retryAfter =>
    have hredirect : (reverseLookup (.response status location retryAfter)).1 =
        if 300 ≤ status ∧ status < 400 then foundWork location else none := by
      simp only [reverseLookup]
      cases foundWork location with
      | none => split_ifs <;> rfl
      | some found => split_ifs <;> first | rfl | omega
    rw [hredirect]
    constructor
    · intro h
      split_ifs at h with hstatus
      exact ⟨status, location, retryAfter, rfl, hstatus, foundWork_eq_some.mp h⟩
    · intro h
      obtain ⟨_, _, _, heq, hstatus, hwork⟩ := h
      obtain ⟨rfl, rfl, rfl⟩ := Response.response.inj heq
      rw [if_pos hstatus]
      exact foundWork_eq_some.mpr hwork

theorem resolveFile_eq_some :
    (resolveFile cfg limits number l b files).1 = some w ↔ Finds number l b files w := by
  have hcases : (resolveFile cfg limits number l b files).1 =
      (cachedFile number l.started files).1.or
        (if (b.admitRequest l.started).1.2 = true ∧ l.outbound = true then (reverseLookup l.answer).1
        else none) := by
    unfold resolveFile
    obtain ⟨cached, files⟩ := cachedFile number l.started files
    cases cached with
    | some found => rfl
    | none =>
      obtain ⟨⟨probe, admitted⟩, b⟩ := b.admitRequest l.started
      obtain ⟨found, outcome⟩ := reverseLookup l.answer
      cases admitted <;> cases l.outbound <;> cases found <;> rfl
  rw [hcases]
  constructor
  · intro h
    cases hcached : (cachedFile number l.started files).1 with
    | some found =>
      rw [hcached] at h
      obtain rfl : found = w := by simpa using h
      obtain ⟨entry, hentry, hfresh, rfl⟩ := cachedFile_eq_some.mp hcached
      exact .cached entry hentry hfresh
    | none =>
      rw [hcached, Option.none_or] at h
      split_ifs at h with hgoes
      obtain ⟨status, location, retryAfter, hanswer, hstatus, hwork⟩ := reverseLookup_eq_some.mp h
      exact .redirected status location retryAfter w hcached hgoes.1 hgoes.2 hanswer hstatus hwork
  · intro h
    cases h with
    | cached entry hentry hfresh =>
      rw [cachedFile_eq_some.mpr ⟨entry, hentry, hfresh, rfl⟩]
      rfl
    | redirected status location retryAfter w hmissing hadmitted hout hanswer hstatus hwork =>
      rw [hmissing, Option.none_or, if_pos ⟨hadmitted, hout⟩]
      exact reverseLookup_eq_some.mpr ⟨status, location, retryAfter, hanswer, hstatus, hwork⟩

end Found

end Imslp

end Noted
