import Mathlib.Data.List.TakeWhile

/-!
# URLs without a path

Go's `net/url.Parse`, over bytes, as far as **the opaque part and the fragment** of its result go.
A URL whose scheme is not followed by a slash has an opaque part: everything up to the query. For
any other URL that part is empty, and whether its host and path can be parsed at all is a parameter
here.
-/

set_option autoImplicit false

namespace Didem.Lib.Url

/-- A parsed URL. -/
structure Parsed where
  opaquePart : List UInt8
  fragment : List UInt8
  deriving DecidableEq, Repr

/-- `strings.Cut` at one byte: what is before the first such byte, and what is after it. -/
def cut (sep : UInt8) (s : List UInt8) : List UInt8 × List UInt8 :=
  (s.takeWhile (· ≠ sep), (s.dropWhile (· ≠ sep)).drop 1)

def isLetter (c : UInt8) : Bool := (97 ≤ c && c ≤ 122) || (65 ≤ c && c ≤ 90)

def isDigit (c : UInt8) : Bool := 48 ≤ c && c ≤ 57

/-- The other bytes of a scheme, which cannot be its first: digits, `+`, `-` and `.`. -/
def isSchemeTail (c : UInt8) : Bool := isDigit c || c = 43 || c = 45 || c = 46

/-- The loop of `getScheme`, at an index of the URL and the bytes from there on. -/
def schemeFrom (rawURL : List UInt8) : Nat → List UInt8 → Option (List UInt8 × List UInt8)
  | _, [] => some ([], rawURL)
  | i, c :: cs =>
    if isLetter c then schemeFrom rawURL (i + 1) cs
    else if isSchemeTail c then
      if i = 0 then some ([], rawURL) else schemeFrom rawURL (i + 1) cs
    else if c = 58 then
      -- A URL that starts with the colon misses its scheme.
      if i = 0 then none else some (rawURL.take i, rawURL.drop (i + 1))
    else some ([], rawURL)

/-- `getScheme`: the scheme, which may be empty, and the rest. -/
def getScheme (rawURL : List UInt8) : Option (List UInt8 × List UInt8) := schemeFrom rawURL 0 rawURL

/-- `stringContainsCTLByte`. -/
def containsCTLByte (s : List UInt8) : Bool := s.any fun c => c < 32 || c = 127

def unhex (c : UInt8) : Option UInt8 :=
  if isDigit c then some (c - 48)
  else if 97 ≤ c ∧ c ≤ 102 then some (c - 87)
  else if 65 ≤ c ∧ c ≤ 70 then some (c - 55)
  else none

/-- `unescape` in a fragment: a percent sign must be followed by two hexadecimal digits. -/
def unescape : List UInt8 → Option (List UInt8)
  | [] => some []
  | 37 :: a :: b :: s => do
    let high ← unhex a
    let low ← unhex b
    return (high * 16 + low) :: (← unescape s)
  | 37 :: _ => none
  | c :: s => (unescape s).map (c :: ·)

/-- Where the longest good start of a list ends, the list does or a bad element follows. -/
theorem eq_append_of_takeWhile {p : UInt8 → Bool} {s word : List UInt8} (h : s.takeWhile p = word) :
    ∃ tail, s = word ++ tail ∧ ∀ c ∈ tail.head?, p c = false := by
  refine ⟨s.dropWhile p, ?_, ?_⟩
  · rw [← h, List.takeWhile_append_dropWhile]
  · intro c hc
    have hnot := List.head?_dropWhile_not p s
    rw [Option.mem_def.mp hc] at hnot
    simpa using hnot

section Parse

-- Whether the part after a scheme is parsed where it is a host or a path.
variable (hierarchical : List UInt8 → List UInt8 → Bool)

/-- `parse`, for the URL up to its fragment: the opaque part. The query is cut off the same way
whether or not it is empty. -/
def parseOpaque (rawURL : List UInt8) : Option (List UInt8) :=
  if containsCTLByte rawURL then none
  else if rawURL = [42] then some []
  else do
    let (scheme, rest) ← getScheme rawURL
    let rest := (cut 63 rest).1
    if rest.head? ≠ some 47 ∧ scheme ≠ [] then some rest
    else if hierarchical scheme rest then some []
    else none

/-- `Parse`; no URL is returned with an error. -/
def parse (rawURL : List UInt8) : Option Parsed := do
  let (u, frag) := cut 35 rawURL
  let opaquePart ← parseOpaque hierarchical u
  let fragment ← unescape frag
  return ⟨opaquePart, fragment⟩

/-! ## The opaque part -/

theorem schemeFrom_letters {scheme rest : List UInt8} (hletter : ∀ c ∈ scheme, isLetter c = true)
    (rawURL : List UInt8) (i : Nat) :
    schemeFrom rawURL i (scheme ++ 58 :: rest) = schemeFrom rawURL (i + scheme.length)
      (58 :: rest) := by
  induction scheme generalizing i with
  | nil => rfl
  | cons c scheme ih =>
    rw [List.forall_mem_cons] at hletter
    rw [List.cons_append, schemeFrom, if_pos hletter.1, ih hletter.2, List.length_cons]
    congr 1
    omega

theorem getScheme_append {scheme rest : List UInt8} (hletter : ∀ c ∈ scheme, isLetter c = true)
    (hne : scheme ≠ []) : getScheme (scheme ++ 58 :: rest) = some (scheme, rest) := by
  have hlength : 0 + scheme.length ≠ 0 := by
    simpa using hne
  rw [getScheme, schemeFrom_letters hletter, schemeFrom, if_neg (by decide), if_neg (by decide),
    if_pos rfl, if_neg hlength, Nat.zero_add, List.take_left]
  simp

/-- The opaque part of a URL is what stands between its scheme and its query, or it is empty. -/
theorem eq_of_parseOpaque {scheme rest part : List UInt8}
    (hletter : ∀ c ∈ scheme, isLetter c = true) (hne : scheme ≠ [])
    (h : parseOpaque hierarchical (scheme ++ 58 :: rest) = some part) :
    part = (cut 63 rest).1 ∨ part = [] := by
  rw [parseOpaque, getScheme_append hletter hne] at h
  split_ifs at h with _ _
  · exact .inr (Option.some.inj h).symm
  · replace h : (if _ then some _ else if _ then some [] else none) = some part := h
    split_ifs at h with _ _
    · exact .inl (Option.some.inj h).symm
    · exact .inr (Option.some.inj h).symm

/-- A fragment is cut off before, and no scheme has its sign. -/
theorem cut_fragment_fst {scheme : List UInt8} (hletter : ∀ c ∈ scheme, isLetter c = true)
    (rest : List UInt8) : (cut 35 (scheme ++ 58 :: rest)).1 = scheme ++ 58 :: (cut 35 rest).1 := by
  have hscheme : ∀ c ∈ scheme, decide (c ≠ 35) = true := by
    intro c hc
    rw [decide_eq_true_eq]
    rintro rfl
    exact absurd (hletter 35 hc) (by decide)
  rw [cut, List.takeWhile_append_of_pos hscheme, List.takeWhile_cons_of_pos (by decide)]
  rfl

theorem opaquePart_of_parse {scheme rest : List UInt8} {p : Parsed}
    (hletter : ∀ c ∈ scheme, isLetter c = true) (hne : scheme ≠ [])
    (h : parse hierarchical (scheme ++ 58 :: rest) = some p) :
    p.opaquePart = (cut 63 (cut 35 rest).1).1 ∨ p.opaquePart = [] := by
  obtain ⟨part, hpart, hp⟩ := Option.bind_eq_some_iff.mp h
  obtain ⟨fragment, -, hp⟩ := Option.bind_eq_some_iff.mp hp
  obtain rfl : (⟨part, fragment⟩ : Parsed) = p := Option.some.inj hp
  replace hpart : parseOpaque hierarchical (cut 35 (scheme ++ 58 :: rest)).1 = some part := hpart
  rw [cut_fragment_fst hletter] at hpart
  exact eq_of_parseOpaque hierarchical hletter hne hpart

/-- A first word of the opaque part that is not empty stands right after the scheme, and the URL
ends or goes on with a fragment, a query or a colon. -/
theorem eq_append_of_parse {scheme rest word : List UInt8} {p : Parsed}
    (hletter : ∀ c ∈ scheme, isLetter c = true) (hne : scheme ≠ [])
    (h : parse hierarchical (scheme ++ 58 :: rest) = some p) (hword : word ≠ [])
    (hcut : (cut 58 p.opaquePart).1 = word) :
    ∃ tail, rest = word ++ tail ∧ ∀ c ∈ tail.head?, c = 35 ∨ c = 63 ∨ c = 58 := by
  rcases opaquePart_of_parse hierarchical hletter hne h with hp | hp
  · rw [hp] at hcut
    simp only [cut, List.takeWhile_takeWhile] at hcut
    obtain ⟨tail, hrest, htail⟩ := eq_append_of_takeWhile hcut
    refine ⟨tail, hrest, fun c hc => ?_⟩
    have := htail c hc
    grind
  · rw [hp] at hcut
    exact absurd hcut.symm hword

end Parse

end Didem.Lib.Url
