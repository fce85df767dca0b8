import Mathlib.Algebra.GroupWithZero.Nat
import Mathlib.Data.String.Basic

/-! The fence around the names of the axes: how a name is normalized, and which normalized names
speak of authority. -/

namespace AshA2A.Semantic.AxisFence

/-- The code points of a valid binary. -/
abbrev Text := List Char

/-! ## Words -/

def forbiddenAxes : List Text :=
  ["authority", "permission", "execution_grant", "execution_authority", "do"].map String.toList

/-- Refused wherever they are a whole token. -/
def forbiddenTokens : List Text :=
  ["do", "does", "authority", "authorities", "authorization", "authorizations", "authorize", "authorized",
    "permission", "permissions", "permitted", "grant", "grants", "granted", "granting", "grantee", "grantor",
    "lease", "leases", "leased", "leasing", "credential", "credentials", "token", "tokens", "privilege",
    "privileges", "privileged", "sudo", "superuser", "admin", "admins", "administrator",
    "administrators"].map String.toList

def maxTokenBytes : Nat := 14

def maxRootBytes : Nat := 6

/-- Refused anywhere in the name without separators. -/
def forbiddenStems : List Text :=
  ["authori", "authoris", "permission", "permit", "privileg", "credential", "entitle"].map String.toList

/-- Refused in front of any token, and behind it also with an `s`. -/
def forbiddenAffixes : List Text := ["grant", "lease", "token"].map String.toList

def forbiddenSuffixes : List Text := forbiddenAffixes.flatMap fun affix => [affix, affix ++ ['s']]

/-- Ordinary words that merely end like an affix. -/
def benignAffixWords : List Text :=
  ["fragrant", "flagrant", "vagrant", "migrant", "emigrant", "immigrant", "release", "please"].map String.toList

/-- Letters that look like Latin ones. -/
def homoglyphs : List (Char × Char) :=
  [('\u0430', 'a'), ('\u0431', 'b'), ('\u0432', 'b'), ('\u0435', 'e'), ('\u0451', 'e'), ('\u0433', 'r'),
    ('\u0456', 'i'), ('\u0457', 'i'), ('\u0458', 'j'), ('\u043A', 'k'), ('\u043C', 'm'), ('\u043D', 'h'),
    ('\u043E', 'o'), ('\u0440', 'p'), ('\u0441', 'c'), ('\u0442', 't'), ('\u0443', 'y'), ('\u0445', 'x'),
    ('\u0455', 's'), ('\u0501', 'd'), ('\u04BB', 'h'), ('\u04CF', 'l'), ('\u0261', 'g'), ('\u0131', 'i'),
    ('\u0251', 'a'), ('\u0237', 'j'), ('\u03B1', 'a'), ('\u03B5', 'e'), ('\u03B9', 'i'), ('\u03BA', 'k'),
    ('\u03BD', 'v'), ('\u03BF', 'o'), ('\u03C1', 'p'), ('\u03C4', 't'), ('\u03C5', 'u'), ('\u03C7', 'x')]

def leetI : List (Char × Char) := [('0', 'o'), ('1', 'i'), ('3', 'e'), ('4', 'a'), ('5', 's'), ('7', 't'), ('8', 'b')]

def leetL : List (Char × Char) := [('0', 'o'), ('1', 'l'), ('3', 'e'), ('4', 'a'), ('5', 's'), ('7', 't'), ('8', 'b')]

/-! ## Normalization -/

/-- The tables of the runtime: NFKC, the categories Cf and Mn, Ll, Lu, L and N, and
`String.downcase/1`. -/
structure Unicode where
  nfkc : Text → Text
  invisible : Char → Bool
  lower : Char → Bool
  upper : Char → Bool
  letter : Char → Bool
  number : Char → Bool
  downcase : Text → Text

def ascii (text : Text) : Bool := text.all fun char => char.toNat < 128

/-- An upper-case letter starts a word behind a lower-case letter or a digit, and behind an upper-case
letter in front of a lower-case one. -/
def camelBoundary (prev : Option Char) (rest : Text) : Bool :=
  match prev, rest with
  | some prev, next :: _ => prev.isLower || prev.isDigit || (prev.isUpper && next.isLower)
  | some prev, [] => prev.isLower || prev.isDigit
  | none, _ => false

/-- `String.trim_trailing(text, "_")`. -/
def trimTrailing (text : Text) : Text := (text.reverse.dropWhile (· = '_')).reverse

def foldAscii : Text → Option Char → Text → Text
  | [], _, acc => trimTrailing acc
  | char :: rest, prev, acc =>
    if char.isLower || char.isDigit then foldAscii rest (some char) (acc ++ [char])
    else if char.isUpper then
      foldAscii rest (some char) ((if camelBoundary prev rest then acc ++ ['_'] else acc) ++ [char.toLower])
    else if acc = [] then foldAscii rest (some char) []
    else if acc.getLast? = some '_' then foldAscii rest (some char) acc
    else foldAscii rest (some char) (acc ++ ['_'])

section Unicode
variable (unicode : Unicode)

/-- `(?<=[\p{Ll}\p{N}])(?=\p{Lu})|(?<=\p{Lu})(?=\p{Lu}\p{Ll})` in front of `char`. -/
def wordStarts (prev : Option Char) (char : Char) (rest : Text) : Bool :=
  match prev with
  | none => false
  | some prev =>
    ((unicode.lower prev || unicode.number prev) && unicode.upper char) ||
      (unicode.upper prev && unicode.upper char && match rest with
        | next :: _ => unicode.lower next
        | [] => false)

def splitWords (prev : Option Char) : Text → Text
  | [] => []
  | char :: rest =>
    (if wordStarts unicode prev char rest then ['_', char] else [char]) ++ splitWords (some char) rest

/-- Each run of other characters becomes one sign; `gap` is set within a run. -/
def collapse (gap : Bool) : Text → Text
  | [] => []
  | char :: rest =>
    if unicode.letter char || unicode.number char then char :: collapse false rest
    else if gap then collapse true rest
    else '_' :: collapse true rest

/-- `String.trim(text, "_")`. -/
def trim (text : Text) : Text := trimTrailing (text.dropWhile (· = '_'))

def normalizeUnicode (axis : Text) : Text :=
  trim (collapse unicode false (unicode.downcase (splitWords unicode none
    ((unicode.nfkc axis).filter fun char => ! unicode.invisible char))))

/-- `normalize_axis/1` of a valid binary. -/
def normalizeAxis (axis : Text) : Text :=
  if ascii axis then foldAscii axis none [] else normalizeUnicode unicode axis

end Unicode

/-! ## Tokens -/

def byteSize (text : Text) : Nat := (text.map Char.utf8Size).sum

def affixPrefix (token : Text) : Bool := forbiddenAffixes.any fun root => root.isPrefixOf token

def affixSuffix (token : Text) : Bool := forbiddenSuffixes.any fun suffix => suffix.isSuffixOf token

def forbiddenToken (token : Text) : Bool :=
  token ∈ forbiddenTokens || ((affixPrefix token || affixSuffix token) && token ∉ benignAffixWords)

def stopsLeft (acc : Text) : Bool := maxTokenBytes ≤ byteSize acc

def stopsRight (run : Text) : Bool := maxRootBytes ≤ byteSize run ∧ run ∉ benignAffixWords

def growLeft (acc : Text) : List Text → Bool
  | [] => false
  | next :: tail =>
    if maxTokenBytes ≤ byteSize acc then false else forbiddenToken (acc ++ next) || growLeft (acc ++ next) tail

def forbiddenLeftRuns : List Text → Bool
  | [] => false
  | head :: tail => growLeft head tail || forbiddenLeftRuns tail

def growRight (run : Text) : List Text → Bool
  | [] => false
  | prev :: earlier =>
    if maxRootBytes ≤ byteSize run ∧ run ∉ benignAffixWords then false
    else forbiddenToken (prev ++ run) || growRight (prev ++ run) earlier

/-- The tokens are the last first. -/
def forbiddenRightRuns : List Text → Bool
  | [] => false
  | last :: earlier => growRight last earlier || forbiddenRightRuns earlier

def forbiddenWindow : List Text → Bool
  | [] | [_] => false
  | tokens => forbiddenLeftRuns tokens || forbiddenRightRuns tokens.reverse

/-- `String.split(normalized, "_", trim: true)`. -/
def tokens (normalized : Text) : List Text := (normalized.splitOn '_').filter (· ≠ [])

/-- `:binary.match(joined, stem_pattern())`. -/
def hasStem (joined : Text) : Bool := forbiddenStems.any fun stem => joined.tails.any stem.isPrefixOf

def forbiddenName (normalized : Text) : Bool :=
  normalized ∈ forbiddenAxes || (tokens normalized).any forbiddenToken || forbiddenToken (tokens normalized).flatten ||
    hasStem (tokens normalized).flatten || forbiddenWindow (tokens normalized)

/-! ## The fence -/

def replaced (table : List (Char × Char)) (name : Text) : Text := name.map fun char => (table.lookup char).getD char

def skeleton (name : Text) : Text := replaced homoglyphs name

def forbiddenLeet (name : Text) : Bool :=
  name.any (· ∈ ['0', '1', '3', '4', '5', '7', '8']) &&
    (forbiddenName (replaced leetI name) || (name.any (· = '1') && forbiddenName (replaced leetL name)))

/-- `fenced?/1` of a valid binary. -/
def fenced (normalized : Text) : Bool :=
  (if ascii normalized then [normalized] else [normalized, skeleton normalized]).any fun spelling =>
    forbiddenName spelling || forbiddenLeet spelling

end AshA2A.Semantic.AxisFence
