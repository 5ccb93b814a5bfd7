-- `urllib.parse.urlsplit` of Python, on code points, and the host of what it gives. Unicode
-- normalization and the reader of IP addresses are parameters. Nothing here names this
-- repository.
import Mathlib.Data.List.Basic

namespace urllib

def codes (text : String) : List Nat := text.toList.map Char.toNat

/-- `partition`: what stands before the first such code, and what stands behind it, if there is
one. -/
def partition (n : Nat) (text : List Nat) : List Nat × Option (List Nat) :=
  (text.takeWhile (· ≠ n), (text.dropWhile (· ≠ n)).tail?)

def isAlpha (n : Nat) : Bool := (65 ≤ n && n ≤ 90) || (97 ≤ n && n ≤ 122)

def isDigit (n : Nat) : Bool := 48 ≤ n && n ≤ 57

def isHex (n : Nat) : Bool := isDigit n || (65 ≤ n && n ≤ 70) || (97 ≤ n && n ≤ 102)

def isSchemeChar (n : Nat) : Bool := isAlpha n || isDigit n || n ∈ codes "+-."

def lower (n : Nat) : Nat := if 65 ≤ n && n ≤ 90 then n + 32 else n

/-- Control characters and spaces in front go, and tabs and line ends go everywhere. -/
def clean (url : List Nat) : List Nat :=
  (url.dropWhile (· ≤ 32)).filter (· ∉ [9, 10, 13])

/-- The scheme is empty where no text before a colon can be one. -/
def splitScheme (url : List Nat) : List Nat × List Nat :=
  match partition ':'.toNat url with
  | (scheme, some rest) =>
    if (scheme.head?.any isAlpha) && scheme.all isSchemeChar then (scheme.map lower, rest)
    else ([], url)
  | (_, none) => ([], url)

/-- The part behind two slashes, up to the next delimiter. -/
def splitNetloc (url : List Nat) : List Nat × List Nat :=
  if (codes "//").isPrefixOf url then (url.drop 2).span (· ∉ codes "/?#") else ([], url)

structure SplitResult where
  scheme : List Nat
  netloc : List Nat
  path : List Nat
  query : List Nat
  fragment : List Nat
  deriving DecidableEq, Repr

section

-- `unicodedata.normalize` to NFKC, and whether `ipaddress.ip_address` gives an IPv6 address.
variable (normalize : List Nat → List Nat) (is_ipv6 : List Nat → Bool)

/-- An address in brackets is `v`, hexadecimal digits, a dot and more, or one of IPv6. -/
def check_bracketed_host (host : List Nat) : Bool :=
  if (codes "v").isPrefixOf host then
    let version := host.tail.takeWhile isHex
    let rest := host.tail.dropWhile isHex
    version ≠ [] && (codes ".").isPrefixOf rest && rest.tail ≠ [] && 10 ∉ rest.tail
  else is_ipv6 host

def check_brackets (netloc : List Nat) : Bool :=
  match decide ('['.toNat ∈ netloc), decide (']'.toNat ∈ netloc) with
  | false, false => true
  | true, true => check_bracketed_host is_ipv6
      (partition ']'.toNat ((partition '['.toNat netloc).2.getD [])).1
  | _, _ => false

/-- No character may become a delimiter when it is normalized. -/
def check_netloc (netloc : List Nat) : Bool :=
  let n := netloc.filter (· ∉ codes "@:#?")
  netloc.all (· < 128) || normalize n = n || (normalize n).all (· ∉ codes "/?#@:")

/-- `none` is the ValueError. -/
def urlsplit (url : List Nat) : Option SplitResult :=
  let (scheme, rest) := splitScheme (clean url)
  let (netloc, rest) := splitNetloc rest
  if check_brackets is_ipv6 netloc && check_netloc normalize netloc then
    let (rest, fragment) := partition '#'.toNat rest
    let (path, query) := partition '?'.toNat rest
    some ⟨scheme, netloc, path, query.getD [], fragment.getD []⟩
  else none

end

theorem notMem_partition (n : Nat) (text : List Nat) : n ∉ (partition n text).1 := by
  intro hmem
  have hne := List.all_eq_true.mp List.all_takeWhile n hmem
  simp at hne

/-- A path has no mark of a query or of a fragment. -/
theorem notMem_path {normalize : List Nat → List Nat} {is_ipv6 : List Nat → Bool}
    {url : List Nat} {r : SplitResult} (h : urlsplit normalize is_ipv6 url = some r) :
    '?'.toNat ∉ r.path ∧ '#'.toNat ∉ r.path := by
  unfold urlsplit at h
  obtain ⟨_, heq⟩ := Option.ite_none_right_eq_some.mp h
  cases heq
  refine ⟨notMem_partition _ _, fun hmem => ?_⟩
  exact notMem_partition '#'.toNat _ ((List.takeWhile_sublist _).subset hmem)

/-- The text behind the last such code, or all of it. -/
def behindLast (n : Nat) (text : List Nat) : List Nat := (text.reverse.takeWhile (· ≠ n)).reverse

/-- `hostname`, without lower case. It is None when this is empty. -/
def SplitResult.host (r : SplitResult) : List Nat :=
  let hostinfo := behindLast '@'.toNat r.netloc
  match partition '['.toNat hostinfo with
  | (_, some bracketed) => (partition ']'.toNat bracketed).1
  | (host, none) => (partition ':'.toNat host).1

/-- A url with a host has a netloc. -/
theorem netloc_ne_nil {r : SplitResult} (h : r.host ≠ []) : r.netloc ≠ [] := by
  intro hnil
  refine h ?_
  unfold SplitResult.host
  rw [hnil]
  rfl

end urllib
