import Boli.Text.Digit
import Boli.Text.Quoted
import Boli.Text.Split

/-!
# Hosts

The authority of a URI names a host.  A name is free, but a host in brackets has to be an address of
sixteen bytes, or one of a kind still to come, which starts with the letter `v`.

* `Host.isShort` tells the addresses of four bytes, and `Host.isLong` those of sixteen.
* `Host.check` is what is wrong with an authority.
-/

namespace Boli

/-- Why a URI names no place. -/
inductive UriError where
  /-- A bracket in the authority has no partner. -/
  | unbalanced
  /-- There is no address in the brackets. -/
  | notAnAddress (host : String)
  /-- There is an address of four bytes in the brackets. -/
  | shortAddress
  /-- There is no address of a kind still to come in the brackets. -/
  | futureAddress
  /-- The authority has a character that stands for one that would end it. -/
  | lookalike (authority : String)
deriving DecidableEq, Repr

/-- The wording of an error. -/
def UriError.message : UriError → String
  | unbalanced => "Invalid IPv6 URL"
  | notAnAddress host =>
    Text.quoted host ++ " does not appear to be an IPv4 or IPv6 address"
  | shortAddress => "An IPv4 address cannot be in brackets"
  | futureAddress => "IPvFuture address is invalid"
  | lookalike authority =>
    "netloc '" ++ authority ++ "' contains invalid characters under NFKC normalization"

namespace Host

open Boli.Text

/-- A byte in decimal digits, without a zero in front. -/
def isByte (cs : List Char) : Bool :=
  cs.all Char.isDigit && cs.length ≤ 3 && ofDigits cs ≤ 255 &&
    (cs == ['0'] || cs.head?.any (· != '0'))

/-- Four bytes with points between them. -/
def isShort (cs : List Char) : Bool :=
  let bytes := split '.' cs
  bytes.length == 4 && bytes.all isByte

/-- A hexadecimal digit. -/
def isHexDigit (c : Char) : Bool :=
  c.isDigit || ('a' ≤ c && c ≤ 'f') || ('A' ≤ c && c ≤ 'F')

/-- Two bytes in hexadecimal digits. -/
def isGroup (cs : List Char) : Bool :=
  !cs.isEmpty && cs.length ≤ 4 && cs.all isHexDigit

/-- Groups, the last of which may be a short address in place of two of them. -/
def expanded (groups : List (List Char)) : List (List Char) :=
  if groups.getLast?.any isShort then groups.dropLast ++ [['0'], ['0']] else groups

/-- The groups behind a gap.  There are none if the gap comes last. -/
def behindGap? : List (List Char) → Option (List (List Char))
  | [] => none
  | [[]] => some []
  | groups => some groups

/-- The groups on either side of a gap. -/
def aroundGap? (groups : List (List Char)) : Option (List (List Char) × List (List Char)) :=
  match groups with
  | [] :: [] :: rest => (behindGap? rest).map ([], ·)
  | [] :: _ => none
  | groups =>
    let front := groups.takeWhile (!·.isEmpty)
    (behindGap? (groups.drop (front.length + 1))).map (front, ·)

/-- Eight groups with colons between them, some of which a gap may stand for. -/
def isGroups (cs : List Char) : Bool :=
  let groups := expanded (split ':' cs)
  (groups.length == 8 && groups.all isGroup) ||
    (aroundGap? groups).any fun (front, rest) =>
      front.length + rest.length ≤ 7 && front.all isGroup && rest.all isGroup

/-- An address of sixteen bytes, perhaps with the name of a zone behind a percent sign. -/
def isLong (cs : List Char) : Bool :=
  match split '%' cs with
  | [address] => isGroups address
  | [address, zone] => !zone.isEmpty && isGroups address
  | _ => false

/-- An address of a kind still to come: the letter `v` with hexadecimal digits, a point, and
anything but nothing. -/
def isFuture (cs : List Char) : Bool :=
  match cs with
  | 'v' :: rest =>
    let version := rest.takeWhile isHexDigit
    match rest.drop version.length with
    | '.' :: _ :: _ => !version.isEmpty
    | _ => false
  | _ => false

/-- The characters in the first pair of brackets. -/
def bracketed (authority : List Char) : List Char :=
  ((authority.dropWhile (· != '[')).drop 1).takeWhile (· != ']')

/-- What is wrong with a host in brackets. -/
def checkBracketed (host : List Char) : Except UriError Unit :=
  if host.head? = some 'v' then
    if isFuture host then .ok () else .error .futureAddress
  else if isShort host then .error .shortAddress
  else if isLong host then .ok ()
  else .error (.notAnAddress (String.ofList host))

/-- The code points that stand for a slash, a question mark, a hash, an at sign or a colon, alone or
together with others. -/
def lookalikes : List Nat :=
  [0x2047, 0x2048, 0x2049, 0x2100, 0x2101, 0x2105, 0x2106, 0x2A74, 0xFE13, 0xFE16, 0xFE55, 0xFE56,
    0xFE5F, 0xFE6B, 0xFF03, 0xFF0F, 0xFF1A, 0xFF1F, 0xFF20]

/-- What is wrong with the brackets of an authority. -/
def checkBrackets (authority : List Char) : Except UriError Unit :=
  match authority.contains '[', authority.contains ']' with
  | true, true => checkBracketed (bracketed authority)
  | false, false => .ok ()
  | _, _ => .error .unbalanced

/-- What is wrong with an authority. -/
def check (authority : List Char) : Except UriError Unit := do
  checkBrackets authority
  if authority.any fun c => lookalikes.contains c.toNat then
    throw (.lookalike (String.ofList authority))

end Host

end Boli
