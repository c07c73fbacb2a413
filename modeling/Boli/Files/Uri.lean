import Boli.Files.Basic

/-!
# File URIs

A file URI is `file://` and an absolute path, in which every byte that is not a letter, a digit, a
slash or one of `_.-~` is written as a percent sign and two digits.

* `fileUri` is the URI of a path.
* `Uri.path` is the path that a URI leads to.  It takes URIs of all schemes, and of malformed ones
  what can be made of them, unless `Host.check` refuses the authority.
* `Folder` is a directory at an absolute path, and `Folder.readText` reads a file from it.
-/

namespace Boli

namespace Uri

/-- The byte stands for itself in a URI. -/
def isPlain (b : UInt8) : Bool :=
  let c := Char.ofNat b.toNat
  c.isAlphanum || "_.-~/".toList.contains c

/-- The way a byte is written in a URI. -/
def escape (b : UInt8) : List Char :=
  if isPlain b then [Char.ofNat b.toNat]
  else '%' :: (Text.hex 2 b.toNat).map Char.toUpper

/-- The value of a hexadecimal digit. -/
def hexDigit? (c : Char) : Option Nat :=
  if '0' ≤ c ∧ c ≤ '9' then some (c.toNat - '0'.toNat)
  else if 'a' ≤ c ∧ c ≤ 'f' then some (c.toNat - 'a'.toNat + 10)
  else if 'A' ≤ c ∧ c ≤ 'F' then some (c.toNat - 'A'.toNat + 10)
  else none

/-- The byte of an escape, from the characters after its percent sign. -/
def escaped? : List Char → Option UInt8
  | high :: low :: _ => do
    let high ← hexDigit? high
    let low ← hexDigit? low
    return UInt8.ofNat (high * 16 + low)
  | _ => none

/-- The bytes that some characters of a URI stand for, the first `inside` of which belong to an
escape already read. -/
def bytes (inside : Nat) : List Char → List UInt8
  | [] => []
  | c :: cs =>
    match inside with
    | inside + 1 => bytes inside cs
    | 0 =>
      match if c = '%' then escaped? cs else none with
      | some b => b :: bytes 2 cs
      | none => c.toString.toUTF8.toList ++ bytes 0 cs
termination_by structural cs => cs

end Uri

/-- The URI of an absolute path. -/
def fileUri (path : String) : String :=
  "file://" ++ String.ofList (path.toUTF8.toList.flatMap Uri.escape)

namespace Uri

/-- The text that some characters of a URI stand for. -/
def decoded (cs : List Char) : String :=
  String.ofList (Utf8.decodeLossy (bytes 0 cs))

/-- The characters that count: all but tabs and line ends. -/
def joined (cs : List Char) : List Char :=
  cs.filter fun c => c != '\t' && c != '\n' && c != '\r'

/-- The characters in front of a query and of a fragment. -/
def beforeQuery (cs : List Char) : List Char :=
  cs.takeWhile fun c => c != '?' && c != '#'

/-- The character can be part of a scheme. -/
def isSchemeCharacter (c : Char) : Bool :=
  c.isAlphanum || "+-.".toList.contains c

/-- The scheme of a URI in small letters, which is empty if there is none, and what follows it. -/
def splitScheme (cs : List Char) : List Char × List Char :=
  let scheme := cs.takeWhile (· != ':')
  match cs.drop scheme.length with
  | ':' :: rest =>
    if scheme.head?.any Char.isAlpha && scheme.all isSchemeCharacter then
      (scheme.map Char.toLower, rest)
    else
      ([], cs)
  | _ => ([], cs)

/-- The authority of a URI behind its scheme, and what follows it. -/
def splitAuthority : List Char → List Char × List Char
  | '/' :: '/' :: cs => cs.span fun c => c != '/' && c != '?' && c != '#'
  | cs => ([], cs)

/-- The schemes whose paths may end with parameters behind a semicolon. -/
def schemesWithParameters : List String :=
  ["", "ftp", "hdl", "prospero", "http", "imap", "https", "shttp", "rtsp", "rtsps", "rtspu", "sip",
    "sips", "mms", "sftp", "tel"]

/-- A path without the parameters of its last part. -/
def withoutParameters (path : List Char) : List Char :=
  let last := (path.reverse.takeWhile (· != '/')).reverse
  path.take (path.length - last.length) ++ last.takeWhile (· != ';')

/-- The path behind an authority.  In a file URI, the authority is the first part of it. -/
def pathBehind (scheme authority rest : List Char) : String :=
  let path := beforeQuery rest
  let path :=
    if schemesWithParameters.contains (String.ofList scheme) then withoutParameters path else path
  let authority := decoded authority
  let path := decoded path
  if scheme = "file".toList ∧ authority ≠ "" ∧ path ≠ "" then "//" ++ authority ++ path else path

/-- The path that a URI leads to. -/
def path (uri : String) : Except UriError String := do
  let (scheme, rest) := splitScheme (joined (uri.toList.dropWhile fun c => c.toNat ≤ 0x20))
  let (authority, rest) := splitAuthority rest
  Host.check authority
  return pathBehind scheme authority rest

end Uri

/-- A directory at an absolute path. -/
structure Folder where
  /-- Where it is. -/
  path : String
  /-- What is in it. -/
  tree : Entry

/-- Reads the text file at a URI.  What starts with the URI of the folder is looked up in it. -/
def Folder.readText (folder : Folder) (uri : String) : Except ReadError String :=
  match Text.after? (fileUri folder.path).toList uri.toList with
  | some rest =>
    let inner := Uri.decoded (Uri.beforeQuery (Uri.joined rest))
    match inner.toList with
    | [] => folder.tree.text
    | '/' :: _ => folder.tree.readText (Entry.tidy ("." ++ inner))
    | _ => Entry.outside.readText (Entry.tidy (folder.path ++ inner))
  | none =>
    match Uri.path uri with
    | .ok path => Entry.outside.readText (Entry.tidy path)
    | .error e => .error (.uri e)

end Boli
