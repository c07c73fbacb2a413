import Boli.Text.Quoted

/-!
# UTF-8

Bytes are read as UTF-8.  The first sequence that is no character is reported with its place, its
length and a reason: its first byte starts no character, a byte that should continue the character
does not, or the bytes end too early.

* `Utf8.head` reads the character at the head of some bytes.
* `Utf8.decode` reads all of them.
* `Utf8.decodeLossy` does so as well, with a mark in place of each sequence that is no character.
* `unifyNewlines` turns the three ways to end a line into one.
-/

namespace Boli

/-- Why bytes are no character. -/
inductive Utf8Reason where
  | invalidStart | invalidContinuation | unexpectedEnd
deriving DecidableEq, Repr

/-- The wording of a reason. -/
def Utf8Reason.message : Utf8Reason → String
  | invalidStart => "invalid start byte"
  | invalidContinuation => "invalid continuation byte"
  | unexpectedEnd => "unexpected end of data"

/-- Bytes that are not UTF-8. -/
structure Utf8Error where
  /-- The number of bytes in front of the bad ones. -/
  position : Nat
  /-- The first bad byte. -/
  byte : UInt8
  /-- The number of bad bytes after the first one. -/
  more : Nat
  /-- What is wrong with them. -/
  reason : Utf8Reason
deriving DecidableEq, Repr

/-- The wording of an error. -/
def Utf8Error.message (e : Utf8Error) : String :=
  let place :=
    if e.more = 0 then
      "byte 0x" ++ String.ofList (Text.hex 2 e.byte.toNat) ++ " in position " ++
        toString e.position
    else
      "bytes in position " ++ toString e.position ++ "-" ++ toString (e.position + e.more)
  "'utf-8' codec can't decode " ++ place ++ ": " ++ e.reason.message

namespace Utf8

/-- The byte continues a character. -/
def continues (b : UInt8) : Bool :=
  0x80 ≤ b && b < 0xC0

/-- The byte can come second after a first byte.  Some first bytes leave out long forms, surrogates
or numbers beyond the last code point. -/
def continuesSecond (first b : UInt8) : Bool :=
  continues b && (first != 0xE0 || 0xA0 ≤ b) && (first != 0xED || b < 0xA0) &&
    (first != 0xF0 || 0x90 ≤ b) && (first != 0xF4 || b < 0x90)

/-- The six bits that a continuing byte carries, behind what was read before. -/
def join (read : Nat) (b : UInt8) : Nat :=
  read * 64 + b.toNat % 64

/-- The character at the head of some bytes, or what is wrong there, each with the number of bytes
after the first one. -/
def head (first : UInt8) (rest : List UInt8) : Except Utf8Reason Char × Nat :=
  if first < 0x80 then
    (.ok (Char.ofNat first.toNat), 0)
  else if first < 0xC2 then
    (.error .invalidStart, 0)
  else if first < 0xE0 then
    match rest with
    | [] => (.error .unexpectedEnd, 0)
    | b :: _ =>
      if continues b then (.ok (Char.ofNat (join (first.toNat % 32) b)), 1)
      else (.error .invalidContinuation, 0)
  else if first < 0xF0 then
    match rest with
    | [] => (.error .unexpectedEnd, 0)
    | b :: rest =>
      if continuesSecond first b then
        match rest with
        | [] => (.error .unexpectedEnd, 1)
        | c :: _ =>
          if continues c then (.ok (Char.ofNat (join (join (first.toNat % 16) b) c)), 2)
          else (.error .invalidContinuation, 1)
      else (.error .invalidContinuation, 0)
  else if first < 0xF5 then
    match rest with
    | [] => (.error .unexpectedEnd, 0)
    | b :: rest =>
      if continuesSecond first b then
        match rest with
        | [] => (.error .unexpectedEnd, 1)
        | c :: rest =>
          if continues c then
            match rest with
            | [] => (.error .unexpectedEnd, 2)
            | d :: _ =>
              if continues d then
                (.ok (Char.ofNat (join (join (join (first.toNat % 8) b) c) d)), 3)
              else (.error .invalidContinuation, 2)
          else (.error .invalidContinuation, 1)
      else (.error .invalidContinuation, 0)
  else
    (.error .invalidStart, 0)

/-- The characters of some bytes, the first `inside` of which belong to a character already read.
There are `position` bytes in front of them. -/
def decodeFrom (position inside : Nat) : List UInt8 → Except Utf8Error (List Char)
  | [] => .ok []
  | b :: rest =>
    match inside with
    | inside + 1 => decodeFrom (position + 1) inside rest
    | 0 =>
      match head b rest with
      | (.ok c, more) => (decodeFrom (position + 1) more rest).map (c :: ·)
      | (.error reason, more) => .error ⟨position, b, more, reason⟩
termination_by structural bytes => bytes

/-- The characters of some bytes. -/
def decode (bytes : List UInt8) : Except Utf8Error (List Char) :=
  decodeFrom 0 0 bytes

/-- The characters of some bytes, the first `inside` of which belong to what was already read.
Bytes that are no character give the replacement character. -/
def decodeLossyFrom (inside : Nat) : List UInt8 → List Char
  | [] => []
  | b :: rest =>
    match inside with
    | inside + 1 => decodeLossyFrom inside rest
    | 0 =>
      match head b rest with
      | (.ok c, more) => c :: decodeLossyFrom more rest
      | (.error _, more) => '\ufffd' :: decodeLossyFrom more rest
termination_by structural bytes => bytes

/-- The characters of some bytes, with replacement characters for what is no character. -/
def decodeLossy (bytes : List UInt8) : List Char :=
  decodeLossyFrom 0 bytes

end Utf8

/-- Ends every line with a line feed alone, whether a line feed, a carriage return or both ended
it. -/
def Text.unifyNewlines : List Char → List Char
  | '\r' :: '\n' :: cs => '\n' :: unifyNewlines cs
  | c :: cs => (if c = '\r' then '\n' else c) :: unifyNewlines cs
  | [] => []

end Boli
