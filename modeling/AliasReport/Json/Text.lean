import AliasReport.Json.Fault
import AliasReport.Number.Digits
import AliasReport.Text.Bytes

/-! # Text in JSON

What stands between quotes. Both functions start behind the opening quote and end behind the
closing one.

* **`readText`** — the text, escapes resolved. Characters beyond the sixteen-bit plane are written
  as two escapes, which must be the two halves of a surrogate pair in order.
* **`skipText`** — the same without the text: the halves of a pair are not looked at.
-/

namespace AliasReport.Json

open AliasReport.Number AliasReport.Text

/-- The character of a one-letter escape. -/
def shortEscape? (c : Char) : Option Char :=
  if c = '"' ∨ c = '\\' ∨ c = '/' then some c
  else if c = 'b' then some '\x08'
  else if c = 'f' then some '\x0c'
  else if c = 'n' then some '\n'
  else if c = 'r' then some '\r'
  else if c = 't' then some '\t'
  else none

/-- The value of four hexadecimal digits. -/
def codeUnit? (a b c d : Char) : Option Nat :=
  ofDigits? 16 [a, b, c, d]

/-- The fault of an escape whose four digits are not there. It counts as an early end when fewer
than four bytes of text are left. -/
def noCodeUnit (rest : List Char) : Fault :=
  if byteCount rest < 4 then .unfinished .text else .malformed .invalidEscape

/-- First halves of surrogate pairs. -/
def isFirstHalf (n : Nat) : Bool :=
  0xd800 ≤ n && n ≤ 0xdbff

/-- Second halves of surrogate pairs. -/
def isSecondHalf (n : Nat) : Bool :=
  0xdc00 ≤ n && n ≤ 0xdfff

/-- The character that a surrogate pair stands for. -/
def joinHalves (first second : Nat) : Char :=
  Char.ofNat ((first - 0xd800) * 0x400 + (second - 0xdc00) + 0x10000)

/-- Text up to the closing quote. -/
def readText : List Char → Except Fault (List Char × List Char)
  | [] => unfinished .text
  | c :: rest =>
    if c = '"' then .ok ([], rest)
    else if c = '\\' then
      match rest with
      | [] => unfinished .text
      | e :: rest =>
        match shortEscape? e with
        | some v => (readText rest).map fun (vs, rest) => (v :: vs, rest)
        | none =>
          if e ≠ 'u' then malformed .invalidEscape
          else
            match rest with
            | h1 :: h2 :: h3 :: h4 :: rest =>
              match codeUnit? h1 h2 h3 h4 with
              | none => malformed .invalidEscape
              | some n =>
                if isSecondHalf n then malformed .loneSurrogate
                else if isFirstHalf n then
                  match rest with
                  | [] => unfinished .text
                  | b :: rest =>
                    if b ≠ '\\' then malformed .halfPair
                    else
                      match rest with
                      | [] => unfinished .text
                      | u :: rest =>
                        if u ≠ 'u' then malformed .halfPair
                        else
                          match rest with
                          | k1 :: k2 :: k3 :: k4 :: rest =>
                            match codeUnit? k1 k2 k3 k4 with
                            | none => malformed .invalidEscape
                            | some m =>
                              if isSecondHalf m then
                                (readText rest).map fun (vs, rest) => (joinHalves n m :: vs, rest)
                              else malformed .loneSurrogate
                          | rest => .error (noCodeUnit rest)
                else (readText rest).map fun (vs, rest) => (Char.ofNat n :: vs, rest)
            | rest => .error (noCodeUnit rest)
    else if c.toNat < 0x20 then malformed .controlCharacter
    else (readText rest).map fun (vs, rest) => (c :: vs, rest)

/-- The text behind the closing quote. -/
def skipText : List Char → Except Fault (List Char)
  | [] => unfinished .text
  | c :: rest =>
    if c = '"' then .ok rest
    else if c = '\\' then
      match rest with
      | [] => unfinished .text
      | e :: rest =>
        if (shortEscape? e).isSome then skipText rest
        else if e ≠ 'u' then malformed .invalidEscape
        else
          match rest with
          | h1 :: h2 :: h3 :: h4 :: rest =>
            if (codeUnit? h1 h2 h3 h4).isSome then skipText rest else malformed .invalidEscape
          | rest => .error (noCodeUnit rest)
    else if c.toNat < 0x20 then malformed .controlCharacter
    else skipText rest

end AliasReport.Json
