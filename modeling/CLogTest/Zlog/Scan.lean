import Mathlib.Data.List.DropRight
import CLogTest.Shared.World

set_option autoImplicit false

/-! # Scanning

The directives of `sscanf` that zlog reads its configuration with, as functions from the rest of the
input to the text scanned and the rest after it. A directive that matches nothing fails, as the
conversions of `sscanf` do. -/

namespace CLogTest.Zlog

/-- A string of C, without the final null character. -/
abbrev Text := List Char

/-- White space in the format: any amount of white space. -/
def skipSpace (s : Text) : Text := s.dropWhile isSpace

/-- `%[^...]`: at least one character other than those in `stop`. -/
def scanUntil (stop : Text) (s : Text) : Option (Text × Text) :=
  match s.span fun c => !stop.contains c with
  | ([], _) => none
  | scanned => some scanned

/-- `%s`: a word after white space. -/
def scanWord (s : Text) : Option (Text × Text) :=
  match (skipSpace s).span fun c => !isSpace c with
  | ([], _) => none
  | scanned => some scanned

/-- A character in the format. -/
def scanChar (c : Char) : Text → Option Text
  | d :: s => if d = c then some s else none
  | [] => none

/-- `%d`: a decimal number after white space. -/
def scanInt (s : Text) : Option (ℤ × Text) :=
  let s := skipSpace s
  let digits := match s with
    | '-' :: ds => ds
    | '+' :: ds => ds
    | ds => ds
  if (digits.takeWhile Char.isDigit).isEmpty then none
  else some (atoi s, digits.dropWhile Char.isDigit)

/-- `strcasecmp(s, t) == 0`. -/
def stricmp (s t : Text) : Bool := s.map Char.toLower = t.map Char.toLower

/-- Text without the white space at its end. -/
def trimRight (s : Text) : Text := s.rdropWhile isSpace

end CLogTest.Zlog
