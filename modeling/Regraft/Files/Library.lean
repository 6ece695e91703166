import Regraft.Text.Quoted
import Regraft.Value

/-!
# Regraft.Files.Library -- what a host brings along

How texts are written as bytes and what a settings file holds is not decided here.  A library looks
codecs up by their names, and loads the value of a settings file; any two functions are one.  What a
library may complain of is said as far as it matters: bytes that are no text and characters without
bytes have a place, everything else has a sentence.  `Library.Lawful` is what is relied on.
-/

namespace Regraft.Files

set_option autoImplicit false

abbrev Bytes := List UInt8

/-- Bytes that are no text: where they start, how many they are, the first of them, and why. -/
structure DecodeError where
  codec : String
  start : Nat
  count : Nat
  first : UInt8
  reason : String
  deriving DecidableEq

/-- Characters that cannot be written: where they start, how many they are, the first, and why. -/
structure EncodeError where
  codec : String
  start : Nat
  count : Nat
  first : Char
  reason : String
  deriving DecidableEq

/-- A position, or the first and the last of several. -/
def positions (start count : Nat) : String :=
  if count ≤ 1 then toString start else toString start ++ "-" ++ toString (start + count - 1)

def DecodeError.message (e : DecodeError) : String :=
  "'" ++ e.codec ++ "' codec can't decode " ++
    (if e.count ≤ 1 then "byte 0x" ++ Text.hex 2 e.first.toNat else "bytes") ++ " in position " ++
    positions e.start e.count ++ ": " ++ e.reason

def EncodeError.message (e : EncodeError) : String :=
  "'" ++ e.codec ++ "' codec can't encode " ++
    (if e.count ≤ 1 then "character '" ++ String.ofList (Text.escaped e.first) ++ "'"
      else "characters") ++
    " in position " ++ positions e.start e.count ++ ": " ++ e.reason

/-- What a library complains of. -/
inductive LibraryError where
  | decode (e : DecodeError)
  | encode (e : EncodeError)
  | other (kind message : String)
  deriving DecidableEq

def LibraryError.message : LibraryError → String
  | decode e => e.message
  | encode e => e.message
  | other _ message => message

/-- A way to write texts as bytes.  Not all bytes need be a text, nor all characters have bytes. -/
structure Codec where
  decode : Bytes → Except LibraryError Text
  encode : Text → Except LibraryError Bytes

/-- Why a settings file has no value. -/
inductive LoadError where
  /-- It breaks the format, or cannot be read to its end. -/
  | malformed
  | failed (e : LibraryError)
  deriving DecidableEq

/-- The codecs by their names, and the loading of settings files, of which the bytes are given. -/
structure Library where
  codec : String → Except LibraryError Codec
  load : Bytes → Except LoadError Value

end Regraft.Files
