import Regraft.Files.Library
import Regraft.Text.Word

/-!
# Regraft.Files.Encoding -- a library with four codecs

UTF-8, UTF-8 with a signature at the front, Latin-1 and ASCII.  Decoding refuses the first byte
sequence that is no character and says where and why; encoding refuses the first run of characters
that have no byte.  `plainLibrary` knows these four and no format of settings files.
-/

namespace Regraft.Files

set_option autoImplicit false

/-- The ways to write text into files. -/
inductive Encoding where
  | utf8
  /-- UTF-8 behind the signature EF BB BF, which is written always and read where present. -/
  | utf8Signed
  | latin1
  | ascii
  deriving DecidableEq

namespace Encoding

/-- A name in lower case whose letters, digits and dots are kept and whose other characters only
separate them; letters beyond ASCII are dropped.  `apart` says that a separator is due. -/
def plainName (started apart : Bool) : List Char → List Char
  | [] => []
  | c :: t =>
      if c.isAlphanum || c == '.' || (128 ≤ c.toNat && Text.isWord c) then
        (if started && apart then ['_'] else []) ++
          (if c.toNat < 128 then [c.toLower] else []) ++ plainName true false t
      else plainName started true t

def utf8Names : List String :=
  ["utf_8", "utf8", "u8", "utf", "cp65001", "utf8_ucs2", "utf8_ucs4"]

def latin1Names : List String :=
  ["latin_1", "latin1", "latin", "l1", "8859", "cp819", "ibm819", "csisolatin1", "iso8859",
    "iso8859_1", "iso_8859_1", "iso_8859_1_1987", "iso_ir_100"]

def asciiNames : List String :=
  ["ascii", "us_ascii", "us", "646", "cp367", "ibm367", "csascii", "iso646_us", "iso_ir_6",
    "iso_646.irv_1991", "ansi_x3.4_1968", "ansi_x3_4_1968", "ansi_x3.4_1986"]

/-- The encoding of a name; encodings have many, and case and separators do not matter. -/
def ofName? (name : String) : Option Encoding :=
  let n := String.ofList (plainName false false name.toList)
  if utf8Names.contains n then some utf8
  else if n == "utf_8_sig" then some utf8Signed
  else if latin1Names.contains n then some latin1
  else if asciiNames.contains n then some ascii
  else none

/-- How a sequence of a lead byte goes on: the number of bytes, and the bounds of the first. -/
def continuation? (lead : UInt8) : Option (Nat × UInt8 × UInt8) :=
  if lead < 0xC2 then none
  else if lead < 0xE0 then some (1, 0x80, 0xBF)
  else if lead == 0xE0 then some (2, 0xA0, 0xBF)
  else if lead == 0xED then some (2, 0x80, 0x9F)
  else if lead < 0xF0 then some (2, 0x80, 0xBF)
  else if lead == 0xF0 then some (3, 0x90, 0xBF)
  else if lead < 0xF4 then some (3, 0x80, 0xBF)
  else if lead == 0xF4 then some (3, 0x80, 0x8F)
  else none

/-- The bytes, up to a number, that go on a sequence. -/
def continuing : Nat → UInt8 → UInt8 → Bytes → Bytes
  | 0, _, _, _ => []
  | _ + 1, _, _, [] => []
  | n + 1, low, high, b :: bs =>
      if low ≤ b && b ≤ high then b :: continuing n 0x80 0xBF bs else []

/-- The code point of a sequence with a number of further bytes. -/
def codePoint (lead : UInt8) (more : Bytes) : Nat :=
  let front := lead.toNat % (if more.length = 1 then 32 else if more.length = 2 then 16 else 8)
  more.foldl (fun n b => n * 64 + b.toNat % 64) front

def decodeUtf8 (position : Nat) : Bytes → Except DecodeError Text
  | [] => .ok []
  | b :: bs =>
      if b < 0x80 then
        (decodeUtf8 (position + 1) bs).map (Char.ofNat b.toNat :: ·)
      else
        match continuation? b with
        | none => .error ⟨"utf-8", position, 1, b, "invalid start byte"⟩
        | some (wanted, low, high) =>
            let found := continuing wanted low high bs
            if found.length = wanted then
              (decodeUtf8 (position + 1 + wanted) (bs.drop wanted)).map
                (Char.ofNat (codePoint b found) :: ·)
            else
              let reason :=
                if found.length = bs.length then "unexpected end of data"
                else "invalid continuation byte"
              .error ⟨"utf-8", position, 1 + found.length, b, reason⟩
termination_by bs => bs.length
decreasing_by
  · exact Nat.lt_succ_self _
  · exact Nat.lt_succ_of_le (List.length_drop ▸ Nat.sub_le ..)

def signature : Bytes := [0xEF, 0xBB, 0xBF]

/-- Read bytes that stand for one character each, below a limit. -/
def decodeSingle (codec : String) (limit : Nat) (position : Nat) : Bytes → Except DecodeError Text
  | [] => .ok []
  | b :: bs =>
      if b.toNat < limit then
        (decodeSingle codec limit (position + 1) bs).map (Char.ofNat b.toNat :: ·)
      else .error ⟨codec, position, 1, b, s!"ordinal not in range({limit})"⟩

/-- The text of a file.  Positions count after the signature; a file that holds only a part of
the signature holds no text. -/
def decode (e : Encoding) (bytes : Bytes) : Except DecodeError Text :=
  match e with
  | utf8 => decodeUtf8 0 bytes
  | utf8Signed =>
      if bytes.length < 3 && bytes.isPrefixOf signature then .ok []
      else if signature.isPrefixOf bytes then decodeUtf8 0 (bytes.drop 3)
      else decodeUtf8 0 bytes
  | latin1 => decodeSingle "latin-1" 256 0 bytes
  | ascii => decodeSingle "ascii" 128 0 bytes

def utf8Char (c : Char) : Bytes :=
  let n := c.toNat
  let tail (shift : Nat) : UInt8 := UInt8.ofNat (0x80 + n / shift % 64)
  if n < 0x80 then [UInt8.ofNat n]
  else if n < 0x800 then [UInt8.ofNat (0xC0 + n / 64), tail 1]
  else if n < 0x10000 then [UInt8.ofNat (0xE0 + n / 4096), tail 64, tail 1]
  else [UInt8.ofNat (0xF0 + n / 262144), tail 4096, tail 64, tail 1]

/-- Write characters as one byte each, below a limit. -/
def encodeSingle (codec : String) (limit : Nat) (position : Nat) : Text → Except EncodeError Bytes
  | [] => .ok []
  | c :: t =>
      if c.toNat < limit then
        (encodeSingle codec limit (position + 1) t).map (UInt8.ofNat c.toNat :: ·)
      else
        let run := (c :: t).takeWhile fun d => !decide (d.toNat < limit)
        .error ⟨codec, position, run.length, c, s!"ordinal not in range({limit})"⟩

def encode (e : Encoding) (t : Text) : Except EncodeError Bytes :=
  match e with
  | utf8 => .ok (t.flatMap utf8Char)
  | utf8Signed => .ok (signature ++ t.flatMap utf8Char)
  | latin1 => encodeSingle "latin-1" 256 0 t
  | ascii => encodeSingle "ascii" 128 0 t

def codec (e : Encoding) : Codec where
  decode bytes := (e.decode bytes).mapError .decode
  encode t := (e.encode t).mapError .encode

/-- The codec of a name that one of the encodings has. -/
def codecOf (name : String) : Except LibraryError Codec :=
  match ofName? name with
  | some e => .ok e.codec
  | none => .error (.other "LookupError" ("unknown encoding: " ++ name))

end Encoding

/-- The library of the four encodings.  A settings file is read as UTF-8, and holds nothing. -/
def plainLibrary : Library where
  codec := Encoding.codecOf
  load bytes := ((Encoding.decode .utf8 bytes).mapError fun e => .failed (.decode e)).map fun _ => .null

end Regraft.Files
