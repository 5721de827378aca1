import Inyandiko.Json
import Inyandiko.Number.Numeral

/-! Reading JSON documents. Blanks are spaces, tabs and line breaks; control characters are
refused inside texts; the names of infinity and of what is not a number are accepted; two
escapes that form a surrogate pair stand for one character. A problem names what was expected
and where. -/
namespace Inyandiko.Json

open Text

inductive Complaint
  | byteOrderMark
  | value
  | propertyName
  | colon
  | comma
  | controlCharacter
  | escape
  | unitEscape
  | unterminated
  | extraData
  deriving DecidableEq, Repr

inductive Problem
  | malformed (complaint : Complaint) (index : Nat)
  | longNumeral (digits : Nat)
  | tooDeep
  deriving DecidableEq, Repr

def Complaint.message : Complaint → String
  | .byteOrderMark => "Unexpected UTF-8 BOM (decode using utf-8-sig)"
  | .value => "Expecting value"
  | .propertyName => "Expecting property name enclosed in double quotes"
  | .colon => "Expecting ':' delimiter"
  | .comma => "Expecting ',' delimiter"
  | .controlCharacter => "Invalid control character at"
  | .escape => "Invalid \\escape"
  | .unitEscape => "Invalid \\uXXXX escape"
  | .unterminated => "Unterminated string starting at"
  | .extraData => "Extra data"

def Complaint.locate (complaint : Complaint) (text : Chars) (index : Nat) : String :=
  let before := text.take index
  let line := before.count '\n' + 1
  let column := (before.reverse.takeWhile (· ≠ '\n')).length + 1
  s!"{complaint.message}: line {line} column {column} (char {index})"

/-- A place in a text: the index and what follows it. -/
structure Cursor where
  index : Nat
  rest : Chars

def isSpace (c : Char) : Bool := c = ' ' || c = '\t' || c = '\n' || c = '\r'

def Cursor.skip (place : Cursor) : Cursor :=
  ⟨place.index + (place.rest.takeWhile isSpace).length, place.rest.dropWhile isSpace⟩

def Cursor.drop (place : Cursor) (count : Nat) : Cursor := ⟨place.index + count, place.rest.drop count⟩

def hexValue? (c : Char) : Option Nat :=
  if '0' ≤ c && c ≤ '9' then some (c.toNat - '0'.toNat)
  else if 'a' ≤ c && c ≤ 'f' then some (c.toNat - 'a'.toNat + 10)
  else if 'A' ≤ c && c ≤ 'F' then some (c.toNat - 'A'.toNat + 10)
  else none

def unit? : Chars → Option Nat
  | [a, b, c, d] => do
    let a ← hexValue? a
    let b ← hexValue? b
    let c ← hexValue? c
    let d ← hexValue? d
    return ((a * 16 + b) * 16 + c) * 16 + d
  | _ => none

def escaped? : Char → Option Char
  | '"' => some '"'
  | '\\' => some '\\'
  | '/' => some '/'
  | 'b' => some '\x08'
  | 'f' => some '\x0c'
  | 'n' => some '\n'
  | 'r' => some '\r'
  | 't' => some '\t'
  | _ => none

/-- The unit of the escape right at a place, with more text after it. -/
def followingUnit? : Chars → Option (Except Unit Nat)
  | '\\' :: 'u' :: rest =>
    if !(rest.drop 4).isEmpty then
      match unit? (rest.take 4) with
      | some unit => some (.ok unit)
      | none => some (.error ())
    else none
  | _ => none

/-- A single half of a surrogate pair stands for no character and is replaced. -/
def loneSurrogate : Char := '\ufffd'

/-- The character of an escape of sixteen bits whose letter stands at `index`; `rest` follows
the letter. Also gives the number of characters read. -/
def readUnit (index : Nat) (rest : Chars) : Except Problem (Char × Nat) :=
  if (rest.drop 4).isEmpty then .error (.malformed .unitEscape index)
  else match unit? (rest.take 4) with
    | none => .error (.malformed .unitEscape index)
    | some unit =>
      if 0xd800 ≤ unit && unit ≤ 0xdbff then
        match followingUnit? (rest.drop 4) with
        | some (.ok second) =>
          if 0xdc00 ≤ second && second ≤ 0xdfff then
            .ok (Char.ofNat (0x10000 + (unit - 0xd800) * 0x400 + (second - 0xdc00)), 10)
          else .ok (loneSurrogate, 4)
        | some (.error _) => .error (.malformed .unitEscape (index + 6))
        | none => .ok (loneSurrogate, 4)
      else if 0xdc00 ≤ unit && unit ≤ 0xdfff then .ok (loneSurrogate, 4)
      else .ok (Char.ofNat unit, 4)

def readText (start : Nat) (index : Nat) (rest : Chars) : Except Problem (Chars × Cursor) :=
  match rest with
  | [] => .error (.malformed .unterminated start)
  | '"' :: rest => .ok ([], ⟨index + 1, rest⟩)
  | '\\' :: 'u' :: rest =>
    match readUnit (index + 1) rest with
    | .error problem => .error problem
    | .ok (c, used) => do
      let (more, after) ← readText start (index + 2 + used) (rest.drop used)
      return (c :: more, after)
  | ['\\'] => .error (.malformed .unterminated start)
  | '\\' :: letter :: rest =>
    match escaped? letter with
    | none => .error (.malformed .escape index)
    | some c => do
      let (more, after) ← readText start (index + 2) rest
      return (c :: more, after)
  | c :: rest =>
    if c.toNat < 0x20 then .error (.malformed .controlCharacter index)
    else do
      let (more, after) ← readText start (index + 1) rest
      return (c :: more, after)
termination_by rest.length
decreasing_by all_goals simp_all; try omega

/-- The fraction and the exponent of a numeral, empty when there is none. -/
def numeralTail (rest : Chars) : Chars :=
  let fraction :=
    match rest with
    | '.' :: more =>
      let digits := more.takeWhile isPlainDigit
      if digits.isEmpty then [] else '.' :: digits
    | _ => []
  let exponent :=
    match rest.drop fraction.length with
    | c :: more =>
      if c = 'e' || c = 'E' then
        let mark := more.takeWhile (fun c => c = '+' || c = '-') |>.take 1
        let digits := (more.drop mark.length).takeWhile isPlainDigit
        if digits.isEmpty then [] else c :: mark ++ digits
      else []
    | [] => []
  fraction ++ exponent

/-- The numeral at the start of a text: its sign and whole digits, and its fraction and exponent. -/
def numeral? (text : Chars) : Option (Chars × Chars) :=
  let minus := text.takeWhile (· = '-') |>.take 1
  let body := text.drop minus.length
  let whole :=
    match body with
    | '0' :: _ => ['0']
    | body => body.takeWhile isPlainDigit
  if whole.isEmpty then none
  else some (minus ++ whole, numeralTail (body.drop whole.length))

/-- Reads a numeral; one without fraction and exponent is an integer. -/
def readNumber (place : Cursor) : Except Problem (Json × Cursor) :=
  match numeral? place.rest with
  | none => .error (.malformed .value place.index)
  | some (whole, tail) =>
    let after := place.drop (whole.length + tail.length)
    if tail.isEmpty then
      match Numeral.readInt (String.ofList whole) with
      | .ok n => .ok (.int n, after)
      | .error (.longNumeral digits) => .error (.longNumeral digits)
      | .error _ => .error (.malformed .value place.index)
    else
      match Numeral.readFloat (String.ofList (whole ++ tail)) with
      | .ok x => .ok (.float x, after)
      | .error _ => .error (.malformed .value place.index)

def words : List (Chars × Json) :=
  [("null".toList, .null), ("true".toList, .bool true), ("false".toList, .bool false),
   ("NaN".toList, .float .nan), ("Infinity".toList, .float (.infinite false)),
   ("-Infinity".toList, .float (.infinite true))]

def readAtom (place : Cursor) : Except Problem (Json × Cursor) :=
  match words.find? fun word => startsWith place.rest word.1 with
  | some (word, json) => .ok (json, place.drop word.length)
  | none => readNumber place

mutual

/-- Reads a document at a place. The fuel bounds the number of parts, the depth their nesting. -/
def readValue (fuel depth : Nat) (place : Cursor) : Except Problem (Json × Cursor) :=
  match fuel with
  | 0 => .error .tooDeep
  | fuel + 1 =>
    match place.rest with
    | [] => .error (.malformed .value place.index)
    | '"' :: rest => do
      let (chars, after) ← readText place.index (place.index + 1) rest
      return (.text (String.ofList chars), after)
    | '[' :: rest =>
      match depth with
      | 0 => .error .tooDeep
      | depth + 1 =>
        let inside := Cursor.skip ⟨place.index + 1, rest⟩
        match inside.rest with
        | ']' :: _ => .ok (.array [], inside.drop 1)
        | _ => do
          let (items, after) ← readItems fuel depth inside
          return (.array items, after)
    | '{' :: rest =>
      match depth with
      | 0 => .error .tooDeep
      | depth + 1 =>
        let inside := Cursor.skip ⟨place.index + 1, rest⟩
        match inside.rest with
        | '}' :: _ => .ok (.object [], inside.drop 1)
        | _ => do
          let (members, after) ← readMembers fuel depth inside
          return (.object members, after)
    | _ => readAtom place

def readItems (fuel depth : Nat) (place : Cursor) : Except Problem (List Json × Cursor) :=
  match fuel with
  | 0 => .error .tooDeep
  | fuel + 1 => do
    let (item, after) ← readValue fuel depth place
    let after := after.skip
    match after.rest with
    | ']' :: _ => return ([item], after.drop 1)
    | ',' :: _ => do
      let (items, last) ← readItems fuel depth (after.drop 1).skip
      return (item :: items, last)
    | _ => throw (.malformed .comma after.index)

def readMembers (fuel depth : Nat) (place : Cursor) : Except Problem (List (String × Json) × Cursor) :=
  match fuel with
  | 0 => .error .tooDeep
  | fuel + 1 =>
    match place.rest with
    | '"' :: rest => do
      let (name, after) ← readText place.index (place.index + 1) rest
      let after := after.skip
      match after.rest with
      | ':' :: _ => do
        let (value, after) ← readValue fuel depth (after.drop 1).skip
        let after := after.skip
        let member := (String.ofList name, value)
        match after.rest with
        | '}' :: _ => return ([member], after.drop 1)
        | ',' :: _ => do
          let (members, last) ← readMembers fuel depth (after.drop 1).skip
          return (member :: members, last)
        | _ => throw (.malformed .comma after.index)
      | _ => throw (.malformed .colon after.index)
    | _ => .error (.malformed .propertyName place.index)

end

/-- Reads a whole text as a document nested at most `depth` levels. Every part takes at least
one character, so twice the length is fuel enough. -/
def read (depth : Nat) (text : Chars) : Except Problem Json :=
  if text.head? = some '\ufeff' then .error (.malformed .byteOrderMark 0)
  else do
    let (json, after) ← readValue (2 * text.length + 2) depth (Cursor.skip ⟨0, text⟩)
    let after := after.skip
    if after.rest.isEmpty then return json else throw (.malformed .extraData after.index)

end Inyandiko.Json
