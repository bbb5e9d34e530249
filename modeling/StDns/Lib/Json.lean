import StDns.Lib.Decimal
import StDns.Lib.Encoding

/-!
# JSON

A tree has a text and named subtrees. JSON is read into one: a string, a number or a literal is a tree without
subtrees, an object has the names of its members, and the elements of an array have empty names. Reading is recursive
descent, with a bound on its steps that any text stays below.
-/

namespace StDns.Lib.Json

/-! ## Trees -/

mutual

inductive Tree where
  | node (data : Bytes) (children : Forest)

inductive Forest where
  | nil
  | cons (name : Bytes) (tree : Tree) (rest : Forest)

end

/-- A tree without subtrees. -/
def leaf (data : Bytes) : Tree := .node data .nil

/-! ## Characters -/

/-- The character `"`. -/
def quote : UInt8 := 34

/-- The character `\`. -/
def backslash : UInt8 := 92

/-- The character `,`. -/
def comma : UInt8 := 44

/-- The character `:`. -/
def colon : UInt8 := 58

/-- The character `.`. -/
def point : UInt8 := 46

/-- The character `{`. -/
def openBrace : UInt8 := 123

/-- The character `}`. -/
def closeBrace : UInt8 := 125

/-- The character `[`. -/
def openBracket : UInt8 := 91

/-- The character `]`. -/
def closeBracket : UInt8 := 93

def isWhite (c : UInt8) : Bool := c = 32 ∨ c = 9 ∨ c = 10 ∨ c = 13

def skipWhite (text : Bytes) : Bytes := text.dropWhile isWhite

/-! ## Strings -/

/-- The character of an escape with one letter. -/
def unescape (e : UInt8) : Option UInt8 :=
  if e = 34 ∨ e = 92 ∨ e = 47 then some e
  else if e = 98 then some 8
  else if e = 102 then some 12
  else if e = 110 then some 10
  else if e = 114 then some 13
  else if e = 116 then some 9
  else none

def hexValue (c : UInt8) : Option Nat :=
  if 48 ≤ c ∧ c ≤ 57 then some (c.toNat - 48)
  else if 65 ≤ c ∧ c ≤ 70 then some (c.toNat - 55)
  else if 97 ≤ c ∧ c ≤ 102 then some (c.toNat - 87)
  else none

/-- The number that four hexadecimal digits write. -/
def unit (a b c d : UInt8) : Option Nat := do
  return (((← hexValue a) * 16 + (← hexValue b)) * 16 + (← hexValue c)) * 16 + (← hexValue d)

/-- A code point in UTF-8. -/
def encodeUtf8 (n : Nat) : Bytes :=
  if n < 0x80 then [UInt8.ofNat n]
  else if n < 0x800 then [UInt8.ofNat (0xC0 + n / 0x40), UInt8.ofNat (0x80 + n % 0x40)]
  else if n < 0x10000 then
    [UInt8.ofNat (0xE0 + n / 0x1000), UInt8.ofNat (0x80 + n / 0x40 % 0x40), UInt8.ofNat (0x80 + n % 0x40)]
  else
    [UInt8.ofNat (0xF0 + n / 0x40000), UInt8.ofNat (0x80 + n / 0x1000 % 0x40), UInt8.ofNat (0x80 + n / 0x40 % 0x40),
      UInt8.ofNat (0x80 + n % 0x40)]

/-- The string that ends at the next quote, and what is behind it. A surrogate needs its other half. -/
def readString : Bytes → Option (Bytes × Bytes)
  | [] => none
  | c :: text =>
    if c = quote then some ([], text)
    else if c = backslash then
      match text with
      | [] => none
      | 117 :: a :: b :: c :: d :: text =>
        match unit a b c d with
        | none => none
        | some n =>
          if n < 0xD800 ∨ 0xDFFF < n then (readString text).map fun r => (encodeUtf8 n ++ r.1, r.2)
          else
            match text with
            | 92 :: 117 :: a :: b :: c :: d :: text =>
              match unit a b c d with
              | none => none
              | some m =>
                if n < 0xDC00 ∧ 0xDC00 ≤ m ∧ m ≤ 0xDFFF then
                  (readString text).map fun r =>
                    (encodeUtf8 (0x10000 + (n - 0xD800) * 0x400 + (m - 0xDC00)) ++ r.1, r.2)
                else none
            | _ => none
      | e :: text =>
        match unescape e with
        | none => none
        | some d => (readString text).map fun r => (d :: r.1, r.2)
    else if c < 32 then none
    else (readString text).map fun r => (c :: r.1, r.2)

/-! ## Numbers and literals -/

def readInt : Bytes → Option (Bytes × Bytes)
  | [] => none
  | c :: text =>
    if c = 48 then some ([c], text)
    else if isDigit c then some ((c :: text).takeWhile isDigit, (c :: text).dropWhile isDigit)
    else none

/-- The digits behind a point, if there is one. -/
def readFrac : Bytes → Option (Bytes × Bytes)
  | [] => some ([], [])
  | c :: text =>
    if c = point then
      if text.takeWhile isDigit = [] then none else some (c :: text.takeWhile isDigit, text.dropWhile isDigit)
    else some ([], c :: text)

/-- The sign of an exponent. -/
def readSign : Bytes → Bytes × Bytes
  | [] => ([], [])
  | c :: text => if c = 43 ∨ c = 45 then ([c], text) else ([], c :: text)

/-- The exponent, if there is one. -/
def readExp : Bytes → Option (Bytes × Bytes)
  | [] => some ([], [])
  | c :: text =>
    if c = 101 ∨ c = 69 then
      let (sign, text) := readSign text
      if text.takeWhile isDigit = [] then none
      else some (c :: (sign ++ text.takeWhile isDigit), text.dropWhile isDigit)
    else some ([], c :: text)

/-- The minus in front of a number. -/
def readMinus : Bytes → Bytes × Bytes
  | [] => ([], [])
  | c :: text => if c = 45 then ([c], text) else ([], c :: text)

def readNumber (text : Bytes) : Option (Bytes × Bytes) := do
  let (minus, text) := readMinus text
  let (int, text) ← readInt text
  let (frac, text) ← readFrac text
  let (exp, text) ← readExp text
  return (minus ++ int ++ frac ++ exp, text)

/-- `true`, `false` and `null`. -/
def literals : List Bytes := [[116, 114, 117, 101], [102, 97, 108, 115, 101], [110, 117, 108, 108]]

def readAtom (text : Bytes) : Option (Bytes × Bytes) :=
  match literals.find? fun literal => literal <+: text with
  | some literal => some (literal, text.drop literal.length)
  | none => readNumber text

/-! ## Values -/

/-- The name of a member and the colon behind it. -/
def readName (text : Bytes) : Option (Bytes × Bytes) :=
  match skipWhite text with
  | [] => none
  | c :: text =>
    if c = quote then do
      let (name, text) ← readString text
      match skipWhite text with
      | [] => none
      | c :: text => if c = colon then some (name, text) else none
    else none

/-- The name of a member, or the empty name of an element. -/
def readLabel (named : Bool) (text : Bytes) : Option (Bytes × Bytes) := if named then readName text else some ([], text)

/-- What ends an object or an array. -/
def closing (named : Bool) : UInt8 := if named then closeBrace else closeBracket

mutual

def readValue : Nat → Bytes → Option (Tree × Bytes)
  | 0, _ => none
  | fuel + 1, text =>
    match skipWhite text with
    | [] => none
    | c :: text =>
      if c = quote then (readString text).map fun r => (leaf r.1, r.2)
      else if c = openBrace then readBody fuel true text
      else if c = openBracket then readBody fuel false text
      else (readAtom (c :: text)).map fun r => (leaf r.1, r.2)

/-- What is behind the beginning of an object or an array. -/
def readBody : Nat → Bool → Bytes → Option (Tree × Bytes)
  | 0, _, _ => none
  | fuel + 1, named, text =>
    match skipWhite text with
    | [] => none
    | c :: text =>
      if c = closing named then some (leaf [], text)
      else (readForest fuel named (c :: text)).map fun r => (.node [] r.1, r.2)

/-- The members of an object, or the elements of an array, at least one. -/
def readForest : Nat → Bool → Bytes → Option (Forest × Bytes)
  | 0, _, _ => none
  | fuel + 1, named, text => do
    let (name, text) ← readLabel named text
    let (tree, text) ← readValue fuel text
    match skipWhite text with
    | [] => none
    | c :: text =>
      if c = comma then (readForest fuel named text).map fun r => (.cons name tree r.1, r.2)
      else if c = closing named then some (.cons name tree .nil, text)
      else none

end

/-- The tree of a text that is JSON in an encoding. -/
def read (enc : Encoding) (text : Bytes) : Option Tree :=
  if enc.WellFormed text then
    match readValue (3 * text.length + 3) text with
    | some (tree, text) => if skipWhite text = [] then some tree else none
    | none => none
  else none

end StDns.Lib.Json
