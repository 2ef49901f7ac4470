import KeepAt.Humanize

namespace KeepAt

/-- How the standard library renders what a message interpolates. -/
structure Formatters where
  debugStr : String → String
  displayF64 : F64 → String
  debugDuration : Nat → String
  displayPath : List String → String

/-- The Unicode `White_Space` property. -/
def isWhiteSpace (c : Char) : Bool :=
  let n := c.toNat
  decide (9 ≤ n ∧ n ≤ 13) || n == 0x20 || n == 0x85 || n == 0xA0 || n == 0x1680 ||
    decide (0x2000 ≤ n ∧ n ≤ 0x200A) || n == 0x2028 || n == 0x2029 || n == 0x202F || n == 0x205F ||
    n == 0x3000

def trim (s : List Char) : List Char :=
  ((s.dropWhile isWhiteSpace).reverse.dropWhile isWhiteSpace).reverse

def isNumberChar (c : Char) : Bool := c.isDigit || c == '.'

/-- The exact value of `digits[.digits]`; at least one digit, and no second point. -/
def parseDecimal (num : List Char) : Option ℚ :=
  let whole := num.takeWhile (· ≠ '.')
  let fraction := (num.dropWhile (· ≠ '.')).drop 1
  if whole ++ fraction = [] then none
  else if (whole ++ fraction).all Char.isDigit then
    some ((Nat.ofDigitChars 10 (whole ++ fraction) 0 : ℚ) / 10 ^ fraction.length)
  else none

def suffixPower (suffix : List Char) : Option Nat :=
  let t := String.ofList ((trim suffix).map Char.toUpper)
  if t ∈ ["", "B"] then some 0
  else if t ∈ ["K", "KB", "KI", "KIB"] then some 1
  else if t ∈ ["M", "MB", "MI", "MIB"] then some 2
  else if t ∈ ["G", "GB", "GI", "GIB"] then some 3
  else if t ∈ ["T", "TB", "TI", "TIB"] then some 4
  else if t ∈ ["P", "PB", "PI", "PIB"] then some 5
  else none

def parseByteSize (fmt : Formatters) (s : String) : Except String Nat :=
  let t := trim s.toList
  if t = [] then .error "empty byte size (e.g. 500G, 2T, or max for a dedicated drive)"
  else
    let num := t.takeWhile isNumberChar
    let suffix := t.dropWhile isNumberChar
    match parseDecimal num with
    | none =>
      .error ("invalid byte size " ++ fmt.debugStr s ++
        " (e.g. 500G, 2T, or max for a dedicated drive)")
    | some q =>
      match suffixPower suffix with
      | none =>
        .error ("unknown byte-size suffix " ++
          fmt.debugStr (String.ofList ((trim suffix).map Char.toUpper)) ++ " in " ++ fmt.debugStr s ++
          " (use K/M/G/T/P, a plain byte count, or max for a dedicated drive)")
      | some p =>
        let bytes := F64.ofRat q * ((1024 ^ p : Nat) : F64)
        if ((u64Max : Nat) : F64) ≤ bytes then
          .error ("byte size " ++ fmt.debugStr s ++ " overflows (max is 18446744073709551615 bytes)")
        else .ok bytes.toU64

/-- `format_byte_size`: `none` when the rendering does not return. -/
def formatByteSize (n : Nat) : Option String :=
  (humanBytes (asI64 n)).map fun s => String.ofList (s.toList.filter (· ≠ ' '))

def formatByteSizeText (n : Nat) : String := (formatByteSize n).getD ""

inductive StorageLimit where
  | unset
  | bytes (n : Nat)
  | all
  deriving DecidableEq

def StorageLimit.parse (fmt : Formatters) (s : String) : Except String StorageLimit :=
  let t := trim s.toList
  if t.map Char.toLower = "max".toList ∨ t.map Char.toLower = "all".toList then .ok .all
  else (parseByteSize fmt (String.ofList t)).map .bytes

end KeepAt
