import ObjectConsole.Builtin.Number
import ObjectConsole.Builtin.Texts
import ObjectConsole.Error
import ObjectConsole.Text.Digit

/-!
A library that knows the letters and digits of ASCII only, and of the encodings UTF-8. On other
texts it answers as if their characters had no case and were of no class.
-/

namespace ObjectConsole.Builtin.Ascii

abbrev Reply := Except Raised Answer

def scalar (d : Datum) : Reply := .ok (.scalar d)

def truth (b : Bool) : Reply := scalar (.bool b)

def number (n : Int) : Reply := scalar (.int n)

def typeError {α : Type} (complaint : String) : Except Raised α :=
  .error (.ofCore "TypeError" complaint)

def valueError {α : Type} (complaint : String) : Except Raised α :=
  .error (.ofCore "ValueError" complaint)

/-- What an action that only looks gives. -/
def looking {α : Type} (w : World) (act : Act α) : Except Raised α :=
  match act w with
  | .ok a _ => .ok a
  | .error e _ => .error e

def index (w : World) (v : Value) : Except Raised Int := looking w (indexArg v)

/-- The complaint about an argument that is no string. -/
def noString {α : Type} (w : World) (name parameter : String) (v : Value) : Except Raised α :=
  typeError (name ++ "() argument " ++ parameter ++ "must be str, not "
    ++ if v.isNull then "None" else w.className v)

def noMethod (w : World) (v : Value) (name : String) : Reply :=
  .error (.ofCore "AttributeError"
    ("'" ++ w.className v ++ "' object has no attribute '" ++ name ++ "'"))

/-! ### Strings and bytes -/

/-- The two kinds of texts. Bytes are taken for the characters with their numbers. -/
inductive Script where
  | str
  | bytes

namespace Script

def chars? : Script → Value → Option (List Char)
  | str, .text s => some s.toList
  | bytes, .bytes data => some (data.map fun b => Char.ofNat b.toNat)
  | _, _ => none

def datum : Script → List Char → Datum
  | str, s => .text (String.ofList s)
  | bytes, s => .bytes (s.map fun c => UInt8.ofNat c.toNat)

def isBlank : Script → Char → Bool
  | str, c => Text.isBlank c
  | bytes, c => c == ' ' || ('\t' ≤ c && c ≤ '\r')

def isLineEnd : Script → Char → Bool
  | str, c =>
    [0x0a, 0x0b, 0x0c, 0x0d, 0x1c, 0x1d, 0x1e, 0x85, 0x2028, 0x2029].contains c.toNat
  | bytes, c => c == '\n' || c == '\r'

end Script

def bytesArg (w : World) (v : Value) : Except Raised (List Char) :=
  match Script.bytes.chars? v with
  | some s => .ok s
  | none => typeError ("a bytes-like object is required, not '" ++ w.className v ++ "'")

namespace Script

variable (k : Script)

def text (s : List Char) : Reply := scalar (k.datum s)

/-- An argument that has to be of the same kind. -/
def part (w : World) (v : Value) (complaint : Except Raised (List Char)) :
    Except Raised (List Char) :=
  match k with
  | str => (str.chars? v).elim complaint .ok
  | bytes => bytesArg w v

def fill (w : World) (name : String) (v : Value) : Except Raised Char :=
  match k, k.chars? v with
  | _, some [c] => .ok c
  | str, some _ => typeError "The fill character must be exactly one character long"
  | str, none =>
    typeError ("The fill character must be a unicode character, not " ++ w.className v)
  | bytes, _ =>
    typeError (name ++ "() argument 2 must be a byte string of length 1, not " ++ w.className v)

/-- The characters to be stripped: blanks if none are given. -/
def stripped (w : World) (name : String) (v : Value) : Except Raised (Char → Bool) :=
  if v.isNull then .ok k.isBlank
  else do
    let chars ← k.part w v (typeError (name ++ " arg must be None or str"))
    return chars.contains

def separator (w : World) (v : Value) : Except Raised (List Char) := do
  let t ← k.part w v (typeError ("must be str, not " ++ w.className v))
  if t.isEmpty then valueError "empty separator" else return t

/-- How a text is cut, given what it is to be cut at and how often. -/
def cutter (w : World) (turn : List Char → List Char) (v limit : Value) :
    Except Raised (List Char → List (List Char)) := do
  let limit := limitOf (← index w limit)
  if v.isNull then return fun s => splitBlank k.isBlank limit (s.length + 1) s
  else
    let t ← k.part w v (typeError ("must be str or None, not " ++ w.className v))
    if t.isEmpty then valueError "empty separator"
    else return splitText (turn t) [] 0 limit

def joined (w : World) (s : List Char) (v : Value) : Reply := do
  let items ← (looking w (iterate v)).mapError fun _ =>
    .ofCore "TypeError" "can only join an iterable"
  let wanted := match k with | str => "str instance" | bytes => "a bytes-like object"
  let parts ← items.zipIdx.mapM fun (item, i) =>
    match k.chars? item with
    | some t => .ok t
    | none => typeError ("sequence item " ++ toString i ++ ": expected " ++ wanted ++ ", "
        ++ w.className item ++ " found")
  k.text (s.intercalate parts)

/-- The methods that strings and bytes share. -/
def answer (name : String) (w : World) (s : List Char) (args : List Value) : Reply := do
  let first := arg args 0
  let second := arg args 1
  match name with
  | "center" =>
    let n ← index w first
    k.text (pad (centred n) n (← k.fill w name second) s)
  | "ljust" => k.text (pad (fun _ => 0) (← index w first) (← k.fill w name second) s)
  | "rjust" => k.text (pad id (← index w first) (← k.fill w name second) s)
  | "zfill" => k.text (zeroFill (← index w first) s)
  | "expandtabs" => k.text (expandTabs (← index w first).toNat 0 s)
  | "join" => k.joined w s first
  | "lstrip" => k.text (s.dropWhile (← k.stripped w name first))
  | "rstrip" => k.text (dropEnd (← k.stripped w name first) s)
  | "strip" =>
    let p ← k.stripped w name first
    k.text (dropEnd p (s.dropWhile p))
  | "partition" => return .tuple ((partition (← k.separator w first) s).map k.datum)
  | "rpartition" => return .tuple ((partitionLast (← k.separator w first) s).map k.datum)
  | "removeprefix" | "removesuffix" =>
    let t ← k.part w first (noString w name "" first)
    k.text (if name == "removeprefix" then removeFront t s else removeEnd t s)
  | "split" => return .list (((← k.cutter w id first second) s).map k.datum)
  | "rsplit" =>
    return .list ((fromBehind (← k.cutter w List.reverse first second) s).map k.datum)
  | "splitlines" =>
    return .list ((lines k.isLineEnd ((← index w first) != 0) [] s).map k.datum)
  | _ => noMethod w (k.datum s).value name

end Script

/-- Whether an argument names the one encoding that there is. -/
def checkEncoding (w : World) (name : String) (v : Value) : Except Raised Unit :=
  match v with
  | .text e =>
    if ["utf-8", "utf8", "utf_8", "u8"].contains (String.ofList (Text.lower e.toList)) then .ok ()
    else .error (.ofCore "LookupError" ("unknown encoding: " ++ e))
  | _ => noString w name "'encoding' " v

/-! ### Strings -/

/-- What a table of replacements has for a character. -/
def replacement? (w : World) (table : Value) (c : Char) : Except Raised (Option Value) :=
  match w.table? table, looking w (iterate table) with
  | some (_, entries), _ =>
    .ok ((entries.find? fun e => indexValue? e.1 == some (c.toNat : Int)).map (·.2))
  | none, .ok items => .ok items[c.toNat]?
  | none, .error _ => typeError ("'" ++ w.className table ++ "' object is not subscriptable")

def translated (w : World) (table : Value) (c : Char) : Except Raised (List Char) := do
  match ← replacement? w table c with
  | none => return [c]
  | some .null => return []
  | some (.text t) => return t.toList
  | some v =>
    match indexValue? v with
    | none => typeError "character mapping must return integer, None or str"
    | some n =>
      if 0 ≤ n ∧ n < 0x110000 then return Literal.Codes.text [n.toNat]
      else valueError "character mapping must be in range(0x110000)"

def ofText (name : String) (w : World) (s : List Char) (args : List Value) : Reply :=
  let text := Script.str.text
  match name with
  | "encode" => do
    checkEncoding w name (arg args 0)
    scalar (.bytes (String.ofList s).toUTF8.toList)
  | "capitalize" => text (capitalize s)
  | "casefold" | "lower" => text (s.map Char.toLower)
  | "title" => text (titleCase false s)
  | "swapcase" => text (s.map swapCase)
  | "translate" => do text (← s.mapM (translated w (arg args 0))).flatten
  | "isascii" => truth (s.all fun c => c.toNat < 128)
  | "islower" => truth (hasCase Char.toLower s)
  | "isupper" => truth (hasCase Char.toUpper s)
  | "istitle" => truth (isTitle s)
  | "isspace" => truth (!s.isEmpty && s.all Text.isBlank)
  | "isdecimal" | "isdigit" | "isnumeric" => truth (!s.isEmpty && s.all Text.isDecimal)
  | "isalpha" => truth (!s.isEmpty && s.all Char.isAlpha)
  | "isalnum" => truth (!s.isEmpty && s.all Char.isAlphanum)
  | "isidentifier" => truth (isIdentifier s)
  | "isprintable" => truth (s.all Text.isPrintable)
  | _ => Script.str.answer name w s args

/-! ### Bytes -/

def decoded (w : World) (data : List UInt8) (encoding : Value) : Reply := do
  -- without bytes the encoding is not looked up
  if data.isEmpty && (Script.str.chars? encoding).isSome then return .scalar (.text "")
  checkEncoding w "decode" encoding
  match String.fromUTF8? ⟨data.toArray⟩ with
  | some s => scalar (.text s)
  | none => .error (.ofCore "UnicodeDecodeError" "'utf-8' codec can't decode bytes")

def bytesFromHex (w : World) (v : Value) : Reply :=
  match v with
  | .text s =>
    match hexPairs Script.bytes.isBlank 0 s.toList with
    | .ok numbers => scalar (.bytes (numbers.map UInt8.ofNat))
    | .error position =>
      valueError ("non-hexadecimal number found in fromhex() arg at position " ++ toString position)
  | _ => noString w "fromhex" "" v

/-- The bytes that others are replaced by, in their order; none stands for themselves. -/
def byteTable (w : World) (v : Value) : Except Raised (Char → Char) := do
  if v.isNull then return id
  else
    let table ← bytesArg w v
    if table.length = 256 then return fun c => table[c.toNat]?.getD c
    else valueError "translation table must be 256 characters long"

def ofBytes (name : String) (w : World) (data : List UInt8) (args : List Value) : Reply :=
  let k := Script.bytes
  let s := data.map fun b => Char.ofNat b.toNat
  match name with
  | "decode" => decoded w data (arg args 0)
  | "fromhex" => bytesFromHex w (arg args 0)
  | "replace" => do
    let old ← bytesArg w (arg args 0)
    let new ← bytesArg w (arg args 1)
    k.text (replaceText old new (limitOf (← index w (arg args 2))) s)
  | "translate" => do
    let table ← byteTable w (arg args 0)
    let dropped ← bytesArg w (arg args 1)
    k.text ((s.filter fun c => !dropped.contains c).map table)
  | _ => k.answer name w s args

/-! ### Integers -/

/-- The bytes of a number, the last one first. -/
def digits256 : Nat → Nat → List UInt8
  | 0, _ => []
  | count + 1, n => UInt8.ofNat n :: digits256 count (n / 256)

def number256 (data : List UInt8) : Nat := data.foldr (fun b n => b.toNat + 256 * n) 0

/-- How bytes are arranged from the last one on. -/
def byteOrder (w : World) (name : String) (v : Value) : Except Raised (List UInt8 → List UInt8) :=
  match v with
  | .text "little" => .ok id
  | .text "big" => .ok List.reverse
  | .text _ => valueError "byteorder must be either 'little' or 'big'"
  | _ => noString w name "'byteorder' " v

def toBytes (w : World) (n : Int) (width order : Value) : Reply := do
  let length ← index w width
  let arrange ← byteOrder w "to_bytes" order
  if length < 0 then valueError "length argument must be non-negative"
  else if n < 0 then .error (.ofCore "OverflowError" "can't convert negative int to unsigned")
  else if Nat.pow 256 length.toNat ≤ n.toNat then
    .error (.ofCore "OverflowError" "int too big to convert")
  else scalar (.bytes (arrange (digits256 length.toNat n.toNat)))

def byteOf (w : World) (v : Value) : Except Raised UInt8 :=
  match indexValue? v with
  | some n =>
    if 0 ≤ n ∧ n < 256 then .ok (UInt8.ofNat n.toNat)
    else valueError "bytes must be in range(0, 256)"
  | none => typeError ("'" ++ w.className v ++ "' object cannot be interpreted as an integer")

/-- The bytes that a value yields. -/
def bytesOf (w : World) (v : Value) : Except Raised (List UInt8) :=
  match v, looking w (iterate v) with
  | .bytes data, _ => .ok data
  | .text _, _ | _, .error _ =>
    typeError ("cannot convert '" ++ w.className v ++ "' object to bytes")
  | _, .ok items => items.mapM (byteOf w)

/-- An integer as one of the class that a method was called on. -/
def likeTarget (target : Value) (n : Int) : Reply :=
  match target with
  | .bool _ => truth (n != 0)
  | .sized width _ _ =>
    if width.fits n then scalar (.sized width n) else .error (unfitError width n)
  | _ => number n

def ofInteger (name : String) (w : World) (v : Value) (args : List Value) : Reply :=
  match name with
  | "to_bytes" => toBytes w (integerOf v) (arg args 0) (arg args 1)
  | "from_bytes" => do
    let arrange ← byteOrder w name (arg args 1)
    likeTarget v (number256 (arrange (← bytesOf w (arg args 0))))
  | _ => noMethod w v name

/-! ### Floating-point numbers -/

def ratio (x : Float) : Reply :=
  match Decimal.decode x with
  | .nan => valueError "cannot convert NaN to integer ratio"
  | .infinite _ => .error (.ofCore "OverflowError" "cannot convert Infinity to integer ratio")
  | .finite negative mantissa exponent =>
    let n := mantissa * Nat.pow 2 exponent.toNat
    let d := Nat.pow 2 (-exponent).toNat
    let g := Nat.gcd n d
    let top : Int := (n / g : Nat)
    .ok (.tuple [.int (if negative then -top else top), .int (d / g : Nat)])

/-- A double as a hexadecimal fraction times a power of two. -/
def hexText (x : Float) : List Char :=
  match Decimal.decode x with
  | .nan => "nan".toList
  | .infinite negative => (if negative then "-inf" else "inf").toList
  | .finite negative mantissa exponent =>
    let sign := if negative then ['-'] else []
    if mantissa = 0 then sign ++ "0x0.0p+0".toList
    else
      let whole := mantissa / Nat.pow 2 52
      let power := exponent + 52
      sign ++ "0x".toList ++ Nat.toDigits 10 whole ++ ['.']
        ++ hexDigits 13 (mantissa % Nat.pow 2 52) ++ ['p', if power < 0 then '-' else '+']
        ++ Nat.toDigits 10 power.natAbs

/-- The digits of a hexadecimal number and how many of them stand behind the point, if there are
any, and what follows. -/
def takeHexFraction (s : List Char) : Option (List Char × Nat × List Char) :=
  let (whole, rest) := takeHex s
  let (fraction, rest) :=
    match rest with
    | '.' :: more => takeHex more
    | _ => ([], rest)
  if (whole ++ fraction).isEmpty then none else some (whole ++ fraction, fraction.length, rest)

/-- The power of two at the end of a hexadecimal number. -/
def hexPower? : List Char → Option Int
  | [] => some 0
  | p :: rest =>
    let (negative, digits) := takeSign rest
    if p.toLower != 'p' || digits.isEmpty || !digits.all Char.isDigit then none
    else
      let n : Int := Nat.ofDigitChars 10 digits 0
      some (if negative then -n else n)

/-- The double nearest to a number times a power of two, which is not computed if it is far
outside the range of doubles. -/
def scaledFloat (negative : Bool) (n : Nat) (power : Int) : Float :=
  let size : Int := n.log2 + power
  if n = 0 || size < -1100 then Decimal.nearest negative 0 1
  else if 1100 < size then Decimal.infinity negative
  else
    let (num, den) := Decimal.scaleBy n 1 (-power)
    Decimal.nearest negative num den

def floatFromHex (v : Value) : Reply :=
  match v with
  | .text s =>
    let (negative, body) := takeSign (dropEnd Script.bytes.isBlank
      (s.toList.dropWhile Script.bytes.isBlank))
    let word := String.ofList (Text.lower body)
    if word == "inf" || word == "infinity" then scalar (.float (Decimal.infinity negative))
    else if word == "nan" then scalar (.float (Float.ofBits 0x7ff8000000000000))
    else
      let digits := if "0x".toList.isPrefixOf (Text.lower body) then body.drop 2 else body
      match takeHexFraction digits with
      | none => valueError "invalid hexadecimal floating-point string"
      | some (digits, behind, rest) =>
        match hexPower? rest with
        | none => valueError "invalid hexadecimal floating-point string"
        | some power =>
          let x := scaledFloat negative (hexNumber digits) (power - 4 * behind)
          match Decimal.decode x with
          | .infinite _ =>
            .error (.ofCore "OverflowError"
              "hexadecimal value too large to represent as a float")
          | _ => scalar (.float x)
  | _ => typeError "bad argument type for built-in operation"

def ofFloat (name : String) (w : World) (x : Float) (args : List Value) : Reply :=
  match name with
  | "as_integer_ratio" => ratio x
  | "hex" => Script.str.text (hexText x)
  | "fromhex" => floatFromHex (arg args 0)
  | _ => noMethod w (.float x) name

end Ascii

def Library.ascii : Library where
  answer _ name w v args :=
    match v with
    | .text s => Ascii.ofText name w s.toList args
    | .bytes data => Ascii.ofBytes name w data args
    | .float x => Ascii.ofFloat name w x args
    | v => Ascii.ofInteger name w v args

end ObjectConsole.Builtin
