import ObjectConsole.Builtin.Library
import ObjectConsole.Decimal.Binary

/-!
The members of numbers. The integers of a fixed width add their bounds, which are plain values of
the class, and the test whether another integer fits.
-/

namespace ObjectConsole.Builtin

/-- The integer behind a value, a truth value counting as zero or one. -/
def integerOf (v : Value) : Int := (indexValue? v).getD 0

def bitLength (n : Nat) : Nat := if n = 0 then 0 else n.log2 + 1

def bitCount (n : Nat) : Nat := (List.range (bitLength n)).countP n.testBit

def integerBody (lib : Library) : ClassBody where
  name := .core "int"
  members := [
    method "bit_length" [] fun v _ => return .int (bitLength (integerOf v).natAbs),
    method "bit_count" [] fun v _ => return .int (bitCount (integerOf v).natAbs),
    lib.method "int" "to_bytes" [allows "length" (.int 1), allows "byteorder" (.text "big")],
    lib.method "int" "from_bytes" [needs "bytes", allows "byteorder" (.text "big")],
    method "as_integer_ratio" [] fun v _ => return .tuple [.int (integerOf v), .int 1],
    readOnly "real" fun v => return .int (integerOf v),
    readOnly "imag" fun _ => return .int 0,
    readOnly "numerator" fun v => return .int (integerOf v),
    readOnly "denominator" fun _ => return .int 1]

def widthBody (width : Width) : ClassBody where
  name := .ofWidth width
  members := [
    ("MIN", .constant (.int width.least)),
    ("MAX", .constant (.int width.greatest)),
    ("BITS", .constant (.int width.bits))]

def sizedBody (width : Width) : ClassBody where
  name := ⟨"autoconsole.types", "_SizedInt"⟩
  members := [
    ("fits", .method {
      params := [{ name := "value", type := .int }]
      run := fun _ args => return .bool (width.fits (integerOf (arg args 0))) })]

def floatBody (lib : Library) : ClassBody where
  name := .core "float"
  members := [
    method "conjugate" [] fun v _ => return v,
    lib.method "float" "as_integer_ratio",
    lib.method "float" "fromhex" [needs "string"],
    lib.method "float" "hex",
    method "is_integer" [] fun v _ =>
      match v with
      | .float x => return .bool (Decimal.toInt? x).isSome
      | _ => return .bool false,
    readOnly "real" fun v => return v,
    readOnly "imag" fun _ => return .float 0]

end ObjectConsole.Builtin
