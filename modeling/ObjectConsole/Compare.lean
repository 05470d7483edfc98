import ObjectConsole.Outline
import ObjectConsole.Decimal.Binary

/-!
Equality and order of values. Numbers of all kinds compare by their value, truth values as zero
and one; lists, tuples, tables and instances of record classes compare by what they hold; all
other objects are equal to themselves only. Only some values can be keys of a table.
-/

namespace ObjectConsole

inductive Number where
  | int (n : Int)
  | float (x : Float)

def Value.number? : Value → Option Number
  | .bool b => some (.int (if b then 1 else 0))
  | .int n | .sized _ n _ => some (.int n)
  | .float x => some (.float x)
  | _ => none

def Number.equal : Number → Number → Bool
  | .int m, .int n => m == n
  | .float x, .float y => x == y
  | .int n, .float x | .float x, .int n => Decimal.toInt? x == some n

/-- Whether an integer is less than a double, without rounding. -/
def intLtFloat (n : Int) (x : Float) : Bool :=
  match Decimal.decode x with
  | .nan => false
  | .infinite negative => !negative
  | .finite negative mantissa exponent =>
    let m : Int := if negative then -(mantissa : Int) else mantissa
    n * Nat.pow 2 (-exponent).toNat < m * Nat.pow 2 exponent.toNat

def floatLtInt (x : Float) (n : Int) : Bool :=
  match Decimal.decode x with
  | .nan => false
  | .infinite negative => negative
  | .finite negative mantissa exponent =>
    let m : Int := if negative then -(mantissa : Int) else mantissa
    m * Nat.pow 2 exponent.toNat < n * Nat.pow 2 (-exponent).toNat

/-- Whether a number is less than another, without rounding. -/
def Number.less : Number → Number → Bool
  | .int m, .int n => m < n
  | .float x, .float y => x < y
  | .int n, .float x => intLtFloat n x
  | .float x, .int n => floatLtInt x n

namespace Outlines

/-- Whether two values are one object, or scalars that cannot be told apart. -/
def identical : Value → Value → Bool
  | .null, .null => true
  | .bool a, .bool b => a == b
  | .int m, .int n => m == n
  | .sized v m _, .sized w n _ => v == w && m == n
  | .float x, .float y => x.toBits == y.toBits
  | .text s, .text t => s == t
  | .bytes a, .bytes b => a == b
  | .choice c a, .choice d b => c == d && a == b
  | .object r, .object s => r == s
  | _, _ => false

def allEqual (eq : Value → Value → Bool) : List Value → List Value → Bool
  | [], [] => true
  | a :: as, b :: bs => eq a b && allEqual eq as bs
  | _, _ => false

/-- Equality of values, as deep as the bound allows. -/
def equalWithin (o : Outlines) (w : World) : Nat → Value → Value → Bool
  | 0, _, _ => false
  | fuel + 1, a, b =>
    -- an object equals itself without a look at what it holds, which may be itself
    identical a b ||
    match a.number?, b.number? with
    | some m, some n => m.equal n
    | _, _ =>
      match a, b with
      | .tuple as, .tuple bs => allEqual (o.equalWithin w fuel) as bs
      | .object r, .object s =>
        match w.get? r, w.get? s with
        | some (.list as), some (.list bs) => allEqual (o.equalWithin w fuel) as bs
        | some (.table _ as), some (.table _ bs) =>
          as.length == bs.length && as.all fun (k, v) =>
            match bs.find? fun (l, _) => o.equalWithin w fuel k l with
            | some (_, u) => o.equalWithin w fuel v u
            | none => false
        | some (.record c as), some (.record d bs) =>
          match (o.find c).record with
          | some shape =>
            c == d && shape.fields.all fun f =>
              o.equalWithin w fuel ((as.lookup f.name).getD .null)
                ((bs.lookup f.name).getD .null)
          | none => false
        | _, _ => false
      | _, _ => false

def equal (o : Outlines) (w : World) (a b : Value) : Bool :=
  o.equalWithin w (w.extent a + w.extent b) a b

/-- The class of the first part of a value that keeps it from being a key, if there is one:
lists, tables and records that can change. -/
def unhashableWithin (o : Outlines) (w : World) : Nat → Value → Option String
  | 0, _ => none
  | fuel + 1, v =>
    match v with
    | .tuple items => items.findSome? (o.unhashableWithin w fuel)
    | .object r =>
      match w.get? r with
      | some (.record c attributes) =>
        match (o.find c).record with
        | some shape =>
          if shape.frozen then
            shape.fields.findSome? fun f =>
              o.unhashableWithin w fuel ((attributes.lookup f.name).getD .null)
          else some c.name
        | none => none
      | some _ => some (w.className v)
      | none => none
    | _ => none

def unhashable (o : Outlines) (w : World) (v : Value) : Option String :=
  o.unhashableWithin w (w.extent v) v

def lookup (o : Outlines) (w : World) (key : Value) (entries : List (Value × Value)) :
    Option Value :=
  (entries.find? fun (k, _) => o.equal w key k).map (·.2)

def insert (o : Outlines) (w : World) (key value : Value) :
    List (Value × Value) → List (Value × Value)
  | [] => [(key, value)]
  | (k, v) :: rest =>
    if o.equal w key k then (k, value) :: rest else (k, v) :: o.insert w key value rest

def codesLess : List Nat → List Nat → Bool
  | _, [] => false
  | [], _ :: _ => true
  | a :: as, b :: bs => if a == b then codesLess as bs else a < b

def listLess (eq : Value → Value → Bool) (less : Value → Value → Except (String × String) Bool) :
    List Value → List Value → Except (String × String) Bool
  | _, [] => .ok false
  | [], _ :: _ => .ok true
  | a :: as, b :: bs => if eq a b then listLess eq less as bs else less a b

/-- Whether a value stands before another, or the names of the two classes that have no common
order. -/
def lessWithin (o : Outlines) (w : World) :
    Nat → Value → Value → Except (String × String) Bool
  | 0, _, _ => .ok false
  | fuel + 1, a, b =>
    match a.number?, b.number? with
    | some m, some n => .ok (m.less n)
    | _, _ =>
      match a, b with
      | .text s, .text t => .ok (codesLess (s.toList.map Char.toNat) (t.toList.map Char.toNat))
      | .bytes s, .bytes t => .ok (codesLess (s.map UInt8.toNat) (t.map UInt8.toNat))
      | .tuple as, .tuple bs => listLess (o.equal w) (o.lessWithin w fuel) as bs
      | .object r, .object s =>
        match w.get? r, w.get? s with
        | some (.list as), some (.list bs) =>
          listLess (o.equal w) (o.lessWithin w fuel) as bs
        | _, _ => .error (w.className a, w.className b)
      | _, _ => .error (w.className a, w.className b)

def less (o : Outlines) (w : World) (a b : Value) : Except (String × String) Bool :=
  o.lessWithin w (w.extent a) a b

end Outlines

end ObjectConsole
