import LayerBlend.Json

/-!
# Equality of JSON values

Two values are the same when they are of one kind and agree, where truth values, integers and
doubles are one kind, compared as exact numbers with truth values as one and zero, and the order of
the fields of an object does not count. As a key a NaN agrees with a NaN (`Json.sameKey`); compared
by itself it agrees with nothing (`Json.same`).
-/

namespace LayerBlend.Json

/-- A number as an integer, when it is whole, or else as a double. -/
inductive Number where
  /-- A whole number. -/
  | whole (n : Int)
  /-- A number with a fraction, an infinity or a NaN. -/
  | other (x : Float)

/-- The number that a truth value, an integer or a double is. -/
def number? : Json → Option Number
  | .bool b => some (.whole (if b then 1 else 0))
  | .int n => some (.whole n)
  | .double x =>
    match Double.truncate? x with
    | some n => some (if Double.floor x == x then .whole n else .other x)
    | none => some (.other x)
  | _ => none

/-- Two numbers agree, a NaN with a NaN too. -/
def Number.same : Number → Number → Bool
  | .whole m, .whole n => m == n
  | .other x, .other y => x == y || (x.isNaN && y.isNaN)
  | _, _ => false

mutual

/-- Two values agree as keys. -/
def sameKey : Json → Json → Bool
  | .null, .null => true
  | .text s, .text t => s == t
  | .list a, .list b => sameItems a b
  | .object a, .object b => a.length == b.length && sameFields a b
  | .bool b, other => sameNumber (.bool b) other
  | .int n, other => sameNumber (.int n) other
  | .double x, other => sameNumber (.double x) other
  | _, _ => false

/-- Two numbers agree as keys. -/
def sameNumber (a b : Json) : Bool :=
  match number? a, number? b with
  | some m, some n => m.same n
  | _, _ => false

/-- Two lists agree item by item. -/
def sameItems : List Json → List Json → Bool
  | [], [] => true
  | a :: as, b :: bs => sameKey a b && sameItems as bs
  | _, _ => false

/-- Each field agrees with the field of the same name of another object. -/
def sameFields : List (JsonText × Json) → List (JsonText × Json) → Bool
  | [], _ => true
  | (name, a) :: fields, other =>
    (match find? other name with
      | some b => sameKey a b
      | none => false) && sameFields fields other

end

/-- A number that agrees with nothing. -/
def isNaN : Json → Bool
  | .double x => x.isNaN
  | _ => false

/-- Two values agree. -/
def same (a b : Json) : Bool :=
  !isNaN a && sameKey a b

/-- A value that can be a key: no list and no object. -/
def isKey : Json → Bool
  | .list _ | .object _ => false
  | _ => true

end LayerBlend.Json
