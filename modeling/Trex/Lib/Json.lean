import Mathlib.Tactic.Common

/-!
# JSON text

The compact JSON that Go's `encoding/json` writes for records of numbers, identifiers
and maps: integers, strings without escapes, arrays and objects in a fixed order.
-/

/-- The values that occur; numbers are integers, and strings need no escapes. -/
inductive Json where
  | null
  | num (value : Int)
  | str (text : List UInt8)
  | arr (items : List Json)
  | obj (fields : List (List UInt8 × Json))

namespace Json

/-! ## Printing -/

/-- The decimal digits of `n` before `rest`; `turns` bounds their number. -/
def digits : Nat → Nat → List UInt8 → List UInt8
  | 0, _, rest => rest
  | turns + 1, n, rest =>
      if n < 10 then .ofNat (48 + n) :: rest
      else digits turns (n / 10) (.ofNat (48 + n % 10) :: rest)

def printNat (n : Nat) : List UInt8 := digits (n + 1) n []

def printInt (v : Int) : List UInt8 :=
  if v < 0 then 45 :: printNat v.natAbs else printNat v.natAbs

def printStr (text : List UInt8) : List UInt8 := 34 :: text ++ [34]

mutual

/-- The text of a value, without blanks. -/
def print : Json → List UInt8
  | .null => [110, 117, 108, 108]
  | .num v => printInt v
  | .str text => printStr text
  | .arr items => 91 :: printItems items ++ [93]
  | .obj fields => 123 :: printFields fields ++ [125]

def printItems : List Json → List UInt8
  | [] => []
  | [item] => item.print
  | item :: next :: items => item.print ++ 44 :: printItems (next :: items)

def printFields : List (List UInt8 × Json) → List UInt8
  | [] => []
  | [(name, value)] => printStr name ++ 58 :: value.print
  | (name, value) :: next :: fields => printStr name ++ 58 :: (value.print ++ 44 :: printFields (next :: fields))

end

/-! ## Parsing -/

def isDigit (c : UInt8) : Bool := 48 ≤ c.toNat && c.toNat ≤ 57

/-- The digits at the start of the input, after `value`. -/
def parseDigits (value : Nat) : List UInt8 → Nat × List UInt8
  | [] => (value, [])
  | c :: rest => if isDigit c then parseDigits (10 * value + (c.toNat - 48)) rest else (value, c :: rest)

def parseNat : List UInt8 → Option (Nat × List UInt8)
  | [] => none
  | c :: rest => if isDigit c then some (parseDigits 0 (c :: rest)) else none

/-- The rest of a string after its opening quote; escapes do not occur. -/
def parseStr : List UInt8 → Option (List UInt8 × List UInt8)
  | [] => none
  | c :: rest =>
      if c = 34 then some ([], rest)
      else if c = 92 then none
      else
        match parseStr rest with
        | none => none
        | some (text, rest) => some (c :: text, rest)

mutual

/-- A value in front of a text. -/
def parseValue : Nat → List UInt8 → Option (Json × List UInt8)
  | 0, _ => none
  | turns + 1, input =>
      match input with
      | [] => none
      | c :: rest =>
          if c = 34 then (parseStr rest).map fun r => (.str r.1, r.2)
          else if c = 91 then
            if rest.head? = some 93 then some (.arr [], rest.tail)
            else (parseItems turns rest).map fun r => (.arr r.1, r.2)
          else if c = 123 then
            if rest.head? = some 125 then some (.obj [], rest.tail)
            else (parseFields turns rest).map fun r => (.obj r.1, r.2)
          else if c = 110 then
            if rest.take 3 = [117, 108, 108] then some (.null, rest.drop 3) else none
          else if c = 45 then (parseNat rest).map fun r => (.num (-(r.1 : Int)), r.2)
          else (parseNat (c :: rest)).map fun r => (.num r.1, r.2)

def parseItems : Nat → List UInt8 → Option (List Json × List UInt8)
  | 0, _ => none
  | turns + 1, input =>
      match parseValue turns input with
      | none => none
      | some (item, rest) =>
          match rest with
          | [] => none
          | c :: rest =>
              if c = 93 then some ([item], rest)
              else if c = 44 then (parseItems turns rest).map fun r => (item :: r.1, r.2)
              else none

def parseFields : Nat → List UInt8 → Option (List (List UInt8 × Json) × List UInt8)
  | 0, _ => none
  | turns + 1, input =>
      match input with
      | [] => none
      | quote :: rest =>
          if quote = 34 then
            match parseStr rest with
            | none => none
            | some (name, rest) =>
                match rest with
                | [] => none
                | colon :: rest =>
                    if colon = 58 then
                      match parseValue turns rest with
                      | none => none
                      | some (value, rest) =>
                          match rest with
                          | [] => none
                          | c :: rest =>
                              if c = 125 then some ([(name, value)], rest)
                              else if c = 44 then
                                (parseFields turns rest).map fun r => ((name, value) :: r.1, r.2)
                              else none
                    else none
          else none

end

/-- A text that is one value. -/
def parse (text : List UInt8) : Option Json :=
  match parseValue (text.length + 1) text with
  | some (value, []) => some value
  | _ => none

end Json
