import Literate.Toml.Quotes
import Literate.Toml.Value

/-! Numbers, and moments in time, which start like numbers. -/

namespace Literate.Toml

def isDecimal (c : Char) : Bool :=
  '0' ≤ c && c ≤ '9'

/-- Digits with single underscores between them; gives the digits. -/
def digits (isDigit : Char → Bool) : Scanner Text
  | c :: cs =>
    if isDigit c then
      scan (fun acc t =>
        match t with
        | '_' :: d :: rest => if isDigit d then .more (d :: acc) rest else .fail
        | '_' :: [] => .fail
        | d :: rest => if isDigit d then .more (d :: acc) rest else .done acc.reverse t
        | [] => .done acc.reverse t) [c] cs
    else none
  | [] => none

def numeral (base : Nat) (ds : Text) : Nat :=
  ds.foldl (fun a d => a * base + (hexDigit? d).getD 0) 0

/-- An optional sign; true stands for minus. -/
def sign : Text → Bool × Text
  | '-' :: cs => (true, cs)
  | '+' :: cs => (false, cs)
  | cs => (false, cs)

/-- Decimal digits without a leading zero. -/
def wholePart : Scanner Text
  | '0' :: cs => some (['0'], cs)
  | cs => digits isDecimal cs

def fitsWord (n : Int) : Bool :=
  -(Nat.pow 2 63 : Int) ≤ n && n < (Nat.pow 2 63 : Int)

def basedInteger (base : Nat) (isDigit : Char → Bool) : Scanner Value := fun t => do
  let (ds, rest) ← digits isDigit t
  let n : Int := numeral base ds
  if fitsWord n then some (.integer n, rest) else none

def integer : Scanner Value
  | '0' :: 'x' :: cs => basedInteger 16 (fun c => (hexDigit? c).isSome) cs
  | '0' :: 'o' :: cs => basedInteger 8 (fun c => '0' ≤ c && c ≤ '7') cs
  | '0' :: 'b' :: cs => basedInteger 2 (fun c => c == '0' || c == '1') cs
  | cs => do
    let (negative, cs) := sign cs
    let (ds, rest) ← wholePart cs
    let n : Int := numeral 10 ds
    let n := if negative then -n else n
    if fitsWord n then some (.integer n, rest) else none

def isExponentMark (c : Char) : Bool :=
  c == 'e' || c == 'E'

/-- A power of ten, such as `e-7`. -/
def exponent? : Text → Option (Int × Text)
  | c :: cs =>
    if isExponentMark c then do
      let (negative, cs) := sign cs
      let (ds, rest) ← digits isDecimal cs
      let n : Int := numeral 10 ds
      some (if negative then -n else n, rest)
    else none
  | [] => none

/-- Whether `m · 10 ^ e` lies beyond the largest double. -/
def overflows (m : Nat) (e : Int) : Bool :=
  let limit := Nat.pow 2 1024 - Nat.pow 2 970
  let size : Int := (Nat.toDigits 10 m).length + e
  if m = 0 then false
  else if 400 < size then true
  else if size < 0 then false
  else if 0 ≤ e then limit ≤ m * Nat.pow 10 e.toNat
  else limit * Nat.pow 10 (-e).toNat ≤ m

/-- A number with a fraction or an exponent. Positive ones must fit a double. -/
def finiteFloat : Scanner Value := fun t => do
  let (negative, cs) := sign t
  let (whole, cs) ← wholePart cs
  let (fraction, power, rest) ←
    match cs with
    | '.' :: cs => do
      let (fraction, cs) ← digits isDecimal cs
      match exponent? cs with
      | some (power, rest) => some (fraction, power, rest)
      | none => if (cs.head?.map isExponentMark).getD false then none else some (fraction, 0, cs)
    | cs => do
      let (power, rest) ← exponent? cs
      some ([], power, rest)
  let m := numeral 10 (whole ++ fraction)
  if !negative && overflows m (power - fraction.length) then none
  else some (.float (t.take (t.length - rest.length)), rest)

def specialFloat : Scanner Value := fun t => do
  let (_, cs) := sign t
  let rest ← (exactly "inf".toList cs).or (exactly "nan".toList cs)
  some (.float (t.take (t.length - rest.length)), rest)

/-- Exactly `n` digits. -/
def field (n : Nat) : Scanner Nat := fun t =>
  let ds := t.take n
  if ds.length = n ∧ ds.all isDecimal then some (numeral 10 ds, t.drop n) else none

def fieldUpTo (high : Nat) : Scanner Nat := fun t => do
  let (n, rest) ← field 2 t
  if n ≤ high then some (n, rest) else none

def daysIn (year month : Nat) : Nat :=
  if month = 2 then
    if year % 4 = 0 ∧ (year % 100 ≠ 0 ∨ year % 400 = 0) then 29 else 28
  else if month = 4 ∨ month = 6 ∨ month = 9 ∨ month = 11 then 30
  else 31

def date? (t : Text) : Option Text := do
  let (year, t) ← field 4 t
  let (month, t) ← fieldUpTo 12 (← exactly ['-'] t)
  let (day, t) ← fieldUpTo 31 (← exactly ['-'] t)
  if 1 ≤ month ∧ 1 ≤ day ∧ day ≤ daysIn year month then some t else none

/-- Hours, minutes and seconds, with a leap second and a fraction allowed. -/
def time? (t : Text) : Option Text := do
  let (_, t) ← fieldUpTo 23 t
  let (_, t) ← fieldUpTo 59 (← exactly [':'] t)
  let (_, t) ← fieldUpTo 60 (← exactly [':'] t)
  match t with
  | '.' :: cs =>
    if (cs.head?.map isDecimal).getD false then some (cs.dropWhile isDecimal) else some t
  | _ => some t

def offset? : Text → Option Text
  | 'Z' :: cs => some cs
  | 'z' :: cs => some cs
  | c :: cs =>
    if c = '+' ∨ c = '-' then do
      let (_, t) ← fieldUpTo 23 cs
      let (_, t) ← fieldUpTo 59 (← exactly [':'] t)
      some t
    else none
  | [] => none

def isTimeMark (c : Char) : Bool :=
  c == 'T' || c == 't' || c == ' '

/-- A date, a date with a time, or a time. -/
def dateTime : Scanner Value := fun t => do
  let rest ←
    match date? t with
    | some (c :: cs) =>
      if isTimeMark c then
        match time? cs with
        | some rest => some ((offset? rest).getD rest)
        | none => some (c :: cs)
      else some (c :: cs)
    | some [] => some []
    | none => time? t
  some (.dateTime (t.take (t.length - rest.length)), rest)

/-- The first reading that fits. -/
def number : Scanner Value := fun t =>
  (dateTime t).or ((finiteFloat t).or ((specialFloat t).or (integer t)))

end Literate.Toml
