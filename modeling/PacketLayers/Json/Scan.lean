import PacketLayers.Json.Text

namespace PacketLayers.Json

def word : (rest : List Char) → Text → Except ReadFault Text
  | [], t => .ok t
  | _ :: _, [] => .error .truncated
  | w :: ws, c :: t => if c = w then word ws t else .error .malformed

def isDigit (c : Char) : Bool := '0' ≤ c && c ≤ '9'

def digitValue (c : Char) : Nat := c.toNat - 48

/-- A number so far: digits that fit 64 bits, and the power of ten they are scaled by. -/
structure Scaled where
  significand : Nat := 0
  exponent : Int := 0
  full : Bool := false

namespace Scaled

def fits (n : Nat) : Bool := decide (n < UInt64.size)

/-- A digit before the point; one that does not fit any more only scales. -/
def pushWhole (s : Scaled) (c : Char) : Scaled :=
  let n := 10 * s.significand + digitValue c
  if !s.full && fits n then { s with significand := n }
  else { s with exponent := s.exponent + 1, full := true }

/-- A digit behind the point; one that does not fit any more is dropped. -/
def pushFraction (s : Scaled) (c : Char) : Scaled :=
  let n := 10 * s.significand + digitValue c
  if !s.full && fits n then { s with significand := n, exponent := s.exponent - 1 }
  else { s with full := true }

/-- Whether the nearest double is infinite. Digits of 64 bits alone are far below that. -/
def overflows (s : Scaled) : Bool :=
  if s.significand = 0 then false
  else if 308 < s.exponent then true
  else if s.exponent ≤ 0 then false
  else (s.significand.toUInt64.toFloat * Float.ofScientific 1 false s.exponent.toNat).isInf

end Scaled

def exponent (s : Scaled) (t : Text) : Except ReadFault Text :=
  let (negative, t) := match t with
    | '+' :: rest => (false, rest)
    | '-' :: rest => (true, rest)
    | _ => (false, t)
  match t with
  | [] => .error .truncated
  | c :: _ =>
    if isDigit c then
      let digits := t.takeWhile isDigit
      let size : Int := digits.foldl (fun n c => 10 * n + digitValue c) 0
      let scaled := { s with
        exponent := if negative then s.exponent - size else s.exponent + size }
      if scaled.overflows then .error .malformed else .ok (t.dropWhile isDigit)
    else .error .malformed

def fraction (s : Scaled) : Text → Except ReadFault Text
  | '.' :: t =>
    let digits := t.takeWhile isDigit
    let rest := t.dropWhile isDigit
    if digits.isEmpty then .error (if rest.isEmpty then .truncated else .malformed)
    else
      let s := digits.foldl Scaled.pushFraction { s with full := false }
      match rest with
      | c :: more =>
        if c = 'e' ∨ c = 'E' then exponent s more
        else if s.overflows then .error .malformed else .ok rest
      | [] => if s.overflows then .error .malformed else .ok rest
  | c :: t =>
    if c = 'e' ∨ c = 'E' then exponent s t
    else if s.overflows then .error .malformed else .ok (c :: t)
  | [] => if s.overflows then .error .malformed else .ok []

def isFractional : Text → Bool
  | c :: _ => c == '.' || c == 'e' || c == 'E'
  | [] => false

/-- A number, and its value if it is a natural number of 64 bits written without fraction. A
number whose double is infinite is refused. -/
def number (t : Text) : Except ReadFault (Option Nat × Text) :=
  let (negative, t) := match t with
    | '-' :: rest => (true, rest)
    | _ => (false, t)
  match t with
  | [] => .error .truncated
  | c :: after =>
    if !isDigit c then .error .malformed
    else if c = '0' ∧ (after.head?.map isDigit).getD false then .error .malformed
    else
      let s := (t.takeWhile isDigit).foldl Scaled.pushWhole {}
      let rest := t.dropWhile isDigit
      match fraction s rest with
      | .error e => .error e
      | .ok behind =>
        if negative || s.full || isFractional rest then .ok (none, behind)
        else .ok (some s.significand, behind)

/-- The fault of a value that begins here and is not of the kind asked for. -/
def unexpected (t : Text) : ReadFault :=
  let after {α : Type} (r : Except ReadFault α) : ReadFault :=
    match r with
    | .ok _ => .mismatched
    | .error e => e
  match t with
  | [] => .malformed
  | 'n' :: rest => after (word ['u', 'l', 'l'] rest)
  | 't' :: rest => after (word ['r', 'u', 'e'] rest)
  | 'f' :: rest => after (word ['a', 'l', 's', 'e'] rest)
  | '"' :: rest => after (stringRest rest)
  | '[' :: _ => .mismatched
  | '\x7b' :: _ => .mismatched
  | c :: _ => if c = '-' ∨ isDigit c then after (number t) else .malformed

def skipNumber (t : Text) : Except ReadFault Text :=
  let t := match t with
    | '-' :: rest => rest
    | _ => t
  let skipExponent (t : Text) : Except ReadFault Text :=
    let t := match t with
      | '+' :: rest => rest
      | '-' :: rest => rest
      | _ => t
    if (t.takeWhile isDigit).isEmpty then .error .malformed else .ok (t.dropWhile isDigit)
  let whole := t.takeWhile isDigit
  if whole.isEmpty ∨ (whole.head? = some '0' ∧ 1 < whole.length) then .error .malformed
  else
    match t.dropWhile isDigit with
    | '.' :: rest =>
      if (rest.takeWhile isDigit).isEmpty then .error .malformed
      else
        match rest.dropWhile isDigit with
        | c :: more => if c = 'e' ∨ c = 'E' then skipExponent more else .ok (c :: more)
        | [] => .ok []
    | c :: more => if c = 'e' ∨ c = 'E' then skipExponent more else .ok (c :: more)
    | [] => .ok []

/-- What an ignored value stands in. -/
inductive Enclosure where
  | array
  | object
deriving DecidableEq, Repr

def skipName (t : Text) : Except ReadFault Text :=
  match skipBlanks t with
  | [] => .error .truncated
  | '"' :: rest =>
    match skipString rest with
    | .error e => .error e
    | .ok after =>
      match skipBlanks after with
      | [] => .error .truncated
      | ':' :: more => .ok more
      | _ => .error .malformed
  | _ => .error .malformed

/-- What is left behind an ignored value or its opening bracket. -/
structure Skipped where
  /-- Nothing but a comma or a closing bracket may follow. -/
  complete : Bool
  around : List Enclosure
  rest : Text

/-- Passes over a value without brackets, or over an opening bracket. -/
def skipInto (around : List Enclosure) (t : Text) : Except ReadFault Skipped :=
  let scalar (r : Except ReadFault Text) : Except ReadFault Skipped :=
    match r with
    | .error e => .error e
    | .ok rest => .ok ⟨true, around, rest⟩
  match skipBlanks t with
  | [] => .error .truncated
  | 'n' :: rest => scalar (word ['u', 'l', 'l'] rest)
  | 't' :: rest => scalar (word ['r', 'u', 'e'] rest)
  | 'f' :: rest => scalar (word ['a', 'l', 's', 'e'] rest)
  | '"' :: rest => scalar (skipString rest)
  | '[' :: rest => .ok ⟨false, .array :: around, rest⟩
  | '\x7b' :: rest => .ok ⟨false, .object :: around, rest⟩
  | c :: rest =>
    if c = '-' ∨ isDigit c then scalar (skipNumber (c :: rest)) else .error .malformed

/-- Passes into the next item of an array or entry of an object. -/
def skipItem (enclosure : Enclosure) (outer : List Enclosure) (t : Text) :
    Except ReadFault Skipped :=
  match enclosure with
  | .array => skipInto (enclosure :: outer) t
  | .object =>
    match skipName t with
    | .error e => .error e
    | .ok rest => skipInto (enclosure :: outer) rest

/-- One step towards the end of what an ignored value stands in: past a closing bracket, or into
the next item. -/
def skipOne (complete : Bool) (enclosure : Enclosure) (outer : List Enclosure) (t : Text) :
    Except ReadFault Skipped :=
  match skipBlanks t with
  | [] => .error .truncated
  | c :: rest =>
    if c = ',' ∧ complete then skipItem enclosure outer rest
    else if c = ']' ∧ enclosure = .array then .ok ⟨true, outer, rest⟩
    else if c = '\x7d' ∧ enclosure = .object then .ok ⟨true, outer, rest⟩
    else if complete then .error .malformed
    else skipItem enclosure outer (c :: rest)

/-- Passes over what an ignored value stands in. Each step reads a character at least, so there
are no more of them than characters in `bound`. -/
def skipOut : (bound : Text) → Skipped → Except ReadFault Text
  | _, ⟨_, [], t⟩ => .ok t
  | [], ⟨_, _ :: _, _⟩ => .error .truncated
  | _ :: bound, ⟨complete, enclosure :: outer, t⟩ =>
    match skipOne complete enclosure outer t with
    | .error e => .error e
    | .ok behind => skipOut bound behind

def skipValue (t : Text) : Except ReadFault Text :=
  match skipInto [] t with
  | .error e => .error e
  | .ok behind => skipOut t behind

end PacketLayers.Json
