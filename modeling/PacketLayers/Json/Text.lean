namespace PacketLayers.Json

inductive ReadFault where
  | malformed
  | mismatched
  | truncated
deriving DecidableEq, Repr

abbrev Text := List Char

abbrev Reader (α : Type) := Text → Except ReadFault (α × Text)

def isBlank (c : Char) : Bool := c == ' ' || c == '\n' || c == '\t' || c == '\r'

def skipBlanks (t : Text) : Text := t.dropWhile isBlank

/-- How values are laid out: on one line, or one item a line below a number of levels. -/
inductive Layout where
  | compact
  | indented (depth : Nat)
deriving DecidableEq, Repr

namespace Layout

def inner : Layout → Layout
  | compact => compact
  | indented depth => indented (depth + 1)

/-- What stands before an item and before a closing bracket. -/
def lineBreak : Layout → Text
  | compact => []
  | indented depth => '\n' :: List.replicate (2 * depth) ' '

def afterColon : Layout → Text
  | compact => []
  | indented _ => [' ']

end Layout

def hexValue? (c : Char) : Option Nat :=
  if '0' ≤ c ∧ c ≤ '9' then some (c.toNat - 48)
  else if 'a' ≤ c ∧ c ≤ 'f' then some (c.toNat - 87)
  else if 'A' ≤ c ∧ c ≤ 'F' then some (c.toNat - 55)
  else none

/-- The rest of a text after something was read from it. -/
abbrev After (t : Text) := { rest : Text // rest.length < t.length }

def utf8Size (t : Text) : Nat := t.foldr (fun c size => c.utf8Size + size) 0

/-- Four hexadecimal digits. A text with fewer than four octets left ends too early. -/
def fourHex : (t : Text) → Except ReadFault (Nat × After t)
  | a :: b :: c :: d :: rest =>
    match hexValue? a, hexValue? b, hexValue? c, hexValue? d with
    | some a', some b', some c', some d' =>
      .ok (((a' * 16 + b') * 16 + c') * 16 + d', ⟨rest, by simp only [List.length_cons]; omega⟩)
    | _, _, _, _ => .error .malformed
  | short => if utf8Size short < 4 then .error .truncated else .error .malformed

def isHighSurrogate (n : Nat) : Bool := 0xD800 ≤ n && n ≤ 0xDBFF

def isLowSurrogate (n : Nat) : Bool := 0xDC00 ≤ n && n ≤ 0xDFFF

/-- The character after `\u`: four digits, or two surrogates in two escapes. -/
def unicodeEscape (t : Text) : Except ReadFault (Char × After t) :=
  match fourHex t with
  | .error e => .error e
  | .ok (high, ⟨rest, shorter⟩) =>
    if isLowSurrogate high then .error .malformed
    else if isHighSurrogate high then
      match rest, shorter with
      | [], _ => .error .truncated
      | ['\\'], _ => .error .truncated
      | '\\' :: 'u' :: more, shorter =>
        match fourHex more with
        | .error e => .error e
        | .ok (low, ⟨last, shorter'⟩) =>
          if isLowSurrogate low then
            .ok (Char.ofNat (0x10000 + (high - 0xD800) * 0x400 + (low - 0xDC00)), ⟨last, by
              simp only [List.length_cons] at shorter
              omega⟩)
          else .error .malformed
      | _, _ => .error .malformed
    else .ok (Char.ofNat high, ⟨rest, shorter⟩)

def simpleEscape? (c : Char) : Option Char :=
  if c = '"' then some '"'
  else if c = '\\' then some '\\'
  else if c = '/' then some '/'
  else if c = 'b' then some '\x08'
  else if c = 'f' then some '\x0c'
  else if c = 'n' then some '\n'
  else if c = 'r' then some '\r'
  else if c = 't' then some '\t'
  else none

/-- The characters of a string up to its closing quote. -/
def stringRest (t : Text) : Except ReadFault (List Char × Text) :=
  match t with
  | [] => .error .truncated
  | '"' :: rest => .ok ([], rest)
  | ['\\'] => .error .truncated
  | '\\' :: 'u' :: rest =>
    match unicodeEscape rest with
    | .error e => .error e
    | .ok (c, ⟨after, _⟩) =>
      match stringRest after with
      | .error e => .error e
      | .ok (cs, last) => .ok (c :: cs, last)
  | '\\' :: letter :: rest =>
    match simpleEscape? letter with
    | none => .error .malformed
    | some c =>
      match stringRest rest with
      | .error e => .error e
      | .ok (cs, last) => .ok (c :: cs, last)
  | c :: rest =>
    if c < ' ' then .error .malformed
    else
      match stringRest rest with
      | .error e => .error e
      | .ok (cs, last) => .ok (c :: cs, last)
termination_by t.length
decreasing_by all_goals simp only [List.length_cons]; omega

/-- Passes over a string whose characters do not matter; unpaired surrogates are let through. -/
def skipString (t : Text) : Except ReadFault Text :=
  match t with
  | [] => .error .truncated
  | '"' :: rest => .ok rest
  | ['\\'] => .error .truncated
  | '\\' :: 'u' :: rest =>
    match fourHex rest with
    | .error e => .error e
    | .ok (_, ⟨after, _⟩) => skipString after
  | '\\' :: letter :: rest =>
    if (simpleEscape? letter).isSome then skipString rest else .error .malformed
  | c :: rest => if c < ' ' then .error .malformed else skipString rest
termination_by t.length
decreasing_by all_goals simp only [List.length_cons]; omega

def lowerHex (n : Nat) : Char := Nat.digitChar (n % 16)

def escape (c : Char) : Text :=
  if c = '"' then ['\\', '"']
  else if c = '\\' then ['\\', '\\']
  else if c = '\x08' then ['\\', 'b']
  else if c = '\x0c' then ['\\', 'f']
  else if c = '\n' then ['\\', 'n']
  else if c = '\r' then ['\\', 'r']
  else if c = '\t' then ['\\', 't']
  else if c < ' ' then ['\\', 'u', '0', '0', lowerHex (c.toNat / 16), lowerHex c.toNat]
  else [c]

def quote (s : String) : Text := '"' :: (s.toList.flatMap escape ++ ['"'])

end PacketLayers.Json
