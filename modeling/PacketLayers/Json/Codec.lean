import PacketLayers.Json.Scan

/-!
Codecs: a reader of JSON values of one kind beside their writer. Codecs of numbers, strings and
lists are combined to codecs of records, whose fields are written in a fixed order and read in
any order, or in that order from an array.
-/
namespace PacketLayers.Json

structure Codec (α : Type) where
  read : Reader α
  write : Layout → α → Text

namespace Codec

/-- Natural numbers up to a limit, as the type of words that they fill. -/
def natural {α : Type} (limit : Nat) (ofNat : Nat → α) (toNat : α → Nat) : Codec α where
  read t :=
    match skipBlanks t with
    | [] => .error .truncated
    | c :: rest =>
      if c = '-' ∨ isDigit c then
        match number (c :: rest) with
        | .error e => .error e
        | .ok (some n, after) => if n < limit then .ok (ofNat n, after) else .error .mismatched
        | .ok (none, _) => .error .mismatched
      else .error (unexpected (c :: rest))
  write _ a := (toString (toNat a)).toList

def word16 : Codec UInt16 := natural UInt16.size UInt16.ofNat UInt16.toNat

def word32 : Codec UInt32 := natural UInt32.size UInt32.ofNat UInt32.toNat

def word64 : Codec UInt64 := natural UInt64.size UInt64.ofNat UInt64.toNat

def string : Codec String where
  read t :=
    match skipBlanks t with
    | [] => .error .truncated
    | '"' :: rest =>
      match stringRest rest with
      | .ok (cs, after) => .ok (String.ofList cs, after)
      | .error e => .error e
    | other => .error (unexpected other)
  write _ s := quote s

end Codec

/-- Items between brackets, each behind the line break of the inner layout. -/
def bracketed (opening closing : Char) (layout : Layout) (items : List Text) : Text :=
  match items with
  | [] => [opening, closing]
  | first :: others =>
    opening :: (layout.inner.lineBreak ++ first ++
      others.flatMap (fun item => ',' :: (layout.inner.lineBreak ++ item)) ++
      layout.lineBreak ++ [closing])

/-- Whether brackets close here, which leaves the closing one, or an item follows. -/
inductive Follows where
  | close (rest : Text)
  | item (rest : Text)
deriving DecidableEq, Repr

def nextItem (first : Bool) (t : Text) : Except ReadFault Follows :=
  match skipBlanks t with
  | [] => .error .truncated
  | c :: rest =>
    if c = ']' then .ok (.close (c :: rest))
    else if first then .ok (.item (c :: rest))
    else if c = ',' then
      match skipBlanks rest with
      | [] => .error .truncated
      | d :: more => if d = ']' then .error .malformed else .ok (.item (d :: more))
    else .error .malformed

def closeArray (t : Text) : Except ReadFault Text :=
  match skipBlanks t with
  | [] => .error .truncated
  | ']' :: rest => .ok rest
  | _ => .error .malformed

/-- Items of one codec up to the closing bracket. Each takes a character at least, so there are
fewer of them than characters in `bound`. -/
def items {α : Type} (read : Reader α) : (bound : Text) → (first : Bool) → Reader (List α)
  | [], _, _ => .error .truncated
  | _ :: bound, first, t =>
    match nextItem first t with
    | .error e => .error e
    | .ok (.close rest) => .ok ([], rest)
    | .ok (.item item) =>
      match read item with
      | .error e => .error e
      | .ok (a, rest) =>
        match items read bound false rest with
        | .error e => .error e
        | .ok (as, last) => .ok (a :: as, last)

def Codec.list {α : Type} (c : Codec α) : Codec (List α) where
  read t :=
    match skipBlanks t with
    | [] => .error .truncated
    | '[' :: rest =>
      match items c.read t true rest with
      | .error e => .error e
      | .ok (as, last) =>
        match closeArray last with
        | .error e => .error e
        | .ok after => .ok (as, after)
    | other => .error (unexpected other)
  write layout as := bracketed '[' ']' layout (as.map (c.write layout.inner))

/-- What a record says to the name of an entry. -/
inductive Slot (σ : Type) where
  | unknown
  | taken
  | vacant (read : Reader σ)

/-- The fields of a record, in order. `Held` is what has been read of them so far. -/
structure Fields (α : Type) where
  Held : Type
  start : Held
  slot : String → Held → Slot Held
  /-- The record, unless a field that must be there is not. -/
  all : Held → Option α
  /-- Reads all fields in order as the items of an array. -/
  listed : (first : Bool) → Reader α
  /-- The fields that are there, written under their names. -/
  write : Layout → α → List (String × Text)

namespace Fields

/-- Reads one item of an array that holds a record; the array may not end here. -/
def listedItem {β : Type} (read : Reader β) (first : Bool) : Reader β := fun t =>
  match nextItem first t with
  | .error e => .error e
  | .ok (.close _) => .error .mismatched
  | .ok (.item item) => read item

def empty : Fields Unit where
  Held := Unit
  start := ()
  slot _ _ := .unknown
  all _ := some ()
  listed _ t := .ok ((), t)
  write _ _ := []

/-- A field that must be there, before others. -/
def required {β γ : Type} (name : String) (c : Codec β) (rest : Fields γ) : Fields (β × γ) where
  Held := Option β × rest.Held
  start := (none, rest.start)
  slot key held :=
    if key = name then
      match held.1 with
      | some _ => .taken
      | none => .vacant fun t =>
        match c.read t with
        | .ok (b, after) => .ok ((some b, held.2), after)
        | .error e => .error e
    else
      match rest.slot key held.2 with
      | .unknown => .unknown
      | .taken => .taken
      | .vacant read => .vacant fun t =>
        match read t with
        | .ok (s, after) => .ok ((held.1, s), after)
        | .error e => .error e
  all held :=
    match held.1, rest.all held.2 with
    | some b, some c => some (b, c)
    | _, _ => none
  listed first t :=
    match listedItem c.read first t with
    | .error e => .error e
    | .ok (b, after) =>
      match rest.listed false after with
      | .error e => .error e
      | .ok (c, last) => .ok ((b, c), last)
  write layout pair := (name, c.write layout pair.1) :: rest.write layout pair.2

def orNull {β : Type} (read : Reader β) : Reader (Option β) := fun t =>
  match skipBlanks t with
  | 'n' :: rest =>
    match word ['u', 'l', 'l'] rest with
    | .ok after => .ok (none, after)
    | .error e => .error e
  | other =>
    match read other with
    | .ok (b, after) => .ok (some b, after)
    | .error e => .error e

/-- A field that may be absent or null, before others. It is left out if there is nothing. -/
def optional {β γ : Type} (name : String) (c : Codec β) (rest : Fields γ) :
    Fields (Option β × γ) :=
  let whole := required name ⟨orNull c.read, fun layout b => (b.map (c.write layout)).getD []⟩ rest
  { whole with
    all := fun held => (rest.all held.2).map fun c => (held.1.join, c)
    write := fun layout pair =>
      match pair.1 with
      | some b => (name, c.write layout b) :: rest.write layout pair.2
      | none => rest.write layout pair.2 }

/-- What follows in an object; an entry begins behind the opening quote of its name. -/
def nextEntry (first : Bool) (t : Text) : Except ReadFault Follows :=
  match skipBlanks t with
  | [] => .error .truncated
  | c :: rest =>
    if c = '\x7d' then .ok (.close (c :: rest))
    else if first then
      if c = '"' then .ok (.item rest) else .error .malformed
    else if c = ',' then
      match skipBlanks rest with
      | [] => .error .truncated
      | d :: more => if d = '"' then .ok (.item more) else .error .malformed
    else .error .malformed

def colon (t : Text) : Except ReadFault Text :=
  match skipBlanks t with
  | [] => .error .truncated
  | ':' :: rest => .ok rest
  | _ => .error .malformed

/-- Entries up to the closing brace, fewer than characters in `bound`. A field may not occur twice,
and a name that is no field is passed over with its value. -/
def entries {α : Type} (f : Fields α) : (bound : Text) → (first : Bool) → f.Held → Reader f.Held
  | [], _, _, _ => .error .truncated
  | _ :: bound, first, held, t =>
    match nextEntry first t with
    | .error e => .error e
    | .ok (.close rest) => .ok (held, rest)
    | .ok (.item name) =>
      match stringRest name with
      | .error e => .error e
      | .ok (key, behind) =>
        match f.slot (String.ofList key) held with
        | .taken => .error .mismatched
        | .unknown =>
          match colon behind with
          | .error e => .error e
          | .ok value =>
            match skipValue value with
            | .error e => .error e
            | .ok rest => entries f bound false held rest
        | .vacant read =>
          match colon behind with
          | .error e => .error e
          | .ok value =>
            match read value with
            | .error e => .error e
            | .ok (held', rest) => entries f bound false held' rest

def closeObject (t : Text) : Except ReadFault Text :=
  match skipBlanks t with
  | [] => .error .truncated
  | c :: rest => if c = '\x7d' then .ok rest else .error .malformed

def readRecord {α : Type} (f : Fields α) : Reader α := fun t =>
  match skipBlanks t with
  | [] => .error .truncated
  | c :: rest =>
    if c = '[' then
      match f.listed true rest with
      | .error e => .error e
      | .ok (a, last) =>
        match closeArray last with
        | .error e => .error e
        | .ok after => .ok (a, after)
    else if c = '\x7b' then
      match entries f t true f.start rest with
      | .error e => .error e
      | .ok (held, last) =>
        match f.all held with
        | none => .error .mismatched
        | some a =>
          match closeObject last with
          | .error e => .error e
          | .ok after => .ok (a, after)
    else .error (unexpected (c :: rest))

def writeRecord {α : Type} (f : Fields α) (layout : Layout) (a : α) : Text :=
  bracketed '\x7b' '\x7d' layout
    ((f.write layout.inner a).map fun (name, value) =>
      quote name ++ ':' :: (layout.afterColon ++ value))

end Fields

/-- A record, by the tuple of its fields. -/
def Codec.record {α β : Type} (f : Fields β) (toTuple : α → β) (ofTuple : β → α) : Codec α where
  read t :=
    match f.readRecord t with
    | .ok (b, after) => .ok (ofTuple b, after)
    | .error e => .error e
  write layout a := f.writeRecord layout (toTuple a)

namespace Codec

/-- Reads a whole text; only blanks may follow the value. -/
def parse {α : Type} (c : Codec α) (s : String) : Except ReadFault α :=
  match c.read s.toList with
  | .error e => .error e
  | .ok (a, rest) => if (skipBlanks rest).isEmpty then .ok a else .error .malformed

def compact {α : Type} (c : Codec α) (a : α) : String := String.ofList (c.write .compact a)

def pretty {α : Type} (c : Codec α) (a : α) : String :=
  String.ofList (c.write (.indented 0) a)

end Codec

end PacketLayers.Json
