import ProjectGraph.Json

/-!
The tokens of JSON text. The text is cut from the front; the first thing that is no token ends the cutting
with a `fault`.
-/

namespace ProjectGraph

inductive JsonToken where
  | openArray
  | closeArray
  | openObject
  | closeObject
  | comma
  | colon
  | null
  | bool (value : Bool)
  | number (numeral : Numeral)
  | string (text : Option String)
  | fault
  deriving Inhabited

namespace JsonToken

/-- The characters that may stand between tokens. -/
def isGap (c : Char) : Bool := c == ' ' || c == '\n' || c == '\t' || c == '\r'

def digit? (c : Char) : Option Nat :=
  if c.isDigit then some (c.toNat - '0'.toNat)
  else if 'a' ≤ c && c ≤ 'f' then some (c.toNat - 'a'.toNat + 10)
  else if 'A' ≤ c && c ≤ 'F' then some (c.toNat - 'A'.toNat + 10)
  else none

/-- The code unit of four hexadecimal digits. -/
def codeUnit? (a b c d : Char) : Option Nat := do
  return (((← digit? a) * 16 + (← digit? b)) * 16 + (← digit? c)) * 16 + (← digit? d)

/-- The character of an escape of one letter. -/
def escape? : Char → Option Char
  | '"' => some '"'
  | '\\' => some '\\'
  | '/' => some '/'
  | 'b' => some '\x08'
  | 'f' => some '\x0c'
  | 'n' => some '\n'
  | 'r' => some '\r'
  | 't' => some '\t'
  | _ => none

/-- Joins pairs of surrogates. A surrogate without its partner has no character. -/
def joinSurrogates : List Nat → Option (List Char)
  | [] => some []
  | high :: low :: rest =>
    if 0xD800 ≤ high && high < 0xDC00 then
      if 0xDC00 ≤ low && low < 0xE000 then
        (joinSurrogates rest).map (Char.ofNat (0x10000 + (high - 0xD800) * 0x400 + (low - 0xDC00)) :: ·)
      else none
    else if 0xDC00 ≤ high && high < 0xE000 then none
    else (joinSurrogates (low :: rest)).map (Char.ofNat high :: ·)
  | [unit] => if 0xD800 ≤ unit && unit < 0xE000 then none else some [Char.ofNat unit]

/--
The rest of a string literal behind its opening quote: its code points, the last one in front, and the
number of characters it takes with the closing quote.
-/
def literal? (points : List Nat) (count : Nat) : List Char → Option (List Nat × Nat)
  | [] => none
  | '"' :: _ => some (points, count + 1)
  | '\\' :: 'u' :: a :: b :: c :: d :: rest =>
    match codeUnit? a b c d with
    | some unit => literal? (unit :: points) (count + 6) rest
    | none => none
  | '\\' :: e :: rest =>
    match escape? e with
    | some c => literal? (c.toNat :: points) (count + 2) rest
    | none => none
  | c :: rest => if c.toNat < 0x20 then none else literal? (c.toNat :: points) (count + 1) rest

def digits (cs : List Char) : List Nat := (cs.takeWhile Char.isDigit).filterMap digit?

/-- The digits behind a point, and the number of characters they take with the point. -/
def fraction? : List Char → Option (List Nat × Nat)
  | '.' :: rest =>
    let ds := digits rest
    if ds.isEmpty then none else some (ds, ds.length + 1)
  | _ => some ([], 0)

/-- The exponent behind its letter, with its sign, and the number of characters it takes. -/
def signedDigits? : List Char → Option ((Bool × List Nat) × Nat)
  | '-' :: rest =>
    let ds := digits rest
    if ds.isEmpty then none else some ((true, ds), ds.length + 1)
  | '+' :: rest =>
    let ds := digits rest
    if ds.isEmpty then none else some ((false, ds), ds.length + 1)
  | cs =>
    let ds := digits cs
    if ds.isEmpty then none else some ((false, ds), ds.length)

/-- The exponent of a number, if it has one, and the number of characters it takes. -/
def exponent? : List Char → Option (Option (Bool × List Nat) × Nat)
  | [] => some (none, 0)
  | c :: rest =>
    if c == 'e' || c == 'E' then (signedDigits? rest).map fun (e, n) => (some e, n + 1)
    else some (none, 0)

/-- The number in front of a text, without its sign, and the number of characters it takes. -/
def numeral? (negative : Bool) (cs : List Char) : Option (Numeral × Nat) :=
  let whole := digits cs
  if whole.isEmpty || (whole.head? == some 0 && whole.length > 1) then none
  else do
    let (fraction, n) ← fraction? (cs.drop whole.length)
    let (exponent, m) ← exponent? (cs.drop (whole.length + n))
    return (⟨negative, whole, fraction, exponent⟩, whole.length + n + m)

/-- The token that begins with a character, and how many of the following characters belong to it. -/
def lexeme (c : Char) (cs : List Char) : JsonToken × Nat :=
  match c with
  | '[' => (.openArray, 0)
  | ']' => (.closeArray, 0)
  | '{' => (.openObject, 0)
  | '}' => (.closeObject, 0)
  | ',' => (.comma, 0)
  | ':' => (.colon, 0)
  | 'n' => if cs.take 3 == ['u', 'l', 'l'] then (.null, 3) else (.fault, 0)
  | 't' => if cs.take 3 == ['r', 'u', 'e'] then (.bool true, 3) else (.fault, 0)
  | 'f' => if cs.take 4 == ['a', 'l', 's', 'e'] then (.bool false, 4) else (.fault, 0)
  | '"' =>
    match literal? [] 0 cs with
    | some (points, n) => (.string ((joinSurrogates points.reverse).map String.ofList), n)
    | none => (.fault, 0)
  | '-' =>
    match numeral? true cs with
    | some (n, k) => (.number n, k)
    | none => (.fault, 0)
  | c =>
    match numeral? false (c :: cs) with
    | some (n, k) => (.number n, k - 1)
    | none => (.fault, 0)

/-- The tokens of a text, up to the first fault. -/
def all : List Char → List JsonToken
  | [] => []
  | c :: cs =>
    if isGap c then all cs
    else
      match lexeme c cs with
      | (.fault, _) => [.fault]
      | (t, n) => t :: all (cs.drop n)
termination_by cs => cs.length
decreasing_by
  · simp
  · simp only [List.length_drop, List.length_cons]; omega

end JsonToken

end ProjectGraph
