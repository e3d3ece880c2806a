import Mathlib.Data.List.TakeWhile

/-!
The grammar of JSON texts, and a reference parser that accepts only what the
grammar derives.  A string is kept as it is written, escapes included.
-/

namespace EchoServers.JsonGrammar

/-- The number `mantissa * 10 ^ exponent`. -/
structure JsonNumber where
  mantissa : Int
  exponent : Int := 0
  deriving DecidableEq, Repr

inductive Json where
  | null
  | bool (b : Bool)
  | number (n : JsonNumber)
  | string (raw : List Char)
  | array (items : List Json)
  | object (members : List (List Char × Json))

section Grammar

def isSpace (c : Char) : Bool :=
  c = ' ' || c = '\t' || c = '\n' || c = '\r'

/-- Any number of white space characters. -/
def IsSpaces (s : List Char) : Prop :=
  ∀ c ∈ s, isSpace c = true

structure IsDigits (s : List Char) : Prop where
  nonempty : s ≠ []
  digit : ∀ c ∈ s, c.isDigit = true

/-- Digits without a leading zero. -/
structure IsInt (s : List Char) : Prop extends IsDigits s where
  leading : s.head? = some '0' → s = ['0']

def digitsValue (s : List Char) : Nat :=
  Nat.ofDigitChars 10 s 0

inductive IsFraction : List Char → List Char → Prop where
  | none : IsFraction [] []
  | some (digits : List Char) (h : IsDigits digits) : IsFraction digits ('.' :: digits)

inductive IsExponent : Int → List Char → Prop where
  | none : IsExponent 0 []
  | plain (c : Char) (digits : List Char) (hc : c = 'e' ∨ c = 'E') (h : IsDigits digits) :
      IsExponent (digitsValue digits) (c :: digits)
  | plus (c : Char) (digits : List Char) (hc : c = 'e' ∨ c = 'E') (h : IsDigits digits) :
      IsExponent (digitsValue digits) (c :: '+' :: digits)
  | minus (c : Char) (digits : List Char) (hc : c = 'e' ∨ c = 'E') (h : IsDigits digits) :
      IsExponent (-digitsValue digits) (c :: '-' :: digits)

/-- The value of the parts of a number. -/
def numberOf (negative : Bool) (int fraction : List Char) (exponent : Int) : JsonNumber where
  mantissa :=
    if negative then -(digitsValue (int ++ fraction) : Int) else digitsValue (int ++ fraction)
  exponent := exponent - fraction.length

inductive IsNumber : JsonNumber → List Char → Prop where
  | positive (int fraction fractionText exponentText : List Char) (exponent : Int)
      (hint : IsInt int) (hfraction : IsFraction fraction fractionText)
      (hexponent : IsExponent exponent exponentText) :
      IsNumber (numberOf false int fraction exponent) (int ++ (fractionText ++ exponentText))
  | negative (int fraction fractionText exponentText : List Char) (exponent : Int)
      (hint : IsInt int) (hfraction : IsFraction fraction fractionText)
      (hexponent : IsExponent exponent exponentText) :
      IsNumber (numberOf true int fraction exponent)
        ('-' :: (int ++ (fractionText ++ exponentText)))

/-- A character that stands for itself in a string. -/
def isPlain (c : Char) : Bool :=
  0x20 ≤ c.toNat && c ≠ '"' && c ≠ '\\'

/-- The characters that may follow a backslash. -/
def escapes : List Char :=
  ['"', '\\', '/', 'b', 'f', 'n', 'r', 't']

def isHexDigit (c : Char) : Bool :=
  c.isDigit || ('a' ≤ c && c ≤ 'f') || ('A' ≤ c && c ≤ 'F')

/-- What stands between the quotes of a string. -/
inductive IsStringBody : List Char → Prop where
  | nil : IsStringBody []
  | plain (c : Char) (raw : List Char) (hc : isPlain c = true) (h : IsStringBody raw) :
      IsStringBody (c :: raw)
  | escape (c : Char) (raw : List Char) (hc : c ∈ escapes) (h : IsStringBody raw) :
      IsStringBody ('\\' :: c :: raw)
  | unicode (c₁ c₂ c₃ c₄ : Char) (raw : List Char)
      (hc : ∀ c ∈ [c₁, c₂, c₃, c₄], isHexDigit c = true) (h : IsStringBody raw) :
      IsStringBody ('\\' :: 'u' :: c₁ :: c₂ :: c₃ :: c₄ :: raw)

def quoted (raw : List Char) : List Char :=
  '"' :: (raw ++ ['"'])

mutual

inductive IsValue : Json → List Char → Prop where
  | null : IsValue .null ['n', 'u', 'l', 'l']
  | true : IsValue (.bool true) ['t', 'r', 'u', 'e']
  | false : IsValue (.bool false) ['f', 'a', 'l', 's', 'e']
  | number (n : JsonNumber) (s : List Char) (h : IsNumber n s) : IsValue (.number n) s
  | string (raw : List Char) (h : IsStringBody raw) : IsValue (.string raw) (quoted raw)
  | emptyArray (s : List Char) (h : IsSpaces s) : IsValue (.array []) ('[' :: (s ++ [']']))
  | array (items : List Json) (s : List Char) (h : IsElements items s) :
      IsValue (.array items) ('[' :: (s ++ [']']))
  | emptyObject (s : List Char) (h : IsSpaces s) : IsValue (.object []) ('\x7b' :: (s ++ ['\x7d']))
  | object (members : List (List Char × Json)) (s : List Char) (h : IsMembers members s) :
      IsValue (.object members) ('\x7b' :: (s ++ ['\x7d']))

/-- Values between commas, with white space around them. -/
inductive IsElements : List Json → List Char → Prop where
  | one (j : Json) (before s after : List Char) (hbefore : IsSpaces before) (h : IsValue j s)
      (hafter : IsSpaces after) : IsElements [j] (before ++ (s ++ after))
  | more (j : Json) (js : List Json) (before s after t : List Char) (hbefore : IsSpaces before)
      (h : IsValue j s) (hafter : IsSpaces after) (hrest : IsElements js t) :
      IsElements (j :: js) (before ++ (s ++ (after ++ ',' :: t)))

/-- Keys and values between commas. -/
inductive IsMembers : List (List Char × Json) → List Char → Prop where
  | one (key : List Char) (j : Json) (space₁ space₂ s : List Char) (hspace₁ : IsSpaces space₁)
      (hkey : IsStringBody key) (hspace₂ : IsSpaces space₂) (h : IsElements [j] s) :
      IsMembers [(key, j)] (space₁ ++ (quoted key ++ (space₂ ++ ':' :: s)))
  | more (key : List Char) (j : Json) (members : List (List Char × Json))
      (space₁ space₂ s t : List Char) (hspace₁ : IsSpaces space₁) (hkey : IsStringBody key)
      (hspace₂ : IsSpaces space₂) (h : IsElements [j] s) (hrest : IsMembers members t) :
      IsMembers ((key, j) :: members)
        (space₁ ++ (quoted key ++ (space₂ ++ ':' :: (s ++ ',' :: t))))

end

end Grammar

section Parser

def expect (c : Char) : List Char → Option (List Char)
  | [] => none
  | d :: s => if d = c then some s else none

def expectAll : List Char → List Char → Option (List Char)
  | [], s => some s
  | c :: cs, s => (expect c s).bind (expectAll cs)

def skipSpaces (s : List Char) : List Char :=
  s.dropWhile isSpace

def parseDigits (s : List Char) : Option (List Char × List Char) :=
  if s.takeWhile Char.isDigit = [] then none
  else some (s.takeWhile Char.isDigit, s.dropWhile Char.isDigit)

def parseInt (s : List Char) : Option (List Char × List Char) :=
  (parseDigits s).bind fun r =>
    if r.1.head? = some '0' ∧ r.1 ≠ ['0'] then none else some r

def parseFraction (s : List Char) : Option (List Char × List Char) :=
  match expect '.' s with
  | none => some ([], s)
  | some s => parseDigits s

def parseSigned (s : List Char) : Option (Int × List Char) :=
  match expect '-' s with
  | some s => (parseDigits s).map fun r => (-(digitsValue r.1 : Int), r.2)
  | none =>
      (parseDigits ((expect '+' s).getD s)).map fun r => ((digitsValue r.1 : Int), r.2)

def parseExponent (s : List Char) : Option (Int × List Char) :=
  match s with
  | [] => some (0, [])
  | c :: s => if c = 'e' ∨ c = 'E' then parseSigned s else some (0, c :: s)

def parseMagnitude (negative : Bool) (s : List Char) : Option (JsonNumber × List Char) :=
  (parseInt s).bind fun int =>
    (parseFraction int.2).bind fun fraction =>
      (parseExponent fraction.2).map fun exponent =>
        (numberOf negative int.1 fraction.1 exponent.1, exponent.2)

def parseNumber (s : List Char) : Option (JsonNumber × List Char) :=
  match expect '-' s with
  | some s => parseMagnitude true s
  | none => parseMagnitude false s

/-- The string up to its closing quote. -/
def parseStringBody : List Char → Option (List Char × List Char)
  | [] => none
  | c :: s =>
      if c = '"' then some ([], s)
      else if c = '\\' then
        match s with
        | [] => none
        | d :: s =>
            if d ∈ escapes then
              (parseStringBody s).map fun r => ('\\' :: d :: r.1, r.2)
            else if d = 'u' then
              match s with
              | c₁ :: c₂ :: c₃ :: c₄ :: s =>
                  if [c₁, c₂, c₃, c₄].all isHexDigit then
                    (parseStringBody s).map fun r =>
                      ('\\' :: 'u' :: c₁ :: c₂ :: c₃ :: c₄ :: r.1, r.2)
                  else none
              | _ => none
            else none
      else if isPlain c then (parseStringBody s).map fun r => (c :: r.1, r.2)
      else none

mutual

/-- `fuel` bounds the depth and the lengths of what is nested. -/
def parseValue : Nat → List Char → Option (Json × List Char)
  | 0, _ => none
  | _, [] => none
  | fuel + 1, c :: s =>
      if c = 'n' then (expectAll ['u', 'l', 'l'] s).map fun s => (.null, s)
      else if c = 't' then (expectAll ['r', 'u', 'e'] s).map fun s => (.bool true, s)
      else if c = 'f' then (expectAll ['a', 'l', 's', 'e'] s).map fun s => (.bool false, s)
      else if c = '"' then (parseStringBody s).map fun r => (.string r.1, r.2)
      else if c = '[' then
        match expect ']' (skipSpaces s) with
        | some s => some (.array [], s)
        | none => (parseElements fuel s).map fun r => (.array r.1, r.2)
      else if c = '\x7b' then
        match expect '\x7d' (skipSpaces s) with
        | some s => some (.object [], s)
        | none => (parseMembers fuel s).map fun r => (.object r.1, r.2)
      else (parseNumber (c :: s)).map fun r => (.number r.1, r.2)

/-- The elements of an array, up to its closing bracket. -/
def parseElements : Nat → List Char → Option (List Json × List Char)
  | 0, _ => none
  | fuel + 1, s =>
      (parseValue fuel (skipSpaces s)).bind fun value =>
        match expect ']' (skipSpaces value.2) with
        | some s => some ([value.1], s)
        | none =>
            (expect ',' (skipSpaces value.2)).bind fun s =>
              (parseElements fuel s).map fun r => (value.1 :: r.1, r.2)

/-- The members of an object, up to its closing brace. -/
def parseMembers : Nat → List Char → Option (List (List Char × Json) × List Char)
  | 0, _ => none
  | fuel + 1, s =>
      (expect '"' (skipSpaces s)).bind fun s =>
        (parseStringBody s).bind fun key =>
          (expect ':' (skipSpaces key.2)).bind fun s =>
            (parseValue fuel (skipSpaces s)).bind fun value =>
              match expect '\x7d' (skipSpaces value.2) with
              | some s => some ([(key.1, value.1)], s)
              | none =>
                  (expect ',' (skipSpaces value.2)).bind fun s =>
                    (parseMembers fuel s).map fun r => ((key.1, value.1) :: r.1, r.2)

end

end Parser

section Soundness

variable {s rest : List Char} {c : Char}

variable {fuel : Nat}

end Soundness

section Numerals

variable {digits rest : List Char} {n : Nat}

end Numerals

section Writing

variable {fuel : Nat} {key s t rest : List Char} {j : Json}

end Writing

end EchoServers.JsonGrammar
