import ZenovOS.Lib.Bytes
import ZenovOS.Lib.Expressions

/-! # The calculator

`ui_productivity_calculator_parser.inc` and `ui_productivity_calculator_operators.inc`: the levels of the parser share its position and its
error, and evaluate what they read. `none` is behaviour that the language leaves undefined: a read behind the input, and signed
arithmetic that leaves 32 bits. The loops and the recursion get more rounds than they need. -/

namespace ZenovOS.Productivity
open Expressions

inductive CalculatorError where
  | none
  | badSyntax
  | overflow
  | divideByZero
  | shiftRange
  deriving DecidableEq, Repr

def calcIntMax : Int := 2147483647
def calcIntMin : Int := -2147483648

/-- The result of signed arithmetic. -/
def int32 (n : Int) : Option Int := if calcIntMin ≤ n ∧ n ≤ calcIntMax then some n else none

/-- `size` and `position` are of type `uint8_t`. -/
structure CalculatorParser where
  input : Bytes
  position : Nat
  allowBitwise : Bool
  error : CalculatorError

namespace CalculatorParser

def size (parser : CalculatorParser) : Nat := parser.input.length

def advance (parser : CalculatorParser) (count : Nat) : CalculatorParser := { parser with position := (parser.position + count) % 256 }

def fail (parser : CalculatorParser) (error : CalculatorError) : CalculatorParser := { parser with error }

def running (parser : CalculatorParser) : Bool := parser.error = .none

/-- More rounds than the input has bytes. -/
def rounds (parser : CalculatorParser) : Nat := parser.size + 1

/-! ### Symbols -/

def skipSpacesLoop : Nat → CalculatorParser → Option CalculatorParser
  | 0, _ => none
  | rounds + 1, parser =>
    if parser.position < parser.size then do
      let character ← parser.input[parser.position]?
      if character = 32 then skipSpacesLoop rounds (parser.advance 1) else some parser
    else some parser

def skipSpaces (parser : CalculatorParser) : Option CalculatorParser := skipSpacesLoop parser.rounds parser

def take (parser : CalculatorParser) (value : UInt8) : Option (Bool × CalculatorParser) := do
  let parser ← parser.skipSpaces
  if parser.position < parser.size then do
    let character ← parser.input[parser.position]?
    if character = value then some (true, parser.advance 1) else some (false, parser)
  else some (false, parser)

def takeTwo (parser : CalculatorParser) (first second : UInt8) : Option (Bool × CalculatorParser) := do
  let parser ← parser.skipSpaces
  if parser.position + 1 < parser.size then do
    let character ← parser.input[parser.position]?
    let next ← parser.input[parser.position + 1]?
    if character = first ∧ next = second then some (true, parser.advance 2) else some (false, parser)
  else some (false, parser)

end CalculatorParser

/-- A parser of one level. -/
abbrev CalculatorLevel := CalculatorParser → Option (Int × CalculatorParser)

/-! ### Checked arithmetic -/

/-- The inner `none` is the answer false. -/
def checkedAdd (left right : Int) : Option (Option Int) :=
  if (right > 0 ∧ left > calcIntMax - right) ∨ (right < 0 ∧ left < calcIntMin - right) then some none
  else (int32 (left + right)).map some

def checkedSub (left right : Int) : Option (Option Int) :=
  if (right < 0 ∧ left > calcIntMax + right) ∨ (right > 0 ∧ left < calcIntMin + right) then some none
  else (int32 (left - right)).map some

def checkedMul (left right : Int) : Option (Option Int) :=
  if left = 0 ∨ right = 0 then some (some 0)
  else if (left = -1 ∧ right = calcIntMin) ∨ (right = -1 ∧ left = calcIntMin) then some none
  else
    let refused : Prop :=
      if left > 0 then
        if right > 0 then left > calcIntMax.tdiv right else right < calcIntMin.tdiv left
      else
        if right > 0 then left < calcIntMin.tdiv right else left < calcIntMax.tdiv right
    have : Decidable refused := by unfold refused; infer_instance
    if refused then some none else (int32 (left * right)).map some

/-! ### Operands -/

/-- The value of a digit of base 16; 99 stands for everything else. -/
def calcDigit (character : UInt8) : Nat :=
  if 48 ≤ character ∧ character ≤ 57 then character.toNat - 48
  else if 97 ≤ character ∧ character ≤ 102 then 10 + (character.toNat - 97)
  else if 65 ≤ character ∧ character ≤ 70 then 10 + (character.toNat - 65)
  else 99

/-- The base by the first two bytes of a literal, which are taken if they are `0x` or `0b`. -/
def takeBase (parser : CalculatorParser) : Option (Nat × CalculatorParser) :=
  if parser.position + 1 < parser.size then do
    let first ← parser.input[parser.position]?
    let second ← parser.input[parser.position + 1]?
    if first = 48 ∧ (second = 120 ∨ second = 88) then some (16, parser.advance 2)
    else if first = 48 ∧ (second = 98 ∨ second = 66) then some (2, parser.advance 2)
    else some (10, parser)
  else some (10, parser)

def parseDigits (base : Nat) : Nat → Nat → Nat → CalculatorLevel
  | 0, _, _, _ => none
  | rounds + 1, value, digits, parser =>
    let finished : Int × CalculatorParser := (value, if digits = 0 then parser.fail .badSyntax else parser)
    if parser.position < parser.size then do
      let character ← parser.input[parser.position]?
      let digit := calcDigit character
      if digit ≥ base then some finished
      else if value > (2147483647 - digit) / base then some (0, parser.fail .overflow)
      else parseDigits base rounds (value * base + digit) ((digits + 1) % 256) (parser.advance 1)
    else some finished

def parsePrimary (parseOr : CalculatorLevel) : CalculatorLevel := fun parser => do
  let parser ← parser.skipSpaces
  let (opened, parser) ← parser.take 40
  if opened then do
    let (value, parser) ← parseOr parser
    let (closed, parser) ← parser.take 41
    some (value, if ¬closed ∧ parser.error = .none then parser.fail .badSyntax else parser)
  else do
    let (base, parser) ← takeBase parser
    parseDigits base parser.rounds 0 0 parser

def complement (value : Int) : Int := (~~~BitVec.ofInt 32 value).toInt

def parseUnary (primary : CalculatorLevel) : Nat → CalculatorLevel
  | 0, _ => none
  | rounds + 1, parser => do
    let (plus, parser) ← parser.take 43
    if plus then parseUnary primary rounds parser
    else do
      let (minus, parser) ← parser.take 45
      if minus then do
        let (value, parser) ← parseUnary primary rounds parser
        if value = calcIntMin then some (0, parser.fail .overflow)
        else do
          let value ← int32 (-value)
          some (value, parser)
      else do
        let (tilde, parser) ← parser.take 126
        if tilde then
          if parser.allowBitwise then do
            let (value, parser) ← parseUnary primary rounds parser
            some (complement value, parser)
          else some (0, parser.fail .badSyntax)
        else primary parser

/-! ### Operators

The body of the loop of each level: the value so far, and whether the loop goes on. -/

def mulBody (unary : CalculatorLevel) (value : Int) (parser : CalculatorParser) : Option (Int × CalculatorParser × Bool) := do
  let (times, parser) ← parser.take 42
  if times then do
    let (right, parser) ← unary parser
    match ← checkedMul value right with
    | some result => some (result, parser, true)
    | none => some (0, parser.fail .overflow, true)
  else do
    let (divide, parser) ← parser.take 47
    if divide then do
      let (right, parser) ← unary parser
      if right = 0 then some (value, parser.fail .divideByZero, true)
      else if value = calcIntMin ∧ right = -1 then some (value, parser.fail .overflow, true)
      else do
        let value ← int32 (value.tdiv right)
        some (value, parser, true)
    else do
      let (remainder, parser) ← parser.take 37
      if remainder then do
        let (right, parser) ← unary parser
        if right = 0 then some (value, parser.fail .divideByZero, true)
        else if value = calcIntMin ∧ right = -1 then some (0, parser, true)
        else do
          let value ← int32 (value.tmod right)
          some (value, parser, true)
      else some (value, parser, false)

def addBody (mul : CalculatorLevel) (value : Int) (parser : CalculatorParser) : Option (Int × CalculatorParser × Bool) := do
  let (plus, parser) ← parser.take 43
  if plus then do
    let (right, parser) ← mul parser
    match ← checkedAdd value right with
    | some result => some (result, parser, true)
    | none => some (0, parser.fail .overflow, true)
  else do
    let (minus, parser) ← parser.take 45
    if minus then do
      let (right, parser) ← mul parser
      match ← checkedSub value right with
      | some result => some (result, parser, true)
      | none => some (0, parser.fail .overflow, true)
    else some (value, parser, false)

def shiftBody (add : CalculatorLevel) (value : Int) (parser : CalculatorParser) : Option (Int × CalculatorParser × Bool) := do
  let (left, parser) ← parser.takeTwo 60 60
  let (taken, parser) ← if left then some (true, parser) else parser.takeTwo 62 62
  if taken then
    if parser.allowBitwise then do
      let (count, parser) ← add parser
      if count < 0 ∨ count > 31 then some (value, parser.fail .shiftRange, false)
      else
        let bits := BitVec.ofInt 32 value
        some (if left then (bits <<< count.toNat).toInt else (bits.sshiftRight count.toNat).toInt, parser, true)
    else some (value, parser.fail .badSyntax, false)
  else some (value, parser, false)

/-- `productivity_calculator_parse_and` and `productivity_calculator_parse_or` look for their operator themselves. -/
def bitwiseBody (symbol : UInt8) (operate : BitVec 32 → BitVec 32 → BitVec 32) (sub : CalculatorLevel) (value : Int)
    (parser : CalculatorParser) : Option (Int × CalculatorParser × Bool) := do
  let parser ← parser.skipSpaces
  if parser.position ≥ parser.size then some (value, parser, false)
  else do
    let character ← parser.input[parser.position]?
    if character ≠ symbol then some (value, parser, false)
    else
      let parser := parser.advance 1
      if parser.allowBitwise then do
        let (right, parser) ← sub parser
        some ((operate (BitVec.ofInt 32 value) (BitVec.ofInt 32 right)).toInt, parser, true)
      else some (value, parser.fail .badSyntax, false)

def andBody : CalculatorLevel → Int → CalculatorParser → Option (Int × CalculatorParser × Bool) := bitwiseBody 38 (· &&& ·)

def xorBody (sub : CalculatorLevel) (value : Int) (parser : CalculatorParser) : Option (Int × CalculatorParser × Bool) := do
  let (taken, parser) ← parser.take 94
  if taken then
    if parser.allowBitwise then do
      let (right, parser) ← sub parser
      some ((BitVec.ofInt 32 value ^^^ BitVec.ofInt 32 right).toInt, parser, true)
    else some (value, parser.fail .badSyntax, false)
  else some (value, parser, false)

def orBody : CalculatorLevel → Int → CalculatorParser → Option (Int × CalculatorParser × Bool) := bitwiseBody 124 (· ||| ·)

/-- One level: an operand of the level below, and rounds of the loop while there is no error. -/
def parseLevel (body : CalculatorLevel → Int → CalculatorParser → Option (Int × CalculatorParser × Bool)) (rounds : Nat)
    (sub : CalculatorLevel) : CalculatorLevel := fun parser =>
  (sub parser).bind fun (value, parser) => whileRunning (fun parser => !parser.running) (body sub) rounds value parser

def parseMul : Nat → CalculatorLevel → CalculatorLevel := parseLevel mulBody
def parseAdd : Nat → CalculatorLevel → CalculatorLevel := parseLevel addBody
def parseShift : Nat → CalculatorLevel → CalculatorLevel := parseLevel shiftBody
def parseAnd : Nat → CalculatorLevel → CalculatorLevel := parseLevel andBody
def parseXor : Nat → CalculatorLevel → CalculatorLevel := parseLevel xorBody

/-- The level of `|`; brackets lead back to it. -/
def parseOr (rounds : Nat) : Nat → CalculatorLevel
  | 0, _ => none
  | depth + 1, parser =>
    let unary := parseUnary (parsePrimary (parseOr rounds depth)) rounds
    parseLevel orBody rounds (parseXor rounds (parseAnd rounds (parseShift rounds (parseAdd rounds (parseMul rounds unary))))) parser

/-- Whether the expression could be evaluated, its value and the error. -/
def evaluateExpression (input : Bytes) (allowBitwise : Bool) : Option (Bool × Int × CalculatorError) := do
  let parser : CalculatorParser := { input, position := 0, allowBitwise, error := .none }
  let (output, parser) ← parseOr parser.rounds parser.rounds parser
  let parser ← parser.skipSpaces
  let error := if parser.error = .none ∧ parser.position ≠ parser.size then .badSyntax else parser.error
  some (error = .none, output, error)

end ZenovOS.Productivity
