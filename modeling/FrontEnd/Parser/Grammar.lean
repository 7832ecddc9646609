/-
The decisions of the grammar that rest on one token.

Wherever the grammar offers a choice, the kind of the next token settles it.  A
`Grammar` is the table of these choices: which definition, statement, expression or
type a token starts, and which operator it is and how tightly that operator binds.

* `Grammar.standard` is the table of the language.
* `Grammar.empty` is the table in which no token starts anything.
* `BindingPower.rank` orders the operators, the weakest first.
-/
import FrontEnd.Token.Kind

namespace FrontEnd

/-- How tightly an operator holds its operands, the weakest first. -/
inductive BindingPower where
  | default | logicalOr | logicalAnd | comparison | bitOr | bitXor | bitAnd | shift | additive
  | multiplicative | cast | member | primary
deriving DecidableEq, Repr

namespace BindingPower

/-- The place of a power in the order. -/
def rank : BindingPower → Nat
  | default => 0
  | logicalOr => 1
  | logicalAnd => 2
  | comparison => 3
  | bitOr => 4
  | bitXor => 5
  | bitAnd => 6
  | shift => 7
  | additive => 8
  | multiplicative => 9
  | cast => 10
  | member => 11
  | primary => 12

/-- The first power binds tighter than the second. -/
def tighter (a b : BindingPower) : Bool := b.rank < a.rank

/-- The name of a power in dumps. -/
def name : BindingPower → String
  | default => "Default"
  | logicalOr => "LogicalOr"
  | logicalAnd => "LogicalAnd"
  | comparison => "Comparison"
  | bitOr => "BitOr"
  | bitXor => "BitXor"
  | bitAnd => "BitAnd"
  | shift => "Shift"
  | additive => "Additive"
  | multiplicative => "Multiplicative"
  | cast => "Cast"
  | member => "Member"
  | primary => "Primary"

/-- Every power, the weakest first. -/
def all : List BindingPower :=
  [default, logicalOr, logicalAnd, comparison, bitOr, bitXor, bitAnd, shift, additive,
   multiplicative, cast, member, primary]

/-- The power with the given name. -/
def ofName? (s : String) : Option BindingPower := all.find? (·.name == s)

end BindingPower

/-- The forms of a definition. -/
inductive DefinitionForm where
  | use | function | external | struct
deriving DecidableEq, Repr

/-- The forms of a statement. -/
inductive StatementForm where
  | returning | declaration | conditional | whileLoop | forLoop | breakLoop | continueLoop
  | matching
  /-- An assignment or a call. -/
  | named
deriving DecidableEq, Repr

/-- The forms of an expression without operators. -/
inductive PrimaryForm where
  | number | char | string
  /-- One of `null`, `true` and `false`. -/
  | constant
  /-- A call, an access or a name. -/
  | named
  | matching
deriving DecidableEq, Repr

/-- What can follow an expression and make it an operand. -/
inductive OperatorForm where
  | binary | typecast
deriving DecidableEq, Repr

/-- The forms of a type. -/
inductive TypeForm where
  | pointer | reference
  /-- Two references written as one token. -/
  | doubleReference
  | array | string
  /-- A name, with or without a generic argument. -/
  | named
  | primitive
deriving DecidableEq, Repr

/-- What each kind of token starts, or how it goes on with an expression. -/
structure Grammar where
  definition? : Kind → Option DefinitionForm
  statement? : Kind → Option StatementForm
  primary? : Kind → Option PrimaryForm
  operator? : Kind → Option (BindingPower × OperatorForm)
  type? : Kind → Option TypeForm

namespace Grammar

/-- The table in which no token starts anything. -/
def empty : Grammar where
  definition? _ := none
  statement? _ := none
  primary? _ := none
  operator? _ := none
  type? _ := none

/-- The table of the language. -/
def standard : Grammar where
  definition?
    | .keyword .useKw => some .use
    | .keyword .fnKw => some .function
    | .keyword .externKw => some .external
    | .keyword .structKw => some .struct
    | _ => none
  statement?
    | .keyword .returnKw => some .returning
    | .keyword .letKw => some .declaration
    | .keyword .ifKw => some .conditional
    | .keyword .whileKw => some .whileLoop
    | .keyword .forKw => some .forLoop
    | .keyword .breakKw => some .breakLoop
    | .keyword .continueKw => some .continueLoop
    | .keyword .matchKw => some .matching
    | .identifier => some .named
    | _ => none
  primary?
    | .number => some .number
    | .char => some .char
    | .string => some .string
    | .keyword .nullKw | .keyword .trueKw | .keyword .falseKw => some .constant
    | .identifier => some .named
    | .keyword .matchKw => some .matching
    | _ => none
  operator?
    | .symbol .or => some (.logicalOr, .binary)
    | .symbol .and => some (.logicalAnd, .binary)
    | .symbol .equals | .symbol .notEquals | .symbol .less | .symbol .lessEquals
    | .symbol .greater | .symbol .greaterEquals => some (.comparison, .binary)
    | .symbol .pipe => some (.bitOr, .binary)
    | .symbol .caret => some (.bitXor, .binary)
    | .symbol .ampersand => some (.bitAnd, .binary)
    | .symbol .shiftLeft | .symbol .shiftRight => some (.shift, .binary)
    | .symbol .plus | .symbol .dash => some (.additive, .binary)
    | .symbol .star | .symbol .slash | .symbol .percent => some (.multiplicative, .binary)
    | .keyword .asKw => some (.cast, .typecast)
    | _ => none
  type?
    | .symbol .star => some .pointer
    | .symbol .ampersand => some .reference
    | .symbol .and => some .doubleReference
    | .symbol .openBracket => some .array
    | .keyword .stringKw => some .string
    | .identifier => some .named
    | .keyword (.primitive _) => some .primitive
    | _ => none

/-- How tightly a token of the given kind holds the expression before it; the weakest
power for one that is no operator. -/
def bindingPower (g : Grammar) (kind : Kind) : BindingPower :=
  match g.operator? kind with
  | some (power, _) => power
  | none => .default

end Grammar

end FrontEnd
