/-
What a token can be.

A token is a literal, a name, a punctuation mark, a reserved word or the end of
the input.  Punctuation marks and reserved words have one spelling each, and a
reserved word is either structural or names a primitive type.

* `Symbol.spelling`, `Keyword.spelling` give the text of the fixed tokens.
* `Keyword.ofString?` recognises the reserved words.
* `Kind.describe` is the wording in diagnostics, `Kind.name` the one in dumps.
-/

namespace FrontEnd

/-- Punctuation marks and operators. -/
inductive Symbol where
  | openBracket | closeBracket | openCurly | closeCurly | openParen | closeParen
  | assignment | equals | notEquals | fatArrow
  | less | lessEquals | greater | greaterEquals | shiftLeft | shiftRight
  | or | and | pipe | ampersand | caret
  | dot | dotDot | semicolon | colon | colonColon | comma
  | plus | dash | slash | star | percent
deriving DecidableEq, Repr

namespace Symbol

/-- The text of a mark. -/
def spelling : Symbol → String
  | openBracket => "["
  | closeBracket => "]"
  | openCurly => "\x7b"
  | closeCurly => "\x7d"
  | openParen => "("
  | closeParen => ")"
  | assignment => "="
  | equals => "=="
  | notEquals => "!="
  | fatArrow => "=>"
  | less => "<"
  | lessEquals => "<="
  | greater => ">"
  | greaterEquals => ">="
  | shiftLeft => "<<"
  | shiftRight => ">>"
  | or => "||"
  | and => "&&"
  | pipe => "|"
  | ampersand => "&"
  | caret => "^"
  | dot => "."
  | dotDot => ".."
  | semicolon => ";"
  | colon => ":"
  | colonColon => "::"
  | comma => ","
  | plus => "+"
  | dash => "-"
  | slash => "/"
  | star => "*"
  | percent => "%"

/-- The name of a mark in token dumps. -/
def name : Symbol → String
  | openBracket => "OpenBracket"
  | closeBracket => "CloseBracket"
  | openCurly => "OpenCurly"
  | closeCurly => "CloseCurly"
  | openParen => "OpenParen"
  | closeParen => "CloseParen"
  | assignment => "Assignment"
  | equals => "Equals"
  | notEquals => "NotEquals"
  | fatArrow => "FatArrow"
  | less => "Less"
  | lessEquals => "LessEquals"
  | greater => "Greater"
  | greaterEquals => "GreaterEquals"
  | shiftLeft => "ShiftLeft"
  | shiftRight => "ShiftRight"
  | or => "Or"
  | and => "And"
  | pipe => "Pipe"
  | ampersand => "Ampersand"
  | caret => "Caret"
  | dot => "Dot"
  | dotDot => "DotDot"
  | semicolon => "Semicolon"
  | colon => "Colon"
  | colonColon => "ColonColon"
  | comma => "Comma"
  | plus => "Plus"
  | dash => "Dash"
  | slash => "Slash"
  | star => "Star"
  | percent => "Percent"

/-- Every mark. -/
def all : List Symbol :=
  [openBracket, closeBracket, openCurly, closeCurly, openParen, closeParen, assignment, equals,
   notEquals, fatArrow, less, lessEquals, greater, greaterEquals, shiftLeft, shiftRight, or, and,
   pipe, ampersand, caret, dot, dotDot, semicolon, colon, colonColon, comma, plus, dash, slash,
   star, percent]

end Symbol

/-- The types that are named by a reserved word, `string` apart. -/
inductive Primitive where
  | bool | i32 | i64 | u32 | u64 | u8 | double | float | void
deriving DecidableEq, Repr

namespace Primitive

/-- The reserved word. -/
def spelling : Primitive → String
  | bool => "bool"
  | i32 => "i32"
  | i64 => "i64"
  | u32 => "u32"
  | u64 => "u64"
  | u8 => "u8"
  | double => "double"
  | float => "float"
  | void => "void"

/-- The name of the reserved word in token dumps. -/
def name : Primitive → String
  | bool => "Bool"
  | i32 => "I32"
  | i64 => "I64"
  | u32 => "U32"
  | u64 => "U64"
  | u8 => "U8"
  | double => "Double"
  | float => "Float"
  | void => "Void"

/-- Every primitive type, in the order diagnostics list them. -/
def all : List Primitive := [bool, i32, i64, u32, u64, u8, double, float, void]

end Primitive

/-- Reserved words. -/
inductive Keyword where
  | useKw | structKw | externKw | fnKw | letKw | mutKw | returnKw | ifKw | elseKw | whileKw
  | forKw | inKw | breakKw | continueKw | matchKw | asKw | nullKw | trueKw | falseKw
  | stringKw
  | primitive (p : Primitive)
deriving DecidableEq, Repr

namespace Keyword

/-- The reserved word itself. -/
def spelling : Keyword → String
  | useKw => "use"
  | structKw => "struct"
  | externKw => "extern"
  | fnKw => "fn"
  | letKw => "let"
  | mutKw => "mut"
  | returnKw => "return"
  | ifKw => "if"
  | elseKw => "else"
  | whileKw => "while"
  | forKw => "for"
  | inKw => "in"
  | breakKw => "break"
  | continueKw => "continue"
  | matchKw => "match"
  | asKw => "as"
  | nullKw => "null"
  | trueKw => "true"
  | falseKw => "false"
  | stringKw => "string"
  | primitive p => p.spelling

/-- The name of the reserved word in token dumps. -/
def name : Keyword → String
  | useKw => "Use"
  | structKw => "Struct"
  | externKw => "Extern"
  | fnKw => "Fn"
  | letKw => "Let"
  | mutKw => "Mut"
  | returnKw => "Return"
  | ifKw => "If"
  | elseKw => "Else"
  | whileKw => "While"
  | forKw => "For"
  | inKw => "In"
  | breakKw => "Break"
  | continueKw => "Continue"
  | matchKw => "Match"
  | asKw => "As"
  | nullKw => "Null"
  | trueKw => "True"
  | falseKw => "False"
  | stringKw => "StringType"
  | primitive p => p.name

/-- Every reserved word. -/
def all : List Keyword :=
  [useKw, structKw, externKw, fnKw, letKw, mutKw, returnKw, ifKw, elseKw, whileKw, forKw, inKw,
   breakKw, continueKw, matchKw, asKw, nullKw, trueKw, falseKw, stringKw] ++
  Primitive.all.map primitive

/-- The reserved word spelled `s`. -/
def ofString? (s : String) : Option Keyword := all.find? (·.spelling == s)

theorem mem_all (k : Keyword) : k ∈ all := by
  cases k with
  | primitive p => cases p <;> decide
  | _ => decide

/-- A reserved word is recognised by its spelling. -/
theorem ofString?_spelling (k : Keyword) : ofString? k.spelling = some k := by
  cases k with
  | primitive p => cases p <;> decide
  | _ => decide

end Keyword

/-- The kinds of tokens. -/
inductive Kind where
  | eof | number | string | char | identifier
  | symbol (s : Symbol)
  | keyword (k : Keyword)
deriving DecidableEq, Repr

instance : Coe Symbol Kind := ⟨.symbol⟩

instance : Coe Keyword Kind := ⟨.keyword⟩

namespace Kind

/-- The name of a kind in token dumps. -/
def name : Kind → String
  | eof => "EOF"
  | number => "Number"
  | string => "String"
  | char => "Char"
  | identifier => "Identifier"
  | symbol s => s.name
  | keyword k => k.name

/-- How a kind reads in a diagnostic: fixed tokens by their spelling, the others
by what they are. -/
def describe : Kind → String
  | eof => "end of input"
  | number => "integer literal"
  | string => "string literal"
  | char => "char literal"
  | identifier => "identifier"
  | symbol s => "`" ++ s.spelling ++ "`"
  | keyword k => "`" ++ k.spelling ++ "`"

/-- Every kind. -/
def all : List Kind :=
  [eof, number, string, char, identifier] ++ Symbol.all.map symbol ++ Keyword.all.map keyword

/-- The kind named `s`. -/
def ofName? (s : String) : Option Kind := all.find? (·.name == s)

/-- A name that is a reserved word is a token of its own kind. -/
def ofWord (s : String) : Kind :=
  match Keyword.ofString? s with
  | some k => keyword k
  | none => identifier

/-- Tokens that can only begin a top-level definition. -/
def startsDefinition : Kind → Bool
  | keyword .useKw | keyword .fnKw | keyword .externKw | keyword .structKw => true
  | _ => false

/-- Reserved words that begin a statement. -/
def startsStatement : Kind → Bool
  | keyword .letKw | keyword .returnKw | keyword .ifKw | keyword .whileKw | keyword .forKw
  | keyword .breakKw | keyword .continueKw | keyword .matchKw => true
  | _ => false

/-- The primitive type that a reserved word names. -/
def primitive? : Kind → Option Primitive
  | keyword (.primitive p) => some p
  | _ => none

end Kind

end FrontEnd
