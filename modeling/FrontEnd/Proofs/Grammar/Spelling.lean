/-
What a tree is written with.

The grammar of the language, read from a tree to its tokens: a construct is spelled by a
list of tokens if one of the productions gives that list for it.  Tokens that may be left
out make several spellings of one tree; everything else is fixed.

* `TypeExpr.SpelledBy`, `Expr.SpelledBy`, `Stmt.SpelledBy` and `Definition.SpelledBy` hold
  the productions, `SourceFile.SpelledBy` is a whole file;
* `Expr.PrimaryBy` is an expression without operators, which is all that may stand behind
  a dot and between brackets.

A name stands in the tree as it stands in the source, a number with its value, a literal
with its parts and an operator with its place; the span of every construct is what its
tokens cover.  Comments are written with no tokens.  No production is for skipped stretches,
so a tree that holds one has no spelling.
-/
import FrontEnd.Definition.Basic
import FrontEnd.Expr.Parser
import FrontEnd.Proofs.Grammar.Sequence

namespace FrontEnd

/-! ### Names and literals -/

/-- The token that a name is. -/
def Identifier.token (i : Identifier) : Token := ⟨.identifier, i.name, i.span⟩

@[simp] theorem Identifier.span_token (i : Identifier) : i.token.span = i.span := rfl

/-- A name is one token. -/
inductive Identifier.SpelledBy : Identifier → List Token → Prop
  | mk (i : Identifier) : i.SpelledBy [i.token]

/-- An integer literal is one token, whose digits write a value of 64 bits. -/
inductive Number.SpelledBy : Number → List Token → Prop
  | mk {t : Token} {value : Nat} (hkind : t.kind = .number)
    (hvalue : Text.readNumber? 10 t.text.toList = some value) (hlimit : value < Number.limit) :
    Number.SpelledBy ⟨value, t.span⟩ [t]

/-- The quote that a literal token of the given kind starts with. -/
inductive Kind.Quotes : Kind → Char → Prop
  | string : Quotes .string '"'
  | char : Quotes .char '\''

/-- The token is of the kind of a literal, but its text cannot be taken apart. -/
def Token.Headless (t : Token) : Prop :=
  ∃ quote, t.kind.Quotes quote ∧ Parser.literalParts? t quote = none

/-- A string literal is one token, and its parts are those of the token's text. -/
inductive StringLiteral.SpelledBy : StringLiteral → List Token → Prop
  | mk {t : Token} (hkind : t.kind = .string) :
    StringLiteral.SpelledBy ⟨Parser.literalParts t '"', t.span⟩ [t]

/-- A char literal is one token, and its parts are those of the token's text. -/
inductive CharLiteral.SpelledBy : CharLiteral → List Token → Prop
  | mk {t : Token} (hkind : t.kind = .char) :
    CharLiteral.SpelledBy ⟨Parser.literalParts t '\'', t.span⟩ [t]

/-! ### Types -/

/-- The productions for types. -/
inductive TypeExpr.SpelledBy : TypeExpr → List Token → Prop
  | primitive {p : Primitive} {t : Token} (ht : t.kind = .keyword (.primitive p)) :
    SpelledBy (.primitive p t.span) [t]
  | string {t : Token} (ht : t.kind = .keyword .stringKw) : SpelledBy (.string t.span) [t]
  | named (name : Identifier) : SpelledBy (.named name) [name.token]
  | array {o semi c : Token} {element : TypeExpr} {es : List Token} {length : Number}
    {ns : List Token} (ho : o.kind = .symbol .openBracket) (helement : element.SpelledBy es)
    (hsemi : semi.kind = .symbol .semicolon) (hlength : length.SpelledBy ns)
    (hc : c.kind = .symbol .closeBracket) :
    SpelledBy (.array element length (covering (o :: (es ++ semi :: (ns ++ [c])))))
      (o :: (es ++ semi :: (ns ++ [c])))
  | pointer {star : Token} {pointee : TypeExpr} {ts : List Token}
    (hstar : star.kind = .symbol .star) (hpointee : pointee.SpelledBy ts) :
    SpelledBy (.pointer pointee (covering (star :: ts))) (star :: ts)
  | reference {mark : Token} {referent : TypeExpr} {ts : List Token}
    (hmark : mark.kind = .symbol .ampersand) (hreferent : referent.SpelledBy ts) :
    SpelledBy (.reference referent (covering (mark :: ts))) (mark :: ts)
  /-- Two references whose ampersands are one token; the inner one starts with the second
  of them. -/
  | doubleReference {marks : Token} {referent : TypeExpr} {ts : List Token}
    (hmarks : marks.kind = .symbol .and) (hreferent : referent.SpelledBy ts) :
    SpelledBy (.reference
      (.reference referent (spanning (marks.span.start.next '&') (marks :: ts)))
      (covering (marks :: ts))) (marks :: ts)
  | generic (name : Identifier) {o c : Token} {argument : TypeExpr} {ts : List Token}
    (ho : o.kind = .symbol .less) (hargument : argument.SpelledBy ts)
    (hplain : argument.isPlain) (hc : c.kind = .symbol .greater) :
    SpelledBy (.generic name argument (covering (name.token :: o :: (ts ++ [c]))))
      (name.token :: o :: (ts ++ [c]))

/-- A plain type in angle brackets. -/
inductive GenericClause : TypeExpr → List Token → Prop
  | mk {o c : Token} {argument : TypeExpr} {ts : List Token} (ho : o.kind = .symbol .less)
    (hargument : argument.SpelledBy ts) (hplain : argument.isPlain)
    (hc : c.kind = .symbol .greater) : GenericClause argument (o :: (ts ++ [c]))

/-! ### Expressions -/

/-- Numbers with bars between them; the bar after the first is needed, those after the
others are not. -/
inductive ConstantList.SpelledBy : ConstantList → List Token → Prop
  | mk {first : Number} {fs : List Token} {bar : Token} {others : List Number}
    {os : List Token} (hfirst : first.SpelledBy fs) (hbar : bar.kind = .symbol .pipe)
    (hothers : Each (fun n ts => ∃ ns b bs, ts = ns ++ bs ∧ n.SpelledBy ns ∧
      Optional (.symbol .pipe) b bs) others os) :
    ConstantList.SpelledBy ⟨first :: others, covering (fs ++ bar :: os)⟩ (fs ++ bar :: os)

mutual

/-- The productions for expressions without operators. -/
inductive Expr.PrimaryBy : Expr → List Token → Prop
  | number {n : Number} {ts : List Token} (h : n.SpelledBy ts) : Expr.PrimaryBy (.number n) ts
  | char {l : CharLiteral} {ts : List Token} (h : l.SpelledBy ts) : Expr.PrimaryBy (.char l) ts
  | string {l : StringLiteral} {ts : List Token} (h : l.SpelledBy ts) :
    Expr.PrimaryBy (.string l) ts
  | null {t : Token} (ht : t.kind = .keyword .nullKw) : Expr.PrimaryBy (.null t.span) [t]
  | true {t : Token} (ht : t.kind = .keyword .trueKw) : Expr.PrimaryBy (.bool true t.span) [t]
  | false {t : Token} (ht : t.kind = .keyword .falseKw) : Expr.PrimaryBy (.bool false t.span) [t]
  | identifier (name : Identifier) : Expr.PrimaryBy (.identifier name) [name.token]
  | call {c : Call} {ts : List Token} (h : c.SpelledBy ts) : Expr.PrimaryBy (.call c) ts
  | fieldAccess (object : Identifier) {dot : Token} {member : Expr} {ts : List Token}
    (hdot : dot.kind = .symbol .dot) (hmember : member.PrimaryBy ts) :
    Expr.PrimaryBy (.fieldAccess object member (covering (object.token :: dot :: ts)))
      (object.token :: dot :: ts)
  | arrayAccess (base : Identifier) {o c : Token} {index : Expr} {ts : List Token}
    (ho : o.kind = .symbol .openBracket) (hindex : index.PrimaryBy ts)
    (hc : c.kind = .symbol .closeBracket) :
    Expr.PrimaryBy (.arrayAccess base index (covering (base.token :: o :: (ts ++ [c]))))
      (base.token :: o :: (ts ++ [c]))
  | matching {m : Match} {ts : List Token} (h : m.SpelledBy ts) : Expr.PrimaryBy (.matching m) ts

/-- The productions for expressions. -/
inductive Expr.SpelledBy : Expr → List Token → Prop
  | primary {e : Expr} {ts : List Token} (h : e.PrimaryBy ts) : Expr.SpelledBy e ts
  | binary {left right : Expr} {ls rs : List Token} {op : BinaryOperator} {t : Token}
    (hleft : left.SpelledBy ls) (hop : t.kind = .symbol op.symbol)
    (hright : right.SpelledBy rs) :
    Expr.SpelledBy (.binary left ⟨op, t.span⟩ right ⟨left.span.start, right.span.stop⟩)
      (ls ++ t :: rs)
  | typecast {value : Expr} {vs : List Token} {word : Token} {target : TypeExpr}
    {ts : List Token} (hvalue : value.SpelledBy vs) (hword : word.kind = .keyword .asKw)
    (htarget : target.SpelledBy ts) :
    Expr.SpelledBy (.typecast value target (spanning value.span.start (vs ++ word :: ts)))
      (vs ++ word :: ts)

/-- A name, perhaps a generic argument, and arguments with commas between them. -/
inductive Call.SpelledBy : Call → List Token → Prop
  | mk (function : Identifier) {generic : Option TypeExpr} {gs : List Token} {o c : Token}
    {arguments : List Expr} {ts : List Token} (hgeneric : Perhaps GenericClause generic gs)
    (ho : o.kind = .symbol .openParen)
    (harguments : Separated (.symbol .comma) Expr.SpelledBy arguments ts)
    (hc : c.kind = .symbol .closeParen) :
    Call.SpelledBy
      ⟨function, generic, arguments, covering (function.token :: (gs ++ o :: (ts ++ [c])))⟩
      (function.token :: (gs ++ o :: (ts ++ [c])))

/-- A value, and arms in braces. -/
inductive Match.SpelledBy : Match → List Token → Prop
  | mk {word o c : Token} {value : Expr} {vs : List Token} {arms : List MatchArm}
    {ts : List Token} (hword : word.kind = .keyword .matchKw) (hvalue : value.SpelledBy vs)
    (ho : o.kind = .symbol .openCurly) (harms : Each MatchArm.SpelledBy arms ts)
    (hc : c.kind = .symbol .closeCurly) :
    Match.SpelledBy ⟨value, arms, covering (word :: (vs ++ o :: (ts ++ [c])))⟩
      (word :: (vs ++ o :: (ts ++ [c])))

/-- A key and a value, with the comma that ends the arm. -/
inductive MatchArm.SpelledBy : MatchArm → List Token → Prop
  | mk {key : MatchKey} {ks : List Token} {arrow comma : Token} {value : Expr}
    {vs : List Token} (hkey : key.SpelledBy ks) (harrow : arrow.kind = .symbol .fatArrow)
    (hvalue : value.SpelledBy vs) (hcomma : comma.kind = .symbol .comma) :
    MatchArm.SpelledBy ⟨key, value, covering (ks ++ arrow :: (vs ++ [comma]))⟩
      (ks ++ arrow :: (vs ++ [comma]))

/-- What an arm is for. -/
inductive MatchKey.SpelledBy : MatchKey → List Token → Prop
  | identifier (name : Identifier) : MatchKey.SpelledBy (.identifier name) [name.token]
  | constants {l : ConstantList} {ts : List Token} (h : l.SpelledBy ts) :
    MatchKey.SpelledBy (.constants l) ts
  | number {n : Number} {ts : List Token} (h : n.SpelledBy ts) : MatchKey.SpelledBy (.number n) ts
  | char {l : CharLiteral} {ts : List Token} (h : l.SpelledBy ts) :
    MatchKey.SpelledBy (.char l) ts
  | range {r : Range} {ts : List Token} (h : r.SpelledBy ts) : MatchKey.SpelledBy (.range r) ts

/-- Two expressions with two dots between them, and an equals sign if the second one
belongs to the range. -/
inductive Range.SpelledBy : Range → List Token → Prop
  | mk {first last : Expr} {fs ls es : List Token} {dots : Token} {inclusive : Bool}
    (hfirst : first.SpelledBy fs) (hdots : dots.kind = .symbol .dotDot)
    (hinclusive : Optional (.symbol .assignment) inclusive es) (hlast : last.SpelledBy ls) :
    Range.SpelledBy ⟨first, inclusive, last, ⟨first.span.start, last.span.stop⟩⟩
      (fs ++ dots :: (es ++ ls))

end

/-- A value for a field, perhaps with a semicolon behind it. -/
inductive FieldInit.SpelledBy : FieldInit → List Token → Prop
  | mk (name : Identifier) {colon : Token} {value : Expr} {vs ss : List Token} {b : Bool}
    (hcolon : colon.kind = .symbol .colon) (hvalue : value.SpelledBy vs)
    (hsemi : Optional (.symbol .semicolon) b ss) :
    FieldInit.SpelledBy ⟨name, value, covering (name.token :: colon :: (vs ++ ss))⟩
      (name.token :: colon :: (vs ++ ss))

/-- A name, perhaps a generic argument, and values for fields in braces. -/
inductive StructInit.SpelledBy : StructInit → List Token → Prop
  | mk (name : Identifier) {generic : Option TypeExpr} {gs : List Token} {o c : Token}
    {fields : List FieldInit} {ts : List Token} (hgeneric : Perhaps GenericClause generic gs)
    (ho : o.kind = .symbol .openCurly) (hfields : Each FieldInit.SpelledBy fields ts)
    (hc : c.kind = .symbol .closeCurly) :
    StructInit.SpelledBy
      ⟨name, generic, fields, covering (name.token :: (gs ++ o :: (ts ++ [c])))⟩
      (name.token :: (gs ++ o :: (ts ++ [c])))

/-- The first value of a variable: a struct initialization or an expression. -/
inductive InitializerBy : Expr → List Token → Prop
  | structInit {init : StructInit} {ts : List Token} (h : init.SpelledBy ts) :
    InitializerBy (.structInit init) ts
  | expression {e : Expr} {ts : List Token} (h : e.SpelledBy ts) : InitializerBy e ts

/-! ### Statements -/

/-- The marker `mut`, of which the tree keeps the place. -/
inductive MutMarker : Option Span → List Token → Prop
  | absent : MutMarker none []
  | present {t : Token} (ht : t.kind = .keyword .mutKw) : MutMarker (some t.span) [t]

/-- What a member that can be assigned to is. -/
def Expr.isMember : Expr → Bool
  | .identifier _ | .arrayAccess .. => true
  | _ => false

/-- What a loop runs over: a name or a range. -/
inductive IterableBy : Expr → List Token → Prop
  | identifier (name : Identifier) : IterableBy (.identifier name) [name.token]
  | range {r : Range} {ts : List Token} (h : r.SpelledBy ts) : IterableBy (.range r) ts

mutual

/-- The productions for statements. -/
inductive Stmt.SpelledBy : Stmt → List Token → Prop
  | returning {word semi : Token} {value : Expr} {vs : List Token}
    (hword : word.kind = .keyword .returnKw) (hvalue : value.SpelledBy vs)
    (hsemi : semi.kind = .symbol .semicolon) :
    Stmt.SpelledBy (.returning value (covering (word :: (vs ++ [semi])))) (word :: (vs ++ [semi]))
  | declaration (name : Identifier) {word colon semi : Token} {mutability : Option Span}
    {ms : List Token} {type : TypeExpr} {ts : List Token} {value : Option Expr}
    {vs : List Token} (hword : word.kind = .keyword .letKw) (hmut : MutMarker mutability ms)
    (hcolon : colon.kind = .symbol .colon) (htype : type.SpelledBy ts)
    (hvalue : Perhaps (Behind (.symbol .assignment) InitializerBy) value vs)
    (hsemi : semi.kind = .symbol .semicolon) :
    Stmt.SpelledBy
      (.declaration mutability name type value
        (covering (word :: (ms ++ name.token :: colon :: (ts ++ (vs ++ [semi]))))))
      (word :: (ms ++ name.token :: colon :: (ts ++ (vs ++ [semi]))))
  | assignment (name : Identifier) {eq semi : Token} {value : Expr} {vs : List Token}
    (heq : eq.kind = .symbol .assignment) (hvalue : value.SpelledBy vs)
    (hsemi : semi.kind = .symbol .semicolon) :
    Stmt.SpelledBy (.assignment name value (covering (name.token :: eq :: (vs ++ [semi]))))
      (name.token :: eq :: (vs ++ [semi]))
  | fieldAssignment (object : Identifier) {dot eq semi : Token} {member value : Expr}
    {ms vs : List Token} (hdot : dot.kind = .symbol .dot) (hmember : member.PrimaryBy ms)
    (hform : member.isMember) (heq : eq.kind = .symbol .assignment)
    (hvalue : value.SpelledBy vs) (hsemi : semi.kind = .symbol .semicolon) :
    Stmt.SpelledBy
      (.fieldAssignment object member value
        (covering (object.token :: dot :: (ms ++ eq :: (vs ++ [semi])))))
      (object.token :: dot :: (ms ++ eq :: (vs ++ [semi])))
  | arrayAssignment {target index value : Expr} {ts is vs : List Token}
    {o c eq semi : Token} (htarget : target.PrimaryBy ts) (ho : o.kind = .symbol .openBracket)
    (hindex : index.PrimaryBy is) (hc : c.kind = .symbol .closeBracket)
    (heq : eq.kind = .symbol .assignment) (hvalue : value.SpelledBy vs)
    (hsemi : semi.kind = .symbol .semicolon) :
    Stmt.SpelledBy
      (.arrayAssignment target index value
        (covering (ts ++ o :: (is ++ c :: eq :: (vs ++ [semi])))))
      (ts ++ o :: (is ++ c :: eq :: (vs ++ [semi])))
  | conditional {word : Token} {condition : Expr} {cs : List Token} {ifBlock : Block}
    {bs : List Token} {elseBlock : Option Block} {es : List Token}
    (hword : word.kind = .keyword .ifKw) (hcondition : condition.SpelledBy cs)
    (hif : ifBlock.SpelledBy bs)
    (helse : Perhaps (Behind (.keyword .elseKw) Block.SpelledBy) elseBlock es) :
    Stmt.SpelledBy
      (.conditional condition ifBlock elseBlock (covering (word :: (cs ++ (bs ++ es)))))
      (word :: (cs ++ (bs ++ es)))
  | whileLoop {word : Token} {condition : Expr} {cs : List Token} {body : Block}
    {bs : List Token} (hword : word.kind = .keyword .whileKw)
    (hcondition : condition.SpelledBy cs) (hbody : body.SpelledBy bs) :
    Stmt.SpelledBy (.whileLoop condition body (covering (word :: (cs ++ bs))))
      (word :: (cs ++ bs))
  | forLoop (binding : Identifier) {word inside : Token} {hasLet : Bool} {ls : List Token}
    {iterable : Expr} {is : List Token} {body : Block} {bs : List Token}
    (hword : word.kind = .keyword .forKw) (hlet : Optional (.keyword .letKw) hasLet ls)
    (hinside : inside.kind = .keyword .inKw) (hiterable : IterableBy iterable is)
    (hbody : body.SpelledBy bs) :
    Stmt.SpelledBy
      (.forLoop hasLet binding iterable body
        (covering (word :: (ls ++ binding.token :: inside :: (is ++ bs)))))
      (word :: (ls ++ binding.token :: inside :: (is ++ bs)))
  | breakLoop {word semi : Token} (hword : word.kind = .keyword .breakKw)
    (hsemi : semi.kind = .symbol .semicolon) :
    Stmt.SpelledBy (.breakLoop (covering [word, semi])) [word, semi]
  | continueLoop {word semi : Token} (hword : word.kind = .keyword .continueKw)
    (hsemi : semi.kind = .symbol .semicolon) :
    Stmt.SpelledBy (.continueLoop (covering [word, semi])) [word, semi]
  | call {c : Call} {cs : List Token} {semi : Token} (hcall : c.SpelledBy cs)
    (hsemi : semi.kind = .symbol .semicolon) :
    Stmt.SpelledBy (.call c (covering (cs ++ [semi]))) (cs ++ [semi])
  | matching {m : Match} {ms : List Token} {semi : Token} (hmatch : m.SpelledBy ms)
    (hsemi : semi.kind = .symbol .semicolon) :
    Stmt.SpelledBy (.matching m (covering (ms ++ [semi]))) (ms ++ [semi])

/-- What may stand in a block: a statement, or a comment, which is written with no tokens. -/
inductive Stmt.ItemBy : Stmt → List Token → Prop
  | statement {stmt : Stmt} {ts : List Token} (h : stmt.SpelledBy ts) : Stmt.ItemBy stmt ts
  | comment (c : Comment) : Stmt.ItemBy (.comment c) []

/-- Statements and comments in braces. -/
inductive Block.SpelledBy : Block → List Token → Prop
  | mk {o c : Token} {statements : List Stmt} {ts : List Token}
    (ho : o.kind = .symbol .openCurly) (hstatements : Each Stmt.ItemBy statements ts)
    (hc : c.kind = .symbol .closeCurly) :
    Block.SpelledBy ⟨statements, covering (o :: (ts ++ [c]))⟩ (o :: (ts ++ [c]))

end

/-! ### Definitions -/

/-- A parameter or a field, perhaps with a comma behind it that it does not cover. -/
inductive Parameter.SpelledBy : Parameter → List Token → Prop
  | mk (name : Identifier) {colon : Token} {mutability : Option Span} {ms : List Token}
    {type : TypeExpr} {ts cs : List Token} {b : Bool} (hcolon : colon.kind = .symbol .colon)
    (hmut : MutMarker mutability ms) (htype : type.SpelledBy ts)
    (hcomma : Optional (.symbol .comma) b cs) :
    Parameter.SpelledBy
      ⟨name, mutability, type, covering (name.token :: colon :: (ms ++ ts))⟩
      (name.token :: colon :: (ms ++ (ts ++ cs)))

/-- Parameters in parentheses. -/
inductive ParameterList : List Parameter → List Token → Prop
  | mk {o c : Token} {parameters : List Parameter} {ts : List Token}
    (ho : o.kind = .symbol .openParen) (hparameters : Each Parameter.SpelledBy parameters ts)
    (hc : c.kind = .symbol .closeParen) : ParameterList parameters (o :: (ts ++ [c]))

/-- The type of a result, if there is one, stands behind a colon. -/
def ReturnTypeBy : Option TypeExpr → List Token → Prop :=
  Perhaps (Behind (.symbol .colon) TypeExpr.SpelledBy)

/-- A function with its body. -/
inductive FunctionDef.SpelledBy : FunctionDef → List Token → Prop
  | mk (name : Identifier) {word : Token} {generic : Option TypeExpr} {gs : List Token}
    {parameters : List Parameter} {ps : List Token} {returnType : Option TypeExpr}
    {rs : List Token} {body : Block} {bs : List Token} (hword : word.kind = .keyword .fnKw)
    (hgeneric : Perhaps GenericClause generic gs) (hparameters : ParameterList parameters ps)
    (hreturn : ReturnTypeBy returnType rs) (hbody : body.SpelledBy bs) :
    FunctionDef.SpelledBy
      ⟨name, generic, parameters, returnType, body,
        covering (word :: name.token :: (gs ++ (ps ++ (rs ++ bs))))⟩
      (word :: name.token :: (gs ++ (ps ++ (rs ++ bs))))

/-- The declaration of an external function. -/
inductive ExternalFunction.SpelledBy : ExternalFunction → List Token → Prop
  | mk (name : Identifier) {word fn semi : Token} {parameters : List Parameter}
    {ps : List Token} {returnType : Option TypeExpr} {rs : List Token}
    (hword : word.kind = .keyword .externKw) (hfn : fn.kind = .keyword .fnKw)
    (hparameters : ParameterList parameters ps) (hreturn : ReturnTypeBy returnType rs)
    (hsemi : semi.kind = .symbol .semicolon) :
    ExternalFunction.SpelledBy
      ⟨name, parameters, returnType,
        covering (word :: fn :: name.token :: (ps ++ (rs ++ [semi])))⟩
      (word :: fn :: name.token :: (ps ++ (rs ++ [semi])))

/-- Fields and then methods, in braces. -/
inductive StructDef.SpelledBy : StructDef → List Token → Prop
  | mk (name : Identifier) (comments : List Comment) {word o c : Token}
    {generic : Option TypeExpr} {gs : List Token} {fields : List Parameter} {fs : List Token}
    {methods : List FunctionDef} {ms : List Token} (hword : word.kind = .keyword .structKw)
    (hgeneric : Perhaps GenericClause generic gs) (ho : o.kind = .symbol .openCurly)
    (hfields : Each Parameter.SpelledBy fields fs)
    (hmethods : Each FunctionDef.SpelledBy methods ms) (hc : c.kind = .symbol .closeCurly) :
    StructDef.SpelledBy
      ⟨name, generic, fields, methods, comments,
        covering (word :: name.token :: (gs ++ o :: (fs ++ (ms ++ [c]))))⟩
      (word :: name.token :: (gs ++ o :: (fs ++ (ms ++ [c]))))

/-- A name of a path, perhaps with a mark behind it. -/
inductive PathName : Identifier → List Token → Prop
  | bare (name : Identifier) : PathName name [name.token]
  | marked (name : Identifier) {mark : Token}
    (hmark : mark.kind = .symbol .colonColon ∨ mark.kind = .symbol .dot) :
    PathName name [name.token, mark]

/-- A use of another module. -/
inductive UseStatement.SpelledBy : UseStatement → List Token → Prop
  | mk {word semi : Token} {path : List Identifier} {ps : List Token}
    (hword : word.kind = .keyword .useKw) (hpath : Each PathName path ps)
    (hsemi : semi.kind = .symbol .semicolon) :
    UseStatement.SpelledBy ⟨path, covering (word :: (ps ++ [semi]))⟩ (word :: (ps ++ [semi]))

/-- The productions for definitions. -/
inductive Definition.SpelledBy : Definition → List Token → Prop
  | function {f : FunctionDef} {ts : List Token} (h : f.SpelledBy ts) :
    Definition.SpelledBy (.function f) ts
  | external {f : ExternalFunction} {ts : List Token} (h : f.SpelledBy ts) :
    Definition.SpelledBy (.external f) ts
  | struct {s : StructDef} {ts : List Token} (h : s.SpelledBy ts) :
    Definition.SpelledBy (.struct s) ts
  | use {u : UseStatement} {ts : List Token} (h : u.SpelledBy ts) :
    Definition.SpelledBy (.use u) ts

/-- What may stand in a file: a definition, or a comment, which is written with no tokens. -/
inductive Definition.ItemBy : Definition → List Token → Prop
  | definition {d : Definition} {ts : List Token} (h : d.SpelledBy ts) : Definition.ItemBy d ts
  | comment (c : Comment) : Definition.ItemBy (.comment c) []

/-- A file is written with the tokens of its definitions. -/
def SourceFile.SpelledBy (f : SourceFile) (ts : List Token) : Prop :=
  Each Definition.ItemBy f.definitions ts

end FrontEnd
