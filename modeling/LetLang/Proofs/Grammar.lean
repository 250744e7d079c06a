import LetLang.Expr.Parser
/-!
# The grammar of expressions

The lists of tokens that each production derives, with their trees. The grammar is ambiguous: in
`let x = let y = e in f` the `in` may belong to either `let`, and likewise for `else`. Nothing is
said here about which tree is chosen, or about what follows a phrase.
-/
namespace LetLang.Parser

/-- The binary operators, with the level that each belongs to and the kind that spells it. -/
inductive Spells : Level → Kind → BinaryOp → Prop
  | and : Spells .logic .andWord .and
  | or : Spells .logic .orWord .or
  | eq : Spells .comparison .eq .eq
  | lt : Spells .comparison .lt .lt
  | gt : Spells .comparison .gt .gt
  | add : Spells .sum .plus .add
  | sub : Spells .sum .minus .sub
  | mul : Spells .product .star .mul
  | div : Spells .product .slash .div

/-- The items, in order, with a comma between any two of them. -/
inductive CommaJoined : List (List Token) → List Token → Prop
  | nil : CommaJoined [] []
  | single {p : List Token} : CommaJoined [p] p
  | cons {p q r : List Token} {items : List (List Token)} {comma : Token}
      (hcomma : comma.kind = .comma) (hrest : CommaJoined (q :: items) r) :
      CommaJoined (p :: q :: items) (p ++ comma :: r)

/-- The tokens that a production derives, with the tree that they stand for. -/
inductive Derives : Production → List Token → Expr → Prop
  -- Expr ::= LetExpr | IfExpr | FnExpr | Logic
  | exprLet {p e} (h : Derives .letExpr p e) : Derives .expr p e
  | exprIf {p e} (h : Derives .ifExpr p e) : Derives .expr p e
  | exprFn {p e} (h : Derives .fnExpr p e) : Derives .expr p e
  | exprLogic {p e} (h : Derives (.infixed .logic) p e) : Derives .expr p e
  -- LetExpr ::= "let" IDENT "=" Expr ("in" Expr)?
  | define {word name eq : Token} {p bound} (hword : word.kind = .letWord)
      (hname : name.kind = .ident) (heq : eq.kind = .eq) (hbound : Derives .expr p bound) :
      Derives .letExpr (word :: name :: eq :: p) (.define name.text bound)
  | letIn {word name eq inWord : Token} {p q bound body} (hword : word.kind = .letWord)
      (hname : name.kind = .ident) (heq : eq.kind = .eq) (hbound : Derives .expr p bound)
      (hin : inWord.kind = .inWord) (hbody : Derives .expr q body) :
      Derives .letExpr (word :: name :: eq :: (p ++ inWord :: q)) (.letIn name.text bound body)
  -- IfExpr ::= "if" Expr "then" Expr ("else" Expr)?
  | ifThen {word thenWord : Token} {p q cond yes} (hword : word.kind = .ifWord)
      (hcond : Derives .expr p cond) (hthen : thenWord.kind = .thenWord)
      (hyes : Derives .expr q yes) :
      Derives .ifExpr (word :: (p ++ thenWord :: q)) (.ifThen cond yes)
  | ifThenElse {word thenWord elseWord : Token} {p q r cond yes no} (hword : word.kind = .ifWord)
      (hcond : Derives .expr p cond) (hthen : thenWord.kind = .thenWord)
      (hyes : Derives .expr q yes) (helse : elseWord.kind = .elseWord)
      (hno : Derives .expr r no) :
      Derives .ifExpr (word :: (p ++ thenWord :: (q ++ elseWord :: r)))
        (.ifThenElse cond yes no)
  -- FnExpr ::= "|" (IDENT ("," IDENT)*)? "|" "=>" Expr
  | thunk {left right arrow : Token} {p body} (hleft : left.kind = .vbar)
      (hright : right.kind = .vbar) (harrow : arrow.kind = .arrow) (hbody : Derives .expr p body) :
      Derives .fnExpr (left :: right :: arrow :: p) (.fn none body)
  | fn {left right arrow : Token} {names : List Token} {p q body} (hleft : left.kind = .vbar)
      (hnonempty : names ≠ []) (hnames : ∀ name ∈ names, name.kind = .ident)
      (hparams : CommaJoined (names.map ([·])) p) (hright : right.kind = .vbar)
      (harrow : arrow.kind = .arrow) (hbody : Derives .expr q body) :
      Derives .fnExpr (left :: (p ++ right :: arrow :: q))
        (names.foldr (fun name inner => .fn (some name.text) inner) body)
  -- Logic, Comparison, Sum and Product ::= Operand (Operator Operand)*
  | operand {level p e} (h : Derives level.operand p e) : Derives (.infixed level) p e
  | operation {level} {operator : Token} {p q op left right}
      (hleft : Derives (.infixed level) p left) (hop : Spells level operator.kind op)
      (hright : Derives level.operand q right) :
      Derives (.infixed level) (p ++ operator :: q) (.binary op left right)
  -- Unary ::= ("not" | "-")? Application
  | not {word : Token} {p e} (hword : word.kind = .notWord) (h : Derives .application p e) :
      Derives .unary (word :: p) (.unary .not e)
  | negate {sign : Token} {p e} (hsign : sign.kind = .minus) (h : Derives .application p e) :
      Derives .unary (sign :: p) (.unary .negate e)
  | plain {p e} (h : Derives .application p e) : Derives .unary p e
  -- Application ::= Primary ("(" (Expr ("," Expr)*)? ")")*
  | callee {p e} (h : Derives .primary p e) : Derives .application p e
  | callUnit {left right : Token} {p callee} (hcallee : Derives .application p callee)
      (hleft : left.kind = .lparen) (hright : right.kind = .rparen) :
      Derives .application (p ++ [left, right]) (.apply callee .unit)
  | call {left right : Token} {items : List (List Token × Expr)} {p q callee}
      (hcallee : Derives .application p callee) (hleft : left.kind = .lparen)
      (hnonempty : items ≠ []) (hitems : ∀ item ∈ items, Derives .argument item.1 item.2)
      (harguments : CommaJoined (items.map (·.1)) q) (hright : right.kind = .rparen) :
      Derives .application (p ++ left :: (q ++ [right]))
        (items.foldl (fun callee item => .apply callee item.2) callee)
  -- An argument is any expression.
  | argument {p e} (h : Derives .expr p e) : Derives .argument p e
  -- Primary ::= "(" Expr ")" | "(" ")" | INT | IDENT | "true" | "false"
  | paren {left right : Token} {p e} (hleft : left.kind = .lparen) (h : Derives .expr p e)
      (hright : right.kind = .rparen) : Derives .primary (left :: (p ++ [right])) e
  | unit {left right : Token} (hleft : left.kind = .lparen) (hright : right.kind = .rparen) :
      Derives .primary [left, right] .unit
  | int {token : Token} (h : token.kind = .int) : Derives .primary [token] (.int token.number)
  | ident {token : Token} (h : token.kind = .ident) : Derives .primary [token] (.ident token.text)
  | trueWord {token : Token} (h : token.kind = .trueWord) : Derives .primary [token] (.bool true)
  | falseWord {token : Token} (h : token.kind = .falseWord) : Derives .primary [token] (.bool false)

end LetLang.Parser
