import MfQuery.Cpp.Lexer
import MfQuery.Lib.Precedence

/-!
# Parsing C++ expressions

The parser is a machine that reads one token at a time. An open parenthesis or
argument list suspends the expression around it as a frame; inside one
expression the operands waiting for a right-hand side stand on an
operator-precedence stack. Prefix operators wait until their operand and its
postfix parts are complete, since postfix parts bind tighter.

Calls are curried: `f(a, b)` is the call of `f` supplied with `a` and then
with `b`.
-/

namespace MfQuery
namespace Cpp

/-- Prefix operators. -/
inductive UnOp
  | neg
  | not
  | deref
  deriving DecidableEq, Repr

/-- Binary operators, assignment included. -/
inductive BinOp
  | mul
  | div
  | add
  | sub
  | lt
  | gt
  | le
  | ge
  | eq
  | ne
  | xor
  | and
  | or
  | assign
  deriving DecidableEq, Repr

/-- Expressions of the emitted programs. -/
inductive Expr
  | number (digits : Text)
  | string (body : Text)
  | var (name : Text)
  | unary (operator : UnOp) (operand : Expr)
  | binary (operator : BinOp) (left right : Expr)
  | arrow (base : Expr) (field : Text)
  | dot (base : Expr) (field : Text)
  | supply (callee argument : Expr)
  | call (callee : Expr)
  deriving DecidableEq, Repr

namespace BinOp

/-- Rank of an operator in the C++ precedence table; larger binds tighter. -/
def rank : BinOp → Nat
  | mul | div => 7
  | add | sub => 6
  | lt | gt | le | ge => 5
  | eq | ne => 4
  | xor => 3
  | and => 2
  | or => 1
  | assign => 0

/-- A waiting operator is applied before the next one arrives: it binds
tighter, or equally tight and groups from the left. -/
def binds (waiting next : BinOp) : Bool :=
  decide (next.rank < waiting.rank) ||
    (waiting.rank == next.rank && waiting != .assign)

/-- The operator a punctuator spells in infix position. -/
def ofPunct (symbol : Text) : Option BinOp :=
  if symbol = "*".toList then some mul
  else if symbol = "/".toList then some div
  else if symbol = "+".toList then some add
  else if symbol = "-".toList then some sub
  else if symbol = "<".toList then some lt
  else if symbol = ">".toList then some gt
  else if symbol = "<=".toList then some le
  else if symbol = ">=".toList then some ge
  else if symbol = "==".toList then some eq
  else if symbol = "!=".toList then some ne
  else if symbol = "^".toList then some xor
  else if symbol = "&&".toList then some and
  else if symbol = "||".toList then some or
  else if symbol = "=".toList then some assign
  else none

end BinOp

/-- The operator a punctuator spells in prefix position. -/
def UnOp.ofPunct (symbol : Text) : Option UnOp :=
  if symbol = "-".toList then some neg
  else if symbol = "!".toList then some not
  else if symbol = "*".toList then some deref
  else none

namespace Parser

/-- Operands of the current expression waiting for a right-hand side. -/
abbrev Waiting := Precedence.Stack BinOp Expr

/-- What an open parenthesis belongs to. -/
inductive Opening
  | group
  | arguments (callee : Expr)
  deriving DecidableEq, Repr

/-- An expression suspended at an open parenthesis. -/
structure Frame where
  opening : Opening
  waiting : Waiting
  pending : List UnOp
  deriving DecidableEq, Repr

/-- The expression under construction: the frames around it, its waiting
operands and the prefix operators read for its next operand. -/
structure Context where
  frames : List Frame
  waiting : Waiting
  pending : List UnOp
  deriving DecidableEq, Repr

/-- Nothing has been read. -/
def Context.empty : Context := ⟨[], [], []⟩

/-- Apply pending prefix operators, the one read last first. -/
def applyPending (pending : List UnOp) (operand : Expr) : Expr :=
  pending.foldr .unary operand

/-- The innermost expression, ended after an operand. -/
def Context.whole (context : Context) (operand : Expr) : Expr :=
  Precedence.close .binary context.waiting
    (applyPending context.pending operand)

/-- States of the parser. -/
inductive State
  | operand (context : Context)
  | member (context : Context) (base : Expr) (viaArrow : Bool)
  | after (context : Context) (operand : Expr)
  deriving DecidableEq, Repr

/-- A closing parenthesis after a complete operand. -/
def closeParen (context : Context) (operand : Expr) : Option State :=
  match context.frames with
  | [] => none
  | ⟨.group, waiting, pending⟩ :: frames =>
      some (.after ⟨frames, waiting, pending⟩ (context.whole operand))
  | ⟨.arguments callee, waiting, pending⟩ :: frames =>
      some (.after ⟨frames, waiting, pending⟩
        (.call (.supply callee (context.whole operand))))

/-- A comma after a complete operand: the next argument begins. -/
def nextArgument (context : Context) (operand : Expr) : Option State :=
  match context.frames with
  | ⟨.arguments callee, waiting, pending⟩ :: frames =>
      some (.operand
        ⟨⟨.arguments (.supply callee (context.whole operand)), waiting, pending⟩ :: frames,
          [], []⟩)
  | _ => none

/-- Open a parenthesis. -/
def Context.open (context : Context) (opening : Opening) : Context :=
  ⟨⟨opening, context.waiting, context.pending⟩ :: context.frames, [], []⟩

/-- A binary operator after a complete operand. -/
def Context.infixed
    (context : Context)
    (operand : Expr)
    (operator : BinOp) : Context :=
  ⟨context.frames,
    Precedence.push .binary BinOp.binds context.waiting
      (applyPending context.pending operand) operator,
    []⟩

/-- A punctuator where an operand is expected. -/
def operandPunct (context : Context) (symbol : Text) : Option State :=
  if symbol = "(".toList then some (.operand (context.open .group))
  else if symbol = ")".toList then
    match context with
    | ⟨⟨.arguments callee, waiting, pending⟩ :: frames, [], []⟩ =>
        some (.after ⟨frames, waiting, pending⟩ (.call callee))
    | _ => none
  else (UnOp.ofPunct symbol).map fun operator =>
    .operand { context with pending := context.pending ++ [operator] }

/-- A punctuator after a complete operand. -/
def afterPunct (context : Context) (operand : Expr) (symbol : Text) : Option State :=
  if symbol = "->".toList then some (.member context operand true)
  else if symbol = ".".toList then some (.member context operand false)
  else if symbol = "(".toList then some (.operand (context.open (.arguments operand)))
  else if symbol = ")".toList then closeParen context operand
  else if symbol = ",".toList then nextArgument context operand
  else (BinOp.ofPunct symbol).map fun operator =>
    .operand (context.infixed operand operator)

/-- Read one token. -/
def step : State → Token → Option State
  | .operand context, .number digits => some (.after context (.number digits))
  | .operand context, .string body => some (.after context (.string body))
  | .operand context, .ident name => some (.after context (.var name))
  | .operand context, .punct symbol => operandPunct context symbol
  | .member context base viaArrow, .ident field =>
      some (.after context (if viaArrow then .arrow base field else .dot base field))
  | .member _ _ _, _ => none
  | .after context operand, .punct symbol => afterPunct context operand symbol
  | .after _ _, _ => none

/-- Read a token sequence. -/
def run : State → List Token → Option State
  | state, [] => some state
  | state, token :: rest => do
      let next ← step state token
      run next rest

/-- The expression read when the input ends. -/
def finish : State → Option Expr
  | .after context operand =>
      match context.frames with
      | [] => some (context.whole operand)
      | _ :: _ => none
  | _ => none

@[simp] theorem run_nil (state : State) : run state [] = some state := rfl

theorem run_cons
    (state : State)
    (token : Token)
    (rest : List Token) :
    run state (token :: rest) = (step state token).bind fun next => run next rest :=
  rfl

/-- Parsing a concatenation continues in the state the first part ended in. -/
theorem run_append
    (state : State)
    (first second : List Token) :
    run state (first ++ second) =
      (run state first).bind fun middle => run middle second := by
  induction first generalizing state with
  | nil => rfl
  | cons token rest inductionHypothesis =>
      simp only [List.cons_append, run_cons]
      cases step state token with
      | none => rfl
      | some next => simpa using inductionHypothesis next

/-- Chaining two successful readings. -/
theorem run_append_of_eq
    {state middle final : State}
    {first second : List Token}
    (runFirst : run state first = some middle)
    (runSecond : run middle second = some final) :
    run state (first ++ second) = some final := by
  rw [run_append, runFirst]
  exact runSecond

end Parser

/-- Expression of a token sequence. -/
def parse (tokens : List Token) : Option Expr := do
  let state ← Parser.run (.operand .empty) tokens
  Parser.finish state

/-- Expression a text spells. -/
def read (text : Text) : Option Expr := do
  let tokens ← lex text
  parse tokens

/-- A text whose tokens are known spells the expression they parse to. -/
theorem read_of_lex
    {text : Text}
    {tokens : List Token}
    (lexed : lex text = some tokens) :
    read text = parse tokens := by
  simp [read, lexed]

example : read "(*it)->month<(*xt)->month+1 and (*it)->state.compare(\"NY\") == 0".toList =
    some (.binary .and
      (.binary .lt (.arrow (.unary .deref (.var "it")) "month")
        (.binary .add (.arrow (.unary .deref (.var "xt")) "month") (.number "1")))
      (.binary .eq
        (.call (.supply (.dot (.arrow (.unary .deref (.var "it")) "state") "compare")
          (.string "NY")))
        (.number "0"))) := by
  decide

end Cpp
end MfQuery
