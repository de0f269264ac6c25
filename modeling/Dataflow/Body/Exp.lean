import Dataflow.Body.MethodRef
import Dataflow.Decimal.Double
import Dataflow.Text.Quoted

namespace Dataflow

inductive ArithOp where
  | add
  | sub
  | mul
  | div
  | rem
  deriving DecidableEq

inductive BitOp where
  | or
  | and
  | xor
  deriving DecidableEq

inductive CondOp where
  | eq
  | ne
  | lt
  | gt
  | le
  | ge
  deriving DecidableEq

inductive ShiftOp where
  | shl
  | shr
  | ushr
  deriving DecidableEq

inductive BinaryOp where
  | arith (op : ArithOp)
  | bit (op : BitOp)
  | cond (op : CondOp)
  | shift (op : ShiftOp)
  deriving DecidableEq

namespace BinaryOp

def all : List BinaryOp :=
  [arith .add, arith .sub, arith .mul, arith .div, arith .rem, bit .or, bit .and, bit .xor,
    cond .eq, cond .ne, cond .lt, cond .gt, cond .le, cond .ge, shift .shl, shift .shr, shift .ushr]

def symbol : BinaryOp → String
  | arith .add => "+"
  | arith .sub => "-"
  | arith .mul => "*"
  | arith .div => "/"
  | arith .rem => "%"
  | bit .or => "|"
  | bit .and => "&"
  | bit .xor => "^"
  | cond .eq => "=="
  | cond .ne => "!="
  | cond .lt => "<"
  | cond .gt => ">"
  | cond .le => "<="
  | cond .ge => ">="
  | shift .shl => "<<"
  | shift .shr => ">>"
  | shift .ushr => ">>>"

def ofSymbol? (s : String) : Option BinaryOp := all.find? (fun op => op.symbol = s)

def label : BinaryOp → String
  | arith .add => "ArithmeticOp.ADD"
  | arith .sub => "ArithmeticOp.SUB"
  | arith .mul => "ArithmeticOp.MUL"
  | arith .div => "ArithmeticOp.DIV"
  | arith .rem => "ArithmeticOp.REM"
  | bit .or => "BitwiseOp.OR"
  | bit .and => "BitwiseOp.AND"
  | bit .xor => "BitwiseOp.XOR"
  | cond .eq => "ConditionOp.EQ"
  | cond .ne => "ConditionOp.NE"
  | cond .lt => "ConditionOp.LT"
  | cond .gt => "ConditionOp.GT"
  | cond .le => "ConditionOp.LE"
  | cond .ge => "ConditionOp.GE"
  | shift .shl => "ShiftOp.SHL"
  | shift .shr => "ShiftOp.SHR"
  | shift .ushr => "ShiftOp.USHR"

end BinaryOp

/-- The forms a binary expression can be written in: one for each kind of operator, and one that
takes them all. -/
inductive BinaryForm where
  | arithmetic
  | bitwise
  | condition
  | shift
  | anyOperator
  deriving DecidableEq

namespace BinaryForm

def all : List BinaryForm := [arithmetic, bitwise, condition, shift, anyOperator]

def name : BinaryForm → String
  | arithmetic => "ArithmeticExp"
  | bitwise => "BitwiseExp"
  | condition => "ConditionExp"
  | shift => "ShiftExp"
  | anyOperator => "BinaryExp"

def ofName? (s : String) : Option BinaryForm := all.find? (fun f => f.name = s)

def accepts : BinaryForm → BinaryOp → Bool
  | arithmetic, .arith _ => true
  | bitwise, .bit _ => true
  | condition, .cond _ => true
  | shift, .shift _ => true
  | anyOperator, _ => true
  | _, _ => false

end BinaryForm

inductive CallKind where
  | static
  | special
  | virtual
  | interface
  deriving DecidableEq

namespace CallKind

def all : List CallKind := [static, special, virtual, interface]

def name : CallKind → String
  | static => "static"
  | special => "special"
  | virtual => "virtual"
  | interface => "interface"

def ofName? (s : String) : Option CallKind := all.find? (fun k => k.name = s)

end CallKind

/-- A call of a method, on a receiver unless it is static. -/
structure Call where
  kind : CallKind
  method : MethodRef
  args : List Var
  receiver : Option Var
  deriving DecidableEq

namespace Call

def uses (c : Call) : List Var := c.receiver.toList ++ c.args

def text (c : Call) : String :=
  "invoke" ++ c.kind.name ++ " " ++ (c.receiver.elim "" (fun x => x.name ++ ".")) ++
    c.method.text ++ "(" ++ ", ".intercalate (c.args.map Var.name) ++ ")"

end Call

/-- The right sides of assignments and the conditions of branches. The operands of a binary expression
are variables. -/
inductive Exp where
  | int (n : Int)
  | long (n : Int)
  | double (x : Double)
  | str (s : String)
  | null
  | var (x : Var)
  | binary (op : BinaryOp) (left right : Var)
  /-- An operator in the form that takes any operator. -/
  | unclassed (op : BinaryOp) (left right : Var)
  | neg (x : Var)
  | new (type : Ty) (length : Option Var)
  | cast (x : Var) (type : Ty)
  | instanceField (base : Var) (field : String) (type : Ty)
  | staticField (className field : String) (type : Ty)
  | element (base index : Var)
  | call (c : Call)
  deriving DecidableEq

structure OperatorMismatch where
  form : BinaryForm
  op : BinaryOp
  deriving DecidableEq

def OperatorMismatch.message (e : OperatorMismatch) : String :=
  e.form.name ++ " does not accept operator <" ++ e.op.label ++ ": " ++ Text.quoted e.op.symbol ++ ">"

namespace Exp

def ofForm (form : BinaryForm) (op : BinaryOp) (left right : Var) : Except OperatorMismatch Exp :=
  if form.accepts op then
    .ok (if form = .anyOperator then unclassed op left right else binary op left right)
  else .error ⟨form, op⟩

def uses : Exp → List Var
  | var x => [x]
  | binary _ l r => [l, r]
  | unclassed _ l r => [l, r]
  | neg x => [x]
  | new _ length => length.toList
  | cast x _ => [x]
  | instanceField base _ _ => [base]
  | element base index => [base, index]
  | call c => c.uses
  | int _ | long _ | double _ | str _ | null | staticField _ _ _ => []

/-- Whether evaluating the expression is taken to neither fail nor touch the heap. Only allocations,
casts, reads of fields and elements, and divisions in arithmetic form are taken to do so. -/
def isPure : Exp → Bool
  | new _ _ | cast _ _ | instanceField _ _ _ | staticField _ _ _ | element _ _ => false
  | binary (.arith .div) _ _ | binary (.arith .rem) _ _ => false
  | _ => true

def text : Exp → String
  | int n => toString n
  | long n => toString n ++ "L"
  | double x => x.text
  | str s => "\"" ++ s ++ "\""
  | null => "null"
  | var x => x.name
  | binary op l r => l.name ++ " " ++ op.symbol ++ " " ++ r.name
  | unclassed op l r => l.name ++ " " ++ op.symbol ++ " " ++ r.name
  | neg x => "-" ++ x.name
  | new type none => "new " ++ type.text
  | new type (some n) => "new " ++ type.text ++ "[" ++ n.name ++ "]"
  | cast x type => "(" ++ type.text ++ ") " ++ x.name
  | instanceField base field _ => base.name ++ "." ++ field
  | staticField className field _ => className ++ "." ++ field
  | element base index => base.name ++ "[" ++ index.name ++ "]"
  | call c => c.text

end Exp

end Dataflow
