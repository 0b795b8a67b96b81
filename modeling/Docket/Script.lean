import Docket.ExceptionClass
import Docket.Number.Numeral
import Docket.Scalar
import Docket.Text.Coding

/-!
# Scripts

A block body is a script: a list of statements, run in order on the block that
is being recorded. A statement assigns a field in one of several forms, looks at
the fields recorded so far, fails, or runs another statement on a block further
out. The values in a statement are expressions, built anew each time the
statement runs; an expression may hold bodies, which are built but not run, and
may read back what a block has recorded.

Scripts are data. What they do is said by `Docket.Recorder`.

## Main definitions

* `Expr`, `NodeExpr`: How values and hand-made tree nodes are written.
* `Stmt`, `Body`: Statements and bodies.
* `ErrorSpec`: An error to be raised or handed on.
-/

namespace Docket

/-- An error by its class, its message if it has one, and its cause. -/
inductive ErrorSpec where
  | mk (cls : ExceptionClass) (message : Option String) (cause : Option ErrorSpec)
deriving Inhabited

/-- How a body goes by in messages: by a name, or, lacking one, by the text
    that shows it. -/
inductive BodyLabel where
  | named (name : String)
  | shown (text : String)
deriving DecidableEq, Inhabited

/-- Collections other than mappings, by their type. -/
inductive ItemsKind where
  | list
  | tuple
  | set
  | frozenset
  | deque
deriving DecidableEq, Inhabited

/-- Mappings by their type. All but `pairs` hold a key once; `callable` can be
    called as a body but counts as a mapping. A `readOnly` mapping shows one that
    may change, a `frozen` one never changes and only comes out of payloads. -/
inductive MappingKind where
  | plain
  | ordered
  | readOnly
  | frozen
  | pairs
  | callable
deriving DecidableEq, Inhabited

/-- Strings of bytes by their type. -/
inductive BinaryKind where
  | fixed
  | growing
  | view
deriving DecidableEq, Inhabited

/-- Values without parts that have no place in a document. The last six only
    come out of payloads: `unknown` is a value of some other type, and
    `reference` stands for a collection, by its number, while a payload is read
    whose parts refer to each other. -/
inductive Alien where
  | object
  | complex (real imaginary : Binary64)
  | decimal (x : Numeral)
  | fraction (numerator : Int) (denominator : Nat)
  | enumMember
  | duration (d : Duration)
  | cls (name : String)
  | binary (kind : BinaryKind) (bytes : Bytes)
  | undefined
  | simple (n : Nat)
  | ext (code : Int) (bytes : Bytes)
  | timestamp (seconds : Int) (nanoseconds : Nat)
  | unknown (typeName : String)
  | reference (number : Nat)
deriving DecidableEq, Inhabited

/-- A ratio in lowest terms, its denominator positive. -/
def Alien.ofRatio? (n d : Int) : Option Alien :=
  let g := n.natAbs.gcd d.natAbs
  if d = 0 then none else some (fraction (n / g * d.sign) (d.natAbs / g))

mutual

/-- How a value is written. -/
inductive Expr where
  | scalar (s : Scalar)
  | alien (a : Alien)
  | range (start stop step : Int)
  | encodings
  | items (kind : ItemsKind) (xs : List Expr)
  | mapping (kind : MappingKind) (entries : List (Expr × Expr))
  | generator (xs : List Expr) (ending : Option ErrorSpec)
  | body (b : Body)
  | bodyItems (b : Body) (xs : List Expr)
  | error (e : ErrorSpec)
  | node (n : NodeExpr)
  | counter (name : String)
  | read (name : String) (up : Nat)
  | ref (path : List String) (up : Nat)
  | self (up : Nat)

/-- How a tree node is written by hand. `ofFields` classifies its values; `raw`
    puts a value where a node belongs. -/
inductive NodeExpr where
  | scalar (v : Expr) (kind : ScalarKind)
  | seq (items : List NodeExpr)
  | mapping (entries : List (String × NodeExpr))
  | nested (b : Body)
  | ofFields (fields : List (String × Expr))
  | raw (v : Expr)

/-- One step of a body. -/
inductive Stmt where
  | set (path : List String) (v : Expr)
  | call (path : List String) (args : List Expr) (keywords : List (String × Expr))
  | chain (calls : List (List String × List Expr × List (String × Expr)))
  | item (key v : Expr)
  | named (name : Expr) (args : List Expr) (keywords : List (String × Expr))
  | get (key : Expr)
  | contains (key : Expr)
  | count
  | show
  | showRef (path : List String)
  | trace (v : Expr)
  | raise (e : ErrorSpec)
  | attempt (s : Stmt)
  | up (levels : Nat) (s : Stmt)
  | keep (key : String)
  | on (key : String) (s : Stmt)

/-- A block body. -/
inductive Body where
  | mk (label : BodyLabel) (stmts : List Stmt)

end

instance : Inhabited Expr := ⟨.scalar .null⟩

instance : Inhabited Stmt := ⟨.count⟩

instance : Inhabited Body := ⟨.mk (.named "body") []⟩

namespace Body

def label : Body → BodyLabel
  | .mk label _ => label

def stmts : Body → List Stmt
  | .mk _ stmts => stmts

/-- What messages call a body. -/
def display (b : Body) : String :=
  match b.label with
  | .named name => name
  | .shown text => text

end Body

end Docket
