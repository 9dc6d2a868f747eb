import DiagramMarkup.Element.Node
import DiagramMarkup.Expr.Error
import DiagramMarkup.Fault

/-!
# Document errors

Why a document cannot be compiled, with enough of the markup to point at the offending place. A *deferral*
is not an error yet: the element waits for something that later passes may settle. `Failure` joins the two,
since a step of the compilation may end in either.
-/

namespace DiagramMarkup

/-- What lies behind a document error. -/
inductive Cause where
  | fault (f : Fault)
  | expr (e : Expr.Error)
  | tags (t : TagFault)
deriving Repr

/-- The wording of a cause. -/
def Cause.message : Cause → String
  | .fault f => f.message
  | .expr e => e.message
  | .tags t => t.message

/-- The kinds of document errors. A limit error knows the value and the ceiling it passed. -/
inductive ErrorKind where
  | parse
  | reference
  | limit (value ceiling : Int)
  | evaluation
  | document
  | io
deriving Repr, DecidableEq

/-- The name of a kind. -/
def ErrorKind.name : ErrorKind → String
  | .parse => "parse error"
  | .reference => "reference error"
  | .limit .. => "limit exceeded"
  | .evaluation => "evaluation error"
  | .document => "document error"
  | .io => "i/o error"

/-- An error with its place: the description of the element, and the attribute or what else is meant. -/
structure DocError where
  kind : ErrorKind
  element : String := ""
  attr : String := ""
  cause : Option Cause := none
deriving Repr

/-- The wording of an error. -/
def DocError.message (e : DocError) : String :=
  e.kind.name ++
    (if e.element == "" then "" else " in " ++ e.element) ++
    (if e.attr == "" then "" else " (" ++ e.attr ++ ")") ++
    (match e.kind with
      | .limit value ceiling => s!": {value} exceeds limit {ceiling}"
      | _ => "") ++
    (match e.cause with
      | some c => ": " ++ c.message
      | none => "")

/-- The description of an element that may be missing. -/
def describe? (el : Option Element) : String := (el.map Element.describe).getD ""

/-- Why an element could not be resolved yet: it waits for a reference, or its content does. -/
inductive Deferral where
  | mk (element ref : String) (causes : List Deferral)
deriving Repr, Inhabited

namespace Deferral

/-- The waiting element. -/
def element : Deferral → String
  | .mk el _ _ => el

/-- The reference it waits for, empty when its content waits. -/
def ref : Deferral → String
  | .mk _ r _ => r

/-- What the content waits for. -/
def causes : Deferral → List Deferral
  | .mk _ _ cs => cs

mutual

/-- The innermost deferrals. -/
def leaves : Deferral → List Deferral
  | .mk el r [] => [.mk el r []]
  | .mk _ _ (c :: cs) => leaves c ++ leavesAll cs

/-- The innermost deferrals of several, from left to right. -/
def leavesAll : List Deferral → List Deferral
  | [] => []
  | d :: ds => leaves d ++ leavesAll ds

end

/-- The wording of a deferral. -/
def message (d : Deferral) : String :=
  if d.ref == "" then d.element ++ " has unresolved content"
  else d.element ++ " waits for " ++ d.ref

end Deferral

/-- How a step of the compilation ends when it has no result. -/
inductive Failure where
  | deferred (d : Deferral)
  | error (e : DocError)
  /-- The bound set on the recursion is used up. -/
  | exhausted
deriving Repr

namespace Failure

/-- Fail with an error of an element. -/
def raise (kind : ErrorKind) (el : Option Element) (attr : String) (cause : Cause) : Failure :=
  .error { kind := kind, element := describe? el, attr := attr, cause := some cause }

/-- Fail with a fault of an attribute. -/
def parse (el : Option Element) (attr : String) (f : Fault) : Failure :=
  raise .parse el attr (.fault f)

/-- Fail because a ceiling was passed. -/
def limit (el : Option Element) (what : String) (value ceiling : Int) : Failure :=
  .error { kind := .limit value ceiling, element := describe? el, attr := what }

/-- Wait for a reference. -/
def waits (el : Option Element) (ref : String) : Failure := .deferred (.mk (describe? el) ref [])

/-- Fail because of an expression: malformed ones are parse errors, the others evaluation errors. -/
def expr (el : Option Element) (attr : String) (e : Expr.Error) : Failure :=
  let kind := match e.kind with
    | .tokenize | .parse => ErrorKind.parse
    | _ => ErrorKind.evaluation
  raise kind el attr (.expr e)

end Failure

/-- Why a whole document has no output. -/
inductive CompileError where
  /-- The options cannot be used. -/
  | options (f : Fault)
  /-- The document has at least one error. -/
  | document (first : DocError) (rest : List DocError)
  /-- The document raised a limit and the recursion did not end within the bound set on it. -/
  | exhausted
deriving Repr

/-- The wording of a compilation error; several errors are joined by semicolons. -/
def CompileError.message : CompileError → String
  | .options f => f.message
  | .document first rest => "; ".intercalate ((first :: rest).map DocError.message)
  | .exhausted => "document is nested too deeply"

end DiagramMarkup
