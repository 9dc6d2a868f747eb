import DiagramMarkup.Number.Decimal
import DiagramMarkup.Text.Quoted

/-!
# Expression errors

Why an expression could not be read or evaluated. A `Cause` says what happened, `Cause.kind` sorts the
causes into ten kinds, and an `Error` adds the text of the expression.
-/

namespace DiagramMarkup.Expr

open Number (generalText)
open Text (quote quoteSingle leadByte)

/-- The kinds of failure. -/
inductive ErrorKind where
  | tokenize
  | parse
  | arity
  | domain
  | type
  | index
  | emptyList
  | recursion
  | unknownFunction
  | unknownVariable
deriving Repr, DecidableEq

/-- The name of a kind. -/
def ErrorKind.name : ErrorKind → String
  | .tokenize => "tokenize error"
  | .parse => "parse error"
  | .arity => "wrong number of arguments"
  | .domain => "domain error"
  | .type => "type mismatch"
  | .index => "index out of range"
  | .emptyList => "empty list"
  | .recursion => "recursion limit exceeded"
  | .unknownFunction => "unknown function"
  | .unknownVariable => "unknown variable"

/-- What went wrong. -/
inductive Cause where
  -- reading
  | unexpectedChar (c : Char) (offset : Nat)
  | malformedNumber (text : String)
  | openVariable (offset : Nat)
  | emptyVariable (offset : Nat)
  | missingVariable (offset : Nat)
  | openString (offset : Nat)
  -- parsing
  | emptyExpression
  | unexpected (text : String)
  | bareSymbol (name : String)
  | openParen
  | openCall (name : String)
  | openTemplate
  -- calls
  | arity (name : String) (min : Nat) (max : Option Nat) (got : Nat)
  | oddVector (got : Nat)
  -- arithmetic
  | divisionByZero
  | moduloByZero
  | divmodByZero
  | sqrtNegative (x : Float)
  | logDomain (x : Float)
  | asinDomain (x : Float)
  | acosDomain (x : Float)
  | powInfinite (a b : Float)
  | clampEmpty (lo hi : Float)
  | randintEmpty (lo hi : Float)
  | randintLarge (lo hi : Float)
  | negativeSigma (x : Float)
  | rangeStep
  | rangeLength (n : Float) (limit : Nat)
  | emptySeparator
  -- types
  | notNumber (text : String)
  | notComparable (left right : String)
  | lengthMismatch (left right : Nat)
  | indexNotNumber (text : String)
  -- lists
  | noIndex
  | indexRange (index : Float) (size : Nat)
  | headEmpty
  | tailEmpty
  | reduceEmpty
  -- names
  | tooDeep (name : String) (limit : Int)
  | unknownFunction (name : String)
  | unknownVariable (name : String)
deriving Repr

namespace Cause

/-- The kind of a cause. -/
def kind : Cause → ErrorKind
  | unexpectedChar .. | malformedNumber .. | openVariable .. | emptyVariable ..
  | missingVariable .. | openString .. => .tokenize
  | emptyExpression | unexpected .. | bareSymbol .. | openParen | openCall .. | openTemplate =>
    .parse
  | arity .. | oddVector .. => .arity
  | divisionByZero | moduloByZero | divmodByZero | sqrtNegative .. | logDomain .. | asinDomain ..
  | acosDomain .. | powInfinite .. | clampEmpty .. | randintEmpty .. | randintLarge ..
  | negativeSigma .. | rangeStep | rangeLength .. | emptySeparator => .domain
  | notNumber .. | notComparable .. | lengthMismatch .. | indexNotNumber .. => .type
  | noIndex | indexRange .. => .index
  | headEmpty | tailEmpty | reduceEmpty => .emptyList
  | tooDeep .. => .recursion
  | unknownFunction .. => .unknownFunction
  | unknownVariable .. => .unknownVariable

/-- The wording of a cause. -/
def message : Cause → String
  | unexpectedChar c offset =>
    "unexpected character " ++ quoteSingle (leadByte c) ++ s!" at offset {offset}"
  | malformedNumber text => "malformed number " ++ quote text
  | openVariable offset => s!"unterminated variable reference at offset {offset}"
  | emptyVariable offset => s!"empty variable name at offset {offset}"
  | missingVariable offset => s!"missing variable name at offset {offset}"
  | openString offset => s!"unterminated string starting at offset {offset}"
  | emptyExpression => "empty expression"
  | unexpected text => "unexpected " ++ text
  | bareSymbol name => "bare symbol " ++ quote name
  | openParen => "missing closing parenthesis"
  | openCall name => "missing closing parenthesis in call to " ++ name
  | openTemplate => "unterminated \x7b\x7b"
  | arity name min none got => name ++ s!"() takes at least {min} argument(s), got {got}"
  | arity name min (some max) got =>
    if min == max then name ++ s!"() takes {min} argument(s), got {got}"
    else name ++ s!"() takes {min} to {max} arguments, got {got}"
  | oddVector got => s!"vector operation needs two equal-length halves, got {got} items"
  | divisionByZero => "division by zero"
  | moduloByZero => "modulo by zero"
  | divmodByZero => "divmod by zero"
  | sqrtNegative x => "sqrt of negative number " ++ generalText x
  | logDomain x => "log of non-positive number " ++ generalText x
  | asinDomain x => "asin argument " ++ generalText x ++ " outside [-1, 1]"
  | acosDomain x => "acos argument " ++ generalText x ++ " outside [-1, 1]"
  | powInfinite a b => "pow(" ++ generalText a ++ ", " ++ generalText b ++ ") is not finite"
  | clampEmpty lo hi => "clamp range " ++ generalText lo ++ ".." ++ generalText hi ++ " is empty"
  | randintEmpty lo hi =>
    "randint range " ++ generalText lo ++ ".." ++ generalText hi ++ " is empty"
  | randintLarge lo hi =>
    "randint range " ++ generalText lo ++ ".." ++ generalText hi ++ " too large"
  | negativeSigma x => "negative sigma " ++ generalText x
  | rangeStep => "range step must not be zero"
  | rangeLength n limit => "range of " ++ generalText n ++ s!" items exceeds {limit}"
  | emptySeparator => "split separator must not be empty"
  | notNumber text => quote text ++ " is not a number"
  | notComparable left right => "cannot compare " ++ left ++ " with " ++ right
  | lengthMismatch left right => s!"list length mismatch ({left} vs {right})"
  | indexNotNumber text => "select index " ++ quote text ++ " is not a number"
  | noIndex => "select needs an index and a list"
  | indexRange index size => "index " ++ generalText index ++ s!" not in list of {size} items"
  | headEmpty => "head of empty list"
  | tailEmpty => "tail of empty list"
  | reduceEmpty => "reduction over empty list"
  | tooDeep name limit => "$" ++ name ++ s!" nested deeper than {limit}"
  | unknownFunction name => name ++ "()"
  | unknownVariable name => "$" ++ name ++ " is not defined"

end Cause

/-- A cause together with the expression that was being evaluated. -/
structure Error where
  cause : Cause
  source : String := ""
deriving Repr

/-- The kind of an error. -/
def Error.kind (e : Error) : ErrorKind := e.cause.kind

/-- The text of an error; an empty expression is not mentioned. -/
def Error.message (e : Error) : String :=
  if e.source == "" then e.kind.name ++ ": " ++ e.cause.message
  else e.kind.name ++ " in " ++ quote e.source ++ ": " ++ e.cause.message

end DiagramMarkup.Expr
