import DiagramMarkup.Css.Token

/-!
# Structure of a style sheet

The tokens of a style sheet as a sequence of parts: rule sets with their declarations, at-rules and their blocks.
Blanks survive only where they separate values or selectors. A malformed part is reported in its place and the
sequence goes on behind it; blocks that are open at the end are closed.

This stands for the parser of the `parse` package. It documents one part for the start and the end of every rule set and
at-rule with a block, and one for every declaration, property with two hyphens and at-rule without a block. Comments,
and the tokens of at-rules that are not known, come one by one. A part has a name or a text, and values, which are tokens
with single blanks between them. Here, too, the rules are those of the CSS Syntax Module Level 3:

1. A rule set reaches from its selector to the brace that closes its block, and an at-rule to a semicolon or a block.
2. A declaration is a name, a colon and values up to a semicolon or the end of the block. Brackets in values are closed
   in pairs, and what stands within them ends nothing.
3. Names of declarations and at-rules are given in lower case.
4. A malformed declaration is skipped up to the next semicolon or the end of the block.
-/

namespace DiagramMarkup.Css

/-- A part of a style sheet. -/
inductive Part where
  /-- Something malformed. -/
  | fault
  /-- The end of the input. -/
  | finished
  | beginAt (name : String) (values : List Token)
  | atRule (name : String) (values : List Token)
  | endAt
  | beginRules (selector : List Token)
  | endRules
  | declaration (name : String) (values : List Token)
  /-- A property of the author's own, with its value as written. -/
  | custom (name : String) (value : String)
  /-- A comment, or a token without a role. -/
  | other
deriving Repr

/-- What the tokens are read as. -/
inductive Mode where
  | sheet
  /-- The block of an at-rule with rules. -/
  | atRules
  /-- The block of an at-rule with declarations. -/
  | atDeclarations
  /-- The block of an at-rule that is not known. -/
  | atUnknown
  /-- The block of a rule set. -/
  | rules
deriving Repr, DecidableEq

/-- Where the reading stands. -/
structure Cursor where
  rest : List Token
  /-- Open blocks, innermost first; the sheet itself is not among them. -/
  blocks : List Mode := []
  /-- Open brackets in the current part. -/
  level : Int := 0
  /-- A closing brace that ended a part and still has to end its block. -/
  closing : Bool := false
  /-- Whether blanks are tokens of their own. -/
  keepBlanks : Bool := false

namespace Cursor

/-- The current mode. -/
def mode (cur : Cursor) : Mode := cur.blocks.head?.getD .sheet

/-- Leave the innermost block. -/
def leave (cur : Cursor) : Cursor := { cur with blocks := cur.blocks.tail }

end Cursor

/-- The next token, and what was skipped before it. -/
structure Popped where
  token : Option Token
  afterBlank : Bool
  afterComment : Bool
  rest : List Token

/-- Skip blanks and comments. `stopAtComment` makes a comment a token. -/
def popFrom (keepBlanks stopAtComment : Bool) : (afterBlank afterComment : Bool) → List Token → Popped
  | b, c, [] => ⟨none, b, c, []⟩
  | b, c, t :: ts =>
    if t.kind == .blank && !keepBlanks then popFrom keepBlanks stopAtComment true c ts
    else if t.kind == .comment && !stopAtComment then popFrom keepBlanks stopAtComment b true ts
    else ⟨some t, b, c, ts⟩

/-- Does the token open brackets? -/
def opens (k : TokenKind) : Bool :=
  k == .leftParen || k == .leftBrace || k == .leftBracket || k == .function

/-- Does the token close brackets? -/
def closes (k : TokenKind) : Bool := k == .rightParen || k == .rightBrace || k == .rightBracket

/-- A blank between values. -/
def blankToken : Token := ⟨.blank, [' ']⟩

/-- Is the token the single character? -/
def Token.isMark (t : Token) (marks : List Char) : Bool :=
  match t.chars with
  | [c] => marks.contains c
  | _ => false

/-- How the reading of a list of tokens ended. -/
inductive Ending where
  | brace
  | semicolon
  | closeBrace
  | input
  /-- A closing bracket without an opening one. -/
  | stray (t : Token)

/-- Tokens read up to an ending. -/
structure Run where
  tokens : List Token
  ending : Ending
  level : Int
  rest : List Token

/-- Which endings a list of tokens has, and where blanks are kept. -/
structure Layout where
  /-- An opening brace ends the list. -/
  untilBrace : Bool
  /-- A semicolon or closing brace ends the list. -/
  untilSemicolon : Bool
  /-- Blanks around these marks are dropped. -/
  tight : List Char
  /-- Comments separate like blanks. -/
  commentsSeparate : Bool := false
  /-- Blanks inside square brackets are dropped. -/
  tightBrackets : Bool := false
  /-- Blanks inside parentheses, and before the first parenthesis, are dropped. -/
  tightParens : Bool := false

/-- The state of blanks while reading a list. -/
structure Spacing where
  skip : Bool
  first : Bool := true
  inBrackets : Bool := false

/-- Put a token behind what has been read, with a blank in between where one is kept. -/
def place (lay : Layout) (sp : Spacing) (p : Popped) (t : Token) : List Token × Spacing :=
  let blankBefore := p.afterBlank &&
    !(lay.tightParens && sp.first && (t.kind == .leftParen || t.kind == .leftBracket))
  let separated := blankBefore || (lay.commentsSeparate && p.afterComment)
  let dropped := (lay.tightBrackets && sp.inBrackets) || (lay.tightParens && t.kind == .rightParen)
  let (out, skip) :=
    if t.isMark lay.tight then ([t], true)
    else if separated && !sp.skip && !dropped then ([blankToken, t], sp.skip)
    else ([t], false)
  let inBrackets := if t.kind == .leftBracket then true
    else if t.kind == .rightBracket then false
    else sp.inBrackets
  (out, { skip := skip || (lay.tightParens && t.kind == .leftParen), first := false,
          inBrackets := inBrackets })

/-- Read tokens up to an ending; `p` is the next token. Each step takes a token off the input. -/
def runFrom (lay : Layout) (keepBlanks : Bool) : Nat → Spacing → (level : Int) → Popped → Run
  | 0, _, level, p => ⟨[], .input, level, p.rest⟩
  | fuel + 1, sp, level, p =>
    match p.token with
    | none => ⟨[], .input, level, p.rest⟩
    | some t =>
      if lay.untilBrace && t.kind == .leftBrace && level == 0 then ⟨[], .brace, level, p.rest⟩
      else if lay.untilSemicolon && t.kind == .semicolon && level == 0 then
        ⟨[], .semicolon, level, p.rest⟩
      else if lay.untilSemicolon && t.kind == .rightBrace && level == 0 then
        ⟨[], .closeBrace, level, p.rest⟩
      else if closes t.kind && level == 0 then ⟨[], .stray t, level, p.rest⟩
      else
        let level := if opens t.kind then level + 1 else if closes t.kind then level - 1 else level
        let (out, sp) := place lay sp p t
        let r := runFrom lay keepBlanks fuel sp level (popFrom keepBlanks false false false p.rest)
        { r with tokens := out ++ r.tokens }

/-- How the head of an at-rule is read. -/
def atRuleLayout : Layout :=
  { untilBrace := true, untilSemicolon := true, tight := [',', ':'], tightParens := true }

/-- How a selector is read. -/
def selectorLayout : Layout :=
  { untilBrace := true, untilSemicolon := false, tight := [',', '>', '+', '~'], tightBrackets := true }

/-- How the value of a declaration is read. -/
def valueLayout : Layout :=
  { untilBrace := false, untilSemicolon := true, tight := [',', '/', ':', '!', '='],
    commentsSeparate := true }

/-- Skip a malformed declaration from the token `t` on. -/
def skipFault (keepBlanks : Bool) : Nat → (level : Int) → Option Token → List Token →
    Ending × Int × List Token
  | 0, level, _, rest => (.input, level, rest)
  | _, level, none, rest => (.input, level, rest)
  | fuel + 1, level, some t, rest =>
    if t.kind == .semicolon && level == 0 then (.semicolon, level, rest)
    else if t.kind == .rightBrace && level == 0 then (.closeBrace, level, rest)
    else if closes t.kind && level == 0 then (.stray t, level, rest)
    else
      let level := if opens t.kind then level + 1 else if closes t.kind then level - 1 else level
      let p := popFrom keepBlanks false false false rest
      skipFault keepBlanks fuel level p.token p.rest

/-- Go on behind a malformed declaration. -/
def faultAt (cur : Cursor) (t : Option Token) (rest : List Token) : Part × Cursor :=
  let (ending, level, rest) := skipFault cur.keepBlanks (rest.length + 1) cur.level t rest
  let cur := { cur with rest := rest, level := level }
  match ending with
  | .closeBrace => (.fault, { cur with closing := true })
  | .stray _ => (.fault, cur.leave)
  | _ => (.fault, cur)

/-- A declaration, behind its name. -/
def declarationPart (cur : Cursor) (name : List Char) : Part × Cursor :=
  let p := popFrom cur.keepBlanks false false false cur.rest
  if (p.token.map (·.kind)) != some .colon then faultAt cur p.token p.rest
  else
    let r := runFrom valueLayout cur.keepBlanks (p.rest.length + 1) { skip := true } cur.level
      (popFrom cur.keepBlanks false false false p.rest)
    let cur := { cur with rest := r.rest, level := r.level }
    let name := String.ofList (name.map Number.lowerAscii)
    match r.ending with
    | .stray t => faultAt cur (some t) cur.rest
    | .closeBrace => (.declaration name r.tokens, { cur with closing := true })
    | _ => (.declaration name r.tokens, cur)

/-- The value of an author's own property, as written, up to its ending. -/
def customRun : (level : Int) → List Token → Run
  | level, [] => ⟨[], .input, level, []⟩
  | level, t :: ts =>
    if t.kind == .semicolon && level == 0 then ⟨[], .semicolon, level, ts⟩
    else if t.kind == .rightBrace && level == 0 then ⟨[], .closeBrace, level, ts⟩
    else if closes t.kind && level == 0 then ⟨[], .stray t, level, ts⟩
    else
      let level := if opens t.kind then level + 1 else if closes t.kind then level - 1 else level
      let r := customRun level ts
      { r with tokens := t :: r.tokens }

/-- An author's own property, behind its name. -/
def customPart (cur : Cursor) (name : Token) : Part × Cursor :=
  let p := popFrom cur.keepBlanks false false false cur.rest
  if (p.token.map (·.kind)) != some .colon then (.fault, { cur with rest := p.rest })
  else
    let r := customRun cur.level p.rest
    let cur := { cur with rest := r.rest, level := r.level }
    let value := String.join (r.tokens.map Token.text)
    match r.ending with
    | .stray _ => (.fault, cur.leave)
    | .closeBrace => (.custom name.text value, { cur with closing := true })
    | _ => (.custom name.text value, cur)

/-- The name of an at-rule without the prefix of a vendor. -/
def plainAtName (name : List Char) : List Char :=
  match name with
  | '@' :: '-' :: rest =>
    match rest.dropWhile (· != '-') with
    | '-' :: plain => plain
    | _ => name.drop 1
  | _ => name.drop 1

/-- What the block of an at-rule holds. -/
def blockMode (plain : String) : Mode :=
  match plain with
  | "font-face" | "page" => .atDeclarations
  | "document" | "keyframes" | "media" | "supports" => .atRules
  | _ => .atUnknown

/-- An at-rule, behind its keyword. -/
def atRulePart (cur : Cursor) (keyword : Token) : Part × Cursor :=
  let chars := keyword.chars.map Number.lowerAscii
  let name := String.ofList chars
  let r := runFrom atRuleLayout cur.keepBlanks (cur.rest.length + 1) { skip := false } cur.level
    (popFrom cur.keepBlanks false false false cur.rest)
  let cur := { cur with rest := r.rest, level := r.level }
  match r.ending with
  | .brace =>
    (.beginAt name r.tokens,
      { cur with blocks := blockMode (String.ofList (plainAtName chars)) :: cur.blocks })
  | .stray _ => (.fault, cur.leave)
  | .closeBrace => (.atRule name r.tokens, { cur with closing := true })
  | _ => (.atRule name r.tokens, cur)

/-- A rule set up to its block; `p` is its first token. -/
def rulesPart (cur : Cursor) (p : Popped) : Part × Cursor :=
  let r := runFrom selectorLayout cur.keepBlanks (cur.rest.length + 2) { skip := true } cur.level p
  let cur := { cur with rest := r.rest, level := r.level }
  match r.ending with
  | .brace => (.beginRules r.tokens, { cur with blocks := .rules :: cur.blocks })
  | .stray _ => (.fault, cur.leave)
  | _ => (.fault, cur)

/-- Skip semicolons. -/
def skipSemicolons (keepBlanks : Bool) : Nat → Option Token → List Token → Option Token × List Token
  | 0, t, rest => (t, rest)
  | fuel + 1, t, rest =>
    if (t.map (·.kind)) == some .semicolon then
      let p := popFrom keepBlanks false false false rest
      skipSemicolons keepBlanks fuel p.token p.rest
    else (t, rest)

/-- A declaration in a block; `t` is its first token. A star may stand before the name. -/
def blockPart (cur : Cursor) (t : Option Token) : Part × Cursor :=
  let starred := match t with
    | some s => s.kind == TokenKind.delim && s.isMark ['*']
    | none => false
  let (t, cur) : Option Token × Cursor :=
    if starred then
      let p := popFrom cur.keepBlanks false false false cur.rest
      (p.token.map fun u => { u with chars := '*' :: u.chars }, { cur with rest := p.rest })
    else (t, cur)
  match t with
  | none => (.finished, cur)
  | some t =>
    match t.kind with
    | .atKeyword => atRulePart cur t
    | .ident | .delim => declarationPart cur t.chars
    | .customName => customPart cur t
    | .rightBrace => (.fault, cur)
    | _ => faultAt cur (some t) cur.rest

/-- The next part. -/
def next (cur : Cursor) : Part × Cursor :=
  let p : Popped := if cur.closing then ⟨some ⟨.rightBrace, ['}']⟩, false, false, cur.rest⟩
    else popFrom cur.keepBlanks cur.blocks.isEmpty false false cur.rest
  let cur := { cur with rest := p.rest, closing := false }
  let kind := p.token.map (·.kind)
  match cur.mode with
  | .sheet =>
    match p.token, kind with
    | none, _ => (.finished, cur)
    | some t, some .atKeyword => atRulePart cur t
    | _, some .cdo | _, some .cdc | _, some .comment => (.other, cur)
    | _, _ => rulesPart cur p
  | .atRules =>
    match p.token, kind with
    | none, _ | _, some .rightBrace => (.endAt, cur.leave)
    | some t, some .atKeyword => atRulePart cur t
    | _, _ => rulesPart cur p
  | .atUnknown =>
    if p.token.isNone || (kind == some .rightBrace && cur.level == 0) then
      (.endAt, { cur.leave with keepBlanks := false })
    else
      let level := match kind with
        | some k => if opens k then cur.level + 1 else if closes k then cur.level - 1 else cur.level
        | none => cur.level
      (.other, { cur with level := level, keepBlanks := true })
  | .atDeclarations | .rules =>
    let (t, rest) := skipSemicolons cur.keepBlanks (cur.rest.length + 1) p.token p.rest
    let cur : Cursor := { cur with rest := rest }
    let ended := (t.map fun t => t.kind == TokenKind.rightBrace).getD true
    if ended then (if cur.mode == .rules then .endRules else .endAt, cur.leave)
    else blockPart cur t

/-- All parts, up to the end of the input. -/
def partsFrom : Nat → Cursor → List Part
  | 0, _ => [.finished]
  | fuel + 1, cur =>
    match next cur with
    | (.finished, _) => [.finished]
    | (part, cur) => part :: partsFrom fuel cur

/-- The parts of a style sheet. -/
def parts (s : String) : List Part :=
  let ts := tokenize s
  partsFrom (4 * ts.length + 4) { rest := ts }

end DiagramMarkup.Css
