/-
# UiFormat.Ets.Parser -- from ETS tokens to the document tree

Declarations are read token by token, down to decorators, names, heritage
clauses, members and parameters; everything else is read as source text.

Nothing is refused.  Problems are reported where they are found; a token at the
top level that starts no declaration is dropped and kept in the list of dropped
tokens, so the caller can tell that the tree does not cover the source.

The members of an interface are read for the tree only: whatever problems they
have are forgotten, and the body is read again as source text.
-/
import UiFormat.Text.Blank
import UiFormat.Ets.Reader
import UiFormat.Ets.Node
import UiFormat.Ets.ImportClause
import UiFormat.Ets.ComponentParser

namespace UiFormat.Ets

open UiFormat.Text
open UiFormat.Parse

set_option autoImplicit false

variable {m : Type → Type} [Monad m] [MonadState (State Kind Problem) m]

/-- The next token is `symbol`. -/
def atSymbol (symbol : String) : m Bool :=
  looking (isSymbol symbol)

/-- The next token is one of `symbols`. -/
def atSymbolOf (symbols : List String) : m Bool :=
  looking (isSymbolOf symbols)

/-- The next token is one of `words`. -/
def atWord (words : List String) : m Bool :=
  looking (isWordOf words)

/-- The token after the next one, blanks apart. -/
def following : m Tok := do
  let s ← get
  return nextSignificant s.closing s.rest.tail

/-- Reads `symbol` if it comes next, and tells whether it did. -/
def takeSymbol (symbol : String) : m Bool := do
  if ← atSymbol symbol then
    let _ ← advance
    return true
  return false

/-- The place of what was read from `start` on. -/
def spanFrom (start : Tok) : m Span := do
  let stop ← current
  return { start := start.start, stop := stop.start, line := start.line, column := start.column }

/-- The node with its place, the blank line before it and the comment after
it. -/
def surrounded (start : Tok) (newlines : Nat) (n : Node) : m Node := do
  let span ← spanFrom start
  let trailingComment ← trailingComment?
  return n.withAround { blankBefore := 2 ≤ newlines, trailingComment, span := some span }

/-- A comment as a node. -/
def commentNode (t : Tok) : Node :=
  .comment {} {
    text := trimEnd t.text
    isBlock := t.kind != .comment
    isDoc := t.kind == .docComment }

/-! ## Decorators, modifiers and types -/

/-- One decorator and the space after it. -/
def decoratorRound : m (Round Decorator) := do
  if ← looking (·.kind == .decorator) then
    let name ← advance
    let arguments ←
      if ← atSymbol "(" then some <$> readBalanced ['('] [')'] else pure none
    skipSpace
    return .next { name := name.text.drop 1, arguments }
  return .stop

/-- The decorators that come next. -/
def parseDecorators : m (List Decorator) :=
  collect decoratorRound

/-- Words that modify a member. -/
def memberModifiers : List String := [
  "public", "private", "protected", "static", "readonly", "async", "abstract",
  "declare", "override", "get", "set", "accessor"
]

/-- Words that modify a parameter. -/
def parameterModifiers : List String :=
  ["public", "private", "protected", "readonly", "override"]

/-- A token that a modifier can stand in front of. -/
def isModifiable (t : Tok) : Bool :=
  isNameToken t || t.kind == .string || isSymbol "[" t

/-- One modifier and the space after it: a word counts as a modifier only in
front of a name. -/
def modifierRound (allowed : List String) : m (Round Text) := do
  if (← atWord allowed) && isModifiable (← following) then
    let word ← advance
    skipSpace
    return .next word.text
  return .stop

/-- The modifiers that come next. -/
def parseModifiers (allowed : List String) : m (List Text) :=
  collect (modifierRound allowed)

/-- A name, or a report that it is missing. -/
def parseName (what : Text) : m (Option Text) := do
  skipSpace
  if ← looking isNameToken then
    let name ← advance
    return some name.text
  report (.expectedName what)
  return none

/-- Type parameters between angle brackets. -/
def parseTypeParams : m (Option Text) := do
  skipSpace
  if ← atSymbol "<" then some <$> readBalanced ['<'] ['>'] else return none

/-- Words that start a clause of a heritage. -/
def heritageWords : List Text :=
  ["implements".toList, "extends".toList]

/-- A comma and the type after it. -/
def typeListRound : m (Round Text) := do
  if ← takeSymbol "," then
    let next ← readType heritageWords
    return .next next
  return .stop

/-- Types separated by commas, empty ones left out. -/
def readTypeList : m (List Text) := do
  let first ← readType heritageWords
  let rest ← collect typeListRound
  return (first :: rest).filter (!·.isEmpty)

/-- One clause of a heritage: a later clause replaces an earlier one of its
kind. -/
def heritageRound (found : Option Text × List Text) :
    m (Option (Option Text × List Text)) := do
  skipSpace
  if ← atWord ["extends"] then
    let _ ← advance
    let parent ← readType ["implements".toList]
    return some (some parent, found.2)
  else if ← atWord ["implements"] then
    let _ ← advance
    let interfaces ← readTypeList
    return some (found.1, interfaces)
  else return none

/-- The parent and the interfaces of a struct or class. -/
def parseHeritage : m (Option Text × List Text) :=
  refine heritageRound (none, [])

/-- The type after a colon. -/
def parseReturnType : m (Option Text) := do
  let start ← remaining
  let _ ← skipTrivia
  if ← takeSymbol ":" then readType?
  else
    continueAt start
    return none

/-! ## Parameters -/

/-- A parameter, or a report that its name is missing. -/
def parseParameter : m (Option Parameter) := do
  let decorators ← parseDecorators
  let modifiers ← parseModifiers parameterModifiers
  let isRest ← takeSymbol "..."
  let name? ←
    if ← looking isNameToken then (some ·.text) <$> advance
    else if ← atSymbol "\x7b" then some <$> readBalanced ['{'] ['}']
    else if ← atSymbol "[" then some <$> readBalanced ['['] [']']
    else pure none
  match name? with
  | none =>
      report .expectedParameterName
      return none
  | some name =>
      skipSpace
      let isOptional ← takeSymbol "?"
      if isOptional then skipSpace
      let typeAnnotation ← if ← takeSymbol ":" then
          let annotation ← readType?
          skipSpace
          pure annotation
        else pure none
      let default ← if ← takeSymbol "=" then
          let value ← readExpression true
          pure (if value.isEmpty then none else some value)
        else pure none
      return some { name, decorators, modifiers, typeAnnotation, default, isOptional, isRest }

/-- Tokens up to the next comma or closing bracket outside brackets. -/
def delimiterCount (depth : Nat) : List Tok → Nat
  | [] => 0
  | t :: rest =>
      if isSymbolOf ["(", "[", "\x7b"] t then delimiterCount (depth + 1) rest + 1
      else if isSymbolOf [")", "]", "\x7d"] t then
        match depth with
        | 0 => 0
        | depth + 1 => delimiterCount depth rest + 1
      else if depth = 0 && isSymbol "," t then 0
      else delimiterCount depth rest + 1

/-- The next token is not yet among the last `stop` ones. -/
def isBefore (stop : Nat) : m Bool := do
  return stop < (← remaining).length

/-- Reads over what cannot be a parameter, inside a list after which `stop`
tokens are left; `start` tokens were left when the parameter started. -/
def skipToDelimiter (stop start : Nat) : m Unit := do
  let rest ← remaining
  let count := delimiterCount 0 (rest.take (rest.length - stop))
  continueAt (rest.drop count)
  if (← remaining).length = start then
    let _ ← advance

/-- The comma after a parameter.  Anything else but the closing parenthesis is
reported and read over. -/
def parameterEnd (stop start : Nat) : m Unit := do
  skipSpace
  if ← takeSymbol "," then return
  if !(← atSymbol ")") && (← isBefore stop) then
    report .expectedParameterEnd
    skipToDelimiter stop start

/-- One parameter of a list after which `stop` tokens are left. -/
def parameterRound (stop : Nat) : m (Round Parameter) := do
  if !(← isBefore stop) then return .stop
  skipSpace
  if (← atSymbol ")") || (← atEnd) then return .stop
  let start := (← remaining).length
  let parameter ← parseParameter
  parameterEnd stop start
  match parameter with
  | some p => return .next p
  | none => return .skip

/-- A parameter list between parentheses.  One that holds comments is kept as
source text. -/
def parseParameters : m ParameterList := do
  let start ← get
  let raw ← readBalanced ['('] [')']
  if !endsWith raw [')'] then reportAt start.current .unterminatedParameters
  let after ← remaining
  if (start.rest.take (start.rest.length - after.length)).any isCommentToken then
    return .source raw
  continueAt start.rest.tail
  let items ← collect (parameterRound after.length)
  continueAt after
  return .items items

/-! ## Members -/

/-- The component tree of a body, when all of it was understood. -/
def componentTree? (text : Text) : Option (List Component) :=
  match parseComponents text with
  | (components, true) => some components
  | (_, false) => none

/-- A body between braces; a signature without one may end in a semicolon or
comma. -/
def parseBody (isUi : Bool) : m (Option Body) := do
  let start ← remaining
  let _ ← skipTrivia
  if ← atSymbol "\x7b" then
    let source ← readBody "function".toList
    return some { source, components := if isUi then componentTree? source else none }
  continueAt start
  optionalTerminator
  return none

/-- The parameters, return type and body of something named already. -/
def parseCallable (c : Callable) : m Callable := do
  let parameters ← parseParameters
  let returnType ← parseReturnType
  let body ← parseBody (isBuilder c.decorators)
  return { c with parameters, returnType, body }

/-- The rest of a method after its name. -/
def parseMethodRest (name : Text) (decorators : List Decorator) (modifiers : List Text)
    (isOptional : Bool) : m Method := do
  let typeParams ← if ← atSymbol "<" then
      let typeParams ← readBalanced ['<'] ['>']
      skipSpace
      pure (some typeParams)
    else pure none
  let callable : Callable := { name, decorators, typeParams }
  if ← atSymbol "(" then
    let callable ← parseCallable callable
    return { callable, modifiers, isOptional }
  report (.expectedMethodParameters name)
  return { callable, modifiers, isOptional }

/-- The body of a `build` method, when exactly `build ( ) {` comes next. -/
def buildBody? : m (Option Body) := do
  let _ ← advance
  let _ ← skipTrivia
  if !(← takeSymbol "(") then return none
  let _ ← skipTrivia
  if !(← takeSymbol ")") then return none
  let _ ← skipTrivia
  if ← atSymbol "\x7b" then
    let source ← readBody "build".toList
    return some { source, components := componentTree? source }
  return none

/-- A `build` method; nothing is read when there is none. -/
def parseBuild? (decorators : List Decorator) : m (Option Node) := do
  if ← atWord ["build"] then
    let start ← remaining
    match ← buildBody? with
    | some body => return some (.build {} decorators body)
    | none =>
        continueAt start
        return none
  return none

/-- The name of a member: a word, a string, a number or a computed name. -/
def memberName? : m (Option Text) := do
  let t ← current
  if isNameToken t || t.kind == .string || t.kind == .number then
    let _ ← advance
    return some t.text
  else if isSymbol "[" t then some <$> readBalanced ['['] [']']
  else return none

/-- The rest of a property after its name. -/
def parsePropertyRest (p : Property) : m Property := do
  let typeAnnotation ← if ← takeSymbol ":" then readType? else pure none
  skipInlineSpace
  let initializer ← if ← takeSymbol "=" then
      let value ← readExpression true
      if value.isEmpty then report (.expectedInitializer p.name)
      pure (some value)
    else pure none
  optionalTerminator
  return { p with typeAnnotation, initializer }

/-- The rest of a member after its name. -/
def parseMemberRest (name : Text) (decorators : List Decorator) (modifiers : List Text) :
    m Node := do
  skipInlineSpace
  let isOptional ← takeSymbol "?"
  let isDefinite ← if isOptional then pure false else takeSymbol "!"
  skipInlineSpace
  if ← atSymbolOf ["(", "<"] then
    let m ← parseMethodRest name decorators modifiers isOptional
    return .method {} m
  let p ← parsePropertyRest { name, decorators, modifiers, isOptional, isDefinite }
  return .property {} p

/-- A member other than a `build` method. -/
def parseNamedMember (decorators : List Decorator) : m (Option Node) := do
  let modifiers ← parseModifiers memberModifiers
  match ← memberName? with
  | none =>
      if !(decorators.isEmpty && modifiers.isEmpty) then report .expectedMemberName
      return none
  | some name => some <$> parseMemberRest name decorators modifiers

/-- A member of a struct, class or interface. -/
def parseMember : m (Option Node) := do
  let decorators ← parseDecorators
  match ← parseBuild? decorators with
  | some n => return some n
  | none => parseNamedMember decorators

/-- The member that starts at `start`; a token that starts none is reported and
read over. -/
def memberAt (what : Text) (start : Tok) (newlines : Nat) : m (Round Node) := do
  let before := (← remaining).length
  match ← parseMember with
  | some n =>
      let n ← surrounded start newlines n
      return .next n
  | none =>
      if (← remaining).length = before then
        report (.unexpectedMember what)
        let _ ← advance
      return .skip

/-- One member, comment or separator of the body that `brace` opened. -/
def memberRound (what : Text) (brace : Tok) : m (Round Node) := do
  let newlines ← skipTrivia
  if ← atEnd then
    reportAt brace (.unterminatedBody what)
    return .stop
  if ← takeSymbol "\x7d" then return .stop
  let start ← current
  if isCommentToken start then
    let _ ← advance
    let n ← surrounded start newlines (commentNode start)
    return .next n
  else if isSymbolOf [";", ","] start then
    let _ ← advance
    return .skip
  else memberAt what start newlines

/-- The members of a body called `what`, its brace coming next. -/
def parseClassBody (what : Text) : m (List Node) := do
  skipSpace
  if ← atSymbol "\x7b" then
    let brace ← advance
    let members ← collect (memberRound what brace)
    return openSequence members
  report (.expectedBody what)
  return []

/-! ## Declarations -/

/-- The head of a struct or class, whose keyword comes next. -/
def parseTypeHead (what : Text) (decorators : List Decorator) : m (Option TypeHead) := do
  let _ ← advance
  match ← parseName what with
  | none => return none
  | some name =>
      let typeParams ← parseTypeParams
      let (parent, interfaces) ← parseHeritage
      return some { name, decorators, typeParams, parent, interfaces }

/-- A struct. -/
def parseStruct (decorators : List Decorator) : m (Option Node) := do
  match ← parseTypeHead "struct".toList decorators with
  | none => return none
  | some head =>
      let members ← parseClassBody "struct".toList
      return some (.structDecl {} head members)

/-- A class. -/
def parseClass (decorators : List Decorator) (isAbstract : Bool) : m (Option Node) := do
  match ← parseTypeHead "class".toList decorators with
  | none => return none
  | some head =>
      let members ← parseClassBody "class".toList
      return some (.classDecl {} head isAbstract members)

/-- Runs a parser and forgets everything but its result. -/
def tentatively {α : Type} (p : m α) : m α := do
  let s ← get
  let result ← p
  MonadState.set s
  return result

/-- An interface. -/
def parseInterface : m (Option Node) := do
  let _ ← advance
  match ← parseName "interface".toList with
  | none => return none
  | some name =>
      let typeParams ← parseTypeParams
      skipSpace
      let parents ← if ← atWord ["extends"] then
          let _ ← advance
          readTypeList
        else pure []
      skipSpace
      if !(← atSymbol "\x7b") then
        report .expectedInterfaceBody
        return none
      let members ← tentatively (parseClassBody "interface".toList)
      let body ← readBalanced ['{'] ['}']
      if !endsWith body ['}'] then report (.unterminatedBody "interface".toList)
      return some (.interfaceDecl {} { name, body, typeParams, parents } members)

/-- A function. -/
def parseFunction (decorators : List Decorator) (isAsync : Bool) : m (Option Node) := do
  let _ ← advance
  skipSpace
  let isGenerator ← takeSymbol "*"
  match ← parseName "function".toList with
  | none => return none
  | some name =>
      let typeParams ← parseTypeParams
      let callable : Callable := { name, decorators, typeParams }
      skipSpace
      if ← atSymbol "(" then
        let callable ← parseCallable callable
        return some (.functionDecl {} { callable, isAsync, isGenerator })
      report .expectedFunctionParameters
      return some (.functionDecl {} { callable, isAsync, isGenerator })

/-- The word `first` comes next, with the word `second` after it. -/
def atWords (first second : String) : m Bool := do
  if ← atWord [first] then return (← following).text == second.toList
  return false

/-- Words that start a statement kept as source text. -/
def statementWords : List String :=
  ["const", "let", "var", "type", "enum", "declare"]

/-- The declaration that comes next, if any. -/
def parseDeclaration (decorators : List Decorator) : m (Option Node) := do
  if ← atWord ["struct"] then parseStruct decorators
  else if ← atWord ["class"] then parseClass decorators false
  else if ← atWords "abstract" "class" then
    let _ ← advance
    skipSpace
    parseClass decorators true
  else if ← atWord ["interface"] then parseInterface
  else if ← atWord ["function"] then parseFunction decorators false
  else if ← atWords "async" "function" then
    let _ ← advance
    skipSpace
    parseFunction decorators true
  else if (← atWord statementWords) && decorators.isEmpty then
    let text ← readStatement
    return some (.statement {} text)
  else return none

/-! ## Imports and exports -/

/-- An import goes on across the line break that comes next: before `from`, or
after a comma, `from` or `as` when a name or a path follows. -/
def importContinues (closing : Tok) (read : Text) (tokens : List Tok) : Bool :=
  let next := nextSignificant closing tokens
  let read := trimEnd read
  (next.kind == .keyword && next.text == "from".toList) ||
    ((endsWith read [','] || endsWith read " from".toList || endsWith read " as".toList)
      && (next.kind == .string || isNameToken next))

/-- Tokens of the import ahead; `read` is the text of those counted already. -/
def importCount (closing : Tok) (depth : Nat) (read : Text) : List Tok → Nat
  | [] => 0
  | t :: rest =>
      let read' := read ++ t.text
      if depth = 0 && t.kind == .newline then
        if importContinues closing read (t :: rest) then importCount closing 0 read' rest + 1
        else 0
      else if depth = 0 && isCommentToken t then 0
      else if isSymbol "\x7b" t then importCount closing (depth + 1) read' rest + 1
      else if isSymbol "\x7d" t then importCount closing (depth - 1) read' rest + 1
      else if depth = 0 && isSymbol ";" t then 1
      else importCount closing depth read' rest + 1

/-- An import.  One that holds comments is kept as source text. -/
def parseImport : m Node := do
  let s ← get
  let tokens ← takeTokens (importCount s.closing 0 [] s.rest)
  let raw :=
    match dropEndWhile isTriviaToken tokens with
    | [] => s.current.text
    | kept => textOf kept
  return .importDecl {} (if tokens.any isCommentToken then { raw } else Import.ofText raw)

/-- An export, whose keyword comes next. -/
def parseExport (decorators : List Decorator) : m Node := do
  let _ ← advance
  skipSpace
  let isDefault ← atWord ["default"]
  if isDefault then
    let _ ← advance
    skipSpace
  let more ← parseDecorators
  let decorators := decorators ++ more
  match ← parseDeclaration decorators with
  | some declaration => return .exportDecl {} isDefault (some declaration)
  | none =>
      if !decorators.isEmpty then report .expectedDeclaration
      let text ← readStatement
      return .exportDecl {} isDefault (some (.statement {} text))

/-! ## Documents -/

/-- What is found at the top level: a node, nothing of its own, or a token that
belongs to no node. -/
inductive TopLevel where
  | node (n : Node)
  | nothing
  | dropped (t : Tok)

/-- What a declaration that could not start leaves behind. -/
def rejectTopLevel (decorators : List Decorator) : m TopLevel := do
  if decorators.isEmpty then
    let t ← advance
    return .dropped t
  report .expectedDeclaration
  return .nothing

/-- Reads what comes next at the top level. -/
def parseTopLevel : m TopLevel := do
  let t ← current
  if isCommentToken t then
    let _ ← advance
    return .node (commentNode t)
  if ← takeSymbol ";" then return .nothing
  let decorators ← parseDecorators
  if decorators.isEmpty && (← atWord ["import"]) then
    let n ← parseImport
    return .node n
  if ← atWord ["export"] then
    let n ← parseExport decorators
    return .node n
  let before := (← remaining).length
  match ← parseDeclaration decorators with
  | some n => return .node n
  | none =>
      if (← remaining).length = before then rejectTopLevel decorators else return .nothing

/-- One item of the top level. -/
def documentRound : m (Round TopLevel) := do
  let newlines ← skipTrivia
  if ← atEnd then return .stop
  let start ← current
  match ← parseTopLevel with
  | .nothing => return .skip
  | .dropped t => return .next (.dropped t)
  | .node n =>
      let n ← surrounded start newlines n
      return .next (.node n)

/-- The node of an item. -/
def TopLevel.node? : TopLevel → Option Node
  | .node n => some n
  | _ => none

/-- The token of a dropped item. -/
def TopLevel.dropped? : TopLevel → Option Tok
  | .dropped t => some t
  | _ => none

/-- Reads a whole document. -/
def parseDocument : m Document := do
  let found ← collect documentRound
  return {
    children := openSequence (found.filterMap TopLevel.node?)
    dropped := found.filterMap TopLevel.dropped? }

/-- The state in front of a source. -/
def startOf (source : Text) : State Kind Problem :=
  State.start (lexemes source) (endToken source)

/-- Parses a source into its document and the problems found. -/
def parse (source : Text) : Document × List EtsError :=
  let (document, s) := (parseDocument : EtsParser Document) (startOf source)
  (document, s.errors)

end UiFormat.Ets
