/-
# UiFormat.Ets.Printer -- the document tree as ETS source

Declarations are printed from the tree; bodies, initialisers, statements and
comments are source text and go through the reindenter at their level.  A
component tree is printed one component or chained call per line and then
reindented in the same way.

Blank lines are kept where the source has them and added where two neighbours
have to be set apart: after the imports, around declarations, before a method.
A run of comments belongs to the node after it.

Only a tree built by hand can hold a node where its class has no place; printing
such a tree fails.
-/
import UiFormat.Options
import UiFormat.Layout.Reindent
import UiFormat.Ets.Node

namespace UiFormat.Ets

open UiFormat.Text
open UiFormat.Layout

set_option autoImplicit false

/-- A node in a place its class does not belong to. -/
inductive Misplaced where
  | declaration (kind : String)
  | member (kind : String)
  deriving DecidableEq, Repr

/-- The wording of the failure. -/
def Misplaced.message : Misplaced → Text
  | .declaration kind => "Unexpected declaration node ".toList ++ kind.toList
  | .member kind => "Unexpected member node ".toList ++ kind.toList

/-- How source is written: the caller's options, and whether statements are
terminated. -/
structure Style where
  options : Options
  terminated : Bool

namespace Style

/-- What ends a statement. -/
def terminator (s : Style) : Text :=
  if s.terminated then [';'] else []

/-- The indentation of a level. -/
def indent (s : Style) (level : Int) : Text :=
  s.options.indent level

/-- Source text as lines at a level. -/
def block (s : Style) (level : Int) (text : Text) : List Text :=
  reindentLines level s.options.indentUnit true text

end Style

/-! ## Blank lines -/

/-- The classes of top level nodes that blank lines depend on. -/
inductive TopKind where
  | imported
  | significant
  | other
  deriving DecidableEq, Repr

/-- The classes of members that blank lines depend on. -/
inductive MemberKind where
  | property
  | method
  | build
  | other
  deriving DecidableEq, Repr

/-- The class of a top level node. -/
def Node.topKind : Node → TopKind
  | .importDecl _ _ => .imported
  | .exportDecl _ _ _ => .significant
  | .structDecl _ _ _ => .significant
  | .classDecl _ _ _ _ => .significant
  | .interfaceDecl _ _ _ => .significant
  | .functionDecl _ _ => .significant
  | _ => .other

/-- The class of a member. -/
def Node.memberKind : Node → MemberKind
  | .build _ _ _ => .build
  | .method _ _ => .method
  | _ => .property

/-- A blank line separates two neighbours at the top level: the end of the
imports, and any declaration. -/
def TopKind.separated : TopKind → TopKind → Bool
  | .significant, _ => true
  | _, .significant => true
  | .imported, .other => true
  | _, _ => false

/-- A blank line separates two neighbouring members: any member from a method
after it. -/
def MemberKind.separated : MemberKind → MemberKind → Bool
  | .other, _ => false
  | _, .method => true
  | _, .build => true
  | _, _ => false

/-- A blank line stands between `previous` and `node`, where `rest` follows. -/
def blankBetween (separated : Node → Node → Bool) (previous node : Node) (rest : List Node) :
    Bool :=
  node.around.blankBefore ||
    (!previous.isComment &&
      match (node :: rest).find? (!·.isComment) with
      | some owner => separated previous owner
      | none => false)

/-- The lines of a node with the comment that closes its last line. -/
def withTrailingComment (node : Node) (lines : List Text) : List Text :=
  match node.around.trailingComment with
  | none => lines
  | some [] => lines
  | some comment => appendToLast (' ' :: comment) lines

/-- Nodes in order, with blank lines between them. -/
def printSequence (separated : Node → Node → Bool)
    (print : Node → Except Misplaced (List Text)) (previous : Option Node) :
    List Node → Except Misplaced (List Text)
  | [] => pure []
  | node :: rest => do
      let lines ← print node
      let later ← printSequence separated print (some node) rest
      let gap := previous.any fun p => blankBetween separated p node rest
      return (if gap then [[]] else []) ++ withTrailingComment node lines ++ later

/-! ## Signatures -/

/-- `lead` and the text, unless there is none. -/
def optionally (lead : Text) : Option Text → Text
  | none => []
  | some [] => []
  | some text => lead ++ text

/-- The words in order, each with a space after it. -/
def spaced (words : List Text) : Text :=
  words.flatMap (· ++ [' '])

/-- A parameter as text. -/
def Parameter.print (p : Parameter) : Text :=
  spaced (p.decorators.map Decorator.print) ++ spaced p.modifiers
    ++ (if p.isRest then "...".toList else []) ++ p.name
    ++ (if p.isOptional then ['?'] else [])
    ++ optionally ": ".toList p.typeAnnotation
    ++ (p.default.map (" = ".toList ++ ·)).getD []

/-- Parameters on lines of their own, with commas between them. -/
def wrappedParameters (trailingComma : Bool) : List Parameter → List Text
  | [] => []
  | [p] => [p.print ++ if trailingComma && !p.isRest then [','] else []]
  | p :: next :: rest => (p.print ++ [',']) :: wrappedParameters trailingComma (next :: rest)

/-- The lines of a signature without indentation.  A parameter list that is too
long with the brace or terminator after it is wrapped, unless one of its
parameters spans lines already. -/
def signatureLines (s : Style) (level : Int) (head : Text) (parameters : ParameterList)
    (tail : Text) : List Text :=
  match parameters with
  | .source text => [head ++ text ++ tail]
  | .items parameters =>
      let texts := parameters.map Parameter.print
      let single := head ++ ['('] ++ join ", ".toList texts ++ [')'] ++ tail
      let width := (s.indent level).length + single.length + 2
      if (width : Int) ≤ s.options.maxLineLength || texts.isEmpty
          || texts.any (·.contains '\n') then [single]
      else
        [head ++ ['(']] ++ wrappedParameters s.options.trailingComma parameters
          ++ [[')'] ++ tail]

/-- The lines of a signature at a level, with `ending` after the last. -/
def signatureBlock (s : Style) (level : Int) (signature : List Text) (ending : Text) :
    List Text :=
  s.block level (join ['\n'] (appendToLast ending signature))

/-- A signature with its body, or with its terminator when it has none.  The body
of a builder is printed from its component tree when there is one. -/
def printCallable (s : Style) (level : Int) (signature : List Text) (body : Option Body)
    (isUi : Bool) : List Text :=
  match body with
  | none => signatureBlock s level signature s.terminator
  | some body =>
      let text :=
        match if isUi then body.components else none with
        | some components => join ['\n'] (printComponents components)
        | none => body.source
      match s.block (level + 1) text with
      | [] => signatureBlock s level signature [' ', '{', '}']
      | first :: rest =>
          signatureBlock s level signature [' ', '{'] ++ (first :: rest)
            ++ [s.indent level ++ ['}']]

/-- Decorators on lines of their own. -/
def decoratorLines (s : Style) (level : Int) (decorators : List Decorator) : List Text :=
  decorators.flatMap fun d => s.block level d.print

/-- A function or method whose name and what precedes it are `head`. -/
def Callable.print (s : Style) (level : Int) (head : Text) (c : Callable) : List Text :=
  decoratorLines s level c.decorators
    ++ printCallable s level
      (signatureLines s level (head ++ c.typeParams.getD []) c.parameters
        (optionally ": ".toList c.returnType))
      c.body (isBuilder c.decorators)

/-! ## Members -/

/-- A property. -/
def Property.print (s : Style) (level : Int) (p : Property) : List Text :=
  s.block level (spaced (p.decorators.map Decorator.print) ++ spaced p.modifiers ++ p.name
    ++ (if p.isOptional then ['?'] else []) ++ (if p.isDefinite then ['!'] else [])
    ++ optionally ": ".toList p.typeAnnotation
    ++ (p.initializer.map (" = ".toList ++ ·)).getD [] ++ s.terminator)

/-- A method. -/
def Method.print (s : Style) (level : Int) (m : Method) : List Text :=
  m.callable.print s level
    (spaced m.modifiers ++ m.callable.name ++ if m.isOptional then ['?'] else [])

/-- A member of a struct or class. -/
def printMember (s : Style) (level : Int) (node : Node) : Except Misplaced (List Text) :=
  match node with
  | .comment _ c => .ok (s.block level c.text)
  | .property _ p => .ok (p.print s level)
  | .method _ m => .ok (m.print s level)
  | .build _ decorators body =>
      .ok (decoratorLines s level decorators
        ++ printCallable s level (signatureLines s level "build".toList (.items []) [])
          (some body) true)
  | other => .error (.member other.kindName)

/-! ## Declarations -/

/-- A struct or class with its members between braces. -/
def printType (s : Style) (level : Int) (keyword : Text) (head : TypeHead)
    (members : List Node) : Except Misplaced (List Text) := do
  let header := keyword ++ [' '] ++ head.name ++ head.typeParams.getD []
    ++ optionally " extends ".toList head.parent
    ++ (if head.interfaces.isEmpty then []
        else " implements ".toList ++ join ", ".toList head.interfaces)
  let decorators := decoratorLines s level head.decorators
  let members ← printSequence (fun a b => a.memberKind.separated b.memberKind)
    (printMember s (level + 1)) none members
  match members with
  | [] => return decorators ++ s.block level (header ++ [' ', '{', '}'])
  | first :: rest =>
      return decorators ++ s.block level (header ++ [' ', '{']) ++ (first :: rest)
        ++ [s.indent level ++ ['}']]

/-- An interface, its body reindented. -/
def InterfaceHead.print (s : Style) (level : Int) (lead : Text) (i : InterfaceHead) :
    List Text :=
  let header := lead ++ "interface ".toList ++ i.name ++ i.typeParams.getD []
    ++ (if i.parents.isEmpty then [] else " extends ".toList ++ join ", ".toList i.parents)
  let body := if endsWith i.body ['}'] then withoutEnds i.body else i.body.drop 1
  match s.block (level + 1) body with
  | [] => s.block level (header ++ [' ', '{', '}'])
  | first :: rest =>
      s.block level (header ++ [' ', '{']) ++ (first :: rest) ++ [s.indent level ++ ['}']]

/-- A function. -/
def Function.print (s : Style) (level : Int) (lead : Text) (f : Function) : List Text :=
  f.callable.print s level
    (lead ++ (if f.isAsync then "async ".toList else []) ++ "function".toList
      ++ (if f.isGenerator then "* ".toList else [' ']) ++ f.callable.name)

/-- A declaration after `lead`, which is empty or ends in a space. -/
def printDeclaration (s : Style) (level : Int) (lead : Text) (node : Node) :
    Except Misplaced (List Text) :=
  match node with
  | .structDecl _ head members => printType s level (lead ++ "struct".toList) head members
  | .classDecl _ head isAbstract members =>
      printType s level
        (lead ++ if isAbstract then "abstract class".toList else "class".toList) head members
  | .interfaceDecl _ head _ => .ok (head.print s level lead)
  | .functionDecl _ f => .ok (f.print s level lead)
  | .statement _ text => .ok (s.block level (lead ++ text))
  | other => .error (.declaration other.kindName)

/-- The names of an import between braces. -/
def bracedNames (spacing : Bool) (names : List Text) : Text :=
  if names.isEmpty then ['{', '}']
  else if spacing then ['{', ' '] ++ join ", ".toList names ++ [' ', '}']
  else ['{'] ++ join ", ".toList names ++ ['}']

/-- The parts of an import clause that are there. -/
def importClauses (o : Options) (i : Import) : List Text :=
  let nonEmpty (t : Option Text) : List Text := (t.filter (!·.isEmpty)).toList
  nonEmpty i.defaultName ++ (nonEmpty i.namespaceName).map ("* as ".toList ++ ·)
    ++ (i.names.map (bracedNames o.bracketSpacing)).toList

/-- An import: rebuilt from its parts, or as it was written. -/
def Import.print (s : Style) (level : Int) (i : Import) : List Text :=
  if !i.structured then s.block level i.raw
  else
    let path := [s.options.quote] ++ i.source ++ [s.options.quote]
    let clauses := importClauses s.options i
    let clause := if clauses.isEmpty then [] else join ", ".toList clauses ++ " from ".toList
    [s.indent level ++ "import ".toList ++ clause ++ path ++ s.terminator]

/-- An export with its declaration. -/
def printExport (s : Style) (level : Int) (isDefault : Bool) (declaration : Option Node) :
    Except Misplaced (List Text) :=
  let lead := if isDefault then "export default".toList else "export".toList
  match declaration with
  | none => .ok [s.indent level ++ lead]
  | some d => printDeclaration s level (lead ++ [' ']) d

/-- A node at the top level. -/
def printTopLevel (s : Style) (level : Int) (node : Node) : Except Misplaced (List Text) :=
  match node with
  | .importDecl _ i => .ok (i.print s level)
  | .exportDecl _ isDefault declaration => printExport s level isDefault declaration
  | .comment _ c => .ok (s.block level c.text)
  | other => printDeclaration s level [] other

/-- A document as text, every line terminated. -/
def printDocument (s : Style) (children : List Node) : Except Misplaced Text := do
  let lines ← printSequence (fun a b => a.topKind.separated b.topKind) (printTopLevel s 0) none
    children
  match lines with
  | [] => return []
  | first :: rest => return join s.options.eol (first :: rest) ++ s.options.eol

end UiFormat.Ets
