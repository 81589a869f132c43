/-
# UiFormat.Safety.ComplexSyntax -- constructs the declaration parser does not cover

Namespaces, accessors and declarations nested inside a struct are recognised by
their wording alone, wherever in the source they stand, comments and strings
included.  A source that holds one is not parsed.
-/
import UiFormat.Text.Blank
import UiFormat.Text.Word

namespace UiFormat.Safety

open UiFormat.Text

set_option autoImplicit false

/-- What follows the first word of a text that starts with blanks. -/
def afterBlankWord? (text : Text) : Option Text :=
  match text with
  | [] => none
  | c :: _ =>
      let word := trimStart text
      if isBlank c && word.head?.any isWord then some (word.dropWhile isWord) else none

/-- A namespace starts here. -/
def isNamespaceHead (text : Text) : Bool :=
  ((after? "namespace".toList text).bind afterBlankWord?).isSome

/-- An accessor introduced by `word` starts here. -/
def isAccessorHead (word : String) (text : Text) : Bool :=
  match (after? word.toList text).bind afterBlankWord? with
  | some rest => startsWith (trimStart rest) ['(']
  | none => false

/-- A whole word that starts a nested declaration occurs in the text;
`inWord` tells that a word character precedes it. -/
def hasDeclarationWord (inWord : Bool) : Text → Bool
  | [] => false
  | c :: text =>
      (!inWord && ["enum", "interface", "class", "function"].any fun word =>
        startsWithWord word.toList (c :: text)) || hasDeclarationWord (isWord c) text

/-- A struct starts here whose first block, up to its first closing brace,
holds a declaration. -/
def isNestingStruct (text : Text) : Bool :=
  match (after? "struct".toList text).bind afterBlankWord? with
  | some rest =>
      match rest.dropWhile (· != '{') with
      | [] => false
      | _ :: body => hasDeclarationWord false (body.takeWhile (· != '}'))
  | none => false

/-- One of the constructs starts here; `inWord` tells that a word character
precedes the text. -/
def isComplexHead (inWord : Bool) (text : Text) : Bool :=
  (!inWord && (isNamespaceHead text || isAccessorHead "get" text || isAccessorHead "set" text))
    || isNestingStruct text

/-- One of the constructs starts somewhere in the text. -/
def hasComplexHead (inWord : Bool) : Text → Bool
  | [] => false
  | c :: text => isComplexHead inWord (c :: text) || hasComplexHead (isWord c) text

/-- The source holds a construct that the declaration parser does not cover. -/
def hasComplexSyntax (source : Text) : Bool :=
  hasComplexHead false source

end UiFormat.Safety
