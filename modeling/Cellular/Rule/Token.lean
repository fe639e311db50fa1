import Cellular.Rule.Diagnostic
import Cellular.Text.Blank
import Cellular.Text.Letter

/-!
# Tokens of rule text

Rule text is a sequence of words and symbols.  Blanks separate tokens, and so do
comments, which run from an exclamation mark to the end of the line.  A word is
a maximal run of name characters and is kept in upper case; every other
character outside a comment is a token of its own, legal or not.
-/

namespace Cellular

open Text

inductive TokenKind where
  | word (letters : List Char)
  | symbol (character : Char)
  | illegal (character : Char)
  deriving DecidableEq, Repr

structure Token where
  kind : TokenKind
  offset : Nat
  length : Nat
  deriving DecidableEq, Repr

namespace Token

def symbols : List Char :=
  ['/', ':', ';', '(', ')', '[', ']', ',', '=', '&', '|', '#', '@', '+', '-']

def commentMark : Char := '!'

def isSymbol (token : Token) (character : Char) : Bool :=
  token.kind = .symbol character

def isWord (token : Token) (word : String) : Bool :=
  token.kind = .word word.toList

def isIllegal (token : Token) : Bool :=
  match token.kind with
  | .illegal _ => true
  | _ => false

def text (token : Token) : String :=
  match token.kind with
  | .word letters => String.ofList letters
  | .symbol character | .illegal character => String.singleton character

/-- Puts a name character in front of the tokens of the text that follows it: it
joins a word that starts right after it and is a word of its own otherwise. -/
def consLetter (offset : Nat) (letter : Char) (tokens : List Token) : List Token :=
  match tokens with
  | ⟨.word letters, start, length⟩ :: rest =>
      if start = offset + 1 then
        ⟨.word (letter.toUpper :: letters), offset, length + 1⟩ :: rest
      else ⟨.word [letter.toUpper], offset, 1⟩ :: tokens
  | _ => ⟨.word [letter.toUpper], offset, 1⟩ :: tokens

/-- The tokens of a text that starts at `offset`, inside or outside a comment. -/
def scanFrom (comment : Bool) (offset : Nat) : List Char → List Token
  | [] => []
  | c :: rest =>
      if comment then scanFrom (c != '\n') (offset + 1) rest
      else if c = commentMark then scanFrom true (offset + 1) rest
      else if isBlank c then scanFrom false (offset + 1) rest
      else if isNameChar c then
        consLetter offset c (scanFrom false (offset + 1) rest)
      else
        let kind :=
          if c ∈ symbols then TokenKind.symbol c else TokenKind.illegal c
        ⟨kind, offset, 1⟩ :: scanFrom false (offset + 1) rest

def scan (text : List Char) : List Token := scanFrom false 0 text

def illegality? (token : Token) : Option Diagnostic :=
  match token.kind with
  | .illegal character => some ⟨token.offset, .illegalCharacter character⟩
  | _ => none

end Token

end Cellular
