import ScriptMachine.Text

set_option autoImplicit false

/- Tokens: the words of the language with the place where each one starts. -/
namespace ScriptMachine

inductive TokenKind where
  | finish | malformed
  | identifier | number | string
  | andWord | elseWord | falseWord | fnWord | forWord | ifWord | implWord | newWord | nilWord
  | orWord | printWord | returnWord | selfWord | structWord | traitWord | trueWord | varWord
  | whileWord
  | leftParen | rightParen | leftBrace | rightBrace | dot | comma | colon | semicolon
  | plus | minus | star | slash
  | bang | bangEqual | equal | equalEqual | less | lessEqual | greater | greaterEqual
  deriving DecidableEq, Repr

/-- A token. `text` is the lexeme, except that a string token carries its decoded contents
and a malformed one the complaint about it. Lines and columns start at one. -/
structure Token where
  kind : TokenKind
  text : Text
  line : Nat
  column : Nat
  deriving DecidableEq, Repr

namespace Token

/-- The reserved words. -/
def keywords : List (Text × TokenKind) :=
  [(ascii "and", .andWord), (ascii "else", .elseWord), (ascii "false", .falseWord),
   (ascii "fn", .fnWord), (ascii "for", .forWord), (ascii "if", .ifWord),
   (ascii "impl", .implWord), (ascii "new", .newWord), (ascii "nil", .nilWord),
   (ascii "or", .orWord), (ascii "print", .printWord), (ascii "return", .returnWord),
   (ascii "self", .selfWord), (ascii "struct", .structWord), (ascii "trait", .traitWord),
   (ascii "true", .trueWord), (ascii "var", .varWord), (ascii "while", .whileWord)]

/-- A word is a keyword when it is reserved and an identifier otherwise. -/
def wordKind (word : Text) : TokenKind :=
  (keywords.lookup word).getD .identifier

/-- The tokens of one byte that never begin a longer one. -/
def punctuation : List (UInt8 × TokenKind) :=
  [(40, .leftParen), (41, .rightParen), (123, .leftBrace), (125, .rightBrace), (46, .dot),
   (44, .comma), (58, .colon), (59, .semicolon), (43, .plus), (45, .minus), (42, .star),
   (47, .slash)]

/-- The bytes that form one token alone and another with an equals sign behind them. -/
def comparisons : List (UInt8 × TokenKind × TokenKind) :=
  [(33, .bang, .bangEqual), (61, .equal, .equalEqual), (60, .less, .lessEqual),
   (62, .greater, .greaterEqual)]

end Token

end ScriptMachine
