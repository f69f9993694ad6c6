import ComponentBuild.Script.Fault

namespace ComponentBuild.Script

inductive Word where
  | await
  | «break»
  | case
  | «catch»
  | «class»
  | const
  | «continue»
  | debugger
  | «default»
  | delete
  | «do»
  | «else»
  | «export»
  | «extends»
  | falseWord
  | «finally»
  | «for»
  | function
  | «if»
  | «import»
  | «in»
  | instanceof
  | «let»
  | «new»
  | «null»
  | «return»
  | super
  | switch
  | «this»
  | throw
  | trueWord
  | «try»
  | typeof
  | var
  | void
  | «while»
  | «with»
  | yield
  | «abstract»
  | accessor
  | any
  | as
  | assert
  | asserts
  | async
  | bigint
  | boolean
  | constructor
  | declare
  | enum
  | «from»
  | get
  | global
  | implements
  | infer
  | interface
  | intrinsic
  | «is»
  | keyof
  | «meta»
  | «module»
  | «namespace»
  | never
  | number
  | object
  | of
  | out
  | override
  | package
  | «private»
  | «protected»
  | «public»
  | readonly
  | require
  | satisfies
  | set
  | static
  | string
  | symbol
  | target
  | type
  | undefined
  | unique
  | unknown
  | «using»
  deriving DecidableEq, Repr, Inhabited

namespace Word

def chars : Word → List Char
  | await => ['a', 'w', 'a', 'i', 't']
  | «break» => ['b', 'r', 'e', 'a', 'k']
  | case => ['c', 'a', 's', 'e']
  | «catch» => ['c', 'a', 't', 'c', 'h']
  | «class» => ['c', 'l', 'a', 's', 's']
  | const => ['c', 'o', 'n', 's', 't']
  | «continue» => ['c', 'o', 'n', 't', 'i', 'n', 'u', 'e']
  | debugger => ['d', 'e', 'b', 'u', 'g', 'g', 'e', 'r']
  | «default» => ['d', 'e', 'f', 'a', 'u', 'l', 't']
  | delete => ['d', 'e', 'l', 'e', 't', 'e']
  | «do» => ['d', 'o']
  | «else» => ['e', 'l', 's', 'e']
  | «export» => ['e', 'x', 'p', 'o', 'r', 't']
  | «extends» => ['e', 'x', 't', 'e', 'n', 'd', 's']
  | falseWord => ['f', 'a', 'l', 's', 'e']
  | «finally» => ['f', 'i', 'n', 'a', 'l', 'l', 'y']
  | «for» => ['f', 'o', 'r']
  | function => ['f', 'u', 'n', 'c', 't', 'i', 'o', 'n']
  | «if» => ['i', 'f']
  | «import» => ['i', 'm', 'p', 'o', 'r', 't']
  | «in» => ['i', 'n']
  | instanceof => ['i', 'n', 's', 't', 'a', 'n', 'c', 'e', 'o', 'f']
  | «let» => ['l', 'e', 't']
  | «new» => ['n', 'e', 'w']
  | «null» => ['n', 'u', 'l', 'l']
  | «return» => ['r', 'e', 't', 'u', 'r', 'n']
  | super => ['s', 'u', 'p', 'e', 'r']
  | switch => ['s', 'w', 'i', 't', 'c', 'h']
  | «this» => ['t', 'h', 'i', 's']
  | throw => ['t', 'h', 'r', 'o', 'w']
  | trueWord => ['t', 'r', 'u', 'e']
  | «try» => ['t', 'r', 'y']
  | typeof => ['t', 'y', 'p', 'e', 'o', 'f']
  | var => ['v', 'a', 'r']
  | void => ['v', 'o', 'i', 'd']
  | «while» => ['w', 'h', 'i', 'l', 'e']
  | «with» => ['w', 'i', 't', 'h']
  | yield => ['y', 'i', 'e', 'l', 'd']
  | «abstract» => ['a', 'b', 's', 't', 'r', 'a', 'c', 't']
  | accessor => ['a', 'c', 'c', 'e', 's', 's', 'o', 'r']
  | any => ['a', 'n', 'y']
  | as => ['a', 's']
  | assert => ['a', 's', 's', 'e', 'r', 't']
  | asserts => ['a', 's', 's', 'e', 'r', 't', 's']
  | async => ['a', 's', 'y', 'n', 'c']
  | bigint => ['b', 'i', 'g', 'i', 'n', 't']
  | boolean => ['b', 'o', 'o', 'l', 'e', 'a', 'n']
  | constructor => ['c', 'o', 'n', 's', 't', 'r', 'u', 'c', 't', 'o', 'r']
  | declare => ['d', 'e', 'c', 'l', 'a', 'r', 'e']
  | enum => ['e', 'n', 'u', 'm']
  | «from» => ['f', 'r', 'o', 'm']
  | get => ['g', 'e', 't']
  | global => ['g', 'l', 'o', 'b', 'a', 'l']
  | implements => ['i', 'm', 'p', 'l', 'e', 'm', 'e', 'n', 't', 's']
  | infer => ['i', 'n', 'f', 'e', 'r']
  | interface => ['i', 'n', 't', 'e', 'r', 'f', 'a', 'c', 'e']
  | intrinsic => ['i', 'n', 't', 'r', 'i', 'n', 's', 'i', 'c']
  | «is» => ['i', 's']
  | keyof => ['k', 'e', 'y', 'o', 'f']
  | «meta» => ['m', 'e', 't', 'a']
  | «module» => ['m', 'o', 'd', 'u', 'l', 'e']
  | «namespace» => ['n', 'a', 'm', 'e', 's', 'p', 'a', 'c', 'e']
  | never => ['n', 'e', 'v', 'e', 'r']
  | number => ['n', 'u', 'm', 'b', 'e', 'r']
  | object => ['o', 'b', 'j', 'e', 'c', 't']
  | of => ['o', 'f']
  | out => ['o', 'u', 't']
  | override => ['o', 'v', 'e', 'r', 'r', 'i', 'd', 'e']
  | package => ['p', 'a', 'c', 'k', 'a', 'g', 'e']
  | «private» => ['p', 'r', 'i', 'v', 'a', 't', 'e']
  | «protected» => ['p', 'r', 'o', 't', 'e', 'c', 't', 'e', 'd']
  | «public» => ['p', 'u', 'b', 'l', 'i', 'c']
  | readonly => ['r', 'e', 'a', 'd', 'o', 'n', 'l', 'y']
  | require => ['r', 'e', 'q', 'u', 'i', 'r', 'e']
  | satisfies => ['s', 'a', 't', 'i', 's', 'f', 'i', 'e', 's']
  | set => ['s', 'e', 't']
  | static => ['s', 't', 'a', 't', 'i', 'c']
  | string => ['s', 't', 'r', 'i', 'n', 'g']
  | symbol => ['s', 'y', 'm', 'b', 'o', 'l']
  | target => ['t', 'a', 'r', 'g', 'e', 't']
  | type => ['t', 'y', 'p', 'e']
  | undefined => ['u', 'n', 'd', 'e', 'f', 'i', 'n', 'e', 'd']
  | unique => ['u', 'n', 'i', 'q', 'u', 'e']
  | unknown => ['u', 'n', 'k', 'n', 'o', 'w', 'n']
  | «using» => ['u', 's', 'i', 'n', 'g']

def all : List Word :=
  [.await, .«break», .case, .«catch», .«class», .const, .«continue», .debugger, .«default»,
   .delete, .«do», .«else», .«export», .«extends», .falseWord, .«finally», .«for», .function,
   .«if», .«import», .«in», .instanceof, .«let», .«new», .«null», .«return», .super, .switch,
   .«this», .throw, .trueWord, .«try», .typeof, .var, .void, .«while», .«with», .yield,
   .«abstract», .accessor, .any, .as, .assert, .asserts, .async, .bigint, .boolean, .constructor,
   .declare, .enum, .«from», .get, .global, .implements, .infer, .interface, .intrinsic, .«is»,
   .keyof, .«meta», .«module», .«namespace», .never, .number, .object, .of, .out, .override,
   .package, .«private», .«protected», .«public», .readonly, .require, .satisfies, .set, .static,
   .string, .symbol, .target, .type, .undefined, .unique, .unknown, .«using»]

def text (w : Word) : String := String.ofList w.chars

def ofChars? (cs : List Char) : Option Word := all.find? (·.chars == cs)

/-- Words that name nothing anywhere. -/
def isReserved : Word → Bool
  | .«break» | .case | .«catch» | .«class» | .const | .«continue» | .debugger | .«default» |
    .delete | .«do» | .«else» | .enum | .«export» | .«extends» | .falseWord | .«finally» |
    .«for» | .function | .«if» | .«import» | .«in» | .instanceof | .«new» | .«null» | .«return» |
    .super | .switch | .«this» | .throw | .trueWord | .«try» | .typeof | .var | .void |
    .«while» | .«with» => true
  | _ => false

end Word

inductive Mark where
  | lparen
  | rparen
  | lbrace
  | rbrace
  | lbracket
  | rbracket
  | semicolon
  | comma
  | colon
  | tilde
  | at_
  | hash
  | dot
  | ellipsis
  | question
  | questionDot
  | nullish
  | nullishAssign
  | bang
  | notEqual
  | notIdentical
  | assign
  | equal
  | identical
  | arrow
  | plus
  | increment
  | plusAssign
  | minus
  | decrement
  | minusAssign
  | star
  | power
  | starAssign
  | powerAssign
  | slash
  | slashAssign
  | percent
  | percentAssign
  | less
  | lessEqual
  | shiftLeft
  | shiftLeftAssign
  | greater
  | greaterEqual
  | shiftRight
  | shiftRightAssign
  | shiftRightZero
  | shiftRightZeroAssign
  | and
  | andAssign
  | logicalAnd
  | logicalAndAssign
  | or
  | orAssign
  | logicalOr
  | logicalOrAssign
  | xor
  | xorAssign
  deriving DecidableEq, Repr, Inhabited

namespace Mark

def chars : Mark → List Char
  | lparen => ['(']
  | rparen => [')']
  | lbrace => ['\x7b']
  | rbrace => ['\x7d']
  | lbracket => ['[']
  | rbracket => [']']
  | semicolon => [';']
  | comma => [',']
  | colon => [':']
  | tilde => ['~']
  | at_ => ['@']
  | hash => ['#']
  | dot => ['.']
  | ellipsis => ['.', '.', '.']
  | question => ['?']
  | questionDot => ['?', '.']
  | nullish => ['?', '?']
  | nullishAssign => ['?', '?', '=']
  | bang => ['!']
  | notEqual => ['!', '=']
  | notIdentical => ['!', '=', '=']
  | assign => ['=']
  | equal => ['=', '=']
  | identical => ['=', '=', '=']
  | arrow => ['=', '>']
  | plus => ['+']
  | increment => ['+', '+']
  | plusAssign => ['+', '=']
  | minus => ['-']
  | decrement => ['-', '-']
  | minusAssign => ['-', '=']
  | star => ['*']
  | power => ['*', '*']
  | starAssign => ['*', '=']
  | powerAssign => ['*', '*', '=']
  | slash => ['/']
  | slashAssign => ['/', '=']
  | percent => ['%']
  | percentAssign => ['%', '=']
  | less => ['<']
  | lessEqual => ['<', '=']
  | shiftLeft => ['<', '<']
  | shiftLeftAssign => ['<', '<', '=']
  | greater => ['>']
  | greaterEqual => ['>', '=']
  | shiftRight => ['>', '>']
  | shiftRightAssign => ['>', '>', '=']
  | shiftRightZero => ['>', '>', '>']
  | shiftRightZeroAssign => ['>', '>', '>', '=']
  | and => ['&']
  | andAssign => ['&', '=']
  | logicalAnd => ['&', '&']
  | logicalAndAssign => ['&', '&', '=']
  | or => ['|']
  | orAssign => ['|', '=']
  | logicalOr => ['|', '|']
  | logicalOrAssign => ['|', '|', '=']
  | xor => ['^']
  | xorAssign => ['^', '=']

/-- All marks, none behind one that it starts with. -/
def all : List Mark :=
  [.shiftRightZeroAssign, .ellipsis, .nullishAssign, .notIdentical, .identical, .powerAssign,
   .shiftLeftAssign, .shiftRightAssign, .shiftRightZero, .logicalAndAssign, .logicalOrAssign,
   .questionDot, .nullish, .notEqual, .equal, .arrow, .increment, .plusAssign, .decrement,
   .minusAssign, .power, .starAssign, .slashAssign, .percentAssign, .lessEqual, .shiftLeft,
   .greaterEqual, .shiftRight, .andAssign, .logicalAnd, .orAssign, .logicalOr, .xorAssign,
   .lparen, .rparen, .lbrace, .rbrace, .lbracket, .rbracket, .semicolon, .comma, .colon, .tilde,
   .at_, .hash, .dot, .question, .bang, .assign, .plus, .minus, .star, .slash, .percent, .less,
   .greater, .and, .or, .xor]

def text (m : Mark) : String := String.ofList m.chars

/-- The longest mark at the front of a text. -/
def ofPrefix? (cs : List Char) : Option Mark := all.find? (·.chars.isPrefixOf cs)

/-- How strong a mark binds its operands, if it joins two. -/
def precedence? : Mark → Option Nat
  | .logicalOr | .nullish => some 1
  | .logicalAnd => some 2
  | .or => some 3
  | .xor => some 4
  | .and => some 5
  | .equal | .notEqual | .identical | .notIdentical => some 6
  | .less | .lessEqual | .greater | .greaterEqual => some 7
  | .shiftLeft | .shiftRight | .shiftRightZero => some 8
  | .plus | .minus => some 9
  | .star | .slash | .percent => some 10
  | .power => some 11
  | _ => none

/-- Marks that write into what stands before them. -/
def isAssign : Mark → Bool
  | .nullishAssign | .assign | .plusAssign | .minusAssign | .starAssign | .powerAssign |
    .slashAssign | .percentAssign | .shiftLeftAssign | .shiftRightAssign |
    .shiftRightZeroAssign | .andAssign | .logicalAndAssign | .orAssign | .logicalOrAssign |
    .xorAssign => true
  | _ => false

end Mark

inductive TokenKind where
  | word (w : Word)
  /-- An identifier that is no word. -/
  | ident
  | mark (m : Mark)
  | string
  | number
  | bigint
  | endOfText
  /-- The text of a template up to its end, if `whole`, or to its first hole. Only a template
  without a tag minds a bad escape in it. -/
  | template (whole : Bool) (badEscape? : Option SyntaxError)
  /-- Text that is no token. -/
  | invalid (error : SyntaxError)
  deriving DecidableEq, Repr, Inhabited

namespace TokenKind

/-- What messages call the kind. -/
def describe : TokenKind → String
  | word w => w.text
  | ident => "ident"
  | mark m => m.text
  | string => "string literal"
  | number => "numeric literal"
  | bigint => "bigint literal"
  | endOfText => "<eof>"
  | template true _ => "no substitution template literal"
  | template false _ => "template head"
  | invalid _ => "<lexing error>"

def isWord : TokenKind → Bool
  | word _ => true
  | ident => true
  | _ => false

end TokenKind

/-- A token and where it stands. `text` is the name of an identifier without its escapes, or else
the token as written. -/
structure Token where
  kind : TokenKind
  start : Nat
  stop : Nat
  /-- A line ends between the token in front and this one. -/
  afterBreak : Bool
  text : List Char
  deriving Repr, Inhabited

end ComponentBuild.Script
