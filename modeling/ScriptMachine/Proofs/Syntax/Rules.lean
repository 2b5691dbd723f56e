import ScriptMachine.Compiler.Expression

set_option autoImplicit false

/- The grammar of the language, as rules over tokens, and the token lists that a rule derives. Two
rules depend on what stands before: a struct literal needs a struct that is known already, and only
a whole unit may declare structs, traits and impls. -/
namespace ScriptMachine.Syntax

open Compiler (Level Continuation Opening)

/-- The names of the rules. `inner` is a declaration inside a block; `operand` is an expression
whose operators bind at least as tightly as a level, so that `operand .none` is any expression. -/
inductive Symbol where
  | declaration | structDecl | field | traitDecl | signature | implDecl | inner | fnDecl | varDecl
  | statement | printStmt | ifStmt | whileStmt | forStmt | returnStmt | block | exprStmt
  | operand (level : Level)
  | params | args | structLiteral | initialiser
  deriving DecidableEq

/-- What may stand on the right of an arrow: a token of a kind, the name of a known struct, another
rule, several rules in a row, one of several rules, and a rule any number of times. -/
inductive Rule where
  | word (kind : TokenKind)
  | structName
  | symbol (symbol : Symbol)
  | row (rules : List Rule)
  | oneOf (rules : List Rule)
  | many (rule : Rule)

namespace Rule

def optional (rule : Rule) : Rule :=
  .oneOf [.row [], rule]

/-- One or more of a kind, with commas between them. -/
def commaList (rule : Rule) : Rule :=
  .row [rule, .many (.row [.word .comma, rule])]

/-- Any number of a kind, with commas between them and perhaps behind the last one. -/
def braceList (rule : Rule) : Rule :=
  optional (.row [commaList rule, optional (.word .comma)])

def expression : Rule :=
  .symbol (.operand .none)

/-- A function behind its name. -/
def function : Rule :=
  .row [.word .leftParen, optional (.symbol .params), .word .rightParen, .symbol .block]

/-- What makes a call or a property out of an operand before it. -/
def suffix : Rule :=
  .oneOf [.row [.word .leftParen, optional (.symbol .args), .word .rightParen],
    .row [.word .dot, .word .identifier]]

/-- Operands of one level, with operators between them. -/
def joined (level : Level) (operators : List TokenKind) : Rule :=
  .row [.symbol (.operand level),
    .many (.row [.oneOf (operators.map .word), .symbol (.operand level)])]

end Rule

open Rule

/-- The binary operators of a level. -/
def operators : Level → List TokenKind
  | .or => [.orWord]
  | .and => [.andWord]
  | .equality => [.equalEqual, .bangEqual]
  | .comparison => [.less, .lessEqual, .greater, .greaterEqual]
  | .term => [.plus, .minus]
  | .factor => [.star, .slash]
  | _ => []

/-- The grammar. -/
def production : Symbol → Rule
  | .declaration =>
    .oneOf [.symbol .structDecl, .symbol .traitDecl, .symbol .implDecl, .symbol .inner]
  | .structDecl =>
    .row [.word .structWord, .word .identifier, .word .leftBrace, braceList (.symbol .field),
      .word .rightBrace]
  | .field => .row [.word .identifier, optional (.row [.word .colon, .word .identifier])]
  | .traitDecl =>
    .row [.word .traitWord, .word .identifier, .word .leftBrace, .many (.symbol .signature),
      .word .rightBrace]
  | .signature =>
    .row [.word .fnWord, .word .identifier, .word .leftParen, optional (.symbol .params),
      .word .rightParen, .word .semicolon]
  | .implDecl =>
    .row [.word .implWord, .word .identifier, .word .forWord, .word .identifier,
      .word .leftBrace, .many (.symbol .fnDecl), .word .rightBrace]
  | .inner => .oneOf [.symbol .fnDecl, .symbol .varDecl, .symbol .statement]
  | .fnDecl => .row [.word .fnWord, .word .identifier, function]
  | .varDecl =>
    .row [.word .varWord, .word .identifier, optional (.row [.word .equal, expression]),
      .word .semicolon]
  | .statement =>
    .oneOf [.symbol .printStmt, .symbol .ifStmt, .symbol .whileStmt, .symbol .forStmt,
      .symbol .returnStmt, .symbol .block, .symbol .exprStmt]
  | .printStmt => .row [.word .printWord, expression, .word .semicolon]
  | .ifStmt =>
    .row [.word .ifWord, .word .leftParen, expression, .word .rightParen, .symbol .statement,
      optional (.row [.word .elseWord, .symbol .statement])]
  | .whileStmt =>
    .row [.word .whileWord, .word .leftParen, expression, .word .rightParen, .symbol .statement]
  | .forStmt =>
    .row [.word .forWord, .word .leftParen,
      .oneOf [.symbol .varDecl, .symbol .exprStmt, .word .semicolon],
      optional expression, .word .semicolon, optional expression, .word .rightParen,
      .symbol .statement]
  | .returnStmt => .row [.word .returnWord, optional expression, .word .semicolon]
  | .block => .row [.word .leftBrace, .many (.symbol .inner), .word .rightBrace]
  | .exprStmt => .row [expression, .word .semicolon]
  | .operand .none => .symbol (.operand .assignment)
  | .operand .assignment =>
    .oneOf [
      .row [optional (.row [.symbol (.operand .call), .word .dot]), .word .identifier,
        .word .equal, .symbol (.operand .assignment)],
      .symbol (.operand .or)]
  | .operand .or => joined .and (operators .or)
  | .operand .and => joined .equality (operators .and)
  | .operand .equality => joined .comparison (operators .equality)
  | .operand .comparison => joined .term (operators .comparison)
  | .operand .term => joined .factor (operators .term)
  | .operand .factor => joined .unary (operators .factor)
  | .operand .unary =>
    .oneOf [.row [.oneOf [.word .bang, .word .minus], .symbol (.operand .unary)],
      .symbol (.operand .call)]
  | .operand .call => .row [.symbol (.operand .primary), .many suffix]
  | .operand .primary =>
    .oneOf [.word .number, .word .string, .word .trueWord, .word .falseWord, .word .nilWord,
      .word .selfWord, .word .identifier, .row [.word .leftParen, expression, .word .rightParen],
      .symbol .structLiteral, .row [.word .newWord, .symbol .structLiteral],
      .row [.word .fnWord, function]]
  | .params => commaList (.word .identifier)
  | .args => commaList expression
  | .structLiteral =>
    .row [.structName, .word .leftBrace, braceList (.symbol .initialiser), .word .rightBrace]
  | .initialiser => .row [.word .identifier, .word .equal, expression]

/-- The token lists that a rule derives while the structs in `known` are known. -/
inductive Derives (known : Text → Prop) : Rule → List Token → Prop where
  | word {kind : TokenKind} {token : Token} : token.kind = kind → Derives known (.word kind) [token]
  | structName {token : Token} : token.kind = .identifier → known token.text →
      Derives known .structName [token]
  | symbol {symbol : Symbol} {tokens : List Token} : Derives known (production symbol) tokens →
      Derives known (.symbol symbol) tokens
  | none : Derives known (.row []) []
  | next {rule : Rule} {rules : List Rule} {first rest : List Token} : Derives known rule first →
      Derives known (.row rules) rest → Derives known (.row (rule :: rules)) (first ++ rest)
  | oneOf {rule : Rule} {rules : List Rule} {tokens : List Token} : rule ∈ rules →
      Derives known rule tokens → Derives known (.oneOf rules) tokens
  | stop {rule : Rule} : Derives known (.many rule) []
  | again {rule : Rule} {first rest : List Token} : Derives known rule first →
      Derives known (.many rule) rest → Derives known (.many rule) (first ++ rest)

/-- The structs known behind a declaration. -/
def declaring (known : Text → Prop) : List Token → Text → Prop
  | keyword :: name :: _ => fun text =>
    known text ∨ keyword.kind = .structWord ∧ name.text = text
  | _ => known

/-- A unit: declarations, each of which may use the structs that were declared before it. -/
inductive Program : (Text → Prop) → List Token → Prop where
  | nothing {known : Text → Prop} : Program known []
  | declaration {known : Text → Prop} {first rest : List Token} :
      Derives known (.symbol .declaration) first → Program (declaring known first) rest →
      Program known (first ++ rest)

section Shapes

variable {known : Text → Prop} {tokens : List Token}

@[simp] theorem derives_word {kind : TokenKind} :
    Derives known (.word kind) tokens ↔ ∃ token, tokens = [token] ∧ token.kind = kind := by
  constructor
  · rintro (same | _)
    exact ⟨_, rfl, same⟩
  · rintro ⟨token, rfl, same⟩
    exact .word same

@[simp] theorem derives_structName : Derives known .structName tokens ↔
    ∃ token, tokens = [token] ∧ token.kind = .identifier ∧ known token.text := by
  constructor
  · rintro (_ | ⟨isWord, isKnown⟩)
    exact ⟨_, rfl, isWord, isKnown⟩
  · rintro ⟨token, rfl, isWord, isKnown⟩
    exact .structName isWord isKnown

theorem derives_symbol {symbol : Symbol} :
    Derives known (.symbol symbol) tokens ↔ Derives known (production symbol) tokens := by
  constructor
  · intro derives
    cases derives with
    | symbol derives => exact derives
  · exact .symbol

@[simp] theorem derives_row_nil : Derives known (.row []) tokens ↔ tokens = [] := by
  constructor
  · intro derives
    cases derives
    rfl
  · rintro rfl
    exact .none

@[simp] theorem derives_row_cons {rule : Rule} {rules : List Rule} :
    Derives known (.row (rule :: rules)) tokens ↔
      ∃ first rest, tokens = first ++ rest ∧ Derives known rule first ∧
        Derives known (.row rules) rest := by
  constructor
  · intro derives
    cases derives with
    | next one more => exact ⟨_, _, rfl, one, more⟩
  · rintro ⟨first, rest, rfl, one, more⟩
    exact .next one more

@[simp] theorem derives_oneOf {rules : List Rule} :
    Derives known (.oneOf rules) tokens ↔ ∃ rule ∈ rules, Derives known rule tokens := by
  constructor
  · intro derives
    cases derives with
    | oneOf member derives => exact ⟨_, member, derives⟩
  · rintro ⟨rule, member, derives⟩
    exact .oneOf member derives

theorem derives_many {rule : Rule} : Derives known (.many rule) tokens ↔
    tokens = [] ∨ ∃ first rest, tokens = first ++ rest ∧ Derives known rule first ∧
      Derives known (.many rule) rest := by
  constructor
  · intro derives
    cases derives with
    | stop => exact Or.inl rfl
    | again one more => exact Or.inr ⟨_, _, rfl, one, more⟩
  · rintro (rfl | ⟨first, rest, rfl, one, more⟩)
    · exact .stop
    · exact .again one more

@[simp] theorem derives_optional {rule : Rule} :
    Derives known (optional rule) tokens ↔ tokens = [] ∨ Derives known rule tokens := by
  simp [Rule.optional]

theorem Derives.append {front behind : List Rule} {first rest : List Token}
    (one : Derives known (.row front) first) (two : Derives known (.row behind) rest) :
    Derives known (.row (front ++ behind)) (first ++ rest) := by
  induction front generalizing first with
  | nil =>
    cases one
    exact two
  | cons rule front ih =>
    cases one with
    | next head more =>
      rw [List.append_assoc]
      exact .next head (ih more)

/-- The last word of a row. -/
theorem Derives.lastWord {front : List Rule} {kind : TokenKind}
    (derives : Derives known (.row (front ++ [.word kind])) tokens) :
    ∃ early last, tokens = early ++ [last] ∧ last.kind = kind := by
  induction front generalizing tokens with
  | nil =>
    simp only [List.nil_append, derives_row_cons, derives_row_nil, derives_word] at derives
    obtain ⟨_, _, rfl, ⟨last, rfl, same⟩, rfl⟩ := derives
    exact ⟨[], last, rfl, same⟩
  | cons rule front ih =>
    rw [List.cons_append, derives_row_cons] at derives
    obtain ⟨first, rest, rfl, -, more⟩ := derives
    obtain ⟨early, last, rfl, same⟩ := ih more
    exact ⟨first ++ early, last, (List.append_assoc ..).symm, same⟩

theorem Derives.manyAppend {rule : Rule} {first rest : List Token}
    (one : Derives known (.many rule) first) (two : Derives known (.many rule) rest) :
    Derives known (.many rule) (first ++ rest) := by
  generalize whole : Rule.many rule = many at one
  induction one with
  | stop =>
    cases whole
    exact two
  | again head more _ ih =>
    cases whole
    rw [List.append_assoc]
    exact .again head (ih rfl)
  | _ => cases whole

end Shapes

section Levels

variable {known : Text → Prop} {tokens : List Token}

theorem production_joined {level : Level} (loose : Level.or.rank ≤ level.rank)
    (tight : level.rank ≤ Level.factor.rank) :
    production (.operand level) = joined level.tighter (operators level) := by
  cases level <;> first | rfl | (simp [Level.rank] at loose tight)

theorem rank_tighter {level : Level} (below : level.rank < Level.primary.rank) :
    level.tighter.rank = level.rank + 1 := by
  cases level <;> first | rfl | exact absurd below (by decide)

/-- What binds more tightly stands wherever something looser may. -/
theorem Derives.looser {level : Level}
    (derives : Derives known (.symbol (.operand level.tighter)) tokens) :
    Derives known (.symbol (.operand level)) tokens := by
  have alone : ∀ {one : Level} {kinds : List TokenKind},
      Derives known (.symbol (.operand one)) tokens → Derives known (joined one kinds) tokens := by
    intro one kinds derives
    have whole := Derives.next derives (.next (.stop : Derives known (.many (.row
      [.oneOf (kinds.map .word), .symbol (.operand one)])) []) .none)
    rwa [List.append_nil, List.append_nil] at whole
  refine .symbol ?_
  cases level with
  | none => exact derives
  | assignment => exact .oneOf (by simp [Level.tighter]) derives
  | unary => exact .oneOf (by simp [Level.tighter]) derives
  | call =>
    have whole := Derives.next derives (.next (.stop : Derives known (.many suffix) []) .none)
    rwa [List.append_nil, List.append_nil] at whole
  | primary => exact derives_symbol.mp derives
  | or | and | equality | comparison | term | factor => exact alone derives

theorem Derives.climb {loose tight : Level} (below : loose.rank ≤ tight.rank)
    (derives : Derives known (.symbol (.operand tight)) tokens) :
    Derives known (.symbol (.operand loose)) tokens := by
  induction apart : tight.rank - loose.rank generalizing loose with
  | zero =>
    have same : loose = tight := by
      cases loose <;> cases tight <;> simp_all [Level.rank]
    rwa [same]
  | succ count ih =>
    have next : loose.tighter.rank = loose.rank + 1 := by
      cases loose <;> first | rfl | (cases tight <;> simp [Level.rank] at apart)
    exact (ih (by omega) (by omega)).looser

/-- A binary operator between an operand of its level and a tighter one. -/
theorem Derives.operator {level : Level} {left right : List Token} {operator : Token}
    (loose : Level.or.rank ≤ level.rank) (tight : level.rank ≤ Level.factor.rank)
    (isOperator : operator.kind ∈ operators level)
    (one : Derives known (.symbol (.operand level)) left)
    (two : Derives known (.symbol (.operand level.tighter)) right) :
    Derives known (.symbol (.operand level)) (left ++ operator :: right) := by
  rw [derives_symbol, production_joined loose tight] at one ⊢
  simp only [joined, derives_row_cons, derives_row_nil] at one ⊢
  obtain ⟨first, _, rfl, head, more, _, rfl, links, rfl⟩ := one
  have link : Derives known (.row [.oneOf ((operators level).map .word),
      .symbol (.operand level.tighter)]) (operator :: right) := by
    have whole := Derives.next
      (.oneOf (List.mem_map_of_mem isOperator) (.word rfl) : Derives known
        (.oneOf ((operators level).map .word)) [operator]) (.next two .none)
    simpa using whole
  refine ⟨first, _, ?_, head, _, [], (List.append_nil _).symm, links.manyAppend (.again link .stop),
    rfl⟩
  simp

/-- An operator between two operands of its level. -/
theorem Derives.link {level : Level} {left right : List Token} {operator : Token}
    (loose : Level.or.rank ≤ level.rank) (tight : level.rank ≤ Level.factor.rank)
    (isOperator : operator.kind ∈ operators level)
    (one : Derives known (.symbol (.operand level)) left)
    (two : Derives known (.symbol (.operand level)) right) :
    Derives known (.symbol (.operand level)) (left ++ operator :: right) := by
  rw [derives_symbol, production_joined loose tight] at two
  simp only [joined, derives_row_cons, derives_row_nil] at two
  obtain ⟨first, _, rfl, head, more, _, rfl, links, rfl⟩ := two
  have front := Derives.operator loose tight isOperator one head
  rw [derives_symbol, production_joined loose tight] at front ⊢
  simp only [joined, derives_row_cons, derives_row_nil] at front ⊢
  obtain ⟨start, _, same, begins, between, _, rfl, early, rfl⟩ := front
  refine ⟨start, _, ?_, begins, _, [], (List.append_nil _).symm, early.manyAppend links, rfl⟩
  rw [List.append_nil] at same
  rw [List.append_nil, ← List.append_assoc, ← same]
  simp

/-- A call or a property of what has been called before. -/
theorem Derives.suffixed {callee behind : List Token}
    (one : Derives known (.symbol (.operand .call)) callee) (two : Derives known suffix behind) :
    Derives known (.symbol (.operand .call)) (callee ++ behind) := by
  rw [derives_symbol] at one ⊢
  simp only [production, derives_row_cons, derives_row_nil] at one ⊢
  obtain ⟨first, _, rfl, head, more, _, rfl, suffixes, rfl⟩ := one
  refine ⟨first, _, ?_, head, _, [], (List.append_nil _).symm, suffixes.manyAppend (.again two .stop),
    rfl⟩
  simp

end Levels

section Continuations

variable {kind : TokenKind} {continuation : Continuation} {strength : Level}

/-- Every continuation of an operand stands in the grammar on the level of its strength. -/
theorem continuation_cases (found : Continuation.of? kind = some (continuation, strength)) :
    (continuation = .call ∧ strength = .call ∧ kind = .leftParen) ∨
      (continuation = .property ∧ strength = .call ∧ kind = .dot) ∨
      (continuation = .and ∧ strength = .and ∧ kind = .andWord) ∨
      (continuation = .or ∧ strength = .or ∧ kind = .orWord) ∨
      continuation = .binary ∧ Level.equality.rank ≤ strength.rank ∧
        strength.rank ≤ Level.factor.rank ∧ kind ∈ operators strength := by
  cases kind <;> simp only [Continuation.of?, Option.some.injEq, Prod.mk.injEq, reduceCtorEq] at found
  all_goals
    obtain ⟨rfl, rfl⟩ := found
    decide

theorem operator_strength {level : Level} (isOperator : kind ∈ operators level) :
    ∃ continuation, Continuation.of? kind = some (continuation, level) := by
  cases level <;> simp only [operators, List.mem_cons, List.not_mem_nil, or_false] at isOperator
  all_goals rcases isOperator with rfl | rfl | rfl | rfl
  all_goals exact ⟨_, rfl⟩

theorem strength_bounds (found : Continuation.of? kind = some (continuation, strength)) :
    Level.or.rank ≤ strength.rank ∧ strength.rank ≤ Level.call.rank := by
  rcases continuation_cases found with ⟨-, rfl, -⟩ | ⟨-, rfl, -⟩ | ⟨-, rfl, -⟩ | ⟨-, rfl, -⟩
    | ⟨-, loose, tight, -⟩
  · decide
  · decide
  · decide
  · decide
  · exact ⟨Nat.le_trans (by decide) loose, Nat.le_trans tight (by decide)⟩

end Continuations

section Commas

variable {known : Text → Prop} {rule : Rule} {tokens : List Token}

/-- A comma list may be read from the left: items with commas behind them, and a last one. -/
theorem Derives.commaList {front item : List Token}
    (begins : Derives known (.many (.row [rule, .word .comma])) front)
    (ends : Derives known rule item) : Derives known (commaList rule) (front ++ item) := by
  generalize whole : Rule.many (.row [rule, .word .comma]) = many at begins
  induction begins with
  | stop =>
    cases whole
    have alone := Derives.next ends
      (.next (.stop : Derives known (.many (.row [.word .comma, rule])) []) .none)
    rwa [List.append_nil, List.append_nil] at alone
  | @again _ first rest head more _ ih =>
    cases whole
    simp only [derives_row_cons, derives_row_nil, derives_word] at head
    obtain ⟨one, _, rfl, here, _, _, rfl, ⟨comma, rfl, isComma⟩, rfl⟩ := head
    have behind := ih rfl
    simp only [Rule.commaList, derives_row_cons, derives_row_nil] at behind ⊢
    obtain ⟨second, _, same, next, links, _, rfl, items, rfl⟩ := behind
    rw [List.append_nil] at same
    have link := Derives.next (.word isComma) (.next next .none)
    refine ⟨one, _, ?_, here, _, [], (List.append_nil _).symm, .again link items, rfl⟩
    simp [same]
  | _ => cases whole

theorem derives_many_cases (derives : Derives known (.many rule) tokens) :
    tokens = [] ∨ ∃ front last, tokens = front ++ last ∧ Derives known (.many rule) front ∧
      Derives known rule last := by
  generalize whole : Rule.many rule = many at derives
  induction derives with
  | stop => exact Or.inl rfl
  | @again _ first rest head more _ ih =>
    cases whole
    rcases ih rfl with rfl | ⟨front, last, rfl, early, late⟩
    · exact Or.inr ⟨[], first, by simp, .stop, head⟩
    · exact Or.inr ⟨first ++ front, last, by simp, .again head early, late⟩
  | _ => cases whole

/-- The last comma of a brace list may be left out, and so may the whole list. -/
theorem Derives.braceList {front : List Token}
    (begins : Derives known (.many (.row [rule, .word .comma])) front) :
    Derives known (braceList rule) front := by
  rw [Rule.braceList, derives_optional]
  refine (derives_many_cases begins).imp_right fun ⟨early, last, same, items, item⟩ => ?_
  simp only [derives_row_cons, derives_row_nil] at item
  obtain ⟨one, _, rfl, here, _, _, rfl, comma, rfl⟩ := item
  have whole := Derives.next (items.commaList here)
    (.next (derives_optional.mpr (Or.inr comma)) .none)
  rw [same]
  simpa using whole

theorem Derives.braceListOpen (derives : Derives known (Rule.commaList rule) tokens) :
    Derives known (Rule.braceList rule) tokens := by
  have whole := Derives.next derives
    (.next (derives_optional.mpr (Or.inl rfl) : Derives known (optional (.word .comma)) []) .none)
  rw [List.append_nil, List.append_nil] at whole
  exact derives_optional.mpr (Or.inr whole)

end Commas

section Openings

variable {known : Text → Prop} {tokens rest : List Token}

/-- The first token of an expression. A function without a name has its parameters next. -/
def Opens (tokens : List Token) : Prop :=
  ∃ first rest, tokens = first :: rest ∧ (Opening.of? first.kind).isSome ∧
    (first.kind = .fnWord → ∃ second, rest.head? = some second ∧ second.kind = .leftParen)

theorem Opens.append (opens : Opens tokens) : Opens (tokens ++ rest) := by
  obtain ⟨first, behind, rfl, isOpening, isFunction⟩ := opens
  refine ⟨first, behind ++ rest, rfl, isOpening, fun isFn => ?_⟩
  obtain ⟨second, next, isParen⟩ := isFunction isFn
  exact ⟨second, by rw [List.head?_append, next]; rfl, isParen⟩

theorem opens_token {first : Token} (isOpening : (Opening.of? first.kind).isSome)
    (other : first.kind ≠ .fnWord) : Opens (first :: rest) :=
  ⟨first, rest, rfl, isOpening, fun isFn => absurd isFn other⟩

theorem opens_primary (derives : Derives known (.symbol (.operand .primary)) tokens) :
    Opens tokens := by
  rw [derives_symbol] at derives
  simp only [production, derives_oneOf, List.mem_cons, List.not_mem_nil, or_false,
    exists_eq_or_imp, exists_eq_left, derives_word, derives_row_cons, derives_row_nil,
    derives_symbol, derives_structName, function] at derives
  rcases derives with ⟨token, rfl, isKind⟩ | ⟨token, rfl, isKind⟩ | ⟨token, rfl, isKind⟩
    | ⟨token, rfl, isKind⟩ | ⟨token, rfl, isKind⟩ | ⟨token, rfl, isKind⟩ | ⟨token, rfl, isKind⟩
    | ⟨_, _, rfl, ⟨token, rfl, isKind⟩, _⟩ | ⟨_, _, rfl, ⟨token, rfl, isKind, _⟩, _⟩
    | ⟨_, _, rfl, ⟨token, rfl, isKind⟩, _⟩
    | ⟨_, _, rfl, ⟨token, rfl, isKind⟩, _, _, rfl, ⟨_, _, rfl, ⟨paren, rfl, isParen⟩, _⟩, _⟩
  case inr.inr.inr.inr.inr.inr.inr.inr.inr.inr =>
    exact ⟨token, _, rfl, by rw [isKind]; rfl, fun _ => ⟨paren, rfl, isParen⟩⟩
  all_goals exact opens_token (by rw [isKind]; rfl) (by rw [isKind]; decide)

theorem opens_joined {level : Level} {kinds : List TokenKind}
    (opens : ∀ first, Derives known (.symbol (.operand level)) first → Opens first)
    (derives : Derives known (joined level kinds) tokens) : Opens tokens := by
  rw [joined, derives_row_cons] at derives
  obtain ⟨first, rest, rfl, head, _⟩ := derives
  exact (opens first head).append

theorem opens_call (derives : Derives known (.symbol (.operand .call)) tokens) : Opens tokens := by
  rw [derives_symbol, production, derives_row_cons] at derives
  obtain ⟨first, rest, rfl, head, _⟩ := derives
  exact (opens_primary head).append

theorem opens_unary (derives : Derives known (.symbol (.operand .unary)) tokens) :
    Opens tokens := by
  rw [derives_symbol] at derives
  simp only [production, derives_oneOf, List.mem_cons, List.not_mem_nil, or_false,
    exists_eq_or_imp, exists_eq_left, derives_row_cons, derives_word] at derives
  rcases derives with ⟨_, _, rfl, ⟨token, rfl, isKind⟩ | ⟨token, rfl, isKind⟩, _⟩ | call
  · exact opens_token (by rw [isKind]; rfl) (by rw [isKind]; decide)
  · exact opens_token (by rw [isKind]; rfl) (by rw [isKind]; decide)
  · exact opens_call call

theorem opens_assignment (derives : Derives known (.symbol (.operand .assignment)) tokens) :
    Opens tokens := by
  rw [derives_symbol] at derives
  simp only [production, derives_oneOf, List.mem_cons, List.not_mem_nil, or_false,
    exists_eq_or_imp, exists_eq_left, derives_row_cons, derives_word, derives_optional] at derives
  rcases derives with ⟨_, _, rfl, rfl | ⟨_, _, rfl, call, _⟩, _, _, rfl, ⟨name, rfl, isKind⟩, _⟩ | or
  · exact opens_token (by rw [isKind]; rfl) (by rw [isKind]; decide)
  · exact (opens_call call).append.append
  · -- down the ladder of binary operators
    have down : ∀ level : Level, Level.or.rank ≤ level.rank → level.rank ≤ Level.unary.rank →
        ∀ first, Derives known (.symbol (.operand level)) first → Opens first := by
      intro level loose tight
      induction apart : Level.unary.rank - level.rank generalizing level with
      | zero =>
        have same : level = .unary := by
          cases level <;> simp_all [Level.rank]
        rw [same]
        exact fun _ => opens_unary
      | succ count ih =>
        have high : level.rank ≤ Level.factor.rank := by
          simp only [Level.rank] at apart ⊢
          omega
        have next := rank_tighter (Nat.lt_of_le_of_lt high (by decide))
        intro first derives
        rw [derives_symbol, production_joined loose high] at derives
        exact opens_joined (ih level.tighter (by omega) (by omega) (by omega)) derives
    exact down .or (Nat.le_refl _) (by decide) _ or

theorem opens_operand {level : Level} (derives : Derives known (.symbol (.operand level)) tokens) :
    Opens tokens := by
  cases level with
  | none => exact opens_assignment (derives_symbol.mp derives)
  | _ => exact opens_assignment (derives.climb (by decide))

/-- A rule that begins with a word. -/
theorem derives_keyword {symbol : Symbol} {kind : TokenKind} {rules : List Rule}
    (derives : Derives known (.symbol symbol) tokens)
    (means : production symbol = .row (.word kind :: rules)) :
    ∃ first rest, tokens = first :: rest ∧ first.kind = kind ∧ Derives known (.row rules) rest := by
  rw [derives_symbol, means, derives_row_cons] at derives
  obtain ⟨_, rest, rfl, head, derives⟩ := derives
  obtain ⟨first, rfl, isKind⟩ := derives_word.mp head
  exact ⟨first, rest, rfl, isKind, derives⟩

theorem starts_word {symbol : Symbol} {kind : TokenKind} {rules : List Rule}
    (derives : Derives known (.symbol symbol) tokens)
    (means : production symbol = .row (.word kind :: rules)) :
    ∃ first rest, tokens = first :: rest ∧ first.kind = kind := by
  obtain ⟨first, rest, same, isKind, -⟩ := derives_keyword derives means
  exact ⟨first, rest, same, isKind⟩

/-- The words that a statement may begin with. -/
def beginsStatement : TokenKind → Bool
  | .printWord | .ifWord | .whileWord | .forWord | .returnWord | .leftBrace => true
  | kind => (Opening.of? kind).isSome

/-- The words that a declaration inside a block may begin with. -/
def beginsInner : TokenKind → Bool
  | .varWord => true
  | kind => beginsStatement kind

theorem beginsStatement_of_opening {kind : TokenKind} (opens : (Opening.of? kind).isSome) :
    beginsStatement kind = true := by
  cases kind <;> first | rfl | cases opens

theorem beginsInner_of_statement {kind : TokenKind} (begins : beginsStatement kind = true) :
    beginsInner kind = true := by
  cases kind <;> first | rfl | exact begins

/-- Where a statement begins with a function, that has no name. -/
theorem starts_statement (derives : Derives known (.symbol .statement) tokens) :
    ∃ first rest, tokens = first :: rest ∧ beginsStatement first.kind = true ∧
      (first.kind = .fnWord → ∃ second, rest.head? = some second ∧ second.kind = .leftParen) := by
  have word : ∀ {symbol : Symbol} {kind : TokenKind} {rules : List Rule},
      Derives known (.symbol symbol) tokens → production symbol = .row (.word kind :: rules) →
      beginsStatement kind = true → kind ≠ .fnWord →
      ∃ first rest, tokens = first :: rest ∧ beginsStatement first.kind = true ∧
        (first.kind = .fnWord → ∃ second, rest.head? = some second ∧ second.kind = .leftParen) := by
    intro symbol kind rules derives means begins other
    obtain ⟨first, rest, same, rfl⟩ := starts_word derives means
    exact ⟨first, rest, same, begins, fun isFn => absurd isFn other⟩
  rw [derives_symbol] at derives
  simp only [production, derives_oneOf, List.mem_cons, List.not_mem_nil, or_false,
    exists_eq_or_imp, exists_eq_left] at derives
  rcases derives with derives | derives | derives | derives | derives | derives | derives
  case inr.inr.inr.inr.inr.inr =>
    rw [derives_symbol, production, derives_row_cons] at derives
    obtain ⟨_, behind, rfl, head, -⟩ := derives
    have opens : Opens (_ ++ behind) := (opens_operand head).append
    obtain ⟨first, rest, same, isOpening, isFunction⟩ := opens
    exact ⟨first, rest, same, beginsStatement_of_opening isOpening, isFunction⟩
  all_goals exact word derives rfl rfl (by decide)

theorem starts_inner (derives : Derives known (.symbol .inner) tokens) :
    ∃ first rest, tokens = first :: rest ∧ beginsInner first.kind = true := by
  rw [derives_symbol] at derives
  simp only [production, derives_oneOf, List.mem_cons, List.not_mem_nil, or_false,
    exists_eq_or_imp, exists_eq_left] at derives
  rcases derives with derives | derives | derives
  · obtain ⟨first, rest, same, isFn⟩ := starts_word derives rfl
    exact ⟨first, rest, same, by rw [isFn]; rfl⟩
  · obtain ⟨first, rest, same, isVar⟩ := starts_word derives rfl
    exact ⟨first, rest, same, by rw [isVar]; rfl⟩
  · obtain ⟨first, rest, same, begins, -⟩ := starts_statement derives
    exact ⟨first, rest, same, beginsInner_of_statement begins⟩

/-- Only the declaration of a struct makes one known. -/
theorem declaring_other {first : Token} (other : first.kind ≠ .structWord) :
    declaring known (first :: rest) = known := by
  cases rest with
  | nil => rfl
  | cons second rest =>
    funext text
    simp [declaring, other]

end Openings

section Words

mutual

/-- No malformed token is asked for. -/
def Rule.legible : Rule → Bool
  | .word kind => kind != .malformed
  | .structName => true
  | .symbol _ => true
  | .row rules => legibleAll rules
  | .oneOf rules => legibleAll rules
  | .many rule => rule.legible

def Rule.legibleAll : List Rule → Bool
  | [] => true
  | rule :: rules => rule.legible && legibleAll rules

end

theorem legible_of_mem {rule : Rule} {rules : List Rule} (all : legibleAll rules = true)
    (member : rule ∈ rules) : rule.legible = true := by
  induction rules with
  | nil => cases member
  | cons first rest ih =>
    rw [legibleAll, Bool.and_eq_true] at all
    rcases List.mem_cons.mp member with rfl | member
    · exact all.1
    · exact ih all.2 member

theorem legible_production (symbol : Symbol) : (production symbol).legible = true := by
  cases symbol with
  | operand level => cases level <;> rfl
  | _ => rfl

variable {known : Text → Prop} {tokens : List Token}

theorem Derives.legible {rule : Rule} (derives : Derives known rule tokens)
    (legible : rule.legible = true) : ∀ token ∈ tokens, token.kind ≠ .malformed := by
  induction derives with
  | word same =>
    intro token member
    rw [List.mem_singleton.mp member, same]
    simpa [Rule.legible] using legible
  | structName isName =>
    intro token member
    rw [List.mem_singleton.mp member, isName]
    decide
  | symbol _ ih => exact ih (legible_production _)
  | none | stop =>
    intro token member
    cases member
  | next _ _ one more =>
    rw [Rule.legible, legibleAll, Bool.and_eq_true] at legible
    intro token member
    rcases List.mem_append.mp member with member | member
    · exact one legible.1 token member
    · exact more legible.2 token member
  | oneOf member _ ih =>
    rw [Rule.legible] at legible
    exact ih (legible_of_mem legible member)
  | again _ _ one more =>
    intro token member
    rcases List.mem_append.mp member with member | member
    · exact one (by simpa [Rule.legible] using legible) token member
    · exact more legible token member

theorem Program.legible (program : Program known tokens) :
    ∀ token ∈ tokens, token.kind ≠ .malformed := by
  induction program with
  | nothing =>
    intro token member
    cases member
  | declaration derives _ ih =>
    intro token member
    rcases List.mem_append.mp member with member | member
    · exact derives.legible rfl token member
    · exact ih token member

end Words

end ScriptMachine.Syntax
