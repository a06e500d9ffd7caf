import Krit.Basic

/-!
# Syntax

The trees that the parser builds.  Every expression and block carries the span of
its text, by which analysis records what it finds.
-/

namespace Krit

/-! ## Patterns -/

mutual

structure Pattern where
  kind : PatternKind
  span : Span

inductive PatternKind where
  /-- A name, which matches any value and binds it. -/
  | binder (name : String)
  /-- Matches any value and binds it as the discard name. -/
  | wildcard
  | variant (variant : VariantName) (payload : Option Pattern)
  | emptyList
  /-- The head and the tail are each a binder or a wildcard. -/
  | cons (head tail : Pattern)

end

instance : Inhabited Pattern := ⟨⟨.wildcard, default⟩⟩

/-- Whether the pattern matches every value: a name or `_`. -/
def Pattern.isCatchAll (pattern : Pattern) : Bool :=
  match pattern.kind with
  | .binder _ | .wildcard => true
  | _ => false

/-- A flat variant pattern, as written after `let` in a let-else. -/
structure VariantPattern where
  variant : VariantName
  binding : Option String
  span : Span

/-! ## Annotations -/

mutual

structure TypeAnnotation where
  kind : TypeKind
  span : Span

inductive TypeKind where
  | int
  | bool
  | string
  | unit
  | httpHeader
  | httpRequest
  | httpResponse
  | logField
  | queueJob
  | scheduleEvent
  | databaseTransaction
  | secret
  | list (element : TypeAnnotation)
  | option (element : TypeAnnotation)
  | result (value error : TypeAnnotation)
  | record (fields : List RecordTypeField)

structure RecordTypeField where
  name : String
  annotation : TypeAnnotation
  span : Span

end

structure Parameter where
  name : String
  annotation : Option TypeAnnotation
  span : Span

structure DocComment where
  text : String
  span : Span

/-! ## Contract records -/

/-- A built-in contract record type that named construction can build. -/
inductive ContractRecord where
  | httpRequest
  | httpResponse
  | httpHeader
  | logField
  deriving DecidableEq, Repr

/-! ## Expressions and statements -/

/-- A function, or an entrypoint with the resource that its host must grant. -/
inductive DeclarationKind where
  | function
  | webhook
  | queueConsumer (queue : String) (queueSpan : Span)
  | scheduleHandler (schedule : String) (scheduleSpan : Span)
  deriving DecidableEq, Repr

mutual

structure Expression where
  kind : ExpressionKind
  span : Span

inductive ExpressionKind where
  | literal (literal : ValueLiteral)
  /-- A string with holes, or a text block. -/
  | interpolation (parts : List StringPart)
  | unit
  | variable (name : String)
  | list (elements : List Expression)
  /-- The list of name/value records, one per entry. -/
  | entryList (entries : List ListEntry)
  | record (fields : List RecordField)
  /-- Named construction of a contract record; omitted fields take their
  defaults. -/
  | construct (contract : ContractRecord) (contractSpan : Span) (fields : List ConstructField)
  | fieldAccess (value : Expression) (field : String)
  | block (block : Block)
  | if (condition : Expression) (consequent : Block) (alternative : Expression)
  | function (parameters : List Parameter) (returnType : Option TypeAnnotation) (body : Block)
  | call (callee : Expression) (arguments : List Expression)
  /-- Postfix `?`. -/
  | propagate (operand : Expression) (question : Span)
  | match (subject : Expression) (arms : List MatchArm)
  | unary (operator : UnaryOperator) (operand : Expression)
  | binary (left : Expression) (operator : BinaryOperator) (right : Expression)

inductive StringPart where
  | text (value : String) (span : Span)
  | hole (value : Expression) (span : Span)

structure ListEntry where
  key : Expression
  value : Expression
  span : Span

structure RecordField where
  name : String
  value : Expression
  span : Span

structure ConstructField where
  name : String
  nameSpan : Span
  value : Expression
  span : Span

structure MatchArm where
  pattern : Pattern
  value : Expression
  span : Span

structure Block where
  statements : List Statement
  tail : Option Expression
  span : Span

structure Statement where
  kind : StatementKind
  span : Span

inductive StatementKind where
  | let (name : String) ( annotation : Option TypeAnnotation) (value : Expression)
  /-- Binds the payload of `value` when it matches `pattern`, and otherwise makes
  the enclosing function return the value of `arm`. -/
  | letElse (pattern : VariantPattern) ( annotation : Option TypeAnnotation) (value : Expression)
      (elseSpan : Span) (arm : VariantArm)
  | declaration (kind : DeclarationKind) (name : String) (parameters : List Parameter)
      (returnType : Option TypeAnnotation) (body : Block) (doc : Option DocComment)
  | expression (expression : Expression)

/-- The arm of a let-else. -/
structure VariantArm where
  variant : VariantName
  binding : Option String
  value : Expression
  span : Span

end

end Krit
