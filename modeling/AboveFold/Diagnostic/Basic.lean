import AboveFold.Token.Basic

/-!
# Diagnostics

A diagnostic says what is wrong with a stylesheet and where; notes add context and advice. Reading
goes on after each. The functions at the end build one diagnostic for each cause that the grammar
knows.
-/

namespace AboveFold
open Source

namespace Diagnostic

/-- What a note is for. -/
inductive NoteKind where
  | general
  | help
deriving DecidableEq, Repr

/-- Context or advice beside a diagnostic, perhaps about another place. -/
structure Note where
  kind : NoteKind
  message : String
  span : Option Span
deriving DecidableEq, Repr

namespace Note

/-- Context without a place. -/
def general (message : String) : Note := ⟨.general, message, none⟩

/-- Context at another place. -/
def pointing (message : String) (span : Span) : Note := ⟨.general, message, some span⟩

/-- Advice. -/
def help (message : String) : Note := ⟨.help, message, none⟩

end Note

/-- The kinds of diagnostic, with what a program needs to act on one. -/
inductive Kind where
  | unexpectedToken (expected : List String) (found : String)
  | unexpectedEof (expected : List String)
  | lexerError
  | unclosedDelimiter (delimiter : Char)
  | mismatchedDelimiter (expected found : Char)
  | invalidDeclaration
  | emptySelector
  | invalidSyntax
deriving DecidableEq, Repr

/-- The kind in words. -/
def Kind.message : Kind → String
  | unexpectedToken _ found => s!"unexpected token: `{found}`"
  | unexpectedEof _ => "unexpected end of input"
  | lexerError => "lexer error"
  | unclosedDelimiter delimiter => s!"unclosed delimiter: `{delimiter}`"
  | mismatchedDelimiter _ _ => "mismatched delimiter"
  | invalidDeclaration => "invalid declaration"
  | emptySelector => "empty selector"
  | invalidSyntax => "invalid syntax"

/-- The construct that an opening bracket belongs to. -/
inductive Construct where
  | ruleBlock
  | atRuleBlock
  | functionArguments
  | parenthesizedGroup
  | bracketedGroup
  | bracedGroup
deriving DecidableEq, Repr

/-- The construct in words. -/
def Construct.description : Construct → String
  | ruleBlock => "rule block"
  | atRuleBlock => "at-rule block"
  | functionArguments => "function arguments"
  | parenthesizedGroup => "parenthesized group"
  | bracketedGroup => "bracketed group"
  | bracedGroup => "braced group"

/-- A bracket that was opened: what it belongs to and where it stands. -/
structure Opening where
  construct : Construct
  span : Span
deriving DecidableEq, Repr

end Diagnostic

/-- What is wrong, and where. -/
structure Diagnostic where
  message : String
  span : Span
  kind : Diagnostic.Kind
  notes : List Diagnostic.Note
deriving DecidableEq, Repr

namespace Diagnostic

/-- Text that starts like a token and is none. -/
def lexical (fault : Token.Fault) (span : Span) : Diagnostic :=
  ⟨fault.message, span, .lexerError, [.help fault.advice]⟩

/-- A closing brace between top-level rules. -/
def strayBrace (span : Span) : Diagnostic :=
  ⟨"Unexpected `\x7d` with no matching `\x7b`", span, .unexpectedToken [] "\x7d",
    [.help "Remove the stray `\x7d`"]⟩

/-- A closing bracket inside a value or prelude that closes nothing there. -/
def strayCloser (text : String) (span : Span) : Diagnostic :=
  ⟨s!"Unexpected `{text}` with no matching opener", span, .unexpectedToken [] text,
    [.help s!"Remove the stray `{text}`"]⟩

/-- The end of input before a bracket was closed. -/
def unclosed (opening : Option Opening) (openChar closeChar : Char) (span : Span) : Diagnostic :=
  ⟨s!"Unclosed `{openChar}`", span, .unclosedDelimiter openChar,
    opening.toList.map (fun o => .pointing s!"`{openChar}` of this {o.construct.description} opened here" o.span)
      ++ [.help s!"Add a closing `{closeChar}`"]⟩

/-- A closing brace while a function or group is open. -/
def mismatched (opening : Option Opening) (closeChar : Char) (span : Span) : Diagnostic :=
  ⟨s!"Expected `{closeChar}` before `\x7d`", span, .mismatchedDelimiter closeChar '\x7d',
    opening.toList.map fun o => .pointing s!"The {o.construct.description} opened here" o.span⟩

/-- Brackets nested deeper than the limit. -/
def tooDeep (span : Span) : Diagnostic :=
  ⟨"Maximum nesting depth exceeded", span, .invalidSyntax,
    [.general "The nested content is kept as unparsed text"]⟩

/-- The end of input before the block of a rule that starts at `rule`. -/
def missingBlock (span rule : Span) : Diagnostic :=
  ⟨"Expected `\x7b` after selector, found end of input", span, .unexpectedEof ["\x7b"],
    [.pointing "The rule starts here" rule]⟩

/-- Another token where the block of a rule should be. -/
def expectedBlock (found : String) (span : Span) : Diagnostic :=
  ⟨s!"Expected `\x7b` after selector, found {found}", span, .unexpectedToken ["\x7b"] found,
    [.general "The rule is kept as unparsed text"]⟩

/-- A selector list with nothing between two commas. -/
def missingSelector (span : Span) : Diagnostic :=
  ⟨"Expected a selector", span, .emptySelector, [.help "Remove the extra `,` or add a selector"]⟩

/-- A property that no colon follows. -/
def missingColon (property found : String) (span : Span) : Diagnostic :=
  ⟨s!"Expected `:` after property name `{property}`, found {found}", span,
    .unexpectedToken [":"] found, [.help "Declarations are written as `property: value`"]⟩

/-- A declaration without a value. -/
def missingValue (property : String) (span : Span) : Diagnostic :=
  ⟨s!"Expected a value for property `{property}`", span, .invalidDeclaration,
    [.general "The declaration is kept as unparsed text"]⟩

end Diagnostic

end AboveFold
