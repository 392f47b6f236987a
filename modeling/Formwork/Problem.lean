import Formwork.Node.Print

namespace Formwork

/-!
# Problems

What can be wrong with a document, one constructor for each cause. A problem belongs to a
`Category`, has a short word for machines (`suffix`) and a sentence for people (`message`).
-/

/-- The kinds of work in which problems are found. -/
inductive Category where
  | parse
  | invocation
  | template
  | expansion
  | inclusion
  | resolution
  deriving DecidableEq, Repr, Inhabited

namespace Category

/-- The word for a category in diagnostic codes. -/
def text : Category → String
  | parse => "parse"
  | invocation => "invocation"
  | template => "template"
  | expansion => "expansion"
  | inclusion => "include"
  | resolution => "resolution"

/-- What is written beside a place in the document that a report of the category points at. -/
def label : Category → String
  | parse => "here"
  | invocation => "in this invocation"
  | template => "in this template"
  | expansion => "while expanding this"
  | inclusion => "included here"
  | resolution => "referenced here"

end Category

/-- What is wrong. -/
inductive Problem where
  -- scanning
  | mismatchedClose (expected found : Char)
  | unbalancedClose (found : Char)
  | unclosedGroups (count : Nat)
  | unterminatedString
  | nestingTooDeep (limit : Nat)
  -- reading invocations
  | emptyInvocation
  | headNotAtom
  | notAList
  | duplicateKeyword (key : String)
  | keywordAfterPositional (key : String)
  | missingKeywordValue (key : String)
  -- defining templates
  | malformedTemplate
  | malformedParameter (text : String)
  | duplicateParameter (name : String)
  | unboundPlaceholder (name : String)
  | positionalOutOfOrder (index : String)
  | mandatoryAfterOptional (index : String)
  | duplicateTemplate (name : String)
  -- expanding
  | missingArgument (name argument : String)
  | unexpectedArgument (name argument : String)
  | tooFewArguments (name : String) (min found : Nat)
  | tooManyArguments (name : String) (max found : Nat)
  | recursiveExpansion (name : String)
  | expansionDepthExceeded (limit : Nat)
  | macroArgument (name message : String)
  -- including
  | unresolvableInclude (reason : String)
  | recursiveInclude (id : String)
  -- resolving references
  | unresolvedIdentifier (id : String)
  | duplicateDefinition (id : String)
  | kindMismatch (id expected found : String)
  | noAcceptingScope (id kind : String)
  deriving DecidableEq, Repr, Inhabited

namespace Problem

/-- The work in which the problem is found. -/
def category : Problem → Category
  | mismatchedClose .. | unbalancedClose .. | unclosedGroups .. | unterminatedString
  | nestingTooDeep .. => .parse
  | emptyInvocation | headNotAtom | notAList | duplicateKeyword .. | keywordAfterPositional ..
  | missingKeywordValue .. => .invocation
  | malformedTemplate | malformedParameter .. | duplicateParameter .. | unboundPlaceholder ..
  | positionalOutOfOrder .. | mandatoryAfterOptional .. | duplicateTemplate .. => .template
  | missingArgument .. | unexpectedArgument .. | tooFewArguments .. | tooManyArguments ..
  | recursiveExpansion .. | expansionDepthExceeded .. | macroArgument .. => .expansion
  | unresolvableInclude .. | recursiveInclude .. => .inclusion
  | unresolvedIdentifier .. | duplicateDefinition .. | kindMismatch .. | noAcceptingScope .. =>
    .resolution

/-- The word for the problem in diagnostic codes. -/
def suffix : Problem → String
  | mismatchedClose .. => "mismatched_close"
  | unbalancedClose .. => "unbalanced_close"
  | unclosedGroups .. => "unclosed_groups"
  | unterminatedString => "unterminated_string"
  | nestingTooDeep .. => "nesting_too_deep"
  | emptyInvocation => "empty_invocation"
  | headNotAtom => "head_not_atom"
  | notAList => "not_a_list"
  | duplicateKeyword .. => "duplicate_keyword"
  | keywordAfterPositional .. => "keyword_after_positional"
  | missingKeywordValue .. => "missing_keyword_value"
  | malformedTemplate => "malformed_template"
  | malformedParameter .. => "malformed_parameter"
  | duplicateParameter .. => "duplicate_parameter"
  | unboundPlaceholder .. => "unbound_placeholder"
  | positionalOutOfOrder .. => "positional_out_of_order"
  | mandatoryAfterOptional .. => "mandatory_after_optional"
  | duplicateTemplate .. => "duplicate_template"
  | missingArgument .. => "missing_argument"
  | unexpectedArgument .. => "unexpected_argument"
  | tooFewArguments .. => "too_few_arguments"
  | tooManyArguments .. => "too_many_arguments"
  | recursiveExpansion .. => "recursive_expansion"
  | expansionDepthExceeded .. => "expansion_depth_exceeded"
  | macroArgument .. => "macro_argument"
  | unresolvableInclude .. => "unresolvable_include"
  | recursiveInclude .. => "recursive_include"
  | unresolvedIdentifier .. => "unresolved_identifier"
  | duplicateDefinition .. => "duplicate_definition"
  | kindMismatch .. => "kind_mismatch"
  | noAcceptingScope .. => "no_accepting_scope"

/-- The sentence that says what is wrong. -/
def message : Problem → String
  | mismatchedClose expected found => s!"unexpected '{found}', expected '{expected}'"
  | unbalancedClose found => s!"'{found}' does not close anything"
  | unclosedGroups count => s!"expected {count} more closing brackets"
  | unterminatedString => "unterminated quoted atom"
  | nestingTooDeep limit => s!"lists nested deeper than {limit} levels"
  | emptyInvocation => "an empty list was not expected here"
  | headNotAtom => "a word was expected here, not a list"
  | notAList => "a list was expected here, not a word"
  | duplicateKeyword key => s!"repeated keyword {key}:"
  | keywordAfterPositional key => s!"unexpected keyword {key}: after positional arguments"
  | missingKeywordValue key => s!"keyword {key}: has no value"
  | malformedTemplate => "a template should have the form (template name [arguments] body...)"
  | malformedParameter text =>
    s!"template arguments should be atoms like @arg or lists like [@arg default], not {text}"
  | duplicateParameter name => s!"repeated template argument @{name}"
  | unboundPlaceholder name =>
    s!"template body contains @{name}, which is not in the template's argument list"
  | positionalOutOfOrder index => s!"numbered template argument @{index} is out of order"
  | mandatoryAfterOptional index =>
    s!"mandatory numbered argument @{index} must come before every optional numbered argument"
  | duplicateTemplate name => s!"duplicate definition of template {name}"
  | missingArgument name argument => s!"{name} requires named argument {argument}"
  | unexpectedArgument name argument => s!"{name} does not expect argument {argument}"
  | tooFewArguments name min found =>
    s!"{name} expects at least {min} unnamed arguments, but there are {found}"
  | tooManyArguments name max found =>
    s!"{name} expects at most {max} unnamed arguments, but there are {found}"
  | recursiveExpansion name => s!"{name} expands recursively"
  | expansionDepthExceeded limit => s!"expansion nested deeper than {limit} levels"
  | macroArgument name message => s!"{name}: {message}"
  | unresolvableInclude reason => s!"unable to resolve include: {reason}"
  | recursiveInclude id => s!"{id} recursively includes itself"
  | unresolvedIdentifier id => s!"unresolved identifier #{id}"
  | duplicateDefinition id => s!"{id} is defined more than once in the same scope"
  | kindMismatch id expected found =>
    s!"#{id} refers to a {found}, but a {expected} is required here"
  | noAcceptingScope id kind => s!"no enclosing scope accepts a {kind} called {id}"

/-- The diagnostic code of the problem. -/
def code (p : Problem) : String := s!"sexpand::{p.category.text}::{p.suffix}"

end Problem

end Formwork
