/-!
# Why a text is no YAML document

Everything that can be wrong with a text before its shape is looked at: characters, tokens, the
order of the tokens, aliases without an anchor, and more than one document.
-/

namespace FlatApi.Yaml

/-- The reason why a text is not one well-formed document. -/
inductive Malformed where
  | controlCharacter
  | missingColon
  | tabIndentation
  | entryNotAllowed
  | keyNotAllowed
  | valueNotAllowed
  | strayCharacter
  | directiveName
  | directiveVersion
  | directiveEnd
  | tagHandle
  | tagUri
  | tagEscape
  | tagEnd
  | anchorName
  | blockHeader
  | documentMarkInQuotes
  | unclosedQuote
  | escapeCode
  | escapeDigits
  | escapeScalar
  | ambiguousColon
  | repeatedDirective
  | unsupportedVersion
  | undefinedTagHandle
  | expectedDocumentStart
  | expectedNode
  | expectedBlockEntry
  | expectedKey
  | expectedFlowEntry
  | unknownAnchor
  | severalDocuments
  | incomplete
  deriving DecidableEq

namespace Malformed

/-- What a user is told. -/
def message : Malformed → String
  | controlCharacter => "control characters are not allowed"
  | missingColon => "could not find expected ':'"
  | tabIndentation => "found a tab character where indentation is expected"
  | entryNotAllowed => "block sequence entries are not allowed in this context"
  | keyNotAllowed => "mapping keys are not allowed in this context"
  | valueNotAllowed => "mapping values are not allowed in this context"
  | strayCharacter => "found character that cannot start any token"
  | directiveName => "found unknown directive name"
  | directiveVersion => "did not find expected version number"
  | directiveEnd => "did not find expected comment or line break"
  | tagHandle => "did not find expected '!'"
  | tagUri => "did not find expected tag URI"
  | tagEscape => "found an incorrect URI escape"
  | tagEnd => "did not find expected whitespace or line break after a tag"
  | anchorName => "did not find expected alphabetic or numeric character"
  | blockHeader => "did not find expected indentation indicator or line break"
  | documentMarkInQuotes => "found unexpected document indicator"
  | unclosedQuote => "found unexpected end of stream"
  | escapeCode => "found unknown escape character"
  | escapeDigits => "did not find expected hexadecimal number"
  | escapeScalar => "found invalid Unicode character escape code"
  | ambiguousColon => "found unexpected ':'"
  | repeatedDirective => "found duplicate directive"
  | unsupportedVersion => "found incompatible YAML document"
  | undefinedTagHandle => "found undefined tag handle"
  | expectedDocumentStart => "did not find expected <document start>"
  | expectedNode => "did not find expected node content"
  | expectedBlockEntry => "did not find expected '-' indicator"
  | expectedKey => "did not find expected key"
  | expectedFlowEntry => "did not find expected ',' or closing bracket"
  | unknownAnchor => "unknown anchor"
  | severalDocuments => "more than one document"
  | incomplete => "unexpected end of the token stream"

end Malformed

end FlatApi.Yaml
