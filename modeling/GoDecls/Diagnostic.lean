/-
  Diagnostics: what is wrong with a text, and where.

  The fault is a cause, and `Diagnostic.message` its wording.  A text fails with
  all its diagnostics; `failureText` shows the first and counts the others.
-/
import GoDecls.Token.Basic

namespace GoDecls

/-- What can be wrong with the characters of a text. -/
inductive LexFault where
  | invalidToken | unterminatedString | unterminatedComment
deriving DecidableEq, Repr

/-- The wording of a lexical fault. -/
def LexFault.message : LexFault → String
  | .invalidToken => "invalid token"
  | .unterminatedString => "unterminated string"
  | .unterminatedComment => "unterminated comment"

/-- What stands where something else was expected. -/
inductive Found where
  | newline
  | token (t : Token)
  | endOfFile
deriving DecidableEq, Repr

/-- The wording of what was found: the semicolon that a line end stands for is
    called a line end. -/
def Found.text : Found → String
  | .newline => "newline"
  | .token t => t.display
  | .endOfFile => "end of file"

/-- What can be wrong with the tokens of a text. -/
inductive ParseFault where
  | expected (what : String) (found : Found)
  | mixedParameters
  | other (message : String)
deriving DecidableEq, Repr

/-- The wording of a syntactic fault. -/
def ParseFault.message : ParseFault → String
  | .expected what found => "expected " ++ what ++ ", found " ++ found.text
  | .mixedParameters => "mixed named and unnamed parameters"
  | .other message => message

/-- The cause of a diagnostic. -/
inductive Fault where
  | lex (f : LexFault)
  | parse (f : ParseFault)
deriving DecidableEq, Repr

/-- The phase that finds a fault. -/
def Fault.phase : Fault → String
  | .lex _ => "Lex"
  | .parse _ => "Parse"

/-- The wording of a fault. -/
def Fault.message : Fault → String
  | .lex f => f.message
  | .parse f => f.message

/-- A fault and the stretch of the text where it shows. -/
structure Diagnostic where
  span : Span
  fault : Fault
deriving DecidableEq, Repr

/-- The wording of the fault alone. -/
def Diagnostic.message (d : Diagnostic) : String := d.fault.message

/-- The diagnostic on one line: phase, place and wording. -/
def Diagnostic.text (d : Diagnostic) : String :=
  d.fault.phase ++ " error at " ++ toString d.span.start ++ ".." ++ toString d.span.stop ++ ": " ++
    d.message

/-- The first diagnostic, and how many more there are. -/
def failureText : List Diagnostic → String
  | [] => "parse failed"
  | [d] => d.text
  | d :: ds => d.text ++ " (and " ++ toString ds.length ++ " more)"

end GoDecls
