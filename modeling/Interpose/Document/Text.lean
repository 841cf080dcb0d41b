import Interpose.Document.Configuration
import Interpose.Document.Encode
import Interpose.Json.Printer
import Interpose.Json.Reader
/-!
# Documents as texts

A document is the text of one JSON value.
-/
namespace Interpose

def DecodeError.message : DecodeError → String
  | shape => "the document does not have the expected shape"
  | code cause => cause.message

namespace Document

/-- Reads the text of a document. -/
def read {α : Type} (dec : Json → Decoded α) (text : String) : Except String α :=
  match Json.parse text with
  | none => .error "the document is not JSON"
  | some j => (dec j).mapError DecodeError.message

/-- The text of a document. -/
def write (j : Json) : String := j.write ++ "\n"

end Document

end Interpose
