import Garnet.Toml.Document
import Garnet.Toml.Reader

/-! # Settings files

A settings file from its bytes.
-/

namespace Garnet.Toml

/-- Read a settings file. -/
def read? (content : List UInt8) : Option Document := do
  Document.ofLines? (← lines? content)

end Garnet.Toml
