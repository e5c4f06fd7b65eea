import FlatApi.Entity.Read
import FlatApi.Options.Read
import FlatApi.Storage
import FlatApi.TypeTable.Read
import FlatApi.Yaml.Load

/-!
# Input files

The three kinds of files that the generator reads: entities, type mappings and options.
-/

namespace FlatApi

namespace EntityFile

def ofText (text : String) : Except Yaml.Invalid EntityFile := Yaml.load read text

end EntityFile

namespace TypeFile

def ofText (text : String) : Except Yaml.Invalid TypeFile := Yaml.load read text

end TypeFile

namespace Options

def ofText (text : String) : Except Yaml.Invalid Options := Yaml.load read text

end Options

/-- Why a file is not loaded. -/
inductive LoadFault where
  | unreadable (fault : IoFault)
  | invalid (reason : Yaml.Invalid)
  deriving DecidableEq

/-- Loads a file. -/
def loadFile {m : Type → Type} [Monad m] [Storage m] {α : Type}
    (ofText : String → Except Yaml.Invalid α) (path : String) : m (Except LoadFault α) := do
  match ← Storage.onPath path Storage.readText with
  | .error fault => return .error (.unreadable fault)
  | .ok text => match ofText text with
    | .error reason => return .error (.invalid reason)
    | .ok v => return .ok v

end FlatApi
