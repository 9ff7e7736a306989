import ForgeSync.FileTree
import ForgeSync.Owner.Basic
import ForgeSync.Yaml.Node
import ForgeSync.Yaml.Printer

/-!
# The files of a pass

A pass that is asked for on the command line finds its object and the connection secret in files,
and may leave the object in another one. The secret is a map of texts, or it holds such a map as
its string data, as a manifest does.
-/

namespace ForgeSync.CommandLine

/-- What is wrong with a file. -/
inductive FileFault where
  | missing (path : String)
  | malformed (path : String)
  | unwritable (path : String)
  deriving DecidableEq, Repr, Inhabited

namespace FileFault

def message : FileFault → String
  | missing path => "Failed to read " ++ path
  | malformed path => "Failed to parse " ++ path
  | unwritable path => "Failed to write " ++ path

/-- What the system says about it. -/
def causes : FileFault → List String
  | missing _ | unwritable _ => ["No such file or directory (os error 2)"]
  | malformed _ => []

end FileFault

/-- What a text file holds, in the sense of a reader of texts. -/
def readFile {α : Type} (read? : String → Option α) (tree : FileTree) (path : String) :
    Except FileFault α :=
  match tree.read? path with
  | none => .error (.missing path)
  | some content =>
    match read? content with
    | none => .error (.malformed path)
    | some a => .ok a

/-- The namespace of objects that name none. -/
def defaultSpace : String := "default"

/-- The object in a text. -/
def objectOfText? (kind : OwnerKind) (s : String) : Option Owner :=
  (Yaml.read? s >>= Owner.decode? kind).map fun o =>
    if o.metadata.space.isEmpty then o.mapMeta fun m => { m with space := defaultSpace } else o

/-- The member of a manifest that holds the texts of a secret. -/
def stringDataKey : String := "stringData"

/-- The texts in a manifest. -/
def manifestTexts? (n : Yaml.Node) : Option (Table String) :=
  match n.resolved?, n with
  | some _, .mapping _ members =>
    match members.filter fun (key, _) => key.key? = some stringDataKey with
    | [(_, value)] => value.textTable?
    | _ => none
  | some _, .sequence _ [value] => value.textTable?
  | _, _ => none

/-- The texts of the secret in a text. -/
def secretOfText? (s : String) : Option (Table String) :=
  match Yaml.document? s with
  | some (some n) => (manifestTexts? n).or n.textTable?
  | _ => none

end ForgeSync.CommandLine
