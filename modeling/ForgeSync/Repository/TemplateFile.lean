import ForgeSync.Datum

/-!
# Template files

What a descriptor wants of one path: that a file exists there, with this content if it has to be
created, or that none exists. In text the second wish is a reserved content, so a file whose own
content is that text cannot be asked for.
-/

namespace ForgeSync

/-- The content that stands for absence in text. -/
def deleteMarker : String := "\x7bdelete\x7d"

inductive FileOp where
  /-- The file exists; it is created with this content. -/
  | write (content : String)
  /-- The file does not exist. -/
  | delete
  deriving DecidableEq, Repr, Inhabited

namespace FileOp

/-- The wish that a content in text stands for. -/
def ofContent (content : String) : FileOp :=
  if content = deleteMarker then delete else write content

/-- The content that stands for a wish in text. -/
def content : FileOp → String
  | write content => content
  | delete => deleteMarker

def isDelete : FileOp → Bool
  | write _ => false
  | delete => true

/-- A wish survives its text form unless it writes the reserved content. -/
theorem ofContent_content (op : FileOp) :
    ofContent op.content = op ↔ op ≠ write deleteMarker := by
  cases op with
  | write content => by_cases h : content = deleteMarker <;> simp [ofContent, FileOp.content, h]
  | delete => simp [ofContent, FileOp.content]

def encode (op : FileOp) : Datum :=
  .text op.content

def decode? (d : Datum) : Option FileOp :=
  d.text?.map ofContent

end FileOp

end ForgeSync
