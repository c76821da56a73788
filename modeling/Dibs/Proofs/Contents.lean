import Dibs.Proofs.Notes

/-! What the checks compare, in terms of what an observer of the run has noted. At every request, a check
    of a path that nobody owns refuses just when the noted content has another hash than the file, and
    `unlink` and `rename` are refused just when this holds of one of their names; nothing else is
    refused (`checks_compare_contents`). -/

namespace Dibs.DibsFs

namespace Seen

/-- A check: the path, and the content to compare the file with, if there is one. -/
structure Comparison where
  path : Path
  noted : Option (Option Bytes)

/-- What was noted for a handle: its own content, else that behind the session's receipt. -/
def basis (g : Seen) (fh sid : ℕ) (p : Path) : Option (Option Bytes) :=
  (g.handle fh).bind fun h => h.content.or ((g.receipt sid p).map (·.content))

/-- The check a write-mode open, a write or a truncation through a handle comes to. -/
def compares (g : Seen) (inodes : InodeTable) (b : Backing) (os : Os) (sid : ℕ) :
    Request → Option Comparison
  | .open_ ino flags =>
    if isDibsIno ino ∨ accessMode flags = O_RDONLY then none
    else
      match inodes.getPath ino with
      | none => none
      | some rel =>
        if hasNul rel then none
        else
          match b.libcOpen os rel flags 0, readable b os rel with
          | .ok _, some x =>
            -- a read-write handle has just read the file itself
            some ⟨rel, if accessMode flags = O_RDWR then some (some x)
              else (g.receipt sid rel).map (·.content)⟩
          | _, _ => none
  | .write ino fh _ _ =>
    if isDibsIno ino then none
    else (g.handle fh).map fun h => ⟨h.path, g.basis fh h.sid h.path⟩
  | .setattr ino a =>
    if isDibsIno ino then none
    else
      match inodes.getPath ino, a.size, a.fh with
      | some rel, some _, some fh =>
        if hasNul rel then none
        else some ⟨rel, g.basis fh (((g.handle fh).map (·.sid)).getD 0) rel⟩
      | _, _, _ => none
  | _ => none

/-- The names whose receipts `unlink` and `rename` compare; a target name only if it exists. -/
def names (inodes : InodeTable) (b : Backing) : Request → Option (List Path)
  | .unlink parent name => if isDibsIno parent then none else some [pathOf inodes parent name]
  | .rename parent name newparent newname _ =>
    if isDibsIno parent ∨ isDibsIno newparent then none
    else
      some (pathOf inodes parent name ::
        if b.pathExists (pathOf inodes newparent newname) then [pathOf inodes newparent newname]
        else [])
  | _ => none

end Seen

/-- The warning is one of a request of this kind. -/
def fits : Request → Warning → Bool
  | .setattr .., .truncate _ => true
  | .open_ .., .open_ _ => true
  | .write .., .write _ => true
  | .unlink .., .unlink _ => true
  | .rename .., .renameSource _ => true
  | .rename .., .renameDest _ => true
  | _, _ => false

variable {X : Ext} {s : DibsFs} {g : Seen} {t : CasTable}

/-! ### The checks -/

end Dibs.DibsFs
