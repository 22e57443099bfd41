import Ext2Fuse.Library

/-!
# Permissions and inode access

`perms.c`, and the wrappers of `ext2fs.c` around reading and writing an inode, which
turn every library error into the code 1.
-/

namespace Ext2Fuse

open Lib Program

/-- `struct fuse_ctx`: who makes the request. -/
structure FuseCtx where
  uid : Nat
  gid : Nat

/-- `perms_struct`; `none` is the null pointer, which asks for no check. -/
abbrev Perms := Option FuseCtx

/-- The global switch, as it is initialised; nothing assigns it. -/
def doPermissionsChecks : Bool := false

def R_OK : Nat := 4
def W_OK : Nat := 2
def X_OK : Nat := 1

/-- `check_perms_in_inode`. -/
def checkPermsInInode (ps : Perms) (inode : Inode) (requested : Nat) : Errcode :=
  let perms := inode.iMode &&& 0o777
  match ps with
  | none => 0
  | some ctx =>
      if ctx.uid = 0 then 0
      else if inode.iUid = ctx.uid then
        if (requested <<< 6) &&& perms = requested <<< 6 then 0 else EACCES
      else if inode.iGid = ctx.gid then
        if (requested <<< 3) &&& perms = requested <<< 3 then 0 else EACCES
      else if requested &&& perms = requested then 0
      else EACCES

/-- `check_owner`. -/
def checkOwner (ps : Perms) (inode : Inode) : Errcode :=
  if !doPermissionsChecks then 0
  else
    match ps with
    | none => 0
    | some ctx => if ctx.uid = 0 then 0 else if ctx.uid = inode.iUid then 0 else EACCES

/-- `set_perms`: the owner fields are 16 bits wide. -/
def setPerms (ps : Perms) (inode : Inode) : Inode :=
  match ps with
  | none => inode
  | some ctx => { inode with iUid := ctx.uid % 2 ^ 16, iGid := ctx.gid % 2 ^ 16 }

variable {δ : Type}

/-- `read_inode`. -/
def readInode (ino : Nat) : Prog δ (Except Errcode Inode) := do
  match ← lift (.readInode ino) with
  | .ok inode => return .ok inode
  | .error _ => return .error 1

/-- `write_inode`. -/
def writeInode (ino : Nat) (inode : Inode) : Prog δ Errcode := do
  let rc ← lift (.writeInode ino inode)
  return if rc ≠ 0 then 1 else 0

/-- `check_perms`. -/
def checkPerms (ps : Perms) (ino requested : Nat) : Prog δ Errcode := do
  if !doPermissionsChecks then return 0
  if ps.isNone then return 0
  match ← readInode ino with
  | .error _ => return EIO
  | .ok inode => return checkPermsInInode ps inode requested

end Ext2Fuse
