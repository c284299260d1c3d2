import Barco.Syscall

/-!
# Switching the root (`mount.c`)

`mountSet` binds the user's directory on a fresh directory in `/tmp`, pivots
into it and detaches the old root. The templates and the path of the old root
are byte strings, cut and joined as the source does.
-/

namespace Barco

def MS_NOSUID : Nat := 2
def MS_NODEV : Nat := 4
def MS_NOEXEC : Nat := 8
def MS_BIND : Nat := 4096
def MS_REC : Nat := 16384
def MS_PRIVATE : Nat := 262144
def MNT_DETACH : Nat := 2

def slash : CStr := ⟨ascii "/", by decide⟩
def procName : CStr := ⟨ascii "proc", by decide⟩
def procDir : CStr := ⟨ascii "/proc", by decide⟩
def mountTemplate : CStr := ⟨ascii "/tmp/barco.XXXXXX", by decide⟩
def innerTemplate : CStr := ⟨ascii "/tmp/barco.XXXXXX/oldroot.XXXXXX", by decide⟩

/-- What `mkdtemp` leaves in its template: the last six bytes replaced. -/
def CStr.withSuffix (template : CStr) (x : Suffix) : CStr :=
  template.take (template.1.length - 6) ++ ⟨x.1, x.2.2.1⟩

/-- `basename`: what follows the last `/`. -/
def CStr.basename (s : CStr) : CStr :=
  ⟨(s.1.reverse.takeWhile (· ≠ 47)).reverse,
    fun h => s.2 (List.mem_reverse.mp ((List.takeWhile_sublist _).subset (List.mem_reverse.mp h)))⟩

def mountSet (mnt : CStr) : Sys Int := do
  match ← sys (.mount none slash none (MS_REC ||| MS_PRIVATE)) with
  | .error _ => return -1
  | .ok _ =>
  match ← sys (.mkdtemp mountTemplate) with
  | .error _ => return -1
  | .ok x =>
  let mountDir := mountTemplate.withSuffix x
  match ← sys (.mount (some mnt) mountDir none (MS_BIND ||| MS_PRIVATE)) with
  | .error _ => return -1
  | .ok _ =>
  -- memcpy of `sizeof(mount_dir) - 1` bytes over the front of the template
  let inner := mountDir.take 17 ++ innerTemplate.drop 17
  match ← sys (.mkdtemp inner) with
  | .error _ => return -1
  | .ok y =>
  let innerDir := inner.withSuffix y
  match ← sys (.pivotRoot mountDir innerDir) with
  | .error _ => return -1
  | .ok _ =>
  let oldRoot := slash ++ innerDir.basename
  match ← sys (.chdir slash) with
  | .error _ => return -1
  | .ok _ =>
  match ← sys (.umount2 oldRoot MNT_DETACH) with
  | .error _ => return -1
  | .ok _ =>
  match ← sys (.rmdir (.raw oldRoot)) with
  | .error _ => return -1
  | .ok _ =>
  match ← sys (.mount (some procName) procDir (some procName)
      (MS_NOSUID ||| MS_NOEXEC ||| MS_NODEV)) with
  | .error _ => return -1
  | .ok _ => return 0

end Barco
