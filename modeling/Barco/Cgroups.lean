import Barco.Syscall

/-!
# The control group of a container (`cgroups.c`)

`cgroupsInit` makes `/sys/fs/cgroup/<hostname>`, removing and remaking it when
it exists, and writes the settings one file after the other; the process id is
the last one. `cgroupsFree` removes the directory.
-/

namespace Barco

def memoryMax : CStr := ⟨ascii "memory.max", by decide⟩
def cpuWeight : CStr := ⟨ascii "cpu.weight", by decide⟩
def pidsMax : CStr := ⟨ascii "pids.max", by decide⟩
def cgroupProcs : CStr := ⟨ascii "cgroup.procs", by decide⟩

/-- A `struct cgroups_setting`: the control file and what is written to it. -/
structure CgroupsSetting where
  name : CStr
  value : List UInt8

/-- A process id in decimal. -/
def pidBytes (pid : Nat) : List UInt8 := (Nat.toDigits 10 pid).map fun c => c.toNat.toUInt8

/-- `cgroups_setting_list`: the limits, then the process. -/
def cgroupsSettings (pid : Nat) : List CgroupsSetting :=
  [⟨memoryMax, ascii "1G"⟩, ⟨cpuWeight, ascii "256"⟩, ⟨pidsMax, ascii "64"⟩,
    ⟨cgroupProcs, pidBytes pid⟩]

/-- The second `mkdir`, after the old directory was removed. -/
def cgroupsRemake (hostname : CStr) : Sys Int := do
  match ← sys (.mkdir (.cgroupDir hostname)) with
  | .error _ => return -1
  | .ok _ => return 0

/-- The directory part: 0 when a fresh directory was made. -/
def cgroupsMkdir (hostname : CStr) : Sys Int := do
  match ← sys (.mkdir (.cgroupDir hostname)) with
  | .ok _ => return 0
  | .error e =>
    if e = EEXIST then
      match ← sys (.rmdir (.cgroupDir hostname)) with
      | .error e' => if e' ≠ ENOENT then return -1 else cgroupsRemake hostname
      | .ok _ => cgroupsRemake hostname
    else
      return -1

/-- The loop over the settings. -/
def cgroupsWrite (hostname : CStr) : List CgroupsSetting → Sys Int
  | [] => return 0
  | setting :: settings => do
    match ← sys (.open (.cgroupFile hostname setting.name) .wronly) with
    | .error _ => return -1
    | .ok fd =>
    match ← sys (.write fd setting.value) with
    | .error _ =>
      closeFd fd
      return -1
    | .ok _ =>
    match ← sys (.close fd) with
    | .error _ => return -1
    | .ok _ => cgroupsWrite hostname settings

/-- Enable the controllers for the children of the root group; failures are
ignored. -/
def enableControllers : Sys Unit := do
  match ← sys (.open .subtreeControl .wronly) with
  | .error _ => return ()
  | .ok fd =>
    let _ ← sys (.write fd (ascii "+cpu +memory +pids"))
    closeFd fd

def cgroupsInit (hostname : CStr) (pid : Nat) : Sys Int := do
  enableControllers
  if (← cgroupsMkdir hostname) < 0 then
    return -1
  cgroupsWrite hostname (cgroupsSettings pid)

def cgroupsFree (hostname : CStr) : Sys Int := do
  match ← sys (.rmdir (.cgroupDir hostname)) with
  | .error _ => return -1
  | .ok _ => return 0

end Barco
