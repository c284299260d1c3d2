import Barco.Linux.MountTree
import Barco.Linux.Rtattr
import Barco.Mount

/-!
# The paths of `mount_set`

`mount_set` builds its paths in three arrays of its frame. `mountArrays` writes them as the
source does, with every copy checked against the array that it goes into and the one that it
comes from, and `mountArrays_fit` says that all of it fits, that the byte which `memccpy`
looks for is found, and that the arrays hold the strings of `mountSet`. The other lemmas say
which names these strings are made of.
-/

namespace Barco

open MountTree Rtattr

def tmpName : Name := ascii "tmp"

/-- The names that `mkdtemp` makes of the two templates. -/
def barcoName (x : Suffix) : Name := ascii "barco." ++ x.1
def oldrootName (y : Suffix) : Name := ascii "oldroot." ++ y.1

/-- The path of the bind mount. -/
def mountDir (x : Suffix) : CStr := mountTemplate.withSuffix x

def innerTemplateOf (x : Suffix) : CStr := (mountDir x).take 17 ++ innerTemplate.drop 17

/-- The path of the directory for the old root. -/
def innerDir (x y : Suffix) : CStr := (innerTemplateOf x).withSuffix y

/-- Its path after the switch. -/
def oldRootPath (x y : Suffix) : CStr := slash ++ (innerDir x y).basename

/-! ## As bytes -/

variable (x y : Suffix)

theorem mountDir_val : (mountDir x).1 = 47 :: (tmpName ++ 47 :: barcoName x) := rfl

theorem length_mountDir : (mountDir x).1.length = 17 := by
  rw [mountDir_val]
  simp only [barcoName, List.length_cons, List.length_append, x.2.1]
  rfl

theorem innerTemplateOf_val :
    (innerTemplateOf x).1 = (mountDir x).1 ++ ascii "/oldroot.XXXXXX" := by
  have htake : (mountDir x).1.take 17 = (mountDir x).1 :=
    List.take_of_length_le (Nat.le_of_eq (length_mountDir x))
  show (mountDir x).1.take 17 ++ _ = _
  rw [htake]
  rfl

theorem innerDir_val : (innerDir x y).1 = (mountDir x).1 ++ 47 :: oldrootName y := by
  have hlen : (innerTemplateOf x).1.length - 6 = (mountDir x).1.length + 9 := by
    rw [innerTemplateOf_val, List.length_append]
    rfl
  show (innerTemplateOf x).1.take ((innerTemplateOf x).1.length - 6) ++ y.1 = _
  rw [hlen, innerTemplateOf_val, List.take_length_add_append, List.append_assoc]
  rfl

theorem slash_not_mem_barcoName : 47 ∉ barcoName x := by
  simp only [barcoName, List.mem_append, not_or]
  exact ⟨by decide, x.2.2.2⟩

theorem slash_not_mem_oldrootName : 47 ∉ oldrootName y := by
  simp only [oldrootName, List.mem_append, not_or]
  exact ⟨by decide, y.2.2.2⟩

theorem basename_innerDir : (innerDir x y).basename.1 = oldrootName y := by
  have hname : ∀ b ∈ (oldrootName y).reverse, decide (b ≠ 47) = true := fun b hb =>
    decide_eq_true fun h => slash_not_mem_oldrootName y (h ▸ List.mem_reverse.mp hb)
  show ((innerDir x y).1.reverse.takeWhile (· ≠ 47)).reverse = _
  rw [innerDir_val, List.reverse_append, List.reverse_cons, List.append_assoc,
    List.takeWhile_append_of_pos hname, List.singleton_append,
    List.takeWhile_cons_of_neg (by decide), List.append_nil, List.reverse_reverse]

theorem oldRootPath_val : (oldRootPath x y).1 = 47 :: oldrootName y := by
  show 47 :: (innerDir x y).basename.1 = _
  rw [basename_innerDir]

/-! ## As names -/

theorem components_mountDir : components (mountDir x).1 = [tmpName, barcoName x] := by
  rw [mountDir_val, components_slash, components_cons (by decide) (by decide),
    components_name (slash_not_mem_barcoName x) nofun]

theorem components_innerDir :
    components (innerDir x y).1 = [tmpName, barcoName x, oldrootName y] := by
  rw [innerDir_val, mountDir_val, List.cons_append, components_slash, List.append_assoc,
    List.cons_append, components_cons (by decide) (by decide),
    components_cons (slash_not_mem_barcoName x) nofun,
    components_name (slash_not_mem_oldrootName y) nofun]

theorem components_oldRootPath : components (oldRootPath x y).1 = [oldrootName y] := by
  rw [oldRootPath_val, components_slash, components_name (slash_not_mem_oldrootName y) nofun]

theorem ordinary_barcoName : Ordinary (barcoName x) := ⟨nofun, nofun⟩

theorem ordinary_oldrootName : Ordinary (oldrootName y) := ⟨nofun, nofun⟩

theorem barcoName_ne_oldrootName : barcoName x ≠ oldrootName y := nofun

/-! ## In the arrays of the frame -/

/-- A string in an array that has just room for it. -/
def CStr.array (s : CStr) : List UInt8 := s.1 ++ [0]

/-- `mkdtemp` on an array: the suffix over the six bytes before the NUL. -/
def mkdtempArray (template : List UInt8) (x : Suffix) : Option (List UInt8) := do
  let len ← template.findIdx? (· = 0)
  if len < 6 then none else poke (len - 6) x.1 template

/-- `memcpy` of `n` bytes to the front of an array. -/
def memcpyArray (dst src : List UInt8) (n : Nat) : Option (List UInt8) :=
  if n ≤ src.length then poke 0 (src.take n) dst else none

/-- `memccpy` to the offset `off` of an array: up to the first `stop`, or `n` bytes. The second
value says that `stop` was there, so that the result is not NULL. -/
def memccpyArray (dst : List UInt8) (off : Nat) (src : List UInt8) (stop : UInt8) (n : Nat) :
    Option (List UInt8 × Bool) :=
  let found := (src.take n).findIdx? (· = stop)
  let count := match found with
    | some i => i + 1
    | none => n
  if count ≤ src.length then (poke off (src.take count) dst).map (·, found.isSome) else none

/-- `basename` of an array: where its last name begins. -/
def basenameOffset (path : List UInt8) : Nat :=
  let s := CStr.ofBuf path
  s.1.length - s.basename.1.length

structure MountArrays where
  mountDir : List UInt8
  innerMountDir : List UInt8
  oldRoot : List UInt8
  /-- `end != NULL` -/
  found : Bool
deriving DecidableEq

/-- The arrays of `mount_set`, as it fills them; `none` when a copy reaches out of one. -/
def mountArrays : Option MountArrays := do
  let mountDir ← mkdtempArray mountTemplate.array x
  let inner ← memcpyArray innerTemplate.array mountDir (mountDir.length - 1)
  let inner ← mkdtempArray inner y
  let oldRoot := ascii "/" ++ List.replicate inner.length 0
  let (oldRoot, found) ←
    memccpyArray oldRoot 1 (inner.drop (basenameOffset inner)) 0 (oldRoot.length - 1)
  return ⟨mountDir, inner, oldRoot, found⟩

theorem findIdx?_array (s : CStr) (rest : List UInt8) :
    (s.1 ++ 0 :: rest).findIdx? (· = 0) = some s.1.length := by
  have hnone : s.1.findIdx? (· = 0) = none :=
    List.findIdx?_eq_none_iff.mpr fun b hb => decide_eq_false fun h => s.2 (h ▸ hb)
  rw [List.findIdx?_append, hnone, List.findIdx?_cons, if_pos (by decide)]
  exact congrArg some (Nat.zero_add _)

theorem mkdtempArray_array {s : CStr} (h : 6 ≤ s.1.length) :
    mkdtempArray s.array x = some (s.withSuffix x).array := by
  have hsplit : s.array = s.1.take (s.1.length - 6) ++ (s.1.drop (s.1.length - 6) ++ [0]) := by
    rw [← List.append_assoc, List.take_append_drop]
    rfl
  have hlen : (s.1.drop (s.1.length - 6)).length = x.1.length := by
    rw [List.length_drop, x.2.1]
    omega
  have hoff : s.1.length - 6 = (s.1.take (s.1.length - 6)).length := by
    rw [List.length_take]
    omega
  have hfind : s.array.findIdx? (· = 0) = some s.1.length := findIdx?_array s []
  rw [mkdtempArray, hfind, Option.bind_eq_bind, Option.bind_some, if_neg (by omega), hsplit,
    poke_append hoff hlen, ← List.append_assoc]
  rfl

theorem ofBuf_array (s : CStr) (rest : List UInt8) : CStr.ofBuf (s.1 ++ 0 :: rest) = s := by
  have hs : ∀ b ∈ s.1, decide (b ≠ 0) = true := fun b hb =>
    decide_eq_true fun h => s.2 (h ▸ hb)
  refine Subtype.ext ?_
  show (s.1 ++ 0 :: rest).takeWhile (· ≠ 0) = s.1
  rw [List.takeWhile_append_of_pos hs, List.takeWhile_cons_of_neg (by decide), List.append_nil]

/-- A string with what it needs to be copied to the offset `off`. -/
theorem memccpyArray_array {s : CStr} {pre old post : List UInt8} {n : Nat}
    (hold : old.length = s.1.length + 1) (hn : s.1.length < n) :
    memccpyArray (pre ++ (old ++ post)) pre.length s.array 0 n =
      some (pre ++ (s.array ++ post), true) := by
  have htake : s.array.take n = s.array := by
    refine List.take_of_length_le ?_
    show (s.1 ++ [0]).length ≤ n
    rw [List.length_append]
    exact hn
  have hfind : s.array.findIdx? (· = 0) = some s.1.length := findIdx?_array s []
  have hlen : s.array.length = s.1.length + 1 := List.length_append
  unfold memccpyArray
  simp only [htake, hfind]
  rw [if_pos (Nat.le_of_eq hlen.symm), List.take_of_length_le (Nat.le_of_eq hlen),
    poke_append rfl (hold.trans hlen.symm)]
  rfl

theorem memcpyArray_mountDir :
    memcpyArray innerTemplate.array (mountDir x).array 17 = some (innerTemplateOf x).array := by
  have hlen := length_mountDir x
  have hfit : 17 ≤ (mountDir x).array.length := by
    rw [CStr.array, List.length_append]
    omega
  have htake : (mountDir x).array.take 17 = (mountDir x).1 := by
    rw [CStr.array, ← hlen, List.take_left]
  have hpoke : poke 0 (mountDir x).1 ([] ++ (mountTemplate.1 ++ (ascii "/oldroot.XXXXXX" ++ [0]))) =
      some ([] ++ ((mountDir x).1 ++ (ascii "/oldroot.XXXXXX" ++ [0]))) :=
    poke_append rfl hlen.symm
  have hval : (innerTemplateOf x).array = (mountDir x).1 ++ (ascii "/oldroot.XXXXXX" ++ [0]) := by
    rw [CStr.array, innerTemplateOf_val, List.append_assoc]
  rw [memcpyArray, if_pos hfit, htake, hval]
  exact hpoke

theorem length_innerDir : (innerDir x y).1.length = 32 := by
  rw [innerDir_val, List.length_append, length_mountDir, List.length_cons, oldrootName,
    List.length_append, y.2.1]
  rfl

theorem length_basename : (innerDir x y).basename.1.length = 14 := by
  rw [basename_innerDir, oldrootName, List.length_append, y.2.1]
  rfl

/-- The last name of the path, with its NUL. -/
theorem drop_innerDir :
    (innerDir x y).array.drop (basenameOffset (innerDir x y).array) =
      (innerDir x y).basename.array := by
  have hoff : basenameOffset (innerDir x y).array = (mountDir x).1.length + 1 := by
    simp only [basenameOffset, CStr.array, ofBuf_array, length_innerDir, length_basename,
      length_mountDir]
  rw [hoff, CStr.array, innerDir_val, CStr.array, basename_innerDir, List.append_assoc,
    List.drop_length_add_append]
  rfl

/-- All copies stay inside their arrays, `memccpy` finds the NUL, and the arrays hold the
strings of `mountSet`. -/
theorem mountArrays_fit : ∃ a, mountArrays x y = some a ∧ a.found = true ∧
    CStr.ofBuf a.mountDir = mountDir x ∧ CStr.ofBuf a.innerMountDir = innerDir x y ∧
    CStr.ofBuf a.oldRoot = oldRootPath x y := by
  have hmountDir : mkdtempArray mountTemplate.array x = some (mountDir x).array :=
    mkdtempArray_array x (by decide)
  have hcount : (mountDir x).array.length - 1 = 17 := by
    rw [CStr.array, List.length_append, length_mountDir]
    rfl
  have hinner : mkdtempArray (innerTemplateOf x).array y = some (innerDir x y).array := by
    refine mkdtempArray_array y ?_
    rw [innerTemplateOf_val, List.length_append, length_mountDir]
    decide
  have hlen : (innerDir x y).array.length = 33 := by
    rw [CStr.array, List.length_append, length_innerDir]
    rfl
  have hold : memccpyArray ([47] ++ (List.replicate 15 0 ++ List.replicate 18 0)) 1
      (innerDir x y).basename.array 0 33 =
        some ([47] ++ ((innerDir x y).basename.array ++ List.replicate 18 0), true) :=
    memccpyArray_array (by rw [length_basename]; rfl) (by rw [length_basename]; decide)
  refine ⟨⟨(mountDir x).array, (innerDir x y).array,
    [47] ++ ((innerDir x y).basename.array ++ List.replicate 18 0), true⟩, ?_, rfl,
    ofBuf_array _ [], ofBuf_array _ [], ?_⟩
  · simp only [mountArrays, hmountDir, Option.bind_eq_bind, Option.bind_some, hcount,
      memcpyArray_mountDir, hinner, drop_innerDir, hlen]
    exact congrArg (Option.bind · _) hold
  · have hval : [47] ++ ((innerDir x y).basename.array ++ List.replicate 18 0) =
        (oldRootPath x y).1 ++ 0 :: List.replicate 18 0 := by
      rw [oldRootPath_val, CStr.array, basename_innerDir, List.append_assoc]
      rfl
    exact hval ▸ ofBuf_array _ _

end Barco
