/-
  The last element of a file path, on the two kinds of systems.

  Which bytes separate the elements, and whether a path starts with a volume name, depends on
  the system. `base` drops trailing separators, then the volume name, and takes what follows
  the last separator.

  * `base_cases`: the last element has no separator in it, or is one.
  * `base_base_iff`: taking it twice is taking it once, unless it looks like a volume name.
-/
import Veilmesh.Lib.Bytes
import Mathlib.Data.List.DropRight

namespace Veilmesh.Lib

open List

inductive Platform where
  | unix
  | windows
  deriving DecidableEq, Repr

namespace Platform

def separator : Platform → UInt8
  | .unix => 47
  | .windows => 92

def isPathSeparator : Platform → UInt8 → Bool
  | .unix, b => b == 47
  | .windows, b => b == 92 || b == 47

/-! ## Volume names -/

def toUpper (b : UInt8) : UInt8 := if 97 ≤ b ∧ b ≤ 122 then b - 32 else b

/-- Whether a path starts with the elements of `start`, in any case and with any
    separators. -/
def pathStartsFold (path start : Bytes) : Bool :=
  decide (start.length ≤ path.length) &&
    (start.zip path).all (fun (s, b) =>
      if windows.isPathSeparator s then windows.isPathSeparator b else toUpper s == toUpper b) &&
    (path[start.length]?.map windows.isPathSeparator).getD true

/-- The length of a path up to its first separator. -/
def elementLen (path : Bytes) : Nat := (path.takeWhile fun b => !windows.isPathSeparator b).length

/-- The length of a volume of a host and a share, which start after `start` bytes. -/
def uncLen (path : Bytes) (start : Nat) : Nat :=
  let host := elementLen (path.drop start)
  min path.length (start + host + 1 + elementLen (path.drop (start + host + 1)))

/-- How many bytes of a path are the name of a volume: a drive, a device or a share. -/
def volumeNameLen : Platform → Bytes → Nat
  | .unix, _ => 0
  | .windows, path =>
    if path[1]? = some 58 then 2
    else if (path.head?.map windows.isPathSeparator).getD false = false then 0
    else if pathStartsFold path (lit "\\\\.\\UNC") then uncLen path (lit "\\\\.\\UNC\\").length
    else if pathStartsFold path (lit "\\\\.") || pathStartsFold path (lit "\\\\?") ||
        pathStartsFold path (lit "\\??") then
      if path.length = 3 then 3 else 4 + elementLen (path.drop 4)
    else if (path[1]?.map windows.isPathSeparator).getD false then uncLen path 2
    else 0

/-! ## The last element -/

def base (p : Platform) (path : Bytes) : Bytes :=
  if path = [] then lit "."
  else
    let stripped := path.rdropWhile p.isPathSeparator
    let last := (stripped.drop (p.volumeNameLen stripped)).rtakeWhile fun b => !p.isPathSeparator b
    if last = [] then [p.separator] else last

/-- Without a separator a volume name can only be a drive. -/
theorem volumeNameLen_of_plain {p : Platform} {path : Bytes}
    (h : ∀ b ∈ path, p.isPathSeparator b = false) :
    p.volumeNameLen path = if p = .windows ∧ path[1]? = some 58 then 2 else 0 := by
  cases p with
  | unix => rfl
  | windows =>
    have hfirst : (path.head?.map windows.isPathSeparator).getD false = false := by
      cases path with
      | nil => rfl
      | cons b rest => exact h b mem_cons_self
    simp only [volumeNameLen, hfirst, if_true, true_and]

/-- The last element: nothing separates it, or it stands for the root. -/
theorem base_cases (p : Platform) (path : Bytes) :
    p.base path = [p.separator] ∨
      p.base path ≠ [] ∧ ∀ b ∈ p.base path, p.isPathSeparator b = false := by
  unfold base
  split
  · refine .inr ⟨by decide, fun b hb => ?_⟩
    obtain rfl : b = 46 := mem_singleton.mp hb
    cases p <;> rfl
  · dsimp only
    split
    · exact .inl rfl
    · rename_i hlast
      refine .inr ⟨hlast, fun b hb => ?_⟩
      simpa using mem_rtakeWhile_imp hb

/-- What the last element of a plain path is. -/
theorem base_of_plain {p : Platform} {path : Bytes} (hne : path ≠ [])
    (h : ∀ b ∈ path, p.isPathSeparator b = false) :
    p.base path = if p = .windows ∧ path[1]? = some 58 then
      (if path.drop 2 = [] then [p.separator] else path.drop 2) else path := by
  have hstripped : path.rdropWhile p.isPathSeparator = path :=
    rdropWhile_eq_self_iff.mpr fun hne => by
      rw [h _ (getLast_mem hne)]
      exact Bool.false_ne_true
  have hwhole : ∀ n, (path.drop n).rtakeWhile (fun b => !p.isPathSeparator b) = path.drop n :=
    fun n => rtakeWhile_eq_self_iff.mpr fun b hb => by
      rw [h b (mem_of_mem_drop hb)]
      rfl
  unfold base
  rw [if_neg hne, hstripped]
  dsimp only
  rw [hwhole, volumeNameLen_of_plain h]
  split
  · rfl
  · rw [drop_zero, if_neg hne]

/-- Taking the last element again changes nothing, except where it starts like a drive. -/
theorem base_base_iff (p : Platform) (path : Bytes) :
    p.base (p.base path) = p.base path ↔ ¬ (p = .windows ∧ (p.base path)[1]? = some 58) := by
  rcases base_cases p path with heq | ⟨hne, hplain⟩
  · rw [heq]
    refine iff_of_true ?_ fun h => by cases h.2
    cases p <;> rfl
  · rw [base_of_plain hne hplain]
    split
    · rename_i hdrive
      refine iff_of_false (fun heq => ?_) (not_not.mpr hdrive)
      obtain ⟨hlt, -⟩ := List.getElem?_eq_some_iff.mp hdrive.2
      have hlength := congrArg List.length heq
      split at hlength
      · rw [length_singleton] at hlength
        omega
      · rw [length_drop] at hlength
        omega
    · rename_i hdrive
      exact iff_of_true rfl hdrive

end Platform

end Veilmesh.Lib
