/-
  The atomic write of a file, with a call that fails (`node/keys.go`, `client/store.go`).

  Both stores write a temporary file, rename it and sync the directory; an error on the way
  removes the temporary file. `writeAtomic` is the helper call by call. With no fault it is
  the write of the store models (`writePrivateAtomicWith_none`).

  * `writeAtomic_early`: a failure up to the rename leaves the directory as it was.
  * `writeAtomic_late`: a failure of the sync after the rename leaves the new file.
  * `putWith_early`, `putWith_late`: the same for the node's `Put`.
-/
import Veilmesh.Node.StoreInv

namespace Veilmesh.Node

open Lib Protocol

/-- The file-system calls of the helper, in their order; the last two are the sync of the
    directory. -/
inductive WriteCall where
  | createTemp
  | chmod
  | write
  | sync
  | close
  | rename
  | openDirectory
  | syncDirectory
  deriving DecidableEq, Repr

/-- A call that fails, with its error; a write that fails has written some of the data. -/
structure Fault where
  call : WriteCall
  written : Nat
  text : Bytes

/-- The call that fails is one after the rename. -/
def WriteCall.AfterRename (call : WriteCall) : Prop := call = .openDirectory ∨ call = .syncDirectory

instance : DecidablePred WriteCall.AfterRename := fun call =>
  inferInstanceAs (Decidable (call = .openDirectory ∨ call = .syncDirectory))

def Disk.write (d : Disk) (name data : Bytes) : Disk :=
  { d with files := d.files.insert name ⟨.regular, 0o600, data⟩ }

/-- The calls from the creation of the temporary file on, with the text of the error. -/
def writeCalls (fault : Option Fault) (temporary name data : Bytes) (d : Disk) :
    Option Bytes × Disk :=
  let failed (call : WriteCall) : Option Fault := fault.filter (·.call == call)
  let d := d.write temporary []
  match failed .chmod with
  | some f => (some f.text, d)
  | none =>
    match failed .write with
    | some f => (some f.text, d.write temporary (data.take f.written))
    | none =>
      let d := d.write temporary data
      match failed .sync, failed .close, failed .rename with
      | some f, _, _ | none, some f, _ | none, none, some f => (some f.text, d)
      | none, none, none =>
        if (d.files.lookup name).any (·.kind == .directory) then (some (lit "file exists"), d)
        else
          let d := (d.remove temporary).write name data
          match failed .openDirectory, failed .syncDirectory with
          | some f, _ | none, some f => (some f.text, d)
          | none, none => (none, d)

/-- Write a temporary file, rename it and sync the directory; after an error the temporary
    file is removed. -/
def writeAtomic (fault : Option Fault) (temporary name data : Bytes) (d : Disk) :
    Option Bytes × Disk :=
  match fault.filter (·.call == .createTemp) with
  | some f => (some f.text, d)
  | none =>
    match writeCalls fault temporary name data d with
    | (some text, d) => (some text, d.remove temporary)
    | (none, d) => (none, d)

/-- The node's helper; `random` is what `CreateTemp` puts at the end of the name. -/
def writePrivateAtomicWith (fault : Option Fault) (random : Bytes) (d : Disk) (name data : Bytes) :
    Except StoreError Unit × Disk :=
  match writeAtomic fault (temporaryPrefix ++ name ++ lit "-" ++ random) name data d with
  | (some text, d) => (.error (.io text), d)
  | (none, d) => (.ok (), d)

section

variable {temporary name data : Bytes} {d : Disk} {fault : Fault}

theorem lookup_write (d : Disk) (name data n : Bytes) : (d.write name data).files.lookup n =
    if n = name then some ⟨.regular, 0o600, data⟩ else d.files.lookup n :=
  GoMap.lookup_insert_eq ..

theorem lookup_remove (d : Disk) (name n : Bytes) : (d.remove name).files.lookup n =
    if n = name then none else d.files.lookup n :=
  GoMap.lookup_erase_eq ..

/-- Directories with the same files are the same. -/
theorem Disk.ext_lookup {d d' : Disk} (hreal : d.realDirectory = d'.realDirectory)
    (hfiles : ∀ n, d.files.lookup n = d'.files.lookup n) : d = d' := by
  obtain ⟨real, files⟩ := d
  obtain ⟨real', files'⟩ := d'
  obtain rfl : real = real' := hreal
  rw [Disk.mk.injEq]
  exact ⟨rfl, Finmap.ext_lookup hfiles⟩

variable (hnew : d.files.lookup temporary = none)

include hnew

/-- A new temporary file can be removed again, whatever was written to it. -/
theorem remove_write (bytes : Bytes) : (d.write temporary bytes).remove temporary = d := by
  refine Disk.ext_lookup rfl fun n => ?_
  rw [lookup_remove, lookup_write]
  by_cases hn : n = temporary
  · rw [if_pos hn, hn, hnew]
  · rw [if_neg hn, if_neg hn]

omit hnew in
theorem write_write (bytes bytes' : Bytes) :
    (d.write temporary bytes).write temporary bytes' = d.write temporary bytes' := by
  refine Disk.ext_lookup rfl fun n => ?_
  simp only [lookup_write]
  split <;> rfl

/-- After the rename nothing is left of the temporary file. -/
theorem rename_write :
    ((d.write temporary data).remove temporary).write name data = d.write name data := by
  rw [remove_write hnew]

/-- Without a fault the helper fails only where a directory has the name. -/
theorem writeAtomic_none (hne : name ≠ temporary) : writeAtomic none temporary name data d =
      if (d.files.lookup name).any (·.kind == .directory) then (some (lit "file exists"), d)
      else (none, d.write name data) := by
  have hname : (d.write temporary data).files.lookup name = d.files.lookup name := by
    rw [lookup_write, if_neg hne]
  simp only [writeAtomic, writeCalls, Option.filter_none, write_write, hname, rename_write hnew]
  cases (d.files.lookup name).any (·.kind == .directory) with
  | true => simp only [if_true, remove_write hnew]
  | false => rfl

/-- A failure up to the rename leaves the directory as it was. -/
theorem writeAtomic_early (hcall : ¬ fault.call.AfterRename) :
    writeAtomic (some fault) temporary name data d = (some fault.text, d) := by
  obtain ⟨call, written, text⟩ := fault
  cases call with
  | createTemp => rfl
  | chmod =>
    change (_, (d.write temporary []).remove temporary) = _
    rw [remove_write hnew]
  | write =>
    change (_, ((d.write temporary []).write temporary (data.take written)).remove temporary) = _
    rw [write_write, remove_write hnew]
  | sync | close | rename =>
    change (_, ((d.write temporary []).write temporary data).remove temporary) = _
    rw [write_write, remove_write hnew]
  | openDirectory => exact absurd (.inl rfl) hcall
  | syncDirectory => exact absurd (.inr rfl) hcall

/-- A failure after the rename leaves the new file under its final name, and there is no
    temporary file to remove. -/
theorem writeAtomic_late (hne : name ≠ temporary) (hcall : fault.call.AfterRename)
    (hfile : (d.files.lookup name).any (·.kind == .directory) = false) :
    writeAtomic (some fault) temporary name data d = (some fault.text, d.write name data) := by
  obtain ⟨call, written, text⟩ := fault
  have hname : (d.write temporary data).files.lookup name = d.files.lookup name := by
    rw [lookup_write, if_neg hne]
  have hgone : (d.write name data).remove temporary = d.write name data := by
    refine Disk.ext_lookup rfl fun n => ?_
    rw [lookup_remove, lookup_write]
    split
    · rename_i hn
      rw [hn, if_neg (Ne.symm hne), hnew]
    · rfl
  have hcalls : writeCalls (some ⟨call, written, text⟩) temporary name data d =
      (some text, d.write name data) := by
    rcases hcall with rfl | rfl <;>
    · change (if ((d.write temporary []).write temporary data).files.lookup name |>.any
        (·.kind == .directory) then _ else (some text,
          (((d.write temporary []).write temporary data).remove temporary).write name data)) = _
      rw [write_write, hname, hfile, rename_write hnew]
      rfl
  have hcreate : writeAtomic (some ⟨call, written, text⟩) temporary name data d =
      match writeCalls (some ⟨call, written, text⟩) temporary name data d with
      | (some text, d) => (some text, d.remove temporary)
      | (none, d) => (none, d) := by
    rcases hcall with rfl | rfl <;> rfl
  rw [hcreate, hcalls]
  exact congrArg (Prod.mk _) hgone

omit hnew

theorem name_ne_temporary (name random : Bytes) :
    name ≠ temporaryPrefix ++ name ++ lit "-" ++ random := by
  intro heq
  have hlen := congrArg List.length heq
  have hpre : temporaryPrefix.length = 19 := by decide
  simp only [List.length_append, hpre] at hlen
  omega

/-- Without a fault the node's helper is the write of the store model. -/
theorem writePrivateAtomicWith_none {random : Bytes}
    (hnew : d.files.lookup (temporaryPrefix ++ name ++ lit "-" ++ random) = none) :
    writePrivateAtomicWith none random d name data = writePrivateAtomic d name data := by
  rw [writePrivateAtomicWith, writeAtomic_none hnew (name_ne_temporary _ _), writePrivateAtomic]
  cases (d.files.lookup name).any (·.kind == .directory) <;> rfl

end

/-! ## The node's `Put` -/

/-- `Put` with the given way to write a file. -/
def DiskStore.putWith (write : Disk → Bytes → Bytes → Except StoreError Unit × Disk) (s : DiskStore)
    (now : Time) (item : StoredItem) : Except StoreError Unit × DiskStore :=
  if s.closed then (.error .storeClosed, s)
  else
    match validateItem item now defaultMaxItemBytes with
    | .error e => (.error (.item e), s)
    | .ok () =>
      if (s.items.lookup item.itemID).isSome then (.ok (), s)
      else
        match marshal storedItemCodec item with
        | none => (.error .encoding, s)
        | some encoded =>
          if encoded.length > maxStoredItemEncodingBytes then (.error (.item .itemTooLarge), s)
          else
            let charge := storedItemCharge encoded.length
            if s.items.size ≥ maxStoredItems ∨
                s.capacity > 0 ∧ wrap64 (s.used + charge) > s.capacity then (.error .storageFull, s)
            else if (s.routeIDs item.routeTag).card ≥ maxItemsPerRoute ∨ s.routeQuota > 0 ∧
                wrap64 (s.routeCharge item.routeTag + charge) > s.routeQuota then
              (.error .mailboxQuota, s)
            else
              match path item.itemID with
              | .error e => (.error e, s)
              | .ok name =>
                match write s.dir name encoded with
                | (.error e, d) => (.error e, { s with dir := d })
                | (.ok (), d) => (.ok (), { s with dir := d }.index item charge)

theorem putWith_writePrivateAtomic (s : DiskStore) (now : Time) (item : StoredItem) :
    s.putWith writePrivateAtomic now item = s.put now item := by
  unfold DiskStore.putWith DiskStore.put
  rfl

/-- `Put` ends before it writes, or its result is that of one write. -/
theorem putWith_cases (s : DiskStore) (now : Time) (item : StoredItem) :
    (∃ r, ∀ write, s.putWith write now item = (r, s)) ∨
    s.items.lookup item.itemID = none ∧ ∃ encoded charge, ∀ write, s.putWith write now item =
      match write s.dir (itemFile item.itemID) encoded with
      | (.error e, d) => (.error e, { s with dir := d })
      | (.ok (), d) => (.ok (), { s with dir := d }.index item charge) := by
  unfold DiskStore.putWith
  split
  · exact .inl ⟨_, fun _ => rfl⟩
  · cases validateItem item now defaultMaxItemBytes with
    | error e => exact .inl ⟨_, fun _ => rfl⟩
    | ok _ =>
      dsimp only
      split
      · exact .inl ⟨_, fun _ => rfl⟩
      · rename_i hnone
        have hnone : s.items.lookup item.itemID = none := by simpa using hnone
        cases marshal storedItemCodec item with
        | none => exact .inl ⟨_, fun _ => rfl⟩
        | some encoded =>
          dsimp only
          split
          · exact .inl ⟨_, fun _ => rfl⟩
          · split
            · exact .inl ⟨_, fun _ => rfl⟩
            · split
              · exact .inl ⟨_, fun _ => rfl⟩
              · unfold path
                by_cases hvalid : validItemID item.itemID = true
                · rw [if_pos hvalid]
                  exact .inr ⟨hnone, encoded, _, fun _ => rfl⟩
                · rw [if_neg hvalid]
                  exact .inl ⟨_, fun _ => rfl⟩

/-- Entry and file of an item are those of before. -/
def DiskStore.SameItem (s s' : DiskStore) (id : Bytes) : Prop :=
  s'.items.lookup id = s.items.lookup id ∧
    s'.dir.files.lookup (itemFile id) = s.dir.files.lookup (itemFile id)

section

variable {s t : DiskStore} {now : Time} {item : StoredItem} {fault : Fault} {random : Bytes}

variable
  (hnew : s.dir.files.lookup (temporaryPrefix ++ itemFile item.itemID ++ lit "-" ++ random) = none)

include hnew

/-- Where the fault comes up to the rename, the store stays as it is. -/
theorem putWith_early (hcall : ¬ fault.call.AfterRename) :
    (s.putWith (writePrivateAtomicWith (some fault) random) now item).2 = s := by
  obtain ⟨r, hput⟩ | ⟨-, encoded, charge, hput⟩ := putWith_cases s now item
  · rw [hput]
  · rw [hput, writePrivateAtomicWith, writeAtomic_early hnew hcall]

/-- A `Put` that would write a file fails with any fault; where the fault comes after the
    rename, it leaves the directory of the `Put` that succeeds. -/
theorem putWith_late (hput : s.put now item = (.ok (), t)) (hchanged : t.dir ≠ s.dir) :
    ∃ s1, s.putWith (writePrivateAtomicWith (some fault) random) now item =
      (.error (.io fault.text), s1) ∧ (fault.call.AfterRename → s1.dir = t.dir) := by
  rw [← putWith_writePrivateAtomic] at hput
  obtain ⟨r, hcase⟩ | ⟨-, encoded, charge, hcase⟩ := putWith_cases s now item
  · rw [hcase, Prod.mk.injEq] at hput
    exact absurd (congrArg DiskStore.dir hput.2.symm) hchanged
  · rw [hcase, writePrivateAtomic] at hput
    rw [hcase, writePrivateAtomicWith]
    cases hfile : (s.dir.files.lookup (itemFile item.itemID)).any (·.kind == .directory) with
    | true =>
      rw [hfile, if_pos rfl] at hput
      cases hput
    | false =>
      rw [hfile, if_neg Bool.false_ne_true] at hput
      cases hput
      by_cases hcall : fault.call.AfterRename
      · rw [writeAtomic_late hnew (name_ne_temporary _ _) hcall hfile]
        exact ⟨_, rfl, fun _ => rfl⟩
      · rw [writeAtomic_early hnew hcall]
        exact ⟨_, rfl, fun hlate => absurd hlate hcall⟩

end

end Veilmesh.Node
