/-
A desk keeps the promises of a system.

A file of its folder has the content that was put in it last, and putting content in one file
leaves the others as they are.
-/
import PostfixSheet.Folder

namespace PostfixSheet

namespace Folder

variable {name other path : String} {content : List UInt8} {folder later : Folder}

theorem lookup_cons_eq_if (key : String) (old : List UInt8)
    (entries : List (String × List UInt8)) :
    ((key, old) :: entries).lookup other =
      if other = key then some old else entries.lookup other := by
  rw [List.lookup_cons]
  by_cases hkey : other = key
  · rw [if_pos hkey, beq_iff_eq.2 hkey]
  · rw [if_neg hkey, beq_false_of_ne hkey]

theorem lookup_replace (entries : List (String × List UInt8)) :
    (entries.map fun entry => if entry.1 = name then (name, content) else entry).lookup other =
      if other = name then (entries.lookup name).map fun _ => content
      else entries.lookup other := by
  induction entries with
  | nil => simp
  | cons entry entries ih =>
      obtain ⟨key, old⟩ := entry
      rw [List.map_cons, lookup_cons_eq_if key, lookup_cons_eq_if key]
      by_cases hkey : key = name
      · subst hkey
        rw [if_pos rfl, if_pos rfl, lookup_cons_eq_if, ih]
        split <;> rfl
      · rw [if_neg hkey, lookup_cons_eq_if, ih]
        by_cases hother : other = name
        · subst hother
          simp [Ne.symm hkey]
        · simp [hother]

theorem file?_put (folder : Folder) (name other : String) (content : List UInt8) :
    (folder.put name content).file? other =
      if other = name then some content else folder.file? other := by
  cases hold : folder.file? name with
  | some old =>
      have hput : (folder.put name content).files =
          folder.files.map fun entry => if entry.1 = name then (name, content) else entry := by
        rw [put, hold]
        rfl
      rw [file?, hput, lookup_replace, ← file?, ← file?, hold]
      rfl
  | none =>
      have hput : (folder.put name content).files = folder.files ++ [(name, content)] := by
        rw [put, hold]
        rfl
      rw [file?, hput, List.lookup_append, ← file?, lookup_cons_eq_if]
      by_cases hother : other = name
      · rw [hother, hold, if_pos rfl, if_pos rfl]
        rfl
      · rw [if_neg hother, if_neg hother]
        exact Option.or_none

theorem file?_put_self (folder : Folder) (name : String) (content : List UInt8) :
    (folder.put name content).file? name = some content := by
  rw [file?_put, if_pos rfl]

theorem file?_put_of_ne (h : other ≠ name) (folder : Folder) (content : List UInt8) :
    (folder.put name content).file? other = folder.file? other := by
  rw [file?_put, if_neg h]

theorem eq_put_of_create (h : folder.create path = .ok (name, later)) :
    later = folder.put name [] := by
  unfold create at h
  split at h <;> cases h
  rfl

end Folder

namespace Desk

theorem host_lawful (input : List UInt8) : (host input).Lawful view where
  input_same h := by
    cases h
    exact ⟨rfl, rfl⟩
  read_same h := by
    cases h
    exact ⟨rfl, rfl⟩
  printed text desk := ⟨{ desk with printed := desk.printed ++ text }, rfl, rfl, rfl⟩
  not_created {path desk fault later} h := by
    simp only [StateT.run, host] at h
    split at h <;> cases h
    exact ⟨rfl, rfl⟩
  created {path desk name later} h := by
    simp only [StateT.run, host] at h
    split at h <;> cases h
    rename_i hcreated
    cases Folder.eq_put_of_create hcreated
    exact ⟨rfl, Folder.file?_put_self _ _ _, fun other hother =>
      Folder.file?_put_of_ne hother _ _⟩
  written {name bytes desk later old} h hold := by
    cases h
    have hname : desk.folder.file? name = some old := hold
    have hextended := Folder.file?_put_self desk.folder name (old ++ bytes)
    simpa only [view, Folder.extend, hname, Option.getD_some] using hextended
  write_other h := by
    cases h
    exact ⟨rfl, fun other hother => Folder.file?_put_of_ne hother _ _⟩

end Desk

end PostfixSheet
