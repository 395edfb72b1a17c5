import Mathlib
import TypeCatalog.CommandLine.Run
import TypeCatalog.Proofs.Elementwise

/-!
Conversions of several inputs.

A conversion of several files does to each of them what a conversion of that file alone does
(`inputs_independent`): it succeeds just in case all of those succeed, and what it writes has under
each path the value that the conversion of that path writes.  Two facts are behind this.  A file is
extracted by itself, so a list of files is read element by element (`Inputs.reads_extractFiles`);
and whether something can be saved does not depend on what it is (`exists_save`).
-/

namespace TypeCatalog

/-! ## Saving -/

/-- What is written to a file makes no difference to whether it can be written. -/
theorem Disk.exists_write {path text : String} {d written : Disk}
    (h : d.write path text = .ok written) (text' : String) :
    ∃ written', d.write path text' = .ok written' := by
  simp only [Disk.write] at h ⊢
  split at h
  · cases h
  · cases h
  · split at h
    · cases h
    · rename_i place located
      split at h
      · cases h
      · rename_i inside
        split at h
        · cases h
        · rename_i named
          rw [if_neg inside, if_neg named]
          split at h
          · cases h
          · exact ⟨_, rfl⟩
          · exact ⟨_, rfl⟩
          · cases h

namespace CommandLine

theorem exists_save {path text : String} {d saved : Disk} (h : save path text d = .ok saved)
    (text' : String) : ∃ saved', save path text' d = .ok saved' := by
  simp only [save] at h ⊢
  split at h
  · cases h
  · rename_i made _
    cases written : made.write path text with
    | error e =>
      rw [written] at h
      cases h
    | ok after =>
      obtain ⟨after', written'⟩ := Disk.exists_write written text'
      exact ⟨after', by rw [written']; rfl⟩

/-! ## Extracting -/

namespace Inputs

variable {i : Inputs} {d : Disk} {paths : List String}

/-- Paths that are no patterns stand for themselves. -/
theorem expandAll_of_plain (plain : ∀ path ∈ paths, Glob.isPattern path = false) :
    expandAll d paths = .ok paths := by
  induction paths with
  | nil => rfl
  | cons path rest ih =>
    obtain ⟨first, others⟩ := List.forall_mem_cons.1 plain
    have self : expand d path = .ok [path] := by
      rw [expand, first]
      rfl
    rw [expandAll, self, ih others]
    rfl

theorem extractAll_of_plain (plain : ∀ path ∈ i.paths, Glob.isPattern path = false) :
    i.extractAll d = i.extractFiles d i.paths := by
  rw [extractAll, expandAll_of_plain plain]

/-- Files are extracted one by one. -/
theorem reads_extractFiles (i : Inputs) (d : Disk) :
    Reads (fun path => (i.extractFile d path).map (Prod.mk path)) (i.extractFiles d) where
  nil := by simp [extractFiles, eq_comm]
  cons {path rest xs} := by
    rw [extractFiles]
    cases i.extractFile d path with
    | error e => simp [Except.map]
    | ok x => cases i.extractFiles d rest <;> simp [Except.map, eq_comm]

theorem named_eq_ok_iff {path : String} {entry : String × Extraction} :
    (i.extractFile d path).map (Prod.mk path) = .ok entry ↔
      entry.1 = path ∧ i.extractFile d entry.1 = .ok entry.2 := by
  obtain ⟨name, x⟩ := entry
  cases extracted : i.extractFile d path with
  | error e =>
    constructor
    · intro h
      cases h
    · rintro ⟨rfl, h⟩
      cases extracted.symm.trans h
  | ok y =>
    constructor
    · intro h
      cases h
      exact ⟨rfl, extracted⟩
    · rintro ⟨rfl, h⟩
      cases extracted.symm.trans h
      rfl

theorem keys_of_extractFiles {xs : List (String × Extraction)}
    (h : i.extractFiles d paths = .ok xs) : Assoc.keys xs = paths := by
  induction paths generalizing xs with
  | nil =>
    cases h
    rfl
  | cons path rest ih =>
    obtain ⟨entry, others, first, later, rfl⟩ := (reads_extractFiles i d).cons.1 h
    exact congrArg₂ List.cons (named_eq_ok_iff.1 first).1 (ih later)

/-- Files are all extracted just in case each of them is. -/
theorem exists_extractFiles_iff :
    (∃ xs, i.extractFiles d paths = .ok xs) ↔
      ∀ path ∈ paths, ∃ x, i.extractFile d path = .ok x := by
  rw [(reads_extractFiles i d).exists_ok_iff]
  refine forall₂_congr fun path _ => ?_
  cases i.extractFile d path <;> simp [Except.map]

theorem extractFile_of_mem {xs : List (String × Extraction)}
    (h : i.extractFiles d paths = .ok xs) {path : String} {x : Extraction}
    (mem : (path, x) ∈ xs) : i.extractFile d path = .ok x := by
  have each : ∀ path ∈ paths, ∀ entry : String × Extraction,
      (i.extractFile d path).map (Prod.mk path) = .ok entry →
        i.extractFile d entry.1 = .ok entry.2 :=
    fun path _ entry read => (named_eq_ok_iff.1 read).2
  exact (reads_extractFiles i d).forall_mem each h (path, x) mem

end Inputs

namespace Conversion

variable {c : Conversion} {d : Disk} {v : Json} {path : String}

/-- The same conversion of one file alone. -/
def alone (c : Conversion) (path : String) : Conversion :=
  { c with inputs := { c.inputs with paths := [path] } }

/-- A run succeeds and leaves a value: in the file to write, or else on the standard output. -/
def Writes (c : Conversion) (d : Disk) (v : Json) : Prop :=
  match c.out with
  | none => c.run d = .printed d (v.pretty ++ "\n")
  | some path => ∃ saved, save path v.pretty d = .ok saved ∧ c.run d = .printed saved ""

/-- Whatever is to be written can be written. -/
def Savable (c : Conversion) (d : Disk) : Prop :=
  ∀ path, c.out = some path → ∀ text, ∃ saved, save path text d = .ok saved

/-! ### Success -/

theorem error_eq_none_of_noOp (idle : c.noOp = true) : (c.run d).error = none := by
  rw [run, if_pos idle]

theorem writes_of_savable (active : c.noOp = false) (value : c.value d = .ok v)
    (savable : c.Savable d) : c.Writes d v := by
  cases out : c.out with
  | none =>
    simp only [Writes, out]
    rw [run, active, value, out]
    rfl
  | some path =>
    obtain ⟨saved, saving⟩ := savable path out v.pretty
    simp only [Writes, out]
    refine ⟨saved, saving, ?_⟩
    simp only [run, active, value, out, saving]
    rfl

theorem error_eq_none_of_writes (writes : c.Writes d v) : (c.run d).error = none := by
  unfold Writes at writes
  split at writes
  · rw [writes]
    rfl
  · obtain ⟨saved, -, ran⟩ := writes
    rw [ran]
    rfl

/-- A conversion that is to do something succeeds just in case it has a value, which can be
written. -/
theorem error_eq_none_iff (active : c.noOp = false) :
    (c.run d).error = none ↔ (∃ v, c.value d = .ok v) ∧ c.Savable d := by
  constructor
  · intro fine
    cases value : c.value d with
    | error e =>
      simp only [run, active, value] at fine
      cases fine
    | ok v =>
      refine ⟨⟨v, rfl⟩, fun path out text => ?_⟩
      cases saving : save path v.pretty d with
      | error e =>
        simp only [run, active, value, out, saving] at fine
        cases fine
      | ok saved => exact exists_save saving text
  · rintro ⟨⟨v, value⟩, savable⟩
    exact error_eq_none_of_writes (writes_of_savable active value savable)

/-! ### Values -/

/-- The value of a file alone is what is extracted from it. -/
theorem value_alone (plain : Glob.isPattern path = false) :
    (c.alone path).value d = .ok v ↔
      ∃ x, c.inputs.extractFile d path = .ok x ∧ c.format.json x = v := by
  have extracted : (c.alone path).inputs.extractAll d = c.inputs.extractFiles d [path] :=
    Inputs.extractAll_of_plain (List.forall_mem_singleton.2 plain)
  rw [value, extracted, Inputs.extractFiles]
  cases c.inputs.extractFile d path with
  | error e => simp
  | ok x => simp [Inputs.extractFiles, Assoc.mapValues, gathered, alone]

/-- Several values are gathered under their paths. -/
theorem gathered_of_two_le {values : List (String × Json)} (several : 2 ≤ values.length) :
    gathered values = .obj (Assoc.ofPairs values) := by
  rcases values with _ | ⟨first, _ | ⟨second, rest⟩⟩
  · exact absurd several (by simp)
  · exact absurd several (by simp)
  · rfl

theorem value_of_several (several : 2 ≤ c.inputs.paths.length)
    (plain : ∀ path ∈ c.inputs.paths, Glob.isPattern path = false) :
    c.value d = .ok v ↔ ∃ xs, c.inputs.extractFiles d c.inputs.paths = .ok xs ∧
      .obj (Assoc.ofPairs (Assoc.mapValues c.format.json xs)) = v := by
  rw [value, Inputs.extractAll_of_plain plain]
  cases extracted : c.inputs.extractFiles d c.inputs.paths with
  | error e => simp
  | ok xs =>
    have length : 2 ≤ (Assoc.mapValues c.format.json xs).length := by
      rw [← Inputs.keys_of_extractFiles extracted] at several
      simpa [Assoc.keys, Assoc.mapValues] using several
    simp [gathered_of_two_le length]

theorem exists_value_of_several_iff (several : 2 ≤ c.inputs.paths.length)
    (plain : ∀ path ∈ c.inputs.paths, Glob.isPattern path = false) :
    (∃ v, c.value d = .ok v) ↔
      ∀ path ∈ c.inputs.paths, ∃ v, (c.alone path).value d = .ok v := by
  have whole : (∃ v, c.value d = .ok v) ↔
      ∃ xs, c.inputs.extractFiles d c.inputs.paths = .ok xs := by
    simp only [value_of_several several plain]
    constructor
    · rintro ⟨-, xs, extracted, -⟩
      exact ⟨xs, extracted⟩
    · rintro ⟨xs, extracted⟩
      exact ⟨_, xs, extracted, rfl⟩
  rw [whole, Inputs.exists_extractFiles_iff]
  refine forall₂_congr fun path mem => ?_
  simp only [value_alone (plain path mem)]
  constructor
  · rintro ⟨x, extracted⟩
    exact ⟨_, x, extracted, rfl⟩
  · rintro ⟨-, x, extracted, -⟩
    exact ⟨x, extracted⟩

/-- What is extracted from several files has under each path what is extracted from that file. -/
theorem value_of_several_mem {table : List (String × Json)}
    (several : 2 ≤ c.inputs.paths.length)
    (plain : ∀ path ∈ c.inputs.paths, Glob.isPattern path = false)
    (value : c.value d = .ok (.obj table)) :
    Assoc.keys table = c.inputs.paths.eraseDups ∧
      ∀ path ∈ c.inputs.paths, ∃ v, Assoc.find? path table = some v ∧
        (c.alone path).value d = .ok v := by
  obtain ⟨xs, extracted, same⟩ := (value_of_several several plain).1 value
  obtain rfl := Json.obj.inj same
  have keys : Assoc.keys (Assoc.mapValues c.format.json xs) = c.inputs.paths := by
    rw [Assoc.keys_mapValues, Inputs.keys_of_extractFiles extracted]
  refine ⟨by rw [Assoc.keys_ofPairs, keys], fun path mem => ?_⟩
  obtain ⟨v, found⟩ := Assoc.exists_find?_of_mem_keys
    (Assoc.mem_keys_ofPairs.2 (keys ▸ mem : path ∈ Assoc.keys (Assoc.mapValues c.format.json xs)))
  refine ⟨v, found, (value_alone (plain path mem)).2 ?_⟩
  -- a path that is given twice is written twice, but both times with the value of its file
  obtain ⟨⟨_, x⟩, listed, eq⟩ :=
    List.mem_map.1 (Assoc.mem_of_mem_ofPairs (Assoc.mem_of_find? found))
  cases eq
  exact ⟨x, Inputs.extractFile_of_mem extracted listed, rfl⟩

/-! ### Runs -/

/-- A conversion of several files succeeds just in case that of each of them does. -/
theorem succeeds_iff_each (several : 2 ≤ c.inputs.paths.length)
    (plain : ∀ path ∈ c.inputs.paths, Glob.isPattern path = false) :
    (c.run d).error = none ↔
      ∀ path ∈ c.inputs.paths, ((c.alone path).run d).error = none := by
  cases idle : c.noOp with
  | true =>
    have each (path : String) : ((c.alone path).run d).error = none := error_eq_none_of_noOp idle
    exact iff_of_true (error_eq_none_of_noOp idle) fun path _ => each path
  | false =>
    have each (path : String) : ((c.alone path).run d).error = none ↔
        (∃ v, (c.alone path).value d = .ok v) ∧ c.Savable d := error_eq_none_iff idle
    have nonempty : c.inputs.paths ≠ [] := List.ne_nil_of_length_pos (by omega)
    simp only [error_eq_none_iff idle, each, forall₂_and,
      exists_value_of_several_iff several plain]
    exact and_congr_right fun _ => ⟨fun savable _ _ => savable, fun savable =>
      (List.exists_mem_of_ne_nil _ nonempty).elim savable⟩

/-- **Inputs are independent.**  A conversion of several files succeeds just in case the conversion
of each of them alone does.  What it writes then is an object with the paths as its keys, each where
it is given first, and under each path is what the conversion of that file alone writes. -/
theorem inputs_independent (several : 2 ≤ c.inputs.paths.length)
    (plain : ∀ path ∈ c.inputs.paths, Glob.isPattern path = false) (d : Disk) :
    ((c.run d).error = none ↔ ∀ path ∈ c.inputs.paths, ((c.alone path).run d).error = none) ∧
      (c.noOp = false → (c.run d).error = none →
        ∃ table, c.Writes d (.obj table) ∧ Assoc.keys table = c.inputs.paths.eraseDups ∧
          ∀ path ∈ c.inputs.paths, ∃ v, Assoc.find? path table = some v ∧
            (c.alone path).Writes d v) := by
  refine ⟨succeeds_iff_each several plain, fun active fine => ?_⟩
  obtain ⟨⟨v, value⟩, savable⟩ := (error_eq_none_iff active).1 fine
  obtain ⟨xs, -, rfl⟩ := (value_of_several several plain).1 value
  obtain ⟨keys, held⟩ := value_of_several_mem several plain value
  refine ⟨_, writes_of_savable active value savable, keys, fun path mem => ?_⟩
  obtain ⟨v, found, valueAlone⟩ := held path mem
  exact ⟨v, found, writes_of_savable active valueAlone savable⟩

set_option maxRecDepth 4000 in
/-- A file that is given twice is written once, before a file that has no root in it. -/
theorem inputs_independent_of_three :
    let paths := ["b.json", "a.json", "b.json"]
    let d : Disk := ⟨.directory [("a.json", .file "[]"),
      ("b.json", .file "\x7b\"roots\": \x7b\"r\": [\"any\"]\x7d\x7d")], []⟩
    let c : Conversion := ⟨.schema, ⟨none, [], paths⟩, none, false⟩
    2 ≤ paths.length ∧ (∀ path ∈ paths, Glob.isPattern path = false) ∧ (c.run d).error = none ∧
      (∃ table, c.Writes d (.obj table) ∧ Assoc.keys table = ["b.json", "a.json"] ∧
        ∀ path ∈ paths, ∃ v, Assoc.find? path table = some v ∧ (c.alone path).Writes d v) ∧
      c.Writes d (.obj [("b.json", .obj [("r", .obj [])]), ("a.json", .obj [])]) ∧
      (c.alone "b.json").Writes d (.obj [("r", .obj [])]) ∧
      (c.alone "a.json").Writes d (.obj []) := by
  intro paths d c
  have plain : ∀ path ∈ paths, Glob.isPattern path = false := by
    simp [paths, Glob.isPattern, String.any]
  have fine : Disk.fault? "a.json" = none ∧ Disk.fault? "b.json" = none := by
    have short : ¬FileTree.pathLimit < "a.json".utf8ByteSize ∧
        ¬FileTree.pathLimit < "b.json".utf8ByteSize := by decide
    simp [Disk.fault?, String.any, short]
  have bare : c.inputs.extractFile d "a.json" = .ok ⟨[], ⟨[], [], [], []⟩⟩ := by
    rw [Inputs.extractFile, Disk.read, fine.1]
    cbv
  have rooted : c.inputs.extractFile d "b.json" = .ok ⟨[("r", .unknown)], ⟨[], [], [], []⟩⟩ := by
    rw [Inputs.extractFile, Disk.read, fine.2]
    cbv
  -- nothing is saved, so what each file holds is printed
  have writesRooted : (c.alone "b.json").Writes d (.obj [("r", .obj [])]) :=
    writes_of_savable rfl ((value_alone (plain _ (by simp [paths]))).2 ⟨_, rooted, rfl⟩)
      fun path out => by cases out
  have writesBare : (c.alone "a.json").Writes d (.obj []) :=
    writes_of_savable rfl ((value_alone (plain _ (by simp [paths]))).2 ⟨_, bare, rfl⟩)
      fun path out => by cases out
  have each : ∀ path ∈ paths, ((c.alone path).run d).error = none :=
    List.forall_mem_cons.2 ⟨error_eq_none_of_writes writesRooted,
      List.forall_mem_cons.2 ⟨error_eq_none_of_writes writesBare,
        List.forall_mem_singleton.2 (error_eq_none_of_writes writesRooted)⟩⟩
  obtain ⟨success, content⟩ := inputs_independent (c := c) (by decide) plain d
  have extracted : c.inputs.extractFiles d paths = .ok
      [("b.json", ⟨[("r", .unknown)], ⟨[], [], [], []⟩⟩), ("a.json", ⟨[], ⟨[], [], [], []⟩⟩),
        ("b.json", ⟨[("r", .unknown)], ⟨[], [], [], []⟩⟩)] := by
    simp only [paths, Inputs.extractFiles, rooted, bare]
  have writes : c.Writes d (.obj [("b.json", .obj [("r", .obj [])]), ("a.json", .obj [])]) :=
    writes_of_savable rfl ((value_of_several (by decide) plain).2 ⟨_, extracted, by cbv⟩)
      fun path out => by cases out
  exact ⟨by decide, plain, success.2 each, content rfl (success.2 each), writes, writesRooted,
    writesBare⟩

end Conversion

end CommandLine

end TypeCatalog
