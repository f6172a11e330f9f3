import Tidy.Proofs.Invariant
import Tidy.Proofs.SettingsContents

/-!
# Falling back to the default settings

A workspace reads the settings file of its folder when it is told to and when it moves to a
folder.  What the file says comes into force, and the default settings do when the file is
reported to be wrong.  On the contents of `Settings.Escapes` neither happens: the fault
passes through, and a workspace that moves is then in its new folder with its old settings.
-/

namespace Tidy

namespace FileTree

variable {tree : FileTree} {path : Path} {bytes : List UInt8}

theorem contains_of_read
    (isRead : tree.read path = .ok bytes) :
    tree.contains path = .ok true := by
  unfold read at isRead
  unfold contains
  by_cases hasNone : hasNul path = true
  · rw [if_pos hasNone] at isRead
    cases isRead
  · rw [if_neg hasNone] at isRead ⊢
    split at isRead
    · rename_i found
      rw [found]
    · cases isRead
    · cases isRead
    · cases isRead

end FileTree

namespace Settings

/-- Whether a folder, as it is resolved, has a settings file with some bytes.  The first
name takes precedence. -/
structure InFolder (files : FileTree) (root folder path : Path) (bytes : List UInt8) : Prop where
  resolved : files.resolve root = .ok folder
  placed :
    path = folder.join (.ofString "smartfmt.toml") ∨
      files.contains (folder.join (.ofString "smartfmt.toml")) = .ok false ∧
        path = folder.join (.ofString ".smartfmtrc")
  read : files.read path = .ok bytes

variable {files : FileTree} {root folder path : Path} {bytes : List UInt8}

theorem InFolder.locate
    (file : InFolder files root folder path bytes) :
    locate files folder none = .ok (some path) := by
  have present := FileTree.contains_of_read file.read
  rcases file.placed with rfl | ⟨absent, rfl⟩
  · simp only [Settings.locate, fileNames, List.map_cons, firstPresent, present]
    rfl
  · simp only [Settings.locate, fileNames, List.map_cons, firstPresent, present, absent]
    rfl

theorem InFolder.load
    (file : InFolder files root folder path bytes) :
    load files root none =
      match ofBytes path.extension bytes with
      | .error problem => .error (problem.fault path)
      | .ok settings => .ok { settings with root := some folder, source := some path } := by
  unfold Settings.load
  rw [file.resolved]
  change (Settings.locate files folder none >>= _) = _
  rw [file.locate]
  change (files.read path >>= _) = _
  rw [file.read]
  rfl

/-- The settings that a file should put in force: those in its bytes, or the default ones
of the folder if there are none. -/
def wanted (root folder path : Path) (bytes : List UInt8) : Settings :=
  match ofBytes path.extension bytes with
  | .ok settings => { settings with root := some folder, source := some path }
  | .error _ => { root := some root }

/-- A problem is reported, unless it is a fault of its own. -/
theorem Problem.fault_cases
    (problem : Problem) (path : Path) :
    (∃ fault, problem = .escaping fault ∧ problem.fault path = fault) ∨
      problem.fault path = .reported (problem.diagnostic path) := by
  cases problem with
  | escaping fault =>
      exact Or.inl ⟨fault, rfl, rfl⟩
  | _ =>
      exact Or.inr rfl

end Settings

namespace Workspace

open Settings

variable {folder path : Path} {bytes : List UInt8}

theorem reload_of_escapes
    (before : Logged Workspace) {fault : Fault}
    (file : InFolder before.state.files before.state.root folder path bytes)
    (escapes : Escapes path.extension bytes fault) :
    reload before = (.error fault, before) := by
  apply reload_of_unreported ?_ escapes.ne_reported
  rw [file.load, ofBytes_eq_error_iff.mpr escapes]
  rfl

theorem reload_of_told
    (before : Logged Workspace)
    (file : InFolder before.state.files before.state.root folder path bytes)
    (told : ¬ ∃ fault, Escapes path.extension bytes fault) :
    PutsInForce before.state (wanted before.state.root folder path bytes) (reload before) := by
  have loaded := file.load
  unfold wanted
  cases isRead : ofBytes path.extension bytes with
  | ok settings =>
      rw [isRead] at loaded
      exact reload_of_load loaded
  | error problem =>
      rw [isRead] at loaded
      rcases problem.fault_cases path with ⟨fault, rfl, _⟩ | reported
      · exact absurd ⟨fault, ofBytes_eq_error_iff.mp isRead⟩ told
      · exact reload_of_reported (loaded.trans (congrArg Except.error reported))

/-- The settings that a file should put in force do come into force exactly when its
contents do not escape. -/
theorem reload_putsInForce_iff
    (before : Logged Workspace)
    (file : InFolder before.state.files before.state.root folder path bytes) :
    PutsInForce before.state (wanted before.state.root folder path bytes) (reload before) ↔
      ¬ ∃ fault, Escapes path.extension bytes fault := by
  constructor
  · rintro inForce ⟨fault, escapes⟩
    have returned := inForce.returned
    rw [reload_of_escapes before file escapes] at returned
    cases returned
  · exact reload_of_told before file

/-- Whatever a settings file holds, reading it again and moving to its folder put its
settings in force, or the default ones of the folder, exactly when its contents do not
escape.  On contents that escape, the fault passes through and the old settings stay, in
the new folder if the workspace was to move. -/
theorem settingsFile_putsInForce_iff
    (before : Logged Workspace) (folder path : Path) (bytes : List UInt8) :
    (InFolder before.state.files before.state.root folder path bytes →
      (PutsInForce before.state (wanted before.state.root folder path bytes) (reload before) ↔
        ¬ ∃ fault, Escapes path.extension bytes fault) ∧
      ∀ fault, Escapes path.extension bytes fault → reload before = (.error fault, before)) ∧
    ∀ rootUri,
      InFolder before.state.files (folderOf before.state.protocol before.state.files rootUri)
          folder path bytes →
      (PutsInForce (before.state.moved rootUri)
          (wanted (folderOf before.state.protocol before.state.files rootUri) folder path bytes)
          (setRoot rootUri before) ↔
        ¬ ∃ fault, Escapes path.extension bytes fault) ∧
      ∀ fault, Escapes path.extension bytes fault →
        setRoot rootUri before =
          (.error fault, { before with state := before.state.moved rootUri }) := by
  constructor
  · intro file
    exact ⟨reload_putsInForce_iff before file,
      fun _ escapes => reload_of_escapes before file escapes⟩
  · intro rootUri file
    rw [setRoot_eq_reload]
    let atFolder : Logged Workspace := { before with state := before.state.moved rootUri }
    exact ⟨reload_putsInForce_iff atFolder file,
      fun _ escapes => reload_of_escapes atFolder file escapes⟩

/-- Three folders with settings: an indent, a list instead of a table, and no text. -/
def threeFolders : FileTree where
  directory := .ofString "/"
  nodes :=
    [(["a"], .directory),
     (["a", "smartfmt.toml"], .file "fields.indent = 4".toUTF8.toList),
     (["b"], .directory),
     (["b", ".smartfmtrc"], .file "[]".toUTF8.toList),
     (["c"], .directory),
     (["c", "smartfmt.toml"], .file [255])]

theorem inFolder_indent :
    InFolder threeFolders (.ofString "/a") (.ofString "/a") (.ofString "/a/smartfmt.toml")
      "fields.indent = 4".toUTF8.toList where
  resolved := by decide +kernel
  placed := Or.inl (by decide +kernel)
  read := by decide +kernel

theorem inFolder_list :
    InFolder threeFolders (.ofString "/b") (.ofString "/b") (.ofString "/b/.smartfmtrc")
      "[]".toUTF8.toList where
  resolved := by decide +kernel
  placed := Or.inr ⟨by decide +kernel, by decide +kernel⟩
  read := by decide +kernel

def overFolders : Logged Workspace :=
  { state := create Protocol.usual threeFolders none none }

theorem settingsFile_putsInForce_iff_folders :
    PutsInForce (overFolders.state.moved (some "/a"))
        { root := some (.ofString "/a")
          options := { fieldIndent := 4 }
          source := some (.ofString "/a/smartfmt.toml") }
        (setRoot (some "/a") overFolders) ∧
      PutsInForce (overFolders.state.moved (some "/b")) { root := some (.ofString "/b") }
        (setRoot (some "/b") overFolders) := by
  have indentFolder : folderOf Protocol.usual threeFolders (some "/a") = .ofString "/a" := by
    decide +kernel
  have listFolder : folderOf Protocol.usual threeFolders (some "/b") = .ofString "/b" := by
    decide +kernel
  have indentRead :
      ofBytes (Path.ofString "/a/smartfmt.toml").extension "fields.indent = 4".toUTF8.toList =
        .ok { options := { fieldIndent := 4 } } := by
    decide +kernel
  have listRefused :
      ofBytes (Path.ofString "/b/.smartfmtrc").extension "[]".toUTF8.toList =
        .error .notTable := by
    decide +kernel
  constructor
  · have ofFolder :=
      (settingsFile_putsInForce_iff overFolders _ _ _).2 (some "/a")
        (indentFolder.symm ▸ inFolder_indent)
    have told := ofFolder.1.mpr (by
      rintro ⟨fault, escapes⟩
      rw [← ofBytes_eq_error_iff, indentRead] at escapes
      cases escapes)
    rw [wanted, indentRead] at told
    exact told
  · have ofFolder :=
      (settingsFile_putsInForce_iff overFolders _ _ _).2 (some "/b")
        (listFolder.symm ▸ inFolder_list)
    have told := ofFolder.1.mpr (by
      rintro ⟨fault, escapes⟩
      rw [← ofBytes_eq_error_iff, listRefused] at escapes
      cases escapes)
    rw [wanted, listRefused] at told
    exact listFolder ▸ told

def inFirst : Logged Workspace :=
  (setRoot (some "/a") overFolders).2

theorem inFolder_noText :
    InFolder inFirst.state.files
        (folderOf inFirst.state.protocol inFirst.state.files (some "/c")) (.ofString "/c")
      (.ofString "/c/smartfmt.toml") [255] where
  resolved := by decide +kernel
  placed := Or.inl (by decide +kernel)
  read := by decide +kernel

/-- Moving from the first folder to the third fails, and leaves the workspace in the third
folder with the settings of the first. -/
theorem setRoot_noText :
    InFolder inFirst.state.files
        (folderOf inFirst.state.protocol inFirst.state.files (some "/c")) (.ofString "/c")
        (.ofString "/c/smartfmt.toml") [255] ∧
      (setRoot (some "/c") inFirst).1 = .error (.undecodable ⟨.invalidStart, 255, 0, 1⟩) ∧
      (setRoot (some "/c") inFirst).2.state.root = .ofString "/c" ∧
      (setRoot (some "/c") inFirst).2.state.settings = inFirst.state.settings ∧
      (setRoot (some "/c") inFirst).2.state.options.fieldIndent = 4 ∧
      ¬ PutsInForce (inFirst.state.moved (some "/c"))
        (wanted (folderOf inFirst.state.protocol inFirst.state.files (some "/c")) (.ofString "/c")
          (.ofString "/c/smartfmt.toml") [255])
        (setRoot (some "/c") inFirst) := by
  have failed :
      (setRoot (some "/c") inFirst).1 = .error (.undecodable ⟨.invalidStart, 255, 0, 1⟩) := by
    decide +kernel
  refine ⟨inFolder_noText, failed, by decide +kernel, by decide +kernel, by decide +kernel, ?_⟩
  intro inForce
  rw [inForce.returned] at failed
  cases failed

end Workspace

end Tidy
