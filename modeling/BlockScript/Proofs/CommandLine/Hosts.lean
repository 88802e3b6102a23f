import BlockScript.CommandLine.FileTree
import BlockScript.CommandLine.Run

/-! # Hosts of a run

What a host does is told by what can be seen of its state: the files and what was said on the two
channels. A file system says which answers looking and writing may have, failures among them. -/

namespace BlockScript.CommandLine

/-- What can be seen of the state of a host. -/
structure Scene (F : Type) where
  files : F
  printed : String
  noted : String

namespace Scene
variable {F : Type}

def print (σ : Scene F) (text : String) : Scene F := { σ with printed := σ.printed ++ text }

def note (σ : Scene F) (text : String) : Scene F := { σ with noted := σ.noted ++ text }

def withFiles (σ : Scene F) (files : F) : Scene F := { σ with files }

@[simp] theorem files_note (σ : Scene F) (text : String) : (σ.note text).files = σ.files := rfl

@[simp] theorem files_withFiles (σ : Scene F) (files : F) : (σ.withFiles files).files = files := rfl

@[simp] theorem note_empty (σ : Scene F) : σ.note "" = σ := by simp [note]

@[simp] theorem note_withFiles (σ : Scene F) (files : F) (text : String) :
    (σ.withFiles files).note text = (σ.note text).withFiles files := rfl

@[simp] theorem withFiles_withFiles (σ : Scene F) (files after : F) :
    (σ.withFiles files).withFiles after = σ.withFiles after := rfl

@[simp] theorem note_note (σ : Scene F) (first second : String) :
    (σ.note first).note second = σ.note (first ++ second) := by
  simp [note, String.append_assoc]

end Scene

/-- Which answers files may give, and which files there may be after a write. Each step may have
several answers, and so it may fail although it could have gone well. -/
structure FileSystem (F : Type) where
  IsFile : F → String → Bool → Prop
  FullPath : F → String → Except FileError String → Prop
  Text : F → String → Except FileError String → Prop
  /-- A write of a text to a path, with the files before and after. -/
  Written : F → String → String → Except FileError Unit → F → Prop

/-- A host has a file system: its answers are possible ones, looking at files changes nothing,
writing changes nothing but files, and what is said goes to the end of its channel. -/
structure Host.Serves {S F : Type} (h : Host (StateM S)) (fs : FileSystem F)
    (scene : S → Scene F) : Prop where
  isFile (path : String) (s : S) :
    fs.IsFile (scene s).files path ((h.isFile path).run s).1 ∧
      scene ((h.isFile path).run s).2 = scene s
  fullPath (path : String) (s : S) :
    fs.FullPath (scene s).files path ((h.fullPath path).run s).1 ∧
      scene ((h.fullPath path).run s).2 = scene s
  readText (path : String) (s : S) :
    fs.Text (scene s).files path ((h.readText path).run s).1 ∧
      scene ((h.readText path).run s).2 = scene s
  writeText (path text : String) (s : S) : ∃ files,
    fs.Written (scene s).files path text ((h.writeText path text).run s).1 files ∧
      scene ((h.writeText path text).run s).2 = (scene s).withFiles files
  print (text : String) (s : S) : scene ((h.print text).run s).2 = (scene s).print text
  note (text : String) (s : S) : scene ((h.note text).run s).2 = (scene s).note text

/-- The answers of a tree of files, which are fixed. A write that fails leaves the tree as it is. -/
def FileTree.system : FileSystem FileTree where
  IsFile t path answer := answer = t.isFile path
  FullPath t path answer := answer = t.fullPath path
  Text t path answer := answer = t.readText path
  Written t path text answer after :=
    match t.writeText path text with
    | .ok files => answer = .ok () ∧ after = files
    | .error e => answer = .error e ∧ after = t

/-- What can be seen of a world is all of it. -/
def World.scene (w : World) : Scene FileTree := ⟨w.files, w.printed, w.noted⟩

theorem World.host_serves : World.host.Serves FileTree.system World.scene where
  isFile _ _ := ⟨rfl, rfl⟩
  fullPath _ _ := ⟨rfl, rfl⟩
  readText _ _ := ⟨rfl, rfl⟩
  print _ _ := rfl
  note _ _ := rfl
  writeText path text w := by
    cases write : w.files.writeText path text with
    | ok files =>
        have run : (World.host.writeText path text).run w = (.ok (), { w with files }) := by
          simp [World.host, write]
          rfl
        exact ⟨files, by simp [FileTree.system, World.scene, write, run], by rw [run]; rfl⟩
    | error e =>
        have run : (World.host.writeText path text).run w = (.error e, w) := by
          simp [World.host, write]
          rfl
        exact ⟨w.files, by simp [FileTree.system, World.scene, write, run], by rw [run]; rfl⟩

/-! ### How a run ends -/

section Ends
variable {S F α β : Type} (scene : S → Scene F)

/-- From every state that looks like a scene, a run ends with a result and a scene for which `Q`
holds. -/
def Ends (run : ExceptT RunError (StateM S) α) (σ : Scene F)
    (Q : Except RunError α → Scene F → Prop) : Prop :=
  ∀ s, scene s = σ → Q (run.run.run s).1 (scene (run.run.run s).2)

variable {scene} {σ : Scene F} {x : ExceptT RunError (StateM S) α}
  {f : α → ExceptT RunError (StateM S) β} {P Q : Except RunError α → Scene F → Prop}
  {R : Except RunError β → Scene F → Prop}

theorem Ends.mono (ends : Ends scene x σ P) (weaker : ∀ r τ, P r τ → Q r τ) : Ends scene x σ Q :=
  fun s hs => weaker _ _ (ends s hs)

theorem Ends.pure (a : α) (holds : Q (.ok a) σ) :
    Ends scene (Pure.pure a : ExceptT RunError (StateM S) α) σ Q := by
  rintro s rfl
  exact holds

theorem Ends.throw (e : RunError) (holds : Q (.error e) σ) :
    Ends scene (MonadExcept.throw e : ExceptT RunError (StateM S) α) σ Q := by
  rintro s rfl
  exact holds

/-- After a first part the rest goes on from its result, unless that is an error. -/
theorem Ends.bind (first : Ends scene x σ P)
    (rest : ∀ a τ, P (.ok a) τ → Ends scene (f a) τ R)
    (failed : ∀ e τ, P (.error e) τ → R (.error e) τ) : Ends scene (x >>= f) σ R := by
  intro s hs
  have after := first s hs
  have run : (x >>= f).run.run s = match x.run.run s with
      | (.ok a, t) => (f a).run.run t
      | (.error e, t) => (.error e, t) := by
    rw [ExceptT.run_bind, StateT.run_bind]
    rcases x.run.run s with ⟨_ | _, t⟩ <;> rfl
  rw [run]
  rcases hx : x.run.run s with ⟨r, t⟩
  rw [hx] at after
  cases r with
  | error e => exact failed e _ after
  | ok a => exact rest a _ after t rfl

end Ends

/-! ### The steps of a host -/

namespace Host.Serves
variable {S F : Type} {h : Host (StateM S)} {fs : FileSystem F} {scene : S → Scene F}

theorem ends_isFile (serves : h.Serves fs scene) (path : String) (σ : Scene F) :
    Ends scene (liftM (h.isFile path)) σ fun r τ =>
      ∃ answer, r = .ok answer ∧ fs.IsFile σ.files path answer ∧ τ = σ := by
  rintro s rfl
  exact ⟨_, rfl, serves.isFile path s⟩

theorem ends_fullPath (serves : h.Serves fs scene) (path : String) (error : FileError → RunError)
    (σ : Scene F) : Ends scene (attempt (h.fullPath path) error) σ fun r τ =>
      ∃ answer, r = answer.mapError error ∧ fs.FullPath σ.files path answer ∧ τ = σ := by
  rintro s rfl
  exact ⟨_, rfl, serves.fullPath path s⟩

theorem ends_readText (serves : h.Serves fs scene) (path : String) (error : FileError → RunError)
    (σ : Scene F) : Ends scene (attempt (h.readText path) error) σ fun r τ =>
      ∃ answer, r = answer.mapError error ∧ fs.Text σ.files path answer ∧ τ = σ := by
  rintro s rfl
  exact ⟨_, rfl, serves.readText path s⟩

theorem ends_writeText (serves : h.Serves fs scene) (path text : String)
    (error : FileError → RunError) (σ : Scene F) :
    Ends scene (attempt (h.writeText path text) error) σ fun r τ =>
      ∃ answer files, r = answer.mapError error ∧ fs.Written σ.files path text answer files ∧
        τ = σ.withFiles files := by
  rintro s rfl
  obtain ⟨files, written, after⟩ := serves.writeText path text s
  exact ⟨_, files, rfl, written, after⟩

theorem ends_print (serves : h.Serves fs scene) (text : String) (σ : Scene F) :
    Ends scene (liftM (h.print text)) σ fun r τ => r = .ok () ∧ τ = σ.print text := by
  rintro s rfl
  exact ⟨rfl, serves.print text s⟩

theorem ends_note (serves : h.Serves fs scene) (text : String) (σ : Scene F) :
    Ends scene (liftM (h.note text)) σ fun r τ => r = .ok () ∧ τ = σ.note text := by
  rintro s rfl
  exact ⟨rfl, serves.note text s⟩

end Host.Serves

/-- What needs no host leaves the scene as it is. -/
theorem ends_given {S F ε α : Type} {scene : S → Scene F} (result : Except ε α)
    (error : ε → RunError) (σ : Scene F) : Ends scene (given result error) σ fun r τ =>
      ∃ answer, r = answer.mapError error ∧ result = answer ∧ τ = σ := by
  rintro s rfl
  exact ⟨result, rfl, rfl, rfl⟩

end BlockScript.CommandLine
