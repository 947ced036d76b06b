import Ambient.Command.Desk
import Mathlib.Logic.Function.Basic
/-!
# Lawful hosts

The command reaches files and streams only through a `Host`. What becomes of them is told by a
`World`: the state that an action leaves behind, and what can be seen in a state. A host is lawful
if each of its operations does what it is for and changes nothing else that can be seen, and if a
write that fails changes nothing (`Host.Lawful`). This is all that has to be known about files,
directories and links.

A desk is a lawful host (`Desk.lawful_host`). Where its paths lead depends on the directories, never
on the files (`Desk.locate_eq_ok`).
-/

namespace Ambient.Command

/-! ## What can be seen -/

/-- What can be seen in a state: the place that a path leads to, whether there is a file or not, the
content of the file at a place, and what has been written to the streams. -/
@[ext]
structure View (Place : Type) where
  place? : String → Option Place
  file? : Place → Option ByteArray
  stdout : String
  stderr : String

section

variable {Place : Type} [DecidableEq Place]

namespace View

/-- Replaces the content of a file, or adds a file. -/
def put (view : View Place) (place : Place) (content : ByteArray) : View Place :=
  { view with file? := Function.update view.file? place (some content) }

/-- Adds to standard output. -/
def print (view : View Place) (text : String) : View Place :=
  { view with stdout := view.stdout ++ text }

/-- Adds to standard error. -/
def report (view : View Place) (text : String) : View Place :=
  { view with stderr := view.stderr ++ text }

end View

/-- The text has been delivered: standard output has it behind what was there, or a file has it in
place of what was there. Nothing else has changed. -/
inductive Delivered (text : String) (before : View Place) : Option String → View Place → Prop
  | toOutput : Delivered text before none (before.print text)
  | toFile {path : String} {place : Place} : before.place? path = some place →
    Delivered text before (some path) (before.put place text.toUTF8)

theorem Delivered.eq_put {text path : String} {before after : View Place} {place : Place}
    (h : Delivered text before (some path) after) (hplace : before.place? path = some place) :
    after = before.put place text.toUTF8 := by
  cases h with
  | toFile hplace' =>
    cases hplace.symm.trans hplace'
    rfl

end

/-! ## Laws -/

/-- The states that actions run in, and what can be seen in them. -/
structure World (m : Type → Type) [Monad m] (σ Place : Type) where
  /-- The answer of an action, and the state that it leaves behind. -/
  act {α : Type} : m α → σ → α × σ
  act_pure {α : Type} (a : α) (s : σ) : act (pure a) s = (a, s)
  act_bind {α β : Type} (x : m α) (f : α → m β) (s : σ) :
    act (x >>= f) s = act (f (act x s).1) (act x s).2
  view : σ → View Place
  /-- What is left to read on standard input. -/
  stdin : σ → ByteArray

section

variable {m : Type → Type} [Monad m] {σ Place : Type} [DecidableEq Place]

/-- What is there to be read: the content of the file that a path leads to, or standard input. -/
def World.Holds (w : World m σ Place) (s : σ) : Option String → ByteArray → Prop
  | none, bytes => w.stdin s = bytes
  | some path, bytes =>
    ∃ place, (w.view s).place? path = some place ∧ (w.view s).file? place = some bytes

/-- The exit code of a run of the command, and the state that it leaves behind. -/
def World.run (w : World m σ Place) (host : Host m) (s : σ) (arguments : List String) : Nat × σ :=
  w.act (Command.run host arguments) s

/-- Each operation of the host does what it is for, and nothing else that can be seen. -/
structure Host.Lawful (host : Host m) (w : World m σ Place) : Prop where
  holds_of_read {path : Option String} {s : σ} {bytes : ByteArray} :
    (w.act (host.read path) s).1 = .ok bytes → w.Holds s path bytes
  /-- At most standard input is used up. -/
  view_read (path : Option String) (s : σ) : w.view (w.act (host.read path) s).2 = w.view s
  delivered_of_write {path : Option String} {text : String} {s : σ} :
    (w.act (host.write path text) s).1 = .ok () →
      Delivered text (w.view s) path (w.view (w.act (host.write path text) s).2)
  /-- A write that fails leaves its target as it was. -/
  view_write_of_error {path : Option String} {text why : String} {s : σ} :
    (w.act (host.write path text) s).1 = .error why →
      w.view (w.act (host.write path text) s).2 = w.view s
  view_report (text : String) (s : σ) :
    w.view (w.act (host.report text) s).2 = (w.view s).report text

end

/-! ## Desks -/

namespace Desk

/-- The place that a path leads to. -/
def place? (desk : Desk) (path : String) : Option Location :=
  match desk.locate path with
  | .ok (.entry place _) => some place
  | _ => none

/-- What can be seen on a desk. -/
def view (desk : Desk) : View Location := ⟨desk.place?, desk.file?, desk.stdout, desk.stderr⟩

/-- The desk is the state. -/
def world : World (StateM Desk) Desk Location where
  act action desk := action desk
  act_pure _ _ := rfl
  act_bind _ _ _ := rfl
  view := view
  stdin := stdin

theorem run_world (desk : Desk) (arguments : List String) :
    world.run host desk arguments = runOn desk arguments := rfl

variable {desk other : Desk}

theorem place?_eq_some_iff {path : String} {place : Location} :
    desk.place? path = some place ↔ ∃ slash, desk.locate path = .ok (.entry place slash) := by
  unfold place?
  split
  · rename_i place' slash h
    simp [h]
  · rename_i hnone
    constructor
    · intro h
      cases h
    · rintro ⟨slash, h⟩
      exact absurd h (hnone place slash)

/-- The same directories are there, and the desk is at the same place among them. -/
def SameTree (desk other : Desk) : Prop :=
  other.directories = desk.directories ∧ other.way = desk.way

theorem SameTree.symm (h : desk.SameTree other) : other.SameTree desk := ⟨h.1.symm, h.2.symm⟩

section

variable (htree : desk.SameTree other)
include htree

theorem SameTree.root : other.root = desk.root := by
  unfold Desk.root
  rw [htree.2]

theorem SameTree.parent (directory : Directory) :
    other.parent directory = desk.parent directory := by
  cases directory with
  | above levels => rw [Desk.parent, Desk.parent, htree.root]
  | root => rfl
  | inside around name => rfl

theorem SameTree.child? (directory : Directory) (name : String) :
    other.child? directory name = desk.child? directory name := by
  have htowards : other.towards? name directory = desk.towards? name directory := by
    unfold towards?
    rw [htree.2]
  rw [Desk.child?, Desk.child?, htowards, htree.1]

/-- A step that leads to a directory does not depend on the files. -/
theorem follow_eq_ok {directory next : Directory} {step : Step}
    (h : desk.follow directory step = .ok next) : other.follow directory step = .ok next := by
  cases step with
  | stay => exact h
  | up =>
    rw [follow, htree.parent]
    exact h
  | enter name =>
    rw [follow] at h ⊢
    rw [htree.child?]
    split at h
    · cases h
    · rename_i hname
      rw [if_neg hname]
      split at h
      · exact h
      · split at h <;> cases h

theorem walk_eq_ok {slash : Bool} {directory : Directory} {steps : List Step} {target : Target}
    (h : desk.walk slash directory steps = .ok target) :
    other.walk slash directory steps = .ok target := by
  fun_induction walk desk slash directory steps with
  | case1 directory => exact h
  | case2 directory name =>
    rw [walk, Desk.target, htree.child?]
    exact h
  | case3 directory step steps hlast ih =>
    cases hnext : desk.follow directory step with
    | error e =>
      rw [hnext] at h
      cases h
    | ok next =>
      rw [hnext] at h
      rw [walk, follow_eq_ok htree hnext]
      · exact ih next h
      · exact hlast

theorem locate_eq_ok {text : String} {target : Target} (h : desk.locate text = .ok target) :
    other.locate text = .ok target := by
  unfold locate at h ⊢
  rw [htree.root]
  split at h
  · cases h
  · exact walk_eq_ok htree h

theorem SameTree.place? : other.place? = desk.place? := by
  funext path
  apply Option.ext
  intro place
  rw [place?_eq_some_iff, place?_eq_some_iff]
  exact exists_congr fun slash => ⟨locate_eq_ok htree.symm, locate_eq_ok htree⟩

end

theorem lookup_put (place : Location) (content : ByteArray) (files : List (Location × ByteArray)) :
    (put place content files).lookup place = some content := by
  induction files with
  | nil => simp [put]
  | cons file files ih =>
    obtain ⟨place', old⟩ := file
    rw [put]
    split
    · simp
    · rename_i hne
      rw [List.lookup_cons, beq_eq_false_iff_ne.2 (Ne.symm hne)]
      exact ih

theorem lookup_put_of_ne {place place' : Location} (h : place' ≠ place) (content : ByteArray)
    (files : List (Location × ByteArray)) :
    (put place content files).lookup place' = files.lookup place' := by
  induction files with
  | nil => simp [put, List.lookup_cons, beq_eq_false_iff_ne.2 h]
  | cons file files ih =>
    obtain ⟨place'', old⟩ := file
    rw [put]
    split
    · rename_i heq
      subst heq
      simp [List.lookup_cons, beq_eq_false_iff_ne.2 h]
    · simp [List.lookup_cons, ih]

theorem view_put (desk : Desk) (place : Location) (content : ByteArray) :
    { desk with files := put place content desk.files }.view = desk.view.put place content := by
  apply View.ext
  · exact SameTree.place? ⟨rfl, rfl⟩
  · funext place'
    dsimp only [View.put]
    by_cases h : place' = place
    · subst h
      rw [Function.update_self]
      exact lookup_put place' content desk.files
    · rw [Function.update_of_ne h]
      exact lookup_put_of_ne h content desk.files
  · rfl
  · rfl

theorem place?_of_writable {path : String} {place : Location}
    (h : desk.writable path = .ok place) : desk.place? path = some place := by
  unfold writable at h
  rcases hlocate : desk.locate path with e | _ | ⟨place', slash⟩
  · rw [hlocate] at h
    cases h
  · rw [hlocate] at h
    cases h
  · rw [hlocate] at h
    dsimp only [bind, Except.bind] at h
    split at h
    · cases h
    · split at h
      · cases h
      · cases h
        exact place?_eq_some_iff.2 ⟨slash, hlocate⟩

/-- What can be read are the files where something can be written. -/
theorem readFile_eq_ok_iff {path : String} {bytes : ByteArray} :
    desk.readFile path = .ok bytes ↔
      ∃ place, desk.writable path = .ok place ∧ desk.file? place = some bytes := by
  unfold readFile writable
  rcases desk.locate path with e | _ | ⟨place, slash⟩
  · simp [bind, Except.bind]
  · simp [bind, Except.bind]
  · dsimp only [bind, Except.bind]
    cases hname : Path.isLongName place.name <;> cases slash <;>
      cases hfile : desk.file? place <;> simp [hfile]

theorem write_of_writable {path : String} {place : Location} (h : desk.writable path = .ok place)
    (text : String) :
    desk.write (some path) text
      = (.ok (), { desk with files := put place text.toUTF8 desk.files }) := by
  rw [write, h]

theorem delivered_of_write {path : Option String} {text : String}
    (h : (desk.write path text).1 = .ok ()) :
    Delivered text desk.view path (desk.write path text).2.view := by
  cases path with
  | none =>
    have hprint : (desk.write none text).2.view = desk.view.print text :=
      View.ext (SameTree.place? ⟨rfl, rfl⟩) rfl rfl rfl
    rw [hprint]
    exact .toOutput
  | some path =>
    cases hplace : desk.writable path with
    | error e =>
      rw [write, hplace] at h
      cases h
    | ok place =>
      rw [write_of_writable hplace, view_put]
      exact .toFile (place?_of_writable hplace)

/-- A desk does not change if nothing can be written. -/
theorem write_of_error {path : Option String} {text why : String}
    (h : (desk.write path text).1 = .error why) : (desk.write path text).2 = desk := by
  cases path with
  | none => cases h
  | some path =>
    cases hplace : desk.writable path with
    | error e => rw [write, hplace]
    | ok place =>
      rw [write_of_writable hplace] at h
      cases h

/-- A desk is a lawful host. -/
theorem lawful_host : Desk.host.Lawful Desk.world where
  holds_of_read {path desk bytes} h := by
    cases path with
    | none => exact Except.ok.inj h
    | some path =>
      change (desk.readFile path).mapError _ = _ at h
      cases hread : desk.readFile path with
      | error e =>
        rw [hread] at h
        cases h
      | ok content =>
        rw [hread] at h
        cases h
        obtain ⟨place, hplace, hfile⟩ := readFile_eq_ok_iff.1 hread
        exact ⟨place, place?_of_writable hplace, hfile⟩
  view_read _ _ := rfl
  delivered_of_write h := delivered_of_write h
  view_write_of_error h := congrArg view (write_of_error h)
  view_report _ _ := View.ext (SameTree.place? ⟨rfl, rfl⟩) rfl rfl rfl

end Desk

end Ambient.Command
