import EditingEngine.CommandLine.Formatter

/-!
# Runs on a disk

A run reads files by their paths, may write one of them, and prints. Which file a path
leads to, and why it leads to none that can be read, is up to the system: a disk takes
its word for it. Several paths may lead to one file, and what can be read can be
written. A file holds what was last written to it, by whatever path, and writing it
neither touches another file nor leads a path elsewhere.
-/
namespace EditingEngine.CommandLine

structure Disk where
  /-- The number of the file that a path leads to, or why none can be read there. -/
  locate : String → Except ReadError Nat
  /-- What the files hold, by their numbers. -/
  contents : Nat → Contents

namespace Disk

/-- Read the file at a path. -/
def read (disk : Disk) (path : String) : Except ReadError Contents :=
  (disk.locate path).map disk.contents

/-- Put a text in the place of what a file holds. -/
def store (disk : Disk) (number : Nat) (text : Text) : Disk where
  locate := disk.locate
  contents := fun other => if other = number then .text text else disk.contents other

/-- Write the file at a path, if there is one. -/
def write (disk : Disk) (path : String) (text : Text) : Disk :=
  match disk.locate path with
  | .ok number => disk.store number text
  | .error _ => disk

section

variable {disk : Disk} {path : String} {number : Nat}

theorem read_eq_ok_iff {contents : Contents} : disk.read path = .ok contents ↔
    ∃ number, disk.locate path = .ok number ∧ disk.contents number = contents := by
  unfold read
  cases disk.locate path <;> simp [Except.map]

theorem write_of_locate (h : disk.locate path = .ok number) (text : Text) :
    disk.write path text = disk.store number text := by
  rw [write, h]

/-- Paths lead where they led before. -/
@[simp] theorem locate_write (disk : Disk) (path : String) (text : Text) :
    (disk.write path text).locate = disk.locate := by
  unfold write
  split <;> rfl

/-- A file that could be read reads as what was written. -/
theorem read_write {contents : Contents} (h : disk.read path = .ok contents) (text : Text) :
    (disk.write path text).read path = .ok (.text text) := by
  obtain ⟨number, hlocate, _⟩ := read_eq_ok_iff.mp h
  refine read_eq_ok_iff.mpr ⟨number, ?_, ?_⟩
  · rw [locate_write, hlocate]
  · rw [write_of_locate hlocate]
    exact if_pos rfl

end

end Disk

/-- What a run leaves behind. -/
structure Outcome where
  status : Nat
  output : Text
  failure : Option Failure
  disk : Disk

/-- Run the formatter with options. -/
def runFormat (options : Options) (input : Contents) (disk : Disk) : Except Failure Outcome := do
  let lang ← languageOf (options.config.map disk.read)
  let text ← textOf (match options.input with
    | some path => disk.read path
    | none => .ok input)
  let verdict := format options lang text
  let disk := match options.input, verdict.replacement with
    | some path, some result => disk.write path result
    | _, _ => disk
  return ⟨verdict.status, verdict.output, none, disk⟩

/-- Run the formatter with arguments. -/
def run (args : List String) (input : Contents) (disk : Disk) : Outcome :=
  match Request.ofArguments args with
  | .help => ⟨0, [], none, disk⟩
  | .version => ⟨0, versionText, none, disk⟩
  | .unclear => ⟨2, [], some .unclearArguments, disk⟩
  | .format options =>
    match runFormat options input disk with
    | .ok outcome => outcome
    | .error failure => ⟨2, [], some failure, disk⟩

end EditingEngine.CommandLine
