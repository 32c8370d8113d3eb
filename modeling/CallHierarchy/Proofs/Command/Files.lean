import CallHierarchy.Command.Tools
import Mathlib.Data.List.Infix

/-!
# What a run does to files

A run writes at one place at most: the one that the command line names for the
output, in a directory that is already there. Putting a file into such a
directory changes nothing else (`FileSystem.content?_put_of_ne`), so no other
file has other contents after a run, however the run ends.

The place for the output is made empty before the analysis starts. A run that
fails earlier, by a pattern or for want of sources, leaves the file system as it
was; a run whose analysis fails leaves an empty file there, also where a file
stood before.
-/

namespace CallHierarchy

namespace FileSystem

/-- Whether something stands at the end of some names: an entry, or a directory around one. -/
def Known (fileSystem : FileSystem) (names : List String) : Prop :=
  names <+: fileSystem.workingNames ∨ ∃ entry ∈ fileSystem.entries, names <+: entry.1

variable {fileSystem : FileSystem} {names other : List String}

theorem Known.mono (known : fileSystem.Known names) (before : other <+: names) :
    fileSystem.Known other := by
  rcases known with inWorking | ⟨entry, entryMem, inEntry⟩
  · exact Or.inl (before.trans inWorking)
  · exact Or.inr ⟨entry, entryMem, before.trans inEntry⟩

theorem content?_eq_of_find?_eq_none [Decidable (fileSystem.Known names)]
    (absent : fileSystem.entries.find? (·.1 == names) = none) :
    fileSystem.content? names = if fileSystem.Known names then some .directory else none := by
  have known : (names.isPrefixOf fileSystem.workingNames ||
      fileSystem.entries.any fun entry => names.isPrefixOf entry.1) = true ↔
      fileSystem.Known names := by
    simp [Known]
  simp only [content?, absent]
  exact if_congr known rfl rfl

theorem known_of_content? {content : Content}
    (isContent : fileSystem.content? names = some content) : fileSystem.Known names := by
  classical
  rcases found : fileSystem.entries.find? (·.1 == names) with _ | entry
  · rw [content?_eq_of_find?_eq_none found] at isContent
    by_contra unknown
    simp [unknown] at isContent
  · have isEntry : entry.1 = names := by simpa using List.find?_some found
    exact Or.inr ⟨entry, List.mem_of_find?_eq_some found, isEntry ▸ List.prefix_rfl⟩

theorem content?_put_self (bytes : ByteArray) :
    (fileSystem.put names bytes).content? names = some (.file bytes) := by
  simp [content?, put]

theorem put_put (first second : ByteArray) :
    (fileSystem.put names first).put names second = fileSystem.put names second := by
  simp [put]

theorem known_put_iff (bytes : ByteArray) (around : fileSystem.Known names.dropLast)
    (differs : other ≠ names) :
    (fileSystem.put names bytes).Known other ↔ fileSystem.Known other := by
  constructor
  · rintro (inWorking | ⟨entry, entryMem, inEntry⟩)
    · exact Or.inl inWorking
    · rcases List.mem_cons.1 entryMem with rfl | entryMem
      · have nonempty : names ≠ [] := by
          rintro rfl
          exact differs (List.prefix_nil.1 inEntry)
        rw [← List.dropLast_append_getLast nonempty, List.prefix_concat_iff,
          List.dropLast_append_getLast nonempty] at inEntry
        exact around.mono (inEntry.resolve_left differs)
      · exact Or.inr ⟨entry, List.mem_of_mem_filter entryMem, inEntry⟩
  · rintro (inWorking | ⟨entry, entryMem, inEntry⟩)
    · exact Or.inl inWorking
    · by_cases replaced : entry.1 = names
      · exact Or.inr ⟨_, List.mem_cons_self, replaced ▸ inEntry⟩
      · refine Or.inr ⟨entry, List.mem_cons_of_mem _ ?_, inEntry⟩
        simp [entryMem, replaced]

/-- Putting a file into a directory that is there changes nothing else. -/
theorem content?_put_of_ne (bytes : ByteArray) (around : fileSystem.Known names.dropLast)
    (differs : other ≠ names) :
    (fileSystem.put names bytes).content? other = fileSystem.content? other := by
  classical
  have sameEntry : (fileSystem.put names bytes).entries.find? (·.1 == other) =
      fileSystem.entries.find? (·.1 == other) := by
    have notFirst : (names == other) = false := by simpa using differs.symm
    have kept : (fun entry : List String × Content =>
        decide ((entry.1 != names) = true ∧ (entry.1 == other) = true)) = (·.1 == other) := by
      funext entry
      by_cases isOther : entry.1 = other
      · simp [isOther, differs]
      · simp [isOther]
    simp only [put, List.find?_cons, notFirst, List.find?_filter, kept]
  rcases found : fileSystem.entries.find? (·.1 == other) with _ | entry
  · rw [content?_eq_of_find?_eq_none found, content?_eq_of_find?_eq_none (sameEntry.trans found)]
    simp only [known_put_iff bytes around differs]
  · simp only [content?, sameEntry, found]

/-- A path that goes on to `.` leads to a directory. -/
theorem content?_of_follow_current {segments : List String}
    (followed : fileSystem.follow names (segments ++ ["."]) = .ok other) :
    fileSystem.content? other = some .directory := by
  induction segments generalizing names with
  | nil =>
      simp only [List.nil_append, follow] at followed
      rcases isContent : fileSystem.content? names with _ | (bytes | _)
      all_goals simp only [isContent, reduceCtorEq] at followed
      cases followed
      exact isContent
  | cons segment rest ih =>
      simp only [List.cons_append, follow] at followed
      split at followed
      all_goals try cases followed
      split_ifs at followed
      all_goals exact ih followed

/-- A path can be written to only from a directory, and by one more segment at most. -/
theorem placeToWrite_eq_ok {path : Path} (toWrite : fileSystem.placeToWrite path = .ok names) :
    ∃ directory, ∃ last? : Option String,
      fileSystem.content? directory = some .directory ∧
      fileSystem.follow directory last?.toList = .ok names ∧
      fileSystem.content? names ≠ some .directory := by
  simp only [placeToWrite] at toWrite
  rcases refusal : refusal? path with _ | error
  all_goals simp only [refusal, bind, Except.bind, throw, throwThe, MonadExceptOf.throw, pure,
    Except.pure, reduceCtorEq] at toWrite
  split at toWrite
  · cases toWrite
  · rename_i directory ledThere
    split_ifs at toWrite
    split at toWrite
    · cases toWrite
    · rename_i place ledOn
      split_ifs at toWrite with isDirectory
      cases toWrite
      exact ⟨directory, _, content?_of_follow_current ledThere, ledOn, isDirectory⟩

/-- The directory that a file is to be written in is there. -/
theorem known_around_of_placeToWrite {path : Path}
    (toWrite : fileSystem.placeToWrite path = .ok names) : fileSystem.Known names.dropLast := by
  rcases placeToWrite_eq_ok toWrite with ⟨directory, last?, isDirectory, followed, notDirectory⟩
  have known := known_of_content? isDirectory
  have elsewhere : directory ≠ names := by
    rintro rfl
    exact notDirectory isDirectory
  rcases last? with _ | segment
  · simp only [Option.toList_none, follow, Except.ok.injEq] at followed
    exact absurd followed elsewhere
  · simp only [Option.toList_some, follow, isDirectory] at followed
    split_ifs at followed
    all_goals cases followed
    · exact absurd rfl elsewhere
    · exact (known.mono (List.dropLast_prefix _)).mono (List.dropLast_prefix _)
    · simpa using known

end FileSystem

namespace Command

/-- Why a command line that is understood leads to no call graph. -/
inductive Failure where
  /-- One of the patterns is none. -/
  | badPattern (error : DiscoveryError)
  /-- Nothing is left to analyse. -/
  | noSources
  /-- The configuration, or a source file, cannot be read or understood. -/
  | analysis (error : ProjectError)

/-- The place where a command line asks for the output to be written. -/
def OutputPlace (tools : Tools) (environment : String → Option String) (fileSystem : FileSystem)
    (arguments : List String) (names : List String) : Prop :=
  ∃ parsed output, tools.readArguments environment arguments = .ok parsed ∧
    parsed.output = some output ∧ fileSystem.placeToWrite output = .ok names

/--
The file systems that the analysis can be run on. Without a name for the output
it is the one of the run; otherwise the file for the output is made empty.
-/
inductive Prepared (fileSystem : FileSystem) : Option Path → FileSystem → Prop where
  | asIs : Prepared fileSystem none fileSystem
  | emptied {output : Path} {names : List String}
      (toWrite : fileSystem.placeToWrite output = .ok names) :
      Prepared fileSystem (some output) (fileSystem.put names ByteArray.empty)

/-- What makes a command line fail. -/
inductive FailsBy (tools : Tools) (environment : String → Option String)
    (fileSystem : FileSystem) (arguments : List String) : Failure → Prop where
  | badPattern {parsed : Arguments} {error : DiscoveryError}
      (understood : tools.readArguments environment arguments = .ok parsed)
      (undiscovered : Project.discover tools.glob fileSystem parsed.files parsed.globs =
        .error error) :
      FailsBy tools environment fileSystem arguments (.badPattern error)
  | noSources {parsed : Arguments}
      (understood : tools.readArguments environment arguments = .ok parsed)
      (discovered : Project.discover tools.glob fileSystem parsed.files parsed.globs = .ok []) :
      FailsBy tools environment fileSystem arguments .noSources
  | analysis {parsed : Arguments} {source : Path} {sources : List Path} {prepared : FileSystem}
      {error : ProjectError}
      (understood : tools.readArguments environment arguments = .ok parsed)
      (discovered : Project.discover tools.glob fileSystem parsed.files parsed.globs =
        .ok (source :: sources))
      (isPrepared : Prepared fileSystem parsed.output prepared)
      (unanalyzed : analyze tools.parser parsed prepared (source :: sources) = .error error) :
      FailsBy tools environment fileSystem arguments (.analysis error)

variable (tools : Tools) (environment : String → Option String) (fileSystem : FileSystem)
  (arguments : List String)

/-- A run leaves the file system alone, or puts one file where the output is asked for. -/
theorem fileSystem_run :
    (tools.run environment fileSystem arguments).fileSystem = fileSystem ∨
    ∃ names bytes, OutputPlace tools environment fileSystem arguments names ∧
      (tools.run environment fileSystem arguments).fileSystem = fileSystem.put names bytes := by
  rcases understood : tools.readArguments environment arguments with answer | parsed
  · left
    simp only [Tools.run, understood]
  simp only [Tools.run, understood]
  rcases discovered : Project.discover tools.glob fileSystem parsed.files parsed.globs with
    error | (_ | ⟨source, sources⟩)
  · exact Or.inl rfl
  · exact Or.inl rfl
  simp only
  rcases asked : parsed.output with _ | output
  · left
    dsimp only
    delta Tools.runToOutput
    split
    all_goals rfl
  simp only [Tools.runToFile]
  rcases toWrite : fileSystem.placeToWrite output with error | names
  · exact Or.inl rfl
  · right
    have isPlace : OutputPlace tools environment fileSystem arguments names :=
      ⟨parsed, output, understood, asked, toWrite⟩
    simp only
    split
    · exact ⟨names, ByteArray.empty, isPlace, rfl⟩
    · rename_i text _
      exact ⟨names, text.toUTF8, isPlace, FileSystem.put_put ..⟩

variable {tools environment fileSystem arguments}

/-- A failed analysis leaves the file system that it was run on. -/
theorem run_eq_of_analyze_eq_error {parsed : Arguments} {source : Path} {sources : List Path}
    {prepared : FileSystem} {error : ProjectError}
    (understood : tools.readArguments environment arguments = .ok parsed)
    (discovered : Project.discover tools.glob fileSystem parsed.files parsed.globs =
      .ok (source :: sources))
    (isPrepared : Prepared fileSystem parsed.output prepared)
    (unanalyzed : analyze tools.parser parsed prepared (source :: sources) = .error error) :
    tools.run environment fileSystem arguments = tools.failed prepared (analysisReport error) := by
  simp only [Tools.run, understood, discovered]
  generalize asked : parsed.output = output? at isPrepared
  cases isPrepared with
  | asIs =>
      delta Tools.runToOutput
      rw [unanalyzed]
  | emptied toWrite =>
      simp only [Tools.runToFile, toWrite, unanalyzed]

theorem OutputPlace.unique {names other : List String}
    (isPlace : OutputPlace tools environment fileSystem arguments names)
    (alsoPlace : OutputPlace tools environment fileSystem arguments other) : names = other := by
  rcases isPlace with ⟨parsed, output, understood, asked, toWrite⟩
  rcases alsoPlace with ⟨_, _, alsoUnderstood, alsoAsked, alsoToWrite⟩
  cases understood.symm.trans alsoUnderstood
  cases asked.symm.trans alsoAsked
  cases toWrite.symm.trans alsoToWrite
  rfl

theorem content?_prepared {parsed : Arguments} {prepared : FileSystem} {names : List String}
    (understood : tools.readArguments environment arguments = .ok parsed)
    (isPrepared : Prepared fileSystem parsed.output prepared)
    (isPlace : OutputPlace tools environment fileSystem arguments names) :
    prepared.content? names = some (.file ByteArray.empty) := by
  generalize asked : parsed.output = output? at isPrepared
  cases isPrepared with
  | asIs =>
      rcases isPlace with ⟨_, _, alsoUnderstood, alsoAsked, _⟩
      cases understood.symm.trans alsoUnderstood
      cases asked.symm.trans alsoAsked
  | emptied toWrite =>
      cases isPlace.unique ⟨parsed, _, understood, asked, toWrite⟩
      exact FileSystem.content?_put_self _

variable (tools environment fileSystem arguments)

/--
No run changes a file other than the one for its output. A run that fails by a
pattern or for want of sources changes nothing, and one whose analysis fails
leaves the file for its output empty.
-/
theorem run_leaves_other_files :
    (∀ names, ¬OutputPlace tools environment fileSystem arguments names →
      (tools.run environment fileSystem arguments).fileSystem.content? names =
        fileSystem.content? names) ∧
    ∀ failure, FailsBy tools environment fileSystem arguments failure →
      (tools.run environment fileSystem arguments).exitCode ≠ 0 ∧
      match failure with
      | .badPattern _ | .noSources =>
        (tools.run environment fileSystem arguments).fileSystem = fileSystem
      | .analysis _ => ∀ names, OutputPlace tools environment fileSystem arguments names →
        (tools.run environment fileSystem arguments).fileSystem.content? names =
          some (.file ByteArray.empty) := by
  constructor
  · intro names notPlace
    rcases fileSystem_run tools environment fileSystem arguments with
      unchanged | ⟨place, bytes, isPlace, changed⟩
    · rw [unchanged]
    · have differs : names ≠ place := by
        rintro rfl
        exact notPlace isPlace
      rcases isPlace with ⟨_, _, _, _, toWrite⟩
      rw [changed]
      exact FileSystem.content?_put_of_ne bytes
        (FileSystem.known_around_of_placeToWrite toWrite) differs
  · intro failure fails
    cases fails with
    | badPattern understood undiscovered =>
        simp only [Tools.run, understood, undiscovered, Tools.failed]
        exact ⟨Nat.one_ne_zero, trivial⟩
    | noSources understood discovered =>
        simp only [Tools.run, understood, discovered]
        exact ⟨Nat.succ_ne_zero 1, trivial⟩
    | analysis understood discovered isPrepared unanalyzed =>
        rw [run_eq_of_analyze_eq_error understood discovered isPrepared unanalyzed]
        refine ⟨Nat.one_ne_zero, ?_⟩
        intro names isPlace
        exact content?_prepared understood isPrepared isPlace

/-- A directory with a source and the output of an earlier run, but without a configuration. -/
def earlierOutput : FileSystem where
  workingDirectory := ⟨"/p"⟩
  entries := [(["p", "main.ts"], .file ByteArray.empty), (["p", "out.txt"], .file "old".toUTF8)]

/-- The tools of the program, for sources that all have an empty syntax tree. -/
def emptyTools : Tools :=
  .standard fun _ _ => .node ⟨⟨"program", true⟩, 0, 0, none⟩ []

/-- A command line that names a missing configuration and a file for the output. -/
def askingForOutput : List String :=
  ["main.ts", "-t", "gone.json", "-o", "out.txt"]

/-- What that command line asks for. -/
def askedForOutput : Arguments where
  files := [⟨"main.ts"⟩]
  globs := []
  config := ⟨"gone.json"⟩
  output := some ⟨"out.txt"⟩
  format := .json
  jobs := none

theorem failsBy_missingConfig :
    FailsBy emptyTools (fun _ => none) earlierOutput askingForOutput
      (.analysis (.unreadableConfig ⟨"/p/gone.json"⟩ .notFound)) := by
  have understood : emptyTools.readArguments (fun _ => none) askingForOutput =
      .ok askedForOutput := rfl
  have toWrite : earlierOutput.placeToWrite ⟨"out.txt"⟩ = .ok ["p", "out.txt"] := by rfl
  exact .analysis understood rfl (.emptied toWrite) rfl

theorem outputPlace_askingForOutput :
    OutputPlace emptyTools (fun _ => none) earlierOutput askingForOutput ["p", "out.txt"] :=
  ⟨askedForOutput, ⟨"out.txt"⟩, rfl, rfl, rfl⟩

theorem run_leaves_other_files_missingConfig :
    FailsBy emptyTools (fun _ => none) earlierOutput askingForOutput
      (.analysis (.unreadableConfig ⟨"/p/gone.json"⟩ .notFound)) ∧
    OutputPlace emptyTools (fun _ => none) earlierOutput askingForOutput ["p", "out.txt"] ∧
    (emptyTools.run (fun _ => none) earlierOutput askingForOutput).exitCode ≠ 0 ∧
    (emptyTools.run (fun _ => none) earlierOutput askingForOutput).fileSystem.content?
      ["p", "main.ts"] = earlierOutput.content? ["p", "main.ts"] ∧
    (emptyTools.run (fun _ => none) earlierOutput askingForOutput).fileSystem.content?
      ["p", "out.txt"] = some (.file ByteArray.empty) := by
  have notPlace :
      ¬OutputPlace emptyTools (fun _ => none) earlierOutput askingForOutput ["p", "main.ts"] := by
    intro isPlace
    exact absurd (isPlace.unique outputPlace_askingForOutput) (by decide)
  rcases run_leaves_other_files emptyTools (fun _ => none) earlierOutput askingForOutput with
    ⟨others, failing⟩
  rcases failing _ failsBy_missingConfig with ⟨fails, emptied⟩
  exact ⟨failsBy_missingConfig, outputPlace_askingForOutput, fails, others _ notPlace,
    emptied _ outputPlace_askingForOutput⟩

/-- The output of an earlier run is lost when the analysis fails. -/
theorem failed_run_empties_output :
    FailsBy emptyTools (fun _ => none) earlierOutput askingForOutput
      (.analysis (.unreadableConfig ⟨"/p/gone.json"⟩ .notFound)) ∧
    (emptyTools.run (fun _ => none) earlierOutput askingForOutput).exitCode = 1 ∧
    earlierOutput.content? ["p", "out.txt"] = some (.file "old".toUTF8) ∧
    (emptyTools.run (fun _ => none) earlierOutput askingForOutput).fileSystem.content?
      ["p", "out.txt"] ≠ some (.file "old".toUTF8) :=
  ⟨failsBy_missingConfig, rfl, rfl, by decide⟩

end Command

end CallHierarchy
