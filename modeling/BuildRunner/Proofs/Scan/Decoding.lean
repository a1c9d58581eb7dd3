import BuildRunner.Proofs.Scan.Listing
import BuildRunner.Proofs.Text.Blank
import BuildRunner.Proofs.Text.Lines
import BuildRunner.Proofs.Tree.Resolve

/-!
# A listing can be read back

A listing is lines, each ended by a line feed, and a line says by its first two characters what it
is. So reading a listing back needs no escape for what stands in a file, and asks for two things
only. No line that is written may hold a line feed: a selected line cannot, since it is part of a
line of its file, and a path must not. And no heading may start with two spaces, which its fixed
words see to.

Nothing is asked of the texts of the files. A line that looks like a heading is content behind its
indent, and stays so.
-/

namespace BuildRunner

/-! ## Selected lines -/

/-- A selected line holds no line feed. -/
theorem Marker.newline_not_mem_extract {marker : Marker} {text line : String}
    (h : line ∈ marker.extract text) : '\n' ∉ line.toList := by
  obtain ⟨trimmed, mem, rfl⟩ := List.mem_map.mp h
  obtain ⟨raw, selected, rfl⟩ := List.mem_map.mp mem
  have whole : '\n' ∉ raw := Text.not_mem_of_mem_lines (List.mem_filter.mp selected).1
  rw [String.toList_ofList]
  exact fun feed => whole ((Text.trim_infix raw).subset feed)

namespace Listing

/-! ## The lines of a listing -/

/-- The heading of a file, as a line. -/
def heading (path : Path) : List Char :=
  headingWords.toList ++ path.text.toList

/-- A line of content, as a line of the listing. -/
def content (line : String) : List Char :=
  indent.toList ++ line.toList

/-- The lines of the block of a file. -/
def blockLines (file : Path × List String) : List (List Char) :=
  heading file.1 :: file.2.map content

/-- A block is its lines, each ended by a line feed. -/
theorem block_toList (file : Path × List String) :
    (block file.1 file.2).toList = (blockLines file).flatMap fun line => line ++ ['\n'] := by
  simp only [block, blockLines, heading, String.toList_append, String.toList_join,
    List.flatMap_cons, List.flatMap_map, content, contentLine, List.append_assoc]
  rfl

/-- A listing is the lines of its blocks, each ended by a line feed. -/
theorem listing_toList (files : List (Path × List String)) :
    (Scan.listing files).toList =
      (files.flatMap blockLines).flatMap fun line => line ++ ['\n'] := by
  simp only [Scan.listing, String.toList_join, List.flatMap_map, List.flatMap_assoc, block_toList]

/-- A block whose path and lines hold no line feed has lines that hold none. -/
theorem newline_not_mem_blockLines {file : Path × List String} (path : '\n' ∉ file.1.text.toList)
    (lines : ∀ line ∈ file.2, '\n' ∉ line.toList) : ∀ line ∈ blockLines file, '\n' ∉ line := by
  intro line mem
  rcases List.mem_cons.mp mem with rfl | mem
  · exact fun feed => (List.mem_append.mp feed).elim (by decide) path
  · obtain ⟨raw, hraw, rfl⟩ := List.mem_map.mp mem
    exact fun feed => (List.mem_append.mp feed).elim (by decide) (lines raw hraw)

/-! ## Reading them -/

/-- A line of content is read as that line, before the ones behind it. -/
theorem readLine_content (line : String) (read : List String × List (String × List String)) :
    readLine (content line) read = (line :: read.1, read.2) := by
  have indented : indent.toList.isPrefixOf (content line) = true :=
    List.isPrefixOf_iff_prefix.mpr (List.prefix_append _ _)
  rw [readLine, if_pos indented, content, ← String.length_toList, List.drop_left,
    String.ofList_toList]

/-- A heading is read as its path, with the content behind it. -/
theorem readLine_heading (path : Path) (read : List String × List (String × List String)) :
    readLine (heading path) read = ([], (path.text, read.1) :: read.2) := by
  have flush : indent.toList.isPrefixOf (heading path) = false := rfl
  rw [readLine, flush, if_neg Bool.false_ne_true, heading, ← String.length_toList, List.drop_left,
    String.ofList_toList]

/-- A block is read as its file. -/
theorem foldr_blockLines (file : Path × List String) (read : List (String × List String)) :
    (blockLines file).foldr readLine ([], read) = ([], (file.1.text, file.2) :: read) := by
  have lines : (file.2.map content).foldr readLine ([], read) = (file.2, read) := by
    induction file.2 with
    | nil => rfl
    | cons line lines ih => rw [List.map_cons, List.foldr_cons, ih, readLine_content]
  rw [blockLines, List.foldr_cons, lines, readLine_heading]

/-- The blocks of files are read as these files. -/
theorem foldr_flatMap_blockLines (files : List (Path × List String)) :
    (files.flatMap blockLines).foldr readLine ([], []) =
      ([], files.map fun file => (file.1.text, file.2)) := by
  induction files with
  | nil => rfl
  | cons file files ih =>
    rw [List.flatMap_cons, List.foldr_append, ih, foldr_blockLines, List.map_cons]

/-- A listing in which no path and no line holds a line feed reads back as its files. -/
theorem read_listing {files : List (Path × List String)}
    (paths : ∀ file ∈ files, '\n' ∉ file.1.text.toList)
    (lines : ∀ file ∈ files, ∀ line ∈ file.2, '\n' ∉ line.toList) :
    read (Scan.listing files) = files.map fun file => (file.1.text, file.2) := by
  have plain : ∀ line ∈ files.flatMap blockLines, '\n' ∉ line := by
    intro line mem
    obtain ⟨file, hfile, mem⟩ := List.mem_flatMap.mp mem
    exact newline_not_mem_blockLines (paths file hfile) (lines file hfile) line mem
  rw [read, listing_toList, Text.splitAtEach_flatMap plain, List.dropLast_concat,
    foldr_flatMap_blockLines]

end Listing

namespace Scan

/-- What is listed was selected in the text of its file. -/
theorem mem_listed {marker : Marker} {sources : List Source} {file : Path × List String}
    (h : file ∈ listed marker sources) :
    ∃ source ∈ sources, file = (source.path, marker.extract source.text) := by
  obtain ⟨source, hsource, rfl⟩ := List.mem_map.mp (List.mem_filter.mp h).1
  exact ⟨source, hsource, rfl⟩

/-- **The output of a scan reads back as what the scan found.** Whenever a scan succeeds, on any
output stream, and no candidate has a line feed in its path, the bytes it has written are a text,
and one reading of this text gives the shown files in order, each with its path and with exactly the
lines that the marker selects in it. What the files contain is not restricted. -/
theorem read_scan_output {s s' mid : Session} {root : Path} {extension : String} {marker : Marker}
    {paths : List Path} {count : Nat}
    (candidates : (candidates root extension).run s = .ok paths mid)
    (plain : ∀ path ∈ paths, '\n' ∉ path.text.toList)
    (scanned : (run root extension marker).run s = .ok count s') :
    ∃ sources : List Source, paths = sources.map Source.path ∧ Readable s.world sources ∧
      (Text.ofUtf8? (s'.output.drop s.output.length)).map Listing.read =
        some ((listed marker sources).map fun file => (file.1.text, file.2)) := by
  obtain ⟨mid', logs, candidates', scan⟩ := run_scan s root extension marker
  cases candidates.symm.trans candidates'
  rw [scan] at scanned
  obtain ⟨sources, sourcePaths, readable, _, _, output⟩ := listFiles_eq_ok scanned
  rw [logs.world] at readable
  rw [logs.output] at output
  refine ⟨sources, sourcePaths, readable, ?_⟩
  have written : Text.ofUtf8? (s'.output.drop s.output.length) =
      some (listing (listed marker sources)) := by
    rw [output, List.drop_left, Text.ofUtf8?_utf8]
  rw [written, Option.map_some, Listing.read_listing]
  · intro file mem
    obtain ⟨source, hsource, rfl⟩ := mem_listed mem
    exact plain _ (sourcePaths ▸ List.mem_map_of_mem hsource)
  · intro file mem line hline
    obtain ⟨source, _, rfl⟩ := mem_listed mem
    exact Marker.newline_not_mem_extract hline

/-- A session with one file, whose text is a heading. -/
def forging : Session where
  world.files := .ofList [("a.zig", .file "documentation in b.zig TODO\n".toUTF8 false)]
  world.workingDirectory := []
  world.environment := default
  room := none
  trace := []

/-- The heading in the file reads back as a line of that file. -/
theorem read_forging_output : ∃ paths mid count s',
    (candidates ⟨"/"⟩ "zig").run forging = .ok paths mid ∧
      (∀ path ∈ paths, '\n' ∉ path.text.toList) ∧
      (run ⟨"/"⟩ "zig" .todo).run forging = .ok count s' ∧
      (Text.ofUtf8? (s'.output.drop forging.output.length)).map Listing.read =
        some [("/a.zig", ["documentation in b.zig TODO"])] := by
  let only : List Source := [⟨⟨"/a.zig"⟩, "documentation in b.zig TODO\n"⟩]
  obtain ⟨mid, logs, candidates, scan⟩ := run_scan forging ⟨"/"⟩ "zig" .todo
  have found : found forging.world ⟨"/"⟩ "zig" = only.map Source.path := by
    decide +kernel
  have readable : Readable forging.world only :=
    List.forall_mem_singleton.mpr (World.readText_of_node rfl)
  have plain : ∀ path ∈ only.map Source.path, '\n' ∉ path.text.toList := by
    decide
  rw [found] at candidates scan
  have unlimited : mid.room = none := logs.room
  obtain ⟨count, s', listedAll, _⟩ := listFiles_unlimited .todo unlimited (logs.world ▸ readable)
  have scanned := scan.trans listedAll
  obtain ⟨sources, paths, readable', decoded⟩ := read_scan_output candidates plain scanned
  cases readable.unique readable' paths
  exact ⟨_, mid, count, s', candidates, plain, scanned, decoded⟩

end Scan

end BuildRunner
