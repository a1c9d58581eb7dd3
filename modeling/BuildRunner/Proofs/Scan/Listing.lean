import BuildRunner.Proofs.Session
import BuildRunner.Proofs.Text.Utf8
import BuildRunner.Scan.Basic

/-!
# What a scan writes

A scan reads files one after the other, leaves some of them out, and counts what it writes. Here the
same is said without a run: `listed` are the files that are shown, each with its lines, `listing` is
their text, and the count is the length of `listed`. All three are homomorphisms from the files in
their order, which is why a scan that breaks off has written the listing of the files before.

A block is written only after its file was read. So the file that cannot be read leaves nothing in
the output, not even its heading.
-/

namespace BuildRunner.Scan

variable {s s' : Session} {marker : Marker} {path : Path} {text : String}

/-! ## The listing of files with their texts -/

/-- A file with its text. -/
@[ext]
structure Source where
  path : Path
  text : String
  deriving DecidableEq, Repr

/-- Files that can be read in a world, with the texts they have there. -/
def Readable (w : World) (sources : List Source) : Prop :=
  ∀ source ∈ sources, w.readText source.path = .ok source.text

/-- The files that are shown, each with its selected lines: those with such lines, and under a
marker that lists empty files all. -/
def listed (marker : Marker) (sources : List Source) : List (Path × List String) :=
  (sources.map fun source => (source.path, marker.extract source.text)).filter
    fun file => marker.listsEmptyFiles || !file.2.isEmpty

/-- The blocks of files, one behind the other. -/
def listing (files : List (Path × List String)) : String :=
  String.join (files.map fun file => Listing.block file.1 file.2)

theorem listed_append (marker : Marker) (first second : List Source) :
    listed marker (first ++ second) = listed marker first ++ listed marker second := by
  simp [listed]

theorem listing_append (first second : List (Path × List String)) :
    listing (first ++ second) = listing first ++ listing second := by
  simp [listing, String.join_append]

/-- A file is shown or left out as a whole. -/
theorem listed_singleton (marker : Marker) (source : Source) :
    listed marker [source] =
      if (marker.extract source.text).isEmpty && !marker.listsEmptyFiles then []
      else [(source.path, marker.extract source.text)] := by
  cases empty : (marker.extract source.text).isEmpty <;>
    cases lists : marker.listsEmptyFiles <;> simp [listed, empty, lists]

/-- The texts of files are determined by their paths. -/
theorem Readable.unique {w : World} {first second : List Source} (hfirst : Readable w first)
    (hsecond : Readable w second)
    (paths : first.map Source.path = second.map Source.path) : first = second := by
  induction first generalizing second with
  | nil => exact (List.map_eq_nil_iff.mp paths.symm).symm
  | cons a first ih =>
    cases second with
    | nil => cases paths
    | cons b second =>
      obtain ⟨reada, hfirst⟩ := List.forall_mem_cons.mp hfirst
      obtain ⟨readb, hsecond⟩ := List.forall_mem_cons.mp hsecond
      obtain ⟨path, paths⟩ := List.cons.inj paths
      rw [path, readb] at reada
      have text : b.text = a.text := Except.ok.inj reada
      rw [ih hfirst hsecond paths, show a = b from Source.ext path text.symm]

/-- Files can all be read, or one of them is the first that cannot. -/
theorem readable_or_first_unreadable (w : World) (paths : List Path) :
    (∃ sources, paths = sources.map Source.path ∧ Readable w sources) ∨
      ∃ sources path rest fault, paths = sources.map Source.path ++ path :: rest ∧
        Readable w sources ∧ w.readText path = .error fault := by
  induction paths with
  | nil => exact .inl ⟨[], rfl, by simp [Readable]⟩
  | cons path paths ih =>
    cases read : w.readText path with
    | error fault => exact .inr ⟨[], path, paths, fault, rfl, by simp [Readable], read⟩
    | ok text =>
      have readable {sources : List Source} (h : Readable w sources) :
          Readable w (⟨path, text⟩ :: sources) := List.forall_mem_cons.mpr ⟨read, h⟩
      rcases ih with ⟨sources, rfl, h⟩ | ⟨sources, other, rest, fault, rfl, h, unread⟩
      · exact .inl ⟨⟨path, text⟩ :: sources, rfl, readable h⟩
      · exact .inr ⟨⟨path, text⟩ :: sources, other, rest, fault, rfl, readable h, unread⟩

/-! ## One file -/

/-- A file that cannot be read ends the scan and leaves no trace. -/
theorem listFile_unreadable {fault : Fault} (unread : s.world.readText path = .error fault) :
    (listFile marker path).run s = .error (.extract path fault) s := by
  rw [listFile, extractFile]
  simp [unread]

/-- What a file that can be read comes to, after a log record. -/
theorem run_listFile (marker : Marker) (read : s.world.readText path = .ok text) :
    ∃ mid, s.LogsOnly mid ∧
      (listFile marker path).run s =
        (if (marker.extract text).isEmpty && !marker.listsEmptyFiles then pure 0
          else do
            Run.write (Listing.block path (marker.extract text))
            pure 1 : Run Nat).run mid := by
  refine ⟨_, .log ⟨.debug, .scan,
    path.text ++ ": " ++ toString (marker.extract text).length ++ " line(s)"⟩ .refl, ?_⟩
  rw [listFile, extractFile]
  simp only [bind_assoc, Run.bind_of_ok (Run.run_world s), read,
    Run.bind_of_ok (Run.run_lift_ok _ _ _), pure_bind, Run.bind_of_ok (Run.run_log _ _ _ _)]

/-- A file that was listed was read, and all that its listing has to show was written. -/
theorem listFile_eq_ok {count : Nat} (h : (listFile marker path).run s = .ok count s') :
    ∃ text, s.world.readText path = .ok text ∧ s'.world = s.world ∧
      count = (listed marker [⟨path, text⟩]).length ∧
      s'.output = s.output ++ Text.utf8 (listing (listed marker [⟨path, text⟩])) := by
  cases read : s.world.readText path with
  | error fault =>
    rw [listFile_unreadable read] at h
    cases h
  | ok text =>
    obtain ⟨mid, logs, run⟩ := run_listFile marker read
    rw [run] at h
    refine ⟨text, rfl, ?_⟩
    rw [listed_singleton, ← logs.world, ← logs.output]
    split at h
    · next skipped =>
      cases h
      simp [skipped, listing]
    · next shown =>
      obtain ⟨⟨⟩, last, written, h⟩ := Run.bind_eq_ok.mp h
      cases h
      obtain ⟨world, output⟩ := Run.output_of_write_eq_ok written
      rw [if_neg shown]
      exact ⟨world, rfl, by simpa [listing] using output⟩

/-- Without a limit, a file that can be read is listed. -/
theorem listFile_unlimited (marker : Marker) (unlimited : s.room = none)
    (read : s.world.readText path = .ok text) :
    ∃ count s', (listFile marker path).run s = .ok count s' ∧ s'.room = none := by
  obtain ⟨mid, logs, run⟩ := run_listFile marker read
  have room : mid.room = none := logs.room.trans unlimited
  rw [run]
  split
  · exact ⟨0, mid, rfl, room⟩
  · rw [Run.bind_of_ok (Run.run_write_unlimited _ room)]
    exact ⟨1, _, rfl, room⟩

/-! ## Files one after the other -/

/-- The listing of files that were all listed, and how many of them are shown. -/
theorem listFiles_eq_ok {paths : List Path} {count : Nat}
    (h : (listFiles marker paths).run s = .ok count s') :
    ∃ sources, paths = sources.map Source.path ∧ Readable s.world sources ∧
      s'.world = s.world ∧ count = (listed marker sources).length ∧
      s'.output = s.output ++ Text.utf8 (listing (listed marker sources)) := by
  induction paths generalizing s count with
  | nil =>
    cases h
    exact ⟨[], rfl, by simp [Readable], rfl, rfl, by simp [listed, listing]⟩
  | cons path paths ih =>
    rw [listFiles] at h
    obtain ⟨first, mid, hfirst, h⟩ := Run.bind_eq_ok.mp h
    obtain ⟨others, last, hothers, h⟩ := Run.bind_eq_ok.mp h
    cases h
    obtain ⟨text, read, world, rfl, output⟩ := listFile_eq_ok hfirst
    obtain ⟨sources, rfl, readable, world', rfl, output'⟩ := ih hothers
    rw [world] at readable world'
    refine ⟨⟨path, text⟩ :: sources, rfl, List.forall_mem_cons.mpr ⟨read, readable⟩, world', ?_, ?_⟩
    · rw [← List.length_append, ← listed_append, List.singleton_append]
    · rw [output', output, List.append_assoc, ← Text.utf8_append, ← listing_append,
        ← listed_append, List.singleton_append]

/-- Without a limit, files that can all be read are all listed. -/
theorem listFiles_unlimited (marker : Marker) (unlimited : s.room = none) {sources : List Source}
    (readable : Readable s.world sources) :
    ∃ count s', (listFiles marker (sources.map Source.path)).run s = .ok count s' ∧
      s'.room = none := by
  induction sources generalizing s with
  | nil => exact ⟨0, s, rfl, unlimited⟩
  | cons source sources ih =>
    obtain ⟨read, readable⟩ := List.forall_mem_cons.mp readable
    obtain ⟨first, mid, hfirst, room⟩ := listFile_unlimited marker unlimited read
    obtain ⟨_, _, world, _⟩ := listFile_eq_ok hfirst
    obtain ⟨others, last, hothers, room'⟩ := ih room (by rwa [world])
    refine ⟨first + others, last, ?_, room'⟩
    rw [List.map_cons, listFiles, Run.bind_of_ok hfirst, Run.bind_of_ok hothers]
    rfl

/-- Without a limit, the files before the first one that cannot be read are all listed. -/
theorem listFiles_unreadable (marker : Marker) (unlimited : s.room = none) {sources : List Source}
    (readable : Readable s.world sources) {fault : Fault}
    (unread : s.world.readText path = .error fault) (rest : List Path) :
    ∃ s', (listFiles marker (sources.map Source.path ++ path :: rest)).run s =
        .error (.extract path fault) s' ∧
      s'.output = s.output ++ Text.utf8 (listing (listed marker sources)) := by
  induction sources generalizing s with
  | nil =>
    refine ⟨s, ?_, by simp [listed, listing]⟩
    rw [List.map_nil, List.nil_append, listFiles]
    exact Run.bind_of_error (listFile_unreadable unread)
  | cons source sources ih =>
    obtain ⟨read, readable⟩ := List.forall_mem_cons.mp readable
    obtain ⟨first, mid, hfirst, room⟩ := listFile_unlimited marker unlimited read
    obtain ⟨text, read', world, _, output⟩ := listFile_eq_ok hfirst
    cases read.symm.trans read'
    obtain ⟨s', hrest, output'⟩ := ih room (by rwa [world]) (by rwa [world])
    refine ⟨s', ?_, ?_⟩
    · rw [List.map_cons, List.cons_append, listFiles, Run.bind_of_ok hfirst]
      exact Run.bind_of_error hrest
    · rw [output', output, List.append_assoc, ← Text.utf8_append, ← listing_append,
        ← listed_append, List.singleton_append]

/-! ## The whole scan -/

/-- The files a scan of a world reads. -/
def found (w : World) (root : Path) (extension : String) : List Path :=
  match w.walk root with
  | .ok visits => select extension visits
  | .error _ => []

/-- The files are found without any effect but a log record. -/
theorem run_candidates (s : Session) (root : Path) (extension : String) :
    ∃ mid, s.LogsOnly mid ∧
      (candidates root extension).run s = .ok (found s.world root extension) mid := by
  rw [candidates, Run.bind_of_ok (Run.run_world s), found]
  cases s.world.walk root with
  | ok visits => exact ⟨s, .refl, rfl⟩
  | error fault => exact ⟨_, .log ⟨.warn, .scan, "skipping " ++ walkMessage root fault⟩ .refl, rfl⟩

/-- A scan lists the files it finds. -/
theorem run_scan (s : Session) (root : Path) (extension : String) (marker : Marker) :
    ∃ mid, s.LogsOnly mid ∧
      (candidates root extension).run s = .ok (found s.world root extension) mid ∧
      (run root extension marker).run s =
        (listFiles marker (found s.world root extension)).run mid := by
  obtain ⟨mid, logs, candidates⟩ := run_candidates s root extension
  exact ⟨mid, logs, candidates, by rw [run, Run.bind_of_ok candidates]⟩

/-- Nothing can be found from a root at which nothing is. -/
theorem found_of_missing {w : World} {root : Path} {fault : Fault}
    (missing : w.node root false = .error fault) (extension : String) :
    found w root extension = [] := by
  have walked : w.walk root = .error fault := by
    rw [World.walk, missing]
    rfl
  rw [found, walked]

section Closed

variable {P : {β : Type} → Run β → Prop} (closed : Run.Closed P)
  (write : ∀ text, P (Run.write text))

include closed write

theorem closed_listFile (marker : Marker) (path : Path) : P (listFile marker path) := by
  have extracted : P (extractFile path marker) :=
    closed.of_bind closed.of_world fun _ =>
      closed.of_bind (closed.of_lift _ _) fun _ => closed.of_pure _
  refine closed.of_bind extracted fun lines => closed.of_bind (closed.of_log _ _ _) fun _ => ?_
  by_cases skipped : (lines.isEmpty && !marker.listsEmptyFiles) = true
  · rw [if_pos skipped]
    exact closed.of_pure _
  · rw [if_neg skipped]
    exact closed.of_bind (write _) fun _ => closed.of_pure _

theorem closed_listFiles (marker : Marker) (paths : List Path) : P (listFiles marker paths) := by
  induction paths with
  | nil => exact closed.of_pure _
  | cons path paths ih =>
    exact closed.of_bind (closed_listFile closed write marker path) fun _ =>
      closed.of_bind ih fun _ => closed.of_pure _

/-- A scan looks, logs and writes, so it is in every closed class in which all writes are. -/
theorem closed_run (root : Path) (extension : String) (marker : Marker) :
    P (run root extension marker) := by
  refine closed.of_bind (closed.of_bind closed.of_world fun w => ?_) fun paths =>
    closed_listFiles closed write marker paths
  cases w.walk root with
  | ok visits => exact closed.of_pure _
  | error fault => exact closed.of_bind (closed.of_log _ _ _) fun _ => closed.of_pure _

end Closed

/-- The files that are shown, by their texts: under one marker all, under the other those in which
lines are selected. -/
theorem listed_eq (marker : Marker) (sources : List Source) : listed marker sources =
    (sources.filter fun source => marker = .documentation || marker.extract source.text ≠ []).map
      fun source => (source.path, marker.extract source.text) := by
  rw [listed, List.filter_map]
  congr 2
  funext source
  cases marker with
  | documentation => rfl
  | todo => cases own : Marker.todo.extract source.text <;> simp [Marker.listsEmptyFiles, own]

/-- **A scan writes the blocks of the files it can read, in order, and counts them.** The block of a
file is the line `documentation in ` with its path, and then the selected lines, each behind two
spaces. Under the marker for documentation every file is shown, under the one for what is to be done
every file with a selected line. With an output stream that takes everything there are two cases.
All candidates can be read: the scan succeeds with the number of files shown, and has written
exactly their blocks. Or one of them is the first that cannot: the scan fails and names it, and has
written the blocks of the files before it and nothing else. -/
theorem scan_writes_listing (w : World) (trace : List Event) (root : Path) (extension : String)
    (marker : Marker) :
    let s : Session := ⟨w, none, trace⟩
    let shown (sources : List Source) : List Source :=
      sources.filter fun source => marker = .documentation || marker.extract source.text ≠ []
    let block (source : Source) : String := "documentation in " ++ source.path.text ++ "\n" ++
      String.join ((marker.extract source.text).map fun line => "  " ++ line ++ "\n")
    ∃ paths mid, (candidates root extension).run s = .ok paths mid ∧
      ((∃ sources s', paths = sources.map Source.path ∧ Readable w sources ∧
          (run root extension marker).run s = .ok (shown sources).length s' ∧
          s'.output = s.output ++ Text.utf8 (String.join ((shown sources).map block))) ∨
        ∃ sources path rest fault s', paths = sources.map Source.path ++ path :: rest ∧
          Readable w sources ∧ w.readText path = .error fault ∧
          (run root extension marker).run s = .error (.extract path fault) s' ∧
          s'.output = s.output ++ Text.utf8 (String.join ((shown sources).map block))) := by
  intro s shown block
  have text (sources : List Source) :
      listing (listed marker sources) = String.join ((shown sources).map block) := by
    rw [listing, listed_eq, List.map_map]
    rfl
  have count (sources : List Source) :
      (listed marker sources).length = (shown sources).length := by
    rw [listed_eq, List.length_map]
  obtain ⟨mid, logs, candidates, scan⟩ := run_scan s root extension marker
  have room : mid.room = none := logs.room
  have world : mid.world = w := logs.world
  refine ⟨_, mid, candidates, ?_⟩
  rw [scan, ← logs.output, ← world]
  rcases readable_or_first_unreadable mid.world (found s.world root extension) with
    ⟨sources, paths, readable⟩ | ⟨sources, path, rest, fault, paths, readable, unread⟩
  · obtain ⟨_, s', listedAll, _⟩ := listFiles_unlimited marker room readable
    obtain ⟨others, same, readable', _, rfl, output⟩ := listFiles_eq_ok listedAll
    cases readable.unique readable' same
    exact .inl ⟨sources, s', paths, readable, paths ▸ count sources ▸ listedAll,
      text sources ▸ output⟩
  · obtain ⟨s', failed, output⟩ := listFiles_unreadable marker room readable unread rest
    exact .inr ⟨sources, path, rest, fault, s', paths, readable, unread, paths ▸ failed,
      text sources ▸ output⟩

end BuildRunner.Scan
