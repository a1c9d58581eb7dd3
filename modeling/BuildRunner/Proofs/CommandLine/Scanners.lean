import BuildRunner.CommandLine.Program
import BuildRunner.Proofs.Scan.Decoding
import BuildRunner.Proofs.Session.Guarantee

/-!
# Both scanners side by side

The two scanners read the same arguments and walk the same tree, and read every candidate before
they decide whether it has anything to show. So they end with the same status, whatever they list:
a file that cannot be read ends both, also where one of them would have left it out.

Where both succeed, the files that one lists are among those that the other lists, in the same
order. Documentation comments are listed for every candidate; what is to be done is listed for the
candidates that have such a line.
-/

namespace BuildRunner

open Run Scan

variable {w : World} {s : Session} {arguments : List String} {wanted : ScanArguments}
  {sources : List Source} {marker : Marker} {name : String}

/-! ## Why a scanner ends -/

namespace ScanArguments

/-- Arguments that are not accepted, and ask for no help. -/
def Refused (arguments : List String) : Prop :=
  ∃ fault, read arguments = .error fault ∧ fault ≠ .helpAsked

/-- One of the candidates of the scan that is asked for cannot be read as text. -/
def Unreadable (w : World) (wanted : ScanArguments) : Prop :=
  ∃ paths mid path fault,
    (candidates wanted.root wanted.extension).run (.start w) = .ok paths mid ∧
      path ∈ paths ∧ w.readText path = .error fault

/-- Arguments that are accepted, for a scan that comes to a file it cannot read. -/
def Broken (w : World) (arguments : List String) : Prop :=
  ∃ wanted, read arguments = .ok wanted ∧ wanted.Unreadable w

theorem unreadable_iff : wanted.Unreadable w ↔
    ∃ path ∈ found w wanted.root wanted.extension, ∃ fault, w.readText path = .error fault := by
  obtain ⟨mid, _, ran⟩ := run_candidates (.start w) wanted.root wanted.extension
  constructor
  · rintro ⟨paths, mid', path, fault, ran', mem, unread⟩
    cases ran.symm.trans ran'
    exact ⟨path, mem, fault, unread⟩
  · rintro ⟨path, mem, fault, unread⟩
    exact ⟨_, mid, path, fault, ran, mem, unread⟩

theorem not_refused_of_ok (accepted : read arguments = .ok wanted) : ¬Refused arguments := by
  rintro ⟨fault, refused, _⟩
  cases accepted.symm.trans refused

theorem broken_iff_of_ok (accepted : read arguments = .ok wanted) :
    Broken w arguments ↔ wanted.Unreadable w := by
  constructor
  · rintro ⟨wanted', accepted', unreadable⟩
    cases accepted.symm.trans accepted'
    exact unreadable
  · exact fun unreadable => ⟨wanted, accepted, unreadable⟩

theorem not_broken_of_error {fault : UsageFault} (refused : read arguments = .error fault) :
    ¬Broken w arguments := by
  rintro ⟨wanted, accepted, _⟩
  cases accepted.symm.trans refused

theorem not_refused_of_helpAsked (asked : read arguments = .error .helpAsked) :
    ¬Refused arguments := by
  rintro ⟨fault, refused, other⟩
  cases asked.symm.trans refused
  exact other rfl

/-- Below a root that is missing there is no candidate at all. -/
theorem not_broken_of_missing {fault : Fault} (accepted : read arguments = .ok wanted)
    (missing : w.node wanted.root false = .error fault) : ¬Broken w arguments := by
  rw [broken_iff_of_ok accepted, unreadable_iff, found_of_missing missing]
  rintro ⟨path, mem, _⟩
  cases mem

end ScanArguments

/-! ## What a scanner reports -/

/-- All output so far was written, and none of it printed by a program. -/
def Session.Unprinted (s : Session) : Prop :=
  s.trace.flatMap Event.output = s.output

theorem unprinted_guarantee : Guarantee fun s s' => s.Unprinted → s'.Unprinted where
  refl _ h := h
  trans first next h := next (first h)
  log s record h := by
    unfold Session.Unprinted at h ⊢
    rw [Session.output_record_logged, ← h]
    simp [Session.record, Event.output]

theorem ensures_unprinted_write (text : String) :
    Ensures (fun s s' => s.Unprinted → s'.Unprinted) (write text) := by
  intro s h
  obtain ⟨bytes, room, ended⟩ := final_write text s
  unfold Session.Unprinted at h ⊢
  rw [ended]
  show (s.trace ++ [Event.wrote bytes]).flatMap Event.output = (s.record (.wrote bytes)).output
  rw [Session.output_record_wrote, ← h]
  simp [Event.output]

theorem report_of_written {text : String} (unprinted : s.Unprinted)
    (written : s.output = Text.utf8 text) (status : Nat) : (s.report status).output = text := by
  unfold Session.Unprinted at unprinted
  simp only [Session.report, unprinted, written, Text.ofUtf8?_utf8, Option.getD_some]

/-- Where all candidates can be read, a scanner succeeds and lists them. -/
theorem runScanner_of_readable (name : String) (marker : Marker)
    (accepted : ScanArguments.read arguments = .ok wanted)
    (paths : found w wanted.root wanted.extension = sources.map Source.path)
    (readable : Readable w sources) :
    (runScanner name marker arguments w).status = 0 ∧
      (runScanner name marker arguments w).output = listing (listed marker sources) := by
  obtain ⟨mid, logs, _, scan⟩ := run_scan (.start w) wanted.root wanted.extension marker
  have room : mid.room = none := logs.room
  have readable' : Readable mid.world sources := by rwa [logs.world]
  obtain ⟨count, s, listedAll, _⟩ := listFiles_unlimited marker room readable'
  obtain ⟨sources', same, readable'', _, _, output⟩ := listFiles_eq_ok listedAll
  cases readable'.unique readable'' same
  have ran : (Scan.run wanted.root wanted.extension marker).run (.start w) = .ok count s := by
    rw [scan]
    exact paths ▸ listedAll
  have unprinted : s.Unprinted :=
    (Scan.closed_run unprinted_guarantee.closed ensures_unprinted_write _ _ _).of_ok ran rfl
  rw [logs.output] at output
  rw [runScanner, accepted]
  simp only [ran]
  exact ⟨rfl, report_of_written unprinted output 0⟩

/-- Where one of them cannot be read, a scanner fails. -/
theorem status_of_unreadable (name : String) (marker : Marker)
    (accepted : ScanArguments.read arguments = .ok wanted) {path : Path} {rest : List Path}
    {fault : Fault}
    (paths : found w wanted.root wanted.extension = sources.map Source.path ++ path :: rest)
    (readable : Readable w sources) (unread : w.readText path = .error fault) :
    (runScanner name marker arguments w).status = 1 := by
  obtain ⟨mid, logs, _, scan⟩ := run_scan (.start w) wanted.root wanted.extension marker
  have room : mid.room = none := logs.room
  have readable' : Readable mid.world sources := by rwa [logs.world]
  have unread' : mid.world.readText path = .error fault := by rwa [logs.world]
  obtain ⟨s, failed, _⟩ := listFiles_unreadable marker room readable' unread' rest
  have ran : (Scan.run wanted.root wanted.extension marker).run (.start w) =
      .error (.extract path fault) s := by
    rw [scan]
    exact paths ▸ failed
  rw [runScanner, accepted]
  simp only [ran]
  rfl

/-- A scanner ends in one of three ways, whatever it looks for. -/
theorem runScanner_cases (name : String) (marker : Marker) (arguments : List String) (w : World) :
    let status := (runScanner name marker arguments w).status
    (status = 2 ∧ ScanArguments.Refused arguments ∧ ¬ScanArguments.Broken w arguments) ∨
      (status = 1 ∧ ¬ScanArguments.Refused arguments ∧ ScanArguments.Broken w arguments) ∨
      (status = 0 ∧ ¬ScanArguments.Refused arguments ∧ ¬ScanArguments.Broken w arguments) := by
  intro status
  cases accepted : ScanArguments.read arguments with
  | error fault =>
    have unbroken := ScanArguments.not_broken_of_error (w := w) accepted
    by_cases help : fault = .helpAsked
    · subst help
      refine .inr (.inr ⟨?_, ScanArguments.not_refused_of_helpAsked accepted, unbroken⟩)
      show (runScanner name marker arguments w).status = 0
      rw [runScanner, accepted]
      rfl
    · refine .inl ⟨?_, ⟨fault, accepted, help⟩, unbroken⟩
      show (runScanner name marker arguments w).status = 2
      rw [runScanner, accepted]
      cases fault <;> first | rfl | exact absurd rfl help
  | ok wanted =>
    have taken := ScanArguments.not_refused_of_ok accepted
    rcases readable_or_first_unreadable w (found w wanted.root wanted.extension) with
      ⟨sources, paths, readable⟩ | ⟨sources, path, rest, fault, paths, readable, unread⟩
    · have zero := (runScanner_of_readable name marker accepted paths readable).1
      refine .inr (.inr ⟨zero, taken, ?_⟩)
      rw [ScanArguments.broken_iff_of_ok accepted, ScanArguments.unreadable_iff, paths]
      rintro ⟨path, mem, fault, unread⟩
      obtain ⟨source, listed, rfl⟩ := List.mem_map.mp mem
      cases (readable source listed).symm.trans unread
    · have one := status_of_unreadable name marker accepted paths readable unread
      refine .inr (.inl ⟨one, taken, ?_⟩)
      rw [ScanArguments.broken_iff_of_ok accepted, ScanArguments.unreadable_iff, paths]
      exact ⟨path, List.mem_append_right _ List.mem_cons_self, fault, unread⟩

/-- The status tells the three ways apart. -/
theorem status_runScanner (name : String) (marker : Marker) (arguments : List String) (w : World) :
    let status := (runScanner name marker arguments w).status
    (status = 2 ↔ ScanArguments.Refused arguments) ∧
      (status = 1 ↔ ScanArguments.Broken w arguments) ∧
      (status = 0 ↔ ¬ScanArguments.Refused arguments ∧ ¬ScanArguments.Broken w arguments) := by
  intro status
  rcases runScanner_cases name marker arguments w with
    ⟨is, refused, unbroken⟩ | ⟨is, taken, broken⟩ | ⟨is, taken, unbroken⟩
  · simp [status, is, refused, unbroken]
  · simp [status, is, taken, broken]
  · simp [status, is, taken, unbroken]

/-- So all scanners end with the same status. -/
theorem status_runScanner_eq (name name' : String) (marker marker' : Marker)
    (arguments : List String) (w : World) :
    (runScanner name marker arguments w).status =
      (runScanner name' marker' arguments w).status := by
  obtain ⟨two, one, zero⟩ := status_runScanner name' marker' arguments w
  rcases runScanner_cases name marker arguments w with
    ⟨is, refused, _⟩ | ⟨is, _, broken⟩ | ⟨is, neither⟩
  · rw [is, two.mpr refused]
  · rw [is, one.mpr broken]
  · rw [is, zero.mpr neither]

/-! ## The files that are listed -/

namespace Scan

/-- A line of the file mentions what is to be done. -/
def Source.HasTodo (source : Source) : Prop :=
  ∃ line ∈ Text.lines source.text.toList, Marker.todoWord <:+: line

/-- Whether one does is found line by line. -/
theorem Source.hasTodo_iff (source : Source) :
    (Text.lines source.text.toList).any (Text.occursIn Marker.todoWord) = true ↔
      source.HasTodo := by
  simp only [List.any_eq_true, Text.occursIn_iff, HasTodo]

instance : DecidablePred Source.HasTodo := fun source =>
  decidable_of_iff _ source.hasTodo_iff

/-- A file with its selected lines. -/
def Source.entry (marker : Marker) (source : Source) : Path × List String :=
  (source.path, marker.extract source.text)

/-- Documentation comments are listed for every file. -/
theorem listed_documentation (sources : List Source) :
    listed .documentation sources = sources.map (Source.entry .documentation) :=
  List.filter_eq_self.mpr fun _ _ => rfl

/-- What is to be done is listed for the files that have such a line. -/
theorem listed_todo (sources : List Source) :
    listed .todo sources = (sources.filter fun source => source.HasTodo).map
      (Source.entry .todo) := by
  have shown (source : Source) :
      (!(Marker.todo.extract source.text).isEmpty) = decide source.HasTodo := by
    rw [Bool.eq_iff_iff, decide_eq_true_iff, ← source.hasTodo_iff]
    simp [Marker.extract, Marker.extractChars, Marker.selects]
  simp only [listed, List.filter_map, Marker.listsEmptyFiles, Bool.false_or]
  exact congrArg _ (List.filter_congr fun source _ => shown source)

/-- The headings of a listing can be read off it where no path holds a line feed. -/
theorem headings_of_read (marker : Marker)
    (plain : ∀ source ∈ sources, '\n' ∉ source.path.text.toList) :
    (Listing.read (listing (sources.map (Source.entry marker)))).map Prod.fst =
      sources.map fun source => source.path.text := by
  rw [Listing.read_listing, List.map_map, List.map_map]
  · rfl
  · intro file mem
    obtain ⟨source, listed, rfl⟩ := List.mem_map.mp mem
    exact plain source listed
  · intro file mem line selected
    obtain ⟨source, _, rfl⟩ := List.mem_map.mp mem
    exact Marker.newline_not_mem_extract selected

end Scan

namespace Program

open ScanArguments

/-- **Both scanners end with the same status, and one lists a part of what the other does.** For
all arguments and in every world, the status of both is 2 if the arguments are refused, 1 if they
are accepted and a candidate cannot be read as text, and 0 in all other cases, which include a
request for help and a root that is missing.

If a scan is asked for and the status is 0, the candidates are files with texts. One scanner lists
all of them in their order; the other lists, in the same order, exactly those with a line that
mentions what is to be done. Where no path holds a line feed, these are the headings that are read
in the outputs. -/
theorem scanners_agree (programs : Programs) (root : Path) (arguments : List String) (w : World) :
    let docs := Program.run programs root .extractDocs arguments w
    let todos := Program.run programs root .extractTodos arguments w
    docs.status = todos.status ∧
    (docs.status = 2 ↔ Refused arguments) ∧
    (docs.status = 1 ↔ Broken w arguments) ∧
    (docs.status = 0 ↔ ¬Refused arguments ∧ ¬Broken w arguments) ∧
    (read arguments = .error .helpAsked → docs.status = 0) ∧
    (∀ wanted fault, read arguments = .ok wanted → w.node wanted.root false = .error fault →
      docs.status = 0) ∧
    ∀ wanted, read arguments = .ok wanted → docs.status = 0 →
      ∃ (sources : List Source) (mid : Session),
        (candidates wanted.root wanted.extension).run (.start w) =
          .ok (sources.map Source.path) mid ∧
        Readable w sources ∧
        docs.output = listing (sources.map (Source.entry .documentation)) ∧
        todos.output = listing ((sources.filter fun source => source.HasTodo).map
          (Source.entry .todo)) ∧
        ((∀ source ∈ sources, '\n' ∉ source.path.text.toList) →
          (Listing.read docs.output).map Prod.fst = sources.map (fun source => source.path.text) ∧
          (Listing.read todos.output).map Prod.fst =
            (sources.filter fun source => source.HasTodo).map fun source => source.path.text) := by
  intro docs todos
  obtain ⟨two, one, zero⟩ := status_runScanner "extract-docs" .documentation arguments w
  refine ⟨status_runScanner_eq _ _ _ _ arguments w, two, one, zero, fun asked => ?help,
    fun wanted fault accepted missing => ?missing, fun wanted accepted success => ?listed⟩
  case help =>
    exact zero.mpr ⟨not_refused_of_helpAsked asked, not_broken_of_error asked⟩
  case missing =>
    exact zero.mpr ⟨not_refused_of_ok accepted, not_broken_of_missing accepted missing⟩
  case listed =>
    obtain ⟨mid, _, ran⟩ := run_candidates (.start w) wanted.root wanted.extension
    have unbroken := (zero.mp success).2
    rw [broken_iff_of_ok accepted, unreadable_iff] at unbroken
    rcases readable_or_first_unreadable w (found w wanted.root wanted.extension) with
      ⟨sources, paths, readable⟩ | ⟨sources, path, rest, fault, paths, _, unread⟩
    · have first := (runScanner_of_readable "extract-docs" .documentation accepted paths readable).2
      have second := (runScanner_of_readable "extract-todos" .todo accepted paths readable).2
      rw [listed_documentation] at first
      rw [listed_todo] at second
      refine ⟨sources, mid, paths ▸ ran, readable, first, second, fun plain => ⟨?_, ?_⟩⟩
      · rw [show docs.output = _ from first]
        exact headings_of_read .documentation plain
      · rw [show todos.output = _ from second]
        exact headings_of_read .todo fun source mem => plain source (List.mem_filter.mp mem).1
    · refine absurd ⟨path, ?_, fault, unread⟩ unbroken
      rw [paths]
      exact List.mem_append_right _ List.mem_cons_self

/-- A world with two files, one of them with something to do. -/
def marked : World where
  files := .ofList [("a.zig", .file "/// an entry\n".toUTF8 false),
    ("b.zig", .file "/// a list\n// TODO sort it\n".toUTF8 false)]
  workingDirectory := []
  environment := default

/-- Both are listed by one scanner, and one of them by the other. -/
theorem scanners_agree_marked :
    let idle : Programs := fun _ w => .ok ⟨.code 0, w.files, "", ""⟩
    let docs := Program.run idle ⟨"/"⟩ .extractDocs ["/"] marked
    let todos := Program.run idle ⟨"/"⟩ .extractTodos ["/"] marked
    read ["/"] = .ok ⟨⟨"/"⟩, "zig"⟩ ∧ docs.status = 0 ∧ todos.status = 0 ∧
      (Listing.read docs.output).map Prod.fst = ["/a.zig", "/b.zig"] ∧
      (Listing.read todos.output).map Prod.fst = ["/b.zig"] := by
  intro idle docs todos
  let both : List Source := [⟨⟨"/a.zig"⟩, "/// an entry\n"⟩,
    ⟨⟨"/b.zig"⟩, "/// a list\n// TODO sort it\n"⟩]
  have accepted : read ["/"] = .ok ⟨⟨"/"⟩, "zig"⟩ := rfl
  -- the entries are in order already
  have sorted : (marked.files.walkEach ⟨"/"⟩).Pairwise fun a b =>
      Text.leBytes a.1.bytes b.1.bytes := by
    decide +kernel
  have walked : marked.files.walk ⟨"/"⟩ = (marked.files.walkEach ⟨"/"⟩).flatMap (·.2) := by
    rw [Directory.walk, inNameOrder, List.mergeSort_of_pairwise sorted]
  have paths : found marked ⟨"/"⟩ "zig" = both.map Source.path := by
    show select "zig" (⟨⟨"/"⟩, "/", .directory⟩ :: marked.files.walk ⟨"/"⟩) = _
    rw [walked]
    decide +kernel
  have readable : Readable marked both :=
    List.forall_mem_cons.mpr ⟨World.readText_of_node rfl,
      List.forall_mem_singleton.mpr (World.readText_of_node rfl)⟩
  have plain : ∀ source ∈ both, '\n' ∉ source.path.text.toList := by decide
  obtain ⟨same, _, _, zero, _, _, listed⟩ := scanners_agree idle ⟨"/"⟩ ["/"] marked
  have success : docs.status = 0 :=
    (runScanner_of_readable "extract-docs" .documentation accepted paths readable).1
  obtain ⟨sources, mid, ran, readable', _, _, headings⟩ := listed _ accepted success
  obtain ⟨_, _, ran'⟩ := run_candidates (.start marked) ⟨"/"⟩ "zig"
  have listedPaths : found marked ⟨"/"⟩ "zig" = sources.map Source.path := by
    have same := ran'.symm.trans ran
    rw [EStateM.Result.ok.injEq] at same
    exact same.1
  cases readable.unique readable' (paths.symm.trans listedPaths)
  obtain ⟨first, second⟩ := headings plain
  have filtered : both.filter (fun source => source.HasTodo) = both.tail := by decide +kernel
  exact ⟨accepted, success, same.symm.trans success, first, second.trans (by rw [filtered]; rfl)⟩

end Program

end BuildRunner
