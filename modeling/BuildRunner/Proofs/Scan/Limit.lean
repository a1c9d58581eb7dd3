import BuildRunner.Proofs.Scan.Listing
import BuildRunner.Proofs.Session.Limit

/-!
# A scan on a limited output stream

A scan can fail in two ways: a file cannot be read, or the output stream is full. Which of the two
comes first is decided by how much is written before. The files in front of the first unreadable one
are listed without a failure if the stream takes their listing, and then the scan fails at that
file. Otherwise the stream is full before, and the scan never gets there.

So the end of a scan is first told without a stream (`Ends`), and a limit is then put on the run as
it is put on any run that writes.
-/

namespace BuildRunner.Scan

open Run

variable {marker : Marker}

/-- How a scan of files ends that is not hindered in writing, and the files it has listed by then:
it shows all of them, or it fails at the first one that cannot be read. -/
inductive Ends (w : World) (marker : Marker) :
    List Path → List Source → Except Failure Nat → Prop
  | shown {sources : List Source} :
    Readable w sources →
    Ends w marker (sources.map Source.path) sources (.ok (listed marker sources).length)
  | unread {sources : List Source} {path : Path} {fault : Fault} (rest : List Path) :
    Readable w sources → w.readText path = .error fault →
    Ends w marker (sources.map Source.path ++ path :: rest) sources (.error (.extract path fault))

/-- Without a limit, files are listed up to the first that cannot be read. -/
theorem exists_ends_of_unlimited (marker : Marker) {s : Session} (unlimited : s.room = none)
    (paths : List Path) :
    ∃ sources answer u, Ends s.world marker paths sources answer ∧
      (listFiles marker paths).run s = ended answer u ∧
      u.output = s.output ++ Text.utf8 (listing (listed marker sources)) := by
  rcases readable_or_first_unreadable s.world paths with
    ⟨sources, rfl, readable⟩ | ⟨sources, path, rest, fault, rfl, readable, unread⟩
  · obtain ⟨count, u, ran, _⟩ := listFiles_unlimited marker unlimited readable
    obtain ⟨others, same, readable', _, rfl, output⟩ := listFiles_eq_ok ran
    cases readable.unique readable' same
    exact ⟨sources, _, u, .shown readable, ran, output⟩
  · obtain ⟨u, ran, output⟩ := listFiles_unreadable marker unlimited readable unread rest
    exact ⟨sources, _, u, .unread rest readable unread, ran, output⟩

/-- **A limit on the output stream cuts a scan in the write that does not fit.** Let a stream take
everything, and let `text` be what the scan writes to it: the listing of the files it finds, up to
the first one that cannot be read, with which it fails. On a stream that takes `limit` bytes, if
`text` fits, the scan ends the same way and in the same session. If it does not fit, the scan fails
because the stream is full, with the first `limit` bytes of `text` written, also when a file that
cannot be read comes later. -/
theorem scan_under_limit (w : World) (trace : List Event) (root : Path) (extension : String)
    (marker : Marker) :
    let s : Session := ⟨w, none, trace⟩
    ∃ paths mid sources answer u, (candidates root extension).run s = .ok paths mid ∧
      Ends w marker paths sources answer ∧
      let text := Text.utf8 (listing (listed marker sources))
      (run root extension marker).run s = ended answer u ∧
      u.output = s.output ++ text ∧
      ∀ limit,
        (text.length ≤ limit →
          (run root extension marker).run { s with room := some limit } =
            ended answer { u with room := some (limit - text.length) }) ∧
        (limit < text.length → ∃ l,
          (run root extension marker).run { s with room := some limit } =
            .error (.io .streamFull) l ∧
          l.output = s.output ++ text.take limit) := by
  intro s
  obtain ⟨mid, logs, candidates, scan⟩ := run_scan s root extension marker
  obtain ⟨sources, answer, u, ends, ran, output⟩ :=
    exists_ends_of_unlimited marker logs.room (found s.world root extension)
  rw [logs.world] at ends
  rw [logs.output] at output
  have limited : Limited (run root extension marker) :=
    closed_run closed_limited limited_write root extension marker
  exact ⟨_, mid, sources, answer, u, candidates, ends, scan.trans ran, output,
    limited.run_of_unlimited (scan.trans ran) output⟩

end BuildRunner.Scan
