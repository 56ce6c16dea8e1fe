import GrammarFormat.Command.Run
import GrammarFormat.Proofs.Requests
import GrammarFormat.Proofs.WholeFiles

/-!
# Changing a file in place

A file that was changed in place passes a check with the same options if and only if its first line end is
that of the old file, as it is with every line ending but `auto`. After a second change in place it passes in
any case (`status_check_after_inPlace`).
-/

namespace GrammarFormat

open Lexeme

theorem decodeText_toUTF8 (text : String) : decodeText text.toUTF8 = .ok text := by
  have h : String.fromUTF8? text.toUTF8 = some text := by
    rw [String.fromUTF8?, String.toUTF8_eq_toByteArray, dif_pos text.isValidUTF8]
    rfl
  rw [decodeText, h]

/-- A directory with one file. -/
def Files.single (name text : String) : Files := fun path =>
  if path = name then .file text.toUTF8 else .missing

theorem Files.readText_single (name text : String) : (Files.single name text).readText name = .ok text := by
  rw [Files.readText, Files.single, if_pos rfl]
  exact decodeText_toUTF8 text

namespace Command

/-- What a run leaves at a path. -/
def Outcome.fileAfter (outcome : Outcome) (files : Files) (path : String) : FileEntry :=
  match outcome.written? with
  | some (written, text) => if written = path then .file text.toUTF8 else files path
  | none => files path

/-- A request to format the whole file at `path`, which holds `source`. -/
structure FormatsFile (files : Files) (request : Request) (settings : Settings) (path source : String) :
    Prop where
  path_eq : request.path? = some path
  lines_eq : request.lines? = none
  tokens_eq : request.tokens = false
  readText_eq : files.readText path = .ok source
  load_eq : Settings.load files (layers request) = .ok settings

variable {files : Files} {request : Request} {settings : Settings} {path source text : String}
  {stdin : ByteArray}

/-- The outcome depends on the whole text. -/
theorem runFormat_eq (settings : Settings) (source : String) (hlines : request.lines? = none) :
    ∃ log, runFormat request settings source =
      match settings.wholeText source with
      | .ok text => deliver request log source text
      | .error .noFirstToken => failure log "nothing to format"
      | .error e => failure log e.message := by
  refine ⟨logLines request
    (.settings settings.indentUnit settings.lineEnding :: formatSourceEvents source .all), ?_⟩
  simp only [runFormat, hlines, Option.getD_none, Settings.wholeText, Settings.styleOf]
  cases formatSource source ⟨settings.lineEnding.resolve source, settings.indentUnit⟩ .all with
  | ok text => rfl
  | error e => cases e <;> rfl

namespace FormatsFile

theorem runRequest_eq (h : FormatsFile files request settings path source) (stdin : ByteArray) :
    runRequest files stdin request = runFormat request settings source := by
  have hsource : readSource files stdin (some path) = .ok source := by
    rw [readSource, h.readText_eq]
    rfl
  simp [runRequest, h.path_eq, hsource, h.tokens_eq, h.load_eq]

theorem runRequest_of_wholeText (h : FormatsFile files request settings path source)
    (htext : settings.wholeText source = .ok text) (stdin : ByteArray) :
    ∃ log, runRequest files stdin request = deliver request log source text := by
  obtain ⟨log, hlog⟩ := runFormat_eq settings source h.lines_eq
  rw [htext] at hlog
  exact ⟨log, by rw [h.runRequest_eq, hlog]⟩

theorem exists_wholeText (h : FormatsFile files request settings path source)
    (hstatus : (runRequest files stdin request).status = 0) :
    ∃ text, settings.wholeText source = .ok text := by
  obtain ⟨log, hlog⟩ := runFormat_eq settings source h.lines_eq
  rw [h.runRequest_eq, hlog] at hstatus
  cases htext : settings.wholeText source with
  | ok text => exact ⟨text, rfl⟩
  | error e =>
    rw [htext] at hstatus
    cases e <;> cases hstatus

/-- A check compares the text with the source. -/
theorem status_check (h : FormatsFile files request settings path source) (hcheck : request.check = true)
    (htext : settings.wholeText source = .ok text) (stdin : ByteArray) :
    (runRequest files stdin request).status = if text = source then 0 else 1 := by
  obtain ⟨log, hrun⟩ := h.runRequest_of_wholeText htext stdin
  rw [hrun, deliver, if_pos hcheck]
  by_cases heq : text = source <;> simp [heq]

/-- A change in place leaves the text at the path. -/
theorem inPlace (h : FormatsFile files request settings path source) (hinPlace : request.inPlace = true)
    (hcheck : request.check = false) (htext : settings.wholeText source = .ok text) (stdin : ByteArray) :
    (runRequest files stdin request).status = 0 ∧ ∀ files' : Files,
      files' path = (runRequest files stdin request).fileAfter files path →
        files'.readText path = .ok text := by
  obtain ⟨log, hrun⟩ := h.runRequest_of_wholeText htext stdin
  rw [hrun, deliver, hcheck, hinPlace, h.path_eq]
  by_cases heq : text = source
  · subst heq
    refine ⟨by simp, fun files' hfile => ?_⟩
    have hread := h.readText_eq
    rw [Files.readText] at hread ⊢
    simp only [Bool.false_eq_true, if_false, beq_self_eq_true, if_true, Outcome.fileAfter] at hfile
    rwa [hfile]
  · refine ⟨by simp [heq], fun files' hfile => ?_⟩
    simp only [Bool.false_eq_true, if_false, beq_eq_false_iff_ne.2 heq, Outcome.fileAfter, if_true] at hfile
    rw [Files.readText, hfile]
    exact decodeText_toUTF8 text

end FormatsFile

variable {fix check : List String}

theorem run_of_parse {args : List String} (h : parse args = .ok request) (files : Files) (stdin : ByteArray) :
    run files stdin args = runRequest files stdin request := by
  rw [run, h]

theorem exists_source (hpath : request.path? = some path)
    (hstatus : (runRequest files stdin request).status = 0) : ∃ source, files.readText path = .ok source := by
  cases hread : files.readText path with
  | ok source => exact ⟨source, rfl⟩
  | error e =>
    rw [runRequest, hpath, readSource, hread] at hstatus
    cases hstatus

/-- What else a request to change a file in place asks for. -/
theorem inPlace_of_parse (h : parse fix = .ok request) (hinPlace : request.inPlace = true) :
    request.check = false ∧ request.lines? = none ∧ request.tokens = false := by
  have hconflicts : ∀ p ∈ [Parameter.check, .lines, .tokens], request.asks p = false := by
    intro p hp
    by_contra hasks
    have hnone := conflicts_of_parse h (p := .inPlace) hinPlace (by simpa using hasks)
    have hall : ∀ p ∈ [Parameter.check, .lines, .tokens], Parameter.inPlace.conflicts p = true := by decide
    rw [hall p hp] at hnone
    cases hnone
  refine ⟨hconflicts .check (by simp), ?_, hconflicts .tokens (by simp)⟩
  have hlines := hconflicts .lines (by simp)
  exact Option.isNone_iff_eq_none.1 (Option.isSome_eq_false_iff.1 hlines)

/-- A file is changed in place, and then checked with the same options and settings. The check succeeds if
and only if the first line end of the file is the same as before. The file can be changed once more, and
then a check succeeds. -/
theorem status_check_after_inPlace {files' : Files} (hfix : parse fix = .ok request)
    (hinPlace : request.inPlace = true)
    (hpath : request.path? = some path)
    (hcheck : parse check = .ok { request with inPlace := false, check := true })
    (hsettings : Settings.load files (layers request) = .ok settings)
    (hblank : ∀ c ∈ settings.indentUnit.toList, isBlank c = true)
    (hstatus : (run files stdin fix).status = 0)
    (hfile : files' path = (run files stdin fix).fileAfter files path)
    (hsettings' : Settings.load files' (layers request) = .ok settings) :
    ∃ source text, files.readText path = .ok source ∧ files'.readText path = .ok text ∧
      (run files' stdin check).status =
        (if settings.lineEnding.resolve text = settings.lineEnding.resolve source then 0 else 1) ∧
      (settings.lineEnding ≠ .auto → (run files' stdin check).status = 0) ∧
      (run files' stdin fix).status = 0 ∧
      ∀ files'' : Files, files'' path = (run files' stdin fix).fileAfter files' path →
        Settings.load files'' (layers request) = .ok settings → (run files'' stdin check).status = 0 := by
  obtain ⟨hnocheck, hlines, htokens⟩ := inPlace_of_parse hfix hinPlace
  simp only [run_of_parse hfix] at *
  simp only [run_of_parse hcheck]
  obtain ⟨source, hsource⟩ := exists_source hpath hstatus
  have hformats : FormatsFile files request settings path source :=
    ⟨hpath, hlines, htokens, hsource, hsettings⟩
  obtain ⟨text, htext⟩ := hformats.exists_wholeText hstatus
  have hread := (hformats.inPlace hinPlace hnocheck htext stdin).2 files' hfile
  have hformats' : FormatsFile files' request settings path text :=
    ⟨hpath, hlines, htokens, hread, hsettings'⟩
  -- the check sees the text of the first run, or that of the second
  obtain ⟨text', htext', hiff, hstays⟩ := Settings.wholeText_again hblank htext
  have hchecks : ∀ {files : Files} {text : String}, files.readText path = .ok text →
      Settings.load files (layers request) = .ok settings →
      FormatsFile files { request with inPlace := false, check := true } settings path text :=
    fun hread hsettings => ⟨hpath, hlines, htokens, hread, hsettings⟩
  have hstatus' := (hchecks hread hsettings').status_check rfl htext' stdin
  simp only [hiff] at hstatus'
  obtain ⟨hagain, hread'⟩ := hformats'.inPlace hinPlace hnocheck htext' stdin
  refine ⟨source, text, hsource, hread, hstatus', fun hauto => ?_, hagain,
    fun files'' hfile' hsettings'' => ?_⟩
  · rw [hstatus', if_pos (LineEnding.resolve_eq_of_ne_auto hauto _ _)]
  · rw [(hchecks (hread' files'' hfile') hsettings'').status_check rfl hstays stdin, if_pos rfl]

/-- The line break in front of a comment is dropped, and the comment has line ends of another kind. -/
theorem check_fails_after_inPlace :
    (run (Files.single "g.jj" "\n/* a\r\n */ b") .empty ["g.jj", "--in-place"]).status = 0 ∧
      (run (Files.single "g.jj" "\n/* a\r\n */ b") .empty ["g.jj", "--in-place"]).written? =
        some ("g.jj", "/* a\r\n */ b\n") ∧
      (run (Files.single "g.jj" "/* a\r\n */ b\n") .empty ["g.jj", "--check"]).status = 1 := by
  decide +kernel

theorem status_check_after_inPlace_of_comment :
    (run (Files.single "g.jj" "\n/* a\r\n */ b") .empty ["g.jj", "--in-place"]).status = 0 ∧
      (run (Files.single "g.jj" "/* a\r\n */ b\n") .empty ["g.jj", "--check"]).status = 1 ∧
      (run (Files.single "g.jj" "/* a\r\n */ b\r\n") .empty ["g.jj", "--check"]).status = 0 := by
  obtain ⟨hstatus, hwritten, hwritten'⟩ :
      (run (Files.single "g.jj" "\n/* a\r\n */ b") .empty ["g.jj", "--in-place"]).status = 0 ∧
      (run (Files.single "g.jj" "\n/* a\r\n */ b") .empty ["g.jj", "--in-place"]).written? =
        some ("g.jj", "/* a\r\n */ b\n") ∧
      (run (Files.single "g.jj" "/* a\r\n */ b\n") .empty ["g.jj", "--in-place"]).written? =
        some ("g.jj", "/* a\r\n */ b\r\n") := by
    decide +kernel
  have hsettings : ∀ text ∈ ["\n/* a\r\n */ b", "/* a\r\n */ b\n", "/* a\r\n */ b\r\n"],
      Settings.load (Files.single "g.jj" text) (layers { path? := some "g.jj", inPlace := true }) =
        .ok ⟨"\t", .auto⟩ := by
    decide +kernel
  have hfix : parse ["g.jj", "--in-place"] = .ok { path? := some "g.jj", inPlace := true } := by
    decide +kernel
  have hcheck : parse ["g.jj", "--check"] = .ok { path? := some "g.jj", check := true } := by decide +kernel
  have hfile : Files.single "g.jj" "/* a\r\n */ b\n" "g.jj" =
      (run (Files.single "g.jj" "\n/* a\r\n */ b") .empty ["g.jj", "--in-place"]).fileAfter
        (Files.single "g.jj" "\n/* a\r\n */ b") "g.jj" := by
    rw [Outcome.fileAfter, hwritten]
    rfl
  obtain ⟨source, text, hsource, htext, hfails, -, -, hlast⟩ :=
    status_check_after_inPlace hfix rfl rfl hcheck (hsettings _ (by simp)) (by decide +kernel) hstatus hfile
      (hsettings _ (by simp))
  rw [Files.readText_single] at hsource htext
  cases hsource
  cases htext
  refine ⟨hstatus, hfails, hlast _ ?_ (hsettings _ (by simp))⟩
  rw [Outcome.fileAfter, hwritten']
  rfl

end Command

end GrammarFormat
