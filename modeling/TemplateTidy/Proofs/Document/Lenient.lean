import TemplateTidy.Proofs.Document.Stages
import TemplateTidy.Proofs.Exclude.Pattern
import TemplateTidy.Proofs.Exclude.Relocation

/-!
# Runs that are not strict

A run that is not strict ends in a report, whatever its stages do: a stage that fails is told
of, and the text goes on as it was before that stage. What still ends such a run is a pattern
that cannot be read, since the patterns are read outside of any stage: then nothing is started
and nothing is told. Patterns without escapes and sets of characters can always be read.

Main result: `formatDocument_lenient`.
-/

namespace TemplateTidy

/-! ## Whether it can be said that a document is excluded -/

/-- The path to match is known if the working directory is absolute. -/
theorem probePath_isOk {cwd : Text} (hcwd : Path.isAbsolute cwd = true) (root : Option Text)
    (path : Text) : ∃ probe, probePath cwd root path = .ok probe := by
  cases root with
  | none => exact ⟨_, rfl⟩
  | some root =>
    by_cases hroot : root = []
    · rw [hroot]
      exact ⟨_, rfl⟩
    · rw [probePath_of_ne_nil hroot]
      · exact ⟨_, rfl⟩
      · rw [Path.isAbsolute_absolute_of_cwd hcwd, Path.isAbsolute_absolute_of_cwd hcwd]

/-- There is no verdict exactly if a pattern cannot be read, and then the first such pattern is to
blame. -/
theorem ExcludeSpec.verdict_eq_error_iff {patterns : List Json} {probe : Text} {e : ExcludeError} :
    verdict patterns probe = .error e ↔
      ∃ fault, fault? patterns = some fault ∧ e = .pattern fault := by
  rw [verdict]
  cases hread : ofValues patterns with
  | error fault =>
    rw [ofValues_eq_error_iff.mp hread]
    constructor
    · intro h
      exact ⟨fault, rfl, (Except.error.inj h).symm⟩
    · rintro ⟨fault', hfault, rfl⟩
      rw [Option.some.inj hfault]
      rfl
  | ok spec =>
    constructor
    · intro h
      cases h
    · rintro ⟨fault, hfault, -⟩
      rw [ofValues_eq_error_iff.mpr hfault] at hread
      cases hread

/-- **Only a pattern that cannot be read** leaves open whether a file is excluded. -/
theorem isExcluded_eq_error_iff {cwd : Text} (hcwd : Path.isAbsolute cwd = true)
    {patterns : List Json} {root : Option Text} {path : Text} {e : ExcludeError} :
    isExcluded cwd patterns root path = .error e ↔
      path ≠ [] ∧ ∃ fault, ExcludeSpec.fault? patterns = some fault ∧ e = .pattern fault := by
  by_cases hpath : path = []
  · rw [hpath, isExcluded, List.isEmpty_nil, Bool.or_true]
    constructor
    · intro h
      cases h
    · exact fun h => absurd rfl h.1
  · obtain ⟨probe, hprobe⟩ := probePath_isOk hcwd root path
    rw [isExcluded_of_probePath hpath hprobe, ExcludeSpec.verdict_eq_error_iff]
    exact ⟨fun h => ⟨hpath, h⟩, fun h => h.2⟩

namespace Document

/-! ## What is told -/

/-- What a run that is not strict tells of a stage, if the stage is wanted at all. -/
def linesOf (stage : Stage) : Option (Except Failure Text) → List Text
  | none => []
  | some (.ok _) => [stage.success]
  | some (.error cause) => [stage.failure cause]

/-- Of a stage a run that is not strict tells its success or its failure. -/
theorem told_callsOf (stage : Stage) (s : Text) (result : Option (Except Failure Text)) :
    (callsOf false stage s result).filterMap Call.line? = linesOf stage result := by
  cases result with
  | none => rfl
  | some result => cases result <;> rfl

/-- What is told at the end of a run of a document that was `s` and has become `t`. -/
def closing (s t : Text) : List Text :=
  if t = s then ["  - No changes.".toList] else []

/-- A run without errors tells of each stage, and at the end whether anything has changed. -/
theorem told_callsThrough (settings : Settings) (markup : MarkupStage) (code : Option CodeStage)
    (s t u : Text) :
    (callsThrough settings markup code s t u).filterMap Call.line? =
      linesOf .markup (markupResult settings markup s) ++ linesOf .code (codeResult code t) ++
        closing s u := by
  have hclosing : (if u = s then [Call.tell "  - No changes.".toList] else []).filterMap
      Call.line? = closing s u := by
    rw [closing]
    split <;> rfl
  rw [callsThrough, List.filterMap_append, List.filterMap_append, told_callsOf, told_callsOf,
    hclosing, List.append_assoc]

/-- What is told of an excluded document. -/
def skipping (path : Text) : Text :=
  "  - '".toList ++ path ++ "' is excluded. Skipping.".toList

/-- A document that is excluded makes one call, which tells so. -/
theorem accounts_skip (path : Text) : Accounts (skip path) (.ok none) [.tell (skipping path)] :=
  (accounts_say _).bind (accounts_pure none)

/-- **How a run that is not strict ends**, given whether the document is excluded. -/
theorem perform_lenient (settings : Settings) (markup : MarkupStage) (code : Option CodeStage)
    (path : Text) {s t u : Text} (ht : t = fallback s (markupResult settings markup s))
    (hu : u = fallback t (codeResult code t)) (draw : Nat) (excluded : Except ExcludeError Bool) :
    let run := perform draw (format excluded settings markup code false path s)
    (∀ e, excluded = .error e → run.result = .error (.exclusion e) ∧ run.calls = []) ∧
      (excluded = .ok true → run.result = .ok ⟨none, [skipping path]⟩) ∧
      (excluded = .ok false → run.result =
        .ok ⟨if u = s then none else some u,
          linesOf .markup (markupResult settings markup s) ++ linesOf .code (codeResult code t) ++
            closing s u⟩) ∧
      ∀ report, run.result = .ok report → run.calls.filterMap Call.line? = report.lines := by
  cases excluded with
  | error e =>
    have haccount :
        Accounts (throw (.exclusion e) : Work (Option Text)) (.error (.exclusion e)) [] :=
      accounts_throw _
    obtain ⟨hcalls, hresult⟩ := haccount.perform draw
    refine ⟨?_, nofun, nofun, fun report => haccount.told⟩
    rintro _ ⟨⟩
    exact ⟨hresult, hcalls⟩
  | ok excluded =>
    cases excluded with
    | true =>
      have haccount := accounts_skip path
      exact ⟨nofun, fun _ => (haccount.perform draw).2, nofun, fun report => haccount.told⟩
    | false =>
      have haccount := accounts_lenient ht hu
      -- the calls are the same list in both parts, so the lines told can be read off it
      have hresult := (haccount.perform draw).2
      rw [told_callsThrough] at hresult
      exact ⟨nofun, nofun, fun _ => hresult, fun report => haccount.told⟩

end Document

/-- **A run that is not strict ends in a report, unless a pattern cannot be read.** It ends in
an error exactly if the document has a path and a pattern cannot be read, and then nothing has
been started or told. Patterns that escape nothing, hold no set of characters and are not a
lone mark can be read. An excluded document is only told of. Of any other one let `t₁` be the
text as the markup stage leaves it, if that is wanted and succeeds, and `t₂` what the code stage
makes of `t₁`, if there is one and it succeeds: the report has `t₂`, unless that is the document
itself, and for every stage that is wanted a line that says whether it has failed. Whoever
listens hears the lines of the report, in order. -/
theorem formatDocument_lenient (draws : Draws) (cwd : Text) (settings : Settings)
    (code : Option CodeStage) (root path : Option Text) (draw : Nat) (s : Text)
    (hcwd : Path.isAbsolute cwd = true) :
    let run := formatDocument draws cwd settings code root false draw path s
    let excluded := isExcluded cwd settings.exclude root (path.getD [])
    let markup := Document.markupResult settings
      (beautify draws draw (.ofRecord settings.html) settings.shortTags) s
    let t₁ := Document.fallback s markup
    let t₂ := Document.fallback t₁ (Document.codeResult code t₁)
    (∀ e, run.result = .error e ↔ path.getD [] ≠ [] ∧
        ∃ fault, ExcludeSpec.fault? settings.exclude = some fault ∧
          e = .exclusion (.pattern fault)) ∧
      (∀ e, run.result = .error e → run.calls = []) ∧
      ((∀ line ∈ ExcludeSpec.patternLines settings.exclude,
          Pattern.IsPlain line ∧ line ≠ ['!']) → ∃ report, run.result = .ok report) ∧
      (excluded = .ok true → run.result = .ok ⟨none, [Document.skipping (path.getD [])]⟩) ∧
      (excluded = .ok false → run.result =
        .ok ⟨if t₂ = s then none else some t₂,
          Document.linesOf .markup markup ++ Document.linesOf .code (Document.codeResult code t₁) ++
            Document.closing s t₂⟩) ∧
      ∀ report, run.result = .ok report → run.calls.filterMap Call.line? = report.lines := by
  intro run excluded markup t₁ t₂
  obtain ⟨hfails, hskipped, hincluded, htold⟩ :=
    Document.perform_lenient settings (beautify draws draw (.ofRecord settings.html)
      settings.shortTags) code (path.getD []) (t := t₁) (u := t₂) rfl rfl draw excluded
  have hfault : ∀ {e}, excluded = .error e ↔ path.getD [] ≠ [] ∧
      ∃ fault, ExcludeSpec.fault? settings.exclude = some fault ∧ e = .pattern fault :=
    isExcluded_eq_error_iff hcwd
  -- with a verdict the run reports, whatever it is
  have hreport : ∀ {verdict}, excluded = .ok verdict → ∃ report, run.result = .ok report := by
    intro verdict hverdict
    cases verdict with
    | true => exact ⟨_, hskipped hverdict⟩
    | false => exact ⟨_, hincluded hverdict⟩
  -- without one it hands on the error
  have herror : ∀ {e}, run.result = .error e →
      ∃ error, excluded = .error error ∧ e = .exclusion error := by
    intro e hresult
    cases hverdict : excluded with
    | error error =>
      rw [show run.result = _ from (hfails error hverdict).1] at hresult
      exact ⟨error, rfl, (Except.error.inj hresult).symm⟩
    | ok verdict =>
      obtain ⟨report, hok⟩ := hreport hverdict
      rw [hok] at hresult
      cases hresult
  -- so the errors of the run are those of the exclusion, and only a pattern makes one
  refine ⟨fun e => ⟨fun hresult => ?_, ?_⟩, fun e hresult => ?_, fun hplain => ?_, hskipped,
    hincluded, htold⟩
  · obtain ⟨error, hverdict, rfl⟩ := herror hresult
    obtain ⟨hpath, fault, hsome, rfl⟩ := hfault.mp hverdict
    exact ⟨hpath, fault, hsome, rfl⟩
  · rintro ⟨hpath, fault, hsome, rfl⟩
    exact (hfails _ (hfault.mpr ⟨hpath, fault, hsome, rfl⟩)).1
  · obtain ⟨error, hverdict, -⟩ := herror hresult
    exact (hfails error hverdict).2
  · -- plain patterns have no fault, and so there is a verdict
    cases hverdict : excluded with
    | ok verdict => exact hreport hverdict
    | error error =>
      obtain ⟨-, fault, hsome, -⟩ := hfault.mp hverdict
      rw [ExcludeSpec.fault?_of_isPlain hplain] at hsome
      cases hsome

/-- A document whose markup holds a section that makes no sense goes on to the code stage as it
is. -/
theorem formatDocument_lenient_section :
    let s := "<p>a</p><![x[y]]>".toList
    let settings : Settings := { formatHtml := true, exclude := [.str "vendor/**".toList] }
    let run := formatDocument Draws.counter "/work".toList settings
      (some fun t => .ok (t ++ ['\n'])) (some "/work".toList) false 0 (some "a.php".toList) s
    Path.isAbsolute "/work".toList = true ∧
      run.result = .ok ⟨some (s ++ ['\n']),
        [Stage.markup.failure (.markup (.unknownKeyword "x".toList)), Stage.code.success]⟩ := by
  intro s settings run
  have hcwd : Path.isAbsolute "/work".toList = true := rfl
  have hincluded : isExcluded "/work".toList settings.exclude (some "/work".toList)
      "a.php".toList = .ok false := by
    decide +kernel
  have hmarkup : Document.markupResult settings
      (beautify Draws.counter 0 (.ofRecord settings.html) settings.shortTags) s =
        some (.error (.markup (.unknownKeyword "x".toList))) := by
    decide +kernel
  obtain ⟨-, -, -, -, hresult, -⟩ := formatDocument_lenient Draws.counter "/work".toList settings
    (some fun t => .ok (t ++ ['\n'])) (some "/work".toList) (some "a.php".toList) 0 s hcwd
  rw [hmarkup] at hresult
  exact ⟨hcwd, hresult hincluded⟩

/-- A pattern that takes back nothing ends a run that is not strict. -/
theorem formatDocument_lenient_not_always :
    ¬ ∀ (draws : Draws) (cwd : Text) (settings : Settings) (code : Option CodeStage)
      (root path : Option Text) (draw : Nat) (s : Text), Path.isAbsolute cwd = true →
        ∃ report, (formatDocument draws cwd settings code root false draw path s).result =
          .ok report := by
  intro h
  obtain ⟨report, hreport⟩ := h Draws.counter "/work".toList { exclude := [.str "!".toList] } none
    none (some "a.php".toList) 0 "<p>x</p>".toList rfl
  have hfault : (formatDocument Draws.counter "/work".toList { exclude := [.str "!".toList] } none
      none false 0 (some "a.php".toList) "<p>x</p>".toList).result =
        .error (.exclusion (.pattern (.invalid "!".toList))) := by
    rfl
  rw [hfault] at hreport
  cases hreport

end TemplateTidy
