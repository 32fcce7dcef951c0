import Mathlib.Control.Monad.Basic
import TemplateTidy.Document

/-!
# What the stages of a document come to

Every part of a run has an account that does not depend on what was done before it: how
the part ends, and the calls it makes (`Document.Accounts`). The account of a sequence is
put together from those of its parts, so that the account of a run follows from that of
one stage: a stage that is wanted is given its text, and then either its text goes on and
success is told, or the text it was given goes on and the failure is told, or a strict
run ends there.

The report grows by a line exactly when one is told. So whoever listens hears the lines
of the report, whatever the stages do.

Main result: `formatDocument_stages`.
-/

namespace TemplateTidy

namespace Document

/-! ## Accounts -/

/-- A part of a run ends with `r` and makes the calls `made`, whatever was done before.
Its lines of the report are those it tells. -/
structure Accounts {α : Type} (w : Work α) (r : Except DocumentError α) (made : List Call) :
    Prop where
  result : ∀ p, (w.run.run p).1 = r
  calls : ∀ p, (w.run.run p).2.calls = p.calls ++ made
  lines : ∀ p, (w.run.run p).2.lines = p.lines ++ made.filterMap Call.line?

section

variable {α β : Type} {w : Work α} {f : α → Work β} {first rest : List Call}

/-- What is to come is done with what a part ends in, from where it ends. -/
theorem run_bind (p : Progress) :
    (w >>= f).run.run p =
      (ExceptT.bindCont f (w.run.run p).1).run (w.run.run p).2 :=
  rfl

/-- A part that only has a value makes no calls. -/
theorem accounts_pure (a : α) : Accounts (pure a) (.ok a) [] where
  result _ := rfl
  calls p := (List.append_nil p.calls).symm
  lines p := (List.append_nil p.lines).symm

/-- A part that fails makes no calls. -/
theorem accounts_throw (e : DocumentError) : Accounts (throw e : Work α) (.error e) [] where
  result _ := rfl
  calls p := (List.append_nil p.calls).symm
  lines p := (List.append_nil p.lines).symm

/-- Telling a line is one call. -/
theorem accounts_say (line : Text) : Accounts (say line) (.ok ()) [.tell line] where
  result _ := rfl
  calls _ := rfl
  lines _ := rfl

/-- Starting a stage is one call, which tells nothing. -/
theorem accounts_start (stage : Stage) (s : Text) :
    Accounts (start stage s) (.ok ()) [.start stage s] where
  result _ := rfl
  calls _ := rfl
  lines p := (List.append_nil p.lines).symm

/-- What one part leaves undone the next one does. -/
theorem Accounts.bind {a : α} {r : Except DocumentError β} (hw : Accounts w (.ok a) first)
    (hf : Accounts (f a) r rest) : Accounts (w >>= f) r (first ++ rest) := by
  have hrun : ∀ p, (w >>= f).run.run p = (f a).run.run (w.run.run p).2 := by
    intro p
    rw [run_bind, hw.result]
    rfl
  constructor
  · intro p
    rw [hrun, hf.result]
  · intro p
    rw [hrun, hf.calls, hw.calls, List.append_assoc]
  · intro p
    rw [hrun, hf.lines, hw.lines, List.filterMap_append, List.append_assoc]

/-- Nothing is done behind a part that ends in an error. -/
theorem Accounts.bind_error {e : DocumentError} (hw : Accounts w (.error e) first) :
    Accounts (w >>= f) (.error e) first := by
  have hrun : ∀ p, (w >>= f).run.run p = (.error e, (w.run.run p).2) := by
    intro p
    rw [run_bind, hw.result]
    rfl
  constructor
  · intro p
    rw [hrun]
  · intro p
    rw [hrun, hw.calls]
  · intro p
    rw [hrun, hw.lines]

end

/-! ## The account of a stage -/

/-- How a stage ends that is given `s`, if it is wanted at all. -/
def ending (strict : Bool) (stage : Stage) (s : Text) :
    Option (Except Failure Text) → Except DocumentError Text
  | none => .ok s
  | some (.ok t) => .ok t
  | some (.error cause) => if strict then .error (.failed stage cause) else .ok s

/-- The calls of such a stage. -/
def callsOf (strict : Bool) (stage : Stage) (s : Text) :
    Option (Except Failure Text) → List Call
  | none => []
  | some (.ok _) => [.start stage s, .tell stage.success]
  | some (.error cause) =>
    if strict then [.start stage s] else [.start stage s, .tell (stage.failure cause)]

/-- What the code stage makes of a text, if there is one. -/
def codeResult (code : Option CodeStage) (s : Text) : Option (Except Failure Text) :=
  code.map (· s)

/-- What the markup stage makes of a text, if it is wanted. -/
def markupResult (settings : Settings) (markup : MarkupStage) (s : Text) :
    Option (Except Failure Text) :=
  if settings.formatHtml then some (markup s).result else none

/-- A stage that is started and settled accounts for itself, whatever else is done between
the two that makes no call. -/
theorem accounts_stage (strict : Bool) (stage : Stage) (s : Text) (result : Except Failure Text)
    {between : Work Unit} (hbetween : Accounts between (.ok ()) []) :
    Accounts (do start stage s; between; settle strict stage s result)
      (ending strict stage s (some result)) (callsOf strict stage s (some result)) := by
  have hsettled : Accounts (settle strict stage s result) (ending strict stage s (some result))
      (callsOf strict stage s (some result)).tail := by
    cases result with
    | ok t => exact (accounts_say stage.success).bind (accounts_pure t)
    | error cause =>
      cases strict with
      | true => exact (accounts_throw (.failed stage cause)).bind_error
      | false => exact (accounts_say (stage.failure cause)).bind (accounts_pure s)
  have hcalls : callsOf strict stage s (some result) =
      [.start stage s] ++ ([] ++ (callsOf strict stage s (some result)).tail) := by
    cases result with
    | ok t => rfl
    | error cause => cases strict <;> rfl
  rw [hcalls]
  exact (accounts_start stage s).bind (hbetween.bind hsettled)

/-- **The markup stage**, as its result says. -/
theorem accounts_markupStage (strict : Bool) (settings : Settings) (markup : MarkupStage)
    (s : Text) :
    Accounts (markupStage strict settings markup s)
      (ending strict .markup s (markupResult settings markup s))
      (callsOf strict .markup s (markupResult settings markup s)) := by
  rw [markupStage, markupResult]
  split
  · refine accounts_stage strict .markup s (markup s).result ⟨fun _ => rfl, ?_, ?_⟩
    · intro p
      exact (List.append_nil p.calls).symm
    · intro p
      exact (List.append_nil p.lines).symm
  · exact accounts_pure s

/-- **The code stage**, as its result says. -/
theorem accounts_codeStage (strict : Bool) (code : Option CodeStage) (s : Text) :
    Accounts (codeStage strict code s) (ending strict .code s (codeResult code s))
      (callsOf strict .code s (codeResult code s)) := by
  cases code with
  | none => exact accounts_pure s
  | some format => exact accounts_stage strict .code s (format s) (accounts_pure ())

/-- The end of a run tells only that nothing has changed. -/
theorem accounts_conclude (s t : Text) :
    Accounts (conclude s t) (.ok (if t = s then none else some t))
      (if t = s then [.tell "  - No changes.".toList] else []) := by
  rw [conclude]
  split
  · exact (accounts_say _).bind (accounts_pure none)
  · exact accounts_pure (some t)

/-! ## The account of a run -/

/-- A run reports the lines it tells. -/
theorem Accounts.perform {w : Work (Option Text)} {r : Except DocumentError (Option Text)}
    {made : List Call} (h : Accounts w r made) (draw : Nat) :
    (perform draw w).calls = made ∧
      (perform draw w).result = r.map fun text => ⟨text, made.filterMap Call.line?⟩ := by
  have hcalls := h.calls { nextDraw := draw }
  have hlines := h.lines { nextDraw := draw }
  have hresult := h.result { nextDraw := draw }
  refine ⟨hcalls, ?_⟩
  show Except.map (fun text => Report.mk text (w.run.run { nextDraw := draw }).2.lines)
    (w.run.run { nextDraw := draw }).1 = _
  rw [hresult, hlines]
  rfl

/-- Whoever listens to a run that comes to a report hears the lines of the report. -/
theorem Accounts.told {w : Work (Option Text)} {r : Except DocumentError (Option Text)}
    {made : List Call} (h : Accounts w r made) {draw : Nat} {report : Report}
    (hreport : (Document.perform draw w).result = .ok report) :
    (Document.perform draw w).calls.filterMap Call.line? = report.lines := by
  obtain ⟨hcalls, hresult⟩ := h.perform draw
  rw [hresult] at hreport
  cases r with
  | error e => cases hreport
  | ok text =>
    cases hreport
    rw [hcalls]

/-- The text that goes on behind a stage that was given `s`: what the stage made of it, if
it made anything. -/
def fallback (s : Text) (result : Option (Except Failure Text)) : Text :=
  (result.bind Except.toOption).getD s

/-- In a run that is not strict no stage ends it. -/
theorem ending_lenient (stage : Stage) (s : Text) (result : Option (Except Failure Text)) :
    ending false stage s result = .ok (fallback s result) := by
  cases result with
  | none => rfl
  | some result => cases result <;> rfl

/-- A stage that does not fail is the same in a strict run. -/
theorem ending_strict {result : Option (Except Failure Text)}
    (h : ∀ cause, result ≠ some (.error cause)) (stage : Stage) (s : Text) :
    ending true stage s result = .ok (fallback s result) ∧
      callsOf true stage s result = callsOf false stage s result := by
  cases result with
  | none => exact ⟨rfl, rfl⟩
  | some result =>
    cases result with
    | ok t => exact ⟨rfl, rfl⟩
    | error cause => exact absurd rfl (h cause)

/-- What is started of the stages is seen in the calls of each. -/
theorem started_callsOf (strict : Bool) (stage : Stage) (s : Text)
    (result : Option (Except Failure Text)) :
    (callsOf strict stage s result).filterMap Call.started? =
      result.toList.map fun _ => (stage, s) := by
  cases result with
  | none => rfl
  | some result =>
    cases result with
    | ok t => rfl
    | error cause => cases strict <;> rfl

section

variable {settings : Settings} {markup : MarkupStage} {code : Option CodeStage} {strict : Bool}
  {s t u : Text}

/-- A run in which both stages come to a text. -/
theorem accounts_stages
    (hmarkup : ending strict .markup s (markupResult settings markup s) = .ok t)
    (hcode : ending strict .code t (codeResult code t) = .ok u) :
    Accounts (stages settings markup code strict s) (.ok (if u = s then none else some u))
      (callsOf strict .markup s (markupResult settings markup s) ++
        (callsOf strict .code t (codeResult code t) ++
          if u = s then [.tell "  - No changes.".toList] else [])) := by
  have hfirst := accounts_markupStage strict settings markup s
  have hsecond := accounts_codeStage strict code t
  rw [hmarkup] at hfirst
  rw [hcode] at hsecond
  exact hfirst.bind (hsecond.bind (accounts_conclude s u))

/-- A run that ends in the markup stage. -/
theorem accounts_stages_of_markup {cause : Failure}
    (h : markupResult settings markup s = some (.error cause)) :
    Accounts (stages settings markup code true s) (.error (.failed .markup cause))
      [.start .markup s] := by
  have hfirst := accounts_markupStage true settings markup s
  rw [h] at hfirst
  exact hfirst.bind_error

/-- A run that ends in the code stage. -/
theorem accounts_stages_of_code {cause : Failure}
    (hmarkup : ending true .markup s (markupResult settings markup s) = .ok t)
    (hcode : codeResult code t = some (.error cause)) :
    Accounts (stages settings markup code true s) (.error (.failed .code cause))
      (callsOf true .markup s (markupResult settings markup s) ++ [.start .code t]) := by
  have hfirst := accounts_markupStage true settings markup s
  have hsecond := accounts_codeStage true code t
  rw [hmarkup] at hfirst
  rw [hcode] at hsecond
  exact hfirst.bind hsecond.bind_error

/-- The calls of a run in which no stage ends it. -/
def callsThrough (settings : Settings) (markup : MarkupStage) (code : Option CodeStage)
    (s t u : Text) : List Call :=
  callsOf false .markup s (markupResult settings markup s) ++
    (callsOf false .code t (codeResult code t) ++
      if u = s then [.tell "  - No changes.".toList] else [])

/-- The markup stage is started if it is wanted, with the document. -/
theorem started_markup (strict : Bool) (settings : Settings) (markup : MarkupStage) (s : Text) :
    (callsOf strict .markup s (markupResult settings markup s)).filterMap Call.started? =
      if settings.formatHtml then [(.markup, s)] else [] := by
  rw [started_callsOf, markupResult]
  split <;> rfl

/-- A run without errors starts each stage that is wanted, the code stage with what the markup
stage has left to it. -/
theorem started_callsThrough (settings : Settings) (markup : MarkupStage)
    (code : Option CodeStage) (s t u : Text) :
    (callsThrough settings markup code s t u).filterMap Call.started? =
      (if settings.formatHtml then [(.markup, s)] else []) ++
        code.toList.map fun _ => (.code, t) := by
  have hcode : ((codeResult code t).toList.map fun _ => (Stage.code, t)) =
      code.toList.map fun _ => (.code, t) := by
    cases code <;> rfl
  have hconclude : (if u = s then [Call.tell "  - No changes.".toList] else []).filterMap
      Call.started? = [] := by
    split <;> rfl
  rw [callsThrough, List.filterMap_append, List.filterMap_append, started_markup,
    started_callsOf, hcode, hconclude, List.append_nil]

/-- A run that is not strict goes through all its stages. -/
theorem accounts_lenient (ht : t = fallback s (markupResult settings markup s))
    (hu : u = fallback t (codeResult code t)) :
    Accounts (stages settings markup code false s) (.ok (if u = s then none else some u))
      (callsThrough settings markup code s t u) := by
  subst ht hu
  exact accounts_stages (ending_lenient _ _ _) (ending_lenient _ _ _)

/-- A strict run ends in the markup stage if that fails, else in the code stage if that
fails, and otherwise goes the way of any other run. -/
theorem strict_cases (ht : t = fallback s (markupResult settings markup s))
    (hu : u = fallback t (codeResult code t)) :
    (∃ cause, markupResult settings markup s = some (.error cause) ∧
      Accounts (stages settings markup code true s) (.error (.failed .markup cause))
        [.start .markup s]) ∨
    (∀ cause, markupResult settings markup s ≠ some (.error cause)) ∧
      ((∃ cause, codeResult code t = some (.error cause) ∧
        Accounts (stages settings markup code true s) (.error (.failed .code cause))
          (callsOf false .markup s (markupResult settings markup s) ++ [.start .code t])) ∨
      (∀ cause, codeResult code t ≠ some (.error cause)) ∧
        Accounts (stages settings markup code true s) (.ok (if u = s then none else some u))
          (callsThrough settings markup code s t u)) := by
  by_cases hmarkup : ∃ cause, markupResult settings markup s = some (.error cause)
  · obtain ⟨cause, hcause⟩ := hmarkup
    exact .inl ⟨cause, hcause, accounts_stages_of_markup hcause⟩
  · rw [not_exists] at hmarkup
    -- a stage that does not fail ends and logs as it does in a run that is not strict
    obtain ⟨hending, hcalls⟩ := ending_strict hmarkup .markup s
    rw [← ht] at hending
    refine .inr ⟨hmarkup, ?_⟩
    by_cases hcode : ∃ cause, codeResult code t = some (.error cause)
    · obtain ⟨cause, hcause⟩ := hcode
      exact .inl ⟨cause, hcause, hcalls ▸ accounts_stages_of_code hending hcause⟩
    · rw [not_exists] at hcode
      obtain ⟨hending', hcalls'⟩ := ending_strict hcode .code t
      rw [← hu] at hending'
      have haccount := accounts_stages hending hending'
      rw [hcalls, hcalls'] at haccount
      exact .inr ⟨hcode, haccount⟩

/-- **How a strict run ends.** It ends in the markup stage exactly if that fails, in the
code stage exactly if that is the first to fail, and otherwise as any other run. -/
theorem result_strict (ht : t = fallback s (markupResult settings markup s))
    (hu : u = fallback t (codeResult code t)) (draw : Nat) :
    let run := fun strict => perform draw (stages settings markup code strict s)
    (∀ cause, (run true).result = .error (.failed .markup cause) ↔
        markupResult settings markup s = some (.error cause)) ∧
      (∀ cause, (run true).result = .error (.failed .code cause) ↔
        (∀ c, markupResult settings markup s ≠ some (.error c)) ∧
          codeResult code t = some (.error cause)) ∧
      ((∀ c, markupResult settings markup s ≠ some (.error c)) →
        (∀ c, codeResult code t ≠ some (.error c)) → (run true).result = (run false).result) := by
  intro run
  -- in each of the three ways the run can go one of the ends is its own and the others are not
  rcases strict_cases ht hu with
    ⟨cause₀, hfails, h⟩ | ⟨hkept, ⟨cause₀, hfails, h⟩ | ⟨hkept', h⟩⟩
  · -- the markup stage fails
    have hresult : (run true).result = .error (.failed .markup cause₀) := (h.perform draw).2
    refine ⟨fun cause => ?_, fun cause => ?_, fun hno => absurd hfails (hno cause₀)⟩
    · rw [hresult, hfails]
      simp
    · rw [hresult, hfails]
      simp
  · -- the code stage fails
    have hresult : (run true).result = .error (.failed .code cause₀) := (h.perform draw).2
    refine ⟨fun cause => ?_, fun cause => ?_, fun _ hno => absurd hfails (hno cause₀)⟩
    · rw [hresult]
      simp [hkept]
    · rw [hresult, hfails]
      simp [hkept]
  · -- neither fails, and the lenient run is the same
    have hlenient := ((accounts_lenient ht hu).perform draw).2
    have hresult : (run true).result = (run false).result :=
      (h.perform draw).2.trans hlenient.symm
    refine ⟨fun cause => ?_, fun cause => ?_, fun _ _ => hresult⟩
    · rw [hresult, hlenient]
      simp [Except.map, hkept]
    · rw [hresult, hlenient]
      simp [Except.map, hkept']

/-- **What a run starts.** A strict run in which the markup stage fails starts nothing else;
any other run gives the document to the markup stage and what that leaves to the code
stage. -/
theorem started_stages (code : Option CodeStage)
    (ht : t = fallback s (markupResult settings markup s)) (draw : Nat) :
    let run := fun strict => perform draw (stages settings markup code strict s)
    (∀ c, markupResult settings markup s = some (.error c) →
        (run true).calls.filterMap Call.started? = [(.markup, s)]) ∧
      ∀ strict, (strict = true → ∀ c, markupResult settings markup s ≠ some (.error c)) →
        (run strict).calls.filterMap Call.started? =
          (if settings.formatHtml then [(.markup, s)] else []) ++
            code.toList.map fun _ => (.code, t) := by
  intro run
  constructor
  · intro c hc
    have hcalls : (run true).calls = [.start .markup s] :=
      ((accounts_stages_of_markup hc).perform draw).1
    rw [hcalls]
    rfl
  · intro strict hno
    cases strict with
    | false =>
      have hcalls : (run false).calls = _ := ((accounts_lenient ht rfl).perform draw).1
      rw [hcalls, started_callsThrough]
    | true =>
      rcases strict_cases ht rfl with ⟨c, hfails, -⟩ | ⟨-, ⟨c, hfails, h⟩ | ⟨-, h⟩⟩
      · exact absurd hfails (hno rfl c)
      · -- the code stage fails, so there is one
        obtain ⟨format, hformat, -⟩ := Option.map_eq_some_iff.mp hfails
        have hcalls : (run true).calls = _ := (h.perform draw).1
        rw [hcalls, List.filterMap_append, started_markup, hformat]
        rfl
      · have hcalls : (run true).calls = _ := (h.perform draw).1
        rw [hcalls, started_callsThrough]

/-- Whoever listens hears the lines of the report, if there is one. -/
theorem told_stages (settings : Settings) (markup : MarkupStage) (code : Option CodeStage)
    (strict : Bool) (s : Text) {draw : Nat} {report : Report}
    (hreport : (perform draw (stages settings markup code strict s)).result = .ok report) :
    (perform draw (stages settings markup code strict s)).calls.filterMap Call.line? =
      report.lines := by
  cases strict with
  | false => exact (accounts_lenient rfl rfl).told hreport
  | true =>
    rcases strict_cases rfl rfl with ⟨_, -, h⟩ | ⟨-, ⟨_, -, h⟩ | ⟨-, h⟩⟩
    all_goals exact h.told hreport

end

end Document

/-- A document that is not excluded, or has no path, goes through its stages. -/
theorem formatDocumentWith_of_included {cwd : Text} {settings : Settings} {root path : Option Text}
    (hpath : path.getD [] = [] ∨ isExcluded cwd settings.exclude root (path.getD []) = .ok false)
    (markup : MarkupStage) (code : Option CodeStage) (strict : Bool) (draw : Nat) (s : Text) :
    formatDocumentWith cwd settings markup code root strict draw path s =
      Document.perform draw (Document.stages settings markup code strict s) := by
  have hincluded : isExcluded cwd settings.exclude root (path.getD []) = .ok false := by
    rcases hpath with hempty | hincluded
    · rw [hempty, isExcluded, List.isEmpty_nil, Bool.or_true]
      rfl
    · exact hincluded
  rw [formatDocumentWith, hincluded]
  rfl

/-- **The stages of a document compose, and one that fails is skipped.** Let `t₁` be the
text as the markup stage leaves it, if that is wanted and succeeds, and `t₂` what the code
stage makes of `t₁`, if there is one and it succeeds. A run that is not strict gives `t₂`,
unless that is the document itself. A strict run ends exactly if a stage fails that it
comes to, in the first such stage, with the failure of that stage as the cause; otherwise
it gives the same report. The markup stage is given the document and the code stage `t₁`,
and nothing is started behind a stage that ends the run. Whoever listens hears the lines
of the report, in order. -/
theorem formatDocument_stages (draws : Draws) (cwd : Text) (settings : Settings)
    (code : Option CodeStage) (root path : Option Text) (draw : Nat) (s : Text)
    (hpath : path.getD [] = [] ∨
      isExcluded cwd settings.exclude root (path.getD []) = .ok false) :
    let run := fun strict => formatDocument draws cwd settings code root strict draw path s
    let markup := (beautify draws draw (.ofRecord settings.html) settings.shortTags s).result
    let t₁ := if settings.formatHtml then markup.toOption.getD s else s
    let t₂ := (code.bind fun format => (format t₁).toOption).getD t₁
    let MarkupFails := fun cause => settings.formatHtml = true ∧ markup = .error cause
    let CodeFails := fun cause => ∃ format, code = some format ∧ format t₁ = .error cause
    (∃ lines, (run false).result = .ok ⟨if t₂ = s then none else some t₂, lines⟩) ∧
      (∀ cause, (run true).result = .error (.failed .markup cause) ↔ MarkupFails cause) ∧
      (∀ cause, (run true).result = .error (.failed .code cause) ↔
        (∀ c, ¬ MarkupFails c) ∧ CodeFails cause) ∧
      ((∀ c, ¬ MarkupFails c) → (∀ c, ¬ CodeFails c) →
        (run true).result = (run false).result) ∧
      (∀ c, MarkupFails c → (run true).calls.filterMap Call.started? = [(.markup, s)]) ∧
      (∀ strict, (strict = true → ∀ c, ¬ MarkupFails c) →
        (run strict).calls.filterMap Call.started? =
          (if settings.formatHtml then [(.markup, s)] else []) ++
            code.toList.map fun _ => (.code, t₁)) ∧
      ∀ strict report, (run strict).result = .ok report →
        (run strict).calls.filterMap Call.line? = report.lines := by
  intro run markup t₁ t₂ MarkupFails CodeFails
  let stage : MarkupStage := beautify draws draw (.ofRecord settings.html) settings.shortTags
  have hrun : ∀ strict, run strict =
      Document.perform draw (Document.stages settings stage code strict s) := fun strict =>
    formatDocumentWith_of_included hpath stage code strict draw s
  -- what the statement calls by name is what the accounts speak of
  have ht₁ : t₁ = Document.fallback s (Document.markupResult settings stage s) := by
    show (if settings.formatHtml then markup.toOption.getD s else s) = _
    rw [Document.markupResult]
    split <;> rfl
  have ht₂ : t₂ = Document.fallback t₁ (Document.codeResult code t₁) := by
    show (code.bind _).getD t₁ = _
    cases code <;> rfl
  have hmarkup : ∀ cause, MarkupFails cause ↔
      Document.markupResult settings stage s = some (.error cause) := by
    intro cause
    show settings.formatHtml = true ∧ markup = .error cause ↔ _
    rw [Document.markupResult]
    split
    · rename_i hwanted
      exact ⟨fun h => congrArg some h.2, fun h => ⟨hwanted, Option.some.inj h⟩⟩
    · rename_i hwanted
      exact ⟨fun h => absurd h.1 hwanted, fun h => nomatch h⟩
  have hcode : ∀ cause, CodeFails cause ↔
      Document.codeResult code t₁ = some (.error cause) := by
    intro cause
    show (∃ format, code = some format ∧ format t₁ = .error cause) ↔ _
    rw [Document.codeResult, Option.map_eq_some_iff]
  -- how the run ends, leniently and strictly, and which stages it starts
  have hlenient := ((Document.accounts_lenient ht₁ ht₂).perform draw).2
  obtain ⟨hmarkupEnd, hcodeEnd, hsame⟩ := Document.result_strict ht₁ ht₂ draw
  obtain ⟨hstartedFails, hstarted⟩ := Document.started_stages code ht₁ draw
  simp only [hmarkup, hcode, hrun]
  exact ⟨⟨_, hlenient⟩, hmarkupEnd, hcodeEnd, hsame, hstartedFails, hstarted,
    fun strict _ => Document.told_stages settings stage code strict s⟩

/-- A strict run that the code stage ends, of a template among files of which others are
excluded. -/
theorem formatDocument_stages_strict :
    let s := "<div><p>x</p></div>".toList
    let t := "<div>\n    <p>x</p>\n</div>".toList
    let settings : Settings := { formatHtml := true, exclude := [.str "vendor/**".toList] }
    let root := "/work".toList
    let path := "views/a.php".toList
    let cause := Failure.outside "ValueError".toList "syntax error".toList
    let run := formatDocument Draws.counter root settings (some fun _ => .error cause) (some root)
      true 0 (some path) s
    isExcluded root settings.exclude (some root) path = .ok false ∧
      run.result = .error (.failed .code cause) ∧
      run.calls.filterMap Call.started? = [(.markup, s), (.code, t)] := by
  intro s t settings root path cause run
  have hincluded : isExcluded root settings.exclude (some root) path = .ok false := by
    decide +kernel
  have hbeautify :
      (beautify Draws.counter 0 (.ofRecord settings.html) settings.shortTags s).result = .ok t := by
    decide +kernel
  obtain ⟨-, -, hcode, -, -, hstarted, -⟩ := formatDocument_stages Draws.counter root settings
    (some fun _ => .error cause) (some root) (some path) 0 s (.inr hincluded)
  rw [hbeautify] at hcode hstarted
  have hkept : ∀ c : Failure, ¬ (settings.formatHtml = true ∧ Except.ok t = .error c) := by
    intro c hc
    exact nomatch hc.2
  exact ⟨hincluded, (hcode cause).mpr ⟨hkept, _, rfl, rfl⟩, hstarted true fun _ => hkept⟩

end TemplateTidy
