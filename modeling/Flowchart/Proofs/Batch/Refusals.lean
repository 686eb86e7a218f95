import Flowchart.Proofs.Batch.Directories
import Flowchart.Proofs.Batch.LogMarks
import Flowchart.Proofs.Batch.PathParts
import Flowchart.Proofs.Batch.ReportTexts
import Flowchart.Proofs.Batch.Work

/-! What breaks a run off, as long as no path holds a null character: a tree that goes too deep, a
line that cannot be shown, a description that cannot be encoded, and a report with a text that no
document can hold. Whatever cannot be read or written is passed over. -/
namespace Flowchart.Batch

namespace Files

private theorem error_of_ensureDir {fs : Files} {path name : List Char}
    {dir : Except Refusal Place} (h : '\x00' ∉ path) {failure : DirectoryFailure}
    (heq : fs.ensureDir path name dir = .error failure) : failure.error ≠ .nullInPath := by
  rw [ensureDir, if_neg (by simpa using h)] at heq
  split at heq
  · cases heq
  · split at heq
    · split at heq
      · cases heq
      · cases heq
        simp
    · cases heq
      simp

private theorem error_of_makeDirsUp {slashes : List Char} (hs : '\x00' ∉ slashes) {fs : Files}
    {names : List (List Char)} (h : ∀ name ∈ names, '\x00' ∉ name) {failure : DirectoryFailure}
    (heq : fs.makeDirsUp slashes names = .error failure) : failure.error ≠ .nullInPath := by
  induction names generalizing failure with
  | nil => cases heq
  | cons name above ih =>
    have hpath : '\x00' ∉ slashes ++ Path.join (name :: above).reverse := by
      rw [List.mem_append, not_or]
      refine ⟨hs, fun hc => ?_⟩
      rcases Path.mem_of_mem_join hc with hc | ⟨part, hpart, hc⟩
      · exact absurd hc (by decide)
      · exact h part (List.mem_reverse.mp hpart) hc
    rw [makeDirsUp] at heq
    split at heq
    · exact error_of_ensureDir hpath heq
    · split at heq
      · exact error_of_ensureDir hpath heq
      · exact error_of_ensureDir hpath heq
      · rename_i failure' hfailure
        cases heq
        exact ih (fun part hpart => h part (List.mem_cons_of_mem name hpart)) hfailure

theorem error_of_makeDirs {fs : Files} {path : List Char} (h : '\x00' ∉ path)
    {failure : DirectoryFailure} (heq : fs.makeDirs path = .error failure) :
    failure.error ≠ .nullInPath := by
  have hslashes : '\x00' ∉ Path.leading path := by
    rw [Path.leading]
    split <;> decide
  have hnames : ∀ name ∈ ((Path.parts path).filter (· ≠ [])).reverse, '\x00' ∉ name :=
    fun name hname hc =>
      h (Path.mem_of_mem_parts (List.mem_of_mem_filter (List.mem_reverse.mp hname)) hc).1
  rw [makeDirs] at heq
  cases hmade : fs.makeDirsUp (Path.leading path)
      ((Path.parts path).filter (· ≠ [])).reverse with
  | error failure' =>
    rw [hmade] at heq
    cases heq
    exact error_of_makeDirsUp hslashes hnames hmade
  | ok made =>
    rw [hmade] at heq
    cases heq

end Files

variable {host : Host} {o : Options}

/-- The first output of a chart can be written up to a description. -/
def Files.TakesBeginning (fs : Files) (o : Options) (script : Script) (c : Chart)
    (u : Unencodable) : Prop :=
  ∃ made written, fs.makeDirs o.outDir.toList = .ok made ∧
    made.write (outputPath o script ".json")
      (.text (c.printUpTo script.path u.before u.id)) = .ok written

/-- The outputs that every chart has can all be written. -/
def Files.Takes (fs : Files) (o : Options) (script : Script) (c : Chart)
    (descriptions : List (String × String)) : Prop :=
  ∃ made, fs.makeDirs o.outDir.toList = .ok made ∧
    (writeAll made (outputs o script c descriptions)).2 = none

/-- The report on a script is asked for, and no document can hold one of its texts. -/
def ReportRefused (host : Host) (o : Options) (script : Script) (c : Chart)
    (descriptions : List (String × String)) : Prop :=
  o.docx = true ∧ ∃ s ∈ Report.texts (.ofList (Path.fileName script.path.toList)) c.nodes c.mermaid
    descriptions, ¬ Report.IsHeld host.hold s

/-- The ways in which to store a chart breaks a run off. -/
inductive StoreBreaksOff (host : Host) (o : Options) (script : Script) (c : Chart)
    (descriptions : Descriptions) (fs : Files) : Prop
  | unencodable {u} : descriptions.encode = .error u → fs.TakesBeginning o script c u →
      StoreBreaksOff host o script c descriptions fs
  | report {texts} : descriptions.encode = .ok texts → fs.Takes o script c texts →
      ReportRefused host o script c texts → StoreBreaksOff host o script c descriptions fs

/-- The ways in which a turn breaks a run off. -/
inductive Turn.BreaksOff (host : Host) (o : Options) (t : Turn) : Prop
  /-- A line that comes before the chart is stored cannot be shown. -/
  | line {line fault} : line ∈ scriptLines host o t.start.files t.script →
      host.progress o line = some fault → BreaksOff host o t
  /-- The tree of the script goes too deep. -/
  | tooDeep {message} : GoesTooDeep host o.view t.start.files t.script message →
      BreaksOff host o t
  /-- The line on a description that has failed cannot be shown. -/
  | description {text c fault} : chart? host o.view t.start.files t.script = some (text, c) →
      t.start.described host o text c = .error fault → BreaksOff host o t
  /-- A description cannot be encoded, or a document cannot hold a text of the report. -/
  | chart {text c descriptions} : chart? host o.view t.start.files t.script = some (text, c) →
      t.start.described host o text c = .ok descriptions →
      StoreBreaksOff host o t.script c descriptions t.start.files → BreaksOff host o t
  /-- All is written, and the line that tells this cannot be shown. -/
  | summary {text c descriptions fault} :
      chart? host o.view t.start.files t.script = some (text, c) →
      t.start.described host o text c = .ok descriptions →
      (store host o t.script c descriptions t.start.files).2 = .written →
      host.progress o (summary t.script.path c.diagram) = some fault → BreaksOff host o t
  /-- The work has failed, and the warning of this cannot be shown. -/
  | failure {e fault} : (t.worked host o).2 = .failed e →
      host.progress o (failureLine t.script e) = some fault → BreaksOff host o t

theorem exists_reports_iff {script : Script} {c : Chart} {descriptions : List (String × String)} :
    (∃ more, reports host o script c descriptions = .ok more) ↔
      ¬ ReportRefused host o script c descriptions := by
  rw [ReportRefused]
  by_cases hdocx : o.docx = true
  · simp only [hdocx, true_and, not_exists, not_and, not_not]
    rw [← Report.exists_blocks_iff c.stats]
    simp only [reports, if_pos hdocx]
    cases Report.blocks host.hold (.ofList (Path.fileName script.path.toList)) c.nodes c.stats
      c.mermaid descriptions with
    | error e => simp
    | ok blocks => exact ⟨fun _ => ⟨blocks, rfl⟩, fun _ => ⟨_, rfl⟩⟩
  · rw [reports, if_neg hdocx]
    exact ⟨fun _ h => absurd h.1 hdocx, fun _ => ⟨[], rfl⟩⟩

theorem writeOutputs_abort?_eq_none_iff {script : Script} {c : Chart}
    {descriptions : List (String × String)} {fs : Files} :
    (writeOutputs host o script c descriptions fs).2.abort? = none ↔
      ((writeAll fs (outputs o script c descriptions)).2 = none →
        ¬ ReportRefused host o script c descriptions) := by
  rw [writeOutputs, ← exists_reports_iff]
  obtain ⟨fs', failure⟩ := writeAll fs (outputs o script c descriptions)
  cases failure with
  | some e => simp [Outcome.abort?]
  | none =>
    rw [forall_prop_of_true rfl]
    cases reports host o script c descriptions with
    | error message => simp [Outcome.abort?]
    | ok more =>
      refine ⟨fun _ => ⟨more, rfl⟩, fun _ => ?_⟩
      dsimp only
      obtain ⟨fs'', failure⟩ := writeAll fs' more
      cases failure <;> rfl

theorem writeBeginning_abort?_eq_none_iff {script : Script} {c : Chart} {u : Unencodable}
    {fs : Files} :
    (writeBeginning o script c u fs).2.abort? = none ↔
      ∀ written, fs.write (outputPath o script ".json")
        (.text (c.printUpTo script.path u.before u.id)) ≠ .ok written := by
  rw [writeBeginning]
  cases fs.write (outputPath o script ".json") (.text (c.printUpTo script.path u.before u.id)) with
  | error e => simp [Outcome.abort?]
  | ok written => simp [Outcome.abort?]

/-- To store a chart breaks a run off in these ways and in no other. -/
theorem store_abort?_eq_none_iff (hdir : '\x00' ∉ o.outDir.toList) {script : Script} {c : Chart}
    {descriptions : Descriptions} {fs : Files} :
    (store host o script c descriptions fs).2.abort? = none ↔
      ¬ StoreBreaksOff host o script c descriptions fs := by
  rw [store]
  cases hmade : fs.makeDirs o.outDir.toList with
  | error failure =>
    obtain ⟨e, made⟩ := failure
    have hrefused : e.outcome.abort? = none := by
      cases e with
      | nullInPath => exact absurd rfl (Files.error_of_makeDirs hdir hmade)
      | refused e => rfl
    refine iff_of_true hrefused ?_
    rintro (⟨-, made, _, hok, -⟩ | ⟨-, ⟨made, hok, -⟩, -⟩)
    · cases hmade.symm.trans hok
    · cases hmade.symm.trans hok
  | ok made =>
    cases hencode : descriptions.encode with
    | error u =>
      dsimp only
      rw [writeBeginning_abort?_eq_none_iff]
      constructor
      · rintro h (⟨hu, _, written, hok, hwritten⟩ | ⟨htexts, -, -⟩)
        · cases hencode.symm.trans hu
          cases hmade.symm.trans hok
          exact h written hwritten
        · cases hencode.symm.trans htexts
      · exact fun h written hwritten => h (.unencodable hencode ⟨made, written, hmade, hwritten⟩)
    | ok texts =>
      dsimp only
      rw [writeOutputs_abort?_eq_none_iff]
      constructor
      · rintro h (⟨hu, -⟩ | ⟨htexts, ⟨_, hok, htakes⟩, hrefused⟩)
        · cases hencode.symm.trans hu
        · cases hencode.symm.trans htexts
          cases hmade.symm.trans hok
          exact h htakes hrefused
      · exact fun h htakes hrefused => h (.report hencode ⟨made, hmade, htakes⟩ hrefused)

namespace Turn

private theorem not_breaksOff (hdir : '\x00' ∉ o.outDir.toList) {t : Turn}
    (h : (t.outcome host o).abort? = none) : ¬ t.BreaksOff host o := by
  obtain ⟨hworked, htold⟩ := t.abort?_eq_none_iff_worked.mp h
  obtain ⟨hlines, hproceed⟩ := abort?_process_eq_none_iff.mp hworked
  intro hbreaks
  cases hbreaks with
  | line hline hfault => exact absurd ((hlines _ hline).symm.trans hfault) (by simp)
  | tooDeep hdeep =>
    rw [proceed_of_goesTooDeep _ hdeep] at hproceed
    cases hproceed
  | description hchart hfault =>
    rw [proceed_of_chart hchart] at hproceed
    obtain ⟨_, hdescribed, -, -⟩ := abort?_deliver_eq_none_iff.mp hproceed
    cases hfault.symm.trans hdescribed
  | chart hchart hdescribed hstore =>
    rw [proceed_of_chart hchart] at hproceed
    obtain ⟨_, hdescribed', hstored, -⟩ := abort?_deliver_eq_none_iff.mp hproceed
    cases hdescribed.symm.trans hdescribed'
    exact (store_abort?_eq_none_iff hdir).mp hstored hstore
  | summary hchart hdescribed hwritten hfault =>
    rw [proceed_of_chart hchart] at hproceed
    obtain ⟨_, hdescribed', -, hsummary⟩ := abort?_deliver_eq_none_iff.mp hproceed
    cases hdescribed.symm.trans hdescribed'
    exact absurd ((hsummary hwritten).symm.trans hfault) (by simp)
  | failure hfailed hfault => exact absurd ((htold _ hfailed).symm.trans hfault) (by simp)

private theorem abort?_proceed_eq_none (hdir : '\x00' ∉ o.outDir.toList) {t : Turn}
    (h : ¬ t.BreaksOff host o) : (proceed host o t.start.files t.script
      (t.start.logged (scriptLines host o t.start.files t.script))).2.abort? = none := by
  cases hchart : chart? host o.view t.start.files t.script with
  | none =>
    obtain ⟨outcome, heq, houtcome⟩ := proceed_of_no_chart
      (t.start.logged (scriptLines host o t.start.files t.script)) hchart
    rw [heq]
    rcases houtcome with rfl | ⟨e, rfl⟩ | ⟨message, hdeep, rfl⟩
    · rfl
    · rfl
    · exact absurd (.tooDeep hdeep) h
  | some found =>
    obtain ⟨text, c⟩ := found
    rw [proceed_of_chart hchart, abort?_deliver_eq_none_iff]
    cases hdescribed : t.start.described host o text c with
    | error fault => exact absurd (.description hchart hdescribed) h
    | ok descriptions =>
      refine ⟨descriptions, hdescribed, ?_, fun hwritten => ?_⟩
      · exact (store_abort?_eq_none_iff hdir).mpr fun hstore => h (.chart hchart hdescribed hstore)
      · exact Option.eq_none_iff_forall_ne_some.mpr fun fault hfault =>
          h (.summary hchart hdescribed hwritten hfault)

/-- A turn breaks a run off in these ways and in no other. -/
theorem abort?_eq_none_iff (hdir : '\x00' ∉ o.outDir.toList) (t : Turn) :
    (t.outcome host o).abort? = none ↔ ¬ t.BreaksOff host o := by
  refine ⟨not_breaksOff hdir, fun h => t.abort?_eq_none_iff_worked.mpr ⟨?_, fun e he => ?_⟩⟩
  · refine abort?_process_eq_none_iff.mpr ⟨fun line hline => ?_, abort?_proceed_eq_none hdir h⟩
    exact Option.eq_none_iff_forall_ne_some.mpr fun fault hfault => h (.line hline hfault)
  · exact Option.eq_none_iff_forall_ne_some.mpr fun fault hfault => h (.failure he hfault)

end Turn

theorem scriptsAt_ne_error (fs : Files) {path : List Char} (h : '\x00' ∉ path) :
    ∃ scripts, scriptsAt fs path = .ok scripts := by
  rw [scriptsAt]
  split
  · exact ⟨_, rfl⟩
  · rw [if_neg (by simpa using h)]
    exact ⟨_, rfl⟩

/-- A run that breaks off does so in the first turn that has a reason to, or at its very end. -/
theorem stopped_of_run_eq_error (hdir : '\x00' ∉ o.outDir.toList) {replies : List Reply}
    {fs : Files} {scripts : List Script} (hscripts : scriptsAt fs o.path.toList = .ok scripts)
    {b : Break} (h : run host replies o fs = .error b) :
    let taken := turns host o scripts (.initial replies o fs)
    (∃ before t later, taken = before ++ t :: later ∧ (∀ t ∈ before, ¬ t.BreaksOff host o) ∧
      t.BreaksOff host o ∧ b.state = t.finish host o) ∨
    (∀ t ∈ taken, ¬ t.BreaksOff host o) ∧
      b.state = afterAll host o scripts (.initial replies o fs) := by
  intro taken
  rw [run_eq hscripts, processAll_eq] at h
  have hgoes (t : Turn) : t.break? host o = none ↔ ¬ t.BreaksOff host o :=
    t.break?_eq_none_iff.trans (t.abort?_eq_none_iff hdir)
  split at h
  · rename_i b' hfirst
    obtain rfl : b' = b := Except.error.inj h
    obtain ⟨before, t, later, heq, hb, hbefore⟩ := List.findSome?_eq_some_iff.mp hfirst
    refine .inl ⟨before, t, later, heq, fun t' ht' => (hgoes t').mp (hbefore t' ht'), ?_, ?_⟩
    · by_contra hnot
      exact absurd (((hgoes t).mpr hnot).symm.trans hb) (by simp)
    · obtain ⟨a, -, rfl⟩ := Option.map_eq_some_iff.mp hb
      rfl
  · rename_i hnone
    refine .inr ⟨fun t ht => (hgoes t).mp (List.findSome?_eq_none_iff.mp hnone t ht), ?_⟩
    rw [Except.bind, conclude] at h
    split at h
    · exact congrArg Break.state (Except.error.inj h).symm
    · cases h

/-- A run gives a result just when no turn breaks it off and its last lines can be shown. It has
then taken every script in its turn, and has warned of each one that failed before it went on to the
next. A run that breaks off in a turn takes none of the scripts behind it. -/
theorem run_goes_on (host : Host) (replies : List Reply) (o : Options) (fs : Files)
    (hpath : '\x00' ∉ o.path.toList) (hdir : '\x00' ∉ o.outDir.toList) :
    ∃ scripts, scriptsAt fs o.path.toList = .ok scripts ∧
      let taken := turns host o scripts (.initial replies o fs)
      let last := afterAll host o scripts (.initial replies o fs)
      taken.map (·.script) = scripts ∧
      ((∃ r, run host replies o fs = .ok r) ↔
        (∀ t ∈ taken, ¬ t.BreaksOff host o) ∧ host.ShowsEnd o last.done) ∧
      (∀ r, run host replies o fs = .ok r → r = last.result o ∧
        r.log.filter LogLine.isMark = taken.flatMap (Turn.marks host o)) ∧
      ∀ b, run host replies o fs = .error b →
        (∃ before t later, taken = before ++ t :: later ∧ (∀ t ∈ before, ¬ t.BreaksOff host o) ∧
          t.BreaksOff host o ∧ b.state = t.finish host o) ∨
        (∀ t ∈ taken, ¬ t.BreaksOff host o) ∧ b.state = last := by
  obtain ⟨scripts, hscripts⟩ := scriptsAt_ne_error fs hpath
  refine ⟨scripts, hscripts, map_script_turns .., ?_, fun r hr => ?_, fun b hb => ?_⟩
  · simp only [run_eq_ok_iff hscripts, Turn.abort?_eq_none_iff hdir, exists_and_left, exists_eq',
      and_true]
  · obtain ⟨hgoes, -, rfl⟩ := (run_eq_ok_iff hscripts).mp hr
    exact ⟨rfl, marks_result hgoes⟩
  · exact stopped_of_run_eq_error hdir hscripts hb

section

/-- A link that leads nowhere and two scripts, the first of them with a form feed between its
parameters. -/
def threeScripts : Files where
  cwd := ["work".toList]
  items := [
    (["work".toList], .directory),
    (["work".toList, "s".toList], .directory),
    (["work".toList, "s".toList, "a.js".toList], .link "gone.js".toList),
    (["work".toList, "s".toList, "b.js".toList], .file (.text "function f(a,\x0cb) \x7b\x7d")),
    (["work".toList, "s".toList, "c.js".toList], .file (.text "function f(a, b) \x7b\x7d"))]

/-- The tree of both scripts. -/
def functionTree : Tree :=
  let mark (type : String) (start stop : Int) (field : Option String) : Mark :=
    ⟨type, true, false, false, ⟨start, stop⟩, field⟩
  .node (mark "program" 0 19 none) [
    .node (mark "function_declaration" 0 19 none) [
      .node (mark "identifier" 9 10 (some "name")) [],
      .node (mark "formal_parameters" 10 16 (some "parameters")) [],
      .node (mark "statement_block" 17 19 (some "body")) []]]

/-- Each text has this tree. -/
def functionHost : Host where
  parse := fun _ => functionTree

def namedScript (name : String) : Script :=
  ⟨"s/" ++ name ++ ".js", name⟩

private theorem scriptsAt_threeScripts :
    scriptsAt threeScripts "s".toList =
      .ok [namedScript "a", namedScript "b", namedScript "c"] := by
  have hnames : threeScripts.namesIn ["work".toList, "s".toList] =
      ["a.js".toList, "b.js".toList, "c.js".toList] :=
    List.mergeSort_of_pairwise (l := ["a.js".toList, "b.js".toList, "c.js".toList]) (by decide)
  have hplace : threeScripts.locate .lookUp "s".toList = .ok ["work".toList, "s".toList] :=
    (Files.placeOf?_eq_some_iff.mp (by decide)).1
  have hbelow : threeScripts.filesBelow "s".toList =
      ["s/a.js".toList, "s/b.js".toList, "s/c.js".toList] := by
    rw [Files.filesBelow, hplace]
    simp only [Files.walk, hnames]
    decide
  rw [scriptsAt, if_neg (by decide), if_neg (by decide), hbelow]
  exact congrArg Except.ok (by decide)

/-- What is said of a text with control characters. -/
def controlMessage : String :=
  "All strings must be XML compatible: Unicode or ASCII, no NULL bytes or control characters"

/-- Documents that hold every text but those with a form feed. -/
def feedless : Host where
  __ := functionHost
  hold := fun s => if s.toList.contains '\x0c' then .error controlMessage else .ok s

def threeOptions (docx : Bool) : Options :=
  { path := "s", outDir := "/work/o", docx }

/-- The marks of a turn in which there is no file. -/
def missingMarks : List LogLine := [
  .progress (openingLine (namedScript "a")),
  .progress "[WARN] Failed to process s/a.js: [Errno 2] No such file or directory: 's/a.js'"]

/-- A script that cannot be read is passed over. -/
theorem run_goes_on_deadLink :
    ∃ r, run feedless [] (threeOptions false) threeScripts = .ok r ∧
      r.log.filter LogLine.isMark = missingMarks ++ [
        .progress (openingLine (namedScript "b")),
        .progress (openingLine (namedScript "c"))] := by
  obtain ⟨scripts, hscripts, -, hends, hresult, -⟩ := run_goes_on feedless [] (threeOptions false)
    threeScripts (by decide) (by decide)
  obtain rfl := Except.ok.inj (hscripts.symm.trans scriptsAt_threeScripts)
  have hnone : ∀ t ∈ turns feedless (threeOptions false)
      [namedScript "a", namedScript "b", namedScript "c"]
      (.initial [] (threeOptions false) threeScripts),
      (t.outcome feedless (threeOptions false)).abort? = none := by decide +kernel
  obtain ⟨r, hr⟩ := hends.mpr
    ⟨fun t ht => (t.abort?_eq_none_iff (by decide)).mp (hnone t ht), rfl, rfl⟩
  exact ⟨r, hr, (hresult r hr).2.trans (by decide +kernel)⟩

/-- The report on the second script is refused, and the third script is never taken. -/
theorem run_breaks_off :
    scriptsAt threeScripts "s".toList = .ok [namedScript "a", namedScript "b", namedScript "c"] ∧
      ∃ s, run feedless [] (threeOptions true) threeScripts =
          .error ⟨.report controlMessage, s⟩ ∧
        s.marks = missingMarks ++ [.progress (openingLine (namedScript "b"))] := by
  refine ⟨scriptsAt_threeScripts, ?_⟩
  have hfirst : ((turns feedless (threeOptions true)
      [namedScript "a", namedScript "b", namedScript "c"]
      (.initial [] (threeOptions true) threeScripts)).findSome?
      (Turn.break? feedless (threeOptions true))).map
      (fun b => (b.abort, b.state.marks)) = some (.report controlMessage,
        missingMarks ++ [.progress (openingLine (namedScript "b"))]) := by decide +kernel
  obtain ⟨⟨a, s⟩, hb, heq⟩ := Option.map_eq_some_iff.mp hfirst
  obtain ⟨rfl, hmarks⟩ := Prod.mk.inj heq
  refine ⟨s, ?_, hmarks⟩
  rw [run_eq scriptsAt_threeScripts, processAll_eq, hb]
  rfl

end

end Flowchart.Batch
