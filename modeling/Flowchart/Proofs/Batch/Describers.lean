import Flowchart.Proofs.Batch.AlikeTurns
import Flowchart.Proofs.Batch.Refusals
import Flowchart.Proofs.Json.Beginnings

/-! Runs of one batch with different describers, or none. -/
namespace Flowchart.Batch

section

variable {host : Host} {o : Options} {fs : Files}

/-- The reason for a run to break off is a description. -/
def BreaksOnDescription {α : Type} (result : Except Break α) : Prop :=
  ∃ b, result = .error b ∧ b.abort.IsDescription

/-- Two runs end alike, or break off for one reason and in alike files. -/
inductive ResultAlike {α : Type} (r : α → α → Prop) : Except Break α → Except Break α → Prop
  | ended {a a' : α} (h : r a a') : ResultAlike r (.ok a) (.ok a')
  | broken (a : Abort) {s s' : State} (h : s.files.Alike s'.files) :
      ResultAlike r (.error ⟨a, s⟩) (.error ⟨a, s'⟩)

section

variable (hshows : host.ShowsTexts) (hdocx : o.docx = false) (hobjects : ReadsObjects host)

include hshows hdocx hobjects

theorem processAll_alike (scripts : List Script) {s s' : State} (h : s.Alike s') :
    BreaksOnDescription (processAll host o scripts s) ∨
      BreaksOnDescription (processAll host o scripts s') ∨
      ResultAlike State.Alike (processAll host o scripts s) (processAll host o scripts s') := by
  induction scripts generalizing s s' with
  | nil => exact .inr (.inr (.ended h))
  | cons script rest ih =>
    have hturn : Turn.Alike ⟨script, s⟩ ⟨script, s'⟩ := ⟨rfl, h⟩
    rw [processAll_cons, processAll_cons, Turn.break?, Turn.break?]
    rcases hturn.finish hshows hdocx hobjects with ⟨a, ha, hover⟩ | ⟨a, ha, hover⟩ | ⟨hsame, hnext⟩
    · refine .inl ?_
      rw [Option.mem_def.mp ha]
      exact ⟨_, rfl, hover⟩
    · refine .inr (.inl ?_)
      rw [Option.mem_def.mp ha]
      exact ⟨_, rfl, hover⟩
    · rw [hsame]
      cases (Turn.outcome host o ⟨script, s'⟩).abort? with
      | none => exact ih hnext
      | some a => exact .inr (.inr (.broken a hnext.files))

/-- Turns that all go on are alike, and so is what they write. -/
theorem filterMap_writes?_alike (scripts : List Script) {s s' : State} (h : s.Alike s')
    (hgoes : ∀ t ∈ turns host o scripts s, (t.outcome host o).abort? = none)
    (hgoes' : ∀ t ∈ turns host o scripts s', (t.outcome host o).abort? = none) :
    List.Forall₂ (List.Forall₂ (OutputAlike o))
      ((turns host o scripts s).filterMap (Turn.writes? host o))
      ((turns host o scripts s').filterMap (Turn.writes? host o)) := by
  induction scripts generalizing s s' with
  | nil => exact .nil
  | cons script rest ih =>
    have hturn : Turn.Alike ⟨script, s⟩ ⟨script, s'⟩ := ⟨rfl, h⟩
    rw [turns] at hgoes hgoes' ⊢
    rw [turns, List.filterMap_cons, List.filterMap_cons]
    obtain ⟨hfirst, hrest⟩ := List.forall_mem_cons.mp hgoes
    obtain ⟨hfirst', hrest'⟩ := List.forall_mem_cons.mp hgoes'
    have hnext : (Turn.finish host o ⟨script, s⟩).Alike (Turn.finish host o ⟨script, s'⟩) := by
      rcases hturn.finish hshows hdocx hobjects with ⟨a, ha, -⟩ | ⟨a, ha, -⟩ | ⟨-, hnext⟩
      · exact absurd (hfirst.symm.trans ha) (by simp)
      · exact absurd (hfirst'.symm.trans ha) (by simp)
      · exact hnext
    have hlater := ih hnext hrest hrest'
    have hwrites := hturn.writes? hdocx hobjects hfirst hfirst'
    generalize Turn.writes? host o ⟨script, s⟩ = ws at hwrites ⊢
    generalize Turn.writes? host o ⟨script, s'⟩ = ws' at hwrites ⊢
    cases hwrites with
    | none => exact hlater
    | some hw => exact .cons hw hlater

end

/-- How a turn breaks off over a description of its chart. It writes nothing, or the first output up
to the description that cannot be encoded. -/
inductive Turn.BreaksOver (host : Host) (o : Options) (t : Turn) : Abort → Prop
  | fault {text c fault} : chart? host o.view t.start.files t.script = some (text, c) →
      t.start.described host o text c = .error fault →
      (t.finish host o).files = t.start.files → BreaksOver host o t (.description fault)
  | cut {text c descriptions u made} :
      chart? host o.view t.start.files t.script = some (text, c) →
      t.start.described host o text c = .ok descriptions → descriptions.encode = .error u →
      t.start.files.makeDirs o.outDir.toList = .ok made →
      made.write (outputPath o t.script ".json")
        (.text (c.printUpTo t.script.path u.before u.id)) = .ok (t.finish host o).files →
      BreaksOver host o t (.unencodable u)

theorem store_of_isDescription {script : Script} {c : Chart} {descriptions : Descriptions}
    {a : Abort} (hdocx : o.docx = false)
    (h : (store host o script c descriptions fs).2 = .aborted a) (hover : a.IsDescription) :
    ∃ u made, descriptions.encode = .error u ∧ a = .unencodable u ∧
      fs.makeDirs o.outDir.toList = .ok made ∧
      made.write (outputPath o script ".json") (.text (c.printUpTo script.path u.before u.id)) =
        .ok (store host o script c descriptions fs).1 := by
  cases hmade : fs.makeDirs o.outDir.toList with
  | error failure =>
    obtain ⟨e, made⟩ := failure
    rw [store_of_error host script c descriptions hmade] at h
    cases e with
    | nullInPath =>
      cases h
      exact absurd hover id
    | refused e => cases h
  | ok made =>
    cases hencode : descriptions.encode with
    | ok texts =>
      rw [store_of_encoded host script c descriptions hmade hdocx hencode] at h
      cases hfailure : (writeAll made (outputs o script c texts)).2 with
      | none =>
        rw [hfailure] at h
        cases h
      | some e =>
        rw [hfailure] at h
        cases h
    | error u =>
      cases hjson : made.write (outputPath o script ".json") (.text "") with
      | error e =>
        rw [store_of_refused host script c descriptions hmade hjson] at h
        cases h
      | ok written =>
        obtain ⟨cut, hcut, hstore⟩ :=
          store_of_unencodable host script c descriptions hmade hencode hjson
        rw [hstore] at h ⊢
        cases h
        exact ⟨u, made, rfl, rfl, rfl, hcut⟩

theorem Turn.breaksOver_of_isDescription (hshows : host.ShowsTexts) (hdocx : o.docx = false)
    (t : Turn) {a : Abort} (h : t.outcome host o = .aborted a) (hover : a.IsDescription) :
    t.BreaksOver host o a := by
  have hfiles : (t.finish host o).files = (t.worked host o).1.files := t.files_finish
  obtain ⟨hworked, houtcome⟩ := t.worked_of_showsTexts hshows (o := o)
  rw [houtcome, hworked] at h
  rw [hworked] at hfiles
  cases hchart : chart? host o.view t.start.files t.script with
  | none =>
    obtain ⟨outcome, heq, hcases⟩ := proceed_of_no_chart
      (t.start.logged (scriptLines host o t.start.files t.script)) hchart
    rw [heq] at h
    rcases hcases with rfl | ⟨e, rfl⟩ | ⟨message, -, rfl⟩
    · cases h
    · cases h
    · cases h
      exact absurd hover id
  | some found =>
    obtain ⟨text, c⟩ := found
    rw [proceed_of_chart hchart] at h hfiles
    cases hdescribed : t.start.described host o text c with
    | error fault =>
      rw [deliver_of_fault (by rwa [State.described_logged])] at h hfiles
      cases h
      exact .fault hchart hdescribed hfiles
    | ok descriptions =>
      obtain ⟨hstored, -, hsame⟩ := deliver_of_showsTexts hshows t.script
        (s := t.start.logged (scriptLines host o t.start.files t.script))
        (by rwa [State.described_logged])
      rw [hsame] at h
      obtain ⟨u, made, hencode, rfl, hmade, hcut⟩ := store_of_isDescription hdocx h hover
      refine .cut hchart hdescribed hencode hmade (hcut.trans ?_)
      rw [hfiles, hstored]

theorem Turn.not_isDescription_of_no_describer (hshows : host.ShowsTexts) (hdocx : o.docx = false)
    {t : Turn} (h : t.start.describer = none) : ¬ (t.outcome host o).IsDescription := by
  rintro ⟨a, ha, hover⟩
  have hout := Outcome.abort?_eq_some_iff.mp ha
  cases t.breaksOver_of_isDescription hshows hdocx hout hover with
  | fault _ hdescribed => cases (t.start.described_of_none h _ _).symm.trans hdescribed
  | cut _ hdescribed hencode =>
    cases (t.start.described_of_none h _ _).symm.trans hdescribed
    cases hencode

/-- The same options but for the model. -/
def Options.withModel (o : Options) (m : Option ModelSettings) : Options :=
  { o with model := m }

theorem processAll_withModel (m : Option ModelSettings) (scripts : List Script) (s : State) :
    processAll host (o.withModel m) scripts s = processAll host o scripts s := by
  induction scripts generalizing s with
  | nil => rfl
  | cons script rest ih => exact (processAll_cons ..).trans (by rw [processAll_cons, ih]; rfl)

theorem turns_withModel (m : Option ModelSettings) (scripts : List Script) (s : State) :
    turns host (o.withModel m) scripts s = turns host o scripts s := by
  induction scripts generalizing s with
  | nil => rfl
  | cons script rest ih => exact congrArg _ (ih _)

theorem runWrites_withModel (m : Option ModelSettings) (replies : List Reply) (fs : Files)
    (scripts : List Script) :
    runWrites host replies (o.withModel m) fs scripts =
      (turns host o scripts (.initial replies (o.withModel m) fs)).filterMap
        (Turn.writes? host o) := by
  rw [runWrites, turns_withModel]
  rfl

/-- Alike files, and the same last line, which tells how many charts were written. -/
structure Result.Alike (r r' : Result) : Prop where
  files : r.files.Alike r'.files
  lastLine : r.log.getLast? = r'.log.getLast?

theorem State.Alike.result {s s' : State} (h : s.Alike s') (m m' : Option ModelSettings) :
    Result.Alike (s.result (o.withModel m)) (s'.result (o.withModel m')) := by
  refine ⟨h.files, ?_⟩
  rw [State.result, State.result, h.done]
  rw [List.getLast?_append_of_ne_nil _ (List.cons_ne_nil _ _),
    List.getLast?_append_of_ne_nil _ (List.cons_ne_nil _ _)]
  rfl

section

variable {scripts : List Script} (hshows : host.ShowsTexts)
  (hscripts : scriptsAt fs o.path.toList = .ok scripts) (replies : List Reply)
  (m : Option ModelSettings)

include hshows hscripts

/-- A run with a model, or without one. -/
theorem run_withModel : run host replies (o.withModel m) fs =
    (processAll host o scripts (.initial replies (o.withModel m) fs)).map
      (State.result (o.withModel m)) := by
  rw [run_eq (o := o.withModel m) hscripts, processAll_withModel]
  cases processAll host o scripts (.initial replies (o.withModel m) fs) with
  | error b => rfl
  | ok s => exact conclude_eq_ok_iff.mpr ⟨hshows.showsEnd s.done, rfl⟩

/-- A run that breaks off over a description does so in one of its turns. -/
theorem exists_breaksOver_of_run (hdocx : o.docx = false) {b : Break}
    (h : run host replies (o.withModel m) fs = .error b) (hover : b.abort.IsDescription) :
    ∃ before t later, turns host o scripts (.initial replies (o.withModel m) fs) =
        before ++ t :: later ∧
      t.BreaksOver host o b.abort ∧ b.state = t.finish host o := by
  rw [run_withModel hshows hscripts, processAll_eq] at h
  split at h
  · rename_i b' hfirst
    obtain rfl : b' = b := Except.error.inj h
    obtain ⟨before, t, later, heq, hb, -⟩ := List.findSome?_eq_some_iff.mp hfirst
    obtain ⟨a, ha, rfl⟩ := Option.map_eq_some_iff.mp hb
    exact ⟨before, t, later, heq, t.breaksOver_of_isDescription hshows hdocx
      (Outcome.abort?_eq_some_iff.mp ha) hover, rfl⟩
  · cases h

end

theorem not_breaksOnDescription_of_no_model (hshows : host.ShowsTexts) (hdocx : o.docx = false)
    (scripts : List Script) {s : State} (h : s.describer = none) :
    ¬ BreaksOnDescription (processAll host o scripts s) := by
  induction scripts generalizing s with
  | nil => rintro ⟨b, hb, -⟩; cases hb
  | cons script rest ih =>
    rw [processAll_cons, Turn.break?]
    cases ha : (Turn.outcome host o ⟨script, s⟩).abort? with
    | none => exact ih (Turn.describer_finish h)
    | some a =>
      rintro ⟨b, hb, hover⟩
      cases hb
      exact Turn.not_isDescription_of_no_describer hshows hdocx h ⟨a, ha, hover⟩

theorem breaksOnDescription_map {α β : Type} {result : Except Break α} {f : α → β} :
    BreaksOnDescription (result.map f) ↔ BreaksOnDescription result := by
  cases result with
  | error b => simp [BreaksOnDescription, Except.map]
  | ok a => simp [BreaksOnDescription, Except.map]

theorem run_of_scriptsAt_eq_error (host : Host) {a : Abort}
    (h : scriptsAt fs o.path.toList = .error a) (replies : List Reply) (m : Option ModelSettings) :
    a = .nullInPath ∧ run host replies (o.withModel m) fs =
      .error ⟨a, .initial replies (o.withModel m) fs⟩ := by
  refine ⟨?_, by simp only [run, Options.withModel, h]⟩
  rw [scriptsAt] at h
  split at h
  · cases h
  · split at h
    · exact (Except.error.inj h).symm
    · cases h

theorem ResultAlike.result {ended ended' : Except Break State}
    (h : ResultAlike State.Alike ended ended') (m m' : Option ModelSettings) :
    ResultAlike Result.Alike (ended.map (State.result (o.withModel m)))
      (ended'.map (State.result (o.withModel m'))) := by
  cases h with
  | ended h => exact .ended (h.result m m')
  | broken a h => exact .broken a h

theorem run_breaksOnDescription_or_alike (hshows : host.ShowsTexts) (hdocx : o.docx = false)
    (hobjects : ReadsObjects host) (m m' : Option ModelSettings) (replies replies' : List Reply) :
    BreaksOnDescription (run host replies (o.withModel m) fs) ∨
      BreaksOnDescription (run host replies' (o.withModel m') fs) ∨
      ResultAlike Result.Alike (run host replies (o.withModel m) fs)
        (run host replies' (o.withModel m') fs) := by
  have hstart : (State.initial replies (o.withModel m) fs).Alike
      (State.initial replies' (o.withModel m') fs) := ⟨.refl fs, rfl⟩
  cases hscripts : scriptsAt fs o.path.toList with
  | error a =>
    have hbreaks := run_of_scriptsAt_eq_error host hscripts
    rw [(hbreaks replies m).2, (hbreaks replies' m').2]
    exact .inr (.inr (.broken a hstart.files))
  | ok scripts =>
    rw [run_withModel hshows hscripts replies m, run_withModel hshows hscripts replies' m',
      breaksOnDescription_map, breaksOnDescription_map]
    exact (processAll_alike hshows hdocx hobjects scripts hstart).imp_right
      (·.imp_right (·.result m m'))

theorem run_not_breaksOnDescription_of_no_model (hshows : host.ShowsTexts)
    (hdocx : o.docx = false) (replies : List Reply) :
    ¬ BreaksOnDescription (run host replies (o.withModel none) fs) := by
  cases hscripts : scriptsAt fs o.path.toList with
  | error a =>
    obtain ⟨rfl, hbreaks⟩ := run_of_scriptsAt_eq_error host hscripts replies none
    rw [hbreaks]
    rintro ⟨b, hb, hover⟩
    cases hb
    exact hover
  | ok scripts =>
    rw [run_withModel hshows hscripts replies none, breaksOnDescription_map]
    exact not_breaksOnDescription_of_no_model hshows hdocx scripts rfl

/-- Two runs that differ in the model and its replies only, or in that there is one, end alike and
write alike outputs to the same paths, unless one of them breaks off over a description. A run
without a model does not. One that does leaves the outputs of the scripts in front, and of the
script with the description nothing but the beginning of its first output. -/
theorem run_alike (host : Host) (hshows : host.ShowsTexts) (hobjects : ReadsObjects host)
    (o : Options) (hdocx : o.docx = false) (fs : Files) (m m' : Option ModelSettings)
    (replies replies' : List Reply) :
    let first := run host replies (o.withModel m) fs
    let second := run host replies' (o.withModel m') fs
    (BreaksOnDescription first ∨ BreaksOnDescription second ∨
      ResultAlike Result.Alike first second) ∧
    (m = none → ¬ BreaksOnDescription first) ∧
    (∀ scripts, scriptsAt fs o.path.toList = .ok scripts →
      let writes := runWrites host replies (o.withModel m) fs scripts
      let writes' := runWrites host replies' (o.withModel m') fs scripts
      (∀ r r', first = .ok r → second = .ok r' →
        List.Forall₂ (List.Forall₂ (OutputAlike o)) writes writes' ∧
        r.files = writes.foldl (Files.takeUp o) fs ∧
        r'.files = writes'.foldl (Files.takeUp o) fs) ∧
      ∀ b, first = .error b → b.abort.IsDescription →
        ∃ before t later, turns host o scripts (.initial replies (o.withModel m) fs) =
            before ++ t :: later ∧
          t.BreaksOver host o b.abort ∧ b.state = t.finish host o) ∧
    ∀ (c : Chart) (fileName : String) (before : List (String × String)) (id text : String)
      (after : List (String × String)), (c.printUpTo fileName before id).toList <+:
        (c.toJson fileName (before ++ (id, text) :: after)).print.toList := by
  intro first second
  refine ⟨run_breaksOnDescription_or_alike hshows hdocx hobjects m m' replies replies', ?_,
    fun scripts hscripts => ⟨fun r r' hr hr' => ⟨?_, ?_, ?_⟩, fun b hb hover => ?_⟩,
    Chart.printUpTo_prefix⟩
  · rintro rfl
    exact run_not_breaksOnDescription_of_no_model hshows hdocx replies
  · have hgoes := ((run_eq_ok_iff (o := o.withModel m) hscripts).mp hr).1
    have hgoes' := ((run_eq_ok_iff (o := o.withModel m') hscripts).mp hr').1
    rw [turns_withModel] at hgoes hgoes'
    rw [runWrites_withModel, runWrites_withModel]
    exact filterMap_writes?_alike hshows hdocx hobjects scripts ⟨.refl fs, rfl⟩ hgoes hgoes'
  · exact files_of_run_eq_ok (o := o.withModel m) hdocx hscripts hr
  · exact files_of_run_eq_ok (o := o.withModel m') hdocx hscripts hr'
  · exact exists_breaksOver_of_run hshows hscripts replies m hdocx hb hover

end

section

theorem head?_print_obj (members : List (String × Json)) :
    (Json.obj members).print.toList.head? = some '\x7b' := by
  rw [Json.print, Json.printAt, Json.enclose]
  split <;> simp [String.toList_append]

/-- Finds one function in a certain script, and nothing in other texts. -/
def parseOneFunction (text : String) : Tree :=
  if text = "function f(a, b) \x7b\x7d" then functionTree
  else .node ⟨"program", true, false, false, ⟨0, 0⟩, none⟩ []

def oneFunctionHost : Host where
  parse := parseOneFunction

theorem readsObjects_oneFunctionHost : ReadsObjects oneFunctionHost := by
  intro members _
  have hne : (Json.obj members).print ≠ "function f(a, b) \x7b\x7d" := by
    intro heq
    have hhead := head?_print_obj members
    rw [heq] at hhead
    exact absurd hhead (by decide)
  have hparse : oneFunctionHost.parse (Json.obj members).print =
      .node ⟨"program", true, false, false, ⟨0, 0⟩, none⟩ [] := if_neg hne
  rw [hparse]
  exact .inr ⟨⟨rfl, fun s hs => absurd hs List.not_mem_nil⟩, fun _ => rfl⟩

def oneScript : Files where
  cwd := ["work".toList]
  items := [
    (["work".toList], .directory),
    (["work".toList, "a.js".toList], .file (.text "function f(a, b) \x7b\x7d"))]

def oneOptions : Options :=
  { path := "a.js", outDir := "/work/o" }

def someModel : ModelSettings :=
  { model := some "m" }

private theorem scriptsAt_oneScript :
    scriptsAt oneScript "a.js".toList = .ok [⟨"/work/a.js", "a"⟩] := by
  decide +kernel

/-- One script charted without a model, and with one that is asked once and answers. -/
theorem run_alike_oneScript :
    ∃ r r', run oneFunctionHost [] (oneOptions.withModel none) oneScript = .ok r ∧
      run oneFunctionHost [.content (some "Does nothing.")] (oneOptions.withModel someModel)
        oneScript = .ok r' ∧
      r.files.Alike r'.files ∧ r'.model.map (·.2.length) = some 1 ∧
      r'.files.isFile "/work/o/a.json".toList = true ∧
      r'.files.isFile "/work/o/a.mmd".toList = true := by
  have hends {replies : List Reply} {m : Option ModelSettings} {r : Result} :=
    (@run_eq_ok_iff oneFunctionHost (oneOptions.withModel m) replies oneScript _ r
      scriptsAt_oneScript).mpr
  have hr := @hends [] none _ ⟨by decide +kernel, ⟨rfl, rfl⟩, rfl⟩
  have hr' := @hends [.content (some "Does nothing.")] (some someModel) _
    ⟨by decide +kernel, ⟨rfl, rfl⟩, rfl⟩
  obtain ⟨hcases, -⟩ := run_alike oneFunctionHost (fun _ => rfl) readsObjects_oneFunctionHost
    oneOptions rfl oneScript none (some someModel) [] [.content (some "Does nothing.")]
  refine ⟨_, _, hr, hr', ?_, by decide +kernel⟩
  rw [hr, hr'] at hcases
  rcases hcases with ⟨b, hb, -⟩ | ⟨b, hb, -⟩ | halike
  · cases hb
  · cases hb
  · cases halike with
    | ended halike => exact halike.files

def firstSurrogate : Fin 0x800 :=
  ⟨0, by decide⟩

/-- A surrogate behind some characters. -/
def brokenAnswer : WideText :=
  WideText.ofString "ok " ++ [.surrogate firstSurrogate]

/-- The run without a model writes both outputs. The one with a model breaks off over its answer,
and of the second output there is nothing. -/
theorem run_breaks_off_over_answer :
    (∃ r, run oneFunctionHost [] (oneOptions.withModel none) oneScript = .ok r ∧
      r.files.isFile "/work/o/a.json".toList = true ∧
      r.files.isFile "/work/o/a.mmd".toList = true) ∧
    ∃ s, run oneFunctionHost [.content (some brokenAnswer)] (oneOptions.withModel someModel)
        oneScript =
          .error ⟨.unencodable ⟨[], "node_0", ⟨"ok ".toList, [firstSurrogate]⟩⟩, s⟩ ∧
      s.files.isFile "/work/o/a.json".toList = true ∧
      s.files.isFile "/work/o/a.mmd".toList = false := by
  constructor
  · refine ⟨_, (run_eq_ok_iff (o := oneOptions.withModel none) scriptsAt_oneScript).mpr
      ⟨by decide +kernel, ⟨rfl, rfl⟩, rfl⟩, by decide +kernel⟩
  · have hfirst : ((turns oneFunctionHost (oneOptions.withModel someModel) [⟨"/work/a.js", "a"⟩]
        (.initial [.content (some brokenAnswer)] (oneOptions.withModel someModel)
          oneScript)).findSome?
        (Turn.break? oneFunctionHost (oneOptions.withModel someModel))).map
        (fun b => (b.abort, b.state.files.isFile "/work/o/a.json".toList,
          b.state.files.isFile "/work/o/a.mmd".toList)) =
        some (.unencodable ⟨[], "node_0", ⟨"ok ".toList, [firstSurrogate]⟩⟩, true, false) := by
      decide +kernel
    obtain ⟨⟨a, s⟩, hb, heq⟩ := Option.map_eq_some_iff.mp hfirst
    obtain ⟨rfl, hfiles⟩ := Prod.mk.inj heq
    refine ⟨s, ?_, Prod.mk.inj hfiles⟩
    rw [run_eq (o := oneOptions.withModel someModel) scriptsAt_oneScript, processAll_eq, hb]
    rfl

end

end Flowchart.Batch
