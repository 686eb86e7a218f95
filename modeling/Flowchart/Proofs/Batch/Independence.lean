import Flowchart.Proofs.Batch.Describers
import Flowchart.Proofs.Batch.Filling
import Flowchart.Proofs.Batch.OutputCount
import Flowchart.Proofs.Batch.ScriptOrder
import Flowchart.Proofs.Batch.Writes

/-! A batch without reports and descriptions charts each script on its own: what it writes for one
does not depend on the others. -/
namespace Flowchart.Batch

variable {host : Host} {o : Options}

/-- What a view shows of a script: nothing if it cannot be read or has a fault. -/
def shownOf (host : Host) (view : View) (fs : Files) (script : Script) :
    List FlowNode :=
  match fs.read script.path.toList with
  | .error _ => []
  | .ok bytes =>
    let text := scriptText bytes
    let t := host.parse (.ofList text)
    if t.hasFault then [] else view.apply (extract { text } t)

/-- The scripts that there is something to show of. -/
def chartedAmong (host : Host) (o : Options) (fs : Files) (scripts : List Script) :
    List Script :=
  scripts.filter fun script => shownOf host o.view fs script ≠ []

/-- The outputs for a script on its own. -/
def contribution (host : Host) (o : Options) (fs : Files) (script : Script) :
    List (List Char × Content) :=
  outputs o script (.ofNodes o.view (shownOf host o.view fs script)) []

section

variable {fs : Files} {script : Script} {bytes : List UInt8}

theorem View.apply_nil (view : View) : view.apply [] = [] := by
  cases view <;> rfl

theorem examine_eq_chart_iff {view : View} {text : List Char} {c : Chart} :
    let t := host.parse (.ofList text)
    examine host view text = .chart c ↔ t.hasFault = false ∧
      host.tooDeep? view (.ofList text) = none ∧ extract { text } t ≠ [] ∧
      view.apply (extract { text } t) ≠ [] ∧
      .ofNodes view (view.apply (extract { text } t)) = c := by
  intro t
  rw [examine, Tree.check]
  cases hfault : t.hasFault with
  | true => simp [t]
  | false =>
    rw [if_neg (by simp)]
    cases host.tooDeep? view (.ofList text) with
    | some message => simp
    | none =>
      simp only [List.isEmpty_iff, true_and]
      split
      · rename_i hnone
        simp [t, hnone]
      · rename_i hsome
        split
        · rename_i hhidden
          simp [t, hhidden]
        · rename_i hshown
          simp [t, hsome, hshown]

theorem tooDeep?_of_examine {view : View} {text : List Char} {message : String}
    (h : examine host view text = .tooDeep message) :
    host.tooDeep? view (.ofList text) = some message := by
  rw [examine] at h
  split at h
  · cases h
  · split at h
    · rename_i hdeep
      cases h
      exact hdeep
    · dsimp only at h
      split at h
      · cases h
      · split at h <;> cases h

theorem goesTooDeep_congr {fs' : Files} {view : View} {message : String}
    (h : fs'.read script.path.toList = fs.read script.path.toList) :
    GoesTooDeep host view fs' script message ↔ GoesTooDeep host view fs script message := by
  rw [GoesTooDeep, GoesTooDeep, h]

/-- There is room for the tree of a script that has no fault and does not go too deep. -/
theorem tooDeep?_eq_none (hread : fs.read script.path.toList = .ok bytes) {view : View}
    (hdeep : ∀ message, ¬ GoesTooDeep host view fs script message)
    (hfault : (host.parse (.ofList (scriptText bytes))).hasFault = false) :
    host.tooDeep? view (.ofList (scriptText bytes)) = none := by
  refine Option.eq_none_iff_forall_ne_some.mpr fun message hmessage => ?_
  refine hdeep message ⟨bytes, hread, ?_⟩
  rw [examine, Tree.check, if_neg (by simp [hfault])]
  simp only [hmessage]

/-- There are three ways in which there is nothing to show. -/
theorem shownOf_eq_nil_iff (hread : fs.read script.path.toList = .ok bytes) (view : View) :
    let text := scriptText bytes
    let t := host.parse (.ofList text)
    shownOf host view fs script = [] ↔ t.hasFault = true ∨ extract { text } t = [] ∨
      view.apply (extract { text } t) = [] := by
  intro text t
  have hshown : shownOf host view fs script =
      if t.hasFault then [] else view.apply (extract { text } t) := by
    rw [shownOf, hread]
  rw [hshown]
  split
  · rename_i hfault
    exact iff_of_true rfl (.inl hfault)
  · rename_i hfault
    refine ⟨fun h => .inr (.inr h), ?_⟩
    rintro (h | h | h)
    · exact absurd h hfault
    · rw [h, View.apply_nil]
    · exact h

theorem chart?_congr {fs' : Files} {view : View}
    (h : fs'.read script.path.toList = fs.read script.path.toList) :
    chart? host view fs' script = chart? host view fs script := by
  rw [chart?, chart?, h]

/-- Without anything to show there is no chart. -/
theorem chart?_of_shown_eq_nil {view : View} (h : shownOf host view fs script = []) :
    chart? host view fs script = none := by
  cases hread : fs.read script.path.toList with
  | error e => rw [chart?, hread]
  | ok bytes =>
    have hcases := (shownOf_eq_nil_iff hread view).mp h
    simp only [chart?, hread]
    split
    · rename_i c hchart
      obtain ⟨hfault, -, hsome, hshown, -⟩ := examine_eq_chart_iff.mp hchart
      rcases hcases with hcase | hcase | hcase
      · rw [hfault] at hcase
        cases hcase
      · exact absurd hcase hsome
      · exact absurd hcase hshown
    · rfl

/-- The chart of a script is that of its own nodes. -/
theorem chart?_of_shown_ne_nil {view : View} (hread : fs.read script.path.toList = .ok bytes)
    (hdeep : ∀ message, ¬ GoesTooDeep host view fs script message)
    (h : shownOf host view fs script ≠ []) :
    chart? host view fs script =
      some (scriptText bytes, .ofNodes view (shownOf host view fs script)) := by
  obtain ⟨hfault, hrest⟩ := not_or.mp ((shownOf_eq_nil_iff hread view).not.mp h)
  obtain ⟨hsome, hshown⟩ := not_or.mp hrest
  rw [Bool.not_eq_true] at hfault
  have hnone := tooDeep?_eq_none hread hdeep hfault
  simp only [chart?, shownOf, hread,
    examine_eq_chart_iff.mpr ⟨hfault, hnone, hsome, hshown, rfl⟩, hfault]
  rfl

/-- A script that can be read and that there is nothing to show of is done with. -/
theorem proceed_of_shown_eq_nil {s : State} (hread : fs.read script.path.toList = .ok bytes)
    (hdeep : ∀ message, ¬ GoesTooDeep host o.view fs script message)
    (h : chart? host o.view fs script = none) : proceed host o fs script s = (s, .nothing) := by
  simp only [chart?, proceed, hread] at h ⊢
  generalize hfinding : examine host o.view (scriptText bytes) = finding at h ⊢
  cases finding with
  | chart c => cases h
  | tooDeep message => exact absurd ⟨bytes, hread, hfinding⟩ (hdeep message)
  | faulty e => rfl
  | noFlow => rfl
  | nothingShown => rfl

end

section

/-- The places of the outputs for some scripts. -/
def Files.outputPlaces (made : Files) (o : Options) (charted : List Script) : Set Place :=
  {q | ∃ script ∈ charted, ∃ extension ∈ chartExtensions,
    made.locate .makeFile (outputPath o script extension) = .ok q}

/-- The output directory can be made, and the outputs for the scripts that have a chart can be
written to files, none of which is a script that is read later. -/
structure Files.TakesOutputs (fs made : Files) (o : Options) (scripts charted : List Script) :
    Prop where
  makeDirs : fs.makeDirs o.outDir.toList = .ok made
  found : ∀ script ∈ charted, ∀ extension ∈ chartExtensions,
    ∃ q, made.locate .makeFile (outputPath o script extension) = .ok q
  free : ∀ q ∈ made.outputPlaces o charted, made.IsFree q
  apart : scripts.Pairwise fun earlier later => earlier ∈ charted →
    ∀ q ∈ made.outputPlaces o [earlier], fs.locate .lookUp later.path.toList ≠ .ok q

/-- No two names of outputs lead to one file. -/
def Files.NamesApart (made : Files) (o : Options) (charted : List Script) : Prop :=
  ∀ script ∈ charted, ∀ script' ∈ charted,
    ∀ extension ∈ chartExtensions, ∀ extension' ∈ chartExtensions,
    made.locate .makeFile (outputPath o script extension) =
      made.locate .makeFile (outputPath o script' extension') →
    script.base = script'.base ∧ extension = extension'

variable {fs made : Files} {scripts charted before : List Script} {script : Script} {s : State}

theorem Files.outputPlaces_mono {charted' : List Script}
    (h : ∀ script ∈ charted, script ∈ charted') :
    made.outputPlaces o charted ⊆ made.outputPlaces o charted' :=
  fun _ ⟨script, hscript, hfound⟩ => ⟨script, h script hscript, hfound⟩

theorem mem_chartedAmong : script ∈ chartedAmong host o fs scripts ↔
    script ∈ scripts ∧ shownOf host o.view fs script ≠ [] := by
  rw [chartedAmong, List.mem_filter, decide_eq_true_iff]

/-- A script is none of the files that were written before it. -/
theorem Files.TakesOutputs.locate_ne
    (htakes : fs.TakesOutputs made o scripts (chartedAmong host o fs scripts))
    {rest : List Script} (hsplit : scripts = before ++ script :: rest) :
    ∀ q ∈ made.outputPlaces o (chartedAmong host o fs before),
      fs.locate .lookUp script.path.toList ≠ .ok q := by
  rintro q ⟨earlier, hearlier, hfound⟩
  obtain ⟨hbefore, hshown⟩ := mem_chartedAmong.mp hearlier
  have hmem : earlier ∈ scripts := by
    rw [hsplit]
    exact List.mem_append_left _ hbefore
  have hapart := htakes.apart
  rw [hsplit] at hapart
  refine (List.pairwise_append.mp hapart).2.2 earlier hbefore script List.mem_cons_self ?_ q
    ⟨earlier, List.mem_singleton_self earlier, hfound⟩
  rw [← hsplit]
  exact mem_chartedAmong.mpr ⟨hmem, hshown⟩

/-- A turn does what its script, as it was at the start, calls for on its own. -/
structure Turn.IsOwn (host : Host) (o : Options) (fs : Files) (t : Turn) : Prop where
  skipped : shownOf host o.view fs t.script = [] → t.outcome host o = .nothing ∧
    t.writes? host o = none ∧ (t.finish host o).files = t.start.files
  charted : shownOf host o.view fs t.script ≠ [] → t.outcome host o = .written ∧
    t.writes? host o = some (contribution host o fs t.script)

/-- The scripts can be read, their trees do not go too deep, and the lines of the batch can be
shown. -/
structure Host.Serves (host : Host) (o : Options) (fs : Files) (scripts : List Script) : Prop where
  showsTexts : host.ShowsTexts
  reads : ∀ script ∈ scripts, (∃ bytes, fs.read script.path.toList = .ok bytes) ∧
    ∀ message, ¬ GoesTooDeep host o.view fs script message

/-- Where a batch stands after some scripts. -/
structure Standing (host : Host) (o : Options) (fs made : Files)
    (before : List Script) (s : State) : Prop where
  describer : s.describer = none
  done : s.done = (chartedAmong host o fs before).length
  files : chartedAmong host o fs before = [] ∧ s.files = fs ∨
    chartedAmong host o fs before ≠ [] ∧
      Files.Filled (made.outputPlaces o (chartedAmong host o fs before)) made s.files ∧
      writeAll made ((chartedAmong host o fs before).flatMap (contribution host o fs)) =
        (s.files, none)

theorem Standing.files_of_nil (h : Standing host o fs made before s)
    (hempty : chartedAmong host o fs before = []) : s.files = fs := by
  rcases h.files with ⟨-, hfiles⟩ | ⟨hsome, -⟩
  · exact hfiles
  · exact absurd hempty hsome

theorem Standing.filled (h : Standing host o fs made before s)
    (hsome : chartedAmong host o fs before ≠ []) :
    Files.Filled (made.outputPlaces o (chartedAmong host o fs before)) made s.files ∧
      writeAll made ((chartedAmong host o fs before).flatMap (contribution host o fs)) =
        (s.files, none) := by
  rcases h.files with ⟨hempty, -⟩ | ⟨-, hrest⟩
  · exact absurd hempty hsome
  · exact hrest

theorem chartedAmong_concat_of_eq_nil (h : shownOf host o.view fs script = []) :
    chartedAmong host o fs (before ++ [script]) = chartedAmong host o fs before := by
  simp [chartedAmong, h]

theorem chartedAmong_concat_of_ne_nil (h : shownOf host o.view fs script ≠ []) :
    chartedAmong host o fs (before ++ [script]) = chartedAmong host o fs before ++ [script] := by
  simp [chartedAmong, h]

/-- A script is read as it was at the start. -/
theorem Standing.read (h : Standing host o fs made before s)
    (hnormal : Path.IsNormal o.outDir.toList) (hmade : fs.makeDirs o.outDir.toList = .ok made)
    (hapart : ∀ q ∈ made.outputPlaces o (chartedAmong host o fs before),
      fs.locate .lookUp script.path.toList ≠ .ok q)
    {bytes : List UInt8} (hread : fs.read script.path.toList = .ok bytes) :
    s.files.read script.path.toList = .ok bytes := by
  rcases h.files with ⟨-, hfiles⟩ | ⟨-, hfilled, -⟩
  · rw [hfiles, hread]
  · obtain ⟨_, -, hgrows⟩ := Files.isDirectoryAt_of_makeDirs hnormal hmade
    obtain ⟨q, hfound, hfound', hread'⟩ := Files.read_of_makeDirs hmade hgrows hread
    rw [hfilled.read (fun hq => hapart q hq hfound) hfound', hread']

/-- The directory of the outputs is made for the first chart, and is there for the others. -/
theorem Standing.makeDirs (h : Standing host o fs made before s)
    (hnormal : Path.IsNormal o.outDir.toList) (hmade : fs.makeDirs o.outDir.toList = .ok made) :
    ∃ base, s.files.makeDirs o.outDir.toList = .ok base ∧
      Files.Filled (made.outputPlaces o (chartedAmong host o fs before)) made base ∧
      writeAll made ((chartedAmong host o fs before).flatMap (contribution host o fs)) =
        (base, none) := by
  rcases h.files with ⟨hnone, hfiles⟩ | ⟨-, hfilled, hwritten⟩
  · rw [hnone]
    refine ⟨made, hfiles ▸ hmade, .refl ?_, rfl⟩
    rintro q ⟨script, hscript, -⟩
    exact absurd hscript List.not_mem_nil
  · obtain ⟨place, hdir, -⟩ := Files.isDirectoryAt_of_makeDirs hnormal hmade
    exact ⟨s.files, (hdir.grows hfilled.grows).makeDirs hnormal
      (Files.null_not_mem_of_makeDirs hnormal hmade), hfilled, hwritten⟩

theorem Files.TakesOutputs.leadInto (htakes : fs.TakesOutputs made o scripts charted)
    (hscript : script ∈ charted) {written : List Script} (hwritten : script ∈ written) (c : Chart)
    (descriptions : List (String × String)) :
    made.LeadInto (made.outputPlaces o written) (outputs o script c descriptions) := by
  have hlead : ∀ extension ∈ chartExtensions, ∃ q ∈ made.outputPlaces o written,
      made.locate .makeFile (outputPath o script extension) = .ok q := fun extension hext => by
    obtain ⟨q, hfound⟩ := htakes.found script hscript extension hext
    exact ⟨q, ⟨script, hwritten, extension, hext, hfound⟩, hfound⟩
  exact List.forall_mem_cons.mpr ⟨hlead ".json" (by decide),
    List.forall_mem_singleton.mpr (hlead ".mmd" (by decide))⟩

theorem exists_extension_of_mem_outputs {c : Chart} {descriptions : List (String × String)}
    {w : List Char × Content} (hw : w ∈ outputs o script c descriptions) :
    ∃ extension ∈ chartExtensions, w.1 = outputPath o script extension := by
  rcases List.mem_pair.mp hw with rfl | rfl
  · exact ⟨".json", by decide, rfl⟩
  · exact ⟨".mmd", by decide, rfl⟩

/-- The outputs for a script with a chart are stored on top of those for the scripts in front. -/
theorem Standing.stores (h : Standing host o fs made before s)
    (htakes : fs.TakesOutputs made o scripts (chartedAmong host o fs scripts))
    (hnormal : Path.IsNormal o.outDir.toList) (hdocx : o.docx = false) {rest : List Script}
    (hsplit : scripts = before ++ script :: rest)
    (hshown : shownOf host o.view fs script ≠ []) :
    let c : Chart := .ofNodes o.view (shownOf host o.view fs script)
    let charted := chartedAmong host o fs (before ++ [script])
    ∃ base stored, s.files.makeDirs o.outDir.toList = .ok base ∧
      writeAll base (outputs o script c []) = (stored, none) ∧
      store host o script c [] s.files = (stored, .written) ∧
      Files.Filled (made.outputPlaces o charted) made stored ∧
      writeAll made (charted.flatMap (contribution host o fs)) = (stored, none) := by
  intro c charted
  have hconcat : charted = chartedAmong host o fs before ++ [script] :=
    chartedAmong_concat_of_ne_nil hshown
  have hcharted : ∀ other ∈ charted, other ∈ chartedAmong host o fs scripts :=
    fun other hother => by
      obtain ⟨hmem, hother⟩ := mem_chartedAmong.mp hother
      refine mem_chartedAmong.mpr ⟨?_, hother⟩
      rw [hsplit, List.append_cons before script rest]
      exact List.mem_append_left rest hmem
  have hscript : script ∈ charted := by
    rw [hconcat]
    exact List.mem_append_right _ (List.mem_singleton_self script)
  obtain ⟨base, hmade, hfilled, hbefore⟩ := h.makeDirs hnormal htakes.makeDirs
  have hbase : Files.Filled (made.outputPlaces o charted) made base := by
    refine hfilled.mono ?_ fun q hq => htakes.free q (Files.outputPlaces_mono hcharted hq)
    rw [hconcat]
    exact Files.outputPlaces_mono fun _ => List.mem_append_left _
  obtain ⟨stored, hall, hfilled', -⟩ := hbase.writeAll (htakes.leadInto (hcharted _ hscript)
    hscript c [])
  refine ⟨base, stored, hmade, hall, ?_, hfilled', ?_⟩
  · rw [store_of_encoded host script c [] hmade hdocx rfl, hall]
    rfl
  · rw [hconcat, List.flatMap_append, List.flatMap_singleton, Files.writeAll_append made hbefore]
    exact hall

section

variable (hshows : host.ShowsTexts) {bytes : List UInt8}
  (hread : fs.read script.path.toList = .ok bytes)
  (hread' : s.files.read script.path.toList = .ok bytes)
  (hdeep : ∀ message, ¬ GoesTooDeep host o.view fs script message)

include hshows hread hread' hdeep

/-- The turn of a script that there is nothing to show of changes no file. -/
theorem Standing.skip (h : Standing host o fs made before s)
    (hshown : shownOf host o.view fs script = []) :
    let t : Turn := ⟨script, s⟩
    t.outcome host o = .nothing ∧ t.writes? host o = none ∧
      (t.finish host o).files = s.files ∧
      Standing host o fs made (before ++ [script]) (t.finish host o) := by
  intro t
  have hchart : chart? host o.view s.files script = none :=
    (chart?_congr (hread'.trans hread.symm)).trans (chart?_of_shown_eq_nil hshown)
  obtain ⟨hworked, houtcome⟩ := t.worked_of_showsTexts hshows (o := o)
  have hdeep' (message : String) : ¬ GoesTooDeep host o.view s.files script message :=
    mt (goesTooDeep_congr (hread'.trans hread.symm)).mp (hdeep message)
  rw [proceed_of_shown_eq_nil hread' hdeep' hchart] at hworked
  rw [hworked] at houtcome
  have hfiles : (t.finish host o).files = s.files := by
    rw [Turn.files_finish, hworked]
    rfl
  refine ⟨houtcome, ?_, hfiles, Turn.describer_finish h.describer, ?_, ?_⟩
  · simp only [Turn.writes?, t, hchart, Option.map_none]
  · rw [Turn.done_finish, houtcome, if_neg (by simp), h.done, chartedAmong_concat_of_eq_nil hshown]
    rfl
  · rw [hfiles, chartedAmong_concat_of_eq_nil hshown]
    exact h.files

/-- The turn of a script with a chart writes its outputs, which are what they would be for the
script alone. -/
theorem Standing.chart (h : Standing host o fs made before s)
    (htakes : fs.TakesOutputs made o scripts (chartedAmong host o fs scripts))
    (hnormal : Path.IsNormal o.outDir.toList) (hdocx : o.docx = false) {rest : List Script}
    (hsplit : scripts = before ++ script :: rest)
    (hshown : shownOf host o.view fs script ≠ []) :
    let t : Turn := ⟨script, s⟩
    t.outcome host o = .written ∧ t.writes? host o = some (contribution host o fs script) ∧
      Standing host o fs made (before ++ [script]) (t.finish host o) := by
  intro t
  let c : Chart := .ofNodes o.view (shownOf host o.view fs script)
  have hchart : chart? host o.view s.files script = some (scriptText bytes, c) :=
    (chart?_congr (hread'.trans hread.symm)).trans (chart?_of_shown_ne_nil hread hdeep hshown)
  obtain ⟨base, stored, hmade, hall, hstore, hfilled, hwritten⟩ :=
    h.stores htakes hnormal hdocx hsplit hshown
  have hdescribed : s.described host o (scriptText bytes) c = .ok [] :=
    s.described_of_none h.describer (scriptText bytes) c
  have hworked : t.worked host o = _ := (t.worked_of_showsTexts hshows (o := o)).1
  rw [proceed_of_chart hchart] at hworked
  obtain ⟨hfiles, -, hout⟩ := deliver_of_showsTexts hshows script
    (s := s.logged (scriptLines host o s.files script)) hdescribed
  rw [s.files_logged, hstore] at hfiles hout
  have houtcome : t.outcome host o = .written := by
    rw [(t.worked_of_showsTexts hshows (o := o)).2, hworked]
    exact hout
  have hstored : (t.finish host o).files = stored := by
    rw [Turn.files_finish, hworked]
    exact hfiles
  have hconcat : chartedAmong host o fs (before ++ [script]) =
      chartedAmong host o fs before ++ [script] := chartedAmong_concat_of_ne_nil hshown
  refine ⟨houtcome, ?_, Turn.describer_finish h.describer, ?_, .inr ⟨?_, ?_, ?_⟩⟩
  · simp only [Turn.writes?, t, hchart, Option.map_some, hdescribed]
    rw [chartWrites_of_encoded script c [] hmade rfl, writesOf_eq_self hall]
    rfl
  · rw [Turn.done_finish, if_pos houtcome, h.done, hconcat, List.length_append,
      List.length_singleton]
  · rw [hconcat]
    exact List.concat_ne_nil _ _
  · rw [hstored]
    exact hfilled
  · rw [hstored]
    exact hwritten

end

/-- The turns of a batch write the outputs of each script with a chart, one after the other. -/
theorem Standing.afterAll (hshows : host.ShowsTexts)
    (htakes : fs.TakesOutputs made o scripts (chartedAmong host o fs scripts))
    (hnormal : Path.IsNormal o.outDir.toList) (hdocx : o.docx = false) {rest : List Script}
    (hsplit : scripts = before ++ rest)
    (hread : ∀ script ∈ rest, (∃ bytes, fs.read script.path.toList = .ok bytes) ∧
      ∀ message, ¬ GoesTooDeep host o.view fs script message)
    (h : Standing host o fs made before s) :
    (∀ t ∈ turns host o rest s, t.IsOwn host o fs) ∧
      Standing host o fs made scripts (afterAll host o rest s) := by
  induction rest generalizing before s with
  | nil =>
    rw [List.append_nil] at hsplit
    exact ⟨by simp [turns], hsplit ▸ h⟩
  | cons script rest ih =>
    obtain ⟨⟨⟨bytes, hbytes⟩, hdeep⟩, hread⟩ := List.forall_mem_cons.mp hread
    have hbytes' := h.read hnormal htakes.makeDirs (htakes.locate_ne hsplit) hbytes
    have hsplit' : scripts = (before ++ [script]) ++ rest := hsplit.trans (List.append_cons _ _ _)
    rw [turns, afterAll_cons]
    by_cases hshown : shownOf host o.view fs script = []
    · obtain ⟨houtcome, hwrites, hfiles, hnext⟩ := h.skip hshows hbytes hbytes' hdeep hshown
      obtain ⟨hturns, hafter⟩ := ih hsplit' hread hnext
      exact ⟨List.forall_mem_cons.mpr
        ⟨⟨fun _ => ⟨houtcome, hwrites, hfiles⟩, (absurd hshown ·)⟩, hturns⟩, hafter⟩
    · obtain ⟨houtcome, hwrites, hnext⟩ :=
        h.chart hshows hbytes hbytes' hdeep htakes hnormal hdocx hsplit hshown
      obtain ⟨hturns, hafter⟩ := ih hsplit' hread hnext
      exact ⟨List.forall_mem_cons.mpr
        ⟨⟨(absurd · hshown), fun _ => ⟨houtcome, hwrites⟩⟩, hturns⟩, hafter⟩

theorem Turn.IsOwn.abort? {t : Turn} (h : t.IsOwn host o fs) :
    (t.outcome host o).abort? = none := by
  by_cases hshown : shownOf host o.view fs t.script = []
  · rw [(h.skipped hshown).1]
    rfl
  · rw [(h.charted hshown).1]
    rfl

theorem runWrites_eq {replies : List Reply}
    (hturns : ∀ t ∈ turns host o scripts (.initial replies o fs), t.IsOwn host o fs) :
    runWrites host replies o fs scripts =
      (chartedAmong host o fs scripts).map (contribution host o fs) := by
  let own (script : Script) : Option (List (List Char × Content)) :=
    if shownOf host o.view fs script = [] then none else some (contribution host o fs script)
  have hown : ∀ t ∈ turns host o scripts (.initial replies o fs), t.writes? host o =
      (own ∘ Turn.script) t := by
    intro t ht
    by_cases hshown : shownOf host o.view fs t.script = []
    · rw [((hturns t ht).skipped hshown).2.1]
      exact (if_pos hshown).symm
    · rw [((hturns t ht).charted hshown).2]
      exact (if_neg hshown).symm
  have hcharted (scripts : List Script) :
      scripts.filterMap own = (chartedAmong host o fs scripts).map (contribution host o fs) := by
    induction scripts with
    | nil => rfl
    | cons script rest ih =>
      rw [chartedAmong] at ih ⊢
      by_cases hshown : shownOf host o.view fs script = []
      · rw [List.filter_cons_of_neg (by simp [hshown]), ← ih]
        exact List.filterMap_cons_none (if_pos hshown)
      · rw [List.filter_cons_of_pos (by simp [hshown]), List.map_cons, ← ih]
        exact List.filterMap_cons_some (if_neg hshown)
  rw [runWrites, List.filterMap_congr hown, ← List.filterMap_map, map_script_turns, hcharted]

/-- An output of the last script with its name is left as it was written. -/
theorem Files.TakesOutputs.read_last (htakes : fs.TakesOutputs made o scripts charted)
    (hnames : made.NamesApart o charted) {final : Files}
    (hfilled : Files.Filled (made.outputPlaces o charted) made final)
    (hwritten : writeAll made (charted.flatMap (contribution host o fs)) = (final, none))
    {after : List Script} (hsplit : charted = before ++ script :: after)
    (hafter : ∀ other ∈ after, other.base ≠ script.base) {extension : String}
    (hext : extension ∈ chartExtensions) {text : String}
    {front back : List (List Char × Content)}
    (hcontribution : contribution host o fs script =
      front ++ (outputPath o script extension, .text text) :: back)
    (hback : ∀ w ∈ back, ∃ other ∈ chartExtensions, other ≠ extension ∧
      w.1 = outputPath o script other) :
    final.read (outputPath o script extension) = .ok (Utf8.encode text.toList) := by
  have hscript : script ∈ charted := hsplit ▸ List.mem_append_right _ List.mem_cons_self
  obtain ⟨place, hfound⟩ := htakes.found script hscript extension hext
  have hall : charted.flatMap (contribution host o fs) =
      (before.flatMap (contribution host o fs) ++ front) ++
        (outputPath o script extension, .text text) ::
          (back ++ after.flatMap (contribution host o fs)) := by
    rw [hsplit, List.flatMap_append, List.flatMap_cons, hcontribution]
    simp only [List.append_assoc, List.cons_append]
  have hlead : made.LeadInto (made.outputPlaces o charted)
      (charted.flatMap (contribution host o fs)) := by
    intro w hw
    obtain ⟨other, hother, hw⟩ := List.mem_flatMap.mp hw
    exact htakes.leadInto hother hother _ _ w hw
  rw [hall] at hwritten hlead
  have hitem := (Files.Filled.refl htakes.free).item?_writeAll hlead hfound ?_ hwritten
  · exact Files.read_eq_of_item? (hfilled.locate (Files.locate_lookUp hfound)) hitem
  -- No other output that is written later has the same name.
  intro w hw hsame
  rcases List.mem_append.mp hw with hw | hw
  · obtain ⟨other, hother, hne, hpath⟩ := hback w hw
    rw [hpath] at hsame
    exact hne (hnames script hscript script hscript other hother extension hext
      (hsame.trans hfound.symm)).2
  · obtain ⟨later, hlater, hw⟩ := List.mem_flatMap.mp hw
    have hlater' : later ∈ charted :=
      hsplit ▸ List.mem_append_right _ (List.mem_cons_of_mem script hlater)
    obtain ⟨other, hother, hpath⟩ := exists_extension_of_mem_outputs hw
    rw [hpath] at hsame
    exact hafter later hlater (hnames later hlater' script hscript other hother extension hext
      (hsame.trans hfound.symm)).1

/-- The batch charts each of its scripts on its own. -/
structure Independent (host : Host) (replies : List Reply) (o : Options)
    (fs made : Files) (scripts : List Script) (r : Result) : Prop where
  /-- Nothing is done about a script with a fault, without nodes, or with none in the view. -/
  skipped : ∀ t ∈ turns host o scripts (.initial replies o fs), ∀ bytes,
    fs.read t.script.path.toList = .ok bytes →
    let text := scriptText bytes
    let tree := host.parse (.ofList text)
    let nodes := extract { text } tree
    tree.hasFault = true ∨ nodes = [] ∨ o.view.apply nodes = [] →
    t.outcome host o = .nothing ∧ (t.finish host o).files = t.start.files
  untouched : chartedAmong host o fs scripts = [] → r.files = fs
  /-- What is written are the outputs for each of the others on its own. -/
  writes : runWrites host replies o fs scripts =
    (chartedAmong host o fs scripts).map (contribution host o fs)
  left : chartedAmong host o fs scripts ≠ [] →
    writeAll made (runWrites host replies o fs scripts).flatten = (r.files, none)
  /-- Of the outputs with one name, those of the last script are left. -/
  last : made.NamesApart o (chartedAmong host o fs scripts) →
    ∀ before script after, chartedAmong host o fs scripts = before ++ script :: after →
    (∀ other ∈ after, other.base ≠ script.base) →
    let c := Chart.ofNodes o.view (shownOf host o.view fs script)
    r.files.read (outputPath o script ".json") =
        .ok (Utf8.encode (c.toJson script.path []).print.toList) ∧
      r.files.read (outputPath o script ".mmd") = .ok (Utf8.encode c.mermaid.toList)
  others : chartedAmong host o fs scripts ≠ [] →
    ∀ q ∉ made.outputPlaces o (chartedAmong host o fs scripts), r.files.item? q = made.item? q
  count : r.log.getLast? = some ⟨doneLine o (chartedAmong host o fs scripts).length, true⟩
  order : fs.isFile o.path.toList = false →
    ∃ rels, List.Forall₂ (fun script rel => script.IsAt o.path.toList rel) scripts rels ∧
      rels.Pairwise InOrder

/-- A batch without reports and descriptions, of scripts that can all be read and with outputs that
can all be written. -/
theorem run_independent (host : Host) (replies : List Reply) (o : Options)
    (hdocx : o.docx = false) (hmodel : o.model = none) (hnormal : Path.IsNormal o.outDir.toList)
    (fs : Files) (hfs : fs.WellFormed) (scripts : List Script)
    (hscripts : scriptsAt fs o.path.toList = .ok scripts) (hserves : host.Serves o fs scripts)
    (made : Files)
    (htakes : fs.TakesOutputs made o scripts (chartedAmong host o fs scripts)) :
    ∃ r, run host replies o fs = .ok r ∧ Independent host replies o fs made scripts r := by
  have hshows := hserves.showsTexts
  have hstart : Standing host o fs made [] (.initial replies o fs) :=
    ⟨by rw [State.initial, hmodel]; rfl, rfl, .inl ⟨rfl, rfl⟩⟩
  obtain ⟨hturns, hend⟩ := hstart.afterAll hshows htakes hnormal hdocx
    (List.nil_append scripts).symm hserves.reads
  have hwrites : runWrites host replies o fs scripts =
      (chartedAmong host o fs scripts).map (contribution host o fs) := runWrites_eq hturns
  refine ⟨_, (run_eq_ok_iff hscripts).mpr ⟨fun t ht => (hturns t ht).abort?,
    hshows.showsEnd _, rfl⟩, ?_, hend.files_of_nil, hwrites,
    ?_, ?_, ?_, ?_, fun hfile => scriptsAt_inOrder hfs hfile hscripts⟩
  · intro t ht bytes hbytes text tree nodes hnothing
    obtain ⟨houtcome, -, hfiles⟩ :=
      (hturns t ht).skipped ((shownOf_eq_nil_iff hbytes o.view).mpr hnothing)
    exact ⟨houtcome, hfiles⟩
  · intro hsome
    rw [hwrites, ← List.flatMap_def]
    exact (hend.filled hsome).2
  · intro hnames before script after hsplit hafter c
    obtain ⟨hfilled, hwritten⟩ := hend.filled (by simp [hsplit])
    constructor
    · exact htakes.read_last hnames hfilled hwritten hsplit hafter (by decide)
        (List.nil_append _).symm
        (List.forall_mem_singleton.mpr ⟨".mmd", by decide, by decide, rfl⟩)
    · exact htakes.read_last hnames hfilled hwritten hsplit hafter (by decide)
        (List.singleton_append).symm (List.forall_mem_nil _)
  · exact fun hsome q hq => (hend.filled hsome).1.outside q hq
  · rw [State.result, hend.done]
    exact List.getLast?_append_of_ne_nil _ (List.cons_ne_nil _ _)

end

section

/-- Two scripts of which one has a function, and the directory of their outputs. -/
def twoScriptsMade : Files :=
  (twoScripts "a.mjs").put ["work".toList, "o".toList] .directory

private theorem locate_output {extension : String} (h : extension ∈ chartExtensions) :
    twoScriptsMade.locate .makeFile
        (outputPath { path := "s", outDir := "/work/o" } ⟨"s/a.js", "a"⟩ extension) =
      .ok ["work".toList, "o".toList, outputFile "a" extension] := by
  rcases List.mem_pair.mp h with rfl | rfl <;> decide +kernel

private theorem takesOutputs_twoScripts :
    (twoScripts "a.mjs").TakesOutputs twoScriptsMade { path := "s", outDir := "/work/o" }
      [⟨"s/a.js", "a"⟩, ⟨"s/a.mjs", "a"⟩] [⟨"s/a.js", "a"⟩] := by
  have hplace : ∀ q ∈ twoScriptsMade.outputPlaces { path := "s", outDir := "/work/o" }
      [⟨"s/a.js", "a"⟩], ∃ extension ∈ chartExtensions,
        q = ["work".toList, "o".toList, outputFile "a" extension] := by
    rintro q ⟨script, hscript, extension, hext, hfound⟩
    obtain rfl := List.mem_singleton.mp hscript
    exact ⟨extension, hext, Except.ok.inj (hfound.symm.trans (locate_output hext))⟩
  refine ⟨rfl, ?_, ?_, ?_⟩
  · intro script hscript extension hext
    obtain rfl := List.mem_singleton.mp hscript
    exact ⟨_, locate_output hext⟩
  · intro q hq item hitem
    obtain ⟨extension, hext, rfl⟩ := hplace q hq
    have hnone : ∀ extension ∈ chartExtensions,
        twoScriptsMade.item? ["work".toList, "o".toList, outputFile "a" extension] = none := by
      decide +kernel
    cases (hnone extension hext).symm.trans hitem
  · have hapart : ∀ extension ∈ chartExtensions,
        (twoScripts "a.mjs").locate .lookUp "s/a.mjs".toList ≠
          .ok ["work".toList, "o".toList, outputFile "a" extension] := by
      decide +kernel
    refine List.pairwise_pair.mpr fun _ q hq => ?_
    obtain ⟨extension, hext, rfl⟩ := hplace q hq
    exact hapart extension hext

private theorem namesApart_twoScriptsMade :
    twoScriptsMade.NamesApart { path := "s", outDir := "/work/o" } [⟨"s/a.js", "a"⟩] := by
  intro script hscript script' hscript' extension hext extension' hext' hsame
  obtain rfl := List.mem_singleton.mp hscript
  obtain rfl := List.mem_singleton.mp hscript'
  rw [locate_output hext, locate_output hext'] at hsame
  have hfile : outputFile "a" extension = outputFile "a" extension' := by simpa using hsame
  exact (outputFile_inj (mem_outputExtensions hext) (mem_outputExtensions hext')).mp hfile

/-- The node of the script that has one. -/
def functionNode : FlowNode where
  id := "node_0"
  kind := .function
  label := "function f()"
  snippet := some "function f(a, b)"
  range := ⟨0, 19⟩
  loc := ⟨⟨1, 0⟩, ⟨1, 19⟩⟩

/-- One of two scripts has something to show. Its chart is written, and it alone is counted. -/
theorem run_independent_twoScripts :
    ∃ r, run oneFunctionHost [] { path := "s", outDir := "/work/o" } (twoScripts "a.mjs") =
        .ok r ∧
      r.log.getLast? = some ⟨"Done. 1 diagram(s) written to /work/o", true⟩ ∧
      r.files.read "/work/o/a.json".toList = .ok (Utf8.encode
        ((Chart.ofNodes .fullOperations [functionNode]).toJson "s/a.js" []).print.toList) ∧
      r.files.read "/work/o/a.mmd".toList =
        .ok (Utf8.encode "flowchart TD\nnode_0[function f#40;#41;]\n".toList) := by
  have hsecond : "a.mjs" ∈ ["a.mjs", "b.js"] := by decide
  have hcharted : chartedAmong oneFunctionHost { path := "s", outDir := "/work/o" }
      (twoScripts "a.mjs") [⟨"s/a.js", "a"⟩, ⟨"s/a.mjs", "a"⟩] = [⟨"s/a.js", "a"⟩] := by
    decide +kernel
  have hread : ∀ script ∈ [(⟨"s/a.js", "a"⟩ : Script), ⟨"s/a.mjs", "a"⟩],
      ∃ bytes, (twoScripts "a.mjs").read script.path.toList = .ok bytes := by
    intro script hscript
    rcases List.mem_pair.mp hscript with rfl | rfl
    · exact ⟨_, rfl⟩
    · exact ⟨_, rfl⟩
  have hdeep (script : Script) (message : String) :
      ¬ GoesTooDeep oneFunctionHost .fullOperations (twoScripts "a.mjs") script message := by
    rintro ⟨bytes, -, hexamine⟩
    cases tooDeep?_of_examine hexamine
  obtain ⟨r, hr, h⟩ := run_independent oneFunctionHost [] { path := "s", outDir := "/work/o" } rfl
    rfl isNormal_work (twoScripts "a.mjs") (wellFormed_twoScripts hsecond)
    [⟨"s/a.js", "a"⟩, ⟨"s/a.mjs", "a"⟩] (scriptsAt_twoScripts hsecond)
    ⟨fun _ => rfl, fun script hscript => ⟨hread script hscript, hdeep script⟩⟩
    twoScriptsMade (hcharted ▸ takesOutputs_twoScripts)
  obtain ⟨hjson, hmermaid⟩ := h.last (hcharted ▸ namesApart_twoScriptsMade) []
    ⟨"s/a.js", "a"⟩ [] hcharted (by simp)
  have hshown : shownOf oneFunctionHost .fullOperations (twoScripts "a.mjs") ⟨"s/a.js", "a"⟩ =
      [functionNode] := by decide +kernel
  have htext : (Chart.ofNodes .fullOperations [functionNode]).mermaid =
      "flowchart TD\nnode_0[function f#40;#41;]\n" := by decide +kernel
  rw [hshown] at hjson hmermaid
  have hcount := h.count
  rw [hcharted] at hcount
  exact ⟨r, hr, hcount, hjson, htext ▸ hmermaid⟩

end

end Flowchart.Batch
