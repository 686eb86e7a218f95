import Flowchart.Proofs.Batch.OutputFiles
import Flowchart.Proofs.Batch.Refusals
import Flowchart.Proofs.Batch.ScriptNames

/-! How many outputs a run leaves: one for each name of a chart that it has written, however often
the name has come. -/
namespace Flowchart.Batch

/-- The extensions of the outputs that every chart has. -/
def chartExtensions : List String :=
  [".json", ".mmd"]

theorem mem_outputExtensions {extension : String} (h : extension ∈ chartExtensions) :
    extension ∈ outputExtensions :=
  List.mem_append_left [".docx"] h

variable {host : Host} {o : Options}

section

variable {fs : Files} {place : Place} {script : Script} {c : Chart}

theorem reports_cases {descriptions : List (String × String)} {more : List (List Char × Content)}
    (h : reports host o script c descriptions = .ok more) :
    more = [] ∨ ∃ content, more = [(outputPath o script ".docx", content)] := by
  rw [reports] at h
  split at h
  · simp only at h
    cases hblocks : Report.blocks host.hold (.ofList (Path.fileName script.path.toList)) c.nodes
        c.stats c.mermaid descriptions with
    | error e =>
      rw [hblocks] at h
      cases h
    | ok blocks =>
      rw [hblocks] at h
      exact .inr ⟨_, (Except.ok.inj h).symm⟩
  · exact .inl (Except.ok.inj h).symm

theorem outputPath_eq (o : Options) (script : Script) (extension : String) :
    outputPath o script extension =
      Path.under o.outDir.toList (outputFile script.base extension) :=
  rfl

namespace Files.IsOutputDirectory

theorem writeAll_outputs (h : fs.IsOutputDirectory o.outDir.toList place)
    (hbase : '/' ∉ script.base.toList) (descriptions : List (String × String)) :
    writeAll fs (outputs o script c descriptions) =
      if IsTooLong o.outDir.toList script.base ".json" then
        (fs, some ⟨.nameTooLong, outputPath o script ".json"⟩)
      else
        ((fs.put (outputPlace place script.base ".json")
            (.file (.text (c.toJson script.path descriptions).print))).put
          (outputPlace place script.base ".mmd") (.file (.text c.mermaid)), none) := by
  have hjson : ".json" ∈ outputExtensions := by decide
  have hmmd : ".mmd" ∈ outputExtensions := by decide
  simp only [outputs, writeAll, outputPath_eq]
  rw [h.write hbase hjson]
  by_cases hlong : IsTooLong o.outDir.toList script.base ".json"
  · rw [if_pos hlong, if_pos hlong]
  · have hshort : ¬IsTooLong o.outDir.toList script.base ".mmd" :=
      fun hlong' => hlong (hlong'.json hbase hmmd)
    rw [if_neg hlong, if_neg hlong]
    dsimp only
    rw [(h.put script.base hjson _).write hbase hmmd, if_neg hshort]

/-- When the outputs that every chart has can be written, its report can be, too. -/
theorem writeAll_reports (h : fs.IsOutputDirectory o.outDir.toList place)
    (hbase : '/' ∉ script.base.toList) (hshort : ¬IsTooLong o.outDir.toList script.base ".json")
    {descriptions : List (String × String)} {more : List (List Char × Content)}
    (hmore : reports host o script c descriptions = .ok more) :
    ∃ fs', writeAll fs more = (fs', none) ∧ fs'.IsOutputDirectory o.outDir.toList place ∧
      ∀ extension ∈ chartExtensions, fs'.stored place extension = fs.stored place extension := by
  have hdocx : ".docx" ∈ outputExtensions := by decide
  rcases reports_cases hmore with rfl | ⟨content, rfl⟩
  · exact ⟨fs, rfl, h, fun _ _ => rfl⟩
  · refine ⟨_, ?_, h.put script.base hdocx content, fun extension hext => ?_⟩
    · have hshort' : ¬IsTooLong o.outDir.toList script.base ".docx" :=
        fun hlong => hshort (hlong.json hbase hdocx)
      rw [writeAll, outputPath_eq, h.write hbase hdocx, if_neg hshort']
      rfl
    · have hne : extension ≠ ".docx" := fun heq =>
        absurd (heq ▸ hext) (by decide)
      rw [stored_put hdocx (mem_outputExtensions hext), if_neg hne]

theorem stored_put_put {base extension : String} (hext : extension ∈ chartExtensions)
    (json mmd : Content) :
    ((fs.put (outputPlace place base ".json") (.file json)).put
        (outputPlace place base ".mmd") (.file mmd)).stored place extension =
      insert base (fs.stored place extension) := by
  have hjson : ".json" ∈ outputExtensions := by decide
  have hmmd : ".mmd" ∈ outputExtensions := by decide
  rw [stored_put hmmd (mem_outputExtensions hext), stored_put hjson (mem_outputExtensions hext)]
  rcases List.mem_pair.mp hext with rfl | rfl
  · rw [if_neg (by decide), if_pos rfl]
  · rw [if_pos rfl, if_neg (by decide)]

/-- In an output directory, the writing of outputs either fails and changes nothing, or it adds the
name of the script to those of which there is an output. -/
theorem writeOutputs (h : fs.IsOutputDirectory o.outDir.toList place)
    (hbase : '/' ∉ script.base.toList) {descriptions : List (String × String)} {fs' : Files}
    {outcome : Outcome} (hdone : writeOutputs host o script c descriptions fs = (fs', outcome))
    (habort : outcome.abort? = none) :
    fs'.IsOutputDirectory o.outDir.toList place ∧
      ∀ extension ∈ chartExtensions, fs'.stored place extension =
        if outcome = .written then insert script.base (fs.stored place extension)
        else fs.stored place extension := by
  have hjson : ".json" ∈ outputExtensions := by decide
  have hmmd : ".mmd" ∈ outputExtensions := by decide
  rw [Batch.writeOutputs, h.writeAll_outputs hbase] at hdone
  by_cases hlong : IsTooLong o.outDir.toList script.base ".json"
  · rw [if_pos hlong] at hdone
    cases hdone
    exact ⟨h, fun extension _ => (if_neg (by simp)).symm⟩
  · rw [if_neg hlong] at hdone
    dsimp only at hdone
    cases hreports : reports host o script c descriptions with
    | error e =>
      rw [hreports] at hdone
      cases hdone
      cases habort
    | ok more =>
      have hput := (h.put script.base hjson
        (.text (c.toJson script.path descriptions).print)).put script.base hmmd (.text c.mermaid)
      obtain ⟨fs'', hwritten, hdir, hstored⟩ := hput.writeAll_reports hbase hlong hreports
      rw [hreports] at hdone
      dsimp only at hdone
      rw [hwritten] at hdone
      cases hdone
      refine ⟨hdir, fun extension hext => (hstored extension hext).trans ?_⟩
      rw [stored_put_put hext, if_pos rfl]

/-- The same for the storing of a chart. -/
theorem store (h : fs.IsOutputDirectory o.outDir.toList place)
    (hnormal : Path.IsNormal o.outDir.toList) (hnull : '\x00' ∉ o.outDir.toList)
    (hbase : '/' ∉ script.base.toList) {descriptions : Descriptions} {fs' : Files}
    {outcome : Outcome} (hdone : store host o script c descriptions fs = (fs', outcome))
    (habort : outcome.abort? = none) :
    fs'.IsOutputDirectory o.outDir.toList place ∧
      ∀ extension ∈ chartExtensions, fs'.stored place extension =
        if outcome = .written then insert script.base (fs.stored place extension)
        else fs.stored place extension := by
  rw [Batch.store, h.directory.makeDirs hnormal hnull] at hdone
  dsimp only at hdone
  cases hencode : descriptions.encode with
  | ok texts =>
    rw [hencode] at hdone
    exact h.writeOutputs hbase hdone habort
  | error u =>
    rw [hencode] at hdone
    dsimp only at hdone
    rw [writeBeginning, outputPath_eq, h.write hbase List.mem_cons_self] at hdone
    split at hdone
    · cases hdone
      exact ⟨h, fun extension _ => (if_neg (by simp)).symm⟩
    · cases hdone
      cases habort

end Files.IsOutputDirectory

end

namespace Files

/-- Once the directory is there, it holds no outputs. -/
def IsFresh (fs : Files) (dir : List Char) : Prop :=
  ∀ made, fs.makeDirs dir = .ok made →
    ∀ extension ∈ outputExtensions, made.namesEnding dir extension = []

/-- The files are still those of the start; or the directory cannot be made of them; or they hold
outputs of charts under these names and under no others. -/
inductive HoldOutputs (start fs : Files) (dir : List Char) : List String → Prop
  | unchanged (h : fs = start) : HoldOutputs start fs dir []
  | failed {e : DirectoryError} (h : fs.makeDirs dir = .error ⟨e, fs⟩) :
      HoldOutputs start fs dir []
  | held {bases : List String} {place : Place} (h : fs.IsOutputDirectory dir place)
      (hstored : ∀ extension ∈ chartExtensions,
        fs.stored place extension = {base | base ∈ bases}) : HoldOutputs start fs dir bases

variable {start fs made : Files} {dir : List Char} {bases : List String}

theorem IsFresh.isOutputDirectory (hfresh : start.IsFresh dir)
    (hnodup : (start.items.map (·.1)).Nodup) (hnormal : Path.IsNormal dir)
    (hmade : start.makeDirs dir = .ok made) :
    ∃ place, made.IsOutputDirectory dir place ∧
      ∀ extension ∈ outputExtensions, made.stored place extension = ∅ := by
  obtain ⟨place, hdir, hgrows⟩ := isDirectoryAt_of_makeDirs hnormal hmade
  have hnone (extension : String) (hext : extension ∈ outputExtensions) (base : String) :
      made.item? (outputPlace place base extension) = none := by
    have hempty := hfresh made hmade extension hext
    rw [hdir.namesEnding] at hempty
    refine Option.not_isSome_iff_eq_none.mp fun hsome => ?_
    have hsuffix : extension.toList.isSuffixOf (outputFile base extension) = true := by
      rw [outputFile_eq_append]
      exact List.isSuffixOf_iff_suffix.mpr (List.suffix_append ..)
    exact List.filter_eq_nil_iff.mp hempty _ (mem_namesIn_iff.mpr hsome) hsuffix
  refine ⟨place, ⟨hdir, hgrows.nodup hnodup, fun extension hext base item hitem => ?_⟩,
    fun extension hext => Set.eq_empty_of_forall_notMem fun base hbase => ?_⟩
  · exact absurd (hitem.symm.trans (hnone extension hext base)) (by simp)
  · rw [mem_stored_iff, hnone extension hext base] at hbase
    cases hbase

section

variable {script : Script} {c : Chart} {descriptions : Descriptions} {fs' : Files}
  {outcome : Outcome} (hnormal : Path.IsNormal o.outDir.toList) (hnull : '\x00' ∉ o.outDir.toList)
  (hbase : '/' ∉ script.base.toList)
  (hdone : Batch.store host o script c descriptions fs = (fs', outcome))
  (habort : outcome.abort? = none)

include hnormal hnull hbase hdone habort

theorem IsOutputDirectory.holdOutputs_store {place : Place}
    (h : fs.IsOutputDirectory o.outDir.toList place)
    (hstored : ∀ extension ∈ chartExtensions, fs.stored place extension = {base | base ∈ bases}) :
    start.HoldOutputs fs' o.outDir.toList
      (if outcome = .written then bases ++ [script.base] else bases) := by
  obtain ⟨hdir, hstored'⟩ := h.store hnormal hnull hbase hdone habort
  refine .held hdir fun extension hext => ?_
  rw [hstored' extension hext, hstored extension hext]
  split
  · ext base
    simp [or_comm]
  · rfl

theorem HoldOutputs.store (hfresh : start.IsFresh o.outDir.toList)
    (hnodup : (start.items.map (·.1)).Nodup) (h : start.HoldOutputs fs o.outDir.toList bases) :
    start.HoldOutputs fs' o.outDir.toList
      (if outcome = .written then bases ++ [script.base] else bases) := by
  have hfails {failure : DirectoryFailure} (hmade : fs.makeDirs o.outDir.toList = .error failure)
      (hbases : bases = []) : start.HoldOutputs fs' o.outDir.toList
        (if outcome = .written then bases ++ [script.base] else bases) := by
    have hagain := makeDirs_of_failure hnormal hnull hmade
    obtain ⟨e, made⟩ := failure
    rw [Batch.store, hmade] at hdone
    cases e with
    | nullInPath =>
      cases hdone
      cases habort
    | refused e =>
      cases hdone
      rw [if_neg (by simp [DirectoryError.outcome]), hbases]
      exact .failed hagain
  cases h with
  | held hdir hstored =>
    exact hdir.holdOutputs_store hnormal hnull hbase hdone habort hstored
  | failed hmade => exact hfails hmade rfl
  | unchanged heq =>
    subst heq
    cases hmade : fs.makeDirs o.outDir.toList with
    | error failure => exact hfails hmade rfl
    | ok made =>
      obtain ⟨place, hdir, hstored⟩ := hfresh.isOutputDirectory hnodup hnormal hmade
      -- To store makes the directory first, and so does the same where that is already done.
      have hdone : Batch.store host o script c descriptions made = (fs', outcome) := by
        rw [← hdone, Batch.store, Batch.store, hmade, hdir.directory.makeDirs hnormal hnull]
      refine hdir.holdOutputs_store hnormal hnull hbase hdone habort fun extension hext => ?_
      rw [hstored extension (mem_outputExtensions hext)]
      simp

end

/-- Where the directory is not there, it has no names. -/
theorem namesEnding_eq_nil (h : ∀ place, ¬ fs.IsDirectoryAt dir place) (extension : String) :
    fs.namesEnding dir extension = [] := by
  rw [namesEnding]
  split
  · rename_i place hplace
    exact if_neg fun hitem => h place ⟨hplace, hitem⟩
  · rfl

/-- The directory lists one output of a chart for each of the names. -/
theorem HoldOutputs.length_namesEnding (hfresh : start.IsFresh dir)
    (hnormal : Path.IsNormal dir) (hnull : '\x00' ∉ dir) (h : start.HoldOutputs fs dir bases)
    {extension : String} (hext : extension ∈ chartExtensions) :
    (fs.namesEnding dir extension).length = bases.dedup.length := by
  cases h with
  | held hdir hstored => exact hdir.length_namesEnding (hstored extension hext)
  | failed hmade =>
    rw [namesEnding_eq_nil fun place hdir => ?_]
    · rfl
    · cases (hdir.makeDirs hnormal hnull).symm.trans hmade
  | unchanged heq =>
    subst heq
    by_cases hthere : ∃ place, fs.IsDirectoryAt dir place
    · obtain ⟨place, hdir⟩ := hthere
      rw [hfresh fs (hdir.makeDirs hnormal hnull) extension (mem_outputExtensions hext)]
      rfl
    · rw [namesEnding_eq_nil (not_exists.mp hthere)]
      rfl

end Files

/-- The scripts of which a chart was written. -/
def writtenScripts (host : Host) (o : Options) (taken : List Turn) : List Script :=
  (taken.filter fun t => t.outcome host o = .written).map (·.script)

theorem writtenScripts_cons (t : Turn) (taken : List Turn) :
    writtenScripts host o (t :: taken) =
      if t.outcome host o = .written then t.script :: writtenScripts host o taken
      else writtenScripts host o taken := by
  by_cases hwritten : t.outcome host o = .written
  · rw [if_pos hwritten, writtenScripts, List.filter_cons_of_pos (by simpa using hwritten)]
    rfl
  · rw [if_neg hwritten, writtenScripts, List.filter_cons_of_neg (by simpa using hwritten)]
    rfl

section

variable {start : Files} (hfresh : start.IsFresh o.outDir.toList)
  (hnodup : (start.items.map (·.1)).Nodup) (hnormal : Path.IsNormal o.outDir.toList)
  (hnull : '\x00' ∉ o.outDir.toList)

include hfresh hnodup hnormal hnull

theorem holdOutputs_finish {t : Turn} {bases : List String}
    (h : start.HoldOutputs t.start.files o.outDir.toList bases)
    (hbase : '/' ∉ t.script.base.toList) (habort : (t.outcome host o).abort? = none) :
    start.HoldOutputs (t.finish host o).files o.outDir.toList
      (if t.outcome host o = .written then bases ++ [t.script.base] else bases) := by
  cases hchart : chart? host o.view t.start.files t.script with
  | none =>
    obtain ⟨hfiles, houtcome⟩ := Turn.of_no_chart habort hchart
    have hnot : t.outcome host o ≠ .written := by
      rcases houtcome with houtcome | ⟨e, houtcome⟩ <;> simp [houtcome]
    rwa [hfiles, if_neg hnot]
  | some found =>
    obtain ⟨text, c⟩ := found
    obtain ⟨descriptions, -, hfiles, houtcome⟩ := Turn.of_chart habort hchart
    exact .store hnormal hnull hbase (Prod.ext hfiles.symm houtcome.symm) habort hfresh hnodup h

theorem holdOutputs_afterAll {scripts : List Script} {s : State} {bases : List String}
    (h : start.HoldOutputs s.files o.outDir.toList bases)
    (hbase : ∀ script ∈ scripts, '/' ∉ script.base.toList)
    (habort : ∀ t ∈ turns host o scripts s, (t.outcome host o).abort? = none) :
    start.HoldOutputs (afterAll host o scripts s).files o.outDir.toList
      (bases ++ (writtenScripts host o (turns host o scripts s)).map (·.base)) := by
  -- The names of the turns taken so far go along in `bases`.
  induction scripts generalizing s bases with
  | nil => exact (List.append_nil bases).symm ▸ h
  | cons script rest ih =>
    have hfinish := holdOutputs_finish hfresh hnodup hnormal hnull (t := ⟨script, s⟩) h
      (hbase script List.mem_cons_self) (habort _ List.mem_cons_self)
    have hrest := ih hfinish (fun other hother => hbase other (List.mem_cons_of_mem script hother))
      fun t ht => habort t (List.mem_cons_of_mem _ ht)
    rw [afterAll_cons, turns, writtenScripts_cons]
    split at hrest
    · rename_i hwritten
      rw [if_pos hwritten, List.map_cons]
      rwa [List.append_assoc] at hrest
    · rename_i hwritten
      rwa [if_neg hwritten]

end

theorem done_afterAll (scripts : List Script) (s : State) :
    (afterAll host o scripts s).done =
      s.done + (writtenScripts host o (turns host o scripts s)).length := by
  induction scripts generalizing s with
  | nil => rfl
  | cons script rest ih =>
    rw [afterAll_cons, ih, Turn.done_finish, turns, writtenScripts_cons]
    split
    · rw [List.length_cons, Nat.add_assoc, Nat.add_comm 1]
    · rfl

/-- A command line names the directory of the outputs by an absolute path in normal form. -/
theorem Settings.isNormal_outDir {s : Settings} {cwd : String} {unknown : List String}
    (hcwd : Path.isAbsolute cwd.toList = true) (h : s.options cwd unknown = .ok o) :
    Path.IsNormal o.outDir.toList := by
  rw [options] at h
  cases hchecked : (s.checked unknown).mapError CommandError.usage with
  | error e =>
    rw [hchecked] at h
    cases h
  | ok checked =>
    obtain ⟨path, view⟩ := checked
    rw [hchecked] at h
    dsimp only [bind, Except.bind] at h
    split at h
    · split at h
      · obtain rfl := Except.ok.inj h
        rw [String.toList_ofList]
        exact Path.isNormal_absolute hcwd _
      · cases h
    · cases h

/-- A run counts the charts that it writes. A directory that begins without outputs ends with one
output of each kind for each name that was written, so that the count is right just when no two of
the scripts written have one name. The name of a script in a directory joins with underscores the
names that lead to it, the last one without its extension. -/
theorem run_counts_outputs (host : Host) (replies : List Reply) (o : Options)
    (fs : Files) (hfs : fs.WellFormed) (hnormal : Path.IsNormal o.outDir.toList)
    (hnull : '\x00' ∉ o.outDir.toList) (hfresh : fs.IsFresh o.outDir.toList)
    (scripts : List Script) (hscripts : scriptsAt fs o.path.toList = .ok scripts) (r : Result)
    (hr : run host replies o fs = .ok r) :
    let written := writtenScripts host o (turns host o scripts (.initial replies o fs))
    r.log.getLast? =
        some ⟨.ofString ("Done. " ++ toString written.length ++ " diagram(s) written to " ++
          o.outDir), true⟩ ∧
      (∀ extension ∈ chartExtensions, (r.files.namesEnding o.outDir.toList extension).length =
        (written.map (·.base)).dedup.length) ∧
      ((∀ extension ∈ chartExtensions,
        (r.files.namesEnding o.outDir.toList extension).length = written.length) ↔
          (written.map (·.base)).Nodup) ∧
      (fs.isFile o.path.toList = false →
        ∀ script ∈ scripts, ∃ rel, script.IsAt o.path.toList rel) ∧
      ∀ (script script' : Script) (rel rel' : List (List Char)),
        script.IsAt o.path.toList rel → script'.IsAt o.path.toList rel' →
        (∀ name ∈ rel, '_' ∉ name) → (∀ name ∈ rel', '_' ∉ name) →
        (script.base = script'.base ↔ rel.dropLast = rel'.dropLast ∧
          rel.getLast?.map Path.stem = rel'.getLast?.map Path.stem) := by
  intro written
  obtain ⟨hnone, -, rfl⟩ := (run_eq_ok_iff hscripts).mp hr
  have hstart : fs.HoldOutputs (State.initial replies o fs).files o.outDir.toList [] :=
    .unchanged rfl
  have hold := holdOutputs_afterAll hfresh hfs.nodup hnormal hnull hstart
    (slash_not_mem_base hscripts) hnone
  rw [List.nil_append] at hold
  have hlength (extension : String) (hext : extension ∈ chartExtensions) :=
    hold.length_namesEnding hfresh hnormal hnull hext
  have hdone : (afterAll host o scripts (.initial replies o fs)).done = written.length :=
    (done_afterAll scripts (.initial replies o fs)).trans (Nat.zero_add _)
  refine ⟨?_, hlength, ?_, fun hfile => exists_isAt_of_mem_scriptsAt hfs hfile hscripts, ?_⟩
  · rw [State.result, hdone]
    exact List.getLast?_append_of_ne_nil _ (List.cons_ne_nil _ _)
  · constructor
    · intro hcount
      have heq := (hlength ".json" List.mem_cons_self).symm.trans
        (hcount ".json" List.mem_cons_self)
      exact List.dedup_eq_self.mp
        ((List.dedup_sublist _).eq_of_length (heq.trans (List.length_map _).symm))
    · intro hnodup extension hext
      rw [State.result, hlength extension hext, hnodup.dedup, List.length_map]
  · intro script script' rel rel' hat hat' hplain hplain'
    rw [hat.base, hat'.base]
    exact outputName_eq_iff hat.nonempty hat'.nonempty hplain hplain'

section

/-- Two scripts in one directory, the first of them called a.js. -/
def twoScripts (second : String) : Files where
  cwd := ["work".toList]
  items := [
    (["work".toList], .directory),
    (["work".toList, "s".toList], .directory),
    (["work".toList, "s".toList, "a.js".toList], .file (.text "function f(a, b) \x7b\x7d")),
    (["work".toList, "s".toList, second.toList], .file (.text "function g(a, b) \x7b\x7d"))]

theorem scriptsAt_twoScripts {second : String} (h : second ∈ ["a.mjs", "b.js"]) :
    scriptsAt (twoScripts second) "s".toList =
      .ok [⟨"s/a.js", "a"⟩, ⟨"s/" ++ second, .ofList (Path.stem second.toList)⟩] := by
  have hnames : (twoScripts second).namesIn ["work".toList, "s".toList] =
      ["a.js".toList, second.toList] :=
    List.mergeSort_of_pairwise (l := ["a.js".toList, second.toList])
      ((show ∀ second ∈ ["a.mjs", "b.js"], ["a.js".toList, second.toList].Pairwise
        fun a b => Text.comesFirst a b = true by decide) second h)
  have hplace : (twoScripts second).locate .lookUp "s".toList =
      .ok ["work".toList, "s".toList] := by
    refine (Files.placeOf?_eq_some_iff.mp ?_).1
    rcases List.mem_pair.mp h with rfl | rfl <;> decide
  have hbelow : (twoScripts second).filesBelow "s".toList =
      ["s/a.js".toList, ("s/" ++ second).toList] := by
    rw [Files.filesBelow, hplace]
    simp only [Files.walk, hnames]
    rcases List.mem_pair.mp h with rfl | rfl <;> decide
  rw [scriptsAt, if_neg (by rcases List.mem_pair.mp h with rfl | rfl <;> decide),
    if_neg (by decide), hbelow]
  rcases List.mem_pair.mp h with rfl | rfl <;> exact congrArg Except.ok (by decide)

theorem wellFormed_twoScripts {second : String} (h : second ∈ ["a.mjs", "b.js"]) :
    (twoScripts second).WellFormed := by
  have hnames : ∀ second ∈ ["a.mjs", "b.js"],
      ((twoScripts second).items.map (·.1)).Nodup ∧
      ∀ place ∈ (twoScripts second).items.map (·.1), ∀ name ∈ place,
        name ≠ [] ∧ name ≠ ['.'] ∧ name ≠ ['.', '.'] ∧ '/' ∉ name := by decide
  obtain ⟨hnodup, hname⟩ := hnames second h
  refine ⟨hnodup, fun place hplace name hmem => ?_⟩
  obtain ⟨hne, hdot, hdots, hslash⟩ := hname place hplace name hmem
  exact ⟨hne, hdot, hdots, hslash⟩

theorem isNormal_work : Path.IsNormal "/work/o".toList :=
  ⟨['/'], ["work".toList, "o".toList], .inl rfl, fun name hname => by
    rcases List.mem_pair.mp hname with rfl | rfl <;> constructor <;> decide, by decide⟩

private theorem isFresh_twoScripts {second : String} (h : second ∈ ["a.mjs", "b.js"]) :
    (twoScripts second).IsFresh "/work/o".toList := by
  have hmakes : ∀ second ∈ ["a.mjs", "b.js"],
      ((twoScripts second).makeDirs "/work/o".toList).toOption.all fun made =>
        made.placeOf? "/work/o".toList = some ["work".toList, "o".toList] &&
          made.items.all (·.1.dropLast ≠ ["work".toList, "o".toList]) := by
    decide
  intro made hmade extension _
  have hmakes := hmakes second h
  rw [hmade, Except.toOption, Option.all_some, Bool.and_eq_true, decide_eq_true_eq] at hmakes
  obtain ⟨hplace, hnone⟩ := hmakes
  obtain ⟨place, hdir, -⟩ := Files.isDirectoryAt_of_makeDirs isNormal_work hmade
  obtain rfl := Option.some.inj (hdir.placeOf?.symm.trans hplace)
  rw [hdir.namesEnding, List.filter_eq_nil_iff]
  intro name hname
  have hsome := Files.mem_namesIn_iff.mp hname
  rw [Files.item?, if_neg (List.concat_ne_nil _ _), ← Files.mem_places_iff, List.mem_map] at hsome
  obtain ⟨entry, hentry, heq⟩ := hsome
  have hne := List.all_eq_true.mp hnone entry hentry
  rw [heq, List.dropLast_concat] at hne
  exact absurd hne (by decide)

/-- Two scripts with names of their own leave two outputs of each kind. -/
theorem run_counts_outputs_twoScripts :
    ∃ r, run functionHost [] { path := "s", outDir := "/work/o" } (twoScripts "b.js") =
        .ok r ∧
      r.log.getLast? = some ⟨"Done. 2 diagram(s) written to /work/o", true⟩ ∧
      ∀ extension ∈ chartExtensions,
        (r.files.namesEnding "/work/o".toList extension).length = 2 := by
  have hsecond : "b.js" ∈ ["a.mjs", "b.js"] := by decide
  have hscripts := scriptsAt_twoScripts hsecond
  obtain ⟨r, hr⟩ : ∃ r, run functionHost [] { path := "s", outDir := "/work/o" }
      (twoScripts "b.js") = .ok r :=
    ⟨_, (run_eq_ok_iff hscripts).mpr ⟨by decide +kernel, ⟨rfl, rfl⟩, rfl⟩⟩
  obtain ⟨hlast, -, hcounts, -⟩ := run_counts_outputs functionHost []
    { path := "s", outDir := "/work/o" } (twoScripts "b.js") (wellFormed_twoScripts hsecond)
    isNormal_work (by decide) (isFresh_twoScripts hsecond) _ hscripts r hr
  have hwritten : writtenScripts functionHost { path := "s", outDir := "/work/o" }
      (turns functionHost { path := "s", outDir := "/work/o" }
        [⟨"s/a.js", "a"⟩, ⟨"s/" ++ "b.js", .ofList (Path.stem "b.js".toList)⟩]
        (.initial [] { path := "s", outDir := "/work/o" } (twoScripts "b.js"))) =
      [⟨"s/a.js", "a"⟩, ⟨"s/b.js", "b"⟩] := by decide +kernel
  rw [hwritten] at hlast hcounts
  exact ⟨r, hr, hlast.trans (by decide), hcounts.mpr (by decide)⟩

/-- The outputs of the second script take the place of those of the first, and both are counted. -/
theorem run_overwrites :
    ∃ r, run functionHost [] { path := "s", outDir := "/work/o" } (twoScripts "a.mjs") =
        .ok r ∧
      r.log.getLast? = some ⟨"Done. 2 diagram(s) written to /work/o", true⟩ ∧
      r.files.namesEnding "/work/o".toList ".json" = ["a.json".toList] ∧
      r.files.namesEnding "/work/o".toList ".mmd" = ["a.mmd".toList] := by
  have hsecond : "a.mjs" ∈ ["a.mjs", "b.js"] := by decide
  have hscripts := scriptsAt_twoScripts hsecond
  refine ⟨_, (run_eq_ok_iff hscripts).mpr ⟨by decide +kernel, ⟨rfl, rfl⟩, rfl⟩, ?_⟩
  generalize hfinal : State.result _ _ = r
  let place := ["work".toList, "o".toList]
  obtain ⟨hlast, hplace, hitem, hinside⟩ :
      r.log.getLast? = some ⟨"Done. 2 diagram(s) written to /work/o", true⟩ ∧
      r.files.placeOf? "/work/o".toList = some place ∧
      r.files.item? place = some .directory ∧
      ((r.files.items.map (·.1)).filter fun p => p ≠ [] && p.dropLast = place).filterMap
        (·.getLast?) = ["a.json".toList, "a.mmd".toList] :=
    hfinal ▸ by decide +kernel
  have hdir : r.files.IsDirectoryAt "/work/o".toList place :=
    ⟨(Files.placeOf?_eq_some_iff.mp hplace).1, hitem⟩
  have hnames : r.files.namesIn place = ["a.json".toList, "a.mmd".toList] := by
    rw [Files.namesIn, Files.listing, hinside]
    exact List.mergeSort_of_pairwise (by decide)
  rw [hdir.namesEnding, hdir.namesEnding, hnames]
  exact ⟨hlast, by decide, by decide⟩

end
end Flowchart.Batch
