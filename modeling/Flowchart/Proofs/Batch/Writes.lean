import Flowchart.Proofs.Batch.Work

/-! What the turns of a run write. Without reports, nothing else comes into its files. -/
namespace Flowchart.Batch

/-- What is written of some outputs: all up to the first that cannot be. -/
def writesOf (fs : Files) : List (List Char × Content) → List (List Char × Content)
  | [] => []
  | (path, content) :: rest =>
    match fs.write path content with
    | .ok fs => (path, content) :: writesOf fs rest
    | .error _ => []

/-- The rest of the outputs make no difference. -/
theorem writeAll_writesOf (fs : Files) (ws : List (List Char × Content)) :
    writeAll fs (writesOf fs ws) = ((writeAll fs ws).1, none) := by
  induction ws generalizing fs with
  | nil => rfl
  | cons w rest ih =>
    obtain ⟨path, content⟩ := w
    rw [writesOf, writeAll]
    cases hwrite : fs.write path content with
    | error e => rfl
    | ok fs' =>
      dsimp only
      rw [writeAll, hwrite]
      exact ih fs'

theorem writesOf_eq_self {fs fs' : Files} {ws : List (List Char × Content)}
    (h : writeAll fs ws = (fs', none)) : writesOf fs ws = ws := by
  induction ws generalizing fs with
  | nil => rfl
  | cons w rest ih =>
    obtain ⟨path, content⟩ := w
    rw [writeAll] at h
    rw [writesOf]
    cases hwrite : fs.write path content with
    | error e =>
      rw [hwrite] at h
      cases h
    | ok next =>
      rw [hwrite] at h
      exact congrArg _ (ih h)

/-- Whether a file can be written does not depend on what it is to contain. -/
theorem Files.write_eq_error {fs : Files} {path : List Char} {content : Content} {e : FileError}
    (h : fs.write path content = .error e) (content' : Content) :
    fs.write path content' = .error e := by
  rw [Files.write] at h ⊢
  split at h
  · exact h
  · split at h
    · rename_i hdir
      rw [if_pos hdir]
      exact h
    · cases h

variable {host : Host} {o : Options}

/-- The files with some outputs in the directory that is made for them, as far as it can be made. -/
def Files.takeUp (o : Options) (fs : Files) (ws : List (List Char × Content)) : Files :=
  match fs.makeDirs o.outDir.toList with
  | .ok made => (writeAll made ws).1
  | .error failure => failure.files

/-- What is written of the outputs of a chart. -/
def chartWrites (o : Options) (script : Script) (c : Chart) (descriptions : Descriptions)
    (fs : Files) : List (List Char × Content) :=
  match fs.makeDirs o.outDir.toList, descriptions.encode with
  | .ok made, .ok texts => writesOf made (outputs o script c texts)
  | _, _ => []

theorem reports_of_not_docx (h : o.docx = false) (script : Script) (c : Chart)
    (texts : List (String × String)) : reports host o script c texts = .ok [] := by
  rw [reports, if_neg (by simp [h])]

section

variable (host : Host) (script : Script) (c : Chart) (descriptions : Descriptions)
  {fs made : Files}

/-- A directory that cannot be made. -/
theorem store_of_error {failure : Files.DirectoryFailure}
    (hmade : fs.makeDirs o.outDir.toList = .error failure) :
    store host o script c descriptions fs = (failure.files, failure.error.outcome) := by
  rw [store, hmade]

theorem chartWrites_of_error {failure : Files.DirectoryFailure}
    (hmade : fs.makeDirs o.outDir.toList = .error failure) :
    chartWrites o script c descriptions fs = [] := by
  rw [chartWrites, hmade]

section

variable (hmade : fs.makeDirs o.outDir.toList = .ok made)

include hmade

/-- A directory in which the first output cannot be written. -/
theorem store_of_refused {content : Content} {e : FileError}
    (hjson : made.write (outputPath o script ".json") content = .error e) :
    store host o script c descriptions fs = (made, .failed e) := by
  have hrefused := Files.write_eq_error hjson
  rw [store, hmade]
  cases descriptions.encode with
  | error u => simp only [writeBeginning, hrefused]
  | ok texts => simp only [writeOutputs, outputs, writeAll, hrefused]

theorem chartWrites_of_refused {content : Content} {e : FileError}
    (hjson : made.write (outputPath o script ".json") content = .error e) :
    chartWrites o script c descriptions fs = [] := by
  have hrefused := Files.write_eq_error hjson
  rw [chartWrites, hmade]
  cases descriptions.encode with
  | error u => rfl
  | ok texts => simp only [outputs, writesOf, hrefused]

/-- A description that cannot be encoded, where the first output can be written. -/
theorem store_of_unencodable {u : Unencodable} (hencode : descriptions.encode = .error u)
    {content : Content} {written : Files}
    (hjson : made.write (outputPath o script ".json") content = .ok written) :
    ∃ cut, made.write (outputPath o script ".json")
        (.text (c.printUpTo script.path u.before u.id)) = .ok cut ∧
      store host o script c descriptions fs = (cut, .aborted (.unencodable u)) := by
  simp only [store, hmade, hencode, writeBeginning]
  cases hcut : made.write (outputPath o script ".json")
      (.text (c.printUpTo script.path u.before u.id)) with
  | error e => cases hjson.symm.trans (Files.write_eq_error hcut content)
  | ok cut => exact ⟨cut, rfl, rfl⟩

/-- Without a report, the outputs are all that is written. -/
theorem store_of_encoded (hdocx : o.docx = false) {texts : List (String × String)}
    (hencode : descriptions.encode = .ok texts) :
    store host o script c descriptions fs =
      ((writeAll made (outputs o script c texts)).1,
        (writeAll made (outputs o script c texts)).2.elim .written .failed) := by
  simp only [store, hmade, hencode, writeOutputs, reports_of_not_docx hdocx]
  obtain ⟨written, failure⟩ := writeAll made (outputs o script c texts)
  cases failure <;> rfl

theorem chartWrites_of_encoded {texts : List (String × String)}
    (hencode : descriptions.encode = .ok texts) :
    chartWrites o script c descriptions fs = writesOf made (outputs o script c texts) := by
  rw [chartWrites, hmade, hencode]

end

/-- To store a chart is to write its outputs. -/
theorem files_store (hdocx : o.docx = false)
    (h : (store host o script c descriptions fs).2.abort? = none) :
    (store host o script c descriptions fs).1 =
      fs.takeUp o (chartWrites o script c descriptions fs) := by
  rw [Files.takeUp]
  cases hmade : fs.makeDirs o.outDir.toList with
  | error failure => rw [store_of_error host script c descriptions hmade]
  | ok made =>
    dsimp only
    cases hencode : descriptions.encode with
    | ok texts =>
      rw [store_of_encoded host script c descriptions hmade hdocx hencode,
        chartWrites_of_encoded script c descriptions hmade hencode, writeAll_writesOf]
    | error u =>
      cases hjson : made.write (outputPath o script ".json") (.text "") with
      | error e =>
        rw [store_of_refused host script c descriptions hmade hjson,
          chartWrites_of_refused script c descriptions hmade hjson, writeAll]
      | ok written =>
        obtain ⟨_, -, hstore⟩ :=
          store_of_unencodable host script c descriptions hmade hencode hjson
        rw [hstore] at h
        cases h

end

/-- What is written in a turn, if its script has a chart. -/
def Turn.writes? (host : Host) (o : Options) (t : Turn) : Option (List (List Char × Content)) :=
  (chart? host o.view t.start.files t.script).map fun (text, c) =>
    match t.start.described host o text c with
    | .ok descriptions => chartWrites o t.script c descriptions t.start.files
    | .error _ => []

/-- All that a run writes, script by script. -/
def runWrites (host : Host) (replies : List Reply) (o : Options) (fs : Files)
    (scripts : List Script) : List (List (List Char × Content)) :=
  (turns host o scripts (.initial replies o fs)).filterMap (Turn.writes? host o)

theorem Turn.files_finish_eq (hdocx : o.docx = false) {t : Turn}
    (h : (t.outcome host o).abort? = none) :
    (t.finish host o).files = (t.writes? host o).elim t.start.files (t.start.files.takeUp o) := by
  rw [writes?]
  cases hchart : chart? host o.view t.start.files t.script with
  | none => exact (of_no_chart h hchart).1
  | some found =>
    obtain ⟨text, c⟩ := found
    obtain ⟨descriptions, hdescribed, hfiles, houtcome⟩ := of_chart h hchart
    rw [houtcome] at h
    rw [hfiles, files_store host t.script c descriptions hdocx h, Option.map_some, Option.elim_some]
    dsimp only
    rw [hdescribed]

theorem files_afterAll_eq (hdocx : o.docx = false) {scripts : List Script} {s : State}
    (h : ∀ t ∈ turns host o scripts s, (t.outcome host o).abort? = none) :
    (afterAll host o scripts s).files =
      ((turns host o scripts s).filterMap (Turn.writes? host o)).foldl (Files.takeUp o)
        s.files := by
  induction scripts generalizing s with
  | nil => rfl
  | cons script rest ih =>
    rw [turns] at h ⊢
    obtain ⟨hfirst, hrest⟩ := List.forall_mem_cons.mp h
    rw [afterAll_cons, ih hrest, Turn.files_finish_eq hdocx hfirst, List.filterMap_cons]
    cases Turn.writes? host o ⟨script, s⟩ <;> rfl

/-- The files that a run leaves are those of its start with all that it writes. -/
theorem files_of_run_eq_ok (hdocx : o.docx = false) {replies : List Reply} {fs : Files}
    {scripts : List Script} (hscripts : scriptsAt fs o.path.toList = .ok scripts) {r : Result}
    (h : run host replies o fs = .ok r) :
    r.files = (runWrites host replies o fs scripts).foldl (Files.takeUp o) fs := by
  obtain ⟨hnone, -, rfl⟩ := (run_eq_ok_iff hscripts).mp h
  exact files_afterAll_eq hdocx hnone

end Flowchart.Batch
