import Flowchart.Proofs.Batch.Alike
import Flowchart.Proofs.Batch.Writes
import Flowchart.Proofs.Flow.Construct
import Flowchart.Proofs.Flow.OutlineEquation
import Flowchart.Proofs.Json.Breaks
import Flowchart.Proofs.Text.Utf8

/-! The turn of a script in two runs with different describers. What it leaves and writes is alike,
unless it is broken off over a description. -/
namespace Flowchart

/-- The script is nothing but objects that stand as statements. -/
structure Tree.IsObjects (t : Tree) : Prop where
  type : t.type = "program"
  statements : ∀ s ∈ t.statements, s.type = "expression_statement" ∧
    ∃ value, s.firstStatement?.bind Tree.unwrap = some value ∧ value.type = "object"

theorem Tree.IsObjects.extract {t : Tree} (h : t.IsObjects) (src : Source) :
    extract src t = [] := by
  have hblock : t.construct = .block := construct_of_mem (by simp [h.type, constructs])
  have hstatement (s : Tree) (hs : s ∈ t.statements) : s.outline src none = [] := by
    obtain ⟨htype, value, hvalue, hobject⟩ := h.statements s hs
    rw [outline_eq, Plan.ofTree, construct_eq_expression_iff.mpr htype]
    simp only [Plan.expression, hvalue, hobject]
    rfl
  have houtline : t.outline src none = [] := by
    rw [outline_eq, Plan.ofTree, hblock]
    refine List.eq_nil_iff_forall_not_mem.mpr fun part hpart => ?_
    obtain ⟨plan, hplan, hpart⟩ := Plan.mem_resolveAll.mp hpart
    obtain ⟨s, hs, rfl⟩ := List.mem_map.mp hplan
    rw [Plan.resolve, hstatement s hs] at hpart
    exact absurd hpart List.not_mem_nil
  rw [Flowchart.extract, Builder.walk, Builder.add, houtline]
  rfl

namespace Batch

/-- The parser takes the text of an object for an expression, unless it finds a fault in it, and its
tree does not go too deep. A script can be a link to an output, and is then such a text. -/
def ReadsObjects (host : Host) : Prop :=
  ∀ members ≠ [], (host.parse (Json.obj members).print).hasFault = true ∨
    (host.parse (Json.obj members).print).IsObjects ∧
      ∀ view, host.tooDeep? view (Json.obj members).print = none

theorem unifyLineEnds_of_not_mem {text : List Char} (h : '\r' ∉ text) :
    unifyLineEnds text = text := by
  induction text with
  | nil => rfl
  | cons c rest ih =>
    obtain ⟨hc, hrest⟩ := not_or.mp (List.mem_cons.not.mp h)
    rw [unifyLineEnds, ih hrest]
    · rintro rest' rfl
      exact absurd rfl hc
    · rintro rfl
      exact absurd rfl hc

/-- A text of JSON is read as it was written. -/
theorem scriptText_print (v : Json) : scriptText (Utf8.encode v.print.toList) = v.print.toList := by
  rw [scriptText, Utf8.decodeDropping_encode, unifyLineEnds_of_not_mem v.return_not_mem_print]

section

variable {host : Host} {o : Options} {fs fs' : Files} {script : Script}

/-- A script that is the text of an object is done with. -/
theorem examine_object (hobjects : ReadsObjects host) (view : View) {v : Json}
    (hv : ∃ members ≠ [], v = .obj members) :
    (∃ e, examine host view v.print.toList = .faulty e) ∨
      examine host view v.print.toList = .noFlow := by
  obtain ⟨members, hne, rfl⟩ := hv
  rw [examine, Tree.check, String.ofList_toList]
  rcases hobjects members hne with hfault | ⟨hobject, hdeep⟩
  · rw [if_pos hfault]
    exact .inl ⟨_, rfl⟩
  · split
    · exact .inl ⟨_, rfl⟩
    · rw [hdeep view, hobject.extract]
      exact .inr rfl

theorem proceed_object (hobjects : ReadsObjects host) {v : Json}
    (hv : ∃ members ≠ [], v = .obj members)
    (hread : fs.read script.path.toList = .ok (Utf8.encode v.print.toList)) (s : State) :
    chart? host o.view fs script = none ∧ proceed host o fs script s = (s, .nothing) := by
  rcases examine_object hobjects o.view hv with ⟨e, he⟩ | he
  · simp only [chart?, proceed, hread, scriptText_print, he, and_self]
  · simp only [chart?, proceed, hread, scriptText_print, he, and_self]

/-- Scripts have the same charts in alike files. -/
theorem Files.Alike.chart?_eq (h : fs.Alike fs') (hobjects : ReadsObjects host) (o : Options)
    (script : Script) : chart? host o.view fs script = chart? host o.view fs' script := by
  have hread := h.read script.path.toList
  generalize hfirst : fs.read script.path.toList = bytes,
    hsecond : fs'.read script.path.toList = bytes' at hread
  cases hread with
  | error e => simp only [chart?, hfirst, hsecond]
  | ok hbytes =>
    rcases hbytes with rfl | ⟨v, v', hv, rfl, rfl⟩
    · simp only [chart?, hfirst, hsecond]
    · obtain ⟨hmembers, hmembers'⟩ := hv.exists_members
      rw [(proceed_object hobjects hmembers hfirst ⟨fs, none, [], [], 0⟩).1,
        (proceed_object hobjects hmembers' hsecond ⟨fs', none, [], [], 0⟩).1]

/-- Outputs to one path. The text of the chart is the same, and the values differ at most in their
descriptions. -/
inductive OutputAlike (o : Options) : List Char × Content → List Char × Content → Prop
  | json (script : Script) {v v' : Json} (h : v.SameBut "descriptions" v') :
      OutputAlike o (outputPath o script ".json", .text v.print)
        (outputPath o script ".json", .text v'.print)
  | mmd (script : Script) (text : String) :
      OutputAlike o (outputPath o script ".mmd", .text text)
        (outputPath o script ".mmd", .text text)

theorem OutputAlike.path_eq {w w' : List Char × Content} (h : OutputAlike o w w') : w.1 = w'.1 := by
  cases h <;> rfl

theorem OutputAlike.content {w w' : List Char × Content} (h : OutputAlike o w w') :
    w.2.Alike w'.2 := by
  cases h with
  | json script h => exact .json h
  | mmd script text => exact .same _

theorem outputs_alike (o : Options) (script : Script) (c : Chart)
    (descriptions descriptions' : List (String × String)) :
    List.Forall₂ (OutputAlike o) (outputs o script c descriptions)
      (outputs o script c descriptions') :=
  .cons (.json script (c.sameBut_toJson script.path descriptions descriptions'))
    (.cons (.mmd script c.mermaid) .nil)

theorem Files.Alike.writeAll (h : fs.Alike fs') {ws ws' : List (List Char × Content)}
    (hws : List.Forall₂ (OutputAlike o) ws ws') :
    (writeAll fs ws).1.Alike (writeAll fs' ws').1 ∧ (writeAll fs ws).2 = (writeAll fs' ws').2 ∧
      List.Forall₂ (OutputAlike o) (writesOf fs ws) (writesOf fs' ws') := by
  induction hws generalizing fs fs' with
  | nil => exact ⟨h, rfl, .nil⟩
  | @cons w w' rest rest' hw _ ih =>
    obtain ⟨path, content⟩ := w
    obtain ⟨path', content'⟩ := w'
    obtain rfl : path = path' := hw.path_eq
    have hwrite := h.write path hw.content
    simp only [Batch.writeAll, writesOf]
    generalize fs.write path content = done, fs'.write path content' = done' at hwrite
    cases hwrite with
    | error e => exact ⟨h, rfl, .nil⟩
    | ok hdone =>
      obtain ⟨hfiles, hfailure, hwrites⟩ := ih hdone
      exact ⟨hfiles, hfailure, .cons hw hwrites⟩

/-- The reason is a description: one that cannot be encoded, or a line on one that has failed. -/
def Abort.IsDescription : Abort → Prop
  | description _ => True
  | unencodable _ => True
  | _ => False

/-- The run is broken off over a description. -/
def Outcome.IsDescription (outcome : Outcome) : Prop :=
  ∃ a ∈ outcome.abort?, a.IsDescription

/-- The storing of a chart in two runs: the same is left and written but for the descriptions. -/
structure StoredAlike (host : Host) (o : Options) (script : Script) (c : Chart)
    (descriptions descriptions' : Descriptions) (fs fs' : Files) : Prop where
  files :
    (store host o script c descriptions fs).1.Alike (store host o script c descriptions' fs').1
  outcome : (store host o script c descriptions fs).2 = (store host o script c descriptions' fs').2
  writes : List.Forall₂ (OutputAlike o) (chartWrites o script c descriptions fs)
    (chartWrites o script c descriptions' fs')

section

variable {script : Script} {c : Chart} {descriptions descriptions' : Descriptions}
  {made made' : Files} (hmade : fs.makeDirs o.outDir.toList = .ok made)
  (hmade' : fs'.makeDirs o.outDir.toList = .ok made')

include hmade

theorem isDescription_store {u : Unencodable} (hencode : descriptions.encode = .error u)
    {content : Content} {written : Files}
    (hjson : made.write (outputPath o script ".json") content = .ok written) :
    (store host o script c descriptions fs).2.IsDescription := by
  obtain ⟨cut, -, hstore⟩ :=
    store_of_unencodable host script c descriptions hmade hencode hjson
  rw [hstore]
  exact ⟨_, rfl, trivial⟩

include hmade'

theorem StoredAlike.of_refused (h : made.Alike made') {content : Content} {e : FileError}
    (hjson : made.write (outputPath o script ".json") content = .error e)
    (hjson' : made'.write (outputPath o script ".json") content = .error e) :
    StoredAlike host o script c descriptions descriptions' fs fs' := by
  have hstore := store_of_refused host script c descriptions hmade hjson
  have hstore' := store_of_refused host script c descriptions' hmade' hjson'
  constructor
  · rw [hstore, hstore']
    exact h
  · rw [hstore, hstore']
  · rw [chartWrites_of_refused script c descriptions hmade hjson,
      chartWrites_of_refused script c descriptions' hmade' hjson']
    exact .nil

theorem StoredAlike.of_encoded (h : made.Alike made') (hdocx : o.docx = false)
    {texts texts' : List (String × String)} (hencode : descriptions.encode = .ok texts)
    (hencode' : descriptions'.encode = .ok texts') :
    StoredAlike host o script c descriptions descriptions' fs fs' := by
  have hstore := store_of_encoded host script c descriptions hmade hdocx hencode
  have hstore' := store_of_encoded host script c descriptions' hmade' hdocx hencode'
  obtain ⟨hfiles, hfailure, houtputs⟩ := h.writeAll (outputs_alike o script c texts texts')
  constructor
  · rw [hstore, hstore']
    exact hfiles
  · rw [hstore, hstore', hfailure]
  · rw [chartWrites_of_encoded script c descriptions hmade hencode,
      chartWrites_of_encoded script c descriptions' hmade' hencode']
    exact houtputs

end

/-- Without a report, a chart is stored alike whatever the descriptions are, unless one of them
cannot be encoded. -/
theorem Files.Alike.store (host : Host) (h : fs.Alike fs') (hdocx : o.docx = false)
    (script : Script) (c : Chart) (descriptions descriptions' : Descriptions) :
    (store host o script c descriptions fs).2.IsDescription ∨
      (store host o script c descriptions' fs').2.IsDescription ∨
      StoredAlike host o script c descriptions descriptions' fs fs' := by
  have hagree := h.makeDirs o.outDir.toList
  generalize hmade : fs.makeDirs o.outDir.toList = result,
    hmade' : fs'.makeDirs o.outDir.toList = result' at hagree
  cases hagree with
  | failed e hfiles =>
    have hstore := store_of_error host script c descriptions hmade
    have hstore' := store_of_error host script c descriptions' hmade'
    refine .inr (.inr ⟨?_, ?_, ?_⟩)
    · rw [hstore, hstore']
      exact hfiles
    · rw [hstore, hstore']
    · rw [chartWrites_of_error script c descriptions hmade,
        chartWrites_of_error script c descriptions' hmade']
      exact .nil
  | @made made made' halike =>
    -- Whether the first output can be written is the same in both files, and for any content.
    have hagree := halike.write (outputPath o script ".json") (.same (.text ""))
    generalize hjson : made.write (outputPath o script ".json") (.text "") = result,
      hjson' : made'.write (outputPath o script ".json") (.text "") = result' at hagree
    cases hagree with
    | error e => exact .inr (.inr (.of_refused hmade hmade' halike hjson hjson'))
    | ok =>
      cases hencode : descriptions.encode with
      | error u => exact .inl (isDescription_store hmade hencode hjson)
      | ok texts =>
        cases hencode' : descriptions'.encode with
        | error u => exact .inr (.inl (isDescription_store hmade' hencode' hjson'))
        | ok texts' =>
          exact .inr (.inr (.of_encoded hmade hmade' halike hdocx hencode hencode'))

/-- Alike files, and as many scripts done. -/
structure State.Alike (s s' : State) : Prop where
  files : s.files.Alike s'.files
  done : s.done = s'.done

/-- The work on a script in two runs: it ends alike, unless one of them is broken off over a
description. -/
def DoneAlike (done done' : State × Outcome) : Prop :=
  done.2.IsDescription ∨ done'.2.IsDescription ∨ (done.1.Alike done'.1 ∧ done.2 = done'.2)

section

variable {s s' : State} (h : s.Alike s') (hshows : host.ShowsTexts) (hdocx : o.docx = false)

include h hshows hdocx

theorem State.Alike.deliver (script : Script) (text : List Char) (c : Chart) :
    DoneAlike (deliver host o script text c s) (deliver host o script text c s') := by
  cases hdescribed : s.described host o text c with
  | error fault =>
    rw [deliver_of_fault hdescribed]
    exact .inl ⟨_, rfl, trivial⟩
  | ok descriptions =>
    cases hdescribed' : s'.described host o text c with
    | error fault =>
      rw [deliver_of_fault hdescribed']
      exact .inr (.inl ⟨_, rfl, trivial⟩)
    | ok descriptions' =>
      obtain ⟨hfiles, hdone, hout⟩ := deliver_of_showsTexts hshows script hdescribed
      obtain ⟨hfiles', hdone', hout'⟩ := deliver_of_showsTexts hshows script hdescribed'
      rw [DoneAlike, hout, hout']
      have hstore := h.files.store host hdocx script c descriptions descriptions'
      refine hstore.imp_right (·.imp_right ?_)
      intro hstored
      refine ⟨⟨?_, ?_⟩, hstored.outcome⟩
      · rw [hfiles, hfiles']
        exact hstored.files
      · rw [hdone, hdone', h.done]

theorem State.Alike.proceed (hobjects : ReadsObjects host) (script : Script) :
    DoneAlike (proceed host o s.files script s) (proceed host o s'.files script s') := by
  have hread := h.files.read script.path.toList
  generalize hfirst : s.files.read script.path.toList = bytes,
    hsecond : s'.files.read script.path.toList = bytes' at hread
  cases hread with
  | error e =>
    simp only [Batch.proceed, hfirst, hsecond]
    exact .inr (.inr ⟨h, rfl⟩)
  | @ok bytes _ hbytes =>
    rcases hbytes with rfl | ⟨v, v', hv, rfl, rfl⟩
    · simp only [Batch.proceed, hfirst, hsecond]
      cases examine host o.view (scriptText bytes) with
      | chart c => exact h.deliver hshows hdocx script (scriptText bytes) c
      | tooDeep message => exact .inr (.inr ⟨h, rfl⟩)
      | faulty e => exact .inr (.inr ⟨h, rfl⟩)
      | noFlow => exact .inr (.inr ⟨h, rfl⟩)
      | nothingShown => exact .inr (.inr ⟨h, rfl⟩)
    · obtain ⟨hmembers, hmembers'⟩ := hv.exists_members
      rw [(proceed_object hobjects hmembers hfirst s).2,
        (proceed_object hobjects hmembers' hsecond s').2]
      exact .inr (.inr ⟨h, rfl⟩)

theorem State.Alike.attempt (hobjects : ReadsObjects host) (script : Script) :
    DoneAlike (attempt host o script s) (attempt host o script s') := by
  rw [attempt_of_showsTexts hshows, attempt_of_showsTexts hshows]
  have hlogged (lines lines' : List String) : (s.logged lines).Alike (s'.logged lines') :=
    ⟨h.files, h.done⟩
  refine ((hlogged _ _).proceed hshows hdocx hobjects script).imp_right (·.imp_right ?_)
  rintro ⟨⟨hfiles, hdone⟩, houtcome⟩
  exact ⟨⟨hfiles, hdone⟩, houtcome⟩

end

/-- The same script in alike states. -/
structure Turn.Alike (t t' : Turn) : Prop where
  script : t.script = t'.script
  start : t.start.Alike t'.start

section

variable {t t' : Turn} (h : t.Alike t') (hshows : host.ShowsTexts) (hdocx : o.docx = false)
  (hobjects : ReadsObjects host)

include h hshows hdocx hobjects

theorem Turn.Alike.finish :
    (t.outcome host o).IsDescription ∨ (t'.outcome host o).IsDescription ∨
      (t.outcome host o = t'.outcome host o ∧ (t.finish host o).Alike (t'.finish host o)) := by
  have hdone := h.start.attempt hshows hdocx hobjects t.script
  rw [Turn.outcome, Turn.outcome, Turn.finish, Turn.finish, ← h.script]
  refine hdone.imp_right (·.imp_right ?_)
  rintro ⟨halike, houtcome⟩
  refine ⟨houtcome, ?_⟩
  generalize attempt host o t.script t.start = done at halike houtcome ⊢
  generalize attempt host o t.script t'.start = done' at halike houtcome ⊢
  obtain ⟨s, outcome⟩ := done
  obtain ⟨s', outcome'⟩ := done'
  obtain rfl : outcome = outcome' := houtcome
  cases outcome with
  | written => exact ⟨halike.files, congrArg (· + 1) halike.done⟩
  | nothing => exact halike
  | failed e => exact halike
  | aborted a => exact halike

omit hshows in
/-- What two turns write that go on. -/
theorem Turn.Alike.writes? (hgoes : (t.outcome host o).abort? = none)
    (hgoes' : (t'.outcome host o).abort? = none) :
    Option.Rel (List.Forall₂ (OutputAlike o)) (t.writes? host o) (t'.writes? host o) := by
  have hsame := h.start.files.chart?_eq hobjects o t'.script
  rw [Turn.writes?, Turn.writes?, h.script, hsame]
  cases hchart' : chart? host o.view t'.start.files t'.script with
  | none => exact .none
  | some found =>
    obtain ⟨text, c⟩ := found
    have hchart : chart? host o.view t.start.files t.script = some (text, c) := by
      rw [h.script, hsame, hchart']
    obtain ⟨descriptions, hdescribed, -, houtcome⟩ := Turn.of_chart hgoes hchart
    obtain ⟨descriptions', hdescribed', -, houtcome'⟩ := Turn.of_chart hgoes' hchart'
    rw [houtcome, h.script] at hgoes
    rw [houtcome'] at hgoes'
    refine .some ?_
    dsimp only
    rw [hdescribed, hdescribed']
    rcases h.start.files.store host hdocx t'.script c descriptions descriptions' with
      ⟨a, ha, -⟩ | ⟨a, ha, -⟩ | hstored
    · exact absurd (hgoes.symm.trans ha) (by simp)
    · exact absurd (hgoes'.symm.trans ha) (by simp)
    · exact hstored.writes

end

end
end Batch
end Flowchart
