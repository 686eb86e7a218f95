import Flowchart.Proofs.Batch.Work
import Mathlib.Data.List.Basic

/-! The lines that mark the turns of a log: one opens the work on a script, and one tells that a
script was passed over. -/
namespace Flowchart.Batch

/-- How the lines begin that mark a turn. -/
def markStarts : List String :=
  ["[INFO] ", "[WARN] Failed to process "]

namespace LogLine

/-- A line on the progress of a run. -/
def progress (text : WideText) : LogLine :=
  ⟨text, false⟩

def isMark (line : LogLine) : Bool :=
  markStarts.any fun start => (WideText.ofString start).isPrefixOf line.text

/-- A text with a beginning that differs from those of the marks begins no mark. -/
theorem isMark_append {start rest : WideText} {forced : Bool}
    (h : ∀ mark ∈ markStarts,
      (WideText.ofString mark).take start.length ≠
        start.take (WideText.ofString mark).length) :
    isMark ⟨start ++ rest, forced⟩ = false := by
  refine List.any_eq_false.mpr fun mark hmark hprefix => h mark hmark ?_
  have heq := List.prefix_iff_eq_take.mp (List.isPrefixOf_iff_prefix.mp hprefix)
  generalize WideText.ofString mark = mark at heq ⊢
  calc
    mark.take start.length
      = ((start ++ rest).take mark.length).take start.length := by rw [← heq]
    _ = ((start ++ rest).take start.length).take mark.length := by
        rw [List.take_take, List.take_take, Nat.min_comm]
    _ = start.take mark.length := by rw [List.take_left]

/-- The same for a line on progress. -/
theorem isMark_progress_append {start rest : String}
    (h : ∀ mark ∈ markStarts,
      (WideText.ofString mark).take (WideText.ofString start).length ≠
        (WideText.ofString start).take (WideText.ofString mark).length) :
    (progress (.ofString (start ++ rest))).isMark = false := by
  rw [progress, WideText.ofString_append]
  exact isMark_append h

theorem isMark_of_prefix {mark start rest : String} (hmark : mark ∈ markStarts)
    (h : mark.toList <+: start.toList) : (progress (.ofString (start ++ rest))).isMark = true := by
  refine List.any_eq_true.mpr ⟨mark, hmark, List.isPrefixOf_iff_prefix.mpr ?_⟩
  rw [progress, WideText.ofString_append]
  exact (h.map CodePoint.char).trans (List.prefix_append ..)

end LogLine

open LogLine

theorem isMark_openingLine (script : Script) :
    (progress (openingLine script)).isMark = true :=
  have hmark : "[INFO] " ∈ markStarts := List.mem_cons_self
  isMark_of_prefix hmark (by simp)

theorem isMark_failureLine (script : Script) (e : FileError) :
    (progress (failureLine script e)).isMark = true := by
  have heq : failureLine script e =
      "[WARN] Failed to process " ++ (script.path ++ (": " ++ e.message)) :=
    String.append_assoc.trans String.append_assoc
  exact heq ▸ isMark_of_prefix (List.mem_cons_of_mem _ List.mem_cons_self) List.prefix_rfl

namespace State

/-- The marks in the log. -/
def marks (s : State) : List LogLine :=
  s.log.filter LogLine.isMark

theorem marks_logged (s : State) (lines : List String) :
    (s.logged lines).marks =
      s.marks ++ (lines.map fun line : String => progress line).filter LogLine.isMark :=
  List.filter_append ..

theorem marks_logged_of_not_isMark (s : State) {lines : List String}
    (h : ∀ line ∈ lines, (progress (.ofString line)).isMark = false) :
    (s.logged lines).marks = s.marks := by
  have hnone : (lines.map fun line : String => progress line).filter LogLine.isMark = [] := by
    refine List.filter_eq_nil_iff.mpr fun line hline => ?_
    obtain ⟨text, htext, rfl⟩ := List.mem_map.mp hline
    simp [h text htext]
  rw [marks_logged, hnone, List.append_nil]

end State

section

private theorem isMark_of_mem_warn {output : Output} {d : Describer} {t : Transcript}
    {message line : WideText} (ht : ∀ line ∈ t.log, (progress line).isMark = false)
    (h : line ∈ (d.warn output t message).2.2.log) : (progress line).isMark = false := by
  rw [Describer.warn] at h
  split at h
  · rcases List.mem_append.mp h with h | h
    · exact ht line h
    · obtain rfl := List.mem_singleton.mp h
      exact isMark_append (by decide)
  · exact ht line h

private theorem isMark_of_mem_describe {output : Output} {d : Describer} {code : String}
    {line : WideText} (h : line ∈ (d.describe output code).2.2.log) :
    (progress line).isMark = false := by
  have hasked (key : String) : (progress (Describer.promptLine key)).isMark = false :=
    isMark_progress_append (by decide)
  have hcompleted : (progress Describer.completionLine).isMark = false :=
    isMark_progress_append (by decide)
  have hone (key : String) : ∀ line ∈ [Describer.promptLine key],
      (progress line).isMark = false :=
    List.forall_mem_singleton.mpr (hasked key)
  rw [Describer.describe] at h
  dsimp only at h
  split_ifs at h
  · exact absurd h List.not_mem_nil
  · split at h
    · exact absurd h List.not_mem_nil
    · split at h
      · exact isMark_of_mem_warn (fun line hline => absurd hline List.not_mem_nil) h
      · split at h
        · exact isMark_of_mem_warn (hone _) h
        · split at h
          · exact isMark_of_mem_warn (hone _) h
          · rcases List.mem_append.mp h with h | h
            · exact hone _ line h
            · obtain rfl := List.mem_singleton.mp h
              exact hcompleted

private theorem isMark_of_mem_describeOnto {output : Output} {d : Describer} {text : List Char}
    {done : Descriptions} {nodes : List FlowNode} {line : WideText}
    (h : line ∈ (d.describeOnto output text done nodes).2.2.log) :
    (progress line).isMark = false := by
  induction nodes generalizing d done with
  | nil => exact absurd h List.not_mem_nil
  | cons n rest ih =>
    rw [Describer.describeOnto] at h
    split at h
    · have hfirst := @isMark_of_mem_describe output d (Describer.codeOf text n.range) line
      split at h
      · rename_i hdescribe
        rw [hdescribe] at hfirst
        exact hfirst h
      · rename_i hdescribe
        rw [hdescribe] at hfirst
        exact (List.mem_append.mp h).elim hfirst ih
    · exact ih h

end

variable {host : Host} {o : Options}

theorem marks_heard (host : Host) (o : Options) (s : State) (text : List Char) (c : Chart) :
    (s.heard host o text c).marks = s.marks := by
  have hnone : ((describeBy (host.progress o) text c.nodes s.describer).2.2.log.map
      fun line => (⟨line, false⟩ : LogLine)).filter LogLine.isMark = [] := by
    refine List.filter_eq_nil_iff.mpr fun line hline => ?_
    obtain ⟨text', ht, rfl⟩ := List.mem_map.mp hline
    cases hd : s.describer with
    | none =>
      rw [hd] at ht
      exact absurd ht List.not_mem_nil
    | some d =>
      rw [hd] at ht
      exact Bool.eq_false_iff.mp (isMark_of_mem_describeOnto ht)
  refine (List.filter_append ..).trans ?_
  rw [hnone, List.append_nil]
  rfl

theorem isMark_of_warning? {finding : Finding} {view : View} {path line : String}
    (h : finding.warning? view path = some line) :
    (progress (.ofString line)).isMark = false := by
  cases finding with
  | tooDeep message => cases h
  | faulty e =>
    obtain rfl := Option.some.inj h
    simp only [String.append_assoc]
    exact isMark_progress_append (by decide)
  | noFlow =>
    obtain rfl := Option.some.inj h
    exact isMark_progress_append (by decide)
  | nothingShown =>
    obtain rfl := Option.some.inj h
    simp only [String.append_assoc]
    exact isMark_progress_append (by decide)
  | chart c =>
    obtain ⟨p, -, rfl⟩ := Option.map_eq_some_iff.mp h
    simp only [String.append_assoc]
    exact isMark_progress_append (by decide)

/-- Of the lines on a script that come before its chart is stored, the first is a mark. -/
theorem filter_isMark_scriptLines (host : Host) (o : Options) (fs : Files) (script : Script) :
    ((scriptLines host o fs script).map fun line : String => progress line).filter LogLine.isMark =
      [progress (openingLine script)] := by
  rw [scriptLines, List.map_cons, List.filter_cons_of_pos (isMark_openingLine script)]
  refine congrArg _ (List.filter_eq_nil_iff.mpr fun line hline => ?_)
  obtain ⟨text, htext, rfl⟩ := List.mem_map.mp hline
  split at htext
  · exact absurd htext List.not_mem_nil
  · exact Bool.eq_false_iff.mp (isMark_of_warning? (Option.mem_toList.mp htext))

theorem marks_deliver {script : Script} {text : List Char} {c : Chart} {s : State}
    (h : (deliver host o script text c s).2.abort? = none) :
    (deliver host o script text c s).1.marks = s.marks := by
  obtain ⟨descriptions, hdescribed, -, hsummary⟩ := abort?_deliver_eq_none_iff.mp h
  rw [deliver_of_described hdescribed, ← marks_heard host o s text c]
  dsimp only
  split
  · rename_i hwritten
    rw [sayAll_of_shown (List.forall_mem_singleton.mpr (hsummary hwritten))]
    refine State.marks_logged_of_not_isMark _ (List.forall_mem_singleton.mpr ?_)
    delta summary
    simp only [String.append_assoc]
    exact isMark_progress_append (by decide)
  · rfl

/-- The work on a script adds the line that opens it, and no other mark. -/
theorem marks_process {script : Script} {s : State}
    (h : (process host o script s).2.abort? = none) :
    (process host o script s).1.marks = s.marks ++ [progress (openingLine script)] := by
  obtain ⟨hlines, hproceed⟩ := abort?_process_eq_none_iff.mp h
  rw [process_eq, sayAll_of_shown hlines, ← filter_isMark_scriptLines host o s.files,
    ← State.marks_logged]
  cases hchart : chart? host o.view s.files script with
  | none =>
    obtain ⟨outcome, heq, -⟩ := proceed_of_no_chart
      (s.logged (scriptLines host o s.files script)) hchart
    rw [heq]
  | some found =>
    obtain ⟨text, c⟩ := found
    rw [proceed_of_chart hchart] at hproceed ⊢
    exact marks_deliver hproceed

theorem filter_isMark_failureLines (script : Script) (outcome : Outcome) :
    ((failureLines script outcome).map fun line : String => progress line).filter LogLine.isMark =
      (failureLines script outcome).map fun line : String => progress line := by
  refine List.filter_eq_self.mpr fun line hline => ?_
  obtain ⟨text, htext, rfl⟩ := List.mem_map.mp hline
  cases outcome with
  | failed e =>
    obtain rfl := List.mem_singleton.mp htext
    exact isMark_failureLine script e
  | written => exact absurd htext List.not_mem_nil
  | nothing => exact absurd htext List.not_mem_nil
  | aborted a => exact absurd htext List.not_mem_nil

/-- The marks that a turn leaves: the line that opens it, and a warning if it failed. -/
def Turn.marks (host : Host) (o : Options) (t : Turn) : List LogLine :=
  (openingLine t.script :: failureLines t.script (t.outcome host o)).map
    fun line : String => progress line

theorem marks_finish {t : Turn} (h : (t.outcome host o).abort? = none) :
    (t.finish host o).marks = t.start.marks ++ t.marks host o := by
  have hsettle (done : State × Outcome) : (settle done).marks = done.1.marks := by
    obtain ⟨s, outcome⟩ := done
    cases outcome <;> rfl
  obtain ⟨hworked, htold⟩ := t.abort?_eq_none_iff_worked.mp h
  have hmarks : (t.worked host o).1.marks = _ := marks_process hworked
  rw [Turn.finish, hsettle, Turn.marks, Turn.outcome_eq_worked h]
  rcases attempt_cases host o t.script t.start with
    ⟨-, heq⟩ | ⟨e, fault, hfailed, hfault, -⟩
  · rw [Turn.worked] at hmarks ⊢
    rw [heq, State.marks_logged, hmarks, filter_isMark_failureLines, List.append_assoc]
    rfl
  · exact absurd ((htold e hfailed).symm.trans hfault) (by simp)

theorem marks_afterAll {scripts : List Script} {s : State}
    (h : ∀ t ∈ turns host o scripts s, (t.outcome host o).abort? = none) :
    (afterAll host o scripts s).marks =
      s.marks ++ (turns host o scripts s).flatMap (Turn.marks host o) := by
  induction scripts generalizing s with
  | nil => exact (List.append_nil _).symm
  | cons script rest ih =>
    rw [turns] at h ⊢
    obtain ⟨hfirst, hrest⟩ := List.forall_mem_cons.mp h
    rw [afterAll_cons, ih hrest, marks_finish hfirst, List.flatMap_cons, List.append_assoc]

/-- The marks in the log of a run are those of its turns, one turn after the other. -/
theorem marks_result {scripts : List Script} {replies : List Reply} {fs : Files}
    (h : ∀ t ∈ turns host o scripts (.initial replies o fs), (t.outcome host o).abort? = none) :
    ((afterAll host o scripts (.initial replies o fs)).result o).log.filter LogLine.isMark =
      (turns host o scripts (.initial replies o fs)).flatMap (Turn.marks host o) := by
  have hclosing (done : Nat) : ([⟨totalLine, false⟩, ⟨doneLine o done, true⟩] :
      List LogLine).filter LogLine.isMark = [] := by
    refine List.filter_eq_nil_iff.mpr fun line hline => Bool.eq_false_iff.mp ?_
    rcases List.mem_pair.mp hline with rfl | rfl
    · exact isMark_progress_append (by decide)
    · delta doneLine
      simp only [String.append_assoc, WideText.ofString_append]
      exact isMark_append (by decide)
  calc
    _ = (afterAll host o scripts (.initial replies o fs)).marks ++ [] := by
      rw [← hclosing (afterAll host o scripts (.initial replies o fs)).done]
      exact List.filter_append ..
    _ = _ := by rw [List.append_nil, marks_afterAll h]; rfl

end Flowchart.Batch
