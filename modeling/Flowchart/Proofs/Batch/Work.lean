import Flowchart.Proofs.Batch.Turns

/-! What the work on one script makes of the files, and how it ends. -/
namespace Flowchart.Batch

variable {host : Host} {o : Options}

/-- The text and the chart of a script that can be read and that there is something to show of. -/
def chart? (host : Host) (view : View) (fs : Files) (script : Script) :
    Option (List Char × Chart) :=
  match fs.read script.path.toList with
  | .error _ => none
  | .ok bytes =>
    match examine host view (scriptText bytes) with
    | .chart c => some (scriptText bytes, c)
    | _ => none

/-- The tree of a script that can be read goes too deep. -/
def GoesTooDeep (host : Host) (view : View) (fs : Files) (script : Script) (message : String) :
    Prop :=
  ∃ bytes, fs.read script.path.toList = .ok bytes ∧
    examine host view (scriptText bytes) = .tooDeep message

/-- The lines on a script that come before its chart is stored. -/
def scriptLines (host : Host) (o : Options) (fs : Files) (script : Script) : List String :=
  openingLine script ::
    match fs.read script.path.toList with
    | .error _ => []
    | .ok bytes => ((examine host o.view (scriptText bytes)).warning? o.view script.path).toList

/-- What is done with a script after these lines. -/
def proceed (host : Host) (o : Options) (fs : Files) (script : Script) :
    State → State × Outcome :=
  match fs.read script.path.toList with
  | .error e => fun s => (s, .failed e)
  | .ok bytes =>
    match examine host o.view (scriptText bytes) with
    | .tooDeep message => fun s => (s, .aborted (.tooDeep message))
    | .chart c => deliver host o script (scriptText bytes) c
    | _ => fun s => (s, .nothing)

theorem process_eq (script : Script) (s : State) :
    process host o script s =
      sayAll (host.progress o) (scriptLines host o s.files script) s
        (proceed host o s.files script) := by
  have hfiles (line : String) : (s.say line).files = s.files := rfl
  rw [process, scriptLines, sayAll_cons, sayAll_cons]
  cases host.progress o (openingLine script) with
  | some fault => rfl
  | none =>
    dsimp only
    rw [sayAll_nil, hfiles, proceed]
    cases s.files.read script.path.toList with
    | error e => rfl
    | ok bytes =>
      dsimp only
      cases examine host o.view (scriptText bytes) <;> rfl

theorem proceed_of_chart {fs : Files} {script : Script} {text : List Char} {c : Chart}
    (h : chart? host o.view fs script = some (text, c)) :
    proceed host o fs script = deliver host o script text c := by
  rw [chart?] at h
  rw [proceed]
  cases hread : fs.read script.path.toList with
  | error e =>
    rw [hread] at h
    cases h
  | ok bytes =>
    rw [hread] at h
    dsimp only at h ⊢
    generalize examine host o.view (scriptText bytes) = finding at h ⊢
    cases finding with
    | chart c' =>
      cases h
      rfl
    | _ => cases h

theorem proceed_of_goesTooDeep {fs : Files} {script : Script} {message : String} (s : State)
    (h : GoesTooDeep host o.view fs script message) :
    proceed host o fs script s = (s, .aborted (.tooDeep message)) := by
  obtain ⟨bytes, hread, hexamine⟩ := h
  simp only [proceed, hread, hexamine]

/-- Without a chart nothing is done. -/
theorem proceed_of_no_chart {fs : Files} {script : Script} (s : State)
    (h : chart? host o.view fs script = none) :
    ∃ outcome, proceed host o fs script s = (s, outcome) ∧
      (outcome = .nothing ∨ (∃ e, outcome = .failed e) ∨
        ∃ message, GoesTooDeep host o.view fs script message ∧
          outcome = .aborted (.tooDeep message)) := by
  rw [chart?] at h
  rw [proceed]
  cases hread : fs.read script.path.toList with
  | error e => exact ⟨_, rfl, .inr (.inl ⟨e, rfl⟩)⟩
  | ok bytes =>
    rw [hread] at h
    dsimp only at h ⊢
    generalize hexamine : examine host o.view (scriptText bytes) = finding at h ⊢
    cases finding with
    | faulty e => exact ⟨_, rfl, .inl rfl⟩
    | noFlow => exact ⟨_, rfl, .inl rfl⟩
    | nothingShown => exact ⟨_, rfl, .inl rfl⟩
    | tooDeep message => exact ⟨_, rfl, .inr (.inr ⟨message, ⟨bytes, hread, hexamine⟩, rfl⟩)⟩
    | chart c => cases h

/-- The descriptions of the functions of a chart, or why there are none. -/
def State.described (host : Host) (o : Options) (s : State) (text : List Char) (c : Chart) :
    Except String Descriptions :=
  (describeBy (host.progress o) text c.nodes s.describer).1

@[simp] theorem State.described_logged (s : State) (lines : List String) (text : List Char)
    (c : Chart) : (s.logged lines).described host o text c = s.described host o text c := rfl

section

variable {script : Script} {text : List Char} {c : Chart} {s : State}
  {descriptions : Descriptions}

/-- The state once the functions of a chart are described. -/
def State.heard (host : Host) (o : Options) (s : State) (text : List Char) (c : Chart) : State :=
  s.hear (describeBy (host.progress o) text c.nodes s.describer).2.1
    (describeBy (host.progress o) text c.nodes s.describer).2.2

theorem deliver_of_fault {fault : String} (h : s.described host o text c = .error fault) :
    deliver host o script text c s =
      (s.heard host o text c, .aborted (.description fault)) := by
  rw [State.described] at h
  simp only [deliver, State.heard, h]

theorem deliver_of_described (h : s.described host o text c = .ok descriptions) :
    deliver host o script text c s =
      let stored := store host o script c descriptions s.files
      let s := { s.heard host o text c with files := stored.1 }
      if stored.2 = .written then
        sayAll (host.progress o) [summary script.path c.diagram] s fun s => (s, .written)
      else (s, stored.2) := by
  rw [State.described] at h
  simp only [deliver, State.heard, h]
  rfl

/-- A chart is stored, and the line that tells this is shown or not. -/
theorem deliver_cases (script : Script) (h : s.described host o text c = .ok descriptions) :
    let stored := store host o script c descriptions s.files
    let done := deliver host o script text c s
    done.1.files = stored.1 ∧ done.1.done = s.done ∧
      (done.2 = stored.2 ∨ stored.2 = .written ∧ ∃ fault,
        host.progress o (summary script.path c.diagram) = some fault ∧
        done.2 = .aborted (.line fault)) := by
  intro stored done
  have heq : done = _ := deliver_of_described h
  simp only at heq
  split at heq
  · rename_i hwritten
    rcases sayAll_cases (host.progress o) [summary script.path c.diagram]
        { s.heard host o text c with files := stored.1 } fun s => (s, .written) with
      ⟨-, hshown⟩ | ⟨before, line, fault, hline, hfault, hrefused⟩
    · rw [heq, hshown]
      exact ⟨rfl, rfl, .inl hwritten.symm⟩
    · obtain rfl := List.mem_singleton.mp hline
      rw [heq, hrefused]
      exact ⟨rfl, rfl, .inr ⟨hwritten, fault, hfault, rfl⟩⟩
  · rw [heq]
    exact ⟨rfl, rfl, .inl rfl⟩

theorem abort?_deliver_eq_none_iff : (deliver host o script text c s).2.abort? = none ↔
    ∃ descriptions, s.described host o text c = .ok descriptions ∧
      (store host o script c descriptions s.files).2.abort? = none ∧
      ((store host o script c descriptions s.files).2 = .written →
        host.progress o (summary script.path c.diagram) = none) := by
  cases hdescribed : s.described host o text c with
  | error fault =>
    rw [deliver_of_fault hdescribed]
    simp [Outcome.abort?]
  | ok descriptions =>
    rw [deliver_of_described hdescribed]
    simp only [Except.ok.injEq, exists_eq_left']
    split
    · rename_i hwritten
      rw [abort?_sayAll_eq_none_iff]
      simp [hwritten, Outcome.abort?]
    · rename_i hwritten
      simp [hwritten]

/-- The work on a script with a chart, as long as its lines can be shown. -/
theorem process_of_chart (hchart : chart? host o.view s.files script = some (text, c))
    (hlines : ∀ line ∈ scriptLines host o s.files script, host.progress o line = none) :
    process host o script s =
      deliver host o script text c (s.logged (scriptLines host o s.files script)) := by
  rw [process_eq, sayAll_of_shown hlines, proceed_of_chart hchart]

theorem abort?_process_eq_none_iff : (process host o script s).2.abort? = none ↔
    (∀ line ∈ scriptLines host o s.files script, host.progress o line = none) ∧
      (proceed host o s.files script (s.logged (scriptLines host o s.files script))).2.abort? =
        none := by
  rw [process_eq, abort?_sayAll_eq_none_iff]

theorem done_proceed (fs : Files) : (proceed host o fs script s).1.done = s.done := by
  cases hchart : chart? host o.view fs script with
  | none =>
    obtain ⟨outcome, heq, -⟩ := proceed_of_no_chart s hchart
    rw [heq]
  | some found =>
    obtain ⟨text, c⟩ := found
    rw [proceed_of_chart hchart]
    cases hdescribed : s.described host o text c with
    | error fault =>
      rw [deliver_of_fault hdescribed]
      rfl
    | ok descriptions => exact (deliver_cases script hdescribed).2.1

theorem done_process (script : Script) (s : State) :
    (process host o script s).1.done = s.done := by
  rw [process_eq]
  rcases sayAll_cases (host.progress o) (scriptLines host o s.files script) s
      (proceed host o s.files script) with ⟨-, heq⟩ | ⟨_, _, _, -, -, heq⟩
  · rw [heq, done_proceed]
    rfl
  · rw [heq]
    rfl

end

/-- The line on a failure, if there was one. -/
def failureLines (script : Script) : Outcome → List String
  | .failed e => [failureLine script e]
  | _ => []

theorem attempt_eq (script : Script) (s : State) :
    attempt host o script s =
      let worked := process host o script s
      sayAll (host.progress o) (failureLines script worked.2) worked.1 fun s => (s, worked.2) := by
  rw [attempt]
  generalize process host o script s = worked
  obtain ⟨s', outcome⟩ := worked
  cases outcome <;> rfl

/-- A failure is told of, or the line on it cannot be shown. -/
theorem attempt_cases (host : Host) (o : Options) (script : Script) (s : State) :
    let worked := process host o script s
    ((∀ line ∈ failureLines script worked.2, host.progress o line = none) ∧
      attempt host o script s = (worked.1.logged (failureLines script worked.2), worked.2)) ∨
      ∃ e fault, worked.2 = .failed e ∧ host.progress o (failureLine script e) = some fault ∧
        attempt host o script s = (worked.1, .aborted (.line fault)) := by
  intro worked
  rw [attempt_eq, show process host o script s = worked from rfl]
  obtain ⟨s', outcome⟩ := worked
  dsimp only
  rcases sayAll_cases (host.progress o) (failureLines script outcome) s' fun s => (s, outcome) with
    hshown | ⟨-, line, fault, hline, hfault, -⟩
  · exact .inl hshown
  · cases outcome with
    | failed e =>
      obtain rfl := List.mem_singleton.mp hline
      exact .inr ⟨e, fault, rfl, hfault, by simp only [failureLines, sayAll, hfault]⟩
    | written => exact absurd hline List.not_mem_nil
    | nothing => exact absurd hline List.not_mem_nil
    | aborted a => exact absurd hline List.not_mem_nil

/-- The whole work on a script, if lines can be shown. -/
theorem attempt_of_showsTexts (h : host.ShowsTexts) (script : Script) (s : State) :
    attempt host o script s =
      let lines := scriptLines host o s.files script
      let worked := proceed host o s.files script (s.logged lines)
      (worked.1.logged (failureLines script worked.2), worked.2) := by
  rw [attempt_eq, process_eq]
  dsimp only
  rw [sayAll_of_shown fun line _ => h.progress line, sayAll_of_shown fun line _ => h.progress line]

theorem deliver_of_showsTexts (h : host.ShowsTexts) (script : Script) {text : List Char} {c : Chart}
    {s : State} {descriptions : Descriptions}
    (hdescribed : s.described host o text c = .ok descriptions) :
    let stored := store host o script c descriptions s.files
    let done := deliver host o script text c s
    done.1.files = stored.1 ∧ done.1.done = s.done ∧ done.2 = stored.2 := by
  obtain ⟨hfiles, hdone, houtcome⟩ := deliver_cases script hdescribed
  refine ⟨hfiles, hdone, houtcome.resolve_right ?_⟩
  rintro ⟨-, fault, hfault, -⟩
  exact absurd ((h.progress _).symm.trans hfault) (by simp)

namespace Turn

/-- What the turn comes to before a failure is told of. -/
def worked (host : Host) (o : Options) (t : Turn) : State × Outcome :=
  process host o t.script t.start

theorem files_finish (t : Turn) : (t.finish host o).files = (t.worked host o).1.files := by
  have hsettle (done : State × Outcome) : (settle done).files = done.1.files := by
    obtain ⟨s, outcome⟩ := done
    cases outcome <;> rfl
  rw [finish, hsettle]
  rcases attempt_cases host o t.script t.start with
    ⟨-, heq⟩ | ⟨e, fault, -, -, heq⟩
  · rw [heq]
    rfl
  · rw [heq]
    rfl

theorem done_finish (t : Turn) :
    (t.finish host o).done = t.start.done + if t.outcome host o = .written then 1 else 0 := by
  have hdone : (attempt host o t.script t.start).1.done = t.start.done := by
    rcases attempt_cases host o t.script t.start with
      ⟨-, heq⟩ | ⟨e, fault, -, -, heq⟩
    · rw [heq]
      exact done_process t.script t.start
    · rw [heq]
      exact done_process t.script t.start
  rw [finish, outcome, ← hdone]
  generalize attempt host o t.script t.start = done
  obtain ⟨s, outcome⟩ := done
  cases outcome <;> rfl

/-- A turn that does not abort ends as its work does, and a failure in it is told of. -/
theorem abort?_eq_none_iff_worked (t : Turn) : (t.outcome host o).abort? = none ↔
    (t.worked host o).2.abort? = none ∧ ∀ e, (t.worked host o).2 = .failed e →
      host.progress o (failureLine t.script e) = none := by
  rw [outcome, worked]
  rcases attempt_cases host o t.script t.start with
    ⟨hshown, heq⟩ | ⟨e, fault, hfailed, hfault, heq⟩
  · rw [heq]
    refine (and_iff_left fun e he => hshown _ ?_).symm
    rw [he]
    exact List.mem_singleton_self _
  · rw [heq]
    refine iff_of_false (by simp [Outcome.abort?]) fun h => ?_
    exact absurd ((h.2 e hfailed).symm.trans hfault) (by simp)

theorem outcome_eq_worked {t : Turn} (h : (t.outcome host o).abort? = none) :
    t.outcome host o = (t.worked host o).2 := by
  rw [outcome] at h ⊢
  rcases attempt_cases host o t.script t.start with
    ⟨-, heq⟩ | ⟨e, fault, -, -, heq⟩
  · rw [heq]
    rfl
  · rw [heq] at h
    cases h

/-- What the turn comes to if lines can be shown. -/
theorem worked_of_showsTexts (hshows : host.ShowsTexts) (t : Turn) :
    t.worked host o = proceed host o t.start.files t.script
        (t.start.logged (scriptLines host o t.start.files t.script)) ∧
      t.outcome host o = (t.worked host o).2 := by
  have hworked : t.worked host o = _ :=
    (process_eq t.script t.start).trans (sayAll_of_shown fun line _ => hshows.progress line)
  rw [hworked, outcome, attempt_of_showsTexts hshows]
  exact ⟨rfl, rfl⟩

/-- A turn with a chart that does not abort describes the chart and stores it. -/
theorem of_chart {t : Turn} (h : (t.outcome host o).abort? = none) {text : List Char} {c : Chart}
    (hchart : chart? host o.view t.start.files t.script = some (text, c)) :
    ∃ descriptions, t.start.described host o text c = .ok descriptions ∧
      let stored := store host o t.script c descriptions t.start.files
      (t.finish host o).files = stored.1 ∧ t.outcome host o = stored.2 := by
  have hworked := (t.abort?_eq_none_iff_worked.mp h).1
  obtain ⟨hlines, hproceed⟩ := abort?_process_eq_none_iff.mp hworked
  have heq : t.worked host o = _ := process_of_chart hchart hlines
  rw [heq] at hworked
  obtain ⟨descriptions, hdescribed, -, -⟩ := abort?_deliver_eq_none_iff.mp hworked
  refine ⟨descriptions, hdescribed, ?_⟩
  obtain ⟨hfiles, -, houtcome⟩ := deliver_cases t.script hdescribed
  rw [t.files_finish, outcome_eq_worked h, heq]
  refine ⟨hfiles, ?_⟩
  rcases houtcome with hsame | ⟨-, fault, -, haborted⟩
  · exact hsame
  · rw [haborted] at hworked
    cases hworked

/-- A turn without a chart that does not abort leaves the files as they are. -/
theorem of_no_chart {t : Turn} (h : (t.outcome host o).abort? = none)
    (hchart : chart? host o.view t.start.files t.script = none) :
    (t.finish host o).files = t.start.files ∧
      (t.outcome host o = .nothing ∨ ∃ e, t.outcome host o = .failed e) := by
  have hworked := (t.abort?_eq_none_iff_worked.mp h).1
  obtain ⟨hlines, -⟩ := abort?_process_eq_none_iff.mp hworked
  obtain ⟨outcome, heq, houtcome⟩ := proceed_of_no_chart
    (t.start.logged (scriptLines host o t.start.files t.script)) hchart
  have hsame : t.worked host o = _ := (process_eq t.script t.start).trans
    ((sayAll_of_shown hlines).trans heq)
  rw [t.files_finish, outcome_eq_worked h, hsame]
  refine ⟨rfl, ?_⟩
  rcases houtcome with hnothing | hfailed | ⟨message, -, rfl⟩
  · exact .inl hnothing
  · exact .inr hfailed
  · rw [hsame] at hworked
    cases hworked

end Turn

section

/-! Without a describer there is nothing to describe. -/

variable {s : State}

theorem State.described_of_none (h : s.describer = none) (text : List Char) (c : Chart) :
    s.described host o text c = .ok [] := by
  rw [described, h]
  rfl

theorem describer_sayAll {output : Output} {lines : List String} {next : State → State × Outcome}
    (hnext : ∀ s : State, s.describer = none → (next s).1.describer = none)
    (h : s.describer = none) : (sayAll output lines s next).1.describer = none := by
  rcases sayAll_cases output lines s next with ⟨-, heq⟩ | ⟨_, _, _, -, -, heq⟩
  · rw [heq]
    exact hnext _ h
  · rw [heq]
    exact h

theorem describer_deliver (h : s.describer = none) (script : Script) (text : List Char)
    (c : Chart) : (deliver host o script text c s).1.describer = none := by
  have hheard : (s.heard host o text c).describer = none := by
    rw [State.heard, h]
    rfl
  rw [deliver_of_described (s.described_of_none h text c)]
  dsimp only
  split
  · exact describer_sayAll (fun _ => id) hheard
  · exact hheard

theorem describer_proceed (h : s.describer = none) (fs : Files) (script : Script) :
    (proceed host o fs script s).1.describer = none := by
  cases hchart : chart? host o.view fs script with
  | none =>
    obtain ⟨outcome, heq, -⟩ := proceed_of_no_chart s hchart
    rw [heq]
    exact h
  | some found =>
    rw [proceed_of_chart hchart]
    exact describer_deliver h script found.1 found.2

theorem Turn.describer_finish {t : Turn} (h : t.start.describer = none) :
    (t.finish host o).describer = none := by
  have hattempt : (attempt host o t.script t.start).1.describer = none := by
    rw [attempt_eq, process_eq]
    refine describer_sayAll (fun _ => id) (describer_sayAll (fun s hs => ?_) h)
    exact describer_proceed hs t.start.files t.script
  rw [finish]
  generalize attempt host o t.script t.start = done at hattempt ⊢
  obtain ⟨s, outcome⟩ := done
  cases outcome <;> exact hattempt

end
end Flowchart.Batch
