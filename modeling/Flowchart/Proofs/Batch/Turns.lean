import Flowchart.Batch.Run

/-! A batch as a series of turns: each script is worked on in the state that the turns before its
own have left. -/
namespace Flowchart.Batch

def Outcome.abort? : Outcome → Option Abort
  | aborted a => some a
  | _ => none

theorem Outcome.abort?_eq_some_iff {outcome : Outcome} {a : Abort} :
    outcome.abort? = some a ↔ outcome = .aborted a := by
  cases outcome <;> simp [abort?]

namespace State

/-- The state with some lines in its log. -/
def logged (s : State) (lines : List String) : State :=
  { s with log := s.log ++ lines.map fun line => ⟨line, false⟩ }

theorem logged_nil (s : State) : s.logged [] = s := by
  rw [logged, List.map_nil, List.append_nil]

theorem logged_cons (s : State) (line : String) (rest : List String) :
    s.logged (line :: rest) = (s.say line).logged rest := by
  rw [logged, logged, say, List.map_cons, List.append_cons]

@[simp] theorem files_logged (s : State) (lines : List String) : (s.logged lines).files = s.files :=
  rfl

@[simp] theorem describer_logged (s : State) (lines : List String) :
    (s.logged lines).describer = s.describer :=
  rfl

@[simp] theorem done_logged (s : State) (lines : List String) : (s.logged lines).done = s.done :=
  rfl

end State

section

variable {output : Output} {lines : List String} {s : State} {next : State → State × Outcome}

theorem sayAll_nil : sayAll output [] s next = next s :=
  rfl

theorem sayAll_cons {line : String} {rest : List String} :
    sayAll output (line :: rest) s next =
      match output line with
      | some fault => (s, .aborted (.line fault))
      | none => sayAll output rest (s.say line) next :=
  rfl

/-- Logging goes on to the end, or breaks off somewhere in between. -/
theorem sayAll_cases (output : Output) (lines : List String) (s : State)
    (next : State → State × Outcome) :
    ((∀ line ∈ lines, output line = none) ∧ sayAll output lines s next = next (s.logged lines)) ∨
      ∃ before line fault, line ∈ lines ∧ output line = some fault ∧
        sayAll output lines s next = (s.logged before, .aborted (.line fault)) := by
  induction lines generalizing s with
  | nil => exact .inl ⟨by simp, by rw [sayAll, s.logged_nil]⟩
  | cons line rest ih =>
    rw [sayAll]
    cases hline : output line with
    | some fault =>
      exact .inr ⟨[], line, fault, List.mem_cons_self, hline, by rw [s.logged_nil]⟩
    | none =>
      rcases ih (s.say line) with ⟨hrest, heq⟩ | ⟨before, line', fault, hmem, hfault, heq⟩
      · exact .inl ⟨List.forall_mem_cons.mpr ⟨hline, hrest⟩, by rw [s.logged_cons]; exact heq⟩
      · refine .inr ⟨line :: before, line', fault, List.mem_cons_of_mem line hmem, hfault, ?_⟩
        rw [s.logged_cons]
        exact heq

theorem sayAll_of_shown (h : ∀ line ∈ lines, output line = none) :
    sayAll output lines s next = next (s.logged lines) := by
  rcases sayAll_cases output lines s next with ⟨-, heq⟩ | ⟨_, line, fault, hmem, hfault, -⟩
  · exact heq
  · exact absurd ((h line hmem).symm.trans hfault) (by simp)

theorem abort?_sayAll_eq_none_iff : (sayAll output lines s next).2.abort? = none ↔
    (∀ line ∈ lines, output line = none) ∧ (next (s.logged lines)).2.abort? = none := by
  rcases sayAll_cases output lines s next with ⟨h, heq⟩ | ⟨_, line, fault, hmem, hfault, heq⟩
  · rw [heq]
    exact (and_iff_right h).symm
  · rw [heq]
    refine iff_of_false (by simp [Outcome.abort?]) fun h => ?_
    exact absurd ((h.1 line hmem).symm.trans hfault) (by simp)

end

/-- What the work on a script leaves for the next one. -/
def settle : State × Outcome → State
  | (s, .written) => { s with done := s.done + 1 }
  | (s, _) => s

/-- A script and the state in which its turn comes. -/
structure Turn where
  script : Script
  start : State

section

variable (host : Host) (o : Options)

namespace Turn

def outcome (t : Turn) : Outcome :=
  (attempt host o t.script t.start).2

/-- The state in which the next turn begins. -/
def finish (t : Turn) : State :=
  settle (attempt host o t.script t.start)

/-- How a run breaks off in the turn, if it does. -/
def break? (t : Turn) : Option Break :=
  (t.outcome host o).abort?.map fun a => ⟨a, t.finish host o⟩

end Turn

/-- The turns of all scripts, whether or not one of them breaks the run off. -/
def turns : List Script → State → List Turn
  | [], _ => []
  | script :: rest, s => ⟨script, s⟩ :: turns rest (Turn.finish host o ⟨script, s⟩)

/-- The state after the turns of all scripts. -/
def afterAll (scripts : List Script) (s : State) : State :=
  scripts.foldl (fun s script => Turn.finish host o ⟨script, s⟩) s

end

variable {host : Host} {o : Options}

theorem Turn.break?_eq_none_iff (t : Turn) :
    t.break? host o = none ↔ (t.outcome host o).abort? = none := by
  rw [break?, Option.map_eq_none_iff]

@[simp] theorem afterAll_cons (script : Script) (rest : List Script) (s : State) :
    afterAll host o (script :: rest) s =
      afterAll host o rest (Turn.finish host o ⟨script, s⟩) := rfl

theorem map_script_turns (scripts : List Script) (s : State) :
    (turns host o scripts s).map (·.script) = scripts := by
  induction scripts generalizing s with
  | nil => rfl
  | cons script rest ih => rw [turns, List.map_cons, ih]

theorem processAll_cons (script : Script) (rest : List Script) (s : State) :
    processAll host o (script :: rest) s =
      match Turn.break? host o ⟨script, s⟩ with
      | some b => .error b
      | none => processAll host o rest (Turn.finish host o ⟨script, s⟩) := by
  rw [processAll]
  simp only [Turn.break?, Turn.finish, Turn.outcome]
  generalize attempt host o script s = done
  obtain ⟨s', outcome⟩ := done
  cases outcome <;> rfl

/-- A batch breaks off at the first turn that aborts. Without one it goes on to the end. -/
theorem processAll_eq (scripts : List Script) (s : State) :
    processAll host o scripts s =
      match (turns host o scripts s).findSome? (Turn.break? host o) with
      | some b => .error b
      | none => .ok (afterAll host o scripts s) := by
  induction scripts generalizing s with
  | nil => rfl
  | cons script rest ih =>
    rw [processAll_cons, turns, List.findSome?_cons, afterAll_cons]
    cases Turn.break? host o ⟨script, s⟩ with
    | some b => rfl
    | none => exact ih (Turn.finish host o ⟨script, s⟩)

theorem processAll_eq_ok_iff {scripts : List Script} {s s' : State} :
    processAll host o scripts s = .ok s' ↔
      (∀ t ∈ turns host o scripts s, (t.outcome host o).abort? = none) ∧
        afterAll host o scripts s = s' := by
  simp only [← Turn.break?_eq_none_iff]
  rw [processAll_eq]
  split
  · rename_i b hb
    obtain ⟨t, ht, htb⟩ := List.exists_of_findSome?_eq_some hb
    refine ⟨by simp, fun h => ?_⟩
    exact absurd (htb.symm.trans (h.1 t ht)) (by simp)
  · rename_i hnone
    rw [Except.ok.injEq]
    exact (and_iff_right (List.findSome?_eq_none_iff.mp hnone)).symm

/-- Every line without surrogates can be shown. -/
def Host.ShowsTexts (host : Host) : Prop :=
  ∀ line : String, host.output line = none

theorem Host.ShowsTexts.progress (h : host.ShowsTexts) (line : String) :
    host.progress o line = none := by
  rw [Host.progress]
  split
  · rfl
  · exact h line

/-- The last lines of a run can be shown. -/
def Host.ShowsEnd (host : Host) (o : Options) (done : Nat) : Prop :=
  host.progress o totalLine = none ∧ host.output (doneLine o done) = none

theorem Host.ShowsTexts.showsEnd (h : host.ShowsTexts) (done : Nat) : host.ShowsEnd o done :=
  ⟨h.progress totalLine, h (doneLine o done)⟩

theorem conclude_eq_ok_iff {s : State} {r : Result} :
    conclude host o s = .ok r ↔ host.ShowsEnd o s.done ∧ s.result o = r := by
  rw [conclude, Host.ShowsEnd]
  cases host.progress o totalLine with
  | some fault => simp
  | none => cases host.output (doneLine o s.done) <;> simp

theorem run_eq {replies : List Reply} {fs : Files} {scripts : List Script}
    (hscripts : scriptsAt fs o.path.toList = .ok scripts) :
    run host replies o fs =
      (processAll host o scripts (.initial replies o fs)).bind (conclude host o) := by
  simp only [run, hscripts]
  rfl

/-- A run gives a result just when no turn aborts and its last lines can be shown. -/
theorem run_eq_ok_iff {replies : List Reply} {fs : Files} {scripts : List Script} {r : Result}
    (hscripts : scriptsAt fs o.path.toList = .ok scripts) :
    run host replies o fs = .ok r ↔
      (∀ t ∈ turns host o scripts (.initial replies o fs), (t.outcome host o).abort? = none) ∧
        host.ShowsEnd o (afterAll host o scripts (.initial replies o fs)).done ∧
        (afterAll host o scripts (.initial replies o fs)).result o = r := by
  rw [run_eq hscripts]
  cases hall : processAll host o scripts (.initial replies o fs) with
  | error b =>
    refine ⟨by simp [Except.bind], fun h => ?_⟩
    exact absurd (processAll_eq_ok_iff.mpr ⟨h.1, rfl⟩) (by simp [hall])
  | ok s =>
    obtain ⟨hnone, rfl⟩ := processAll_eq_ok_iff.mp hall
    rw [Except.bind, conclude_eq_ok_iff]
    exact (and_iff_right hnone).symm

end Flowchart.Batch
