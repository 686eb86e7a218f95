import Flowchart.Proofs.Describe.Inquiries

/-! Sessions with one describer: single codes and the functions of whole scripts are asked about,
one after the other. -/
namespace Flowchart.Describer

inductive Request where
  | single (code : String)
  | functions (text : List Char) (nodes : List FlowNode)

inductive Answer where
  | single (text : WideText)
  | byId (descriptions : Descriptions)

def functionsAmong (nodes : List FlowNode) : List FlowNode :=
  nodes.filter (·.kind = .function)

/-- The codes of functions. -/
def codesOf (text : List Char) (functions : List FlowNode) : List String :=
  functions.map fun n => codeOf text n.range

namespace Request

/-- The codes that a request is about. -/
def codes : Request → List String
  | single code => [code]
  | functions text nodes => codesOf text (functionsAmong nodes)

def make (output : Output) (d : Describer) :
    Request → Except String Answer × Describer × Transcript
  | single code =>
    let (text, d, transcript) := d.describe output code
    (text.map .single, d, transcript)
  | functions text nodes =>
    let (descriptions, d, transcript) := d.describeFunctions output text nodes
    (descriptions.map .byId, d, transcript)

end Request

/-- A request, made while the log is on or while it is off. -/
structure Call where
  request : Request
  verbose : Bool

namespace Call

/-- What the lines of a call are shown on, given what the log is shown on. -/
def shownOn (c : Call) (output : Output) : Output :=
  if c.verbose then output else .off

/-- The codes that the call asks about, each with what the lines on it are shown on. -/
def questions (c : Call) (output : Output) : List (String × Output) :=
  c.request.codes.map fun code => (code, c.shownOn output)

end Call

/-- A call, what the log is shown on, and the describer as it then is. -/
structure Moment where
  call : Call
  output : Output
  start : Describer

namespace Moment

def answer (m : Moment) : Except String Answer :=
  (m.call.request.make (m.call.shownOn m.output) m.start).1

def finish (m : Moment) : Describer :=
  (m.call.request.make (m.call.shownOn m.output) m.start).2.1

def transcript (m : Moment) : Transcript :=
  (m.call.request.make (m.call.shownOn m.output) m.start).2.2

/-- The lines that are shown. -/
def shown (m : Moment) : List WideText :=
  if m.call.verbose then m.transcript.log else []

/-- The inquiries that the call takes. -/
def asked (m : Moment) : List Inquiry :=
  inquiries (m.call.questions m.output) m.start

end Moment

/-- The calls of a session. -/
def moments (output : Output) : List Call → Describer → List Moment
  | [], _ => []
  | call :: rest, d => ⟨call, output, d⟩ :: moments output rest (Moment.finish ⟨call, output, d⟩)

def afterCalls (output : Output) (calls : List Call) (d : Describer) : Describer :=
  calls.foldl (fun d call => Moment.finish ⟨call, output, d⟩) d

/-- The transcripts of inquiries, one after the other. -/
def record (asked : List Inquiry) : Transcript :=
  ⟨asked.flatMap (·.transcript.prompts), asked.flatMap (·.transcript.log)⟩

/-- The text of an answer. -/
def Inquiry.text (i : Inquiry) : WideText :=
  match i.answer with
  | .ok text => text
  | .error _ => []

/-- Descriptions to which the answers about functions are added. -/
def described (done : Descriptions) (functions : List FlowNode) (asked : List Inquiry) :
    Descriptions :=
  (functions.zip asked).foldl (fun done (n, i) => done.put n.id i.text) done

theorem Inquiry.IsShown.answer_eq {i : Inquiry} (h : i.IsShown) : i.answer = .ok i.text := by
  obtain ⟨text, htext⟩ : ∃ text, i.answer = .ok text := by
    cases h.course with
    | blank _ _ hanswer => exact ⟨_, hanswer⟩
    | remembered _ _ _ _ hanswer => exact ⟨_, hanswer⟩
    | learnt _ _ _ _ hanswer => exact ⟨_, hanswer⟩
    | failed _ _ _ _ hanswer => exact ⟨_, hanswer⟩
  rw [Inquiry.text, htext]

theorem isShown_of_mem_inquiries {codes : List (String × Output)} {d : Describer}
    (h : AllShown codes d) : ∀ i ∈ inquiries codes d, i.IsShown := by
  induction codes generalizing d with
  | nil => exact fun i hi => absurd hi List.not_mem_nil
  | cons c rest ih => exact List.forall_mem_cons.mpr ⟨h.head, ih h.tail⟩

theorem codesOf_cons (text : List Char) (n : FlowNode) (functions : List FlowNode) :
    codesOf text (n :: functions) = codeOf text n.range :: codesOf text functions :=
  rfl

theorem record_cons (i : Inquiry) (asked : List Inquiry) :
    record (i :: asked) = i.transcript ++ record asked :=
  rfl

theorem record_singleton (i : Inquiry) : record [i] = i.transcript := by
  rw [record, List.flatMap_singleton, List.flatMap_singleton]

theorem described_cons (done : Descriptions) (n : FlowNode) (functions : List FlowNode)
    (i : Inquiry) (asked : List Inquiry) :
    described done (n :: functions) (i :: asked) =
      described (done.put n.id i.text) functions asked :=
  rfl

section

variable {output : Output} {text : List Char}

theorem functionsAmong_cons_of_function {n : FlowNode} (hkind : n.kind = .function)
    (rest : List FlowNode) : functionsAmong (n :: rest) = n :: functionsAmong rest :=
  List.filter_cons_of_pos (decide_eq_true hkind)

theorem functionsAmong_cons_of_ne {n : FlowNode} (hkind : n.kind ≠ .function)
    (rest : List FlowNode) : functionsAmong (n :: rest) = functionsAmong rest :=
  List.filter_cons_of_neg (by simpa using hkind)

theorem describeOnto_cons {n : FlowNode} (hkind : n.kind = .function) (rest : List FlowNode)
    (d : Describer) (done : Descriptions) {i : Inquiry} (hi : i = ⟨codeOf text n.range, output, d⟩)
    (hshown : i.IsShown) :
    d.describeOnto output text done (n :: rest) =
      ((i.finish.describeOnto output text (done.put n.id i.text) rest).1,
        (i.finish.describeOnto output text (done.put n.id i.text) rest).2.1,
        i.transcript ++ (i.finish.describeOnto output text (done.put n.id i.text) rest).2.2) := by
  have hdescribe : d.describe output (codeOf text n.range) =
      (.ok i.text, i.finish, i.transcript) := by
    have heq := i.describe_eq
    rw [hshown.answer_eq] at heq
    rwa [hi] at heq ⊢
  simp only [describeOnto, if_pos hkind, hdescribe]

theorem describeOnto_eq {nodes : List FlowNode} {d : Describer} {codes : List (String × Output)}
    (hcodes : codes = (codesOf text (functionsAmong nodes)).map (·, output))
    (hshown : AllShown codes d) (done : Descriptions) :
    d.describeOnto output text done nodes =
      (.ok (described done (functionsAmong nodes) (inquiries codes d)), d.afterCodes codes,
        record (inquiries codes d)) := by
  induction nodes generalizing d done codes with
  | nil =>
    obtain rfl : codes = [] := hcodes
    rfl
  | cons n rest ih =>
    by_cases hkind : n.kind = .function
    · rw [functionsAmong_cons_of_function hkind, codesOf_cons, List.map_cons] at hcodes
      subst hcodes
      rw [functionsAmong_cons_of_function hkind,
        describeOnto_cons hkind rest d done rfl hshown.head, ih rfl hshown.tail, inquiries_cons,
        described_cons, record_cons, afterCodes_cons]
    · rw [functionsAmong_cons_of_ne hkind] at hcodes ⊢
      rw [describeOnto, if_neg hkind]
      exact ih hcodes hshown done

/-- Shown descriptions come as those without a log. -/
theorem describeOnto_eq_off {nodes : List FlowNode} {d : Describer}
    (hshown : AllShown ((codesOf text (functionsAmong nodes)).map (·, output)) d)
    (done : Descriptions) :
    d.describeOnto output text done nodes = d.describeOnto .off text done nodes := by
  induction nodes generalizing d done with
  | nil => rfl
  | cons n rest ih =>
    by_cases hkind : n.kind = .function
    · rw [functionsAmong_cons_of_function hkind, codesOf_cons, List.map_cons] at hshown
      have hoff := hshown.head.describe_eq_off
      have htail := hshown.tail
      rw [Inquiry.finish] at htail
      dsimp only at hoff htail
      rw [hoff] at htail
      simp only [describeOnto, if_pos hkind, hoff]
      split
      · rfl
      · rename_i answer d' first hdescribe
        rw [hdescribe] at htail
        rw [ih htail]
    · rw [functionsAmong_cons_of_ne hkind] at hshown
      rw [describeOnto, describeOnto, if_neg hkind, if_neg hkind]
      exact ih hshown done

end

/-- What is answered, and what it takes, comes down to the inquiries of the call. -/
structure Moment.Complete (m : Moment) : Prop where
  single : ∀ code, m.call.request = .single code →
    ∃ i, m.asked = [i] ∧ i.code = code ∧ m.answer = .ok (.single i.text)
  functions : ∀ text nodes, m.call.request = .functions text nodes →
    m.asked.map (·.code) = codesOf text (functionsAmong nodes) ∧
      m.answer = .ok (.byId (described [] (functionsAmong nodes) m.asked))
  answers : ∀ i ∈ m.asked, i.answer = .ok i.text
  finish : m.finish = m.start.afterCodes (m.call.questions m.output)
  transcript : m.transcript = record m.asked

theorem map_code_inquiries (codes : List (String × Output)) (d : Describer) :
    (inquiries codes d).map (·.code) = codes.map (·.1) := by
  induction codes generalizing d with
  | nil => rfl
  | cons c rest ih => rw [inquiries_cons, List.map_cons, List.map_cons, ih]

theorem Moment.of_make {m : Moment} {answer : Except String Answer} {d : Describer}
    {t : Transcript}
    (h : m.call.request.make (m.call.shownOn m.output) m.start = (answer, d, t)) :
    m.answer = answer ∧ m.finish = d ∧ m.transcript = t :=
  ⟨by rw [Moment.answer, h], by rw [finish, h], by rw [transcript, h]⟩

theorem make_functions {output : Output} (text : List Char) (nodes : List FlowNode)
    {d : Describer} {codes : List (String × Output)}
    (hcodes : codes = (codesOf text (functionsAmong nodes)).map (·, output))
    (hshown : AllShown codes d) :
    (Request.functions text nodes).make output d =
      (.ok (.byId (described [] (functionsAmong nodes) (inquiries codes d))), d.afterCodes codes,
        record (inquiries codes d)) := by
  rw [Request.make, describeFunctions, describeOnto_eq hcodes hshown]
  rfl

theorem Moment.complete {m : Moment} (h : AllShown (m.call.questions m.output) m.start) :
    m.Complete := by
  have hanswers : ∀ i ∈ m.asked, i.answer = .ok i.text := fun i hi =>
    (isShown_of_mem_inquiries h i hi).answer_eq
  obtain ⟨⟨request, verbose⟩, output, start⟩ := m
  cases request with
  | single code =>
    let i : Inquiry := ⟨code, Call.shownOn ⟨.single code, verbose⟩ output, start⟩
    have hmake : (Request.single code).make i.output start =
        (.ok (.single i.text), i.finish, i.transcript) := by
      have heq : start.describe i.output code = (.ok i.text, i.finish, i.transcript) := by
        have heq := i.describe_eq
        rwa [(show i.IsShown from h.head).answer_eq] at heq
      rw [Request.make, heq]
      rfl
    obtain ⟨hanswer, hfinish, htranscript⟩ :=
      of_make (m := ⟨⟨.single code, verbose⟩, output, start⟩) hmake
    refine ⟨?_, fun _ _ hrequest => (by cases hrequest), hanswers, hfinish, ?_⟩
    · rintro code' ⟨⟩
      exact ⟨i, rfl, rfl, hanswer⟩
    · exact htranscript.trans (record_singleton i).symm
  | functions text nodes =>
    obtain ⟨hanswer, hfinish, htranscript⟩ :=
      of_make (m := ⟨⟨.functions text nodes, verbose⟩, output, start⟩)
        (make_functions text nodes rfl h)
    refine ⟨fun _ hrequest => (by cases hrequest), ?_, hanswers, hfinish, htranscript⟩
    rintro text' nodes' ⟨⟩
    refine ⟨(map_code_inquiries _ _).trans ?_, hanswer⟩
    rw [Call.questions, List.map_map]
    exact List.map_id _

theorem afterCalls_cons (output : Output) (call : Call) (rest : List Call) (d : Describer) :
    afterCalls output (call :: rest) d =
      afterCalls output rest (Moment.finish ⟨call, output, d⟩) :=
  rfl

/-- A session asks about the codes of its calls, as if each was asked about on its own. -/
theorem moments_complete {output : Output} {calls : List Call} {d : Describer}
    (h : AllShown (calls.flatMap (·.questions output)) d) :
    (∀ m ∈ moments output calls d, m.Complete) ∧
      (moments output calls d).flatMap (·.asked) =
        inquiries (calls.flatMap (·.questions output)) d ∧
      afterCalls output calls d = d.afterCodes (calls.flatMap (·.questions output)) := by
  induction calls generalizing d with
  | nil => exact ⟨by simp [moments], rfl, rfl⟩
  | cons call rest ih =>
    rw [List.flatMap_cons] at h ⊢
    have hcomplete : Moment.Complete ⟨call, output, d⟩ := Moment.complete h.left
    have hfinish : Moment.finish ⟨call, output, d⟩ = d.afterCodes (call.questions output) :=
      hcomplete.finish
    obtain ⟨hrest, hasked, hafter⟩ := ih h.afterCodes
    rw [moments, hfinish, List.flatMap_cons, hasked, afterCalls_cons, hfinish, hafter,
      inquiries_append, afterCodes_append]
    exact ⟨List.forall_mem_cons.mpr ⟨hcomplete, hrest⟩, rfl, rfl⟩

/-- The same request, asked and answered alike. What is shown may differ. -/
structure Moment.Agrees (m m' : Moment) : Prop where
  request : m.call.request = m'.call.request
  start : m.start = m'.start
  answer : m.answer = m'.answer
  finish : m.finish = m'.finish
  prompts : m.transcript.prompts = m'.transcript.prompts

/-- A shown request goes as one without a log. -/
theorem make_eq_off {output : Output} {request : Request} {d : Describer}
    (h : AllShown (request.codes.map (·, output)) d) :
    request.make output d = request.make .off d := by
  cases request with
  | single code =>
    have hoff : d.describe output code = d.describe .off code := h.head.describe_eq_off
    rw [Request.make, Request.make, hoff]
  | functions text nodes =>
    rw [Request.make, Request.make, describeFunctions, describeFunctions, describeOnto_eq_off h]

theorem Moment.agrees {m m' : Moment} (hrequest : m.call.request = m'.call.request)
    (hstart : m.start = m'.start) (h : AllShown (m.call.questions m.output) m.start)
    (h' : AllShown (m'.call.questions m'.output) m'.start) : m.Agrees m' := by
  have hmake : m.call.request.make (m.call.shownOn m.output) m.start =
      m'.call.request.make (m'.call.shownOn m'.output) m'.start :=
    calc
      _ = m.call.request.make .off m.start := make_eq_off h
      _ = m'.call.request.make .off m'.start := by rw [hrequest, hstart]
      _ = _ := (make_eq_off h').symm
  exact ⟨hrequest, hstart, congrArg (·.1) hmake, congrArg (·.2.1) hmake,
    congrArg (·.2.2.prompts) hmake⟩

theorem moments_agree {output output' : Output} {calls calls' : List Call}
    (hrequests : List.Forall₂ (fun c c' => c.request = c'.request) calls calls') {d : Describer}
    (h : AllShown (calls.flatMap (·.questions output)) d)
    (h' : AllShown (calls'.flatMap (·.questions output')) d) :
    List.Forall₂ Moment.Agrees (moments output calls d) (moments output' calls' d) := by
  induction hrequests generalizing d with
  | nil => exact .nil
  | @cons call call' rest rest' hrequest _ ih =>
    rw [List.flatMap_cons] at h h'
    have hagrees : Moment.Agrees ⟨call, output, d⟩ ⟨call', output', d⟩ :=
      Moment.agrees hrequest rfl h.left h'.left
    have hrest := h.afterCodes
    have hrest' := h'.afterCodes
    rw [← show Moment.finish ⟨call, output, d⟩ = _ from (Moment.complete h.left).finish] at hrest
    rw [← show Moment.finish ⟨call', output', d⟩ = _ from (Moment.complete h'.left).finish,
      ← show Moment.finish ⟨call, output, d⟩ = _ from hagrees.finish] at hrest'
    rw [moments, moments, ← show Moment.finish ⟨call, output, d⟩ = _ from hagrees.finish]
    exact .cons hagrees (ih hrest hrest')

/-- The lines of the calls that are logged can be shown. -/
def ShowsCalls (output : Output) (replies : List Reply) (calls : List Call) : Prop :=
  ∀ call ∈ calls, call.verbose = true → output.Shows call.request.codes replies

theorem ShowsCalls.allShown {output : Output} {replies : List Reply} {calls : List Call}
    (h : ShowsCalls output replies calls) :
    AllShown (calls.flatMap (·.questions output)) { replies } := by
  intro c hc
  obtain ⟨call, hcall, hc⟩ := List.mem_flatMap.mp hc
  obtain ⟨code, hcode, rfl⟩ := List.mem_map.mp hc
  rw [Call.shownOn]
  split
  · rename_i hverbose
    exact (h call hcall hverbose).mono (by simpa using hcode) fun _ => id
  · exact Output.shows_off _ _

/-- In a session whose log can be shown, every code is asked about as the inquiries before it call
for, whether or not there is a log. -/
theorem session_follows (output : Output) (replies : List Reply) (calls : List Call)
    (hshown : ShowsCalls output replies calls) :
    let d : Describer := { replies }
    let asked := (moments output calls d).flatMap (·.asked)
    (∀ m ∈ moments output calls d, m.Complete) ∧
      (∀ before i after, asked = before ++ i :: after → i.Follows before) ∧
      (afterCalls output calls d).Remembers asked ∧
      (∀ n reply, (asked.filterMap (·.reply?))[n]? = some reply →
        reply = replies.getD n exhausted) ∧
      ∀ output' calls', List.Forall₂ (fun c c' => c.request = c'.request) calls calls' →
        ShowsCalls output' replies calls' →
        List.Forall₂ Moment.Agrees (moments output calls d) (moments output' calls' d) := by
  intro d asked
  have hall : AllShown (calls.flatMap (·.questions output)) d := hshown.allShown
  obtain ⟨hcomplete, hasked, hafter⟩ := moments_complete hall
  have hnil : d.Remembers [] := remembers_nil replies
  refine ⟨hcomplete, ?_, ?_, ?_, fun _ _ h h' => moments_agree h hall h'.allShown⟩
  · intro before i after hi
    obtain ⟨hi, hremembers⟩ := hnil.start_of_inquiries hall (hasked.symm.trans hi)
    exact hremembers.follows hi
  · have hknown := hnil.afterCodes hall
    rwa [List.nil_append, ← hafter, ← hasked] at hknown
  · intro n reply hreply
    change ((moments output calls d).flatMap (·.asked) |>.filterMap (·.reply?))[n]? = some reply
      at hreply
    rw [hasked] at hreply
    exact reply_of_inquiries hall hreply

/-- A code that is asked about three times, once of them without a log. -/
def threeCalls : List Call :=
  [⟨.single "f", true⟩, ⟨.single " f ", false⟩, ⟨.single "f", true⟩]

/-- The model fails once, and then gives an answer that no file can hold. -/
def twoReplies : List Reply :=
  [.failure "down", .content (some [.char ' ', .char 'A', .surrogate 0, .char ' '])]

/-- The failure is forgotten, and the answer is kept without its blanks. -/
theorem session_follows_threeCalls :
    let answer : WideText := [.char 'A', .surrogate 0]
    let session := moments .utf8 threeCalls { replies := twoReplies }
    ShowsCalls .utf8 twoReplies threeCalls ∧
    session.map (fun m => (m.transcript.prompts, m.finish.known)) =
      [([prompt "f"], []), ([prompt "f"], [("f", answer)]), ([], [("f", answer)])] ∧
    (∀ m ∈ session, m.Complete) ∧
    (∀ before i after, session.flatMap (·.asked) = before ++ i :: after → i.Follows before) ∧
    (afterCalls .utf8 threeCalls { replies := twoReplies }).Remembers
      (session.flatMap (·.asked)) := by
  intro answer session
  have hshown : ShowsCalls .utf8 twoReplies threeCalls := fun _ _ _ =>
    { prompt := fun _ _ => Output.utf8_ofString _
      completion := Output.utf8_ofString _
      failure := fun message hmessage => by
        have hmessage : message = "no reply left" ∨ message = "down" := by
          simpa [exhausted, twoReplies] using hmessage
        rcases hmessage with rfl | rfl
        · decide +kernel
        · decide +kernel }
  obtain ⟨hcomplete, hfollows, hremembers, -, hagree⟩ :=
    session_follows .utf8 twoReplies threeCalls hshown
  -- Without a log the session can be computed.
  have hoff := hagree .off threeCalls (List.forall₂_same.mpr fun _ _ => rfl)
    fun call _ _ => Output.shows_off call.request.codes twoReplies
  have hsame : List.Forall₂ (· = ·) (session.map fun m => (m.transcript.prompts, m.finish.known))
      ((moments .off threeCalls { replies := twoReplies }).map fun m =>
        (m.transcript.prompts, m.finish.known)) := by
    refine List.forall₂_map_left_iff.mpr (List.forall₂_map_right_iff.mpr (hoff.imp ?_))
    intro m m' h
    rw [h.prompts, h.finish]
  rw [List.forall₂_eq_eq_eq] at hsame
  exact ⟨hshown, hsame.trans (by decide +kernel), hcomplete, hfollows, hremembers⟩

end Flowchart.Describer
