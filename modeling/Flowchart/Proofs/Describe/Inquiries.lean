import Flowchart.Describe
import Mathlib.Data.List.Nodup

/-! The memory of a describer. It holds the answers that the model has given so far, and the model
is asked about a code just when there is none for it, as long as the lines that are logged on the
way can be shown. -/
namespace Flowchart

/-- The lines that codes and replies lead to can all be shown. -/
structure Output.Shows (output : Output) (codes : List String) (replies : List Reply) : Prop where
  prompt : ∀ code ∈ codes, output (Describer.promptLine (trimmed code)) = none
  completion : output Describer.completionLine = none
  failure : ∀ message, .failure message ∈ Describer.exhausted :: replies →
    output (Describer.failureLine message) = none

theorem Output.shows_off (codes : List String) (replies : List Reply) :
    Output.off.Shows codes replies :=
  ⟨fun _ _ => rfl, rfl, fun _ _ => rfl⟩

theorem Output.Shows.mono {output : Output} {codes codes' : List String}
    {replies replies' : List Reply} (h : output.Shows codes replies)
    (hcodes : ∀ code ∈ codes', code ∈ codes) (hreplies : ∀ reply ∈ replies', reply ∈ replies) :
    output.Shows codes' replies' where
  prompt := fun code hcode => h.prompt code (hcodes code hcode)
  completion := h.completion
  failure := fun message hmessage => h.failure message <| by
    rcases List.mem_cons.mp hmessage with heq | hmem
    · exact heq ▸ List.mem_cons_self
    · exact List.mem_cons_of_mem _ (hreplies _ hmem)

namespace Describer

/-- A code that a describer is asked about, what the lines on it are shown on, and the describer as
it then is. -/
structure Inquiry where
  code : String
  output : Output
  start : Describer

namespace Inquiry

/-- What the answer is kept under. -/
def key (i : Inquiry) : String :=
  trimmed i.code

def answer (i : Inquiry) : Except String WideText :=
  (i.start.describe i.output i.code).1

def finish (i : Inquiry) : Describer :=
  (i.start.describe i.output i.code).2.1

def transcript (i : Inquiry) : Transcript :=
  (i.start.describe i.output i.code).2.2

/-- The reply of the model, if it is asked. -/
def reply? (i : Inquiry) : Option Reply :=
  if i.transcript.prompts.isEmpty then none else some i.start.ask.1

/-- The answer that the model gives, if it is asked and gives one. No text counts as an empty
one. -/
def given? (i : Inquiry) : Option WideText :=
  i.reply?.bind fun
    | .content text => some (text.getD []).trim
    | .failure _ => none

/-- The lines that the inquiry leads to can be shown. -/
def IsShown (i : Inquiry) : Prop :=
  i.output.Shows [i.code] i.start.replies

theorem describe_eq (i : Inquiry) :
    i.start.describe i.output i.code = (i.answer, i.finish, i.transcript) := by
  rw [Inquiry.answer, finish, transcript]

theorem of_describe {i : Inquiry} {answer : Except String WideText} {d : Describer}
    {t : Transcript} (h : i.start.describe i.output i.code = (answer, d, t)) :
    i.answer = answer ∧ i.finish = d ∧ i.transcript = t ∧
      i.reply? = if t.prompts.isEmpty then none else some i.start.ask.1 := by
  have ht : i.transcript = t := by rw [transcript, h]
  exact ⟨by rw [Inquiry.answer, h], by rw [finish, h], ht, by rw [reply?, ht]⟩

/-- A blank code is never asked about. -/
theorem describe_of_blank {i : Inquiry} (hkey : i.key = "") :
    i.start.describe i.output i.code = (.ok [], i.start, {}) := by
  rw [describe]
  exact if_pos hkey

/-- A shown inquiry goes as one without a log. -/
theorem IsShown.describe_eq_off {i : Inquiry} (h : i.IsShown) :
    i.start.describe i.output i.code = i.start.describe .off i.code := by
  have hprompt : i.output (promptLine (trimmed i.code)) = none :=
    h.prompt i.code (List.mem_singleton_self _)
  have hcompletion : i.output completionLine = none := h.completion
  simp only [describe, hprompt, hcompletion, Output.off]
  split
  · rfl
  split
  · rfl
  split
  · rename_i message d hask
    have hmessage : Reply.failure message ∈ exhausted :: i.start.replies := by
      have hreply : i.start.replies.headD exhausted = .failure message :=
        congrArg Prod.fst hask
      rw [← hreply]
      cases i.start.replies with
      | nil => exact List.mem_cons_self
      | cons reply rest => exact List.mem_cons_of_mem _ List.mem_cons_self
    have hfailure : i.output (failureLine message) = none := h.failure message hmessage
    simp only [warn, hfailure]
    rfl
  · rfl

/-- The ways that a shown inquiry can go. -/
inductive Course (i : Inquiry) : Prop
  | blank (hkey : i.key = "") (hreply : i.reply? = none) (hanswer : i.answer = .ok [])
      (hprompts : i.transcript.prompts = []) (hfinish : i.finish = i.start)
  | remembered (answer : WideText) (hkey : i.key ≠ "")
      (hknown : i.start.known.lookup i.key = some answer) (hreply : i.reply? = none)
      (hanswer : i.answer = .ok answer) (hprompts : i.transcript.prompts = [])
      (hfinish : i.finish = i.start)
  | learnt (text : Option WideText) (hkey : i.key ≠ "")
      (hknown : i.start.known.lookup i.key = none) (hreply : i.reply? = some (.content text))
      (hanswer : i.answer = .ok (text.getD []).trim)
      (hprompts : i.transcript.prompts = [prompt i.key])
      (hfinish : i.finish = i.start.ask.2.learn i.key (text.getD []).trim)
  | failed (message : WideText) (hkey : i.key ≠ "") (hknown : i.start.known.lookup i.key = none)
      (hreply : i.reply? = some (.failure message)) (hanswer : i.answer = .ok [])
      (hprompts : i.transcript.prompts = [prompt i.key]) (hfinish : i.finish = i.start.ask.2)

theorem IsShown.course {i : Inquiry} (h : i.IsShown) : i.Course := by
  by_cases hkey : i.key = ""
  · obtain ⟨hanswer, hfinish, htranscript, hreply⟩ := of_describe (describe_of_blank hkey)
    exact .blank hkey hreply hanswer (by rw [htranscript]) hfinish
  cases hknown : i.start.known.lookup i.key with
  | some answer =>
    have hdescribe : i.start.describe i.output i.code = (.ok answer, i.start, {}) := by
      rw [key] at hkey hknown
      simp only [describe, if_neg hkey, hknown]
    obtain ⟨hanswer, hfinish, htranscript, hreply⟩ := of_describe hdescribe
    exact .remembered answer hkey hknown hreply hanswer (by rw [htranscript]) hfinish
  | none =>
    obtain ⟨reply, hreply⟩ : ∃ reply, i.start.ask.1 = reply := ⟨_, rfl⟩
    have hask : i.start.ask = (reply, i.start.ask.2) := by rw [← hreply]
    cases reply with
    | content text =>
      have hdescribe : i.start.describe i.output i.code = (.ok (text.getD []).trim,
          i.start.ask.2.learn i.key (text.getD []).trim,
          ⟨[prompt i.key], [promptLine i.key, completionLine]⟩) := by
        rw [key] at hkey hknown ⊢
        rw [h.describe_eq_off, describe]
        simp only [if_neg hkey, hknown, Output.off]
        rw [hask]
        rfl
      obtain ⟨hanswer, hfinish, htranscript, hasked⟩ := of_describe hdescribe
      exact .learnt text hkey hknown (hasked.trans (congrArg some hreply)) hanswer
        (by rw [htranscript]) hfinish
    | failure message =>
      have hdescribe : i.start.describe i.output i.code = (.ok [], i.start.ask.2,
          ⟨[prompt i.key], [promptLine i.key, failureLine message]⟩) := by
        rw [key] at hkey hknown ⊢
        rw [h.describe_eq_off, describe]
        simp only [if_neg hkey, hknown, Output.off]
        rw [hask]
        rfl
      obtain ⟨hanswer, hfinish, htranscript, hasked⟩ := of_describe hdescribe
      exact .failed message hkey hknown (hasked.trans (congrArg some hreply)) hanswer
        (by rw [htranscript]) hfinish

theorem given?_eq_none {i : Inquiry} (h : i.reply? = none) : i.given? = none := by
  rw [given?, h]
  rfl

theorem IsShown.reply?_isSome_iff {i : Inquiry} (h : i.IsShown) :
    i.reply?.isSome ↔ i.key ≠ "" ∧ i.start.known.lookup i.key = none := by
  cases h.course with
  | blank hkey hreply => simp [hkey, hreply]
  | remembered answer _ hknown hreply => simp [hknown, hreply]
  | learnt text hkey hknown hreply => simp [hkey, hknown, hreply]
  | failed message hkey hknown hreply => simp [hkey, hknown, hreply]

theorem IsShown.prompts_eq {i : Inquiry} (h : i.IsShown) :
    i.transcript.prompts = if i.reply?.isSome then [prompt i.key] else [] := by
  cases h.course with
  | blank _ hreply _ hprompts => rw [hprompts, hreply]; rfl
  | remembered _ _ _ hreply _ hprompts => rw [hprompts, hreply]; rfl
  | learnt _ _ _ hreply _ hprompts => rw [hprompts, hreply]; rfl
  | failed _ _ _ hreply _ hprompts => rw [hprompts, hreply]; rfl

/-- A reply is the first of those to come. -/
theorem of_reply? {i : Inquiry} {reply : Reply} (h : i.reply? = some reply) :
    reply = i.start.replies.headD exhausted := by
  rw [reply?] at h
  split at h
  · cases h
  · exact (Option.some.inj h).symm

theorem IsShown.replies_finish {i : Inquiry} (h : i.IsShown) :
    i.finish.replies = if i.reply?.isSome then i.start.replies.tail else i.start.replies := by
  cases h.course with
  | blank _ hreply _ _ hfinish => rw [hfinish, hreply]; rfl
  | remembered _ _ _ hreply _ _ hfinish => rw [hfinish, hreply]; rfl
  | learnt _ _ _ hreply _ _ hfinish => rw [hfinish, hreply]; rfl
  | failed _ _ _ hreply _ _ hfinish => rw [hfinish, hreply]; rfl

theorem IsShown.of_content {i : Inquiry} {text : Option WideText} (hshown : i.IsShown)
    (h : i.reply? = some (.content text)) : i.answer = .ok (text.getD []).trim := by
  cases hshown.course with
  | blank _ hreply => simp [hreply] at h
  | remembered _ _ _ hreply => simp [hreply] at h
  | learnt text' _ _ hreply hanswer =>
    obtain rfl : text' = text := by simpa [hreply] using h
    exact hanswer
  | failed _ _ _ hreply => simp [hreply] at h

theorem IsShown.of_failure {i : Inquiry} {message : WideText} (hshown : i.IsShown)
    (h : i.reply? = some (.failure message)) :
    i.answer = .ok [] ∧ i.finish.known = i.start.known := by
  cases hshown.course with
  | blank _ hreply => simp [hreply] at h
  | remembered _ _ _ hreply => simp [hreply] at h
  | learnt _ _ _ hreply => simp [hreply] at h
  | failed _ _ _ _ hanswer _ hfinish => exact ⟨hanswer, by rw [hfinish]; rfl⟩

theorem IsShown.answer_of_blank {i : Inquiry} (hshown : i.IsShown) (h : i.key = "") :
    i.answer = .ok [] := by
  cases hshown.course with
  | blank _ _ hanswer => exact hanswer
  | remembered _ hkey => exact absurd h hkey
  | learnt _ hkey => exact absurd h hkey
  | failed _ hkey => exact absurd h hkey

theorem IsShown.of_known {i : Inquiry} {answer : WideText} (hshown : i.IsShown)
    (hkey : i.key ≠ "") (h : i.start.known.lookup i.key = some answer) :
    i.reply? = none ∧ i.answer = .ok answer := by
  cases hshown.course with
  | blank hblank => exact absurd hblank hkey
  | remembered answer' _ hknown hreply hanswer =>
    obtain rfl : answer' = answer := by simpa [hknown] using h
    exact ⟨hreply, hanswer⟩
  | learnt _ _ hknown => simp [hknown] at h
  | failed _ _ hknown => simp [hknown] at h

theorem key_ne_of_given? {i : Inquiry} {answer : WideText} (h : i.given? = some answer) :
    i.key ≠ "" := by
  intro hkey
  obtain ⟨-, -, -, hreply⟩ := of_describe (describe_of_blank hkey)
  rw [given?_eq_none hreply] at h
  cases h

end Inquiry

/-- The inquiries that some codes lead to, one after the other. With each code comes what the lines
on it are shown on. -/
def inquiries : List (String × Output) → Describer → List Inquiry
  | [], _ => []
  | (code, output) :: rest, d =>
    ⟨code, output, d⟩ :: inquiries rest (Inquiry.finish ⟨code, output, d⟩)

/-- The describer after it was asked about some codes. -/
def afterCodes (codes : List (String × Output)) (d : Describer) : Describer :=
  codes.foldl (fun d (code, output) => Inquiry.finish ⟨code, output, d⟩) d

/-- The lines on all of the codes can be shown. -/
def AllShown (codes : List (String × Output)) (d : Describer) : Prop :=
  ∀ c ∈ codes, c.2.Shows [c.1] d.replies

theorem inquiries_cons (c : String × Output) (rest : List (String × Output)) (d : Describer) :
    inquiries (c :: rest) d = ⟨c.1, c.2, d⟩ :: inquiries rest (Inquiry.finish ⟨c.1, c.2, d⟩) :=
  rfl

theorem afterCodes_cons (c : String × Output) (rest : List (String × Output)) (d : Describer) :
    afterCodes (c :: rest) d = afterCodes rest (Inquiry.finish ⟨c.1, c.2, d⟩) := by
  rw [afterCodes, List.foldl_cons, afterCodes]

theorem afterCodes_append (codes codes' : List (String × Output)) (d : Describer) :
    afterCodes (codes ++ codes') d = afterCodes codes' (afterCodes codes d) :=
  List.foldl_append

theorem inquiries_append (codes codes' : List (String × Output)) (d : Describer) :
    inquiries (codes ++ codes') d = inquiries codes d ++ inquiries codes' (afterCodes codes d) := by
  induction codes generalizing d with
  | nil => rfl
  | cons c rest ih =>
    rw [List.cons_append, inquiries_cons, inquiries_cons, afterCodes_cons, ih, List.cons_append]

/-- An inquiry leaves none but the replies that there were. -/
theorem Inquiry.IsShown.mem_replies {i : Inquiry} (h : i.IsShown) :
    ∀ reply ∈ i.finish.replies, reply ∈ i.start.replies := by
  rw [h.replies_finish]
  split
  · exact fun reply => List.mem_of_mem_tail
  · exact fun reply => id

section

variable {c : String × Output} {rest codes codes' : List (String × Output)} {d : Describer}

theorem AllShown.head (h : AllShown (c :: rest) d) : Inquiry.IsShown ⟨c.1, c.2, d⟩ :=
  h c List.mem_cons_self

theorem AllShown.tail (h : AllShown (c :: rest) d) :
    AllShown rest (Inquiry.finish ⟨c.1, c.2, d⟩) := fun c' hc' =>
  (h c' (List.mem_cons_of_mem c hc')).mono (fun _ => id) h.head.mem_replies

theorem AllShown.left (h : AllShown (codes ++ codes') d) : AllShown codes d :=
  fun c hc => h c (List.mem_append_left codes' hc)

theorem AllShown.afterCodes (h : AllShown (codes ++ codes') d) :
    AllShown codes' (d.afterCodes codes) := by
  induction codes generalizing d with
  | nil => exact h
  | cons c rest ih =>
    have hall : AllShown (c :: (rest ++ codes')) d := h
    exact ih hall.tail

end

/-- A describer knows exactly the answers that the model has given to these inquiries. -/
structure Remembers (d : Describer) (asked : List Inquiry) : Prop where
  nodup : (d.known.map (·.1)).Nodup
  lookup : ∀ key answer, d.known.lookup key = some answer ↔
    ∃ i ∈ asked, i.key = key ∧ i.given? = some answer

section

variable {d : Describer} {asked : List Inquiry}

theorem remembers_nil (replies : List Reply) : Remembers { replies } [] :=
  ⟨List.nodup_nil, by simp⟩

theorem Remembers.lookup_eq_none_iff (h : d.Remembers asked) (key : String) :
    d.known.lookup key = none ↔ ∀ i ∈ asked, i.key = key → i.given? = none := by
  rw [Option.eq_none_iff_forall_ne_some]
  constructor
  · intro hnone i hi hkey
    exact Option.eq_none_iff_forall_ne_some.mpr fun answer hgiven =>
      hnone answer ((h.lookup key answer).mpr ⟨i, hi, hkey, hgiven⟩)
  · intro hnone answer hsome
    obtain ⟨i, hi, hkey, hgiven⟩ := (h.lookup key answer).mp hsome
    exact absurd (hgiven.symm.trans (hnone i hi hkey)) (by simp)

/-- An inquiry without an answer of the model leaves what is known as it is. -/
theorem Remembers.concat_of_given?_eq_none {i : Inquiry} (h : i.start.Remembers asked)
    (hgiven : i.given? = none) (hknown : i.finish.known = i.start.known) :
    i.finish.Remembers (asked ++ [i]) := by
  refine ⟨by rw [hknown]; exact h.nodup, fun key answer => ?_⟩
  rw [hknown, h.lookup key answer]
  simp [hgiven]

/-- What is known after an inquiry are the answers given before it and in it. -/
theorem Remembers.concat {i : Inquiry} (h : i.start.Remembers asked) (hshown : i.IsShown) :
    i.finish.Remembers (asked ++ [i]) := by
  cases hshown.course with
  | blank _ hreply _ _ hfinish =>
    exact h.concat_of_given?_eq_none (Inquiry.given?_eq_none hreply) (by rw [hfinish])
  | remembered _ _ _ hreply _ _ hfinish =>
    exact h.concat_of_given?_eq_none (Inquiry.given?_eq_none hreply) (by rw [hfinish])
  | failed _ _ _ hreply _ _ hfinish =>
    exact h.concat_of_given?_eq_none (by rw [Inquiry.given?, hreply]; rfl) (by rw [hfinish]; rfl)
  | learnt text _ hknown hreply _ _ hfinish =>
    have hgiven : i.given? = some (text.getD []).trim := by
      rw [Inquiry.given?, hreply]
      rfl
    have hadded : i.finish.known = i.start.known ++ [(i.key, (text.getD []).trim)] := by
      rw [hfinish]
      rfl
    refine ⟨?_, fun key answer => ?_⟩
    · have hnew : ∀ old ∈ i.start.known.map (·.1), i.key ≠ old := by
        rintro old hold rfl
        obtain ⟨entry, hentry, heq⟩ := List.mem_map.mp hold
        have hother := List.lookup_eq_none_iff.mp hknown entry hentry
        exact absurd heq.symm (by simpa using hother)
      rw [hadded, List.map_append]
      exact List.nodup_append.mpr ⟨h.nodup, List.nodup_singleton i.key, fun old hold key hkey heq =>
        hnew old hold ((List.mem_singleton.mp hkey).symm.trans heq.symm)⟩
    have hlookup : i.finish.known.lookup key = (i.start.known.lookup key).or
        (if key = i.key then some (text.getD []).trim else none) := by
      rw [hadded, List.lookup_append, List.lookup_cons, List.lookup_nil]
      by_cases hkey : key = i.key
      · rw [if_pos hkey, beq_iff_eq.mpr hkey]
      · rw [if_neg hkey, beq_eq_false_iff_ne.mpr hkey]
    rw [hlookup]
    simp only [List.mem_append, List.mem_singleton]
    by_cases hkey : key = i.key
    · subst hkey
      have hnone := (h.lookup_eq_none_iff i.key).mp hknown
      rw [hknown, if_pos rfl, Option.none_or, ← hgiven]
      constructor
      · exact fun hanswer => ⟨i, .inr rfl, rfl, hanswer⟩
      · rintro ⟨j, hj | rfl, hkey, hj'⟩
        · exact absurd ((hnone j hj hkey).symm.trans hj') (by simp)
        · exact hj'
    · rw [if_neg hkey, Option.or_none, h.lookup key answer]
      constructor
      · rintro ⟨j, hj, hrest⟩
        exact ⟨j, .inl hj, hrest⟩
      · rintro ⟨j, hj | rfl, hkey', hj'⟩
        · exact ⟨j, hj, hkey', hj'⟩
        · exact absurd hkey'.symm hkey

theorem Remembers.afterCodes (h : d.Remembers asked) {codes : List (String × Output)}
    (hshown : AllShown codes d) :
    (d.afterCodes codes).Remembers (asked ++ inquiries codes d) := by
  induction codes generalizing d asked with
  | nil => exact (List.append_nil asked).symm ▸ h
  | cons c rest ih =>
    have hrest := ih (h.concat (i := ⟨c.1, c.2, d⟩) hshown.head) hshown.tail
    rw [List.append_assoc] at hrest
    rwa [afterCodes_cons, inquiries_cons]

/-- Each inquiry can be shown, and finds a describer that remembers those before it. -/
theorem Remembers.start_of_inquiries (h : d.Remembers asked) {codes : List (String × Output)}
    (hshown : AllShown codes d) {before after : List Inquiry} {i : Inquiry}
    (hi : inquiries codes d = before ++ i :: after) :
    i.IsShown ∧ i.start.Remembers (asked ++ before) := by
  induction codes generalizing d asked before with
  | nil => simp [inquiries] at hi
  | cons c rest ih =>
    rw [inquiries_cons] at hi
    cases before with
    | nil =>
      obtain ⟨rfl, -⟩ := List.cons.inj hi
      rw [List.append_nil]
      exact ⟨hshown.head, h⟩
    | cons first before =>
      obtain ⟨rfl, hrest⟩ := List.cons.inj hi
      have hstart := ih (h.concat hshown.head) hshown.tail hrest
      rwa [List.append_assoc] at hstart

end

/-- The replies come in their order. -/
theorem reply_of_inquiries {codes : List (String × Output)} {d : Describer}
    (hshown : AllShown codes d) {n : Nat} {reply : Reply}
    (h : ((inquiries codes d).filterMap (·.reply?))[n]? = some reply) :
    reply = d.replies.getD n exhausted := by
  induction codes generalizing d n with
  | nil => simp [inquiries] at h
  | cons c rest ih =>
    obtain ⟨i, hi⟩ : ∃ i : Inquiry, i = ⟨c.1, c.2, d⟩ := ⟨_, rfl⟩
    have hreplies := hshown.head.replies_finish
    have ih {n : Nat} := @ih _ hshown.tail n
    rw [inquiries_cons] at h
    rw [← hi] at h hreplies ih
    have hstart : i.start = d := by rw [hi]
    cases hreply : i.reply? with
    | none =>
      rw [List.filterMap_cons_none hreply] at h
      rw [ih h, hreplies, hreply, hstart]
      rfl
    | some first =>
      rw [List.filterMap_cons_some hreply] at h
      cases n with
      | zero =>
        obtain rfl : first = reply := by simpa using h
        rw [Inquiry.of_reply? hreply, hstart]
        cases d.replies <;> rfl
      | succ n =>
        rw [ih (by simpa using h), hreplies, hreply, hstart]
        cases d.replies <;> rfl

/-- The inquiry is answered as those before it call for. -/
structure Inquiry.Follows (i : Inquiry) (before : List Inquiry) : Prop where
  remembers : i.start.Remembers before
  /-- The model is asked just when there is something to ask about and no answer yet. -/
  asks : i.reply?.isSome ↔ i.key ≠ "" ∧ ∀ j ∈ before, j.key = i.key → j.given? = none
  prompts : i.transcript.prompts = if i.reply?.isSome then [prompt i.key] else []
  blank : i.key = "" → i.answer = .ok []
  failed : ∀ message, i.reply? = some (.failure message) →
    i.answer = .ok [] ∧ i.finish.known = i.start.known
  learnt : ∀ text, i.reply? = some (.content text) → i.answer = .ok (text.getD []).trim
  /-- An answer that was given before is given again. -/
  again : ∀ j ∈ before, j.key = i.key → ∀ answer, j.given? = some answer →
    i.reply? = none ∧ i.answer = .ok answer

/-- A describer that remembers the inquiries before answers as they call for. -/
theorem Remembers.follows {i : Inquiry} {before : List Inquiry} (h : i.start.Remembers before)
    (hshown : i.IsShown) : i.Follows before where
  remembers := h
  asks := hshown.reply?_isSome_iff.trans (and_congr_right fun _ => h.lookup_eq_none_iff i.key)
  prompts := hshown.prompts_eq
  blank := hshown.answer_of_blank
  failed := fun _ => hshown.of_failure
  learnt := fun _ => hshown.of_content
  again := fun j hj hkey answer hgiven =>
    hshown.of_known (hkey ▸ Inquiry.key_ne_of_given? hgiven)
      ((h.lookup i.key answer).mpr ⟨j, hj, hkey, hgiven⟩)

end Describer
end Flowchart
