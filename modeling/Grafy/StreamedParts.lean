import Grafy.TextFollowing

/-!
The events a model streams, and the text a turn takes from them. A part that starts is read
if it is text; a delta is read if it carries a string, whichever part it belongs to. The
deltas of thinking carry one, so a model that thinks aloud is stored and streamed thinking
with every text, unless the turn completes and the run's own answer replaces what was stored.
-/
namespace Grafy.TextPartials

open Fragments

inductive ResponsePart
  | text (content : List Char)
  | thinking (content : List Char)
  | toolCall (args : List Char)
deriving DecidableEq

inductive PartDelta
  | text (contentDelta : List Char)
  | thinking (contentDelta : Option (List Char))
  | toolCall (argsDelta : List Char)
deriving DecidableEq

/-- `getattr(delta, "content_delta", "")`, where it is a string. -/
def PartDelta.contentDelta : PartDelta → Option (List Char)
  | .text contentDelta => some contentDelta
  | .thinking contentDelta => contentDelta
  | .toolCall _ => none

inductive StreamEvent
  | partStart (part : ResponsePart)
  | partDelta (delta : PartDelta)
  | runResult (output : List Char)
  | other
deriving DecidableEq

/-- `_part_text`. -/
def partText (value : Option (List Char)) : List Char := value.getD []

/-- What a turn of the loop in `_stream` accepts. -/
def streamed : StreamEvent → List Char
  | .partStart (.text content) => partText (some content)
  | .partStart _ => []
  | .partDelta delta => partText delta.contentDelta
  | .runResult _ => []
  | .other => []

/-- What `_stream` returns: the output of the last result. -/
def streamResult (events : List StreamEvent) : List Char :=
  events.foldl (fun result event =>
    match event with
    | .runResult output => output
    | _ => result) []

/-- How `_run` leaves the stream. It may fail or be stopped after any of its events. -/
inductive StreamOutcome
  | completed
  | failed
  | cancelled
  | interrupted
deriving DecidableEq

/-- The text that takes the place of what was streamed. -/
def finalText (events : List StreamEvent) (outcome : StreamOutcome) : Option (List Char) :=
  if outcome = .completed ∧ streamResult events ≠ [] then some (streamResult events) else none

def streamSteps (events : List StreamEvent) (outcome : StreamOutcome) : List TurnStep :=
  turnSteps (events.map streamed) (finalText events outcome)

/-- What an event brings of the answer: the text parts. -/
def answered : StreamEvent → List Char
  | .partStart (.text content) => content
  | .partDelta (.text contentDelta) => contentDelta
  | _ => []

/-- What an event's thinking delta says. -/
def thought : StreamEvent → List Char
  | .partDelta (.thinking (some contentDelta)) => contentDelta
  | _ => []

/-- The turn accumulates and hands on the answer's text alone, its readers are sent pieces of
it, and it is what is stored unless the run's own answer replaces it. -/
structure AnswerOnly (events : List StreamEvent) (outcome : StreamOutcome) {T : Type*}
    (final : RunningTurn T) : Prop where
  accepted : TurnStep.accepted (streamSteps events outcome) = events.flatMap answered
  published : Cut (events.flatMap answered) 0
    (final.coalescer.published.map AgentTextPartial.fragment)
  stored : final.receivedText = (finalText events outcome).getD (events.flatMap answered)

theorem accepted_turnSteps (chunks : List (List Char)) (answer : Option (List Char)) :
    TurnStep.accepted (turnSteps chunks answer) = chunks.flatten := by
  rw [turnSteps, accepted_append, accepted_chunks]
  cases answer <;> simp [TurnStep.accepted]

theorem shown_turnSteps (chunks : List (List Char)) (answer : Option (List Char)) :
    (turnSteps chunks answer).foldl TurnStep.shown [] = answer.getD chunks.flatten := by
  rw [turnSteps, List.foldl_append, shown_chunks, List.nil_append]
  cases answer <;> simp [TurnStep.shown]

theorem accepted_streamSteps (events : List StreamEvent) (outcome : StreamOutcome) :
    TurnStep.accepted (streamSteps events outcome) = events.flatMap streamed := by
  rw [streamSteps, accepted_turnSteps, List.flatMap_def]

theorem streamed_eq (event : StreamEvent) : streamed event = answered event ++ thought event := by
  match event with
  | .partStart (.text content) => exact (List.append_nil _).symm
  | .partStart (.thinking _) | .partStart (.toolCall _) => rfl
  | .partDelta (.text content) => exact (List.append_nil _).symm
  | .partDelta (.thinking none) | .partDelta (.thinking (some _)) => rfl
  | .partDelta (.toolCall _) => rfl
  | .runResult _ | .other => rfl

/-- What is streamed is the answer exactly where no thinking is streamed. -/
theorem streamed_eq_iff (events : List StreamEvent) :
    events.flatMap streamed = events.flatMap answered ↔ ∀ event ∈ events, thought event = [] := by
  constructor
  · intro h
    have hlength : (events.flatMap streamed).length =
        (events.flatMap answered).length + (events.flatMap thought).length := by
      clear h
      induction events with
      | nil => rfl
      | cons event rest ih =>
        simp only [List.flatMap_cons, List.length_append, ih, streamed_eq]
        omega
    rw [h] at hlength
    have hnone : events.flatMap thought = [] := List.length_eq_zero_iff.mp (by omega)
    exact List.flatMap_eq_nil_iff.mp hnone
  · intro h
    exact List.flatMap_congr (fun event hevent => by rw [streamed_eq, h event hevent,
      List.append_nil])

/-- Every turn comes to its end, and only the answer's text is streamed and stored exactly
where no delta of thinking carries any. -/
theorem answer_only_iff {T : Type*} (o : Outside T) (turnId messageId : ℕ)
    (events : List StreamEvent) (outcome : StreamOutcome) :
    ∃ final, run o (.start turnId messageId) (streamSteps events outcome) = .ok final ∧
      (AnswerOnly events outcome final ↔ ∀ event ∈ events, thought event = []) := by
  obtain ⟨final, hrun⟩ := run_turnSteps_ok o turnId messageId (events.map streamed)
    (finalText events outcome)
  refine ⟨final, hrun, fun h => ?_, fun h => ?_⟩
  · exact (streamed_eq_iff events).mp ((accepted_streamSteps events outcome).symm.trans h.accepted)
  · have hsame := (streamed_eq_iff events).mpr h
    obtain ⟨sent, hsent⟩ := run_published sound_initial hrun
    refine ⟨(accepted_streamSteps events outcome).trans hsame, ?_, ?_⟩
    · have hcut := hsent.sound.cut
      rwa [List.nil_append, ← streamSteps, accepted_streamSteps, hsame] at hcut
    · rw [run_receivedText hrun, ← hsame, List.flatMap_def]
      exact shown_turnSteps _ _

/-- A model that thinks before it answers, and a person who stops it. -/
def thinkingEvents : List StreamEvent :=
  [.partStart (.thinking []), .partDelta (.thinking (some "hm, ".toList)),
    .partStart (.text "yes".toList)]

def everyChunk : Outside Unit := ⟨fun _ => (), fun _ _ => true, fun _ => true⟩

theorem thinking_is_stored :
    ∃ final, run everyChunk (.start 1 2) (streamSteps thinkingEvents .cancelled) = .ok final ∧
      ¬ AnswerOnly thinkingEvents .cancelled final ∧
      thinkingEvents.flatMap answered = "yes".toList ∧
      final.receivedText = "hm, yes".toList ∧
      final.coalescer.published = [⟨1, 2, 0, "hm, ".toList⟩, ⟨1, 2, 4, "yes".toList⟩] := by
  refine ⟨_, rfl, ?_, ?_, ?_, ?_⟩
  · intro h
    exact absurd h.accepted (by decide)
  all_goals decide

end Grafy.TextPartials
